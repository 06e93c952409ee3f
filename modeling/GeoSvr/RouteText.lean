import GeoSvr.Relay

/-! # Routes as text

`ofr_tostring` writes the ids of the roads of a route with commas between them, and `extract_ofr`
reads such a text back.  Reading what was written gives the roads of the map with these ids back,
whatever the length of the route.

`extract_ofr` is given texts of other hosts, too, and takes one road for every token.  It does not
look whether `sscanf` found a number, so that a token without one repeats the road before it, and it
takes the number at the beginning of a token for the whole of it; a number that no road has becomes
a road with the id −1.  A token is `Readable` when nothing of this happens. -/

namespace GeoSvr.Daemon

open MapManager (Route Map)
open Text

variable {R : Type*} {n : ℕ}

/-- The road is named by the token. -/
def Names (t : List Char) (r : Route) : Prop := Numeral t r.roadid

/-- There is a road with the id; −1 is the id of a route that was not found. -/
def Known (m : Map R n) (i : ℤ) : Prop := i = -1 ∨ ∃ e ∈ m.edges, e.id = i

/-- The token is a numeral of an `int` that is the id of a road. -/
def Readable (m : Map R n) (t : List Char) : Prop := ∃ i, Numeral t i ∧ IsInt i ∧ Known m i

theorem roadid_getRouteById_iff {m : Map R n} {i : ℤ} :
    (m.getRouteById i).roadid = i ↔ Known m i := by
  unfold Map.getRouteById Known
  cases h : m.edges.find? (fun e => e.id == i) with
  | none =>
      have hno : ¬ ∃ e ∈ m.edges, e.id = i := by
        rintro ⟨e, he, rfl⟩
        exact absurd (List.find?_eq_none.mp h e he) (by simp)
      simp only [hno, or_false]
      exact eq_comm
  | some e =>
      have hid : e.id = i := by simpa using List.find?_some h
      exact iff_of_true hid (Or.inr ⟨e, List.mem_of_find?_eq_some h, hid⟩)

/-- A token that is read gives the road it names. -/
theorem names_of_readable {m : Map R n} {t : List Char} (h : Readable m t) (id : Option ℤ) :
    ∃ i, sscanfId t id = some (some i) ∧ Names t (m.getRouteById i) := by
  obtain ⟨i, hnum, hint, hknown⟩ := h
  refine ⟨i, ?_, ?_⟩
  · rw [sscanfId, scanInt_numeral hnum]
    exact if_pos hint
  · rw [Names, roadid_getRouteById_iff.mpr hknown]
    exact hnum

/-- A token that names the road it gave can be read. -/
theorem readable_of_names {m : Map R n} {t : List Char} {i : ℤ} {id : Option ℤ}
    (hs : sscanfId t id = some (some i)) (h : Names t (m.getRouteById i)) : Readable m t := by
  have hscan := scanInt_numeral h
  unfold sscanfId at hs
  rw [hscan] at hs
  simp only at hs
  split_ifs at hs with hint
  have hi : (m.getRouteById i).roadid = i := by simpa using hs
  rw [Names, hi] at h
  rw [hi] at hint
  exact ⟨i, h, hint, roadid_getRouteById_iff.mp hi⟩

/-- Every road is named by its token exactly when every token can be read. -/
theorem extractItems_named {m : Map R n} : ∀ {l : List (List Char)} {id : Option ℤ},
    (∃ roads, extractItems m id l = some roads ∧ List.Forall₂ Names l roads) ↔
      ∀ t ∈ l, Readable m t
  | [], id => iff_of_true ⟨[], rfl, List.Forall₂.nil⟩ (fun t ht => absurd ht List.not_mem_nil)
  | t :: l, id => by
      rw [List.forall_mem_cons]
      constructor
      · rintro ⟨roads, he, hnames⟩
        unfold extractItems at he
        cases hs : sscanfId t id with
        | none => rw [hs] at he; cases he
        | some o =>
            rw [hs] at he
            cases o with
            | none => cases he
            | some i =>
                obtain ⟨roads', hr, rfl⟩ := Option.map_eq_some_iff.mp he
                obtain ⟨hname, hrest⟩ := List.forall₂_cons.mp hnames
                exact ⟨readable_of_names hs hname, extractItems_named.mp ⟨roads', hr, hrest⟩⟩
      · rintro ⟨hread, hall⟩
        obtain ⟨i, hs, hname⟩ := names_of_readable hread id
        obtain ⟨roads, hr, hrest⟩ := (@extractItems_named m l (some i)).mpr hall
        refine ⟨m.getRouteById i :: roads, ?_, List.Forall₂.cons hname hrest⟩
        rw [extractItems, hs]
        simp only [hr, Option.map_some]

/-- Every road that is read from the string `s` is named by the token in its place. -/
def ReadsBack (m : Map R n) (msg : NlMsg) (s : List Char) : Prop :=
  ∃ roads, extractOfr m msg = some roads ∧ List.Forall₂ Names (tokens ',' s) roads

theorem readsBack_iff {m : Map R n} {msg : NlMsg} {s rest : List Char} (hs : nul ∉ s)
    (h : toChars msg.route = s ++ nul :: rest) :
    ReadsBack m msg s ↔ ∀ t ∈ tokens ',' s, Readable m t := by
  unfold ReadsBack extractOfr
  rw [h, items_tokens (by decide) hs, Option.bind_some]
  exact extractItems_named

/-- Reading what was written gives the roads of the map back. -/
theorem extract_written {m : Map R n} (hids : ∀ e ∈ m.edges, IsInt e.id) {ofr : List Route}
    (hofr : ∀ r ∈ ofr, ∃ e ∈ m.edges, e.id = r.roadid) {msg : NlMsg} {rest : List Char}
    (h : toChars msg.route = ofrTostring ofr ++ nul :: rest) :
    extractOfr m msg = some (ofr.map (fun r => m.getRouteById r.roadid)) ∧
      (ofr.map (fun r => m.getRouteById r.roadid)).map Route.roadid = ofr.map Route.roadid := by
  have hint : ∀ r ∈ ofr, IsInt r.roadid := by
    intro r hr
    obtain ⟨e, he, hid⟩ := hofr r hr
    rw [← hid]
    exact hids e he
  constructor
  · rw [extractOfr, h, items_ofrTostring, Option.bind_some]
    exact extractItems_intDigits m none hint
  · rw [List.map_map]
    apply List.map_congr_left
    intro r hr
    exact roadid_getRouteById_iff.mpr (Or.inr (hofr r hr))

/-- **The codec of routes.**  What was written is read back; and the roads that are read from any
string are those its tokens name exactly when every token is a numeral of the id of a road. -/
theorem codec_iff {m : Map R n} (hids : ∀ e ∈ m.edges, IsInt e.id) :
    (∀ ofr msg rest, (∀ r ∈ ofr, ∃ e ∈ m.edges, e.id = r.roadid) →
      toChars msg.route = ofrTostring ofr ++ nul :: rest →
        extractOfr m msg = some (ofr.map (fun r => m.getRouteById r.roadid)) ∧
        (ofr.map (fun r => m.getRouteById r.roadid)).map Route.roadid = ofr.map Route.roadid) ∧
    ∀ msg s rest, nul ∉ s → toChars msg.route = s ++ nul :: rest →
      (ReadsBack m msg s ↔ ∀ t ∈ tokens ',' s, Readable m t) :=
  ⟨fun _ _ _ hofr h => extract_written hids hofr h, fun _ _ _ hs h => readsBack_iff hs h⟩

/-! ### A text of another host -/

/-- The texts `7,7` and `7`. -/
theorem codec_iff_sample :
    extractOfr (hostWith 1 7).map { sampleRequest with route := [55, 44, 55, 0] } =
      some [⟨7, 0, 1, 3⟩, ⟨7, 0, 1, 3⟩] ∧
    ReadsBack (hostWith 1 7).map { sampleRequest with route := [55, 0] } ['7'] := by
  have hids : ∀ e ∈ (hostWith 1 7).map.edges, IsInt e.id := by
    intro e he
    obtain rfl | he := List.mem_cons.mp he
    · exact ⟨by decide, by decide⟩
    · cases List.mem_singleton.mp he
      exact ⟨by decide, by decide⟩
  obtain ⟨hwritten, hread⟩ := codec_iff hids
  refine ⟨(hwritten [⟨7, 0, 1, 3⟩, ⟨7, 0, 1, 3⟩] _ [] ?_ rfl).1,
    (hread _ ['7'] [] (by decide) rfl).mpr ?_⟩
  · intro r hr
    have h7 : r.roadid = 7 := by
      simp only [List.mem_cons, List.not_mem_nil, or_false, or_self] at hr
      rw [hr]
    exact ⟨_, List.mem_cons_self, h7.symm⟩
  · intro t ht
    have ht' : t = ['7'] := by
      have htokens : tokens ',' ['7'] = [['7']] := by decide
      rw [htokens] at ht
      exact List.mem_singleton.mp ht
    subst ht'
    exact ⟨7, numeral_intDigits 7, ⟨by decide, by decide⟩, Or.inr ⟨_, List.mem_cons_self, rfl⟩⟩

/-- The text `7,x`: the second token has no number, and the road 7 is taken once more. -/
theorem old_number_repeated :
    extractOfr (hostWith 1 7).map (requestWith [55, 44, 120]) = some [⟨7, 0, 1, 3⟩, ⟨7, 0, 1, 3⟩] ∧
      tokens ',' ['7', ',', 'x'] = [['7'], ['x']] ∧
      ¬ ReadsBack (hostWith 1 7).map (requestWith [55, 44, 120]) ['7', ',', 'x'] := by
  have hroads : extractOfr (hostWith 1 7).map (requestWith [55, 44, 120]) =
      some [⟨7, 0, 1, 3⟩, ⟨7, 0, 1, 3⟩] := rfl
  have htokens : tokens ',' ['7', ',', 'x'] = [['7'], ['x']] := by decide
  refine ⟨hroads, htokens, ?_⟩
  rintro ⟨roads, he, hnames⟩
  rw [hroads] at he
  cases he
  rw [htokens] at hnames
  obtain ⟨-, hrest⟩ := List.forall₂_cons.mp hnames
  have hscan := scanInt_numeral (List.forall₂_cons.mp hrest).1
  exact absurd hscan (by decide)

end GeoSvr.Daemon
