import GeoSvr.PathSearch

/-! # Source and destination (`getSrcAndDst`)

One pass over the roads finds the end of the source road and, from that, the end of the
destination road; it reads what it has not set unless it comes to the source road first
(`getSrcAndDst_cases`).  Which roads are found depends on the order of the roads, too: among those
that `CanFind` allows it is the one that comes first (`roadAt_head`).

`OrderFree` says when neither matters: every road that can be found for the destination can be
found for the source, all of the latter have the same end nearest to the source, and the former
lead from it to the same junction. -/

namespace GeoSvr.MsvrMap

open MapManager (Edge Map)

variable {R : Type*} {n : ℕ}

/-! ### Definitions -/

section scalar

variable [Scalar R]

/-- The position is on a road. -/
def OnRoad (m : Map R n) (x y : R) : Prop :=
  ∃ e ∈ m.edges, inBox m e.source e.target x y = true

/-- `getRoadByPos` finds the road in some order of the roads. -/
structure CanFind (m : Map R n) (x y : R) (e : Edge n) : Prop where
  mem : e ∈ m.edges
  box : inBox m e.source e.target x y = true
  least : ∀ f ∈ m.edges, inBox m f.source f.target x y = true → e.source ≤ f.source

/-- The end of the road that is nearest to the position. -/
def nearEnd (m : Map R n) (x y : R) (e : Edge n) : Fin n :=
  if Scalar.lt (distFrom m e.source x y) (distFrom m e.target x y) then e.source else e.target

/-- The other end of the road, or that which is farther from `v`. -/
def farEnd (m : Map R n) (v : Fin n) (e : Edge n) : Fin n :=
  if v = e.source then e.target
  else if v = e.target then e.source
  else if Scalar.lt (dist m e.target v) (dist m e.source v) then e.source
  else e.target

/-- Neither the order of the roads nor the pass matters.  In the second condition, a road in the
other direction would make `getRoadByPos` look for the road to `s.target` before it comes to it. -/
structure OrderFree (m : Map R n) (x1 y1 x2 y2 : R) (r : Fin n × Fin n) : Prop where
  found : ∀ d, CanFind m x2 y2 d → CanFind m x1 y1 d
  oneWay : ∀ s, CanFind m x1 y1 s → (∀ d, CanFind m x2 y2 d → d.target ≠ s.target) →
    s.target ≠ s.source → ∀ f ∈ m.edges, f.source = s.target → f.target ≠ s.source
  nearest : ∀ s, CanFind m x1 y1 s → nearEnd m x1 y1 s = r.1
  other : ∀ d, CanFind m x2 y2 d → d.joins r.1 r.2 = true

end scalar

/-- The ends of a road. -/
def HasEnd (e : Edge n) (v : Fin n) : Prop := v = e.source ∨ v = e.target

/-- What `getSrcAndDst` is to do: it returns `r`, which does not depend on what was in `x` and `y`,
and the ends are the right ones. -/
structure EndsRight (m : Map ℝ (n + 1)) (junk : ℝ × ℝ) (x1 y1 x2 y2 : ℝ)
    (r : Fin (n + 1) × Fin (n + 1)) : Prop where
  result : ((getSrcAndDst m junk x1 y1 x2 y2).first, (getSrcAndDst m junk x1 y1 x2 y2).second) = r
  unset : (getSrcAndDst m junk x1 y1 x2 y2).unset = false
  nearest : ∀ s, roadAt m x1 y1 = some s →
    HasEnd s r.1 ∧ ∀ v, HasEnd s v → distFrom m r.1 x1 y1 ≤ distFrom m v x1 y1
  other : ∀ d, roadAt m x2 y2 = some d → HasEnd d r.1 → d.joins r.1 r.2 = true
  farther : ∀ d, roadAt m x2 y2 = some d → ¬ HasEnd d r.1 →
    HasEnd d r.2 ∧ ∀ v, HasEnd d v → dist m v r.1 ≤ dist m r.2 r.1

/-! ### The road at a position -/

section scalar

variable [Scalar R] {m : Map R n} {x y : R}

theorem findSome?_finRange {β : Type*} {f : Fin n → Option β} {b : β} :
    (List.finRange n).findSome? f = some b ↔ ∃ v, f v = some b ∧ ∀ u < v, f u = none := by
  rw [List.findSome?_eq_some_iff]
  constructor
  · rintro ⟨pre, v, post, hsplit, hv, hpre⟩
    refine ⟨v, hv, fun u hu => hpre u ?_⟩
    have hpair := List.pairwise_lt_finRange n
    have hmem := List.mem_finRange u
    rw [hsplit] at hpair hmem
    obtain hm | hm := List.mem_append.mp hmem
    · exact hm
    · obtain rfl | hm := List.mem_cons.mp hm
      · exact absurd hu (lt_irrefl _)
      · have hlater := (List.pairwise_cons.mp (List.pairwise_append.mp hpair).2.1).1 u hm
        exact absurd hu (lt_asymm hlater)
  · rintro ⟨v, hv, hless⟩
    obtain ⟨pre, post, hsplit⟩ := List.append_of_mem (List.mem_finRange v)
    refine ⟨pre, v, post, hsplit, hv, fun u hu => hless u ?_⟩
    have hpair := List.pairwise_lt_finRange n
    rw [hsplit] at hpair
    exact (List.pairwise_append.mp hpair).2.2 u hu v List.mem_cons_self

omit [Scalar R] in
theorem mem_adjacentVertices {u v : Fin n} :
    v ∈ adjacentVertices m u ↔ ∃ e ∈ m.edges, e.joins u v = true := by
  simp only [adjacentVertices, List.mem_flatMap, List.mem_append, Edge.joins_iff]
  refine exists_congr fun e => and_congr_right fun _ => or_congr ?_ ?_
  · split_ifs with h <;> simp [h, eq_comm]
  · split_ifs with h <;> simp [h, eq_comm]

theorem roadTo_some {v a : Fin n} {e : Edge n} (h : roadTo m x y v a = some e) :
    e ∈ m.edges ∧ e.source = v ∧ e.target = a ∧ inBox m v a x y = true := by
  unfold roadTo at h
  split_ifs at h with hbox
  have hends := List.find?_some h
  simp only [Bool.and_eq_true, beq_iff_eq] at hends
  exact ⟨List.mem_of_find?_eq_some h, hends.1, hends.2, hbox⟩

theorem roadTo_none {v a : Fin n} (h : roadTo m x y v a = none) {e : Edge n} (he : e ∈ m.edges)
    (hs : e.source = v) (ht : e.target = a) : inBox m v a x y = false := by
  by_contra hbox
  unfold roadTo at h
  rw [if_pos (by simpa using hbox), List.find?_eq_none] at h
  exact h e he (by simp [hs, ht])

theorem exists_roadTo {e : Edge n} (he : e ∈ m.edges)
    (hbox : inBox m e.source e.target x y = true) :
    ∃ f, roadTo m x y e.source e.target = some f := by
  apply Option.ne_none_iff_exists'.mp
  intro hnone
  rw [roadTo_none hnone he rfl rfl] at hbox
  cases hbox

/-- Only the box depends on the position. -/
theorem roadTo_congr {x' y' : R} {v a : Fin n} (h : inBox m v a x y = true)
    (h' : inBox m v a x' y' = true) : roadTo m x y v a = roadTo m x' y' v a := by
  rw [roadTo, if_pos h, roadTo, if_pos h']

theorem roadFrom_some {v : Fin n} {e : Edge n} (h : roadFrom m x y v = some e) :
    e ∈ m.edges ∧ e.source = v ∧ inBox m v e.target x y = true := by
  obtain ⟨ai, -, hai⟩ := List.exists_of_findSome?_eq_some h
  obtain ⟨hmem, hs, rfl, hbox⟩ := roadTo_some hai
  exact ⟨hmem, hs, hbox⟩

theorem roadFrom_none_iff {v : Fin n} : roadFrom m x y v = none ↔
    ∀ e ∈ m.edges, e.source = v → inBox m v e.target x y = false := by
  rw [roadFrom, List.findSome?_eq_none_iff]
  constructor
  · intro h e he hs
    have hadj : e.target ∈ adjacentVertices m v :=
      mem_adjacentVertices.mpr ⟨e, he, Edge.joins_iff.mpr (Or.inl ⟨hs, rfl⟩)⟩
    exact roadTo_none (h _ hadj) he hs rfl
  · intro h ai _
    by_contra hsome
    obtain ⟨e, he⟩ := Option.ne_none_iff_exists'.mp hsome
    obtain ⟨hmem, hs, rfl, hbox⟩ := roadTo_some he
    rw [h e hmem hs] at hbox
    cases hbox

theorem roadAt_eq_some {e : Edge n} : roadAt m x y = some e ↔
    roadFrom m x y e.source = some e ∧ ∀ u < e.source, roadFrom m x y u = none := by
  rw [roadAt, findSome?_finRange]
  constructor
  · rintro ⟨v, hv, hless⟩
    rw [(roadFrom_some hv).2.1]
    exact ⟨hv, hless⟩
  · exact fun h => ⟨e.source, h⟩

/-- What is found can be found. -/
theorem canFind_of_roadAt {e : Edge n} (h : roadAt m x y = some e) : CanFind m x y e := by
  obtain ⟨hfrom, hless⟩ := roadAt_eq_some.mp h
  obtain ⟨hmem, -, hbox⟩ := roadFrom_some hfrom
  refine ⟨hmem, hbox, fun f hf hfbox => ?_⟩
  by_contra hlt
  rw [roadFrom_none_iff.mp (hless f.source (not_le.mp hlt)) f hf rfl] at hfbox
  cases hfbox

/-- The roads that can be found begin at one vertex. -/
theorem CanFind.source_eq {e f : Edge n} (he : CanFind m x y e) (hf : CanFind m x y f) :
    e.source = f.source :=
  le_antisymm (he.least f hf.mem hf.box) (hf.least e he.mem he.box)

theorem CanFind.of_source {e f : Edge n} (he : CanFind m x y e) (hf : f ∈ m.edges)
    (hbox : inBox m f.source f.target x y = true) (hs : f.source = e.source) : CanFind m x y f :=
  ⟨hf, hbox, fun g hg hgbox => hs ▸ he.least g hg hgbox⟩

/-- On a road there is one to be found. -/
theorem roadAt_of_onRoad (h : OnRoad m x y) : ∃ e, roadAt m x y = some e := by
  obtain ⟨e, he, hbox⟩ := h
  apply Option.ne_none_iff_exists'.mp
  intro hnone
  have hfrom := List.findSome?_eq_none_iff.mp hnone e.source (List.mem_finRange _)
  rw [roadFrom_none_iff.mp hfrom e he rfl] at hbox
  cases hbox

/-- The vertex that the search begins with. -/
theorem roadAt_of_roadFrom {e : Edge n} (h : roadFrom m x y e.source = some e)
    (hleast : ∀ f ∈ m.edges, inBox m f.source f.target x y = true → e.source ≤ f.source) :
    roadAt m x y = some e := by
  refine roadAt_eq_some.mpr ⟨h, fun u hu => roadFrom_none_iff.mpr ?_⟩
  rintro f hf rfl
  by_contra hbox
  exact absurd hu (not_lt.mpr (hleast f hf (by simpa using hbox)))

/-- The first road of all is found, if it can be. -/
theorem roadAt_head {e : Edge n} {es : List (Edge n)} (h : m.edges = e :: es)
    (hfind : CanFind m x y e) : roadAt m x y = some e := by
  refine roadAt_of_roadFrom ?_ hfind.least
  have hto : roadTo m x y e.source e.target = some e := by
    rw [roadTo, if_pos hfind.box, h]
    exact List.find?_cons_of_pos (by simp)
  rw [roadFrom, adjacentVertices, h, List.flatMap_cons, if_pos rfl]
  exact (List.findSome?_cons_of_isSome (by rw [hto]; rfl)).trans hto

theorem idxOf_le_iff {α : Type*} [DecidableEq α] {pre post : List α} {s d : α} (hs : s ∉ pre) :
    (pre ++ s :: post).idxOf s ≤ (pre ++ s :: post).idxOf d ↔ d ∉ pre := by
  rw [List.idxOf_append_of_notMem hs, List.idxOf_cons_self, Nat.add_zero]
  by_cases hd : d ∈ pre
  · have hlt := List.idxOf_lt_length_iff.mpr hd
    rw [List.idxOf_append_of_mem hd]
    exact iff_of_false (by omega) (fun h => h hd)
  · rw [List.idxOf_append_of_notMem hd]
    exact iff_of_true (Nat.le_add_right _ _) hd

/-- A scan takes a road that it comes to before another. -/
theorem roadTo_mem {pre post : List (Edge n)} (h : m.edges = pre ++ post) {v a : Fin n}
    {e f : Edge n} (he : roadTo m x y v a = some e) (hf : f ∈ pre) (hs : f.source = v) (ht : f.target = a) :
    e ∈ pre := by
  obtain ⟨-, -, -, hbox⟩ := roadTo_some he
  rw [roadTo, if_pos hbox, h, List.find?_append] at he
  cases hpre : pre.find? (fun e => e.source == v && e.target == a) with
  | none => exact absurd (by simp [hs, ht]) (List.find?_eq_none.mp hpre f hf)
  | some g =>
      rw [hpre, Option.some_or] at he
      cases he
      exact List.mem_of_find?_eq_some hpre

/-- The vertices adjacent by the first roads come first in the scan. -/
theorem roadFrom_append {pre post : List (Edge n)} (h : m.edges = pre ++ post) {v : Fin n} :
    roadFrom m x y v =
      ((adjacentVertices { m with edges := pre } v).findSome? (roadTo m x y v)).or
        ((adjacentVertices { m with edges := post } v).findSome? (roadTo m x y v)) := by
  rw [roadFrom, adjacentVertices, h, List.flatMap_append, List.findSome?_append]
  rfl

/-- With a road to be found among the first ones, the scan stops at a vertex of theirs. -/
theorem roadFrom_of_mem {pre post : List (Edge n)} (h : m.edges = pre ++ post) {d e : Edge n}
    (hd : d ∈ pre) (hbox : inBox m d.source d.target x y = true)
    (hfrom : roadFrom m x y d.source = some e) :
    (adjacentVertices { m with edges := pre } d.source).findSome? (roadTo m x y d.source) =
      some e := by
  rw [roadFrom_append h] at hfrom
  cases hpre : (adjacentVertices { m with edges := pre } d.source).findSome?
      (roadTo m x y d.source) with
  | none =>
      have hadj : d.target ∈ adjacentVertices { m with edges := pre } d.source :=
        mem_adjacentVertices.mpr ⟨d, hd, Edge.joins_iff.mpr (Or.inl ⟨rfl, rfl⟩)⟩
      have hnone := List.findSome?_eq_none_iff.mp hpre _ hadj
      rw [roadTo_none hnone (h ▸ List.mem_append_left post hd) rfl rfl] at hbox
      cases hbox
  | some f =>
      rw [hpre, Option.some_or] at hfrom
      exact hfrom

/-- A later road that is found at a vertex of the first roads: one of them leads back. -/
theorem exists_back {pre post : List (Edge n)} (h : m.edges = pre ++ post) {v a : Fin n}
    {s : Edge n} (hs : s ∉ pre) (hadj : a ∈ adjacentVertices { m with edges := pre } v)
    (ha : roadTo m x y v a = some s) :
    s.target ≠ s.source ∧ ∃ f ∈ pre, f.source = s.target ∧ f.target = s.source := by
  obtain ⟨-, hsource, htarget, -⟩ := roadTo_some ha
  obtain ⟨f, hf, hjoin⟩ := mem_adjacentVertices.mp hadj
  have hforward : ¬ (f.source = v ∧ f.target = a) :=
    fun hends => hs (roadTo_mem h ha hf hends.1 hends.2)
  have hback : f.source = a ∧ f.target = v := by
    obtain hends | hends := Edge.joins_iff.mp hjoin
    · exact absurd hends hforward
    · exact hends
  rw [hsource, htarget]
  refine ⟨?_, f, hf, hback⟩
  rintro rfl
  exact hforward hback

section orderFree

variable {x1 y1 x2 y2 : R} {r : Fin n × Fin n} {s d : Edge n}

/-- The scan for the destination stops nowhere but where that for the source does. -/
theorem OrderFree.passes_by (h : OrderFree m x1 y1 x2 y2 r) (hd : CanFind m x2 y2 d) {a : Fin n}
    (ha : roadTo m x1 y1 d.source a = none) : roadTo m x2 y2 d.source a = none := by
  by_contra hsome
  obtain ⟨e, he⟩ := Option.ne_none_iff_exists'.mp hsome
  obtain ⟨hmem, hs, rfl, hbox⟩ := roadTo_some he
  rw [← hs] at hbox
  have hbox1 := (h.found e (hd.of_source hmem hbox hs)).box
  rw [hs, roadTo_none ha hmem hs rfl] at hbox1
  cases hbox1

/-- So it stops at the same road, if the destination is in the box. -/
theorem OrderFree.stops_with (h : OrderFree m x1 y1 x2 y2 r) (hd : CanFind m x2 y2 d)
    {l : List (Fin n)} (hstop : l.findSome? (roadTo m x1 y1 d.source) = some s)
    (hbox : inBox m s.source s.target x2 y2 = true) :
    l.findSome? (roadTo m x2 y2 d.source) = some s := by
  obtain ⟨l₁, a, l₂, hl, ha, hnone⟩ := List.findSome?_eq_some_iff.mp hstop
  obtain ⟨-, hsource, htarget, hbox1⟩ := roadTo_some ha
  rw [hsource, htarget] at hbox
  rw [roadTo_congr hbox1 hbox] at ha
  exact List.findSome?_eq_some_iff.mpr
    ⟨l₁, a, l₂, hl, ha, fun u hu => h.passes_by hd (hnone u hu)⟩

/-- The road found for the source does not come after the one found for the destination. -/
theorem OrderFree.idxOf_le (h : OrderFree m x1 y1 x2 y2 r) (hnodup : m.edges.Nodup)
    (hs : roadAt m x1 y1 = some s) (hd : roadAt m x2 y2 = some d) :
    m.edges.idxOf s ≤ m.edges.idxOf d := by
  have hsfind := canFind_of_roadAt hs
  have hdfind := canFind_of_roadAt hd
  have hdfind1 := h.found d hdfind
  have hsource := hdfind1.source_eq hsfind
  obtain ⟨pre, post, hsplit⟩ := List.append_of_mem hsfind.mem
  have hnot : s ∉ pre := by
    rw [hsplit, List.nodup_append] at hnodup
    exact fun hmem => hnodup.2.2 s hmem s List.mem_cons_self rfl
  rw [hsplit, idxOf_le_iff hnot]
  intro hpre
  have hfrom := (roadAt_eq_some.mp hs).1
  rw [← hsource] at hfrom
  have hstop := roadFrom_of_mem hsplit hpre hdfind1.box hfrom
  obtain ⟨a, hadj, ha⟩ := List.exists_of_findSome?_eq_some hstop
  obtain ⟨hne, f, hf, hfs, hft⟩ := exists_back hsplit hnot hadj ha
  have hmem : f ∈ m.edges := hsplit ▸ List.mem_append_left _ hf
  refine h.oneWay s hsfind (fun d' hd' htarget => ?_) hne f hmem hfs hft
  -- otherwise the scan for the destination would stop there, too
  have hbox := hd'.box
  rw [hd'.source_eq hdfind, hsource, htarget] at hbox
  have hfrom2 := (roadAt_eq_some.mp hd).1
  rw [roadFrom_append hsplit, h.stops_with hdfind hstop hbox, Option.some_or] at hfrom2
  cases hfrom2
  exact hnot hpre

end orderFree

section backward

variable {f d : Edge n} {rest : List (Edge n)}

omit [Scalar R] in
/-- A road `f` in the other direction that comes first makes the scan look for a road to its
source before it comes to `d`. -/
theorem adjacentVertices_backward (h : m.edges = f :: d :: rest) (hft : f.target = d.source)
    (hfs : f.source ≠ d.source) :
    ∃ tail, adjacentVertices m d.source = f.source :: d.target :: tail := by
  rw [adjacentVertices, h, List.flatMap_cons, if_neg hfs, if_pos hft, List.flatMap_cons,
    if_pos rfl]
  exact ⟨_, rfl⟩

theorem roadAt_backward {s : Edge n} (h : m.edges = f :: d :: rest) (hft : f.target = d.source)
    (hfs : f.source ≠ d.source) (hd : CanFind m x y d)
    (hto : roadTo m x y d.source f.source = some s) : roadAt m x y = some s := by
  obtain ⟨tail, hadj⟩ := adjacentVertices_backward h hft hfs
  obtain ⟨-, hs, -⟩ := roadTo_some hto
  have hfrom : roadFrom m x y d.source = some s := by
    rw [roadFrom, hadj]
    exact (List.findSome?_cons_of_isSome (by rw [hto]; rfl)).trans hto
  rw [← hs] at hfrom
  exact roadAt_of_roadFrom hfrom (hs.symm ▸ hd.least)

theorem roadAt_past_backward (h : m.edges = f :: d :: rest) (hft : f.target = d.source)
    (hfs : f.source ≠ d.source) (hd : CanFind m x y d)
    (hto : roadTo m x y d.source f.source = none) : roadAt m x y = some d := by
  obtain ⟨tail, hadj⟩ := adjacentVertices_backward h hft hfs
  have hto' : roadTo m x y d.source d.target = some d := by
    rw [roadTo, if_pos hd.box, h, List.find?_cons_of_neg (by simp [hfs])]
    exact List.find?_cons_of_pos (by simp)
  refine roadAt_of_roadFrom ?_ hd.least
  rw [roadFrom, hadj, List.findSome?_cons_of_isNone (by rw [hto]; rfl)]
  exact (List.findSome?_cons_of_isSome (by rw [hto']; rfl)).trans hto'

end backward

end scalar

/-! ### The pass over the roads -/

section pass

variable [Scalar R] {m : Map R n} {i j : ℤ} {x1 y1 : R} {junk : R × R} {st : Ends R n}

theorem foldl_off : ∀ {es : List (Edge n)} {st : Ends R n}, (∀ e ∈ es, e.id ≠ i ∧ e.id ≠ j) →
    es.foldl (endsStep m i j x1 y1 junk) st = st
  | [], _, _ => rfl
  | e :: es, st, h => by
      obtain ⟨hi, hj⟩ := h e List.mem_cons_self
      rw [List.foldl_cons, endsStep]
      simp only [if_neg hi, if_neg hj]
      exact foldl_off (fun f hf => h f (List.mem_cons_of_mem _ hf))

/-- Roads with the destination road among them, without the source road. -/
theorem foldl_dest {d : Edge n} : ∀ {es : List (Edge n)} {st : Ends R n}, d ∈ es →
    (es.map Edge.id).Nodup → (∀ e ∈ es, e.id ≠ i) →
    es.foldl (endsStep m i d.id x1 y1 junk) st = setDest m junk st d
  | e :: es, st, hd, hids, hi => by
      obtain ⟨hnot, hrest⟩ := List.nodup_cons.mp hids
      have hi' := fun f hf => hi f (List.mem_cons_of_mem e hf)
      rw [List.foldl_cons, endsStep]
      simp only [if_neg (hi e List.mem_cons_self)]
      obtain rfl | hd := List.mem_cons.mp hd
      · rw [if_pos rfl]
        exact foldl_off (fun f hf => ⟨hi' f hf, fun he => hnot (he ▸ List.mem_map_of_mem hf)⟩)
      · have hne : e.id ≠ d.id := fun he => hnot (he ▸ List.mem_map_of_mem hd)
        rw [if_neg hne]
        exact foldl_dest hd hrest hi'

theorem foldl_unset : ∀ {es : List (Edge n)} {st : Ends R n}, st.unset = true →
    (es.foldl (endsStep m i j x1 y1 junk) st).unset = true
  | [], _, h => h
  | e :: es, st, h => by
      rw [List.foldl_cons]
      apply foldl_unset
      unfold endsStep
      split_ifs <;> simp [setDest, setSource, h]

variable {pre post : List (Edge n)} {s d : Edge n}

/-- The pass when the source road comes first. -/
theorem foldl_of_first (hids : ((pre ++ s :: post).map Edge.id).Nodup) (hd : d ∈ pre ++ s :: post)
    (hpre : d ∉ pre) : (pre ++ s :: post).foldl (endsStep m s.id d.id x1 y1 junk) st =
      setDest m junk (setSource m x1 y1 st s) d := by
  have hinj := fun a ha b hb => List.inj_on_of_nodup_map hids (x := a) ha (y := b) hb
  rw [List.map_append, List.map_cons, List.nodup_append] at hids
  obtain ⟨-, hpost, hapart⟩ := hids
  have hs : ∀ e ∈ pre, e.id ≠ s.id :=
    fun e he => hapart _ (List.mem_map_of_mem he) _ List.mem_cons_self
  have hoff : ∀ e ∈ pre, e.id ≠ s.id ∧ e.id ≠ d.id := by
    intro e he
    refine ⟨hs e he, fun hid => hpre ?_⟩
    rw [← hinj e (List.mem_append_left _ he) d hd hid]
    exact he
  obtain ⟨hnot, hrest⟩ := List.nodup_cons.mp hpost
  have hpost' : ∀ e ∈ post, e.id ≠ s.id := fun e he h => hnot (h ▸ List.mem_map_of_mem he)
  rw [List.foldl_append, foldl_off hoff, List.foldl_cons, endsStep]
  simp only [if_true]
  obtain hd | hd := List.mem_append.mp hd
  · exact absurd hd hpre
  · obtain rfl | hd := List.mem_cons.mp hd
    · rw [if_pos rfl]
      exact foldl_off (fun e he => ⟨hpost' e he, hpost' e he⟩)
    · rw [if_neg (fun h => hpost' d hd h.symm)]
      exact foldl_dest hd hrest hpost'

/-- The pass when the destination road comes first. -/
theorem foldl_of_not_first (hids : ((pre ++ s :: post).map Edge.id).Nodup) (hd : d ∈ pre)
    (hpos : st.pos = none) :
    ((pre ++ s :: post).foldl (endsStep m s.id d.id x1 y1 junk) st).unset = true := by
  rw [List.map_append, List.map_cons, List.nodup_append] at hids
  obtain ⟨hpre, -, hapart⟩ := hids
  have hs : ∀ e ∈ pre, e.id ≠ s.id :=
    fun e he => hapart _ (List.mem_map_of_mem he) _ List.mem_cons_self
  rw [List.foldl_append, foldl_dest hd hpre hs]
  apply foldl_unset
  rw [setDest, hpos]
  exact Bool.or_true _

end pass

/-! ### One order of the roads -/

/-- The two ways the pass can go. -/
theorem getSrcAndDst_cases [Scalar R] {m : Map R (n + 1)} (junk : R × R) {x1 y1 x2 y2 : R}
    {s d : Edge (n + 1)} (hids : (m.edges.map Edge.id).Nodup) (hs : roadAt m x1 y1 = some s)
    (hd : roadAt m x2 y2 = some d) :
    (m.edges.idxOf s ≤ m.edges.idxOf d ∧
      (getSrcAndDst m junk x1 y1 x2 y2).first = nearEnd m x1 y1 s ∧
      (getSrcAndDst m junk x1 y1 x2 y2).second = farEnd m (nearEnd m x1 y1 s) d ∧
      (getSrcAndDst m junk x1 y1 x2 y2).unset = false) ∨
    (¬ m.edges.idxOf s ≤ m.edges.idxOf d ∧ (getSrcAndDst m junk x1 y1 x2 y2).unset = true) := by
  have hsmem := (canFind_of_roadAt hs).mem
  have hdmem := (canFind_of_roadAt hd).mem
  obtain ⟨pre, post, hsplit⟩ := List.append_of_mem hsmem
  have hnot : s ∉ pre := by
    have hnodup := List.Nodup.of_map _ hids
    rw [hsplit, List.nodup_append] at hnodup
    exact fun h => hnodup.2.2 s h s List.mem_cons_self rfl
  unfold getSrcAndDst getRoadByPos
  rw [hs, hd]
  rw [hsplit] at hids hdmem ⊢
  rw [idxOf_le_iff hnot]
  by_cases hpre : d ∈ pre
  · exact Or.inr ⟨fun h => h hpre, foldl_of_not_first hids hpre rfl⟩
  · left
    simp only [foldl_of_first hids hdmem hpre]
    exact ⟨hpre, rfl, rfl, rfl⟩

section real

variable {m : Map ℝ n} {x y : ℝ}

theorem nearEnd_spec (e : Edge n) : HasEnd e (nearEnd m x y e) ∧
    ∀ v, HasEnd e v → distFrom m (nearEnd m x y e) x y ≤ distFrom m v x y := by
  unfold nearEnd
  split_ifs with h
  · refine ⟨Or.inl rfl, ?_⟩
    rintro v (rfl | rfl)
    · exact le_rfl
    · exact (MapManager.lt_iff.mp h).le
  · refine ⟨Or.inr rfl, ?_⟩
    rintro v (rfl | rfl)
    · exact not_lt.mp (fun hlt => h (MapManager.lt_iff.mpr hlt))
    · exact le_rfl

theorem farEnd_joins {e : Edge n} {v : Fin n} (h : HasEnd e v) :
    e.joins v (farEnd m v e) = true := by
  unfold farEnd
  split_ifs with hs ht
  · exact Edge.joins_iff.mpr (Or.inl ⟨hs.symm, rfl⟩)
  · exact Edge.joins_iff.mpr (Or.inr ⟨rfl, ht.symm⟩)
  · exact absurd h (not_or.mpr ⟨hs, ht⟩)
  · exact absurd h (not_or.mpr ⟨hs, ht⟩)

theorem farEnd_spec {e : Edge n} {v : Fin n} (h : ¬ HasEnd e v) : HasEnd e (farEnd m v e) ∧
    ∀ u, HasEnd e u → dist m u v ≤ dist m (farEnd m v e) v := by
  obtain ⟨hs, ht⟩ := not_or.mp h
  unfold farEnd
  rw [if_neg hs, if_neg ht]
  split_ifs with hlt
  · refine ⟨Or.inl rfl, ?_⟩
    rintro u (rfl | rfl)
    · exact le_rfl
    · exact (MapManager.lt_iff.mp hlt).le
  · refine ⟨Or.inr rfl, ?_⟩
    rintro u (rfl | rfl)
    · exact not_lt.mp (fun h => hlt (MapManager.lt_iff.mpr h))
    · exact le_rfl

/-- For one order of the roads. -/
theorem endsRight_iff_first {m : Map ℝ (n + 1)} {junk : ℝ × ℝ} {x1 y1 x2 y2 : ℝ}
    {r : Fin (n + 1) × Fin (n + 1)} {s d : Edge (n + 1)} (hids : (m.edges.map Edge.id).Nodup)
    (hs : roadAt m x1 y1 = some s) (hd : roadAt m x2 y2 = some d) :
    EndsRight m junk x1 y1 x2 y2 r ↔ m.edges.idxOf s ≤ m.edges.idxOf d ∧
      nearEnd m x1 y1 s = r.1 ∧ farEnd m r.1 d = r.2 := by
  obtain ⟨hle, hfirst, hsecond, hunset⟩ | ⟨hnot, hunset⟩ :=
    getSrcAndDst_cases junk hids hs hd
  · constructor
    · rintro ⟨rfl, -, -, -, -⟩
      exact ⟨hle, hfirst.symm, by rw [hfirst, hsecond]⟩
    · rintro ⟨-, hnear, hfar⟩
      refine ⟨Prod.ext (hfirst.trans hnear) ?_, hunset, ?_, ?_, ?_⟩
      · rw [hsecond, hnear, hfar]
      · intro s' hs'
        obtain rfl := Option.some.inj (hs.symm.trans hs')
        rw [← hnear]
        exact nearEnd_spec s
      · intro d' hd' hend
        obtain rfl := Option.some.inj (hd.symm.trans hd')
        rw [← hfar]
        exact farEnd_joins hend
      · intro d' hd' hend
        obtain rfl := Option.some.inj (hd.symm.trans hd')
        rw [← hfar]
        exact farEnd_spec hend
  · refine iff_of_false (fun h => ?_) (fun h => hnot h.1)
    rw [h.unset] at hunset
    cases hunset

end real

/-! ### All orders of the roads -/

section orders

variable {m : Map ℝ (n + 1)} {x y : ℝ} {junk : ℝ × ℝ} {x1 y1 x2 y2 : ℝ}
  {r : Fin (n + 1) × Fin (n + 1)} {es : List (Edge (n + 1))}

theorem canFind_perm (h : es.Perm m.edges) {e : Edge (n + 1)} :
    CanFind { m with edges := es } x y e ↔ CanFind m x y e := by
  constructor
  · rintro ⟨hmem, hbox, hleast⟩
    exact ⟨h.mem_iff.mp hmem, hbox, fun f hf => hleast f (h.mem_iff.mpr hf)⟩
  · rintro ⟨hmem, hbox, hleast⟩
    exact ⟨h.mem_iff.mpr hmem, hbox, fun f hf => hleast f (h.mem_iff.mp hf)⟩

theorem OnRoad.perm (h : es.Perm m.edges) (hon : OnRoad m x y) :
    OnRoad { m with edges := es } x y := by
  obtain ⟨e, he, hbox⟩ := hon
  exact ⟨e, h.mem_iff.mpr he, hbox⟩

theorem OrderFree.perm (h : OrderFree m x1 y1 x2 y2 r) (hperm : es.Perm m.edges) :
    OrderFree { m with edges := es } x1 y1 x2 y2 r where
  found d hd := (canFind_perm hperm).mpr (h.found d ((canFind_perm hperm).mp hd))
  oneWay s hs hd hne f hf := h.oneWay s ((canFind_perm hperm).mp hs)
    (fun d hd' => hd d ((canFind_perm hperm).mpr hd')) hne f (hperm.mem_iff.mp hf)
  nearest s hs := h.nearest s ((canFind_perm hperm).mp hs)
  other d hd := h.other d ((canFind_perm hperm).mp hd)

theorem joins_unique {e : Edge n} {u v w : Fin n} (hv : e.joins u v = true)
    (hw : e.joins u w = true) : v = w := by
  rw [Edge.joins_iff] at hv hw
  obtain ⟨h₁, h₂⟩ | ⟨h₁, h₂⟩ := hv <;> obtain ⟨h₃, h₄⟩ | ⟨h₃, h₄⟩ := hw
  · exact h₂.symm.trans h₄
  · exact (h₂.symm.trans h₄).trans (h₁.symm.trans h₃)
  · exact (h₁.symm.trans h₃).trans (h₂.symm.trans h₄)
  · exact h₁.symm.trans h₃

/-- Where the order does not matter, it does not. -/
theorem OrderFree.endsRight (h : OrderFree m x1 y1 x2 y2 r) (hids : (m.edges.map Edge.id).Nodup)
    (h1 : OnRoad m x1 y1) (h2 : OnRoad m x2 y2) : EndsRight m junk x1 y1 x2 y2 r := by
  obtain ⟨s, hs⟩ := roadAt_of_onRoad h1
  obtain ⟨d, hd⟩ := roadAt_of_onRoad h2
  have hdfind := canFind_of_roadAt hd
  have hend : HasEnd d r.1 := by
    rw [← h.nearest d (h.found d hdfind)]
    exact (nearEnd_spec d).1
  exact (endsRight_iff_first hids hs hd).mpr
    ⟨h.idxOf_le (List.Nodup.of_map _ hids) hs hd, h.nearest s (canFind_of_roadAt hs),
      joins_unique (farEnd_joins hend) (h.other d hdfind)⟩

/-- What follows for the order in which a road is the first. -/
theorem of_first (hids : (m.edges.map Edge.id).Nodup) (h1 : OnRoad m x1 y1)
    (h : ∀ es, es.Perm m.edges → EndsRight { m with edges := es } junk x1 y1 x2 y2 r)
    {d : Edge (n + 1)} (hd : CanFind m x2 y2 d) :
    CanFind m x1 y1 d ∧ nearEnd m x1 y1 d = r.1 ∧ farEnd m r.1 d = r.2 := by
  have hperm := (List.perm_cons_erase hd.mem).symm
  obtain ⟨s, hs⟩ := roadAt_of_onRoad (h1.perm hperm)
  have hroad := roadAt_head (m := { m with edges := d :: m.edges.erase d }) rfl
    ((canFind_perm hperm).mpr hd)
  have hids' : (((d :: m.edges.erase d)).map Edge.id).Nodup :=
    (hperm.map Edge.id).nodup_iff.mpr hids
  obtain ⟨hle, hnear, hfar⟩ := (endsRight_iff_first hids' hs hroad).mp (h _ hperm)
  simp only [List.idxOf_cons_self] at hle
  obtain rfl : s = d := by
    by_contra hne
    rw [List.idxOf_cons_ne _ (fun he => hne he.symm)] at hle
    omega
  exact ⟨(canFind_perm hperm).mp (canFind_of_roadAt hs), hnear, hfar⟩

theorem nearEnd_of_first (hids : (m.edges.map Edge.id).Nodup) (h2 : OnRoad m x2 y2)
    (h : ∀ es, es.Perm m.edges → EndsRight { m with edges := es } junk x1 y1 x2 y2 r)
    {s : Edge (n + 1)} (hs : CanFind m x1 y1 s) : nearEnd m x1 y1 s = r.1 := by
  have hperm := (List.perm_cons_erase hs.mem).symm
  obtain ⟨d, hd⟩ := roadAt_of_onRoad (h2.perm hperm)
  have hroad := roadAt_head (m := { m with edges := s :: m.edges.erase s }) rfl
    ((canFind_perm hperm).mpr hs)
  have hids' : (((s :: m.edges.erase s)).map Edge.id).Nodup :=
    (hperm.map Edge.id).nodup_iff.mpr hids
  exact ((endsRight_iff_first hids' hroad hd).mp (h _ hperm)).2.1

/-- With a road `f` in the other direction before the destination road and the source road after
it, the source road is found too late. -/
theorem not_backward (hids : (m.edges.map Edge.id).Nodup)
    (h : ∀ es, es.Perm m.edges → EndsRight { m with edges := es } junk x1 y1 x2 y2 r)
    {s d f : Edge (n + 1)} (hs : CanFind m x1 y1 s) (hd : CanFind m x2 y2 d)
    (hd1 : CanFind m x1 y1 d) (hapart : ∀ d, CanFind m x2 y2 d → d.target ≠ s.target)
    (hne : s.target ≠ s.source) (hf : f ∈ m.edges) (hfs : f.source = s.target) :
    f.target ≠ s.source := by
  intro hft
  have hsource := hd1.source_eq hs
  have hfs' : f.source ≠ d.source := fun he => hne (hfs.symm.trans (he.trans hsource))
  have hdf : d ≠ f := fun he => hfs' (he ▸ rfl)
  have hperm : (f :: d :: (m.edges.erase f).erase d).Perm m.edges :=
    ((List.perm_cons_erase hf).trans
      ((List.perm_cons_erase ((List.mem_erase_of_ne hdf).mpr hd.mem)).cons f)).symm
  generalize (m.edges.erase f).erase d = rest at hperm
  have hd' := (canFind_perm hperm).mpr hd
  have hs' := (canFind_perm hperm).mpr hs
  -- the scan for the destination passes by, that for the source stops
  have hpass : roadTo { m with edges := f :: d :: rest } x2 y2 d.source f.source = none := by
    by_contra hsome
    obtain ⟨e, he⟩ := Option.ne_none_iff_exists'.mp hsome
    obtain ⟨hmem, hes, het, hbox⟩ := roadTo_some he
    rw [← hes, ← het] at hbox
    exact hapart e ((canFind_perm hperm).mp (hd'.of_source hmem hbox hes)) (het.trans hfs)
  have hroad := roadAt_past_backward rfl (hft.trans hsource.symm) hfs' hd' hpass
  obtain ⟨s', hto⟩ := exists_roadTo hs'.mem hs'.box
  rw [← hsource, ← hfs] at hto
  have hroad1 := roadAt_backward rfl (hft.trans hsource.symm) hfs' ((canFind_perm hperm).mpr hd1)
    hto
  obtain ⟨-, hss, hst, -⟩ := roadTo_some hto
  have hids' : ((f :: d :: rest).map Edge.id).Nodup := (hperm.map Edge.id).nodup_iff.mpr hids
  have hle := ((endsRight_iff_first hids' hroad1 hroad).mp (h _ hperm)).1
  have hs'f : f ≠ s' := fun he => hfs' (he ▸ hss)
  have hs'd : d ≠ s' := fun he => hapart d hd (he ▸ hst.trans hfs)
  simp only [List.idxOf_cons_ne _ hs'f, List.idxOf_cons_ne _ hs'd,
    List.idxOf_cons_ne _ hdf.symm, List.idxOf_cons_self] at hle
  omega

end orders

/-! ### The map of the constructor -/

/-- The first road of the constructor's map. -/
def roadAB : Edge 5 := ⟨nodeA, nodeB, 0, 100⟩

theorem default_onRoad : OnRoad (defaultMap ℝ) 0 0 ∧ OnRoad (defaultMap ℝ) 1450 500 := by
  obtain ⟨h, h'⟩ := roadAt_default
  have hAB := canFind_of_roadAt h
  have hCD := canFind_of_roadAt h'
  exact ⟨⟨_, hAB.mem, hAB.box⟩, ⟨_, hCD.mem, hCD.box⟩⟩

/-- At the origin only the first road can be found. -/
theorem default_canFind {e : Edge 5} (h : CanFind (defaultMap ℝ) 0 0 e) : e = roadAB := by
  obtain ⟨hmem, hbox, -⟩ := h
  simp only [defaultMap, List.mem_cons, List.not_mem_nil, or_false] at hmem
  obtain rfl | rfl | rfl | rfl := hmem
  · rfl
  all_goals
    norm_num [inBox, Bool.and_eq_true, padded_iff, defaultMap, Scalar.ofNat] at hbox

/-- Both positions at the origin. -/
theorem default_orderFree : OrderFree (defaultMap ℝ) 0 0 0 0 (nodeA, nodeB) where
  found _ hd := hd
  oneWay s hs hapart := absurd rfl (hapart s hs)
  nearest s hs := by
    rw [default_canFind hs]
    norm_num [nearEnd, distFrom, msvrCalDist_lt, defaultMap, roadAB, Scalar.ofNat]
  other d hd := by
    rw [default_canFind hd]
    decide

/-- The first road cannot be found at a position on the third. -/
theorem default_not_canFind : ¬ CanFind (defaultMap ℝ) 1450 500 roadAB := by
  intro h
  have hbox := h.box
  norm_num [inBox, Bool.and_eq_true, padded_iff, defaultMap, roadAB, Scalar.ofNat] at hbox

section orders

variable {m : Map ℝ (n + 1)} {junk : ℝ × ℝ} {x1 y1 x2 y2 : ℝ}

/-- **The ends do not depend on the order of the roads** exactly when `OrderFree` says so. -/
theorem endsRight_iff (hids : (m.edges.map Edge.id).Nodup) (h1 : OnRoad m x1 y1)
    (h2 : OnRoad m x2 y2) :
    (∃ r, ∀ es, es.Perm m.edges → EndsRight { m with edges := es } junk x1 y1 x2 y2 r) ↔
      ∃ r, OrderFree m x1 y1 x2 y2 r := by
  refine exists_congr fun r => ⟨fun h => ?_, fun h es hperm => ?_⟩
  · have hfirst := fun d hd => of_first hids h1 h (d := d) hd
    refine ⟨fun d hd => (hfirst d hd).1, ?_, fun s hs => nearEnd_of_first hids h2 h hs, ?_⟩
    · intro s hs hapart hne f hf hfs
      obtain ⟨d, hd⟩ := roadAt_of_onRoad h2
      have hd := canFind_of_roadAt hd
      exact not_backward hids h hs hd (hfirst d hd).1 hapart hne hf hfs
    · intro d hd
      obtain ⟨-, hnear, hfar⟩ := hfirst d hd
      rw [← hfar]
      apply farEnd_joins
      rw [← hnear]
      exact (nearEnd_spec d).1
  · have hids' : (es.map Edge.id).Nodup := (hperm.map Edge.id).nodup_iff.mpr hids
    exact (h.perm hperm).endsRight hids' (h1.perm hperm) (h2.perm hperm)

/-- From the origin to the origin. -/
theorem endsRight_iff_sample : ∃ r, ∀ es, es.Perm (defaultMap ℝ).edges →
    EndsRight { defaultMap ℝ with edges := es } (0, 0) 0 0 0 0 r :=
  (endsRight_iff (by decide) default_onRoad.1 default_onRoad.1).mpr ⟨_, default_orderFree⟩

/-- From the third road to the first: when the pass comes to the first road, `x` and `y` are not
set. -/
theorem not_endsRight :
    (getSrcAndDst (defaultMap ℝ) (0, 0) 1450 500 0 0).unset = true ∧
    ¬ ∃ r, ∀ es, es.Perm (defaultMap ℝ).edges →
      EndsRight { defaultMap ℝ with edges := es } (0, 0) 1450 500 0 0 r := by
  have hids : ((defaultMap ℝ).edges.map Edge.id).Nodup := by decide
  obtain ⟨h, h'⟩ := roadAt_default
  constructor
  · obtain ⟨hle, -⟩ | ⟨-, hunset⟩ := getSrcAndDst_cases (0, 0) hids h' h
    · revert hle
      decide
    · exact hunset
  · rintro ⟨r, hr⟩
    exact default_not_canFind
      (of_first hids default_onRoad.2 hr (canFind_of_roadAt h)).1

end orders

end GeoSvr.MsvrMap
