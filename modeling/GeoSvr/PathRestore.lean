import GeoSvr.PathSearch
import Mathlib.Data.List.Chain

/-! # What `getPaths` leaves behind

A candidate records the types of all roads of its path, one after another, and the end of
`getPaths` gives the roads of the `j`-th step the `j`-th of them.  The candidates are replayed in
the order in which they were found, so what a road ends up with is decided by the last candidate
whose path it is on.  This is its own type where each step has one road only and no road is on two
paths; otherwise the types get out of step.

`Successive` says which paths are found, without the loop; the loop ends exactly when there are such
paths, and then it has found these (`searchPaths_ends_iff_successive`, `searchPaths_successive`). -/

namespace GeoSvr.MsvrMap

open MapManager (Edge Map INT_MAX)

variable {R : Type*} {n : ℕ}

/-! ### Definitions -/

/-- The steps of a path, from the destination on. -/
def steps (src dst : Fin n) (c : Candidate R n) : List (Fin n × Fin n) :=
  ((walk c.preds src n dst).getD []).map (fun v => (v, c.preds v))

/-- The road is on one of the paths. -/
def onPaths (paths : List (List (Fin n × Fin n))) (e : Edge n) : Bool :=
  paths.any (fun path => path.any (fun step => e.joins step.1 step.2))

/-- The road after these paths are found. -/
def markPaths (paths : List (List (Fin n × Fin n))) (e : Edge n) : Edge n :=
  if onPaths paths e then e.close else e

/-- The types that are recorded for a path that is found after `earlier` ones. -/
def recorded (es : List (Edge n)) (earlier : List (List (Fin n × Fin n)))
    (path : List (Fin n × Fin n)) : List ℤ :=
  path.flatMap (fun step => (es.filter (fun e => e.joins step.1 step.2)).map
    (fun e => (markPaths earlier e).type))

/-- The `j`-th type that is recorded for a path is the type of all roads of the `j`-th step, except
for those that a later path decides about. -/
def Restorable (es : List (Edge n)) (paths : List (List (Fin n × Fin n))) : Prop :=
  ∀ (i : ℕ) path, paths[i]? = some path → ∀ (j : ℕ) u v, path[j]? = some (u, v) →
    ∀ e ∈ es, e.joins u v = true → onPaths (paths.drop (i + 1)) e = false →
      (recorded es (paths.take i) path)[j]? = some e.type

section search

variable [Scalar R] (dijkstra : List (Edge n) → Fin n → Fin n → Fin n) (src dst : Fin n)
  (m : Map R n)

/-- The map in which the roads of these paths are marked. -/
def marked (paths : List (List (Fin n × Fin n))) : Map R n :=
  { m with edges := m.edges.map (markPaths paths) }

/-- The paths that are found after the `earlier` ones: while `hasNextPath` is true of the map in
which the roads of the paths so far are marked, the way back in this map is the next one. -/
inductive Successive : List (List (Fin n × Fin n)) → List (List (Fin n × Fin n)) → Prop
  | last {earlier : List (List (Fin n × Fin n))}
      (done : hasNextPath (marked m earlier) src dst = false) : Successive earlier []
  | next {earlier later : List (List (Fin n × Fin n))} {vs : List (Fin n)}
      (more : hasNextPath (marked m earlier) src dst = true)
      (way : wayBack dijkstra src dst (marked m earlier) = some vs)
      (rest : Successive
        (earlier ++ [vs.map (fun v => (v, dijkstra (marked m earlier).edges src v))]) later) :
      Successive earlier (vs.map (fun v => (v, dijkstra (marked m earlier).edges src v)) :: later)

end search

/-- A path from `src` to `dst` along roads. -/
structure IsPath (m : Map R n) (src dst : Fin n) (path : List (Fin n)) : Prop where
  length : 2 ≤ path.length
  head : path.head? = some src
  last : path.getLast? = some dst
  joined : path.IsChain (fun u v => ∃ e ∈ m.edges, e.joins u v = true)

/-- What a call of `getPaths` is to do. -/
def ReturnsRight [Scalar R]
    (dijkstra : List (Edge (n + 1)) → Fin (n + 1) → Fin (n + 1) → Fin (n + 1))
    (m : Map R (n + 1)) (junk : R × R) (x1 y1 x2 y2 : R) (fuel : ℕ) : Prop :=
  let ends := getSrcAndDst m junk x1 y1 x2 y2
  ∃ path m', getPaths dijkstra m junk x1 y1 x2 y2 fuel = some (path.map Fin.val, m') ∧
    IsPath m ends.first ends.second path ∧ m'.edges.map Edge.type = m.edges.map Edge.type

/-! ### The steps of a path -/

section walk

variable {p : Fin n → Fin n} {src : Fin n}

theorem getElem?_iterates {v u : Fin n} {k i : ℕ}
    (h : ((List.range k).map (fun j => p^[j] v))[i]? = some u) : i < k ∧ u = p^[i] v := by
  obtain ⟨hi, rfl⟩ := List.getElem?_eq_some_iff.mp h
  rw [List.length_map, List.length_range] at hi
  refine ⟨hi, ?_⟩
  rw [List.getElem_map, List.getElem_range]

/-- No road belongs to two steps. -/
theorem walk_joins_unique {fuel : ℕ} {v : Fin n} {vs : List (Fin n)}
    (h : walk p src fuel v = some vs) {e : Edge n} {i j : ℕ} {a b : Fin n}
    (ha : vs[i]? = some a) (hb : vs[j]? = some b) (hea : e.joins a (p a) = true)
    (heb : e.joins b (p b) = true) : i = j := by
  obtain ⟨k, -, rfl, hk, hne⟩ := walk_eq_some h
  obtain ⟨hi, rfl⟩ := getElem?_iterates ha
  obtain ⟨hj, rfl⟩ := getElem?_iterates hb
  rw [← Function.iterate_succ_apply' p, Edge.joins_iff] at hea heb
  have hinj := fun {i j : ℕ} => Dijkstra.iterate_inj (i := i) (j := j) hk hne
  obtain ⟨h₁, h₂⟩ | ⟨h₁, h₂⟩ := hea <;> obtain ⟨h₃, h₄⟩ | ⟨h₃, h₄⟩ := heb
  · exact hinj hi.le hj.le (h₁.symm.trans h₃)
  · have hfor := hinj hi.le hj (h₁.symm.trans h₃)
    have hback := hinj hi hj.le (h₂.symm.trans h₄)
    omega
  · have hfor := hinj hi.le hj (h₂.symm.trans h₄)
    have hback := hinj hi hj.le (h₁.symm.trans h₃)
    omega
  · exact hinj hi.le hj.le (h₂.symm.trans h₄)

/-- The path ends at the source, if the way back does. -/
theorem getLast?_walk : ∀ {fuel : ℕ} {v : Fin n} {vs : List (Fin n)},
    walk p src fuel v = some vs → (v :: vs.map p).getLast? = some src
  | fuel, v, vs, h => by
      unfold walk at h
      split_ifs at h with hv
      · cases h
        rw [hv]
        rfl
      · cases fuel with
        | zero => cases h
        | succ fuel =>
            obtain ⟨ws, hrec, he⟩ := Option.map_eq_some_iff.mp h
            cases he
            rw [List.map_cons, List.getLast?_cons_cons]
            exact getLast?_walk hrec

theorem isChain_walk {Adj : Fin n → Fin n → Prop} : ∀ {fuel : ℕ} {v : Fin n} {vs : List (Fin n)},
    walk p src fuel v = some vs → (∀ u ∈ vs, Adj u (p u)) → (v :: vs.map p).IsChain Adj
  | fuel, v, vs, h, hadj => by
      unfold walk at h
      split_ifs at h with hv
      · cases h
        exact List.isChain_singleton v
      · cases fuel with
        | zero => cases h
        | succ fuel =>
            obtain ⟨ws, hrec, he⟩ := Option.map_eq_some_iff.mp h
            cases he
            rw [List.map_cons, List.isChain_cons_cons]
            exact ⟨hadj v List.mem_cons_self,
              isChain_walk hrec (fun u hu => hadj u (List.mem_cons_of_mem _ hu))⟩

end walk

/-! ### Types that are restored -/

section retype

/-- The type of a road after the types of a path are given back. -/
def retype (path : List (Fin n × Fin n)) (types : List ℤ) (e : Edge n) (type : ℤ) : ℤ :=
  (path.zip types).foldl (fun type w => if e.joins w.1.1 w.1.2 then w.2 else type) type

theorem restoreRoads_eq (p : Fin n → Fin n) : ∀ (vs : List (Fin n)) (types : List ℤ)
    (es : List (Edge n)), restoreRoads p vs types es =
      es.map (fun e => { e with type := retype (vs.map (fun v => (v, p v))) types e e.type })
  | [], types, es => by
      rw [restoreRoads]
      · exact (List.map_id es).symm
      · exact fun _ _ _ _ h => by cases h
  | v :: vs, [], es => by
      rw [restoreRoads]
      · exact (List.map_id es).symm
      · exact fun _ _ _ _ _ h => by cases h
  | v :: vs, type :: types, es => by
      rw [restoreRoads, restoreRoads_eq p vs types, List.map_map]
      apply List.map_congr_left
      intro e _
      rw [Function.comp_apply, List.map_cons, retype, retype, List.zip_cons_cons, List.foldl_cons]
      split_ifs <;> rfl

theorem retype_of_off {e : Edge n} (type : ℤ) : ∀ {path : List (Fin n × Fin n)} {types : List ℤ},
    path.any (fun step => e.joins step.1 step.2) = false → retype path types e type = type
  | [], _, _ => rfl
  | _ :: _, [], _ => rfl
  | step :: path, t :: types, h => by
      rw [List.any_cons, Bool.or_eq_false_iff] at h
      have hrest : retype path types e type = type := retype_of_off type h.2
      rw [retype, List.zip_cons_cons, List.foldl_cons, h.1]
      exact hrest

/-- A road gets the type of the only step that it belongs to. -/
theorem retype_of_on {e : Edge n} {u v : Fin n} {t : ℤ} (hj : e.joins u v = true) :
    ∀ {path : List (Fin n × Fin n)} {types : List ℤ} {j : ℕ} (type : ℤ),
      path[j]? = some (u, v) → types[j]? = some t →
      (∀ (i : ℕ) a b, path[i]? = some (a, b) → e.joins a b = true → i = j) →
      retype path types e type = t
  | [], _, _, _, hp, _, _ => by
      rw [List.getElem?_nil] at hp
      cases hp
  | _ :: _, [], _, _, _, ht, _ => by
      rw [List.getElem?_nil] at ht
      cases ht
  | step :: path, t' :: types, 0, type, hp, ht, huniq => by
      cases hp
      cases ht
      rw [retype, List.zip_cons_cons, List.foldl_cons, if_pos hj]
      apply retype_of_off
      rw [← Bool.not_eq_true, List.any_eq_true]
      rintro ⟨step, hmem, hon⟩
      obtain ⟨i, hi⟩ := List.getElem?_of_mem hmem
      exact absurd (huniq (i + 1) step.1 step.2 hi hon) (Nat.succ_ne_zero i)
  | step :: path, t' :: types, j + 1, type, hp, ht, huniq => by
      have hoff : ¬ e.joins step.1 step.2 = true :=
        fun hon => absurd (huniq 0 step.1 step.2 rfl hon) (Nat.zero_ne_add_one j)
      have hrest : retype path types e type = t := retype_of_on hj type hp ht
        (fun i a b hi hon => Nat.succ_injective (huniq (i + 1) a b hi hon))
      rw [retype, List.zip_cons_cons, List.foldl_cons, if_neg hoff]
      exact hrest

theorem steps_eq {src dst : Fin n} {c : Candidate R n} {vs : List (Fin n)}
    (h : walk c.preds src n dst = some vs) :
    steps src dst c = vs.map (fun v => (v, c.preds v)) := by
  rw [steps, h, Option.getD_some]

/-- The type of a road after all candidates are replayed. -/
def replay (src dst : Fin n) (cs : List (Candidate R n)) (e : Edge n) (type : ℤ) : ℤ :=
  cs.foldl (fun type c => retype (steps src dst c) c.types e type) type

variable {src dst : Fin n}

theorem restore_eq : ∀ {cs : List (Candidate R n)} {es : List (Edge n)},
    (∀ c ∈ cs, ∃ vs, walk c.preds src n dst = some vs) → restore src dst cs es =
      some (es.map (fun e => { e with type := replay src dst cs e e.type }))
  | [], es, _ => by
      rw [restore]
      exact congrArg some (List.map_id es).symm
  | c :: cs, es, h => by
      obtain ⟨vs, hvs⟩ := h c List.mem_cons_self
      rw [restore, hvs, Option.bind_some, restoreRoads_eq,
        restore_eq (fun c hc => h c (List.mem_cons_of_mem _ hc)), List.map_map, ← steps_eq hvs]
      rfl

theorem replay_of_off {e : Edge n} : ∀ {cs : List (Candidate R n)} (type : ℤ),
    onPaths (cs.map (steps src dst)) e = false → replay src dst cs e type = type
  | [], _, _ => rfl
  | c :: cs, type, h => by
      rw [onPaths, List.map_cons, List.any_cons, Bool.or_eq_false_iff] at h
      rw [replay, List.foldl_cons, retype_of_off type h.1]
      exact replay_of_off type h.2

/-- **The last candidate decides.** -/
theorem replay_of_last {cs : List (Candidate R n)} {c : Candidate R n} {i j : ℕ}
    (hi : cs[i]? = some c) (hwalk : ∃ vs, walk c.preds src n dst = some vs) {u v : Fin n}
    (hj : (steps src dst c)[j]? = some (u, v)) {e : Edge n} (hon : e.joins u v = true)
    (hlast : onPaths ((cs.map (steps src dst)).drop (i + 1)) e = false) {t : ℤ}
    (ht : c.types[j]? = some t) (type : ℤ) : replay src dst cs e type = t := by
  have hsplit : cs = cs.take i ++ c :: cs.drop (i + 1) := by
    obtain ⟨hlt, rfl⟩ := List.getElem?_eq_some_iff.mp hi
    rw [← List.drop_eq_getElem_cons hlt, List.take_append_drop]
  obtain ⟨vs, hvs⟩ := hwalk
  have hget : ∀ {i : ℕ} {a b : Fin n}, (steps src dst c)[i]? = some (a, b) →
      vs[i]? = some a ∧ b = c.preds a := by
    intro i a b h
    rw [steps_eq hvs, List.getElem?_map] at h
    obtain ⟨w, hw, he⟩ := Option.map_eq_some_iff.mp h
    cases he
    exact ⟨hw, rfl⟩
  obtain ⟨hu, rfl⟩ := hget hj
  rw [hsplit, replay, List.foldl_append, List.foldl_cons, retype_of_on hon _ hj ht]
  · apply replay_of_off
    rw [List.map_drop]
    exact hlast
  · intro i' a b hi' hon'
    obtain ⟨ha, rfl⟩ := hget hi'
    exact walk_joins_unique hvs ha hu hon' hon

end retype

/-! ### What the search records -/

theorem onPaths_append (paths : List (List (Fin n × Fin n))) (path : List (Fin n × Fin n))
    (e : Edge n) : onPaths (paths ++ [path]) e =
      (onPaths paths e || path.any (fun step => e.joins step.1 step.2)) := by
  simp [onPaths]

/-- The last path that a road is on. -/
theorem exists_last {e : Edge n} : ∀ {paths : List (List (Fin n × Fin n))},
    onPaths paths e = true → ∃ (i : ℕ) (path : List (Fin n × Fin n)), paths[i]? = some path ∧
      path.any (fun step => e.joins step.1 step.2) = true ∧
      onPaths (paths.drop (i + 1)) e = false
  | [], h => by cases h
  | path :: paths, h => by
      cases hlater : onPaths paths e with
      | true =>
          obtain ⟨i, path', hi, hon, hdrop⟩ := exists_last hlater
          exact ⟨i + 1, path', hi, hon, hdrop⟩
      | false =>
          refine ⟨0, path, rfl, ?_, hlater⟩
          rw [onPaths] at hlater
          rw [onPaths, List.any_cons, hlater, Bool.or_false] at h
          exact h

@[simp] theorem markPaths_joins (paths : List (List (Fin n × Fin n))) (e : Edge n) :
    (markPaths paths e).joins = e.joins := by
  unfold markPaths
  split_ifs <;> rfl

/-- One more path. -/
theorem mark_markPaths (paths : List (List (Fin n × Fin n))) (p : Fin n → Fin n)
    (vs : List (Fin n)) (e : Edge n) :
    mark p vs (markPaths paths e) = markPaths (paths ++ [vs.map (fun v => (v, p v))]) e := by
  have hany : (vs.map (fun v => (v, p v))).any (fun step => e.joins step.1 step.2) =
      onWay p vs e := List.any_map
  have hway : onWay p vs (markPaths paths e) = onWay p vs e := by
    simp only [onWay, markPaths_joins]
  unfold mark
  rw [hway]
  unfold markPaths
  rw [onPaths_append, hany]
  cases onPaths paths e <;> cases onWay p vs e <;> rfl

/-- The types of the roads between two junctions, where these are changed. -/
theorem filter_joins_types {f : Edge n → Edge n} (hf : ∀ e, (f e).joins = e.joins)
    (es : List (Edge n)) (u v : Fin n) :
    ((es.map f).filter (fun e => e.joins u v)).map Edge.type =
      (es.filter (fun e => e.joins u v)).map (fun e => (f e).type) := by
  have hsame : (fun e : Edge n => e.joins u v) ∘ f = fun e => e.joins u v := by
    funext e
    rw [Function.comp_apply, hf]
  rw [List.filter_map, List.map_map, hsame]
  rfl

/-- What is recorded for a path whose steps have no road in common. -/
theorem markRoads_fst {p : Fin n → Fin n} : ∀ {vs : List (Fin n)} {es : List (Edge n)},
    vs.Pairwise (fun a b => ∀ e : Edge n, e.joins a (p a) = true → e.joins b (p b) = false) →
    (markRoads p vs es).1 =
      vs.flatMap (fun v => (es.filter (fun e => e.joins v (p v))).map Edge.type)
  | [], _, _ => rfl
  | v :: vs, es, h => by
      obtain ⟨hv, hrest⟩ := List.pairwise_cons.mp h
      rw [markRoads]
      simp only [markRoads_fst hrest, List.flatMap_cons]
      congr 1
      apply List.flatMap_congr
      intro u hu
      rw [filter_joins_types (fun e => by split_ifs <;> rfl)]
      apply List.map_congr_left
      intro e he
      split_ifs with hj
      · have hnot := hv u hu e hj
        rw [(List.mem_filter.mp he).2] at hnot
        cases hnot
      · rfl

theorem walk_pairwise {p : Fin n → Fin n} {src v : Fin n} {fuel : ℕ} {vs : List (Fin n)}
    (h : walk p src fuel v = some vs) : vs.Pairwise (fun a b => ∀ e : Edge n,
      e.joins a (p a) = true → e.joins b (p b) = false) := by
  rw [List.pairwise_iff_getElem]
  intro i j hi hj hij e he
  by_contra hcon
  have := walk_joins_unique h (List.getElem?_eq_getElem hi) (List.getElem?_eq_getElem hj) he
    (by simpa using hcon)
  omega

/-- What is recorded for a path with one road for each step. -/
theorem getElem?_recorded {es : List (Edge n)} {earlier : List (List (Fin n × Fin n))} {u v : Fin n}
    {e : Edge n} (he : e ∈ es) (hj : e.joins u v = true) (hoff : onPaths earlier e = false) :
    ∀ {path : List (Fin n × Fin n)} {j : ℕ},
      (∀ step ∈ path, (es.filter (fun e => e.joins step.1 step.2)).length = 1) →
      path[j]? = some (u, v) → (recorded es earlier path)[j]? = some e.type
  | [], _, _, h => by
      rw [List.getElem?_nil] at h
      cases h
  | step :: path, j, hone, h => by
      obtain ⟨f, hf⟩ := List.length_eq_one_iff.mp (hone step List.mem_cons_self)
      rw [recorded, List.flatMap_cons, hf, List.map_singleton, List.singleton_append]
      cases j with
      | zero =>
          cases h
          have hmem : e ∈ es.filter (fun e => e.joins u v) := List.mem_filter.mpr ⟨he, hj⟩
          rw [hf, List.mem_singleton] at hmem
          rw [List.getElem?_cons_zero, ← hmem, markPaths, hoff]
          rfl
      | succ j =>
          rw [List.getElem?_cons_succ]
          exact getElem?_recorded he hj hoff (fun s hs => hone s (List.mem_cons_of_mem _ hs)) h

/-- Paths that have one road for each step and no road in common are restorable. -/
theorem restorable_of_simple {es : List (Edge n)} {paths : List (List (Fin n × Fin n))}
    (hone : ∀ path ∈ paths, ∀ step ∈ path,
      (es.filter (fun e => e.joins step.1 step.2)).length = 1)
    (hapart : ∀ (i : ℕ) path, paths[i]? = some path → ∀ e : Edge n,
      path.any (fun step => e.joins step.1 step.2) = true → onPaths (paths.take i) e = false) :
    Restorable es paths := by
  intro i path hi j u v hj e he hon _
  have hpath : path.any (fun step => e.joins step.1 step.2) = true :=
    List.any_eq_true.mpr ⟨(u, v), List.mem_of_getElem? hj, hon⟩
  exact getElem?_recorded he hon (hapart i path hi e hpath)
    (hone path (List.mem_of_getElem? hi)) hj

section search

variable [Scalar R] (dijkstra : List (Edge n) → Fin n → Fin n → Fin n) (src dst : Fin n)

/-- What a candidate is that is found after `earlier` ones. -/
structure Found (m : Map R n) (earlier : List (Candidate R n)) (c : Candidate R n) : Prop where
  preds : c.preds = dijkstra (m.edges.map (markPaths (earlier.map (steps src dst)))) src
  types : c.types = recorded m.edges (earlier.map (steps src dst)) (steps src dst c)
  path : ∃ vs, walk c.preds src n dst = some vs ∧
    c.paths = ((dst :: vs.map c.preds).map Fin.val).reverse

/-- What the search has found at any moment. -/
structure FoundAll (m : Map R n) (s : Search R n) : Prop where
  map : s.map = { m with edges := m.edges.map (markPaths (s.found.map (steps src dst))) }
  found : ∀ (i : ℕ) c, s.found[i]? = some c → Found dijkstra src dst m (s.found.take i) c

variable {dijkstra src dst}

omit [Scalar R] in
theorem foundAll_start (m : Map R n) : FoundAll dijkstra src dst m ⟨m, []⟩ where
  map := by
    have hid : m.edges.map (markPaths []) = m.edges := List.map_id m.edges
    rw [List.map_nil, hid]
  found i c h := by
    rw [List.getElem?_nil] at h
    cases h

theorem FoundAll.next {m : Map R n} {s t : Search R n} (h : FoundAll dijkstra src dst m s)
    (ht : nextPath dijkstra src dst s = some t) : FoundAll dijkstra src dst m t := by
  obtain ⟨vs, hvs, hmap, hfound⟩ := nextPath_some ht
  have hedges : s.map.edges = m.edges.map (markPaths (s.found.map (steps src dst))) := by
    rw [h.map]
  generalize hp : dijkstra s.map.edges src = p at *
  generalize hc : (⟨p, (markRoads p vs s.map.edges).1, ((dst :: vs.map p).map Fin.val).reverse,
    meanSquare (markRoads p vs s.map.edges).1⟩ : Candidate R n) = c at hfound
  have hwalk : walk p src n dst = some vs := hp ▸ hvs
  have hsteps : steps src dst c = vs.map (fun v => (v, p v)) := by
    rw [← hc, steps_eq hwalk]
  have hnew : Found dijkstra src dst m s.found c := by
    refine ⟨?_, ?_, vs, ?_, ?_⟩
    · rw [← hc, ← hp, hedges]
    · rw [hsteps, recorded, List.flatMap_map, ← hc]
      simp only [markRoads_fst (walk_pairwise hwalk), hedges]
      apply List.flatMap_congr
      intro v _
      exact filter_joins_types (markPaths_joins _) _ _ _
    · rw [← hc]
      exact hwalk
    · rw [← hc]
  constructor
  · rw [hmap, hedges, hfound, List.map_append, List.map_cons, List.map_nil, List.map_map, hsteps]
    have hmark : mark p vs ∘ markPaths (s.found.map (steps src dst)) =
        markPaths (s.found.map (steps src dst) ++ [vs.map (fun v => (v, p v))]) :=
      funext (mark_markPaths _ p vs)
    rw [hmark, h.map]
  · intro i c' hi
    rw [hfound] at hi ⊢
    obtain hlt | hge := Nat.lt_or_ge i s.found.length
    · rw [List.getElem?_append_left hlt] at hi
      rw [List.take_append_of_le_length hlt.le]
      exact h.found i c' hi
    · rw [List.getElem?_append_right hge, List.getElem?_singleton] at hi
      split_ifs at hi with h0
      cases hi
      have hlast : i = s.found.length := by omega
      rw [hlast, List.take_left]
      exact hnew

omit [Scalar R] in
/-- Every step of a candidate is along a road. -/
theorem Found.joined (hs : Searches dijkstra) {m : Map R n} {earlier : List (Candidate R n)}
    {c : Candidate R n} (h : Found dijkstra src dst m earlier c) {u v : Fin n}
    (hstep : (u, v) ∈ steps src dst c) : ∃ e ∈ m.edges, e.joins u v = true := by
  obtain ⟨vs, hvs, -⟩ := h.path
  rw [steps_eq hvs] at hstep
  obtain ⟨w, hw, he⟩ := List.mem_map.mp hstep
  cases he
  obtain ⟨k, -, rfl, hk, hne⟩ := walk_eq_some hvs
  obtain ⟨j, hj, rfl⟩ := List.mem_map.mp hw
  rw [List.mem_range] at hj
  have hfix := Dijkstra.iterate_ne_of_lt hk hj (hne j hj)
  have htree := hs.tree (m.edges.map (markPaths (earlier.map (steps src dst)))) src
  rw [← h.preds] at htree
  obtain ⟨e, he, hjoin⟩ := joined_iff.mp (htree.adj _ hfix)
  obtain ⟨f, hf, rfl⟩ := List.mem_map.mp he
  rw [markPaths_joins] at hjoin
  exact ⟨f, hf, hjoin⟩

omit [Scalar R] in
/-- At least one type is recorded for each step. -/
theorem length_le_recorded {es : List (Edge n)} (earlier : List (List (Fin n × Fin n))) :
    ∀ {path : List (Fin n × Fin n)}, (∀ step ∈ path, ∃ e ∈ es, e.joins step.1 step.2 = true) →
      path.length ≤ (recorded es earlier path).length
  | [], _ => Nat.zero_le _
  | step :: path, h => by
      obtain ⟨e, he, hj⟩ := h step List.mem_cons_self
      have hpos : 0 < (es.filter (fun e => e.joins step.1 step.2)).length :=
        List.length_pos_of_mem (List.mem_filter.mpr ⟨he, hj⟩)
      have hrest := length_le_recorded earlier (fun s hs => h s (List.mem_cons_of_mem _ hs))
      rw [recorded, List.flatMap_cons, List.length_append, List.length_map, List.length_cons]
      rw [recorded] at hrest
      omega

omit [Scalar R] in
/-- Every road has its type back exactly when the last candidate that it is on recorded it. -/
theorem replay_iff (hs : Searches dijkstra) {m : Map R n} {s : Search R n}
    (h : FoundAll dijkstra src dst m s) :
    (∀ e ∈ m.edges, replay src dst s.found e
      (markPaths (s.found.map (steps src dst)) e).type = e.type) ↔
      Restorable m.edges (s.found.map (steps src dst)) := by
  -- the type that the last candidate writes
  have hlast : ∀ (i : ℕ) c, s.found[i]? = some c → ∀ (j : ℕ) u v,
      (steps src dst c)[j]? = some (u, v) → ∀ e : Edge n, e.joins u v = true →
      onPaths ((s.found.map (steps src dst)).drop (i + 1)) e = false →
      c.types[j]? = some (replay src dst s.found e
        (markPaths (s.found.map (steps src dst)) e).type) := by
    intro i c hi j u v hj e hon hlater
    have hc := h.found i c hi
    obtain ⟨vs, hvs, -⟩ := hc.path
    have hlen : j < c.types.length := by
      rw [hc.types]
      refine lt_of_lt_of_le ?_ (length_le_recorded _ (fun step hstep => hc.joined hs hstep))
      exact (List.getElem?_eq_some_iff.mp hj).1
    have ht := List.getElem?_eq_getElem hlen
    rw [replay_of_last hi ⟨vs, hvs⟩ hj hon hlater ht]
    exact ht
  have htypes : ∀ (i : ℕ) c, s.found[i]? = some c → c.types =
      recorded m.edges ((s.found.map (steps src dst)).take i) (steps src dst c) := by
    intro i c hi
    rw [← List.map_take]
    exact (h.found i c hi).types
  constructor
  · intro hall i path hi j u v hj e he hon hlater
    rw [List.getElem?_map] at hi
    obtain ⟨c, hc, rfl⟩ := Option.map_eq_some_iff.mp hi
    rw [← htypes i c hc, hlast i c hc j u v hj e hon hlater, hall e he]
  · intro hrest e he
    cases hon : onPaths (s.found.map (steps src dst)) e with
    | false =>
        rw [replay_of_off _ hon, markPaths, hon]
        rfl
    | true =>
        obtain ⟨i, path, hi, hany, hlater⟩ := exists_last hon
        obtain ⟨⟨u, v⟩, hstep, hj⟩ := List.any_eq_true.mp hany
        obtain ⟨j, hget⟩ := List.getElem?_of_mem hstep
        have hrec := hrest i path hi j u v hget e he hj hlater
        rw [List.getElem?_map] at hi
        obtain ⟨c, hc, rfl⟩ := Option.map_eq_some_iff.mp hi
        have ht := hlast i c hc j u v hget e hj hlater
        rw [htypes i c hc, hrec] at ht
        exact (Option.some.inj ht).symm

/-! ### The path that is returned -/

theorem leastSum_index : ∀ (l : List (List ℤ × ℕ)) (s : ℕ × ℤ × ℕ),
    (leastSum l s).2.2 = s.2.2 ∨ ∃ x ∈ l, (leastSum l s).2.2 = x.2
  | [], s => Or.inl rfl
  | (types, i) :: l, (cnt, imax, index) => by
      unfold leastSum
      simp only
      split_ifs
      · obtain h | ⟨x, hx, h⟩ := leastSum_index l (1, types.foldl MapManager.intAdd 0, i)
        · exact Or.inr ⟨(types, i), List.mem_cons_self, h⟩
        · exact Or.inr ⟨x, List.mem_cons_of_mem _ hx, h⟩
      · obtain h | ⟨x, hx, h⟩ := leastSum_index l (2, imax, index)
        · exact Or.inl h
        · exact Or.inr ⟨x, List.mem_cons_of_mem _ hx, h⟩
      · obtain h | ⟨x, hx, h⟩ := leastSum_index l (cnt, imax, index)
        · exact Or.inl h
        · exact Or.inr ⟨x, List.mem_cons_of_mem _ hx, h⟩

theorem leastMean_index : ∀ (l : List (R × ℕ)) (s : Option R × ℕ),
    (leastMean l s).2 = s.2 ∨ ∃ x ∈ l, (leastMean l s).2 = x.2
  | [], s => Or.inl rfl
  | (mean, i) :: l, (max, index) => by
      unfold leastMean
      simp only
      split_ifs
      · obtain h | ⟨x, hx, h⟩ := leastMean_index l (some mean, i)
        · exact Or.inr ⟨(mean, i), List.mem_cons_self, h⟩
        · exact Or.inr ⟨x, List.mem_cons_of_mem _ hx, h⟩
      · obtain h | ⟨x, hx, h⟩ := leastMean_index l (max, index)
        · exact Or.inl h
        · exact Or.inr ⟨x, List.mem_cons_of_mem _ hx, h⟩

/-- `findMeanMin` returns an index of the candidates, if there are any. -/
theorem findMeanMin_lt {types : List (List ℤ)} {means : List R} (hlen : means.length = types.length)
    (hpos : 0 < types.length) : findMeanMin types means < types.length := by
  have hsum : (leastSum types.zipIdx (0, INT_MAX, 0)).2.2 < types.length := by
    obtain h | ⟨x, hx, h⟩ := leastSum_index types.zipIdx (0, INT_MAX, 0)
    · rw [h]
      exact hpos
    · rw [h]
      exact List.snd_lt_of_mem_zipIdx hx
  unfold findMeanMin
  simp only
  split_ifs
  · exact hsum
  · obtain h | ⟨x, hx, h⟩ := leastMean_index means.zipIdx
      (none, (leastSum types.zipIdx (0, INT_MAX, 0)).2.2)
    · rw [h]
      exact hsum
    · rw [h, ← hlen]
      exact List.snd_lt_of_mem_zipIdx hx

/-! ### Successive paths -/

theorem Successive.unique {m : Map R n} {earlier paths paths' : List (List (Fin n × Fin n))}
    (h : Successive dijkstra src dst m earlier paths)
    (h' : Successive dijkstra src dst m earlier paths') : paths = paths' := by
  induction h generalizing paths' with
  | last done =>
      cases h' with
      | last => rfl
      | next more =>
          rw [done] at more
          cases more
  | next more way _ ih =>
      cases h' with
      | last done =>
          rw [more] at done
          cases done
      | next _ way' rest' =>
          obtain rfl := Option.some.inj (way.symm.trans way')
          rw [ih rest']

theorem nextPath_steps {s t : Search R n} (h : nextPath dijkstra src dst s = some t) :
    ∃ vs, wayBack dijkstra src dst s.map = some vs ∧ t.found.map (steps src dst) =
      s.found.map (steps src dst) ++ [vs.map (fun v => (v, dijkstra s.map.edges src v))] := by
  obtain ⟨vs, hvs, -, hfound⟩ := nextPath_some h
  refine ⟨vs, hvs, ?_⟩
  rw [hfound, List.map_append, List.map_singleton]
  exact congrArg (fun path => s.found.map (steps src dst) ++ [path]) (steps_eq hvs)

/-- What the search finds from a moment on. -/
theorem run_successive {m : Map R n} : ∀ {fuel : ℕ} {s t : Search R n},
    FoundAll dijkstra src dst m s →
    WhileLoop.run (fun s => hasNextPath s.map src dst) (nextPath dijkstra src dst) fuel s = some t →
    ∃ later, t.found.map (steps src dst) = s.found.map (steps src dst) ++ later ∧
      Successive dijkstra src dst m (s.found.map (steps src dst)) later
  | fuel, s, t, h, hrun => by
      have hmap : s.map = marked m (s.found.map (steps src dst)) := h.map
      obtain ⟨hg, rfl⟩ | ⟨k, s₁, rfl, hit, hrest⟩ := WhileLoop.run_cases hrun
      · rw [hmap] at hg
        exact ⟨[], (List.append_nil _).symm, .last hg⟩
      · obtain ⟨vs, hvs, hsteps⟩ := nextPath_steps hit.2
        obtain ⟨later, hlater, hsucc⟩ := run_successive (h.next hit.2) hrest
        have hg : hasNextPath s.map src dst = true := hit.1
        rw [hsteps, hmap] at hlater hsucc
        rw [hmap] at hg hvs
        exact ⟨_, hlater.trans (List.append_assoc _ _ _), .next hg hvs hsucc⟩

/-- Where there are successive paths, the search ends. -/
theorem Successive.run {m : Map R n} {earlier later : List (List (Fin n × Fin n))}
    (h : Successive dijkstra src dst m earlier later) {s : Search R n}
    (hs : FoundAll dijkstra src dst m s) (he : s.found.map (steps src dst) = earlier) :
    ∃ fuel t, WhileLoop.run (fun s : Search R n => hasNextPath s.map src dst)
      (nextPath dijkstra src dst) fuel s = some t := by
  induction h generalizing s with
  | last done =>
      have hmap : s.map = marked m _ := he ▸ hs.map
      rw [← hmap] at done
      exact ⟨0, s, @WhileLoop.run_of_false _ (fun s : Search R n => hasNextPath s.map src dst)
        (nextPath dijkstra src dst) s done 0⟩
  | next more way _ ih =>
      have hmap : s.map = marked m _ := he ▸ hs.map
      rw [← hmap] at more way ih
      obtain ⟨t, ht⟩ : ∃ t, nextPath dijkstra src dst s = some t :=
        ⟨_, Option.map_eq_some_iff.mpr ⟨_, way, rfl⟩⟩
      obtain ⟨vs, hvs, hsteps⟩ := nextPath_steps ht
      obtain rfl := Option.some.inj (way.symm.trans hvs)
      obtain ⟨fuel, u, hu⟩ := ih (hs.next ht) (by rw [hsteps, he])
      have hit : WhileLoop.Iterates (fun s : Search R n => hasNextPath s.map src dst)
          (nextPath dijkstra src dst) s t := ⟨more, ht⟩
      exact ⟨fuel + 1, u, (WhileLoop.run_succ hit fuel).trans hu⟩

theorem searchPaths_foundAll {m : Map R n} {fuel : ℕ} {s : Search R n}
    (h : searchPaths dijkstra src dst fuel m = some s) : FoundAll dijkstra src dst m s :=
  (WhileLoop.run_inv _ (fun _ _ hs hit => hs.next hit.2) h (foundAll_start m)).1

/-- The search finds the successive paths. -/
theorem searchPaths_successive {m : Map R n} {fuel : ℕ} {s : Search R n}
    (h : searchPaths dijkstra src dst fuel m = some s) {paths : List (List (Fin n × Fin n))} :
    Successive dijkstra src dst m [] paths ↔ s.found.map (steps src dst) = paths := by
  obtain ⟨later, hlater, hsucc⟩ := run_successive (foundAll_start m) h
  rw [List.map_nil, List.nil_append] at hlater
  rw [hlater]
  constructor
  · exact hsucc.unique
  · rintro rfl
    exact hsucc

theorem searchPaths_ends_iff_successive {m : Map R n} :
    (∃ fuel s, searchPaths dijkstra src dst fuel m = some s) ↔
      ∃ paths, Successive dijkstra src dst m [] paths := by
  constructor
  · rintro ⟨fuel, s, h⟩
    exact ⟨_, (searchPaths_successive h).mpr rfl⟩
  · rintro ⟨paths, h⟩
    exact h.run (foundAll_start m) rfl

/-- The search has found a path if `hasNextPath` is true before the first one. -/
theorem found_ne_nil_iff {m : Map R n} {fuel : ℕ} {s : Search R n}
    (h : searchPaths dijkstra src dst fuel m = some s) :
    s.found ≠ [] ↔ hasNextPath m src dst = true := by
  obtain ⟨hg, rfl⟩ | ⟨k, s₁, -, hit, hrun⟩ := WhileLoop.run_cases h
  · simp [hg]
  · have hne : s.found ≠ [] := by
      refine (WhileLoop.run_inv (fun s : Search R n => s.found ≠ []) ?_ hrun ?_).1
      · intro s t _ hit
        obtain ⟨vs, -, -, hfound⟩ := nextPath_some hit.2
        rw [hfound]
        exact List.append_ne_nil_of_right_ne_nil _ (List.cons_ne_nil _ _)
      · obtain ⟨vs, -, -, hfound⟩ := nextPath_some hit.2
        rw [hfound]
        exact List.append_ne_nil_of_right_ne_nil _ (List.cons_ne_nil _ _)
    exact iff_of_true hne hit.1

/-- What is returned after the search, and the types that the roads have then. -/
theorem choosePath_eq {m : Map R n} {s : Search R n} (h : FoundAll dijkstra src dst m s)
    (hne : s.found ≠ []) : ∃ (i : ℕ) (c : Candidate R n) (m' : Map R n), s.found[i]? = some c ∧
      choosePath src dst s = some (c.paths, m') ∧ m'.edges.map Edge.type = m.edges.map
        (fun e => replay src dst s.found e (markPaths (s.found.map (steps src dst)) e).type) := by
  have hlt : findMeanMin (s.found.map Candidate.types) (s.found.map Candidate.mean) <
      s.found.length := by
    have hlt : findMeanMin (s.found.map Candidate.types) (s.found.map Candidate.mean) <
        (s.found.map Candidate.types).length :=
      findMeanMin_lt (by simp) (by simpa [List.length_pos_iff] using hne)
    rwa [List.length_map] at hlt
  have hget := List.getElem?_eq_getElem hlt
  have hwalks : ∀ c ∈ s.found, ∃ vs, walk c.preds src n dst = some vs := by
    intro c hc
    obtain ⟨i, hi⟩ := List.getElem?_of_mem hc
    obtain ⟨vs, hvs, -⟩ := (h.found i c hi).path
    exact ⟨vs, hvs⟩
  have hchoose : restore src dst s.found s.map.edges = some (s.map.edges.map
      (fun e => { e with type := replay src dst s.found e e.type })) := restore_eq hwalks
  refine ⟨_, _, _, hget, by rw [choosePath, hget, Option.bind_some, hchoose, Option.map_some], ?_⟩
  simp only [h.map, List.map_map]
  apply List.map_congr_left
  intro e _
  simp only [Function.comp_apply, replay, retype, markPaths_joins]

end search

/-! ### What `getPaths` returns -/

section returns

variable {dijkstra : List (Edge n) → Fin n → Fin n → Fin n} {src dst : Fin n}

/-- No junction is closer to the source than the source. -/
theorem ne_of_hasNextPath {m : Map ℝ n} (h : hasNextPath m src dst = true) : dst ≠ src := by
  rintro rfl
  obtain ⟨e, -, u, -, -, hlt⟩ := hasNextPath_iff.mp h
  rw [dist, dist, msvrCalDist_lt, sub_self, sub_self] at hlt
  have hx := mul_self_nonneg (m.x dst - m.x u)
  have hy := mul_self_nonneg (m.y dst - m.y u)
  linarith

/-- The path of a candidate. -/
theorem Found.isPath [Scalar R] (hs : Searches dijkstra) {m : Map R n}
    {earlier : List (Candidate R n)} {c : Candidate R n} (h : Found dijkstra src dst m earlier c)
    (hne : dst ≠ src) : ∃ path, c.paths = path.map Fin.val ∧ IsPath m src dst path := by
  obtain ⟨vs, hvs, hpaths⟩ := h.path
  have hadj : ∀ v ∈ vs, ∃ e ∈ m.edges, e.joins (c.preds v) v = true := by
    intro v hv
    have hstep : (v, c.preds v) ∈ steps src dst c := by
      rw [steps_eq hvs]
      exact List.mem_map_of_mem hv
    obtain ⟨e, he, hj⟩ := h.joined hs hstep
    exact ⟨e, he, Edge.joins_comm e _ _ ▸ hj⟩
  have hlast := getLast?_walk hvs
  refine ⟨(dst :: vs.map c.preds).reverse, ?_, ?_, ?_, ?_, ?_⟩
  · rw [hpaths, List.map_reverse]
  · cases vs with
    | nil =>
        rw [List.map_nil, List.getLast?_singleton] at hlast
        exact absurd (Option.some.inj hlast) hne
    | cons v vs =>
        rw [List.length_reverse, List.length_cons, List.length_map, List.length_cons]
        omega
  · rw [List.head?_reverse]
    exact hlast
  · rw [List.getLast?_reverse]
    rfl
  · rw [List.isChain_reverse]
    exact isChain_walk hvs hadj

/-- After a search between two junctions. -/
theorem choosePath_right_iff (hs : Searches dijkstra) {m : Map ℝ n} {fuel : ℕ} {s : Search ℝ n}
    (h : searchPaths dijkstra src dst fuel m = some s) :
    (∃ path m', choosePath src dst s = some (path.map Fin.val, m') ∧ IsPath m src dst path ∧
      m'.edges.map Edge.type = m.edges.map Edge.type) ↔
      hasNextPath m src dst = true ∧ Restorable m.edges (s.found.map (steps src dst)) := by
  have hall : FoundAll dijkstra src dst m s := searchPaths_foundAll h
  rw [← found_ne_nil_iff h, ← replay_iff hs hall]
  constructor
  · rintro ⟨path, m', hget, -, htypes⟩
    have hne : s.found ≠ [] := by
      intro hnil
      rw [choosePath, hnil, List.getElem?_nil] at hget
      cases hget
    obtain ⟨i, c, m₁, -, hchoose, hm₁⟩ := choosePath_eq hall hne
    obtain ⟨-, rfl⟩ := Prod.mk.inj (Option.some.inj (hchoose.symm.trans hget))
    rw [hm₁, List.map_inj_left] at htypes
    exact ⟨hne, htypes⟩
  · rintro ⟨hne, htypes⟩
    obtain ⟨i, c, m', hi, hchoose, hm'⟩ := choosePath_eq hall hne
    have hdst := ne_of_hasNextPath ((found_ne_nil_iff h).mp hne)
    obtain ⟨path, hpath, hright⟩ := (hall.found i c hi).isPath hs hdst
    refine ⟨path, m', ?_, hright, ?_⟩
    · rw [hchoose, hpath]
    · rw [hm', List.map_inj_left]
      exact htypes

theorem getPaths_eq {R : Type*} [Scalar R]
    {dijkstra : List (Edge (n + 1)) → Fin (n + 1) → Fin (n + 1) → Fin (n + 1)}
    {m : Map R (n + 1)} {junk : R × R} {x1 y1 x2 y2 : R} {fuel : ℕ} {s : Search R (n + 1)}
    (h : pathSearch dijkstra m junk x1 y1 x2 y2 fuel = some s) :
    getPaths dijkstra m junk x1 y1 x2 y2 fuel =
      choosePath (getSrcAndDst m junk x1 y1 x2 y2).first (getSrcAndDst m junk x1 y1 x2 y2).second
        s := by
  rw [getPaths, h, Option.bind_some]

/-! ### Two junctions -/

/-- Two junctions. -/
abbrev left : Fin 2 := ⟨0, by decide⟩

abbrev right : Fin 2 := ⟨1, by decide⟩

/-- They are 100 apart, with a road between them for each type. -/
def twoJunctions (types : List ℤ) : Map ℝ 2 where
  x v := (([0, 100].getD v 0 : ℕ) : ℝ)
  y _ := 0
  edges := types.zipIdx.map (fun (type, i) => ⟨left, right, i, type⟩)

theorem twoJunctions_edge {types : List ℤ} {e : Edge 2} (he : e ∈ (twoJunctions types).edges) :
    e.joins right left = true ∧ e.type ∈ types := by
  obtain ⟨⟨type, i⟩, hmem, rfl⟩ := List.mem_map.mp he
  refine ⟨by simp [Edge.joins], ?_⟩
  obtain ⟨-, hlt, hget⟩ := List.mem_zipIdx hmem
  simp only at hget ⊢
  rw [hget]
  exact List.getElem_mem _

theorem hasNextPath_twoJunctions {type : ℤ} {types : List ℤ}
    (hopen : ∀ t ∈ type :: types, t ≠ INT_MAX) :
    hasNextPath (twoJunctions (type :: types)) left right = true := by
  have hroad : (⟨left, right, 0, type⟩ : Edge 2) ∈ (twoJunctions (type :: types)).edges :=
    List.mem_cons_self
  obtain ⟨hj, ht⟩ := twoJunctions_edge hroad
  refine hasNextPath_iff.mpr ⟨_, hroad, left, hj, hopen _ ht, ?_⟩
  rw [dist, dist, msvrCalDist_lt]
  norm_num [twoJunctions]

/-- The search marks all the roads, and ends. -/
theorem searchPaths_twoJunctions {dijkstra : List (Edge 2) → Fin 2 → Fin 2 → Fin 2}
    (hs : Searches dijkstra) {type : ℤ} {types : List ℤ}
    (hopen : ∀ t ∈ type :: types, t ≠ INT_MAX) :
    ∃ s, searchPaths dijkstra left right 1 (twoJunctions (type :: types)) = some s ∧
      s.found.map (steps left right) = [[(right, left)]] := by
  have hguard := hasNextPath_twoJunctions hopen
  have hroad : (⟨left, right, 0, type⟩ : Edge 2) ∈ (twoJunctions (type :: types)).edges :=
    List.mem_cons_self
  have hedges : ∀ e ∈ (twoJunctions (type :: types)).edges, e.joins right left = true := by
    intro e he
    exact (twoJunctions_edge he).1
  generalize twoJunctions (type :: types) = m at *
  have htree := hs.tree m.edges left
  have hpred : dijkstra m.edges left right = left := by
    have hne := (htree.spans left right
      (joined_iff.mpr ⟨_, hroad, by simp [Edge.joins]⟩) (Or.inl rfl)).resolve_left (by decide)
    generalize dijkstra m.edges left right = v at hne ⊢
    revert hne
    revert v
    decide
  have hwalk : walk (dijkstra m.edges left) left 2 right =
      some [right] :=
    walk_of_iterate (k := 1) (by decide) hpred (fun j hj => by
      obtain rfl : j = 0 := by omega
      show right ≠ left
      decide)
  obtain ⟨t, ht⟩ : ∃ t, nextPath dijkstra left right ⟨m, []⟩ = some t :=
    ⟨_, Option.map_eq_some_iff.mpr ⟨_, hwalk, rfl⟩⟩
  obtain ⟨vs, hvs, hmap, hfound⟩ := nextPath_some ht
  obtain rfl := Option.some.inj (hvs.symm.trans hwalk)
  have hend : hasNextPath t.map left right = false := by
    rw [← Bool.not_eq_true]
    intro hmore
    obtain ⟨e, he, u, -, ho, -⟩ := hasNextPath_iff.mp hmore
    rw [hmap] at he
    obtain ⟨f, hf, rfl⟩ := List.mem_map.mp he
    apply ho
    have hon : onWay (dijkstra m.edges left) [right] f = true := by
      rw [onWay, List.any_cons, hpred, hedges f hf]
      rfl
    rw [mark, if_pos hon]
    rfl
  refine ⟨t, ?_, ?_⟩
  · have hit : WhileLoop.Iterates (fun s : Search ℝ 2 => hasNextPath s.map left right)
        (nextPath dijkstra left right) ⟨m, []⟩ t := ⟨hguard, ht⟩
    rw [searchPaths, WhileLoop.run_succ hit]
    exact @WhileLoop.run_of_false _ (fun s : Search ℝ 2 => hasNextPath s.map left right)
      (nextPath dijkstra left right) t hend 0
  · rw [hfound, List.nil_append, List.map_cons, List.map_nil, steps_eq hwalk]
    simp only [List.map_cons, List.map_nil, hpred]

/-- From the left junction to the right one. -/
theorem ends_twoJunctions : ∀ types ∈ [[20], [20, 60]],
    (getSrcAndDst (twoJunctions types) (0, 0) 0 0 0 0).first = left ∧
    (getSrcAndDst (twoJunctions types) (0, 0) 0 0 0 0).second = right := by
  have hrange : List.finRange 2 = [left, right] := by decide
  intro types htypes
  simp only [List.mem_cons, List.not_mem_nil, or_false] at htypes
  obtain rfl | rfl := htypes <;>
    norm_num [getSrcAndDst, getRoadByPos, roadAt, roadFrom, roadTo, inBox, hrange, adjacentVertices,
      twoJunctions, padded_iff,
      endsStep, setSource, setDest, distFrom, msvrCalDist_lt]

theorem restorable_single : Restorable (twoJunctions [20]).edges [[(right, left)]] := by
  apply restorable_of_simple
  · decide
  · intro i path hi e
    obtain rfl : i = 0 := by
      have := (List.getElem?_eq_some_iff.mp hi).1
      simpa using this
    exact fun _ => rfl

theorem not_restorable_parallel : ¬ Restorable (twoJunctions [20, 60]).edges [[(right, left)]] := by
  intro h
  have := h 0 _ rfl 0 right left rfl ⟨left, right, 1, 60⟩ (by decide) (by decide) (by decide)
  revert this
  decide

/-- The call for two junctions. -/
theorem pathSearch_twoJunctions {dijkstra : List (Edge 2) → Fin 2 → Fin 2 → Fin 2}
    (hs : Searches dijkstra) : ∀ types ∈ [[20], [20, 60]],
    ∃ s, pathSearch dijkstra (twoJunctions types) (0, 0) 0 0 0 0 1 = some s ∧
      s.found.map (steps left right) = [[(right, left)]] := by
  intro types htypes
  obtain ⟨hfirst, hsecond⟩ := ends_twoJunctions types htypes
  unfold pathSearch
  simp only [hfirst, hsecond]
  simp only [List.mem_cons, List.not_mem_nil, or_false] at htypes
  obtain rfl | rfl := htypes
  · exact searchPaths_twoJunctions hs (by decide)
  · exact searchPaths_twoJunctions hs (by decide)

/-- **The result of `getPaths`.** When the search has ended, the call returns a path between the
junctions and leaves every road its type exactly when there is a first path and what is recorded for
the successive paths is restorable. -/
theorem returnsRight_iff
    {dijkstra : List (Edge (n + 1)) → Fin (n + 1) → Fin (n + 1) → Fin (n + 1)}
    (hs : Searches dijkstra) (m : Map ℝ (n + 1)) (junk : ℝ × ℝ) (x1 y1 x2 y2 : ℝ) (fuel : ℕ)
    (s : Search ℝ (n + 1)) (h : pathSearch dijkstra m junk x1 y1 x2 y2 fuel = some s) :
    let ends := getSrcAndDst m junk x1 y1 x2 y2
    ReturnsRight dijkstra m junk x1 y1 x2 y2 fuel ↔
      hasNextPath m ends.first ends.second = true ∧
        ∃ paths, Successive dijkstra ends.first ends.second m [] paths ∧
          Restorable m.edges paths := by
  unfold ReturnsRight
  rw [getPaths_eq h]
  simp only [searchPaths_successive h, exists_eq_left']
  exact choosePath_right_iff hs h

/-- One road of type 20. -/
theorem returnsRight_sample :
    ReturnsRight dijkstraShortestPaths (twoJunctions [20]) (0, 0) 0 0 0 0 1 := by
  obtain ⟨s, hs, hsteps⟩ := pathSearch_twoJunctions dijkstraShortestPaths_searches [20] (by decide)
  obtain ⟨hfirst, hsecond⟩ := ends_twoJunctions [20] (by decide)
  refine (returnsRight_iff dijkstraShortestPaths_searches _ _ _ _ _ _ _ s hs).mpr ⟨?_, ?_⟩
  · rw [hfirst, hsecond]
    exact hasNextPath_twoJunctions (by decide)
  · refine ⟨_, (searchPaths_successive hs).mpr rfl, ?_⟩
    rw [hfirst, hsecond, hsteps]
    exact restorable_single

/-- Two roads of the types 20 and 60: both are of type 20 after the call. -/
theorem not_returnsRight :
    (∃ s, pathSearch dijkstraShortestPaths (twoJunctions [20, 60]) (0, 0) 0 0 0 0 1 = some s) ∧
    ¬ ReturnsRight dijkstraShortestPaths (twoJunctions [20, 60]) (0, 0) 0 0 0 0 1 := by
  obtain ⟨s, hs, hsteps⟩ :=
    pathSearch_twoJunctions dijkstraShortestPaths_searches [20, 60] (by decide)
  obtain ⟨hfirst, hsecond⟩ := ends_twoJunctions [20, 60] (by decide)
  refine ⟨⟨s, hs⟩, fun hright => ?_⟩
  unfold ReturnsRight at hright
  rw [getPaths_eq hs] at hright
  have hrest := ((choosePath_right_iff dijkstraShortestPaths_searches hs).mp hright).2
  rw [hfirst, hsecond, hsteps] at hrest
  exact not_restorable_parallel hrest

end returns

end GeoSvr.MsvrMap
