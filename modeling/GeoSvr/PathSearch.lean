import GeoSvr.MsvrMap
import GeoSvr.ShortestPaths

/-! # When the search for paths ends

An iteration of `getPaths` marks the roads of the path that Dijkstra's algorithm finds.  If that
path has an unmarked road, there are fewer of them after it; if it has none, the map is as before,
and so is every iteration that follows (`pathSearch_ends_iff`).

* The search ends if the unmarked roads that `hasNextPath` looks for are on paths of fewest roads
  (`fewest_ends`), because a marked road counts for more than an unmarked one.
* It does not end if such a road leads to a dead end (`deadEnd_not_ends`), as one does in the map
  of the constructor. -/

namespace GeoSvr.MsvrMap

open MapManager (Edge Map INT_MAX)

variable {R : Type*} {n : ℕ}

/-! ### The way back -/

section walk

variable {p : Fin n → Fin n} {src : Fin n}

/-- The junctions that the loop visits are those before the source. -/
theorem walk_eq_some : ∀ {fuel : ℕ} {v : Fin n} {vs : List (Fin n)},
    walk p src fuel v = some vs → ∃ k ≤ fuel, vs = (List.range k).map (fun j => p^[j] v) ∧
      p^[k] v = src ∧ ∀ j < k, p^[j] v ≠ src
  | fuel, v, vs, h => by
      unfold walk at h
      split_ifs at h with hv
      · cases h
        exact ⟨0, Nat.zero_le _, rfl, hv, fun j hj => absurd hj (Nat.not_lt_zero j)⟩
      · cases fuel with
        | zero => cases h
        | succ fuel =>
            obtain ⟨ws, hrec, he⟩ := Option.map_eq_some_iff.mp h
            cases he
            obtain ⟨k, hk, rfl, hend, hne⟩ := walk_eq_some hrec
            refine ⟨k + 1, Nat.succ_le_succ hk, ?_, hend, fun j hj => ?_⟩
            · rw [List.range_succ_eq_map, List.map_cons, List.map_map]
              rfl
            · cases j with
              | zero => exact hv
              | succ j => exact hne j (by omega)

theorem walk_of_iterate : ∀ {k fuel : ℕ} {v : Fin n}, k ≤ fuel → p^[k] v = src →
    (∀ j < k, p^[j] v ≠ src) → walk p src fuel v = some ((List.range k).map (fun j => p^[j] v))
  | 0, fuel, v, _, hk, _ => by
      unfold walk
      exact if_pos hk
  | k + 1, 0, _, hle, _, _ => absurd hle (Nat.not_succ_le_zero k)
  | k + 1, fuel + 1, v, hle, hk, hne => by
      have hrec := walk_of_iterate (Nat.le_of_succ_le_succ hle) hk
        (fun j hj => hne (j + 1) (by omega))
      have hv : v ≠ src := hne 0 (Nat.succ_pos k)
      rw [walk, if_neg hv, List.range_succ_eq_map, List.map_cons, List.map_map]
      simp only [hrec, Option.map_some]
      rfl

/-- A loop that has not ended after `n` iterations never ends. -/
theorem walk_eq_none {v : Fin n} : walk p src n v = none ↔ ∀ k, p^[k] v ≠ src := by
  constructor
  · intro h k hk
    obtain ⟨k, hlt, hk, hne⟩ := Dijkstra.exists_iterate ⟨k, hk⟩
    rw [Fintype.card_fin] at hlt
    rw [walk_of_iterate hlt.le hk hne] at h
    cases h
  · intro h
    cases hw : walk p src n v with
    | none => rfl
    | some vs =>
        obtain ⟨k, -, -, hk, -⟩ := walk_eq_some hw
        exact absurd hk (h k)

end walk

/-! ### Marks -/

/-- The road belongs to a step of the way back. -/
def onWay (p : Fin n → Fin n) (vs : List (Fin n)) (e : Edge n) : Bool :=
  vs.any (fun v => e.joins v (p v))

/-- The road after an iteration. -/
def mark (p : Fin n → Fin n) (vs : List (Fin n)) (e : Edge n) : Edge n :=
  if onWay p vs e then e.close else e

@[simp] theorem mark_joins (p : Fin n → Fin n) (vs : List (Fin n)) (e : Edge n) :
    (mark p vs e).joins = e.joins := by
  unfold mark
  split_ifs <;> rfl

theorem mark_of_not_open {p : Fin n → Fin n} {vs : List (Fin n)} {e : Edge n}
    (h : onWay p vs e = true → e.type = INT_MAX) : mark p vs e = e := by
  unfold mark
  split_ifs with hon
  · obtain ⟨s, t, id, type⟩ := e
    cases h hon
    rfl
  · rfl

theorem markRoads_snd (p : Fin n → Fin n) : ∀ (vs : List (Fin n)) (es : List (Edge n)),
    (markRoads p vs es).2 = es.map (mark p vs)
  | [], es => by
      have hid : mark p [] = id := rfl
      rw [hid, List.map_id]
      rfl
  | v :: vs, es => by
      rw [markRoads]
      simp only [markRoads_snd p vs, List.map_map]
      apply List.map_congr_left
      intro e _
      rw [Function.comp_apply]
      cases hj : e.joins v (p v) with
      | true =>
          have hclose : mark p vs e.close = e.close := mark_of_not_open (fun _ => rfl)
          rw [if_pos rfl, hclose, mark, onWay, List.any_cons, hj, Bool.true_or, if_pos rfl]
      | false =>
          simp only [Bool.false_eq_true, if_false, mark, onWay, List.any_cons, hj, Bool.false_or]

/-- An unmarked road on the way is marked, and no other one is opened. -/
theorem openRoads_mark_lt {p : Fin n → Fin n} {vs : List (Fin n)} {es : List (Edge n)} {e : Edge n}
    (he : e ∈ es) (ho : e.type ≠ INT_MAX) (hon : onWay p vs e = true) :
    MapManager.openRoads (es.map (mark p vs)) < MapManager.openRoads es := by
  have hle : ∀ l : List (Edge n), l.countP ((fun e => e.type != INT_MAX) ∘ mark p vs) ≤
      l.countP (fun e => e.type != INT_MAX) := by
    intro l
    apply List.countP_mono_left
    intro f _ hf
    by_contra hmarked
    rw [Function.comp_apply, mark_of_not_open (fun _ => by simpa using hmarked)] at hf
    exact hmarked hf
  have hclosed : (mark p vs e).type = INT_MAX := by rw [mark, if_pos hon]; rfl
  obtain ⟨pre, post, rfl⟩ := List.append_of_mem he
  have hpre := hle pre
  have hpost := hle post
  simp only [MapManager.openRoads, List.countP_map, List.countP_append, List.countP_cons,
    Function.comp_apply, hclosed, bne_self_eq_false, Bool.false_eq_true, if_false]
  rw [if_pos (by simpa using ho)]
  omega

/-! ### What the search relies on -/

/-- The links of the graph: a marked road is one of them. -/
def links (es : List (Edge n)) : List (Dijkstra.Link (Fin n) ℤ) :=
  es.map (fun e => ⟨e.source, e.target, e.type⟩)

theorem joined_iff {es : List (Edge n)} {u v : Fin n} :
    Dijkstra.Joined (links es) u v ↔ ∃ e ∈ es, e.joins u v = true := by
  simp only [Dijkstra.Joined, links, List.mem_map, exists_exists_and_eq_and, Edge.joins_iff]
  rfl

/-- What the code relies on: the predecessors form a tree over the roads, and if no type is
negative, they lie on shortest paths. -/
structure Searches (dijkstra : List (Edge n) → Fin n → Fin n → Fin n) : Prop where
  tree : ∀ es src, Dijkstra.IsTree (Dijkstra.Joined (links es)) src (dijkstra es src)
  shortest : ∀ es src, (∀ e ∈ es, 0 ≤ e.type) →
    Dijkstra.IsShortest (links es) src (dijkstra es src)

/-- The predecessor map as Dijkstra's algorithm computes it. -/
def dijkstraShortestPaths (es : List (Edge n)) (src : Fin n) : Fin n → Fin n :=
  Dijkstra.pred (links es) src

theorem dijkstraShortestPaths_searches : Searches (dijkstraShortestPaths (n := n)) where
  tree es src := Dijkstra.pred_isTree (links es) src
  shortest _ src h := Dijkstra.pred_isShortest (List.forall_mem_map.mpr h) src

/-! ### Iterations -/

/-- The way back from the destination. -/
def wayBack (dijkstra : List (Edge n) → Fin n → Fin n → Fin n) (src dst : Fin n) (m : Map R n) :
    Option (List (Fin n)) :=
  walk (dijkstra m.edges src) src n dst

variable (dijkstra : List (Edge n) → Fin n → Fin n → Fin n) (src dst : Fin n)

/-- The path that Dijkstra's algorithm finds has an unmarked road. -/
def FindsUnmarked (m : Map R n) : Prop :=
  ∃ vs, wayBack dijkstra src dst m = some vs ∧
    ∃ e ∈ m.edges, e.type ≠ INT_MAX ∧ onWay (dijkstra m.edges src) vs e = true

/-- A path never comes by a junction whose roads all lead to the destination. -/
theorem deadEnd_not_onWay {dijkstra : List (Edge n) → Fin n → Fin n → Fin n}
    (hs : Searches dijkstra) {src dst : Fin n} {m : Map R n} {w : Fin n} (hw : w ≠ src)
    (hdead : ∀ e ∈ m.edges, ∀ v, e.joins w v = true → v = dst) {vs : List (Fin n)}
    (hvs : wayBack dijkstra src dst m = some vs) {e : Edge n} (hj : e.joins dst w = true) :
    onWay (dijkstra m.edges src) vs e = false := by
  by_contra hcon
  obtain ⟨v, hv, hon⟩ := List.any_eq_true.mp (by simpa using hcon : onWay _ vs e = true)
  obtain ⟨k, -, rfl, hk, hne⟩ := walk_eq_some hvs
  obtain ⟨j, hjk, rfl⟩ := List.mem_map.mp hv
  have hjk : j < k := List.mem_range.mp hjk
  -- the step would lead to the dead end or back from it
  have hsteps : ((dijkstra m.edges src)^[j] dst = dst ∧
      dijkstra m.edges src ((dijkstra m.edges src)^[j] dst) = w) ∨
      dijkstra m.edges src ((dijkstra m.edges src)^[j] dst) = dst := by
    obtain ⟨h₁, h₂⟩ | ⟨h₁, h₂⟩ := Edge.joins_iff.mp hj <;>
      obtain ⟨h₃, h₄⟩ | ⟨h₃, h₄⟩ := Edge.joins_iff.mp hon
    · exact Or.inl ⟨h₃.symm.trans h₁, h₄.symm.trans h₂⟩
    · exact Or.inr (h₃.symm.trans h₁)
    · exact Or.inr (h₄.symm.trans h₂)
    · exact Or.inl ⟨h₄.symm.trans h₂, h₃.symm.trans h₁⟩
  obtain ⟨hdst, hto⟩ | hback := hsteps
  · have hzero : j = 0 := by
      by_contra hj0
      exact Dijkstra.iterate_ne_iterate hk hne (Nat.pos_of_ne_zero hj0) hjk.le hdst.symm
    subst hzero
    have h1k : 1 < k := by
      by_contra hcon
      obtain rfl : k = 1 := by omega
      exact hw (hto.symm.trans hk)
    have hadj := (hs.tree m.edges src).adj _ (Dijkstra.iterate_ne_of_lt hk h1k (hne 1 h1k))
    obtain ⟨f, hf, hfj⟩ := joined_iff.mp hadj
    have hret : (dijkstra m.edges src)^[2] dst = dst := hdead f hf _ (hto ▸ hfj)
    exact Dijkstra.iterate_ne_iterate hk hne (by omega : 0 < 2) h1k hret.symm
  · have hret : (dijkstra m.edges src)^[j + 1] dst = dst :=
      (Function.iterate_succ_apply' _ _ _).trans hback
    exact Dijkstra.iterate_ne_iterate hk hne (Nat.succ_pos j) hjk hret.symm

variable [Scalar R]

/-- The search comes to `hasNextPath` in the state `s`. -/
def Reached (m : Map R n) (s : Search R n) : Prop :=
  WhileLoop.Reaches (fun s => hasNextPath s.map src dst) (nextPath dijkstra src dst) ⟨m, []⟩ s

variable {dijkstra src dst}

theorem nextPath_some {s t : Search R n} (h : nextPath dijkstra src dst s = some t) :
    ∃ vs, wayBack dijkstra src dst s.map = some vs ∧
      t.map = { s.map with edges := s.map.edges.map (mark (dijkstra s.map.edges src) vs) } ∧
      t.found = s.found ++ [⟨dijkstra s.map.edges src,
        (markRoads (dijkstra s.map.edges src) vs s.map.edges).1,
        ((dst :: vs.map (dijkstra s.map.edges src)).map Fin.val).reverse,
        meanSquare (markRoads (dijkstra s.map.edges src) vs s.map.edges).1⟩] := by
  obtain ⟨vs, hvs, rfl⟩ := Option.map_eq_some_iff.mp h
  refine ⟨vs, hvs, ?_, rfl⟩
  rw [← markRoads_snd]

theorem nextPath_less {s : Search R n} (h : FindsUnmarked dijkstra src dst s.map) :
    ∃ t, nextPath dijkstra src dst s = some t ∧
      MapManager.openRoads t.map.edges < MapManager.openRoads s.map.edges := by
  obtain ⟨vs, hvs, e, he, ho, hon⟩ := h
  refine ⟨_, Option.map_eq_some_iff.mpr ⟨vs, hvs, rfl⟩, ?_⟩
  simp only [markRoads_snd]
  exact openRoads_mark_lt he ho hon

/-- An iteration that finds no unmarked road does not change the map. -/
theorem nextPath_stuck {s t : Search R n} (h : ¬ FindsUnmarked dijkstra src dst s.map)
    (ht : nextPath dijkstra src dst s = some t) : t.map = s.map := by
  obtain ⟨vs, hvs, hmap, -⟩ := nextPath_some ht
  have hkeep : s.map.edges.map (mark (dijkstra s.map.edges src) vs) = s.map.edges := by
    conv_rhs => rw [← List.map_id s.map.edges]
    apply List.map_congr_left
    intro e he
    apply mark_of_not_open
    intro hon
    by_contra ho
    exact h ⟨vs, hvs, e, he, ho, hon⟩
  rw [hmap, hkeep]

/-- The search between two junctions ends exactly when each iteration finds an unmarked road. -/
theorem searchPaths_ends_iff (m : Map R n) :
    (∃ fuel s, searchPaths dijkstra src dst fuel m = some s) ↔
      ∀ s, Reached dijkstra src dst m s → hasNextPath s.map src dst = true →
        FindsUnmarked dijkstra src dst s.map := by
  refine WhileLoop.ends_iff (fun s : Search R n => FindsUnmarked dijkstra src dst s.map)
    (fun s => MapManager.openRoads s.map.edges) ?_ ?_ ⟨m, []⟩
  · exact fun s _ h => nextPath_less h
  · intro s t h hit
    have hsame := nextPath_stuck h hit.2
    refine ⟨?_, ?_⟩
    · rw [hsame]
      exact hit.1
    · rw [hsame]
      exact h

/-! ### Dead ends -/

theorem hasNextPath_iff {m : Map R n} {src dst : Fin n} : hasNextPath m src dst = true ↔
    ∃ e ∈ m.edges, ∃ u, e.joins dst u = true ∧ e.type ≠ INT_MAX ∧
      Scalar.lt (dist m src u) (dist m src dst) = true := by
  simp only [hasNextPath, List.any_eq_true, Bool.and_eq_true, Bool.or_eq_true, beq_iff_eq,
    bne_iff_ne]
  constructor
  · rintro ⟨e, he, hend, ho, hlt⟩
    refine ⟨e, he, _, ?_, ho, hlt⟩
    split_ifs with hs
    · exact Edge.joins_iff.mpr (Or.inl ⟨hs, rfl⟩)
    · exact Edge.joins_iff.mpr (Or.inr ⟨rfl, hend.resolve_left hs⟩)
  · rintro ⟨e, he, u, hj, ho, hlt⟩
    obtain ⟨hs, ht⟩ | ⟨hs, ht⟩ := Edge.joins_iff.mp hj
    · refine ⟨e, he, Or.inl hs, ho, ?_⟩
      rw [if_pos hs, ht]
      exact hlt
    · refine ⟨e, he, Or.inr ht, ho, ?_⟩
      have hother : (if e.source = dst then e.target else e.source) = u := by
        split_ifs with h
        · rw [ht, ← h, hs]
        · exact hs
      rw [hother]
      exact hlt

/-- **The search does not end** where an unmarked road leads from the destination to a dead end
that is closer to the source. -/
theorem deadEnd_not_ends (hs : Searches dijkstra) {m : Map R n} {w : Fin n} (hw : w ≠ src)
    (hdead : ∀ e ∈ m.edges, ∀ v, e.joins w v = true → v = dst) {e : Edge n} (he : e ∈ m.edges)
    (ho : e.type ≠ INT_MAX) (hj : e.joins dst w = true)
    (hcloser : Scalar.lt (dist m src w) (dist m src dst) = true) :
    ¬ ∃ fuel s, searchPaths dijkstra src dst fuel m = some s := by
  apply WhileLoop.not_ends (fun s : Search R n => s.map.x = m.x ∧ s.map.y = m.y ∧
    e ∈ s.map.edges ∧ ∀ e ∈ s.map.edges, ∀ v, e.joins w v = true → v = dst)
  · rintro s ⟨hx, hy, hmem, -⟩
    refine hasNextPath_iff.mpr ⟨e, hmem, w, hj, ho, ?_⟩
    simp only [dist, hx, hy]
    exact hcloser
  · rintro s t ⟨hx, hy, hmem, hdead⟩ hit
    obtain ⟨vs, hvs, hmap, -⟩ := nextPath_some hit.2
    rw [hmap]
    refine ⟨hx, hy, List.mem_map.mpr ⟨e, hmem, ?_⟩, ?_⟩
    · have hoff := deadEnd_not_onWay hs hw hdead hvs hj
      exact mark_of_not_open (fun hon => by rw [hoff] at hon; cases hon)
    · intro e' he' v hv
      obtain ⟨f, hf, rfl⟩ := List.mem_map.mp he'
      rw [mark_joins] at hv
      exact hdead f hf v hv
  · exact ⟨rfl, rfl, he, hdead⟩

/-! ### Paths of fewest roads -/

section fewest

/-- The graph in which every road is of length 1. -/
def hops (es : List (Edge n)) : List (Dijkstra.Link (Fin n) ℕ) :=
  es.map (fun e => ⟨e.source, e.target, 1⟩)

theorem hops_mark (p : Fin n → Fin n) (vs : List (Fin n)) (es : List (Edge n)) :
    hops (es.map (mark p vs)) = hops es := by
  rw [hops, List.map_map]
  apply List.map_congr_left
  intro e _
  simp only [Function.comp_apply, mark]
  split_ifs <;> rfl

/-- Along fewest roads the types add up to so many times `INT_MAX` at most. -/
theorem walk_of_hops {es : List (Edge n)} (hmax : ∀ e ∈ es, e.type ≤ INT_MAX) {v : Fin n} {k : ℕ}
    (h : Dijkstra.Walk (hops es) src v k) :
    ∃ w ≤ k * INT_MAX, Dijkstra.Walk (links es) src v w := by
  induction h with
  | start => exact ⟨0, by simp, Dijkstra.Walk.start⟩
  | @step u v k l _ hl hj ih =>
      obtain ⟨w, hle, hw⟩ := ih
      obtain ⟨e, he, rfl⟩ := List.mem_map.mp hl
      refine ⟨w + e.type, ?_, hw.step (List.mem_map_of_mem he) hj⟩
      have := hmax e he
      push_cast
      linarith

/-- Where Dijkstra's algorithm finds marked roads only, the destination is as far as there are roads
on the path. -/
theorem dist_of_marked (hs : Searches dijkstra) {es : List (Edge n)} (hpos : ∀ e ∈ es, 0 ≤ e.type) :
    ∀ {k : ℕ} {v : Fin n}, (dijkstra es src)^[k] v = src →
      (∀ j < k, (dijkstra es src)^[j] v ≠ src) →
      (∀ j < k, ∀ e ∈ es, e.joins ((dijkstra es src)^[j] v) ((dijkstra es src)^[j + 1] v) = true →
        e.type = INT_MAX) →
      Dijkstra.IsDist (links es) src v (k * INT_MAX) ∧ Dijkstra.Walk (hops es) src v k
  | 0, v, hk, _, _ => by
      obtain rfl : v = src := hk
      have hstart : Dijkstra.IsDist (links es) v v 0 :=
        Dijkstra.isDist_start (List.forall_mem_map.mpr hpos)
      refine ⟨?_, Dijkstra.Walk.start⟩
      rw [Nat.cast_zero, zero_mul]
      exact hstart
  | k + 1, v, hk, hne, hmarked => by
      obtain ⟨hdist, hwalk⟩ := dist_of_marked hs hpos (v := dijkstra es src v) hk
        (fun j hj => hne (j + 1) (by omega)) (fun j hj => hmarked (j + 1) (by omega))
      have hfix : dijkstra es src v ≠ v :=
        Dijkstra.iterate_ne_of_lt hk (Nat.succ_pos k) (hne 0 (Nat.succ_pos k))
      obtain ⟨l, hl, w, hj, hw, hv⟩ := (hs.shortest es src hpos).shortest v hfix
      obtain ⟨e, he, rfl⟩ := List.mem_map.mp hl
      have htype : e.type = INT_MAX :=
        hmarked 0 (Nat.succ_pos k) e he (Edge.joins_iff.mpr hj)
      constructor
      · rw [hw.unique hdist] at hv
        have hsum : ((k + 1 : ℕ) : ℤ) * INT_MAX = k * INT_MAX + e.type := by
          rw [htype]
          push_cast
          ring
        rw [hsum]
        exact hv
      · have hhop : (⟨e.source, e.target, 1⟩ : Dijkstra.Link (Fin n) ℕ) ∈ hops es :=
          List.mem_map_of_mem he
        exact hwalk.step hhop hj.symm

/-- Until the search ends, roads are marked, and nothing else changes. -/
theorem Reached.marked {m : Map R n} {s : Search R n} (h : Reached dijkstra src dst m s) :
    s.map.x = m.x ∧ s.map.y = m.y ∧ hops s.map.edges = hops m.edges ∧
      ∀ e ∈ s.map.edges, e ∈ m.edges ∨ e.type = INT_MAX := by
  induction h with
  | refl => exact ⟨rfl, rfl, rfl, fun e he => Or.inl he⟩
  | @tail s t _ hit ih =>
      obtain ⟨hx, hy, hhops, hmem⟩ := ih
      obtain ⟨vs, -, hmap, -⟩ := nextPath_some hit.2
      rw [hmap]
      refine ⟨hx, hy, (hops_mark _ _ _).trans hhops, fun e' he' => ?_⟩
      obtain ⟨e, he, rfl⟩ := List.mem_map.mp he'
      unfold mark
      split_ifs
      · exact Or.inr rfl
      · exact hmem e he

omit [Scalar R] in
/-- A path without an unmarked road. -/
theorem marked_of_stuck {m : Map R n} {j : ℕ} (hjn : j ≤ n)
    (hend : (dijkstra m.edges src)^[j] dst = src)
    (hne : ∀ i < j, (dijkstra m.edges src)^[i] dst ≠ src)
    (hstuck : ¬ FindsUnmarked dijkstra src dst m) :
    ∀ i < j, ∀ e ∈ m.edges, e.joins ((dijkstra m.edges src)^[i] dst)
      ((dijkstra m.edges src)^[i + 1] dst) = true → e.type = INT_MAX := by
  intro i hi e he hj
  by_contra ho
  refine hstuck ⟨_, walk_of_iterate hjn hend hne, e, he, ho, List.any_eq_true.mpr ?_⟩
  refine ⟨_, List.mem_map_of_mem (List.mem_range.mpr hi), ?_⟩
  rw [Function.iterate_succ_apply'] at hj
  exact hj

/-- **The search ends** where every unmarked road from the destination to a closer junction is on a
path of fewest roads. -/
theorem fewest_ends (hs : Searches dijkstra) {m : Map R n} (hpos : ∀ e ∈ m.edges, 0 ≤ e.type)
    (hmax : ∀ e ∈ m.edges, e.type ≤ INT_MAX)
    (hfew : ∀ e ∈ m.edges, ∀ u, e.joins dst u = true → e.type ≠ INT_MAX →
      Scalar.lt (dist m src u) (dist m src dst) = true →
      ∃ k, Dijkstra.Walk (hops m.edges) src u k ∧ Dijkstra.IsDist (hops m.edges) src dst (k + 1)) :
    ∃ fuel s, searchPaths dijkstra src dst fuel m = some s := by
  rw [searchPaths_ends_iff]
  intro s hreach hg
  obtain ⟨hx, hy, hhops, hmem⟩ := hreach.marked
  have htypes : ∀ e ∈ s.map.edges, 0 ≤ e.type ∧ e.type ≤ INT_MAX := by
    intro e he
    obtain he | he := hmem e he
    · exact ⟨hpos e he, hmax e he⟩
    · rw [he]
      decide
  obtain ⟨e, he, u, hj, ho, hlt⟩ := hasNextPath_iff.mp hg
  simp only [dist, hx, hy] at hlt
  obtain ⟨k, hu, hdst⟩ := hfew e ((hmem e he).resolve_right ho) u hj ho hlt
  rw [← hhops] at hu hdst
  -- a path by the unmarked road is shorter than as many marked ones
  obtain ⟨w, hw, hwalk⟩ := walk_of_hops (fun e he => (htypes e he).2) hu
  have hwalk : Dijkstra.Walk (links s.map.edges) src dst (w + e.type) :=
    hwalk.step (List.mem_map_of_mem he) (Edge.joins_iff.mp hj).symm
  have hreached : dst = src ∨ dijkstra s.map.edges src dst ≠ dst :=
    ((hs.tree s.map.edges src).reaches_iff (fun _ _ => Dijkstra.Joined.symm)).mpr hwalk.reaches
  obtain ⟨j, hjn, hend, hne⟩ := (hs.tree s.map.edges src).depth hreached
  rw [Fintype.card_fin] at hjn
  by_contra hstuck
  obtain ⟨hdist, hway⟩ := dist_of_marked hs (fun e he => (htypes e he).1) hend hne
    (marked_of_stuck hjn.le hend hne hstuck)
  have hfar : (j : ℤ) * INT_MAX ≤ w + e.type := hdist.least _ hwalk
  have hlong : (k + 1 : ℤ) ≤ j := by exact_mod_cast hdst.least j hway
  have hmono : (k + 1 : ℤ) * INT_MAX ≤ j * INT_MAX := mul_le_mul_of_nonneg_right hlong (by decide)
  have hless : e.type < INT_MAX := lt_of_le_of_ne (htypes e he).2 ho
  linarith

end fewest

/-! ### The map of the constructor -/

/-- Distances are compared like their squares. -/
theorem msvrCalDist_lt {x1 y1 x2 y2 u1 v1 u2 v2 : ℝ} :
    Scalar.lt (msvrCalDist x1 y1 x2 y2) (msvrCalDist u1 v1 u2 v2) = true ↔
      (x1 - x2) * (x1 - x2) + (y1 - y2) * (y1 - y2) <
        (u1 - u2) * (u1 - u2) + (v1 - v2) * (v1 - v2) := by
  rw [MapManager.lt_iff]
  exact Real.sqrt_lt_sqrt_iff (add_nonneg (mul_self_nonneg _) (mul_self_nonneg _))

theorem padded_iff {a b x : ℝ} : padded a b x = true ↔ min a b - 30 ≤ x ∧ x ≤ max a b + 30 := by
  have h30 : (Scalar.ofNat 30 : ℝ) = 30 := by norm_num [Scalar.ofNat]
  simp only [padded, Bool.and_eq_true, Bool.not_eq_true', ← Bool.not_eq_true, MapManager.lt_iff,
    not_lt, h30]
  rw [show (if b < a then b else a) = min a b by rw [min_comm]; exact (min_def_lt b a).symm]
  rw [show (if a < b then b else a) = max a b from (max_def_lt a b).symm]

theorem roadAt_default : roadAt (defaultMap ℝ) 0 0 = some ⟨nodeA, nodeB, 0, 100⟩ ∧
    roadAt (defaultMap ℝ) 1450 500 = some ⟨nodeC, nodeD, 2, 100⟩ := by
  have hrange : List.finRange 5 = [nodeA, nodeB, nodeC, nodeD, nodeE] := by decide
  constructor
  · norm_num [roadAt, roadFrom, roadTo, inBox, hrange, adjacentVertices, defaultMap, padded_iff,
      Scalar.ofNat]
  · norm_num [roadAt, roadFrom, roadTo, inBox, hrange, adjacentVertices, defaultMap, padded_iff,
      Scalar.ofNat]

theorem ends_default (junk : ℝ × ℝ) :
    (getSrcAndDst (defaultMap ℝ) junk 0 0 1450 500).first = nodeA ∧
    (getSrcAndDst (defaultMap ℝ) junk 0 0 1450 500).second = nodeD := by
  obtain ⟨hsrc, hdst⟩ := roadAt_default
  unfold getSrcAndDst getRoadByPos
  rw [hsrc, hdst]
  norm_num [defaultMap, endsStep, setSource, setDest, distFrom, msvrCalDist_lt, Scalar.ofNat]

/-- In the map of the constructor the search from the first junction to the fourth does not end: the
fifth is a dead end, and closer to the first. -/
theorem default_not_ends {dijkstra : List (Edge 5) → Fin 5 → Fin 5 → Fin 5}
    (hs : Searches dijkstra) (junk : ℝ × ℝ) :
    ¬ ∃ fuel s, pathSearch dijkstra (defaultMap ℝ) junk 0 0 1450 500 fuel = some s := by
  obtain ⟨hfirst, hsecond⟩ := ends_default junk
  unfold pathSearch
  simp only [hfirst, hsecond]
  have hcloser : Scalar.lt (dist (defaultMap ℝ) nodeA nodeE)
      (dist (defaultMap ℝ) nodeA nodeD) = true := by
    rw [dist, dist, msvrCalDist_lt]
    norm_num [defaultMap, Scalar.ofNat]
  have hroad : (⟨nodeD, nodeE, 3, 100⟩ : Edge 5) ∈ (defaultMap ℝ).edges := by
    decide
  exact deadEnd_not_ends hs (by decide) (by decide) hroad (by decide) (by decide) hcloser

/-- **The search of `getPaths`** ends exactly when each iteration that `hasNextPath` allows finds a
path with an unmarked road. -/
theorem pathSearch_ends_iff
    (dijkstra : List (Edge (n + 1)) → Fin (n + 1) → Fin (n + 1) → Fin (n + 1))
    (m : Map R (n + 1)) (junk : R × R) (x1 y1 x2 y2 : R) :
    let path := getSrcAndDst m junk x1 y1 x2 y2
    (∃ fuel s, pathSearch dijkstra m junk x1 y1 x2 y2 fuel = some s) ↔
      ∀ s, Reached dijkstra path.first path.second m s →
        hasNextPath s.map path.first path.second = true →
        FindsUnmarked dijkstra path.first path.second s.map :=
  searchPaths_ends_iff m

/-- From the first junction of the constructor's map to the fourth. -/
theorem not_pathSearch_ends : ¬ ∃ fuel s,
    pathSearch dijkstraShortestPaths (defaultMap ℝ) (0, 0) 0 0 1450 500 fuel = some s :=
  default_not_ends dijkstraShortestPaths_searches (0, 0)

end GeoSvr.MsvrMap
