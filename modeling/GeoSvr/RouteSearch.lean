import GeoSvr.RoadMap

/-! # The search for routes (`map_manager.cc`)

`get_routes` collects routes until `more_route` finds no open road at the destination that leads
closer to the source.  `get_route` walks back from the destination along the predecessors that
Boost's `dijkstra_shortest_paths` computed, and closes a road of each step by giving it the type
`INT_MAX`.  The predecessor map is a parameter; what the code relies on is `Searches`.

The road that is closed is the first one that joins the two junctions, not the one the search
used.  An open road that is preceded by another between the same two junctions stays open for
ever; the search ends for all pairs of junctions exactly when there is none (`Distinct`). -/

namespace GeoSvr.MapManager

variable {R : Type*} {n : ℕ}

/-! ### Definitions -/

/-- The road, temporarily of the type `INT_MAX`. -/
def Edge.close (e : Edge n) : Edge n := { e with type := INT_MAX }

/-- `more_route`. -/
def Map.moreRoute [Scalar R] (m : Map R n) (a b : Fin n) : Bool :=
  m.edges.any (fun e => e.type != INT_MAX &&
    (if e.source = b then Scalar.lt (m.dist a e.target) (m.dist a b)
    else if e.target = b then Scalar.lt (m.dist a e.source) (m.dist a b)
    else false))

/-- The scan of `get_route`: the first road that joins `u` and `v` is taken and closed. -/
def takeRoad (u v : Fin n) : List (Edge n) → Option Route × List (Edge n)
  | [] => (none, [])
  | e :: es =>
      if e.joins u v then (some ⟨e.id, u, v, e.type⟩, e.close :: es)
      else ((takeRoad u v es).1, e :: (takeRoad u v es).2)

/-- The loop of `get_route` from `vi` back to `src`: the roads in the order in which they are
taken.  `none` if it has not ended after `fuel` steps. -/
def backtrack (p : Fin n → Fin n) (src : Fin n) :
    ℕ → Fin n → List (Edge n) → Option (List Route × List (Edge n))
  | fuel, vi, es =>
      if vi = src ∨ vi = p vi then some ([], es)
      else
        match fuel with
        | 0 => none
        | fuel + 1 =>
            let (r, es) := takeRoad vi (p vi) es
            (backtrack p src fuel (p vi) es).map (fun (rs, es) => (r.toList ++ rs, es))

section dijkstra

variable (dijkstra : List (Edge n) → Fin n → Fin n → Fin n)

/-- `get_route(std::pair)`.  A way back of `n` steps visits a junction twice, so a loop that has
not ended after `n` steps never ends. -/
def Map.getRoute (m : Map R n) (a b : Fin n) : Option (List Route × Map R n) :=
  (backtrack (dijkstra m.edges a) a n b m.edges).map
    (fun (rs, es) => (rs.reverse, { m with edges := es }))

/-- The loop of `get_routes`; `none` if it has not ended after `fuel` iterations. -/
def Map.searchRoutes [Scalar R] (a b : Fin n) :
    ℕ → Map R n → Option (List (List Route) × Map R n)
  | 0, _ => none
  | fuel + 1, m =>
      if m.moreRoute a b then
        match m.getRoute dijkstra a b with
        | none => none
        | some ([], m) => some ([], m)
        | some (route, m) =>
            (searchRoutes a b fuel m).map (fun (routes, m) => (route :: routes, m))
      else some ([], m)

/-- `get_routes`. -/
def Map.getRoutes [Scalar R] (fuel : ℕ) (m : Map R n) (a b : Fin n) :
    Option (List (List Route) × Map R n) :=
  match (if a = b then m.edges.find? (fun e => e.joins a b) else none) with
  | some e => some ([[⟨e.id, a, b, e.type⟩]], m)
  | none => m.searchRoutes dijkstra a b fuel

end dijkstra

/-- An open road joins the junctions. -/
def Live (es : List (Edge n)) (u v : Fin n) : Prop :=
  ∃ e ∈ es, e.type ≠ INT_MAX ∧ e.joins u v = true

/-- What the code relies on: the predecessors form a tree over the open roads. -/
def Searches (dijkstra : List (Edge n) → Fin n → Fin n → Fin n) : Prop :=
  ∀ es src, Dijkstra.IsTree (Live es) src (dijkstra es src)

/-- The predecessor map as Dijkstra's algorithm computes it. -/
def dijkstraShortestPaths (es : List (Edge n)) (src : Fin n) : Fin n → Fin n :=
  Dijkstra.pred ((es.filter (fun e => e.type != INT_MAX)).map
    (fun e => (⟨e.source, e.target, e.type⟩ : Dijkstra.Link (Fin n) ℤ))) src

theorem dijkstraShortestPaths_searches : Searches (dijkstraShortestPaths (n := n)) := by
  intro es src
  have hadj : Dijkstra.Joined ((es.filter (fun e => e.type != INT_MAX)).map
      (fun e => (⟨e.source, e.target, e.type⟩ : Dijkstra.Link (Fin n) ℤ))) = Live es := by
    funext u v
    apply propext
    simp only [Dijkstra.Joined, List.mem_map, List.mem_filter, bne_iff_ne, Live]
    constructor
    · rintro ⟨l, ⟨e, ⟨he, ht⟩, rfl⟩, hj⟩
      exact ⟨e, he, ht, Edge.joins_iff.mpr hj⟩
    · rintro ⟨e, he, ht, hj⟩
      exact ⟨_, ⟨e, ⟨he, ht⟩, rfl⟩, Edge.joins_iff.mp hj⟩
  rw [← hadj]
  exact Dijkstra.pred_isTree _ src

/-- An iteration of the search: there is no more route, or `get_route` finds none, or the route
that it finds comes before those of the iterations that follow. -/
theorem searchRoutes_cases [Scalar R] {dijkstra : List (Edge n) → Fin n → Fin n → Fin n}
    {a b : Fin n} {fuel : ℕ} {m m' : Map R n} {routes : List (List Route)}
    (h : m.searchRoutes dijkstra a b fuel = some (routes, m')) :
    (m.moreRoute a b = false ∧ routes = [] ∧ m' = m) ∨
    (m.moreRoute a b = true ∧ routes = [] ∧ m.getRoute dijkstra a b = some ([], m')) ∨
    ∃ k route m₁ rest, fuel = k + 1 ∧ m.moreRoute a b = true ∧ route ≠ [] ∧
      m.getRoute dijkstra a b = some (route, m₁) ∧
      m₁.searchRoutes dijkstra a b k = some (rest, m') ∧ routes = route :: rest := by
  cases fuel with
  | zero => cases h
  | succ k =>
      unfold Map.searchRoutes at h
      split_ifs at h with hmore
      · cases hroute : m.getRoute dijkstra a b with
        | none =>
            rw [hroute] at h
            cases h
        | some res =>
            obtain ⟨route, m₁⟩ := res
            rw [hroute] at h
            cases route with
            | nil =>
                cases h
                exact Or.inr (Or.inl ⟨hmore, rfl, rfl⟩)
            | cons r rs =>
                obtain ⟨⟨rest, m₂⟩, hrec, he⟩ := Option.map_eq_some_iff.mp h
                cases he
                exact Or.inr (Or.inr ⟨k, r :: rs, m₁, rest, rfl, hmore, List.cons_ne_nil r rs, rfl,
                  hrec, rfl⟩)
      · cases h
        exact Or.inl ⟨by simpa using hmore, rfl, rfl⟩

/-! ### Taken roads -/

@[simp] theorem close_joins (e : Edge n) : e.close.joins = e.joins := rfl

/-- Some roads with ids in `ids` were closed. -/
def Taken (ids : List ℤ) (es es' : List (Edge n)) : Prop :=
  List.Forall₂ (fun e e' => e' = e ∨ (e' = e.close ∧ e.id ∈ ids)) es es'

theorem Taken.refl (ids : List ℤ) (es : List (Edge n)) : Taken ids es es :=
  List.forall₂_same.mpr (fun _ _ => Or.inl rfl)

theorem Taken.mono {ids ids' : List ℤ} {es es' : List (Edge n)} (h : Taken ids es es')
    (hsub : ids ⊆ ids') : Taken ids' es es' :=
  List.Forall₂.imp (fun _ _ => Or.imp_right (And.imp_right (fun hm => hsub hm))) h

theorem Taken.trans {ids ids' : List ℤ} {es₁ es₂ es₃ : List (Edge n)} (h : Taken ids es₁ es₂)
    (h' : Taken ids' es₂ es₃) : Taken (ids ++ ids') es₁ es₃ := by
  induction h generalizing es₃ with
  | nil =>
      cases h'
      exact List.Forall₂.nil
  | @cons e e' es es' he _ ih =>
      cases h' with
      | @cons _ e'' _ es'' he' hes' =>
          refine List.Forall₂.cons ?_ (ih hes')
          obtain rfl | ⟨rfl, hm⟩ := he
          · exact he'.imp_right (And.imp_right (List.mem_append_right _))
          · refine Or.inr ⟨?_, List.mem_append_left _ hm⟩
            rcases he' with rfl | ⟨rfl, -⟩ <;> rfl

theorem Taken.mem {ids : List ℤ} {es es' : List (Edge n)} (h : Taken ids es es') {e' : Edge n}
    (he' : e' ∈ es') : ∃ e ∈ es, e' = e ∨ (e' = e.close ∧ e.id ∈ ids) := by
  induction h with
  | nil => cases he'
  | @cons e₁ e₂ es es' he _ ih =>
      obtain rfl | hm := List.mem_cons.mp he'
      · exact ⟨e₁, List.mem_cons_self, he⟩
      · obtain ⟨e, hes, h⟩ := ih hm
        exact ⟨e, List.mem_cons_of_mem _ hes, h⟩

/-- A scan finds the same road, open or closed. -/
theorem Taken.find {ids : List ℤ} {es es' : List (Edge n)} (h : Taken ids es es') {u v : Fin n}
    {e : Edge n} (hf : es.find? (fun e => e.joins u v) = some e) :
    ∃ e', es'.find? (fun e => e.joins u v) = some e' ∧ (e' = e ∨ (e' = e.close ∧ e.id ∈ ids)) := by
  induction h with
  | nil => cases hf
  | @cons e₁ e₂ es es' he _ ih =>
      have hj : e₂.joins u v = e₁.joins u v := by rcases he with rfl | ⟨rfl, -⟩ <;> rfl
      rw [List.find?_cons] at hf ⊢
      rw [hj]
      cases hc : e₁.joins u v with
      | true =>
          rw [hc] at hf
          cases hf
          exact ⟨e₂, rfl, he⟩
      | false =>
          rw [hc] at hf
          exact ih hf

theorem Taken.find_none {ids : List ℤ} {es es' : List (Edge n)} (h : Taken ids es es')
    {u v : Fin n} (hf : es.find? (fun e => e.joins u v) = none) :
    es'.find? (fun e => e.joins u v) = none := by
  rw [List.find?_eq_none] at hf ⊢
  intro e' he'
  obtain ⟨e, he, h⟩ := h.mem he'
  obtain rfl | ⟨rfl, -⟩ := h
  · exact hf _ he
  · exact hf e he

/-! ### Open roads -/

/-- The number of open roads. -/
def openRoads (es : List (Edge n)) : ℕ := es.countP (fun e => e.type != INT_MAX)

theorem Taken.openRoads_le {ids : List ℤ} {es es' : List (Edge n)} (h : Taken ids es es') :
    openRoads es' ≤ openRoads es := by
  induction h with
  | nil => exact le_refl _
  | @cons e e' es es' he _ ih =>
      simp only [openRoads, List.countP_cons] at ih ⊢
      obtain rfl | ⟨rfl, -⟩ := he
      · omega
      · simp only [Edge.close, bne_self_eq_false, Bool.false_eq_true, if_false]
        omega

/-- Closing the first road between two junctions leaves fewer open roads. -/
theorem Taken.openRoads_lt {ids : List ℤ} {es es' : List (Edge n)} (h : Taken ids es es')
    {u v : Fin n} {e e' : Edge n} (hf : es.find? (fun e => e.joins u v) = some e)
    (ho : e.type ≠ INT_MAX) (hf' : es'.find? (fun e => e.joins u v) = some e')
    (hc : e'.type = INT_MAX) : openRoads es' < openRoads es := by
  induction h with
  | nil => cases hf
  | @cons e₁ e₂ es es' he hes ih =>
      have hj : e₂.joins u v = e₁.joins u v := by rcases he with rfl | ⟨rfl, -⟩ <;> rfl
      have hle := Taken.openRoads_le hes
      rw [List.find?_cons] at hf hf'
      rw [hj] at hf'
      simp only [openRoads, List.countP_cons] at ih hle ⊢
      cases hcase : e₁.joins u v with
      | true =>
          rw [hcase] at hf hf'
          cases hf
          cases hf'
          rw [if_neg (by simpa using hc), if_pos (by simpa using ho)]
          omega
      | false =>
          rw [hcase] at hf hf'
          have hlt := ih hf hf'
          obtain rfl | ⟨rfl, -⟩ := he
          · omega
          · simp only [Edge.close, bne_self_eq_false, Bool.false_eq_true, if_false]
            omega

/-! ### The way back -/

/-- The scan takes the first road between the junctions, if there is one. -/
theorem takeRoad_spec (u v : Fin n) : ∀ es : List (Edge n),
    (es.find? (fun e => e.joins u v) = none ∧ takeRoad u v es = (none, es)) ∨
    ∃ e, es.find? (fun e => e.joins u v) = some e ∧
      (takeRoad u v es).1 = some ⟨e.id, u, v, e.type⟩ ∧ Taken [e.id] es (takeRoad u v es).2 ∧
      (takeRoad u v es).2.find? (fun e => e.joins u v) = some e.close
  | [] => Or.inl ⟨rfl, rfl⟩
  | e :: es => by
      unfold takeRoad
      rw [List.find?_cons]
      cases hj : e.joins u v with
      | true =>
          refine Or.inr ⟨e, rfl, rfl, List.Forall₂.cons (Or.inr ⟨rfl, ?_⟩) (Taken.refl _ es), ?_⟩
          · exact List.mem_singleton.mpr rfl
          · exact List.find?_cons_of_pos (by simpa using hj)
      | false =>
          obtain ⟨hf, ht⟩ | ⟨e₁, hf, hr, ht, hf'⟩ := takeRoad_spec u v es
          · exact Or.inl ⟨hf, by simp [ht]⟩
          · refine Or.inr ⟨e₁, hf, by simpa using hr, ?_, ?_⟩
            · exact List.Forall₂.cons (Or.inl rfl) ht
            · simpa [List.find?_cons, hj] using hf'

/-- The road is the first between some two junctions. -/
def FirstRoad (es : List (Edge n)) (id : ℤ) : Prop :=
  ∃ u v e, es.find? (fun e => e.joins u v) = some e ∧ e.id = id

theorem Taken.firstRoad {ids : List ℤ} {es es' : List (Edge n)} (h : Taken ids es es') {id : ℤ}
    (hf : FirstRoad es' id) : FirstRoad es id := by
  obtain ⟨u, v, e', hf', rfl⟩ := hf
  cases hfind : es.find? (fun e => e.joins u v) with
  | none =>
      rw [h.find_none hfind] at hf'
      cases hf'
  | some e =>
      obtain ⟨e₁, hf₁, he⟩ := h.find hfind
      rw [hf₁] at hf'
      cases hf'
      refine ⟨u, v, e, hfind, ?_⟩
      rcases he with rfl | ⟨rfl, -⟩ <;> rfl

/-- What the way back closes is what it returns: first roads. -/
theorem backtrack_taken (p : Fin n → Fin n) (src : Fin n) :
    ∀ (fuel : ℕ) (vi : Fin n) (es : List (Edge n)) {rs : List Route} {es' : List (Edge n)},
      backtrack p src fuel vi es = some (rs, es') →
      Taken (rs.map Route.roadid) es es' ∧ ∀ r ∈ rs, FirstRoad es r.roadid
  | fuel, vi, es, rs, es', h => by
      unfold backtrack at h
      split_ifs at h with hend
      · cases h
        exact ⟨Taken.refl _ _, fun r hr => absurd hr List.not_mem_nil⟩
      · cases fuel with
        | zero => cases h
        | succ fuel =>
            obtain ⟨⟨rs₁, es₁⟩, hrec, he⟩ := Option.map_eq_some_iff.mp h
            cases he
            obtain ⟨ht, hr⟩ := backtrack_taken p src fuel _ _ hrec
            obtain ⟨-, hnone⟩ | ⟨e, hf, hsome, htake, -⟩ := takeRoad_spec vi (p vi) es
            · rw [hnone] at ht hr ⊢
              exact ⟨ht, hr⟩
            · rw [hsome]
              refine ⟨htake.trans ht, fun r hm => ?_⟩
              obtain rfl | hm := List.mem_cons.mp hm
              · exact ⟨vi, p vi, e, hf, rfl⟩
              · exact htake.firstRoad (hr r hm)

/-- Induction on the number of steps back to the source: the loop ends, and the first road of
each step is closed. -/
theorem backtrack_ends (p : Fin n → Fin n) (src : Fin n) : ∀ (k fuel : ℕ) (vi : Fin n)
    (es : List (Edge n)), k ≤ fuel → p^[k] vi = src →
    (∀ j < k, p^[j] vi ≠ src ∧ p (p^[j] vi) ≠ p^[j] vi) →
    ∃ rs es', backtrack p src fuel vi es = some (rs, es') ∧
      ∀ j < k, ∀ e, es.find? (fun e => e.joins (p^[j] vi) (p (p^[j] vi))) = some e →
        ∃ e', es'.find? (fun e => e.joins (p^[j] vi) (p (p^[j] vi))) = some e' ∧
          e'.type = INT_MAX
  | 0, fuel, vi, es, _, hk, _ => by
      refine ⟨[], es, ?_, fun j hj => absurd hj (Nat.not_lt_zero j)⟩
      unfold backtrack
      exact if_pos (Or.inl hk)
  | k + 1, 0, _, _, hle, _, _ => absurd hle (Nat.not_succ_le_zero k)
  | k + 1, fuel + 1, vi, es, hle, hk, hne => by
      have h0 := hne 0 (Nat.succ_pos k)
      obtain ⟨rs, es', hrec, hclosed⟩ := backtrack_ends p src k fuel (p vi)
        (takeRoad vi (p vi) es).2 (by omega) hk (fun j hj => hne (j + 1) (by omega))
      have hback : backtrack p src (fuel + 1) vi es =
          some ((takeRoad vi (p vi) es).1.toList ++ rs, es') := by
        rw [backtrack, if_neg (by rintro (h | h); exacts [h0.1 h, h0.2 h.symm])]
        simp only [hrec, Option.map_some]
      refine ⟨_, es', hback, fun j hj e hf => ?_⟩
      obtain ⟨ht, -⟩ := backtrack_taken p src fuel _ _ hrec
      cases j with
      | zero =>
          obtain ⟨hnone, -⟩ | ⟨e₁, -, -, -, hf'⟩ := takeRoad_spec vi (p vi) es
          · rw [Function.iterate_zero_apply, hnone] at hf
            cases hf
          · obtain ⟨e', he', hc⟩ := ht.find hf'
            refine ⟨e', he', ?_⟩
            rcases hc with rfl | ⟨rfl, -⟩ <;> rfl
      | succ j =>
          rw [Function.iterate_succ_apply] at hf ⊢
          obtain ⟨-, hsame⟩ | ⟨e₁, -, -, htake, -⟩ := takeRoad_spec vi (p vi) es
          · rw [hsame] at hclosed
            exact hclosed j (by omega) e hf
          · obtain ⟨e₂, hf₂, -⟩ := htake.find hf
            exact hclosed j (by omega) e₂ hf₂

/-! ### When the search ends -/

/-- No open road comes after another between the same two junctions, unless these are at the same
place. -/
def Map.Distinct (m : Map ℝ n) : Prop :=
  m.edges.Pairwise (fun f e => e.type ≠ INT_MAX → 0 < m.dist e.source e.target →
    f.joins e.source e.target = false)

section real

variable (m : Map ℝ n)

theorem dist_self (u : Fin n) : m.dist u u = 0 := Sphere.distance_self _ _

theorem dist_nonneg (u v : Fin n) : 0 ≤ m.dist u v := Sphere.distance_nonneg _ _ _ _

theorem dist_congr {u v : Fin n} (h : m.dist u v = 0) (w : Fin n) : m.dist w u = m.dist w v :=
  Sphere.distance_congr h _ _

theorem dist_pos_comm {u v : Fin n} (h : 0 < m.dist u v) : 0 < m.dist v u := by
  refine lt_of_le_of_ne (dist_nonneg m v u) (fun he => ?_)
  have := dist_congr m he.symm u
  rw [dist_self] at this
  exact absurd this h.ne'

theorem ne_of_dist_pos {u v : Fin n} (h : 0 < m.dist u v) : u ≠ v := by
  rintro rfl
  rw [dist_self] at h
  exact lt_irrefl 0 h

theorem dist_pos_of_joins {e : Edge n} {u v : Fin n} (hj : e.joins u v = true)
    (h : 0 < m.dist u v) : 0 < m.dist e.source e.target := by
  obtain ⟨rfl, rfl⟩ | ⟨rfl, rfl⟩ := Edge.joins_iff.mp hj
  · exact h
  · exact dist_pos_comm m h

theorem lt_iff {x y : ℝ} : Scalar.lt x y = true ↔ x < y := by
  simp [Scalar.lt]

/-- `more_route` looks for a junction that is closer to the source than the destination is. -/
theorem dist_pos_of_moreRoute {a b : Fin n} (h : m.moreRoute a b = true) : 0 < m.dist a b := by
  obtain ⟨e, -, he⟩ := List.any_eq_true.mp h
  simp only [Bool.and_eq_true] at he
  have hlt := he.2
  split_ifs at hlt with hs ht
  · exact (dist_nonneg m a e.target).trans_lt (lt_iff.mp hlt)
  · exact (dist_nonneg m a e.source).trans_lt (lt_iff.mp hlt)

theorem moreRoute_of_live {a b : Fin n} (h : Live m.edges a b) (hd : 0 < m.dist a b) :
    m.moreRoute a b = true := by
  obtain ⟨e, he, ho, hj⟩ := h
  refine List.any_eq_true.mpr ⟨e, he, ?_⟩
  simp only [Bool.and_eq_true, bne_iff_ne]
  refine ⟨ho, ?_⟩
  obtain ⟨hs, ht⟩ | ⟨hs, ht⟩ := Edge.joins_iff.mp hj
  · have hne : e.source ≠ b := hs ▸ ne_of_dist_pos m hd
    rw [if_neg hne, if_pos ht, hs, dist_self]
    exact lt_iff.mpr hd
  · rw [if_pos hs, ht, dist_self]
    exact lt_iff.mpr hd

variable {m}

/-- In a map with `Distinct` an open road is the first between its junctions. -/
theorem Map.Distinct.find {u v : Fin n} {e : Edge n} (h : m.Distinct) (he : e ∈ m.edges)
    (ho : e.type ≠ INT_MAX) (hj : e.joins u v = true) (hd : 0 < m.dist u v) :
    m.edges.find? (fun e => e.joins u v) = some e := by
  obtain ⟨pre, post, hsplit⟩ := List.append_of_mem he
  refine List.find?_eq_some_iff_append.mpr ⟨hj, pre, post, hsplit, fun f hf => ?_⟩
  rw [Map.Distinct, hsplit, List.pairwise_append] at h
  have hfe := h.2.2 f hf e List.mem_cons_self ho (dist_pos_of_joins m hj hd)
  obtain ⟨hs, ht⟩ | ⟨hs, ht⟩ := Edge.joins_iff.mp hj
  · rw [hs, ht] at hfe
    rw [hfe]
    rfl
  · rw [hs, ht, Edge.joins_comm] at hfe
    rw [hfe]
    rfl

theorem Map.Distinct.taken {ids : List ℤ} {es : List (Edge n)} (h : m.Distinct)
    (ht : Taken ids m.edges es) : ({ m with edges := es } : Map ℝ n).Distinct := by
  have hkeep : ∀ es₁ es₂ : List (Edge n), Taken ids es₁ es₂ →
      es₁.Pairwise (fun f e => e.type ≠ INT_MAX → 0 < m.dist e.source e.target →
        f.joins e.source e.target = false) →
      es₂.Pairwise (fun f e => e.type ≠ INT_MAX → 0 < m.dist e.source e.target →
        f.joins e.source e.target = false) := by
    intro es₁ es₂ h₁₂
    induction h₁₂ with
    | nil => exact fun _ => List.Pairwise.nil
    | @cons f f' es₁ es₂ hf hes ih =>
        intro hp
        obtain ⟨hhead, htail⟩ := List.pairwise_cons.mp hp
        refine List.pairwise_cons.mpr ⟨fun e' he' ho hd => ?_, ih htail⟩
        obtain ⟨e, he, hee⟩ := Taken.mem hes he'
        obtain rfl | ⟨rfl, -⟩ := hee
        · have hfe := hhead e' he ho hd
          rcases hf with rfl | ⟨rfl, -⟩ <;> exact hfe
        · exact absurd rfl ho
  exact hkeep _ _ ht h

/-- Some step of a way back between two places leads from one place to another. -/
theorem exists_dist_pos (p : Fin n → Fin n) {a b : Fin n} (hd : 0 < m.dist a b) : ∀ k : ℕ,
    p^[k] b = a → ∃ j < k, 0 < m.dist (p^[j] b) (p (p^[j] b)) := by
  intro k hk
  by_contra hcon
  have hzero : ∀ j < k, m.dist (p^[j] b) (p (p^[j] b)) = 0 := by
    intro j hj
    by_contra hne
    exact hcon ⟨j, hj, lt_of_le_of_ne (dist_nonneg m _ _) (Ne.symm hne)⟩
  have hsame : ∀ j ≤ k, m.dist a b = m.dist a (p^[j] b) := by
    intro j
    induction j with
    | zero => exact fun _ => rfl
    | succ j ih =>
        intro hj
        rw [ih (by omega), Function.iterate_succ_apply']
        exact dist_congr m (hzero j (by omega)) a
  have h := hsame k (le_refl k)
  rw [hk, dist_self] at h
  exact absurd h hd.ne'

variable {dijkstra : List (Edge n) → Fin n → Fin n → Fin n}

/-- An iteration finds no route, or leaves fewer open roads. -/
theorem getRoute_ends (hs : Searches dijkstra) (h : m.Distinct) {a b : Fin n}
    (hd : 0 < m.dist a b) : ∃ route ids es,
      m.getRoute dijkstra a b = some (route, { m with edges := es }) ∧ Taken ids m.edges es ∧
      (route = [] ∨ openRoads es < openRoads m.edges) := by
  have htree := hs m.edges a
  unfold Map.getRoute
  by_cases hfix : dijkstra m.edges a b = b
  · have hback : backtrack (dijkstra m.edges a) a n b m.edges = some ([], m.edges) := by
      unfold backtrack
      exact if_pos (Or.inr hfix.symm)
    exact ⟨[], [], m.edges, by rw [hback]; rfl, Taken.refl _ _, Or.inl rfl⟩
  · obtain ⟨k, hlt, hk, hne⟩ := htree.depth (Or.inr hfix)
    rw [Fintype.card_fin] at hlt
    obtain ⟨rs, es, hback, hclosed⟩ := backtrack_ends (dijkstra m.edges a) a k n b m.edges hlt.le hk
      (fun j hj => ⟨hne j hj, Dijkstra.iterate_ne_of_lt hk hj (hne j hj)⟩)
    obtain ⟨htaken, -⟩ := backtrack_taken _ _ _ _ _ hback
    refine ⟨rs.reverse, _, es, by rw [hback]; rfl, htaken, Or.inr ?_⟩
    obtain ⟨j, hj, hpos⟩ := exists_dist_pos (dijkstra m.edges a) hd k hk
    obtain ⟨e, he, ho, hjoin⟩ :=
      htree.adj _ (Dijkstra.iterate_ne_of_lt hk hj (hne j hj))
    have hfind := h.find he ho hjoin hpos
    obtain ⟨e', he', hc⟩ := hclosed j hj e hfind
    exact htaken.openRoads_lt hfind ho he' hc

/-- Induction on the number of open roads. -/
theorem searchRoutes_ends (hs : Searches dijkstra) (a b : Fin n) : ∀ (fuel : ℕ) (m : Map ℝ n),
    m.Distinct → openRoads m.edges < fuel →
    ∃ r, m.searchRoutes dijkstra a b fuel = some r
  | 0, _, _, hlt => absurd hlt (Nat.not_lt_zero _)
  | fuel + 1, m, h, hlt => by
      unfold Map.searchRoutes
      cases hmore : m.moreRoute a b with
      | false => exact ⟨_, rfl⟩
      | true =>
          obtain ⟨route, ids, es, hroute, htaken, hless⟩ :=
            getRoute_ends hs h (dist_pos_of_moreRoute m hmore)
          rw [if_pos rfl, hroute]
          cases route with
          | nil => exact ⟨_, rfl⟩
          | cons r rs =>
              have hopen := hless.resolve_left (List.cons_ne_nil r rs)
              obtain ⟨res, hres⟩ := searchRoutes_ends hs a b fuel { m with edges := es }
                (h.taken htaken) (by simp only; omega)
              simp only [hres, Option.map_some]
              exact ⟨_, rfl⟩

end real

/-! ### When it does not -/

/-- An open road between the junctions comes after another. -/
def Hidden (es : List (Edge n)) (u v : Fin n) : Prop :=
  ∃ pre f e post, es = pre ++ e :: post ∧ pre.find? (fun f => f.joins u v) = some f ∧
    e.type ≠ INT_MAX ∧ e.joins u v = true

theorem Hidden.live {es : List (Edge n)} {u v : Fin n} (h : Hidden es u v) : Live es u v := by
  obtain ⟨pre, f, e, post, rfl, -, ho, hj⟩ := h
  exact ⟨e, List.mem_append_right _ List.mem_cons_self, ho, hj⟩

/-- Roads between the same two junctions. -/
theorem joins_trans {e f : Edge n} {u v x y : Fin n} (he : e.joins u v = true)
    (he' : e.joins x y = true) (hf : f.joins u v = true) : f.joins x y = true := by
  rw [Edge.joins_iff] at *
  rcases he with ⟨rfl, rfl⟩ | ⟨rfl, rfl⟩ <;> rcases he' with ⟨rfl, rfl⟩ | ⟨rfl, rfl⟩ <;> tauto

theorem takeRoad_append (x y : Fin n) (l : List (Edge n)) : ∀ pre : List (Edge n),
    (takeRoad x y (pre ++ l)).2 =
      if (pre.find? (fun e => e.joins x y)).isSome then (takeRoad x y pre).2 ++ l
      else pre ++ (takeRoad x y l).2
  | [] => rfl
  | e :: pre => by
      rw [List.cons_append, List.find?_cons]
      cases hj : e.joins x y with
      | true => simp only [takeRoad, hj, if_true, Option.isSome_some, List.cons_append]
      | false =>
          simp only [takeRoad, hj, Bool.false_eq_true, if_false]
          rw [takeRoad_append x y l pre]
          split_ifs <;> rfl

/-- A scan never takes a hidden road. -/
theorem takeRoad_hidden {es : List (Edge n)} {u v : Fin n} (h : Hidden es u v) (x y : Fin n) :
    Hidden (takeRoad x y es).2 u v := by
  obtain ⟨pre, f, e, post, rfl, hf, ho, hj⟩ := h
  rw [takeRoad_append]
  split_ifs with hpre
  · obtain ⟨hnone, -⟩ | ⟨g, -, -, htake, -⟩ := takeRoad_spec x y pre
    · rw [hnone] at hpre
      cases hpre
    · obtain ⟨f', hf', -⟩ := htake.find hf
      exact ⟨_, f', e, post, rfl, hf', ho, hj⟩
  · have hnot : e.joins x y = false := by
      by_contra hcon
      have hfx := joins_trans hj (by simpa using hcon) (by simpa using List.find?_some hf)
      exact hpre (List.find?_isSome.mpr ⟨f, List.mem_of_find?_eq_some hf, hfx⟩)
    unfold takeRoad
    rw [if_neg (by rw [hnot]; exact Bool.false_ne_true)]
    exact ⟨pre, f, e, _, rfl, hf, ho, hj⟩

theorem backtrack_hidden (p : Fin n → Fin n) (src : Fin n) {u v : Fin n} :
    ∀ (fuel : ℕ) (vi : Fin n) (es : List (Edge n)) {rs : List Route} {es' : List (Edge n)},
      Hidden es u v → backtrack p src fuel vi es = some (rs, es') → Hidden es' u v
  | fuel, vi, es, rs, es', hh, h => by
      unfold backtrack at h
      split_ifs at h with hend
      · cases h
        exact hh
      · cases fuel with
        | zero => cases h
        | succ fuel =>
            obtain ⟨⟨rs₁, es₁⟩, hrec, he⟩ := Option.map_eq_some_iff.mp h
            cases he
            exact backtrack_hidden p src fuel _ _ (takeRoad_hidden hh _ _) hrec

/-- A way back with a road on it is not empty. -/
theorem backtrack_ne_nil {p : Fin n → Fin n} {src vi : Fin n} {fuel : ℕ} {es es' : List (Edge n)}
    {rs : List Route} (hne : vi ≠ src) (hlive : Live es vi (p vi)) (hfix : p vi ≠ vi)
    (h : backtrack p src fuel vi es = some (rs, es')) : rs ≠ [] := by
  unfold backtrack at h
  rw [if_neg (by rintro (h | h); exacts [hne h, hfix h.symm])] at h
  cases fuel with
  | zero => cases h
  | succ fuel =>
      obtain ⟨⟨rs₁, es₁⟩, -, he⟩ := Option.map_eq_some_iff.mp h
      cases he
      obtain ⟨hnone, -⟩ | ⟨e, -, hsome, -, -⟩ := takeRoad_spec vi (p vi) es
      · obtain ⟨e, he, -, hj⟩ := hlive
        exact absurd hj (List.find?_eq_none.mp hnone e he)
      · rw [hsome]
        exact List.cons_ne_nil _ _

theorem live_comm {es : List (Edge n)} {u v : Fin n} (h : Live es u v) : Live es v u := by
  obtain ⟨e, he, ho, hj⟩ := h
  exact ⟨e, he, ho, Edge.joins_comm e u v ▸ hj⟩

/-- `get_route` finds a route to every other junction that open roads lead to, and to no
other. -/
theorem getRoute_ne_nil_iff {dijkstra : List (Edge n) → Fin n → Fin n → Fin n}
    (hs : Searches dijkstra) {m m' : Map R n} {a b : Fin n} {route : List Route} (hne : a ≠ b)
    (h : m.getRoute dijkstra a b = some (route, m')) :
    route ≠ [] ↔ Relation.ReflTransGen (Live m.edges) a b := by
  obtain ⟨⟨rs, es⟩, hback, he⟩ := Option.map_eq_some_iff.mp h
  cases he
  have htree := hs m.edges a
  rw [← htree.reaches_iff (fun _ _ => live_comm), or_iff_right hne.symm, ne_eq,
    List.reverse_eq_nil_iff]
  constructor
  · intro hrs hfix
    unfold backtrack at hback
    rw [if_pos (Or.inr hfix.symm)] at hback
    cases hback
    exact hrs rfl
  · exact fun hfix => backtrack_ne_nil hne.symm (htree.adj b hfix) hfix hback

/-- Where an open road leads from the source to the destination, `get_route` finds a route. -/
theorem getRoute_ne_nil {dijkstra : List (Edge n) → Fin n → Fin n → Fin n}
    (hs : Searches dijkstra) {m m' : Map ℝ n} {a b : Fin n} {route : List Route}
    (hlive : Live m.edges a b) (hd : 0 < m.dist a b)
    (h : m.getRoute dijkstra a b = some (route, m')) : route ≠ [] :=
  (getRoute_ne_nil_iff hs (ne_of_dist_pos m hd) h).mpr (Relation.ReflTransGen.single hlive)

/-- While a hidden road leads from the source to the destination, there is always another
route. -/
theorem searchRoutes_none {dijkstra : List (Edge n) → Fin n → Fin n → Fin n}
    (hs : Searches dijkstra) {a b : Fin n} : ∀ (fuel : ℕ) (m : Map ℝ n),
    Hidden m.edges a b → 0 < m.dist a b → m.searchRoutes dijkstra a b fuel = none
  | 0, _, _, _ => rfl
  | fuel + 1, m, hh, hd => by
      unfold Map.searchRoutes
      rw [if_pos (moreRoute_of_live m hh.live hd)]
      cases hroute : m.getRoute dijkstra a b with
      | none => rfl
      | some r =>
          obtain ⟨route, m'⟩ := r
          have hne := getRoute_ne_nil hs hh.live hd hroute
          obtain ⟨⟨rs, es⟩, hback, he⟩ := Option.map_eq_some_iff.mp hroute
          cases he
          have hrec := searchRoutes_none hs fuel { m with edges := es }
            (backtrack_hidden _ _ _ _ _ hh hback) hd
          cases hrev : rs.reverse with
          | nil => exact absurd hrev hne
          | cons r rs => simp only [hrec, Option.map_none]

theorem hidden_of_not_pairwise {P : Edge n → Edge n → Prop} : ∀ {es : List (Edge n)},
    ¬ es.Pairwise P → ∃ pre f e post, es = pre ++ e :: post ∧ f ∈ pre ∧ ¬ P f e
  | [], h => absurd List.Pairwise.nil h
  | f :: es, h => by
      rw [List.pairwise_cons, not_and_or] at h
      obtain h | h := h
      · simp only [not_forall] at h
        obtain ⟨e, he, hP⟩ := h
        obtain ⟨s, t, rfl⟩ := List.append_of_mem he
        exact ⟨f :: s, f, e, t, rfl, List.mem_cons_self, hP⟩
      · obtain ⟨pre, g, e, post, rfl, hg, hP⟩ := hidden_of_not_pairwise h
        exact ⟨f :: pre, g, e, post, rfl, List.mem_cons_of_mem _ hg, hP⟩

theorem Map.hidden_of_not_distinct {m : Map ℝ n} (h : ¬ m.Distinct) :
    ∃ a b, Hidden m.edges a b ∧ 0 < m.dist a b := by
  obtain ⟨pre, f, e, post, hsplit, hf, hP⟩ := hidden_of_not_pairwise h
  simp only [Classical.not_imp, Bool.not_eq_false] at hP
  obtain ⟨ho, hd, hj⟩ := hP
  cases hfind : pre.find? (fun f => f.joins e.source e.target) with
  | none => exact absurd hj (List.find?_eq_none.mp hfind f hf)
  | some g => exact ⟨_, _, ⟨pre, g, e, post, hsplit, hfind, ho, e.joins_self⟩, hd⟩

/-- A road from the junction 0 to the junction 1, one degree of longitude along the equator. -/
def sampleRow (mainid type : ℤ) : RawData ℝ := ⟨mainid, 1, 0, 0, 1, 0, 0, 1, type, 0⟩

/-- One road between two junctions. -/
def sampleMap : Map ℝ 2 := ⟨![0, 1], fun _ => 0, [⟨0, 1, 7, 3⟩]⟩

/-- One degree of longitude is a distance. -/
theorem distance_one_pos : 0 < Sphere.distance 0 0 1 0 := by
  rw [Sphere.distance_equator (by norm_num)]
  norm_num [Sphere.PI]

end GeoSvr.MapManager
