import GeoSvr.RouteRestore
import GeoSvr.ShortestPaths

/-! # Disjoint shortest routes (`get_routes`)

In a map in which no two roads join the same two junctions, `get_routes` is greedy: each route is a
shortest path that avoids the roads of the routes before it, because these are closed.  What the
code relies on is that `dijkstra_shortest_paths` finds shortest paths over the open roads
(`FindsShortest`); that needs types that are not negative and whose sums fit into an `int`
(`SmallTypes`).

The state of the search is the imported map with the roads of the routes closed (`closeIds`).  One
walk back takes the roads of the predecessor tree, all of which are open (`backtrack_closeIds`). -/

namespace GeoSvr.MapManager

open Dijkstra

variable {R : Type*} {n : ℕ}

/-! ### Paths -/

/-- A path along the roads `es` from `u`; it may pass a junction or a road several times. -/
inductive IsPath (es : List (Edge n)) (u : Fin n) : Fin n → List (Edge n) → Prop
  | nil : IsPath es u u []
  | snoc {v w : Fin n} {e : Edge n} {path : List (Edge n)} :
      IsPath es u v path → e ∈ es → e.joins v w = true → IsPath es u w (path ++ [e])

/-- A route listed from `u` outward: the `endid` of every road is the junction towards `u`. -/
inductive Outward (es : List (Edge n)) (u : Fin n) : Fin n → List Route → Prop
  | nil : Outward es u u []
  | snoc {v w : Fin n} {e : Edge n} {route : List Route} :
      Outward es u v route → e ∈ es → e.joins w v = true →
        Outward es u w (route ++ [⟨e.id, w, v, e.type⟩])

/-- The types of a path, added up. -/
def pathType (path : List (Edge n)) : ℤ := (path.map Edge.type).sum

/-- The types of a route, added up. -/
def routeType (route : List Route) : ℤ := (route.map Route.type).sum

/-- No two roads join the same junctions. -/
def NoParallel (es : List (Edge n)) : Prop :=
  es.Pairwise (fun f e => f.joins e.source e.target = false)

/-- The types are not negative, and their sums along a path that passes no road twice stay below
`INT_MAX`. -/
structure SmallTypes (es : List (Edge n)) : Prop where
  nonneg : ∀ e ∈ es, 0 ≤ e.type
  sums : ∀ u v path, IsPath es u v path → path.Nodup → pathType path < INT_MAX

/-- The open roads. -/
def openEdges (es : List (Edge n)) : List (Edge n) := es.filter (fun e => e.type != INT_MAX)

/-- The roads as links of a graph. -/
def links (es : List (Edge n)) : List (Link (Fin n) ℤ) :=
  es.map (fun e => ⟨e.source, e.target, e.type⟩)

/-- What the code relies on: shortest paths over the open roads. -/
def FindsShortest (dijkstra : List (Edge n) → Fin n → Fin n → Fin n) : Prop :=
  ∀ es src, SmallTypes (openEdges es) → IsShortest (links (openEdges es)) src (dijkstra es src)

theorem weight_nonneg {es : List (Edge n)} (h : ∀ e ∈ es, 0 ≤ e.type) :
    ∀ l ∈ links es, 0 ≤ l.weight := by
  intro l hl
  obtain ⟨e, he, rfl⟩ := List.mem_map.mp hl
  exact h e he

theorem dijkstraShortestPaths_findsShortest : FindsShortest (dijkstraShortestPaths (n := n)) :=
  fun _ src h => pred_isShortest (weight_nonneg h.nonneg) src

theorem IsPath.mono {es es' : List (Edge n)} {u v : Fin n} {path : List (Edge n)}
    (h : IsPath es u v path) (hsub : ∀ e ∈ path, e ∈ es → e ∈ es') : IsPath es' u v path := by
  induction h with
  | nil => exact IsPath.nil
  | snoc _ he hj ih =>
      refine IsPath.snoc (ih (fun e hm => hsub e (List.mem_append_left _ hm))) ?_ hj
      exact hsub _ (List.mem_append_right _ List.mem_cons_self) he

/-- A path is a walk of the weight of its types. -/
theorem IsPath.walk {es : List (Edge n)} {u v : Fin n} {path : List (Edge n)}
    (h : IsPath es u v path) : Walk (links es) u v (pathType path) := by
  induction h with
  | nil => exact Walk.start
  | @snoc v w e path _ he hj ih =>
      have hsum : pathType (path ++ [e]) = pathType path + e.type := by
        unfold pathType
        rw [List.map_append, List.sum_append, List.map_singleton, List.sum_singleton]
      rw [hsum]
      exact Walk.step (l := ⟨e.source, e.target, e.type⟩) ih (List.mem_map.mpr ⟨e, he, rfl⟩)
        (Edge.joins_iff.mp hj)

theorem SmallTypes.filter {es : List (Edge n)} (h : SmallTypes es) (q : Edge n → Bool) :
    SmallTypes (es.filter q) where
  nonneg e he := h.nonneg e (List.mem_of_mem_filter he)
  sums u v path hpath :=
    h.sums u v path (hpath.mono (fun _ _ he => List.mem_of_mem_filter he))

/-- Every road is open. -/
theorem SmallTypes.allOpen {es : List (Edge n)} (h : SmallTypes es) : ∀ e ∈ es, e.type ≠ INT_MAX := by
  intro e he
  have hpath : IsPath es e.source e.target ([] ++ [e]) := IsPath.nil.snoc he e.joins_self
  have hlt := h.sums _ _ _ hpath (List.nodup_singleton e)
  unfold pathType at hlt
  rw [List.nil_append, List.map_singleton, List.sum_singleton] at hlt
  omega

theorem IsPath.mem {es : List (Edge n)} {u v : Fin n} {path : List (Edge n)}
    (h : IsPath es u v path) : path ⊆ es := by
  induction h with
  | nil => exact List.nil_subset _
  | snoc _ he _ ih => exact List.append_subset.mpr ⟨ih, by simpa using he⟩

/-- Types are small when all of them add up to less than `INT_MAX`. -/
theorem smallTypes_of_sum {es : List (Edge n)} (hpos : ∀ e ∈ es, 0 ≤ e.type)
    (hsum : pathType es < INT_MAX) : SmallTypes es where
  nonneg := hpos
  sums u v path hpath hnodup := by
    obtain ⟨l, hperm, hsub⟩ := List.subperm_of_subset hnodup hpath.mem
    have hle : pathType l ≤ pathType es := by
      apply List.Sublist.sum_le_sum (hsub.map Edge.type)
      intro t ht
      obtain ⟨e, he, rfl⟩ := List.mem_map.mp ht
      exact hpos e he
    have heq : pathType l = pathType path := (hperm.map Edge.type).sum_eq
    omega

/-! ### Closed roads -/

/-- The roads with an id in `ids` closed. -/
def closeIds (ids : List ℤ) (es : List (Edge n)) : List (Edge n) :=
  es.map (fun e => if e.id ∈ ids then e.close else e)

theorem closeIds_nil (es : List (Edge n)) : closeIds [] es = es := by
  simp [closeIds]

theorem closeIds_congr {ids ids' : List ℤ} {es : List (Edge n)}
    (h : ∀ e ∈ es, e.id ∈ ids ↔ e.id ∈ ids') : closeIds ids es = closeIds ids' es := by
  apply List.map_congr_left
  intro e he
  simp only [h e he]

theorem openEdges_closeIds {ids : List ℤ} : ∀ {es : List (Edge n)},
    (∀ e ∈ es, e.type ≠ INT_MAX) →
    openEdges (closeIds ids es) = es.filter (fun e => decide (e.id ∉ ids))
  | [], _ => rfl
  | e :: es, h => by
      have ih := @openEdges_closeIds ids es (fun e he => h e (List.mem_cons_of_mem _ he))
      unfold openEdges closeIds at ih ⊢
      rw [List.map_cons, List.filter_cons, List.filter_cons, ih]
      by_cases hid : e.id ∈ ids
      · simp [hid, Edge.close]
      · simp [hid, h e List.mem_cons_self]

/-- The scan takes the one road between two junctions, if it is open. -/
theorem takeRoad_closeIds {ids : List ℤ} {u v : Fin n} {e : Edge n} (hid : e.id ∉ ids)
    (hj : e.joins u v = true) : ∀ {es : List (Edge n)}, (es.map Edge.id).Nodup → NoParallel es →
    e ∈ es → takeRoad u v (closeIds ids es) =
      (some ⟨e.id, u, v, e.type⟩, closeIds (e.id :: ids) es)
  | [], _, _, he => absurd he List.not_mem_nil
  | f :: es, hnodup, hpar, he => by
      obtain ⟨hnot, hrest⟩ := List.nodup_cons.mp hnodup
      obtain ⟨hhead, htail⟩ := List.pairwise_cons.mp hpar
      unfold closeIds
      rw [List.map_cons, List.map_cons, takeRoad]
      cases List.mem_cons.mp he with
      | inl hf =>
          subst hf
          rw [if_neg hid, if_pos hj, if_pos List.mem_cons_self]
          refine congrArg (fun l => (_, _ :: l)) (closeIds_congr (fun f hf => ?_))
          have hne : f.id ≠ e.id := fun h => hnot (h ▸ List.mem_map_of_mem hf)
          rw [List.mem_cons, or_iff_right hne]
      | inr hm =>
          have hne : f.id ≠ e.id := fun h => hnot (h ▸ List.mem_map_of_mem hm)
          have hfj : f.joins u v = false := by
            by_contra hcon
            have hself := joins_trans hj e.joins_self (by simpa using hcon)
            rw [hhead e hm] at hself
            cases hself
          have hsame : (if f.id ∈ ids then f.close else f).joins u v = false := by
            split_ifs <;> exact hfj
          have hmem : f.id ∈ e.id :: ids ↔ f.id ∈ ids := by
            rw [List.mem_cons, or_iff_right hne]
          rw [hsame]
          simp only [hmem, Bool.false_eq_true, if_false]
          have ih := takeRoad_closeIds hid hj hrest htail hm
          unfold closeIds at ih
          rw [ih]

/-! ### One route -/

section route

variable {es : List (Edge n)} {ids : List ℤ} {p : Fin n → Fin n} {src : Fin n}

/-- A step back takes an open road, which leads to a shortest path. -/
theorem shortest_road (h : IsShortest (links (es.filter (fun e => decide (e.id ∉ ids)))) src p)
    {v : Fin n} (hv : p v ≠ v) : ∃ e ∈ es, e.id ∉ ids ∧ e.joins v (p v) = true ∧
      ∀ w, IsDist (links (es.filter (fun e => decide (e.id ∉ ids)))) src (p v) w →
        IsDist (links (es.filter (fun e => decide (e.id ∉ ids)))) src v (w + e.type) := by
  obtain ⟨l, hl, w, hj, hpred, hdist⟩ := h.shortest v hv
  obtain ⟨e, he, rfl⟩ := List.mem_map.mp hl
  obtain ⟨hes, hid⟩ := List.mem_filter.mp he
  refine ⟨e, hes, by simpa using hid, Edge.joins_iff.mpr hj, fun w' hw' => ?_⟩
  rw [hw'.unique hpred]
  exact hdist

/-- Two descriptions of a road by its ends. -/
theorem Edge.joins_end {e : Edge n} {u v x y : Fin n} (h : e.joins u v = true)
    (h' : e.joins x y = true) : u = x ∨ v = x := by
  rw [Edge.joins_iff] at h h'
  obtain ⟨rfl, rfl⟩ | ⟨rfl, rfl⟩ := h
  · exact h'.imp And.left And.right
  · exact h'.symm.imp And.right And.left

/-- What has been closed on a way back so far, beyond `ids`, was taken at junctions that the other
`k` steps, from `v`, do not visit. -/
def ClosedBehind (es : List (Edge n)) (ids : List ℤ) (p : Fin n → Fin n) (k : ℕ) (v : Fin n)
    (closed : List ℤ) : Prop :=
  ∀ e ∈ es, e.id ∈ closed → e.id ∉ ids → ∃ x, e.joins x (p x) = true ∧ ∀ j ≤ k, p^[j] v ≠ x

/-- The next road of the way is open still. -/
theorem ClosedBehind.fresh {k : ℕ} {v : Fin n} {closed : List ℤ} {e : Edge n}
    (h : ClosedBehind es ids p (k + 1) v closed) (he : e ∈ es) (hid : e.id ∉ ids)
    (hj : e.joins v (p v) = true) : e.id ∉ closed := by
  intro hc
  obtain ⟨x, hx, hway⟩ := h e he hc hid
  cases Edge.joins_end hj hx with
  | inl hv => exact hway 0 (Nat.zero_le _) hv
  | inr hp => exact hway 1 (by omega) hp

/-- A step back closes one road. -/
theorem ClosedBehind.step (hnodup : (es.map Edge.id).Nodup) {k : ℕ} {v : Fin n}
    {closed : List ℤ} {e : Edge n} (h : ClosedBehind es ids p (k + 1) v closed)
    (hk : p^[k + 1] v = src) (hmin : ∀ j < k + 1, p^[j] v ≠ src) (he : e ∈ es)
    (hj : e.joins v (p v) = true) : ClosedBehind es ids p k (p v) (e.id :: closed) := by
  intro f hf hm hid
  cases List.mem_cons.mp hm with
  | inl hsame =>
      have hfe : f = e := List.inj_on_of_nodup_map hnodup hf he hsame
      refine ⟨v, hfe ▸ hj, fun j hjk hback => ?_⟩
      exact iterate_ne_iterate hk hmin (Nat.succ_pos j) (by omega) hback.symm
  | inr hold =>
      obtain ⟨x, hx, hway⟩ := h f hf hold hid
      exact ⟨x, hx, fun j hjk => hway (j + 1) (by omega)⟩

/-- **The way back.**  Induction on its length `k`: the roads taken are open, lie on a shortest path,
and are closed. -/
theorem backtrack_closeIds (hnodup : (es.map Edge.id).Nodup) (hpar : NoParallel es)
    (hpos : ∀ e ∈ es, 0 ≤ e.type)
    (h : IsShortest (links (es.filter (fun e => decide (e.id ∉ ids)))) src p) :
    ∀ (k fuel : ℕ) (v : Fin n) (closed : List ℤ), k ≤ fuel → p^[k] v = src →
    (∀ j < k, p^[j] v ≠ src) → ClosedBehind es ids p k v closed →
    ∃ rs, backtrack p src fuel v (closeIds closed es) =
        some (rs, closeIds (rs.map Route.roadid ++ closed) es) ∧
      Outward es src v rs.reverse ∧ (∀ r ∈ rs, r.roadid ∉ closed) ∧
      (rs.map Route.roadid).Nodup ∧
      rs.map Route.startid = (List.range k).map (fun j => (p^[j] v : ℕ)) ∧
      IsDist (links (es.filter (fun e => decide (e.id ∉ ids)))) src v (routeType rs)
  | 0, fuel, v, closed, _, hk, _, _ => by
      have hsrc : v = src := hk
      subst hsrc
      refine ⟨[], ?_, Outward.nil, fun r hr => absurd hr List.not_mem_nil, List.nodup_nil, rfl, ?_⟩
      · unfold backtrack
        exact if_pos (Or.inl rfl)
      · exact isDist_start (weight_nonneg (fun e he => hpos e (List.mem_of_mem_filter he)))
  | k + 1, 0, _, _, hle, _, _, _ => absurd hle (Nat.not_succ_le_zero k)
  | k + 1, fuel + 1, v, closed, hle, hk, hmin, hclosed => by
      have hne : v ≠ src := hmin 0 (Nat.succ_pos k)
      have hfix : p v ≠ v := iterate_ne_of_lt hk (Nat.succ_pos k) hne
      obtain ⟨e, he, hid, hj, hdist⟩ := shortest_road h hfix
      have hnot := hclosed.fresh he hid hj
      have htake := takeRoad_closeIds hnot hj hnodup hpar he
      obtain ⟨rs, hback, hout, hfresh, hrs, hstart, hd⟩ := backtrack_closeIds hnodup hpar hpos h k
        fuel (p v) (e.id :: closed) (by omega) hk (fun j hj => hmin (j + 1) (by omega))
        (hclosed.step hnodup hk hmin he hj)
      refine ⟨⟨e.id, v, p v, e.type⟩ :: rs, ?_, ?_, ?_, ?_, ?_, ?_⟩
      · have hids : closeIds (rs.map Route.roadid ++ e.id :: closed) es =
            closeIds (e.id :: rs.map Route.roadid ++ closed) es := by
          apply closeIds_congr
          intro f _
          simp only [List.mem_append, List.mem_cons]
          tauto
        rw [backtrack, if_neg (by rintro (h | h); exacts [hne h, hfix h.symm]), htake]
        simp only [hback, hids, Option.map_some]
        rfl
      · rw [List.reverse_cons]
        exact hout.snoc he hj
      · intro r hr
        cases List.mem_cons.mp hr with
        | inl hnew =>
            rw [hnew]
            exact hnot
        | inr hold => exact fun hc => hfresh r hold (List.mem_cons_of_mem _ hc)
      · rw [List.map_cons, List.nodup_cons]
        refine ⟨fun hm => ?_, hrs⟩
        obtain ⟨r, hr, hrid⟩ := List.mem_map.mp hm
        exact hfresh r hr (hrid ▸ List.mem_cons_self)
      · rw [List.map_cons, hstart, List.range_succ_eq_map, List.map_cons, List.map_map]
        rfl
      · have hsum : routeType (⟨e.id, v, p v, e.type⟩ :: rs) = routeType rs + e.type := by
          unfold routeType
          rw [List.map_cons, List.sum_cons, add_comm]
        rw [hsum]
        exact hdist _ hd

/-- The shortest way back visits no junction twice, listed from the source. -/
theorem simple_way {a b : Fin n} {k : ℕ} (hk : p^[k] b = a) (hmin : ∀ j < k, p^[j] b ≠ a) :
    ((a : ℕ) :: ((List.range k).map (fun j => (p^[j] b : ℕ))).reverse).Nodup := by
  rw [List.nodup_cons, List.mem_reverse, List.nodup_reverse]
  constructor
  · intro hmem
    obtain ⟨j, hj, he⟩ := List.mem_map.mp hmem
    exact hmin j (List.mem_range.mp hj) (Fin.ext he)
  · refine List.Nodup.map_on (fun i hi j hj he => ?_) List.nodup_range
    obtain hij | hij | hij := Nat.lt_trichotomy i j
    · exact absurd (Fin.ext he) (iterate_ne_iterate hk hmin hij (List.mem_range.mp hj).le)
    · exact hij
    · exact absurd (Fin.ext he.symm) (iterate_ne_iterate hk hmin hij (List.mem_range.mp hi).le)

end route

/-- A route from `a` to `b`: it is not empty, it leads outward and visits no junction twice, it takes
no road of `ids` and none twice, and no path that avoids these is shorter. -/
structure Shortest (es : List (Edge n)) (ids : List ℤ) (a b : Fin n) (route : List Route) :
    Prop where
  nonempty : route ≠ []
  outward : Outward es a b route
  simple : ((a : ℕ) :: route.map Route.startid).Nodup
  avoids : ∀ r ∈ route, r.roadid ∉ ids
  nodup : (route.map Route.roadid).Nodup
  least : ∀ path, IsPath es a b path → (∀ e ∈ path, e.id ∉ ids) → routeType route ≤ pathType path

/-- Only the set of the roads matters. -/
theorem Shortest.congr {es : List (Edge n)} {ids ids' : List ℤ} {a b : Fin n} {route : List Route}
    (h : Shortest es ids a b route) (hids : ∀ i, i ∈ ids ↔ i ∈ ids') :
    Shortest es ids' a b route where
  nonempty := h.nonempty
  outward := h.outward
  simple := h.simple
  avoids r hr hm := h.avoids r hr ((hids _).mpr hm)
  nodup := h.nodup
  least path hpath hm := h.least path hpath (fun e he hc => hm e he ((hids _).mp hc))

/-- The roads of a route are roads of the map. -/
theorem Outward.mem {es : List (Edge n)} {u v : Fin n} {route : List Route}
    (h : Outward es u v route) {r : Route} (hr : r ∈ route) :
    ∃ e ∈ es, r.roadid = e.id ∧ r.type = e.type := by
  induction h with
  | nil => cases hr
  | @snoc v w e route _ he _ ih =>
      cases List.mem_append.mp hr with
      | inl hr => exact ih hr
      | inr hr =>
          rw [List.mem_singleton.mp hr]
          exact ⟨e, he, rfl, rfl⟩

/-- The routes are shortest, each among the paths that avoid `ids` and the routes before it, and take
no road of `ids` and none twice. -/
structure Greedy (es : List (Edge n)) (ids : List ℤ) (a b : Fin n) (routes : List (List Route)) :
    Prop where
  shortest : ∀ k route, routes[k]? = some route →
    Shortest es ((routes.take k).flatten.map Route.roadid ++ ids) a b route
  nodup : (routes.flatten.map Route.roadid).Nodup
  avoids : ∀ i ∈ routes.flatten.map Route.roadid, i ∉ ids

theorem Greedy.nil (es : List (Edge n)) (ids : List ℤ) (a b : Fin n) : Greedy es ids a b [] where
  shortest k route hk := absurd hk (by simp)
  nodup := List.nodup_nil
  avoids i hi := absurd hi List.not_mem_nil

/-- A shortest route, and routes that avoid it. -/
theorem Greedy.cons {es : List (Edge n)} {ids : List ℤ} {a b : Fin n} {route : List Route}
    {routes : List (List Route)} (h : Shortest es ids a b route)
    (hs : Greedy es (route.map Route.roadid ++ ids) a b routes) :
    Greedy es ids a b (route :: routes) where
  shortest k route' hk := by
    cases k with
    | zero =>
        cases hk
        exact h
    | succ k =>
        refine (hs.shortest k route' hk).congr (fun i => ?_)
        rw [List.take_succ_cons, List.flatten_cons, List.map_append]
        simp only [List.mem_append]
        tauto
  nodup := by
    rw [List.flatten_cons, List.map_append]
    refine List.Nodup.append h.nodup hs.nodup (fun i hi hi' => ?_)
    exact hs.avoids i hi' (List.mem_append_left _ hi)
  avoids i hi := by
    rw [List.flatten_cons, List.map_append] at hi
    cases List.mem_append.mp hi with
    | inl hi =>
        obtain ⟨r, hr, rfl⟩ := List.mem_map.mp hi
        exact h.avoids r hr
    | inr hi => exact fun hc => hs.avoids i hi (List.mem_append_right _ hc)

/-- A map in which `get_routes` finds shortest routes: one road for each id and for each pair of
junctions, and types that are small. -/
structure Map.Plain (m : Map R n) : Prop where
  ids : (m.edges.map Edge.id).Nodup
  noParallel : NoParallel m.edges
  small : SmallTypes m.edges

/-- The map with the roads closed whose id is in `ids`. -/
def Map.closed (m : Map R n) (ids : List ℤ) : Map R n := { m with edges := closeIds ids m.edges }

section search

variable {dijkstra : List (Edge n) → Fin n → Fin n → Fin n} {m : Map R n} {a b : Fin n}

/-- `get_route` finds no route, or a shortest one that avoids the closed roads, and closes its
roads. -/
theorem getRoute_closeIds (hs : FindsShortest dijkstra) (hm : m.Plain) (hne : a ≠ b)
    (ids : List ℤ) : ∃ route, (m.closed ids).getRoute dijkstra a b =
        some (route, m.closed (route.map Route.roadid ++ ids)) ∧
      (route = [] ∨ Shortest m.edges ids a b route) := by
  have hopen : openEdges (closeIds ids m.edges) =
      m.edges.filter (fun e => decide (e.id ∉ ids)) := openEdges_closeIds hm.small.allOpen
  have hshort : IsShortest (links (m.edges.filter (fun e => decide (e.id ∉ ids)))) a
      (dijkstra (closeIds ids m.edges) a) := by
    have hfind := hs (closeIds ids m.edges) a
    rw [hopen] at hfind
    exact hfind (hm.small.filter _)
  unfold Map.getRoute Map.closed
  by_cases hfix : dijkstra (closeIds ids m.edges) a b = b
  · refine ⟨[], ?_, Or.inl rfl⟩
    unfold backtrack
    rw [if_pos (Or.inr hfix.symm)]
    rfl
  · obtain ⟨k, hlt, hk, hmin⟩ := hshort.depth (Or.inr hfix)
    rw [Fintype.card_fin] at hlt
    obtain ⟨rs, hback, hout, havoid, hnodup, hstart, hdist⟩ := backtrack_closeIds hm.ids
      hm.noParallel hm.small.nonneg hshort k n b ids hlt.le hk hmin
      (fun e _ hc hnot => absurd hc hnot)
    refine ⟨rs.reverse, ?_, Or.inr ⟨?_, hout, ?_, ?_, ?_, ?_⟩⟩
    · have hids : closeIds (rs.reverse.map Route.roadid ++ ids) m.edges =
          closeIds (rs.map Route.roadid ++ ids) m.edges := by
        apply closeIds_congr
        intro e _
        rw [List.mem_append, List.mem_append, List.map_reverse, List.mem_reverse]
      rw [hids]
      show Option.map _ (backtrack _ a n b (closeIds ids m.edges)) = _
      rw [hback]
      rfl
    · intro hnil
      have hlen := congrArg List.length hstart
      rw [List.reverse_eq_nil_iff.mp hnil, List.length_map, List.length_map,
        List.length_range] at hlen
      rw [← hlen] at hk
      exact hne hk.symm
    · rw [List.map_reverse, hstart]
      exact simple_way hk hmin
    · exact fun r hr => havoid r (List.mem_reverse.mp hr)
    · rw [List.map_reverse, List.nodup_reverse]
      exact hnodup
    · intro path hpath hout
      have hsum : routeType rs.reverse = routeType rs := by
        unfold routeType
        rw [List.map_reverse, List.sum_reverse]
      rw [hsum]
      apply hdist.least
      apply IsPath.walk
      exact hpath.mono (fun e he hes => List.mem_filter.mpr ⟨hes, by simpa using hout e he⟩)

/-- Closing the roads of a route leaves fewer open roads. -/
theorem openRoads_closeIds_lt (hopen : ∀ e ∈ m.edges, e.type ≠ INT_MAX) {ids : List ℤ}
    {route : List Route} (h : Shortest m.edges ids a b route) :
    openRoads (m.closed (route.map Route.roadid ++ ids)).edges <
      openRoads (m.closed ids).edges := by
  have hcount : ∀ l : List ℤ, openRoads (m.closed l).edges =
      (m.edges.filter (fun e => decide (e.id ∉ l))).length := by
    intro l
    rw [← openEdges_closeIds hopen, openEdges, ← List.countP_eq_length_filter]
    rfl
  obtain ⟨r, hr⟩ := List.exists_mem_of_ne_nil route h.nonempty
  obtain ⟨e, he, hid, -⟩ := h.outward.mem hr
  rw [hcount, hcount]
  have hsplit : m.edges.filter (fun e => decide (e.id ∉ route.map Route.roadid ++ ids)) =
      (m.edges.filter (fun e => decide (e.id ∉ ids))).filter
        (fun e => decide (e.id ∉ route.map Route.roadid)) := by
    rw [List.filter_filter]
    apply List.filter_congr
    intro f _
    simp only [List.mem_append, not_or, Bool.decide_and]
  rw [hsplit]
  apply List.length_filter_lt_length_iff_exists.mpr
  refine ⟨e, List.mem_filter.mpr ⟨he, ?_⟩, ?_⟩
  · have hnot := h.avoids r hr
    rw [hid] at hnot
    simpa using hnot
  · have hmem : e.id ∈ route.map Route.roadid := hid ▸ List.mem_map_of_mem hr
    simpa using hmem

/-- **The search.**  Induction on the iterations: it ends with routes that are greedy. -/
theorem searchRoutes_closeIds [Scalar R] (hs : FindsShortest dijkstra) (hm : m.Plain)
    (hne : a ≠ b) : ∀ (fuel : ℕ) (ids : List ℤ), openRoads (m.closed ids).edges < fuel →
    ∃ routes m', (m.closed ids).searchRoutes dijkstra a b fuel = some (routes, m') ∧
      Greedy m.edges ids a b routes
  | 0, _, h => absurd h (Nat.not_lt_zero _)
  | fuel + 1, ids, h => by
      unfold Map.searchRoutes
      cases hmore : (m.closed ids).moreRoute a b with
      | false => exact ⟨[], _, rfl, Greedy.nil _ _ _ _⟩
      | true =>
          obtain ⟨route, hroute, hshort⟩ := getRoute_closeIds hs hm hne ids
          rw [if_pos rfl, hroute]
          cases route with
          | nil => exact ⟨[], _, rfl, Greedy.nil _ _ _ _⟩
          | cons r rs =>
              have hgood := hshort.resolve_left (List.cons_ne_nil r rs)
              have hless := openRoads_closeIds_lt hm.small.allOpen hgood
              obtain ⟨routes, m', hrec, hgreedy⟩ := searchRoutes_closeIds hs hm hne fuel
                ((r :: rs).map Route.roadid ++ ids) (by omega)
              refine ⟨(r :: rs) :: routes, m', ?_, Greedy.cons hgood hgreedy⟩
              simp only [hrec, Option.map_some]

/-- **Disjoint shortest routes.**  In an imported map without parallel roads and with small types
`get_routes` ends for every two junctions.  Its routes are simple paths listed from the source
outward, no road occurs twice in them, every type recorded is the one that was imported, and the
`k`-th route is shortest among the paths that avoid the roads of the routes before it. -/
theorem getRoutes_disjoint_shortest [Scalar R] (hs : FindsShortest dijkstra)
    {rows : List (RawData R)} (hm : importMapData (getMapData rows) = some ⟨n, m⟩)
    (hpar : NoParallel m.edges) (hsmall : SmallTypes m.edges) (hne : a ≠ b) :
    ∃ fuel routes m', m.getRoutes dijkstra fuel a b = some (routes, m') ∧
      (∀ route ∈ routes, route ≠ [] ∧ Outward m.edges a b route ∧
        ((a : ℕ) :: route.map Route.startid).Nodup) ∧
      (routes.flatten.map Route.roadid).Nodup ∧
      (∀ r ∈ routes.flatten, ∃ d ∈ getMapData rows,
        d.mainid = r.roadid ∧ r.type = importType d.type) ∧
      ∀ k route, routes[k]? = some route → ∀ path, IsPath m.edges a b path →
        (∀ e ∈ path, e.id ∉ (routes.take k).flatten.map Route.roadid) →
        routeType route ≤ pathType path := by
  obtain ⟨hids, hrecord⟩ := imported_record (importMapData_imported hm) (nodup_getMapData rows)
  have hplain : m.Plain := ⟨hids, hpar, hsmall⟩
  have hnil : m.closed [] = m := by
    unfold Map.closed
    rw [closeIds_nil]
  obtain ⟨routes, m', hsearch, hgreedy⟩ := searchRoutes_closeIds hs hplain hne
    (openRoads (m.closed []).edges + 1) [] (Nat.lt_succ_self _)
  rw [hnil] at hsearch
  have hshort : ∀ route ∈ routes, ∃ ids, Shortest m.edges ids a b route := by
    intro route hr
    obtain ⟨k, hk⟩ := List.mem_iff_getElem?.mp hr
    exact ⟨_, hgreedy.shortest k route hk⟩
  refine ⟨openRoads m.edges + 1, routes, m', ?_, ?_, hgreedy.nodup, ?_, ?_⟩
  · unfold Map.getRoutes
    rw [if_neg hne]
    exact hsearch
  · intro route hr
    obtain ⟨ids, h⟩ := hshort route hr
    exact ⟨h.nonempty, h.outward, h.simple⟩
  · intro r hr
    obtain ⟨route, hroute, hrr⟩ := List.mem_flatten.mp hr
    obtain ⟨ids, h⟩ := hshort route hroute
    obtain ⟨e, he, hid, htype⟩ := h.outward.mem hrr
    obtain ⟨d, hd, -, hdid, hdtype⟩ := hrecord e he
    exact ⟨d, hd, hdid.trans hid.symm, htype.trans hdtype⟩
  · intro k route hk path hpath hout
    have h := hgreedy.shortest k route hk
    rw [List.append_nil] at h
    exact h.least path hpath hout

end search

/-! ### A triangle -/

/-- Three roads between three junctions. -/
def triangle : List (RawData ℝ) :=
  [sampleRow 7 3, ⟨8, 1, 0, 0, 0, 1, 0, 2, 1, 0⟩, ⟨9, 1, 0, 1, 1, 0, 2, 1, 1, 0⟩]

theorem getRoutes_disjoint_shortest_sample : ∃ m : Map ℝ 3,
    importMapData (getMapData triangle) = some ⟨3, m⟩ ∧
    ∃ fuel routes m', m.getRoutes dijkstraShortestPaths fuel 0 1 = some (routes, m') ∧
      (routes.flatten.map Route.roadid).Nodup := by
  obtain ⟨m, hm, hedges⟩ : ∃ m : Map ℝ 3, importMapData (getMapData triangle) = some ⟨3, m⟩ ∧
      m.edges = [⟨0, 1, 7, 3⟩, ⟨0, 2, 8, 1⟩, ⟨2, 1, 9, 1⟩] := ⟨⟨_, _, _⟩, rfl, rfl⟩
  have hpar : NoParallel m.edges := by
    rw [hedges, NoParallel]
    decide
  have hsmall : SmallTypes m.edges := by
    rw [hedges]
    exact smallTypes_of_sum (by decide) (by decide)
  obtain ⟨fuel, routes, m', hroutes, -, hnodup, -⟩ := getRoutes_disjoint_shortest
    dijkstraShortestPaths_findsShortest hm hpar hsmall (show (0 : Fin 3) ≠ 1 by decide)
  exact ⟨m, hm, fuel, routes, m', hroutes, hnodup⟩

end GeoSvr.MapManager
