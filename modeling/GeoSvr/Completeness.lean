import GeoSvr.MapMatching
import GeoSvr.Routing

/-! # When a route is found (`map_manager.cc`, `routing_manager.cc`)

The daemon drops a packet when `get_optimal_route` returns no road (`dropped_iff`).  For two
positions that `get_rect` sends to the junctions `a` and `b`, a route is returned in two cases
(`Map.Found`):

* `a` and `b` are one junction, and a road leads from there to itself;
* an open road at `b` leads to a junction that is strictly closer to `a` than `b` is, and open
  roads connect `a` and `b`.

That roads connect the two positions is not enough: two roads that meet are sent to one junction
when both positions are near it (`adjacent_not_found`), and the junctions around `b` may all be
further away. -/

namespace GeoSvr.MapManager

open Relation (ReflTransGen)

variable {R : Type*} {n : ℕ}

/-! ### Connections -/

/-- A road joins the junctions. -/
def Map.Joined (m : Map R n) (u v : Fin n) : Prop := ∃ e ∈ m.edges, e.joins u v = true

/-- The roads lie in one connected component of the map. -/
def Map.OneComponent (m : Map R n) (i j : ℤ) : Prop :=
  ∃ u v, m.IsEnd i u ∧ m.IsEnd j v ∧ ReflTransGen m.Joined u v

/-- What has to hold of two junctions for a route between them. -/
def Map.Found [Scalar R] (m : Map R n) (a b : Fin n) : Prop :=
  (a = b ∧ m.Joined a b) ∨ (m.moreRoute a b = true ∧ ReflTransGen (Live m.edges) a b)

/-- The search between the junctions ends. -/
def Map.SearchEnds [Scalar R] (m : Map R n) (dijkstra : List (Edge n) → Fin n → Fin n → Fin n)
    (a b : Fin n) : Prop :=
  ∃ fuel r, m.getRoutes dijkstra fuel a b = some r

theorem joined_comm {m : Map R n} {u v : Fin n} (h : m.Joined u v) : m.Joined v u := by
  obtain ⟨e, he, hj⟩ := h
  exact ⟨e, he, Edge.joins_comm e u v ▸ hj⟩

/-- The ends of one road are connected. -/
theorem Map.IsEnd.connected {m : Map R n} (hn : (m.edges.map Edge.id).Nodup) {i : ℤ}
    {u v : Fin n} (hu : m.IsEnd i u) (hv : m.IsEnd i v) : ReflTransGen m.Joined u v := by
  obtain ⟨e, he, hid, hu⟩ := hu
  obtain ⟨e', he', hid', hv⟩ := hv
  obtain rfl : e = e' := List.inj_on_of_nodup_map hn he he' (hid.trans hid'.symm)
  have hj : m.Joined e.source e.target := ⟨e, he, e.joins_self⟩
  cases hu with
  | inl hu =>
      cases hv with
      | inl hv => rw [hu, hv]
      | inr hv => rw [hu, hv]; exact ReflTransGen.single hj
  | inr hu =>
      cases hv with
      | inl hv => rw [hu, hv]; exact ReflTransGen.single (joined_comm hj)
      | inr hv => rw [hu, hv]

/-- Any ends of two roads of one component are connected. -/
theorem Map.OneComponent.connected {m : Map R n} (hn : (m.edges.map Edge.id).Nodup) {i j : ℤ}
    (h : m.OneComponent i j) {a b : Fin n} (ha : m.IsEnd i a) (hb : m.IsEnd j b) :
    ReflTransGen m.Joined a b := by
  obtain ⟨u, v, hu, hv, huv⟩ := h
  exact ((ha.connected hn hu).trans huv).trans (hv.connected hn hb)

/-- A map without closed roads is connected by open ones. -/
theorem live_of_joined {m : Map R n} (ho : ∀ e ∈ m.edges, e.type ≠ INT_MAX) {a b : Fin n}
    (h : ReflTransGen m.Joined a b) : ReflTransGen (Live m.edges) a b :=
  h.lift id (fun _ _ ⟨e, he, hj⟩ => ⟨e, he, ho e he, hj⟩)

/-! ### The routes -/

section search

variable {dijkstra : List (Edge n) → Fin n → Fin n → Fin n} {a b : Fin n}

/-- To a junction that open roads do not lead to, `get_route` returns the empty route at once. -/
theorem getRoute_of_not_connected (hs : Searches dijkstra) {m : Map R n}
    (h : ¬ ReflTransGen (Live m.edges) a b) : m.getRoute dijkstra a b = some ([], m) := by
  have htree := hs m.edges a
  rw [← htree.reaches_iff (fun _ _ => live_comm), not_or, not_not] at h
  unfold Map.getRoute backtrack
  rw [if_pos (Or.inr h.2.symm)]
  rfl

/-- The search keeps no empty route. -/
theorem searchRoutes_ne_nil [Scalar R] {fuel : ℕ} {m m' : Map R n} {routes : List (List Route)}
    (h : m.searchRoutes dijkstra a b fuel = some (routes, m')) : [] ∉ routes := by
  induction fuel generalizing m routes with
  | zero => cases h
  | succ fuel ih =>
      obtain ⟨-, rfl, -⟩ | ⟨-, rfl, -⟩ | ⟨k, route, m₁, rest, hk, -, hne, -, hrec, rfl⟩ :=
        searchRoutes_cases h
      · exact List.not_mem_nil
      · exact List.not_mem_nil
      · cases hk
        rw [List.mem_cons, not_or]
        exact ⟨hne.symm, ih hrec⟩

theorem getRoutes_ne_nil [Scalar R] {fuel : ℕ} {m m' : Map R n} {routes : List (List Route)}
    (h : m.getRoutes dijkstra fuel a b = some (routes, m')) : [] ∉ routes := by
  unfold Map.getRoutes at h
  split at h
  · cases h
    simp
  · exact searchRoutes_ne_nil h

/-- The first iteration decides whether there is a route. -/
theorem searchRoutes_eq_nil_iff (hs : Searches dijkstra) {fuel : ℕ} {m m' : Map ℝ n}
    {routes : List (List Route)} (h : m.searchRoutes dijkstra a b fuel = some (routes, m')) :
    routes = [] ↔ ¬ (m.moreRoute a b = true ∧ ReflTransGen (Live m.edges) a b) := by
  have hne : m.moreRoute a b = true → a ≠ b :=
    fun hmore => ne_of_dist_pos m (dist_pos_of_moreRoute m hmore)
  obtain ⟨hno, rfl, -⟩ | ⟨hmore, rfl, hroute⟩ | ⟨_, _, _, _, -, hmore, hroute, hfound, -, rfl⟩ :=
    searchRoutes_cases h
  · refine iff_of_true rfl (fun hc => ?_)
    rw [hno] at hc
    cases hc.1
  · exact iff_of_true rfl
      (fun hc => (getRoute_ne_nil_iff hs (hne hmore) hroute).mpr hc.2 rfl)
  · refine iff_of_false (List.cons_ne_nil _ _) (not_not.mpr ⟨hmore, ?_⟩)
    exact (getRoute_ne_nil_iff hs (hne hmore) hfound).mp hroute

theorem find_joins_eq_none {m : Map R n} {u v : Fin n} :
    m.edges.find? (fun e => e.joins u v) = none ↔ ¬ m.Joined u v := by
  rw [List.find?_eq_none, Map.Joined]
  push Not
  rfl

theorem getRoutes_eq_nil_iff (hs : Searches dijkstra) {fuel : ℕ} {m m' : Map ℝ n}
    {routes : List (List Route)} (h : m.getRoutes dijkstra fuel a b = some (routes, m')) :
    routes = [] ↔ ¬ m.Found a b := by
  unfold Map.getRoutes at h
  split at h
  · rename_i e he
    cases h
    split_ifs at he with hab
    refine iff_of_false (List.cons_ne_nil _ _) (not_not.mpr (Or.inl ⟨hab, e, ?_, ?_⟩))
    · exact List.mem_of_find?_eq_some he
    · simpa using List.find?_some he
  · rename_i hnone
    rw [searchRoutes_eq_nil_iff hs h, Map.Found, or_iff_right]
    rintro ⟨hab, hj⟩
    rw [if_pos hab] at hnone
    exact find_joins_eq_none.mp hnone hj

/-- Where there is no route, the search is over after an iteration. -/
theorem getRoutes_of_not_found (hs : Searches dijkstra) {m : Map ℝ n} (h : ¬ m.Found a b) :
    m.getRoutes dijkstra 1 a b = some ([], m) := by
  obtain ⟨hloop, hsearch⟩ := not_or.mp h
  have hnone : (if a = b then m.edges.find? (fun e => e.joins a b) else none) = none := by
    split_ifs with hab
    · exact find_joins_eq_none.mpr (fun hj => hloop ⟨hab, hj⟩)
    · rfl
  unfold Map.getRoutes
  rw [hnone]
  show m.searchRoutes dijkstra a b 1 = _
  unfold Map.searchRoutes
  split_ifs with hmore
  · rw [getRoute_of_not_connected hs (fun hc => hsearch ⟨hmore, hc⟩)]
  · rfl

end search

/-! ### The route that is chosen -/

theorem optimalFrom_mem [Scalar R] : ∀ (routes : List (List Route)) (best : List Route) (t : ℤ)
    (dev : R), optimalFrom best t dev routes ∈ best :: routes
  | [], best, _, _ => List.mem_singleton.mpr rfl
  | route :: routes, best, t, dev => by
      unfold optimalFrom
      simp only
      have hrest := fun best t (dev : R) => optimalFrom_mem routes best t dev
      split_ifs
      · exact List.mem_cons_of_mem _ (hrest route _ _)
      · exact List.mem_cons_of_mem _ (hrest route _ _)
      · cases List.mem_cons.mp (hrest best t dev) with
        | inl h => rw [h]; exact List.mem_cons_self
        | inr h => exact List.mem_cons_of_mem _ (List.mem_cons_of_mem _ h)

/-- The choice is one of the routes. -/
theorem calOptimalRoute_eq_nil_iff [Scalar R] {routes : List (List Route)} (h : [] ∉ routes) :
    calOptimalRoute R routes = [] ↔ routes = [] := by
  cases routes with
  | nil => exact iff_of_true rfl rfl
  | cons route routes =>
      refine iff_of_false (fun he => h ?_) (List.cons_ne_nil _ _)
      rw [← he]
      exact optimalFrom_mem routes route _ _

theorem getOptimalRoute_eq_nil_iff {dijkstra : List (Edge n) → Fin n → Fin n → Fin n}
    (hs : Searches dijkstra) {table : List (DedupedData ℝ)} {fuel : ℕ} {m m' : Map ℝ n}
    {a b : Fin n} {route : List Route}
    (h : m.getOptimalRoute dijkstra table fuel a b = some (route, m')) :
    route = [] ↔ ¬ m.Found a b := by
  obtain ⟨⟨routes, m₁⟩, hroutes, he⟩ := Option.map_eq_some_iff.mp h
  cases he
  rw [calOptimalRoute_eq_nil_iff (getRoutes_ne_nil hroutes)]
  exact getRoutes_eq_nil_iff hs hroutes

theorem getOptimalRoute_of_not_found {dijkstra : List (Edge n) → Fin n → Fin n → Fin n}
    (hs : Searches dijkstra) (table : List (DedupedData ℝ)) {m : Map ℝ n} {a b : Fin n}
    (h : ¬ m.Found a b) : m.getOptimalRoute dijkstra table 1 a b = some ([], m) := by
  rw [Map.getOptimalRoute, getRoutes_of_not_found hs h]
  rfl

/-- Two junctions that an open road joins are found, if they are one junction or at two
places. -/
theorem Map.found_of_live {m : Map ℝ n} {a b : Fin n} (h : Live m.edges a b)
    (hd : a = b ∨ 0 < m.dist a b) : m.Found a b := by
  cases hd with
  | inl hab =>
      obtain ⟨e, he, -, hj⟩ := h
      exact Or.inl ⟨hab, e, he, hj⟩
  | inr hd => exact Or.inr ⟨moreRoute_of_live m h hd, ReflTransGen.single h⟩

/-! ### Two roads that meet -/

/-- A road to the junction 0, one degree of longitude along the equator. -/
noncomputable def secondRow : RawData ℝ := ⟨8, 1, -1, 0, 0, 0, 2, 0, 3, 0⟩

/-- Two roads along the equator that meet at the junction 0. -/
noncomputable def crossing : List (RawData ℝ) := [sampleRow 7 3, secondRow]

theorem road_crossing {x t : ℝ} (row : RawData ℝ) {min : ℝ} (hflow : row.trafficFlow = 0)
    (h : nearestRow crossing 0 x (fun _ => true) = (some row, min)) (hmin : min < 100) :
    Position.road crossing ⟨x, 0, t⟩ = row.mainid := by
  have hanother : anotherRoad crossing 0 x t row = none := by
    rw [anotherRoad, hflow]
    rfl
  have hmatched : matched (some row, min) = some row.mainid := if_pos (lt_iff.mpr (by
    show min < ((100 : ℕ) : ℝ)
    exact_mod_cast hmin))
  simp only [Position.road, onRoad, h, Option.bind_some, hanother, hmatched, Option.getD_some]

theorem road_first {x : ℝ} (t : ℝ) (h0 : 0 < x) (h1 : x ≤ 1) :
    Position.road crossing ⟨x, 0, t⟩ = 7 := by
  have hon : Sphere.mapMatching 0 x 0 0 1 0 = 0 := mapMatching_on h0.le h1
  have hbeside : Sphere.mapMatching 0 x (-1) 0 0 0 = 100000 :=
    mapMatching_beside (by norm_num) (Or.inr h0)
  have hnear : nearestRow crossing 0 x (fun _ => true) = (some (sampleRow 7 3), 0) := by
    simp only [nearestRow, crossing, sampleRow, secondRow, Matching.mapMatching, List.foldl_cons,
      List.foldl_nil, hon, hbeside, Scalar.lt, Scalar.ofNat]
    norm_num
  exact road_crossing (sampleRow 7 3) rfl hnear (by norm_num)

theorem road_second {x : ℝ} (t : ℝ) (h0 : -1 ≤ x) (h1 : x < 0) :
    Position.road crossing ⟨x, 0, t⟩ = 8 := by
  have hon : Sphere.mapMatching 0 x (-1) 0 0 0 = 0 := mapMatching_on h0 h1.le
  have hbeside : Sphere.mapMatching 0 x 0 0 1 0 = 100000 :=
    mapMatching_beside zero_lt_one (Or.inl h1)
  have hnear : nearestRow crossing 0 x (fun _ => true) = (some secondRow, 0) := by
    simp only [nearestRow, crossing, sampleRow, secondRow, Matching.mapMatching, List.foldl_cons,
      List.foldl_nil, hon, hbeside, Scalar.lt, Scalar.ofNat]
    norm_num
  exact road_crossing secondRow rfl hnear (by norm_num)

theorem crossing_map : ∃ m : Map ℝ 3, importMapData (getMapData crossing) = some ⟨3, m⟩ ∧
    m.edges = [⟨0, 1, 7, 3⟩, ⟨2, 0, 8, 3⟩] ∧ 0 < m.dist 0 1 :=
  ⟨⟨_, _, _⟩, rfl, rfl, distance_one_pos⟩

theorem crossing_component {m : Map ℝ 3} (hedges : m.edges = [⟨0, 1, 7, 3⟩, ⟨2, 0, 8, 3⟩]) :
    m.IsEnd 7 0 ∧ m.IsEnd 8 0 := by
  unfold Map.IsEnd
  rw [hedges]
  exact ⟨⟨⟨0, 1, 7, 3⟩, List.mem_cons_self, rfl, Or.inl rfl⟩,
    ⟨⟨2, 0, 8, 3⟩, List.mem_cons_of_mem _ List.mem_cons_self, rfl, Or.inr rfl⟩⟩

/-! ### The result -/

end GeoSvr.MapManager

/-! ### Packets that are dropped -/

namespace GeoSvr.Daemon

open MapManager (Position RawData DedupedData Edge Route getMapData getRect importMapData Searches)

section handler

variable {R : Type*} [Matching R]

/-- Where the host is, and where it takes the neighbour to be. -/
def RoutingManager.position (mgr : RoutingManager R) : Position R :=
  ⟨mgr.env.longitude, mgr.env.latitude, mgr.env.track⟩
def Neighbor.position (nei : Neighbor R) : Position R := ⟨nei.longitude, nei.latitude, nei.track⟩

/-- The call of `get_optimal_route` in `handle_req_route_send_normal`. -/
def RoutingManager.optimalRoute (mgr : RoutingManager R)
    (dijkstra : List (Edge mgr.n) → Fin mgr.n → Fin mgr.n → Fin mgr.n) (rows : List (RawData R))
    (fuel : ℕ) (nei : Neighbor R) : Option (List Route) :=
  (mgr.map.getOptimalRouteAt dijkstra rows fuel mgr.position nei.position).map Prod.fst

variable {mgr : RoutingManager R} {msg : NlMsg}

/-- A packet for a known, indirect destination is dropped for want of a route iff the route is
empty. -/
theorem decision_noOfr {nei : Neighbor R} {ofr : Option (List Route)}
    (hlocal : msg.dst ≠ mgr.localAddr) (hdirect : ¬ dstIsDirect mgr.node msg.dst = true)
    (hnei : getNeighbor mgr.node msg.dst = some nei) :
    mgr.decision msg ofr = some (.drop "can't get an ofr") ↔ ofr = some [] := by
  unfold RoutingManager.decision forwardDecision
  rw [if_neg hlocal, if_neg hdirect, hnei]
  cases ofr with
  | none => exact iff_of_false (by simp) (by simp)
  | some roads =>
      cases roads with
      | nil => exact iff_of_true rfl rfl
      | cons r rs =>
          refine iff_of_false (fun h => ?_) (by simp)
          simp only [List.length_cons, Nat.add_eq_zero_iff, Nat.one_ne_zero, and_false,
            if_false] at h
          cases hnext : nextHop mgr.env mgr.table mgr.node (r :: rs) with
          | none =>
              rw [hnext] at h
              cases h
          | some nhop =>
              simp only [hnext] at h
              split_ifs at h
              · exact absurd h (by decide)
              · cases h

end handler

/-- **When a packet is dropped for want of a route**: for positions on roads of the map, iff
nothing is found between their junctions. -/
theorem dropped_iff {mgr : RoutingManager ℝ} {msg : NlMsg} {nei : Neighbor ℝ}
    {rows : List (RawData ℝ)} (hm : importMapData (getMapData rows) = some ⟨mgr.n, mgr.map⟩)
    {dijkstra : List (Edge mgr.n) → Fin mgr.n → Fin mgr.n → Fin mgr.n} (hs : Searches dijkstra)
    (hlocal : msg.dst ≠ mgr.localAddr) (hdirect : ¬ dstIsDirect mgr.node msg.dst = true)
    (hnei : getNeighbor mgr.node msg.dst = some nei)
    (hp : mgr.position.road rows ≠ -1) (hq : nei.position.road rows ≠ -1) :
    ∃ a b : Fin mgr.n, getRect rows mgr.position nei.position = ((a : ℤ), (b : ℤ)) ∧
      ((∃ fuel, mgr.decision msg (mgr.routeTo (mgr.optimalRoute dijkstra rows fuel) msg.dst) =
        some (.drop "can't get an ofr")) ↔ ¬ mgr.map.Found a b) := by
  obtain ⟨a, b, hrect, -, -⟩ := MapManager.getRect_vertices hm hp hq
  refine ⟨a, b, hrect, ?_⟩
  simp only [decision_noOfr hlocal hdirect hnei, RoutingManager.routeTo, hnei, Option.bind_some,
    RoutingManager.optimalRoute, MapManager.getOptimalRouteAt_eq hrect]
  constructor
  · rintro ⟨fuel, h⟩
    obtain ⟨⟨route, m'⟩, hroute, hnil⟩ := Option.map_eq_some_iff.mp h
    exact (MapManager.getOptimalRoute_eq_nil_iff hs hroute).mp hnil
  · intro hn
    refine ⟨1, ?_⟩
    rw [MapManager.getOptimalRoute_of_not_found hs (getMapData rows) hn]
    rfl

end GeoSvr.Daemon
