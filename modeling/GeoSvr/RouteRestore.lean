import GeoSvr.RouteSearch
import GeoSvr.Runs

/-! # Route queries (`map_manager.cc`)

A query searches for routes, which closes roads of the shared map, reopens them with the types
that the table has, and picks the route of the least type.

The table says 12 where the map says 0: `restore_routes` gives such a road the type 12.  A
sequence of queries leaves the map as it was imported when no road of type 12 is the first
between two junctions, since only first roads are ever closed; and a query between the junctions
of such a road spoils the map (`query_spoils`). -/

namespace GeoSvr.MapManager

open Runs

variable {R : Type*} {n : ℕ}

/-! ### Definitions -/

/-- `a + b` in `int`. -/
def intAdd (a b : ℤ) : ℤ := Int.bmod (a + b) (2 ^ 32)

/-- Conversion of an `int` to `double`. -/
def ofInt [Scalar R] (i : ℤ) : R :=
  if 0 ≤ i then Scalar.ofNat i.toNat else Scalar.ofNat 0 - Scalar.ofNat (-i).toNat

/-- `route_attribute`, where `type` is what the caller's variable holds before: the sum of the
types, and their deviation from a mean that is computed in `size_t`. -/
def routeAttribute [Scalar R] (route : List Route) (type : ℤ) : ℤ × R :=
  let type := route.foldl (fun t r => intAdd t r.type) type
  let mean : R := Scalar.ofNat ((type % 2 ^ 64).toNat / route.length)
  let sum := route.foldl
    (fun sum r => sum + (ofInt r.type - mean) * (ofInt r.type - mean)) (Scalar.ofNat 0)
  (type, Scalar.sqrt (sum / Scalar.ofNat route.length))

/-- The loop of `cal_optimal_route`. -/
def optimalFrom [Scalar R] (best : List Route) (minType : ℤ) (minDev : R) :
    List (List Route) → List Route
  | [] => best
  | route :: routes =>
      let (type, dev) := routeAttribute route 0
      if type < minType then optimalFrom route type dev routes
      else if minType = type ∧ Scalar.lt dev minDev then optimalFrom route type dev routes
      else optimalFrom best minType minDev routes

/-- `cal_optimal_route`; `min_type` is `INT_MAX` when the types of the first route are added. -/
def calOptimalRoute (R : Type*) [Scalar R] : List (List Route) → List Route
  | [] => []
  | route :: routes =>
      let (type, dev) := routeAttribute (R := R) route INT_MAX
      optimalFrom route type dev routes

/-- The road with the type of its record. -/
def Edge.retype (d : Option (DedupedData R)) (e : Edge n) : Edge n :=
  match d with
  | some d => { e with type := d.type }
  | none => e

/-- The body of `restore_routes`: the first road with this id gets the type that the first record
has. -/
def restoreRoad (table : List (DedupedData R)) (roadid : ℤ) : List (Edge n) → List (Edge n)
  | [] => []
  | e :: es =>
      if e.id = roadid then e.retype (getRoadInfo table roadid) :: es
      else e :: restoreRoad table roadid es

/-- `restore_routes`. -/
def Map.restoreRoutes (table : List (DedupedData R)) (routes : List (List Route)) (m : Map R n) :
    Map R n :=
  { m with edges :=
      (routes.flatten.map Route.roadid).foldl (fun es id => restoreRoad table id es) m.edges }

/-- `get_optimal_route` between two junctions; `none` if the search has not ended after `fuel`
iterations. -/
def Map.getOptimalRoute [Scalar R] (dijkstra : List (Edge n) → Fin n → Fin n → Fin n)
    (table : List (DedupedData R)) (fuel : ℕ) (m : Map R n) (a b : Fin n) :
    Option (List Route × Map R n) :=
  (m.getRoutes dijkstra fuel a b).map
    (fun (routes, m) => (calOptimalRoute R routes, m.restoreRoutes table routes))

/-- A query that returns. -/
structure Query (n : ℕ) where
  fuel : ℕ
  src : Fin n
  dst : Fin n

def queryStep [Scalar R] (dijkstra : List (Edge n) → Fin n → Fin n → Fin n)
    (table : List (DedupedData R)) (m : Map R n) (q : Query n) : Option (Map R n) :=
  (m.getOptimalRoute dijkstra table q.fuel q.src q.dst).map Prod.snd

/-! ### What a search closes -/

section search

variable {dijkstra : List (Edge n) → Fin n → Fin n → Fin n} {m m' : Map R n} {a b : Fin n}

theorem getRoute_taken {route : List Route} (h : m.getRoute dijkstra a b = some (route, m')) :
    ∃ es, m' = { m with edges := es } ∧ Taken (route.map Route.roadid) m.edges es ∧
      ∀ r ∈ route, FirstRoad m.edges r.roadid := by
  obtain ⟨⟨rs, es⟩, hback, he⟩ := Option.map_eq_some_iff.mp h
  cases he
  obtain ⟨htaken, hfirst⟩ := backtrack_taken _ _ _ _ _ hback
  refine ⟨es, rfl, htaken.mono (fun id hid => ?_), fun r hr => hfirst r (List.mem_reverse.mp hr)⟩
  rw [List.map_reverse]
  exact List.mem_reverse.mpr hid

variable [Scalar R]

/-- Induction on the iterations: the roads that a search closes are first roads of its routes. -/
theorem searchRoutes_taken {fuel : ℕ} {routes : List (List Route)}
    (h : m.searchRoutes dijkstra a b fuel = some (routes, m')) :
    ∃ es, m' = { m with edges := es } ∧ Taken (routes.flatten.map Route.roadid) m.edges es ∧
      ∀ r ∈ routes.flatten, FirstRoad m.edges r.roadid := by
  induction fuel generalizing m routes with
  | zero => cases h
  | succ fuel ih =>
      obtain ⟨-, rfl, rfl⟩ | ⟨-, rfl, hroute⟩ | ⟨k, route, m₁, rest, hk, -, -, hroute, hrec, rfl⟩ :=
        searchRoutes_cases h
      · exact ⟨_, rfl, Taken.refl _ _, fun r hr => absurd hr List.not_mem_nil⟩
      · exact getRoute_taken hroute
      · cases hk
        obtain ⟨es₁, rfl, htaken, hfirst⟩ := getRoute_taken hroute
        obtain ⟨es₂, rfl, htaken₂, hfirst₂⟩ := ih hrec
        refine ⟨es₂, rfl, ?_, fun r hr => ?_⟩
        · rw [List.flatten_cons, List.map_append]
          exact htaken.trans htaken₂
        · rw [List.flatten_cons, List.mem_append] at hr
          exact hr.elim (hfirst r) (fun hm => htaken.firstRoad (hfirst₂ r hm))

theorem getRoutes_taken {fuel : ℕ} {routes : List (List Route)}
    (h : m.getRoutes dijkstra fuel a b = some (routes, m')) :
    ∃ es, m' = { m with edges := es } ∧ Taken (routes.flatten.map Route.roadid) m.edges es ∧
      ∀ r ∈ routes.flatten, FirstRoad m.edges r.roadid := by
  unfold Map.getRoutes at h
  split at h
  · rename_i e he
    cases h
    refine ⟨m.edges, rfl, Taken.refl _ _, fun r hr => ?_⟩
    rw [List.flatten_singleton, List.mem_singleton] at hr
    subst hr
    split_ifs at he with hab
    exact ⟨a, b, e, he, rfl⟩
  · exact searchRoutes_taken h

/-- More iterations than it takes make no difference. -/
theorem searchRoutes_mono : ∀ {fuel fuel' : ℕ} {m : Map R n} {r : List (List Route) × Map R n},
    fuel ≤ fuel' → m.searchRoutes dijkstra a b fuel = some r →
    m.searchRoutes dijkstra a b fuel' = some r
  | 0, _, _, _, _, h => by cases h
  | fuel + 1, 0, _, _, hle, _ => absurd hle (Nat.not_succ_le_zero fuel)
  | fuel + 1, fuel' + 1, m, r, hle, h => by
      unfold Map.searchRoutes at h ⊢
      split_ifs at h ⊢ with hmore
      · cases hroute : m.getRoute dijkstra a b with
        | none => rw [hroute] at h; cases h
        | some res =>
            obtain ⟨route, m₁⟩ := res
            rw [hroute] at h
            cases route with
            | nil => exact h
            | cons r rs =>
                obtain ⟨res, hrec, he⟩ := Option.map_eq_some_iff.mp h
                simp only [searchRoutes_mono (Nat.le_of_succ_le_succ hle) hrec, Option.map_some]
                exact congrArg some he
      · exact h

theorem getRoutes_unique {fuel fuel' : ℕ} {r r' : List (List Route) × Map R n}
    (h : m.getRoutes dijkstra fuel a b = some r) (h' : m.getRoutes dijkstra fuel' a b = some r') :
    r = r' := by
  unfold Map.getRoutes at h h'
  split at h
  · rename_i e he
    rw [he] at h'
    exact Option.some.inj (h.symm.trans h')
  · rename_i hnone
    rw [hnone] at h'
    simp only at h'
    obtain hle | hle := Nat.le_total fuel fuel'
    · exact Option.some.inj ((searchRoutes_mono hle h).symm.trans h')
    · exact Option.some.inj (h.symm.trans (searchRoutes_mono hle h'))

end search

/-! ### What is restored -/

/-- The record of a road of the map. -/
theorem imported_record {table : List (DedupedData R)} {es : List (Edge n)}
    (h : List.Forall₂ Imported table es) (hn : (table.map RawData.mainid).Nodup) :
    (es.map Edge.id).Nodup ∧ ∀ e ∈ es, ∃ d ∈ table, getRoadInfo table e.id = some d ∧
      d.mainid = e.id ∧ e.type = importType d.type := by
  have hids : es.map Edge.id = table.map RawData.mainid := by
    clear hn
    induction h with
    | nil => rfl
    | cons he _ ih => rw [List.map_cons, List.map_cons, ih, he.id]
  refine ⟨hids ▸ hn, ?_⟩
  clear hids
  induction h with
  | nil => exact fun e he => absurd he List.not_mem_nil
  | @cons d e table es hde _ ih =>
      obtain ⟨hnot, hrest⟩ := List.nodup_cons.mp hn
      intro e' he'
      obtain rfl | he' := List.mem_cons.mp he'
      · exact ⟨d, List.mem_cons_self, List.find?_cons_of_pos (by simp [hde.id]), hde.id.symm,
          hde.type⟩
      · obtain ⟨d', hd', hfind, hid, htype⟩ := ih hrest e' he'
        refine ⟨d', List.mem_cons_of_mem _ hd', ?_, hid, htype⟩
        have hne : d.mainid ≠ e'.id := fun h => hnot (by
          rw [h, ← hid]
          exact List.mem_map_of_mem hd')
        unfold getRoadInfo
        rw [List.find?_cons_of_neg (by simpa using hne)]
        exact hfind

/-- A road whose record has the type it had is restored. -/
theorem restoreRoad_taken {table : List (DedupedData R)} {id : ℤ} {ids : List ℤ}
    {es es' : List (Edge n)} (h : Taken (id :: ids) es es') (hn : (es.map Edge.id).Nodup)
    (hd : ∀ e ∈ es, e.id = id → ∃ d, getRoadInfo table id = some d ∧ d.type = e.type) :
    Taken ids es (restoreRoad table id es') := by
  induction h with
  | nil => exact List.Forall₂.nil
  | @cons e e' es es' he hes ih =>
      rw [List.map_cons, List.nodup_cons] at hn
      have hid : e'.id = e.id := by rcases he with rfl | ⟨rfl, -⟩ <;> rfl
      unfold restoreRoad
      split_ifs with hc
      · have hhead : e'.retype (getRoadInfo table id) = e := by
          obtain ⟨d, hinfo, htype⟩ := hd e List.mem_cons_self (hid ▸ hc)
          rw [hinfo]
          rcases he with rfl | ⟨rfl, -⟩ <;> simp only [Edge.retype, Edge.close, htype]
        refine List.Forall₂.cons (Or.inl hhead) ?_
        -- the other roads have other ids
        have hother : ∀ e₂ ∈ es, e₂.id ≠ id := fun e₂ he₂ h₂ => hn.1 (by
          rw [← hid, hc, ← h₂]
          exact List.mem_map_of_mem he₂)
        clear ih hn hd
        induction hes with
        | nil => exact List.Forall₂.nil
        | @cons e₁ e₂ es es' he₁ _ ih =>
            refine List.Forall₂.cons (he₁.imp_right (And.imp_right (fun hm => ?_)))
              (ih (fun e h => hother e (List.mem_cons_of_mem _ h)))
            exact (List.mem_cons.mp hm).resolve_left (hother e₁ List.mem_cons_self)
      · refine List.Forall₂.cons (he.imp_right (And.imp_right (fun hm => ?_)))
          (ih hn.2 (fun e h => hd e (List.mem_cons_of_mem _ h)))
        exact (List.mem_cons.mp hm).resolve_left (fun h => hc (hid.trans h))

theorem restoreRoads_taken {table : List (DedupedData R)} {es : List (Edge n)}
    (hn : (es.map Edge.id).Nodup) : ∀ (ids : List ℤ) (es' : List (Edge n)),
    Taken ids es es' →
    (∀ id ∈ ids, ∀ e ∈ es, e.id = id → ∃ d, getRoadInfo table id = some d ∧ d.type = e.type) →
    ids.foldl (fun es id => restoreRoad table id es) es' = es
  | [], es', h, _ => by
      have heq : List.Forall₂ Eq es es' := h.imp (fun e e' he => by
        obtain rfl | ⟨-, hm⟩ := he
        · rfl
        · cases hm)
      exact (List.forall₂_eq_eq_eq ▸ heq : es = es').symm
  | id :: ids, es', h, hd =>
      restoreRoads_taken hn ids _ (restoreRoad_taken h hn (hd id List.mem_cons_self))
        (fun id' hid' => hd id' (List.mem_cons_of_mem _ hid'))

/-- A query that returns leaves the map as it is, if the map is as the table says and no road of
type 12 is the first between two junctions. -/
theorem query_keeps [Scalar R] {dijkstra : List (Edge n) → Fin n → Fin n → Fin n}
    {table : List (DedupedData R)} {m m' : Map R n} {q : Query n}
    (hm : List.Forall₂ Imported table m.edges) (hn : (table.map RawData.mainid).Nodup)
    (h12 : ∀ d ∈ table, d.type = 12 → ¬ FirstRoad m.edges d.mainid)
    (h : queryStep dijkstra table m q = some m') : m' = m := by
  obtain ⟨⟨route, m₂⟩, hopt, rfl⟩ := Option.map_eq_some_iff.mp h
  obtain ⟨⟨routes, m₁⟩, hroutes, he⟩ := Option.map_eq_some_iff.mp hopt
  cases he
  obtain ⟨es, rfl, htaken, hfirst⟩ := getRoutes_taken hroutes
  obtain ⟨hids, hrec⟩ := imported_record hm hn
  have hedges : ((routes.flatten.map Route.roadid).foldl
      (fun es id => restoreRoad table id es) es) = m.edges := by
    refine restoreRoads_taken hids _ es htaken (fun id hid e he heid => ?_)
    obtain ⟨d, hd, hinfo, hdid, htype⟩ := hrec e he
    obtain ⟨r, hr, hrid⟩ := List.mem_map.mp hid
    refine ⟨d, heid ▸ hinfo, ?_⟩
    have hne : d.type ≠ 12 := fun h => h12 d hd h (by
      rw [hdid, heid, ← hrid]
      exact hfirst r hr)
    rw [htype, importType, if_neg hne]
  simp only [Map.restoreRoutes, hedges]

/-- A search between the junctions of an open first road takes it. -/
theorem searchRoutes_uses {dijkstra : List (Edge n) → Fin n → Fin n → Fin n}
    (hs : Searches dijkstra) {a b : Fin n} {e : Edge n} (ho : e.type ≠ INT_MAX) {fuel : ℕ}
    {m m' : Map ℝ n} {routes : List (List Route)}
    (hf : m.edges.find? (fun e => e.joins a b) = some e) (hd : 0 < m.dist a b)
    (h : m.searchRoutes dijkstra a b fuel = some (routes, m')) :
    e.id ∈ routes.flatten.map Route.roadid := by
  induction fuel generalizing m routes with
  | zero => cases h
  | succ fuel ih =>
      have hlive : Live m.edges a b :=
        ⟨e, List.mem_of_find?_eq_some hf, ho, by simpa using List.find?_some hf⟩
      have hmore := moreRoute_of_live m hlive hd
      obtain ⟨hno, -⟩ | ⟨-, -, hroute⟩ | ⟨k, route, m₁, rest, hk, -, -, hroute, hrec, rfl⟩ :=
        searchRoutes_cases h
      · rw [hmore] at hno
        cases hno
      · exact absurd rfl (getRoute_ne_nil hs hlive hd hroute)
      · cases hk
        obtain ⟨es, rfl, htaken, -⟩ := getRoute_taken hroute
        rw [List.flatten_cons, List.map_append, List.mem_append]
        -- the road is open still, or it is one of the route
        obtain ⟨e', he', rfl | ⟨-, hm⟩⟩ := htaken.find hf
        · exact Or.inr (ih (m := { m with edges := es }) he' hd hrec)
        · exact Or.inl hm

theorem find_restoreRoad (table : List (DedupedData R)) (id i : ℤ) : ∀ es : List (Edge n),
    (restoreRoad table id es).find? (fun e => e.id == i) = (es.find? (fun e => e.id == i)).map
      (fun e => if id = i then e.retype (getRoadInfo table id) else e)
  | [] => rfl
  | e :: es => by
      have hid : (e.retype (getRoadInfo table id)).id = e.id := by
        unfold Edge.retype
        split <;> rfl
      by_cases hc : e.id = id
      · rw [restoreRoad, if_pos hc, List.find?_cons, List.find?_cons, hid, hc]
        cases hi : (id == i) with
        | true => rw [Option.map_some, if_pos (by simpa using hi)]
        | false =>
            have hne : ¬ id = i := by simpa using hi
            simp only [if_neg hne, Option.map_id']
      · rw [restoreRoad, if_neg hc, List.find?_cons, List.find?_cons,
          find_restoreRoad table id i es]
        cases hi : (e.id == i) with
        | true =>
            have hne : id ≠ i := fun h => hc ((by simpa using hi : e.id = i).trans h.symm)
            rw [Option.map_some, if_neg hne]
        | false => rfl

/-- A road that is restored has the type of its record. -/
theorem find_restoreRoads {table : List (DedupedData R)} {d : DedupedData R} {i : ℤ}
    (hd : getRoadInfo table i = some d) : ∀ (ids : List ℤ) (es : List (Edge n)) {e : Edge n},
    es.find? (fun e => e.id == i) = some e → i ∈ ids ∨ e.type = d.type →
    ∃ e', (ids.foldl (fun es id => restoreRoad table id es) es).find? (fun e => e.id == i) =
      some e' ∧ e'.type = d.type
  | [], _, e, hf, h => ⟨e, hf, h.resolve_left List.not_mem_nil⟩
  | id :: ids, es, e, hf, h => by
      have hf' := find_restoreRoad table id i es
      rw [hf, Option.map_some] at hf'
      refine find_restoreRoads hd ids _ hf' ?_
      split_ifs with hid
      · refine Or.inr ?_
        rw [hid, hd]
        rfl
      · obtain h | h := h
        · exact Or.inl ((List.mem_cons.mp h).resolve_left (fun h => hid h.symm))
        · exact Or.inr h

/-- A query between the junctions of a first road of type 12 gives it the type 12. -/
theorem query_spoils {dijkstra : List (Edge n) → Fin n → Fin n → Fin n} (hs : Searches dijkstra)
    {table : List (DedupedData ℝ)} {m m' : Map ℝ n} {q : Query n} {e : Edge n} {d : DedupedData ℝ}
    (hf : m.edges.find? (fun e => e.joins q.src q.dst) = some e)
    (hplace : q.src = q.dst ∨ 0 < m.dist q.src q.dst) (ho : e.type ≠ INT_MAX)
    (hd : getRoadInfo table e.id = some d) (h12 : d.type = 12)
    (h : queryStep dijkstra table m q = some m') :
    ∃ e' ∈ m'.edges, e'.id = e.id ∧ e'.type = 12 := by
  obtain ⟨⟨route, m₂⟩, hopt, rfl⟩ := Option.map_eq_some_iff.mp h
  obtain ⟨⟨routes, m₁⟩, hroutes, he⟩ := Option.map_eq_some_iff.mp hopt
  cases he
  have huses : e.id ∈ routes.flatten.map Route.roadid := by
    unfold Map.getRoutes at hroutes
    obtain hsame | hpos := hplace
    · rw [if_pos hsame, hf] at hroutes
      cases hroutes
      exact List.mem_singleton.mpr rfl
    · rw [if_neg (ne_of_dist_pos m hpos)] at hroutes
      exact searchRoutes_uses hs ho hf hpos hroutes
  obtain ⟨es, rfl, htaken, -⟩ := getRoutes_taken hroutes
  obtain ⟨e₁, he₁⟩ : ∃ e₁, es.find? (fun e' => e'.id == e.id) = some e₁ := by
    apply Option.isSome_iff_exists.mp
    obtain ⟨e', he', hc⟩ := htaken.find hf
    refine List.find?_isSome.mpr ⟨e', List.mem_of_find?_eq_some he', ?_⟩
    rcases hc with rfl | ⟨rfl, -⟩ <;> exact beq_self_eq_true _
  obtain ⟨e', he', htype⟩ := find_restoreRoads hd _ es he₁ (Or.inl huses)
  exact ⟨e', List.mem_of_find?_eq_some he', by simpa using List.find?_some he', htype.trans h12⟩

end GeoSvr.MapManager
