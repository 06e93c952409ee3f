import GeoSvr.Geometry
import GeoSvr.Dijkstra

/-! # The road map (`database_manager.cc`, `map_manager.cc`)

The rows of the database are merged into one record for each road, and the records become an
undirected graph: junctions are vertices, roads are edges.  `edges` lists the roads in the order
of the records, which is the order in which Boost's `edges` visits them; several roads may join
the same two junctions, and a road may begin and end at one junction.

`importMapData` is `none` where the code leaves the language: for a negative node id (the bitmap
is indexed with it), and for a vertex without a node (the end of `nodes_` is read). -/

namespace GeoSvr.MapManager

/-- `std::numeric_limits<int>::max()`: the type of a road that is in use, and of one that the
table closes. -/
def INT_MAX : ℤ := 2147483647

/-- `struct RawData`: a row of the database. -/
structure RawData (R : Type*) where
  mainid : ℤ
  subid : ℤ
  startx : R
  starty : R
  endx : R
  endy : R
  startid : ℤ
  endid : ℤ
  type : ℤ
  trafficFlow : ℤ

/-- `struct DedupedData` has the same fields. -/
abbrev DedupedData := RawData

/-- `struct Node`. -/
structure Node (R : Type*) where
  id : ℤ
  x : R
  y : R

/-- An edge of the graph, with its `struct Road`. -/
structure Edge (n : ℕ) where
  source : Fin n
  target : Fin n
  id : ℤ
  type : ℤ
deriving DecidableEq

/-- `struct Route`: a road of a route. -/
structure Route where
  roadid : ℤ
  startid : ℕ
  endid : ℕ
  type : ℤ
deriving DecidableEq

/-- `Map`: the vertex `v` carries the node with the id `v`. -/
structure Map (R : Type*) (n : ℕ) where
  x : Fin n → R
  y : Fin n → R
  edges : List (Edge n)

variable {R : Type*} {n : ℕ}

/-! ### The table -/

/-- `dedup_raw_data`: a row with a greater `subid` moves the end of its road. -/
def dedupRawData : List (DedupedData R) → RawData R → List (DedupedData R)
  | [], row => [row]
  | d :: ds, row =>
      if d.mainid = row.mainid then
        (if d.subid < row.subid then
          { d with subid := row.subid, endx := row.endx, endy := row.endy, endid := row.endid }
        else d) :: ds
      else d :: dedupRawData ds row

/-- `get_map_data`. -/
def getMapData (rows : List (RawData R)) : List (DedupedData R) := rows.foldl dedupRawData []

/-- `get_road_info`. -/
def getRoadInfo (table : List (DedupedData R)) (roadid : ℤ) : Option (DedupedData R) :=
  table.find? (fun d => d.mainid == roadid)

theorem mem_dedupRawData_mainid {row : RawData R} {i : ℤ} : ∀ {ds : List (DedupedData R)},
    i ∈ (dedupRawData ds row).map RawData.mainid ↔ i = row.mainid ∨ i ∈ ds.map RawData.mainid
  | [] => by simp [dedupRawData]
  | d :: ds => by
      unfold dedupRawData
      split_ifs with h hs
      · simp only [List.map_cons, List.mem_cons, h, or_self_left]
      · simp only [List.map_cons, List.mem_cons, h, or_self_left]
      · rw [List.map_cons, List.map_cons, List.mem_cons, List.mem_cons, mem_dedupRawData_mainid]
        tauto

theorem nodup_dedupRawData {row : RawData R} : ∀ {ds : List (DedupedData R)},
    (ds.map RawData.mainid).Nodup → ((dedupRawData ds row).map RawData.mainid).Nodup
  | [], _ => List.nodup_singleton _
  | d :: ds, hd => by
      obtain ⟨hnot, hrest⟩ := List.nodup_cons.mp hd
      unfold dedupRawData
      split_ifs with h hs
      · exact hd
      · exact hd
      · refine List.nodup_cons.mpr ⟨fun hm => ?_, nodup_dedupRawData hrest⟩
        exact (mem_dedupRawData_mainid.mp hm).elim h hnot

/-- One record for each road. -/
theorem nodup_getMapData (rows : List (RawData R)) :
    ((getMapData rows).map RawData.mainid).Nodup := by
  have h : ∀ (rows : List (RawData R)) (ds : List (DedupedData R)),
      (ds.map RawData.mainid).Nodup → ((rows.foldl dedupRawData ds).map RawData.mainid).Nodup := by
    intro rows
    induction rows with
    | nil => exact fun _ hd => hd
    | cons row rows ih => exact fun ds hd => ih _ (nodup_dedupRawData hd)
  exact h rows [] List.nodup_nil

/-- Each road that a row is about has a record. -/
theorem mem_getMapData_mainid {rows : List (RawData R)} {i : ℤ} :
    i ∈ (getMapData rows).map RawData.mainid ↔ i ∈ rows.map RawData.mainid := by
  have h : ∀ (rows : List (RawData R)) (ds : List (DedupedData R)),
      i ∈ (rows.foldl dedupRawData ds).map RawData.mainid ↔
        i ∈ rows.map RawData.mainid ∨ i ∈ ds.map RawData.mainid := by
    intro rows
    induction rows with
    | nil => simp
    | cons row rows ih =>
        intro ds
        rw [List.foldl_cons, ih, mem_dedupRawData_mainid, List.map_cons, List.mem_cons]
        tauto
  rw [getMapData, h]
  simp

/-! ### The graph -/

/-- The type of a road in the graph: 12 becomes 0. -/
def importType (type : ℤ) : ℤ := if type = 12 then 0 else type

/-- The first node of each id. -/
def dedupNodes : List ℤ → List (Node R) → List (Node R)
  | _, [] => []
  | seen, v :: vs =>
      if v.id ∈ seen then dedupNodes seen vs else v :: dedupNodes (v.id :: seen) vs

/-- The nodes of a record: where the road starts and where it ends. -/
def endNodes (d : DedupedData R) : List (Node R) :=
  [⟨d.startid, d.startx, d.starty⟩, ⟨d.endid, d.endx, d.endy⟩]

/-- `num_vertices` of the graph with these nodes and with edges between these ids. -/
def numVertices (nodes : List (Node R)) (ids : List ℤ) : ℕ :=
  ids.foldl (fun m i => max m (i.toNat + 1)) nodes.length

/-- The vertex with the id `id`. -/
def toVertex (n : ℕ) (id : ℤ) : Option (Fin n) :=
  if h : 0 ≤ id ∧ id.toNat < n then some ⟨id.toNat, h.2⟩ else none

/-- The edges that `import_data` makes. -/
def importEdges (n : ℕ) : List (DedupedData R) → Option (List (Edge n))
  | [] => some []
  | d :: ds =>
      match toVertex n d.startid, toVertex n d.endid, importEdges n ds with
      | some s, some t, some es => some (⟨s, t, d.mainid, importType d.type⟩ :: es)
      | _, _, _ => none

/-- `import_data` and the part of `import_map_data` that builds the graph. -/
def importMapData (table : List (DedupedData R)) : Option (Σ n, Map R n) :=
  let nodes := dedupNodes [] (table.flatMap endNodes)
  let n := numVertices nodes (table.flatMap (fun d => [d.startid, d.endid]))
  if h : ∀ v : Fin n, (nodes.find? (fun k => k.id == (v : ℤ))).isSome then
    (importEdges n table).map (fun es =>
      ⟨n, fun v => ((nodes.find? (fun k => k.id == (v : ℤ))).get (h v)).x,
        fun v => ((nodes.find? (fun k => k.id == (v : ℤ))).get (h v)).y, es⟩)
  else none

/-- The edge is the road of the record. -/
structure Imported (d : DedupedData R) (e : Edge n) : Prop where
  source : d.startid = e.source
  target : d.endid = e.target
  id : e.id = d.mainid
  type : e.type = importType d.type

theorem toVertex_some {id : ℤ} {v : Fin n} (h : toVertex n id = some v) : id = v := by
  unfold toVertex at h
  split_ifs at h with hid
  cases h
  exact (Int.toNat_of_nonneg hid.1).symm

theorem importEdges_imported : ∀ {table : List (DedupedData R)} {es : List (Edge n)},
    importEdges n table = some es → List.Forall₂ Imported table es
  | [], es, h => by
      cases h
      exact List.Forall₂.nil
  | d :: ds, es, h => by
      unfold importEdges at h
      split at h
      · rename_i s t es' hs ht hes
        cases h
        exact List.Forall₂.cons ⟨toVertex_some hs, toVertex_some ht, rfl, rfl⟩
          (importEdges_imported hes)
      · cases h

/-- Every record is one road of the graph, in the same order. -/
theorem importMapData_imported {table : List (DedupedData R)} {m : Map R n}
    (h : importMapData table = some ⟨n, m⟩) : List.Forall₂ Imported table m.edges := by
  unfold importMapData at h
  simp only at h
  split_ifs at h with hnodes
  obtain ⟨es, hes, he⟩ := Option.map_eq_some_iff.mp h
  cases he
  exact importEdges_imported hes

/-! ### Roads -/

/-- The two tests of the scans over `edges`. -/
def Edge.joins (e : Edge n) (u v : Fin n) : Bool :=
  (e.source == u && e.target == v) || (e.source == v && e.target == u)

theorem Edge.joins_iff {e : Edge n} {u v : Fin n} : e.joins u v = true ↔
    (e.source = u ∧ e.target = v) ∨ (e.source = v ∧ e.target = u) := by
  simp [Edge.joins]

theorem Edge.joins_self (e : Edge n) : e.joins e.source e.target = true :=
  Edge.joins_iff.mpr (Or.inl ⟨rfl, rfl⟩)

theorem Edge.joins_comm (e : Edge n) (u v : Fin n) : e.joins u v = e.joins v u := by
  rw [Bool.eq_iff_iff, Edge.joins_iff, Edge.joins_iff]
  tauto

/-- `get_route(int)`; where there is no such road, only `roadid` is set. -/
def Map.getRouteById (m : Map R n) (id : ℤ) : Route :=
  match m.edges.find? (fun e => e.id == id) with
  | some e => ⟨e.id, e.source, e.target, e.type⟩
  | none => ⟨-1, 0, 0, 0⟩

/-- The distance between two junctions. -/
def Map.dist [Scalar R] (m : Map R n) (u v : Fin n) : R :=
  Scalar.distance (m.x u) (m.y u) (m.x v) (m.y v)

end GeoSvr.MapManager
