import GeoSvr.RoadMap

/-! # Node ids as vertices

`import_data` lists the ends of the roads and drops repeated ids, and Boost grows the graph to the
greatest id that an edge uses.  So there is a vertex for each number up to the greatest id, and
`import_map_data` looks for its node: the search ends exactly if each number below an id is an id
too (`constructs_iff`).

The bitmap of `import_data` has `max + 1` entries, which is no `int` for the greatest `int`. -/

namespace GeoSvr.MapManager

variable {R : Type*} {n : ℕ}

/-- The ids of the ends of the roads, as they are listed. -/
def nodeIds (table : List (DedupedData R)) : List ℤ :=
  table.flatMap (fun d => [d.startid, d.endid])

theorem map_id_endNodes (table : List (DedupedData R)) :
    (table.flatMap endNodes).map Node.id = nodeIds table := by
  rw [nodeIds, List.map_flatMap]
  rfl

/-- The length of the bitmap. -/
def bitmapLength (table : List (DedupedData R)) : ℤ := (nodeIds table).foldl max 0 + 1

/-! ### Repeated ids -/

theorem find?_dedupNodes (id : ℤ) : ∀ (seen : List ℤ) (vs : List (Node R)), id ∉ seen →
    (dedupNodes seen vs).find? (fun k => k.id == id) = vs.find? (fun k => k.id == id)
  | _, [], _ => rfl
  | seen, v :: vs, h => by
      unfold dedupNodes
      split_ifs with hs
      · have hv : v.id ≠ id := fun he => h (he ▸ hs)
        rw [find?_dedupNodes id seen vs h, List.find?_cons_of_neg (by simpa using hv)]
      · by_cases hv : v.id = id
        · rw [List.find?_cons_of_pos (by simpa using hv),
            List.find?_cons_of_pos (by simpa using hv)]
        · rw [List.find?_cons_of_neg (by simpa using hv),
            List.find?_cons_of_neg (by simpa using hv), find?_dedupNodes id _ vs]
          rw [List.mem_cons, not_or]
          exact ⟨Ne.symm hv, h⟩

theorem dedupNodes_ids : ∀ (seen : List ℤ) (vs : List (Node R)),
    ((dedupNodes seen vs).map Node.id).Nodup ∧
      ∀ i ∈ (dedupNodes seen vs).map Node.id, i ∉ seen ∧ i ∈ vs.map Node.id
  | _, [] => ⟨List.nodup_nil, fun i hi => absurd hi List.not_mem_nil⟩
  | seen, v :: vs => by
      unfold dedupNodes
      split_ifs with hs
      · obtain ⟨hn, hmem⟩ := dedupNodes_ids seen vs
        exact ⟨hn, fun i hi => ⟨(hmem i hi).1, List.mem_cons_of_mem _ (hmem i hi).2⟩⟩
      · obtain ⟨hn, hmem⟩ := dedupNodes_ids (v.id :: seen) vs
        refine ⟨List.nodup_cons.mpr ⟨fun hv => (hmem v.id hv).1 List.mem_cons_self, hn⟩, ?_⟩
        intro i hi
        obtain rfl | hi := List.mem_cons.mp hi
        · exact ⟨hs, List.mem_cons_self⟩
        · exact ⟨fun h => (hmem i hi).1 (List.mem_cons_of_mem _ h),
            List.mem_cons_of_mem _ (hmem i hi).2⟩

/-- Different ids below `k` are at most `k`. -/
theorem length_dedupNodes_le {vs : List (Node R)} {k : ℕ}
    (h : ∀ i ∈ vs.map Node.id, 0 ≤ i ∧ i < k) : (dedupNodes [] vs).length ≤ k := by
  obtain ⟨hn, hmem⟩ := dedupNodes_ids [] vs
  have hlt : ∀ i ∈ (dedupNodes [] vs).map Node.id, 0 ≤ i ∧ i < k := fun i hi => h i (hmem i hi).2
  have hnat : (((dedupNodes [] vs).map Node.id).map Int.toNat).Nodup := by
    refine hn.map_on (fun i hi j hj he => ?_)
    have := hlt i hi
    have := hlt j hj
    omega
  have hsub : ((dedupNodes [] vs).map Node.id).map Int.toNat ⊆ List.range k := by
    intro j hj
    obtain ⟨i, hi, rfl⟩ := List.mem_map.mp hj
    have := hlt i hi
    exact List.mem_range.mpr (by omega)
  have hlen := (hnat.subperm hsub).length_le
  simpa using hlen

/-! ### The vertices -/

theorem foldl_vertices_le_iff (k : ℕ) : ∀ (ids : List ℤ) (m : ℕ),
    ids.foldl (fun m i => max m (i.toNat + 1)) m ≤ k ↔ m ≤ k ∧ ∀ i ∈ ids, i.toNat + 1 ≤ k
  | [], m => by simp
  | i :: ids, m => by
      rw [List.foldl_cons, foldl_vertices_le_iff k ids, List.forall_mem_cons, max_le_iff, and_assoc]

theorem lt_numVertices {nodes : List (Node R)} {ids : List ℤ} {i : ℤ} (hi : i ∈ ids) :
    i.toNat < numVertices nodes ids :=
  ((foldl_vertices_le_iff _ ids _).mp (le_refl _)).2 i hi

/-- Every number below an id is an id. -/
def NoGaps (ids : List ℤ) : Prop := ∀ id ∈ ids, ∀ i, 0 ≤ i → i < id → i ∈ ids

/-- Without gaps, every vertex has its id in the list. -/
theorem vertex_mem_ids {table : List (DedupedData R)} (h0 : ∀ i ∈ nodeIds table, 0 ≤ i)
    (hgaps : NoGaps (nodeIds table)) {v : ℕ}
    (hv : v < numVertices (dedupNodes [] (table.flatMap endNodes)) (nodeIds table)) :
    (v : ℤ) ∈ nodeIds table := by
  by_contra hnot
  -- all ids are below `v`, so there are at most `v` of them
  have hbelow : ∀ i ∈ nodeIds table, 0 ≤ i ∧ i < (v : ℤ) := by
    intro i hi
    refine ⟨h0 i hi, ?_⟩
    obtain hlt | heq | hgt := lt_trichotomy i (v : ℤ)
    · exact hlt
    · exact absurd (heq ▸ hi) hnot
    · exact absurd (hgaps i hi v (Int.natCast_nonneg v) hgt) hnot
  have hle : numVertices (dedupNodes [] (table.flatMap endNodes)) (nodeIds table) ≤ v := by
    refine (foldl_vertices_le_iff v _ _).mpr ⟨?_, fun i hi => ?_⟩
    · refine length_dedupNodes_le (fun i hi => ?_)
      rw [map_id_endNodes] at hi
      exact hbelow i hi
    · have := hbelow i hi
      omega
  omega

/-! ### The graph -/

/-- The node of a vertex, if the search ends. -/
def nodeOf (table : List (DedupedData R)) (v : ℕ) : Option (Node R) :=
  (table.flatMap endNodes).find? (fun k => k.id == (v : ℤ))

theorem nodeOf_eq (table : List (DedupedData R)) (v : ℕ) :
    (dedupNodes [] (table.flatMap endNodes)).find? (fun k => k.id == (v : ℤ)) =
      nodeOf table v := find?_dedupNodes _ _ _ List.not_mem_nil

theorem nodeOf_isSome {table : List (DedupedData R)} {v : ℕ} :
    (nodeOf table v).isSome ↔ (v : ℤ) ∈ nodeIds table := by
  rw [nodeOf, List.find?_isSome, ← map_id_endNodes, List.mem_map]
  simp only [beq_iff_eq]

theorem toVertex_of_lt {id : ℤ} (h0 : 0 ≤ id) (hn : id.toNat < n) :
    toVertex n id = some ⟨id.toNat, hn⟩ := dif_pos ⟨h0, hn⟩

theorem importEdges_isSome : ∀ {table : List (DedupedData R)},
    (∀ i ∈ nodeIds table, 0 ≤ i ∧ i.toNat < n) → (importEdges n table).isSome
  | [], _ => rfl
  | d :: ds, h => by
      obtain ⟨hs, ht, hrest⟩ : (0 ≤ d.startid ∧ d.startid.toNat < n) ∧
          (0 ≤ d.endid ∧ d.endid.toNat < n) ∧ ∀ i ∈ nodeIds ds, 0 ≤ i ∧ i.toNat < n := by
        simpa [nodeIds] using h
      obtain ⟨es, hes⟩ := Option.isSome_iff_exists.mp (importEdges_isSome hrest)
      rw [importEdges, toVertex_of_lt hs.1 hs.2, toVertex_of_lt ht.1 ht.2, hes]
      rfl

/-- The vertices carry the first of the nodes with their id, and each record is one edge. -/
structure Built (table : List (DedupedData R)) (m : Map R n) : Prop where
  vertex : ∀ v : Fin n, ∃ k, nodeOf table v = some k ∧ m.x v = k.x ∧ m.y v = k.y
  edges : List.Forall₂ Imported table m.edges

theorem importMapData_built {table : List (DedupedData R)} {m : Map R n}
    (h : importMapData table = some ⟨n, m⟩) : Built table m := by
  refine ⟨fun v => ?_, importMapData_imported h⟩
  unfold importMapData at h
  simp only [nodeOf_eq] at h
  split_ifs at h with hnodes
  obtain ⟨es, hes, he⟩ := Option.map_eq_some_iff.mp h
  cases he
  exact ⟨_, (Option.some_get (hnodes v)).symm, rfl, rfl⟩

/-- The graph can be built exactly if no id is missing. -/
theorem importMapData_iff {table : List (DedupedData R)} (h0 : ∀ i ∈ nodeIds table, 0 ≤ i) :
    (∃ n, ∃ m : Map R n, importMapData table = some ⟨n, m⟩) ↔ NoGaps (nodeIds table) := by
  constructor
  · rintro ⟨n, m, h⟩ id hid i hi hlt
    unfold importMapData at h
    simp only [nodeOf_eq] at h
    split_ifs at h with hnodes
    have hv : i.toNat < numVertices (dedupNodes [] (table.flatMap endNodes)) (nodeIds table) :=
      lt_of_le_of_lt (by omega) (lt_numVertices hid)
    have hmem := nodeOf_isSome.mp (hnodes ⟨i.toNat, hv⟩)
    rwa [Int.toNat_of_nonneg hi] at hmem
  · intro hgaps
    have hedges : (importEdges (numVertices (dedupNodes [] (table.flatMap endNodes))
        (table.flatMap (fun d => [d.startid, d.endid]))) table).isSome :=
      importEdges_isSome (fun i hi => ⟨h0 i hi, lt_numVertices hi⟩)
    obtain ⟨es, hes⟩ := Option.isSome_iff_exists.mp hedges
    unfold importMapData
    simp only [nodeOf_eq]
    rw [dif_pos (fun v => nodeOf_isSome.mpr (vertex_mem_ids h0 hgaps v.2))]
    rw [hes]
    exact ⟨_, _, rfl⟩

theorem bitmapLength_le_iff (table : List (DedupedData R)) :
    bitmapLength table ≤ INT_MAX ↔ ∀ i ∈ nodeIds table, i < INT_MAX := by
  have h : ∀ (ids : List ℤ) (m : ℤ), ids.foldl max m + 1 ≤ INT_MAX ↔
      m + 1 ≤ INT_MAX ∧ ∀ i ∈ ids, i < INT_MAX := by
    intro ids
    induction ids with
    | nil => simp
    | cons i ids ih =>
        intro m
        have hmax : max m i + 1 ≤ INT_MAX ↔ m + 1 ≤ INT_MAX ∧ i < INT_MAX := by omega
        rw [List.foldl_cons, ih, List.forall_mem_cons, hmax, and_assoc]
  rw [bitmapLength, h]
  exact and_iff_right (by decide)

/-- The bitmap can be allocated, the search for a node ends for each vertex, and the graph is the
one of the table. -/
def Constructs (table : List (DedupedData R)) : Prop :=
  bitmapLength table ≤ INT_MAX ∧ ∃ n, ∃ m : Map R n, importMapData table = some ⟨n, m⟩ ∧
    Built table m

/-- **The construction of the graph.** -/
theorem constructs_iff {table : List (DedupedData R)} (h0 : ∀ i ∈ nodeIds table, 0 ≤ i) :
    Constructs table ↔ (∀ i ∈ nodeIds table, i < INT_MAX) ∧ NoGaps (nodeIds table) := by
  rw [Constructs, bitmapLength_le_iff, ← importMapData_iff h0]
  constructor
  · rintro ⟨hmax, n, m, h, -⟩
    exact ⟨hmax, n, m, h⟩
  · rintro ⟨hmax, n, m, h⟩
    exact ⟨hmax, n, m, h, importMapData_built h⟩

/-- A road between the junctions 0 and 1. -/
def sampleRoad : DedupedData ℤ := ⟨7, 1, 0, 0, 5, 0, 0, 1, 12, 0⟩

theorem constructs_iff_sample : Constructs [sampleRoad] :=
  (constructs_iff (by decide)).mpr ⟨by decide, by
    intro id hid i h0 hlt
    simp [nodeIds, sampleRoad] at hid ⊢
    omega⟩

/-- A road between the junctions 0 and 2. -/
theorem not_constructs : ¬ Constructs [({ sampleRoad with endid := 2 } : DedupedData ℤ)] := by
  rintro ⟨-, n, m, h, -⟩
  have hnone : (importMapData [({ sampleRoad with endid := 2 } : DedupedData ℤ)]).isNone := by
    decide
  rw [h] at hnone
  cases hnone

end GeoSvr.MapManager
