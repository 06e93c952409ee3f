import GeoSvr.RoadMap
import GeoSvr.Upsert

/-! # The order of the rows

`get_map_data` takes the rows as the database returns them, in any order.  `dedup_raw_data` merges
them by `mainid`: the record of a road is the first row of the road, and each later row with a
greater `subid` moves its end (`record_getMapData`).  The end is that of the row with the greatest
`subid` in any order; the start is that of the row which came first. -/

namespace GeoSvr.MapManager

variable {R : Type*}

/-- What a later row of its road does to a record. -/
def extend (d : DedupedData R) (row : RawData R) : DedupedData R :=
  if d.subid < row.subid then
    { d with subid := row.subid, endx := row.endx, endy := row.endy, endid := row.endid }
  else d

theorem extend_mainid (d : DedupedData R) (row : RawData R) : (extend d row).mainid = d.mainid := by
  unfold extend
  split_ifs <;> rfl

theorem dedupRawData_eq : ∀ (ds : List (DedupedData R)) (row : RawData R),
    dedupRawData ds row = Upsert.upsert RawData.mainid extend ds row
  | [], _ => rfl
  | d :: ds, row => by
      unfold dedupRawData Upsert.upsert
      rw [dedupRawData_eq ds row]
      rfl

theorem getMapData_eq (rows : List (RawData R)) :
    getMapData rows = Upsert.merge RawData.mainid extend rows := by
  have h : @dedupRawData R = Upsert.upsert RawData.mainid extend :=
    funext fun ds => funext fun row => dedupRawData_eq ds row
  rw [getMapData, h]
  rfl

/-- The rows of a road, in their order. -/
def rowsOf (rows : List (RawData R)) (i : ℤ) : List (RawData R) :=
  rows.filter (fun row => row.mainid = i)

theorem mem_rowsOf {rows : List (RawData R)} {i : ℤ} {row : RawData R} :
    row ∈ rowsOf rows i ↔ row ∈ rows ∧ row.mainid = i := by
  simp [rowsOf]

/-- The record of a road, from the rows of the road. -/
theorem record_getMapData (rows : List (RawData R)) (i : ℤ) :
    Upsert.record RawData.mainid (getMapData rows) i =
      (rowsOf rows i).head?.map (fun row => (rowsOf rows i).tail.foldl extend row) := by
  rw [getMapData_eq]
  exact Upsert.record_merge extend_mainid rows i

/-- The record and the row agree about where the road starts. -/
def SameStart (d row : RawData R) : Prop :=
  d.startx = row.startx ∧ d.starty = row.starty ∧ d.startid = row.startid

def SameEnd (d row : RawData R) : Prop :=
  d.endx = row.endx ∧ d.endy = row.endy ∧ d.endid = row.endid

theorem foldl_extend_start : ∀ (rows : List (RawData R)) (d : DedupedData R),
    SameStart (rows.foldl extend d) d
  | [], _ => ⟨rfl, rfl, rfl⟩
  | row :: rows, d => by
      obtain ⟨hx, hy, hi⟩ := foldl_extend_start rows (extend d row)
      have h : SameStart (extend d row) d := by
        unfold extend
        split_ifs <;> exact ⟨rfl, rfl, rfl⟩
      exact ⟨hx.trans h.1, hy.trans h.2.1, hi.trans h.2.2⟩

/-- Induction on the rows: the record has the end of a row with the greatest `subid` so far. -/
theorem foldl_extend_end : ∀ (rows : List (RawData R)) (d row : RawData R),
    d.subid = row.subid → SameEnd d row →
    ∃ m ∈ row :: rows, (∀ r ∈ row :: rows, r.subid ≤ m.subid) ∧
      SameEnd (rows.foldl extend d) m
  | [], d, row, hs, he => ⟨row, List.mem_cons_self, by simp, he⟩
  | r :: rows, d, row, hs, he => by
      by_cases hlt : d.subid < r.subid
      · have hext : (extend d r).subid = r.subid ∧ SameEnd (extend d r) r := by
          rw [extend, if_pos hlt]
          exact ⟨rfl, rfl, rfl, rfl⟩
        obtain ⟨m, hm, hmax, hend⟩ := foldl_extend_end rows (extend d r) r hext.1 hext.2
        refine ⟨m, List.mem_cons_of_mem _ hm, fun x hx => ?_, hend⟩
        obtain rfl | hx := List.mem_cons.mp hx
        · have := hmax r List.mem_cons_self
          omega
        · exact hmax x hx
      · have hext : extend d r = d := if_neg hlt
        obtain ⟨m, hm, hmax, hend⟩ := foldl_extend_end rows d row hs he
        rw [List.foldl_cons, hext]
        refine ⟨m, ?_, fun x hx => ?_, hend⟩
        · obtain rfl | hm := List.mem_cons.mp hm
          · exact List.mem_cons_self
          · exact List.mem_cons_of_mem _ (List.mem_cons_of_mem _ hm)
        · have hrow := hmax row List.mem_cons_self
          obtain rfl | hx := List.mem_cons.mp hx
          · exact hrow
          · obtain rfl | hx := List.mem_cons.mp hx
            · omega
            · exact hmax x (List.mem_cons_of_mem _ hx)

/-! ### The record of a road -/

/-- The row with the smallest `subid` of its road. -/
def IsFirst (rows : List (RawData R)) (row : RawData R) : Prop :=
  row ∈ rows ∧ ∀ r ∈ rows, r.mainid = row.mainid → row.subid ≤ r.subid

/-- The row with the greatest `subid` of its road. -/
def IsLast (rows : List (RawData R)) (row : RawData R) : Prop :=
  row ∈ rows ∧ ∀ r ∈ rows, r.mainid = row.mainid → r.subid ≤ row.subid

/-- The record goes from the start of the first row of its road to the end of the last. -/
structure Spans (rows : List (RawData R)) (d : DedupedData R) : Prop where
  start : ∀ row, IsFirst rows row → row.mainid = d.mainid → SameStart d row
  finish : ∀ row, IsLast rows row → row.mainid = d.mainid → SameEnd d row

/-- There is one record for each road, and it spans the road. -/
structure Deduped (rows : List (RawData R)) : Prop where
  nodup : ((getMapData rows).map RawData.mainid).Nodup
  mem : ∀ i, i ∈ (getMapData rows).map RawData.mainid ↔ i ∈ rows.map RawData.mainid
  spans : ∀ d ∈ getMapData rows, Spans rows d

/-- A record, from the rows of its road: the first of them, and one with the greatest `subid`. -/
theorem mem_getMapData {rows : List (RawData R)} {d : DedupedData R} (hd : d ∈ getMapData rows) :
    ∃ row rest, rowsOf rows d.mainid = row :: rest ∧ SameStart d row ∧
      ∃ m ∈ rowsOf rows d.mainid, (∀ r ∈ rowsOf rows d.mainid, r.subid ≤ m.subid) ∧
        SameEnd d m := by
  have hrec : Upsert.record RawData.mainid (getMapData rows) d.mainid = some d :=
    Upsert.record_of_mem (nodup_getMapData rows) hd
  rw [record_getMapData] at hrec
  cases hrows : rowsOf rows d.mainid with
  | nil =>
      rw [hrows] at hrec
      cases hrec
  | cons row rest =>
      rw [hrows] at hrec
      cases hrec
      obtain ⟨m, hm, hmax, hend⟩ := foldl_extend_end rest row row rfl ⟨rfl, rfl, rfl⟩
      exact ⟨row, rest, rfl, foldl_extend_start rest row, m, hm, hmax, hend⟩

/-- The row that comes first of its road starts where the row with the smallest `subid` does. -/
def FirstComesFirst (rows : List (RawData R)) : Prop :=
  ∀ i row m, (rowsOf rows i).head? = some row → IsFirst rows m → m.mainid = i → SameStart row m

/-- **Merging rows in any order.**  In a table in which the rows of a road have different
`subid`s, there is one record for each road, which goes from the start of its first row to the
end of its last, exactly if of each road a row comes first that starts where the first one does. -/
theorem deduped_iff {rows : List (RawData R)}
    (hn : (rows.map (fun row => (row.mainid, row.subid))).Nodup) :
    Deduped rows ↔ FirstComesFirst rows := by
  have hspan : ∀ d ∈ getMapData rows, ∀ row, IsLast rows row → row.mainid = d.mainid →
      SameEnd d row := by
    intro d hd row hrow hid
    obtain ⟨-, -, -, -, m, hm, hmax, hend⟩ := mem_getMapData hd
    have hsub : row.subid = m.subid := by
      have h₁ := hrow.2 m (mem_rowsOf.mp hm).1 ((mem_rowsOf.mp hm).2.trans hid.symm)
      have h₂ := hmax row (mem_rowsOf.mpr ⟨hrow.1, hid⟩)
      omega
    have hrm : row = m := List.inj_on_of_nodup_map hn hrow.1 (mem_rowsOf.mp hm).1
      (Prod.ext (hid.trans (mem_rowsOf.mp hm).2.symm) hsub)
    rw [hrm]
    exact hend
  constructor
  · intro h i row m hhead hm hid
    have hrec : Upsert.record RawData.mainid (getMapData rows) i =
        some ((rowsOf rows i).tail.foldl extend row) := by
      rw [record_getMapData, hhead]
      rfl
    obtain ⟨hd, hdi⟩ := Upsert.mem_of_record hrec
    obtain ⟨hx, hy, hi⟩ := (h.spans _ hd).start m hm (hid.trans hdi.symm)
    obtain ⟨hx', hy', hi'⟩ := foldl_extend_start (rowsOf rows i).tail row
    exact ⟨hx'.symm.trans hx, hy'.symm.trans hy, hi'.symm.trans hi⟩
  · intro h
    refine ⟨nodup_getMapData rows, fun _ => mem_getMapData_mainid, fun d hd => ⟨?_, hspan d hd⟩⟩
    intro m hm hid
    obtain ⟨row, rest, hrows, ⟨hx, hy, hi⟩, -⟩ := mem_getMapData hd
    obtain ⟨hx', hy', hi'⟩ := h d.mainid row m (by rw [hrows]; rfl) hm hid
    exact ⟨hx.trans hx', hy.trans hy', hi.trans hi'⟩

/-- The two rows of a road, the first one at the origin. -/
def firstPiece : RawData ℤ := ⟨7, 1, 0, 0, 1, 0, 0, 1, 20, 0⟩

def secondPiece : RawData ℤ := ⟨7, 2, 1, 0, 2, 0, 1, 2, 20, 0⟩

theorem deduped_iff_sample : Deduped [firstPiece, secondPiece] := by
  refine (deduped_iff (by decide)).mpr ?_
  intro i row m hhead hm hid
  obtain rfl | hm' := List.mem_cons.mp hm.1
  · cases hid
    cases hhead
    exact ⟨rfl, rfl, rfl⟩
  · obtain rfl := List.mem_singleton.mp hm'
    exact absurd (hm.2 firstPiece List.mem_cons_self rfl) (by decide)

/-- The second row comes first. -/
theorem not_deduped : ¬ Deduped [secondPiece, firstPiece] := by
  intro h
  have hfirst : IsFirst [secondPiece, firstPiece] firstPiece := by
    refine ⟨by simp, ?_⟩
    simp [firstPiece, secondPiece]
  obtain ⟨hx, -, -⟩ := (h.spans _ List.mem_cons_self).start firstPiece hfirst rfl
  cases hx

end GeoSvr.MapManager
