import GeoSvr.RouteRestore

/-! # From positions to junctions (`map_manager.cc`)

`on_road` matches a position to the nearest row of the database; where that road carries traffic
in one direction only and the position moves against it, another road is looked for.  `get_rect`
turns the two roads into two junctions: the ends of the road if it is the same one, and otherwise
of each road the end that is nearer to the position.

The junctions that `get_rect` chooses are junctions of the map (`getRect_vertices`).  `abs` of a
`double` is taken to be the overload for `double`. -/

namespace GeoSvr

/-- What the map uses of `double` beside `Scalar`. -/
class Matching (R : Type*) extends Scalar R where
  mapMatching : R → R → R → R → R → R → R
  angle : R → R → R → R → R

noncomputable instance : Matching ℝ where
  mapMatching := Sphere.mapMatching
  angle := Sphere.angle

namespace MapManager

/-- Where a vehicle is, and where it moves to. -/
structure Position (R : Type*) where
  x : R
  y : R
  track : R

variable {R : Type*} [Matching R] {n : ℕ}

/-! ### `on_road` -/

/-- The loops of `on_road`: the first of the nearest rows that will do, and its distance. -/
def nearestRow (rows : List (RawData R)) (lat lon : R) (ok : RawData R → Bool) :
    Option (RawData R) × R :=
  rows.foldl (fun best row =>
    let dist := Matching.mapMatching lat lon row.startx row.starty row.endx row.endy
    if Scalar.lt dist best.2 && ok row then (some row, dist) else best)
    (none, Scalar.ofNat 10000)

/-- `line_angle`; the second `endx` is the source's. -/
def lineAngle (row : RawData R) : R :=
  let lineAngle := Matching.angle row.startx row.starty row.endx row.endx
  if Scalar.lt lineAngle (Scalar.ofNat 0) then Scalar.ofNat 0 - lineAngle else lineAngle

/-- `track_abs`. -/
def trackAbs (track : R) : R :=
  if Scalar.lt (Scalar.ofNat 180) track && Scalar.lt track (Scalar.ofNat 360) then
    Scalar.abs (track - Scalar.ofNat 360)
  else track

/-- The two returns of `on_road`: the road of the row, if that is near enough. -/
def matched : Option (RawData R) × R → Option ℤ
  | (some road, min) => if Scalar.lt min (Scalar.ofNat 100) then some road.mainid else none
  | (none, _) => none

/-- The part of `on_road` that finds another road than the nearest. -/
def anotherRoad (rows : List (RawData R)) (lat lon track : R) (road : RawData R) : Option ℤ :=
  if road.trafficFlow == 1 &&
      Scalar.lt (Scalar.ofNat 90) (Scalar.abs (trackAbs track - lineAngle road)) then
    matched (nearestRow rows lat lon (fun row => row.mainid != road.mainid &&
      Scalar.lt (Scalar.abs (lineAngle row - trackAbs track)) (Scalar.ofNat 90)))
  else none

/-- `on_road`; -1 if there is no road. -/
def onRoad (rows : List (RawData R)) (lat lon track : R) : ℤ :=
  let nearest := nearestRow rows lat lon (fun _ => true)
  match nearest.1.bind (anotherRoad rows lat lon track) with
  | some id => id
  | none => (matched nearest).getD (-1)

/-- The road of a position. -/
def Position.road (rows : List (RawData R)) (p : Position R) : ℤ := onRoad rows p.y p.x p.track

theorem nearestRow_mem {rows : List (RawData R)} {lat lon : R} {ok : RawData R → Bool}
    {row : RawData R} (h : (nearestRow rows lat lon ok).1 = some row) : row ∈ rows := by
  have hfold : ∀ (rest : List (RawData R)) (best : Option (RawData R) × R),
      (∀ r, best.1 = some r → r ∈ rows) → rest ⊆ rows →
      ∀ r, (rest.foldl (fun best row =>
        let dist := Matching.mapMatching lat lon row.startx row.starty row.endx row.endy
        if Scalar.lt dist best.2 && ok row then (some row, dist) else best) best).1 = some r →
        r ∈ rows := by
    intro rest
    induction rest with
    | nil => exact fun best hbest _ => hbest
    | cons row rest ih =>
        intro best hbest hsub
        apply ih
        · intro r hr
          simp only at hr
          split_ifs at hr with hlt
          · cases hr
            exact hsub List.mem_cons_self
          · exact hbest r hr
        · exact fun r hr => hsub (List.mem_cons_of_mem _ hr)
  exact hfold rows _ (fun r hr => by cases hr) (fun r hr => hr) row h

theorem matched_nearestRow {rows : List (RawData R)} {lat lon : R} {ok : RawData R → Bool}
    {id : ℤ} (h : matched (nearestRow rows lat lon ok) = some id) :
    id ∈ rows.map RawData.mainid := by
  cases hrow : nearestRow rows lat lon ok with
  | mk road min =>
      rw [hrow] at h
      cases road with
      | none => cases h
      | some road =>
          simp only [matched] at h
          split_ifs at h with hlt
          cases h
          exact List.mem_map_of_mem (nearestRow_mem (congrArg Prod.fst hrow))

/-- A position is matched to a road of the database. -/
theorem onRoad_mem {rows : List (RawData R)} {lat lon track : R}
    (h : onRoad rows lat lon track ≠ -1) : onRoad rows lat lon track ∈ rows.map RawData.mainid := by
  unfold onRoad at h ⊢
  simp only at h ⊢
  split at h
  · rename_i id hid
    obtain ⟨road, -, hanother⟩ := Option.bind_eq_some_iff.mp hid
    unfold anotherRoad at hanother
    split_ifs at hanother
    exact matched_nearestRow hanother
  · cases hm : matched (nearestRow rows lat lon (fun _ => true)) with
    | none =>
        rw [hm] at h
        exact absurd rfl h
    | some id => exact matched_nearestRow hm

/-! ### `get_rect` -/

/-- The end of the road that is nearer to the position.  The test is `len1 <= len2`. -/
def nearerEnd (p : Position R) (d : DedupedData R) : ℤ :=
  let len1 : R := Scalar.distance p.x p.y d.startx d.starty
  let len2 : R := Scalar.distance p.x p.y d.endx d.endy
  if Scalar.lt len2 len1 then d.endid else d.startid

/-- The body of the second loop of `get_rect`. -/
def rectStep (roadSrc roadDst : ℤ) (p q : Position R) (rect : ℤ × ℤ) (d : DedupedData R) : ℤ × ℤ :=
  if d.mainid = roadSrc then (nearerEnd p d, rect.2)
  else if d.mainid = roadDst then (rect.1, nearerEnd q d)
  else rect

/-- `get_rect`. -/
def getRect (rows : List (RawData R)) (p q : Position R) : ℤ × ℤ :=
  let roadSrc := p.road rows
  let roadDst := q.road rows
  if roadSrc = -1 ∨ roadDst = -1 then (-1, -1)
  else
    match (if roadSrc = roadDst then getRoadInfo (getMapData rows) roadSrc else none) with
    | some d => (d.startid, d.endid)
    | none => (getMapData rows).foldl (rectStep roadSrc roadDst p q) (-1, -1)

/-- `get_optimal_route`.  `none` if the search has not ended after `fuel` iterations, and for
junctions that the map does not have. -/
def Map.getOptimalRouteAt (dijkstra : List (Edge n) → Fin n → Fin n → Fin n)
    (rows : List (RawData R)) (fuel : ℕ) (m : Map R n) (p q : Position R) :
    Option (List Route × Map R n) :=
  let rect := getRect rows p q
  if rect.1 = -1 ∨ rect.2 = -1 then some ([], m)
  else
    match toVertex n rect.1, toVertex n rect.2 with
    | some a, some b => m.getOptimalRoute dijkstra (getMapData rows) fuel a b
    | _, _ => none

omit [Matching R] in
theorem getRoadInfo_of_mem {table : List (DedupedData R)} {i : ℤ}
    (h : i ∈ table.map RawData.mainid) : ∃ d ∈ table, getRoadInfo table i = some d ∧
      d.mainid = i := by
  obtain ⟨d, hd, hi⟩ := List.mem_map.mp h
  cases hf : getRoadInfo table i with
  | none => exact absurd hi (by simpa using List.find?_eq_none.mp hf d hd)
  | some d' => exact ⟨d', List.mem_of_find?_eq_some hf, rfl, by simpa using List.find?_some hf⟩

/-- The record of a road that a position is matched to. -/
theorem Position.record {rows : List (RawData R)} {p : Position R} (h : p.road rows ≠ -1) :
    ∃ d ∈ getMapData rows, getRoadInfo (getMapData rows) (p.road rows) = some d ∧
      d.mainid = p.road rows :=
  getRoadInfo_of_mem (mem_getMapData_mainid.mpr (onRoad_mem h))

omit [Matching R] in
theorem getRoadInfo_cons (d : DedupedData R) (ds : List (DedupedData R)) (i : ℤ) :
    getRoadInfo (d :: ds) i = if d.mainid = i then some d else getRoadInfo ds i := by
  unfold getRoadInfo
  by_cases h : d.mainid = i <;> simp [h]

/-- Induction on the table: each road has one record, and that one sets its end. -/
theorem foldl_rectStep {roadSrc roadDst : ℤ} {p q : Position R} (hne : roadSrc ≠ roadDst) :
    ∀ {table : List (DedupedData R)} (rect : ℤ × ℤ), (table.map RawData.mainid).Nodup →
    table.foldl (rectStep roadSrc roadDst p q) rect =
      (((getRoadInfo table roadSrc).map (nearerEnd p)).getD rect.1,
        ((getRoadInfo table roadDst).map (nearerEnd q)).getD rect.2)
  | [], _, _ => rfl
  | d :: ds, rect, hn => by
      obtain ⟨hnot, hrest⟩ := List.nodup_cons.mp hn
      have hother : getRoadInfo ds d.mainid = none := by
        cases hinfo : getRoadInfo ds d.mainid with
        | none => rfl
        | some d' =>
            have hid : d'.mainid = d.mainid := by simpa using List.find?_some hinfo
            exact absurd (hid ▸ List.mem_map_of_mem (List.mem_of_find?_eq_some hinfo)) hnot
      rw [List.foldl_cons, foldl_rectStep hne _ hrest, getRoadInfo_cons, getRoadInfo_cons]
      unfold rectStep
      by_cases hs : d.mainid = roadSrc
      · have hd : d.mainid ≠ roadDst := fun h => hne (hs.symm.trans h)
        rw [if_pos hs, if_pos hs, if_neg hd, ← hs, hother]
        rfl
      · by_cases hd : d.mainid = roadDst
        · rw [if_neg hs, if_pos hd, if_neg hs, if_pos hd, ← hd, hother]
          rfl
        · rw [if_neg hs, if_neg hd, if_neg hs, if_neg hd]

/-- The junctions of two roads: both ends of one road, or an end of each. -/
theorem getRect_eq {rows : List (RawData R)} {p q : Position R} (hp : p.road rows ≠ -1)
    (hq : q.road rows ≠ -1) : ∃ d ∈ getMapData rows, ∃ d' ∈ getMapData rows,
      d.mainid = p.road rows ∧ d'.mainid = q.road rows ∧
      getRect rows p q = if d.mainid = d'.mainid then (d.startid, d.endid)
        else (nearerEnd p d, nearerEnd q d') := by
  obtain ⟨d, hd, hinfo, hid⟩ := p.record hp
  obtain ⟨d', hd', hinfo', hid'⟩ := q.record hq
  refine ⟨d, hd, d', hd', hid, hid', ?_⟩
  simp only [getRect]
  rw [if_neg (not_or.mpr ⟨hp, hq⟩), hid, hid']
  by_cases hsame : p.road rows = q.road rows
  · rw [if_pos hsame, if_pos hsame, hinfo]
  · rw [if_neg hsame, if_neg hsame]
    simp only [foldl_rectStep hsame _ (nodup_getMapData rows), hinfo, hinfo', Option.map_some,
      Option.getD_some]

/-! ### The junctions of the map -/

omit [Matching R] in
theorem toVertex_val (v : Fin n) : toVertex n (v : ℤ) = some v := by
  unfold toVertex
  rw [dif_pos ⟨Int.natCast_nonneg _, by simp⟩]
  simp

omit [Matching R] in
theorem imported_edge {table : List (DedupedData R)} {es : List (Edge n)}
    (h : List.Forall₂ Imported table es) {d : DedupedData R} (hd : d ∈ table) :
    ∃ e ∈ es, Imported d e := by
  induction h with
  | nil => cases hd
  | @cons d₁ e₁ table es he _ ih =>
      cases List.mem_cons.mp hd with
      | inl h => exact ⟨e₁, List.mem_cons_self, h ▸ he⟩
      | inr h =>
          obtain ⟨e, hes, h⟩ := ih h
          exact ⟨e, List.mem_cons_of_mem _ hes, h⟩

/-- The junction is an end of a road of the map with this id. -/
def Map.IsEnd (m : Map R n) (id : ℤ) (v : Fin n) : Prop :=
  ∃ e ∈ m.edges, e.id = id ∧ (v = e.source ∨ v = e.target)

theorem nearerEnd_isEnd {p : Position R} {d : DedupedData R} {m : Map R n} {e : Edge n}
    (he : e ∈ m.edges) (hi : Imported d e) :
    ∃ v : Fin n, nearerEnd p d = (v : ℤ) ∧ m.IsEnd d.mainid v := by
  simp only [nearerEnd]
  split_ifs
  · exact ⟨e.target, hi.target, e, he, hi.id, Or.inr rfl⟩
  · exact ⟨e.source, hi.source, e, he, hi.id, Or.inl rfl⟩

/-- **`get_rect` chooses junctions of the map**, an end of the road of each position. -/
theorem getRect_vertices {rows : List (RawData R)} {m : Map R n}
    (hm : importMapData (getMapData rows) = some ⟨n, m⟩) {p q : Position R}
    (hp : p.road rows ≠ -1) (hq : q.road rows ≠ -1) :
    ∃ a b : Fin n, getRect rows p q = ((a : ℤ), (b : ℤ)) ∧ m.IsEnd (p.road rows) a ∧
      m.IsEnd (q.road rows) b := by
  obtain ⟨d, hd, d', hd', hid, hid', hrect⟩ := getRect_eq hp hq
  obtain ⟨e, he, hi⟩ := imported_edge (importMapData_imported hm) hd
  obtain ⟨e', he', hi'⟩ := imported_edge (importMapData_imported hm) hd'
  rw [hrect, ← hid, ← hid']
  by_cases hsame : d.mainid = d'.mainid
  · rw [if_pos hsame, ← hsame]
    refine ⟨e.source, e.target, Prod.ext hi.source hi.target, ?_, ?_⟩
    · exact ⟨e, he, hi.id, Or.inl rfl⟩
    · exact ⟨e, he, hi.id, Or.inr rfl⟩
  · rw [if_neg hsame]
    obtain ⟨a, ha, haend⟩ := nearerEnd_isEnd (p := p) he hi
    obtain ⟨b, hb, hbend⟩ := nearerEnd_isEnd (p := q) he' hi'
    exact ⟨a, b, Prod.ext ha hb, haend, hbend⟩

/-- Between positions on roads, the query is one between these junctions. -/
theorem getOptimalRouteAt_eq {rows : List (RawData R)} {m : Map R n} {p q : Position R}
    {a b : Fin n} (h : getRect rows p q = ((a : ℤ), (b : ℤ)))
    (dijkstra : List (Edge n) → Fin n → Fin n → Fin n) (fuel : ℕ) :
    m.getOptimalRouteAt dijkstra rows fuel p q =
      m.getOptimalRoute dijkstra (getMapData rows) fuel a b := by
  have hne : ∀ v : Fin n, (v : ℤ) ≠ -1 := fun v => by omega
  simp only [Map.getOptimalRouteAt, h, toVertex_val]
  rw [if_neg (by rintro (h | h); exacts [hne a h, hne b h])]

/-! ### Along the equator -/

/-- The sides of the triangle of `map_matching`. -/
theorem sqrt_equator (d v : ℝ) {u : ℝ} (hu : 0 < u) :
    Real.sqrt (d * u * d * u + (0 - 0) * v * (0 - 0) * v) = |d| * u := by
  have hsq : d * u * d * u + (0 - 0) * v * (0 - 0) * v = (d * u) ^ 2 := by ring
  rw [hsq, Real.sqrt_sq_eq_abs, abs_mul, abs_of_pos hu]

/-- The metres of a degree of longitude at the equator. -/
theorem lonUnit_pos : 0 < 40075360 * Real.cos (0 * Sphere.PI / 180) / 360 := by
  rw [zero_mul, zero_div, Real.cos_zero]
  norm_num

/-- A position on a road along the equator is at no distance from it. -/
theorem mapMatching_on {x s e : ℝ} (hs : s ≤ x) (he : x ≤ e) :
    Sphere.mapMatching 0 x s 0 e 0 = 0 := by
  unfold Sphere.mapMatching
  simp only [sqrt_equator _ _ lonUnit_pos]
  have hu := lonUnit_pos
  generalize 40075360 * Real.cos (0 * Sphere.PI / 180) / 360 = u at hu ⊢
  rw [abs_of_nonneg (sub_nonneg.mpr hs), abs_of_nonpos (sub_nonpos.mpr he),
    abs_of_nonneg (sub_nonneg.mpr (hs.trans he))]
  have hl := sub_nonneg.mpr hs
  have hr := sub_nonneg.mpr he
  have hsrc : (x - s) * u * ((x - s) * u) + (e - s) * u * ((e - s) * u) -
      -(x - e) * u * (-(x - e) * u) = 2 * ((x - s) * ((x - s) + (e - x))) * (u * u) := by ring
  have hdst : -(x - e) * u * (-(x - e) * u) + (e - s) * u * ((e - s) * u) -
      (x - s) * u * ((x - s) * u) = 2 * ((e - x) * ((x - s) + (e - x))) * (u * u) := by ring
  have hside : ((x - s) * u + -(x - e) * u + (e - s) * u) / 2 - (e - s) * u = 0 := by ring
  rw [hsrc, hdst, if_neg, hside, mul_zero, abs_zero, Real.sqrt_zero, mul_zero, zero_div]
  rw [not_or, not_lt, not_lt]
  constructor <;> positivity

/-- A position beyond an end of a road along the equator is not matched to it. -/
theorem mapMatching_beside {x s e : ℝ} (hlt : s < e) (hx : x < s ∨ e < x) :
    Sphere.mapMatching 0 x s 0 e 0 = 100000 := by
  unfold Sphere.mapMatching
  simp only [sqrt_equator _ _ lonUnit_pos]
  have hu := lonUnit_pos
  generalize 40075360 * Real.cos (0 * Sphere.PI / 180) / 360 = u at hu ⊢
  have hlen := sub_pos.mpr hlt
  have hsq : ∀ d : ℝ, |d| * u * (|d| * u) = d * d * (u * u) := fun d => by
    rw [mul_mul_mul_comm, abs_mul_abs_self]
  rw [hsq, hsq, hsq]
  apply if_pos
  cases hx with
  | inl hx =>
      have hout := sub_pos.mpr hx
      have hsrc : (x - s) * (x - s) * (u * u) + (e - s) * (e - s) * (u * u) -
          (x - e) * (x - e) * (u * u) = -(2 * (s - x) * (e - s) * (u * u)) := by ring
      rw [hsrc, neg_lt_zero]
      exact Or.inl (by positivity)
  | inr hx =>
      have hout := sub_pos.mpr hx
      have hdst : (x - e) * (x - e) * (u * u) + (e - s) * (e - s) * (u * u) -
          (x - s) * (x - s) * (u * u) = -(2 * (x - e) * (e - s) * (u * u)) := by ring
      rw [hdst, neg_lt_zero]
      exact Or.inr (by positivity)

/-- On the equator, the nearer end is the one at the nearer longitude. -/
theorem nearerEnd_equator {x t : ℝ} {d : DedupedData ℝ} (hs : d.starty = 0) (he : d.endy = 0)
    (hsx : |d.startx - x| ≤ 90) (hex : |d.endx - x| ≤ 90) :
    nearerEnd ⟨x, 0, t⟩ d = if |d.endx - x| < |d.startx - x| then d.endid else d.startid := by
  have hpos : 0 < Sphere.PI := by norm_num [Sphere.PI]
  have hiff : |d.endx - x| / 180 * Sphere.PI * (6371 * 1000) <
      |d.startx - x| / 180 * Sphere.PI * (6371 * 1000) ↔ |d.endx - x| < |d.startx - x| := by
    rw [mul_lt_mul_iff_left₀ (by norm_num), mul_lt_mul_iff_left₀ hpos,
      div_lt_div_iff_of_pos_right (by norm_num)]
  simp only [nearerEnd, Scalar.distance, hs, he, Sphere.distance_equator hsx,
    Sphere.distance_equator hex, lt_iff, hiff]

end MapManager

end GeoSvr
