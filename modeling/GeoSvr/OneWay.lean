import GeoSvr.FirstLeast
import GeoSvr.MapMatching

/-! # One-way roads

`on_road` compares the track with the direction of the nearest segment if that carries traffic in
one direction only, and looks for another road if they differ by more than 90.  But both loops
compute the direction from `(startx, starty)` to `(endx, endx)` (`lineAngle`), so what they decide
is right only as far as that agrees with the `direction` of the segment.

`map_matching` is an arbitrary function here (`matchingWith`). -/

namespace GeoSvr.MapManager

/-- The real numbers with another `map_matching`. -/
@[reducible] noncomputable def matchingWith (f : ℝ → ℝ → ℝ → ℝ → ℝ → ℝ → ℝ) : Matching ℝ :=
  { (inferInstance : Scalar ℝ) with mapMatching := f, angle := Sphere.angle }

/-! ### The row that is returned -/

section matching

variable {R : Type*} [Matching R]

/-- The row that the tests at the two returns of `on_road` accept. -/
def within : Option (RawData R) × R → Option (RawData R)
  | (some row, min) => if Scalar.lt min (Scalar.ofNat 100) then some row else none
  | (none, _) => none

/-- The conditions on the rows in the second loop. -/
def mayReplace (track : R) (road row : RawData R) : Bool :=
  row.mainid != road.mainid &&
    Scalar.lt (Scalar.abs (lineAngle row - trackAbs track)) (Scalar.ofNat 90)

/-- The row whose road `anotherRoad` returns. -/
def anotherRow (rows : List (RawData R)) (lat lon track : R) (road : RawData R) :
    Option (RawData R) :=
  if road.trafficFlow == 1 &&
      Scalar.lt (Scalar.ofNat 90) (Scalar.abs (trackAbs track - lineAngle road)) then
    within (nearestRow rows lat lon (mayReplace track road))
  else none

/-- The row whose road `on_road` returns. -/
def returnedRow (rows : List (RawData R)) (lat lon track : R) : Option (RawData R) :=
  let nearest := nearestRow rows lat lon (fun _ => true)
  (nearest.1.bind (anotherRow rows lat lon track)).or (within nearest)

theorem within_fst {best : Option (RawData R) × R} {row : RawData R} (h : within best = some row) :
    best.1 = some row := by
  obtain ⟨_ | road, min⟩ := best
  · cases h
  · simp only [within] at h
    split_ifs at h
    exact h

theorem matched_eq (best : Option (RawData R) × R) :
    matched best = (within best).map RawData.mainid := by
  obtain ⟨_ | row, min⟩ := best
  · rfl
  · simp only [matched, within]
    split_ifs <;> rfl

theorem anotherRoad_eq (rows : List (RawData R)) (lat lon track : R) (road : RawData R) :
    anotherRoad rows lat lon track road =
      (anotherRow rows lat lon track road).map RawData.mainid := by
  unfold anotherRoad anotherRow
  split_ifs
  · exact matched_eq _
  · rfl

theorem onRoad_eq (rows : List (RawData R)) (lat lon track : R) :
    onRoad rows lat lon track =
      ((returnedRow rows lat lon track).map RawData.mainid).getD (-1) := by
  have hbind : (nearestRow rows lat lon (fun _ => true)).1.bind (anotherRoad rows lat lon track) =
      ((nearestRow rows lat lon (fun _ => true)).1.bind
        (anotherRow rows lat lon track)).map RawData.mainid := by
    rw [Option.map_bind]
    congr 1
    funext road
    exact anotherRoad_eq rows lat lon track road
  unfold onRoad returnedRow
  simp only [hbind, matched_eq]
  cases (nearestRow rows lat lon (fun _ => true)).1.bind (anotherRow rows lat lon track) <;> rfl

end matching

/-! ### Directions -/

variable (f : ℝ → ℝ → ℝ → ℝ → ℝ → ℝ → ℝ) (rows : List (RawData ℝ)) (lat lon track : ℝ)

/-- `map_matching` of a row. -/
def distTo (row : RawData ℝ) : ℝ := f lat lon row.startx row.starty row.endx row.endy

/-- The direction of a segment, as `on_road` normalises it. -/
noncomputable def direction (row : RawData ℝ) : ℝ :=
  let dir := Sphere.angle row.startx row.starty row.endx row.endy
  if dir < 0 then -dir else dir

/-- How far the track is from a direction. -/
noncomputable def deviation (dir : RawData ℝ → ℝ) (row : RawData ℝ) : ℝ :=
  |trackAbs track - dir row|

/-- A segment of another road, within 100, that runs with the track. -/
structure IsAligned (road row : RawData ℝ) : Prop where
  mem : row ∈ rows
  other : row.mainid ≠ road.mainid
  near : distTo f lat lon row < 100
  withTrack : deviation track direction row < 90

def HasAligned (road : RawData ℝ) : Prop :=
  ∃ row, IsAligned f rows lat lon track road row

/-- What `on_road` is to do about one-way roads.  `keeps` is about the nearest segment, `avoids`
about the one whose road is returned. -/
structure OneWayRight : Prop where
  keeps : ∀ road, FirstLeast.IsFirstLeast (distTo f lat lon) rows road →
    distTo f lat lon road < 100 → road.trafficFlow = 1 → deviation track direction road ≤ 90 →
    @onRoad ℝ (matchingWith f) rows lat lon track = road.mainid
  avoids : ∀ road, @returnedRow ℝ (matchingWith f) rows lat lon track = some road →
    road.trafficFlow = 1 → 90 < deviation track direction road →
    ¬ HasAligned f rows lat lon track road

/-! ### What is returned -/

/-- `on_road` leaves the nearest segment `road` for `row`. -/
structure Turns (road row : RawData ℝ) : Prop where
  oneWay : road.trafficFlow = 1
  against : 90 < deviation track lineAngle road
  first : FirstLeast.IsFirstLeast (distTo f lat lon) (rows.filter (mayReplace track road)) row
  near : distTo f lat lon row < 100

section returned

variable {f rows lat lon track}

/-- A loop of `on_road` keeps the best of the rows that will do. -/
theorem nearestRow_eq (ok : RawData ℝ → Bool) :
    @nearestRow ℝ (matchingWith f) rows lat lon ok =
      (rows.filter ok).foldl (FirstLeast.scan (distTo f lat lon)) (none, ((10000 : ℕ) : ℝ)) := by
  rw [List.foldl_filter]
  unfold nearestRow
  congr 1
  funext best row
  simp only [FirstLeast.scan, Bool.and_eq_true, lt_iff, distTo]
  by_cases hok : ok row = true
  · simp only [hok, and_true, if_true]
    rfl
  · simp [hok]

/-- The row that a loop ends with, if it is near enough. -/
theorem within_nearestRow {ok : RawData ℝ → Bool} {row : RawData ℝ} :
    @within ℝ (matchingWith f) (@nearestRow ℝ (matchingWith f) rows lat lon ok) = some row ↔
      FirstLeast.IsFirstLeast (distTo f lat lon) (rows.filter ok) row ∧
        distTo f lat lon row < 100 := by
  rw [nearestRow_eq]
  obtain ⟨he, hle⟩ | ⟨n, he, hlt, hn⟩ :=
    FirstLeast.foldl_scan (distTo f lat lon) ((10000 : ℕ) : ℝ) (rows.filter ok)
  · rw [he]
    refine iff_of_false (fun h => by cases h) ?_
    rintro ⟨hrow, hnear⟩
    have := hle row hrow.mem
    norm_num at this
    linarith
  · have hif : @within ℝ (matchingWith f) (some n, distTo f lat lon n) =
        if distTo f lat lon n < 100 then some n else none := by
      simp only [within, lt_iff]
      norm_num [Scalar.ofNat]
    rw [he, hif]
    split_ifs with hnear
    · constructor
      · intro h
        cases h
        exact ⟨hn, hnear⟩
      · rintro ⟨hrow, -⟩
        rw [hn.unique hrow]
    · refine iff_of_false (fun h => by cases h) ?_
      rintro ⟨hrow, hnear'⟩
      rw [hn.unique hrow] at hnear
      exact hnear hnear'

theorem anotherRow_iff {road row : RawData ℝ} :
    @anotherRow ℝ (matchingWith f) rows lat lon track road = some row ↔
      Turns f rows lat lon track road row := by
  have htest : (road.trafficFlow == 1 && Scalar.lt (Scalar.ofNat 90)
      (Scalar.abs (trackAbs track - lineAngle road))) = true ↔
      road.trafficFlow = 1 ∧ 90 < deviation track lineAngle road := by
    rw [Bool.and_eq_true, beq_iff_eq, lt_iff]
    norm_num [Scalar.ofNat, Scalar.abs, deviation]
  unfold anotherRow
  split_ifs with h
  · rw [within_nearestRow]
    obtain ⟨h₁, h₂⟩ := htest.mp h
    exact ⟨fun h => ⟨h₁, h₂, h.1, h.2⟩, fun h => ⟨h.first, h.near⟩⟩
  · refine iff_of_false (fun he => by cases he) ?_
    rintro ⟨h₁, h₂, -⟩
    exact h (htest.mpr ⟨h₁, h₂⟩)

/-- No segment is near enough, or the nearest one is returned, or another one for it. -/
theorem returnedRow_cases :
    ((∀ row ∈ rows, 100 ≤ distTo f lat lon row) ∧
      @returnedRow ℝ (matchingWith f) rows lat lon track = none) ∨
    ∃ road, FirstLeast.IsFirstLeast (distTo f lat lon) rows road ∧ distTo f lat lon road < 100 ∧
      ((∃ row, Turns f rows lat lon track road row ∧
          @returnedRow ℝ (matchingWith f) rows lat lon track = some row) ∨
        ((∀ row, ¬ Turns f rows lat lon track road row) ∧
          @returnedRow ℝ (matchingWith f) rows lat lon track = some road)) := by
  have htrue : rows.filter (fun _ => true) = rows := List.filter_true rows
  unfold returnedRow
  simp only
  cases hw : @within ℝ (matchingWith f)
      (@nearestRow ℝ (matchingWith f) rows lat lon (fun _ => true)) with
  | some road =>
      obtain ⟨hroad, hnear⟩ := within_nearestRow.mp hw
      rw [htrue] at hroad
      have hfst := @within_fst ℝ (matchingWith f) _ _ hw
      refine Or.inr ⟨road, hroad, hnear, ?_⟩
      rw [hfst, Option.bind_some]
      cases ha : @anotherRow ℝ (matchingWith f) rows lat lon track road with
      | some row => exact Or.inl ⟨row, anotherRow_iff.mp ha, rfl⟩
      | none =>
          refine Or.inr ⟨fun row ht => ?_, rfl⟩
          rw [anotherRow_iff.mpr ht] at ha
          cases ha
  | none =>
      have hfar : ∀ row ∈ rows, 100 ≤ distTo f lat lon row := by
        intro row hrow
        obtain ⟨-, hle⟩ | ⟨n, -, -, hn⟩ :=
          FirstLeast.foldl_scan (distTo f lat lon) ((10000 : ℕ) : ℝ) rows
        · refine le_trans ?_ (hle row hrow)
          norm_num
        · refine le_trans (not_lt.mp (fun hnear => ?_)) (hn.le row hrow)
          rw [within_nearestRow.mpr ⟨htrue.symm ▸ hn, hnear⟩] at hw
          cases hw
      refine Or.inl ⟨hfar, ?_⟩
      rw [Option.or_none]
      refine Option.bind_eq_none_iff.mpr (fun road _ => ?_)
      cases ha : @anotherRow ℝ (matchingWith f) rows lat lon track road with
      | none => rfl
      | some row =>
          obtain ⟨-, -, hrow, hnear⟩ := anotherRow_iff.mp ha
          have := hfar row (List.mem_of_mem_filter hrow.mem)
          linarith

theorem onRoad_of_turns {road row : RawData ℝ}
    (hroad : FirstLeast.IsFirstLeast (distTo f lat lon) rows road)
    (hnear : distTo f lat lon road < 100) (hturn : Turns f rows lat lon track road row) :
    @onRoad ℝ (matchingWith f) rows lat lon track = row.mainid := by
  obtain ⟨hfar, -⟩ | ⟨road', hroad', -, ⟨row', hturn', hret⟩ | ⟨hstay, -⟩⟩ :=
    @returnedRow_cases f rows lat lon track
  · exact absurd hnear (not_lt.mpr (hfar road hroad.mem))
  · obtain rfl := hroad.unique hroad'
    obtain rfl := hturn.first.unique hturn'.first
    exact (@onRoad_eq ℝ (matchingWith f) rows lat lon track).trans (by rw [hret]; rfl)
  · obtain rfl := hroad.unique hroad'
    exact absurd hturn (hstay row)

end returned

/-! ### The exact condition -/

/-- The decision is right about the directions of the segments: where `on_road` leaves the nearest
segment, that is against the track, and where it returns one against the track, there is no better
one. -/
structure DecidesRight : Prop where
  turns : ∀ road, FirstLeast.IsFirstLeast (distTo f lat lon) rows road →
    distTo f lat lon road < 100 → ∀ row, Turns f rows lat lon track road row →
    90 < deviation track direction road ∧
      (row.trafficFlow = 1 → 90 < deviation track direction row →
        ¬ HasAligned f rows lat lon track row)
  stays : ∀ road, FirstLeast.IsFirstLeast (distTo f lat lon) rows road →
    distTo f lat lon road < 100 → road.trafficFlow = 1 →
    (∀ row, ¬ Turns f rows lat lon track road row) → 90 < deviation track direction road →
    ¬ HasAligned f rows lat lon track road

section decides

variable {f rows lat lon track} {road : RawData ℝ}

/-- Where `on_road` leaves the nearest segment. -/
theorem decidesRight_of_turns {row : RawData ℝ}
    (hroad : FirstLeast.IsFirstLeast (distTo f lat lon) rows road)
    (hnear : distTo f lat lon road < 100) (hturn : Turns f rows lat lon track road row)
    (hret : @returnedRow ℝ (matchingWith f) rows lat lon track = some row) :
    OneWayRight f rows lat lon track ↔ DecidesRight f rows lat lon track := by
  have hid := onRoad_of_turns hroad hnear hturn
  have hne : row.mainid ≠ road.mainid := by
    have hmay := (List.mem_filter.mp hturn.first.mem).2
    simp only [mayReplace, Bool.and_eq_true, bne_iff_ne] at hmay
    exact hmay.1
  constructor
  · rintro ⟨hkeeps, havoids⟩
    refine ⟨fun road' hroad' _ row' hturn' => ?_, fun road' hroad' _ _ hstay => ?_⟩
    · obtain rfl := hroad.unique hroad'
      obtain rfl := hturn.first.unique hturn'.first
      refine ⟨not_le.mp (fun hle => hne ?_), havoids row hret⟩
      rw [← hid, hkeeps road hroad hnear hturn.oneWay hle]
    · obtain rfl := hroad.unique hroad'
      exact absurd hturn (hstay row)
  · intro h
    obtain ⟨hdev, havoid⟩ := h.turns road hroad hnear row hturn
    refine ⟨fun road' hroad' _ _ hle => ?_, fun row' he => ?_⟩
    · obtain rfl := hroad.unique hroad'
      exact absurd hdev (not_lt.mpr hle)
    · rw [hret] at he
      cases he
      exact havoid

/-- Where it returns the nearest segment. -/
theorem decidesRight_of_stays (hroad : FirstLeast.IsFirstLeast (distTo f lat lon) rows road)
    (hnear : distTo f lat lon road < 100)
    (hstay : ∀ row, ¬ Turns f rows lat lon track road row)
    (hret : @returnedRow ℝ (matchingWith f) rows lat lon track = some road) :
    OneWayRight f rows lat lon track ↔ DecidesRight f rows lat lon track := by
  have hid : @onRoad ℝ (matchingWith f) rows lat lon track = road.mainid :=
    (@onRoad_eq ℝ (matchingWith f) rows lat lon track).trans (by rw [hret]; rfl)
  constructor
  · rintro ⟨-, havoids⟩
    refine ⟨fun road' hroad' _ row hturn => ?_, fun road' hroad' _ hflow _ => ?_⟩
    · obtain rfl := hroad.unique hroad'
      exact absurd hturn (hstay row)
    · obtain rfl := hroad.unique hroad'
      exact havoids road hret hflow
  · intro h
    refine ⟨fun road' hroad' _ _ _ => ?_, fun row he hflow hdev => ?_⟩
    · obtain rfl := hroad.unique hroad'
      exact hid
    · rw [hret] at he
      cases he
      exact h.stays road hroad hnear hflow hstay hdev

end decides

/-- A one-way road to the north, and one to the south. -/
noncomputable def northbound : RawData ℝ := ⟨1, 1, 10, 20, 10, 30, 0, 1, 20, 1⟩

noncomputable def southbound : RawData ℝ := ⟨2, 1, 10, 0, 10, -5, 2, 3, 20, 1⟩

/-- The first road is at no distance, the second at 20. -/
noncomputable def northDist (_ _ _ sy _ _ : ℝ) : ℝ := |sy - 20|

theorem distTo_northDist : distTo northDist 0 0 northbound = 0 ∧
    distTo northDist 0 0 southbound = 20 := by
  norm_num [distTo, northDist, northbound, southbound]

theorem lineAngle_northbound : lineAngle northbound = 180 ∧ lineAngle southbound = 0 ∧
    direction northbound = 0 ∧ trackAbs (0 : ℝ) = 0 := by
  norm_num [lineAngle, Matching.angle, Sphere.angle, direction, trackAbs, northbound, southbound,
    Scalar.lt, Scalar.ofNat]

/-- The second segment is taken for aligned with the track, the first is not. -/
theorem turns_northbound :
    Turns northDist [northbound, southbound] 0 0 0 northbound southbound := by
  obtain ⟨hn, hs, -, ht⟩ := lineAngle_northbound
  have hmay : mayReplace 0 northbound northbound = false := by
    simp [mayReplace]
  have hmay' : mayReplace 0 northbound southbound = true := by
    rw [mayReplace, Bool.and_eq_true, lt_iff, hs, ht]
    exact ⟨by decide, by norm_num [Scalar.abs, Scalar.ofNat]⟩
  refine ⟨rfl, ?_, ?_, ?_⟩
  · rw [deviation, hn, ht]
    norm_num
  · rw [List.filter_cons_of_neg (by simp [hmay]), List.filter_cons_of_pos hmay']
    exact ⟨[], [], rfl, by simp, by simp⟩
  · rw [distTo_northDist.2]
    norm_num

end GeoSvr.MapManager
