import Mathlib.Analysis.SpecialFunctions.Complex.Arg
import Mathlib.Analysis.SpecialFunctions.Trigonometric.Inverse

/-! # Coordinates and distances (`utils.h`)

`Scalar R` is the arithmetic of `double` as far as the daemon uses it, so that the daemon is
modelled over any type of coordinates.  The instance for the real numbers has the formulas of
`utils.h`; what depends on the formula is proved about it. -/

namespace GeoSvr

/-- The operations on `double`: arithmetic, comparison, conversion to `u_int64_t`, and the two
distances. -/
class Scalar (R : Type*) extends Add R, Sub R, Mul R, Div R where
  ofNat : ℕ → R
  lt : R → R → Bool
  abs : R → R
  toU64 : R → UInt64
  sqrt : R → R
  distance : R → R → R → R → R
  distNode2line : R → R → R → R → R → R → R

namespace Sphere

/-- `PI` of `utils.h`. -/
noncomputable def PI : ℝ := 31415926 / 10000000

/-- Degrees to radians, as `distance` does it. -/
noncomputable def radian (x : ℝ) : ℝ := x / 180 * PI

/-- The cosine of the angle between two points, seen from the centre. -/
noncomputable def cosAngle (xa ya xb yb : ℝ) : ℝ :=
  Real.sin (radian ya) * Real.sin (radian yb) +
    Real.cos (radian ya) * Real.cos (radian yb) * Real.cos (radian xb - radian xa)

/-- `distance`. -/
noncomputable def distance (xa ya xb yb : ℝ) : ℝ :=
  Real.arccos (cosAngle xa ya xb yb) * (6371 * 1000)

/-- `dist_node2line`; `lat - ey` in the first root is the source's. -/
noncomputable def distNode2line (lat lon sx sy ex ey : ℝ) : ℝ :=
  let latUnit := 110940
  let lonUnit := 40075360 * Real.cos (lat * PI / 180) / 360
  let a := Real.sqrt ((lon - sx) * lonUnit * (lon - sx) * lonUnit +
    (lat - sy) * latUnit * (lat - ey) * latUnit)
  let b := Real.sqrt ((lon - ex) * lonUnit * (lon - ex) * lonUnit +
    (lat - ey) * latUnit * (lat - ey) * latUnit)
  let c := Real.sqrt ((ex - sx) * lonUnit * (ex - sx) * lonUnit +
    (ey - sy) * latUnit * (ey - sy) * latUnit)
  let p := (a + b + c) / 2
  2 * Real.sqrt |p * (p - a) * (p - b) * (p - c)| / c

/-- `map_matching`: the distance from a road, and 100000 beside it. -/
noncomputable def mapMatching (lat lon sx sy ex ey : ℝ) : ℝ :=
  let latUnit := 110940
  let lonUnit := 40075360 * Real.cos (lat * PI / 180) / 360
  let a := Real.sqrt ((lon - sx) * lonUnit * (lon - sx) * lonUnit +
    (lat - sy) * latUnit * (lat - ey) * latUnit)
  let b := Real.sqrt ((lon - ex) * lonUnit * (lon - ex) * lonUnit +
    (lat - ey) * latUnit * (lat - ey) * latUnit)
  let c := Real.sqrt ((ex - sx) * lonUnit * (ex - sx) * lonUnit +
    (ey - sy) * latUnit * (ey - sy) * latUnit)
  if a * a + c * c - b * b < 0 ∨ b * b + c * c - a * a < 0 then 100000
  else
    let p := (a + b + c) / 2
    2 * Real.sqrt |p * (p - a) * (p - b) * (p - c)| / c

/-- Metres of a degree of latitude, and of longitude. -/
noncomputable def latUnit : ℝ := 110940

noncomputable def lonUnit (lat : ℝ) : ℝ := 40075360 * Real.cos (lat * PI / 180) / 360

/-- The height over the side `c` of the triangle with the sides `a`, `b` and `c`. -/
noncomputable def heron (a b c : ℝ) : ℝ :=
  let p := (a + b + c) / 2
  2 * Real.sqrt |p * (p - a) * (p - b) * (p - c)| / c

/-- The height, or 100000 if it falls beside `c`. -/
noncomputable def heronBeside (a b c : ℝ) : ℝ :=
  if a * a + c * c - b * b < 0 ∨ b * b + c * c - a * a < 0 then 100000 else heron a b c

/-- `angle`; the third test of the source, `x1 == x2 && y1 == y2`, is never reached. -/
noncomputable def angle (x1 y1 x2 y2 : ℝ) : ℝ :=
  if x1 = x2 then (if y1 < y2 then 0 else 180)
  else if y1 = y2 then (if x1 < x2 then 90 else 270)
  else
    let alpha := Complex.arg ⟨x2 - x1, y2 - y1⟩ * 180 / PI
    if 0 < alpha ∧ alpha < 90 then -(90 - alpha)
    else if 90 < alpha ∧ alpha < 180 then alpha - 90
    else if -180 < alpha ∧ alpha < -90 then -alpha
    else alpha - 90

/-! ### Points at no distance -/

/-- The angle is the one between two unit vectors. -/
theorem cosAngle_eq (xa ya xb yb : ℝ) : cosAngle xa ya xb yb =
    Real.cos (radian ya) * Real.cos (radian xa) * (Real.cos (radian yb) * Real.cos (radian xb)) +
      Real.cos (radian ya) * Real.sin (radian xa) * (Real.cos (radian yb) * Real.sin (radian xb)) +
      Real.sin (radian ya) * Real.sin (radian yb) := by
  rw [cosAngle, Real.cos_sub]
  ring

theorem norm_eq_one (x y : ℝ) : (Real.cos (radian y) * Real.cos (radian x)) ^ 2 +
    (Real.cos (radian y) * Real.sin (radian x)) ^ 2 + Real.sin (radian y) ^ 2 = 1 := by
  have hx := Real.sin_sq_add_cos_sq (radian x)
  have hy := Real.sin_sq_add_cos_sq (radian y)
  calc (Real.cos (radian y) * Real.cos (radian x)) ^ 2 +
        (Real.cos (radian y) * Real.sin (radian x)) ^ 2 + Real.sin (radian y) ^ 2
      = Real.cos (radian y) ^ 2 * (Real.sin (radian x) ^ 2 + Real.cos (radian x) ^ 2) +
          Real.sin (radian y) ^ 2 := by ring
    _ = 1 := by rw [hx, mul_one, add_comm, hy]

/-- Unit vectors without an angle between them are equal. -/
theorem eq_of_one_le_dot {a b c a' b' c' : ℝ} (h : a ^ 2 + b ^ 2 + c ^ 2 = 1)
    (h' : a' ^ 2 + b' ^ 2 + c' ^ 2 = 1) (hdot : 1 ≤ a * a' + b * b' + c * c') :
    a = a' ∧ b = b' ∧ c = c' := by
  have hsum : (a - a') ^ 2 + (b - b') ^ 2 + (c - c') ^ 2 ≤ 0 := by linarith
  have ha := sq_nonneg (a - a')
  have hb := sq_nonneg (b - b')
  have hc := sq_nonneg (c - c')
  refine ⟨?_, ?_, ?_⟩ <;> apply sub_eq_zero.mp <;> apply pow_eq_zero_iff two_ne_zero |>.mp <;>
    linarith

theorem distance_nonneg (xa ya xb yb : ℝ) : 0 ≤ distance xa ya xb yb :=
  mul_nonneg (Real.arccos_nonneg _) (by norm_num)

theorem distance_eq_zero {xa ya xb yb : ℝ} :
    distance xa ya xb yb = 0 ↔ 1 ≤ cosAngle xa ya xb yb := by
  rw [distance, mul_eq_zero, or_iff_left (by norm_num), Real.arccos_eq_zero]

theorem distance_self (x y : ℝ) : distance x y x y = 0 := by
  rw [distance_eq_zero, cosAngle_eq]
  have h := norm_eq_one x y
  linarith

/-- Points at no distance are at the same distance from every point. -/
theorem distance_congr {xa ya xb yb : ℝ} (h : distance xa ya xb yb = 0) (x y : ℝ) :
    distance x y xa ya = distance x y xb yb := by
  rw [distance_eq_zero, cosAngle_eq] at h
  obtain ⟨h₁, h₂, h₃⟩ := eq_of_one_le_dot (norm_eq_one xa ya) (norm_eq_one xb yb) h
  rw [distance, distance, cosAngle_eq, cosAngle_eq, h₁, h₂, h₃]

/-! ### Along the equator -/

theorem cosAngle_equator (x y : ℝ) : cosAngle x 0 y 0 =
    Real.cos (radian y - radian x) := by
  have hzero : radian 0 = 0 := by norm_num [radian]
  rw [cosAngle, hzero, Real.sin_zero, Real.cos_zero]
  ring

/-- Along the equator the distance is that of the longitudes. -/
theorem distance_equator {x y : ℝ} (h : |y - x| ≤ 90) :
    distance x 0 y 0 = |y - x| / 180 * PI * (6371 * 1000) := by
  have hpos : 0 < PI := by norm_num [PI]
  have hangle : radian y - radian x = (y - x) / 180 * PI := by
    unfold radian
    ring
  have habs : |(y - x) / 180 * PI| = |y - x| / 180 * PI := by
    rw [abs_mul, abs_div, abs_of_pos hpos]
    norm_num
  have hle : |y - x| / 180 * PI ≤ Real.pi := by
    have hpi := Real.one_le_pi_div_two
    have hsmall : PI ≤ 4 := by norm_num [PI]
    calc |y - x| / 180 * PI ≤ 90 / 180 * 4 := by gcongr
      _ ≤ Real.pi := by linarith
  rw [distance, cosAngle_equator, hangle, ← Real.cos_abs, habs, Real.arccos_cos _ hle]
  have := abs_nonneg (y - x)
  positivity

end Sphere

noncomputable instance : Scalar ℝ where
  ofNat n := n
  lt x y := by classical exact decide (x < y)
  abs x := |x|
  toU64 x := .ofNat ⌊x⌋₊
  sqrt := Real.sqrt
  distance := Sphere.distance
  distNode2line := Sphere.distNode2line

/-- The real numbers with other distances. -/
@[reducible] noncomputable def scalarWith (distance : ℝ → ℝ → ℝ → ℝ → ℝ)
    (distNode2line : ℝ → ℝ → ℝ → ℝ → ℝ → ℝ → ℝ) : Scalar ℝ :=
  { (inferInstance : Scalar ℝ) with distance := distance, distNode2line := distNode2line }

end GeoSvr
