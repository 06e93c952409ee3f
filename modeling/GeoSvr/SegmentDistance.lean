import GeoSvr.Geometry
import Mathlib.Tactic.LinearCombination
import Mathlib.Tactic.Linarith

/-! # The distance from a segment

`map_matching` and `dist_node2line` compute the height of the triangle of a point and a segment by
Heron's formula.  The sides are in metres, in the plane of the point's latitude; the side `a` to
the start of the segment multiplies `lat - sy` by `lat - ey` where it should take the square.

So `a` is right only if the segment runs along a parallel, or the point is on the parallel of the
start.  In the second case the segment the other way round has a wrong side, and the two distances
agree only by a coincidence, for which `Coincides` is the exact condition. -/

namespace GeoSvr.Sphere

/-! ### Heron's formula -/

theorem heron_comm (a b c : ℝ) : heron a b c = heron b a c := by
  have h : (a + b + c) / 2 * ((a + b + c) / 2 - a) * ((a + b + c) / 2 - b) *
        ((a + b + c) / 2 - c) =
      (b + a + c) / 2 * ((b + a + c) / 2 - b) * ((b + a + c) / 2 - a) *
        ((b + a + c) / 2 - c) := by ring
  simp only [heron, h]

theorem heronBeside_comm (a b c : ℝ) : heronBeside a b c = heronBeside b a c := by
  simp only [heronBeside, heron_comm a b c, or_comm]

/-- The height from the squares of the sides. -/
theorem heron_sqrt {x y z : ℝ} (hx : 0 ≤ x) (hy : 0 ≤ y) (hz : 0 ≤ z) :
    heron (Real.sqrt x) (Real.sqrt y) (Real.sqrt z) =
      Real.sqrt |4 * x * z - (x + z - y) ^ 2| / (2 * Real.sqrt z) := by
  obtain ⟨a, ha, rfl⟩ : ∃ a, 0 ≤ a ∧ a ^ 2 = x := ⟨_, Real.sqrt_nonneg x, Real.sq_sqrt hx⟩
  obtain ⟨b, hb, rfl⟩ : ∃ b, 0 ≤ b ∧ b ^ 2 = y := ⟨_, Real.sqrt_nonneg y, Real.sq_sqrt hy⟩
  obtain ⟨c, hc, rfl⟩ : ∃ c, 0 ≤ c ∧ c ^ 2 = z := ⟨_, Real.sqrt_nonneg z, Real.sq_sqrt hz⟩
  rw [Real.sqrt_sq ha, Real.sqrt_sq hb, Real.sqrt_sq hc]
  have h : (a + b + c) / 2 * ((a + b + c) / 2 - a) * ((a + b + c) / 2 - b) *
      ((a + b + c) / 2 - c) = (4 * a ^ 2 * c ^ 2 - (a ^ 2 + c ^ 2 - b ^ 2) ^ 2) / 4 ^ 2 := by ring
  simp only [heron, h]
  rw [abs_div, abs_of_pos (show (0 : ℝ) < 4 ^ 2 by norm_num), Real.sqrt_div (abs_nonneg _),
    Real.sqrt_sq (by norm_num)]
  ring

/-! ### The sides -/

section sides

variable (lat lon sx sy ex ey : ℝ)

/-- What is under the root in `a`. -/
noncomputable def radicandA : ℝ :=
  (lon - sx) * lonUnit lat * (lon - sx) * lonUnit lat +
    (lat - sy) * latUnit * (lat - ey) * latUnit

/-- What is under the root in `b`. -/
noncomputable def radicandB : ℝ :=
  (lon - ex) * lonUnit lat * (lon - ex) * lonUnit lat +
    (lat - ey) * latUnit * (lat - ey) * latUnit

/-- What is under the root in `c`. -/
noncomputable def radicandC : ℝ :=
  (ex - sx) * lonUnit lat * (ex - sx) * lonUnit lat +
    (ey - sy) * latUnit * (ey - sy) * latUnit

theorem distNode2line_eq : distNode2line lat lon sx sy ex ey =
    heron (Real.sqrt (radicandA lat lon sx sy ey)) (Real.sqrt (radicandB lat lon ex ey))
      (Real.sqrt (radicandC lat sx sy ex ey)) := rfl

theorem mapMatching_eq : mapMatching lat lon sx sy ex ey =
    heronBeside (Real.sqrt (radicandA lat lon sx sy ey)) (Real.sqrt (radicandB lat lon ex ey))
      (Real.sqrt (radicandC lat sx sy ex ey)) := rfl

/-- The square of the distance from the point to `(x, y)`. -/
noncomputable def planarSq (x y : ℝ) : ℝ :=
  ((lon - x) * lonUnit lat) ^ 2 + ((lat - y) * latUnit) ^ 2

/-- The roots are of no negative number, `a` and `b` are the distances from the ends, nothing is
divided by 0, and the distances are the same for the segment the other way round. -/
structure SegmentRight : Prop where
  nonnegA : 0 ≤ radicandA lat lon sx sy ey
  nonnegB : 0 ≤ radicandB lat lon ex ey
  posC : 0 < radicandC lat sx sy ex ey
  a : Real.sqrt (radicandA lat lon sx sy ey) = Real.sqrt (planarSq lat lon sx sy)
  b : Real.sqrt (radicandB lat lon ex ey) = Real.sqrt (planarSq lat lon ex ey)
  matching : mapMatching lat lon sx sy ex ey = mapMatching lat lon ex ey sx sy
  line : distNode2line lat lon sx sy ex ey = distNode2line lat lon ex ey sx sy

end sides

/-! ### A point on the parallel of the start -/

/-- The coincidence: `x` and `y` are the point and the end of the segment along the parallel, `h`
is the end across it, seen from the start.  The point is `after` the start or `before` it. -/
inductive Coincides (x y h : ℝ) : Prop
  | after (sq : 8 * x ^ 2 = h ^ 2 + 4 * (x * y)) (side : 0 ≤ x * y)
  | before (side : x * y < 0) (sq : 8 * x ^ 2 = h ^ 2 + 4 * (x * y) ∨ h ^ 2 + 4 * (x * y) = 0)
      (height : (x * h) ^ 2 = 100000 ^ 2 * (y ^ 2 + h ^ 2))

section parallel

variable {x y h : ℝ}

/-- The height of the triangle, with the right side `a`. -/
theorem heron_right : heron (Real.sqrt (x ^ 2)) (Real.sqrt ((x - y) ^ 2 + h ^ 2))
    (Real.sqrt (y ^ 2 + h ^ 2)) =
      Real.sqrt |4 * (x * h) ^ 2| / (2 * Real.sqrt (y ^ 2 + h ^ 2)) := by
  rw [heron_sqrt (by positivity) (by positivity) (by positivity)]
  congr 3
  ring

/-- The segment the other way round: the side to its start has no part across the parallel. -/
theorem heron_wrong : heron (Real.sqrt ((x - y) ^ 2)) (Real.sqrt (x ^ 2))
    (Real.sqrt (y ^ 2 + h ^ 2)) =
      Real.sqrt |h ^ 2 * (4 * x ^ 2 - 4 * (x * y) - h ^ 2)| / (2 * Real.sqrt (y ^ 2 + h ^ 2)) := by
  rw [heron_sqrt (by positivity) (by positivity) (by positivity)]
  congr 3
  ring

/-- Where the two heights agree. -/
theorem heron_eq_iff (hh : h ≠ 0) :
    heron (Real.sqrt (x ^ 2)) (Real.sqrt ((x - y) ^ 2 + h ^ 2)) (Real.sqrt (y ^ 2 + h ^ 2)) =
      heron (Real.sqrt ((x - y) ^ 2)) (Real.sqrt (x ^ 2)) (Real.sqrt (y ^ 2 + h ^ 2)) ↔
    8 * x ^ 2 = h ^ 2 + 4 * (x * y) ∨ h ^ 2 + 4 * (x * y) = 0 := by
  have hsq : 0 < h ^ 2 := by positivity
  have hc : 2 * Real.sqrt (y ^ 2 + h ^ 2) ≠ 0 := by positivity
  rw [heron_right, heron_wrong, div_left_inj' hc, Real.sqrt_inj (abs_nonneg _) (abs_nonneg _),
    abs_eq_abs]
  constructor
  · rintro (he | he)
    · right
      have : h ^ 2 * (h ^ 2 + 4 * (x * y)) = 0 := by linear_combination he
      exact (mul_eq_zero.mp this).resolve_left hsq.ne'
    · left
      have : h ^ 2 * (8 * x ^ 2 - (h ^ 2 + 4 * (x * y))) = 0 := by linear_combination he
      linarith [(mul_eq_zero.mp this).resolve_left hsq.ne']
  · rintro (he | he)
    · right
      linear_combination h ^ 2 * he
    · left
      linear_combination h ^ 2 * he

/-- The two tests of the cut-off, on the squares of the sides. -/
theorem heronBeside_sqrt {a b c : ℝ} (ha : 0 ≤ a) (hb : 0 ≤ b) (hc : 0 ≤ c) :
    heronBeside (Real.sqrt a) (Real.sqrt b) (Real.sqrt c) =
      if a + c - b < 0 ∨ b + c - a < 0 then 100000
      else heron (Real.sqrt a) (Real.sqrt b) (Real.sqrt c) := by
  rw [heronBeside, Real.mul_self_sqrt ha, Real.mul_self_sqrt hb, Real.mul_self_sqrt hc]

theorem heron_right_eq_iff (hh : h ≠ 0) : 100000 =
      heron (Real.sqrt (x ^ 2)) (Real.sqrt ((x - y) ^ 2 + h ^ 2)) (Real.sqrt (y ^ 2 + h ^ 2)) ↔
    (x * h) ^ 2 = 100000 ^ 2 * (y ^ 2 + h ^ 2) := by
  have hc : 0 < Real.sqrt (y ^ 2 + h ^ 2) := by positivity
  have hroot : Real.sqrt |4 * (x * h) ^ 2| = 2 * |x * h| := by
    rw [abs_of_nonneg (by positivity), show 4 * (x * h) ^ 2 = (2 * (x * h)) ^ 2 by ring,
      Real.sqrt_sq_eq_abs, abs_mul, abs_two]
  rw [heron_right, hroot, mul_div_mul_left _ _ two_ne_zero, eq_div_iff hc.ne', eq_comm,
    ← sq_eq_sq₀ (abs_nonneg _) (by positivity), sq_abs, mul_pow 100000,
    Real.sq_sqrt (by positivity)]

/-- A point before the start: the first distance is cut off, the second is not. -/
theorem beside_of_neg (hxy : x * y < 0)
    (hl : 8 * x ^ 2 = h ^ 2 + 4 * (x * y) ∨ h ^ 2 + 4 * (x * y) = 0) :
    x ^ 2 + (y ^ 2 + h ^ 2) - ((x - y) ^ 2 + h ^ 2) < 0 ∧
      ¬ ((x - y) ^ 2 + (y ^ 2 + h ^ 2) - x ^ 2 < 0 ∨
        x ^ 2 + (y ^ 2 + h ^ 2) - (x - y) ^ 2 < 0) := by
  have hx := sq_nonneg x
  have hy := sq_nonneg y
  have hh := sq_nonneg h
  refine ⟨by linarith, ?_⟩
  rw [not_or, not_lt, not_lt]
  refine ⟨by linarith, ?_⟩
  cases hl with
  | inl hl => linarith
  | inr hl => linarith

/-- Otherwise none of them is cut off. -/
theorem not_beside_of_nonneg (hxy : 0 ≤ x * y) (hl : 8 * x ^ 2 = h ^ 2 + 4 * (x * y)) :
    ¬ (x ^ 2 + (y ^ 2 + h ^ 2) - ((x - y) ^ 2 + h ^ 2) < 0 ∨
        (x - y) ^ 2 + h ^ 2 + (y ^ 2 + h ^ 2) - x ^ 2 < 0) ∧
      ¬ ((x - y) ^ 2 + (y ^ 2 + h ^ 2) - x ^ 2 < 0 ∨
        x ^ 2 + (y ^ 2 + h ^ 2) - (x - y) ^ 2 < 0) := by
  have hh := sq_nonneg h
  have hx := sq_nonneg x
  have h₁ := sq_nonneg (2 * y - 5 * x)
  have h₂ := sq_nonneg (2 * y - 3 * x)
  rw [not_or, not_lt, not_lt, not_or, not_lt, not_lt]
  refine ⟨⟨by linarith, by linarith⟩, by linarith, by linarith⟩

/-- Where the two distances agree, of both functions. -/
theorem coincides_iff (hh : h ≠ 0) :
    (heronBeside (Real.sqrt (x ^ 2)) (Real.sqrt ((x - y) ^ 2 + h ^ 2))
        (Real.sqrt (y ^ 2 + h ^ 2)) =
        heronBeside (Real.sqrt ((x - y) ^ 2)) (Real.sqrt (x ^ 2)) (Real.sqrt (y ^ 2 + h ^ 2)) ∧
      heron (Real.sqrt (x ^ 2)) (Real.sqrt ((x - y) ^ 2 + h ^ 2)) (Real.sqrt (y ^ 2 + h ^ 2)) =
        heron (Real.sqrt ((x - y) ^ 2)) (Real.sqrt (x ^ 2)) (Real.sqrt (y ^ 2 + h ^ 2))) ↔
    Coincides x y h := by
  have hsq : 0 < h ^ 2 := by positivity
  rw [heronBeside_sqrt (by positivity) (by positivity) (by positivity),
    heronBeside_sqrt (by positivity) (by positivity) (by positivity)]
  by_cases hxy : x * y < 0
  · have hcase : Coincides x y h ↔ (8 * x ^ 2 = h ^ 2 + 4 * (x * y) ∨ h ^ 2 + 4 * (x * y) = 0) ∧
        (x * h) ^ 2 = 100000 ^ 2 * (y ^ 2 + h ^ 2) := by
      constructor
      · rintro (⟨-, hside⟩ | ⟨-, hl, hheight⟩)
        · exact absurd hxy (not_lt.mpr hside)
        · exact ⟨hl, hheight⟩
      · exact fun h => .before hxy h.1 h.2
    rw [hcase, ← heron_eq_iff hh, ← heron_right_eq_iff hh, and_comm]
    refine and_congr_right (fun he => ?_)
    obtain ⟨hcut, hkeep⟩ := beside_of_neg hxy ((heron_eq_iff hh).mp he)
    rw [if_pos (Or.inl hcut), if_neg hkeep, he]
  · have hnonneg := not_lt.mp hxy
    have hcase : Coincides x y h ↔ 8 * x ^ 2 = h ^ 2 + 4 * (x * y) := by
      constructor
      · rintro (⟨hl, -⟩ | ⟨hside, -, -⟩)
        · exact hl
        · exact absurd hside hxy
      · exact fun hl => .after hl hnonneg
    rw [hcase]
    constructor
    · rintro ⟨-, he⟩
      refine ((heron_eq_iff hh).mp he).resolve_right (fun h0 => ?_)
      linarith
    · intro hl
      obtain ⟨hkeep, hkeep'⟩ := not_beside_of_nonneg hnonneg hl
      have he := (heron_eq_iff hh).mpr (Or.inl hl)
      rw [if_neg hkeep, if_neg hkeep']
      exact ⟨he, he⟩

end parallel

/-! ### Any point -/

section sides

variable {lat lon sx sy ex ey : ℝ}

theorem latUnit_pos : 0 < latUnit := by
  unfold latUnit
  norm_num

theorem lonUnit_eq_zero : lonUnit lat = 0 ↔ Real.cos (lat * PI / 180) = 0 := by
  unfold lonUnit
  constructor
  · intro h
    by_contra hc
    exact (by positivity : (40075360 * Real.cos (lat * PI / 180) / 360 : ℝ) ≠ 0) h
  · intro h
    rw [h, mul_zero, zero_div]

/-- `a` is the distance from the start only on a segment along a parallel, or on the parallel of
the start. -/
theorem radicandA_eq_iff : radicandA lat lon sx sy ey = planarSq lat lon sx sy ↔
    lat = sy ∨ sy = ey := by
  have hv := latUnit_pos
  have hdiff : radicandA lat lon sx sy ey - planarSq lat lon sx sy =
      (lat - sy) * (sy - ey) * latUnit ^ 2 := by
    unfold radicandA planarSq
    ring
  rw [← sub_eq_zero, hdiff, mul_eq_zero, mul_eq_zero, sub_eq_zero, sub_eq_zero,
    or_iff_left (pow_ne_zero 2 hv.ne')]

theorem radicandB_eq : radicandB lat lon ex ey = planarSq lat lon ex ey := by
  unfold radicandB planarSq
  ring

theorem radicandC_comm : radicandC lat ex ey sx sy = radicandC lat sx sy ex ey := by
  unfold radicandC
  ring

/-- Along a parallel everything is right, unless a degree of longitude has no length. -/
theorem segmentRight_along (hne : sx ≠ ex) :
    SegmentRight lat lon sx sy ex sy ↔ Real.cos (lat * PI / 180) ≠ 0 := by
  have hC : radicandC lat sx sy ex sy = ((ex - sx) * lonUnit lat) ^ 2 := by
    unfold radicandC
    ring
  have hA : radicandA lat lon sx sy sy = planarSq lat lon sx sy := radicandA_eq_iff.mpr (Or.inr rfl)
  rw [Ne, ← lonUnit_eq_zero]
  constructor
  · intro h hu
    have hpos := h.posC
    rw [hC, hu, mul_zero, zero_pow two_ne_zero] at hpos
    exact lt_irrefl 0 hpos
  · intro hu
    refine ⟨?_, ?_, ?_, by rw [hA], by rw [radicandB_eq], ?_, ?_⟩
    · rw [hA]
      unfold planarSq
      positivity
    · rw [radicandB_eq]
      unfold planarSq
      positivity
    · rw [hC]
      have : ex - sx ≠ 0 := sub_ne_zero.mpr hne.symm
      positivity
    · rw [mapMatching_eq, mapMatching_eq, heronBeside_comm, radicandC_comm]
      rfl
    · rw [distNode2line_eq, distNode2line_eq, heron_comm, radicandC_comm]
      rfl

/-- On the parallel of the start, `a` and `b` are right; the rest is a coincidence. -/
theorem segmentRight_start (hne : sy ≠ ey) :
    SegmentRight sy lon sx sy ex ey ↔ Coincides ((lon - sx) * lonUnit sy)
      ((ex - sx) * lonUnit sy) ((ey - sy) * latUnit) := by
  have hh : (ey - sy) * latUnit ≠ 0 := mul_ne_zero (sub_ne_zero.mpr hne.symm) latUnit_pos.ne'
  have hA : radicandA sy lon sx sy ey = ((lon - sx) * lonUnit sy) ^ 2 := by
    unfold radicandA
    ring
  have hB : radicandB sy lon ex ey = ((lon - sx) * lonUnit sy - (ex - sx) * lonUnit sy) ^ 2 +
      ((ey - sy) * latUnit) ^ 2 := by
    unfold radicandB
    ring
  have hC : radicandC sy sx sy ex ey = ((ex - sx) * lonUnit sy) ^ 2 +
      ((ey - sy) * latUnit) ^ 2 := by
    unfold radicandC
    ring
  have hA' : radicandA sy lon ex ey sy =
      ((lon - sx) * lonUnit sy - (ex - sx) * lonUnit sy) ^ 2 := by
    unfold radicandA
    ring
  have hB' : radicandB sy lon sx sy = ((lon - sx) * lonUnit sy) ^ 2 := by
    unfold radicandB
    ring
  have hC' : radicandC sy ex ey sx sy = ((ex - sx) * lonUnit sy) ^ 2 +
      ((ey - sy) * latUnit) ^ 2 := radicandC_comm.trans hC
  rw [← coincides_iff hh, ← hA, ← hB, ← hC]
  constructor
  · intro h
    have hm := h.matching
    have hl := h.line
    rw [mapMatching_eq, mapMatching_eq, hA', hB', hC', ← hC, ← hA] at hm
    rw [distNode2line_eq, distNode2line_eq, hA', hB', hC', ← hC, ← hA] at hl
    exact ⟨hm, hl⟩
  · rintro ⟨hm, hl⟩
    refine ⟨by rw [hA]; positivity, by rw [hB]; positivity, by rw [hC]; positivity,
      by rw [radicandA_eq_iff.mpr (Or.inl rfl)], by rw [radicandB_eq], ?_, ?_⟩
    · rw [mapMatching_eq, mapMatching_eq, hA', hB', hC', ← hC, ← hA]
      exact hm
    · rw [distNode2line_eq, distNode2line_eq, hA', hB', hC', ← hC, ← hA]
      exact hl

/-- **The distance from a segment** is computed right exactly if the segment runs along a
parallel, or by a coincidence. -/
theorem segmentRight_iff (hne : (sx, sy) ≠ (ex, ey)) :
    SegmentRight lat lon sx sy ex ey ↔
      (sy = ey ∧ Real.cos (lat * PI / 180) ≠ 0) ∨
      (lat = sy ∧ sy ≠ ey ∧ Coincides ((lon - sx) * lonUnit lat) ((ex - sx) * lonUnit lat)
        ((ey - sy) * latUnit)) := by
  by_cases hy : sy = ey
  · subst hy
    have hx : sx ≠ ex := fun h => hne (by rw [h])
    rw [segmentRight_along hx]
    simp
  · have hlat : SegmentRight lat lon sx sy ex ey → lat = sy := by
      intro h
      have hp : 0 ≤ planarSq lat lon sx sy := by
        unfold planarSq
        positivity
      exact (radicandA_eq_iff.mp ((Real.sqrt_inj h.nonnegA hp).mp h.a)).resolve_right hy
    constructor
    · intro h
      obtain rfl := hlat h
      exact Or.inr ⟨rfl, hy, (segmentRight_start hy).mp h⟩
    · rintro (⟨h, -⟩ | ⟨rfl, -, hc⟩)
      · exact absurd h hy
      · exact (segmentRight_start hy).mpr hc

end sides

/-- The origin and a segment of the equator. -/
theorem segmentRight_iff_sample : SegmentRight 0 0 0 0 1 0 := by
  refine (segmentRight_iff (by norm_num)).mpr (Or.inl ⟨rfl, ?_⟩)
  rw [zero_mul, zero_div, Real.cos_zero]
  exact one_ne_zero

/-- The middle of a segment along a meridian: `a` is the root of a negative number. -/
theorem not_segmentRight : ¬ SegmentRight 1 0 0 0 0 2 := by
  intro h
  have hneg : radicandA 1 0 0 0 2 = -latUnit ^ 2 := by
    unfold radicandA
    ring
  have hA := h.nonnegA
  rw [hneg] at hA
  have hv := pow_pos latUnit_pos 2
  linarith

end GeoSvr.Sphere
