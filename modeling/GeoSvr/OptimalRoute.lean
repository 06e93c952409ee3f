import GeoSvr.Completeness

/-! # Which route is the optimal one (`map_manager.cc`)

`cal_optimal_route` is to return the first of the routes that has the least total type and, among
these, the least spread around the mean (`FirstBest`).  Its loop compares the attributes of each
route with the best so far, and sets a route's accumulators to 0 first.  But the first route is
evaluated with `min_type`, which `route_attribute` adds to, at `INT_MAX`.

So a first route with a positive total gets a negative one, which no other route beats: it is
returned whatever the others are.  A first route with the total 0 is beaten by every route whose
total is below `INT_MAX`, though it is the best there is.  `StartsBest` says when the answer is
right all the same. -/

namespace GeoSvr.MapManager

/-! ### Definitions -/

/-- The sum of the types. -/
def total (route : List Route) : ℤ := (route.map Route.type).sum

/-- The mean square of the distances of the types from `mean`. -/
def scatter (mean : ℚ) (route : List Route) : ℚ :=
  (route.map (fun r => ((r.type : ℚ) - mean) * ((r.type : ℚ) - mean))).sum / route.length

/-- The square of the standard deviation of the types about their mean. -/
def spread (route : List Route) : ℚ := scatter ((total route : ℚ) / route.length) route

/-- `r` is better than `q`. -/
def Before (r q : List Route) : Prop :=
  total r < total q ∨ (total r = total q ∧ spread r < spread q)

instance (r q : List Route) : Decidable (Before r q) := inferInstanceAs (Decidable (_ ∨ _))

/-- The first of the best routes. -/
def FirstBest (routes : List (List Route)) (r : List Route) : Prop :=
  ∃ pre post, routes = pre ++ r :: post ∧ (∀ q ∈ pre, Before r q) ∧ ∀ q ∈ post, ¬ Before q r

/-- Nothing beats a first route with the total 0: the others have the total `INT_MAX`, and their
types lie as far from `⌊INT_MAX / length⌋` as 0 does from that of the first route. -/
def Unbeaten (route : List Route) (rest : List (List Route)) : Prop :=
  ∀ q ∈ rest, total q = INT_MAX ∧
    ((INT_MAX.toNat / route.length : ℕ) : ℚ) * ((INT_MAX.toNat / route.length : ℕ) : ℚ) ≤
      scatter ((INT_MAX.toNat / q.length : ℕ) : ℚ) q

instance (route : List Route) (rest : List (List Route)) : Decidable (Unbeaten route rest) :=
  inferInstanceAs (Decidable (∀ q ∈ rest, _))

/-- The first route has a positive total and no other is better; or it has the total 0, and the
first other one with the total 0 is the same, or there is none and nothing beats the first. -/
def StartsBest : List (List Route) → Prop
  | [] => False
  | route :: rest =>
      (0 < total route ∧ ∀ q ∈ rest, ¬ Before q route) ∨
      (total route = 0 ∧ (rest.find? (fun q => total q == 0) = some route ∨
        (rest.find? (fun q => total q == 0) = none ∧ Unbeaten route rest)))

/-- The types are not negative, and their sum is an `int`. -/
structure Addable (route : List Route) : Prop where
  ne_nil : route ≠ []
  nonneg : ∀ r ∈ route, 0 ≤ r.type
  le_max : total route ≤ INT_MAX

/-! ### Totals and spreads -/

theorem total_cons (r : Route) (route : List Route) : total (r :: route) = r.type + total route := by
  rw [total, List.map_cons, List.sum_cons, total]

theorem total_nonneg {route : List Route} (h : ∀ r ∈ route, 0 ≤ r.type) : 0 ≤ total route := by
  refine List.sum_nonneg (fun t ht => ?_)
  obtain ⟨r, hr, rfl⟩ := List.mem_map.mp ht
  exact h r hr

/-- A route with the total 0 has types 0. -/
theorem type_eq_zero : ∀ {route : List Route}, (∀ r ∈ route, 0 ≤ r.type) → total route = 0 →
    ∀ r ∈ route, r.type = 0
  | [], _, _, _, hr => absurd hr List.not_mem_nil
  | s :: route, h, h0, r, hr => by
      rw [total_cons] at h0
      have hs := h s List.mem_cons_self
      have hrest : ∀ r ∈ route, 0 ≤ r.type := fun r hr => h r (List.mem_cons_of_mem _ hr)
      have hsum := total_nonneg hrest
      cases List.mem_cons.mp hr with
      | inl he => rw [he]; omega
      | inr hr => exact type_eq_zero hrest (by omega) r hr

theorem scatter_nonneg (mean : ℚ) (route : List Route) : 0 ≤ scatter mean route := by
  refine div_nonneg (List.sum_nonneg (fun t ht => ?_)) (Nat.cast_nonneg _)
  obtain ⟨r, -, rfl⟩ := List.mem_map.mp ht
  exact mul_self_nonneg _

/-- Types 0 lie as far from the mean as it is from 0. -/
theorem scatter_of_zero {route : List Route} (hne : route ≠ []) (h : ∀ r ∈ route, r.type = 0)
    (mean : ℚ) : scatter mean route = mean * mean := by
  have hmap : route.map (fun r => ((r.type : ℚ) - mean) * ((r.type : ℚ) - mean)) =
      List.replicate route.length (mean * mean) := by
    refine List.eq_replicate_iff.mpr ⟨List.length_map _, fun t ht => ?_⟩
    obtain ⟨r, hr, rfl⟩ := List.mem_map.mp ht
    rw [h r hr, Int.cast_zero, zero_sub, neg_mul_neg]
  have hlen : (route.length : ℚ) ≠ 0 := Nat.cast_ne_zero.mpr (by simpa using hne)
  rw [scatter, hmap, List.sum_replicate, nsmul_eq_mul, mul_div_cancel_left₀ _ hlen]

theorem spread_of_zero {route : List Route} (h : Addable route) (h0 : total route = 0) :
    spread route = 0 := by
  rw [spread, scatter_of_zero h.ne_nil (type_eq_zero h.nonneg h0), h0, Int.cast_zero, zero_div,
    mul_zero]

theorem Before.irrefl (r : List Route) : ¬ Before r r := by
  rintro (h | ⟨-, h⟩)
  · exact lt_irrefl _ h
  · exact lt_irrefl _ h

/-- Nothing is better than a route with the total 0. -/
theorem not_before_zero {route q : List Route} (h : Addable route) (h0 : total route = 0)
    (hq : Addable q) : ¬ Before q route := by
  rintro (hlt | ⟨-, hlt⟩)
  · exact absurd (total_nonneg hq.nonneg) (by omega)
  · rw [spread_of_zero h h0] at hlt
    exact absurd (scatter_nonneg _ q) (not_le.mpr hlt)

theorem firstBest_head_iff {route : List Route} {rest : List (List Route)} :
    FirstBest (route :: rest) route ↔ ∀ q ∈ rest, ¬ Before q route := by
  constructor
  · rintro ⟨pre, post, he, hpre, hpost⟩
    cases pre with
    | nil =>
        cases he
        exact hpost
    | cons p pre =>
        cases he
        exact absurd (hpre route List.mem_cons_self) (Before.irrefl route)
  · exact fun h => ⟨[], rest, rfl, fun q hq => absurd hq List.not_mem_nil, h⟩

/-- Of a list that begins with a route with the total 0 this route is the first best. -/
theorem firstBest_iff_of_zero {route r : List Route} {rest : List (List Route)}
    (h : ∀ q ∈ route :: rest, Addable q) (h0 : total route = 0) :
    FirstBest (route :: rest) r ↔ r = route := by
  have hroute := h route List.mem_cons_self
  constructor
  · rintro ⟨pre, post, he, hpre, -⟩
    cases pre with
    | nil =>
        cases he
        rfl
    | cons p pre =>
        have hr : Addable r := h r (by rw [he]; simp)
        cases he
        exact absurd (hpre route List.mem_cons_self) (not_before_zero hroute h0 hr)
  · rintro rfl
    exact firstBest_head_iff.mpr
      (fun q hq => not_before_zero hroute h0 (h q (List.mem_cons_of_mem _ hq)))

/-! ### The attributes -/

theorem foldl_intAdd : ∀ (types : List ℤ) (t : ℤ), Int.bmod t (2 ^ 32) = t →
    types.foldl intAdd t = Int.bmod (t + types.sum) (2 ^ 32)
  | [], t, h => by
      rw [List.sum_nil, add_zero]
      exact h.symm
  | type :: types, t, _ => by
      have hstep : Int.bmod (intAdd t type) (2 ^ 32) = intAdd t type := Int.bmod_bmod
      rw [List.foldl_cons, foldl_intAdd types _ hstep, intAdd, Int.bmod_add_bmod, List.sum_cons,
        add_assoc]

theorem foldl_intAdd_type (route : List Route) {t : ℤ} (h : Int.bmod t (2 ^ 32) = t) :
    route.foldl (fun t r => intAdd t r.type) t = Int.bmod (t + total route) (2 ^ 32) := by
  rw [total, ← foldl_intAdd _ t h, List.foldl_map]

theorem bmod_of_lt {i : ℤ} (h₀ : -2 ^ 31 ≤ i) (h₁ : i < 2 ^ 31) : Int.bmod i (2 ^ 32) = i :=
  Int.bmod_eq_of_le (by omega) (by omega)

/-- The sum of the types, started at 0. -/
theorem routeAttribute_type {R : Type*} [Scalar R] {route : List Route} (h : Addable route) :
    (routeAttribute (R := R) route 0).1 = total route := by
  have h0 := total_nonneg h.nonneg
  have hle := h.le_max
  unfold INT_MAX at hle
  show route.foldl (fun t r => intAdd t r.type) 0 = total route
  rw [foldl_intAdd_type route rfl, zero_add]
  exact bmod_of_lt (by omega) (by omega)

/-- Started at `INT_MAX`, a positive sum becomes negative. -/
theorem routeAttribute_first {R : Type*} [Scalar R] {route : List Route} (h : Addable route) :
    (0 < total route → (routeAttribute (R := R) route INT_MAX).1 < 0) ∧
      (total route = 0 → (routeAttribute (R := R) route INT_MAX).1 = INT_MAX) := by
  have hle := h.le_max
  have hfirst : (routeAttribute (R := R) route INT_MAX).1 =
      Int.bmod (INT_MAX + total route) (2 ^ 32) := foldl_intAdd_type route rfl
  rw [hfirst]
  unfold INT_MAX at hle ⊢
  constructor
  · intro hpos
    rw [Int.bmod_eq_emod]
    split_ifs <;> omega
  · intro h0
    rw [h0]
    rfl

theorem foldl_squares (mean : ℝ) : ∀ (route : List Route) (sum : ℝ),
    (∀ r ∈ route, 0 ≤ r.type) →
    route.foldl (fun sum r => sum + (ofInt r.type - mean) * (ofInt r.type - mean)) sum =
      sum + (route.map (fun r => ((r.type : ℝ) - mean) * ((r.type : ℝ) - mean))).sum
  | [], sum, _ => by rw [List.foldl_nil, List.map_nil, List.sum_nil, add_zero]
  | r :: route, sum, h => by
      have hr : (ofInt r.type : ℝ) = r.type := by
        have h0 := h r List.mem_cons_self
        rw [ofInt, if_pos h0]
        show ((r.type.toNat : ℕ) : ℝ) = r.type
        exact_mod_cast Int.toNat_of_nonneg h0
      rw [List.foldl_cons, foldl_squares mean route _ (fun r hr => h r (List.mem_cons_of_mem _ hr)),
        hr, List.map_cons, List.sum_cons, add_assoc]

/-- The deviation from the truncated mean of the sum that the accumulator holds. -/
theorem routeAttribute_dev {route : List Route} (h : Addable route) {t : ℤ} {s : ℕ}
    (hlt : s < 2 ^ 64) (hs : (routeAttribute (R := ℝ) route t).1 = s) :
    (routeAttribute (R := ℝ) route t).2 =
      Real.sqrt (scatter ((s / route.length : ℕ) : ℚ) route : ℝ) := by
  have htype : route.foldl (fun t r => intAdd t r.type) t = (s : ℤ) := hs
  have hs' : ((s : ℤ) % 2 ^ 64).toNat = s % 2 ^ 64 := by omega
  unfold routeAttribute
  dsimp only
  rw [htype, hs', Nat.mod_eq_of_lt hlt, foldl_squares _ route _ h.nonneg]
  show Real.sqrt _ = Real.sqrt _
  rw [scatter, Rat.cast_div, Rat.cast_natCast, Rat.cast_list_sum, List.map_map]
  have hnat : ∀ k : ℕ, (Scalar.ofNat k : ℝ) = k := fun _ => rfl
  simp only [Function.comp_def, Rat.cast_mul, Rat.cast_sub, Rat.cast_intCast, Rat.cast_natCast,
    hnat, Nat.cast_zero, zero_add]

/-! ### The loop -/

/-- The loop passes the route `q` by. -/
def PassesBy {R : Type*} [Scalar R] (minType : ℤ) (minDev : R) (q : List Route) : Prop :=
  minType ≤ (routeAttribute (R := R) q 0).1 ∧
    (minType = (routeAttribute (R := R) q 0).1 →
      Scalar.lt (routeAttribute (R := R) q 0).2 minDev = false)

/-- The loop keeps the best route if it passes all others by, and returns another one if not. -/
theorem optimalFrom_cases {R : Type*} [Scalar R] : ∀ (rest : List (List Route))
    (best : List Route) (t : ℤ) (dev : R),
    ((∀ q ∈ rest, PassesBy t dev q) ∧ optimalFrom best t dev rest = best) ∨
      ((∃ q ∈ rest, ¬ PassesBy t dev q) ∧ optimalFrom best t dev rest ∈ rest)
  | [], best, _, _ => Or.inl ⟨fun q hq => absurd hq List.not_mem_nil, rfl⟩
  | q :: rest, best, t, dev => by
      unfold optimalFrom
      simp only
      split_ifs with hlt heq
      · refine Or.inr ⟨⟨q, List.mem_cons_self, fun h => ?_⟩, optimalFrom_mem rest q _ _⟩
        exact absurd h.1 (not_le.mpr hlt)
      · refine Or.inr ⟨⟨q, List.mem_cons_self, fun h => ?_⟩, optimalFrom_mem rest q _ _⟩
        have hnot := h.2 heq.1
        rw [heq.2] at hnot
        cases hnot
      · have hq : PassesBy t dev q :=
          ⟨not_lt.mp hlt, fun he => by simpa using fun h => heq ⟨he, h⟩⟩
        obtain ⟨hall, he⟩ | ⟨⟨p, hp, hnot⟩, hmem⟩ := optimalFrom_cases rest best t dev
        · refine Or.inl ⟨fun p hp => ?_, he⟩
          cases List.mem_cons.mp hp with
          | inl hp => rw [hp]; exact hq
          | inr hp => exact hall p hp
        · exact Or.inr ⟨⟨p, List.mem_cons_of_mem _ hp, hnot⟩, List.mem_cons_of_mem _ hmem⟩

section real

variable {route : List Route} {rest : List (List Route)}

theorem dev_of_zero (h : Addable route) (h0 : total route = 0) :
    (routeAttribute (R := ℝ) route 0).2 = 0 := by
  have htype : (routeAttribute (R := ℝ) route 0).1 = (0 : ℕ) := by
    rw [routeAttribute_type h, h0]
    rfl
  rw [routeAttribute_dev h (by decide) htype, scatter_of_zero h.ne_nil (type_eq_zero h.nonneg h0)]
  simp

/-- From a positive total the loop goes on to the first route with the total 0, and no further. -/
theorem optimalFrom_zero : ∀ {rest : List (List Route)} (best : List Route) {t : ℤ} (dev : ℝ),
    0 < t → (∀ q ∈ rest, Addable q) → rest.find? (fun q => total q == 0) = some route →
    optimalFrom best t dev rest = route
  | [], _, _, _, _, _, hf => by cases hf
  | q :: rest, best, t, dev, ht, h, hf => by
      have hq := h q List.mem_cons_self
      have hrest : ∀ q ∈ rest, Addable q := fun q hq => h q (List.mem_cons_of_mem _ hq)
      have htype := routeAttribute_type (R := ℝ) hq
      rw [List.find?_cons] at hf
      unfold optimalFrom
      simp only [htype]
      by_cases h0 : total q = 0
      · rw [h0] at hf
        cases hf
        rw [if_pos (by omega), dev_of_zero hq h0]
        obtain ⟨-, he⟩ | ⟨⟨p, hp, hnot⟩, -⟩ := optimalFrom_cases (R := ℝ) rest route (total route) 0
        · exact he
        · refine absurd ⟨?_, fun _ => ?_⟩ hnot
          · rw [h0, routeAttribute_type (hrest p hp)]
            exact total_nonneg (hrest p hp).nonneg
          · rw [← Bool.not_eq_true, lt_iff, not_lt]
            exact Real.sqrt_nonneg _
      · have hpos : 0 < total q := by
          have := total_nonneg hq.nonneg
          omega
        rw [beq_eq_false_iff_ne.mpr h0] at hf
        split_ifs
        · exact optimalFrom_zero q _ hpos hrest hf
        · exact optimalFrom_zero q _ hpos hrest hf
        · exact optimalFrom_zero best _ ht hrest hf

/-- What it takes for the loop to pass a route by, after a first route with the total 0. -/
theorem passesBy_iff (h : Addable route) (h0 : total route = 0) {q : List Route} (hq : Addable q) :
    PassesBy INT_MAX (routeAttribute (R := ℝ) route INT_MAX).2 q ↔ total q = INT_MAX ∧
      ((INT_MAX.toNat / route.length : ℕ) : ℚ) * ((INT_MAX.toNat / route.length : ℕ) : ℚ) ≤
        scatter ((INT_MAX.toNat / q.length : ℕ) : ℚ) q := by
  have hfirst : (routeAttribute (R := ℝ) route INT_MAX).1 = (INT_MAX.toNat : ℕ) :=
    (routeAttribute_first h).2 h0
  have hle := hq.le_max
  unfold PassesBy
  rw [routeAttribute_type hq, routeAttribute_dev h (by decide) hfirst,
    scatter_of_zero h.ne_nil (type_eq_zero h.nonneg h0)]
  by_cases he : total q = INT_MAX
  · have hmax : (routeAttribute (R := ℝ) q 0).1 = (INT_MAX.toNat : ℕ) := by
      rw [routeAttribute_type hq, he]
      rfl
    rw [routeAttribute_dev hq (by decide) hmax, ← Bool.not_eq_true, lt_iff, not_lt,
      Real.sqrt_le_sqrt_iff (by exact_mod_cast scatter_nonneg _ q), Rat.cast_le]
    simp only [he, le_refl, true_and, true_implies]
  · exact iff_of_false (fun hc => he (by omega)) (fun hc => he hc.1)

end real

/-! ### The result -/

section first

variable {route : List Route} {rest : List (List Route)}

/-- A first route with a positive total is kept. -/
theorem calOptimalRoute_of_pos (h : ∀ q ∈ route :: rest, Addable q) (hpos : 0 < total route) :
    calOptimalRoute ℝ (route :: rest) = route := by
  have hneg := (routeAttribute_first (R := ℝ) (h route List.mem_cons_self)).1 hpos
  obtain ⟨-, he⟩ | ⟨⟨q, hq, hnot⟩, -⟩ := optimalFrom_cases (R := ℝ) rest route
    (routeAttribute (R := ℝ) route INT_MAX).1 (routeAttribute (R := ℝ) route INT_MAX).2
  · exact he
  · have hq' := h q (List.mem_cons_of_mem _ hq)
    have hq0 := total_nonneg hq'.nonneg
    rw [PassesBy, routeAttribute_type hq'] at hnot
    exact absurd ⟨by omega, fun he => by omega⟩ hnot

/-- One with the total 0 is kept if the first other one with the total 0 is the same, or there is
none and nothing beats it. -/
theorem calOptimalRoute_of_zero (h : ∀ q ∈ route :: rest, Addable q) (h0 : total route = 0) :
    calOptimalRoute ℝ (route :: rest) = route ↔
      rest.find? (fun q => total q == 0) = some route ∨
        (rest.find? (fun q => total q == 0) = none ∧ Unbeaten route rest) := by
  have hroute := h route List.mem_cons_self
  have hrest : ∀ q ∈ rest, Addable q := fun q hq => h q (List.mem_cons_of_mem _ hq)
  have hcal : calOptimalRoute ℝ (route :: rest) =
      optimalFrom route INT_MAX (routeAttribute (R := ℝ) route INT_MAX).2 rest :=
    congrArg (fun type => optimalFrom route type (routeAttribute (R := ℝ) route INT_MAX).2 rest)
      ((routeAttribute_first (R := ℝ) hroute).2 h0)
  rw [hcal]
  cases hfind : rest.find? (fun q => total q == 0) with
  | some q =>
      rw [optimalFrom_zero route _ (by decide) hrest hfind]
      simp
  | none =>
      have hpass : (∀ q ∈ rest,
          PassesBy INT_MAX (routeAttribute (R := ℝ) route INT_MAX).2 q) ↔ Unbeaten route rest :=
        forall₂_congr (fun q hq => passesBy_iff hroute h0 (hrest q hq))
      simp only [reduceCtorEq, false_or, true_and, ← hpass]
      obtain ⟨hall, he⟩ | ⟨⟨q, hq, hnot⟩, hmem⟩ := optimalFrom_cases (R := ℝ) rest route INT_MAX
        (routeAttribute (R := ℝ) route INT_MAX).2
      · exact iff_of_true he hall
      · refine iff_of_false (fun he => ?_) (fun hall => hnot (hall q hq))
        rw [he] at hmem
        have := List.find?_eq_none.mp hfind route hmem
        simp [h0] at this

end first

/-- **The choice of the optimal route.**  `cal_optimal_route` returns the first of the best routes
exactly when the first route of the list is as `StartsBest` says. -/
theorem firstBest_iff {routes : List (List Route)} (hne : routes ≠ [])
    (h : ∀ route ∈ routes, Addable route) :
    FirstBest routes (calOptimalRoute ℝ routes) ↔ StartsBest routes := by
  cases routes with
  | nil => exact absurd rfl hne
  | cons route rest =>
      unfold StartsBest
      by_cases h0 : total route = 0
      · rw [firstBest_iff_of_zero h h0, calOptimalRoute_of_zero h h0]
        simp only [h0, lt_irrefl, false_and, true_and, false_or]
      · have hpos : 0 < total route := by
          have := total_nonneg (h route List.mem_cons_self).nonneg
          omega
        rw [calOptimalRoute_of_pos h hpos, firstBest_head_iff]
        simp only [hpos, h0, true_and, false_and, or_false]

/-- One road of type 3. -/
theorem firstBest_iff_sample :
    FirstBest [[⟨7, 0, 1, 3⟩]] (calOptimalRoute ℝ [[⟨7, 0, 1, 3⟩]]) :=
  (firstBest_iff (by decide) (fun route hm => by
    rw [List.mem_singleton.mp hm]
    exact ⟨by decide, by decide, by decide⟩)).mpr (Or.inl ⟨by decide, by simp⟩)

/-- A road of type 0, and one of type 5: the second is returned. -/
theorem worse_returned : ∃ routes : List (List Route), routes ≠ [] ∧
    (∀ route ∈ routes, Addable route) ∧ ¬ FirstBest routes (calOptimalRoute ℝ routes) := by
  have hadd : ∀ route ∈ [[(⟨7, 0, 1, 0⟩ : Route)], [⟨8, 0, 1, 5⟩]], Addable route := by
    intro route hm
    simp only [List.mem_cons, List.not_mem_nil, or_false] at hm
    obtain rfl | rfl := hm
    · exact ⟨by decide, by decide, by decide⟩
    · exact ⟨by decide, by decide, by decide⟩
  refine ⟨[[⟨7, 0, 1, 0⟩], [⟨8, 0, 1, 5⟩]], by decide, hadd, fun hbest => ?_⟩
  have hcal : calOptimalRoute ℝ [[⟨7, 0, 1, 0⟩], [⟨8, 0, 1, 5⟩]] = [⟨8, 0, 1, 5⟩] := by
    unfold calOptimalRoute optimalFrom
    exact if_pos (by decide)
  rw [hcal, firstBest_iff_of_zero hadd (by decide)] at hbest
  exact absurd hbest (by decide)

end GeoSvr.MapManager
