import GeoSvr.FirstLeast
import GeoSvr.OptimalRoute
import GeoSvr.MsvrMap

/-! # Which path `findMeanMin` takes (`msvr_map.cc`)

`findMeanMin` is to return the index of the path whose types have the least sum and, if several
paths have it, the first of these with the least mean (`IsChoice`).  Its first loop finds the first
of the least sums and whether there is another one.  If there is, the second loop looks for the
first of the least means, but it looks at all paths, not only at those with the least sum.

So the answer is right when the least sum is unique, or when the first of the least means of all
paths belongs to a least sum (`findMeanMin_isChoice_iff`). -/

namespace GeoSvr.MsvrMap

open FirstLeast (IsFirstLeast)
open MapManager (INT_MAX intAdd)

/-! ### The choice -/

/-- The sum of the types of the path `i`. -/
def sumAt (types : List (List ℤ)) (i : ℕ) : ℤ := (types.getD i []).sum

/-- The mean of the path `i`. -/
def meanAt (means : List ℝ) (i : ℕ) : ℝ := means.getD i 0

/-- `i` is the first of the paths with the least mean, of those with the least sum. -/
structure IsChoice (types : List (List ℤ)) (means : List ℝ) (i : ℕ) : Prop where
  lt : i < types.length
  sum_le : ∀ j < types.length, sumAt types i ≤ sumAt types j
  mean_le : ∀ j < types.length, sumAt types j = sumAt types i → meanAt means i ≤ meanAt means j
  first : ∀ j < types.length, sumAt types j = sumAt types i → meanAt means j = meanAt means i →
    i ≤ j

/-- `i` is the only path with the least sum. -/
def IsOnlyLeast (types : List (List ℤ)) (i : ℕ) : Prop :=
  i < types.length ∧ ∀ j < types.length, j ≠ i → sumAt types i < sumAt types j

/-- One path has a smaller sum than all others. -/
def OneLeastSum (types : List (List ℤ)) : Prop := ∃ i, IsOnlyLeast types i

/-- `i` is the first of all paths with the least mean. -/
structure IsFirstMean (means : List ℝ) (i : ℕ) : Prop where
  lt : i < means.length
  le : ∀ j < means.length, meanAt means i ≤ meanAt means j
  first : ∀ j < means.length, meanAt means j = meanAt means i → i ≤ j

theorem IsFirstMean.unique {means : List ℝ} {i j : ℕ} (hi : IsFirstMean means i)
    (hj : IsFirstMean means j) : i = j := by
  have heq : meanAt means i = meanAt means j := le_antisymm (hi.le j hj.lt) (hj.le i hi.lt)
  exact Nat.le_antisymm (hi.first j hj.lt heq.symm) (hj.first i hi.lt heq)

/-- The sums fit in an `int`. -/
def SumsFit (types : List (List ℤ)) : Prop :=
  ∀ path ∈ types, -2 ^ 31 ≤ path.sum ∧ path.sum < 2 ^ 31

/-! ### The first loop -/

/-- `sum` of the first loop. -/
def sumOf (x : List ℤ × ℕ) : ℤ := x.1.foldl intAdd 0

theorem sumOf_eq {types : List (List ℤ)} (hfit : SumsFit types) {x : List ℤ × ℕ}
    (hx : x ∈ types.zipIdx) : sumOf x = sumAt types x.2 := by
  have hget := List.mem_zipIdx_iff_getElem?.mp hx
  have hmem : x.1 ∈ types := List.mem_of_getElem? hget
  obtain ⟨h₀, h₁⟩ := hfit x.1 hmem
  rw [sumOf, MapManager.foldl_intAdd x.1 0 rfl, zero_add, MapManager.bmod_of_lt h₀ h₁, sumAt,
    List.getD_eq_getElem?_getD, hget, Option.getD_some]

section steps

variable {n : List ℤ × ℕ} {l : List (List ℤ × ℕ)} {cnt : ℕ} {imax : ℤ} {index : ℕ}

theorem leastSum_cons_of_lt (h : sumOf n < imax) :
    leastSum (n :: l) (cnt, imax, index) = leastSum l (1, sumOf n, n.2) := if_pos h

theorem leastSum_cons_of_eq (h : sumOf n = imax) :
    leastSum (n :: l) (cnt, imax, index) = leastSum l (2, imax, index) :=
  (if_neg h.not_lt).trans (if_pos h)

theorem leastSum_cons_of_gt (h : imax < sumOf n) :
    leastSum (n :: l) (cnt, imax, index) = leastSum l (cnt, imax, index) :=
  (if_neg (not_lt.mpr h.le)).trans (if_neg h.ne')

/-- The variables of the first loop after the paths `l`, none of which has a sum below `imax`: `cnt`
is 2 if one of them has the sum `imax`. -/
def Counts (l : List (List ℤ × ℕ)) (cnt : ℕ) (imax : ℤ) (index : ℕ) (s : ℕ × ℤ × ℕ) : Prop :=
  (s = (cnt, imax, index) ∧ ∀ x ∈ l, sumOf x ≠ imax) ∨
    (s = (2, imax, index) ∧ ∃ x ∈ l, sumOf x = imax)

theorem Counts.cons_of_eq {s : ℕ × ℤ × ℕ} (h : Counts l 2 imax index s) (heq : sumOf n = imax) :
    Counts (n :: l) cnt imax index s := by
  have hs : s = (2, imax, index) := by
    obtain ⟨hs, -⟩ | ⟨hs, -⟩ := h <;> exact hs
  exact Or.inr ⟨hs, n, List.mem_cons_self, heq⟩

theorem Counts.cons_of_ne {s : ℕ × ℤ × ℕ} (h : Counts l cnt imax index s) (hne : sumOf n ≠ imax) :
    Counts (n :: l) cnt imax index s := by
  obtain ⟨hs, hall⟩ | ⟨hs, x, hx, hxe⟩ := h
  · exact Or.inl ⟨hs, List.forall_mem_cons.mpr ⟨hne, hall⟩⟩
  · exact Or.inr ⟨hs, x, List.mem_cons_of_mem _ hx, hxe⟩

end steps

/-- What the first loop ends with: no sum is below `imax`, or `n` has the first of the least sums.
`cnt` tells whether the least sum is met again. -/
theorem leastSum_spec : ∀ (l : List (List ℤ × ℕ)) (cnt : ℕ) (imax : ℤ) (index : ℕ),
    ((∀ x ∈ l, imax ≤ sumOf x) ∧ Counts l cnt imax index (leastSum l (cnt, imax, index))) ∨
    ∃ pre n post, l = pre ++ n :: post ∧ sumOf n < imax ∧ (∀ x ∈ pre, sumOf n < sumOf x) ∧
      (∀ x ∈ post, sumOf n ≤ sumOf x) ∧
      Counts post 1 (sumOf n) n.2 (leastSum l (cnt, imax, index))
  | [], cnt, imax, index =>
      Or.inl ⟨fun x hx => absurd hx List.not_mem_nil,
        Or.inl ⟨rfl, fun x hx => absurd hx List.not_mem_nil⟩⟩
  | n :: l, cnt, imax, index => by
      obtain hlt | heq | hgt := lt_trichotomy (sumOf n) imax
      · -- the path is the best so far
        rw [leastSum_cons_of_lt hlt]
        obtain ⟨hle, hcnt⟩ | ⟨pre, m, post, rfl, hm, hpre, hpost, hcnt⟩ :=
          leastSum_spec l 1 (sumOf n) n.2
        · exact Or.inr ⟨[], n, l, rfl, hlt, fun x hx => absurd hx List.not_mem_nil, hle, hcnt⟩
        · exact Or.inr ⟨n :: pre, m, post, rfl, hm.trans hlt,
            List.forall_mem_cons.mpr ⟨hm, hpre⟩, hpost, hcnt⟩
      · -- it is as good as the best so far
        rw [leastSum_cons_of_eq heq]
        obtain ⟨hle, hcnt⟩ | ⟨pre, m, post, rfl, hm, hpre, hpost, hcnt⟩ :=
          leastSum_spec l 2 imax index
        · exact Or.inl ⟨List.forall_mem_cons.mpr ⟨heq.ge, hle⟩, hcnt.cons_of_eq heq⟩
        · exact Or.inr ⟨n :: pre, m, post, rfl, hm,
            List.forall_mem_cons.mpr ⟨heq ▸ hm, hpre⟩, hpost, hcnt⟩
      · -- it is worse
        rw [leastSum_cons_of_gt hgt]
        obtain ⟨hle, hcnt⟩ | ⟨pre, m, post, rfl, hm, hpre, hpost, hcnt⟩ :=
          leastSum_spec l cnt imax index
        · exact Or.inl ⟨List.forall_mem_cons.mpr ⟨hgt.le, hle⟩, hcnt.cons_of_ne hgt.ne'⟩
        · exact Or.inr ⟨n :: pre, m, post, rfl, hm,
            List.forall_mem_cons.mpr ⟨hm.trans hgt, hpre⟩, hpost, hcnt⟩

/-! ### The second loop -/

/-- Once it has a mean, the second loop is the search for the first of the least. -/
theorem leastMean_scan (k : ℕ) : ∀ (l : List (ℝ × ℕ)) (best : Option (ℝ × ℕ) × ℝ),
    leastMean l (some best.2, (best.1.map Prod.snd).getD k) =
      (some (l.foldl (FirstLeast.scan Prod.fst) best).2,
        ((l.foldl (FirstLeast.scan Prod.fst) best).1.map Prod.snd).getD k)
  | [], best => rfl
  | n :: l, best => by
      rw [List.foldl_cons, ← leastMean_scan k l, leastMean, FirstLeast.scan]
      simp only [Option.all_some, MapManager.lt_iff]
      split_ifs
      · rfl
      · rfl

theorem leastMean_first {means : List ℝ} (hne : means ≠ []) (k : ℕ) :
    ∃ n, (leastMean means.zipIdx (none, k)).2 = n.2 ∧ IsFirstLeast Prod.fst means.zipIdx n := by
  cases means with
  | nil => exact absurd rfl hne
  | cons mean means =>
      have hstart : leastMean (mean :: means).zipIdx (none, k) =
          leastMean (means.zipIdx 1) (some mean, 0) := rfl
      have hscan := leastMean_scan 0 (means.zipIdx 1) (none, mean)
      rw [Option.map_none, Option.getD_none] at hscan
      rw [hstart, hscan, List.zipIdx_cons]
      obtain ⟨he, hle⟩ | ⟨n, he, hlt, pre, post, hsplit, hpre, hpost⟩ :=
        FirstLeast.foldl_scan Prod.fst mean (means.zipIdx 1)
      · rw [he]
        exact ⟨(mean, 0), rfl, [], means.zipIdx 1, rfl, fun m hm => absurd hm List.not_mem_nil, hle⟩
      · rw [he]
        refine ⟨n, rfl, (mean, 0) :: pre, post, by rw [hsplit]; rfl, fun m hm => ?_, hpost⟩
        obtain rfl | hm := List.mem_cons.mp hm
        · exact hlt
        · exact hpre m hm

theorem meanAt_eq {means : List ℝ} {x : ℝ × ℕ} (hx : x ∈ means.zipIdx) : meanAt means x.2 = x.1 := by
  rw [meanAt, List.getD_eq_getElem?_getD, List.mem_zipIdx_iff_getElem?.mp hx, Option.getD_some]

theorem mem_zipIdx_meanAt {means : List ℝ} {j : ℕ} (hj : j < means.length) :
    (meanAt means j, j) ∈ means.zipIdx := by
  rw [List.mem_zipIdx_iff_getElem?, meanAt, List.getD_eq_getElem?_getD, List.getElem?_eq_getElem hj,
    Option.getD_some]

/-- The second loop finds the first of all means that are least. -/
theorem leastMean_isFirstMean {means : List ℝ} (hne : means ≠ []) (k : ℕ) :
    IsFirstMean means (leastMean means.zipIdx (none, k)).2 := by
  obtain ⟨n, he, hn⟩ := leastMean_first hne k
  rw [he]
  refine ⟨List.snd_lt_of_mem_zipIdx hn.mem, fun j hj => ?_, fun j hj heq => ?_⟩
  · rw [meanAt_eq hn.mem]
    exact hn.le _ (mem_zipIdx_meanAt hj)
  · rw [meanAt_eq hn.mem] at heq
    exact hn.le_snd _ (mem_zipIdx_meanAt hj) heq

/-! ### Both loops -/

theorem mem_zipIdx_types {types : List (List ℤ)} {j : ℕ} (hj : j < types.length) :
    (types.getD j [], j) ∈ types.zipIdx := by
  rw [List.mem_zipIdx_iff_getElem?, List.getD_eq_getElem?_getD, List.getElem?_eq_getElem hj,
    Option.getD_some]

theorem sumOf_getD {types : List (List ℤ)} (hfit : SumsFit types) {j : ℕ} (hj : j < types.length) :
    sumOf (types.getD j [], j) = sumAt types j :=
  sumOf_eq hfit (mem_zipIdx_types hj)

/-- All sums are equal, or two paths have the least sum. -/
def Tied (types : List (List ℤ)) : Prop :=
  (∀ i < types.length, ∀ j < types.length, sumAt types i = sumAt types j) ∨
    ∃ i < types.length, ∃ j < types.length, i ≠ j ∧ sumAt types i = sumAt types j ∧
      ∀ k < types.length, sumAt types i ≤ sumAt types k

/-- If no sum is below `INT_MAX`, all sums are equal to it. -/
theorem sumAt_eq_of_le {types : List (List ℤ)} (hfit : SumsFit types)
    (hle : ∀ x ∈ types.zipIdx, INT_MAX ≤ sumOf x) : ∀ j < types.length, sumAt types j = INT_MAX := by
  intro j hj
  have hge := hle _ (mem_zipIdx_types hj)
  have hmem : types.getD j [] ∈ types := by
    rw [List.getD_eq_getElem _ _ hj]
    exact List.getElem_mem hj
  have hlt := (hfit _ hmem).2
  rw [sumOf_getD hfit hj] at hge
  unfold sumAt INT_MAX at *
  omega

section split

variable {types : List (List ℤ)} {pre post : List (List ℤ × ℕ)} {n : List ℤ × ℕ}

/-- The least sum is not met again. -/
theorem isOnlyLeast_of_split (hfit : SumsFit types) (he : types.zipIdx = pre ++ n :: post)
    (hpre : ∀ x ∈ pre, sumOf n < sumOf x) (hpost : ∀ x ∈ post, sumOf n < sumOf x) :
    IsOnlyLeast types n.2 := by
  have hn : n ∈ types.zipIdx := he ▸ List.mem_append_right _ List.mem_cons_self
  refine ⟨List.snd_lt_of_mem_zipIdx hn, fun j hj hji => ?_⟩
  rw [← sumOf_eq hfit hn, ← sumOf_getD hfit hj]
  have hmem := mem_zipIdx_types hj
  rw [he] at hmem
  obtain hmem | hmem := List.mem_append.mp hmem
  · exact hpre _ hmem
  · obtain heq | hmem := List.mem_cons.mp hmem
    · exact absurd (congrArg Prod.snd heq) hji
    · exact hpost _ hmem

/-- The least sum is met again. -/
theorem tied_of_split (hfit : SumsFit types) (he : types.zipIdx = pre ++ n :: post)
    (hpre : ∀ x ∈ pre, sumOf n < sumOf x) (hpost : ∀ x ∈ post, sumOf n ≤ sumOf x)
    {m : List ℤ × ℕ} (hm : m ∈ post) (heq : sumOf m = sumOf n) : Tied types := by
  have hn : n ∈ types.zipIdx := he ▸ List.mem_append_right _ List.mem_cons_self
  have hmz : m ∈ types.zipIdx := he ▸ List.mem_append_right _ (List.mem_cons_of_mem _ hm)
  have hleast : IsFirstLeast sumOf types.zipIdx n := ⟨pre, post, he, hpre, hpost⟩
  have hpos := FirstLeast.pairwise_zipIdx types 0
  rw [he] at hpos
  have hnm : n.2 < m.2 := List.rel_of_pairwise_cons (List.pairwise_append.mp hpos).2.1 hm
  refine Or.inr ⟨n.2, List.snd_lt_of_mem_zipIdx hn, m.2, List.snd_lt_of_mem_zipIdx hmz, hnm.ne,
    ?_, fun k hk => ?_⟩
  · rw [← sumOf_eq hfit hn, ← sumOf_eq hfit hmz, heq]
  · rw [← sumOf_eq hfit hn, ← sumOf_getD hfit hk]
    exact hleast.le _ (mem_zipIdx_types hk)

end split

/-- What `findMeanMin` returns: the path with the only least sum, or the first of the least means
of all paths. -/
theorem findMeanMin_cases {types : List (List ℤ)} {means : List ℝ} (hne : types ≠ [])
    (hlen : means.length = types.length) (hfit : SumsFit types) :
    IsOnlyLeast types (findMeanMin types means) ∨
      (Tied types ∧ IsFirstMean means (findMeanMin types means)) := by
  have hpos : 0 < types.length := List.length_pos_iff.mpr hne
  have hmeans : means ≠ [] := List.length_pos_iff.mp (hlen ▸ hpos)
  unfold findMeanMin
  obtain ⟨hle, hcnt⟩ | ⟨pre, n, post, he, -, hpre, hpost, hcnt⟩ :=
    leastSum_spec types.zipIdx 0 INT_MAX 0
  · have hmax := sumAt_eq_of_le hfit hle
    obtain ⟨-, hnot⟩ | ⟨hrun, -⟩ := hcnt
    · -- `INT_MAX` is met
      exact absurd (by rw [sumOf_getD hfit hpos, hmax 0 hpos]) (hnot _ (mem_zipIdx_types hpos))
    · rw [hrun]
      exact Or.inr ⟨Or.inl (fun i hi j hj => by rw [hmax i hi, hmax j hj]),
        leastMean_isFirstMean hmeans 0⟩
  · obtain ⟨hrun, hnot⟩ | ⟨hrun, m, hm, heq⟩ := hcnt
    · rw [hrun]
      exact Or.inl (isOnlyLeast_of_split hfit he hpre
        (fun x hx => lt_of_le_of_ne (hpost x hx) (hnot x hx).symm))
    · rw [hrun]
      exact Or.inr ⟨tied_of_split hfit he hpre hpost hm heq, leastMean_isFirstMean hmeans n.2⟩

theorem IsOnlyLeast.isChoice {types : List (List ℤ)} {i : ℕ} (h : IsOnlyLeast types i)
    (means : List ℝ) : IsChoice types means i := by
  have honly : ∀ j < types.length, sumAt types j = sumAt types i → j = i := by
    intro j hj heq
    by_contra hji
    exact absurd (h.2 j hj hji) (by rw [heq]; exact lt_irrefl _)
  refine ⟨h.1, fun j hj => ?_, fun j hj heq => ?_, fun j hj heq _ => ?_⟩
  · by_cases hji : j = i
    · rw [hji]
    · exact (h.2 j hj hji).le
  · rw [honly j hj heq]
  · exact (honly j hj heq).ge

/-- Where sums are tied, no path has the only least sum unless all sums are equal. -/
theorem Tied.sum_le {types : List (List ℤ)} (h : Tied types) {i : ℕ} (hi : i < types.length)
    (hone : OneLeastSum types) : ∀ j < types.length, sumAt types i ≤ sumAt types j := by
  intro j hj
  obtain hall | ⟨a, ha, b, hb, hab, heq, hle⟩ := h
  · exact (hall i hi j hj).le
  · obtain ⟨c, hc, honly⟩ : ∃ i, IsOnlyLeast types i := hone
    have hac : a = c := by
      by_contra hne
      exact absurd (honly a ha hne) (not_lt.mpr (hle c hc))
    have hbc : b = c := by
      by_contra hne
      exact absurd (honly b hb hne) (not_lt.mpr (heq ▸ hle c hc))
    exact absurd (hac.trans hbc.symm) hab

/-- **The choice of `findMeanMin`.**  It is right exactly when the least sum is unique or the first
of the least means of all paths belongs to a least sum. -/
theorem findMeanMin_isChoice_iff {types : List (List ℤ)} {means : List ℝ} (hne : types ≠ [])
    (hlen : means.length = types.length) (hfit : SumsFit types) :
    IsChoice types means (findMeanMin types means) ↔
      OneLeastSum types ∨
        ∀ i, IsFirstMean means i → ∀ j < types.length, sumAt types i ≤ sumAt types j := by
  obtain honly | ⟨htied, hfirst⟩ := findMeanMin_cases hne hlen hfit
  · exact iff_of_true (honly.isChoice means) (Or.inl ⟨_, honly⟩)
  · have hlt : findMeanMin types means < types.length := hlen ▸ hfirst.lt
    constructor
    · intro h
      refine Or.inr (fun i hi => ?_)
      rw [hi.unique hfirst]
      exact h.sum_le
    · intro h
      have hle : ∀ j < types.length,
          sumAt types (findMeanMin types means) ≤ sumAt types j := by
        cases h with
        | inl hone => exact htied.sum_le hlt hone
        | inr hmean => exact hmean _ hfirst
      exact ⟨hlt, hle, fun j hj _ => hfirst.le j (hlen ▸ hj),
        fun j hj _ => hfirst.first j (hlen ▸ hj)⟩

/-- Two paths with the sum 4 and different types, and a path with one road of the type 9, whose
mean is 0. -/
theorem findMeanMin_isChoice_tied :
    IsChoice [[1, 3], [2, 2], [9]] [1, 0, 0]
      (findMeanMin [[1, 3], [2, 2], [9]] ([1, 0, 0] : List ℝ)) := by
  refine (findMeanMin_isChoice_iff (by decide) rfl (by unfold SumsFit; decide)).mpr (Or.inr ?_)
  intro i hi j hj
  have hi1 : i = 1 := by
    have h1 : IsFirstMean [1, 0, 0] 1 := by
      refine ⟨by decide, fun j hj => ?_, fun j hj heq => ?_⟩
      · match j, hj with
        | 0, _ => simp [meanAt]
        | 1, _ => exact le_refl _
        | 2, _ => simp [meanAt]
      · match j, hj with
        | 0, _ => simp [meanAt] at heq
        | 1, _ => exact le_refl _
        | 2, _ => decide
    exact hi.unique h1
  subst hi1
  match j, hj with
  | 0, _ => decide
  | 1, _ => decide
  | 2, _ => decide

/-- The first two paths have the sum 4, and the third has a smaller mean: it is taken. -/
theorem findMeanMin_not_isChoice :
    ¬ ∀ (types : List (List ℤ)) (means : List ℝ), types ≠ [] → means.length = types.length →
      SumsFit types → IsChoice types means (findMeanMin types means) := by
  intro h
  have hchoice := h [[1, 3], [1, 3], [9]] [1, 1, 0] (by decide) rfl (by unfold SumsFit; decide)
  have hindex : findMeanMin [[1, 3], [1, 3], [9]] [(1 : ℝ), 1, 0] = 2 := by
    have hsums : leastSum ([[1, 3], [1, 3], [9]] : List (List ℤ)).zipIdx (0, INT_MAX, 0) =
        (2, 4, 0) := by decide
    rw [findMeanMin, hsums]
    simp [leastMean, Scalar.lt]
  rw [hindex] at hchoice
  exact absurd (hchoice.sum_le 0 (by decide)) (by decide)

end GeoSvr.MsvrMap
