import Mathlib.Algebra.Order.Group.Abs
import Mathlib.Tactic.SplitIfs

/-! # A running minimum that keeps the sign

A search for the element whose value `f` is closest to 0 compares `|f n|` with the best value so
far, but keeps that value with its sign.  Once an element with a negative value is the best, no
element is closer than it in the comparison, and the search is stuck with it.

`Chosen` is the element the search ends with: the first one that is closer than all before it and
negative, or at least as close as all after it.  It is a closest element exactly when no element is
wrongly kept (`Chosen.closest_iff`). -/

namespace SignedMin

variable {α K : Type*} [AddCommGroup K] [LinearOrder K]

/-- The search, from the best element so far. -/
def scan (f : α → K) : List α → Option α → Option α
  | [], b => b
  | n :: ns, none => scan f ns (some n)
  | n :: ns, some b => if |f n| < f b then scan f ns (some n) else scan f ns (some b)

/-- The element `n` after `pre` and before `post` can be chosen: it is closer than those before it,
and it is negative or none after it is closer. -/
def Eligible (f : α → K) (pre : List α) (n : α) (post : List α) : Prop :=
  (∀ m ∈ pre, |f n| < |f m|) ∧ (f n < 0 ∨ ∀ m ∈ post, |f n| ≤ |f m|)

/-- The first of the elements that can be chosen. -/
def Chosen (f : α → K) (c : List α) (n : α) : Prop :=
  ∃ pre post, c = pre ++ n :: post ∧ Eligible f pre n post ∧
    ∀ pre₁ m pre₂, pre = pre₁ ++ m :: pre₂ → ¬ Eligible f pre₁ m (pre₂ ++ n :: post)

/-- No element that is closer than those before it is negative and farther than one after it. -/
def NeverStuck (f : α → K) (c : List α) : Prop :=
  ∀ pre n post, c = pre ++ n :: post → (∀ m ∈ pre, |f n| < |f m|) → f n < 0 →
    ∀ m ∈ post, |f n| ≤ |f m|

/-- The first of the closest elements. -/
def FirstClosest (f : α → K) (c : List α) (n : α) : Prop :=
  ∃ pre post, c = pre ++ n :: post ∧ (∀ m ∈ pre, |f n| < |f m|) ∧ ∀ m ∈ post, |f n| ≤ |f m|

variable {f : α → K}

/-! ### The search -/

/-- The best of the elements `pre` so far, of which none is negative and closer than those
before. -/
structure BestOf (f : α → K) (pre : List α) (b : α) : Prop where
  nonneg : 0 ≤ f b
  split : ∃ pre₁ pre₂, pre = pre₁ ++ b :: pre₂ ∧ (∀ m ∈ pre₁, |f b| < |f m|) ∧
    ∀ m ∈ pre₂, |f b| ≤ |f m|
  far : ∀ pre₁ m pre₂, pre = pre₁ ++ m :: pre₂ → (∀ k ∈ pre₁, |f m| < |f k|) → 0 ≤ f m

theorem BestOf.le {pre : List α} {b : α} (h : BestOf f pre b) : ∀ m ∈ pre, |f b| ≤ |f m| := by
  obtain ⟨pre₁, pre₂, rfl, hlt, hle⟩ := h.split
  intro m hm
  obtain hm | hm := List.mem_append.mp hm
  · exact (hlt m hm).le
  · obtain rfl | hm := List.mem_cons.mp hm
    · exact le_refl _
    · exact hle m hm

/-- A negative value is never improved. -/
theorem scan_of_neg [IsOrderedAddMonoid K] {b : α} (hb : f b < 0) : ∀ c : List α, scan f c (some b) = some b
  | [] => rfl
  | n :: c => by
      have hnot : ¬ |f n| < f b := not_lt.mpr (hb.le.trans (abs_nonneg _))
      rw [scan, if_neg hnot]
      exact scan_of_neg hb c

/-- A search that has a best element keeps it, or ends with a closer one. -/
theorem scan_some : ∀ (c : List α) (b : α),
    ∃ n, scan f c (some b) = some n ∧ (n = b ∨ n ∈ c ∧ |f n| < f b)
  | [], b => ⟨b, rfl, Or.inl rfl⟩
  | m :: c, b => by
      rw [scan]
      split_ifs with hlt
      · obtain ⟨n, hn, rfl | ⟨hmem, hless⟩⟩ := scan_some c m
        · exact ⟨n, hn, Or.inr ⟨List.mem_cons_self, hlt⟩⟩
        · exact ⟨n, hn, Or.inr ⟨List.mem_cons_of_mem _ hmem,
            (hless.trans_le (le_abs_self _)).trans hlt⟩⟩
      · obtain ⟨n, hn, rfl | ⟨hmem, hless⟩⟩ := scan_some c b
        · exact ⟨n, hn, Or.inl rfl⟩
        · exact ⟨n, hn, Or.inr ⟨List.mem_cons_of_mem _ hmem, hless⟩⟩

/-- A split of a list that was extended at its end is a split of the old list, or at the new
element. -/
theorem append_split {pre₁ pre₂ pre : List α} {m n : α} (h : pre ++ [n] = pre₁ ++ m :: pre₂) :
    (pre₁ = pre ∧ m = n ∧ pre₂ = []) ∨ ∃ pre₃, pre = pre₁ ++ m :: pre₃ ∧ pre₂ = pre₃ ++ [n] := by
  obtain rfl | ⟨pre₃, k, rfl⟩ := List.eq_nil_or_concat pre₂
  · obtain ⟨rfl, he⟩ := List.append_inj' h rfl
    cases he
    exact Or.inl ⟨rfl, rfl, rfl⟩
  · rw [List.concat_eq_append, ← List.cons_append, ← List.append_assoc] at h
    obtain ⟨hpre, he⟩ := List.append_inj' h rfl
    cases he
    exact Or.inr ⟨pre₃, hpre, List.concat_eq_append⟩

/-- An element that is closer than all before it, which are not negative. -/
theorem chosen_of_neg {pre post : List α} {n : α} (hlt : ∀ m ∈ pre, |f n| < |f m|)
    (hneg : f n < 0)
    (hfar : ∀ pre₁ m pre₂, pre = pre₁ ++ m :: pre₂ → (∀ k ∈ pre₁, |f m| < |f k|) → 0 ≤ f m) :
    Chosen f (pre ++ n :: post) n := by
  refine ⟨pre, post, rfl, ⟨hlt, Or.inl hneg⟩, fun pre₁ m pre₂ he hel => ?_⟩
  obtain ⟨hrec, hor⟩ := hel
  cases hor with
  | inl hm => exact absurd (hfar pre₁ m pre₂ he hrec) (not_le.mpr hm)
  | inr hle =>
      have h₁ := hle n (List.mem_append_right _ List.mem_cons_self)
      have h₂ := hlt m (he ▸ List.mem_append_right _ List.mem_cons_self)
      exact absurd (h₁.trans_lt h₂) (lt_irrefl _)

/-- The best element, when no negative one is closer than those before. -/
theorem BestOf.chosen {c : List α} {b : α} (h : BestOf f c b) : Chosen f c b := by
  obtain ⟨pre₁, pre₂, he, hlt, hle⟩ := h.split
  refine ⟨pre₁, pre₂, he, ⟨hlt, Or.inr hle⟩, fun q₁ m q₂ hq hel => ?_⟩
  obtain ⟨hrec, hor⟩ := hel
  cases hor with
  | inl hm =>
      have := h.far q₁ m (q₂ ++ b :: pre₂) (by rw [he, hq]; simp) hrec
      exact absurd this (not_le.mpr hm)
  | inr hle' =>
      have h₁ := hle' b (List.mem_append_right _ List.mem_cons_self)
      have h₂ := hlt m (hq ▸ List.mem_append_right _ List.mem_cons_self)
      exact absurd (h₁.trans_lt h₂) (lt_irrefl _)

/-- An element that improves on what was the best so far, and is not negative. -/
theorem BestOf.replace {pre : List α} {n : α} (hlt : ∀ m ∈ pre, |f n| < |f m|) (hn : 0 ≤ f n)
    (hfar : ∀ pre₁ m pre₂, pre = pre₁ ++ m :: pre₂ → (∀ k ∈ pre₁, |f m| < |f k|) → 0 ≤ f m) :
    BestOf f (pre ++ [n]) n := by
  refine ⟨hn, ⟨pre, [], rfl, hlt, fun m hm => absurd hm List.not_mem_nil⟩, ?_⟩
  intro pre₁ m pre₂ he hrec
  obtain ⟨-, rfl, -⟩ | ⟨pre₃, he', -⟩ := append_split he
  · exact hn
  · exact hfar pre₁ m pre₃ he' hrec

/-- An element that does not improve. -/
theorem BestOf.keep {pre : List α} {b n : α} (h : BestOf f pre b) (hle : |f b| ≤ |f n|) :
    BestOf f (pre ++ [n]) b := by
  obtain ⟨pre₁, pre₂, rfl, hlt, hle'⟩ := h.split
  refine ⟨h.nonneg, ⟨pre₁, pre₂ ++ [n], by simp, hlt, fun m hm => ?_⟩, ?_⟩
  · obtain hm | hm := List.mem_append.mp hm
    · exact hle' m hm
    · rw [List.mem_singleton.mp hm]
      exact hle
  · intro q₁ m q₂ he hrec
    obtain ⟨rfl, rfl, -⟩ | ⟨q₃, he', -⟩ := append_split he
    · have hb := hrec b (List.mem_append_right _ List.mem_cons_self)
      exact absurd (hb.trans_le hle) (lt_irrefl _)
    · exact h.far q₁ m q₃ he' hrec

/-- Induction on the elements that are still to be looked at. -/
theorem BestOf.scan_chosen [IsOrderedAddMonoid K] : ∀ (post pre : List α) {b : α}, BestOf f pre b →
    ∃ n, scan f post (some b) = some n ∧ Chosen f (pre ++ post) n
  | [], pre, b, h => ⟨b, rfl, by rw [List.append_nil]; exact h.chosen⟩
  | n :: post, pre, b, h => by
      have hb : |f b| = f b := abs_of_nonneg h.nonneg
      rw [scan]
      split_ifs with hless
      · rw [← hb] at hless
        have hlt : ∀ m ∈ pre, |f n| < |f m| := fun m hm => hless.trans_le (h.le m hm)
        obtain hneg | hn := lt_or_ge (f n) 0
        · exact ⟨n, scan_of_neg hneg post, chosen_of_neg hlt hneg h.far⟩
        · obtain ⟨k, he, hk⟩ := scan_chosen post (pre ++ [n]) (BestOf.replace hlt hn h.far)
          rw [List.append_assoc] at hk
          exact ⟨k, he, hk⟩
      · rw [← hb, not_lt] at hless
        obtain ⟨k, he, hk⟩ := scan_chosen post (pre ++ [n]) (h.keep hless)
        rw [List.append_assoc] at hk
        exact ⟨k, he, hk⟩

/-- The search chooses an element if there is one. -/
theorem scan_chosen [IsOrderedAddMonoid K] {c : List α} (hc : c ≠ []) :
    ∃ n, scan f c none = some n ∧ Chosen f c n := by
  cases c with
  | nil => exact absurd rfl hc
  | cons n c =>
      have hfar : ∀ (pre₁ : List α) m pre₂, [] = pre₁ ++ m :: pre₂ →
          (∀ k ∈ pre₁, |f m| < |f k|) → 0 ≤ f m := by
        intro pre₁ m pre₂ he
        simp at he
      have hnone : ∀ m ∈ ([] : List α), |f n| < |f m| := fun m hm => absurd hm List.not_mem_nil
      rw [scan]
      obtain hneg | hn := lt_or_ge (f n) 0
      · exact ⟨n, scan_of_neg hneg c, chosen_of_neg hnone hneg hfar⟩
      · have hbest : BestOf f ([] ++ [n]) n := BestOf.replace hnone hn hfar
        exact BestOf.scan_chosen c [n] hbest

/-! ### The element that is chosen -/

theorem Chosen.mem {c : List α} {n : α} (h : Chosen f c n) : n ∈ c := by
  obtain ⟨pre, post, rfl, -⟩ := h
  exact List.mem_append_right _ List.mem_cons_self

/-- An element that can be chosen is not before the one that is chosen. -/
theorem Chosen.eq_or_after {c pre post : List α} {n m : α} (h : Chosen f c n)
    (hc : c = pre ++ m :: post) (hel : Eligible f pre m post) :
    m = n ∨ ∃ pre₁ pre₂, pre = pre₁ ++ n :: pre₂ ∧ Eligible f pre₁ n (pre₂ ++ m :: post) := by
  obtain ⟨pre', post', he, hel', hfirst⟩ := h
  rw [hc] at he
  obtain ⟨as, hpre, hcons⟩ | ⟨as, hpre, hcons⟩ := List.append_eq_append_iff.mp he
  · cases as with
    | nil =>
        cases hcons
        exact Or.inl rfl
    | cons a as =>
        rw [List.cons_append] at hcons
        obtain ⟨rfl, rfl⟩ := List.cons.inj hcons
        exact absurd hel (hfirst pre m as hpre)
  · cases as with
    | nil =>
        cases hcons
        exact Or.inl rfl
    | cons a as =>
        rw [List.cons_append] at hcons
        obtain ⟨rfl, rfl⟩ := List.cons.inj hcons
        exact Or.inr ⟨pre', as, hpre, hel'⟩

/-- Only one element is chosen. -/
theorem Chosen.unique {c : List α} {n n' : α} (h : Chosen f c n) (h' : Chosen f c n') :
    n = n' := by
  have h₀ := h
  obtain ⟨pre, post, he, hel, hfirst⟩ := h
  obtain rfl | ⟨pre₁, pre₂, hpre, hel'⟩ := h'.eq_or_after he hel
  · rfl
  · exact absurd hel' (hfirst pre₁ n' pre₂ hpre)

/-- A chosen element that is not negative is closest. -/
theorem Chosen.le_of_nonneg {c : List α} {n : α} (h : Chosen f c n) (hn : 0 ≤ f n) :
    ∀ m ∈ c, |f n| ≤ |f m| := by
  obtain ⟨pre, post, rfl, ⟨hlt, hor⟩, -⟩ := h
  have hle := hor.resolve_left (not_lt.mpr hn)
  intro m hm
  obtain hm | hm := List.mem_append.mp hm
  · exact (hlt m hm).le
  · obtain rfl | hm := List.mem_cons.mp hm
    · exact le_refl _
    · exact hle m hm

/-- **When the search is right.** The chosen element is closest exactly when no element is wrongly
kept. -/
theorem Chosen.closest_iff {c : List α} {n : α} (h : Chosen f c n) :
    (∀ m ∈ c, |f n| ≤ |f m|) ↔ NeverStuck f c := by
  constructor
  · intro hmin pre m post hc hrec hneg k hk
    -- such an element can be chosen, and none before it is as close
    obtain rfl | ⟨pre₁, pre₂, hpre, -⟩ := h.eq_or_after hc ⟨hrec, Or.inl hneg⟩
    · exact hmin k (hc ▸ List.mem_append_right _ (List.mem_cons_of_mem _ hk))
    · have hlt := hrec n (hpre ▸ List.mem_append_right _ List.mem_cons_self)
      have hle := hmin m (hc ▸ List.mem_append_right _ List.mem_cons_self)
      exact absurd (hle.trans_lt hlt) (lt_irrefl _)
  · intro hstuck
    obtain hneg | hn := lt_or_ge (f n) 0
    · obtain ⟨pre, post, hc, ⟨hlt, -⟩, -⟩ := h
      have hle := hstuck pre n post hc hlt hneg
      intro m hm
      rw [hc] at hm
      obtain hm | hm := List.mem_append.mp hm
      · exact (hlt m hm).le
      · obtain rfl | hm := List.mem_cons.mp hm
        · exact le_refl _
        · exact hle m hm
    · exact h.le_of_nonneg hn

/-- A closest element that is chosen is the first of the closest. -/
theorem Chosen.eq_firstClosest {c : List α} {n m : α} (h : Chosen f c n)
    (hmin : ∀ k ∈ c, |f n| ≤ |f k|) (hm : FirstClosest f c m) : m = n := by
  obtain ⟨pre, post, hc, hrec, hle⟩ := hm
  obtain rfl | ⟨pre₁, pre₂, hpre, -⟩ := h.eq_or_after hc ⟨hrec, Or.inr hle⟩
  · rfl
  · have hlt := hrec n (hpre ▸ List.mem_append_right _ List.mem_cons_self)
    have hle := hmin m (hc ▸ List.mem_append_right _ List.mem_cons_self)
    exact absurd (hle.trans_lt hlt) (lt_irrefl _)

/-- The chosen element is the first of the closest, if it is closest. -/
theorem Chosen.firstClosest {c : List α} {n : α} (h : Chosen f c n)
    (hmin : ∀ k ∈ c, |f n| ≤ |f k|) : FirstClosest f c n := by
  obtain ⟨pre, post, rfl, ⟨hlt, -⟩, -⟩ := h
  exact ⟨pre, post, rfl, hlt,
    fun m hm => hmin m (List.mem_append_right _ (List.mem_cons_of_mem _ hm))⟩

end SignedMin
