import Mathlib.Data.List.Induction
import Mathlib.Order.Lattice

/-! # The first of the least elements

A loop that keeps the best element so far, and replaces it when an element is strictly smaller,
ends with the first of the smallest elements (`foldl_scan`).  It starts with a threshold `t`: if no
element is below `t`, there is no best element. -/

namespace FirstLeast

variable {α K : Type*} [LinearOrder K]

/-- The body of the loop. -/
def scan (d : α → K) (best : Option α × K) (n : α) : Option α × K :=
  if d n < best.2 then (some n, d n) else best

/-- `n` is the first of the elements of `c` for which `d` is least. -/
def IsFirstLeast (d : α → K) (c : List α) (n : α) : Prop :=
  ∃ pre post, c = pre ++ n :: post ∧ (∀ m ∈ pre, d n < d m) ∧ ∀ m ∈ post, d n ≤ d m

variable {d : α → K} {c : List α} {n n' : α}

theorem IsFirstLeast.mem (h : IsFirstLeast d c n) : n ∈ c := by
  obtain ⟨pre, post, rfl, -, -⟩ := h
  exact List.mem_append_right _ List.mem_cons_self

theorem IsFirstLeast.le (h : IsFirstLeast d c n) : ∀ m ∈ c, d n ≤ d m := by
  obtain ⟨pre, post, rfl, hpre, hpost⟩ := h
  intro m hm
  obtain hm | hm := List.mem_append.mp hm
  · exact (hpre m hm).le
  · obtain rfl | hm := List.mem_cons.mp hm
    · exact le_refl _
    · exact hpost m hm

theorem IsFirstLeast.unique (h : IsFirstLeast d c n) (h' : IsFirstLeast d c n') : n = n' := by
  have hle := h.le
  have hle' := h'.le
  obtain ⟨pre, post, rfl, hpre, -⟩ := h
  obtain ⟨pre', post', he, hpre', -⟩ := h'
  obtain ⟨l, rfl, hl⟩ | ⟨l, rfl, hl⟩ := List.append_eq_append_iff.mp he
  · cases l with
    | nil => exact (List.cons.inj hl).1
    | cons m l =>
        obtain ⟨rfl, -⟩ := List.cons.inj hl
        have hlt := hpre' n (List.mem_append_right _ List.mem_cons_self)
        have hge := hle n' (by rw [he]; exact List.mem_append_right _ List.mem_cons_self)
        exact absurd (hlt.trans_le hge) (lt_irrefl _)
  · cases l with
    | nil => exact (List.cons.inj hl).1.symm
    | cons m l =>
        obtain ⟨rfl, -⟩ := List.cons.inj hl
        have hlt := hpre n' (List.mem_append_right _ List.mem_cons_self)
        have hge := hle' n (List.mem_append_right _ List.mem_cons_self)
        exact absurd (hlt.trans_le hge) (lt_irrefl _)

/-- The first of the least among the elements that meet a condition. -/
theorem IsFirstLeast.of_filter {p : α → Bool} (h : IsFirstLeast d (c.filter p) n) :
    ∃ pre post, c = pre ++ n :: post ∧ p n = true ∧ (∀ m ∈ pre, p m = true → d n < d m) ∧
      ∀ m ∈ post, p m = true → d n ≤ d m := by
  obtain ⟨pre, post, he, hpre, hpost⟩ := h
  obtain ⟨c₁, c₂, rfl, rfl, hcons⟩ := List.filter_eq_append_iff.mp he
  obtain ⟨c₃, c₄, rfl, hnone, hn, rfl⟩ := List.filter_eq_cons_iff.mp hcons
  refine ⟨c₁ ++ c₃, c₄, by rw [List.append_assoc], hn, fun m hm hp => ?_, fun m hm hp => ?_⟩
  · obtain hm | hm := List.mem_append.mp hm
    · exact hpre m (List.mem_filter.mpr ⟨hm, hp⟩)
    · exact absurd hp (hnone m hm)
  · exact hpost m (List.mem_filter.mpr ⟨hm, hp⟩)

/-- The positions in an enumerated list increase. -/
theorem pairwise_zipIdx {β : Type*} : ∀ (c : List β) (k : ℕ),
    (c.zipIdx k).Pairwise (fun x y => x.2 < y.2)
  | [], _ => List.Pairwise.nil
  | x :: c, k => by
      rw [List.zipIdx_cons, List.pairwise_cons]
      refine ⟨fun y hy => ?_, pairwise_zipIdx c (k + 1)⟩
      have hle := List.le_snd_of_mem_zipIdx hy
      show k < y.2
      omega

/-- In an enumerated list the first of the least elements is the one at the least position. -/
theorem IsFirstLeast.le_snd {β : Type*} {d : β × ℕ → K} {c : List β} {n : β × ℕ}
    (h : IsFirstLeast d c.zipIdx n) : ∀ m ∈ c.zipIdx, d m = d n → n.2 ≤ m.2 := by
  obtain ⟨pre, post, he, hpre, -⟩ := h
  have hpos := pairwise_zipIdx c 0
  rw [he] at hpos ⊢
  have hcons := (List.pairwise_append.mp hpos).2.1
  intro m hm hd
  obtain hm | hm := List.mem_append.mp hm
  · exact absurd (hpre m hm) (by rw [hd]; exact lt_irrefl _)
  · obtain rfl | hm := List.mem_cons.mp hm
    · exact le_refl _
    · exact (List.rel_of_pairwise_cons hcons hm).le

/-- What the loop ends with. -/
theorem foldl_scan (d : α → K) (t : K) (c : List α) :
    (c.foldl (scan d) (none, t) = (none, t) ∧ ∀ m ∈ c, t ≤ d m) ∨
    ∃ n, c.foldl (scan d) (none, t) = (some n, d n) ∧ d n < t ∧ IsFirstLeast d c n := by
  induction c using List.reverseRecOn with
  | nil => exact Or.inl ⟨rfl, fun m hm => absurd hm List.not_mem_nil⟩
  | append_singleton c n ih =>
      rw [List.foldl_append, List.foldl_cons, List.foldl_nil]
      obtain ⟨he, hle⟩ | ⟨b, he, hlt, hb⟩ := ih
      · rw [he, scan]
        by_cases hn : d n < t
        · rw [if_pos hn]
          exact Or.inr ⟨n, rfl, hn, c, [], rfl, fun m hm => hn.trans_le (hle m hm),
            fun m hm => absurd hm List.not_mem_nil⟩
        · rw [if_neg hn]
          refine Or.inl ⟨rfl, fun m hm => ?_⟩
          obtain hm | hm := List.mem_append.mp hm
          · exact hle m hm
          · rw [List.mem_singleton.mp hm]
            exact not_lt.mp hn
      · rw [he, scan]
        by_cases hn : d n < d b
        · rw [if_pos hn]
          exact Or.inr ⟨n, rfl, hn.trans hlt, c, [], rfl, fun m hm => hn.trans_le (hb.le m hm),
            fun m hm => absurd hm List.not_mem_nil⟩
        · rw [if_neg hn]
          obtain ⟨pre, post, rfl, hpre, hpost⟩ := hb
          refine Or.inr ⟨b, rfl, hlt, pre, post ++ [n], by simp, hpre, fun m hm => ?_⟩
          obtain hm | hm := List.mem_append.mp hm
          · exact hpost m hm
          · rw [List.mem_singleton.mp hm]
            exact not_lt.mp hn

end FirstLeast
