import Mathlib.Data.List.Nodup
import Mathlib.Data.List.Perm.Basic
import Mathlib.Data.List.Sort
import Mathlib.Order.Lattice

/-! # Lists of entries

A list of entries is searched for the first that a test accepts, the first one is removed, entries
are selected, and the list is kept sorted by a key.  Each of these is a function of the standard
library; the lemmas say how they act on one another.

`List.orderedInsert` with a strict comparison puts an entry behind those with the same key. -/

namespace KeyedList

variable {α : Type*} {p f : α → Bool}

/-! ### Searching and removing -/

/-- A filter that keeps what is found does not change it. -/
theorem find?_filter_of_found : ∀ {l : List α}, (∀ a, l.find? p = some a → f a = true) →
    (l.filter f).find? p = l.find? p
  | [], _ => rfl
  | a :: l, h => by
      cases hp : p a with
      | true =>
          have hf : f a = true := h a (by simp [hp])
          simp [hf, hp]
      | false =>
          have ih := find?_filter_of_found (l := l) (fun b hb => h b (by simpa [hp] using hb))
          cases hf : f a <;> simp [hf, hp, ih]

/-- A filter that keeps everything a search accepts commutes with the removal of the first. -/
theorem eraseP_filter_of_imp : ∀ {l : List α}, (∀ a ∈ l, p a = true → f a = true) →
    (l.eraseP p).filter f = (l.filter f).eraseP p
  | [], _ => rfl
  | a :: l, h => by
      have ih := eraseP_filter_of_imp (fun b hb => h b (List.mem_cons_of_mem a hb))
      cases hp : p a with
      | true => simp [hp, h a List.mem_cons_self hp]
      | false => cases hf : f a <;> simp [hp, hf, ih]

/-- A filter that keeps nothing a search accepts does not see the removal of the first. -/
theorem eraseP_filter_of_not : ∀ {l : List α}, (∀ a ∈ l, p a = true → f a = false) →
    (l.eraseP p).filter f = l.filter f
  | [], _ => rfl
  | a :: l, h => by
      have ih := eraseP_filter_of_not (fun b hb => h b (List.mem_cons_of_mem a hb))
      cases hp : p a with
      | true => simp [hp, h a List.mem_cons_self hp]
      | false => cases hf : f a <;> simp [hp, hf, ih]

/-- Where the test accepts at most one entry, removing the first that it accepts selects the
others. -/
theorem eraseP_eq_filter : ∀ {l : List α}, l.Pairwise (fun a b => p a = true → p b = false) →
    l.eraseP p = l.filter (fun a => !p a)
  | [], _ => rfl
  | a :: l, h => by
      obtain ⟨ha, hl⟩ := List.pairwise_cons.mp h
      cases hp : p a with
      | true =>
          rw [List.eraseP_cons_of_pos hp, List.filter_cons_of_neg (by rw [hp]; decide)]
          exact (List.filter_eq_self.mpr (fun b hb => by rw [ha b hb hp]; rfl)).symm
      | false =>
          rw [List.eraseP_cons_of_neg (by rw [hp]; decide), eraseP_eq_filter hl,
            List.filter_cons_of_pos (by rw [hp]; rfl)]

/-! ### Counting -/

/-- An entry that is removed counted once. -/
theorem countP_eraseIdx {l : List α} {i : ℕ} {a : α} (h : l[i]? = some a) :
    l.countP p = (l.eraseIdx i).countP p + if p a then 1 else 0 := by
  obtain ⟨hlt, rfl⟩ := List.getElem?_eq_some_iff.mp h
  rw [← (List.getElem_cons_eraseIdx_perm hlt).countP_eq, List.countP_cons]

/-- Replacing an entry by one that counts alike. -/
theorem countP_set_of_eq {l : List α} {i : ℕ} {a b : α} (h : l[i]? = some a) (hb : p b = p a) :
    (l.set i b).countP p = l.countP p := by
  obtain ⟨hlt, rfl⟩ := List.getElem?_eq_some_iff.mp h
  rw [(List.set_perm_cons_eraseIdx hlt b).countP_eq, List.countP_cons, hb,
    ← countP_eraseIdx (List.getElem?_eq_getElem hlt)]

/-! ### Selections -/

/-- Two selections are the same exactly when they agree on each entry. -/
theorem filter_eq_filter_iff {l : List α} : l.filter p = l.filter f ↔ ∀ a ∈ l, p a = f a := by
  constructor
  · intro h a ha
    have hmem : a ∈ l.filter p ↔ a ∈ l.filter f := by rw [h]
    rw [List.mem_filter, List.mem_filter] at hmem
    exact Bool.eq_iff_iff.mpr (by simpa [ha] using hmem)
  · exact List.filter_congr

/-- A part of a list without duplicates is known by its entries. -/
theorem eq_filter_of_sublist {l l' : List α} (hl : l.Nodup) (hsub : l'.Sublist l)
    (hmem : ∀ a, a ∈ l' ↔ a ∈ l ∧ p a = true) : l' = l.filter p := by
  have hmem' : ∀ a, a ∈ l' ↔ a ∈ l.filter p := by
    intro a
    rw [hmem, List.mem_filter]
  have hself := hsub.filter p
  rw [List.filter_eq_self.mpr (fun a ha => ((hmem a).mp ha).2)] at hself
  exact hself.eq_of_length
    ((List.perm_ext_iff_of_nodup (hsub.nodup hl) (hl.filter p)).mpr hmem').length_eq

/-! ### Inserting -/

section insert

variable (r : α → α → Prop) [DecidableRel r] {a : α}

/-- A filter that does not keep the entry does not see that it is inserted. -/
theorem filter_orderedInsert_of_neg (ha : f a = false) : ∀ l : List α,
    (l.orderedInsert r a).filter f = l.filter f
  | [] => by simp [ha]
  | b :: l => by
      rw [List.orderedInsert_cons]
      split_ifs
      · simp [ha]
      · rw [List.filter_cons, List.filter_cons, filter_orderedInsert_of_neg ha l]

/-- A filter that keeps the entry alone. -/
theorem filter_orderedInsert_of_new (ha : f a = true) {l : List α} (hl : ∀ b ∈ l, f b = false) :
    (l.orderedInsert r a).filter f = [a] := by
  have hperm := (List.perm_orderedInsert r a l).filter f
  have hnone : l.filter f = [] :=
    List.filter_eq_nil_iff.mpr (fun b hb => by rw [hl b hb]; exact Bool.false_ne_true)
  rw [List.filter_cons_of_pos ha, hnone] at hperm
  exact List.perm_singleton.mp hperm

end insert

/-! ### Sorted lists -/

section sorted

variable {κ : Type*} [LinearOrder κ] {key : α → κ} {r : α → α → Prop} [DecidableRel r]

/-- Inserting in front of the first entry with a larger key keeps the list sorted. -/
theorem pairwise_orderedInsert (hr : ∀ x y, r x y ↔ key x < key y) (a : α) : ∀ {l : List α},
    l.Pairwise (fun x y => key x ≤ key y) →
      (l.orderedInsert r a).Pairwise (fun x y => key x ≤ key y)
  | [], _ => List.pairwise_singleton _ a
  | b :: l, h => by
      obtain ⟨hb, hl⟩ := List.pairwise_cons.mp h
      rw [List.orderedInsert_cons]
      split_ifs with hlt
      · have hlt := (hr a b).mp hlt
        refine List.pairwise_cons.mpr ⟨fun x hx => ?_, h⟩
        obtain rfl | hx := List.mem_cons.mp hx
        · exact hlt.le
        · exact hlt.le.trans (hb x hx)
      · refine List.pairwise_cons.mpr ⟨fun x hx => ?_, pairwise_orderedInsert hr a hl⟩
        obtain rfl | hx := (List.mem_orderedInsert _).mp hx
        · exact not_lt.mp (fun h => hlt ((hr _ _).mpr h))
        · exact hb x hx

end sorted

/-- When no entry that the test accepts comes behind one that it does not, taking entries from the
front as long as it accepts them takes all that it accepts. -/
theorem dropWhile_eq_filter : ∀ {l : List α}, l.Pairwise (fun x y => p y = true → p x = true) →
    l.dropWhile p = l.filter (fun a => !p a)
  | [], _ => rfl
  | a :: l, h => by
      obtain ⟨ha, hl⟩ := List.pairwise_cons.mp h
      cases hp : p a with
      | true =>
          rw [List.dropWhile_cons_of_pos hp, dropWhile_eq_filter hl,
            List.filter_cons_of_neg (by rw [hp]; decide)]
      | false =>
          rw [List.dropWhile_cons_of_neg (by rw [hp]; decide)]
          refine (List.filter_eq_self.mpr (fun b hb => ?_)).symm
          obtain rfl | hb := List.mem_cons.mp hb
          · rw [hp]
            rfl
          · cases hpb : p b with
            | true => exact absurd (ha b hb hpb) (by rw [hp]; decide)
            | false => rfl

end KeyedList
