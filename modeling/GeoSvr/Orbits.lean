import Mathlib.Data.Fintype.EquivFin

/-! # Orbits of partial functions

A partial function `f : α → Option α` takes a point to the next one, or stops.

* `orbit f k x` is the point after `k` steps, if there are as many.
* `LoopFree f` says that no orbit comes back to a point.
* On a finite type this is the same as having a rank that every step decreases
  (`loopFree_iff_rank`); such a rank is what shows a concrete `f` to be free of loops.
* A key in a linear order that every step lowers gives a rank: how many points of a finite set are
  before a point (`before_lt_before`). -/

namespace Orbits

variable {α : Type*}

/-- The point `k` steps after `x`. -/
def orbit (f : α → Option α) : ℕ → α → Option α
  | 0, x => some x
  | k + 1, x =>
      match f x with
      | none => none
      | some y => orbit f k y

/-- No orbit visits a point twice. -/
def LoopFree (f : α → Option α) : Prop :=
  ∀ x y j k, j < k → orbit f j x = some y → orbit f k x ≠ some y

variable {f : α → Option α}

theorem orbit_succ {x y : α} (h : f x = some y) (k : ℕ) : orbit f (k + 1) x = orbit f k y := by
  rw [orbit, h]

theorem orbit_add (j : ℕ) : ∀ (k : ℕ) {x y : α}, orbit f k x = some y →
    orbit f (k + j) x = orbit f j y
  | 0, x, y, h => by
      cases h
      rw [Nat.zero_add]
  | k + 1, x, y, h => by
      cases hx : f x with
      | none => rw [orbit, hx] at h; cases h
      | some z =>
          rw [orbit_succ hx] at h
          rw [Nat.add_right_comm, orbit_succ hx]
          exact orbit_add j k h

/-- A rank that every step decreases is less at the end of an orbit. -/
theorem rank_lt {β : Type*} [Preorder β] {rank : α → β}
    (h : ∀ x y, f x = some y → rank y < rank x) : ∀ (k : ℕ) {x y : α},
    orbit f (k + 1) x = some y → rank y < rank x
  | k, x, y, hk => by
      cases hx : f x with
      | none => rw [orbit, hx] at hk; cases hk
      | some z =>
          have hz := h x z hx
          rw [orbit_succ hx] at hk
          cases k with
          | zero =>
              cases hk
              exact hz
          | succ k => exact (rank_lt h k hk).trans hz

theorem loopFree_of_rank {β : Type*} [Preorder β] {rank : α → β}
    (h : ∀ x y, f x = some y → rank y < rank x) : LoopFree f := by
  intro x y j k hjk hj hk
  obtain ⟨i, rfl⟩ : ∃ i, k = j + (i + 1) := ⟨k - j - 1, by omega⟩
  rw [orbit_add (i + 1) j hj] at hk
  exact lt_irrefl _ (rank_lt h i hk)

/-- On a finite type an orbit without a loop stops. -/
theorem LoopFree.ends [Finite α] (h : LoopFree f) (x : α) : ∃ k, orbit f k x = none := by
  by_contra hcon
  have hsome : ∀ k, ∃ y, orbit f k x = some y := fun k =>
    Option.ne_none_iff_exists'.mp (fun he => hcon ⟨k, he⟩)
  choose g hg using hsome
  refine not_injective_infinite_finite g (fun j k he => ?_)
  obtain hjk | hjk | hjk := Nat.lt_trichotomy j k
  · exact absurd (he ▸ hg k) (h x (g j) j k hjk (hg j))
  · exact hjk
  · exact absurd (hg j) (h x (g j) k j hjk (he ▸ hg k))

theorem loopFree_iff_rank [Finite α] :
    LoopFree f ↔ ∃ rank : α → ℕ, ∀ x y, f x = some y → rank y < rank x := by
  constructor
  · intro h
    classical
    refine ⟨fun x => Nat.find (h.ends x), fun x y hxy => ?_⟩
    have hx := Nat.find_spec (h.ends x)
    -- the orbit of `y` is one step shorter
    have hpos : Nat.find (h.ends x) ≠ 0 := fun h0 => by
      rw [h0] at hx
      cases hx
    obtain ⟨k, hk⟩ := Nat.exists_eq_succ_of_ne_zero hpos
    rw [hk, orbit_succ hxy] at hx
    have hle := Nat.find_min' (h.ends y) hx
    show Nat.find (h.ends y) < Nat.find (h.ends x)
    rw [hk]
    exact Nat.lt_succ_of_le hle
  · rintro ⟨rank, h⟩
    exact loopFree_of_rank h

/-! ### Ranks from keys -/

section rank

variable {α β : Type*} [LinearOrder β] {A : Finset α} {key : α → β} {a b : α}

/-- How many elements of `A` are before `a`. -/
def before (A : Finset α) (key : α → β) (a : α) : ℕ := (A.filter (fun b => key b < key a)).card

theorem before_lt_card (ha : a ∈ A) : before A key a < A.card := by
  refine Finset.card_lt_card (Finset.filter_ssubset.mpr ⟨a, ha, lt_irrefl _⟩)

theorem before_lt_before (hb : b ∈ A) (h : key b < key a) : before A key b < before A key a := by
  refine Finset.card_lt_card (Finset.ssubset_iff_of_subset ?_ |>.mpr ⟨b, ?_, ?_⟩)
  · exact Finset.monotone_filter_right A (fun c _ hc => lt_trans hc h)
  · exact Finset.mem_filter.mpr ⟨hb, h⟩
  · exact fun hmem => lt_irrefl _ (Finset.mem_filter.mp hmem).2

end rank

end Orbits
