import Mathlib.Data.List.Basic
import Mathlib.Logic.Relation

/-! # While loops

`while guard do body` over a state.  The body is partial: it is `none` when it does not come to
its end.

* `run guard body fuel s` is the state that the loop ends in, if it does so within `fuel`
  iterations.
* `Reaches guard body s t` says that the loop comes to its test in the state `t`.
* `run_inv` is the invariant rule.
* `ends_iff` is the rule for a loop in which an iteration either makes progress towards the end or
  is the first of infinitely many that make none. -/

namespace WhileLoop

variable {σ : Type*}

/-- The state in which the loop ends. -/
def run (guard : σ → Bool) (body : σ → Option σ) : ℕ → σ → Option σ
  | 0, s => if guard s then none else some s
  | fuel + 1, s => if guard s then (body s).bind (run guard body fuel) else some s

/-- An iteration leads from `s` to `t`. -/
def Iterates (guard : σ → Bool) (body : σ → Option σ) (s t : σ) : Prop :=
  guard s = true ∧ body s = some t

/-- The loop comes from `s` to `t`. -/
def Reaches (guard : σ → Bool) (body : σ → Option σ) : σ → σ → Prop :=
  Relation.ReflTransGen (Iterates guard body)

variable {guard : σ → Bool} {body : σ → Option σ}

theorem run_of_false {s : σ} (h : guard s = false) (fuel : ℕ) :
    run guard body fuel s = some s := by
  cases fuel <;> simp [run, h]

theorem run_succ {s t : σ} (h : Iterates guard body s t) (fuel : ℕ) :
    run guard body (fuel + 1) s = run guard body fuel t := by
  rw [run, if_pos h.1, h.2, Option.bind_some]

/-- What a loop that ends has done: no iteration, or a first one. -/
theorem run_cases {fuel : ℕ} {s t : σ} (h : run guard body fuel s = some t) :
    (guard s = false ∧ t = s) ∨
      ∃ k s₁, fuel = k + 1 ∧ Iterates guard body s s₁ ∧ run guard body k s₁ = some t := by
  cases hg : guard s with
  | false =>
      rw [run_of_false hg] at h
      cases h
      exact Or.inl ⟨rfl, rfl⟩
  | true =>
      cases fuel with
      | zero =>
          rw [run, if_pos hg] at h
          cases h
      | succ k =>
          rw [run, if_pos hg] at h
          obtain ⟨s₁, hs₁, hrun⟩ := Option.bind_eq_some_iff.mp h
          exact Or.inr ⟨k, s₁, rfl, ⟨hg, hs₁⟩, hrun⟩

/-- **Invariant rule.** -/
theorem run_inv (I : σ → Prop) (hstep : ∀ s t, I s → Iterates guard body s t → I t) {fuel : ℕ}
    {s t : σ} (h : run guard body fuel s = some t) (hs : I s) : I t ∧ guard t = false := by
  induction fuel generalizing s with
  | zero =>
      obtain ⟨hg, rfl⟩ | ⟨k, s₁, hk, -⟩ := run_cases h
      · exact ⟨hs, hg⟩
      · cases hk
  | succ fuel ih =>
      obtain ⟨hg, rfl⟩ | ⟨k, s₁, hk, hit, hrun⟩ := run_cases h
      · exact ⟨hs, hg⟩
      · cases hk
        exact ih hrun (hstep s s₁ hs hit)

/-- A loop that comes to `t` ends exactly when it ends from `t`. -/
theorem Reaches.ends_iff {s t : σ} (h : Reaches guard body s t) :
    (∃ fuel u, run guard body fuel s = some u) ↔ ∃ fuel u, run guard body fuel t = some u := by
  induction h with
  | refl => exact Iff.rfl
  | @tail t₁ t₂ _ hit ih =>
      rw [ih]
      constructor
      · rintro ⟨fuel, u, hu⟩
        obtain ⟨hg, -⟩ | ⟨k, s₁, -, hit', hrun⟩ := run_cases hu
        · rw [hit.1] at hg
          cases hg
        · obtain rfl := Option.some.inj (hit.2.symm.trans hit'.2)
          exact ⟨k, u, hrun⟩
      · rintro ⟨fuel, u, hu⟩
        exact ⟨fuel + 1, u, (run_succ hit fuel).trans hu⟩

/-- A loop whose iterations keep the guard true does not end. -/
theorem not_ends (I : σ → Prop) (hguard : ∀ s, I s → guard s = true)
    (hstep : ∀ s t, I s → Iterates guard body s t → I t) {s : σ} (hs : I s) :
    ¬ ∃ fuel u, run guard body fuel s = some u := by
  rintro ⟨fuel, u, h⟩
  obtain ⟨hI, hg⟩ := run_inv I hstep h hs
  rw [hguard u hI] at hg
  cases hg

/-- **Exact condition of the end.**  Suppose that from a state with `P` an iteration lowers the
measure `μ`, and that from a state without `P` it leads, if anywhere, to a state in which the
guard is true and `P` is false again.  Then the loop ends iff every iteration begins with `P`. -/
theorem ends_iff (P : σ → Prop) (μ : σ → ℕ)
    (hless : ∀ s, guard s = true → P s → ∃ t, body s = some t ∧ μ t < μ s)
    (hstuck : ∀ s t, ¬ P s → Iterates guard body s t → guard t = true ∧ ¬ P t) (s : σ) :
    (∃ fuel u, run guard body fuel s = some u) ↔
      ∀ t, Reaches guard body s t → guard t = true → P t := by
  constructor
  · intro hends t hreach hg
    by_contra hP
    refine not_ends (fun s => guard s = true ∧ ¬ P s) (fun s hs => hs.1)
      (fun s t hs hit => hstuck s t hs.2 hit) ⟨hg, hP⟩ (hreach.ends_iff.mp hends)
  · intro h
    -- induction on the measure of the state
    induction hn : μ s using Nat.strongRecOn generalizing s with
    | _ n ih =>
        cases hg : guard s with
        | false => exact ⟨0, s, run_of_false hg 0⟩
        | true =>
            obtain ⟨t, ht, hlt⟩ := hless s hg (h s Relation.ReflTransGen.refl hg)
            have hit : Iterates guard body s t := ⟨hg, ht⟩
            obtain ⟨fuel, u, hu⟩ := ih (μ t) (hn ▸ hlt) t
              (fun t' hreach => h t' (Relation.ReflTransGen.head hit hreach)) rfl
            exact ⟨fuel + 1, u, (run_succ hit fuel).trans hu⟩

end WhileLoop
