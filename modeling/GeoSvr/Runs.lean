import Mathlib.Data.List.Basic
import Mathlib.Data.Option.Basic

/-! # Runs of a step function

A system is a partial step function `step : σ → α → Option σ`: in state `s` the action `a`
leads to `s'` when `step s a = some s'`, and is impossible (or undefined) when it is `none`.
Everything the environment decides — which message arrives, whether an allocation is
granted — is part of the action, so the step function itself is deterministic.

* `Run step C s as s'` says that the actions `as` lead from `s` to `s'` and that each of them
  is taken in a state in which the condition `C` allows it.  `Free` allows everything.
* `Run.inv` is the invariant rule; `Run.countP_add_le` bounds the steps of a kind by a measure, and
  `Run.le_add_countP` bounds a measure by the steps of a kind.
* `Run.forall_iff` is the rule for a property that a step breaks exactly when it violates a
  condition: every state of a free run has the property iff every step meets the condition.
* `exec` computes runs, so that a concrete one is checked by evaluation (`run_of_exec`). -/

namespace Runs

variable {σ α : Type*} {step : σ → α → Option σ} {C : σ → α → Prop}

/-- The condition that every step meets. -/
def Free (_ : σ) (_ : α) : Prop := True

/-- `Run step C s as s'`: `as` leads from `s` to `s'`, every step meeting `C`. -/
inductive Run (step : σ → α → Option σ) (C : σ → α → Prop) : σ → List α → σ → Prop
  | nil (s : σ) : Run step C s [] s
  | cons {s s₁ s₂ : σ} {a : α} {as : List α} :
      C s a → step s a = some s₁ → Run step C s₁ as s₂ → Run step C s (a :: as) s₂

theorem Run.mono {C' : σ → α → Prop} (h : ∀ s a, C s a → C' s a) {s s' : σ} {as : List α}
    (hr : Run step C s as s') : Run step C' s as s' := by
  induction hr with
  | nil s => exact Run.nil s
  | cons hc hs _ ih => exact Run.cons (h _ _ hc) hs ih

theorem Run.append {s₁ s₂ s₃ : σ} {as bs : List α} (h₁ : Run step C s₁ as s₂)
    (h₂ : Run step C s₂ bs s₃) : Run step C s₁ (as ++ bs) s₃ := by
  induction h₁ with
  | nil s => exact h₂
  | cons hc hs _ ih => exact Run.cons hc hs (ih h₂)

theorem Run.single {s s' : σ} {a : α} (hc : C s a) (hs : step s a = some s') :
    Run step C s [a] s' :=
  Run.cons hc hs (Run.nil s')

/-- **Invariant rule.** What holds at the start and is kept by every allowed step holds at
the end of every run. -/
theorem Run.inv (I : σ → Prop) (hstep : ∀ s a s', I s → C s a → step s a = some s' → I s')
    {s s' : σ} {as : List α} (hr : Run step C s as s') (h₀ : I s) : I s' := by
  induction hr with
  | nil s => exact h₀
  | cons hc hs _ ih => exact ih (hstep _ _ _ h₀ hc hs)

/-- **Bounded number of steps.** When every step marked by `p` lowers the measure `μ` and no step
raises it, a run has at most as many marked steps as `μ` allows at its start. -/
theorem Run.countP_add_le (I : σ → Prop) (μ : σ → ℕ) (p : α → Bool)
    (hstep : ∀ s a s', I s → C s a → step s a = some s' →
      I s' ∧ (if p a then 1 else 0) + μ s' ≤ μ s)
    {s s' : σ} {as : List α} (hr : Run step C s as s') (h₀ : I s) :
    as.countP p + μ s' ≤ μ s := by
  induction hr with
  | nil s => simp
  | cons hc hs _ ih =>
      obtain ⟨hI, hle⟩ := hstep _ _ _ h₀ hc hs
      have hrest := ih hI
      rw [List.countP_cons]
      omega

/-- **Bounded growth.** When only steps marked by `p` raise the measure `μ`, each by one at the most,
a run raises it by the number of its marked steps at the most. -/
theorem Run.le_add_countP (μ : σ → ℕ) (p : α → Bool)
    (hstep : ∀ s a s', C s a → step s a = some s' → μ s' ≤ μ s + if p a then 1 else 0)
    {s s' : σ} {as : List α} (hr : Run step C s as s') : μ s' ≤ μ s + as.countP p := by
  induction hr with
  | nil s => simp
  | cons hc hs _ ih =>
      have hle := hstep _ _ _ hc hs
      rw [List.countP_cons]
      omega

/-- **Exact condition of a run property.** Suppose that from a state with the invariant `I` a
step leads to a state with `P` exactly when it meets `C`, and then keeps `I`.  Then every state
of a free run has `P` iff every step of it meets `C`. -/
theorem Run.forall_iff {I P : σ → Prop}
    (hP : ∀ s a s', I s → step s a = some s' → (P s' ↔ C s a))
    (hI : ∀ s a s', I s → C s a → step s a = some s' → I s') {s₀ s : σ} {as : List α}
    (h₀ : I s₀) (hP₀ : P s₀) (hr : Run step Free s₀ as s) :
    (∀ bs cs t, as = bs ++ cs → Run step Free s₀ bs t → P t) ↔ Run step C s₀ as s := by
  induction hr with
  | nil s =>
      refine ⟨fun _ => Run.nil s, fun _ bs cs t he ht => ?_⟩
      obtain ⟨rfl, rfl⟩ := List.append_eq_nil_iff.mp he.symm
      cases ht
      exact hP₀
  | @cons s s₁ s₂ a as _ hs hr ih =>
      constructor
      · intro h
        have hc : C s a :=
          (hP s a s₁ h₀ hs).mp (h [a] as s₁ rfl (Run.single trivial hs))
        refine Run.cons hc hs ((ih (hI s a s₁ h₀ hc hs) ((hP s a s₁ h₀ hs).mpr hc)).mp ?_)
        intro bs cs t he ht
        exact h (a :: bs) cs t (by rw [he]; rfl) (Run.cons trivial hs ht)
      · intro h
        cases h with
        | cons hc hs' hr' =>
            rw [hs] at hs'
            cases hs'
            have hrest := (ih (hI s a s₁ h₀ hc hs) ((hP s a s₁ h₀ hs).mpr hc)).mpr hr'
            intro bs cs t he ht
            cases ht with
            | nil _ => exact hP₀
            | cons _ hs' ht' =>
                obtain ⟨rfl, he'⟩ := List.cons.inj he
                rw [hs] at hs'
                cases hs'
                exact hrest _ cs t he' ht'

/-! ### Computing runs -/

/-- The state after the actions `as`, when each of them is possible. -/
def exec (step : σ → α → Option σ) : σ → List α → Option σ
  | s, [] => some s
  | s, a :: as =>
      match step s a with
      | none => none
      | some s' => exec step s' as

theorem run_of_exec : ∀ (as : List α) {s s' : σ}, exec step s as = some s' → Run step Free s as s'
  | [], s, s', h => by
      cases h
      exact Run.nil s
  | a :: as, s, s', h => by
      unfold exec at h
      cases hs : step s a with
      | none => rw [hs] at h; cases h
      | some s₁ =>
          rw [hs] at h
          exact Run.cons trivial hs (run_of_exec as h)

end Runs
