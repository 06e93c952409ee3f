import Mathlib.Data.List.Basic

/-! # Noninterference by unwinding

Agents `ι` share a state `σ`.  `step s x a` is the operation `a` of the agent `x`: the state after
it, and what it returns.  An agent does not notice the others when its outputs, and its view of
the state, are the same in a run and in the run of its own operations alone (`solo`).

`unwinding` reduces this to single steps, for a relation `R` between the states of the two runs:
an operation of the agent itself gives the same output in related states and keeps them related,
and an operation of another agent keeps them related with the other run standing still.  Both
may assume the condition `C`, which every operation of the run meets. -/

namespace Noninterference

variable {σ ι α ω : Type*} [DecidableEq ι] (step : σ → ι → α → σ × ω)

/-- The state after the operations `as`. -/
def exec : σ → List (ι × α) → σ
  | s, [] => s
  | s, (y, a) :: as => exec (step s y a).1 as

/-- What the operations of `x` among `as` return. -/
def outputs (x : ι) : σ → List (ι × α) → List ω
  | _, [] => []
  | s, (y, a) :: as =>
      if y = x then (step s y a).2 :: outputs x (step s y a).1 as
      else outputs x (step s y a).1 as

/-- The operations of `x` alone. -/
def solo (x : ι) (as : List (ι × α)) : List (ι × α) := as.filter (fun p => p.1 = x)

/-- Every operation meets `C` in the state in which it takes place. -/
def Meets (C : σ → ι → α → Prop) : σ → List (ι × α) → Prop
  | _, [] => True
  | s, (y, a) :: as => C s y a ∧ Meets C (step s y a).1 as

variable {step}

theorem solo_cons_self (x : ι) (a : α) (as : List (ι × α)) :
    solo x ((x, a) :: as) = (x, a) :: solo x as := by simp [solo]

theorem solo_cons_of_ne {x y : ι} (h : y ≠ x) (a : α) (as : List (ι × α)) :
    solo x ((y, a) :: as) = solo x as := by simp [solo, h]

/-- **Unwinding.** -/
theorem unwinding {C : σ → ι → α → Prop} {R : σ → σ → Prop} {x : ι}
    (hown : ∀ g s a, R g s → C g x a →
      (step g x a).2 = (step s x a).2 ∧ R (step g x a).1 (step s x a).1)
    (hother : ∀ g s y a, R g s → y ≠ x → C g y a → R (step g y a).1 s) :
    ∀ {as : List (ι × α)} {g s : σ}, R g s → Meets step C g as →
      outputs step x g as = outputs step x s (solo x as) ∧
        R (exec step g as) (exec step s (solo x as))
  | [], _, _, hR, _ => ⟨rfl, hR⟩
  | (y, a) :: as, g, s, hR, hC => by
      by_cases hy : y = x
      · subst hy
        obtain ⟨hout, hR'⟩ := hown g s a hR hC.1
        obtain ⟨ho, hr⟩ := unwinding hown hother hR' hC.2
        rw [solo_cons_self]
        simp only [outputs, if_true, hout, ho, exec]
        exact ⟨trivial, hr⟩
      · obtain ⟨ho, hr⟩ := unwinding hown hother (hother g s y a hR hy hC.1) hC.2
        rw [solo_cons_of_ne hy]
        simp only [outputs, if_neg hy, exec]
        exact ⟨ho, hr⟩

end Noninterference
