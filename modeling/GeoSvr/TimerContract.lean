import GeoSvr.Runs
import Mathlib.Logic.Function.Basic
import Mathlib.Tactic.Common

/-! # The contract of the timer module (`timer.cc`)

The callbacks are arbitrary here: between the start of a callback and its return, as between
firings, any sequence of calls on live timers may happen.  What `malloc` left in `in_cb_` is
arbitrary, and libevent fires an event that was added and not deleted.

A timer is live until the caller passes it to `geosvr_timer_free` or its memory is freed.  A
state records beside the memory which timers were passed, and which were reset in their own
callback since they fired last; the code reads neither.

* `Ok` is what a run keeps of each timer as long as its steps are `Careful`: then no timer fires
  after it was passed, none is accessed after its memory was freed, and one that was reset in its
  own callback is pending (`safe_run`).
* `in_cb_` says which callback runs only if no timer is reset in its own callback and `malloc`
  returns memory in which it is false.  With this the condition is exact (`contract_run_iff`). -/

namespace GeoSvr.Timers

open Runs

/-! ### The code -/

structure Timeval where
  tvSec : UInt64
  tvUsec : UInt64

/-- `timeval_from_msec`. -/
def timevalFromMsec (milliseconds : UInt64) : Timeval :=
  let microseconds := milliseconds * 1000
  ⟨microseconds / 1000000, microseconds % 1000000⟩

/-- `struct GeoSVRTimer`: `added` is the timeout with which `ev_` is added, and `frees` counts
how often the memory was freed. -/
structure GeoSVRTimer where
  tv : Timeval
  inCb : Bool
  added : Option Timeval
  frees : ℕ

/-- The timers by their addresses, the next address, and the timer whose callback runs. -/
structure State where
  timer : ℕ → GeoSVRTimer
  fresh : ℕ
  running : Option ℕ
  /-- the memory of a timer was accessed after it was freed -/
  touched : Bool
  passed : List ℕ
  again : List ℕ

def State.init : State where
  timer _ := ⟨⟨0, 0⟩, false, none, 0⟩
  fresh := 0
  running := none
  touched := false
  passed := []
  again := []

/-- Reading or writing the memory at `a`. -/
def State.access (s : State) (a : ℕ) : State :=
  { s with touched := s.touched || (s.timer a).frees != 0 }

def State.write (s : State) (a : ℕ) (t : GeoSVRTimer) : State :=
  { s.access a with timer := Function.update s.timer a t }

/-- `geosvr_timer_new`, with what `malloc` left in `in_cb_`. -/
def geosvrTimerNew (milliseconds : UInt64) (inCb : Bool) (s : State) : State :=
  let tv := timevalFromMsec milliseconds
  { s with timer := Function.update s.timer s.fresh ⟨tv, inCb, some tv, 0⟩, fresh := s.fresh + 1 }

/-- `geosvr_timer_reset`. -/
def geosvrTimerReset (a : ℕ) (milliseconds : UInt64) (s : State) : State :=
  let tv := timevalFromMsec milliseconds
  s.write a { s.timer a with tv := tv, inCb := false, added := some tv }

/-- `geosvr_timer_free`. -/
def geosvrTimerFree (a : ℕ) (s : State) : State :=
  let t := s.timer a
  if t.inCb then s.access a
  else s.write a { t with added := none, frees := t.frees + 1 }

/-- `timer_callback` up to the call: libevent has taken the event out. -/
def callbackStart (a : ℕ) (s : State) : State :=
  { s.write a { s.timer a with added := none, inCb := true } with running := some a }

/-- `timer_callback` after the call has returned `more`. -/
def callbackReturn (a : ℕ) (more : Bool) (s : State) : State :=
  let s := { s.write a { s.timer a with inCb := false } with running := none }
  if more then s.write a { s.timer a with added := some (s.timer a).tv }
  else geosvrTimerFree a s

/-! ### Runs -/

inductive Action
  | new (milliseconds : UInt64) (inCb : Bool)
  | reset (a : ℕ) (milliseconds : UInt64)
  | free (a : ℕ)
  | fire (a : ℕ)
  | ret (more : Bool)

/-- The caller may use the timer. -/
def State.Live (s : State) (a : ℕ) : Prop := a < s.fresh ∧ a ∉ s.passed ∧ (s.timer a).frees = 0

instance (s : State) (a : ℕ) : Decidable (s.Live a) := inferInstanceAs (Decidable (_ ∧ _ ∧ _))

def step (s : State) : Action → Option State
  | .new milliseconds inCb => some (geosvrTimerNew milliseconds inCb s)
  | .reset a milliseconds =>
      if s.Live a then
        some { geosvrTimerReset a milliseconds s with
          again := if s.running = some a then a :: s.again else s.again }
      else none
  | .free a =>
      if s.Live a then some { geosvrTimerFree a s with passed := a :: s.passed } else none
  | .fire a =>
      if s.running = none ∧ (s.timer a).added.isSome then
        some { callbackStart a s with again := s.again.filter (· != a) }
      else none
  | .ret more => s.running.map (fun a => callbackReturn a more s)

/-! ### One timer -/

/-- What a state says about the timer `a`. -/
structure View where
  timer : GeoSVRTimer
  allocated : Prop
  running : Prop
  passed : Prop
  again : Prop

def State.view (s : State) (a : ℕ) : View where
  timer := s.timer a
  allocated := a < s.fresh
  running := s.running = some a
  passed := a ∈ s.passed
  again := a ∈ s.again

/-- The invariant of a timer. -/
structure View.Ok (v : View) : Prop where
  unallocated : ¬ v.allocated → v.timer.added = none ∧ v.timer.frees = 0 ∧ ¬ v.running ∧
    ¬ v.passed ∧ ¬ v.again
  once : v.timer.frees ≤ 1
  freed : v.timer.frees ≠ 0 → v.timer.added = none ∧ ¬ v.running ∧ (v.again → v.passed)
  passed : v.passed → v.timer.added = none ∧ (v.timer.frees = 0 → v.running)
  pending : v.allocated → ¬ v.passed → v.timer.frees = 0 → (v.running → v.again) →
    v.timer.added.isSome
  running : v.running → (v.again → v.timer.inCb = false) ∧ (¬ v.again → v.timer.added = none)

/-- `in_cb_` is true exactly while the callback runs. -/
def View.Flagged (v : View) : Prop :=
  v.allocated → v.timer.frees = 0 → (v.timer.inCb = true ↔ v.running)

/-! ### What a step does to the timers -/

/-- A step is about the timer `a`: this is what it says afterwards, and the others are as before. -/
structure Changes (s s' : State) (a : ℕ) (v : View) : Prop where
  self : s'.view a = v
  other : ∀ b, b ≠ a → s'.view b = s.view b
  touched : s'.touched = (s.touched || (s.timer a).frees != 0)

theorem Changes.forall {P : View → Prop} {s s' : State} {a : ℕ} {v : View}
    (h : Changes s s' a v) (hs : ∀ b, P (s.view b)) (hv : P v) (b : ℕ) : P (s'.view b) := by
  by_cases hb : b = a
  · rw [hb, h.self]
    exact hv
  · rw [h.other b hb]
    exact hs b

theorem geosvrTimerNew_changes (milliseconds : UInt64) (inCb : Bool) {s : State}
    (h : (s.timer s.fresh).frees = 0) :
    Changes s (geosvrTimerNew milliseconds inCb s) s.fresh
      { s.view s.fresh with
        timer := ⟨timevalFromMsec milliseconds, inCb, some (timevalFromMsec milliseconds), 0⟩
        allocated := True } where
  self := by simp [State.view, geosvrTimerNew]
  other b hb := by
    have : b < s.fresh + 1 ↔ b < s.fresh := by omega
    simp [State.view, geosvrTimerNew, hb, this]
  touched := by simp [geosvrTimerNew, h]

theorem reset_changes {s s' : State} {a : ℕ} {milliseconds : UInt64}
    (h : step s (.reset a milliseconds) = some s') :
    s.Live a ∧ Changes s s' a { s.view a with
      timer := ⟨timevalFromMsec milliseconds, false, some (timevalFromMsec milliseconds),
        (s.timer a).frees⟩
      again := (s.view a).again ∨ (s.view a).running } := by
  simp only [step] at h
  split_ifs at h with hl hr
  · cases h
    exact ⟨hl, by simp [State.view, geosvrTimerReset, State.write, State.access, hr],
      fun b hb => by simp [State.view, geosvrTimerReset, State.write, State.access, hb], rfl⟩
  · cases h
    exact ⟨hl, by simp [State.view, geosvrTimerReset, State.write, State.access, hr],
      fun b hb => by simp [State.view, geosvrTimerReset, State.write, State.access, hb], rfl⟩

theorem free_changes {s s' : State} {a : ℕ} (h : step s (.free a) = some s') :
    s.Live a ∧ Changes s s' a { s.view a with
      timer := if (s.timer a).inCb then s.timer a
        else { s.timer a with added := none, frees := (s.timer a).frees + 1 }
      passed := True } := by
  simp only [step] at h
  split_ifs at h with hl
  cases h
  refine ⟨hl, ?_⟩
  unfold geosvrTimerFree
  dsimp only
  split_ifs with hc
  · exact ⟨by simp [State.view, State.access],
      fun b hb => by simp [State.view, State.access, hb], rfl⟩
  · exact ⟨by simp [State.view, State.write, State.access],
      fun b hb => by simp [State.view, State.write, State.access, hb], rfl⟩

theorem fire_changes {s s' : State} {a : ℕ} (h : step s (.fire a) = some s') :
    s.running = none ∧ (s.timer a).added.isSome ∧ Changes s s' a { s.view a with
      timer := { s.timer a with added := none, inCb := true }
      running := True
      again := False } := by
  simp only [step] at h
  split_ifs at h with hf
  cases h
  refine ⟨hf.1, hf.2, by simp [State.view, callbackStart, State.write, State.access], ?_, rfl⟩
  intro b hb
  simp [State.view, callbackStart, State.write, State.access, hb, Ne.symm hb, hf.1]

theorem ret_changes {s s' : State} {more : Bool} (h : step s (.ret more) = some s') :
    ∃ a, s.running = some a ∧ Changes s s' a { s.view a with
      timer := if more then ⟨(s.timer a).tv, false, some (s.timer a).tv, (s.timer a).frees⟩
        else ⟨(s.timer a).tv, false, none, (s.timer a).frees + 1⟩
      running := False } := by
  simp only [step] at h
  obtain ⟨a, ha, rfl⟩ := Option.map_eq_some_iff.mp h
  refine ⟨a, ha, ?_⟩
  unfold callbackReturn geosvrTimerFree
  cases more with
  | true =>
      refine ⟨by simp [State.view, State.write, State.access], ?_, ?_⟩
      · intro b hb
        simp [State.view, State.write, State.access, hb, Ne.symm hb, ha]
      · simp [State.write, State.access]
  | false =>
      refine ⟨by simp [State.view, State.write, State.access], ?_, ?_⟩
      · intro b hb
        simp [State.view, State.write, State.access, hb, Ne.symm hb, ha]
      · simp [State.write, State.access]

/-! ### Careful steps -/

/-- The caller frees a timer only where `in_cb_` says whether its callback runs; a callback
returns 0 if it has passed its timer to `geosvr_timer_free`, and not if it has reset it. -/
def Careful (s : State) : Action → Prop
  | .new _ _ => True
  | .reset _ _ => True
  | .free a => (s.timer a).inCb = true ↔ s.running = some a
  | .fire _ => True
  | .ret more => ∀ a, s.running = some a →
      (a ∈ s.passed → more = false) ∧ (a ∈ s.again → a ∉ s.passed → more = true)

section view

variable {v : View}

theorem View.Ok.new (h : v.Ok) (ha : ¬ v.allocated) (tv : Timeval) (inCb : Bool) :
    View.Ok { v with timer := ⟨tv, inCb, some tv, 0⟩, allocated := True } := by
  obtain ⟨-, -, hr, hp, hg⟩ := h.unallocated ha
  constructor <;> simp [hr, hp]

theorem View.ok_reset (hf : v.timer.frees = 0) (hp : ¬ v.passed) (ha : v.allocated)
    (tv : Timeval) : View.Ok { v with
      timer := ⟨tv, false, some tv, v.timer.frees⟩, again := v.again ∨ v.running } := by
  constructor <;> simp [hf, hp, ha]
  exact fun hr _ => hr

theorem View.Ok.free (h : v.Ok) (hf : v.timer.frees = 0) (ha : v.allocated)
    (hc : v.timer.inCb = true ↔ v.running) : View.Ok { v with
      timer := if v.timer.inCb then v.timer
        else { v.timer with added := none, frees := v.timer.frees + 1 }
      passed := True } := by
  by_cases hi : v.timer.inCb = true
  · have hr := hc.mp hi
    have hg : ¬ v.again := fun hg => by simp [(h.running hr).1 hg] at hi
    constructor <;> simp [hi, hf, ha, hr, hg, (h.running hr).2 hg]
  · have hr : ¬ v.running := fun hr => hi (hc.mpr hr)
    constructor <;> simp [hi, hf, ha, hr]

theorem View.Ok.pendingLive (h : v.Ok) (hs : v.timer.added.isSome) :
    v.allocated ∧ v.timer.frees = 0 ∧ ¬ v.passed := by
  refine ⟨?_, ?_, ?_⟩
  · by_contra ha
    simp [(h.unallocated ha).1] at hs
  · by_contra hf
    simp [(h.freed hf).1] at hs
  · intro hp
    simp [(h.passed hp).1] at hs

theorem View.Ok.fire (h : v.Ok) (hs : v.timer.added.isSome) : View.Ok { v with
      timer := { v.timer with added := none, inCb := true }, running := True, again := False } := by
  obtain ⟨ha, hf, hp⟩ := h.pendingLive hs
  constructor <;> simp [ha, hf, hp]

theorem View.Ok.ret (h : v.Ok) (hr : v.running) {more : Bool} (hp : v.passed → more = false)
    (hg : v.again → ¬ v.passed → more = true) (tv : Timeval) : View.Ok { v with
      timer := if more then ⟨tv, false, some tv, v.timer.frees⟩
        else ⟨tv, false, none, v.timer.frees + 1⟩
      running := False } := by
  have hf : v.timer.frees = 0 := by
    by_contra hf
    exact (h.freed hf).2.1 hr
  have ha : v.allocated := by
    by_contra ha
    exact (h.unallocated ha).2.2.1 hr
  cases more with
  | true =>
      have hp' : ¬ v.passed := fun hp' => by simp at hp; exact hp hp'
      constructor <;> simp [ha, hf, hp']
  | false =>
      have hg' : v.again → v.passed := by simpa using hg
      constructor <;> simp [ha, hf]
      exact hg'

end view

/-- The invariant of careful runs. -/
structure Sound (s : State) : Prop where
  untouched : s.touched = false
  ok : ∀ a, (s.view a).Ok

/-- A step about a timer that is not freed. -/
theorem Changes.sound {s s' : State} {a : ℕ} {v : View} (h : Changes s s' a v) (hs : Sound s)
    (hf : (s.timer a).frees = 0) (hv : v.Ok) : Sound s' :=
  ⟨by simp [h.touched, hs.untouched, hf], h.forall hs.ok hv⟩

theorem Sound.fresh {s : State} (hs : Sound s) : ¬ (s.view s.fresh).allocated ∧
    (s.timer s.fresh).frees = 0 := by
  have ha : ¬ (s.view s.fresh).allocated := Nat.lt_irrefl s.fresh
  exact ⟨ha, ((hs.ok s.fresh).unallocated ha).2.1⟩

/-- The timer whose callback runs is not freed. -/
theorem Sound.running {s : State} (hs : Sound s) {a : ℕ} (h : s.running = some a) :
    (s.timer a).frees = 0 := by
  by_contra hf
  exact ((hs.ok a).freed hf).2.1 h

/-- Step lemma. -/
theorem step_sound {s s' : State} {act : Action} (hs : Sound s) (hc : Careful s act)
    (h : step s act = some s') : Sound s' := by
  cases act with
  | new milliseconds inCb =>
      cases h
      obtain ⟨ha, hf⟩ := hs.fresh
      exact (geosvrTimerNew_changes milliseconds inCb hf).sound hs hf ((hs.ok _).new ha _ _)
  | reset a milliseconds =>
      obtain ⟨⟨ha, hp, hf⟩, hch⟩ := reset_changes h
      exact hch.sound hs hf (View.ok_reset (v := s.view a) hf hp ha _)
  | free a =>
      obtain ⟨⟨ha, -, hf⟩, hch⟩ := free_changes h
      exact hch.sound hs hf ((hs.ok a).free hf ha hc)
  | fire a =>
      obtain ⟨-, hadd, hch⟩ := fire_changes h
      exact hch.sound hs ((hs.ok a).pendingLive hadd).2.1 ((hs.ok a).fire hadd)
  | ret more =>
      obtain ⟨a, ha, hch⟩ := ret_changes h
      obtain ⟨hp, hg⟩ := hc a ha
      exact hch.sound hs (hs.running ha) ((hs.ok a).ret ha hp hg _)

theorem init_sound : Sound State.init where
  untouched := rfl
  ok a := by constructor <;> simp [State.init, State.view]

/-- No timer fires after it was passed to `geosvr_timer_free`, memory is freed at most once and
not accessed afterwards, and a timer that was reset in its own callback will fire again. -/
structure Safe (s : State) : Prop where
  quiet : ∀ a ∈ s.passed, (s.timer a).added = none
  once : ∀ a, (s.timer a).frees ≤ 1
  untouched : s.touched = false
  again : ∀ a ∈ s.again, a ∉ s.passed → (s.timer a).added.isSome

theorem Sound.safe {s : State} (hs : Sound s) : Safe s where
  quiet a ha := ((hs.ok a).passed ha).1
  once a := (hs.ok a).once
  untouched := hs.untouched
  again a ha hp := by
    have hok := hs.ok a
    refine hok.pending ?_ hp ?_ (fun _ => ha)
    · by_contra hu
      exact (hok.unallocated hu).2.2.2.2 ha
    · by_contra hf
      exact hp ((hok.freed hf).2.2 ha)

/-- Careful callers and callbacks are safe, whatever `malloc` returns. -/
theorem safe_run {as : List Action} {s : State} (hr : Run step Careful State.init as s) :
    Safe s :=
  (hr.inv Sound (fun _ _ _ hs hc h => step_sound hs hc h) init_sound).safe

/-! ### The whole contract -/

/-- The contract of the module. -/
structure Contract (s : State) : Prop extends Safe s where
  flagged : ∀ a, (s.view a).Flagged

/-- `malloc` leaves `in_cb_` false, no timer is reset in its own callback, and a callback that
has passed its timer to `geosvr_timer_free` returns 0. -/
def Strict (s : State) : Action → Prop
  | .new _ inCb => inCb = false
  | .reset a _ => s.running ≠ some a
  | .free _ => True
  | .fire _ => True
  | .ret more => ∀ a, s.running = some a → a ∈ s.passed → more = false

/-- `in_cb_` is right, and the timer was not reset in its own callback. -/
def View.Right (v : View) : Prop := v.Flagged ∧ ¬ v.again

/-- The invariant of strict runs. -/
structure Kept (s : State) : Prop extends Sound s where
  right : ∀ a, (s.view a).Right

theorem Kept.contract {s : State} (hs : Kept s) : Contract s :=
  ⟨hs.toSound.safe, fun a => (hs.right a).1⟩

theorem Kept.careful {s : State} (hs : Kept s) {act : Action} {s' : State} (hc : Strict s act)
    (h : step s act = some s') : Careful s act := by
  cases act with
  | new milliseconds inCb => trivial
  | reset a milliseconds => trivial
  | free a =>
      obtain ⟨⟨ha, -, hf⟩, -⟩ := free_changes h
      exact (hs.right a).1 ha hf
  | fire a => trivial
  | ret more => exact fun a ha => ⟨hc a ha, fun hg => absurd hg (hs.right a).2⟩

/-- Step lemma. -/
theorem step_kept {s s' : State} {act : Action} (hs : Kept s) (hc : Strict s act)
    (h : step s act = some s') : Kept s' := by
  refine ⟨step_sound hs.toSound (hs.careful hc h) h, ?_⟩
  cases act with
  | new milliseconds inCb =>
      cases h
      obtain ⟨ha, hf⟩ := hs.fresh
      have hr := ((hs.ok s.fresh).unallocated ha).2.2.1
      have hi : inCb = false := hc
      refine (geosvrTimerNew_changes milliseconds inCb hf).forall hs.right ⟨fun _ _ => ?_,
        (hs.right _).2⟩
      simp [hi, hr]
  | reset a milliseconds =>
      obtain ⟨-, hch⟩ := reset_changes h
      have hr : ¬ (s.view a).running := hc
      refine hch.forall hs.right ⟨fun _ _ => ?_, not_or.mpr ⟨(hs.right a).2, hr⟩⟩
      simp [hr]
  | free a =>
      obtain ⟨⟨ha, -, hf⟩, hch⟩ := free_changes h
      refine hch.forall hs.right ⟨fun _ hf' => ?_, (hs.right a).2⟩
      have hflag := (hs.right a).1 ha hf
      dsimp only at hf' ⊢
      split_ifs at hf' ⊢ with hi
      exact hflag
  | fire a =>
      obtain ⟨-, -, hch⟩ := fire_changes h
      exact hch.forall hs.right ⟨fun _ _ => by simp, not_false⟩
  | ret more =>
      obtain ⟨a, ha, hch⟩ := ret_changes h
      refine hch.forall hs.right ⟨fun _ _ => ?_, (hs.right a).2⟩
      cases more <;> simp

/-- A step that is not strict breaks the contract. -/
theorem Kept.strict {s s' : State} (hs : Kept s) {act : Action} (h : step s act = some s')
    (hc : Contract s') : Strict s act := by
  cases act with
  | new milliseconds inCb =>
      cases h
      obtain ⟨ha, hf⟩ := hs.fresh
      have hr := ((hs.ok s.fresh).unallocated ha).2.2.1
      have hflag := hc.flagged s.fresh
      rw [(geosvrTimerNew_changes milliseconds inCb hf).self] at hflag
      show inCb = false
      simpa [hr] using hflag trivial rfl
  | reset a milliseconds =>
      obtain ⟨⟨ha, -, hf⟩, hch⟩ := reset_changes h
      have hflag := hc.flagged a
      rw [hch.self] at hflag
      intro hr
      simpa using (hflag ha hf).mpr hr
  | free a => trivial
  | fire a => trivial
  | ret more =>
      intro a ha hp
      obtain ⟨b, hb, hch⟩ := ret_changes h
      rw [ha] at hb
      cases hb
      have hpassed : (s'.view a).passed := by
        rw [hch.self]
        exact hp
      have hadded : (s'.view a).timer.added = none := hc.quiet a hpassed
      rw [hch.self] at hadded
      cases more with
      | true => cases hadded
      | false => rfl

theorem init_kept : Kept State.init where
  toSound := init_sound
  right a := by simp [View.Right, View.Flagged, State.init, State.view]

/-- **The contract of the timer module.**  It holds in every state of a run exactly if every step
is strict. -/
theorem contract_run_iff {as : List Action} {s : State} (hr : Run step Free State.init as s) :
    (∀ bs cs t, as = bs ++ cs → Run step Free State.init bs t → Contract t) ↔
      Run step Strict State.init as s :=
  Run.forall_iff
    (fun _ _ _ hs h => ⟨hs.strict h, fun hc => (step_kept hs hc h).contract⟩)
    (fun _ _ _ hs hc h => step_kept hs hc h) init_kept init_kept.contract hr

/-- A timer is freed in its own callback, which then returns 0. -/
def sampleActions : List Action := [.new 1000 false, .fire 0, .free 0, .ret false]

theorem contract_run_iff_sample : ∃ s, Run step Free State.init sampleActions s ∧
    ∀ bs cs t, sampleActions = bs ++ cs → Run step Free State.init bs t → Contract t := by
  have hr : Run step Free State.init sampleActions _ := run_of_exec _ rfl
  have hrun : Run step Strict State.init sampleActions _ :=
    Run.cons rfl rfl (Run.cons trivial rfl (Run.cons trivial rfl
      (Run.cons (fun _ _ _ => rfl) rfl (Run.nil _))))
  exact ⟨_, hr, (contract_run_iff hr).mpr hrun⟩

/-- A timer is freed while `in_cb_` is what `malloc` left there, and fires; a callback frees its
timer after a reset, and the memory is written when it returns. -/
theorem contract_broken :
    (∃ s t, Run step Free State.init [.new 1000 true, .free 0] s ∧ 0 ∈ s.passed ∧
      step s (.fire 0) = some t) ∧
    ∃ s, Run step Free State.init [.new 1000 false, .fire 0, .reset 0 1000, .free 0, .ret false] s ∧
      s.touched = true ∧ (s.timer 0).frees = 2 :=
  ⟨⟨_, _, run_of_exec _ rfl, List.mem_cons_self, rfl⟩, _, run_of_exec _ rfl, rfl, rfl⟩

end GeoSvr.Timers
