import GeoSvr.Expiry

/-! # The invariant of the neighbour table (`neigh_list.cc`)

The bits of a neighbour's state say which of its two timers are pending, and they say it in every
state of every run: after any packets, whichever timers fire and whenever the cleaner runs.
`Consistent` is the invariant as a reader of `struct neighbor` would put it; it is read off the
invariants `Owned`, `Listed` and `Exclusive`, which the steps keep.

A timer whose neighbour is gone has no step, since its callback works on freed memory; which runs
leave such timers behind is the subject of `noOrphan_run_iff`. -/

namespace GeoSvr.Daemon

open Runs

variable {R : Type*}

/-- The timer at `timer` is pending, with the callback `func`, for the neighbour `n`. -/
def Pending (s : Node R) (timer : ℕ) (func : TimerCallback) (n : Neighbor R) : Prop :=
  ∃ t ∈ s.timers, t.addr = timer ∧ t.func = func ∧ t.data = n.addr

/-- The table: one entry for each address, `num` of them, and bits that agree with the timers. -/
structure Consistent (s : Node R) : Prop where
  sources : (s.neiList.map Neighbor.ipAddr).Nodup
  num : s.num = s.neiList.length
  known : ∀ n ∈ s.neiList, (n.state.direct = true ∧ n.state.indirect = false) ∨
    (n.state.direct = false ∧ n.state.indirect = true)
  timeout : ∀ n ∈ s.neiList,
    n.state.invalid = false ↔ Pending s n.timeoutTimer .neighListExpire n
  rebroadcast : ∀ n ∈ s.neiList, n.state.rebroadcast = false ↔
    ∃ r, n.rebroadcastTimer = some r ∧ Pending s r .rebroadcastExpire n
  own : ∀ n ∈ s.neiList, ∀ a,
    (Pending s a .neighListExpire n → n.timeoutTimer = a) ∧
    (Pending s a .rebroadcastExpire n → n.rebroadcastTimer = some a)

theorem pending_iff {s : Node R} {timer : ℕ} {func : TimerCallback} {n : Neighbor R} :
    Pending s timer func n ↔ (timer, func, n.addr) ∈ s.keys := by
  rw [mem_keys]
  constructor
  · rintro ⟨t, ht, rfl, rfl, hd⟩
    exact ⟨t, ht, congrArg (fun d => (t.addr, t.func, d)) hd⟩
  · rintro ⟨t, ht, he⟩
    simp only [GeoSVRTimer.key, Prod.mk.injEq] at he
    exact ⟨t, ht, he.1, he.2.1, he.2.2⟩

/-- An entry is known in exactly one way. -/
theorem Exclusive.known {n : Neighbor R} (h : Exclusive n) :
    (n.state.direct = true ∧ n.state.indirect = false) ∨
      (n.state.direct = false ∧ n.state.indirect = true) := by
  unfold Exclusive at h
  cases hd : n.state.direct with
  | true => exact Or.inl ⟨rfl, by rw [h, hd]; rfl⟩
  | false => exact Or.inr ⟨rfl, by rw [h, hd]; rfl⟩

theorem Tabled.consistent {s : Node R} (h : Tabled s) : Consistent s where
  sources := h.listed.sources
  num := h.listed.num
  known n hn := (h.exclusive n hn).known
  timeout n hn := by
    rw [pending_iff]
    exact (h.sound.owned.timeout n hn).symm
  rebroadcast n hn := by
    obtain ⟨r, hr, -, hiff⟩ := h.sound.owned.rebroadcast n hn
    simp only [hr, Option.some.injEq, exists_eq_left', pending_iff]
    exact hiff.symm
  own n hn a := by
    rw [pending_iff, pending_iff]
    exact ⟨h.sound.owned.timeoutOwner n hn a, h.sound.owned.rebroadcastOwner n hn a⟩

end GeoSvr.Daemon
