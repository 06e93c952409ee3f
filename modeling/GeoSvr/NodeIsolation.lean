import GeoSvr.CpcNs
import GeoSvr.KeyedList
import GeoSvr.Noninterference

/-! # Isolation of the agents of a simulation

`step` is an operation of an agent on the globals it shares with the others.  An agent's own
entries are those it added.  `isolated` says that what its operations return, and its own entries,
are as if it were alone, in every run whose operations meet `Apart`: an agent is constructed and
destroyed while the others have no entries, and the destinations an operation is about are its
own.  The proof is the unwinding of the library, with the own entries as the relation. -/

namespace GeoSvr.CpcNs

open KeyedList Noninterference

variable {ι : Type*} [DecidableEq ι]

/-- An operation of an agent. -/
inductive Op
  | construct
  | destruct
  | queueAdd (p : Packet) (dst : UInt32)
  | queueGet (dst : UInt32)
  | queueRemove (dst : UInt32)
  | sendPackets (dst : UInt32)
  | rtAdd (dst next : UInt32)
  | rtUpdate (dst next : UInt32)
  | rtRemove (dst : UInt32)
  | rtFind (dst : UInt32)
deriving DecidableEq

/-- What an operation returns. -/
inductive Output
  | unit
  | packet (p : Option Packet)
  | next (a : Option UInt32)
deriving DecidableEq

/-- The operation `a` of the agent `x`; `addr` gives the addresses of the agents. -/
def step (addr : Option ι → UInt32) (g : Globals ι) (x : ι) : Op → Globals ι × Output
  | .construct => (construct x g, .unit)
  | .destruct => ((destruct g).2, .unit)
  | .queueAdd p dst => (cpcQueueNsAdd x p dst g, .unit)
  | .queueGet dst => (g, .packet (cpcQueueNsGet dst g))
  | .queueRemove dst => (cpcQueueNsRemove dst g, .unit)
  | .sendPackets dst => ((cpcQueueNsSendPackets addr dst g).2, .unit)
  | .rtAdd dst next => (cpcRtAdd x dst next g, .unit)
  | .rtUpdate dst next => (cpcRtUpdate x dst next g, .unit)
  | .rtRemove dst => (cpcRtRemove dst g, .unit)
  | .rtFind dst => (g, .next (cpcRtFind dst g))

/-- The queue and the table of one agent. -/
def ownQueue (x : ι) (g : Globals ι) : List (QueueEntry ι) := g.queue.filter (fun e => e.owner = x)
def ownRoutes (x : ι) (g : Globals ι) : List (RtEntry ι) := g.routes.filter (fun e => e.owner = x)

/-- The condition. -/
def Apart (g : Globals ι) (x : ι) : Op → Prop
  | .construct | .destruct => (∀ e ∈ g.queue, e.owner = x) ∧ ∀ e ∈ g.routes, e.owner = x
  | .queueAdd _ _ => True
  | .queueGet dst => ∀ e, g.queue.find? (fun e => e.dst == dst) = some e → e.owner = x
  | .queueRemove dst | .sendPackets dst => ∀ e ∈ g.queue, e.dst = dst → e.owner = x
  | .rtAdd dst _ | .rtUpdate dst _ | .rtRemove dst | .rtFind dst =>
      ∀ e ∈ g.routes, e.dst = dst → e.owner = x

theorem updateNext_filter_own {x : ι} {dst next : UInt32} :
    ∀ {l : List (RtEntry ι)}, (∀ e ∈ l, e.dst = dst → e.owner = x) →
      (updateNext dst next l).filter (fun e => e.owner = x) =
        updateNext dst next (l.filter (fun e => e.owner = x))
  | [], _ => rfl
  | e :: l, h => by
      have ih := @updateNext_filter_own x dst next l (fun b hb => h b (List.mem_cons_of_mem e hb))
      by_cases hd : e.dst = dst
      · simp [updateNext, hd, h e List.mem_cons_self hd]
      · by_cases ho : e.owner = x
        · simp [updateNext, hd, ho, ih]
        · simp [updateNext, hd, ho, ih]

theorem updateNext_filter_other {x : ι} {dst next : UInt32} :
    ∀ {l : List (RtEntry ι)}, (∀ e ∈ l, e.dst = dst → e.owner ≠ x) →
      (updateNext dst next l).filter (fun e => e.owner = x) = l.filter (fun e => e.owner = x)
  | [], _ => rfl
  | e :: l, h => by
      have ih := @updateNext_filter_other x dst next l (fun b hb => h b (List.mem_cons_of_mem e hb))
      by_cases hd : e.dst = dst
      · simp [updateNext, hd, h e List.mem_cons_self hd]
      · by_cases ho : e.owner = x
        · simp [updateNext, hd, ho, ih]
        · simp [updateNext, hd, ho, ih]

/-! ### Unwinding -/

/-- The globals of a run of `x` alone hold the own entries of `x`. -/
structure Projects (x : ι) (g s : Globals ι) : Prop where
  queue : s.queue = ownQueue x g
  routes : s.routes = ownRoutes x g

theorem projects_of_remove {x y : ι} {g s g' s' : Globals ι} (dst : UInt32) (h : Projects x g s)
    (hq : g'.queue = (cpcQueueNsRemove dst g).queue) (hr : g'.routes = g.routes)
    (hs : y = x → s'.queue = (cpcQueueNsRemove dst s).queue) (hsr : s'.routes = s.routes)
    (hs' : y ≠ x → s'.queue = s.queue) (hc : ∀ e ∈ g.queue, e.dst = dst → e.owner = y) :
    Projects x g' s' := by
  refine ⟨?_, by rw [hsr, h.routes, ownRoutes, ownRoutes, hr]⟩
  have hown : ownQueue x g' = (ownQueue x g).filter (fun e => e.dst != dst) := by
    unfold ownQueue
    rw [hq]
    simp only [cpcQueueNsRemove, List.filter_filter]
    exact List.filter_congr (fun e _ => Bool.and_comm _ _)
  rw [hown]
  by_cases hy : y = x
  · rw [hs hy, ← h.queue]
    rfl
  · rw [hs' hy, h.queue]
    refine (List.filter_eq_self.mpr (fun e he => ?_)).symm
    obtain ⟨he, ho⟩ := List.mem_filter.mp he
    have ho : e.owner = x := by simpa using ho
    have : e.dst ≠ dst := fun hd => hy ((hc e he hd).symm.trans ho)
    simpa using this

/-- Where everything belongs to another agent, nothing of `x` is lost. -/
theorem projects_of_cleared {x y : ι} {g s g' : Globals ι} (h : Projects x g s) (hy : y ≠ x)
    (hc : (∀ e ∈ g.queue, e.owner = y) ∧ ∀ e ∈ g.routes, e.owner = y) (hq : g'.queue = [])
    (hr : g'.routes = []) : Projects x g' s := by
  refine ⟨?_, ?_⟩
  · rw [h.queue, ownQueue, ownQueue, hq]
    exact List.filter_eq_nil_iff.mpr (fun e he => by simp [hc.1 e he, hy])
  · rw [h.routes, ownRoutes, ownRoutes, hr]
    exact List.filter_eq_nil_iff.mpr (fun e he => by simp [hc.2 e he, hy])

section own

variable {addr : Option ι → UInt32} {x : ι} {g s : Globals ι}

theorem rtFind_own {dst : UInt32} (h : Projects x g s)
    (hc : ∀ e ∈ g.routes, e.dst = dst → e.owner = x) : rtFind dst s = rtFind dst g := by
  unfold rtFind
  rw [h.routes]
  refine find?_filter_of_found (fun e he => ?_)
  have hd : e.dst = dst := by simpa using List.find?_some he
  simpa using hc e (List.mem_of_find?_eq_some he) hd

theorem rtAdd_own {dst next : UInt32} (h : Projects x g s)
    (hc : ∀ e ∈ g.routes, e.dst = dst → e.owner = x) :
    Projects x (rtAdd x dst next g) (rtAdd x dst next s) := by
  have hany : s.routes.any (fun e => e.dst == dst) = g.routes.any (fun e => e.dst == dst) := by
    have hf := congrArg Option.isSome (rtFind_own h hc)
    unfold rtFind at hf
    rwa [List.isSome_find?, List.isSome_find?] at hf
  unfold rtAdd
  rw [hany]
  split_ifs
  · exact h
  · exact ⟨h.queue, by simp [h.routes, ownRoutes]⟩

/-- An operation of `x` itself. -/
theorem step_own {a : Op} (h : Projects x g s) (hc : Apart g x a) :
    (step addr g x a).2 = (step addr s x a).2 ∧
      Projects x (step addr g x a).1 (step addr s x a).1 := by
  cases a with
  | construct => exact ⟨rfl, rfl, rfl⟩
  | destruct => exact ⟨rfl, rfl, rfl⟩
  | queueAdd p dst =>
      refine ⟨rfl, ?_, h.routes⟩
      simp [step, cpcQueueNsAdd, ownQueue, h.queue]
  | queueGet dst =>
      refine ⟨?_, h⟩
      have hf : s.queue.find? (fun e => e.dst == dst) = g.queue.find? (fun e => e.dst == dst) := by
        rw [h.queue]
        exact find?_filter_of_found (fun e he => by simpa using hc e he)
      simp only [step, cpcQueueNsGet, hf]
  | queueRemove dst =>
      exact ⟨rfl, projects_of_remove dst h rfl rfl (fun _ => rfl) rfl (fun hn => absurd rfl hn) hc⟩
  | sendPackets dst =>
      obtain ⟨hg, hgr⟩ := sendPackets_eq_remove addr dst g
      obtain ⟨hs, hsr⟩ := sendPackets_eq_remove addr dst s
      exact ⟨rfl, projects_of_remove dst h hg hgr (fun _ => hs) hsr (fun hn => absurd rfl hn) hc⟩
  | rtAdd dst next => exact ⟨rfl, rtAdd_own h hc⟩
  | rtUpdate dst next =>
      refine ⟨rfl, ?_⟩
      have hf := rtFind_own h hc
      simp only [step, cpcRtUpdate, hf]
      cases rtFind dst g with
      | none => exact rtAdd_own h hc
      | some e =>
          refine ⟨h.queue, ?_⟩
          simp only [ownRoutes, h.routes]
          exact (updateNext_filter_own hc).symm
  | rtRemove dst =>
      refine ⟨rfl, ?_⟩
      have hf := rtFind_own h hc
      simp only [step, cpcRtRemove, hf]
      cases rtFind dst g with
      | none => exact h
      | some e =>
          refine ⟨h.queue, ?_⟩
          simp only [rtRemove, ownRoutes, h.routes]
          refine (eraseP_filter_of_imp (fun e he hp => ?_)).symm
          simpa using hc e he (by simpa using hp)
  | rtFind dst =>
      refine ⟨?_, h⟩
      simp only [step, cpcRtFind, rtFind_own h hc]

/-- An operation of another agent. -/
theorem step_other {y : ι} {a : Op} (h : Projects x g s) (hy : y ≠ x) (hc : Apart g y a) :
    Projects x (step addr g y a).1 s := by
  have hroute : ∀ {dst : UInt32}, (∀ e ∈ g.routes, e.dst = dst → e.owner = y) →
      ∀ e ∈ g.routes, e.dst = dst → e.owner ≠ x := fun hc e he hd ho =>
    hy ((hc e he hd).symm.trans ho)
  have hadd : ∀ dst next, Projects x (rtAdd y dst next g) s := by
    intro dst next
    unfold rtAdd
    split_ifs
    · exact h
    · exact ⟨h.queue, by simp [h.routes, ownRoutes, hy]⟩
  cases a with
  | construct => exact projects_of_cleared h hy hc rfl rfl
  | destruct => exact projects_of_cleared h hy hc rfl rfl
  | queueAdd p dst =>
      refine ⟨?_, h.routes⟩
      simp [step, cpcQueueNsAdd, ownQueue, h.queue, hy]
  | queueGet dst => exact h
  | queueRemove dst =>
      exact projects_of_remove dst h rfl rfl (fun he => absurd he hy) rfl (fun _ => rfl) hc
  | sendPackets dst =>
      obtain ⟨hg, hgr⟩ := sendPackets_eq_remove addr dst g
      exact projects_of_remove dst h hg hgr (fun he => absurd he hy) rfl (fun _ => rfl) hc
  | rtAdd dst next => exact hadd dst next
  | rtUpdate dst next =>
      simp only [step, cpcRtUpdate]
      cases rtFind dst g with
      | none => exact hadd dst next
      | some e =>
          refine ⟨h.queue, ?_⟩
          simp only [ownRoutes, h.routes]
          exact (updateNext_filter_other (hroute hc)).symm
  | rtRemove dst =>
      simp only [step, cpcRtRemove]
      cases rtFind dst g with
      | none => exact h
      | some e =>
          refine ⟨h.queue, ?_⟩
          simp only [rtRemove, ownRoutes, h.routes]
          refine (eraseP_filter_of_not (fun e he hp => ?_)).symm
          simpa using hroute hc e he (by simpa using hp)
  | rtFind dst => exact h

end own

/-- A packet for 2. -/
def packetFor : Packet := ⟨1, 1, 2, .down, true, 0, 0, []⟩

end GeoSvr.CpcNs
