import GeoSvr.Hook
import GeoSvr.Runs

/-! # Loading and unloading the module (`geosvr_mod.c`)

`geosvr_linux_init` registers the two hooks one after the other and stores the interface record
in `ifip` after that; `geosvr_linux_exit` frees the record first and unregisters the hooks after
that.  Packets arrive at whatever hooks are registered, at any moment in between.

`Pc` is the statement that is next, `Kmod` the state of the module, and `step` lets the loading
thread proceed, lets packets arrive and calls of the hook end.  Unregistering a hook has two
steps: from the first on no call begins, and the second (`synchronize_net`) waits for the calls
under way.  The other steps do not wait for them.

A state is `Orderly` when calls of the hook under way find the record and the netlink socket, and
the queue of an unloaded module is empty.  The second half always holds (`unloaded_empty`); the
first fails for every call that begins outside the time between the two functions, or is under
way when the record is freed. -/

namespace GeoSvr.Kernel.Lifecycle

open Runs

/-- What `ifip` points to. -/
inductive IfPtr
  | null
  | live (ifi : Config)
  | freed

/-- The next statement of `geosvr_linux_init` or `geosvr_linux_exit`.  From `ret` on, `stored`
says whether `if_info_add` has stored a record. -/
inductive Pc
  | queueInit
  | netlinkInit
  | registerPre
  | registerOut
  | ifInfoAdd
  | ret (stored : Bool)
  | loaded (stored : Bool)
  -- the labels `hook0`, `netlink` and `queue`
  | hook0
  | hook0Sync
  | netlink
  | queue
  -- `geosvr_linux_exit` after `if_info_purge`
  | unregisterPre
  | syncPre
  | unregisterOut
  | syncOut
  | queueFini
  | netlinkFini
  | unloaded
  | oops
deriving DecidableEq

/-- `ifip`, `geosvrnl`, the registered hooks, the calls of the hook under way, the queue. -/
structure Kmod where
  pc : Pc
  ifip : IfPtr
  socket : Bool
  registered : HookNum → Bool
  running : List Capture
  queue : Queue

inductive Action
  /-- `ok`: what the kernel is asked for is granted; `eth0`: what the device has to offer -/
  | proceed (ok : Bool) (eth0 : Option Config)
  | rmmod
  | arrive (c : Capture)
  /-- `stale`: what the call reads from freed memory -/
  | finish (i : ℕ) (stale : Config)
  | answer (dst : UInt32)

/-- Before `insmod`. -/
def Kmod.init : Kmod := ⟨.queueInit, .null, false, fun _ => false, [], ⟨[], 0⟩⟩

/-- `nf_register_hook` and `nf_unregister_hook`. -/
def Kmod.register (s : Kmod) (h : HookNum) (b : Bool) : Kmod :=
  { s with registered := fun h' => if h' = h then b else s.registered h' }

/-- No call of the hook at `h` is under way. -/
def Kmod.idle (s : Kmod) (h : HookNum) : Bool := s.running.all (fun c => c.hooknum != h)

/-- One statement of `geosvr_linux_init` or `geosvr_linux_exit`. -/
def Kmod.proceed (s : Kmod) (ok : Bool) (eth0 : Option Config) : Option Kmod :=
  match s.pc with
  | .queueInit => some { s with pc := .netlinkInit, queue := { s.queue with total := 0 } }
  | .netlinkInit =>
      if ok then some { s with pc := .registerPre, socket := true }
      else some { s with pc := .queue }
  | .registerPre =>
      if ok then some { s.register .preRouting true with pc := .registerOut }
      else some { s with pc := .netlink }
  | .registerOut =>
      if ok then some { s.register .localOut true with pc := .ifInfoAdd }
      else some { s with pc := .hook0 }
  | .ifInfoAdd =>
      match eth0, ok with
      | some ifi, true => some { s with pc := .ret true, ifip := .live ifi }
      -- no device, or no memory: nothing is stored, and the status stays 0
      | _, _ => some { s with pc := .ret false }
  | .ret stored => some { s with pc := .loaded stored }
  | .loaded _ => none
  | .hook0 => some { s.register .preRouting false with pc := .hook0Sync }
  | .hook0Sync => if s.idle .preRouting then some { s with pc := .netlink } else none
  | .netlink => some { s with pc := .queue, socket := false }
  | .queue => some { s with pc := .unloaded, queue := (geosvrQueueFlush s.queue).2 }
  | .unregisterPre => some { s.register .preRouting false with pc := .syncPre }
  | .syncPre => if s.idle .preRouting then some { s with pc := .unregisterOut } else none
  | .unregisterOut => some { s.register .localOut false with pc := .syncOut }
  | .syncOut => if s.idle .localOut then some { s with pc := .queueFini } else none
  | .queueFini => some { s with pc := .netlinkFini, queue := (geosvrQueueFlush s.queue).2 }
  | .netlinkFini => some { s with pc := .unloaded, socket := false }
  | .unloaded => none
  | .oops => none

/-- The start of `geosvr_linux_exit`: `if_info_purge`, which follows `ifip` as it is. -/
def Kmod.purge (s : Kmod) : Kmod :=
  match s.ifip with
  | .live _ => { s with pc := .unregisterPre, ifip := .freed }
  | _ => { s with pc := .oops }

/-- The call follows `ifip`: it is not done before that. -/
def readsIfip (c : Capture) : Bool :=
  !(c.skb.networkHeader == 0 || isGpsd c.skb.mem c.skb.networkHeader)

/-- The call `c`, the `i`th under way, ends. -/
def Kmod.finish (s : Kmod) (i : ℕ) (stale : Config) (c : Capture) : Option Kmod :=
  let leave (q : Queue) : Kmod := { s with running := s.running.eraseIdx i, queue := q }
  match s.ifip with
  | .live ifi => some (leave (geosvrHook ifi c s.queue).queue)
  | .freed => some (leave (geosvrHook stale c s.queue).queue)
  | .null => if readsIfip c then none else some (leave s.queue)

/-- A message of the daemon takes an entry out of the queue. -/
def Kmod.answer (s : Kmod) (dst : UInt32) : Kmod :=
  match findDequeueEntry (destCmp dst) s.queue with
  | none => s
  | some (_, q) => { s with queue := q }

def step (s : Kmod) : Action → Option Kmod
  | .proceed ok eth0 => s.proceed ok eth0
  | .rmmod => if s.pc = .loaded true ∨ s.pc = .loaded false then some s.purge else none
  | .arrive c =>
      if s.registered c.hooknum then some { s with running := c :: s.running } else none
  | .finish i stale =>
      match s.running[i]? with
      | none => none
      | some c => s.finish i stale c
  | .answer dst => if s.socket then some (s.answer dst) else none

/-! ### The property and the condition -/

/-- What a call of the hook relies on. -/
def Ready (s : Kmod) : Prop := (∃ ifi, s.ifip = .live ifi) ∧ s.socket = true

structure Orderly (s : Kmod) : Prop where
  ready : s.running ≠ [] → Ready s
  empty : s.pc = .unloaded → s.queue.list = []

/-- The record is stored and `geosvr_linux_exit` has not begun. -/
def Pc.serving (pc : Pc) : Bool := pc == .ret true || pc == .loaded true

/-- The condition: packets arrive while the module serves, and none is being processed when
`geosvr_linux_exit` begins. -/
def Timely (s : Kmod) : Action → Prop
  | .arrive _ => s.pc.serving = true
  | .rmmod => s.running = []
  | _ => True

/-! ### What holds at each statement -/

/-- The hooks that are registered. -/
def Pc.registers : Pc → HookNum → Bool
  | .registerOut, h | .hook0, h => h == .preRouting
  | .ifInfoAdd, h | .ret _, h | .loaded _, h | .unregisterPre, h | .oops, h =>
      h == .preRouting || h == .localOut
  | .syncPre, h | .unregisterOut, h => h == .localOut
  | _, _ => false

/-- The hooks of which calls may be under way. -/
def Pc.mayRun : Pc → HookNum → Bool
  | .hook0Sync, h => h == .preRouting
  | .syncPre, h => h == .preRouting || h == .localOut
  | .syncOut, h => h == .localOut
  | pc, h => pc.registers h

/-- The netlink socket exists. -/
def Pc.hasSocket : Pc → Bool
  | .queueInit | .netlinkInit | .queue | .unloaded => false
  | _ => true

/-- The queue has been flushed for the last time. -/
def Pc.flushed : Pc → Bool
  | .netlinkFini | .unloaded => true
  | _ => false

/-- What holds in every state that can be reached. -/
structure Inv (s : Kmod) : Prop where
  registered : ∀ h, s.registered h = s.pc.registers h
  running : ∀ c ∈ s.running, s.pc.mayRun c.hooknum = true
  ifip : (∃ ifi, s.ifip = .live ifi) ↔ s.pc.serving = true
  socket : s.socket = s.pc.hasSocket
  empty : s.pc.flushed = true → s.queue.list = []

theorem inv_init : Inv Kmod.init where
  registered := fun _ => rfl
  running := by simp [Kmod.init]
  ifip := by simp [Kmod.init, Pc.serving]
  socket := rfl
  empty := fun _ => rfl

theorem mayRun_of_registers {pc : Pc} {h : HookNum} (hr : pc.registers h = true) :
    pc.mayRun h = true := by
  cases pc <;> simp_all [Pc.registers, Pc.mayRun]

theorem serving_hasSocket {pc : Pc} (h : pc.serving = true) : pc.hasSocket = true := by
  cases pc <;> simp_all [Pc.serving, Pc.hasSocket]

/-- In a state with the invariant calls find what they rely on while the module serves. -/
theorem Inv.ready_iff {s : Kmod} (hi : Inv s) : Ready s ↔ s.pc.serving = true := by
  unfold Ready
  rw [hi.ifip, hi.socket]
  exact and_iff_left_of_imp serving_hasSocket

theorem Inv.empty_of_unloaded {s : Kmod} (hi : Inv s) (h : s.pc = .unloaded) : s.queue.list = [] :=
  hi.empty (by rw [h]; rfl)

theorem Inv.orderly_iff {s : Kmod} (hi : Inv s) :
    Orderly s ↔ (s.running ≠ [] → s.pc.serving = true) :=
  ⟨fun h hr => hi.ready_iff.mp (h.ready hr),
    fun h => ⟨fun hr => hi.ready_iff.mpr (h hr), hi.empty_of_unloaded⟩⟩

/-! ### Steps -/

/-- Registering or unregistering the hook `h`, between two statements that differ in it. -/
theorem registered_set {registered : HookNum → Bool} {pc pc' : Pc} {h : HookNum} {b : Bool}
    (hreg : ∀ h', registered h' = pc.registers h')
    (hset : ∀ h', pc'.registers h' = if h' = h then b else pc.registers h') (h' : HookNum) :
    (if h' = h then b else registered h') = pc'.registers h' := by
  rw [hset, hreg]

theorem idle_iff {s : Kmod} {h : HookNum} :
    s.idle h = true ↔ ∀ c ∈ s.running, c.hooknum ≠ h := by
  simp [Kmod.idle]

/-- Once the calls at `h` are over, the others are at the other hook. -/
theorem mayRun_of_idle {s : Kmod} {h : HookNum} {pc pc' : Pc} (hidle : s.idle h = true)
    (hrun : ∀ c ∈ s.running, pc.mayRun c.hooknum = true)
    (hrest : ∀ h', h' ≠ h → pc.mayRun h' = true → pc'.mayRun h' = true) :
    ∀ c ∈ s.running, pc'.mayRun c.hooknum = true :=
  fun c hc => hrest _ (idle_iff.mp hidle c hc) (hrun c hc)

/-- Every statement keeps the invariant: what two successive statements say of the hooks, of
`ifip`, of the socket and of the queue is the same but for what the first one does. -/
theorem proceed_inv {s s' : Kmod} {ok : Bool} {eth0 : Option Config} (hi : Inv s)
    (h : s.proceed ok eth0 = some s') : Inv s' := by
  obtain ⟨pc, ifip, socket, registered, running, queue⟩ := s
  obtain ⟨hreg, hrun, hifip, hsock, hempty⟩ := hi
  cases pc with
  | queueInit =>
      cases h
      exact ⟨hreg, hrun, hifip, hsock, hempty⟩
  | netlinkInit =>
      cases ok with
      | true =>
          cases h
          exact ⟨hreg, hrun, hifip, rfl, hempty⟩
      | false =>
          cases h
          exact ⟨hreg, hrun, hifip, hsock, hempty⟩
  | registerPre =>
      cases ok with
      | true =>
          cases h
          refine ⟨registered_set hreg (fun h' => by cases h' <;> rfl), fun c hc => ?_, hifip, hsock,
            hempty⟩
          exact absurd (hrun c hc) Bool.false_ne_true
      | false =>
          cases h
          exact ⟨hreg, hrun, hifip, hsock, hempty⟩
  | registerOut =>
      cases ok with
      | true =>
          cases h
          refine ⟨registered_set hreg (fun h' => by cases h' <;> rfl), fun c hc => ?_, hifip, hsock,
            hempty⟩
          exact (Bool.or_eq_true _ _).mpr (Or.inl (hrun c hc))
      | false =>
          cases h
          exact ⟨hreg, hrun, hifip, hsock, hempty⟩
  | ifInfoAdd =>
      cases eth0 with
      | none =>
          cases h
          exact ⟨hreg, hrun, hifip, hsock, hempty⟩
      | some ifi =>
          cases ok with
          | false =>
              cases h
              exact ⟨hreg, hrun, hifip, hsock, hempty⟩
          | true =>
              cases h
              exact ⟨hreg, hrun, iff_of_true ⟨ifi, rfl⟩ rfl, hsock, hempty⟩
  | ret stored =>
      cases h
      refine ⟨hreg, hrun, hifip.trans ?_, hsock, hempty⟩
      cases stored <;> rfl
  | loaded stored => cases h
  | hook0 =>
      cases h
      exact ⟨registered_set hreg (fun h' => by cases h' <;> rfl), hrun, hifip, hsock, hempty⟩
  | hook0Sync =>
      simp only [Kmod.proceed] at h
      split_ifs at h with hidle
      cases h
      refine ⟨hreg, mayRun_of_idle hidle hrun (fun h' hne hm => ?_), hifip, hsock, hempty⟩
      exact absurd (by simpa [Pc.mayRun] using hm) hne
  | netlink =>
      cases h
      exact ⟨hreg, hrun, hifip, rfl, hempty⟩
  | queue =>
      cases h
      exact ⟨hreg, hrun, hifip, hsock, fun _ => rfl⟩
  | unregisterPre =>
      cases h
      exact ⟨registered_set hreg (fun h' => by cases h' <;> rfl), hrun, hifip, hsock, hempty⟩
  | syncPre =>
      simp only [Kmod.proceed] at h
      split_ifs at h with hidle
      cases h
      refine ⟨hreg, mayRun_of_idle hidle hrun (fun h' hne hm => ?_), hifip, hsock, hempty⟩
      exact ((Bool.or_eq_true _ _).mp hm).resolve_left (by simpa using hne)
  | unregisterOut =>
      cases h
      exact ⟨registered_set hreg (fun h' => by cases h' <;> rfl), hrun, hifip, hsock, hempty⟩
  | syncOut =>
      simp only [Kmod.proceed] at h
      split_ifs at h with hidle
      cases h
      refine ⟨hreg, mayRun_of_idle hidle hrun (fun h' hne hm => ?_), hifip, hsock, hempty⟩
      exact absurd (by simpa [Pc.mayRun] using hm) hne
  | queueFini =>
      cases h
      exact ⟨hreg, hrun, hifip, hsock, fun _ => rfl⟩
  | netlinkFini =>
      cases h
      exact ⟨hreg, hrun, hifip, rfl, hempty⟩
  | unloaded => cases h
  | oops => cases h

/-- No statement starts or ends a call, or makes the module stop serving. -/
theorem proceed_running {s s' : Kmod} {ok : Bool} {eth0 : Option Config}
    (h : s.proceed ok eth0 = some s') :
    s'.running = s.running ∧ (s.pc.serving = true → s'.pc.serving = true) := by
  unfold Kmod.proceed at h
  cases hpc : s.pc with
  | ret stored =>
      rw [hpc] at h
      cases h
      exact ⟨rfl, fun h => by cases stored <;> simp_all [Pc.serving]⟩
  | loaded stored => rw [hpc] at h; cases h
  | ifInfoAdd =>
      refine ⟨?_, fun h => by simp [Pc.serving] at h⟩
      rw [hpc] at h
      cases eth0 <;> cases ok <;> cases h <;> rfl
  | _ =>
      refine ⟨?_, fun h => by simp [Pc.serving] at h⟩
      simp only [hpc] at h
      first
        | split_ifs at h <;> cases h <;> rfl
        | cases h <;> rfl

theorem purge_running (s : Kmod) : s.purge.running = s.running ∧ s.purge.pc.serving = false := by
  unfold Kmod.purge
  cases s.ifip <;> exact ⟨rfl, rfl⟩

/-- `if_info_purge` frees the record if there is one. -/
theorem purge_inv {s : Kmod} (hi : Inv s) (h : s.pc = .loaded true ∨ s.pc = .loaded false) :
    Inv s.purge := by
  have hreg : ∀ h', s.registered h' = (h' == .preRouting || h' == .localOut) := by
    intro h'
    rw [hi.registered]
    obtain hpc | hpc := h <;> rw [hpc] <;> rfl
  have hrun : ∀ c ∈ s.running, (c.hooknum == .preRouting || c.hooknum == .localOut) = true := by
    intro c hc
    have := hi.running c hc
    obtain hpc | hpc := h <;> rw [hpc] at this <;> exact this
  have hsock : s.socket = true := by
    rw [hi.socket]
    obtain hpc | hpc := h <;> rw [hpc] <;> rfl
  unfold Kmod.purge
  cases hp : s.ifip with
  | live ifi =>
      exact ⟨hreg, hrun, by simp [Pc.serving], hsock, fun h => by cases h⟩
  | null => exact ⟨hreg, hrun, by simp [Pc.serving], hsock, fun h => by cases h⟩
  | freed => exact ⟨hreg, hrun, by simp [Pc.serving], hsock, fun h => by cases h⟩

theorem findDequeueEntry_nil {cmp : QueueEntry → Bool} {q : Queue} (h : q.list = []) :
    findDequeueEntry cmp q = none := by
  unfold findDequeueEntry
  rw [h]
  rfl

theorem answer_inv {s : Kmod} (hi : Inv s) (dst : UInt32) : Inv (s.answer dst) := by
  unfold Kmod.answer
  cases hd : findDequeueEntry (destCmp dst) s.queue with
  | none => exact hi
  | some p =>
      refine ⟨hi.registered, hi.running, hi.ifip, hi.socket, fun h => ?_⟩
      rw [findDequeueEntry_nil (hi.empty h)] at hd
      cases hd

/-- The end of a call only takes it out and changes the queue. -/
theorem finish_cases {s s' : Kmod} {i : ℕ} {stale : Config} {c : Capture}
    (h : s.finish i stale c = some s') :
    ∃ q, s' = { s with running := s.running.eraseIdx i, queue := q } := by
  unfold Kmod.finish at h
  cases hp : s.ifip with
  | null =>
      simp only [hp] at h
      split_ifs at h
      cases h
      exact ⟨_, rfl⟩
  | live ifi =>
      simp only [hp] at h
      cases h
      exact ⟨_, rfl⟩
  | freed =>
      simp only [hp] at h
      cases h
      exact ⟨_, rfl⟩

theorem flushed_mayRun {pc : Pc} (h : pc.flushed = true) (h' : HookNum) : pc.mayRun h' = false := by
  cases pc <;> simp_all [Pc.flushed, Pc.mayRun, Pc.registers]

theorem step_inv {s s' : Kmod} {a : Action} (hi : Inv s) (h : step s a = some s') : Inv s' := by
  cases a with
  | proceed ok eth0 => exact proceed_inv hi h
  | rmmod =>
      simp only [step] at h
      split_ifs at h with hpc
      cases h
      exact purge_inv hi hpc
  | arrive c =>
      simp only [step] at h
      split_ifs at h with hreg
      cases h
      refine ⟨hi.registered, fun c' hc => ?_, hi.ifip, hi.socket, hi.empty⟩
      obtain rfl | hc := List.mem_cons.mp hc
      · exact mayRun_of_registers ((hi.registered _).symm.trans hreg)
      · exact hi.running c' hc
  | finish i stale =>
      simp only [step] at h
      cases hc : s.running[i]? with
      | none => rw [hc] at h; cases h
      | some c =>
          rw [hc] at h
          obtain ⟨q, rfl⟩ := finish_cases h
          refine ⟨hi.registered, fun c' hm => hi.running c' (List.mem_of_mem_eraseIdx hm), hi.ifip,
            hi.socket, fun hf => ?_⟩
          have hmay := hi.running c (List.mem_of_getElem? hc)
          rw [flushed_mayRun hf] at hmay
          cases hmay
  | answer dst =>
      simp only [step] at h
      split_ifs at h
      cases h
      exact answer_inv hi dst

/-- A step leads to an orderly state exactly when it is timely. -/
theorem step_orderly {s s' : Kmod} {a : Action} (hi : Inv s) (ho : Orderly s)
    (h : step s a = some s') : Orderly s' ↔ Timely s a := by
  have hserv := hi.orderly_iff.mp ho
  rw [(step_inv hi h).orderly_iff]
  cases a with
  | proceed ok eth0 =>
      refine iff_of_true (fun hr => ?_) trivial
      obtain ⟨hrun, hkeep⟩ := proceed_running h
      exact hkeep (hserv (hrun ▸ hr))
  | rmmod =>
      simp only [step] at h
      split_ifs at h with hpc
      cases h
      obtain ⟨hrun, hnot⟩ := purge_running s
      rw [hrun, hnot]
      simp [Timely]
  | arrive c =>
      simp only [step] at h
      split_ifs at h
      cases h
      simp [Timely]
  | finish i stale =>
      simp only [step] at h
      cases hc : s.running[i]? with
      | none => rw [hc] at h; cases h
      | some c =>
          rw [hc] at h
          obtain ⟨q, rfl⟩ := finish_cases h
          refine iff_of_true (fun _ => hserv ?_) trivial
          exact List.ne_nil_of_mem (List.mem_of_getElem? hc)
  | answer dst =>
      simp only [step] at h
      split_ifs at h
      cases h
      refine iff_of_true (fun hr => ?_) trivial
      unfold Kmod.answer at hr ⊢
      cases hd : findDequeueEntry (destCmp dst) s.queue with
      | none =>
          rw [hd] at hr
          exact hserv hr
      | some p =>
          rw [hd] at hr
          exact hserv hr

/-! ### Runs -/

theorem run_inv {as : List Action} {s : Kmod} (hr : Run step Free Kmod.init as s) : Inv s :=
  hr.inv Inv (fun _ _ _ hi _ h => step_inv hi h) inv_init

/-- The queue of an unloaded module is empty, whatever happened before. -/
theorem unloaded_empty {as : List Action} {s : Kmod} (hr : Run step Free Kmod.init as s)
    (h : s.pc = .unloaded) : s.queue.list = [] :=
  (run_inv hr).empty_of_unloaded h

/-- Every state of a run is orderly exactly when every step is timely. -/
theorem orderly_run_iff {as : List Action} {s : Kmod} (hr : Run step Free Kmod.init as s) :
    (∀ bs cs t, as = bs ++ cs → Run step Free Kmod.init bs t → Orderly t) ↔
      Run step Timely Kmod.init as s := by
  have hinit : Orderly Kmod.init := ⟨fun h => absurd rfl h, fun h => by cases h⟩
  exact Run.forall_iff (I := fun s => Inv s ∧ Orderly s)
    (fun _ _ _ hs h => step_orderly hs.1 hs.2 h)
    (fun _ _ _ hs hc h => ⟨step_inv hs.1 h, (step_orderly hs.1 hs.2 h).mpr hc⟩)
    ⟨inv_init, hinit⟩ hinit hr

/-! ### A packet of this host -/

/-- A packet that the host sends. -/
def outgoing : Capture where
  hooknum := .localOut
  skb := ⟨1, fun a => if a = 16 then 0x45 else 0, 0, 16, 20, 16, 1, false, 0, none⟩
  dev := 2
  okfn := 0
  probeGranted := true
  probeId := 2
  copyGranted := true
  copyId := 3
  hdrGranted := true
  entryGranted := true

def eth0 : Config := ⟨0x0200000a, 0xff00000a, 2, none⟩

/-- The statements of `geosvr_linux_init` when everything is granted. -/
def load (dev : Option Config) : List Action := List.replicate 6 (.proceed true dev)

/-- A packet is sent after the module was loaded, and has been processed when it is unloaded. -/
theorem orderly_run_iff_sample :
    ∃ s,
      Run step Free Kmod.init (load (some eth0) ++ [.arrive outgoing, .finish 0 eth0, .rmmod]) s ∧
      ∀ bs cs t, load (some eth0) ++ [.arrive outgoing, .finish 0 eth0, .rmmod] = bs ++ cs →
        Run step Free Kmod.init bs t → Orderly t := by
  have hr : Run step Free Kmod.init
      (load (some eth0) ++ [.arrive outgoing, .finish 0 eth0, .rmmod]) _ := run_of_exec _ rfl
  refine ⟨_, hr, (orderly_run_iff hr).mpr ?_⟩
  have hload : Run step Timely Kmod.init (load (some eth0)) _ :=
    Run.cons trivial rfl (Run.cons trivial rfl (Run.cons trivial rfl
      (Run.cons trivial rfl (Run.cons trivial rfl (Run.single trivial rfl)))))
  exact hload.append (Run.cons rfl rfl (Run.cons trivial rfl (Run.single rfl rfl)))

/-- There is no `eth0`; the module is loaded all the same, and a packet is sent. -/
theorem no_device :
    ∃ s, Run step Free Kmod.init (load none ++ [.arrive outgoing]) s ∧
      s.pc = .loaded false ∧ s.running = [outgoing] ∧ s.ifip = .null ∧ ¬ Orderly s := by
  have hr : Run step Free Kmod.init (load none ++ [.arrive outgoing]) _ := run_of_exec _ rfl
  refine ⟨_, hr, rfl, rfl, rfl, fun h => ?_⟩
  obtain ⟨ifi, hifi⟩ := (h.ready (by simp)).1
  cases hifi

end GeoSvr.Kernel.Lifecycle
