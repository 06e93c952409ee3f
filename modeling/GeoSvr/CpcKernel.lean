import GeoSvr.Runs
import Mathlib.Data.List.Basic
import Mathlib.Data.UInt
import Mathlib.Tactic.SplitIfs

/-! # The CPC kernel module (`linux_kernel/cpc_mod.c`, `cpc_queue.c`, `cpc_rt.c`, `cpc_netlink.c`)

The predecessor of the GeoSVR module keeps a routing table.  A packet of the host for which there
is no route is queued, and the daemon is asked for one, unless a packet for the same destination
is waiting already.  The daemon's answer releases all packets for its destination.

The locks are held for one look-up, one insertion or one removal, so a call of the hook has four
steps (`Stage`), and the loop of `cpc_queue_set_verdict` is a handler whose iterations are steps.
`requests` holds the destinations of the requests that were sent and whose answer has not been
processed: a message answers one request for its destination, if there is one, and has been
processed when its loop ends.

The packet is queued after the request was sent, and after the queue was searched.  `Attended` is
the condition that no answer is processed to its end in between. -/

namespace GeoSvr.Cpc

open Runs

/-- A packet of the host: its identity, and the fields of its IPv4 header that are kept. -/
structure Packet where
  id : ℕ
  tos : UInt8
  saddr : UInt32
  daddr : UInt32
deriving DecidableEq

/-! ### The routing table -/

/-- `struct rt_entry`. -/
structure RtEntry where
  expires : ℕ
  daddr : UInt32
  nhop : UInt32
  ifindex : ℤ
deriving DecidableEq

/-- `rt_head` and `rt_len`. -/
structure RtTable where
  list : List RtEntry
  len : ℕ

def RT_MAX_LEN : ℕ := 1024

/-- `__cpc_rt_find`. -/
def rtFind (daddr : UInt32) (t : RtTable) : Option RtEntry :=
  t.list.find? (fun e => e.daddr == daddr)

/-- `cpc_rt_get`. -/
def cpcRtGet (daddr : UInt32) (t : RtTable) : Bool := (rtFind daddr t).isSome

/-- The list stays in the order of `expires`. -/
def insertByExpires (rt : RtEntry) : List RtEntry → List RtEntry
  | [] => [rt]
  | e :: es => if rt.expires < e.expires then rt :: e :: es else e :: insertByExpires rt es

/-- `cpc_rt_add`.  The counter grows even when the table is full and nothing is added. -/
def cpcRtAdd (granted : Bool) (rt : RtEntry) (t : RtTable) : RtTable :=
  if cpcRtGet rt.daddr t then t
  else if !granted then t
  else if RT_MAX_LEN < t.len then { t with len := t.len + 1 }
  else ⟨insertByExpires rt t.list, t.len + 1⟩

/-- `cpc_rt_timeout`: the expired entries at the front leave the table. -/
def cpcRtTimeout (now : ℕ) (t : RtTable) : RtTable :=
  let rest := t.list.dropWhile (fun e => e.expires ≤ now)
  ⟨rest, t.len - (t.list.length - rest.length)⟩

/-! ### The queue -/

/-- `queue_list`, from the tail, where searches begin, and `queue_total`. -/
structure Queue where
  list : List Packet
  total : ℕ

/-- `CPC_QUEUE_MAX_DEFAULT`. -/
def queueMaxlen : ℕ := 1024

/-- `cpc_queue_enqueue_packet`. -/
def cpcQueueEnqueuePacket (granted : Bool) (p : Packet) (q : Queue) : Queue :=
  if granted = true ∧ q.total < queueMaxlen then ⟨q.list ++ [p], q.total + 1⟩ else q

/-- `dest_cmp`. -/
def destCmp (daddr : UInt32) (p : Packet) : Bool := p.daddr == daddr

/-- `cpc_queue_find`. -/
def cpcQueueFind (daddr : UInt32) (q : Queue) : Bool := (q.list.find? (destCmp daddr)).isSome

/-- `cpc_queue_find_dequeue_entry`. -/
def cpcQueueFindDequeueEntry (daddr : UInt32) (q : Queue) : Option (Packet × Queue) :=
  match q.list.find? (destCmp daddr) with
  | none => none
  | some p => some (p, ⟨q.list.eraseP (destCmp daddr), q.total - 1⟩)

/-! ### The messages -/

/-- `nlmsg_type` of the daemon's messages. -/
inductive MsgType
  | routeAdd
  | norouteFound
  | sendQueue
  | dropQueue
deriving DecidableEq

/-- `struct cpc_rt_msg`, as far as a message of the daemon is read. -/
structure RtMsg where
  dst : UInt32
  nhop : UInt32
  ifindex : ℤ
  time : ℕ

/-- `sizeof(struct cpc_rt_msg)`. -/
def rtMsgSize : ℕ := 32

/-- `CPC_QUEUE_SEND` and `CPC_QUEUE_DROP`. -/
inductive Verdict
  | send
  | drop
deriving DecidableEq

def MsgType.verdict : MsgType → Verdict
  | .routeAdd | .sendQueue => .send
  | .norouteFound | .dropQueue => .drop

/-! ### The module -/

/-- The next step of a call of the hook at `NF_INET_LOCAL_OUT`. -/
inductive Stage
  | lookup
  | find
  | send
  | enqueue
deriving DecidableEq

/-- A call of the hook under way. -/
structure HookRun where
  pkt : Packet
  stage : Stage
deriving DecidableEq

/-- A loop of `cpc_queue_set_verdict` under way. -/
structure Handler where
  verdict : Verdict
  daddr : UInt32
  pkts : ℕ

/-- What becomes of packets. -/
inductive Effect
  | okfn (p : Packet)
  | icmpSend (p : Packet)
  | kfree (p : Packet)
  | accept (p : Packet)

/-- The module: its table and queue, the calls of the hook and the loop under way, the requests
waiting for an answer, and what became of the packets. -/
structure CpcMod where
  table : RtTable
  queue : Queue
  runs : List HookRun
  requests : List UInt32
  handler : Option Handler
  effects : List Effect

inductive Action
  /-- a packet reaches the hook; `known`: `if_info_from_ifindex` knows the interface -/
  | hook (p : Packet) (known : Bool)
  /-- the next step of the `i`th call; `granted`: its allocation -/
  | advance (i : ℕ) (granted : Bool)
  | message (type : MsgType) (len : ℕ) (m : RtMsg) (granted : Bool) (now : ℕ)
  /-- an iteration of the loop -/
  | iterate
  | timeout (now : ℕ)

def CpcMod.init : CpcMod := ⟨⟨[], 0⟩, ⟨[], 0⟩, [], [], none, []⟩

/-- The next step of the call `r`, the `i`th under way. -/
def CpcMod.advance (s : CpcMod) (i : ℕ) (granted : Bool) (r : HookRun) : CpcMod :=
  match r.stage with
  | .lookup =>
      if cpcRtGet r.pkt.daddr s.table then
        { s with runs := s.runs.eraseIdx i, effects := s.effects ++ [.accept r.pkt] }
      else { s with runs := s.runs.set i ⟨r.pkt, .find⟩ }
  | .find =>
      if cpcQueueFind r.pkt.daddr s.queue then { s with runs := s.runs.set i ⟨r.pkt, .enqueue⟩ }
      else { s with runs := s.runs.set i ⟨r.pkt, .send⟩ }
  | .send =>
      { s with
        runs := s.runs.set i ⟨r.pkt, .enqueue⟩
        requests := if granted then r.pkt.daddr :: s.requests else s.requests }
  | .enqueue =>
      { s with
        runs := s.runs.eraseIdx i
        queue := cpcQueueEnqueuePacket granted r.pkt s.queue }

/-- `cpc_netlink_receive_peer`, up to the loop.  `cpc_rt_get` is never negative, so that
`cpc_rt_update` is never called. -/
def CpcMod.received (s : CpcMod) (type : MsgType) (m : RtMsg) (granted : Bool) (now : ℕ) : CpcMod :=
  { s with
    table := if type = .routeAdd then
        cpcRtAdd granted ⟨now + m.time, m.dst, m.nhop, m.ifindex⟩ s.table
      else s.table
    handler := some ⟨type.verdict, m.dst, 0⟩ }

/-- What the loop does to a packet it has taken out, and the packets counted after it. -/
def release (table : RtTable) (h : Handler) (p : Packet) : List Effect × ℕ :=
  match h.verdict with
  | .drop => (if h.pkts = 0 then [.icmpSend p, .kfree p] else [.kfree p], h.pkts + 1)
  | .send => if cpcRtGet h.daddr table then ([.okfn p], h.pkts + 1) else ([.kfree p], h.pkts)

/-- An iteration of the loop `h`; when it finds nothing the message has been processed. -/
def CpcMod.iterate (s : CpcMod) (h : Handler) : CpcMod :=
  match cpcQueueFindDequeueEntry h.daddr s.queue with
  | none => { s with handler := none, requests := s.requests.erase h.daddr }
  | some (p, q) =>
      { s with
        queue := q
        handler := some { h with pkts := (release s.table h p).2 }
        effects := s.effects ++ (release s.table h p).1 }

def step (s : CpcMod) : Action → Option CpcMod
  | .hook p known =>
      if known then some { s with runs := ⟨p, .lookup⟩ :: s.runs }
      else some { s with effects := s.effects ++ [.accept p] }
  | .advance i granted =>
      match s.runs[i]? with
      | none => none
      | some r => some (s.advance i granted r)
  | .message type len m granted now =>
      -- messages are processed one at a time; one that is too short is refused
      if s.handler.isSome then none
      else if len < rtMsgSize then some s
      else some (s.received type m granted now)
  | .iterate =>
      match s.handler with
      | none => none
      | some h => some (s.iterate h)
  | .timeout now => some { s with table := cpcRtTimeout now s.table }

/-! ### The property and the condition -/

/-- When no call of the hook is under way, every packet in the queue waits for an answer. -/
def NoneForgotten (s : CpcMod) : Prop := s.runs = [] → ∀ p ∈ s.queue.list, p.daddr ∈ s.requests

/-- The condition: a request is sent, if there is none for its destination; and an answer is
processed to its end while a call stands before its enqueuing only if another request for the
destination remains. -/
def Attended (s : CpcMod) : Action → Prop
  | .advance i granted => ∀ r, s.runs[i]? = some r → r.stage = .send →
      granted = true ∨ r.pkt.daddr ∈ s.requests
  | .iterate => ∀ h, s.handler = some h → cpcQueueFind h.daddr s.queue = false →
      ∀ r ∈ s.runs, r.stage = .enqueue → r.pkt.daddr = h.daddr → 1 < s.requests.count h.daddr
  | _ => True

/-- Every packet in the queue, and every one about to be queued, waits for an answer. -/
structure Awaited (s : CpcMod) : Prop where
  queue : ∀ p ∈ s.queue.list, p.daddr ∈ s.requests
  runs : ∀ r ∈ s.runs, r.stage = .enqueue → r.pkt.daddr ∈ s.requests

theorem awaited_init : Awaited CpcMod.init := ⟨by simp [CpcMod.init], by simp [CpcMod.init]⟩

theorem Awaited.noneForgotten {s : CpcMod} (h : Awaited s) : NoneForgotten s := fun _ => h.queue

/-! ### Steps -/

theorem mem_enqueuePacket {granted : Bool} {p p' : Packet} {q : Queue}
    (h : p' ∈ (cpcQueueEnqueuePacket granted p q).list) : p' ∈ q.list ∨ p' = p := by
  unfold cpcQueueEnqueuePacket at h
  split_ifs at h
  · simpa using h
  · exact Or.inl h

/-- The queue holds a packet for `daddr` exactly when it is found. -/
theorem find_true {daddr : UInt32} {q : Queue} :
    cpcQueueFind daddr q = true ↔ ∃ p ∈ q.list, p.daddr = daddr := by
  unfold cpcQueueFind
  simp [List.find?_isSome, destCmp]

theorem find_false {daddr : UInt32} {q : Queue} :
    cpcQueueFind daddr q = false ↔ ∀ p ∈ q.list, p.daddr ≠ daddr := by
  rw [← Bool.not_eq_true, find_true]
  simp

theorem findDequeueEntry_cases (daddr : UInt32) (q : Queue) :
    (cpcQueueFind daddr q = false ∧ cpcQueueFindDequeueEntry daddr q = none) ∨
    (cpcQueueFind daddr q = true ∧ ∃ p q', cpcQueueFindDequeueEntry daddr q = some (p, q') ∧
      ∀ p' ∈ q'.list, p' ∈ q.list) := by
  unfold cpcQueueFind cpcQueueFindDequeueEntry
  cases h : q.list.find? (destCmp daddr) with
  | none => exact Or.inl ⟨rfl, rfl⟩
  | some p => exact Or.inr ⟨rfl, p, _, rfl, fun p' hp => List.mem_of_mem_eraseP hp⟩

/-- A call that goes on, to queue its packet only if somebody waits for the packet. -/
theorem Awaited.set {s : CpcMod} (ha : Awaited s) (i : ℕ) {r : HookRun} {requests : List UInt32}
    (hsub : ∀ d ∈ s.requests, d ∈ requests) (hr : r.stage = .enqueue → r.pkt.daddr ∈ requests) :
    Awaited { s with runs := s.runs.set i r, requests := requests } := by
  refine ⟨fun p hp => hsub _ (ha.queue p hp), fun r' h he => ?_⟩
  obtain h | rfl := List.mem_or_eq_of_mem_set h
  · exact hsub _ (ha.runs r' h he)
  · exact hr he

/-- A call that is over. -/
theorem Awaited.eraseIdx {s : CpcMod} (ha : Awaited s) (i : ℕ) :
    ∀ r ∈ s.runs.eraseIdx i, r.stage = .enqueue → r.pkt.daddr ∈ s.requests :=
  fun r h => ha.runs r (List.mem_of_mem_eraseIdx h)

/-- Sending a request keeps the invariant exactly when somebody waits for the packet then. -/
theorem send_awaited {s : CpcMod} (ha : Awaited s) {i : ℕ} (hi : i < s.runs.length) (p : Packet)
    (granted : Bool) :
    Awaited { s with
        runs := s.runs.set i ⟨p, .enqueue⟩
        requests := if granted then p.daddr :: s.requests else s.requests } ↔
      granted = true ∨ p.daddr ∈ s.requests := by
  constructor
  · intro h
    have hd := h.runs ⟨p, .enqueue⟩ (List.mem_set hi _) rfl
    cases granted with
    | true => exact Or.inl rfl
    | false => exact Or.inr hd
  · intro h
    have hsub : ∀ d ∈ s.requests, d ∈ if granted then p.daddr :: s.requests else s.requests := by
      intro d hd
      split_ifs
      · exact List.mem_cons_of_mem _ hd
      · exact hd
    refine ha.set i hsub (fun _ => ?_)
    obtain rfl | h := h
    · exact List.mem_cons_self
    · exact hsub _ h

/-- The next step of a call keeps the invariant exactly when it meets the condition. -/
theorem advance_awaited {s : CpcMod} (ha : Awaited s) {i : ℕ} {r : HookRun}
    (hr : s.runs[i]? = some r) (granted : Bool) :
    Awaited (s.advance i granted r) ↔
      (r.stage = .send → granted = true ∨ r.pkt.daddr ∈ s.requests) := by
  unfold CpcMod.advance
  cases hst : r.stage with
  | lookup =>
      refine iff_of_true ?_ (by simp)
      dsimp only
      split_ifs
      · exact ⟨ha.queue, ha.eraseIdx i⟩
      · exact ha.set i (fun _ => id) (fun he => by cases he)
  | find =>
      refine iff_of_true ?_ (by simp)
      dsimp only
      split_ifs with hf
      · refine ha.set i (fun _ => id) (fun _ => ?_)
        obtain ⟨p, hp, hd⟩ := find_true.mp hf
        exact hd ▸ ha.queue p hp
      · exact ha.set i (fun _ => id) (fun he => by cases he)
  | send =>
      simp only [true_implies]
      exact send_awaited ha (List.getElem?_eq_some_iff.mp hr).1 r.pkt granted
  | enqueue =>
      refine iff_of_true ?_ (by simp)
      refine ⟨fun p hp => ?_, ha.eraseIdx i⟩
      obtain hp | rfl := mem_enqueuePacket hp
      · exact ha.queue p hp
      · exact ha.runs r (List.mem_of_getElem? hr) hst

/-- An iteration keeps the invariant exactly when it meets the condition. -/
theorem iterate_awaited {s : CpcMod} (ha : Awaited s) (h : Handler) :
    Awaited (s.iterate h) ↔
      (cpcQueueFind h.daddr s.queue = false → ∀ r ∈ s.runs, r.stage = .enqueue →
        r.pkt.daddr = h.daddr → 1 < s.requests.count h.daddr) := by
  unfold CpcMod.iterate
  obtain ⟨hf, hd⟩ | ⟨hf, p, q, hd, hsub⟩ := findDequeueEntry_cases h.daddr s.queue
  · have hkeep : ∀ d, d ≠ h.daddr → d ∈ s.requests → d ∈ s.requests.erase h.daddr :=
      fun d hne hm => (List.mem_erase_of_ne hne).mpr hm
    have herase : h.daddr ∈ s.requests.erase h.daddr ↔ 1 < s.requests.count h.daddr := by
      rw [← List.count_pos_iff, List.count_erase_self]
      omega
    simp only [hd, hf, true_implies]
    constructor
    · intro ha' r hr he hrd
      exact herase.mp (hrd ▸ ha'.runs r hr he)
    · intro hc
      refine ⟨fun p hp => ?_, fun r hr he => ?_⟩
      · exact hkeep _ (find_false.mp hf p hp) (ha.queue p hp)
      · by_cases hrd : r.pkt.daddr = h.daddr
        · rw [hrd]
          exact herase.mpr (hc r hr he hrd)
        · exact hkeep _ hrd (ha.runs r hr he)
  · simp only [hd, hf]
    exact iff_of_true ⟨fun p' hp => ha.queue p' (hsub p' hp), ha.runs⟩ (fun h => by cases h)

/-- A step keeps the invariant exactly when it meets the condition. -/
theorem step_awaited {s s' : CpcMod} {a : Action} (ha : Awaited s) (h : step s a = some s') :
    Awaited s' ↔ Attended s a := by
  cases a with
  | hook p known =>
      refine iff_of_true ?_ trivial
      simp only [step] at h
      split_ifs at h <;> cases h
      · refine ⟨ha.queue, fun r hr he => ?_⟩
        obtain rfl | hr := List.mem_cons.mp hr
        · cases he
        · exact ha.runs r hr he
      · exact ⟨ha.queue, ha.runs⟩
  | advance i granted =>
      simp only [step] at h
      cases hr : s.runs[i]? with
      | none => rw [hr] at h; cases h
      | some r =>
          rw [hr] at h
          cases h
          rw [advance_awaited ha hr]
          unfold Attended
          simp only [hr, Option.some.injEq, forall_eq']
  | message type len m granted now =>
      refine iff_of_true ?_ trivial
      simp only [step] at h
      split_ifs at h <;> cases h
      · exact ha
      · exact ⟨ha.queue, ha.runs⟩
  | iterate =>
      simp only [step] at h
      cases hh : s.handler with
      | none => rw [hh] at h; cases h
      | some k =>
          rw [hh] at h
          cases h
          rw [iterate_awaited ha]
          unfold Attended
          simp only [hh, Option.some.injEq, forall_eq']
  | timeout now =>
      cases h
      exact iff_of_true ⟨ha.queue, ha.runs⟩ trivial

/-! ### Runs -/

/-- In every state of a run all packets are awaited exactly when every step meets the
condition. -/
theorem awaited_run_iff {as : List Action} {s : CpcMod} (hr : Run step Free CpcMod.init as s) :
    (∀ bs cs t, as = bs ++ cs → Run step Free CpcMod.init bs t → Awaited t) ↔
      Run step Attended CpcMod.init as s :=
  Run.forall_iff (I := Awaited) (fun _ _ _ ha h => step_awaited ha h)
    (fun _ _ _ ha hc h => (step_awaited ha h).mpr hc) awaited_init awaited_init hr

/-- **No forgotten request.** In a run whose steps meet the condition, whenever no call of the
hook is under way, every packet in the queue waits for the answer to a request. -/
theorem attended_noneForgotten {as : List Action} {s : CpcMod}
    (hr : Run step Attended CpcMod.init as s) :
    NoneForgotten s :=
  (hr.inv Awaited (fun _ _ _ ha hc h => (step_awaited ha h).mpr hc) awaited_init).noneForgotten

/-! ### One packet -/

/-- A packet for 10.0.0.2. -/
def packetTo : Packet := ⟨1, 0, 0x0100000a, 0x0200000a⟩

def noroute : Action := .message .norouteFound rtMsgSize ⟨0x0200000a, 0, 0, 0⟩ true 0

/-- The packet is queued before the answer comes. -/
theorem attended_noneForgotten_sample :
    ∃ s, Run step Attended CpcMod.init [.hook packetTo true, .advance 0 true, .advance 0 true,
        .advance 0 true, .advance 0 true] s ∧ s.queue.list = [packetTo] ∧ NoneForgotten s := by
  have hr : Run step Attended CpcMod.init [.hook packetTo true, .advance 0 true, .advance 0 true,
      .advance 0 true, .advance 0 true] _ :=
    Run.cons trivial rfl (Run.cons (fun _ _ _ => Or.inl rfl) rfl
      (Run.cons (fun _ _ _ => Or.inl rfl) rfl (Run.cons (fun _ _ _ => Or.inl rfl) rfl
        (Run.single (fun _ _ _ => Or.inl rfl) rfl))))
  exact ⟨_, hr, rfl, attended_noneForgotten hr⟩

/-- The answer comes between the request and the enqueuing: the packet stays, and the next one
for its destination asks for nothing. -/
theorem packet_forgotten :
    ∃ s, Run step Free CpcMod.init [.hook packetTo true, .advance 0 true, .advance 0 true,
        .advance 0 true, noroute, .iterate, .advance 0 true] s ∧
      s.runs = [] ∧ s.queue.list = [packetTo] ∧ s.requests = [] ∧ ¬ NoneForgotten s := by
  have hr : Run step Free CpcMod.init [.hook packetTo true, .advance 0 true, .advance 0 true,
      .advance 0 true, noroute, .iterate, .advance 0 true] _ := run_of_exec _ rfl
  refine ⟨_, hr, rfl, rfl, rfl, fun h => ?_⟩
  have := h rfl packetTo List.mem_cons_self
  cases this

end GeoSvr.Cpc
