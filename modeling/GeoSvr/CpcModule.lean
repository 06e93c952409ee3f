import GeoSvr.CpcRtRuns
import GeoSvr.Takeover

/-! # All of the CPC kernel module (`cpc_mod.c`, `cpc_queue.c`, `cpc_netlink.c`, `cpc_if_list.h`)

The module of `CpcKernel.lean` with everything that can happen to a packet: all messages, also
`CPC_SEND_WITH_DATA`, which hands on copies; the exit of the daemon, which flushes the table and
then the queue; the timer of the table; and the removal of the module.

Each lock is held for one operation, so that a step is one of these: a look-up of a call of the
hook, its enqueuing, taking an entry out of the queue, what the loop does with that entry, the
flush of the table, the flush of the queue.  In between everything else may happen.

What becomes of packets is recorded in `effects`; a packet is leaked when the module returned
`NF_STOLEN` for it and keeps no reference to it.  `entries` and `rts` count the `struct queue_entry`
and `struct rt_entry` that were allocated and not freed.

`KERNEL26` is not defined by any Makefile, so that no capability of the sender is checked. -/

namespace GeoSvr.CpcMod

open Runs CpcRt
open Kernel.Takeover (NLM_F_REQUEST NLM_F_MULTI NLM_F_ACK MSG_TRUNC EBUSY ECOMM asInt
  NETLINK_URELEASE NETLINK_CPC NetlinkNotify)
open Cpc (Stage Verdict)

/-! ### Packets and the queue -/

/-- A packet: its identity, whether `network_header` is set, the fields of the IPv4 header that are
read, and the ports at `transport_header`. -/
structure SkBuff where
  id : ℕ
  networkHeader : Bool
  tos : UInt8
  saddr : UInt32
  daddr : UInt32
  dest : UInt16
deriving DecidableEq

/-- `struct rt_info`. -/
structure RtInfo where
  tos : UInt8
  daddr : UInt32
  saddr : UInt32
deriving DecidableEq

/-- `struct queue_entry`. -/
structure QueueEntry where
  skb : SkBuff
  rtinfo : RtInfo
deriving DecidableEq

/-- `queue_list`, from the tail, where searches begin, and `queue_total`. -/
structure Queue where
  list : List QueueEntry
  total : ℕ

/-- `CPC_QUEUE_MAX_DEFAULT`. -/
def queueMaxlen : ℕ := 1024

/-- What `cpc_queue_enqueue_packet` fills in. -/
def queueEntry (skb : SkBuff) : QueueEntry := ⟨skb, ⟨skb.tos, skb.daddr, skb.saddr⟩⟩

/-- `__cpc_queue_enqueue_entry`. -/
def enqueueEntry (e : QueueEntry) (q : Queue) : ℤ × Queue :=
  if queueMaxlen ≤ q.total then (-ENOSPC, q) else (0, ⟨q.list ++ [e], q.total + 1⟩)

/-- `cpc_queue_enqueue_packet`. -/
def cpcQueueEnqueuePacket (granted : Bool) (skb : SkBuff) (q : Queue) : ℤ × Queue :=
  if granted then enqueueEntry (queueEntry skb) q else (-ENOMEM, q)

/-- `__cpc_queue_find_entry`. -/
def findEntry (cmp : QueueEntry → Bool) (q : Queue) : Option QueueEntry := q.list.find? cmp

/-- `__cpc_queue_find_dequeue_entry`. -/
def findDequeueEntry (cmp : QueueEntry → Bool) (q : Queue) : Option (QueueEntry × Queue) :=
  match findEntry cmp q with
  | none => none
  | some e => some (e, ⟨q.list.eraseP cmp, q.total - 1⟩)

/-- `dest_cmp`. -/
def destCmp (daddr : UInt32) (e : QueueEntry) : Bool := e.rtinfo.daddr == daddr

/-- `cpc_queue_find`. -/
def cpcQueueFind (daddr : UInt32) (q : Queue) : Bool := (findEntry (destCmp daddr) q).isSome

/-- The loop of `__cpc_queue_flush`, with no more than `n` iterations. -/
def flushLoop : ℕ → Queue → List QueueEntry × Queue
  | 0, q => ([], q)
  | n + 1, q =>
      match findDequeueEntry (fun _ => true) q with
      | none => ([], q)
      | some (e, q) => (e :: (flushLoop n q).1, (flushLoop n q).2)

/-- `cpc_queue_flush`: the entries that are freed, and the queue. -/
def cpcQueueFlush (q : Queue) : List QueueEntry × Queue := flushLoop (q.list.length + 1) q

/-! ### Messages -/

/-- `struct cpc_stateless_msg`; `p` is an address in the daemon. -/
structure StatelessMsg where
  p : ℕ
  n : ℤ
  dst : UInt32
deriving DecidableEq

/-- A message at the netlink socket: the length of its `sk_buff`, the fields of `struct nlmsghdr`,
and its payload as either of the two structures. -/
structure NlSkb where
  len : ℕ
  nlmsgLen : UInt32
  nlmsgType : UInt16
  nlmsgFlags : UInt16
  nlmsgPid : UInt32
  rt : RtMsg
  stateless : StatelessMsg

def CPC_ROUTE_ADD : UInt8 := 101
def CPC_ROUTE_DEL : UInt8 := 102
def CPC_NOROUTE_FOUND : UInt8 := 105
def CPC_SEND_QUEUE : UInt8 := 108
def CPC_DROP_QUEUE : UInt8 := 109
def CPC_SEND_WITH_DATA : UInt8 := 110

/-- The message, by its type, which is passed on as an `unsigned char`. -/
def NlSkb.message (skb : NlSkb) : Message :=
  let type := skb.nlmsgType.toUInt8
  if type = CPC_ROUTE_ADD then .routeAdd skb.rt
  else if type = CPC_ROUTE_DEL then .routeDel skb.rt
  else if type = CPC_NOROUTE_FOUND then .norouteFound skb.rt
  else if type = CPC_SEND_QUEUE then .sendQueue skb.rt
  else if type = CPC_DROP_QUEUE then .dropQueue skb.rt
  else if type = CPC_SEND_WITH_DATA then .sendWithData skb.stateless.dst
  else .unknown

/-- `sizeof(struct nlmsghdr)`. -/
def nlmsghdrSize : ℕ := 16

/-- The route entries that are allocated, after a message that was received with `rts` of them.
`cpc_rt_add` frees the new entry when the table is full, and `cpc_rt_del` the one it takes out. -/
def rtsAfter (granted : Bool) (len : ℕ) (t : Table) (rts : ℕ) : Message → ℕ
  | .routeAdd m =>
      if len < rtMsgSize ∨ (cpcRtGet m.dst t).1 ≠ 0 ∨ granted = false ∨ RT_MAX_LEN < t.len then rts
      else rts + 1
  | .routeDel m => if len < rtMsgSize ∨ (cpcRtDel m.dst t).1 = 0 then rts else rts - 1
  | _ => rts

/-- What `cpc_netlink_rcv_skb` leaves: `peer_pid`, the error of the acknowledgement, if it sends
one, the table with the number of route entries, and what is called on the queue. -/
structure Received where
  peerPid : ℤ
  ack : Option ℤ
  table : Table
  rts : ℕ
  queue : Option QueueCall

/-- `cpc_netlink_rcv_skb`, up to the loop on the queue. -/
def cpcNetlinkRcvSkb (HZ : UInt64) (granted : Bool) (jiffies : UInt64) (skb : NlSkb) (peerPid : ℤ)
    (t : Table) (rts : ℕ) : Received :=
  let nlmsglen := asInt skb.nlmsgLen
  let pid := asInt skb.nlmsgPid
  let flags := skb.nlmsgFlags
  if skb.len < nlmsghdrSize then ⟨peerPid, none, t, rts, none⟩
  else if (0 ≤ nlmsglen ∧ nlmsglen < nlmsghdrSize) ∨ (skb.len : ℤ) < nlmsglen then
    ⟨peerPid, none, t, rts, none⟩
  else if pid ≤ 0 ∨ flags &&& NLM_F_REQUEST = 0 ∨ flags &&& NLM_F_MULTI ≠ 0 then
    ⟨peerPid, some (-EINVAL), t, rts, none⟩
  else if flags &&& MSG_TRUNC ≠ 0 then ⟨peerPid, some (-ECOMM), t, rts, none⟩
  else if peerPid ≠ 0 ∧ peerPid ≠ pid then ⟨peerPid, some (-EBUSY), t, rts, none⟩
  else
    let len := skb.len - nlmsghdrSize
    let r := cpcNetlinkReceivePeer HZ granted jiffies len t skb.message
    ⟨pid,
      if r.ret < 0 then some r.ret
      else if flags &&& NLM_F_ACK ≠ 0 then some 0
      else none,
      r.table, rtsAfter granted len t rts skb.message, r.queue⟩

/-- `struct cpchdr`. -/
structure Cpchdr where
  appPort : UInt16
  rtLen : ℤ
  rtData : ℕ
deriving DecidableEq

/-! ### The module -/

/-- Why a packet is leaked: it was not queued, it was copied, or it could not be copied. -/
inductive Leak
  | refused
  | copied
  | notCopied
deriving DecidableEq

/-- What the module does. -/
inductive Effect
  | accept (skb : SkBuff)
  | request (daddr : UInt32)
  | okfn (skb : SkBuff)
  /-- a copy, with `h` in front of it -/
  | okfnCopy (skb : SkBuff) (h : Cpchdr)
  | icmpSend (skb : SkBuff)
  | kfree (skb : SkBuff)
  | leak (why : Leak) (skb : SkBuff)
  /-- `cpc_rt_timeout` takes an entry out of the table -/
  | expire (rt : RtEntry)
deriving DecidableEq

/-- `hooknum`. -/
inductive HookNum
  | preRouting
  | postRouting
  | localOut
deriving DecidableEq

/-- `struct if_info`. -/
structure IfInfo where
  ifindex : ℤ
  ifAddr : UInt32
  bcAddr : UInt32

/-- `if_info_from_ifindex`. -/
def ifInfoFromIfindex (ifs : List IfInfo) (ifindex : ℤ) : Option IfInfo :=
  ifs.find? (fun ifi => ifi.ifindex == ifindex)

/-- A call of the hook at `NF_INET_LOCAL_OUT` under way. -/
structure HookRun where
  skb : SkBuff
  stage : Stage
deriving DecidableEq

/-- A loop on the queue under way: what was called, with the pointer and the length of the data for
`cpc_queue_send_with_data`, `pkts`, and the entry that it has taken out. -/
structure Handler where
  call : QueueCall
  rtData : ℕ
  rtLen : ℤ
  pkts : ℕ
  hand : Option QueueEntry

/-- How far `cpc_linux_exit` is. -/
inductive Phase
  | loaded
  | purged
  | unhooked
  | queueDone
  | rtDone
  | unloaded
deriving DecidableEq

structure Module where
  phase : Phase
  ifs : List IfInfo
  table : Table
  queue : Queue
  peerPid : ℤ
  runs : List HookRun
  handler : Option Handler
  /-- exits of the daemon after which the queue has not been flushed yet -/
  flushing : ℕ
  /-- the packets that came to the hook -/
  seen : List ℕ
  /-- the entries that came into the queue, in this order -/
  queued : List QueueEntry
  effects : List Effect
  entries : ℕ
  rts : ℕ

/-- After `cpc_linux_init`. -/
def Module.init (ifs : List IfInfo) : Module :=
  ⟨.loaded, ifs, Table.init, ⟨[], 0⟩, 0, [], none, 0, [], [], [], 0, 0⟩

inductive Action
  /-- a packet comes to a hook, on the interface `ifindex` -/
  | hook (hooknum : HookNum) (skb : SkBuff) (ifindex : ℤ)
  /-- the next step of the `i`th call; `granted`: its allocation -/
  | advance (i : ℕ) (granted : Bool)
  | message (skb : NlSkb) (granted : Bool) (jiffies : UInt64)
  /-- the next step of the loop -/
  | iterate (granted : Bool)
  /-- `cpc_netlink_rcv_nl_event` -/
  | event (event : ℕ) (n : NetlinkNotify)
  /-- the flush of the queue after the exit of the daemon -/
  | flush
  | timeout (jiffies : UInt64)
  /-- the next statement of `cpc_linux_exit` -/
  | unload

section machine

variable (HZ : UInt64) (routingPort : UInt16)

def Module.accept (s : Module) (skb : SkBuff) : Module :=
  { s with effects := s.effects ++ [.accept skb], seen := skb.id :: s.seen }

/-- The start of `cpc_hook`.  At `NF_INET_PRE_ROUTING` a packet of the host, a routing packet and
every other packet are accepted. -/
def Module.hook (s : Module) (hooknum : HookNum) (skb : SkBuff) (ifindex : ℤ) : Module :=
  if skb.networkHeader = false then s.accept skb
  else
    match ifInfoFromIfindex s.ifs ifindex with
    | none => s.accept skb
    | some _ =>
        match hooknum with
        | .preRouting | .postRouting => s.accept skb
        | .localOut => { s with runs := ⟨skb, .lookup⟩ :: s.runs, seen := skb.id :: s.seen }

/-- `cpc_queue_enqueue_packet` for the `i`th call, which then returns `NF_STOLEN`. -/
def Module.enqueue (s : Module) (i : ℕ) (granted : Bool) (skb : SkBuff) : Module :=
  let (status, queue) := cpcQueueEnqueuePacket granted skb s.queue
  if status < 0 then
    { s with runs := s.runs.eraseIdx i, effects := s.effects ++ [.leak .refused skb] }
  else
    { s with
      runs := s.runs.eraseIdx i
      queue := queue
      queued := s.queued ++ [queueEntry skb]
      entries := s.entries + 1 }

/-- The next step of the call `r`, the `i`th under way. -/
def Module.advance (s : Module) (i : ℕ) (granted : Bool) (r : HookRun) : Module :=
  match r.stage with
  | .lookup =>
      if (cpcRtGet r.skb.daddr s.table).1 = 0 then { s with runs := s.runs.set i ⟨r.skb, .find⟩ }
      else { s with runs := s.runs.eraseIdx i, effects := s.effects ++ [.accept r.skb] }
  | .find =>
      if cpcQueueFind r.skb.daddr s.queue then { s with runs := s.runs.set i ⟨r.skb, .enqueue⟩ }
      else { s with runs := s.runs.set i ⟨r.skb, .send⟩ }
  | .send =>
      { s with
        runs := s.runs.set i ⟨r.skb, .enqueue⟩
        effects := if granted then s.effects ++ [.request r.skb.daddr] else s.effects }
  | .enqueue => s.enqueue i granted r.skb

/-- The message is handled up to its loop. -/
def Module.received (s : Module) (skb : NlSkb) (granted : Bool) (jiffies : UInt64) : Module :=
  let r := cpcNetlinkRcvSkb HZ granted jiffies skb s.peerPid s.table s.rts
  { s with
    peerPid := r.peerPid
    table := r.table
    rts := r.rts
    handler := r.queue.map (fun call => ⟨call, skb.stateless.p, skb.stateless.n, 0, none⟩) }

/-- The destination whose packets are taken out. -/
def Handler.daddr (h : Handler) : UInt32 :=
  match h.call with
  | .setVerdict _ daddr => daddr
  | .sendWithData daddr => daddr

/-- The packet as `cpc_queue_send_with_data` changes it. -/
def redirected (daddr : UInt32) (skb : SkBuff) : SkBuff :=
  { skb with daddr := daddr, dest := routingPort }

/-- What the loop `h` does with the entry it has taken out. -/
def Module.release (s : Module) (granted : Bool) (h : Handler) (e : QueueEntry) : Module :=
  match h.call with
  | .setVerdict .drop _ =>
      { s with
        effects := s.effects ++ (if h.pkts = 0 then [.icmpSend e.skb] else []) ++ [.kfree e.skb]
        handler := some { h with hand := none, pkts := h.pkts + 1 }
        entries := s.entries - 1 }
  | .setVerdict .send daddr =>
      if (cpcRtGet daddr s.table).1 = 0 then
        { s with
          effects := s.effects ++ [.kfree e.skb]
          handler := some { h with hand := none }
          entries := s.entries - 1 }
      else
        { s with
          effects := s.effects ++ [.okfn e.skb]
          handler := some { h with hand := none, pkts := h.pkts + 1 }
          entries := s.entries - 1 }
  | .sendWithData daddr =>
      let skb := redirected routingPort daddr e.skb
      if granted = false then
        -- the loop is left: the packet, and the entry, stay behind
        { s with effects := s.effects ++ [.leak .notCopied skb], handler := none }
      else
        { s with
          effects := s.effects ++
            [.okfnCopy skb ⟨e.skb.dest, h.rtLen, h.rtData⟩, .leak .copied skb]
          handler := some { h with hand := none }
          entries := s.entries - 1 }

/-- The next step of the loop `h`: it takes an entry out, or does something with the one it has. -/
def Module.iterate (s : Module) (granted : Bool) (h : Handler) : Module :=
  match h.hand with
  | some e => s.release routingPort granted h e
  | none =>
      match findDequeueEntry (destCmp h.daddr) s.queue with
      | none => { s with handler := none }
      | some (e, queue) => { s with queue := queue, handler := some { h with hand := some e } }

/-- `cpc_queue_flush`. -/
def Module.flushed (s : Module) : Module :=
  { s with
    queue := (cpcQueueFlush s.queue).2
    effects := s.effects ++ (cpcQueueFlush s.queue).1.map (fun e => .kfree e.skb)
    entries := s.entries - (cpcQueueFlush s.queue).1.length }

/-- `cpc_rt_flush`. -/
def Module.rtFlushed (s : Module) : Module :=
  { s with table := cpcRtFlush s.table, rts := s.rts - s.table.list.length }

/-- `cpc_netlink_rcv_nl_event`, up to the flush of the queue. -/
def Module.event (s : Module) (event : ℕ) (n : NetlinkNotify) : Module :=
  if event = NETLINK_URELEASE ∧ n.protocol = NETLINK_CPC ∧ n.pid ≠ 0 ∧ n.pid = s.peerPid then
    { s.rtFlushed with peerPid := 0, flushing := s.flushing + 1 }
  else s

/-- `cpc_rt_timeout`: what it takes out of the table is not freed. -/
def Module.timeout (s : Module) (jiffies : UInt64) : Module :=
  let t := cpcRtTimeout jiffies s.table
  { s with
    table := t
    effects := s.effects ++
      (s.table.list.take (s.table.list.length - t.list.length)).map .expire }

/-- The next statement of `cpc_linux_exit`; unregistering a hook waits for the calls under way. -/
def Module.unload (s : Module) : Option Module :=
  match s.phase with
  | .loaded => some { s with phase := .purged, ifs := [] }
  | .purged => if s.runs = [] then some { s with phase := .unhooked } else none
  | .unhooked => some { s.flushed with phase := .queueDone }
  | .queueDone => some { s.rtFlushed with phase := .rtDone }
  | .rtDone => some { s with phase := .unloaded }
  | .unloaded => none

def step (s : Module) : Action → Option Module
  | .hook hooknum skb ifindex =>
      if skb.id ∈ s.seen ∨ ¬ (s.phase = .loaded ∨ s.phase = .purged) then none
      else some (s.hook hooknum skb ifindex)
  | .advance i granted => s.runs[i]?.map (s.advance i granted)
  | .message skb granted jiffies =>
      -- `cpcnl_sem`: one message at a time
      if s.handler.isSome ∨ s.phase = .unloaded then none
      else some (s.received HZ skb granted jiffies)
  | .iterate granted => s.handler.map (s.iterate routingPort granted)
  | .event event n => some (s.event event n)
  | .flush => if s.flushing = 0 then none else some { s.flushed with flushing := s.flushing - 1 }
  | .timeout jiffies => if s.table.timer.isSome then some (s.timeout jiffies) else none
  | .unload => s.unload

end machine

/-! ### What the operations on the queue do -/

section operations

variable {q q' : Queue} {cmp : QueueEntry → Bool} {e : QueueEntry}

/-- The first matching entry leaves the list. -/
theorem findDequeueEntry_some (h : findDequeueEntry cmp q = some (e, q')) :
    ∃ as bs, q.list = as ++ e :: bs ∧ q'.list = as ++ bs ∧ cmp e = true ∧
      (∀ a ∈ as, cmp a = false) ∧ q'.total = q.total - 1 := by
  unfold findDequeueEntry findEntry at h
  cases hf : q.list.find? cmp with
  | none => rw [hf] at h; cases h
  | some e' =>
      rw [hf] at h
      cases h
      obtain ⟨hc, as, bs, hl, has⟩ := List.find?_eq_some_iff_append.mp hf
      have has' : ∀ a ∈ as, cmp a = false := fun a ha => by simpa using has a ha
      refine ⟨as, bs, hl, ?_, hc, has', rfl⟩
      rw [hl, List.eraseP_append_right _ (fun a ha => by simp [has' a ha]),
        List.eraseP_cons_of_pos hc]

/-- The flush takes everything out, the oldest entry first. -/
theorem flushLoop_eq : ∀ (n : ℕ) (q : Queue), q.list.length < n →
    flushLoop n q = (q.list, ⟨[], q.total - q.list.length⟩)
  | n + 1, ⟨[], total⟩, _ => rfl
  | n + 1, ⟨e :: es, total⟩, h => by
      have hd : findDequeueEntry (fun _ => true) ⟨e :: es, total⟩ = some (e, ⟨es, total - 1⟩) := by
        simp [findDequeueEntry, findEntry]
      have ih := flushLoop_eq n ⟨es, total - 1⟩ (by simpa using h)
      simp only [flushLoop, hd, ih, List.length_cons, Nat.sub_sub, Nat.add_comm]

theorem cpcQueueFlush_eq (q : Queue) :
    cpcQueueFlush q = (q.list, ⟨[], q.total - q.list.length⟩) :=
  flushLoop_eq _ q (Nat.lt_succ_self _)

theorem enqueuePacket_cases (granted : Bool) (skb : SkBuff) (q : Queue) :
    (granted = true ∧ q.total < queueMaxlen ∧
      cpcQueueEnqueuePacket granted skb q = (0, ⟨q.list ++ [queueEntry skb], q.total + 1⟩)) ∨
    (¬ (granted = true ∧ q.total < queueMaxlen) ∧ (cpcQueueEnqueuePacket granted skb q).1 < 0) := by
  unfold cpcQueueEnqueuePacket enqueueEntry
  split_ifs with hg hfull
  · exact Or.inr ⟨fun h => by omega, by simp [ENOSPC]⟩
  · exact Or.inl ⟨hg, by omega, rfl⟩
  · exact Or.inr ⟨fun h => hg h.1, by simp [ENOMEM]⟩

end operations

/-! ### The queue of `CpcKernel.lean`

The packets there are the entries here, without the port. -/

section coarse

def QueueEntry.coarse (e : QueueEntry) : Cpc.Packet :=
  ⟨e.skb.id, e.rtinfo.tos, e.rtinfo.saddr, e.rtinfo.daddr⟩

def Queue.coarse (q : Queue) : Cpc.Queue := ⟨q.list.map QueueEntry.coarse, q.total⟩

theorem coarse_find (daddr : UInt32) (q : Queue) :
    Cpc.cpcQueueFind daddr q.coarse = cpcQueueFind daddr q := by
  unfold Cpc.cpcQueueFind cpcQueueFind findEntry Queue.coarse
  rw [List.find?_map, Option.isSome_map]
  rfl

theorem coarse_enqueuePacket (granted : Bool) (skb : SkBuff) (q : Queue) :
    Cpc.cpcQueueEnqueuePacket granted (queueEntry skb).coarse q.coarse =
      (cpcQueueEnqueuePacket granted skb q).2.coarse := by
  unfold Cpc.cpcQueueEnqueuePacket cpcQueueEnqueuePacket enqueueEntry Queue.coarse
  dsimp only
  have hmax : Cpc.queueMaxlen = queueMaxlen := rfl
  rw [hmax]
  split_ifs with h₁ h₂ h₃ h₃ h₄
  · omega
  · rw [List.map_append]
    rfl
  · exact absurd h₁.1 h₂
  · rfl
  · exact absurd ⟨h₃, by omega⟩ h₁
  · rfl

theorem coarse_findDequeueEntry (daddr : UInt32) (q : Queue) :
    Cpc.cpcQueueFindDequeueEntry daddr q.coarse =
      (findDequeueEntry (destCmp daddr) q).map (fun p => (p.1.coarse, p.2.coarse)) := by
  unfold Cpc.cpcQueueFindDequeueEntry findDequeueEntry findEntry Queue.coarse
  rw [List.find?_map]
  have hcmp : Cpc.destCmp daddr ∘ QueueEntry.coarse = destCmp daddr := rfl
  rw [hcmp]
  cases q.list.find? (destCmp daddr) with
  | none => rfl
  | some e =>
      simp only [Option.map_some, List.eraseP_map, hcmp]

end coarse

/-! ### What a message does -/

/-- A message that is refused changes no table and starts no loop. -/
theorem rcvSkb_cases (HZ : UInt64) (granted : Bool) (jiffies : UInt64) (skb : NlSkb) (peerPid : ℤ)
    (t : Table) (rts : ℕ) :
    ((cpcNetlinkRcvSkb HZ granted jiffies skb peerPid t rts).table = t ∧
      (cpcNetlinkRcvSkb HZ granted jiffies skb peerPid t rts).rts = rts ∧
      (cpcNetlinkRcvSkb HZ granted jiffies skb peerPid t rts).queue = none) ∨
    ∃ len, (cpcNetlinkRcvSkb HZ granted jiffies skb peerPid t rts).table =
        (cpcNetlinkReceivePeer HZ granted jiffies len t skb.message).table ∧
      (cpcNetlinkRcvSkb HZ granted jiffies skb peerPid t rts).rts =
        rtsAfter granted len t rts skb.message ∧
      (cpcNetlinkRcvSkb HZ granted jiffies skb peerPid t rts).queue =
        (cpcNetlinkReceivePeer HZ granted jiffies len t skb.message).queue := by
  unfold cpcNetlinkRcvSkb
  dsimp only
  split_ifs
  · exact Or.inl ⟨rfl, rfl, rfl⟩
  · exact Or.inl ⟨rfl, rfl, rfl⟩
  · exact Or.inl ⟨rfl, rfl, rfl⟩
  · exact Or.inl ⟨rfl, rfl, rfl⟩
  · exact Or.inl ⟨rfl, rfl, rfl⟩
  all_goals exact Or.inr ⟨skb.len - nlmsghdrSize, rfl, rfl, rfl⟩

/-- A message that drops packets. -/
def drops : Message → Bool
  | .routeDel _ | .norouteFound _ | .dropQueue _ => true
  | _ => false

theorem receivePeer_drop {HZ : UInt64} {granted : Bool} {jiffies : UInt64} {len : ℕ} {t : Table}
    {m : Message} {daddr : UInt32}
    (h : (cpcNetlinkReceivePeer HZ granted jiffies len t m).queue =
      some (.setVerdict .drop daddr)) : drops m = true := by
  cases m with
  | routeDel m | norouteFound m | dropQueue m => rfl
  | routeAdd m | sendQueue m | sendWithData d =>
      unfold cpcNetlinkReceivePeer at h
      dsimp only at h
      split at h <;> simp at h
  | unknown => cases h

/-! ### What the operations on the table do -/

/-- `cpc_rt_add` puts in one entry, or none. -/
theorem cpcRtAdd_length (HZ : UInt64) (granted : Bool) (jiffies : UInt64) (daddr nhop : UInt32)
    (time : UInt64) (ifindex : ℤ) (t : Table) :
    (cpcRtAdd HZ granted jiffies daddr nhop time ifindex t).2.list.length =
      if (cpcRtGet daddr t).1 ≠ 0 ∨ granted = false ∨ RT_MAX_LEN < t.len then t.list.length
      else t.list.length + 1 := by
  cases hf : rtFind daddr t with
  | some rt => rw [cpcRtAdd_of_found hf, if_pos (Or.inl (by rw [cpcRtGet_some hf]; exact one_ne_zero))]
  | none =>
      have hget : ¬ (cpcRtGet daddr t).1 ≠ 0 := by rw [cpcRtGet_none hf]; decide
      cases granted with
      | false => rw [cpcRtAdd_of_refused hf, if_pos (Or.inr (Or.inl rfl))]
      | true =>
          by_cases hfull : RT_MAX_LEN < t.len
          · rw [cpcRtAdd_of_full hf hfull, if_pos (Or.inr (Or.inr hfull))]
          · rw [cpcRtAdd_of_space hf hfull,
              if_neg (not_or.mpr ⟨hget, not_or.mpr ⟨by decide, hfull⟩⟩)]
            split_ifs <;> exact length_insertByExpires _ _

/-- The memory of the route entries follows the table. -/
theorem rtsAfter_balance (HZ : UInt64) (granted : Bool) (jiffies : UInt64) (len : ℕ) (t : Table)
    {rts : ℕ} (h : t.list.length ≤ rts) (m : Message) :
    rtsAfter granted len t rts m + t.list.length =
      rts + (cpcNetlinkReceivePeer HZ granted jiffies len t m).table.list.length := by
  have hget : ∀ d, (cpcRtGet d t).1 = 0 ∨ (cpcRtGet d t).1 = 1 := by
    intro d
    unfold cpcRtGet
    cases rtFind d t with
    | none => exact Or.inl rfl
    | some _ => exact Or.inr rfl
  cases m with
  | routeAdd m =>
      have hnn : ¬ (cpcRtGet m.dst t).1 < 0 := by
        obtain h0 | h1 := hget m.dst <;> omega
      unfold rtsAfter cpcNetlinkReceivePeer
      by_cases hlen : len < rtMsgSize
      · simp [hlen]
      · simp only [hlen, false_or, if_false, hnn]
        rw [cpcRtAdd_length]
        split_ifs <;> omega
  | routeDel m =>
      unfold rtsAfter cpcNetlinkReceivePeer
      by_cases hlen : len < rtMsgSize
      · simp [hlen]
      · simp only [hlen, false_or, if_false]
        unfold cpcRtDel
        cases hf : rtFind m.dst t with
        | none => simp
        | some rt =>
            have hl := length_eraseP hf
            have hdel : (rtDel m.dst t).2.list = t.list.eraseP (isFor m.dst) := by
              unfold rtDel unlink
              dsimp only
              split_ifs
              · split <;> rfl
              · rfl
            simp only [hdel, show (rtDel m.dst t).1 = 1 from rfl, one_ne_zero, if_false]
            omega
  | norouteFound m | sendQueue m | dropQueue m | sendWithData d =>
      simp only [rtsAfter, cpcNetlinkReceivePeer]
      split_ifs <;> rfl
  | unknown => rfl

/-- The expired entries are the first ones. -/
theorem timeoutLoop_suffix (time : UInt64) : ∀ (list : List RtEntry) (len : UInt32),
    (timeoutLoop time list len).1 <:+ list
  | [], _ => List.suffix_rfl
  | rt :: list, len => by
      unfold timeoutLoop
      split_ifs
      · exact List.suffix_rfl
      · exact (timeoutLoop_suffix time list (len - 1)).trans (List.suffix_cons rt list)

theorem cpcRtTimeout_suffix (jiffies : UInt64) (t : Table) :
    (cpcRtTimeout jiffies t).list <:+ t.list := by
  unfold cpcRtTimeout cpcRtSetNextTimeout
  dsimp only
  split <;> exact timeoutLoop_suffix _ t.list t.len

end GeoSvr.CpcMod
