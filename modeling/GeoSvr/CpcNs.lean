import Mathlib.Data.List.Basic
import Mathlib.Data.UInt
import Mathlib.Tactic.SplitIfs

/-! # The queue and the routing table of the ns-2 agent (`cpc_queue_ns.cc`, `routing_table.c`)

The agents of a simulation are objects of one process.  Their packets wait in one queue `q`, and
their routes are in one table `rt_tbl`, because both are file-level globals: every constructor
initialises them and every destructor flushes them.

`Globals ι` is what the agents `ι` share.  An entry bears the agent that added it (`owner`).  This
mark is not in the source, and no operation reads it.  Before the first constructor the list heads
are null pointers; they are taken for empty lists. -/

namespace GeoSvr.CpcNs

/-- `hdr_cmn::dir_t`. -/
inductive Direction
  | down
  | none
  | up
deriving DecidableEq, Repr

/-- An ns-2 packet: its identity, the fields of `hdr_ip` and `hdr_cmn` that are used, and the
bytes of the protocol header. -/
structure Packet where
  id : ℕ
  saddr : UInt32
  daddr : UInt32
  direction : Direction
  afInet : Bool
  lastHop : UInt32
  nextHop : UInt32
  prot : List UInt8
deriving DecidableEq, Repr

variable {ι : Type*}

/-- `struct queue_entry`. -/
structure QueueEntry (ι : Type*) where
  owner : ι
  dst : UInt32
  p : Packet
deriving DecidableEq

/-- `struct rt_entry`. -/
structure RtEntry (ι : Type*) where
  owner : ι
  dst : UInt32
  next : UInt32
deriving DecidableEq

/-- `q` and `rt_tbl`. -/
structure Globals (ι : Type*) where
  queue : List (QueueEntry ι)
  len : ℕ
  agent : Option ι
  routes : List (RtEntry ι)
  nentries : ℕ
deriving DecidableEq

/-- Before any agent is constructed. -/
def Globals.init : Globals ι := ⟨[], 0, none, [], 0⟩

/-- What an agent is made to do with a packet. -/
inductive Effect (ι : Type*)
  | send (agent : Option ι) (p : Packet)
  | drop (agent : Option ι) (p : Packet)

/-! ### The routing table -/

/-- `rt_init`. -/
def rtInit (g : Globals ι) : Globals ι := { g with routes := [], nentries := 0 }

/-- `rt_des`: every entry is removed. -/
def rtDes (g : Globals ι) : Globals ι :=
  { g with routes := [], nentries := g.nentries - g.routes.length }

/-- `rt_find`. -/
def rtFind (dst : UInt32) (g : Globals ι) : Option (RtEntry ι) :=
  g.routes.find? (fun e => e.dst == dst)

/-- `rt_add`: an entry that exists stays as it is. -/
def rtAdd (x : ι) (dst next : UInt32) (g : Globals ι) : Globals ι :=
  if g.routes.any (fun e => e.dst == dst) then g
  else { g with routes := ⟨x, dst, next⟩ :: g.routes, nentries := g.nentries + 1 }

/-- `rt_remove` of the entry that `rt_find` found. -/
def rtRemove (dst : UInt32) (g : Globals ι) : Globals ι :=
  { g with routes := g.routes.eraseP (fun e => e.dst == dst), nentries := g.nentries - 1 }

/-- `rt_update` of the entry that `rt_find` found. -/
def updateNext (dst next : UInt32) : List (RtEntry ι) → List (RtEntry ι)
  | [] => []
  | e :: es => if e.dst == dst then { e with next := next } :: es else e :: updateNext dst next es

/-- `cpc_rt_add`. -/
def cpcRtAdd (x : ι) (dst next : UInt32) (g : Globals ι) : Globals ι := rtAdd x dst next g

/-- `cpc_rt_remove`. -/
def cpcRtRemove (dst : UInt32) (g : Globals ι) : Globals ι :=
  match rtFind dst g with
  | none => g
  | some _ => rtRemove dst g

/-- `cpc_rt_update`. -/
def cpcRtUpdate (x : ι) (dst next : UInt32) (g : Globals ι) : Globals ι :=
  match rtFind dst g with
  | none => rtAdd x dst next g
  | some _ => { g with routes := updateNext dst next g.routes }

/-- `cpc_rt_find`. -/
def cpcRtFind (dst : UInt32) (g : Globals ι) : Option UInt32 := (rtFind dst g).map (·.next)

/-! ### The queue -/

/-- `cpc_queue_ns_init`. -/
def cpcQueueNsInit (x : ι) (g : Globals ι) : Globals ι :=
  { g with queue := [], len := 0, agent := some x }

/-- `cpc_queue_ns_des`: the packets are dropped by the agent that was constructed last. -/
def cpcQueueNsDes (g : Globals ι) : List (Effect ι) × Globals ι :=
  (g.queue.map (fun e => .drop g.agent e.p), { g with queue := [], len := g.len - g.queue.length })

/-- `cpc_queue_ns_add`. -/
def cpcQueueNsAdd (x : ι) (p : Packet) (dst : UInt32) (g : Globals ι) : Globals ι :=
  { g with queue := g.queue ++ [⟨x, dst, p⟩], len := g.len + 1 }

/-- `cpc_queue_ns_remove`: every entry for the destination; the packets are not looked at. -/
def cpcQueueNsRemove (dst : UInt32) (g : Globals ι) : Globals ι :=
  let rest := g.queue.filter (fun e => e.dst != dst)
  { g with queue := rest, len := g.len - (g.queue.length - rest.length) }

/-- `cpc_queue_ns_get`: the first entry for the destination stays in the queue. -/
def cpcQueueNsGet (dst : UInt32) (g : Globals ι) : Option Packet :=
  (g.queue.find? (fun e => e.dst == dst)).map (·.p)

/-- `CpcAgent::sendData`, of an agent with the address `addr`. -/
def sendData (addr : UInt32) (p : Packet) (dst : UInt32) (g : Globals ι) : Option Packet :=
  match cpcRtFind dst g with
  | none => none
  | some next =>
      some { p with direction := .down, afInet := true, lastHop := addr, nextHop := next }

/-- `cpc_queue_ns_send_packets`; `addr` gives the addresses of the agents. -/
def cpcQueueNsSendPackets (addr : Option ι → UInt32) (dst : UInt32) (g : Globals ι) :
    List (Effect ι) × Globals ι :=
  let found := g.queue.filter (fun e => e.dst == dst)
  let sent := found.filterMap (fun e => (sendData (addr g.agent) e.p dst g).map (.send g.agent))
  (sent, if found = [] then g else cpcQueueNsRemove dst g)

/-- Sending the packets for a destination removes them, whether they could be sent or not. -/
theorem sendPackets_eq_remove (addr : Option ι → UInt32) (dst : UInt32) (g : Globals ι) :
    (cpcQueueNsSendPackets addr dst g).2.queue = (cpcQueueNsRemove dst g).queue ∧
      (cpcQueueNsSendPackets addr dst g).2.routes = g.routes := by
  unfold cpcQueueNsSendPackets cpcQueueNsRemove
  dsimp only
  split_ifs with h
  · refine ⟨(List.filter_eq_self.mpr (fun e he => ?_)).symm, rfl⟩
    have := List.filter_eq_nil_iff.mp h e he
    simpa using this
  · exact ⟨rfl, rfl⟩

/-! ### The agents -/

/-- The constructor. -/
def construct (x : ι) (g : Globals ι) : Globals ι := cpcQueueNsInit x (rtInit g)

/-- The destructor. -/
def destruct (g : Globals ι) : List (Effect ι) × Globals ι := cpcQueueNsDes (rtDes g)

end GeoSvr.CpcNs
