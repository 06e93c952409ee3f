import GeoSvr.Geometry

/-! # Timers and the neighbour list (`timer.cc`, `neigh_list.cc`)

The state of one daemon, as far as beacons are concerned.  Objects that `malloc` returns are
known by their addresses, which are never used twice: a timer that outlives its neighbour keeps
the address of a neighbour that is gone.

* A timer is pending from `geosvr_timer_new` until it is freed.  What `malloc` left in `in_cb_`
  is arbitrary: the environment supplies it.
* A neighbour owns two timers.  Its state says which of them are over: `invalid` is set when the
  first fires, `rebroadcast` when the second does.  The four bits of `state` are four fields.
* `log` records what the daemon broadcast and which packets it accepted, newest first; no
  function reads it. -/

namespace GeoSvr.Daemon

/-- `struct geosvr_node_packet`. -/
structure NodePacket (R : Type*) where
  taddr : UInt32
  saddr : UInt32
  latitude : R
  longitude : R
  track : R
  speed : R
  direct : Bool
  seqno : BitVec 31

/-- The bits `NEIGH_STATE_*`. -/
structure NeighState where
  indirect : Bool
  direct : Bool
  rebroadcast : Bool
  invalid : Bool
deriving DecidableEq

/-- `struct neighbor`, at the address `addr`. -/
structure Neighbor (R : Type*) where
  addr : ℕ
  ipAddr : UInt32
  latitude : R
  longitude : R
  track : R
  speed : R
  seqno : UInt32
  state : NeighState
  roadid : UInt32
  timeoutTimer : ℕ
  rebroadcastTimer : Option ℕ

/-- The callbacks of the daemon's timers. -/
inductive TimerCallback
  | sendNodeInfo
  | listCleanerCb
  | neighListExpire
  | rebroadcastExpire
deriving DecidableEq

/-- `struct GeoSVRTimer`, at the address `addr`; `data` is the neighbour it is for. -/
structure GeoSVRTimer where
  addr : ℕ
  func : TimerCallback
  data : ℕ
  inCb : Bool
  msec : UInt64

/-- What the daemon did. -/
inductive Event (R : Type*)
  /-- `send_node` broadcast its own beacon -/
  | beacon (pkt : NodePacket R)
  /-- `rebroadcast_expire` broadcast the beacon of the neighbour at `addr` -/
  | rebroadcast (addr : ℕ) (pkt : NodePacket R)
  /-- `recv_node` stored the packet in the neighbour at `addr`; `again` says that the neighbour
  had this sequence number already -/
  | accept (addr : ℕ) (again : Bool) (pkt : NodePacket R)

/-- The daemon: `nei_list`, the pending timers, the next unused address, the two timers that are
not for neighbours, and `NeighManager::seqno`. -/
structure Node (R : Type*) where
  neiList : List (Neighbor R)
  num : ℕ
  timers : List GeoSVRTimer
  fresh : ℕ
  sendTimer : ℕ
  listCleanerTimer : ℕ
  seqno : UInt32
  finished : Bool
  log : List (Event R)

/-- The periods of the configuration, the address of the host, and the map's `on_road`. -/
structure Config (R : Type*) where
  localAddr : UInt32
  beaconPeriod : UInt64
  entryExpirePeriod : UInt64
  listCleanerPeriod : UInt64
  onRoad : R → R → R → ℤ

/-- What the host decides during an action: the position, and the contents of `in_cb_` in the
timers that are allocated. -/
structure Env (R : Type*) where
  latitude : R
  longitude : R
  track : R
  speed : R
  timeoutInCb : Bool
  rebroadcastInCb : Bool

variable {R : Type*}

/-! ### Timers -/

/-- `geosvr_timer_new`. -/
def geosvrTimerNew (func : TimerCallback) (data : ℕ) (msec : UInt64) (inCb : Bool) (s : Node R) :
    ℕ × Node R :=
  (s.fresh, { s with timers := ⟨s.fresh, func, data, inCb, msec⟩ :: s.timers,
                     fresh := s.fresh + 1 })

/-- `geosvr_timer_reset`. -/
def geosvrTimerReset (timer : ℕ) (msec : UInt64) (s : Node R) : Node R :=
  { s with timers := s.timers.map (fun t =>
      if t.addr = timer then { t with inCb := false, msec := msec } else t) }

/-- `geosvr_timer_free`: a timer with `in_cb_` set is left alone. -/
def geosvrTimerFree (timer : ℕ) (s : Node R) : Node R :=
  { s with timers := s.timers.filter (fun t => t.addr != timer || t.inCb) }

/-- `timer->in_cb_ = b`. -/
def setInCb (timer : ℕ) (b : Bool) (s : Node R) : Node R :=
  { s with timers := s.timers.map (fun t => if t.addr = timer then { t with inCb := b } else t) }

/-! ### The list -/

/-- `state |= (1 << direct)`. -/
def NeighState.orDirect (st : NeighState) (direct : Bool) : NeighState :=
  if direct then { st with direct := true } else { st with indirect := true }

/-- `neigh_list_find`. -/
def neighListFind (s : Node R) (ipAddr : UInt32) : Option (Neighbor R) :=
  if s.num = 0 then none else s.neiList.find? (fun n => n.ipAddr == ipAddr)

/-- `neigh_list_insert`. -/
def neighListInsert (cfg : Config R) (env : Env R) (pkt : NodePacket R) (roadid : ℤ)
    (waitTime : UInt64) (s : Node R) : Node R :=
  let n := s.fresh
  let s := { s with fresh := s.fresh + 1 }
  let (timeout, s) := geosvrTimerNew .neighListExpire n cfg.entryExpirePeriod env.timeoutInCb s
  let (rebroadcast, s) := geosvrTimerNew .rebroadcastExpire n waitTime env.rebroadcastInCb s
  { s with
    num := s.num + 1
    neiList := ⟨n, pkt.saddr, pkt.latitude, pkt.longitude, pkt.track, pkt.speed,
      .ofNat pkt.seqno.toNat, NeighState.orDirect ⟨false, false, false, false⟩ pkt.direct,
      .ofInt roadid, timeout, some rebroadcast⟩ :: s.neiList
    log := .accept n false pkt :: s.log }

/-- Storing a neighbour at its address. -/
def replaceNeighbor (n : Neighbor R) (l : List (Neighbor R)) : List (Neighbor R) :=
  l.map (fun x => if x.addr = n.addr then n else x)

def putNeighbor (n : Neighbor R) (s : Node R) : Node R :=
  { s with neiList := replaceNeighbor n s.neiList }

/-- The fields that `neigh_list_update` takes from the packet. -/
def Neighbor.refresh (n : Neighbor R) (pkt : NodePacket R) (roadid : ℤ) : Neighbor R :=
  { n with
    latitude := pkt.latitude
    longitude := pkt.longitude
    track := pkt.track
    speed := pkt.speed
    seqno := .ofNat pkt.seqno.toNat
    state := NeighState.orDirect { n.state with indirect := false, direct := false } pkt.direct
    roadid := .ofInt roadid }

/-- The second part of `neigh_list_update`: the timeout timer. -/
def restartTimeout (cfg : Config R) (env : Env R) (n : Neighbor R) (s : Node R) :
    Neighbor R × Node R :=
  if n.state.invalid then
    let (timeout, s) :=
      geosvrTimerNew .neighListExpire n.addr cfg.entryExpirePeriod env.timeoutInCb s
    ({ n with state := { n.state with invalid := false }, timeoutTimer := timeout }, s)
  else (n, geosvrTimerReset n.timeoutTimer cfg.entryExpirePeriod s)

/-- The third part of `neigh_list_update`: the rebroadcast timer, if it is over. -/
def restartRebroadcast (env : Env R) (waitTime : UInt64) (n : Neighbor R) (s : Node R) :
    Neighbor R × Node R :=
  if n.state.rebroadcast then
    let (rebroadcast, s) :=
      geosvrTimerNew .rebroadcastExpire n.addr waitTime env.rebroadcastInCb s
    ({ n with state := { n.state with rebroadcast := false },
              rebroadcastTimer := some rebroadcast }, s)
  else (n, s)

/-- `neigh_list_update`. -/
def neighListUpdate (cfg : Config R) (env : Env R) (n : Neighbor R) (pkt : NodePacket R)
    (roadid : ℤ) (waitTime : UInt64) (s : Node R) : Node R :=
  let again := n.seqno == .ofNat pkt.seqno.toNat
  let (n, s) := restartTimeout cfg env (n.refresh pkt roadid) s
  let (n, s) := restartRebroadcast env waitTime n s
  { putNeighbor n s with log := .accept n.addr again pkt :: s.log }

/-- `neigh_list_delete`: the rebroadcast timer is freed if it is pending; the timeout timer is
not. -/
def neighListDelete (n : Neighbor R) (s : Node R) : Node R :=
  let s := { s with neiList := s.neiList.filter (fun x => x.addr != n.addr) }
  let s := match n.rebroadcastTimer with
    | none => s
    | some timer => if n.state.rebroadcast then s else geosvrTimerFree timer s
  { s with num := s.num - 1 }

/-- `list_foreach_safe` over the list, deleting the neighbours that satisfy `p`. -/
def deleteWhere (p : Neighbor R → Bool) (s : Node R) : Node R :=
  s.neiList.foldl (fun s n => if p n then neighListDelete n s else s) s

/-- `list_cleaner_cb`. -/
def listCleanerCb (s : Node R) : Node R := deleteWhere (fun n => n.state.invalid) s

/-- `neigh_list_fini`. -/
def neighListFini (s : Node R) : Node R :=
  geosvrTimerFree s.listCleanerTimer (deleteWhere (fun _ => true) s)

/-- `neigh_list_expire`. -/
def neighListExpire (n : Neighbor R) (s : Node R) : Node R :=
  putNeighbor { n with state := { n.state with invalid := true } } s

/-- The packet that `rebroadcast_expire` sends. -/
def rebroadcastPacket (cfg : Config R) (n : Neighbor R) : NodePacket R where
  taddr := cfg.localAddr
  saddr := n.ipAddr
  latitude := n.latitude
  longitude := n.longitude
  track := n.track
  speed := n.speed
  direct := false
  seqno := .ofNat 31 n.seqno.toNat

/-- `rebroadcast_expire`. -/
def rebroadcastExpire (cfg : Config R) (n : Neighbor R) (s : Node R) : Node R :=
  { putNeighbor { n with state := { n.state with rebroadcast := true } } s with
    log := .rebroadcast n.addr (rebroadcastPacket cfg n) :: s.log }

/-! ### Lists of neighbours -/

theorem mem_replaceNeighbor {n x : Neighbor R} {l : List (Neighbor R)} :
    x ∈ replaceNeighbor n l ↔
      (x = n ∧ ∃ y ∈ l, y.addr = n.addr) ∨ (x ∈ l ∧ x.addr ≠ n.addr) := by
  simp only [replaceNeighbor, List.mem_map]
  constructor
  · rintro ⟨y, hy, rfl⟩
    split_ifs with h
    · exact Or.inl ⟨rfl, y, hy, h⟩
    · exact Or.inr ⟨hy, h⟩
  · rintro (⟨rfl, y, hy, h⟩ | ⟨hx, h⟩)
    · exact ⟨y, hy, if_pos h⟩
    · exact ⟨x, hx, if_neg h⟩

theorem map_addr_replaceNeighbor (n : Neighbor R) (l : List (Neighbor R)) :
    (replaceNeighbor n l).map Neighbor.addr = l.map Neighbor.addr := by
  simp only [replaceNeighbor, List.map_map]
  apply List.map_congr_left
  intro x _
  simp only [Function.comp]
  split_ifs with h
  · exact h.symm
  · rfl

theorem replaceNeighbor_replaceNeighbor {n n' : Neighbor R} (h : n'.addr = n.addr)
    (l : List (Neighbor R)) :
    replaceNeighbor n' (replaceNeighbor n l) = replaceNeighbor n' l := by
  simp only [replaceNeighbor, List.map_map]
  apply List.map_congr_left
  intro x _
  simp only [Function.comp, h]
  split_ifs <;> simp_all

theorem neighListFind_some {s : Node R} {ipAddr : UInt32} {n : Neighbor R}
    (h : neighListFind s ipAddr = some n) : n ∈ s.neiList ∧ n.ipAddr = ipAddr := by
  unfold neighListFind at h
  split_ifs at h
  exact ⟨List.mem_of_find?_eq_some h, by simpa using List.find?_some h⟩

end GeoSvr.Daemon
