import GeoSvr.NeighList

/-! # The beacon protocol at one host (`neigh_manager.cc`)

`recv_node` keeps the neighbour list up to date, `send_node` broadcasts the host's own beacon.
A `step` of the daemon is the arrival of a packet, the firing of a pending timer, or the end of
`NeighManager`.  A timer whose neighbour is gone has no step: the callback would work on freed
memory. -/

namespace GeoSvr.Daemon

variable {R : Type*}

section scalar

variable [Scalar R]

/-- `wait_time`. -/
def waitTime (env : Env R) (s : Node R) (pkt : NodePacket R) : UInt64 :=
  let dist := match neighListFind s pkt.saddr with
    | none => Scalar.distance env.longitude env.latitude pkt.longitude pkt.latitude
    | some nei => Scalar.distance nei.longitude nei.latitude pkt.longitude pkt.latitude
  let time := Scalar.toU64 (Scalar.ofNat 100 / dist)
  if time = 0 then 1000 else time

/-- `in_circle`: the host lies in the circle over the source and the relay of the packet. -/
def inCircle (env : Env R) (s : Node R) (pkt : NodePacket R) : Bool :=
  match neighListFind s pkt.taddr with
  | none => false
  | some tnei =>
      let two : R := Scalar.ofNat 2
      let radius := Scalar.distance pkt.longitude pkt.latitude tnei.longitude tnei.latitude / two
      let cpx := tnei.longitude + (pkt.longitude - tnei.longitude) / two
      let cpy := tnei.latitude + (pkt.latitude - tnei.latitude) / two
      Scalar.lt ((env.longitude - cpx) * (env.longitude - cpx) +
        (env.latitude - cpy) * (env.latitude - cpy)) radius

/-- `recv_node`. -/
def recvNode (cfg : Config R) (env : Env R) (pkt : NodePacket R) (s : Node R) : Node R :=
  if pkt.taddr = cfg.localAddr ∨ pkt.saddr = cfg.localAddr then s
  else
    let roadid := cfg.onRoad pkt.latitude pkt.longitude pkt.track
    match neighListFind s pkt.saddr with
    | none => neighListInsert cfg env pkt roadid (waitTime env s pkt) s
    | some nei =>
        if pkt.seqno.toNat < nei.seqno.toNat then s
        else if nei.seqno.toNat = pkt.seqno.toNat ∧ (inCircle env s pkt ∨ nei.state.direct) then s
        else neighListUpdate cfg env nei pkt roadid (waitTime env s pkt) s

end scalar

/-- The beacon that `send_node` broadcasts: `seqno` is truncated to 31 bits. -/
def beaconPacket (cfg : Config R) (env : Env R) (s : Node R) : NodePacket R where
  taddr := cfg.localAddr
  saddr := cfg.localAddr
  latitude := env.latitude
  longitude := env.longitude
  track := env.track
  speed := env.speed
  direct := true
  seqno := .ofNat 31 s.seqno.toNat

/-- `send_node`. -/
def sendNode (cfg : Config R) (env : Env R) (s : Node R) : Node R :=
  { s with seqno := s.seqno + 1, log := .beacon (beaconPacket cfg env s) :: s.log }

/-- The call `(*timer->func_)(timer->data_)`: what it returns, and the daemon afterwards. -/
def callback (cfg : Config R) (env : Env R) (t : GeoSVRTimer) (s : Node R) :
    Option (Bool × Node R) :=
  match t.func with
  | .sendNodeInfo => some (true, sendNode cfg env s)
  | .listCleanerCb => some (true, listCleanerCb s)
  | .neighListExpire => (s.neiList.find? (fun n => n.addr == t.data)).map
      (fun n => (false, neighListExpire n s))
  | .rebroadcastExpire => (s.neiList.find? (fun n => n.addr == t.data)).map
      (fun n => (false, rebroadcastExpire cfg n s))

/-- `timer_callback`. -/
def timerCallback (cfg : Config R) (env : Env R) (t : GeoSVRTimer) (s : Node R) :
    Option (Node R) :=
  match callback cfg env t (setInCb t.addr true s) with
  | none => none
  | some (more, s) =>
      let s := setInCb t.addr false s
      some (if more then s else geosvrTimerFree t.addr s)

/-- `NeighManager::NeighManager`, with what `malloc` left in `in_cb_` of the two timers. -/
def Node.init (cfg : Config R) (sendInCb cleanerInCb : Bool) : Node R where
  neiList := []
  num := 0
  timers := [⟨1, .listCleanerCb, 0, cleanerInCb, cfg.listCleanerPeriod⟩,
    ⟨0, .sendNodeInfo, 0, sendInCb, cfg.beaconPeriod⟩]
  fresh := 2
  sendTimer := 0
  listCleanerTimer := 1
  seqno := 0
  finished := false
  log := []

inductive Action (R : Type*)
  | recv (pkt : NodePacket R) (env : Env R)
  | fire (timer : ℕ) (env : Env R)
  | fini

/-- `NeighManager::~NeighManager`. -/
def Node.fini (s : Node R) : Node R :=
  { neighListFini (geosvrTimerFree s.sendTimer s) with finished := true }

def step [Scalar R] (cfg : Config R) (s : Node R) (a : Action R) : Option (Node R) :=
  if s.finished then none
  else
    match a with
    | .recv pkt env => some (recvNode cfg env pkt s)
    | .fire timer env =>
        match s.timers.find? (fun t => t.addr == timer) with
        | none => none
        | some t => timerCallback cfg env t s
    | .fini => some s.fini

/-! ### What a packet and a step do -/

/-- A packet is ignored, or inserted, or it updates the neighbour it is about. -/
theorem recvNode_cases [Scalar R] (cfg : Config R) (env : Env R) (pkt : NodePacket R) (s : Node R) :
    recvNode cfg env pkt s = s ∨
    (neighListFind s pkt.saddr = none ∧ ∃ roadid w,
      recvNode cfg env pkt s = neighListInsert cfg env pkt roadid w s) ∨
    (∃ nei roadid w, neighListFind s pkt.saddr = some nei ∧ nei.seqno.toNat ≤ pkt.seqno.toNat ∧
      (nei.seqno.toNat = pkt.seqno.toNat →
        inCircle env s pkt = false ∧ nei.state.direct = false) ∧
      recvNode cfg env pkt s = neighListUpdate cfg env nei pkt roadid w s) := by
  unfold recvNode
  by_cases hlocal : pkt.taddr = cfg.localAddr ∨ pkt.saddr = cfg.localAddr
  · exact Or.inl (if_pos hlocal)
  · rw [if_neg hlocal]
    cases hf : neighListFind s pkt.saddr with
    | none => exact Or.inr (Or.inl ⟨rfl, _, _, rfl⟩)
    | some nei =>
        dsimp only
        split_ifs with hold hsame
        · exact Or.inl rfl
        · exact Or.inl rfl
        · refine Or.inr (Or.inr ⟨nei, _, _, rfl, by omega, fun he => ?_, rfl⟩)
          have h := not_and.mp hsame he
          simpa [not_or] using h

theorem step_cases [Scalar R] {cfg : Config R} {s s' : Node R} {a : Action R}
    (h : step cfg s a = some s') :
    (∃ pkt env, a = .recv pkt env ∧ s' = recvNode cfg env pkt s) ∨
    (∃ env t more s₁, a = .fire t.addr env ∧ t ∈ s.timers ∧
      callback cfg env t (setInCb t.addr true s) = some (more, s₁) ∧
      s' = if more then setInCb t.addr false s₁
        else geosvrTimerFree t.addr (setInCb t.addr false s₁)) ∨
    (a = .fini ∧ s' = s.fini) := by
  unfold step at h
  split_ifs at h with hfin
  cases a with
  | recv pkt env =>
      cases h
      exact Or.inl ⟨pkt, env, rfl, rfl⟩
  | fire timer env =>
      simp only at h
      cases ht : s.timers.find? (fun t => t.addr == timer) with
      | none => rw [ht] at h; cases h
      | some t =>
          have haddr : t.addr = timer := by simpa using List.find?_some ht
          rw [ht] at h
          simp only [timerCallback] at h
          cases hc : callback cfg env t (setInCb t.addr true s) with
          | none => rw [hc] at h; cases h
          | some r =>
              rw [hc] at h
              cases h
              exact Or.inr (Or.inl ⟨env, t, r.1, r.2, by rw [haddr],
                List.mem_of_find?_eq_some ht, hc, rfl⟩)
  | fini =>
      cases h
      exact Or.inr (Or.inr ⟨rfl, rfl⟩)

/-- The four callbacks. -/
theorem callback_cases {cfg : Config R} {env : Env R} {t : GeoSVRTimer} {s s' : Node R}
    {more : Bool} (h : callback cfg env t s = some (more, s')) :
    (t.func = .sendNodeInfo ∧ more = true ∧ s' = sendNode cfg env s) ∨
    (t.func = .listCleanerCb ∧ more = true ∧ s' = listCleanerCb s) ∨
    (∃ n ∈ s.neiList, n.addr = t.data ∧ more = false ∧
      ((t.func = .neighListExpire ∧ s' = neighListExpire n s) ∨
        (t.func = .rebroadcastExpire ∧ s' = rebroadcastExpire cfg n s))) := by
  unfold callback at h
  cases hf : t.func with
  | sendNodeInfo =>
      rw [hf] at h
      cases h
      exact Or.inl ⟨rfl, rfl, rfl⟩
  | listCleanerCb =>
      rw [hf] at h
      cases h
      exact Or.inr (Or.inl ⟨rfl, rfl, rfl⟩)
  | neighListExpire =>
      rw [hf] at h
      obtain ⟨n, hn, he⟩ := Option.map_eq_some_iff.mp h
      cases he
      exact Or.inr (Or.inr ⟨n, List.mem_of_find?_eq_some hn, by simpa using List.find?_some hn,
        rfl, Or.inl ⟨rfl, rfl⟩⟩)
  | rebroadcastExpire =>
      rw [hf] at h
      obtain ⟨n, hn, he⟩ := Option.map_eq_some_iff.mp h
      cases he
      exact Or.inr (Or.inr ⟨n, List.mem_of_find?_eq_some hn, by simpa using List.find?_some hn,
        rfl, Or.inr ⟨rfl, rfl⟩⟩)

end GeoSvr.Daemon
