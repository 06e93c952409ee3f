import GeoSvr.Netlink
import GeoSvr.Runs

/-! # Daemons that come and go (`geosvr_netlink.c`)

The module talks to one daemon.  The first message that passes the checks of
`geosvr_netlink_rcv_skb` makes its `nlmsg_pid` the `peer_pid`, and from then on messages with
another pid are refused with `-EBUSY`.  When a daemon exits its socket is closed, and the
kernel calls the notifiers with `NETLINK_URELEASE` and the pid.

`Host` is the module's `peer_pid` and the daemons that run; `step` is given the notifier, so
that `geosvr_netlink_rcv_nl_event`, which does nothing, stands beside the
`cpc_netlink_rcv_nl_event` it was made from, which gives `peer_pid` up.  A state is `Served`
when `peer_pid` is nobody or a running daemon, and no message was refused on behalf of a daemon
that is gone. -/

namespace GeoSvr.Kernel.Takeover

open Runs

/-! ### Constants -/

def NLM_F_REQUEST : UInt16 := 1
def NLM_F_MULTI : UInt16 := 2
def NLM_F_ACK : UInt16 := 4
def MSG_TRUNC : UInt16 := 0x20

def EPERM : ℤ := 1
def EBUSY : ℤ := 16
def EINVAL : ℤ := 22
def ECOMM : ℤ := 70

def NETLINK_URELEASE : ℕ := 1
def NOTIFY_DONE : ℕ := 0
/-- `MAX_LINKS - 1`, for both modules. -/
def NETLINK_GEOSVR : ℕ := 31
def NETLINK_CPC : ℕ := 31

/-! ### The receiving end -/

/-- A message at the netlink socket: the length of its `sk_buff`, the fields of
`struct nlmsghdr`, what `security_netlink_recv` finds, and the payload. -/
structure NlSkb where
  len : ℕ
  nlmsgLen : UInt32
  nlmsgType : UInt16
  nlmsgFlags : UInt16
  nlmsgPid : UInt32
  capNetAdmin : Bool
  msg : NlMsg

/-- A `__u32` read into an `int`. -/
def asInt (x : UInt32) : ℤ := x.toBitVec.toInt

/-- The status of `geosvr_netlink_recv_peer`. -/
def recvPeerStatus (type len : ℕ) : ℤ :=
  if (type = GEOSVR_RSP_SEND.toNat ∨ type = GEOSVR_RSP_DROP.toNat) ∧ len < nlmsgSize then -EINVAL
  else 0

/-- What `geosvr_netlink_rcv_skb` leaves: `peer_pid`, the error of the acknowledgement it sends,
if it sends one, and the response it acts on. -/
structure Received where
  peerPid : ℤ
  ack : Option ℤ
  response : Option Response

/-- `geosvr_netlink_rcv_skb`.  `nlmsglen` is compared with a `size_t` first and with an `int`
after that. -/
def geosvrNetlinkRcvSkb (skb : NlSkb) (peerPid : ℤ) : Received :=
  let nlmsglen := asInt skb.nlmsgLen
  let pid := asInt skb.nlmsgPid
  let flags := skb.nlmsgFlags
  if skb.len < nlmsghdrSize then ⟨peerPid, none, none⟩
  else if (0 ≤ nlmsglen ∧ nlmsglen < nlmsghdrSize) ∨ (skb.len : ℤ) < nlmsglen then
    ⟨peerPid, none, none⟩
  else if pid ≤ 0 ∨ flags &&& NLM_F_REQUEST = 0 ∨ flags &&& NLM_F_MULTI ≠ 0 then
    ⟨peerPid, some (-EINVAL), none⟩
  else if flags &&& MSG_TRUNC ≠ 0 then ⟨peerPid, some (-ECOMM), none⟩
  else if skb.capNetAdmin = false then ⟨peerPid, some (-EPERM), none⟩
  else if peerPid ≠ 0 ∧ peerPid ≠ pid then ⟨peerPid, some (-EBUSY), none⟩
  else
    let type := skb.nlmsgType.toNat
    let len := skb.len - nlmsghdrSize
    let status := recvPeerStatus type len
    ⟨pid,
      if status < 0 then some status
      else if flags &&& NLM_F_ACK ≠ 0 then some 0
      else none,
      geosvrNetlinkRecvPeer type len skb.msg⟩

/-- The message passes every check before the one of `peer_pid`. -/
def Authorised (skb : NlSkb) : Prop :=
  nlmsghdrSize ≤ skb.len ∧
    ¬ ((0 ≤ asInt skb.nlmsgLen ∧ asInt skb.nlmsgLen < nlmsghdrSize) ∨
      (skb.len : ℤ) < asInt skb.nlmsgLen) ∧
    0 < asInt skb.nlmsgPid ∧ skb.nlmsgFlags &&& NLM_F_REQUEST ≠ 0 ∧
    skb.nlmsgFlags &&& NLM_F_MULTI = 0 ∧ skb.nlmsgFlags &&& MSG_TRUNC = 0 ∧
    skb.capNetAdmin = true

instance (skb : NlSkb) : Decidable (Authorised skb) := inferInstanceAs (Decidable (_ ∧ _))

/-- What becomes of a message: it fails a check, it is refused for the sake of the peer, or its
sender is the peer from now on. -/
theorem rcvSkb_cases (skb : NlSkb) (peerPid : ℤ) :
    (¬ Authorised skb ∧ (geosvrNetlinkRcvSkb skb peerPid).peerPid = peerPid ∧
      (geosvrNetlinkRcvSkb skb peerPid).ack ≠ some (-EBUSY)) ∨
    (Authorised skb ∧ peerPid ≠ 0 ∧ peerPid ≠ asInt skb.nlmsgPid ∧
      geosvrNetlinkRcvSkb skb peerPid = ⟨peerPid, some (-EBUSY), none⟩) ∨
    (Authorised skb ∧ (peerPid = 0 ∨ peerPid = asInt skb.nlmsgPid) ∧
      (geosvrNetlinkRcvSkb skb peerPid).peerPid = asInt skb.nlmsgPid ∧
      (geosvrNetlinkRcvSkb skb peerPid).ack ≠ some (-EBUSY)) := by
  unfold geosvrNetlinkRcvSkb Authorised
  dsimp only
  split_ifs with h₁ h₂ h₃ h₄ h₅ h₆
  · exact Or.inl ⟨fun h => by omega, rfl, by simp⟩
  · exact Or.inl ⟨fun h => h.2.1 h₂, rfl, by simp⟩
  · refine Or.inl ⟨fun h => ?_, rfl, by simp [EINVAL, EBUSY]⟩
    obtain h₃ | h₃ | h₃ := h₃
    · exact absurd h.2.2.1 (by omega)
    · exact h.2.2.2.1 h₃
    · exact h₃ h.2.2.2.2.1
  · exact Or.inl ⟨fun h => h₄ h.2.2.2.2.2.1, rfl, by simp [ECOMM, EBUSY]⟩
  · exact Or.inl ⟨fun h => by simp [h₅] at h, rfl, by simp [EPERM, EBUSY]⟩
  all_goals
    simp only [not_or, not_le, ne_eq, not_not] at h₃ h₄
    have hauth : nlmsghdrSize ≤ skb.len ∧
        ¬ ((0 ≤ asInt skb.nlmsgLen ∧ asInt skb.nlmsgLen < nlmsghdrSize) ∨
          (skb.len : ℤ) < asInt skb.nlmsgLen) ∧
        0 < asInt skb.nlmsgPid ∧ skb.nlmsgFlags &&& NLM_F_REQUEST ≠ 0 ∧
        skb.nlmsgFlags &&& NLM_F_MULTI = 0 ∧ skb.nlmsgFlags &&& MSG_TRUNC = 0 ∧
        skb.capNetAdmin = true :=
      ⟨by omega, h₂, h₃.1, h₃.2.1, h₃.2.2, h₄, by simpa using h₅⟩
  · exact Or.inr (Or.inl ⟨hauth, h₆.1, h₆.2, rfl⟩)
  all_goals
    refine Or.inr (Or.inr ⟨hauth, by omega, rfl, ?_⟩)
  · unfold recvPeerStatus
    split_ifs <;> simp [EINVAL, EBUSY]
  · simp [EBUSY]
  · simp

/-! ### The notifiers -/

/-- `struct netlink_notify`. -/
structure NetlinkNotify where
  pid : ℤ
  protocol : ℕ

/-- A notifier: what it returns, and `peer_pid` after it. -/
abbrev Notifier := ℕ → NetlinkNotify → ℤ → ℕ × ℤ

/-- `geosvr_netlink_rcv_nl_event`. -/
def geosvrNetlinkRcvNlEvent : Notifier := fun _ _ peerPid => (NOTIFY_DONE, peerPid)

/-- `cpc_netlink_rcv_nl_event`, as far as `peer_pid` is concerned. -/
def cpcNetlinkRcvNlEvent : Notifier := fun event n peerPid =>
  if event = NETLINK_URELEASE ∧ n.protocol = NETLINK_CPC ∧ n.pid ≠ 0 then
    if n.pid = peerPid then (NOTIFY_DONE, 0) else (NOTIFY_DONE, peerPid)
  else (NOTIFY_DONE, peerPid)

/-! ### The host -/

/-- `peer_pid`, the pids of the daemons that run, and the messages refused with `-EBUSY` while
the peer was gone: their pid, and the peer. -/
structure Host where
  peerPid : ℤ
  running : List ℤ
  orphaned : List (ℤ × ℤ)

inductive Action
  | start (pid : ℤ)
  | message (skb : NlSkb)
  | exit (pid : ℤ)

/-- The module after it was loaded, and no daemon. -/
def Host.init : Host := ⟨0, [], []⟩

/-- The host after the message `skb`. -/
def Host.received (s : Host) (skb : NlSkb) : Host :=
  let r := geosvrNetlinkRcvSkb skb s.peerPid
  { s with
    peerPid := r.peerPid
    orphaned := if r.ack = some (-EBUSY) ∧ s.peerPid ∉ s.running then
        (asInt skb.nlmsgPid, s.peerPid) :: s.orphaned
      else s.orphaned }

/-- The host after the exit of `pid`, which `notifier` was told of. -/
def Host.exited (notifier : Notifier) (s : Host) (pid : ℤ) : Host :=
  { s with
    running := s.running.filter (· ≠ pid)
    peerPid := (notifier NETLINK_URELEASE ⟨pid, NETLINK_GEOSVR⟩ s.peerPid).2 }

def step (notifier : Notifier) (s : Host) : Action → Option Host
  | .start pid =>
      if 0 < pid ∧ pid ∉ s.running then some { s with running := pid :: s.running } else none
  | .message skb => some (s.received skb)
  | .exit pid => if pid ∈ s.running then some (s.exited notifier pid) else none

/-- `peer_pid` is nobody, or a running daemon. -/
def Owned (s : Host) : Prop := s.peerPid = 0 ∨ s.peerPid ∈ s.running

/-- And nobody was refused because of a daemon that is gone. -/
def Served (s : Host) : Prop := Owned s ∧ s.orphaned = []

instance (s : Host) : Decidable (Owned s) := inferInstanceAs (Decidable (_ ∨ _))
instance (s : Host) : Decidable (Served s) := inferInstanceAs (Decidable (_ ∧ _))

/-- A message that makes its pid the peer comes from a running daemon. -/
def Genuine (s : Host) (skb : NlSkb) : Prop :=
  s.peerPid = 0 → Authorised skb → asInt skb.nlmsgPid ∈ s.running

/-- The condition: the peer itself does not exit. -/
def KeepsPeer (s : Host) : Action → Prop
  | .start _ => True
  | .message skb => Genuine s skb
  | .exit pid => s.peerPid ≠ pid

/-- The condition without the one on exits. -/
def OnlyGenuine (s : Host) : Action → Prop
  | .message skb => Genuine s skb
  | _ => True

/-- The invariant: the host is served, and pids are positive. -/
structure Settled (s : Host) : Prop where
  served : Served s
  pos : ∀ p ∈ s.running, 0 < p

theorem settled_init : Settled Host.init := ⟨⟨Or.inl rfl, rfl⟩, by simp [Host.init]⟩

/-! ### Steps -/

theorem start_settled {notifier : Notifier} {s s' : Host} {pid : ℤ} (hs : Settled s)
    (h : step notifier s (.start pid) = some s') : Settled s' := by
  simp only [step] at h
  split_ifs at h with hp
  cases h
  refine ⟨⟨hs.served.1.imp_right (List.mem_cons_of_mem pid), hs.served.2⟩, ?_⟩
  intro p hm
  obtain rfl | hm := List.mem_cons.mp hm
  · exact hp.1
  · exact hs.pos p hm

/-- A message leaves the host served exactly when it is genuine. -/
theorem received_served {s : Host} (hs : Settled s) (skb : NlSkb) :
    Served (s.received skb) ↔ Genuine s skb := by
  obtain ⟨⟨howned, horph⟩, -⟩ := hs
  unfold Served Owned Genuine Host.received
  obtain ⟨ha, hp, hk⟩ | ⟨ha, h0, hne, hr⟩ | ⟨ha, hpeer, hp, hk⟩ := rcvSkb_cases skb s.peerPid
  · simp only [hp, hk, false_and, if_false]
    exact iff_of_true ⟨howned, horph⟩ (fun _ h => absurd h ha)
  · have hrun : s.peerPid ∈ s.running := howned.resolve_left h0
    simp only [hr, hrun, not_true_eq_false, and_false, if_false]
    exact iff_of_true ⟨Or.inr trivial, horph⟩ (fun h => absurd h h0)
  · have hpos : asInt skb.nlmsgPid ≠ 0 := by have := ha.2.2.1; omega
    simp only [hp, hk, false_and, if_false, hpos, false_or, and_iff_left horph]
    refine ⟨fun h _ _ => h, fun h => ?_⟩
    by_cases h0 : s.peerPid = 0
    · exact h h0 ha
    · obtain h0' | h0' := hpeer
      · exact absurd h0' h0
      · exact h0' ▸ howned.resolve_left h0

theorem received_settled {s : Host} (hs : Settled s) {skb : NlSkb} (hg : Genuine s skb) :
    Settled (s.received skb) :=
  ⟨(received_served hs skb).mpr hg, hs.pos⟩

theorem exited_pos {notifier : Notifier} {s : Host} (hs : Settled s) (pid : ℤ) :
    ∀ p ∈ (s.exited notifier pid).running, 0 < p :=
  fun p hm => hs.pos p (List.mem_filter.mp hm).1

/-- An exit leaves the host served exactly when it is not the peer that exits. -/
theorem exited_served {s : Host} (hs : Settled s) {pid : ℤ} (hm : pid ∈ s.running) :
    Served (s.exited geosvrNetlinkRcvNlEvent pid) ↔ s.peerPid ≠ pid := by
  obtain ⟨⟨howned, horph⟩, hpos⟩ := hs
  have hpid := hpos pid hm
  unfold Served Owned Host.exited geosvrNetlinkRcvNlEvent
  simp only [List.mem_filter, decide_eq_true_eq, and_iff_left horph]
  constructor
  · rintro (h0 | h)
    · omega
    · exact h.2
  · intro hne
    exact howned.imp_right (fun h => ⟨h, hne⟩)

theorem step_served {s s' : Host} {a : Action} (hs : Settled s)
    (h : step geosvrNetlinkRcvNlEvent s a = some s') : Served s' ↔ KeepsPeer s a := by
  cases a with
  | start pid => exact iff_of_true (start_settled hs h).served trivial
  | message skb =>
      cases h
      exact received_served hs skb
  | exit pid =>
      simp only [step] at h
      split_ifs at h with hm
      cases h
      exact exited_served hs hm

theorem step_settled {s s' : Host} {a : Action} (hs : Settled s) (hc : KeepsPeer s a)
    (h : step geosvrNetlinkRcvNlEvent s a = some s') : Settled s' := by
  cases a with
  | start pid => exact start_settled hs h
  | message skb =>
      cases h
      exact received_settled hs hc
  | exit pid =>
      simp only [step] at h
      split_ifs at h with hm
      cases h
      exact ⟨(exited_served hs hm).mpr hc, exited_pos hs pid⟩

/-! ### Runs -/

/-- Every state of a run is served exactly when the peer never exits, and the messages that make
somebody the peer are genuine. -/
theorem served_run_iff {as : List Action} {s : Host}
    (hr : Run (step geosvrNetlinkRcvNlEvent) Free Host.init as s) :
    (∀ bs cs t, as = bs ++ cs → Run (step geosvrNetlinkRcvNlEvent) Free Host.init bs t →
      Served t) ↔
      Run (step geosvrNetlinkRcvNlEvent) KeepsPeer Host.init as s :=
  Run.forall_iff (I := Settled) (fun _ _ _ hs h => step_served hs h)
    (fun _ _ _ hs hc h => step_settled hs hc h) settled_init settled_init.served hr

/-- With the notifier of the CPC module the peer may exit too. -/
theorem cpc_served {as : List Action} {s : Host}
    (hr : Run (step cpcNetlinkRcvNlEvent) OnlyGenuine Host.init as s) : Served s := by
  refine (hr.inv Settled (fun s a s' hs hc h => ?_) settled_init).served
  cases a with
  | start pid => exact start_settled hs h
  | message skb =>
      cases h
      exact received_settled hs hc
  | exit pid =>
      simp only [step] at h
      split_ifs at h with hm
      cases h
      have hpid := hs.pos pid hm
      refine ⟨⟨?_, hs.served.2⟩, exited_pos hs pid⟩
      unfold Owned Host.exited cpcNetlinkRcvNlEvent
      simp only [NETLINK_GEOSVR, NETLINK_CPC, true_and, if_pos (show pid ≠ 0 by omega)]
      split_ifs with hp
      · exact Or.inl rfl
      · refine hs.served.1.imp_right (fun h => List.mem_filter.mpr ⟨h, ?_⟩)
        exact decide_eq_true (fun h => hp h.symm)

/-! ### A restart -/

/-- An answer of the daemon `pid`, which `nl_send` puts into the header. -/
def responseOf (pid : UInt32) : NlSkb where
  len := nlmsghdrSize + nlmsgSize
  nlmsgLen := 64
  nlmsgType := GEOSVR_RSP_DROP.toUInt16
  nlmsgFlags := NLM_F_REQUEST
  nlmsgPid := pid
  capNetAdmin := true
  msg := ⟨GEOSVR_RSP_DROP, 0, 0, 0, 0x0200000a, 0, 0, []⟩

/-- A daemon starts and answers. -/
theorem served_run_iff_sample :
    ∃ s, Run (step geosvrNetlinkRcvNlEvent) Free Host.init
        [.start 100, .message (responseOf 100)] s ∧
      ∀ bs cs t, [.start 100, .message (responseOf 100)] = bs ++ cs →
        Run (step geosvrNetlinkRcvNlEvent) Free Host.init bs t → Served t := by
  have hr : Run (step geosvrNetlinkRcvNlEvent) Free Host.init
      [.start 100, .message (responseOf 100)] _ := run_of_exec _ rfl
  exact ⟨_, hr, (served_run_iff hr).mpr
    (Run.cons trivial rfl (Run.cons (fun _ _ => by decide) rfl (Run.nil _)))⟩

/-- A daemon answers and exits, and its successor is refused. -/
theorem successor_refused :
    ∃ s, Run (step geosvrNetlinkRcvNlEvent) Free Host.init [.start 100,
        .message (responseOf 100), .exit 100, .start 200, .message (responseOf 200)] s ∧
      s.running = [200] ∧ s.peerPid = 100 ∧ s.orphaned = [(200, 100)] ∧ ¬ Served s :=
  ⟨_, run_of_exec _ rfl, by decide, by decide, by decide, by decide⟩

end GeoSvr.Kernel.Takeover
