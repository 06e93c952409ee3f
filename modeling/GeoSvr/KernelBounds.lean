import GeoSvr.Access
import GeoSvr.QueueOrder
import GeoSvr.Takeover

/-! # What the module reads of a netlink message

A message that passes the checks of `geosvr_netlink_rcv_skb` is handed to
`geosvr_netlink_recv_peer`, and from there to the loop over the queue and to
`geosvr_ip_encapsulate`.  The three are written once more here with what they read of the message
(suffix `T`); the message lies at address 0, behind its `nlmsghdr`.

Three lengths are involved: that of the `sk_buff`, `nlmsg_len`, and `route_len`.  The structure is
compared with the first, which may be longer than the message; an `nlmsg_len` from 2^31 on is
negative as an `int` and passes every check; and `route_len` is compared with nothing. -/

namespace GeoSvr.Kernel

open Bytes Access Takeover

/-! ### The message -/

/-- The message behind the header at address 0, with the bytes that `route_len` speaks of. -/
def payload (m : Mem) : NlMsg :=
  NlMsg.load m nlmsghdrSize
    (nlmsghdrSize + routeOffset + (u32 m (nlmsghdrSize + 40)).toNat)

/-- The `sk_buff` of `len` bytes that holds the message. -/
def nlSkb (m : Mem) (len : ℕ) (capNetAdmin : Bool) : NlSkb where
  len := len
  nlmsgLen := u32 m 0
  nlmsgType := u16 m 4
  nlmsgFlags := u16 m 6
  nlmsgPid := u32 m 12
  capNetAdmin := capNetAdmin
  msg := payload m

/-- The length behind `nlmsghdr`, as `geosvr_netlink_rcv_skb` computes it. -/
def payloadLen (skb : NlSkb) : ℕ := skb.len - nlmsghdrSize

/-- The message passes the checks of `geosvr_netlink_rcv_skb`. -/
def Passes (skb : NlSkb) (peerPid : ℤ) : Prop :=
  Authorised skb ∧ (peerPid = 0 ∨ peerPid = asInt skb.nlmsgPid)

instance (skb : NlSkb) (peerPid : ℤ) : Decidable (Passes skb peerPid) :=
  inferInstanceAs (Decidable (_ ∧ _))

/-- The message passes the checks, and `geosvr_netlink_recv_peer` finds it long enough. -/
def Accepted (skb : NlSkb) (peerPid : ℤ) : Prop :=
  Passes skb peerPid ∧ 0 ≤ recvPeerStatus skb.nlmsgType.toNat (payloadLen skb)

/-- Only messages that pass the checks reach `geosvr_netlink_recv_peer`. -/
theorem rcvSkb_response (skb : NlSkb) (peerPid : ℤ) :
    (geosvrNetlinkRcvSkb skb peerPid).response =
      if Passes skb peerPid then
        geosvrNetlinkRecvPeer skb.nlmsgType.toNat (payloadLen skb) skb.msg
      else none := by
  by_cases hpass : Passes skb peerPid
  · obtain ⟨⟨hlen, hnlmsgLen, hpid, hrequest, hmulti, htrunc, hcap⟩, hpeer⟩ := hpass
    have hflags : ¬ (asInt skb.nlmsgPid ≤ 0 ∨ skb.nlmsgFlags &&& NLM_F_REQUEST = 0 ∨
        skb.nlmsgFlags &&& NLM_F_MULTI ≠ 0) := by
      rintro (h | h | h)
      · omega
      · exact hrequest h
      · exact h hmulti
    rw [if_pos ⟨⟨hlen, hnlmsgLen, hpid, hrequest, hmulti, htrunc, hcap⟩, hpeer⟩]
    unfold geosvrNetlinkRcvSkb
    rw [if_neg (by omega), if_neg hnlmsgLen, if_neg hflags, if_neg (fun h => h htrunc),
      if_neg (by simp [hcap]), if_neg (by omega)]
    rfl
  · rw [if_neg hpass]
    unfold geosvrNetlinkRcvSkb
    dsimp only
    split_ifs with h₁ h₂ h₃ h₄ h₅ h₆
    iterate 6 rfl
    all_goals
      simp only [not_or, not_le, ne_eq, not_not] at h₃ h₄
      exact absurd ⟨⟨by omega, h₂, h₃.1, h₃.2.1, h₃.2.2, h₄, by simpa using h₅⟩, by omega⟩ hpass

/-! ### The functions with their reads -/

/-- The loops of `geosvr_queue_send_pkt` and `geosvr_queue_drop_pkt` for `n` iterations; `ks` is
what the kernel decides in them. -/
def releaseLoop (r : Response) : ℕ → (ℕ → Release) → Queue → List Effect × Queue
  | 0, _, q => ([], q)
  | n + 1, ks, q =>
      match findDequeueEntry (destCmp r.dst) q with
      | none => ([], q)
      | some (e, q) =>
          let rest := releaseLoop r n (fun i => ks (i + 1)) q
          (releaseEntry (ks 0) r e ++ rest.1, rest.2)

/-- `geosvr_ip_encapsulate`. -/
def encapsulateT (m : Mem) (k : Release) (skb : SkBuff) : Access.Traced (ℤ × SkBuff) :=
  if skb.shared then
    return (-1, skb)
  else do
    let routeLen ← readU32 m (nlmsghdrSize + 40)
    match skb.cow k.granted ((geosvrHdrSize + routeLen.toNat) % 2 ^ 32) with
    | none => return (-1, skb)
    | some _ => do
        let _ ← readU32 m (nlmsghdrSize + 4)
        let _ ← readU32 m (nlmsghdrSize + 8)
        let res ← readBlock (nlmsghdrSize + routeOffset) routeLen.toNat
          (geosvrIpEncapsulate k.granted k.lookup skb (payload m))
        let _ ← readU32 m (nlmsghdrSize + 12)
        return res

/-- The body of the loop of `geosvr_queue_send_pkt`. -/
def sendEntryT (m : Mem) (k : Release) (e : QueueEntry) : Access.Traced (List Effect) := do
  let routeLen ← readU32 m (nlmsghdrSize + 40)
  if routeLen = 0 then
    let reqType ← readU8 m (nlmsghdrSize + 1)
    if reqType = GEOSVR_NL_MSG_REQ_SEND then
      return [.okfn e.okfn e.skb]
    else
      let _ ← readU32 m (nlmsghdrSize + 12)
      return match geosvrIpForward k.lookup k.ident e.skb (payload m) with
        | (0, skb) => [.nfForward skb]
        | _ => []
  else
    let r ← encapsulateT m k e.skb
    return if r.1 < 0 then [.kfree r.2.kfreeSkb] else [.okfn e.okfn r.2]

/-- `geosvr_queue_send_pkt`, for `n` iterations. -/
def queueSendPktT (m : Mem) : ℕ → (ℕ → Release) → Queue →
    Access.Traced (List Effect × Queue)
  | 0, _, q => return ([], q)
  | n + 1, ks, q => do
      let dst ← readU32 m (nlmsghdrSize + 8)
      match findDequeueEntry (destCmp dst) q with
      | none => return ([], q)
      | some (e, q) => do
          let effects ← sendEntryT m (ks 0) e
          let rest ← queueSendPktT m n (fun i => ks (i + 1)) q
          return (effects ++ rest.1, rest.2)

/-- `geosvr_netlink_recv_peer`; no loop over `q` has more iterations than entries, and the last
one, which finds none. -/
def recvPeerT (m : Mem) (type len : ℕ) (ks : ℕ → Release) (q : Queue) :
    Access.Traced (List Effect × Queue) :=
  if type = GEOSVR_RSP_SEND.toNat then
    if len < nlmsgSize then
      return ([], q)
    else
      queueSendPktT m (q.list.length + 1) ks q
  else if type = GEOSVR_RSP_DROP.toNat then
    if len < nlmsgSize then
      return ([], q)
    else do
      let dst ← readU32 m (nlmsghdrSize + 8)
      return releaseLoop (.dropPkt dst) (q.list.length + 1) ks q
  else
    return ([], q)

/-- `geosvr_netlink_rcv_skb` after its checks. -/
def rcvSkbT (m : Mem) (len : ℕ) (capNetAdmin : Bool) (peerPid : ℤ) (ks : ℕ → Release)
    (q : Queue) : Access.Traced (List Effect × Queue) :=
  if Passes (nlSkb m len capNetAdmin) peerPid then
    recvPeerT m (u16 m 4).toNat (len - nlmsghdrSize) ks q
  else
    return ([], q)

/-! ### They compute what the module computes -/

variable {m : Mem} {k : Release} {n : ℕ}

theorem encapsulateT_val (skb : SkBuff) :
    (encapsulateT m k skb).val = geosvrIpEncapsulate k.granted k.lookup skb (payload m) := by
  have hlen : (payload m).routeLen = u32 m (nlmsghdrSize + 40) := rfl
  unfold encapsulateT
  rw [ite_val, bind_val, readU32_val]
  by_cases hshared : skb.shared
  · rw [if_pos hshared]
    unfold geosvrIpEncapsulate
    rw [if_pos hshared]
    rfl
  · rw [if_neg hshared]
    cases hcow : skb.cow k.granted
        ((geosvrHdrSize + (u32 m (nlmsghdrSize + 40)).toNat) % 2 ^ 32) with
    | none =>
        unfold geosvrIpEncapsulate
        rw [if_neg hshared, hlen]
        simp only [hcow, pure_val]
    | some _ => rfl

theorem sendEntryT_val (e : QueueEntry) : (sendEntryT m k e).val = sendEntry k (payload m) e := by
  unfold sendEntryT sendEntry
  rw [bind_val, ite_val, bind_val, bind_val, ite_val, encapsulateT_val]
  rfl

/-- The loop releases the entries as the loop of the module does. -/
theorem queueSendPktT_val : ∀ (n : ℕ) (ks : ℕ → Release) (q : Queue),
    (queueSendPktT m n ks q).val = releaseLoop (.sendPkt (payload m)) n ks q
  | 0, _, _ => rfl
  | n + 1, ks, q => by
      have hdst : (Response.sendPkt (payload m)).dst = (readU32 m (nlmsghdrSize + 8)).val := rfl
      rw [queueSendPktT, releaseLoop, bind_val, hdst]
      cases hd : findDequeueEntry (destCmp (readU32 m (nlmsghdrSize + 8)).val) q with
      | none => rfl
      | some p =>
          simp only [bind_val, pure_val, sendEntryT_val, queueSendPktT_val n]
          rfl

/-- What is done with a message is what `geosvr_netlink_rcv_skb` hands on. -/
theorem rcvSkbT_val (len : ℕ) (capNetAdmin : Bool) (peerPid : ℤ) (ks : ℕ → Release) (q : Queue) :
    (rcvSkbT m len capNetAdmin peerPid ks q).val =
      match (geosvrNetlinkRcvSkb (nlSkb m len capNetAdmin) peerPid).response with
      | none => ([], q)
      | some r => releaseLoop r (q.list.length + 1) ks q := by
  rw [rcvSkb_response]
  unfold rcvSkbT
  rw [ite_val]
  by_cases hpass : Passes (nlSkb m len capNetAdmin) peerPid
  · have hlen : payloadLen (nlSkb m len capNetAdmin) = len - nlmsghdrSize := rfl
    have htype : (nlSkb m len capNetAdmin).nlmsgType = u16 m 4 := rfl
    rw [if_pos hpass, if_pos hpass, hlen, htype]
    unfold recvPeerT geosvrNetlinkRecvPeer
    rw [ite_val, ite_val, ite_val, ite_val, queueSendPktT_val]
    split_ifs <;> rfl
  · rw [if_neg hpass, if_neg hpass]
    rfl

/-- The loops leave no entry for their destination. -/
theorem releaseLoop_waiting (r : Response) : ∀ (n : ℕ) (ks : ℕ → Release) (q : Queue),
    q.list.length < n → (releaseLoop r n ks q).2.waiting r.dst = []
  | 0, _, q, h => absurd h (Nat.not_lt_zero _)
  | n + 1, ks, q, h => by
      rw [releaseLoop]
      cases hd : findDequeueEntry (destCmp r.dst) q with
      | none => exact waiting_none hd
      | some p =>
          obtain ⟨-, hperm, -, -⟩ := waiting_dequeue hd
          have hlen := hperm.length_eq
          rw [List.length_cons] at hlen
          exact releaseLoop_waiting r n _ p.2 (by omega)

/-! ### Where the reads lie -/

/-- The packet of the entry is encapsulated, as far as the route is copied. -/
def Copies (m : Mem) (k : Release) (e : QueueEntry) : Prop :=
  e.skb.shared = false ∧
    (e.skb.cow k.granted
      ((geosvrHdrSize + (u32 m (nlmsghdrSize + 40)).toNat) % 2 ^ 32)).isSome = true

/-- The fixed part of the message is read inside its first `n` bytes when they reach the route. -/
theorem confined_fixed {i : ℕ} (hn : nlmsghdrSize + routeOffset ≤ n) (hi : i + 4 ≤ routeOffset) :
    Confined 0 n (readU32 m (nlmsghdrSize + i)) := by
  rw [confined_readU32]
  omega

theorem confined_encapsulateT {e : QueueEntry} (hn : nlmsghdrSize + routeOffset ≤ n) :
    Confined 0 n (encapsulateT m k e.skb) ↔ (Copies m k e →
      nlmsghdrSize + routeOffset + (u32 m (nlmsghdrSize + 40)).toNat ≤ n) := by
  unfold encapsulateT Copies
  rw [confined_ite]
  by_cases hshared : e.skb.shared
  · rw [if_pos hshared, confined_pure]
    refine iff_of_true trivial (fun h => ?_)
    rw [hshared] at h
    cases h.1
  · rw [if_neg hshared, confined_bind, and_iff_right (confined_fixed hn (by decide)), readU32_val]
    cases hcow : e.skb.cow k.granted
        ((geosvrHdrSize + (u32 m (nlmsghdrSize + 40)).toNat) % 2 ^ 32) with
    | none => exact iff_of_true ((confined_pure _).mpr trivial) (fun h => by cases h.2)
    | some _ =>
        have hcopied : e.skb.shared = false ∧ (some e.skb).isSome = true :=
          ⟨by simpa using hshared, rfl⟩
        dsimp only
        rw [confined_bind, and_iff_right (confined_fixed hn (by decide)), confined_bind,
          and_iff_right (confined_fixed hn (by decide)), confined_bind, confined_bind,
          and_iff_right (confined_fixed hn (by decide)), confined_pure, and_true,
          confined_readBlock_iff]
        unfold Span.Inside
        dsimp only
        constructor
        · intro h _
          omega
        · intro h
          have hle := h hcopied
          omega

/-- An entry that is released needs the fixed part of the message, and one that is encapsulated the
route. -/
theorem confined_sendEntryT {e : QueueEntry} :
    Confined 0 n (sendEntryT m k e) ↔ nlmsghdrSize + routeOffset ≤ n ∧ (Copies m k e →
      nlmsghdrSize + routeOffset + (u32 m (nlmsghdrSize + 40)).toNat ≤ n) := by
  have hrouteLen : Confined 0 n (readU32 m (nlmsghdrSize + 40)) ↔
      nlmsghdrSize + routeOffset ≤ n := by
    rw [confined_readU32]
    unfold routeOffset
    omega
  unfold sendEntryT
  rw [confined_bind, hrouteLen]
  refine and_congr_right (fun hn => ?_)
  rw [readU32_val, confined_ite]
  by_cases hzero : u32 m (nlmsghdrSize + 40) = 0
  · have hreqType : Confined 0 n (readU8 m (nlmsghdrSize + 1)) := by
      rw [confined_readU8]
      unfold nlmsghdrSize routeOffset at *
      omega
    rw [if_pos hzero, hzero, confined_bind, and_iff_right hreqType, confined_ite]
    refine iff_of_true ?_ (fun _ => hn)
    split_ifs
    · exact (confined_pure _).mpr trivial
    · rw [confined_bind, and_iff_right (confined_fixed hn (by decide))]
      exact (confined_pure _).mpr trivial
  · rw [if_neg hzero, confined_bind, confined_pure, and_true, confined_encapsulateT hn]

/-- The reads of a loop: of the destination, of the fixed part when an entry is waiting, and of the
route when one is encapsulated. -/
theorem confined_queueSendPktT : ∀ (l : ℕ) (ks : ℕ → Release) (q : Queue), q.list.length < l →
    (Confined 0 n (queueSendPktT m l ks q) ↔ nlmsghdrSize + 12 ≤ n ∧
      (q.waiting (u32 m (nlmsghdrSize + 8)) ≠ [] → nlmsghdrSize + routeOffset ≤ n) ∧
      ((∃ i e, (q.waiting (u32 m (nlmsghdrSize + 8)))[i]? = some e ∧ Copies m (ks i) e) →
        nlmsghdrSize + routeOffset + (u32 m (nlmsghdrSize + 40)).toNat ≤ n))
  | 0, _, _, h => absurd h (Nat.not_lt_zero _)
  | l + 1, ks, q, h => by
      have hdst : Confined 0 n (readU32 m (nlmsghdrSize + 8)) ↔ nlmsghdrSize + 12 ≤ n := by
        rw [confined_readU32]
        omega
      rw [queueSendPktT, confined_bind, hdst, readU32_val]
      refine and_congr_right (fun hn => ?_)
      cases hd : findDequeueEntry (destCmp (u32 m (nlmsghdrSize + 8))) q with
      | none =>
          rw [waiting_none hd]
          refine iff_of_true ((confined_pure _).mpr trivial) ⟨fun h => absurd rfl h, ?_⟩
          rintro ⟨i, e, he, -⟩
          cases he
      | some p =>
          obtain ⟨hcmp, hperm, -, hwait⟩ := waiting_dequeue hd
          have hlen := hperm.length_eq
          rw [List.length_cons] at hlen
          have ih := confined_queueSendPktT l (fun i => ks (i + 1)) p.2 (by omega)
          have hw := hwait (u32 m (nlmsghdrSize + 8))
          rw [if_pos hcmp] at hw
          dsimp only
          rw [confined_bind, confined_bind, confined_pure, and_true, confined_sendEntryT, ih, hw]
          constructor
          · rintro ⟨⟨hfixed, hfirst⟩, -, -, hrest⟩
            refine ⟨fun _ => hfixed, ?_⟩
            rintro ⟨i, e, he, hc⟩
            cases i with
            | zero =>
                cases he
                exact hfirst hc
            | succ i => exact hrest ⟨i, e, he, hc⟩
          · rintro ⟨hfixed, hroute⟩
            have hfix := hfixed (List.cons_ne_nil _ _)
            refine ⟨⟨hfix, fun hc => hroute ⟨0, p.1, rfl, hc⟩⟩, hn, fun _ => hfix, ?_⟩
            rintro ⟨i, e, he, hc⟩
            exact hroute ⟨i + 1, e, he, hc⟩

/-! ### The bounds of a message -/

section bounds

variable (m : Mem) (len : ℕ) (capNetAdmin : Bool) (peerPid : ℤ) (ks : ℕ → Release) (q : Queue)

/-- The bytes of the message: `nlmsg_len` of them, as far as there are so many. -/
def messageLen : ℕ := min (u32 m 0).toNat len

/-- What is read of an accepted message lies in it, and any other leaves the queue as it is. -/
def MessageInBounds : Prop :=
  (Accepted (nlSkb m len capNetAdmin) peerPid →
    Confined 0 (messageLen m len) (rcvSkbT m len capNetAdmin peerPid ks q)) ∧
  (¬ Accepted (nlSkb m len capNetAdmin) peerPid →
    (rcvSkbT m len capNetAdmin peerPid ks q).val = ([], q))

/-- The message reaches as far as it is read: to the destination, to the route when an entry is
waiting for it, and to the end of the route when the packet of one is encapsulated. -/
def Covers : Prop :=
  ((u16 m 4).toNat = GEOSVR_RSP_DROP.toNat → nlmsghdrSize + 12 ≤ messageLen m len) ∧
  ((u16 m 4).toNat = GEOSVR_RSP_SEND.toNat → nlmsghdrSize + 12 ≤ messageLen m len ∧
    (q.waiting (u32 m (nlmsghdrSize + 8)) ≠ [] → nlmsghdrSize + routeOffset ≤ messageLen m len) ∧
    ((∃ i e, (q.waiting (u32 m (nlmsghdrSize + 8)))[i]? = some e ∧ Copies m (ks i) e) →
      nlmsghdrSize + routeOffset + (u32 m (nlmsghdrSize + 40)).toNat ≤ messageLen m len))

variable {m len capNetAdmin peerPid ks q}

/-- `geosvr_netlink_recv_peer` finds a message too short or not. -/
theorem recvPeerStatus_nonneg {type l : ℕ} : 0 ≤ recvPeerStatus type l ↔
    (type = GEOSVR_RSP_SEND.toNat ∨ type = GEOSVR_RSP_DROP.toNat → ¬ l < nlmsgSize) := by
  unfold recvPeerStatus EINVAL
  split_ifs with h
  · exact iff_of_false (by omega) (fun hn => hn h.1 h.2)
  · exact iff_of_true le_rfl (fun ht hl => h ⟨ht, hl⟩)

/-- What is read of a message that is not too short. -/
theorem confined_recvPeerT {b : ℕ} (hlen : 0 ≤ recvPeerStatus (u16 m 4).toNat len) :
    Confined 0 b (recvPeerT m (u16 m 4).toNat len ks q) ↔
      ((u16 m 4).toNat = GEOSVR_RSP_DROP.toNat → nlmsghdrSize + 12 ≤ b) ∧
      ((u16 m 4).toNat = GEOSVR_RSP_SEND.toNat → nlmsghdrSize + 12 ≤ b ∧
        (q.waiting (u32 m (nlmsghdrSize + 8)) ≠ [] → nlmsghdrSize + routeOffset ≤ b) ∧
        ((∃ i e, (q.waiting (u32 m (nlmsghdrSize + 8)))[i]? = some e ∧ Copies m (ks i) e) →
          nlmsghdrSize + routeOffset + (u32 m (nlmsghdrSize + 40)).toNat ≤ b)) := by
  have hlong := recvPeerStatus_nonneg.mp hlen
  unfold recvPeerT
  rw [confined_ite]
  by_cases hsend : (u16 m 4).toNat = GEOSVR_RSP_SEND.toNat
  · have hdrop : (u16 m 4).toNat ≠ GEOSVR_RSP_DROP.toNat := by
      rw [hsend]
      decide
    rw [if_pos hsend, if_neg (hlong (Or.inl hsend)),
      confined_queueSendPktT _ _ _ (Nat.lt_succ_self _)]
    exact ⟨fun h => ⟨fun hd => absurd hd hdrop, fun _ => h⟩, fun h => h.2 hsend⟩
  · rw [if_neg hsend, confined_ite]
    by_cases hdrop : (u16 m 4).toNat = GEOSVR_RSP_DROP.toNat
    · rw [if_pos hdrop, if_neg (hlong (Or.inr hdrop)), confined_bind, confined_pure, and_true,
        confined_readU32]
      constructor
      · intro h
        exact ⟨fun _ => by omega, fun hs => absurd hs hsend⟩
      · intro h
        have hle := h.1 hdrop
        omega
    · rw [if_neg hdrop, confined_pure]
      exact iff_of_true trivial ⟨fun hd => absurd hd hdrop, fun hs => absurd hs hsend⟩

/-- A message that is refused leaves the queue as it is. -/
theorem rcvSkbT_refused (h : ¬ Accepted (nlSkb m len capNetAdmin) peerPid) :
    (rcvSkbT m len capNetAdmin peerPid ks q).val = ([], q) := by
  unfold rcvSkbT
  split_ifs with hpass
  · have hshort : ¬ 0 ≤ recvPeerStatus (u16 m 4).toNat (len - nlmsghdrSize) :=
      fun hs => h ⟨hpass, hs⟩
    rw [recvPeerStatus_nonneg] at hshort
    have hlen : len - nlmsghdrSize < nlmsgSize := by
      by_contra hlong
      exact hshort (fun _ => hlong)
    unfold recvPeerT
    rw [if_pos hlen, if_pos hlen]
    split_ifs <;> rfl
  · rfl

/-- **The bounds of a netlink message.**  What is read of a message lies in it exactly when it is
refused or reaches far enough. -/
theorem messageInBounds_iff (m : Mem) (len : ℕ) (capNetAdmin : Bool) (peerPid : ℤ)
    (ks : ℕ → Release) (q : Queue) :
    MessageInBounds m len capNetAdmin peerPid ks q ↔
      (Accepted (nlSkb m len capNetAdmin) peerPid → Covers m len ks q) := by
  unfold MessageInBounds
  rw [and_iff_left rcvSkbT_refused]
  refine forall_congr' (fun hacc => ?_)
  unfold rcvSkbT
  rw [if_pos hacc.1]
  exact confined_recvPeerT hacc.2

end bounds

/-! ### A route that is longer than its message -/

/-- A response of 64 bytes for the destination of the sample packet, with a `route_len` of 5. -/
def shortResponse : Mem := write (fun _ => 0) 0
  ([64, 0, 0, 0, 103, 0, 1, 0, 0, 0, 0, 0, 9, 0, 0, 0] ++
    [103, 1, 0, 0, 10, 0, 0, 1, 10, 0, 0, 2, 10, 0, 0, 3] ++ List.replicate 24 0 ++
      [5, 0, 0, 0, 49, 50, 44, 49])

/-- It is accepted, and the byte behind it is copied into the packet. -/
theorem not_inBounds_shortResponse :
    ¬ MessageInBounds shortResponse 64 true 0 (fun _ => ⟨true, fun _ => some 1, 0⟩)
      ⟨[⟨sampleSkb, 2⟩], 1⟩ := by
  intro h
  have hacc : Accepted (nlSkb shortResponse 64 true) 0 :=
    ⟨⟨by decide, Or.inl rfl⟩, by decide⟩
  have hin := h.1 hacc
  have hlong : 0 ≤ recvPeerStatus (u16 shortResponse 4).toNat (64 - nlmsghdrSize) := hacc.2
  unfold rcvSkbT at hin
  rw [if_pos hacc.1, confined_recvPeerT hlong] at hin
  have hroute := (hin.2 (by decide)).2.2 ⟨0, ⟨sampleSkb, 2⟩, rfl, by decide, by decide⟩
  exact absurd hroute (by decide)

end GeoSvr.Kernel
