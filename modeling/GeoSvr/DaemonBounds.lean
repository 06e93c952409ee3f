import GeoSvr.Access
import GeoSvr.Routing

/-! # The receive buffer of the daemon (`nl_recv_msg`)

`nl_recv_msg` reads a datagram into a buffer of 256 bytes on the stack and hands the message in it
to the handlers.  They are written once more here with what they read of the message (suffix `T`);
`handleReqRouteNormalT_val` says that they answer as `handleReqRouteNormal` does.  Behind the buffer
the stack goes on for `k` bytes with arbitrary contents.

Nothing bounds what is read.  A longer datagram is cut off and treated like any other; `extract_ofr`
reads the text of the route up to its NUL byte, wherever it is; and `drop_msg` sends as many bytes
as `route_len` says, a field that another host has written. -/

namespace GeoSvr.Daemon

open MapManager (Route)
open Access Bytes Text

/-! ### The handlers with their reads -/

section handlers

variable {R : Type*} [Scalar R]

/-- The request at `a`, where `n` bytes are accessible from its route on. -/
def requestAt (m : Mem) (a n : ℕ) : NlMsg := NlMsg.load m a (a + routeOffset + n)

/-- The handler of a forward request comes to `extract_ofr`. -/
def RoutingManager.Extracts (mgr : RoutingManager R) (dst : UInt32) : Prop :=
  dst ≠ mgr.localAddr ∧ dstIsDirect mgr.node dst = false ∧
    (getNeighbor mgr.node dst).isSome = true

instance (mgr : RoutingManager R) (dst : UInt32) : Decidable (mgr.Extracts dst) :=
  inferInstanceAs (Decidable (_ ∧ _))

variable (mgr : RoutingManager R) (optimalRoute : Neighbor R → Option (List Route)) (heap : NlMsg)
  (m : Mem) (a n : ℕ)

/-- `extract_ofr`. -/
def extractOfrT : Traced (Option (List Route)) := do
  let text ← readString m n (a + routeOffset)
  return (items ',' [] (toChars text)).bind (extractItems mgr.map none)

/-- `drop_msg`; `nl_send_msg` copies what is sent. -/
def dropMsgT (error : String) : Traced (Option Outcome) := do
  let routeLen ← readU32 m (a + 40)
  let _ ← readU8 m a
  let out ← readBlock a (nlmsgSize + routeLen.toNat) (dropMsg (requestAt m a n) error)
  let _ ← readU32 m (a + 8)
  return out

/-- What a handler does after its tests. -/
def Decision.handleT (reqType : UInt8) (routeLen : List Route → ℕ) :
    Decision → Traced (Option Outcome)
  | .withoutHandle => do
      let _ ← readU32 m (a + 8)
      return some (sendMsgWithoutHandle heap (requestAt m a n) reqType)
  | .drop error => dropMsgT m a n error
  | .forward ofr nhop => do
      let _ ← readU32 m (a + 4)
      let _ ← readU32 m (a + 8)
      return sendRoute (requestAt m a n) reqType nhop (routeLen ofr) (ofrTostring ofr)

/-- The end of both handlers, unless the tests left the language. -/
def handleT (reqType : UInt8) (routeLen : List Route → ℕ) :
    Option Decision → Traced (Option Outcome)
  | none => return none
  | some d => d.handleT heap m a n reqType routeLen

/-- `handle_req_route_send_normal`. -/
def handleReqRouteSendNormalT : Traced (Option Outcome) := do
  let _ ← readU32 m (a + 4)
  let dst ← readU32 m (a + 8)
  handleT heap m a n GEOSVR_NL_MSG_REQ_SEND (fun ofr => (ofrTostring ofr).length)
    (mgr.decision (requestAt m a n) (mgr.routeTo optimalRoute dst))

/-- `handle_req_route_forward_normal`. -/
def handleReqRouteForwardNormalT : Traced (Option Outcome) := do
  let dst ← readU32 m (a + 8)
  if mgr.Extracts dst then
    let ofr ← extractOfrT mgr m a n
    handleT heap m a n GEOSVR_NL_MSG_REQ_FORWARD List.length (mgr.decision (requestAt m a n) ofr)
  else
    handleT heap m a n GEOSVR_NL_MSG_REQ_FORWARD List.length (mgr.decision (requestAt m a n) none)

/-- `handle_req_route_normal`. -/
def handleReqRouteNormalT : Traced (Option Outcome) := do
  let reqType ← readU8 m (a + 1)
  if reqType = GEOSVR_NL_MSG_TYPE_SEND then
    handleReqRouteSendNormalT mgr optimalRoute heap m a n
  else if reqType = GEOSVR_NL_MSG_TYPE_FORWARD then
    handleReqRouteForwardNormalT mgr heap m a n
  else
    dropMsgT m a n "recv an unknown route request msg"

/-! ### They compute what the handlers compute -/

variable {mgr optimalRoute heap m a n}

/-- Only the destination of a request is tested. -/
theorem decision_congr {msg msg' : NlMsg} (h : msg.dst = msg'.dst) (ofr : Option (List Route)) :
    mgr.decision msg ofr = mgr.decision msg' ofr := by
  unfold RoutingManager.decision
  rw [h]

/-- Without extraction the roads do not matter. -/
theorem decision_of_not_extracts {msg : NlMsg} (h : ¬ mgr.Extracts msg.dst)
    (ofr ofr' : Option (List Route)) : mgr.decision msg ofr = mgr.decision msg ofr' := by
  unfold RoutingManager.decision forwardDecision
  unfold RoutingManager.Extracts at h
  split_ifs with hlocal hdirect
  · rfl
  · rfl
  · cases hget : getNeighbor mgr.node msg.dst with
    | none => rfl
    | some nei =>
        refine absurd ⟨hlocal, by simpa using hdirect, ?_⟩ h
        rw [hget]
        rfl

/-- A byte is the end of a string when it is zero. -/
theorem toChar_eq_nul_iff {x : UInt8} : Char.ofNat x.toNat = nul ↔ x = 0 := by
  constructor
  · intro h
    have hx := x.toNat_lt
    have hvalid : x.toNat.isValidChar := Or.inl (by omega)
    have hval : (Char.ofNat x.toNat).toNat = x.toNat := by
      rw [Char.ofNat, dif_pos hvalid]
      rfl
    rw [h] at hval
    exact UInt8.toNat_inj.mp hval.symm
  · rintro rfl
    rfl

theorem nul_mem_toChars_iff {b : List UInt8} : nul ∈ toChars b ↔ 0 ∈ b := by
  unfold toChars
  rw [List.mem_map]
  constructor
  · rintro ⟨x, hx, hc⟩
    rwa [← toChar_eq_nul_iff.mp hc]
  · exact fun h => ⟨0, h, rfl⟩

/-- The items of the string read are those of the accessible bytes. -/
theorem items_readString (m : Mem) : ∀ (n a : ℕ) (cur : List Char),
    items ',' cur (toChars (readString m n a).val) = items ',' cur (toChars (bytes m a n))
  | 0, _, _ => rfl
  | n + 1, a, cur => by
      have hval : (readString m (n + 1) a).val =
          if m a = 0 then [m a] else m a :: (readString m n (a + 1)).val := by
        rw [readString, bind_val, ite_val]
        rfl
      rw [hval, bytes_succ]
      by_cases hz : m a = 0
      · rw [if_pos hz, hz]
        rfl
      · have hc : Char.ofNat (m a).toNat ≠ nul := mt toChar_eq_nul_iff.mp hz
        rw [if_neg hz]
        simp only [toChars, List.map_cons, items, if_neg hc]
        have ih := items_readString m n (a + 1)
        simp only [toChars] at ih
        rw [ih, ih]

@[simp] theorem requestAt_dst : (requestAt m a n).dst = u32 m (a + 8) := rfl
@[simp] theorem requestAt_routeLen : (requestAt m a n).routeLen = u32 m (a + 40) := rfl
@[simp] theorem requestAt_reqType : (requestAt m a n).reqType = m (a + 1) := rfl
@[simp] theorem requestAt_priority : (requestAt m a n).priority = m a := rfl

theorem requestAt_route : (requestAt m a n).route = bytes m (a + routeOffset) n := by
  unfold requestAt NlMsg.load
  rw [Nat.add_sub_cancel_left]

omit [Scalar R] in
theorem extractOfrT_val :
    (extractOfrT mgr m a n).val = extractOfr mgr.map (requestAt m a n) := by
  unfold extractOfrT extractOfr
  rw [bind_val, pure_val, items_readString, requestAt_route]

theorem handleT_val {reqType : UInt8} {routeLen : List Route → ℕ} {d : Option Decision} :
    (handleT heap m a n reqType routeLen d).val =
      d.bind (Decision.handle heap (requestAt m a n) reqType routeLen) := by
  cases d with
  | none => rfl
  | some d => cases d <;> rfl

/-- The handlers answer as before. -/
theorem handleReqRouteNormalT_val :
    (handleReqRouteNormalT mgr optimalRoute heap m a n).val =
      mgr.handleReqRouteNormal optimalRoute heap (requestAt m a n) := by
  unfold handleReqRouteNormalT RoutingManager.handleReqRouteNormal
  rw [bind_val, ite_val, ite_val]
  have hreq : (readU8 m (a + 1)).val = (requestAt m a n).reqType := rfl
  have hdst : (readU32 m (a + 8)).val = (requestAt m a n).dst := rfl
  rw [hreq]
  split_ifs
  · exact handleT_val
  · unfold handleReqRouteForwardNormalT RoutingManager.handleReqRouteForwardNormal
    rw [bind_val, ite_val, hdst, bind_val, extractOfrT_val, handleT_val, handleT_val]
    split_ifs with hext
    · rfl
    · rw [decision_of_not_extracts hext none (extractOfr mgr.map (requestAt m a n))]
  · rfl

end handlers

/-! ### Receiving -/

/-- `NLMSG_ERROR`. -/
def NLMSG_ERROR : UInt16 := 2

/-- What `nl_recv_msg` comes to. -/
inductive Received
  /-- nothing is done -/
  | ignored
  /-- an acknowledgement -/
  | ack
  /-- the warning for `nlmsgerr` -/
  | error (error : UInt32) (type : UInt16)
  /-- `req_route_normal_cb_` has been called -/
  | request (out : Option Outcome)

/-- `recvfrom` into the zeroed buffer at `buf`: of the datagram, what fits. -/
def recvfrom (m : Mem) (buf : ℕ) (datagram : List UInt8) : Mem :=
  write m buf (datagram.takeD recvBuflen 0)

section receiving

variable {R : Type*} [Scalar R] (mgr : RoutingManager R)
  (optimalRoute : Neighbor R → Option (List Route)) (heap : NlMsg)

/-- `req_route_cb`. -/
def reqRouteCbT (m : Mem) (a n : ℕ) : Traced (Option Outcome) := do
  let priority ← readU8 m a
  if priority = GEOSVR_PRI_URGENT ∨ priority = GEOSVR_PRI_NORMAL then
    handleReqRouteNormalT mgr optimalRoute heap m a n
  else
    return some ⟨[], []⟩

/-- The switch of `nl_recv_msg`, for the buffer at `buf` and `k` accessible bytes behind it. -/
def nlRecvBufT (m : Mem) (buf k : ℕ) : Traced Received := do
  let type ← readU16 m (buf + 4)
  if type = NLMSG_ERROR then
    let error ← readU32 m (buf + nlmsghdrSize)
    if error = 0 then
      return .ack
    else
      let type ← readU16 m (buf + nlmsghdrSize + 8)
      return .error error type
  else if type = GEOSVR_PRI_URGENT.toUInt16 ∨ type = GEOSVR_PRI_NORMAL.toUInt16 then
    let _ ← readU32 m (buf + nlmsghdrSize + 4)
    let _ ← readU32 m (buf + nlmsghdrSize + 8)
    let _ ← readU8 m (buf + nlmsghdrSize)
    let _ ← readU8 m (buf + nlmsghdrSize + 1)
    let out ← reqRouteCbT mgr optimalRoute heap m (buf + nlmsghdrSize)
      (recvBuflen - nlmsghdrSize - routeOffset + k)
    return .request out
  else
    return .ignored

/-- `nl_recv_msg`, with the buffer at `buf` of a stack that holds `m`. -/
def nlRecvMsgT (m : Mem) (buf k : ℕ) (datagram : List UInt8) : Traced Received :=
  if datagram = [] then
    return .ignored
  else
    nlRecvBufT mgr optimalRoute heap (recvfrom m buf datagram) buf k

end receiving

/-- The type of a datagram, in the buffer. -/
def datagramType (datagram : List UInt8) : UInt16 := u16 (recvfrom (fun _ => 0) 0 datagram) 4

/-- The request of a datagram, as far as it is in the buffer. -/
def datagramMsg (datagram : List UInt8) : NlMsg :=
  NlMsg.load (recvfrom (fun _ => 0) 0 datagram) nlmsghdrSize recvBuflen

theorem recvfrom_inside {m m' : Mem} {buf buf' i : ℕ} {datagram : List UInt8}
    (hi : i < recvBuflen) : recvfrom m buf datagram (buf + i) =
      recvfrom m' buf' datagram (buf' + i) := by
  have hlen : i < (datagram.takeD recvBuflen 0).length := by
    rw [List.takeD_length]
    exact hi
  unfold recvfrom
  rw [write_inside m hlen, write_inside m' hlen]

/-- The type that is read. -/
theorem readU16_type (m : Mem) (buf : ℕ) (datagram : List UInt8) :
    (readU16 (recvfrom m buf datagram) (buf + 4)).val = datagramType datagram := by
  show u16 _ _ = u16 _ _
  apply u16_congr
  intro i hi
  have hlen : 4 + i < recvBuflen := by
    unfold recvBuflen
    omega
  have h := @recvfrom_inside m (fun _ => 0) buf 0 _ datagram hlen
  rwa [← Nat.add_assoc, ← Nat.add_assoc] at h

/-- The request in the buffer. -/
theorem requestAt_datagram (m : Mem) (buf : ℕ) (datagram : List UInt8) :
    requestAt (recvfrom m buf datagram) (buf + nlmsghdrSize)
      (recvBuflen - nlmsghdrSize - routeOffset) = datagramMsg datagram := by
  unfold requestAt datagramMsg
  apply NlMsg.load_congr
  · unfold nlmsghdrSize recvBuflen nlmsgSize routeOffset
    omega
  · unfold nlmsghdrSize recvBuflen routeOffset
    omega
  · intro i hi
    have hlen : nlmsghdrSize + i < recvBuflen := by
      unfold nlmsghdrSize recvBuflen routeOffset at *
      omega
    have h := @recvfrom_inside m (fun _ => 0) buf 0 _ datagram hlen
    rwa [← Nat.add_assoc, Nat.zero_add] at h

/-! ### What is read of a request -/

section request

variable {R : Type*} [Scalar R]

/-- The request is answered by `drop_msg`. -/
def RoutingManager.Drops (mgr : RoutingManager R)
    (optimalRoute : Neighbor R → Option (List Route)) (msg : NlMsg) : Prop :=
  (msg.reqType ≠ GEOSVR_NL_MSG_TYPE_SEND ∧ msg.reqType ≠ GEOSVR_NL_MSG_TYPE_FORWARD) ∨
    ∃ error, mgr.decision msg (mgr.routeUsed optimalRoute msg) = some (.drop error)

/-- A request in the buffer that is handled inside it: a route that is extracted ends there, and a
request that is dropped ends there with the `route_len` bytes behind the structure. -/
def RoutingManager.Fits (mgr : RoutingManager R)
    (optimalRoute : Neighbor R → Option (List Route)) (msg : NlMsg) : Prop :=
  (msg.reqType = GEOSVR_NL_MSG_TYPE_FORWARD → mgr.Extracts msg.dst → 0 ∈ msg.route) ∧
    (mgr.Drops optimalRoute msg → nlmsghdrSize + nlmsgSize + msg.routeLen.toNat ≤ recvBuflen)

variable {mgr : RoutingManager R} {optimalRoute : Neighbor R → Option (List Route)} {heap : NlMsg}
  {m : Mem} {buf k n : ℕ}

/-- The fields of a request lie in the buffer. -/
theorem confined_field {i : ℕ} (hi : i + 4 ≤ nlmsgSize) :
    Confined buf recvBuflen (readU32 m (buf + nlmsghdrSize + i)) := by
  rw [confined_readU32]
  unfold nlmsghdrSize recvBuflen nlmsgSize at *
  omega

theorem confined_byte {i : ℕ} (hi : i < nlmsgSize) :
    Confined buf recvBuflen (readU8 m (buf + nlmsghdrSize + i)) := by
  rw [confined_readU8]
  unfold nlmsghdrSize recvBuflen nlmsgSize at *
  omega

theorem confined_dropMsgT {error : String} :
    Confined buf recvBuflen (dropMsgT m (buf + nlmsghdrSize) n error) ↔
      nlmsghdrSize + nlmsgSize + (requestAt m (buf + nlmsghdrSize) n).routeLen.toNat ≤
        recvBuflen := by
  have hlen : (requestAt m (buf + nlmsghdrSize) n).routeLen =
      (readU32 m (buf + nlmsghdrSize + 40)).val := rfl
  have hpriority : Confined buf recvBuflen (readU8 m (buf + nlmsghdrSize)) :=
    confined_byte (i := 0) (by decide)
  unfold dropMsgT
  rw [confined_bind, confined_bind, confined_bind, confined_bind, confined_pure, hlen]
  have hrouteLen := @confined_field m buf 40 (by decide)
  have hdst := @confined_field m buf 8 (by decide)
  rw [confined_readBlock (by unfold nlmsgSize; omega)]
  simp only [hrouteLen, hpriority, hdst, true_and, and_true]
  omega

/-- Of a decision, only the drop can leave the buffer. -/
theorem confined_handleT {reqType : UInt8} {routeLen : List Route → ℕ} {d : Option Decision} :
    Confined buf recvBuflen (handleT heap m (buf + nlmsghdrSize) n reqType routeLen d) ↔
      ((∃ error, d = some (.drop error)) → nlmsghdrSize + nlmsgSize +
        (requestAt m (buf + nlmsghdrSize) n).routeLen.toNat ≤ recvBuflen) := by
  have hsrc := @confined_field m buf 4 (by decide)
  have hdst := @confined_field m buf 8 (by decide)
  cases d with
  | none => simp [handleT]
  | some d =>
      cases d with
      | withoutHandle => simp [handleT, Decision.handleT, hdst]
      | drop error => simp [handleT, Decision.handleT, confined_dropMsgT]
      | forward ofr nhop => simp [handleT, Decision.handleT, hsrc, hdst]

/-- The accessible bytes start with those in the buffer. -/
theorem route_append (m : Mem) (a n k : ℕ) : (requestAt m a (n + k)).route =
    (requestAt m a n).route ++ bytes m (a + routeOffset + n) k := by
  rw [requestAt_route, requestAt_route, bytes, bytes, bytes, List.range_add, List.map_append,
    List.map_map]
  refine congrArg (_ ++ ·) (List.map_congr_left (fun i _ => ?_))
  show m (a + routeOffset + (n + i)) = m (a + routeOffset + n + i)
  rw [Nat.add_assoc (a + routeOffset)]

omit [Scalar R] in
/-- A route that ends in the buffer is extracted from it alone. -/
theorem extractOfr_append {map : MapManager.Map R n} {a l : ℕ} (h : 0 ∈ (requestAt m a l).route) :
    extractOfr map (requestAt m a (l + k)) = extractOfr map (requestAt m a l) := by
  unfold extractOfr
  have happend : toChars (requestAt m a (l + k)).route = toChars (requestAt m a l).route ++
      toChars (bytes m (a + routeOffset + l) k) := by
    rw [route_append]
    exact List.map_append
  rw [happend, items_append_of_nul (nul_mem_toChars_iff.mpr h)]

omit [Scalar R] in
theorem confined_extractOfrT {l : ℕ} (hl : l = recvBuflen - nlmsghdrSize - routeOffset) :
    Confined buf recvBuflen (extractOfrT mgr m (buf + nlmsghdrSize) (l + k)) ↔
      0 ∈ (requestAt m (buf + nlmsghdrSize) l).route := by
  unfold nlmsghdrSize recvBuflen routeOffset at hl
  unfold extractOfrT
  rw [confined_bind, requestAt_route]
  simp only [confined_pure, and_true]
  apply confined_readString
  · omega
  · unfold nlmsghdrSize recvBuflen routeOffset
    omega
  · omega

/-- The handler of a request of the host itself. -/
theorem confined_handleReqRouteSendNormalT :
    Confined buf recvBuflen (handleReqRouteSendNormalT mgr optimalRoute heap m
      (buf + nlmsghdrSize) n) ↔
    ((∃ error, mgr.decision (requestAt m (buf + nlmsghdrSize) n) (mgr.routeTo optimalRoute
        (requestAt m (buf + nlmsghdrSize) n).dst) = some (.drop error)) →
      nlmsghdrSize + nlmsgSize + (requestAt m (buf + nlmsghdrSize) n).routeLen.toNat ≤
        recvBuflen) := by
  unfold handleReqRouteSendNormalT
  rw [confined_bind, confined_bind, confined_handleT]
  have hsrc := @confined_field m buf 4 (by decide)
  have hdst := @confined_field m buf 8 (by decide)
  simp only [hsrc, hdst, true_and]
  rfl

/-- The handler of a forward request, where `l` bytes of the route are in the buffer. -/
theorem confined_handleReqRouteForwardNormalT {l : ℕ}
    (hl : l = recvBuflen - nlmsghdrSize - routeOffset) :
    Confined buf recvBuflen (handleReqRouteForwardNormalT mgr heap m (buf + nlmsghdrSize)
      (l + k)) ↔
    (mgr.Extracts (requestAt m (buf + nlmsghdrSize) l).dst →
      0 ∈ (requestAt m (buf + nlmsghdrSize) l).route) ∧
    ((∃ error, mgr.decision (requestAt m (buf + nlmsghdrSize) l)
        (extractOfr mgr.map (requestAt m (buf + nlmsghdrSize) l)) = some (.drop error)) →
      nlmsghdrSize + nlmsgSize + (requestAt m (buf + nlmsghdrSize) l).routeLen.toNat ≤
        recvBuflen) := by
  have hdst := @confined_field m buf 8 (by decide)
  have hdec : ∀ ofr, mgr.decision (requestAt m (buf + nlmsghdrSize) (l + k)) ofr =
      mgr.decision (requestAt m (buf + nlmsghdrSize) l) ofr :=
    decision_congr (by rw [requestAt_dst, requestAt_dst])
  unfold handleReqRouteForwardNormalT
  rw [confined_bind, and_iff_right hdst, confined_ite, readU32_val, requestAt_dst]
  by_cases hext : mgr.Extracts (u32 m (buf + nlmsghdrSize + 8))
  · rw [if_pos hext, confined_bind, confined_handleT, extractOfrT_val, hdec, requestAt_routeLen]
    simp only [hext, true_imp_iff]
    rw [confined_extractOfrT hl]
    refine and_congr_right (fun hnul => ?_)
    rw [extractOfr_append hnul, requestAt_routeLen]
  · rw [if_neg hext, confined_handleT, hdec, requestAt_routeLen, requestAt_routeLen,
      @decision_of_not_extracts _ _ _ (requestAt m (buf + nlmsghdrSize) l) hext none
        (extractOfr mgr.map (requestAt m (buf + nlmsghdrSize) l))]
    simp only [hext, false_imp_iff, true_and]

/-- The handlers stay inside the buffer for the requests that fit. -/
theorem confined_handleReqRouteNormalT {l : ℕ}
    (hl : l = recvBuflen - nlmsghdrSize - routeOffset) :
    Confined buf recvBuflen (handleReqRouteNormalT mgr optimalRoute heap m (buf + nlmsghdrSize)
      (l + k)) ↔ mgr.Fits optimalRoute (requestAt m (buf + nlmsghdrSize) l) := by
  have hread : Confined buf recvBuflen (readU8 m (buf + nlmsghdrSize + 1)) :=
    confined_byte (by decide)
  have hdst : (requestAt m (buf + nlmsghdrSize) (l + k)).dst =
      (requestAt m (buf + nlmsghdrSize) l).dst := by rw [requestAt_dst, requestAt_dst]
  have hlen : (requestAt m (buf + nlmsghdrSize) (l + k)).routeLen =
      (requestAt m (buf + nlmsghdrSize) l).routeLen := by
    rw [requestAt_routeLen, requestAt_routeLen]
  unfold handleReqRouteNormalT RoutingManager.Fits RoutingManager.Drops RoutingManager.routeUsed
  rw [confined_bind, and_iff_right hread, readU8_val, confined_ite, confined_ite,
    requestAt_reqType]
  by_cases hsend : m (buf + nlmsghdrSize + 1) = GEOSVR_NL_MSG_TYPE_SEND
  · have hforward : m (buf + nlmsghdrSize + 1) ≠ GEOSVR_NL_MSG_TYPE_FORWARD := by
      rw [hsend]
      decide
    rw [if_pos hsend, if_pos hsend, confined_handleReqRouteSendNormalT, decision_congr hdst, hdst,
      hlen]
    constructor
    · intro h
      refine ⟨fun he => absurd he hforward, fun hdrop => h ?_⟩
      exact hdrop.resolve_left (fun hne => hne.1 hsend)
    · exact fun h hdrop => h.2 (Or.inr hdrop)
  · rw [if_neg hsend, if_neg hsend]
    by_cases hforward : m (buf + nlmsghdrSize + 1) = GEOSVR_NL_MSG_TYPE_FORWARD
    · rw [if_pos hforward, confined_handleReqRouteForwardNormalT hl]
      simp only [hforward, ne_eq, not_true_eq_false, and_false, false_or, true_imp_iff]
    · rw [if_neg hforward, confined_dropMsgT, hlen]
      simp only [hsend, hforward, ne_eq, not_false_eq_true, and_self, true_or, true_imp_iff,
        false_imp_iff, true_and]

end request

/-! ### The bounds of the receive buffer -/

section bounds

variable {R : Type*} [Scalar R] (mgr : RoutingManager R)
  (optimalRoute : Neighbor R → Option (List Route)) (heap : NlMsg)

/-- Something is done for the datagram. -/
def Received.Handled : Received → Prop
  | .ignored => False
  | _ => True

/-- The datagram is received inside the buffer, and one that does not fit into it is ignored. -/
def InBounds (m : Mem) (buf k : ℕ) (datagram : List UInt8) : Prop :=
  Confined buf recvBuflen (nlRecvMsgT mgr optimalRoute heap m buf k datagram) ∧
    (recvBuflen < datagram.length →
      ¬ (nlRecvMsgT mgr optimalRoute heap m buf k datagram).val.Handled)

/-- The type is one that `nl_recv_msg` does not know. -/
def UnknownType (type : UInt16) : Prop :=
  type ≠ NLMSG_ERROR ∧ type ≠ GEOSVR_PRI_URGENT.toUInt16 ∧ type ≠ GEOSVR_PRI_NORMAL.toUInt16

/-- The request is one that `req_route_cb` passes on. -/
def Urgent (msg : NlMsg) : Prop :=
  msg.priority = GEOSVR_PRI_URGENT ∨ msg.priority = GEOSVR_PRI_NORMAL

/-- The datagrams that are received as they should be. -/
def WellReceived (datagram : List UInt8) : Prop :=
  datagram = [] ∨ UnknownType (datagramType datagram) ∨
    datagram.length ≤ recvBuflen ∧
      (datagramType datagram ≠ NLMSG_ERROR → Urgent (datagramMsg datagram) →
        mgr.Fits optimalRoute (datagramMsg datagram))

variable {mgr optimalRoute heap} {m : Mem} {buf k : ℕ} {datagram : List UInt8}

theorem confined_reqRouteCbT {l : ℕ} (hl : l = recvBuflen - nlmsghdrSize - routeOffset) :
    Confined buf recvBuflen (reqRouteCbT mgr optimalRoute heap m (buf + nlmsghdrSize) (l + k)) ↔
      (Urgent (requestAt m (buf + nlmsghdrSize) l) →
        mgr.Fits optimalRoute (requestAt m (buf + nlmsghdrSize) l)) := by
  have hread : Confined buf recvBuflen (readU8 m (buf + nlmsghdrSize)) :=
    confined_byte (i := 0) (by decide)
  unfold reqRouteCbT Urgent
  rw [confined_bind, and_iff_right hread, confined_ite, confined_handleReqRouteNormalT hl,
    readU8_val, requestAt_priority, confined_pure]
  split_ifs with hpri
  · exact ⟨fun h _ => h, fun h => h hpri⟩
  · exact iff_of_true trivial (fun h => absurd h hpri)

/-- The switch reads inside the buffer, apart from the handlers. -/
theorem confined_nlRecvBufT {l : ℕ} (hl : l = recvBuflen - nlmsghdrSize - routeOffset) :
    Confined buf recvBuflen (nlRecvBufT mgr optimalRoute heap m buf k) ↔
      UnknownType (u16 m (buf + 4)) ∨ (u16 m (buf + 4) ≠ NLMSG_ERROR →
        Urgent (requestAt m (buf + nlmsghdrSize) l) →
          mgr.Fits optimalRoute (requestAt m (buf + nlmsghdrSize) l)) := by
  have hhalf : ∀ i, i < nlmsghdrSize + nlmsgSize →
      Confined buf recvBuflen (readU16 m (buf + i)) := by
    intro i hi
    rw [confined_readU16]
    unfold nlmsghdrSize recvBuflen nlmsgSize at *
    omega
  have herror : Confined buf recvBuflen (readU32 m (buf + nlmsghdrSize)) :=
    confined_field (i := 0) (by decide)
  unfold nlRecvBufT UnknownType
  rw [confined_bind, and_iff_right (hhalf 4 (by decide)), readU16_val, confined_ite]
  by_cases htype : u16 m (buf + 4) = NLMSG_ERROR
  · rw [if_pos htype, confined_bind, and_iff_right herror, confined_ite]
    refine iff_of_true ?_ (Or.inr (fun h => absurd htype h))
    split_ifs
    · exact (confined_pure _).mpr trivial
    · rw [confined_bind, confined_pure, and_true]
      exact hhalf (nlmsghdrSize + 8) (by decide)
  · rw [if_neg htype, confined_ite]
    split_ifs with hreq
    · have hsrc := @confined_field m buf 4 (by decide)
      have hdst := @confined_field m buf 8 (by decide)
      have hpri : Confined buf recvBuflen (readU8 m (buf + nlmsghdrSize)) :=
        confined_byte (i := 0) (by decide)
      have hreqType := @confined_byte m buf 1 (by decide)
      rw [confined_bind, and_iff_right hsrc, confined_bind, and_iff_right hdst, confined_bind,
        and_iff_right hpri, confined_bind, and_iff_right hreqType, confined_bind, confined_pure,
        and_true, ← hl, confined_reqRouteCbT hl]
      constructor
      · exact fun h => Or.inr (fun _ => h)
      · intro h
        have hknown : ¬ UnknownType (u16 m (buf + 4)) := fun hu => hreq.elim hu.2.1 hu.2.2
        exact (h.resolve_left hknown) htype
    · rw [confined_pure]
      obtain ⟨hurgent, hnormal⟩ := not_or.mp hreq
      exact iff_of_true trivial (Or.inl ⟨htype, hurgent, hnormal⟩)

/-- What is done depends on the type alone. -/
theorem handled_nlRecvBufT :
    (nlRecvBufT mgr optimalRoute heap m buf k).val.Handled ↔ ¬ UnknownType (u16 m (buf + 4)) := by
  unfold nlRecvBufT UnknownType
  rw [bind_val, readU16_val, ite_val]
  by_cases htype : u16 m (buf + 4) = NLMSG_ERROR
  · rw [if_pos htype, bind_val, ite_val]
    refine iff_of_true ?_ (fun h => h.1 htype)
    split_ifs <;> trivial
  · rw [if_neg htype, ite_val]
    split_ifs with hreq
    · exact iff_of_true trivial (fun h => hreq.elim h.2.1 h.2.2)
    · obtain ⟨hurgent, hnormal⟩ := not_or.mp hreq
      exact iff_of_false (fun h => h) (fun h => h ⟨htype, hurgent, hnormal⟩)

end bounds

/-! ### A request that is longer than the buffer -/

/-- The request to forward a packet with a route of 300 digits, as the kernel module sends it. -/
def longRequest : List UInt8 :=
  [108, 1, 0, 0, 101, 0, 0, 0, 0, 0, 0, 0, 0, 0, 0, 0] ++
    [101, 2, 1, 0, 1, 0, 0, 10, 2, 0, 0, 10, 0, 0, 0, 0] ++ List.replicate 24 0 ++
      [44, 1, 0, 0] ++ List.replicate 300 49 ++ List.replicate 4 0

end GeoSvr.Daemon
