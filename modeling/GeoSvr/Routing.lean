import GeoSvr.Forwarding
import GeoSvr.Netlink
import GeoSvr.Text

/-! # The daemon's answers (`routing_manager.cc`, `conn_manager.cc`)

The kernel asks for a route, and `handle_req_route_normal` answers with one netlink message: the
packet is sent without a route, it is dropped, or it is sent to the next hop with the route.  A
route is text, the ids of its roads with commas between them.

A handler is `none` where the code leaves the language: it reads beyond the end of a buffer or
writes there, uses an `int` that has no value, or scans a number that is not an `int`.  What
`get_optimal_route` answers is a parameter, and so is what the memory that
`send_msg_without_handle` allocates holds. -/

namespace GeoSvr.Daemon

open MapManager (DedupedData Route Map getRoadInfo)
open Text

/-! ### Messages -/

/-- Text as the bytes of a `char` array. -/
def toBytes (s : List Char) : List UInt8 := s.map (fun c => .ofNat c.toNat)

/-- The bytes of a `char` array as text. -/
def toChars (b : List UInt8) : List Char := b.map (fun x => .ofNat x.toNat)

/-- What `nl_send_msg` hands to the socket: `nlmsg_type`, the length behind `nlmsghdr`, and the
message. -/
structure NlSent where
  type : UInt8
  len : ℕ
  msg : NlMsg
deriving DecidableEq, Repr

/-- What a handler does: the messages it sends and the warnings it writes. -/
structure Outcome where
  sent : List NlSent
  warnings : List (UInt32 × String)
deriving DecidableEq, Repr

/-- The size of the buffer in `nl_recv_msg`. -/
def recvBuflen : ℕ := 256

/-- `nl_recv_msg`: the datagram that carries `req`, whose `route_len` bytes are followed by the
rest of the structure and by `pad`, is cut off at the end of the buffer, which was zeroed. -/
def nlRecvMsg (pad : List UInt8) (req : NlMsg) : NlMsg :=
  let datagram := req.route ++ List.replicate (nlmsgSize - routeOffset) 0 ++ pad
  { req with route := datagram.takeD (recvBuflen - nlmsghdrSize - routeOffset) 0 }

/-- `BUFSIZ`. -/
def BUFSIZ : ℕ := 8192

/-! ### Routes as text -/

/-- `ofr_tostring`. -/
def ofrTostring (ofr : List Route) : List Char := join ',' (ofr.map (fun r => intDigits r.roadid))

/-- `sscanf(start, "%d,", &id)`, where `id` has a value or not: it keeps it where there is no
number. -/
def sscanfId (s : List Char) (id : Option ℤ) : Option (Option ℤ) :=
  match scanInt s with
  | none => some id
  | some i => if -2 ^ 31 ≤ i ∧ i < 2 ^ 31 then some (some i) else none

section extract

variable {R : Type*} {n : ℕ}

/-- The body of the loop of `extract_ofr`, for each item. -/
def extractItems (m : Map R n) : Option ℤ → List (List Char) → Option (List Route)
  | _, [] => some []
  | id, s :: l =>
      match sscanfId s id with
      | some (some id) => (extractItems m (some id) l).map (m.getRouteById id :: ·)
      | some none => none
      | none => none

/-- `extract_ofr`. -/
def extractOfr (m : Map R n) (msg : NlMsg) : Option (List Route) :=
  (items ',' [] (toChars msg.route)).bind (extractItems m none)

end extract

/-! ### Answers -/

/-- `send_msg_without_handle`; `heap` is what the allocated memory holds. -/
def sendMsgWithoutHandle (heap msg : NlMsg) (reqType : UInt8) : Outcome where
  sent := [⟨GEOSVR_RSP_SEND, nlmsgSize, { heap with
    priority := GEOSVR_RSP_SEND, reqType := reqType, dst := msg.dst, nhop := msg.dst,
    routeLen := 0, route := heap.route.takeD (nlmsgSize - routeOffset) 0 }⟩]
  warnings := []

/-- `drop_msg` sends the request back, with the `route_len` bytes that its buffer is to hold. -/
def dropMsg (msg : NlMsg) (error : String) : Option Outcome :=
  let route := nlmsgSize - routeOffset + msg.routeLen.toNat
  if route ≤ msg.route.length then
    some ⟨[⟨GEOSVR_RSP_DROP, nlmsgSize + msg.routeLen.toNat, { msg with
      priority := GEOSVR_RSP_DROP, route := msg.route.take route }⟩], [(msg.dst, error)]⟩
  else none

/-- The end of both handlers: the first `routeLen` bytes of the text go with the response. -/
def sendRoute (msg : NlMsg) (reqType : UInt8) (nhop : UInt32) (routeLen : ℕ) (ofrStr : List Char) :
    Option Outcome :=
  if nlmsgSize + routeLen ≤ BUFSIZ then
    some ⟨[⟨GEOSVR_RSP_SEND, nlmsgSize + routeLen, {
      priority := GEOSVR_RSP_SEND
      reqType := reqType
      infoMask := 0
      src := msg.src
      dst := msg.dst
      nhop := nhop
      routeLen := .ofNat routeLen
      route := (toBytes ofrStr).takeD routeLen 0 ++
        List.replicate (nlmsgSize - routeOffset) 0 }⟩], []⟩
  else none

/-- What the handlers use: the address of the host, the position, the records of the roads, the
table of neighbours, and the map. -/
structure RoutingManager (R : Type*) where
  localAddr : UInt32
  env : Env R
  table : List (DedupedData R)
  node : Node R
  n : ℕ
  map : Map R n

variable {R : Type*} [Scalar R]

/-- The tests of a handler, for a route that was computed or extracted. -/
def RoutingManager.decision (mgr : RoutingManager R) (msg : NlMsg) (ofr : Option (List Route)) :
    Option Decision :=
  forwardDecision mgr.localAddr mgr.env mgr.table mgr.node msg.dst ofr

/-- What a handler does after its tests. -/
def Decision.handle (heap msg : NlMsg) (reqType : UInt8) (routeLen : List Route → ℕ) :
    Decision → Option Outcome
  | .withoutHandle => some (sendMsgWithoutHandle heap msg reqType)
  | .drop error => dropMsg msg error
  | .forward ofr nhop => sendRoute msg reqType nhop (routeLen ofr) (ofrTostring ofr)

section handlers

variable (mgr : RoutingManager R) (optimalRoute : Neighbor R → Option (List Route))

/-- The result of `get_optimal_route` for the neighbour with the address `dst`. -/
def RoutingManager.routeTo (dst : UInt32) : Option (List Route) :=
  (getNeighbor mgr.node dst).bind optimalRoute

/-- `handle_req_route_send_normal`: `route_len` is the length of the text. -/
def RoutingManager.handleReqRouteSendNormal (heap msg : NlMsg) : Option Outcome :=
  (mgr.decision msg (mgr.routeTo optimalRoute msg.dst)).bind
    (Decision.handle heap msg GEOSVR_NL_MSG_REQ_SEND (fun ofr => (ofrTostring ofr).length))

/-- `handle_req_route_forward_normal`: `route_len` is the number of roads. -/
def RoutingManager.handleReqRouteForwardNormal (heap msg : NlMsg) : Option Outcome :=
  (mgr.decision msg (extractOfr mgr.map msg)).bind
    (Decision.handle heap msg GEOSVR_NL_MSG_REQ_FORWARD List.length)

/-- `handle_req_route_normal`. -/
def RoutingManager.handleReqRouteNormal (heap msg : NlMsg) : Option Outcome :=
  if msg.reqType = GEOSVR_NL_MSG_TYPE_SEND then mgr.handleReqRouteSendNormal optimalRoute heap msg
  else if msg.reqType = GEOSVR_NL_MSG_TYPE_FORWARD then mgr.handleReqRouteForwardNormal heap msg
  else dropMsg msg "recv an unknown route request msg"

end handlers

/-! ### Decisions -/

section decision

variable {mgr : RoutingManager R} {msg : NlMsg} {ofr : Option (List Route)}

/-- A packet is sent without a route to the host itself, or to a neighbour without the bit
INDIRECT. -/
theorem decision_withoutHandle (h : mgr.decision msg ofr = some .withoutHandle) :
    msg.dst = mgr.localAddr ∨
      ∃ n ∈ mgr.node.neiList, n.ipAddr = msg.dst ∧ n.state.indirect = false := by
  unfold RoutingManager.decision forwardDecision at h
  split_ifs at h with hlocal hdirect
  · exact Or.inl hlocal
  · unfold dstIsDirect at hdirect
    cases hfind : neighListFind mgr.node msg.dst with
    | none =>
        rw [hfind] at hdirect
        cases hdirect
    | some n =>
        obtain ⟨hn, hip⟩ := neighListFind_some hfind
        rw [hfind] at hdirect
        exact Or.inr ⟨n, hn, hip, by simpa using hdirect⟩
  · cases hget : getNeighbor mgr.node msg.dst with
    | none =>
        rw [hget] at h
        cases h
    | some n =>
        cases ofr with
        | none =>
            rw [hget] at h
            cases h
        | some ofr =>
            simp only [hget] at h
            split_ifs at h with hlen
            · cases h
            · cases hnext : nextHop mgr.env mgr.table mgr.node ofr with
              | none =>
                  rw [hnext] at h
                  cases h
              | some nhop =>
                  simp only [hnext] at h
                  split_ifs at h with h0 <;> cases h

/-- A packet is sent with the route that was computed or extracted, to the next hop. -/
theorem decision_forward {ofr' : List Route} {nhop : UInt32}
    (h : mgr.decision msg ofr = some (.forward ofr' nhop)) :
    ofr = some ofr' ∧ ofr' ≠ [] ∧ nhop ≠ 0 ∧
      nextHop mgr.env mgr.table mgr.node ofr' = some nhop := by
  unfold RoutingManager.decision forwardDecision at h
  split_ifs at h with hlocal hdirect
  · cases h
  · cases h
  · cases hget : getNeighbor mgr.node msg.dst with
    | none =>
        rw [hget] at h
        cases h
    | some n =>
        cases ofr with
        | none =>
            rw [hget] at h
            cases h
        | some ofr =>
            simp only [hget] at h
            split_ifs at h with hlen
            · cases h
            · cases hnext : nextHop mgr.env mgr.table mgr.node ofr with
              | none =>
                  rw [hnext] at h
                  cases h
              | some nhop' =>
                  simp only [hnext] at h
                  split_ifs at h with h0
                  · cases h
                  · cases h
                    exact ⟨rfl, fun he => hlen (by rw [he]; rfl), h0, hnext⟩

end decision

/-! ### What is answered -/

section answer

variable {mgr : RoutingManager R} {optimalRoute : Neighbor R → Option (List Route)}
  {heap msg : NlMsg} {out : Outcome}

/-- The route that a request is answered with. -/
def RoutingManager.routeUsed (mgr : RoutingManager R)
    (optimalRoute : Neighbor R → Option (List Route)) (msg : NlMsg) : Option (List Route) :=
  if msg.reqType = GEOSVR_NL_MSG_TYPE_SEND then mgr.routeTo optimalRoute msg.dst
  else extractOfr mgr.map msg

/-- The host or the next hop that an answer names is one that the packet can be sent to. -/
def Usable (mgr : RoutingManager R) (ofr : Option (List Route)) (msg : NlMsg) (s : NlSent) : Prop :=
  (s.msg.routeLen = 0 ∧ s.msg.nhop = msg.dst ∧ (msg.dst = mgr.localAddr ∨
    ∃ n ∈ mgr.node.neiList, n.ipAddr = msg.dst ∧ n.state.indirect = false)) ∨
  ∃ n ∈ mgr.node.neiList, n.state.direct = true ∧ s.msg.nhop = n.ipAddr ∧
    ∃ roads, ofr = some roads ∧
      ∃ r ∈ roads, ∃ d, getRoadInfo mgr.table r.roadid = some d ∧ onRoad n d = true

/-- An answer to a request: one message for its destination. -/
def Answers (mgr : RoutingManager R) (ofr : Option (List Route)) (msg : NlMsg) (out : Outcome) :
    Prop :=
  ∃ s, out.sent = [s] ∧ s.msg.dst = msg.dst ∧
    (s.type = GEOSVR_RSP_SEND → Usable mgr ofr msg s)

theorem dropMsg_answers {error : String} {ofr : Option (List Route)}
    (h : dropMsg msg error = some out) : Answers mgr ofr msg out := by
  unfold dropMsg at h
  simp only at h
  split_ifs at h with hlen
  cases h
  refine ⟨_, rfl, rfl, fun hne => ?_⟩
  exact absurd (show GEOSVR_RSP_DROP = GEOSVR_RSP_SEND from hne) (by decide)

/-- A handler sends one answer. -/
theorem handle_answers {ofr : Option (List Route)} {reqType : UInt8} {routeLen : List Route → ℕ}
    (h : (mgr.decision msg ofr).bind (Decision.handle heap msg reqType routeLen) = some out) :
    Answers mgr ofr msg out := by
  obtain ⟨d, hd, h⟩ := Option.bind_eq_some_iff.mp h
  cases d with
  | withoutHandle =>
      cases h
      exact ⟨_, rfl, rfl, fun _ => Or.inl ⟨rfl, rfl, decision_withoutHandle hd⟩⟩
  | drop error => exact dropMsg_answers h
  | forward roads nhop =>
      obtain ⟨he, -, h0, hnext⟩ := decision_forward hd
      obtain ⟨n, hn, hdir, hip, hroad⟩ := nextHop_sound hnext h0
      simp only [Decision.handle, sendRoute] at h
      split_ifs at h with hlen
      cases h
      exact ⟨_, rfl, rfl, fun _ => Or.inr ⟨n, hn, hdir, hip, roads, he, hroad⟩⟩

/-- **Soundness of the answers.**  Every request that is handled is answered with one message, for
its destination, and a message that releases packets names a host to send them to. -/
theorem handleReqRouteNormal_answers
    (h : mgr.handleReqRouteNormal optimalRoute heap msg = some out) :
    Answers mgr (mgr.routeUsed optimalRoute msg) msg out := by
  unfold RoutingManager.handleReqRouteNormal at h
  unfold RoutingManager.routeUsed
  split_ifs at h ⊢ with hsend hforward
  · exact handle_answers h
  · exact handle_answers h
  · exact dropMsg_answers h

end answer

/-! ### An answer -/

/-- The response with the route `text`. -/
def responseWith (reqType : UInt8) (text : List UInt8) : NlSent where
  type := GEOSVR_RSP_SEND
  len := nlmsgSize + text.length
  msg := ⟨GEOSVR_RSP_SEND, reqType, 0, 0x0100000A, 0x0200000A, 5, .ofNat text.length,
    text ++ [0, 0, 0, 0]⟩

/-- The request for a packet with the route `text`. -/
def requestWith (text : List UInt8) : NlMsg :=
  nlRecvMsg [] (geosvrNetlinkReqNormal GEOSVR_NL_MSG_TYPE_FORWARD 0x0100000A 0x0200000A
    (.ofNat text.length) text)

/-- The request for a packet of the host itself. -/
def sampleRequest : NlMsg :=
  nlRecvMsg [] (geosvrNetlinkReqNormal GEOSVR_NL_MSG_TYPE_SEND 0x0100000A 0x0200000A 0 [])

/-- The host `localAddr`, which has the neighbour 5 on the road `road` and knows the destination
through others. -/
noncomputable def hostWith (localAddr road : UInt32) : RoutingManager ℝ where
  localAddr := localAddr
  env := ⟨0, 0, 0, 0, false, false⟩
  table := [⟨7, 1, 0, 0, 1, 0, 0, 1, 3, 0⟩, ⟨8, 1, 1, 0, 1, 1, 1, 2, 3, 0⟩]
  node := ⟨[⟨1, 5, 0, 0, 0, 0, 5, ⟨false, true, false, false⟩, road, 0, none⟩,
    ⟨2, 0x0200000A, 0, 0, 0, 0, 5, ⟨true, false, false, false⟩, 8, 0, none⟩], 2, [], 0, 0, 0, 0,
    false, []⟩
  n := 3
  map := ⟨fun _ => 0, fun _ => 0, [⟨0, 1, 7, 3⟩, ⟨1, 2, 8, 3⟩]⟩

/-- A packet is sent to the neighbour 5, with the route of the road 7. -/
theorem handleReqRouteNormal_answers_sample :
    Answers (hostWith 1 7) ((hostWith 1 7).routeUsed (fun _ => some [⟨7, 0, 1, 3⟩]) sampleRequest)
      sampleRequest ⟨[responseWith GEOSVR_NL_MSG_REQ_SEND [55]], []⟩ :=
  handleReqRouteNormal_answers (show (hostWith 1 7).handleReqRouteNormal
    (fun _ => some [⟨7, 0, 1, 3⟩]) sampleRequest sampleRequest = _ from rfl)

end GeoSvr.Daemon
