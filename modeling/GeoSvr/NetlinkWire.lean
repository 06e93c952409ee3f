import GeoSvr.DaemonBounds
import GeoSvr.ForwardRequest
import GeoSvr.KernelBounds

/-! # Messages as datagrams (`conn_manager.cc`, `geosvr_netlink.c`)

`nl_send_msg` and `geosvr_netlink_build_msg` put a `struct nlmsghdr` in front of a message and hand
the bytes to the socket; the receivers find the message behind it.  The models of the module and of
the daemon pass messages on as structures (`NlMsg`); here are the bytes in between.

* What the daemon sends arrives in the module as the message that it was, with the route that
  `route_len` speaks of (`nlSendMsg_arrives`), and is accepted (`response_arrives`).
* What the module sends arrives in the daemon as `nlRecvMsg` says, whatever the memory held that
  was allocated for it (`request_arrives`); three bytes of it at the most are sent along.
* So a request and its answer go round, for every request (`request_answered`). -/

namespace GeoSvr

open Bytes

/-! ### `struct nlmsghdr` -/

structure Nlmsghdr where
  len : UInt32
  type : UInt16
  flags : UInt16
  seq : UInt32
  pid : UInt32
deriving DecidableEq

/-- The header, stored at address 0. -/
def Nlmsghdr.store (m : Mem) (h : Nlmsghdr) : Mem :=
  let m := setU32 m 0 h.len
  let m := setU16 m 4 h.type
  let m := setU16 m 6 h.flags
  let m := setU32 m 8 h.seq
  setU32 m 12 h.pid

/-- The header at address 0. -/
def Nlmsghdr.load (m : Mem) : Nlmsghdr := ⟨u32 m 0, u16 m 4, u16 m 6, u32 m 8, u32 m 12⟩

theorem Nlmsghdr.load_store (m : Mem) (h : Nlmsghdr) : Nlmsghdr.load (Nlmsghdr.store m h) = h := by
  unfold Nlmsghdr.load Nlmsghdr.store
  dsimp only
  congr 1
  · rw [setU32, u32_write _ (by simp), setU32, u32_write _ (by simp), setU16,
      u32_write _ (by simp), setU16, u32_write _ (by simp), u32_setU32]
  · rw [setU32, u16_write _ (by simp), setU32, u16_write _ (by simp), setU16,
      u16_write _ (by simp), u16_setU16]
  · rw [setU32, u16_write _ (by simp), setU32, u16_write _ (by simp), u16_setU16]
  · rw [setU32, u32_write _ (by simp), u32_setU32]
  · exact u32_setU32 _ _ _

theorem Nlmsghdr.store_outside (m : Mem) (h : Nlmsghdr) {x : ℕ} (hx : nlmsghdrSize ≤ x) :
    Nlmsghdr.store m h x = m x := by
  unfold nlmsghdrSize at hx
  simp only [Nlmsghdr.store, setU16, setU32]
  iterate 5 rw [write_outside _ (by simp; omega)]

theorem Nlmsghdr.load_congr {m m' : Mem} (h : ∀ i, i < nlmsghdrSize → m i = m' i) :
    Nlmsghdr.load m = Nlmsghdr.load m' := by
  unfold nlmsghdrSize at h
  unfold Nlmsghdr.load
  congr 1
  · exact u32_congr (fun i hi => h _ (by omega))
  · exact u16_congr (fun i hi => h _ (by omega))
  · exact u16_congr (fun i hi => h _ (by omega))
  · exact u32_congr (fun i hi => h _ (by omega))
  · exact u32_congr (fun i hi => h _ (by omega))

/-- `NLMSG_ALIGN`, `NLMSG_LENGTH` and `NLMSG_SPACE`. -/
def NLMSG_ALIGN (len : ℕ) : ℕ := (len + 3) / 4 * 4
def NLMSG_LENGTH (len : ℕ) : ℕ := len + nlmsghdrSize
def NLMSG_SPACE (len : ℕ) : ℕ := NLMSG_ALIGN (NLMSG_LENGTH len)

theorem NLMSG_SPACE_bounds (len : ℕ) :
    nlmsghdrSize + len ≤ NLMSG_SPACE len ∧ NLMSG_SPACE len < nlmsghdrSize + len + 4 := by
  unfold NLMSG_SPACE NLMSG_ALIGN NLMSG_LENGTH
  omega

/-! ### Bytes of a datagram -/

/-- Storing the length of a header does not change what is behind the header. -/
theorem bytes_setU32_behind (m : Mem) (v : UInt32) {a : ℕ} (n : ℕ) (h : nlmsghdrSize ≤ a) :
    bytes (setU32 m 0 v) a n = bytes m a n := by
  unfold nlmsghdrSize at h
  exact bytes_congr (fun i _ => write_outside m (Or.inr (by simp; omega)))

theorem takeD_drop {α : Type*} (d : α) (n : ℕ) : ∀ (k : ℕ) (l : List α),
    (l.takeD (k + n) d).drop k = (l.drop k).takeD n d
  | 0, l => by simp
  | k + 1, l => by
      rw [Nat.add_right_comm, List.takeD_succ, List.drop_succ_cons, takeD_drop d n k l.tail,
        List.drop_tail]

theorem takeD_take {α : Type*} (d : α) (k : ℕ) : ∀ (n : ℕ) (l : List α),
    (l.takeD (n + k) d).take n = l.takeD n d
  | 0, l => rfl
  | n + 1, l => by
      rw [Nat.add_right_comm, List.takeD_succ, List.take_succ_cons, takeD_take d k n l.tail,
        List.takeD_succ]

/-- Writing the route leaves the fields. -/
theorem load_write (m : Mem) {a b limit : ℕ} (bs : List UInt8) (h : a + routeOffset ≤ b) :
    NlMsg.load (write m b bs) a limit = { NlMsg.load m a limit with
      route := bytes (write m b bs) (a + routeOffset) (limit - (a + routeOffset)) } := by
  unfold routeOffset at h
  unfold NlMsg.load
  congr 1
  · exact write_outside m (by omega)
  · exact write_outside m (by omega)
  · exact u16_write m (by omega)
  · exact u32_write m (by omega)
  · exact u32_write m (by omega)
  · exact u32_write m (by omega)
  · exact u32_write m (by omega)

/-! ### The daemon sends -/

/-- `struct nlsock`, as far as it is used. -/
structure NlSock where
  seq : UInt32
  pid : UInt32
deriving DecidableEq

open Kernel.Takeover (NLM_F_REQUEST)

/-- `nl_send_msg` with `nl_send`: the message of `len` bytes at `a` of `data` is copied behind a
header into allocated memory, which held `heap`, and `nlmsg_len` bytes are handed to `sendmsg`. -/
def nlSendMsg (nl : NlSock) (heap data : Mem) (a len : ℕ) (type : UInt16) :
    List UInt8 × NlSock :=
  let m := memset heap 0 0 (nlmsghdrSize + len)
  let m := write m nlmsghdrSize (bytes data a len)
  let nl := { nl with seq := nl.seq + 1 }
  let n : Nlmsghdr := ⟨.ofNat (NLMSG_LENGTH len), type, NLM_F_REQUEST, nl.seq, nl.pid⟩
  (bytes (Nlmsghdr.store m n) 0 n.len.toNat, nl)

/-- The message lies at `a`, with `len` bytes. -/
def Daemon.NlSent.LiesAt (s : Daemon.NlSent) (data : Mem) (a : ℕ) : Prop :=
  NlMsg.load data a (a + s.len) = s.msg

/-- A message whose route fills the rest of it can lie anywhere. -/
theorem Daemon.NlSent.liesAt_store {s : Daemon.NlSent} (m : Mem) (a : ℕ)
    (h : routeOffset + s.msg.route.length = s.len) :
    s.LiesAt (write (NlMsg.store m a s.msg) (a + routeOffset) s.msg.route) a := by
  have hspan : a + s.len - (a + routeOffset) = s.msg.route.length := by omega
  unfold LiesAt
  rw [load_write _ _ le_rfl, NlMsg.load_store, hspan, bytes_write]

section sending

variable {nl : NlSock} {heap data : Mem} {a len : ℕ} {type : UInt16}

theorem nlSendMsg_length (h : len + nlmsghdrSize < 2 ^ 32) :
    (nlSendMsg nl heap data a len type).1.length = nlmsghdrSize + len := by
  unfold nlSendMsg NLMSG_LENGTH
  rw [bytes_length, UInt32.toNat_ofNat_of_lt' h, Nat.add_comm]

/-- What a memory holds into which the datagram is received. -/
theorem nlSendMsg_received (h : len + nlmsghdrSize < 2 ^ 32) {m : Mem}
    (hm : bytes m 0 (nlSendMsg nl heap data a len type).1.length =
      (nlSendMsg nl heap data a len type).1) :
    Nlmsghdr.load m = ⟨.ofNat (NLMSG_LENGTH len), type, NLM_F_REQUEST, nl.seq + 1, nl.pid⟩ ∧
      ∀ i, i < len → m (nlmsghdrSize + i) = data (a + i) := by
  rw [nlSendMsg_length h] at hm
  have hlen : (UInt32.ofNat (NLMSG_LENGTH len)).toNat = nlmsghdrSize + len := by
    unfold NLMSG_LENGTH
    rw [UInt32.toNat_ofNat_of_lt' h, Nat.add_comm]
  unfold nlSendMsg at hm
  dsimp only at hm
  rw [hlen] at hm
  constructor
  · rw [Nlmsghdr.load_congr (fun i hi => eq_of_bytes_zero hm (by omega)), Nlmsghdr.load_store]
  · intro i hi
    rw [eq_of_bytes_zero hm (show nlmsghdrSize + i < nlmsghdrSize + len by omega),
      Nlmsghdr.store_outside _ _ (by omega), write_inside _ (by simpa using hi), bytes_getElem]

end sending

/-! ### The module receives -/

section receiving

open Daemon Kernel
open Kernel.Takeover hiding Received

variable {nl : NlSock} {heap data m : Mem} {a : ℕ} {s : NlSent}

/-- The response as the module reads it: the route ends where `route_len` says. -/
def NlSent.arrived (s : NlSent) : NlMsg :=
  { s.msg with route := s.msg.route.take s.msg.routeLen.toNat }

/-- **The daemon's messages arrive.** -/
theorem nlSendMsg_arrives (hlies : s.LiesAt data a)
    (hlen : nlmsgSize + s.msg.routeLen.toNat ≤ s.len) (hmax : s.len + nlmsghdrSize < 2 ^ 32) {l : ℕ}
    (hl : l = (nlSendMsg nl heap data a s.len s.type.toUInt16).1.length)
    (hm : bytes m 0 l = (nlSendMsg nl heap data a s.len s.type.toUInt16).1) (cap : Bool) :
    nlSkb m l cap =
      { len := nlmsghdrSize + s.len
        nlmsgLen := .ofNat (NLMSG_LENGTH s.len)
        nlmsgType := s.type.toUInt16
        nlmsgFlags := NLM_F_REQUEST
        nlmsgPid := nl.pid
        capNetAdmin := cap
        msg := NlSent.arrived s } := by
  subst hl
  obtain ⟨hhdr, hdata⟩ := nlSendMsg_received hmax hm
  unfold nlmsgSize at hlen
  have hload : NlMsg.load m nlmsghdrSize (nlmsghdrSize + s.len) = s.msg := by
    rw [← hlies]
    exact NlMsg.load_congr (by unfold nlmsgSize; omega) (by omega)
      (fun i hi => hdata i (by omega))
  have hrouteLen : u32 m (nlmsghdrSize + 40) = s.msg.routeLen := congrArg NlMsg.routeLen hload
  have hroute : bytes m (nlmsghdrSize + routeOffset) s.msg.routeLen.toNat =
      s.msg.route.take s.msg.routeLen.toNat := by
    have hall : bytes m (nlmsghdrSize + routeOffset)
        (nlmsghdrSize + s.len - (nlmsghdrSize + routeOffset)) = s.msg.route :=
      congrArg NlMsg.route hload
    rw [← hall, bytes_take]
    unfold nlmsghdrSize routeOffset
    omega
  have hpayload : payload m = NlSent.arrived s := by
    have hfixed : payload m = { NlMsg.load m nlmsghdrSize (nlmsghdrSize + s.len) with
        route := bytes m (nlmsghdrSize + routeOffset)
          (nlmsghdrSize + routeOffset + (u32 m (nlmsghdrSize + 40)).toNat -
            (nlmsghdrSize + routeOffset)) } := rfl
    rw [hfixed, hload, hrouteLen, Nat.add_sub_cancel_left, hroute]
    rfl
  unfold nlSkb
  rw [hpayload, nlSendMsg_length hmax]
  have h0 := congrArg Nlmsghdr.len hhdr
  have h4 := congrArg Nlmsghdr.type hhdr
  have h6 := congrArg Nlmsghdr.flags hhdr
  have h12 := congrArg Nlmsghdr.pid hhdr
  simp only [Nlmsghdr.load] at h0 h4 h6 h12
  rw [h0, h4, h6, h12]

/-- The response that the module acts on. -/
def NlSent.response (s : NlSent) : Response :=
  if s.type = GEOSVR_RSP_SEND then .sendPkt (NlSent.arrived s) else .dropPkt s.msg.dst

/-- What the daemon answers is accepted, if the module has no other peer. -/
theorem response_arrives (hlies : s.LiesAt data a)
    (hlen : nlmsgSize + s.msg.routeLen.toNat ≤ s.len) (hmax : s.len + nlmsghdrSize < 2 ^ 31)
    (htype : s.type = GEOSVR_RSP_SEND ∨ s.type = GEOSVR_RSP_DROP) (hpid : 0 < asInt nl.pid)
    {peerPid : ℤ} (hpeer : peerPid = 0 ∨ peerPid = asInt nl.pid) {l : ℕ}
    (hl : l = (nlSendMsg nl heap data a s.len s.type.toUInt16).1.length)
    (hm : bytes m 0 l = (nlSendMsg nl heap data a s.len s.type.toUInt16).1) :
    geosvrNetlinkRcvSkb (nlSkb m l true) peerPid =
      ⟨asInt nl.pid, none, some (NlSent.response s)⟩ := by
  have hbytes := nlSendMsg_arrives hlies hlen (by omega) hl hm true
  have hnlmsgLen : asInt (.ofNat (NLMSG_LENGTH s.len)) = ((nlmsghdrSize + s.len : ℕ) : ℤ) := by
    have hsize : NLMSG_LENGTH s.len < 2 ^ 31 := hmax
    unfold asInt
    rw [BitVec.toInt_eq_toNat_of_lt, UInt32.toNat_toBitVec,
      UInt32.toNat_ofNat_of_lt' (show _ < 2 ^ 32 by omega)]
    · unfold NLMSG_LENGTH
      rw [Nat.add_comm]
    · rw [UInt32.toNat_toBitVec, UInt32.toNat_ofNat_of_lt' (show _ < 2 ^ 32 by omega)]
      omega
  have hflags : ¬ (asInt nl.pid ≤ 0 ∨ NLM_F_REQUEST &&& NLM_F_REQUEST = 0 ∨
      NLM_F_REQUEST &&& NLM_F_MULTI ≠ 0) := by
    rintro (h | h | h)
    · omega
    · revert h
      decide
    · exact h (by decide)
  have hpayload : nlmsghdrSize + s.len - nlmsghdrSize = s.len := by omega
  have htn : s.type.toUInt16.toNat = s.type.toNat := by simp
  have hstatus : recvPeerStatus s.type.toNat s.len = 0 := by
    unfold recvPeerStatus
    rw [if_neg (fun h => by omega)]
  have hresponse : geosvrNetlinkRecvPeer s.type.toNat s.len (NlSent.arrived s) =
      some (NlSent.response s) := by
    unfold geosvrNetlinkRecvPeer NlSent.response
    have hshort : ¬ s.len < nlmsgSize := by omega
    obtain ht | ht := htype
    · rw [ht, if_pos rfl, if_neg hshort, if_pos rfl]
    · have hne : ¬ GEOSVR_RSP_DROP.toNat = GEOSVR_RSP_SEND.toNat := by decide
      have hne' : ¬ GEOSVR_RSP_DROP = GEOSVR_RSP_SEND := by decide
      rw [ht, if_neg hne, if_pos rfl, if_neg hshort, if_neg hne']
      rfl
  rw [hbytes]
  unfold geosvrNetlinkRcvSkb
  dsimp only
  rw [hnlmsgLen, if_neg (by omega), if_neg (by unfold nlmsghdrSize; omega), if_neg hflags,
    if_neg (by decide), if_neg (by decide), if_neg (by omega), hpayload, htn, hstatus, hresponse,
    if_neg (by omega), if_neg (by decide)]

end receiving

/-! ### The module sends -/

open Kernel.Takeover (NLM_F_REQUEST)

/-- `geosvr_netlink_build_msg`, when it is given an `sk_buff`, whose memory held `room`: the bytes
of the `sk_buff`. -/
def geosvrNetlinkBuildMsg (room : Mem) (type : UInt16) (data : Mem) (len : ℕ) : List UInt8 :=
  let size := NLMSG_SPACE len
  -- `NLMSG_PUT`
  let m := Nlmsghdr.store room ⟨.ofNat (NLMSG_LENGTH (size - nlmsghdrSize)), type, 0, 0, 0⟩
  let m := write m nlmsghdrSize (bytes data 0 len)
  let m := setU32 m 0 (.ofNat size)
  bytes m 0 size

/-- The structure that `geosvr_netlink_req_normal` fills in memory that held `heap`. -/
def reqNormalMem (heap : Mem) (reqType : UInt8) (src dst routeLen : UInt32) (route : List UInt8) :
    Mem :=
  let m := memset heap 0 0 (nlmsgSize + routeLen.toNat)
  let m := setU8 m 0 GEOSVR_PRI_NORMAL
  let m := setU8 m 1 reqType
  let m := setU16 m 2 GEOSVR_NL_MSG_MASK_IPADDR
  let m := setU32 m 4 src
  let m := setU32 m 8 dst
  if reqType = GEOSVR_NL_MSG_TYPE_FORWARD then
    write (setU32 m 40 routeLen) routeOffset (route.takeD routeLen.toNat 0)
  else m

/-- The datagram of `geosvr_netlink_req_normal`. -/
def reqNormalDatagram (heap room : Mem) (reqType : UInt8) (src dst routeLen : UInt32)
    (route : List UInt8) : List UInt8 :=
  geosvrNetlinkBuildMsg room GEOSVR_PRI_NORMAL.toUInt16
    (reqNormalMem heap reqType src dst routeLen route) (nlmsgSize + routeLen.toNat)

section building

variable {room data : Mem} {type : UInt16} {len : ℕ}

theorem buildMsg_length : (geosvrNetlinkBuildMsg room type data len).length = NLMSG_SPACE len :=
  bytes_length _ _ _

/-- What is sent: the header, the message, and what the memory held behind it. -/
theorem buildMsg_drop : (geosvrNetlinkBuildMsg room type data len).drop nlmsghdrSize =
    bytes data 0 len ++
      bytes room (nlmsghdrSize + len) (NLMSG_SPACE len - (nlmsghdrSize + len)) := by
  obtain ⟨hle, -⟩ := NLMSG_SPACE_bounds len
  have hsplit : NLMSG_SPACE len - nlmsghdrSize =
      len + (NLMSG_SPACE len - (nlmsghdrSize + len)) := by omega
  unfold geosvrNetlinkBuildMsg
  dsimp only
  rw [bytes_drop _ _ (by omega), Nat.zero_add, hsplit, bytes_append]
  congr 1
  · rw [bytes_setU32_behind _ _ _ le_rfl, bytes_write_bytes]
  · rw [bytes_setU32_behind _ _ _ (Nat.le_add_right _ _)]
    refine bytes_congr (fun i _ => ?_)
    rw [write_outside _ (Or.inr (by rw [bytes_length]; omega)),
      Nlmsghdr.store_outside _ _ (by omega)]

/-- The type is where a header has it. -/
theorem buildMsg_type {m : Mem} (h : bytes m 0 nlmsghdrSize =
    (geosvrNetlinkBuildMsg room type data len).take nlmsghdrSize) : u16 m 4 = type := by
  obtain ⟨hle, -⟩ := NLMSG_SPACE_bounds len
  unfold geosvrNetlinkBuildMsg at h
  dsimp only at h
  rw [bytes_take _ (by omega)] at h
  rw [u16_congr (fun i hi => eq_of_bytes_zero h (by unfold nlmsghdrSize; omega)), setU32,
    u16_write _ (by simp), u16_write _ (by unfold nlmsghdrSize; simp)]
  exact congrArg Nlmsghdr.type (Nlmsghdr.load_store _ _)

end building

/-- Storing zero where zero is. -/
theorem setU32_zero {m : Mem} {a : ℕ} (h : ∀ i, i < 4 → m (a + i) = 0) : setU32 m a 0 = m := by
  funext x
  by_cases hx : a ≤ x ∧ x < a + 4
  · obtain ⟨i, rfl⟩ := Nat.exists_eq_add_of_le hx.1
    have hi : i < 4 := by omega
    have hall : ∀ b ∈ le32 0, b = 0 := fun b hb =>
      List.eq_of_mem_replicate (show b ∈ List.replicate 4 0 from hb)
    rw [setU32, write_inside m (by simpa using hi), h i hi]
    exact hall _ (List.getElem_mem _)
  · exact write_outside m (by simp; omega)

/-- Bytes that are written where zeros are. -/
theorem bytes_write_zeros {m : Mem} {a n : ℕ} {bs : List UInt8} (hn : bs.length ≤ n)
    (h : ∀ i, i < n → m (a + i) = 0) : bytes (write m a bs) a n = bs.takeD n 0 := by
  obtain ⟨k, rfl⟩ := Nat.exists_eq_add_of_le hn
  have hzero : bytes (write m a bs) (a + bs.length) k = List.replicate k 0 := by
    refine List.eq_replicate_iff.mpr ⟨bytes_length _ _ _, fun b hb => ?_⟩
    obtain ⟨i, hi, rfl⟩ := List.mem_map.mp hb
    have hk : i < k := List.mem_range.mp hi
    rw [write_outside m (by omega), Nat.add_assoc]
    exact h _ (by omega)
  have hrest := @Daemon.takeD_append _ (0 : UInt8) [] bs (bs.length + k) (by omega)
  rw [List.append_nil, Nat.add_sub_cancel_left, List.takeD_nil] at hrest
  rw [bytes_append, bytes_write, hzero, hrest]

/-- What is not set is zero. -/
theorem reqNormalMem_eq (heap : Mem) (reqType : UInt8) (src dst routeLen : UInt32)
    (route : List UInt8) :
    reqNormalMem heap reqType src dst routeLen route =
      write (NlMsg.store (memset heap 0 0 (nlmsgSize + routeLen.toNat)) 0
        (geosvrNetlinkReqNormal reqType src dst routeLen route)) routeOffset
        (geosvrNetlinkReqNormal reqType src dst routeLen route).route := by
  have hzero : ∀ x, x < nlmsgSize → memset heap 0 0 (nlmsgSize + routeLen.toNat) x = 0 := by
    intro x hx
    unfold memset
    rw [if_pos (by omega)]
  unfold nlmsgSize at hzero
  -- what is behind `dst` has not been written
  have hfixed : ∀ x, 12 ≤ x → x < 48 →
      setU32 (setU32 (setU16 (setU8 (setU8 (memset heap 0 0 (nlmsgSize + routeLen.toNat)) 0
        GEOSVR_PRI_NORMAL) 1 reqType) 2 GEOSVR_NL_MSG_MASK_IPADDR) 4 src) 8 dst x = 0 := by
    intro x h12 h48
    simp only [setU8, setU16, setU32]
    iterate 5 rw [write_outside _ (by simp; omega)]
    exact hzero x h48
  have hnhop := setU32_zero (a := 12) (fun i hi => hfixed (12 + i) (by omega) (by omega))
  have hrouteLen := setU32_zero (a := 40) (fun i hi => hfixed (40 + i) (by omega) (by omega))
  unfold reqNormalMem NlMsg.store geosvrNetlinkReqNormal
  dsimp only
  by_cases hf : reqType = GEOSVR_NL_MSG_TYPE_FORWARD
  · simp only [if_pos hf, Nat.zero_add]
    rw [hnhop]
  · simp only [if_neg hf, Nat.zero_add]
    rw [hnhop, hrouteLen]
    funext x
    exact (write_outside _ (by simp; omega)).symm

/-- The message that the module builds has the fields that are set and zeros elsewhere. -/
theorem reqNormalMem_load (heap : Mem) (reqType : UInt8) (src dst routeLen : UInt32)
    (route : List UInt8) :
    NlMsg.load (reqNormalMem heap reqType src dst routeLen route) 0 (nlmsgSize + routeLen.toNat) =
      { geosvrNetlinkReqNormal reqType src dst routeLen route with
        route := (geosvrNetlinkReqNormal reqType src dst routeLen route).route.takeD
          (nlmsgSize - routeOffset + routeLen.toNat) 0 } := by
  have hlen : (geosvrNetlinkReqNormal reqType src dst routeLen route).route.length ≤
      nlmsgSize - routeOffset + routeLen.toNat := by
    unfold geosvrNetlinkReqNormal
    dsimp only
    split_ifs
    · rw [List.takeD_length]
      omega
    · exact Nat.zero_le _
  have hzero : ∀ i, i < nlmsgSize - routeOffset + routeLen.toNat →
      NlMsg.store (memset heap 0 0 (nlmsgSize + routeLen.toNat)) 0
        (geosvrNetlinkReqNormal reqType src dst routeLen route) (routeOffset + i) = 0 := by
    intro i hi
    rw [NlMsg.store_outside _ _ (Or.inr (by omega))]
    unfold memset
    unfold nlmsgSize routeOffset at *
    rw [if_pos (by omega)]
  have hspan : nlmsgSize + routeLen.toNat - (0 + routeOffset) =
      nlmsgSize - routeOffset + routeLen.toNat := by
    unfold nlmsgSize routeOffset
    omega
  rw [reqNormalMem_eq, load_write _ _ (by omega), NlMsg.load_store, hspan, Nat.zero_add,
    bytes_write_zeros hlen hzero]

/-! ### The daemon receives -/

section requests

open Daemon

variable {heap room : Mem} {reqType : UInt8} {src dst routeLen : UInt32} {route : List UInt8}

/-- What the buffer holds: the datagram, and zeros. -/
theorem recvfrom_bytes (m : Mem) (buf : ℕ) (datagram : List UInt8) {k n : ℕ}
    (h : k + n ≤ recvBuflen) :
    bytes (recvfrom m buf datagram) (buf + k) n = (datagram.drop k).takeD n 0 := by
  have hbuf : bytes (recvfrom m buf datagram) buf recvBuflen = datagram.takeD recvBuflen 0 := by
    have hwrite := bytes_write m buf (datagram.takeD recvBuflen 0)
    rwa [List.takeD_length] at hwrite
  obtain ⟨l, hl⟩ := Nat.exists_eq_add_of_le h
  have hrest : recvBuflen - k = n + l := by omega
  calc bytes (recvfrom m buf datagram) (buf + k) n
      = ((bytes (recvfrom m buf datagram) buf recvBuflen).drop k).take n := by
        rw [bytes_drop _ _ (by omega), bytes_take _ (by omega)]
    _ = ((datagram.drop k).takeD (n + l) 0).take n := by
        rw [hbuf, hl, Nat.add_assoc, takeD_drop]
    _ = (datagram.drop k).takeD n 0 := takeD_take 0 l n _

/-- What lies behind the request in the datagram: zeros, if the module was given a route that it
does not send, and what the memory of the `sk_buff` held. -/
def pad (room : Mem) (reqType : UInt8) (routeLen : UInt32) : List UInt8 :=
  (if reqType = GEOSVR_NL_MSG_TYPE_FORWARD then [] else List.replicate routeLen.toNat 0) ++
    bytes room (nlmsghdrSize + (nlmsgSize + routeLen.toNat))
      (NLMSG_SPACE (nlmsgSize + routeLen.toNat) - (nlmsghdrSize + (nlmsgSize + routeLen.toNat)))

/-- Behind the header, the datagram is the message as the module built it, with the padding. -/
theorem reqNormalDatagram_route :
    (reqNormalDatagram heap room reqType src dst routeLen route).drop
        (nlmsghdrSize + routeOffset) =
      (geosvrNetlinkReqNormal reqType src dst routeLen route).route ++
        List.replicate (nlmsgSize - routeOffset) 0 ++ pad room reqType routeLen := by
  have hload := congrArg NlMsg.route (reqNormalMem_load heap reqType src dst routeLen route)
  have hspan : nlmsgSize + routeLen.toNat - routeOffset =
      nlmsgSize - routeOffset + routeLen.toNat := by
    unfold nlmsgSize routeOffset
    omega
  have hroute : bytes (reqNormalMem heap reqType src dst routeLen route) (0 + routeOffset)
      (nlmsgSize + routeLen.toNat - (0 + routeOffset)) = _ := hload
  rw [Nat.zero_add, hspan] at hroute
  have hle : routeOffset ≤ nlmsgSize + routeLen.toNat := by
    unfold nlmsgSize routeOffset
    omega
  unfold reqNormalDatagram
  rw [← List.drop_drop, buildMsg_drop,
    List.drop_append_of_le_length (by rw [bytes_length]; exact hle), bytes_drop _ _ hle, Nat.zero_add, hspan, hroute]
  unfold pad geosvrNetlinkReqNormal
  dsimp only
  by_cases hf : reqType = GEOSVR_NL_MSG_TYPE_FORWARD
  · have hrest := @takeD_append _ (0 : UInt8) [] (route.takeD routeLen.toNat 0)
      (nlmsgSize - routeOffset + routeLen.toNat) (by rw [List.takeD_length]; omega)
    rw [List.append_nil, List.takeD_length, Nat.add_sub_cancel, List.takeD_nil] at hrest
    rw [if_pos hf, if_pos hf, hrest, List.nil_append]
  · rw [if_neg hf, if_neg hf, List.takeD_nil, List.nil_append, List.replicate_add,
      List.append_assoc]

/-- **The module's requests arrive.** -/
theorem request_arrives :
    datagramType (reqNormalDatagram heap room reqType src dst routeLen route) =
        GEOSVR_PRI_NORMAL.toUInt16 ∧
      datagramMsg (reqNormalDatagram heap room reqType src dst routeLen route) =
        nlRecvMsg (pad room reqType routeLen)
          (geosvrNetlinkReqNormal reqType src dst routeLen route) := by
  have hlen : nlmsghdrSize + nlmsgSize ≤
      (reqNormalDatagram heap room reqType src dst routeLen route).length := by
    obtain ⟨hle, -⟩ := NLMSG_SPACE_bounds (nlmsgSize + routeLen.toNat)
    unfold reqNormalDatagram
    rw [buildMsg_length]
    omega
  generalize hR : recvfrom (fun _ => 0) 0
    (reqNormalDatagram heap room reqType src dst routeLen route) = R
  have hbytes : ∀ {k n : ℕ}, k + n ≤ recvBuflen → bytes R k n =
      ((reqNormalDatagram heap room reqType src dst routeLen route).drop k).takeD n 0 := by
    intro k n h
    have h := recvfrom_bytes (fun _ => 0) 0
      (reqNormalDatagram heap room reqType src dst routeLen route) h
    rwa [hR, Nat.zero_add] at h
  constructor
  · have hhdr := @hbytes 0 nlmsghdrSize (by decide)
    rw [List.drop_zero, List.takeD_eq_take _ (by omega)] at hhdr
    unfold datagramType
    rw [hR]
    exact buildMsg_type hhdr
  · have hfixed : bytes R nlmsghdrSize nlmsgSize =
        bytes (reqNormalMem heap reqType src dst routeLen route) 0 nlmsgSize := by
      rw [hbytes (by decide)]
      unfold reqNormalDatagram
      rw [buildMsg_drop, List.takeD_eq_take _ (by simp; omega),
        List.take_append_of_le_length (by simp), bytes_take _ (by omega)]
    have hload : NlMsg.load R nlmsghdrSize (nlmsghdrSize + nlmsgSize) =
        NlMsg.load (reqNormalMem heap reqType src dst routeLen route) 0 nlmsgSize :=
      NlMsg.load_congr le_rfl (by omega) (fun i hi => eq_of_bytes hfixed (by omega))
    have hmem := reqNormalMem_load heap reqType src dst routeLen route
    have hroute := @hbytes (nlmsghdrSize + routeOffset)
      (recvBuflen - (nlmsghdrSize + routeOffset)) (by decide)
    rw [reqNormalDatagram_route] at hroute
    calc datagramMsg (reqNormalDatagram heap room reqType src dst routeLen route)
        = { NlMsg.load R nlmsghdrSize (nlmsghdrSize + nlmsgSize) with
            route := bytes R (nlmsghdrSize + routeOffset)
              (recvBuflen - (nlmsghdrSize + routeOffset)) } := by
          rw [← hR]
          rfl
      _ = { NlMsg.load (reqNormalMem heap reqType src dst routeLen route) 0
              (nlmsgSize + routeLen.toNat) with
            route := bytes R (nlmsghdrSize + routeOffset)
              (recvBuflen - (nlmsghdrSize + routeOffset)) } := by
          rw [hload]
          rfl
      _ = nlRecvMsg (pad room reqType routeLen)
            (geosvrNetlinkReqNormal reqType src dst routeLen route) := by
          rw [hmem, hroute]
          rfl

/-! ### There and back -/

open Access
open MapManager (Route)

variable {R : Type*} [Scalar R] {mgr : RoutingManager R}
  {optimalRoute : Neighbor R → Option (List Route)} {held msg : NlMsg} {out : Outcome}

/-- A request is handed to its handler. -/
theorem nlRecvMsgT_request {datagram : List UInt8} (hne : datagram ≠ [])
    (htype : datagramType datagram = GEOSVR_PRI_NORMAL.toUInt16)
    (hpriority : (datagramMsg datagram).priority = GEOSVR_PRI_NORMAL) (m : Mem) (buf : ℕ) :
    (nlRecvMsgT mgr optimalRoute held m buf 0 datagram).val =
      .request (mgr.handleReqRouteNormal optimalRoute held (datagramMsg datagram)) := by
  have hu16 : u16 (recvfrom m buf datagram) (buf + 4) = GEOSVR_PRI_NORMAL.toUInt16 :=
    (readU16_type m buf datagram).trans htype
  have hpri : recvfrom m buf datagram (buf + nlmsghdrSize) = GEOSVR_PRI_NORMAL := by
    rw [← requestAt_datagram m buf datagram] at hpriority
    exact hpriority
  have hknown : GEOSVR_PRI_NORMAL.toUInt16 = GEOSVR_PRI_URGENT.toUInt16 ∨
      GEOSVR_PRI_NORMAL.toUInt16 = GEOSVR_PRI_NORMAL.toUInt16 := Or.inr rfl
  have hhandler : (reqRouteCbT mgr optimalRoute held (recvfrom m buf datagram)
      (buf + nlmsghdrSize) (recvBuflen - nlmsghdrSize - routeOffset + 0)).val =
        mgr.handleReqRouteNormal optimalRoute held (datagramMsg datagram) := by
    unfold reqRouteCbT
    rw [bind_val, readU8_val, hpri, ite_val, if_pos (Or.inr rfl), handleReqRouteNormalT_val,
      Nat.add_zero, requestAt_datagram]
  unfold nlRecvMsgT nlRecvBufT
  rw [if_neg hne, bind_val, readU16_val, hu16, ite_val, if_neg (by decide), ite_val,
    if_pos hknown]
  simp only [bind_val, pure_val, hhandler]

theorem dropMsg_shape {error : String} (hmsg : msg.route.length ≤ recvBuflen)
    (h : dropMsg msg error = some out) :
    ∃ s, out.sent = [s] ∧ s.msg.dst = msg.dst ∧ s.len = nlmsgSize + s.msg.routeLen.toNat ∧
      s.len ≤ BUFSIZ ∧ (s.type = GEOSVR_RSP_SEND ∨ s.type = GEOSVR_RSP_DROP) := by
  simp only [dropMsg] at h
  split_ifs at h with hlen
  cases h
  refine ⟨_, rfl, rfl, rfl, ?_, Or.inr rfl⟩
  unfold recvBuflen nlmsgSize routeOffset at *
  show 48 + msg.routeLen.toNat ≤ 8192
  omega

/-- Every answer has the length of its structure and its route, and fits into the buffer. -/
theorem handle_shape {d : Decision} {reqType : UInt8} {routeLen : List Route → ℕ}
    (hmsg : msg.route.length ≤ recvBuflen) (h : d.handle held msg reqType routeLen = some out) :
    ∃ s, out.sent = [s] ∧ s.msg.dst = msg.dst ∧ s.len = nlmsgSize + s.msg.routeLen.toNat ∧
      s.len ≤ BUFSIZ ∧ (s.type = GEOSVR_RSP_SEND ∨ s.type = GEOSVR_RSP_DROP) := by
  cases d with
  | withoutHandle =>
      cases h
      exact ⟨_, rfl, rfl, rfl, show nlmsgSize ≤ BUFSIZ by decide, Or.inl rfl⟩
  | drop error => exact dropMsg_shape hmsg h
  | forward roads nhop =>
      simp only [Decision.handle, sendRoute] at h
      split_ifs at h with hlen
      cases h
      refine ⟨_, rfl, rfl, ?_, hlen, Or.inl rfl⟩
      unfold BUFSIZ at hlen
      show nlmsgSize + _ = nlmsgSize + (UInt32.ofNat _).toNat
      rw [UInt32.toNat_ofNat_of_lt' (show _ < 2 ^ 32 by omega)]

theorem answer_shape (hmsg : msg.route.length ≤ recvBuflen)
    (h : mgr.handleReqRouteNormal optimalRoute held msg = some out) :
    ∃ s, out.sent = [s] ∧ s.msg.dst = msg.dst ∧ s.len = nlmsgSize + s.msg.routeLen.toNat ∧
      s.len ≤ BUFSIZ ∧ (s.type = GEOSVR_RSP_SEND ∨ s.type = GEOSVR_RSP_DROP) := by
  unfold RoutingManager.handleReqRouteNormal at h
  split_ifs at h with hsend hforward
  · obtain ⟨d, -, hd⟩ := Option.bind_eq_some_iff.mp h
    exact handle_shape hmsg hd
  · obtain ⟨d, -, hd⟩ := Option.bind_eq_some_iff.mp h
    exact handle_shape hmsg hd
  · exact dropMsg_shape hmsg h

/-- **There and back.** Whatever memory the module and the daemon use, the daemon answers a request
of the module as it answers the structure that the module filled; and the bytes of its answer, if
it answers, make the module act on that answer, for the destination of the request, if the module
has no other peer. -/
theorem request_answered (mgr : RoutingManager R)
    (optimalRoute : Neighbor R → Option (List Route)) (held : NlMsg) (heap room m : Mem) (buf : ℕ)
    (reqType : UInt8) (src dst routeLen : UInt32) (route : List UInt8) :
    (nlRecvMsgT mgr optimalRoute held m buf 0
        (reqNormalDatagram heap room reqType src dst routeLen route)).val =
      .request (mgr.handleReqRouteNormal optimalRoute held
        (nlRecvMsg (pad room reqType routeLen)
          (geosvrNetlinkReqNormal reqType src dst routeLen route))) ∧
    ∀ out, mgr.handleReqRouteNormal optimalRoute held (nlRecvMsg (pad room reqType routeLen)
        (geosvrNetlinkReqNormal reqType src dst routeLen route)) = some out →
      ∃ s, out.sent = [s] ∧ (NlSent.response s).dst = dst ∧
        ∀ (nl : NlSock) (heap data m' : Mem) (a l : ℕ) (peerPid : ℤ), s.LiesAt data a →
          0 < Kernel.Takeover.asInt nl.pid →
          (peerPid = 0 ∨ peerPid = Kernel.Takeover.asInt nl.pid) →
          l = (nlSendMsg nl heap data a s.len s.type.toUInt16).1.length →
          bytes m' 0 l = (nlSendMsg nl heap data a s.len s.type.toUInt16).1 →
          Kernel.Takeover.geosvrNetlinkRcvSkb (Kernel.nlSkb m' l true) peerPid =
            ⟨Kernel.Takeover.asInt nl.pid, none, some (NlSent.response s)⟩ := by
  obtain ⟨htype, hmsg⟩ := @request_arrives heap room reqType src dst routeLen route
  refine ⟨?_, fun out hout => ?_⟩
  · have hne : reqNormalDatagram heap room reqType src dst routeLen route ≠ [] := by
      intro he
      have hlen := congrArg List.length he
      unfold reqNormalDatagram at hlen
      rw [buildMsg_length] at hlen
      obtain ⟨hle, -⟩ := NLMSG_SPACE_bounds (nlmsgSize + routeLen.toNat)
      unfold nlmsghdrSize at hle
      simp only [List.length_nil] at hlen
      omega
    rw [nlRecvMsgT_request hne htype (by rw [hmsg]; rfl), hmsg]
  · have hlen : (nlRecvMsg (pad room reqType routeLen)
        (geosvrNetlinkReqNormal reqType src dst routeLen route)).route.length ≤ recvBuflen := by
      show (List.takeD _ _ _).length ≤ _
      rw [List.takeD_length]
      decide
    obtain ⟨s, hs, hdst, hslen, hmax, hst⟩ := answer_shape hlen hout
    unfold BUFSIZ at hmax
    refine ⟨s, hs, ?_, ?_⟩
    · unfold NlSent.response
      split_ifs
      · exact hdst
      · exact hdst
    · intro nl heap data m' a l peerPid hlies hpid hpeer hl hm
      exact response_arrives hlies hslen.ge (by unfold nlmsghdrSize; omega) hst hpid hpeer hl hm

/-- The neighbour 5 is to get a packet, along the road 7. -/
theorem request_answered_sample :
    let s := responseWith GEOSVR_NL_MSG_REQ_SEND [55]
    let data := write (NlMsg.store (fun _ => 0) 0 s.msg) routeOffset s.msg.route
    let datagram := (nlSendMsg ⟨0, 77⟩ (fun _ => 1) data 0 s.len s.type.toUInt16).1
    Kernel.Takeover.geosvrNetlinkRcvSkb
        (Kernel.nlSkb (write (fun _ => 2) 0 datagram) datagram.length true) 0 =
      ⟨77, none, some (.sendPkt { s.msg with route := [55] })⟩ := by
  intro s data datagram
  obtain ⟨-, hanswer⟩ := request_answered (hostWith 1 7) (fun _ => some [⟨7, 0, 1, 3⟩])
    sampleRequest (fun _ => 3) (fun _ => 4) (fun _ => 5) 0 GEOSVR_NL_MSG_TYPE_SEND 0x0100000A
    0x0200000A 0 []
  obtain ⟨s', hs', -, hresponse⟩ := hanswer ⟨[s], []⟩ rfl
  obtain rfl : s = s' := List.singleton_injective hs'
  have hlies : s.LiesAt data 0 := by
    have hstore := NlSent.liesAt_store (fun _ => 0) 0 (show routeOffset + s.msg.route.length = s.len
      from rfl)
    rwa [Nat.zero_add] at hstore
  exact hresponse ⟨0, 77⟩ (fun _ => 1) data _ 0 _ 0 hlies (by decide) (Or.inl rfl) rfl
    (bytes_write _ _ _)

end requests

end GeoSvr
