import GeoSvr.Bytes

/-! # The netlink messages between the kernel module and the daemon

Both directions carry a `struct geosvr_nlmsg` behind a `struct nlmsghdr`.  Structures lie in
memory as the x86-64 ABI lays them out, little-endian:

* `nlmsghdr` has 16 bytes: `nlmsg_len` at 0, `nlmsg_type` at 4, `nlmsg_flags` at 6,
  `nlmsg_seq` at 8, `nlmsg_pid` at 12;
* `geosvr_nlmsg` has `priority` at 0, `req_type` at 1, `info_mask` at 2, `src`, `dst` and
  `nhop` at 4, 8 and 12, `route_len` at 40 and `route` at 44; its size is 48, because the
  doubles before `route_len` align it to 8.  The fields `roadid`, `lat` and `lon` in between
  are never read and stay as they are.

A message that has been received is a `NlMsg`: the fields, and the bytes that lie behind the
fixed part as far as the receiver's buffer reaches. -/

namespace GeoSvr

open Bytes

/-- `struct geosvr_nlmsg` and the accessible bytes from `route` on. -/
structure NlMsg where
  priority : UInt8
  reqType : UInt8
  infoMask : UInt16
  src : UInt32
  dst : UInt32
  nhop : UInt32
  routeLen : UInt32
  route : List UInt8
deriving DecidableEq, Repr

/-! ### Constants -/

def GEOSVR_PRI_NORMAL : UInt8 := 101
def GEOSVR_PRI_URGENT : UInt8 := 102
def GEOSVR_RSP_SEND : UInt8 := 103
def GEOSVR_RSP_DROP : UInt8 := 104

def GEOSVR_NL_MSG_TYPE_SEND : UInt8 := 1
def GEOSVR_NL_MSG_TYPE_FORWARD : UInt8 := 2

def GEOSVR_NL_MSG_REQ_SEND : UInt8 := 1
def GEOSVR_NL_MSG_REQ_FORWARD : UInt8 := 2

def GEOSVR_NL_MSG_MASK_IPADDR : UInt16 := 1

/-- `sizeof(struct nlmsghdr)`. -/
def nlmsghdrSize : ℕ := 16
/-- `sizeof(struct geosvr_nlmsg)`. -/
def nlmsgSize : ℕ := 48
/-- `offsetof(struct geosvr_nlmsg, route)`. -/
def routeOffset : ℕ := 44

/-- The message that `geosvr_netlink_req_normal` builds. -/
def geosvrNetlinkReqNormal (reqType : UInt8) (src dst routeLen : UInt32) (route : List UInt8) :
    NlMsg where
  priority := GEOSVR_PRI_NORMAL
  reqType := reqType
  infoMask := GEOSVR_NL_MSG_MASK_IPADDR
  src := src
  dst := dst
  nhop := 0
  routeLen := if reqType = GEOSVR_NL_MSG_TYPE_FORWARD then routeLen else 0
  route := if reqType = GEOSVR_NL_MSG_TYPE_FORWARD then route.takeD routeLen.toNat 0 else []

/-- A response that `geosvr_netlink_recv_peer` accepts, and the loop it starts. -/
inductive Response
  | sendPkt (msg : NlMsg)
  | dropPkt (dst : UInt32)
deriving DecidableEq

/-- The destination whose packets the response releases. -/
def Response.dst : Response → UInt32
  | .sendPkt msg => msg.dst
  | .dropPkt dst => dst

/-- `geosvr_netlink_recv_peer`: `type` is `nlmsg_type`, `len` the length behind `nlmsghdr`. -/
def geosvrNetlinkRecvPeer (type : ℕ) (len : ℕ) (msg : NlMsg) : Option Response :=
  if type = GEOSVR_RSP_SEND.toNat then
    if len < nlmsgSize then none else some (.sendPkt msg)
  else if type = GEOSVR_RSP_DROP.toNat then
    if len < nlmsgSize then none else some (.dropPkt msg.dst)
  else none

namespace NlMsg

/-- The fixed part of `msg`, stored at address `a`. -/
def store (m : Mem) (a : ℕ) (msg : NlMsg) : Mem :=
  let m := setU8 m a msg.priority
  let m := setU8 m (a + 1) msg.reqType
  let m := setU16 m (a + 2) msg.infoMask
  let m := setU32 m (a + 4) msg.src
  let m := setU32 m (a + 8) msg.dst
  let m := setU32 m (a + 12) msg.nhop
  setU32 m (a + 40) msg.routeLen

/-- The message at address `a` of a buffer that ends at `limit`. -/
def load (m : Mem) (a limit : ℕ) : NlMsg where
  priority := m a
  reqType := m (a + 1)
  infoMask := u16 m (a + 2)
  src := u32 m (a + 4)
  dst := u32 m (a + 8)
  nhop := u32 m (a + 12)
  routeLen := u32 m (a + 40)
  route := bytes m (a + routeOffset) (limit - (a + routeOffset))

/-- A message depends on the bytes from its address to the end of the buffer. -/
theorem load_congr {m m' : Mem} {a a' limit limit' : ℕ} (ha : a + nlmsgSize ≤ limit)
    (hlimit : limit' + a = limit + a') (h : ∀ i, i < limit - a → m (a + i) = m' (a' + i)) :
    load m a limit = load m' a' limit' := by
  unfold nlmsgSize at ha
  have hroute : limit - (a + routeOffset) = limit' - (a' + routeOffset) := by omega
  have hshift : ∀ (k : ℕ), ∀ i, k + i < limit - a → m (a + k + i) = m' (a' + k + i) := by
    intro k i hi
    rw [Nat.add_assoc, Nat.add_assoc]
    exact h (k + i) hi
  unfold load
  congr 1
  · exact h 0 (by omega)
  · exact h 1 (by omega)
  · exact u16_congr (fun i hi => hshift 2 i (by omega))
  · exact u32_congr (fun i hi => hshift 4 i (by omega))
  · exact u32_congr (fun i hi => hshift 8 i (by omega))
  · exact u32_congr (fun i hi => hshift 12 i (by omega))
  · exact u32_congr (fun i hi => hshift 40 i (by omega))
  · rw [← hroute]
    exact bytes_congr (fun i hi => hshift routeOffset i (by omega))

theorem store_outside (m : Mem) {a x : ℕ} (msg : NlMsg) (h : x < a ∨ a + routeOffset ≤ x) :
    store m a msg x = m x := by
  unfold routeOffset at h
  simp only [store, setU8, setU16, setU32]
  iterate 7 rw [write_outside _ (by simp; omega)]

/-- Loading a stored message gives its fixed part back. -/
theorem load_store (m : Mem) (a limit : ℕ) (msg : NlMsg) :
    load (store m a msg) a limit =
      { msg with route := bytes m (a + routeOffset) (limit - (a + routeOffset)) } := by
  have hroute : bytes (store m a msg) (a + routeOffset) (limit - (a + routeOffset)) =
      bytes m (a + routeOffset) (limit - (a + routeOffset)) :=
    bytes_congr (fun i _ => store_outside m msg (by omega))
  have hu8 : ∀ x, x < a + 4 → store m a msg x =
      setU16 (setU8 (setU8 m a msg.priority) (a + 1) msg.reqType) (a + 2) msg.infoMask x := by
    intro x hx
    simp only [store, setU32]
    iterate 4 rw [write_outside _ (by simp; omega)]
  unfold load
  rw [hroute]
  congr 1
  · rw [hu8 a (by omega), setU16, write_outside _ (by simp), setU8, write_outside _ (by simp)]
    exact setU8_same m a _
  · rw [hu8 (a + 1) (by omega), setU16, write_outside _ (by simp)]
    exact setU8_same _ (a + 1) _
  · simp only [store, setU32]
    iterate 4 rw [u16_write _ (by simp)]
    exact u16_setU16 _ _ _
  · simp only [store, setU32]
    iterate 3 rw [u32_write _ (by simp)]
    exact u32_setU32 _ _ _
  · simp only [store, setU32]
    iterate 2 rw [u32_write _ (by simp)]
    exact u32_setU32 _ _ _
  · simp only [store, setU32]
    rw [u32_write _ (by simp)]
    exact u32_setU32 _ _ _
  · exact u32_setU32 _ _ _

end NlMsg

end GeoSvr
