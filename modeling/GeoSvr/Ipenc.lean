import GeoSvr.Netlink
import GeoSvr.Skb
import Mathlib.Data.List.TakeDrop

/-! # Encapsulation of IPv4 packets (`geosvr_ipenc.c`)

The GeoSVR header lies between the IPv4 header and its payload.  `geosvrIpEncapsulate` opens
the gap by moving the IPv4 header down into the headroom; `geosvrIpDecapsulate` closes it by
moving the payload down, and `geosvrIpHasEncapsulated` looks for the marker.  The functions
are given what the kernel decides: whether an allocation is granted, the routing table, the
identity of a copied `sk_buff`. -/

namespace GeoSvr.Kernel

open Bytes

/-- `struct geosvr_hdr`, in an allocation of `size` bytes. -/
structure GeosvrHdr where
  prefix0 : UInt32
  prefix1 : UInt32
  src : UInt32
  dst : UInt32
  routeLen : UInt32
  route : List UInt8
  size : ℕ
deriving DecidableEq, Repr

/-- `sizeof(struct geosvr_hdr)`. -/
def geosvrHdrSize : ℕ := 20

/-- `htons(GEOSVR_HDR_PREFIX)` on a little-endian host. -/
def hdrPrefix : UInt32 := 0xFE00

/-- The header copied out of the packet: `len` bytes from address `a`. -/
def GeosvrHdr.load (m : Mem) (a len : ℕ) : GeosvrHdr where
  prefix0 := u32 m a
  prefix1 := u32 m (a + 4)
  src := u32 m (a + 8)
  dst := u32 m (a + 12)
  routeLen := u32 m (a + 16)
  route := bytes m (a + geosvrHdrSize) (len - geosvrHdrSize)
  size := len

/-- The writes into the gap: `memset`, the five fields, the route. -/
def GeosvrHdr.fill (m : Mem) (a : ℕ) (msg : NlMsg) : Mem :=
  let m := memset m a 0 (geosvrHdrSize + msg.routeLen.toNat)
  let m := setU32 m a hdrPrefix
  let m := setU32 m (a + 4) hdrPrefix
  let m := setU32 m (a + 8) msg.src
  let m := setU32 m (a + 12) msg.dst
  let m := setU32 m (a + 16) msg.routeLen
  write m (a + geosvrHdrSize) (msg.route.takeD msg.routeLen.toNat 0)

/-- The memory after the header moved down from `ohdr` to `nhdr`, the gap was filled and
`tot_len` was increased by `size`. -/
def encapMem (m : Mem) (nhdr ohdr size : ℕ) (msg : NlMsg) : Mem :=
  let m := memmove m nhdr ohdr (ipHdrLen m ohdr)
  let m := GeosvrHdr.fill m (nhdr + ipHdrLen m nhdr) msg
  setBe16 m (nhdr + 2) (totLen m nhdr + .ofNat size)

/-- `geosvr_ip_encapsulate`. -/
def geosvrIpEncapsulate (granted : Bool) (lookup : UInt32 → Option Rtable) (skb : SkBuff)
    (msg : NlMsg) : ℤ × SkBuff :=
  if skb.shared then (-1, skb)
  else
    let size := geosvrHdrSize + msg.routeLen.toNat
    match skb.cow granted (size % 2 ^ 32) with
    | none => (-1, skb)
    | some skb =>
        let ohdr := skb.networkHeader
        let skb := (skb.push (size % 2 ^ 32)).resetNetworkHeader
        let nhdr := skb.networkHeader
        let m := encapMem skb.mem nhdr ohdr size msg
        match lookup msg.nhop with
        | none => (-1, { skb with mem := m })
        | some rt => (0, { skb with mem := ipSendCheck m nhdr }.setDst rt)

/-- What `geosvr_ip_decapsulate` leaves: the caller's `sk_buff`, the private copy if one was
made, and the header it returns. -/
structure Decapsulation where
  skb : SkBuff
  copy : Option SkBuff
  geoHdr : Option GeosvrHdr

/-- The part of `geosvr_ip_decapsulate` that works on the private `sk_buff`. -/
def decapsulatePrivate (granted : Bool) (skb : SkBuff) : SkBuff × Option GeosvrHdr :=
  let iph := skb.networkHeader
  let hl := ipHdrLen skb.mem iph
  let tmpHdr := iph + hl
  let len := (geosvrHdrSize + (u32 skb.mem (tmpHdr + 16)).toNat) % 2 ^ 32
  if !skb.mayPull len then (skb, none)
  else if !granted then (skb, none)
  else
    let geoHdr := GeosvrHdr.load skb.mem tmpHdr len
    -- the third argument adds the header length: the copy runs `2 * hl` bytes past the tail
    let m := memmove skb.mem (skb.data + hl) (skb.data + hl + len) (skb.len + hl - len)
    let skb := ({ skb with mem := m }.trim (skb.len - len)).resetNetworkHeader
    let iph := skb.networkHeader
    let m := setBe16 skb.mem (iph + 2) (totLen skb.mem iph - .ofNat len)
    ({ skb with mem := ipSendCheck m iph }, some geoHdr)

/-- `geosvr_ip_decapsulate`.  A shared or cloned `sk_buff` is released and a copy is worked on,
which the caller never sees. -/
def geosvrIpDecapsulate (copyGranted granted : Bool) (copyId : ℕ) (skb : SkBuff) :
    Decapsulation :=
  if skb.shared || skb.cloned then
    match skb.pskbCopy copyGranted copyId with
    | none => ⟨skb.kfreeSkb, none, none⟩
    | some nskb =>
        let r := decapsulatePrivate granted nskb
        ⟨skb.kfreeSkb, some r.1, r.2⟩
  else
    let r := decapsulatePrivate granted skb
    ⟨r.1, none, r.2⟩

/-- The marker at the end of the IPv4 header: the low halves of the two prefix words. -/
def hasMarker (m : Mem) (iph : ℕ) : Bool :=
  let geoHdr := iph + ipHdrLen m iph
  be16 m geoHdr == 0xFE && be16 m (geoHdr + 4) == 0xFE

/-- `geosvr_ip_has_encapsulated`: the answer, and the caller's `sk_buff`, released when it was
shared or cloned. -/
def geosvrIpHasEncapsulated (copyGranted : Bool) (copyId : ℕ) (skb : SkBuff) : Bool × SkBuff :=
  if skb.shared || skb.cloned then
    match skb.pskbCopy copyGranted copyId with
    | none => (false, skb.kfreeSkb)
    | some nskb => (hasMarker nskb.mem nskb.networkHeader, skb.kfreeSkb)
  else (hasMarker skb.mem skb.networkHeader, skb)

/-- `geosvr_ip_forward`, up to the call of the `NF_INET_FORWARD` hook; `ident` is what
`ip_select_ident` assigns. -/
def geosvrIpForward (lookup : UInt32 → Option Rtable) (ident : UInt16) (skb : SkBuff)
    (msg : NlMsg) : ℤ × SkBuff :=
  match lookup msg.nhop with
  | none => (-1, skb)
  | some rt =>
      let m := setBe16 skb.mem (skb.networkHeader + 4) ident
      (0, { skb with mem := ipSendCheck m skb.networkHeader }.setDst rt)

/-- `geosvr_ip_encapsulate` returns 0, or a negative number. -/
theorem encapsulate_res (granted : Bool) (lookup : UInt32 → Option Rtable) (skb : SkBuff)
    (msg : NlMsg) : (geosvrIpEncapsulate granted lookup skb msg).1 = 0 ∨
      (geosvrIpEncapsulate granted lookup skb msg).1 < 0 := by
  have hneg : (-1 : ℤ) < 0 := by decide
  unfold geosvrIpEncapsulate
  split_ifs with hsh
  · exact Or.inr hneg
  · cases hcow : skb.cow granted ((geosvrHdrSize + msg.routeLen.toNat) % 2 ^ 32) with
    | none =>
        simp only [hcow]
        exact Or.inr hneg
    | some skb' =>
        simp only [hcow]
        cases lookup msg.nhop with
        | none => exact Or.inr hneg
        | some rt => exact Or.inl rfl

/-! ### The gap -/

theorem GeosvrHdr.fill_outside (m : Mem) {a x : ℕ} (msg : NlMsg)
    (h : x < a ∨ a + geosvrHdrSize + msg.routeLen.toNat ≤ x) : fill m a msg x = m x := by
  unfold geosvrHdrSize at h
  simp only [fill, setU32, geosvrHdrSize]
  iterate 6 rw [write_outside _ (by simp [List.takeD_length]; omega)]
  exact memset_outside m 0 (by omega)

/-- Loading the filled gap gives the fields of the message back. -/
theorem GeosvrHdr.load_fill (m : Mem) (a : ℕ) (msg : NlMsg) :
    load (fill m a msg) a (geosvrHdrSize + msg.routeLen.toNat) =
      { prefix0 := hdrPrefix, prefix1 := hdrPrefix, src := msg.src, dst := msg.dst,
        routeLen := msg.routeLen, route := msg.route.takeD msg.routeLen.toNat 0,
        size := geosvrHdrSize + msg.routeLen.toNat } := by
  unfold load
  congr 1
  · simp only [fill, setU32, geosvrHdrSize]
    iterate 5 rw [u32_write _ (by simp)]
    exact u32_setU32 _ _ _
  · simp only [fill, setU32, geosvrHdrSize]
    iterate 4 rw [u32_write _ (by simp)]
    exact u32_setU32 _ _ _
  · simp only [fill, setU32, geosvrHdrSize]
    iterate 3 rw [u32_write _ (by simp)]
    exact u32_setU32 _ _ _
  · simp only [fill, setU32, geosvrHdrSize]
    iterate 2 rw [u32_write _ (by simp)]
    exact u32_setU32 _ _ _
  · simp only [fill, setU32, geosvrHdrSize]
    rw [u32_write _ (by simp)]
    exact u32_setU32 _ _ _
  · have hlen : geosvrHdrSize + msg.routeLen.toNat - geosvrHdrSize =
        (msg.route.takeD msg.routeLen.toNat 0).length := by
      rw [List.takeD_length]; omega
    rw [hlen]
    exact bytes_write _ _ _

theorem GeosvrHdr.load_congr {m m' : Mem} {a a' len : ℕ} (hlen : geosvrHdrSize ≤ len)
    (h : ∀ i, i < len → m (a + i) = m' (a' + i)) : load m a len = load m' a' len := by
  unfold geosvrHdrSize at hlen
  have hword : ∀ k, k + 4 ≤ 20 → u32 m (a + k) = u32 m' (a' + k) := by
    intro k hk
    apply u32_congr
    intro i hi
    rw [Nat.add_assoc, Nat.add_assoc]
    exact h (k + i) (by omega)
  unfold load
  congr 1
  · exact hword 0 (by omega)
  · exact hword 4 (by omega)
  · exact hword 8 (by omega)
  · exact hword 12 (by omega)
  · exact hword 16 (by omega)
  · apply bytes_congr
    intro i hi
    rw [Nat.add_assoc, Nat.add_assoc]
    exact h _ (by simp only [geosvrHdrSize] at hi ⊢; omega)

end GeoSvr.Kernel
