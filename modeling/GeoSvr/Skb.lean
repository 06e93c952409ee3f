import GeoSvr.Bytes

/-! # Socket buffers

The part of the Linux kernel that the module calls: the linear `sk_buff`, its IPv4 header,
and the operations `skb_push`, `skb_trim`, `skb_cow`, `pskb_may_pull`, `pskb_copy` and
`ip_send_check`, with the behaviour the kernel documents for them.

* **Addresses.**  The buffer lies in a byte memory of its own; `head`, `data` and
  `networkHeader` are addresses in it.  Bytes past the tail are there and have arbitrary
  contents, so a copy that runs past the tail is defined and moves them too.
* **Ownership.**  `users` is the reference count; `skb_shared` is `users ≠ 1`.  `cloned` says
  that the data is shared with another `sk_buff`.  `kfrees` counts the calls of `kfree_skb`;
  a released `sk_buff` keeps its contents, so that what a caller does with it afterwards is
  defined, and can be told from the count.
* **IPv4 header.**  Fields are read at their offsets: the header length in the low nibble of
  byte 0, `tot_len` at 2, `protocol` at 9, `check` at 10, `saddr` at 12, `daddr` at 16.  The
  addresses are the words as they lie in memory (network order), which is how the module
  stores and compares them. -/

namespace GeoSvr.Kernel

open Bytes

/-- A routing-table entry, by its identity. -/
abbrev Rtable := ℕ

/-- `struct sk_buff`, linear. -/
structure SkBuff where
  id : ℕ
  mem : Mem
  head : ℕ
  data : ℕ
  len : ℕ
  networkHeader : ℕ
  users : ℕ
  cloned : Bool
  kfrees : ℕ
  dst : Option Rtable

/-! ### The IPv4 header at an address -/

/-- `iph->ihl << 2`. -/
def ipHdrLen (m : Mem) (iph : ℕ) : ℕ := 4 * ((m iph).toNat % 16)

def totLen (m : Mem) (iph : ℕ) : UInt16 := be16 m (iph + 2)
def protocol (m : Mem) (iph : ℕ) : UInt8 := m (iph + 9)
def saddr (m : Mem) (iph : ℕ) : UInt32 := u32 m (iph + 12)
def daddr (m : Mem) (iph : ℕ) : UInt32 := u32 m (iph + 16)

/-- Sum of the 16-bit words of a block. -/
def wordSum : List UInt8 → ℕ
  | a :: b :: rest => 256 * a.toNat + b.toNat + wordSum rest
  | [a] => 256 * a.toNat
  | [] => 0

/-- End-around carry of a sum of at most 32 bits, complemented. -/
def csumFold (n : ℕ) : UInt16 :=
  let n₁ := n % 65536 + n / 65536
  let n₂ := n₁ % 65536 + n₁ / 65536
  .ofNat (65535 - n₂)

/-- `ip_fast_csum(iph, iph->ihl)`. -/
def ipFastCsum (m : Mem) (iph : ℕ) : UInt16 := csumFold (wordSum (bytes m iph (ipHdrLen m iph)))

/-- `ip_send_check`: the checksum is computed with the field at zero. -/
def ipSendCheck (m : Mem) (iph : ℕ) : Mem :=
  let m₀ := setBe16 m (iph + 10) 0
  setBe16 m₀ (iph + 10) (ipFastCsum m₀ iph)

theorem ipSendCheck_outside (m : Mem) {iph x : ℕ} (h : x < iph + 10 ∨ iph + 12 ≤ x) :
    ipSendCheck m iph x = m x := by
  unfold ipSendCheck
  rw [setBe16_outside _ _ (by omega), setBe16_outside _ _ (by omega)]

theorem totLen_ipSendCheck (m : Mem) (iph : ℕ) : totLen (ipSendCheck m iph) iph = totLen m iph :=
  be16_congr (ipSendCheck_outside m (by omega)) (ipSendCheck_outside m (by omega))

/-- The checksum is stored once and for all. -/
theorem ipSendCheck_idem (m : Mem) (iph : ℕ) :
    ipSendCheck (ipSendCheck m iph) iph = ipSendCheck m iph := by
  have hzero : setBe16 (ipSendCheck m iph) (iph + 10) 0 = setBe16 m (iph + 10) 0 := by
    unfold ipSendCheck
    rw [setBe16_setBe16, setBe16_setBe16]
  unfold ipSendCheck at hzero ⊢
  simp only [hzero]

/-- The checksum stored depends on the header only, its old checksum apart. -/
theorem ipSendCheck_congr {m m' : Mem} {iph iph' : ℕ} (hlen : m iph = m' iph')
    (h : ∀ i, i < ipHdrLen m iph → i < 10 ∨ 12 ≤ i → m (iph + i) = m' (iph' + i)) :
    ∀ i, i < ipHdrLen m iph → ipSendCheck m iph (iph + i) = ipSendCheck m' iph' (iph' + i) := by
  have hzero : ∀ i, i < ipHdrLen m iph →
      setBe16 m (iph + 10) 0 (iph + i) = setBe16 m' (iph' + 10) 0 (iph' + i) := by
    intro i hi
    by_cases hc : i < 10 ∨ 12 ≤ i
    · rw [setBe16_outside _ _ (by omega), setBe16_outside _ _ (by omega), h i hi hc]
    · obtain rfl | rfl : i = 10 ∨ i = 11 := by omega
      · rw [setBe16_fst, setBe16_fst]
      · exact (setBe16_snd m (iph + 10) 0).trans (setBe16_snd m' (iph' + 10) 0).symm
  have hl : ipHdrLen (setBe16 m (iph + 10) 0) iph = ipHdrLen m iph := by
    unfold ipHdrLen
    rw [setBe16_outside _ _ (by omega)]
  have hl' : ipHdrLen (setBe16 m' (iph' + 10) 0) iph' = ipHdrLen m iph := by
    unfold ipHdrLen
    rw [setBe16_outside _ _ (by omega), hlen]
  have hsum : ipFastCsum (setBe16 m (iph + 10) 0) iph =
      ipFastCsum (setBe16 m' (iph' + 10) 0) iph' := by
    unfold ipFastCsum
    rw [hl, hl', bytes_congr hzero]
  intro i hi
  by_cases hc : i < 10 ∨ 12 ≤ i
  · rw [ipSendCheck_outside _ (by omega), ipSendCheck_outside _ (by omega), h i hi hc]
  · unfold ipSendCheck
    obtain rfl | rfl : i = 10 ∨ i = 11 := by omega
    · rw [setBe16_fst, setBe16_fst, hsum]
    · rw [hsum]
      exact (setBe16_snd _ (iph + 10) _).trans (setBe16_snd _ (iph' + 10) _).symm

namespace SkBuff

/-- The packet: the `len` bytes from `skb->data`. -/
def packet (skb : SkBuff) : List UInt8 := bytes skb.mem skb.data skb.len

/-- `skb_shared`. -/
def shared (skb : SkBuff) : Bool := skb.users != 1

/-- `skb_reset_network_header`, and `skb_set_network_header(skb, 0)`. -/
def resetNetworkHeader (skb : SkBuff) : SkBuff := { skb with networkHeader := skb.data }

/-- `skb_push`. -/
def push (skb : SkBuff) (n : ℕ) : SkBuff := { skb with data := skb.data - n, len := skb.len + n }

/-- `skb_trim`. -/
def trim (skb : SkBuff) (len : ℕ) : SkBuff := if len < skb.len then { skb with len := len } else skb

/-- `pskb_may_pull` on a linear `sk_buff`. -/
def mayPull (skb : SkBuff) (len : ℕ) : Bool := decide (len ≤ skb.len)

/-- `skb_dst_drop` and `skb_dst_set`. -/
def setDst (skb : SkBuff) (rt : Rtable) : SkBuff := { skb with dst := some rt }

/-- `skb_cow`: a private buffer with at least `headroom` bytes in front of the data.  When the
present one does not do, the data moves to a new buffer, if the allocation is granted. -/
def cow (granted : Bool) (skb : SkBuff) (headroom : ℕ) : Option SkBuff :=
  let delta := headroom - (skb.data - skb.head)
  if delta = 0 ∧ skb.cloned = false then some skb
  else if granted then
    some { skb with
      mem := fun x => if x < skb.head + delta then 0 else skb.mem (x - delta)
      data := skb.data + delta
      networkHeader := skb.networkHeader + delta
      cloned := false }
  else none

/-- `pskb_copy`: a new `sk_buff` with a private copy of the packet. -/
def pskbCopy (granted : Bool) (id : ℕ) (skb : SkBuff) : Option SkBuff :=
  if granted then some { skb with id := id, users := 1, cloned := false, kfrees := 0 } else none

/-- `kfree_skb`: one reference less. -/
def kfreeSkb (skb : SkBuff) : SkBuff :=
  { skb with users := skb.users - 1, kfrees := skb.kfrees + 1 }

@[simp] theorem push_id (skb : SkBuff) (n : ℕ) : (skb.push n).id = skb.id := rfl
@[simp] theorem resetNetworkHeader_id (skb : SkBuff) : skb.resetNetworkHeader.id = skb.id := rfl
@[simp] theorem setDst_id (skb : SkBuff) (rt : Rtable) : (skb.setDst rt).id = skb.id := rfl
@[simp] theorem kfreeSkb_id (skb : SkBuff) : skb.kfreeSkb.id = skb.id := rfl

theorem cow_id {granted : Bool} {skb skb' : SkBuff} {n : ℕ} (h : skb.cow granted n = some skb') :
    skb'.id = skb.id := by
  simp only [cow] at h
  split_ifs at h <;> cases h <;> rfl

/-- What `skb_cow` leaves: the same packet at a shifted address, private, with the headroom. -/
theorem cow_spec {granted : Bool} {skb skb' : SkBuff} {n : ℕ} (h : skb.cow granted n = some skb')
    (hd : skb.head ≤ skb.data) (hn : skb.networkHeader = skb.data) :
    skb'.users = skb.users ∧ skb'.cloned = false ∧ skb'.len = skb.len ∧
      skb'.networkHeader = skb'.data ∧ skb'.head + n ≤ skb'.data ∧
      ∀ i, skb'.mem (skb'.data + i) = skb.mem (skb.data + i) := by
  simp only [cow] at h
  split_ifs at h with h₁ h₂
  · cases h
    exact ⟨rfl, h₁.2, rfl, hn, by omega, fun _ => rfl⟩
  · cases h
    refine ⟨rfl, rfl, rfl, by simp only [hn], by simp only; omega, fun i => ?_⟩
    simp only
    rw [if_neg (by omega)]
    congr 1
    omega

end SkBuff

end GeoSvr.Kernel
