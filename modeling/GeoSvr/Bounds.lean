import GeoSvr.Access
import GeoSvr.CopyPath

/-! # What the decapsulation touches

The functions of `geosvr_ipenc.c` that look at a received packet, written once more with their
accesses to memory (suffix `T`); `hasEncapsulatedT_val` and `decapsulateT_val` say that they
compute what `geosvrIpHasEncapsulated` and `geosvrIpDecapsulate` compute.

`inspect` runs the two as the hook does.  It is `Safe` when every access lies in the packet, a
packet that is too short for its header and route is left as it is, and a header that is returned
is backed by its route.  `route_len` comes from the network, is added to the size of the header in
32 bits, and is compared with the length of the whole packet; and the copy that closes the gap is
longer than the rest of the packet by twice the header length.  So a packet that is decapsulated
is never inspected safely, and `safe_iff` says which ones are. -/

namespace GeoSvr.Kernel

open Bytes Access

/-! ### The functions with their accesses -/

/-- Reading `iph->ihl << 2`. -/
def ihlT (m : Mem) (iph : ℕ) : Traced ℕ := do
  let b ← readU8 m iph
  return 4 * (b.toNat % 16)

/-- `ip_send_check`. -/
def ipSendCheckT (m : Mem) (iph : ℕ) : Traced Mem := do
  let m ← writeBe16 m (iph + 10) 0
  let hl ← ihlT m iph
  let sum ← readBlock iph hl (ipFastCsum m iph)
  writeBe16 m (iph + 10) sum

/-- The prefixes are words, of which `ntohs` takes the low halves; the second one is read when the
first one is right. -/
def hasMarkerT (m : Mem) (iph : ℕ) : Traced Bool := do
  let hl ← ihlT m iph
  let geoHdr := iph + hl
  let prefix0 ← readBlock geoHdr 4 (be16 m geoHdr)
  if prefix0 == 0xFE then
    let prefix1 ← readBlock (geoHdr + 4) 4 (be16 m (geoHdr + 4))
    return prefix1 == 0xFE
  else
    return false

/-- `geosvr_ip_has_encapsulated`. -/
def hasEncapsulatedT (copyGranted : Bool) (copyId : ℕ) (skb : SkBuff) :
    Traced (Bool × SkBuff) :=
  if skb.shared || skb.cloned then
    match skb.pskbCopy copyGranted copyId with
    | none => return (false, skb.kfreeSkb)
    | some nskb => do
        let marker ← hasMarkerT nskb.mem nskb.networkHeader
        return (marker, skb.kfreeSkb)
  else do
    let marker ← hasMarkerT skb.mem skb.networkHeader
    return (marker, skb)

/-- The private part of `geosvr_ip_decapsulate`. -/
def decapsulatePrivateT (granted : Bool) (skb : SkBuff) : Traced (SkBuff × Option GeosvrHdr) := do
  let iph := skb.networkHeader
  let hl ← ihlT skb.mem iph
  let tmpHdr := iph + hl
  let routeLen ← readU32 skb.mem (tmpHdr + 16)
  let len := (geosvrHdrSize + routeLen.toNat) % 2 ^ 32
  if !skb.mayPull len then
    return (skb, none)
  else if !granted then
    return (skb, none)
  else
    let geoHdr ← readBlock tmpHdr len (GeosvrHdr.load skb.mem tmpHdr len)
    let m ← move skb.mem (skb.data + hl) (skb.data + hl + len) (skb.len + hl - len)
    let skb := ({ skb with mem := m }.trim (skb.len - len)).resetNetworkHeader
    let iph := skb.networkHeader
    let tot ← readBe16 skb.mem (iph + 2)
    let m ← writeBe16 skb.mem (iph + 2) (tot - .ofNat len)
    let m ← ipSendCheckT m iph
    return ({ skb with mem := m }, some geoHdr)

/-- `geosvr_ip_decapsulate`. -/
def decapsulateT (copyGranted granted : Bool) (copyId : ℕ) (skb : SkBuff) :
    Traced Decapsulation :=
  if skb.shared || skb.cloned then
    match skb.pskbCopy copyGranted copyId with
    | none => return ⟨skb.kfreeSkb, none, none⟩
    | some nskb => do
        let r ← decapsulatePrivateT granted nskb
        return ⟨skb.kfreeSkb, some r.1, r.2⟩
  else do
    let r ← decapsulatePrivateT granted skb
    return ⟨r.1, none, r.2⟩

theorem ihlT_val (m : Mem) (iph : ℕ) : (ihlT m iph).val = ipHdrLen m iph := rfl

theorem hasMarkerT_val (m : Mem) (iph : ℕ) : (hasMarkerT m iph).val = hasMarker m iph := by
  unfold hasMarkerT hasMarker
  rw [bind_val, bind_val, ite_val, readBlock_val, ihlT_val]
  dsimp only
  cases be16 m (iph + ipHdrLen m iph) == 0xFE <;> rfl

theorem hasEncapsulatedT_val (copyGranted : Bool) (copyId : ℕ) (skb : SkBuff) :
    (hasEncapsulatedT copyGranted copyId skb).val =
      geosvrIpHasEncapsulated copyGranted copyId skb := by
  unfold hasEncapsulatedT geosvrIpHasEncapsulated
  split_ifs
  · cases skb.pskbCopy copyGranted copyId with
    | none => rfl
    | some nskb => simp only [bind_val, pure_val, hasMarkerT_val]
  · simp only [bind_val, pure_val, hasMarkerT_val]

theorem decapsulatePrivateT_val (granted : Bool) (skb : SkBuff) :
    (decapsulatePrivateT granted skb).val = decapsulatePrivate granted skb := by
  unfold decapsulatePrivateT decapsulatePrivate
  rw [bind_val, bind_val, ite_val, ite_val]
  rfl

theorem decapsulateT_val (copyGranted granted : Bool) (copyId : ℕ) (skb : SkBuff) :
    (decapsulateT copyGranted granted copyId skb).val =
      geosvrIpDecapsulate copyGranted granted copyId skb := by
  unfold decapsulateT geosvrIpDecapsulate
  split_ifs
  · cases skb.pskbCopy copyGranted copyId with
    | none => rfl
    | some nskb => simp only [bind_val, pure_val, decapsulatePrivateT_val]
  · simp only [bind_val, pure_val, decapsulatePrivateT_val]

/-! ### Where the accesses lie -/

theorem confined_ihlT {m : Mem} {iph n : ℕ} : Confined iph n (ihlT m iph) ↔ 1 ≤ n := by
  unfold ihlT
  rw [confined_bind, confined_readU8]
  simp

/-- The words of the marker lie in the packet, as far as they are read. -/
def MarkerFits (skb : SkBuff) : Prop :=
  ipHdrLen skb.mem skb.data + 4 ≤ skb.len ∧
    (be16 skb.mem (skb.data + ipHdrLen skb.mem skb.data) = 0xFE →
      ipHdrLen skb.mem skb.data + 8 ≤ skb.len)

theorem confined_hasMarkerT {skb : SkBuff} (hnet : skb.networkHeader = skb.data) :
    Confined skb.data skb.len (hasMarkerT skb.mem skb.networkHeader) ↔ MarkerFits skb := by
  unfold hasMarkerT MarkerFits
  rw [hnet, confined_bind, confined_bind, confined_ihlT, confined_readBlock (by omega),
    confined_ite, readBlock_val, ihlT_val]
  by_cases hp : be16 skb.mem (skb.data + ipHdrLen skb.mem skb.data) = 0xFE
  · rw [if_pos (by simpa using hp), confined_bind, confined_readBlock (by omega)]
    simp only [hp, confined_pure, true_implies, and_true]
    omega
  · rw [if_neg (by simpa using hp), confined_pure]
    simp only [hp, false_implies, and_true]
    omega

/-- The decapsulation stays in the packet when its header lies in the packet and it is given up:
the copy that closes the gap never does. -/
def GivenUp (skb : SkBuff) (granted : Bool) : Prop :=
  ipHdrLen skb.mem skb.data + geosvrHdrSize ≤ skb.len ∧ (skb.len < geoLen skb ∨ granted = false)

theorem confined_decapsulatePrivateT {skb : SkBuff} (hnet : skb.networkHeader = skb.data)
    (hpos : 0 < ipHdrLen skb.mem skb.data) (granted : Bool) :
    Confined skb.data skb.len (decapsulatePrivateT granted skb) ↔ GivenUp skb granted := by
  unfold decapsulatePrivateT GivenUp
  dsimp only
  rw [hnet, confined_bind, confined_bind, confined_ihlT, confined_readU32, confined_ite,
    confined_ite, readU32_val, ihlT_val]
  have hgeo : (geosvrHdrSize + (u32 skb.mem (skb.data + ipHdrLen skb.mem skb.data + 16)).toNat) %
      2 ^ 32 = geoLen skb := rfl
  rw [hgeo]
  unfold SkBuff.mayPull geosvrHdrSize
  by_cases hlen : geoLen skb ≤ skb.len
  · cases granted with
    | false =>
        rw [if_neg (by simpa using hlen), if_pos Bool.not_false, confined_pure]
        simp only [or_true, and_true]
        omega
    | true =>
        have hmove : ¬ Confined skb.data skb.len (move skb.mem (skb.data + ipHdrLen skb.mem skb.data)
            (skb.data + ipHdrLen skb.mem skb.data + geoLen skb)
            (skb.len + ipHdrLen skb.mem skb.data - geoLen skb)) :=
          not_confined_move (by omega) (by omega)
        rw [if_neg (by simpa using hlen), if_neg (by decide), confined_bind, confined_bind]
        refine iff_of_false (fun h => hmove h.2.2.2.1) (fun h => ?_)
        have hgiven := h.2
        simp only [Bool.true_eq_false, or_false] at hgiven
        omega
  · rw [if_pos (by simpa using hlen), confined_pure]
    simp only [and_true]
    omega

/-- The marker does not lie in the first bytes of an IPv4 header. -/
theorem marker_pos {m : Mem} {iph : ℕ} (hversion : (m iph).toNat / 16 = 4)
    (hm : hasMarker m iph = true) : 0 < ipHdrLen m iph := by
  unfold hasMarker at hm
  by_contra h0
  have hzero : ipHdrLen m iph = 0 := by omega
  simp only [hzero, Nat.add_zero, Bool.and_eq_true, beq_iff_eq] at hm
  have h := congrArg UInt16.toNat hm.1
  have := (m (iph + 1)).toNat_lt
  simp only [be16, UInt16.toNat_ofNat'] at h
  have : (0xFE : UInt16).toNat = 254 := rfl
  omega

/-! ### The hook's inspection of a packet -/

/-- What `geosvr_ip_has_encapsulated` answers, and what `geosvr_ip_decapsulate` leaves if it is
called. -/
structure Inspection where
  marked : Bool
  decapsulation : Option Decapsulation

/-- The two calls of the hook at `NF_INET_PRE_ROUTING`. -/
def inspect (c : Capture) : Traced Inspection := do
  let r ← hasEncapsulatedT c.probeGranted c.probeId c.skb
  if r.1 then
    let d ← decapsulateT c.copyGranted c.hdrGranted c.copyId r.2
    return ⟨true, some d⟩
  else
    return ⟨false, none⟩

/-- The accesses lie in the packet, a packet too short for its header and route is rejected and
stays as it is, and a header that is returned is backed by its route. -/
structure Safe (c : Capture) : Prop where
  confined : Confined c.skb.data c.skb.len (inspect c)
  rejected : ∀ d, (inspect c).val.decapsulation = some d →
    c.skb.len < ipHdrLen c.skb.mem c.skb.data + geosvrHdrSize +
      (u32 c.skb.mem (c.skb.data + ipHdrLen c.skb.mem c.skb.data + 16)).toNat →
    d.geoHdr = none ∧ d.skb.packet = c.skb.packet
  backed : ∀ d hdr, (inspect c).val.decapsulation = some d → d.geoHdr = some hdr →
    geosvrHdrSize + hdr.routeLen.toNat ≤ hdr.size

/-- The first function, and the second one, have an `sk_buff` to work on. -/
def Probed (c : Capture) : Prop := Private c.skb ∨ c.probeGranted = true
def Opened (c : Capture) : Prop := Private c.skb ∨ OneOther c ∨ c.copyGranted = true

theorem hasEncapsulatedT_eq (c : Capture) :
    ((hasEncapsulatedT c.probeGranted c.probeId c.skb).val =
        (false, c.skb.kfreeSkb) ∧ ¬ Probed c ∧
      ∀ lo n, Confined lo n (hasEncapsulatedT c.probeGranted c.probeId c.skb)) ∨
    (∃ users kfrees, (hasEncapsulatedT c.probeGranted c.probeId c.skb).val =
        (hasMarker c.skb.mem c.skb.networkHeader,
          c.skb.held c.skb.id users c.skb.cloned kfrees) ∧
      Probed c ∧ (Private (c.skb.held c.skb.id users c.skb.cloned kfrees) ↔
        Private c.skb ∨ OneOther c) ∧
      ∀ lo n, Confined lo n (hasEncapsulatedT c.probeGranted c.probeId c.skb) ↔
        Confined lo n (hasMarkerT c.skb.mem c.skb.networkHeader)) := by
  unfold hasEncapsulatedT Probed
  by_cases hp : Private c.skb
  · rw [if_neg hp.notShared]
    refine Or.inr ⟨c.skb.users, c.skb.kfrees, ?_, Or.inl hp, iff_of_true hp (Or.inl hp), ?_⟩
    · rw [bind_val, pure_val, hasMarkerT_val]
      rfl
    · intro lo n
      rw [confined_bind, confined_pure, and_true]
  · rw [if_pos (notPrivate_iff.mp hp)]
    cases hg : c.probeGranted with
    | false => exact Or.inl ⟨rfl, by simp [hp], fun lo n => (confined_pure _).mpr trivial⟩
    | true =>
        refine Or.inr ⟨c.skb.users - 1, c.skb.kfrees + 1, ?_, Or.inr rfl, ?_, ?_⟩
        · show (hasMarkerT c.skb.mem c.skb.networkHeader >>= _).val = _
          rw [bind_val, pure_val, hasMarkerT_val]
          rfl
        · unfold Private OneOther SkBuff.held at *
          simp only
          constructor
          · rintro ⟨hu, hc⟩
            exact Or.inr ⟨by omega, hc⟩
          · rintro (h | ⟨hu, hc⟩)
            · exact absurd h hp
            · exact ⟨by omega, hc⟩
        · intro lo n
          show Confined lo n (hasMarkerT c.skb.mem c.skb.networkHeader >>= _) ↔ _
          rw [confined_bind, confined_pure, and_true]

/-- A failed or refused decapsulation returns nothing and leaves the caller's packet alone. -/
theorem decapsulate_givenUp {skb : SkBuff} {copyGranted granted : Bool} {copyId : ℕ}
    (hnet : skb.networkHeader = skb.data)
    (h : Private skb ∨ copyGranted = true → GivenUp skb granted) :
    (geosvrIpDecapsulate copyGranted granted copyId skb).geoHdr = none ∧
      (geosvrIpDecapsulate copyGranted granted copyId skb).skb.packet = skb.packet := by
  have hnot : GivenUp skb granted → ¬ (granted = true ∧ geoLen skb ≤ skb.len) := by
    rintro ⟨-, hlt | hg⟩ ⟨hg', hle⟩
    · omega
    · rw [hg] at hg'
      cases hg'
  unfold geosvrIpDecapsulate
  by_cases hp : Private skb
  · rw [if_neg hp.notShared, decapsulatePrivate_none hnet (hnot (h (Or.inl hp)))]
    exact ⟨rfl, rfl⟩
  · rw [if_pos (notPrivate_iff.mp hp)]
    cases copyGranted with
    | false => exact ⟨rfl, rfl⟩
    | true =>
        have hcopy : decapsulatePrivate granted (skb.held copyId 1 false 0) =
            ((decapsulatePrivate granted skb).1.held copyId 1 false 0,
              (decapsulatePrivate granted skb).2) := decapsulatePrivate_held _ _ _ _ _ _
        show (decapsulatePrivate granted (skb.held copyId 1 false 0)).2 = none ∧ _
        rw [hcopy, decapsulatePrivate_none hnet (hnot (h (Or.inr rfl)))]
        exact ⟨rfl, rfl⟩

theorem confined_decapsulateT {skb : SkBuff} (hnet : skb.networkHeader = skb.data)
    (hpos : 0 < ipHdrLen skb.mem skb.data) (copyGranted granted : Bool) (copyId : ℕ) :
    Confined skb.data skb.len (decapsulateT copyGranted granted copyId skb) ↔
      (Private skb ∨ copyGranted = true → GivenUp skb granted) := by
  unfold decapsulateT
  by_cases hp : Private skb
  · rw [if_neg hp.notShared, confined_bind, confined_pure, and_true,
      confined_decapsulatePrivateT hnet hpos]
    simp only [hp, true_or, true_implies]
  · rw [if_pos (notPrivate_iff.mp hp)]
    cases copyGranted with
    | false => exact iff_of_true ((confined_pure _).mpr trivial) (by simp [hp])
    | true =>
        show Confined skb.data skb.len
          (decapsulatePrivateT granted (skb.held copyId 1 false 0) >>= _) ↔ _
        rw [confined_bind, confined_pure, and_true]
        simp only [or_true, true_implies]
        exact @confined_decapsulatePrivateT (skb.held copyId 1 false 0) hnet hpos granted

/-! ### When the inspection is safe -/

section inspect

variable {c : Capture}

/-- Without a decapsulation only the accesses count. -/
theorem safe_of_none (h : (inspect c).val.decapsulation = none) :
    Safe c ↔ Confined c.skb.data c.skb.len (inspect c) := by
  refine ⟨Safe.confined, fun hc => ⟨hc, ?_, ?_⟩⟩
  · intro d hd
    rw [h] at hd
    cases hd
  · intro d hdr hd
    rw [h] at hd
    cases hd

/-- A decapsulation that returns nothing and leaves the packet alone does no harm. -/
theorem safe_of_refused {d : Decapsulation} (h : (inspect c).val.decapsulation = some d)
    (hd : d.geoHdr = none ∧ d.skb.packet = c.skb.packet)
    (hc : Confined c.skb.data c.skb.len (inspect c)) : Safe c := by
  refine ⟨hc, ?_, ?_⟩
  · intro d' hd' _
    obtain rfl := Option.some.inj (h.symm.trans hd')
    exact hd
  · intro d' hdr hd' hg
    obtain rfl := Option.some.inj (h.symm.trans hd')
    rw [hd.1] at hg
    cases hg

/-- Without the marker the packet is only probed. -/
theorem inspect_unmarked {skb : SkBuff}
    (hval : (hasEncapsulatedT c.probeGranted c.probeId c.skb).val = (false, skb)) :
    (inspect c).val.decapsulation = none ∧
      (Confined c.skb.data c.skb.len (inspect c) ↔
        Confined c.skb.data c.skb.len (hasEncapsulatedT c.probeGranted c.probeId c.skb)) := by
  unfold inspect
  rw [bind_val, confined_bind, hval]
  exact ⟨rfl, and_iff_left ((confined_pure _).mpr trivial)⟩

/-- With the marker the packet is decapsulated, too. -/
theorem inspect_marked {skb : SkBuff}
    (hval : (hasEncapsulatedT c.probeGranted c.probeId c.skb).val = (true, skb)) :
    (inspect c).val.decapsulation =
        some (geosvrIpDecapsulate c.copyGranted c.hdrGranted c.copyId skb) ∧
      (Confined c.skb.data c.skb.len (inspect c) ↔
        Confined c.skb.data c.skb.len (hasEncapsulatedT c.probeGranted c.probeId c.skb) ∧
        Confined c.skb.data c.skb.len
          (decapsulateT c.copyGranted c.hdrGranted c.copyId skb)) := by
  unfold inspect
  rw [bind_val, confined_bind, hval]
  refine ⟨congrArg some (decapsulateT_val _ _ _ _), and_congr_right (fun _ => ?_)⟩
  show Confined c.skb.data c.skb.len (decapsulateT _ _ _ skb >>= _) ↔ _
  rw [confined_bind, confined_pure, and_true]

end inspect

/-- **Hostile packets.** The inspection of an IPv4 packet is safe exactly when the words of the
marker that are read lie in it, and the decapsulation, if it is called, is given up. -/
theorem safe_iff {c : Capture} (hversion : (c.skb.mem c.skb.data).toNat / 16 = 4)
    (hnet : c.skb.networkHeader = c.skb.data) :
    Safe c ↔ (Probed c → MarkerFits c.skb ∧
      (hasMarker c.skb.mem c.skb.data = true → Opened c → GivenUp c.skb c.hdrGranted)) := by
  obtain ⟨hval, hnp, hconf⟩ | ⟨users, kfrees, hval, hp, hpriv, hconf⟩ := hasEncapsulatedT_eq c
  · obtain ⟨hnone, hinspect⟩ := inspect_unmarked hval
    rw [safe_of_none hnone]
    exact iff_of_true (hinspect.mpr (hconf _ _)) (fun h => absurd h hnp)
  · simp only [hp, true_implies]
    rw [hnet] at hval
    cases hm : hasMarker c.skb.mem c.skb.data with
    | false =>
        rw [hm] at hval
        obtain ⟨hnone, hinspect⟩ := inspect_unmarked hval
        rw [safe_of_none hnone, hinspect, hconf, confined_hasMarkerT hnet]
        simp only [Bool.false_eq_true, false_implies, and_true]
    | true =>
        rw [hm] at hval
        obtain ⟨hsome, hinspect⟩ := inspect_marked hval
        have hpos : 0 < ipHdrLen c.skb.mem c.skb.data := marker_pos hversion hm
        have hopen : Opened c ↔ Private (c.skb.held c.skb.id users c.skb.cloned kfrees) ∨
            c.copyGranted = true := by
          rw [hpriv, or_assoc]
          rfl
        have hdec : Confined c.skb.data c.skb.len (decapsulateT c.copyGranted c.hdrGranted c.copyId
            (c.skb.held c.skb.id users c.skb.cloned kfrees)) ↔
              (Opened c → GivenUp c.skb c.hdrGranted) := by
          rw [hopen]
          exact @confined_decapsulateT (c.skb.held c.skb.id users c.skb.cloned kfrees) hnet hpos
            c.copyGranted c.hdrGranted c.copyId
        rw [hconf, confined_hasMarkerT hnet, hdec] at hinspect
        simp only [true_implies]
        refine ⟨fun h => hinspect.mp h.confined, fun h => ?_⟩
        have hgiven := @decapsulate_givenUp (c.skb.held c.skb.id users c.skb.cloned kfrees)
          c.copyGranted c.hdrGranted c.copyId hnet (fun hp => h.2 (hopen.mpr hp))
        exact safe_of_refused hsome hgiven (hinspect.mpr h)

/-- The header cannot be allocated. -/
theorem safe_iff_sample : Safe { incoming 1 false with hdrGranted := false } :=
  (safe_iff (by decide) rfl).mpr
    (fun _ => ⟨⟨by decide, by decide⟩, fun _ _ => ⟨by decide, Or.inr rfl⟩⟩)

/-- An ordinary encapsulated packet of 48 bytes at 16, with an IPv4 header of 20 and a GeoSVR header
of 24 bytes: the copy that closes the gap reads the 44 bytes from 60, of which 4 are in the
packet. -/
theorem copy_overruns :
    (⟨60, 44⟩ : Span) ∈ (inspect (incoming 1 false)).log ∧
      ¬ (⟨60, 44⟩ : Span).Inside (incoming 1 false).skb.data (incoming 1 false).skb.len ∧
      ¬ Safe (incoming 1 false) := by
  have hmem : (⟨60, 44⟩ : Span) ∈ (inspect (incoming 1 false)).log := by decide
  have hout : ¬ (⟨60, 44⟩ : Span).Inside (incoming 1 false).skb.data
      (incoming 1 false).skb.len := by
    decide
  exact ⟨hmem, hout, fun h => hout (h.confined _ hmem)⟩

end GeoSvr.Kernel
