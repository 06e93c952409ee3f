import GeoSvr.Bounds
import GeoSvr.RoundTrip

/-! # The marker of encapsulated packets

A GeoSVR header is recognised by what lies behind the IPv4 header: two words, of which `ntohs`
compares the low halves with `GEOSVR_HDR_PREFIX`.  Nothing else sets an encapsulated packet apart,
neither its protocol number nor its addresses, so a packet whose payload begins like the marker is
taken for one, whoever sent it.

`Misread` says when the hook keeps or changes an incoming unicast packet: it has the marker, the
header it seems to have can be taken off, and it is not left as it was by accident.  In the other
direction every packet that `geosvr_ip_encapsulate` produced has the marker, and keeps it on its
way. -/

namespace GeoSvr.Kernel

open Bytes

/-! ### Packets that seem to be encapsulated -/

/-- The packet of the call is for one host. -/
def Unicast (cfg : Config) (c : Capture) : Prop :=
  let d := daddr c.skb.mem c.skb.networkHeader
  d ≠ INADDR_BROADCAST ∧ inMulticast d = false ∧ d ≠ bcaddr cfg c

/-- The header is taken off the `sk_buff` the hook was called with. -/
def InPlace (c : Capture) : Prop := Private c.skb ∨ OneOther c

instance (c : Capture) : Decidable (OneOther c) := inferInstanceAs (Decidable (_ ∧ _))

instance (c : Capture) : Decidable (InPlace c) := inferInstanceAs (Decidable (_ ∨ _))

/-- A packet for this host stays as it is when nothing is taken out and its checksum is right. -/
def Harmless (cfg : Config) (c : Capture) : Prop :=
  innerDaddr c.skb = ifaddr cfg c ∧ geoLen c.skb = 0 ∧
    bytes (ipSendCheck c.skb.mem c.skb.data) c.skb.data c.skb.len = c.skb.packet

/-- The hook takes the packet for an encapsulated one, and keeps or changes it. -/
def Misread (cfg : Config) (c : Capture) : Prop :=
  bypass cfg c = none ∧ hasMarker c.skb.mem c.skb.networkHeader = true ∧ Probed c ∧
    c.hdrGranted = true ∧ geoLen c.skb ≤ c.skb.len ∧
    if InPlace c then ¬ Harmless cfg c
    else c.copyGranted = true ∧ daddr c.skb.mem c.skb.data ≠ ifaddr cfg c

/-- The hook lets the packet of the call go on, byte for byte. -/
def LetsThrough (cfg : Config) (c : Capture) (q : Queue) : Prop :=
  (geosvrHook cfg c q).verdict = .accept ∧ (geosvrHook cfg c q).skb.packet = c.skb.packet

section hook

variable {cfg : Config} {c : Capture}

/-- A unicast packet is not dropped before the `switch`. -/
theorem Unicast.bypass (hu : Unicast cfg c) :
    bypass cfg c = none ∨ bypass cfg c = some .accept := by
  obtain ⟨hb, hm, hi⟩ := hu
  unfold Kernel.bypass
  simp only [hb, hm, hi, Bool.false_eq_true, or_self, if_false]
  split_ifs <;> simp

theorem letsThrough_of_bypass (h : bypass cfg c = some .accept) (q : Queue) :
    LetsThrough cfg c q := by
  unfold LetsThrough geosvrHook
  rw [h]
  exact ⟨rfl, rfl⟩

/-- A packet without the marker is probed and let through. -/
theorem letsThrough_unmarked (hb : bypass cfg c = none) (hpre : c.hooknum = .preRouting)
    (hm : hasMarker c.skb.mem c.skb.networkHeader = false) (q : Queue) :
    LetsThrough cfg c q := by
  have hprobe : (geosvrIpHasEncapsulated c.probeGranted c.probeId c.skb).1 = false := by
    unfold geosvrIpHasEncapsulated SkBuff.pskbCopy
    cases c.probeGranted <;> split_ifs <;> simp [hm]
  have hskb := hasEncapsulated_skb c.probeGranted c.probeId c.skb
  unfold LetsThrough geosvrHook
  simp only [hb, hpre, hprobe, Bool.false_eq_true, if_false, hskb]
  split_ifs <;> exact ⟨trivial, rfl⟩

/-- Taking the header off in place leaves the packet alone when it is given up, or when there is
nothing to take out and the checksum is right. -/
theorem decapsulatePrivate_packet_iff {skb : SkBuff} (hnet : skb.networkHeader = skb.data)
    (h : geoLen skb ≤ skb.len) :
    (decapsulatePrivate true skb).1.packet = skb.packet ↔
      geoLen skb = 0 ∧ bytes (ipSendCheck skb.mem skb.data) skb.data skb.len = skb.packet := by
  constructor
  · intro he
    have hlen := congrArg List.length he
    simp only [SkBuff.packet, bytes_length, (decapsulatePrivate_some hnet h).2.1] at hlen
    have hzero : geoLen skb = 0 := by omega
    exact ⟨hzero, (decapsulatePrivate_packet_zero hnet hzero).symm.trans he⟩
  · rintro ⟨hzero, hsum⟩
    exact (decapsulatePrivate_packet_zero hnet hzero).trans hsum

/-- A packet that is decapsulated in place. -/
theorem letsThrough_inPlace (hnet : c.skb.networkHeader = c.skb.data) {q : Queue}
    (hv : (geosvrHook cfg c q).verdict = if Relays cfg c then Verdict.stolen else Verdict.accept)
    (hp : (geosvrHook cfg c q).skb.packet = (decapsulatePrivate c.hdrGranted c.skb).1.packet) :
    LetsThrough cfg c q ↔
      ¬ (c.hdrGranted = true ∧ geoLen c.skb ≤ c.skb.len ∧ ¬ Harmless cfg c) := by
  unfold LetsThrough
  rw [hv, hp]
  by_cases h : c.hdrGranted = true ∧ geoLen c.skb ≤ c.skb.len
  · obtain ⟨hg, hl⟩ := h
    have hpacket := decapsulatePrivate_packet_iff hnet hl
    have hrel : Relays cfg c ↔ innerDaddr c.skb ≠ ifaddr cfg c :=
      ⟨fun hr => hr.2.2, fun hr => ⟨hg, hl, hr⟩⟩
    rw [hg, hpacket]
    simp only [hrel, hl, true_and, not_not, Harmless]
    by_cases hd : innerDaddr c.skb = ifaddr cfg c
    · simp [hd]
    · simp [hd]
  · have hrel : ¬ Relays cfg c := fun hr => h ⟨hr.1, hr.2.1⟩
    rw [decapsulatePrivate_none hnet h, if_neg hrel]
    exact iff_of_true ⟨rfl, rfl⟩ (fun hn => h ⟨hn.1, hn.2.1⟩)

/-- A packet with the marker is let through unless it is misread. -/
theorem letsThrough_marked (hm : Marked cfg c) (q : Queue) :
    LetsThrough cfg c q ↔ ¬ Misread cfg c := by
  have hmis : Misread cfg c ↔ Probed c ∧ c.hdrGranted = true ∧ geoLen c.skb ≤ c.skb.len ∧
      if InPlace c then ¬ Harmless cfg c
      else c.copyGranted = true ∧ daddr c.skb.mem c.skb.data ≠ ifaddr cfg c := by
    unfold Misread
    simp only [hm.seen, hm.marker, true_and]
  rw [hmis]
  by_cases hp : Private c.skb
  · obtain ⟨hv, hpacket, -⟩ := hook_private hm hp q
    have hin : InPlace c := Or.inl hp
    have hprobed : Probed c := Or.inl hp
    rw [letsThrough_inPlace hm.netHdr hv hpacket]
    simp only [hin, hprobed, if_true, true_and]
  · cases hg : c.probeGranted with
    | false =>
        obtain ⟨hv, hskb⟩ := hook_accepts hm (probe_notPrivate hp hm.marker hg) q
        refine iff_of_true ⟨hv, by rw [hskb]; rfl⟩ (fun h => ?_)
        cases h.1 with
        | inl hpriv => exact hp hpriv
        | inr hyes => rw [hg] at hyes; cases hyes
    | true =>
        have hprobed : Probed c := Or.inr hg
        by_cases ho : OneOther c
        · have huser : c.skb.users - 1 = 1 := by rw [ho.1]
          have hin : InPlace c := Or.inr ho
          obtain ⟨hv, hpacket, -⟩ :=
            hook_inPlace hm ⟨huser, ho.2⟩ (probe_notPrivate hp hm.marker hg) q
          rw [letsThrough_inPlace hm.netHdr hv hpacket]
          simp only [hin, hprobed, if_true, true_and]
        · obtain ⟨hskb, hv⟩ := hook_copies hm hp ho hg q
          have hin : ¬ InPlace c := fun h => h.elim hp ho
          have hpacket : (geosvrHook cfg c q).skb.packet = c.skb.packet := by
            rw [hskb]
            rfl
          unfold LetsThrough
          rw [hv]
          simp only [hpacket, hin, hprobed, if_false, true_and, and_true]
          split_ifs with hst
          · exact iff_of_false (by decide) (fun h => h ⟨hst.2.1, hst.2.2.1, hst.1, hst.2.2.2⟩)
          · exact iff_of_true rfl (fun h => hst ⟨h.2.2.1, h.1, h.2.1, h.2.2.2⟩)

end hook

/-- A unicast packet is let through unless it is misread. -/
theorem letsThrough_iff {cfg : Config} {c : Capture} (hpre : c.hooknum = .preRouting)
    (hu : Unicast cfg c) (hnet : c.skb.networkHeader = c.skb.data) (hlive : 0 < c.skb.users)
    (q : Queue) : LetsThrough cfg c q ↔ ¬ Misread cfg c := by
  cases hu.bypass with
  | inr hb =>
      refine iff_of_true (letsThrough_of_bypass hb q) (fun h => ?_)
      rw [h.1] at hb
      cases hb
  | inl hb =>
      cases hm : hasMarker c.skb.mem c.skb.networkHeader with
      | false =>
          refine iff_of_true (letsThrough_unmarked hb hpre hm q) (fun h => ?_)
          rw [h.2.1] at hm
          cases hm
      | true => exact letsThrough_marked ⟨hb, hpre, hm, hnet, hlive⟩ q

/-! ### Packets that are encapsulated -/

/-- The low half of a prefix word, in network order. -/
theorem be16_of_prefix {m : Mem} {a : ℕ} (h : u32 m a = hdrPrefix) : be16 m a = 0xFE := by
  have hw := congrArg UInt32.toNat h
  have hval : hdrPrefix.toNat = 65024 := rfl
  simp only [u32, UInt32.toNat_ofNat', hval] at hw
  have := (m a).toNat_lt
  have := (m (a + 1)).toNat_lt
  have := (m (a + 2)).toNat_lt
  have := (m (a + 3)).toNat_lt
  apply UInt16.toNat_inj.mp
  have hmark : (0xFE : UInt16).toNat = 254 := rfl
  simp only [be16, UInt16.toNat_ofNat', hmark]
  omega

/-- The two prefix words lie behind the header at `iph`. -/
def Prefixed (m : Mem) (iph : ℕ) : Prop :=
  u32 m (iph + ipHdrLen m iph) = hdrPrefix ∧ u32 m (iph + ipHdrLen m iph + 4) = hdrPrefix

theorem Prefixed.marker {m : Mem} {iph : ℕ} (h : Prefixed m iph) : hasMarker m iph = true := by
  simp only [hasMarker, be16_of_prefix h.1, be16_of_prefix h.2]
  decide

/-- Only the first byte of the header and the two words count. -/
theorem Prefixed.congr {m m' : Mem} {a a' : ℕ} (h : Prefixed m a) (h₀ : m' a' = m a)
    (hi : ∀ i, i < 8 → m' (a' + (ipHdrLen m a + i)) = m (a + (ipHdrLen m a + i))) :
    Prefixed m' a' := by
  have hl : ipHdrLen m' a' = ipHdrLen m a := by unfold ipHdrLen; rw [h₀]
  obtain ⟨h1, h2⟩ := h
  unfold Prefixed
  rw [hl]
  constructor
  · rw [← h1]
    apply u32_congr
    intro i hlt
    rw [Nat.add_assoc, Nat.add_assoc]
    exact hi i (by omega)
  · rw [← h2]
    apply u32_congr
    intro i hlt
    rw [Nat.add_assoc, Nat.add_assoc, Nat.add_assoc, Nat.add_assoc]
    exact hi (4 + i) (by omega)

theorem fill_prefixed (m : Mem) (iph : ℕ) (msg : NlMsg) (h20 : 20 ≤ ipHdrLen m iph) :
    Prefixed (GeosvrHdr.fill m (iph + ipHdrLen m iph) msg) iph := by
  have hload := GeosvrHdr.load_fill m (iph + ipHdrLen m iph) msg
  have h₀ : ipHdrLen (GeosvrHdr.fill m (iph + ipHdrLen m iph) msg) iph = ipHdrLen m iph := by
    have hb := GeosvrHdr.fill_outside m (a := iph + ipHdrLen m iph) (x := iph) msg (by omega)
    unfold ipHdrLen at hb ⊢
    rw [hb]
  unfold Prefixed
  rw [h₀]
  exact ⟨congrArg GeosvrHdr.prefix0 hload, congrArg GeosvrHdr.prefix1 hload⟩

/-- What `geosvr_ip_encapsulate` writes into the packet has the marker. -/
theorem encapMem_prefixed {m : Mem} {nhdr ohdr size : ℕ} {msg : NlMsg}
    (h20 : 20 ≤ ipHdrLen m ohdr) :
    Prefixed (ipSendCheck (encapMem m nhdr ohdr size msg) nhdr) nhdr := by
  have hmove : ipHdrLen (memmove m nhdr ohdr (ipHdrLen m ohdr)) nhdr = ipHdrLen m ohdr := by
    have hb := memmove_inside m nhdr ohdr (i := 0) (n := ipHdrLen m ohdr) (by omega)
    rw [Nat.add_zero, Nat.add_zero] at hb
    unfold ipHdrLen at hb ⊢
    rw [hb]
  have hfill := fill_prefixed (memmove m nhdr ohdr (ipHdrLen m ohdr)) nhdr msg (by omega)
  refine hfill.congr ?_ (fun i hi => ?_)
  · rw [ipSendCheck_outside _ (by omega)]
    exact setBe16_outside _ _ (by omega)
  · have hlen : ipHdrLen (GeosvrHdr.fill (memmove m nhdr ohdr (ipHdrLen m ohdr))
        (nhdr + ipHdrLen (memmove m nhdr ohdr (ipHdrLen m ohdr)) nhdr) msg) nhdr =
          ipHdrLen m ohdr := by
      have hb := GeosvrHdr.fill_outside (memmove m nhdr ohdr (ipHdrLen m ohdr))
        (a := nhdr + ipHdrLen (memmove m nhdr ohdr (ipHdrLen m ohdr)) nhdr) (x := nhdr) msg
        (by omega)
      unfold ipHdrLen at hb hmove ⊢
      rw [hb]
      exact hmove
    rw [hlen, ipSendCheck_outside _ (by omega)]
    exact setBe16_outside _ _ (by omega)

/-- `skb₁` is what `geosvr_ip_encapsulate` made of an IPv4 packet. -/
def Produced (skb₁ : SkBuff) : Prop :=
  ∃ granted lookup skb msg, skb.networkHeader = skb.data ∧ skb.head ≤ skb.data ∧
    5 ≤ (skb.mem skb.data).toNat % 16 ∧
    geosvrIpEncapsulate granted lookup skb msg = (0, skb₁)

/-- It is private, and has the marker behind its header. -/
theorem Produced.prefixed {skb₁ : SkBuff} (h : Produced skb₁) :
    Prefixed skb₁.mem skb₁.data ∧ skb₁.networkHeader = skb₁.data ∧ Private skb₁ := by
  obtain ⟨granted, lookup, skb, msg, hnet, hhead, hihl, he⟩ := h
  unfold geosvrIpEncapsulate at he
  split_ifs at he with hsh
  · cases he
  · have hu : skb.users = 1 := by simpa [SkBuff.shared] using hsh
    cases hcow : skb.cow granted ((geosvrHdrSize + msg.routeLen.toNat) % 2 ^ 32) with
    | none => simp only [hcow] at he; cases he
    | some skb' =>
        obtain ⟨husers, hcl, -, hnet', -, hmem⟩ := SkBuff.cow_spec hcow hhead hnet
        simp only [hcow] at he
        cases hrt : lookup msg.nhop with
        | none => simp only [hrt] at he; cases he
        | some rt =>
            simp only [hrt] at he
            obtain rfl := (Prod.mk.inj he).2
            have h0 := hmem 0
            rw [Nat.add_zero, Nat.add_zero] at h0
            refine ⟨encapMem_prefixed ?_, rfl, husers.trans hu, hcl⟩
            show 20 ≤ ipHdrLen skb'.mem skb'.networkHeader
            unfold ipHdrLen
            rw [hnet', h0]
            omega

/-- Two `sk_buff`s with the same packet agree byte by byte. -/
theorem packet_bytes {skb skb' : SkBuff} (h : skb.packet = skb'.packet) :
    skb.len = skb'.len ∧ ∀ i, i < skb'.len → skb.mem (skb.data + i) = skb'.mem (skb'.data + i) := by
  have hlen : skb.len = skb'.len := by simpa [SkBuff.packet] using congrArg List.length h
  refine ⟨hlen, fun i hi => ?_⟩
  have hget := congrArg (fun l => l[i]?) h
  simpa [SkBuff.packet, hlen, hi] using hget

/-- A packet that holds the bytes of a produced one has the marker as well. -/
theorem Produced.carried {skb skb₁ : SkBuff} (h : Produced skb₁) (hp : skb.packet = skb₁.packet)
    (hnet : skb.networkHeader = skb.data) (hfit : ipHdrLen skb₁.mem skb₁.data + 8 ≤ skb₁.len) :
    Prefixed skb.mem skb.networkHeader := by
  obtain ⟨hpre, -, -⟩ := h.prefixed
  obtain ⟨-, hbyte⟩ := packet_bytes hp
  rw [hnet]
  exact hpre.congr (hbyte 0 (by omega)) (fun i hi => hbyte _ (by omega))

/-- A packet with the marker is recognised, unless it has to be copied and cannot be. -/
theorem hasEncapsulated_of_marker {skb : SkBuff} (hm : hasMarker skb.mem skb.networkHeader = true)
    {granted : Bool} (h : Private skb ∨ granted = true) (id : ℕ) :
    (geosvrIpHasEncapsulated granted id skb).1 = true := by
  unfold geosvrIpHasEncapsulated
  by_cases hp : Private skb
  · rw [if_neg hp.notShared]
    exact hm
  · obtain rfl := h.resolve_left hp
    rw [if_pos (notPrivate_iff.mp hp)]
    exact hm

/-- A UDP packet of 10.0.0.1 to 10.0.0.2 whose ports, length and checksum happen to be the marker;
the upper half of the first word is not zero, as it is in a header of this module. -/
def foreign : Capture :=
  { incoming 1 false with
    skb := ⟨1, write (fun _ => 0) 16 (incomingBytes.set 22 1), 0, 16, 48, 16, 1, false, 0, none⟩ }

theorem unicast_foreign : Unicast hostConfig foreign := by
  refine ⟨?_, ?_, ?_⟩ <;> decide

end GeoSvr.Kernel
