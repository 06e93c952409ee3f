import GeoSvr.Ipenc

/-! # Decapsulation undoes encapsulation

`Encapsulated orig skb hdr` is the layout of an encapsulated packet: the IPv4 header of `orig`
with its length field increased, the GeoSVR header `hdr`, the payload of `orig`.
`geosvrIpEncapsulate` establishes it, a transmission keeps it, since it only speaks of bytes of
the packet, and `geosvrIpDecapsulate` inverts it: although its copy runs past the tail, the
bytes it should not have moved lie behind the new tail.  Chains of relays follow by induction
on the number of hops. -/

namespace GeoSvr.Kernel

open Bytes

/-- A linear `sk_buff` with an IPv4 packet at `skb->data` whose checksum is the one
`ip_send_check` computes. -/
structure IsPacket (skb : SkBuff) : Prop where
  netHdr : skb.networkHeader = skb.data
  headroom : skb.head ≤ skb.data
  ihl : 5 ≤ (skb.mem skb.data).toNat % 16
  complete : ipHdrLen skb.mem skb.data ≤ skb.len
  check : ipSendCheck skb.mem skb.data = skb.mem

theorem IsPacket.hdrLen {skb : SkBuff} (h : IsPacket skb) : 20 ≤ ipHdrLen skb.mem skb.data := by
  have := h.ihl
  unfold ipHdrLen
  omega

/-- The layout of the encapsulation of `orig` with the header `hdr`. -/
structure Encapsulated (orig skb : SkBuff) (hdr : GeosvrHdr) : Prop where
  len : skb.len = orig.len + hdr.size
  header : ∀ i, i < ipHdrLen orig.mem orig.data → (i < 2 ∨ 4 ≤ i) → (i < 10 ∨ 12 ≤ i) →
    skb.mem (skb.data + i) = orig.mem (orig.data + i)
  totLen : totLen skb.mem skb.data = Kernel.totLen orig.mem orig.data + .ofNat hdr.size
  gap : GeosvrHdr.load skb.mem (skb.data + ipHdrLen orig.mem orig.data) hdr.size = hdr
  payload : ∀ i, ipHdrLen orig.mem orig.data ≤ i → i < orig.len →
    skb.mem (skb.data + hdr.size + i) = orig.mem (orig.data + i)

/-- The header that carries the fields of a message. -/
def hdrOf (msg : NlMsg) : GeosvrHdr where
  prefix0 := hdrPrefix
  prefix1 := hdrPrefix
  src := msg.src
  dst := msg.dst
  routeLen := msg.routeLen
  route := msg.route.takeD msg.routeLen.toNat 0
  size := geosvrHdrSize + msg.routeLen.toNat

/-! ### Encapsulation -/

section encapMem

variable {m : Mem} {nhdr hl size : ℕ} {msg : NlMsg}

theorem memmove_hdrLen (hhl : ipHdrLen m (nhdr + size) = hl) (h20 : 20 ≤ hl) :
    ipHdrLen (memmove m nhdr (nhdr + size) hl) nhdr = hl := by
  have h0 := memmove_inside m nhdr (nhdr + size) (i := 0) (n := hl) (by omega)
  rw [Nat.add_zero, Nat.add_zero] at h0
  unfold ipHdrLen at hhl ⊢
  rw [h0, hhl]

/-- The memory that `encapMem` leaves, `tot_len` apart. -/
theorem encapMem_apply (hhl : ipHdrLen m (nhdr + size) = hl) (h20 : 20 ≤ hl) {x : ℕ}
    (hx : x < nhdr + 2 ∨ nhdr + 4 ≤ x) :
    encapMem m nhdr (nhdr + size) size msg x =
      GeosvrHdr.fill (memmove m nhdr (nhdr + size) hl) (nhdr + hl) msg x := by
  unfold encapMem
  simp only [hhl, memmove_hdrLen hhl h20]
  exact setBe16_outside _ _ (by omega)

theorem encapMem_header (hhl : ipHdrLen m (nhdr + size) = hl) (h20 : 20 ≤ hl) {i : ℕ}
    (hi : i < hl) (hx : i < 2 ∨ 4 ≤ i) :
    encapMem m nhdr (nhdr + size) size msg (nhdr + i) = m (nhdr + size + i) := by
  rw [encapMem_apply hhl h20 (by omega), GeosvrHdr.fill_outside _ _ (by omega),
    memmove_inside m nhdr (nhdr + size) hi]

theorem encapMem_payload (hhl : ipHdrLen m (nhdr + size) = hl) (h20 : 20 ≤ hl)
    (hsize : geosvrHdrSize + msg.routeLen.toNat = size) {i : ℕ} (hi : hl ≤ i) :
    encapMem m nhdr (nhdr + size) size msg (nhdr + size + i) = m (nhdr + size + i) := by
  rw [encapMem_apply hhl h20 (by omega), GeosvrHdr.fill_outside _ _ (by omega),
    memmove_outside _ _ (by omega)]

theorem encapMem_gap (hhl : ipHdrLen m (nhdr + size) = hl) (h20 : 20 ≤ hl)
    (hsize : geosvrHdrSize + msg.routeLen.toNat = size) :
    GeosvrHdr.load (encapMem m nhdr (nhdr + size) size msg) (nhdr + hl) size = hdrOf msg := by
  have hload : GeosvrHdr.load (encapMem m nhdr (nhdr + size) size msg) (nhdr + hl) size =
      GeosvrHdr.load (GeosvrHdr.fill (memmove m nhdr (nhdr + size) hl) (nhdr + hl) msg) (nhdr + hl)
        size :=
    GeosvrHdr.load_congr (by omega) (fun i _ => encapMem_apply hhl h20 (by omega))
  rw [hload, ← hsize]
  exact GeosvrHdr.load_fill _ _ msg

theorem encapMem_totLen (hhl : ipHdrLen m (nhdr + size) = hl) (h20 : 20 ≤ hl) :
    totLen (encapMem m nhdr (nhdr + size) size msg) nhdr =
      totLen m (nhdr + size) + .ofNat size := by
  have hold : totLen (GeosvrHdr.fill (memmove m nhdr (nhdr + size) hl) (nhdr + hl) msg) nhdr =
      totLen m (nhdr + size) := by
    apply be16_congr
    · rw [GeosvrHdr.fill_outside _ _ (by omega)]
      exact memmove_inside m nhdr (nhdr + size) (i := 2) (by omega)
    · rw [GeosvrHdr.fill_outside _ _ (by omega)]
      exact memmove_inside m nhdr (nhdr + size) (i := 3) (by omega)
  unfold encapMem
  simp only [hhl, memmove_hdrLen hhl h20, hold]
  exact be16_setBe16 _ _ _

end encapMem

/-- A successful encapsulation has the layout, in a private buffer with the packet at
`skb->data`. -/
theorem encapsulate_spec {granted : Bool} {lookup : UInt32 → Option Rtable} {skb skb₁ : SkBuff}
    {msg : NlMsg} (hp : IsPacket skb) (hlen : msg.routeLen.toNat < 2 ^ 16)
    (h : geosvrIpEncapsulate granted lookup skb msg = (0, skb₁)) :
    Encapsulated skb skb₁ (hdrOf msg) ∧ skb₁.networkHeader = skb₁.data ∧
      skb₁.head ≤ skb₁.data ∧ skb₁.users = 1 ∧ skb₁.cloned = false := by
  unfold geosvrIpEncapsulate at h
  split_ifs at h with hsh
  · cases h
  · have hu : skb.users = 1 := by simpa [SkBuff.shared] using hsh
    have hsize : (geosvrHdrSize + msg.routeLen.toNat) % 2 ^ 32 =
        geosvrHdrSize + msg.routeLen.toNat := by
      unfold geosvrHdrSize; omega
    simp only [hsize] at h
    generalize hs : geosvrHdrSize + msg.routeLen.toNat = size at h
    cases hcow : skb.cow granted size with
    | none => rw [hcow] at h; cases h
    | some skb' =>
        obtain ⟨husers, hcl, hl', hnet, hroom, hmem⟩ := SkBuff.cow_spec hcow hp.headroom hp.netHdr
        rw [hcow] at h
        cases hrt : lookup msg.nhop with
        | none => simp only [hrt] at h; cases h
        | some rt =>
            simp only [hrt, SkBuff.push, SkBuff.resetNetworkHeader, SkBuff.setDst, hnet] at h
            obtain ⟨d, hd⟩ : ∃ d, skb'.data = d + size := ⟨skb'.data - size, by omega⟩
            simp only [hd, Nat.add_sub_cancel] at h hmem hroom
            obtain rfl := (Prod.mk.inj h).2
            have h0 := hmem 0
            rw [Nat.add_zero, Nat.add_zero] at h0
            have hhl : ipHdrLen skb'.mem (d + size) = ipHdrLen skb.mem skb.data := by
              unfold ipHdrLen; rw [h0]
            have h20 := hp.hdrLen
            refine ⟨⟨?_, ?_, ?_, ?_, ?_⟩, rfl, by simp only; omega, husers.trans hu, hcl⟩
            · simp only [hdrOf, hs, hl']
            · intro i hi h₂ h₁₀
              simp only
              rw [ipSendCheck_outside _ (by omega), encapMem_header hhl h20 hi h₂]
              exact hmem i
            · simp only [hdrOf, hs]
              rw [totLen_ipSendCheck, encapMem_totLen hhl h20]
              congr 1
              exact be16_congr (hmem 2) (hmem 3)
            · simp only [hdrOf, hs]
              rw [GeosvrHdr.load_congr (by omega) (fun i _ => ipSendCheck_outside _ (by omega))]
              simpa only [hdrOf, hs] using encapMem_gap hhl h20 hs
            · intro i hi _
              simp only [hdrOf, hs]
              rw [ipSendCheck_outside _ (by omega), encapMem_payload hhl h20 hs hi]
              exact hmem i

/-! ### Transmission -/

/-- `skb'` carries the packet of `skb` in a private buffer: `skb` itself, or what another host
receives of it. -/
structure Carries (skb skb' : SkBuff) : Prop where
  packet : skb'.packet = skb.packet
  netHdr : skb'.networkHeader = skb'.data
  headroom : skb'.head ≤ skb'.data
  users : skb'.users = 1
  cloned : skb'.cloned = false

theorem packet_getElem {skb skb' : SkBuff} (h : skb'.packet = skb.packet) :
    skb'.len = skb.len ∧ ∀ i, i < skb.len → skb'.mem (skb'.data + i) = skb.mem (skb.data + i) := by
  have hlen : skb'.len = skb.len := by
    simpa [SkBuff.packet] using congrArg List.length h
  refine ⟨hlen, fun i hi => ?_⟩
  have := List.getElem_of_eq h (i := i) (by simpa [SkBuff.packet, hlen] using hi)
  simpa [SkBuff.packet] using this

theorem Encapsulated.carried {orig skb skb' : SkBuff} {hdr : GeosvrHdr}
    (h : Encapsulated orig skb hdr) (horig : IsPacket orig) (hs : geosvrHdrSize ≤ hdr.size)
    (hr : Carries skb skb') : Encapsulated orig skb' hdr := by
  obtain ⟨hlen, hb⟩ := packet_getElem hr.packet
  have hl := h.len
  have h20 := horig.hdrLen
  have hc := horig.complete
  constructor
  · rw [hlen, hl]
  · intro i hi h₂ h₁₀
    rw [hb i (by omega), h.header i hi h₂ h₁₀]
  · rw [← h.totLen]
    exact be16_congr (hb 2 (by omega)) (hb 3 (by omega))
  · rw [← h.gap]
    have : (GeosvrHdr.load skb.mem (skb.data + ipHdrLen orig.mem orig.data) hdr.size).size =
      hdr.size := rfl
    rw [this]
    apply GeosvrHdr.load_congr hs
    intro i hi
    rw [Nat.add_assoc, Nat.add_assoc, hb _ (by omega)]
  · intro i hi hi'
    rw [Nat.add_assoc, hb _ (by omega), ← Nat.add_assoc, h.payload i hi hi']

/-! ### Decapsulation -/

/-- The memory a decapsulation leaves, before the checksum is stored. -/
theorem closed_header {orig skb : SkBuff} {hdr : GeosvrHdr} {n : ℕ} (horig : IsPacket orig)
    (h : Encapsulated orig skb hdr) {m : Mem}
    (hm : m = memmove skb.mem (skb.data + ipHdrLen orig.mem orig.data)
      (skb.data + ipHdrLen orig.mem orig.data + hdr.size) n) :
    ∀ i, i < ipHdrLen orig.mem orig.data → (i < 10 ∨ 12 ≤ i) →
      setBe16 m (skb.data + 2) (totLen m skb.data - .ofNat hdr.size) (skb.data + i) =
        orig.mem (orig.data + i) := by
  have h20 := horig.hdrLen
  have hout : ∀ i, i < ipHdrLen orig.mem orig.data → m (skb.data + i) = skb.mem (skb.data + i) := by
    intro i hi
    rw [hm, memmove_outside _ _ (by omega)]
  have htot : totLen m skb.data - .ofNat hdr.size = totLen orig.mem orig.data := by
    have e : totLen m skb.data = totLen skb.mem skb.data :=
      be16_congr (hout 2 (by omega)) (hout 3 (by omega))
    rw [e, h.totLen, UInt16.add_sub_cancel]
  intro i hi h₁₀
  by_cases h₂ : i < 2 ∨ 4 ≤ i
  · rw [setBe16_outside _ _ (by omega), hout i hi, h.header i hi h₂ h₁₀]
  · have hback := be16_inj ((be16_setBe16 m (skb.data + 2) _).trans htot)
    obtain rfl | rfl : i = 2 ∨ i = 3 := by omega
    · exact hback.1
    · exact hback.2

/-- The checksum of a header that is the one of the packet but for its checksum. -/
theorem IsPacket.check_restored {orig : SkBuff} (horig : IsPacket orig) {m : Mem} {d : ℕ}
    (h : ∀ i, i < ipHdrLen orig.mem orig.data → (i < 10 ∨ 12 ≤ i) →
      m (d + i) = orig.mem (orig.data + i)) :
    ∀ i, i < ipHdrLen orig.mem orig.data → ipSendCheck m d (d + i) = orig.mem (orig.data + i) := by
  intro i hi
  have h20 := horig.hdrLen
  have h0 := h 0 (by omega) (by omega)
  rw [Nat.add_zero, Nat.add_zero] at h0
  have hhl : ipHdrLen m d = ipHdrLen orig.mem orig.data := by
    unfold ipHdrLen
    rw [h0]
  rw [ipSendCheck_congr h0 (fun i hi hx => h i (hhl ▸ hi) hx) i (hhl ▸ hi), horig.check]

/-- Decapsulation of the layout when its allocation is granted: the header comes back, and the
packet is the original one. -/
theorem decapsulatePrivate_spec {orig enc skb : SkBuff} {hdr : GeosvrHdr} (horig : IsPacket orig)
    (henc : Encapsulated orig enc hdr) (hr : Carries enc skb)
    (hsize : hdr.size = geosvrHdrSize + hdr.routeLen.toNat) (h32 : hdr.size < 2 ^ 32) :
    ∃ skb₁, decapsulatePrivate true skb = (skb₁, some hdr) ∧ Carries orig skb₁ := by
  have h := henc.carried horig (by omega) hr
  have h20 := horig.hdrLen
  have hc := horig.complete
  have hL := h.len
  have h0 := h.header 0 (by omega) (by omega) (by omega)
  rw [Nat.add_zero, Nat.add_zero] at h0
  generalize hhl' : ipHdrLen orig.mem orig.data = hl at h20 hc
  have hhl : ipHdrLen skb.mem skb.data = hl := by
    rw [← hhl']
    unfold ipHdrLen
    rw [h0]
  have hgap := h.gap
  rw [hhl'] at hgap
  have hlen : (geosvrHdrSize + (u32 skb.mem (skb.data + hl + 16)).toNat) % 2 ^ 32 = hdr.size := by
    have e : u32 skb.mem (skb.data + hl + 16) = hdr.routeLen := congrArg GeosvrHdr.routeLen hgap
    rw [e, ← hsize, Nat.mod_eq_of_lt h32]
  have hpull : skb.mayPull hdr.size = true := by
    simp only [SkBuff.mayPull, decide_eq_true_eq]
    omega
  have htrim : skb.len - hdr.size < skb.len := by
    unfold geosvrHdrSize at hsize
    omega
  unfold decapsulatePrivate
  simp only [hr.netHdr, hhl, hlen, hpull, hgap, SkBuff.trim, if_pos htrim,
    SkBuff.resetNetworkHeader, Bool.not_true, Bool.false_eq_true, if_false]
  generalize hm : memmove skb.mem (skb.data + hl) (skb.data + hl + hdr.size)
    (skb.len + hl - hdr.size) = m
  have hclosed := closed_header horig h (n := skb.len + hl - hdr.size) (m := m)
    (by rw [hhl']; exact hm.symm)
  rw [hhl'] at hclosed
  generalize hm₀ : setBe16 m (skb.data + 2) (totLen m skb.data - .ofNat hdr.size) = m₀ at hclosed
  have hpay : ∀ i, hl ≤ i → i < orig.len → m₀ (skb.data + i) = orig.mem (orig.data + i) := by
    intro i hi hi'
    obtain ⟨j, rfl⟩ : ∃ j, i = hl + j := ⟨i - hl, by omega⟩
    rw [← hm₀, setBe16_outside _ _ (by omega), ← hm, ← Nat.add_assoc,
      memmove_inside _ _ _ (by omega)]
    have := h.payload (hl + j) (by omega) hi'
    rw [← this]
    congr 1
    omega
  have hcheck : ∀ i, i < hl →
      ipSendCheck m₀ skb.data (skb.data + i) = orig.mem (orig.data + i) := by
    rw [← hhl'] at hclosed ⊢
    exact horig.check_restored hclosed
  refine ⟨_, rfl, ?_, rfl, hr.headroom, hr.users, hr.cloned⟩
  have hfinal : skb.len - hdr.size = orig.len := by omega
  simp only [SkBuff.packet, hfinal]
  apply bytes_congr
  intro i hi
  by_cases hi' : i < hl
  · exact hcheck i hi'
  · rw [ipSendCheck_outside _ (by omega)]
    exact hpay i (by omega) hi

/-- The round trip: what `geosvrIpDecapsulate` makes of an encapsulated packet that was carried
to it. -/
theorem decapsulate_carried {granted : Bool} {lookup : UInt32 → Option Rtable}
    {skb skb₁ skb₂ : SkBuff} {msg : NlMsg} (hp : IsPacket skb) (hlen : msg.routeLen.toNat < 2 ^ 16)
    (h : geosvrIpEncapsulate granted lookup skb msg = (0, skb₁)) (hc : Carries skb₁ skb₂)
    (copyGranted : Bool) (copyId : ℕ) :
    ∃ skb₃, geosvrIpDecapsulate copyGranted true copyId skb₂ = ⟨skb₃, none, some (hdrOf msg)⟩ ∧
      Carries skb skb₃ := by
  obtain ⟨henc, -, -, -, -⟩ := encapsulate_spec hp hlen h
  have h32 : (hdrOf msg).size < 2 ^ 32 := by
    simp only [hdrOf, geosvrHdrSize]
    omega
  obtain ⟨skb₃, hdec, hc₃⟩ := decapsulatePrivate_spec hp henc hc rfl h32
  refine ⟨skb₃, ?_, hc₃⟩
  unfold geosvrIpDecapsulate SkBuff.shared
  simp only [hc.users, hc.cloned, hdec, bne_self_eq_false, Bool.or_self, Bool.false_eq_true,
    if_false]

/-- A refused allocation leaves the packet as it came. -/
theorem decapsulate_refused {skb : SkBuff} (hu : skb.users = 1) (hc : skb.cloned = false)
    (copyGranted : Bool) (copyId : ℕ) :
    geosvrIpDecapsulate copyGranted false copyId skb = ⟨skb, none, none⟩ := by
  unfold geosvrIpDecapsulate SkBuff.shared decapsulatePrivate
  simp only [hu, hc, bne_self_eq_false, Bool.or_self, Bool.false_eq_true, if_false,
    Bool.not_false, if_true, ite_self]

/-! ### Relays -/

theorem IsPacket.carried {skb skb' : SkBuff} (h : IsPacket skb) (hc : Carries skb skb') :
    IsPacket skb' := by
  obtain ⟨hlen, hb⟩ := packet_getElem hc.packet
  have h20 := h.hdrLen
  have hcomplete := h.complete
  have h0 := hb 0 (by omega)
  rw [Nat.add_zero, Nat.add_zero] at h0
  have hhl : ipHdrLen skb'.mem skb'.data = ipHdrLen skb.mem skb.data := by
    unfold ipHdrLen
    rw [h0]
  refine ⟨hc.netHdr, hc.headroom, by rw [h0]; exact h.ihl, by omega, ?_⟩
  funext x
  by_cases hx : x < skb'.data + 10 ∨ skb'.data + 12 ≤ x
  · exact ipSendCheck_outside _ hx
  · obtain ⟨i, rfl⟩ : ∃ i, x = skb'.data + i := ⟨x - skb'.data, by omega⟩
    rw [ipSendCheck_congr h0 (fun i hi _ => hb i (by omega)) i (by omega), h.check,
      hb i (by omega)]

/-- `Relayed skb msgs skb'`: `skb` became `skb'` on a chain of relays, each of which
encapsulated it with the message of `msgs`, transmitted it, and had it decapsulated by the next
host. -/
inductive Relayed (skb : SkBuff) : List NlMsg → SkBuff → Prop
  | source : Relayed skb [] skb
  | hop {granted copyGranted kmalloc : Bool} {lookup : UInt32 → Option Rtable} {copyId : ℕ}
      {msgs : List NlMsg} {msg : NlMsg} {s sent received s' : SkBuff} {hdr : GeosvrHdr} :
      Relayed skb msgs s → msg.routeLen.toNat < 2 ^ 16 →
      geosvrIpEncapsulate granted lookup s msg = (0, sent) → Carries sent received →
      geosvrIpDecapsulate copyGranted kmalloc copyId received = ⟨s', none, some hdr⟩ →
      Relayed skb (msgs ++ [msg]) s'

/-- After any chain of relays the packet is the one the source sent. -/
theorem Relayed.carries {skb skb' : SkBuff} {msgs : List NlMsg} (hp : IsPacket skb)
    (hr : Relayed skb msgs skb') : skb'.packet = skb.packet ∧ IsPacket skb' := by
  induction hr with
  | source => exact ⟨rfl, hp⟩
  | @hop granted copyGranted kmalloc lookup copyId msgs msg s sent received s' hdr _ hlen henc hc
      hdec ih =>
      obtain ⟨hpacket, hs⟩ := ih
      cases kmalloc with
      | false =>
          rw [decapsulate_refused hc.users hc.cloned] at hdec
          cases hdec
      | true =>
          obtain ⟨s₃, hdec', hc₃⟩ := decapsulate_carried hs hlen henc hc copyGranted copyId
          rw [hdec] at hdec'
          cases hdec'
          exact ⟨hc₃.packet.trans hpacket, hs.carried hc₃⟩

/-- **Decapsulation inverts encapsulation.**  The header that comes back has the `src`, `dst`,
`route_len` and route of the message, and the packet is byte for byte what it was; only a
refused allocation keeps `geosvrIpDecapsulate` from it, and then it changes nothing.  Hence a
chain of relays of any length leaves the packet as the source sent it. -/
theorem decapsulate_encapsulate {skb : SkBuff} (hp : IsPacket skb) :
    (∀ (granted : Bool) (lookup : UInt32 → Option Rtable) (msg : NlMsg) (skb₁ skb₂ : SkBuff),
      msg.routeLen.toNat < 2 ^ 16 → msg.routeLen.toNat ≤ msg.route.length →
      geosvrIpEncapsulate granted lookup skb msg = (0, skb₁) → skb₂ = skb₁ ∨ Carries skb₁ skb₂ →
      ∀ (copyGranted kmalloc : Bool) (copyId : ℕ),
        let r := geosvrIpDecapsulate copyGranted kmalloc copyId skb₂
        if kmalloc then
          (∃ hdr, r.geoHdr = some hdr ∧ hdr.src = msg.src ∧ hdr.dst = msg.dst ∧
            hdr.routeLen = msg.routeLen ∧ hdr.route = msg.route.take msg.routeLen.toNat) ∧
          r.skb.packet = skb.packet
        else r.geoHdr = none ∧ r.skb = skb₂) ∧
    ∀ (msgs : List NlMsg) (skb' : SkBuff), Relayed skb msgs skb' → skb'.packet = skb.packet := by
  refine ⟨?_, fun msgs skb' hr => (hr.carries hp).1⟩
  intro granted lookup msg skb₁ skb₂ hlen hroute henc h₂ copyGranted kmalloc copyId
  have hc : Carries skb₁ skb₂ := by
    obtain rfl | hc := h₂
    · obtain ⟨-, hnet, hroom, hu, hcl⟩ := encapsulate_spec hp hlen henc
      exact ⟨rfl, hnet, hroom, hu, hcl⟩
    · exact hc
  cases kmalloc with
  | false =>
      simp only [decapsulate_refused hc.users hc.cloned, Bool.false_eq_true, if_false, and_self]
  | true =>
      obtain ⟨skb₃, hdec, hc₃⟩ := decapsulate_carried hp hlen henc hc copyGranted copyId
      simp only [hdec, if_true]
      exact ⟨⟨hdrOf msg, rfl, rfl, rfl, rfl, List.takeD_eq_take _ hroute⟩, hc₃.packet⟩

/-- A packet of 24 bytes behind 64 bytes of headroom. -/
def sampleSkb : SkBuff where
  id := 1
  mem := ipSendCheck (write (fun _ => 0) 64
    [0x45, 0, 0, 24, 0, 0, 0, 0, 64, 17, 0, 0, 10, 0, 0, 1, 10, 0, 0, 2, 7, 8, 9, 10]) 64
  head := 0
  data := 64
  len := 24
  networkHeader := 64
  users := 1
  cloned := false
  kfrees := 0
  dst := none

/-- A response with the route `12,`. -/
def sampleMsg : NlMsg := ⟨101, GEOSVR_RSP_SEND, 0, 0x0100000A, 0x0200000A, 5, 3, [49, 50, 44, 0]⟩

theorem isPacket_sampleSkb : IsPacket sampleSkb where
  netHdr := rfl
  headroom := by decide
  ihl := by decide
  complete := by decide
  check := ipSendCheck_idem _ 64

theorem decapsulate_encapsulate_sample :
    let enc := geosvrIpEncapsulate true (fun _ => some 1) sampleSkb sampleMsg
    enc.1 = 0 ∧ (∃ hdr, (geosvrIpDecapsulate true true 2 enc.2).geoHdr = some hdr ∧
      hdr.route = [49, 50, 44]) ∧
    (geosvrIpDecapsulate true true 2 enc.2).skb.packet = sampleSkb.packet := by
  have h := (decapsulate_encapsulate isPacket_sampleSkb).1 true (fun _ => some 1) sampleMsg
    (geosvrIpEncapsulate true (fun _ => some 1) sampleSkb sampleMsg).2 _ (by decide) (by decide)
    rfl (Or.inl rfl) true true 2
  simp only [if_true] at h
  obtain ⟨⟨hdr, hgeo, -, -, -, hroute⟩, hpacket⟩ := h
  exact ⟨rfl, ⟨hdr, hgeo, hroute⟩, hpacket⟩

end GeoSvr.Kernel
