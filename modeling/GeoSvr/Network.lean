import GeoSvr.Marking
import GeoSvr.Release
import Mathlib.Logic.Function.Basic

/-! # Hosts that relay for each other (`geosvr_mod.c`, `geosvr_queue.c`, `geosvr_ipenc.c`)

`Network H` is a set of hosts, each with the module and its own interface, and the packets between
them.  A datagram is captured by the module of the host that sends it; what a loop hands on is on
the air until some host receives its bytes, or until it is lost; what a hook lets in at
`NF_INET_PRE_ROUTING` has been delivered.  The steps of all hosts interleave.  Nothing is assumed
of the daemons: an answer is any message whose route is shorter than 2^16 bytes, at any time, and
any host may receive any packet.

A datagram has a number, and `origin` says which datagram an `sk_buff` of a host carries.  These
marks are not in the source, and no step depends on them.

`Intact` is the invariant: whatever is queued is the datagram byte for byte, whatever is on the air
is the datagram, or the datagram in a GeoSVR header that names its destination, and a request that
waits for an answer is for the destination of its packet. -/

namespace GeoSvr.Kernel

open Bytes Runs

/-! ### The network -/

/-- A packet between two hosts. -/
structure Flight where
  tag : ℕ
  skb : SkBuff

/-- A packet that the hook let in: the call, and the `sk_buff` it left. -/
structure Delivery (H : Type*) where
  host : H
  tag : ℕ
  capture : Capture
  skb : SkBuff

structure Network (H : Type*) where
  hosts : H → Module
  /-- the datagrams, as they were captured -/
  sent : List SkBuff
  origin : H → ℕ → ℕ
  air : List Flight
  delivered : List (Delivery H)

inductive NetAction (H : Type*)
  /-- a program of the host `h` sends a datagram -/
  | send (h : H) (c : Capture)
  /-- the host `h` receives the `i`th packet on the air -/
  | receive (h : H) (i : ℕ) (c : Capture)
  | lose (i : ℕ)
  /-- another step of the module of `h` -/
  | host (h : H) (a : Action)

variable {H : Type*}

def Network.init : Network H := ⟨fun _ => Module.init, [], fun _ _ => 0, [], []⟩

/-- The packet that an effect puts on the air. -/
def Effect.transmits : Effect → Option SkBuff
  | .okfn _ skb => some skb
  | .nfForward skb => some skb
  | _ => none

/-- The packets that the effects `l` of a host put on the air. -/
def flights (origin : ℕ → ℕ) (l : List Effect) : List Flight :=
  l.filterMap (fun e => e.transmits.map (fun skb => ⟨origin skb.id, skb⟩))

/-- An action of the module that is not a call of the hook. -/
def Action.isHook : Action → Bool
  | .hook _ => true
  | _ => false

variable [DecidableEq H]

/-- The network after a call of the hook of `h`, for the datagram `tag`: the module becomes `m`. -/
def Network.captured (s : Network H) (h : H) (m : Module) (tag id : ℕ) : Network H :=
  { s with
    hosts := Function.update s.hosts h m
    origin := Function.update s.origin h (Function.update (s.origin h) id tag) }

/-- A program of `h` sends the datagram of the call `c`; what the hook does not keep goes out. -/
def Network.sends (s : Network H) (h : H) (m : Module) (c : Capture) (r : HookResult) :
    Network H :=
  { s.captured h m s.sent.length c.skb.id with
    sent := s.sent ++ [c.skb]
    air := if r.verdict = .accept then s.air ++ [⟨s.sent.length, r.skb⟩] else s.air }

/-- The host `h` receives `f`, the `i`th packet on the air, with the call `c`. -/
def Network.receives (s : Network H) (h : H) (m : Module) (i : ℕ) (f : Flight) (c : Capture)
    (r : HookResult) : Network H :=
  { s.captured h m f.tag c.skb.id with
    air := s.air.eraseIdx i
    delivered := if r.verdict = .accept then s.delivered ++ [⟨h, f.tag, c, r.skb⟩]
      else s.delivered }

/-- The module of `h` becomes `m` by another step. -/
def Network.hosted (s : Network H) (h : H) (m : Module) : Network H :=
  { s with
    hosts := Function.update s.hosts h m
    air := s.air ++ flights (s.origin h) (m.effects.drop (s.hosts h).effects.length) }

def Network.step (cfg : H → Config) (s : Network H) : NetAction H → Option (Network H)
  | .send h c =>
      match Kernel.step (cfg h) (s.hosts h) (.hook c) with
      | none => none
      | some m => some (s.sends h m c (geosvrHook (cfg h) c (s.hosts h).queue))
  | .receive h i c =>
      match s.air[i]?, Kernel.step (cfg h) (s.hosts h) (.hook c) with
      | some f, some m => some (s.receives h m i f c (geosvrHook (cfg h) c (s.hosts h).queue))
      | _, _ => none
  | .lose i =>
      match s.air[i]? with
      | none => none
      | some _ => some { s with air := s.air.eraseIdx i }
  | .host h a =>
      if a.isHook then none
      else
        match Kernel.step (cfg h) (s.hosts h) a with
        | none => none
        | some m => some (s.hosted h m)

/-- A datagram: an IPv4 packet with a transport header that does not begin like a GeoSVR header. -/
structure Datagram (skb : SkBuff) : Prop where
  isPacket : IsPacket skb
  transport : ipHdrLen skb.mem skb.data + 8 ≤ skb.len
  unmarked : hasMarker skb.mem skb.data = false

omit [DecidableEq H] in
/-- What is assumed of the steps: a program sends datagrams, what is received is what is on the air,
in an `sk_buff` of its own, and an answer has a route that fits. -/
def Plausible (s : Network H) : NetAction H → Prop
  | .send _ c => c.hooknum = .localOut ∧ Datagram c.skb
  | .receive _ i c => c.hooknum = .preRouting ∧ ∀ f, s.air[i]? = some f → Carries f.skb c.skb
  | .host _ (.response _ _ _ msg) => msg.routeLen.toNat < 2 ^ 16
  | _ => True

/-! ### Forms of a datagram -/

/-- The datagram `src`, byte for byte. -/
structure Copy (src skb : SkBuff) : Prop where
  packet : skb.packet = src.packet
  isPacket : IsPacket skb

/-- The datagram, but for the identification, which `ip_select_ident` assigns, and the checksum. -/
structure SameDatagram (src skb : SkBuff) : Prop where
  len : skb.len = src.len
  bytes : ∀ i, i < src.len → (i < 4 ∨ 6 ≤ i) → (i < 10 ∨ 12 ≤ i) →
    skb.mem (skb.data + i) = src.mem (src.data + i)

/-- The datagram in a GeoSVR header for the message `msg`, which names its destination. -/
structure Enveloped (src skb : SkBuff) (msg : NlMsg) : Prop where
  route : msg.routeLen.toNat < 2 ^ 16
  dst : msg.dst = dest src
  inner : ∃ inner, Copy src inner ∧ Encapsulated inner skb (hdrOf msg)

/-- What is on the air of a datagram. -/
def OnAir (src skb : SkBuff) : Prop := SameDatagram src skb ∨ ∃ msg, Enveloped src skb msg

/-- What a host was given of the datagram `src`: the datagram itself, which was for this host if a
GeoSVR header was taken off, or the GeoSVR header and all, if the call was bypassed or there was
no memory for the header. -/
structure Arrived (cfg : Config) (src : SkBuff) (c : Capture) (skb : SkBuff) : Prop where
  form : SameDatagram src skb ∨ (∃ msg, Enveloped src skb msg) ∧
    (bypass cfg c ≠ none ∨ c.hdrGranted = false)
  opened : bypass cfg c = none → hasMarker c.skb.mem c.skb.networkHeader = true →
    c.hdrGranted = true → skb.packet = src.packet ∧ dest src = ifaddr cfg c

section forms

variable {src inner skb skb' : SkBuff}

theorem IsPacket.long (h : IsPacket skb) : 20 ≤ skb.len := h.hdrLen.trans h.complete

theorem Copy.refl (h : IsPacket src) : Copy src src := ⟨rfl, h⟩

theorem Copy.carried (h : Copy src skb) (hc : Carries skb skb') : Copy src skb' :=
  ⟨hc.packet.trans h.packet, h.isPacket.carried hc⟩

/-- The destination is read from the bytes of the packet. -/
theorem dest_congr (hp : skb.packet = src.packet) (hnet : skb.networkHeader = skb.data)
    (hsrc : IsPacket src) : dest skb = dest src := by
  obtain ⟨-, hb⟩ := packet_bytes hp
  have hlong := hsrc.long
  unfold dest daddr
  rw [hnet, hsrc.netHdr]
  apply u32_congr
  intro i hi
  rw [Nat.add_assoc, Nat.add_assoc]
  exact hb (16 + i) (by omega)

theorem Copy.dest (h : Copy src skb) (hsrc : IsPacket src) : dest skb = dest src :=
  dest_congr h.packet h.isPacket.netHdr hsrc

theorem Copy.sameDatagram (h : Copy src skb) : SameDatagram src skb := by
  obtain ⟨hlen, hb⟩ := packet_bytes h.packet
  exact ⟨hlen, fun i hi _ _ => hb i hi⟩

theorem SameDatagram.carried (h : SameDatagram src skb) (hp : skb'.packet = skb.packet) :
    SameDatagram src skb' := by
  obtain ⟨hlen, hb⟩ := packet_bytes hp
  refine ⟨hlen.trans h.len, fun i hi h₁ h₂ => ?_⟩
  rw [hb i (by rw [h.len]; exact hi), h.bytes i hi h₁ h₂]

/-- A datagram is not taken for an encapsulated one. -/
theorem SameDatagram.unmarked (h : SameDatagram src skb) (hsrc : Datagram src)
    (hnet : skb.networkHeader = skb.data) : hasMarker skb.mem skb.networkHeader = false := by
  have h20 := hsrc.isPacket.hdrLen
  have hlong := hsrc.transport
  have h0 := h.bytes 0 (by omega) (by omega) (by omega)
  rw [Nat.add_zero, Nat.add_zero] at h0
  have hhl : ipHdrLen skb.mem skb.data = ipHdrLen src.mem src.data := by
    unfold ipHdrLen
    rw [h0]
  have hword : ∀ k, k ≤ 4 → be16 skb.mem (skb.data + ipHdrLen src.mem src.data + k) =
      be16 src.mem (src.data + ipHdrLen src.mem src.data + k) := by
    intro k hk
    apply be16_congr
    · rw [Nat.add_assoc, Nat.add_assoc]
      exact h.bytes _ (by omega) (by omega) (by omega)
    · rw [Nat.add_assoc, Nat.add_assoc, Nat.add_assoc, Nat.add_assoc]
      exact h.bytes _ (by omega) (by omega) (by omega)
  rw [hnet, ← hsrc.unmarked]
  unfold hasMarker
  simp only [hhl]
  rw [hword 4 (by omega)]
  have h₀ := hword 0 (by omega)
  rw [Nat.add_zero, Nat.add_zero] at h₀
  rw [h₀]

theorem hdrOf_size (msg : NlMsg) : geosvrHdrSize ≤ (hdrOf msg).size := Nat.le_add_right _ _

theorem Enveloped.carried {msg : NlMsg} (h : Enveloped src skb msg) (hc : Carries skb skb') :
    Enveloped src skb' msg := by
  obtain ⟨inner, hcopy, henc⟩ := h.inner
  exact ⟨h.route, h.dst, inner, hcopy, henc.carried hcopy.isPacket (hdrOf_size msg) hc⟩

/-- An encapsulated packet is recognised. -/
theorem Enveloped.marker {msg : NlMsg} (h : Enveloped src skb msg)
    (hnet : skb.networkHeader = skb.data) : hasMarker skb.mem skb.networkHeader = true := by
  obtain ⟨inner, hcopy, henc⟩ := h.inner
  have h20 := hcopy.isPacket.hdrLen
  have h0 := henc.header 0 (by omega) (by omega) (by omega)
  rw [Nat.add_zero, Nat.add_zero] at h0
  have hhl : ipHdrLen skb.mem skb.data = ipHdrLen inner.mem inner.data := by
    unfold ipHdrLen
    rw [h0]
  rw [hnet]
  apply Prefixed.marker
  unfold Prefixed
  rw [hhl]
  exact ⟨congrArg GeosvrHdr.prefix0 henc.gap, congrArg GeosvrHdr.prefix1 henc.gap⟩

/-- What `geosvr_ip_encapsulate` makes of the datagram. -/
theorem Copy.encapsulate {granted : Bool} {lookup : UInt32 → Option Rtable} {msg : NlMsg}
    (h : Copy src skb) (hlen : msg.routeLen.toNat < 2 ^ 16) (hdst : msg.dst = Kernel.dest src)
    (he : geosvrIpEncapsulate granted lookup skb msg = (0, skb')) : Enveloped src skb' msg :=
  ⟨hlen, hdst, skb, h, (encapsulate_spec h.isPacket hlen he).1⟩

/-- What `geosvr_ip_forward` makes of it. -/
theorem Copy.forward {lookup : UInt32 → Option Rtable} {ident : UInt16} {msg : NlMsg}
    (h : Copy src skb) (hf : geosvrIpForward lookup ident skb msg = (0, skb')) :
    SameDatagram src skb' := by
  obtain ⟨hlen, hb⟩ := packet_bytes h.packet
  unfold geosvrIpForward at hf
  cases hl : lookup msg.nhop with
  | none => simp only [hl] at hf; cases hf
  | some rt =>
      simp only [hl, h.isPacket.netHdr] at hf
      obtain rfl := (Prod.mk.inj hf).2
      refine ⟨hlen, fun i hi h₁ h₂ => ?_⟩
      rw [← hb i hi]
      show ipSendCheck (setBe16 skb.mem (skb.data + 4) ident) skb.data (skb.data + i) = _
      rw [ipSendCheck_outside _ (by omega), setBe16_outside _ _ (by omega)]

end forms

/-! ### Calls of the hook -/

section hook

variable {cfg : Config} {c : Capture} {src : SkBuff}

/-- The private `sk_buff` of a packet that was received. -/
theorem Carries.isPrivate {skb skb' : SkBuff} (h : Carries skb skb') : Private skb' :=
  ⟨h.users, h.cloned⟩

/-- A call for a packet without the marker leaves it as it is. -/
theorem hook_plain (hpre : c.hooknum = .preRouting) (hp : Private c.skb)
    (hm : hasMarker c.skb.mem c.skb.networkHeader = false) (q : Queue) :
    (geosvrHook cfg c q).verdict ≠ .stolen ∧ (geosvrHook cfg c q).skb = c.skb := by
  have hprobe : geosvrIpHasEncapsulated c.probeGranted c.probeId c.skb = (false, c.skb) := by
    unfold geosvrIpHasEncapsulated
    rw [if_neg hp.notShared, hm]
  have hcap : ¬ Captures cfg c := by
    rintro ⟨-, hout | ⟨-, hmark, -⟩⟩
    · rw [hpre] at hout
      cases hout
    · rw [hprobe] at hmark
      cases hmark
  refine ⟨?_, ?_⟩
  · obtain ⟨-, ⟨hyes, -⟩ | ⟨-, hv, -⟩⟩ := geosvrHook_cases cfg c q
    · exact absurd hyes hcap
    · exact hv
  · unfold geosvrHook
    cases bypass cfg c with
    | some v => rfl
    | none => simp only [hpre, hprobe, Bool.false_eq_true, if_false]

/-- A call that is bypassed leaves the packet as it is. -/
theorem hook_bypassed {v : Verdict} (hb : bypass cfg c = some v) (q : Queue) :
    geosvrHook cfg c q = ⟨v, c.skb, q, none⟩ := by
  unfold geosvrHook
  rw [hb]

theorem bypass_ne_stolen (cfg : Config) (c : Capture) : bypass cfg c ≠ some .stolen := by
  intro hb
  have hv := (geosvrHook_cases cfg c ⟨[], 0⟩).2
  rw [hook_bypassed hb] at hv
  obtain ⟨hcap, -⟩ | ⟨-, hne, -⟩ := hv
  · rw [hcap.1] at hb
    cases hb
  · exact hne rfl

/-- A call for an encapsulated datagram that is not bypassed: without memory for the header the
packet goes on as it came; otherwise the datagram comes out, and is let in if it is for this host,
and queued if it is not. -/
theorem hook_enveloped {msg : NlMsg} {skb : SkBuff} (hpre : c.hooknum = .preRouting)
    (hb : bypass cfg c = none) (he : Enveloped src skb msg) (hc : Carries skb c.skb) (q : Queue) :
    (c.hdrGranted = false ∧ geosvrHook cfg c q = ⟨.accept, c.skb, q, none⟩) ∨
    (c.hdrGranted = true ∧ ∃ skb', Copy src skb' ∧ Private skb' ∧
      geosvrHook cfg c q =
        if dest skb' = ifaddr cfg c then ⟨.accept, skb', q, none⟩
        else ⟨.stolen, skb', (geosvrQueueEnqueuePacket c.entryGranted skb' c.okfn q).2,
          some (geosvrNetlinkReqNormal GEOSVR_NL_MSG_TYPE_FORWARD msg.src msg.dst msg.routeLen
            (hdrOf msg).route)⟩) := by
  have hp := hc.isPrivate
  have hmark := (he.carried hc).marker hc.netHdr
  have hprobe : geosvrIpHasEncapsulated c.probeGranted c.probeId c.skb = (true, c.skb) := by
    unfold geosvrIpHasEncapsulated
    rw [if_neg hp.notShared, hmark]
  cases hg : c.hdrGranted with
  | false =>
      refine Or.inl ⟨rfl, ?_⟩
      have hdec := decapsulate_refused hc.users hc.cloned c.copyGranted c.copyId
      unfold geosvrHook
      simp only [hb, hpre, hprobe, hg, hdec, if_true]
  | true =>
      refine Or.inr ⟨rfl, ?_⟩
      obtain ⟨inner, hcopy, henc⟩ := he.inner
      have hroute := he.route
      have h32 : (hdrOf msg).size < 2 ^ 32 := by
        simp only [hdrOf, geosvrHdrSize]
        omega
      obtain ⟨skb', hdec, hout⟩ := decapsulatePrivate_spec hcopy.isPacket henc hc rfl h32
      have hdec' : geosvrIpDecapsulate c.copyGranted true c.copyId c.skb =
          ⟨skb', none, some (hdrOf msg)⟩ := by
        unfold geosvrIpDecapsulate
        rw [if_neg hp.notShared, hdec]
      refine ⟨skb', hcopy.carried hout, hout.isPrivate, ?_⟩
      unfold geosvrHook
      simp only [hb, hpre, hprobe, hg, hdec', if_true]
      rfl

/-- A call for a datagram that the host sends. -/
theorem hook_sent (hout : c.hooknum = .localOut) (q : Queue) :
    (∃ v, v ≠ .stolen ∧ geosvrHook cfg c q = ⟨v, c.skb, q, none⟩) ∨
    geosvrHook cfg c q =
      ⟨.stolen, c.skb, (geosvrQueueEnqueuePacket c.entryGranted c.skb c.okfn q).2,
        some (geosvrNetlinkReqNormal GEOSVR_NL_MSG_TYPE_SEND
          (saddr c.skb.mem c.skb.networkHeader) (daddr c.skb.mem c.skb.networkHeader) 0 [])⟩ := by
  cases hb : bypass cfg c with
  | some v =>
      refine Or.inl ⟨v, ?_, hook_bypassed hb q⟩
      rintro rfl
      exact bypass_ne_stolen cfg c hb
  | none =>
      refine Or.inr ?_
      unfold geosvrHook
      simp only [hb, hout]

end hook

/-! ### Packets that are received -/

/-- What a host receives of a packet: the same bytes in an `sk_buff` of its own. -/
def received (skb : SkBuff) (id : ℕ) : SkBuff where
  id := id
  mem := fun x => skb.mem (x - 1)
  head := 0
  data := skb.data + 1
  len := skb.len
  networkHeader := skb.data + 1
  users := 1
  cloned := false
  kfrees := 0
  dst := none

theorem carries_received (skb : SkBuff) (id : ℕ) : Carries skb (received skb id) where
  packet := by
    refine bytes_congr (fun i _ => congrArg skb.mem ?_)
    show skb.data + 1 + i - 1 = skb.data + i
    omega
  netHdr := rfl
  headroom := Nat.zero_le _
  users := rfl
  cloned := rfl

/-- The call of the hook for it, when memory is granted. -/
def incomingCall (cfg : Config) (skb : SkBuff) (id : ℕ) : Capture :=
  ⟨.preRouting, received skb id, cfg.ifindex, 0, true, 0, true, 0, true, true⟩

end GeoSvr.Kernel
