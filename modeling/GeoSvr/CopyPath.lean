import GeoSvr.Hook

/-! # The copy path of the hook

`geosvr_ip_has_encapsulated` and `geosvr_ip_decapsulate` work on a private `sk_buff`.  When the
one they are given is shared or cloned they release it and go on with a copy, which their caller
never sees: the hook keeps the pointer to the `sk_buff` it was called with.

`Agrees` compares a call of the hook at `NF_INET_PRE_ROUTING` with the same call on a private
`sk_buff` with the same bytes.  The theorem gives the exact condition for a packet with the
marker.  Beside the private case it leaves two ways by luck: a shared `sk_buff` with one other
holder becomes private by the first release, so that the second function works in place; and when
the `int` that holds the length of the header wraps to 0, nothing is cut out of the packet. -/

namespace GeoSvr.Kernel

open Bytes

/-- The same call on a private `sk_buff`. -/
def Capture.privately (c : Capture) : Capture :=
  { c with skb := { c.skb with users := 1, cloned := false } }

/-- The result `r` of the call `c` agrees with the result `p`: the same verdict, and the `sk_buff`
that goes on is live, holds the same packet, and has as many references as before if it is
accepted. -/
structure AgreesWith (c : Capture) (r p : HookResult) : Prop where
  verdict : r.verdict = p.verdict
  live : r.verdict ≠ .drop → 0 < r.skb.users
  packet : r.verdict ≠ .drop → r.skb.packet = p.skb.packet
  references : r.verdict = .accept → r.skb.users = c.skb.users

/-- The call agrees with the one on a private `sk_buff`. -/
def Agrees (cfg : Config) (c : Capture) (q : Queue) : Prop :=
  AgreesWith c (geosvrHook cfg c q) (geosvrHook cfg c.privately q)

/-- The length of the GeoSVR header and its route, as the `int` `len` holds it. -/
def geoLen (skb : SkBuff) : ℕ :=
  (geosvrHdrSize + (u32 skb.mem (skb.data + ipHdrLen skb.mem skb.data + 16)).toNat) % 2 ^ 32

/-- The destination of the packet when the GeoSVR header is taken out. -/
def innerDaddr (skb : SkBuff) : UInt32 :=
  let hl := ipHdrLen skb.mem skb.data
  daddr (memmove skb.mem (skb.data + hl) (skb.data + hl + geoLen skb)
    (skb.len + hl - geoLen skb)) skb.data

/-- The packet is decapsulated, and is for another host. -/
def Relays (cfg : Config) (c : Capture) : Prop :=
  c.hdrGranted = true ∧ geoLen c.skb ≤ c.skb.len ∧ innerDaddr c.skb ≠ ifaddr cfg c

/-- One other holder: the first release leaves the `sk_buff` private. -/
def OneOther (c : Capture) : Prop := c.skb.users = 2 ∧ c.skb.cloned = false

/-- Two releases leave a reference, the length wraps to 0, and the checksum is right. -/
def Untouched (c : Capture) : Prop :=
  c.copyGranted = true ∧ 2 < c.skb.users ∧ geoLen c.skb = 0 ∧
    bytes (ipSendCheck c.skb.mem c.skb.data) c.skb.data c.skb.len = c.skb.packet

/-! ### Decapsulation in place -/

/-- `skb` under another count of references. -/
def SkBuff.held (skb : SkBuff) (id users : ℕ) (cloned : Bool) (kfrees : ℕ) : SkBuff :=
  { skb with id := id, users := users, cloned := cloned, kfrees := kfrees }

/-- The private part neither reads nor writes the references. -/
theorem decapsulatePrivate_held (granted : Bool) (skb : SkBuff) (id users : ℕ) (cloned : Bool)
    (kfrees : ℕ) :
    decapsulatePrivate granted (skb.held id users cloned kfrees) =
      ((decapsulatePrivate granted skb).1.held id users cloned kfrees,
        (decapsulatePrivate granted skb).2) := by
  unfold decapsulatePrivate SkBuff.held SkBuff.trim SkBuff.mayPull
  dsimp only
  split_ifs <;> rfl

/-- It fails when the packet is too short or the allocation is refused, and then does nothing. -/
theorem decapsulatePrivate_none {granted : Bool} {skb : SkBuff}
    (hnet : skb.networkHeader = skb.data)
    (h : ¬ (granted = true ∧ geoLen skb ≤ skb.len)) :
    decapsulatePrivate granted skb = (skb, none) := by
  unfold decapsulatePrivate SkBuff.mayPull
  simp only [hnet]
  split_ifs with hlen hg
  · rfl
  · rfl
  · simp only [Bool.not_eq_true', decide_eq_false_iff_not, not_le, not_lt, Bool.not_eq_false]
      at hlen hg
    exact absurd ⟨hg, hlen⟩ h

/-- Otherwise it cuts `geoLen` bytes out. -/
theorem decapsulatePrivate_some {skb : SkBuff} (hnet : skb.networkHeader = skb.data)
    (h : geoLen skb ≤ skb.len) :
    (decapsulatePrivate true skb).2 ≠ none ∧
      (decapsulatePrivate true skb).1.len = skb.len - geoLen skb ∧
      daddr (decapsulatePrivate true skb).1.mem (decapsulatePrivate true skb).1.networkHeader =
        innerDaddr skb := by
  have hpull : skb.mayPull (geoLen skb) = true := decide_eq_true h
  have hword : ∀ (m : Mem) (v : UInt16),
      daddr (ipSendCheck (setBe16 m (skb.data + 2) v) skb.data) skb.data = daddr m skb.data := by
    intro m v
    apply u32_congr
    intro i _
    rw [ipSendCheck_outside _ (by omega), setBe16_outside _ _ (by omega)]
  unfold geoLen at h hpull
  unfold decapsulatePrivate innerDaddr geoLen
  simp only [hnet, hpull, SkBuff.trim, SkBuff.resetNetworkHeader, Bool.not_true,
    Bool.false_eq_true, if_false]
  split_ifs with hlt
  · exact ⟨by simp, rfl, hword _ _⟩
  · exact ⟨by simp, by simp only; omega, hword _ _⟩

/-- With a length of 0 only the checksum is stored. -/
theorem decapsulatePrivate_packet_zero {skb : SkBuff} (hnet : skb.networkHeader = skb.data)
    (h : geoLen skb = 0) :
    (decapsulatePrivate true skb).1.packet =
      bytes (ipSendCheck skb.mem skb.data) skb.data skb.len := by
  unfold geoLen at h
  unfold decapsulatePrivate SkBuff.mayPull SkBuff.packet
  simp only [hnet, h, Nat.zero_le, decide_true, Bool.not_true, Bool.false_eq_true, if_false,
    Nat.add_zero, Nat.sub_zero, memmove_self, SkBuff.trim, lt_irrefl, SkBuff.resetNetworkHeader]
  have htot : totLen skb.mem skb.data - .ofNat 0 = be16 skb.mem (skb.data + 2) := by
    simp [totLen]
  rw [htot, setBe16_be16]

/-! ### The hook at `NF_INET_PRE_ROUTING` -/

/-- A call that nothing lets bypass the hook, on a packet with the marker at `skb->data`. -/
structure Marked (cfg : Config) (c : Capture) : Prop where
  seen : bypass cfg c = none
  preRouting : c.hooknum = .preRouting
  marker : hasMarker c.skb.mem c.skb.networkHeader = true
  netHdr : c.skb.networkHeader = c.skb.data
  users : 0 < c.skb.users

/-- The verdict on a decapsulation. -/
def verdictOf (cfg : Config) (c : Capture) (d : Decapsulation) : Verdict :=
  if d.geoHdr = none ∨ daddr d.skb.mem d.skb.networkHeader = ifaddr cfg c then .accept else .stolen

/-- After a probe that found the marker the decapsulation decides. -/
theorem hook_decapsulates {cfg : Config} {c : Capture} (hm : Marked cfg c) {skb : SkBuff}
    (hp : geosvrIpHasEncapsulated c.probeGranted c.probeId c.skb = (true, skb)) (q : Queue) :
    let d := geosvrIpDecapsulate c.copyGranted c.hdrGranted c.copyId skb
    (geosvrHook cfg c q).verdict = verdictOf cfg c d ∧ (geosvrHook cfg c q).skb = d.skb := by
  unfold geosvrHook verdictOf
  simp only [hm.seen, hm.preRouting, hp, if_true]
  cases hg : (geosvrIpDecapsulate c.copyGranted c.hdrGranted c.copyId skb).geoHdr with
  | none => simp
  | some hdr =>
      simp only [reduceCtorEq, false_or]
      split_ifs <;> exact ⟨rfl, rfl⟩

/-- After a probe that found none the packet is accepted. -/
theorem hook_accepts {cfg : Config} {c : Capture} (hm : Marked cfg c) {skb : SkBuff}
    (hp : geosvrIpHasEncapsulated c.probeGranted c.probeId c.skb = (false, skb)) (q : Queue) :
    (geosvrHook cfg c q).verdict = .accept ∧ (geosvrHook cfg c q).skb = skb := by
  unfold geosvrHook
  simp [hm.seen, hm.preRouting, hp]

theorem notPrivate_iff {skb : SkBuff} : ¬ Private skb ↔ (skb.shared || skb.cloned) = true := by
  unfold Private SkBuff.shared
  cases skb.cloned <;> simp

theorem Private.notShared {skb : SkBuff} (hp : Private skb) :
    ¬ (skb.shared || skb.cloned) = true :=
  fun h => notPrivate_iff.mpr h hp

instance (cfg : Config) (c : Capture) : Decidable (Relays cfg c) :=
  inferInstanceAs (Decidable (_ ∧ _))

/-- A decapsulation in place steals the packet exactly when it relays it. -/
theorem verdictOf_inPlace {cfg : Config} {c : Capture} (hnet : c.skb.networkHeader = c.skb.data)
    (id users : ℕ) (cloned : Bool) (kfrees : ℕ) :
    verdictOf cfg c ⟨(decapsulatePrivate c.hdrGranted c.skb).1.held id users cloned kfrees, none,
      (decapsulatePrivate c.hdrGranted c.skb).2⟩ =
        if Relays cfg c then Verdict.stolen else Verdict.accept := by
  unfold verdictOf
  by_cases h : c.hdrGranted = true ∧ geoLen c.skb ≤ c.skb.len
  · obtain ⟨hg, hl⟩ := h
    obtain ⟨hsome, -, hd⟩ := decapsulatePrivate_some hnet hl
    have hd' : daddr ((decapsulatePrivate true c.skb).1.held id users cloned kfrees).mem
        ((decapsulatePrivate true c.skb).1.held id users cloned kfrees).networkHeader =
          innerDaddr c.skb := hd
    have hrel : Relays cfg c ↔ innerDaddr c.skb ≠ ifaddr cfg c :=
      ⟨fun hr => hr.2.2, fun hr => ⟨hg, hl, hr⟩⟩
    simp only [hg, hsome, hd', false_or, hrel]
    split_ifs <;> first | rfl | contradiction
  · have hrel : ¬ Relays cfg c := fun hr => h ⟨hr.1, hr.2.1⟩
    rw [decapsulatePrivate_none hnet h, if_pos (Or.inl rfl), if_neg hrel]

/-- A call whose decapsulation works in place, on the `sk_buff` with other references. -/
theorem hook_inPlace {cfg : Config} {c : Capture} (hm : Marked cfg c) {id users kfrees : ℕ}
    {cloned : Bool} (hsh : users = 1 ∧ cloned = false)
    (hp : geosvrIpHasEncapsulated c.probeGranted c.probeId c.skb =
      (true, c.skb.held id users cloned kfrees)) (q : Queue) :
    (geosvrHook cfg c q).verdict = (if Relays cfg c then Verdict.stolen else Verdict.accept) ∧
      (geosvrHook cfg c q).skb.packet = (decapsulatePrivate c.hdrGranted c.skb).1.packet ∧
      (geosvrHook cfg c q).skb.users = 1 := by
  obtain ⟨rfl, rfl⟩ := hsh
  have hdec : geosvrIpDecapsulate c.copyGranted c.hdrGranted c.copyId
      (c.skb.held id 1 false kfrees) =
        ⟨(decapsulatePrivate c.hdrGranted c.skb).1.held id 1 false kfrees, none,
          (decapsulatePrivate c.hdrGranted c.skb).2⟩ := by
    have hpriv : ((c.skb.held id 1 false kfrees).shared || (c.skb.held id 1 false kfrees).cloned) =
        false := rfl
    unfold geosvrIpDecapsulate
    rw [hpriv, if_neg Bool.false_ne_true, decapsulatePrivate_held]
  obtain ⟨hv, hskb⟩ := hook_decapsulates hm hp q
  rw [hdec] at hv hskb
  rw [hv, hskb, verdictOf_inPlace hm.netHdr]
  exact ⟨rfl, rfl, rfl⟩

theorem hook_private {cfg : Config} {c : Capture} (hm : Marked cfg c) (hp : Private c.skb)
    (q : Queue) :
    (geosvrHook cfg c q).verdict = (if Relays cfg c then Verdict.stolen else Verdict.accept) ∧
      (geosvrHook cfg c q).skb.packet = (decapsulatePrivate c.hdrGranted c.skb).1.packet ∧
      (geosvrHook cfg c q).skb.users = 1 := by
  have hsh : (c.skb.shared || c.skb.cloned) = false := by simpa using hp.notShared
  have hprobe : geosvrIpHasEncapsulated c.probeGranted c.probeId c.skb =
      (true, c.skb.held c.skb.id c.skb.users c.skb.cloned c.skb.kfrees) := by
    unfold geosvrIpHasEncapsulated
    rw [hsh, hm.marker]
    rfl
  exact hook_inPlace hm hp hprobe q

/-- The probe of an `sk_buff` that is not private releases it. -/
theorem probe_notPrivate {c : Capture} (hp : ¬ Private c.skb)
    (hmark : hasMarker c.skb.mem c.skb.networkHeader = true) {granted : Bool}
    (hg : c.probeGranted = granted) :
    geosvrIpHasEncapsulated c.probeGranted c.probeId c.skb =
      (granted, c.skb.held c.skb.id (c.skb.users - 1) c.skb.cloned (c.skb.kfrees + 1)) := by
  unfold geosvrIpHasEncapsulated SkBuff.pskbCopy
  rw [notPrivate_iff.mp hp, hg]
  cases granted with
  | false => rfl
  | true =>
      simp only [if_true, hmark]
      rfl

/-- Without memory for a copy, `geosvr_ip_decapsulate` releases the `sk_buff` and gives up. -/
theorem decapsulate_uncopied {skb : SkBuff} {copyGranted hdrGranted : Bool} {copyId : ℕ}
    (hp : ¬ Private skb) (h : skb.pskbCopy copyGranted copyId = none) :
    geosvrIpDecapsulate copyGranted hdrGranted copyId skb = ⟨skb.kfreeSkb, none, none⟩ := by
  unfold geosvrIpDecapsulate
  rw [notPrivate_iff.mp hp, h]
  rfl

/-- With it, the copy is decapsulated and the `sk_buff` is released. -/
theorem decapsulate_copied {skb nskb : SkBuff} {copyGranted hdrGranted : Bool} {copyId : ℕ}
    (hp : ¬ Private skb) (h : skb.pskbCopy copyGranted copyId = some nskb) :
    geosvrIpDecapsulate copyGranted hdrGranted copyId skb =
      ⟨skb.kfreeSkb, some (decapsulatePrivate hdrGranted nskb).1,
        (decapsulatePrivate hdrGranted nskb).2⟩ := by
  unfold geosvrIpDecapsulate
  rw [notPrivate_iff.mp hp, h]
  rfl

/-- A call that has to copy twice goes on with the `sk_buff` it has released twice. -/
theorem hook_copies {cfg : Config} {c : Capture} (hm : Marked cfg c) (hp : ¬ Private c.skb)
    (ho : ¬ OneOther c) (hg : c.probeGranted = true) (q : Queue) :
    (geosvrHook cfg c q).skb = c.skb.kfreeSkb.kfreeSkb ∧
      (geosvrHook cfg c q).verdict =
        if c.copyGranted = true ∧ c.hdrGranted = true ∧ geoLen c.skb ≤ c.skb.len ∧
          daddr c.skb.mem c.skb.data ≠ ifaddr cfg c then Verdict.stolen else Verdict.accept := by
  have hprobe : geosvrIpHasEncapsulated c.probeGranted c.probeId c.skb =
      (true, c.skb.kfreeSkb) := probe_notPrivate hp hm.marker hg
  have hp₁ : ¬ Private c.skb.kfreeSkb := by
    intro h
    have husers : c.skb.users - 1 = 1 := h.1
    exact ho ⟨by omega, h.2⟩
  obtain ⟨hv, hskb⟩ := hook_decapsulates hm hprobe q
  cases hc : c.copyGranted with
  | false =>
      have hnone : c.skb.kfreeSkb.pskbCopy false c.copyId = none := rfl
      rw [hc, decapsulate_uncopied hp₁ hnone] at hv hskb
      exact ⟨hskb, by simpa [verdictOf] using hv⟩
  | true =>
      have hcopy : decapsulatePrivate c.hdrGranted (c.skb.held c.copyId 1 false 0) =
          ((decapsulatePrivate c.hdrGranted c.skb).1.held c.copyId 1 false 0,
            (decapsulatePrivate c.hdrGranted c.skb).2) := decapsulatePrivate_held _ _ _ _ _ _
      have hheld : c.skb.kfreeSkb.pskbCopy true c.copyId =
          some (c.skb.held c.copyId 1 false 0) := rfl
      rw [hc, decapsulate_copied hp₁ hheld, hcopy] at hv hskb
      refine ⟨hskb, hv.trans ?_⟩
      have hdaddr : daddr c.skb.kfreeSkb.kfreeSkb.mem c.skb.kfreeSkb.kfreeSkb.networkHeader =
          daddr c.skb.mem c.skb.data := by
        rw [← hm.netHdr]
        rfl
      unfold verdictOf
      simp only [hdaddr, true_and]
      by_cases h : c.hdrGranted = true ∧ geoLen c.skb ≤ c.skb.len
      · have hsome := (decapsulatePrivate_some hm.netHdr h.2).1
        simp only [h.1, h.2, hsome, true_and, false_or]
        split_ifs <;> first | rfl | contradiction
      · rw [decapsulatePrivate_none hm.netHdr h, if_pos (Or.inl rfl),
          if_neg (fun hr => h ⟨hr.1, hr.2.1⟩)]

/-- A call on an `sk_buff` that is not private loses a reference. -/
theorem hook_users_lt {cfg : Config} {c : Capture} (hm : Marked cfg c) (hp : ¬ Private c.skb)
    (q : Queue) : (geosvrHook cfg c q).skb.users < c.skb.users := by
  have hu := hm.users
  cases hg : c.probeGranted with
  | false =>
      rw [(hook_accepts hm (probe_notPrivate hp hm.marker hg) q).2]
      show c.skb.users - 1 < c.skb.users
      omega
  | true =>
      by_cases ho : OneOther c
      · have huser : c.skb.users - 1 = 1 := by rw [ho.1]
        rw [(hook_inPlace hm ⟨huser, ho.2⟩ (probe_notPrivate hp hm.marker hg) q).2.2, ho.1]
        omega
      · rw [(hook_copies hm hp ho hg q).1]
        show c.skb.users - 1 - 1 < c.skb.users
        omega

/-! ### Agreement with the private `sk_buff` -/

/-- A packet that bypasses the hook goes on as it is. -/
theorem agrees_of_bypass {cfg : Config} {c : Capture} (hb : bypass cfg c ≠ none)
    (hu : 0 < c.skb.users) (q : Queue) : Agrees cfg c q := by
  obtain ⟨v, hv⟩ := Option.ne_none_iff_exists'.mp hb
  have hr : ∀ c', bypass cfg c' = some v → geosvrHook cfg c' q = ⟨v, c'.skb, q, none⟩ := by
    intro c' hb'
    unfold geosvrHook
    rw [hb']
  unfold Agrees
  rw [hr c hv, hr c.privately hv]
  exact ⟨rfl, fun _ => hu, fun _ => rfl, fun _ => rfl⟩

section marked

variable {cfg : Config} {c : Capture}

theorem Marked.privately (hm : Marked cfg c) : Marked cfg c.privately :=
  ⟨hm.seen, hm.preRouting, hm.marker, hm.netHdr, Nat.one_pos⟩

/-- The call on the private `sk_buff`. -/
theorem hook_privately (hm : Marked cfg c) (q : Queue) :
    (geosvrHook cfg c.privately q).verdict =
        (if Relays cfg c then Verdict.stolen else Verdict.accept) ∧
      (geosvrHook cfg c.privately q).skb.packet =
        (decapsulatePrivate c.hdrGranted c.skb).1.packet := by
  obtain ⟨hv, hp, -⟩ := hook_private hm.privately ⟨rfl, rfl⟩ q
  refine ⟨hv, ?_⟩
  rw [hp]
  exact congrArg (fun r => r.1.packet)
    (decapsulatePrivate_held c.hdrGranted c.skb c.skb.id 1 false c.skb.kfrees)

theorem agrees_of_private (hm : Marked cfg c) (hp : Private c.skb) (q : Queue) :
    Agrees cfg c q := by
  have hsame : c.privately = c := by
    unfold Capture.privately
    rw [← hp.1, ← hp.2]
  have hu := (hook_private hm hp q).2.2
  unfold Agrees
  rw [hsame]
  refine ⟨rfl, fun _ => ?_, fun _ => rfl, fun _ => ?_⟩
  · omega
  · rw [hu, hp.1]

/-- With one other holder the probe's release makes the `sk_buff` private. -/
theorem agrees_of_oneOther (hm : Marked cfg c) (hp : ¬ Private c.skb)
    (hg : c.probeGranted = true) (hrel : Relays cfg c) (ho : OneOther c) (q : Queue) :
    Agrees cfg c q := by
  have huser : c.skb.users - 1 = 1 := by rw [ho.1]
  obtain ⟨hv, hpk, hus⟩ := hook_inPlace hm ⟨huser, ho.2⟩ (probe_notPrivate hp hm.marker hg) q
  obtain ⟨hverdict, hpacket⟩ := hook_privately hm q
  rw [if_pos hrel] at hv hverdict
  refine ⟨hv.trans hverdict.symm, fun _ => by omega, fun _ => hpk.trans hpacket.symm, fun h => ?_⟩
  rw [hv] at h
  cases h

/-- Nothing is cut out of the packet, and enough references remain. -/
theorem agrees_of_untouched (hm : Marked cfg c) (hp : ¬ Private c.skb)
    (hg : c.probeGranted = true) (hrel : Relays cfg c) (hun : Untouched c) (q : Queue) :
    Agrees cfg c q := by
  obtain ⟨hcopy, h2, hzero, hsum⟩ := hun
  have ho : ¬ OneOther c := fun ho => absurd ho.1 (by omega)
  obtain ⟨hskb, hv⟩ := hook_copies hm hp ho hg q
  obtain ⟨hverdict, hpacket⟩ := hook_privately hm q
  have hin : innerDaddr c.skb = daddr c.skb.mem c.skb.data := by
    unfold innerDaddr
    simp only [hzero, Nat.add_zero, memmove_self]
  have hne : daddr c.skb.mem c.skb.data ≠ ifaddr cfg c := hin ▸ hrel.2.2
  rw [if_pos ⟨hcopy, hrel.1, hrel.2.1, hne⟩] at hv
  rw [if_pos hrel] at hverdict
  refine ⟨hv.trans hverdict.symm, fun _ => ?_, fun _ => ?_, fun h => ?_⟩
  · rw [hskb]
    show 0 < c.skb.users - 1 - 1
    omega
  · rw [hskb, hpacket, hrel.1, decapsulatePrivate_packet_zero hm.netHdr hzero]
    exact hsum.symm
  · rw [hv] at h
    cases h

/-- A packet that is accepted has lost a reference, so only a relayed one can agree. -/
theorem relays_of_agrees (hm : Marked cfg c) (hp : ¬ Private c.skb) {q : Queue}
    (ha : Agrees cfg c q) : c.probeGranted = true ∧ Relays cfg c ∧
      (geosvrHook cfg c q).verdict = .stolen := by
  have hnot : (geosvrHook cfg c q).verdict ≠ .accept := fun h => by
    have hlt := hook_users_lt hm hp q
    have heq := ha.references h
    omega
  have hverdict := ha.verdict.trans (hook_privately hm q).1
  have hrel : Relays cfg c := by
    by_contra hn
    rw [if_neg hn] at hverdict
    exact hnot hverdict
  rw [if_pos hrel] at hverdict
  refine ⟨?_, hrel, hverdict⟩
  cases hg : c.probeGranted with
  | true => rfl
  | false => exact absurd (hook_accepts hm (probe_notPrivate hp hm.marker hg) q).1 hnot

/-- The `sk_buff` that was released twice holds the packet as it came. -/
theorem untouched_of_agrees (hm : Marked cfg c) (hp : ¬ Private c.skb) (ho : ¬ OneOther c)
    {q : Queue} (ha : Agrees cfg c q) : Untouched c := by
  obtain ⟨hg, hrel, hst⟩ := relays_of_agrees hm hp ha
  obtain ⟨hskb, hv⟩ := hook_copies hm hp ho hg q
  have hlive := ha.live (by rw [hst]; decide)
  have hpk := ha.packet (by rw [hst]; decide)
  rw [hskb] at hlive hpk
  have hlive' : 0 < c.skb.users - 1 - 1 := hlive
  have hpk' : c.skb.packet = (decapsulatePrivate true c.skb).1.packet := by
    rw [← hrel.1, ← (hook_privately hm q).2]
    exact hpk
  have hcopy : c.copyGranted = true := by
    by_contra hn
    rw [if_neg (fun h => hn h.1), hst] at hv
    cases hv
  have hzero : geoLen c.skb = 0 := by
    have hlen := congrArg List.length hpk'
    simp only [SkBuff.packet, bytes_length,
      (decapsulatePrivate_some hm.netHdr hrel.2.1).2.1] at hlen
    have hle := hrel.2.1
    omega
  exact ⟨hcopy, by omega, hzero,
    (decapsulatePrivate_packet_zero hm.netHdr hzero).symm.trans hpk'.symm⟩

end marked

/-- A packet from 10.0.0.1 to 10.0.0.2 with the GeoSVR header of a route of 4 bytes. -/
def incomingBytes : List UInt8 :=
  [0x45, 0, 0, 48, 0, 0, 0, 0, 64, 17, 0, 0, 10, 0, 0, 1, 10, 0, 0, 2,
    0, 0xFE, 0, 0, 0, 0xFE, 0, 0, 10, 0, 0, 1, 10, 0, 0, 2, 4, 0, 0, 0, 0x30, 0x2C, 0x31, 0x2C,
    1, 2, 3, 4]

/-- Its arrival at the host 10.0.0.2, in an `sk_buff` with `users` references. -/
def incoming (users : ℕ) (cloned : Bool) : Capture where
  hooknum := .preRouting
  skb := ⟨1, write (fun _ => 0) 16 incomingBytes, 0, 16, 48, 16, users, cloned, 0, none⟩
  dev := 2
  okfn := 0
  probeGranted := true
  probeId := 2
  copyGranted := true
  copyId := 3
  hdrGranted := true
  entryGranted := true

def hostConfig : Config := ⟨0x0200000a, 0xff00000a, 2, none⟩

end GeoSvr.Kernel
