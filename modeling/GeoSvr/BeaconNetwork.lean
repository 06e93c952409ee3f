import GeoSvr.Beacon

/-! # A network of hosts

Every host is a daemon under its own address.  The medium keeps what was ever broadcast and
delivers any of it to anyone, in any order and any number of times; it delivers nothing else
(`Delivers`).

* `Genuine` is the invariant of a packet: its owner broadcast it as a beacon, and a relay changed
  no more than `taddr` and `direct`; a packet that says it is direct was not changed at all.
* `Recorded` is the invariant of a table: each entry says what the packet that was accepted last
  for it says, and that packet is genuine.  A relay broadcasts from its table, so this is what
  makes the packets in the air genuine. -/

namespace GeoSvr.Daemon

open Runs

variable {R : Type*}

/-- The daemons, by the addresses of their hosts. -/
abbrev Network (R : Type*) := UInt32 → Node R

/-- The configuration of the host at the address `b`. -/
def Config.at (cfgs : UInt32 → Config R) (b : UInt32) : Config R := { cfgs b with localAddr := b }

/-- The host at the address `a.1` does `a.2`. -/
def netStep [Scalar R] (cfgs : UInt32 → Config R) (net : Network R) (a : UInt32 × Action R) :
    Option (Network R) :=
  (step (Config.at cfgs a.1) (net a.1) a.2).map (fun s => Function.update net a.1 s)

/-- No daemon has done anything; `inCb` is what `malloc` left in its two timers. -/
def Network.init (cfgs : UInt32 → Config R) (inCb : UInt32 → Bool × Bool) : Network R :=
  fun b => Node.init (Config.at cfgs b) (inCb b).1 (inCb b).2

/-- The host at `b` broadcast the packet, as its own beacon or for a neighbour. -/
def Sent (net : Network R) (b : UInt32) (pkt : NodePacket R) : Prop :=
  Event.beacon pkt ∈ (net b).log ∨ ∃ a, Event.rebroadcast a pkt ∈ (net b).log

/-- The medium forges nothing: what a host receives was broadcast by some host. -/
def Delivers (net : Network R) : UInt32 × Action R → Prop
  | (_, .recv pkt _) => ∃ b, Sent net b pkt
  | (_, .fire _ _) => True
  | (_, .fini) => True

/-- The packet that was accepted last for the neighbour at `a`. -/
def lastAccepted (a : ℕ) : List (Event R) → Option (NodePacket R)
  | [] => none
  | .accept a' _ pkt :: l => if a' = a then some pkt else lastAccepted a l
  | .beacon _ :: l => lastAccepted a l
  | .rebroadcast _ _ :: l => lastAccepted a l

/-! ### Invariants -/

/-- The packet is a beacon of the host `saddr`, possibly relayed. -/
def Genuine (net : Network R) (pkt : NodePacket R) : Prop :=
  ∃ pkt', Event.beacon pkt' ∈ (net pkt.saddr).log ∧
    pkt = { pkt' with taddr := pkt.taddr, direct := pkt.direct } ∧
    (pkt.direct = true → pkt = pkt')

/-- The neighbour says what the packet says that was accepted last for it. -/
def Recorded (net : Network R) (b : UInt32) (n : Neighbor R) : Prop :=
  ∃ pkt, lastAccepted n.addr (net b).log = some pkt ∧ Holds n pkt ∧ Genuine net pkt

/-- The invariant of every run. -/
structure Honest (net : Network R) : Prop where
  sound : ∀ b, Sound (net b)
  beacons : ∀ b pkt, Event.beacon pkt ∈ (net b).log →
    pkt.taddr = b ∧ pkt.saddr = b ∧ pkt.direct = true
  sent : ∀ b pkt, Sent net b pkt → Genuine net pkt
  tables : ∀ b, ∀ n ∈ (net b).neiList, Recorded net b n

/-- The logs grow. -/
def Grows (net net' : Network R) : Prop := ∀ b, (net b).log ⊆ (net' b).log

theorem Genuine.mono {net net' : Network R} (hg : Grows net net') {pkt : NodePacket R}
    (h : Genuine net pkt) : Genuine net' pkt := by
  obtain ⟨pkt', hlog, heq, hdir⟩ := h
  exact ⟨pkt', hg _ hlog, heq, hdir⟩

/-- What a relay broadcasts from a table is genuine if the table is. -/
theorem Recorded.rebroadcast {net : Network R} {b : UInt32} {n : Neighbor R}
    (h : Recorded net b n) (cfg : Config R) : Genuine net (rebroadcastPacket cfg n) := by
  obtain ⟨pkt, -, hh, pkt', hlog, heq, -⟩ := h
  have hseq : BitVec.ofNat 31 n.seqno.toNat = pkt.seqno := by
    rw [hh.seqno, BitVec.ofNat_toNat, BitVec.setWidth_eq]
  refine ⟨pkt', ?_, ?_, fun hd => absurd hd Bool.false_ne_true⟩
  · show Event.beacon pkt' ∈ (net n.ipAddr).log
    rw [hh.ipAddr]
    exact hlog
  · rw [heq] at hh hseq
    simp only [rebroadcastPacket, hh.ipAddr, hh.latitude, hh.longitude, hh.track, hh.speed, hseq]

/-! ### Steps -/

section step

variable [Scalar R] {cfgs : UInt32 → Config R} {net net' : Network R} {a : UInt32 × Action R}

/-- A step of the network is a step of one host. -/
theorem netStep_cases (h : netStep cfgs net a = some net') :
    ∃ s, step (Config.at cfgs a.1) (net a.1) a.2 = some s ∧ net' a.1 = s ∧
      ∀ b, b ≠ a.1 → net' b = net b := by
  obtain ⟨s, hs, rfl⟩ := Option.map_eq_some_iff.mp h
  exact ⟨s, hs, Function.update_self _ _ _, fun b hb => Function.update_of_ne hb _ _⟩

/-- A property of hosts that the steps of a host keep is kept by the steps of the network. -/
theorem netStep_forall {P : Node R → Prop}
    (hP : ∀ cfg s s' a, P s → step cfg s a = some s' → P s')
    (hs : ∀ b, P (net b)) (h : netStep cfgs net a = some net') (b : UInt32) : P (net' b) := by
  obtain ⟨s, hstep, hself, hother⟩ := netStep_cases h
  by_cases hb : b = a.1
  · rw [hb, hself]
    exact hP _ _ _ _ (hs a.1) hstep
  · rw [hother b hb]
    exact hs b

theorem netStep_log (hs : ∀ b, Sound (net b)) (h : netStep cfgs net a = some net') :
    Grows net net' := by
  obtain ⟨s, hstep, rfl, hother⟩ := netStep_cases h
  intro b
  by_cases hb : b = a.1
  · subst hb
    rcases step_effect (hs a.1) hstep with ⟨_, _, _, _, -, hacc⟩ | ⟨_, -, -, hg⟩ |
      ⟨_, -, -, -, -, hg⟩ | hq
    · rw [hacc.log]
      exact List.subset_cons_self _ _
    · rw [hg]
      exact List.subset_cons_self _ _
    · rw [hg]
      exact List.subset_cons_self _ _
    · rw [hq.log]
      exact List.Subset.refl _
  · rw [hother b hb]
    exact List.Subset.refl _

/-- The new events of a step. -/
theorem netStep_events (hs : Honest net) (h : netStep cfgs net a = some net') (e : Event R)
    (he : e ∈ (net' a.1).log) : e ∈ (net a.1).log ∨
      (∃ a' again pkt, e = .accept a' again pkt) ∨
      (∃ env, e = .beacon (beaconPacket (Config.at cfgs a.1) env (net a.1))) ∨
      ∃ n ∈ (net a.1).neiList, e = .rebroadcast n.addr (rebroadcastPacket (Config.at cfgs a.1) n) := by
  obtain ⟨s, hstep, rfl, -⟩ := netStep_cases h
  rcases step_effect (hs.sound a.1) hstep with ⟨_, _, _, _, -, hacc⟩ | ⟨_, -, -, hg⟩ |
    ⟨n, hn, -, -, -, hg⟩ | hq
  · rw [hacc.log] at he
    obtain rfl | he := List.mem_cons.mp he
    · exact Or.inr (Or.inl ⟨_, _, _, rfl⟩)
    · exact Or.inl he
  · rw [hg] at he
    obtain rfl | he := List.mem_cons.mp he
    · exact Or.inr (Or.inr (Or.inl ⟨_, rfl⟩))
    · exact Or.inl he
  · rw [hg] at he
    obtain rfl | he := List.mem_cons.mp he
    · exact Or.inr (Or.inr (Or.inr ⟨n, hn, rfl⟩))
    · exact Or.inl he
  · rw [hq.log] at he
    exact Or.inl he

/-- What the entries of the host that took the step say. -/
theorem netStep_recorded (hs : Honest net) (hc : Delivers net a)
    (h : netStep cfgs net a = some net') (hgrow : Grows net net') :
    ∀ n ∈ (net' a.1).neiList, Recorded net' a.1 n := by
  obtain ⟨s, hstep, rfl, -⟩ := netStep_cases h
  have hkeep : ∀ x y : Neighbor R, y ∈ (net a.1).neiList → x.addr = y.addr →
      (∀ pkt, Holds y pkt → Holds x pkt) →
      lastAccepted x.addr (net' a.1).log = lastAccepted x.addr (net a.1).log →
      Recorded net' a.1 x := by
    intro x y hy ha hh hlast
    obtain ⟨pkt, hl, hp, hgen⟩ := hs.tables a.1 y hy
    exact ⟨pkt, by rw [hlast, ha, hl], hh pkt hp, hgen.mono hgrow⟩
  intro x hx
  rcases step_effect (hs.sound a.1) hstep with ⟨pkt, env, n', again, ha, hacc⟩ |
    ⟨_, hl, -, hg⟩ | ⟨n, hn, -, -, hl, hg⟩ | hq
  · have hlast : ∀ y ∈ (net a.1).neiList, y.addr ≠ n'.addr →
        lastAccepted y.addr (net' a.1).log = lastAccepted y.addr (net a.1).log := by
      intro y _ hne
      rw [hacc.log, lastAccepted, if_neg (Ne.symm hne)]
    have hnew : Recorded net' a.1 n' := by
      refine ⟨pkt, by rw [hacc.log, lastAccepted, if_pos rfl], hacc.holds, ?_⟩
      obtain ⟨host, act⟩ := a
      subst ha
      obtain ⟨b, hb⟩ := hc
      exact (hs.sent b pkt hb).mono hgrow
    obtain ⟨-, haddr, -, hl⟩ | ⟨n, hn, haddr, -, -, -, -, hl⟩ := hacc.neiList
    · rw [hl] at hx
      obtain rfl | hx := List.mem_cons.mp hx
      · exact hnew
      · have hlt := ((hs.sound a.1).owned.addrLt x hx).1
        exact hkeep x x hx rfl (fun _ h => h) (hlast x hx (by omega))
    · rw [hl] at hx
      obtain ⟨rfl, -⟩ | ⟨hx, hne⟩ := mem_replaceNeighbor.mp hx
      · exact hnew
      · exact hkeep x x hx rfl (fun _ h => h) (hlast x hx hne)
  · rw [hl] at hx
    exact hkeep x x hx rfl (fun _ h => h) (by rw [hg]; rfl)
  · rw [hl] at hx
    have hlast : ∀ y : Neighbor R,
        lastAccepted y.addr (net' a.1).log = lastAccepted y.addr (net a.1).log := by
      intro y
      rw [hg]
      rfl
    obtain ⟨rfl, -⟩ | ⟨hx, -⟩ := mem_replaceNeighbor.mp hx
    · exact hkeep _ n hn rfl (fun _ h => ⟨h.1, h.2, h.3, h.4, h.5, h.6, h.7, h.8⟩) (hlast _)
    · exact hkeep x x hx rfl (fun _ h => h) (hlast x)
  · obtain ⟨y, hy, hxy⟩ := hq.neiList x hx
    obtain rfl | rfl := hxy
    · exact hkeep x x hy rfl (fun _ h => h) (by rw [hq.log])
    · exact hkeep _ y hy rfl (fun _ h => ⟨h.1, h.2, h.3, h.4, h.5, h.6, h.7, h.8⟩)
        (by rw [hq.log])

/-- Step lemma. -/
theorem netStep_honest (hs : Honest net) (hc : Delivers net a)
    (h : netStep cfgs net a = some net') : Honest net' := by
  have hgrow := netStep_log hs.sound h
  obtain ⟨_, -, -, hother⟩ := netStep_cases h
  refine ⟨netStep_forall (fun _ _ _ _ hs h => step_sound hs h) hs.sound h, ?_, ?_, ?_⟩
  · intro b pkt hb
    by_cases hba : b = a.1
    · subst hba
      obtain hb | ⟨_, _, _, he⟩ | ⟨env, he⟩ | ⟨_, -, he⟩ := netStep_events hs h _ hb
      · exact hs.beacons a.1 pkt hb
      · cases he
      · cases he
        exact ⟨rfl, rfl, rfl⟩
      · cases he
    · rw [hother b hba] at hb
      exact hs.beacons b pkt hb
  · intro b pkt hsent
    by_cases hba : b = a.1
    · subst hba
      obtain hb | ⟨a', hb⟩ := hsent
      · obtain hb' | ⟨_, _, _, he⟩ | ⟨env, he⟩ | ⟨_, -, he⟩ := netStep_events hs h _ hb
        · exact (hs.sent a.1 pkt (Or.inl hb')).mono hgrow
        · cases he
        · cases he
          exact ⟨_, hb, rfl, fun _ => rfl⟩
        · cases he
      · obtain hb' | ⟨_, _, _, he⟩ | ⟨env, he⟩ | ⟨n, hn, he⟩ := netStep_events hs h _ hb
        · exact (hs.sent a.1 pkt (Or.inr ⟨a', hb'⟩)).mono hgrow
        · cases he
        · cases he
        · cases he
          exact ((hs.tables a.1 n hn).rebroadcast _).mono hgrow
    · rw [Sent, hother b hba] at hsent
      exact (hs.sent b pkt hsent).mono hgrow
  · intro b n hn
    by_cases hba : b = a.1
    · subst hba
      exact netStep_recorded hs hc h hgrow n hn
    · rw [hother b hba] at hn
      obtain ⟨pkt, hl, hh, hgen⟩ := hs.tables b n hn
      exact ⟨pkt, by rw [hother b hba]; exact hl, hh, hgen.mono hgrow⟩

end step

theorem init_honest (cfgs : UInt32 → Config R) (inCb : UInt32 → Bool × Bool) :
    Honest (Network.init cfgs inCb) where
  sound b := init_sound (Config.at cfgs b) (inCb b).1 (inCb b).2
  beacons b pkt h := absurd h List.not_mem_nil
  sent b pkt h := by
    obtain h | ⟨a, h⟩ := h
    · exact absurd h List.not_mem_nil
    · exact absurd h List.not_mem_nil
  tables b n h := absurd h List.not_mem_nil

/-! ### Freshness -/

/-- An entry at `a` has at least the sequence number `q`. -/
def AtLeast (a q : ℕ) (s : Node R) : Prop :=
  a < s.fresh ∧ ∀ n ∈ s.neiList, n.addr = a → q ≤ n.seqno.toNat

/-- Step lemma: only a packet that is not older changes the sequence number of an entry. -/
theorem step_atLeast [Scalar R] {cfg : Config R} {s s' : Node R} {act : Action R} {a q : ℕ}
    (hs : Sound s) (h : step cfg s act = some s') (ha : AtLeast a q s) : AtLeast a q s' := by
  obtain ⟨hlt, hle⟩ := ha
  rcases step_effect hs h with ⟨pkt, env, n', again, -, hacc⟩ | ⟨_, hl, hf, -⟩ |
    ⟨n, hn, -, hf, hl, -⟩ | hq
  · refine ⟨hlt.trans_le hacc.fresh, fun x hx hxa => ?_⟩
    obtain ⟨-, haddr, -, hl⟩ | ⟨n, hn, haddr, -, hold, -, -, hl⟩ := hacc.neiList
    · rw [hl] at hx
      obtain rfl | hx := List.mem_cons.mp hx
      · omega
      · exact hle x hx hxa
    · rw [hl] at hx
      obtain ⟨rfl, -⟩ | ⟨hx, -⟩ := mem_replaceNeighbor.mp hx
      · have hqn := hle n hn (haddr.trans hxa)
        rw [hacc.holds.seqno]
        exact hqn.trans hold
      · exact hle x hx hxa
  · exact ⟨by rw [hf]; exact hlt, fun x hx hxa => hle x (hl ▸ hx) hxa⟩
  · refine ⟨by rw [hf]; exact hlt, fun x hx hxa => ?_⟩
    rw [hl] at hx
    obtain ⟨rfl, -⟩ | ⟨hx, -⟩ := mem_replaceNeighbor.mp hx
    · exact hle n hn hxa
    · exact hle x hx hxa
  · refine ⟨by rw [hq.fresh]; exact hlt, fun x hx hxa => ?_⟩
    obtain ⟨y, hy, hxy⟩ := hq.neiList x hx
    obtain rfl | rfl := hxy
    · exact hle x hy hxa
    · exact hle y hy hxa

/-- Run lemma. -/
theorem run_atLeast [Scalar R] {cfgs : UInt32 → Config R}
    {C : Network R → UInt32 × Action R → Prop} {net net' : Network R}
    {as : List (UInt32 × Action R)} (hs : ∀ b, Sound (net b))
    (hr : Run (netStep cfgs) C net as net') (b : UInt32) {n : Neighbor R}
    (hn : n ∈ (net b).neiList) : AtLeast n.addr n.seqno.toNat (net' b) := by
  have h₀ : AtLeast n.addr n.seqno.toNat (net b) := by
    refine ⟨((hs b).owned.addrLt n hn).1, fun x hx hxa => ?_⟩
    rw [(hs b).owned.addr_unique hx hn hxa]
  have hinv := hr.inv (fun net => (∀ b, Sound (net b)) ∧ AtLeast n.addr n.seqno.toNat (net b)) ?_
    ⟨hs, h₀⟩
  · exact hinv.2
  · intro net₁ act net₂ ⟨hs₁, h₁⟩ _ hstep
    refine ⟨netStep_forall (fun _ _ _ _ hs h => step_sound hs h) hs₁ hstep, ?_⟩
    obtain ⟨s, hs₂, hself, hother⟩ := netStep_cases hstep
    by_cases hb : b = act.1
    · rw [hb, hself]
      exact step_atLeast (hs₁ act.1) hs₂ (hb ▸ h₁)
    · rw [hother b hb]
      exact h₁

/-! ### Runs -/

/-- The entry equals a beacon that its owner broadcast. -/
def FromOwner (net : Network R) (n : Neighbor R) : Prop :=
  ∃ pkt, Event.beacon pkt ∈ (net n.ipAddr).log ∧ pkt.saddr = n.ipAddr ∧
    n.seqno.toNat = pkt.seqno.toNat ∧ n.latitude = pkt.latitude ∧ n.longitude = pkt.longitude ∧
    n.track = pkt.track ∧ n.speed = pkt.speed

/-- The entry is direct if the copy accepted last is what its owner broadcast itself, and
otherwise exactly indirect. -/
def DirectFromOwner (net : Network R) (b : UInt32) (n : Neighbor R) : Prop :=
  ∃ pkt, lastAccepted n.addr (net b).log = some pkt ∧ pkt.saddr = n.ipAddr ∧
    n.state.direct = pkt.direct ∧ n.state.indirect = !pkt.direct ∧
    (pkt.direct = true → pkt.taddr = n.ipAddr ∧ Event.beacon pkt ∈ (net n.ipAddr).log)

theorem Recorded.fromOwner {net : Network R} {b : UInt32} {n : Neighbor R}
    (hs : Honest net) (h : Recorded net b n) : FromOwner net n := by
  obtain ⟨pkt, -, hh, pkt', hlog, heq, -⟩ := h
  have hsaddr := (hs.beacons _ _ hlog).2.1
  rw [← hh.ipAddr] at hlog hsaddr
  refine ⟨pkt', hlog, hsaddr, ?_, ?_, ?_, ?_, ?_⟩
  · rw [hh.seqno, heq]
  · rw [hh.latitude, heq]
  · rw [hh.longitude, heq]
  · rw [hh.track, heq]
  · rw [hh.speed, heq]

theorem Recorded.directFromOwner {net : Network R} {b : UInt32} {n : Neighbor R}
    (hs : Honest net) (h : Recorded net b n) : DirectFromOwner net b n := by
  obtain ⟨pkt, hl, hh, pkt', hlog, -, hdir⟩ := h
  refine ⟨pkt, hl, hh.ipAddr.symm, hh.direct, hh.indirect, fun hd => ?_⟩
  rw [← hdir hd] at hlog
  rw [hh.ipAddr]
  exact ⟨(hs.beacons _ _ hlog).1, hlog⟩

theorem run_honest [Scalar R] {cfgs : UInt32 → Config R} {inCb : UInt32 → Bool × Bool}
    {as : List (UInt32 × Action R)} {net : Network R}
    (hr : Run (netStep cfgs) Delivers (Network.init cfgs inCb) as net) : Honest net :=
  hr.inv Honest (fun _ _ _ hs hc h => netStep_honest hs hc h) (init_honest cfgs inCb)

/-- **Provenance and freshness of the tables**: in every run of a network, every entry of a table
is a beacon of its owner and is direct only if it came from there, and from then on its sequence
number does not decrease while it stays. -/
theorem provenance_run [Scalar R] {cfgs : UInt32 → Config R} {inCb : UInt32 → Bool × Bool}
    {as : List (UInt32 × Action R)} {net : Network R}
    (hr : Run (netStep cfgs) Delivers (Network.init cfgs inCb) as net) :
    ∀ b, ∀ n ∈ (net b).neiList, FromOwner net n ∧ DirectFromOwner net b n ∧
      ∀ bs net', Run (netStep cfgs) Delivers net bs net' →
        ∀ n' ∈ (net' b).neiList, n'.addr = n.addr → n.seqno.toNat ≤ n'.seqno.toNat := by
  intro b n hn
  have hs := run_honest hr
  have hrec := hs.tables b n hn
  refine ⟨hrec.fromOwner hs, hrec.directFromOwner hs, fun bs net' hr' n' hn' ha => ?_⟩
  exact (run_atLeast hs.sound hr' b hn).2 n' hn' ha

/-- The first beacon of the host `10.0.0.2`. -/
def firstBeacon : NodePacket ℝ :=
  beaconPacket (Config.at (fun _ => sampleConfig) 0x0200000A) sampleEnv
    (Node.init sampleConfig false false)

/-- `10.0.0.1` receives the first beacon of `10.0.0.2`. -/
theorem provenance_run_sample : ∃ net n,
    Run (netStep (fun _ => sampleConfig)) Delivers
      (Network.init (fun _ => sampleConfig) (fun _ => (false, false)))
      [(0x0200000A, .fire 0 sampleEnv), (0x0100000A, .recv firstBeacon sampleEnv)] net ∧
    n ∈ (net 0x0100000A).neiList ∧ FromOwner net n := by
  have hr : Run (netStep (fun _ => sampleConfig)) Delivers
      (Network.init (fun _ => sampleConfig) (fun _ => (false, false)))
      [(0x0200000A, .fire 0 sampleEnv), (0x0100000A, .recv firstBeacon sampleEnv)] _ :=
    Run.cons trivial rfl (Run.cons ⟨0x0200000A, Or.inl List.mem_cons_self⟩ rfl (Run.nil _))
  exact ⟨_, _, hr, List.mem_cons_self, (provenance_run hr 0x0100000A _ List.mem_cons_self).1⟩

end GeoSvr.Daemon
