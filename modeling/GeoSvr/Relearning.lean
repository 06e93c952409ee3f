import GeoSvr.Expiry

/-! # Learning a neighbour again

A host numbers its beacons from 0 each time it starts; the number is counted in 32 bits and sent
in 31 (`seqno_run`).  `recv_node` compares the number with the stored one before it looks at the
rest of the entry: neither the wrap of the counter nor a restart of the sender is noticed, and
that the entry has expired does not help either. -/

namespace GeoSvr.Daemon

open Runs

variable {R : Type*}

/-! ### The number of a beacon -/

def Event.isBeacon : Event R → Bool
  | .beacon _ => true
  | .rebroadcast _ _ => false
  | .accept _ _ _ => false

/-- How many beacons the host broadcast since it started. -/
def beaconCount (l : List (Event R)) : ℕ := l.countP Event.isBeacon

/-- `NeighManager::seqno` counts the beacons. -/
def Numbered (s : Node R) : Prop := s.seqno = .ofNat (beaconCount s.log)

theorem Numbered.of_eq {s s' : Node R} (h : Numbered s) (hq : s'.seqno = s.seqno)
    (hg : beaconCount s'.log = beaconCount s.log) : Numbered s' := by
  rw [Numbered, hq, hg]
  exact h

theorem sendNode_numbered {cfg : Config R} {env : Env R} {s : Node R} (h : Numbered s) :
    Numbered (sendNode cfg env s) := by
  show s.seqno + 1 = .ofNat (beaconCount (_ :: s.log))
  rw [beaconCount, List.countP_cons_of_pos rfl, h, UInt32.ofNat_add]
  rfl

theorem step_numbered [Scalar R] {cfg : Config R} {s s' : Node R} {a : Action R}
    (hs : Numbered s) (h : step cfg s a = some s') : Numbered s' := by
  obtain ⟨pkt, env, rfl, rfl⟩ | ⟨env, t, more, s₁, rfl, -, hc, rfl⟩ | ⟨rfl, rfl⟩ := step_cases h
  · obtain he | ⟨n', again, hacc⟩ := recvNode_effect cfg env pkt s
    · rw [he]
      exact hs
    · exact hs.of_eq hacc.seqno (by rw [hacc.log]; rfl)
  · obtain ⟨-, rfl, rfl⟩ | ⟨-, rfl, rfl⟩ | ⟨n, -, -, rfl, hs₁⟩ := callback_cases hc
    · exact sendNode_numbered (s := setInCb t.addr true s) hs
    · obtain ⟨-, -, -, -, -, -, -, hq, hg⟩ :=
        deleteWhere_deleted (fun n : Neighbor R => n.state.invalid) (setInCb t.addr true s)
      exact hs.of_eq hq (congrArg beaconCount hg)
    · obtain ⟨-, rfl⟩ | ⟨-, rfl⟩ := hs₁
      · exact hs.of_eq rfl rfl
      · exact hs.of_eq rfl rfl
  · obtain ⟨-, -, -, -, -, -, -, hq, hg⟩ :=
      deleteWhere_deleted (fun _ : Neighbor R => true) (geosvrTimerFree s.sendTimer s)
    exact hs.of_eq hq (congrArg beaconCount hg)

theorem seqno_run [Scalar R] {cfg : Config R} {inCb : Bool × Bool} {as : List (Action R)}
    {s : Node R} (hr : Run (step cfg) Free (Node.init cfg inCb.1 inCb.2) as s) : Numbered s :=
  hr.inv Numbered (fun _ _ _ hs _ h => step_numbered hs h) rfl

/-- The beacon with the number `k` carries `k` modulo 2³¹. -/
theorem toNat_beaconPacket_seqno {cfg : Config R} {env : Env R} {s : Node R} (h : Numbered s) :
    (beaconPacket cfg env s).seqno.toNat = beaconCount s.log % 2 ^ 31 := by
  show (BitVec.ofNat 31 s.seqno.toNat).toNat = _
  rw [h, BitVec.toNat_ofNat, UInt32.toNat_ofNat']
  omega

/-! ### Being accepted -/

/-- The packet is accepted: the table then has an entry of its source with its position, which is
valid and DIRECT. -/
def Relearns [Scalar R] (cfg : Config R) (env : Env R) (pkt : NodePacket R) (s : Node R) : Prop :=
  ∃ n again, (recvNode cfg env pkt s).log = .accept n.addr again pkt :: s.log ∧
    neighListFind (recvNode cfg env pkt s) pkt.saddr = some n ∧
    n.latitude = pkt.latitude ∧ n.longitude = pkt.longitude ∧
    n.state.invalid = false ∧ n.state.direct = true

/-- An entry that is replaced is found again. -/
theorem find_replaceNeighbor {n n' : Neighbor R} {ipAddr : UInt32} (ha : n'.addr = n.addr)
    (hi : n'.ipAddr = ipAddr) : ∀ {l : List (Neighbor R)},
    l.find? (fun x => x.ipAddr == ipAddr) = some n →
    (replaceNeighbor n' l).find? (fun x => x.ipAddr == ipAddr) = some n'
  | [], h => by cases h
  | x :: l, h => by
      show List.find? _ ((if x.addr = n'.addr then n' else x) :: replaceNeighbor n' l) = some n'
      by_cases hx : x.ipAddr = ipAddr
      · rw [List.find?_cons_of_pos (by simpa using hx)] at h
        cases h
        rw [if_pos ha.symm, List.find?_cons_of_pos (by simpa using hi)]
      · rw [List.find?_cons_of_neg (by simpa using hx)] at h
        split_ifs
        · exact List.find?_cons_of_pos (by simpa using hi)
        · rw [List.find?_cons_of_neg (by simpa using hx)]
          exact find_replaceNeighbor ha hi h

/-- What an update stores is found under its source. -/
theorem find_neighListUpdate (cfg : Config R) (env : Env R) {n : Neighbor R} {pkt : NodePacket R}
    (roadid : ℤ) (w : UInt64) {s : Node R} (hf : neighListFind s pkt.saddr = some n) :
    ∃ n', neighListFind (neighListUpdate cfg env n pkt roadid w s) pkt.saddr = some n' ∧
      Holds n' pkt ∧ n'.state.invalid = false ∧
      ∃ again, (neighListUpdate cfg env n pkt roadid w s).log =
        .accept n'.addr again pkt :: s.log := by
  obtain ⟨-, hip⟩ := neighListFind_some hf
  obtain ⟨n', hl, ha, hh, -, hv, hg, -⟩ := neighListUpdate_effect cfg env pkt roadid w s hip
  refine ⟨n', ?_, hh, hv, _, hg⟩
  unfold neighListFind at hf ⊢
  rw [num_neighListUpdate, hl]
  split_ifs at hf ⊢ with hn
  exact find_replaceNeighbor ha hh.ipAddr hf

/-- A direct packet of another host, which is a neighbour, is accepted if its number is greater
than the stored one, or the same for a neighbour that is known indirectly. -/
theorem relearns_iff_seqno [Scalar R] {cfg : Config R} {env : Env R} {pkt : NodePacket R}
    {s : Node R} {nei : Neighbor R} (hdirect : pkt.direct = true)
    (ht : pkt.taddr ≠ cfg.localAddr) (hs : pkt.saddr ≠ cfg.localAddr)
    (hf : neighListFind s pkt.saddr = some nei) :
    Relearns cfg env pkt s ↔ nei.seqno.toNat < pkt.seqno.toNat ∨
      (nei.seqno.toNat = pkt.seqno.toNat ∧ inCircle env s pkt = false ∧
        nei.state.direct = false) := by
  have hself : recvNode cfg env pkt s = s → ¬ Relearns cfg env pkt s := by
    rintro he ⟨n, again, hlog, -⟩
    rw [he] at hlog
    exact List.cons_ne_self _ _ hlog.symm
  have hupdate : ∀ roadid w, recvNode cfg env pkt s =
      neighListUpdate cfg env nei pkt roadid w s → Relearns cfg env pkt s := by
    intro roadid w he
    obtain ⟨n', hf', hh, hv, again, hlog⟩ := find_neighListUpdate cfg env roadid w hf
    rw [Relearns, he]
    exact ⟨n', again, hlog, hf', hh.latitude, hh.longitude, hv, hh.direct.trans hdirect⟩
  have hrecv : recvNode cfg env pkt s =
      if pkt.seqno.toNat < nei.seqno.toNat then s
      else if nei.seqno.toNat = pkt.seqno.toNat ∧ (inCircle env s pkt ∨ nei.state.direct) then s
      else neighListUpdate cfg env nei pkt (cfg.onRoad pkt.latitude pkt.longitude pkt.track)
        (waitTime env s pkt) s := by
    unfold recvNode
    rw [if_neg (not_or.mpr ⟨ht, hs⟩), hf]
  split_ifs at hrecv with hold hsame
  · refine iff_of_false (hself hrecv) ?_
    rintro (h | ⟨h, -⟩) <;> omega
  · refine iff_of_false (hself hrecv) ?_
    rintro (h | ⟨-, hc, hd⟩)
    · omega
    · simp [hc, hd] at hsame
  · refine iff_of_true (hupdate _ _ hrecv) ?_
    by_cases he : nei.seqno.toNat = pkt.seqno.toNat
    · have h := not_and.mp hsame he
      exact Or.inr ⟨he, by simpa [not_or] using h⟩
    · omega

/-! ### Beacons of one sender -/

/-- The host broadcasts a beacon in the state `t'` and a later one in the state `t`: in one life,
or after a restart, in which case the entry with the first one has `expired`. -/
inductive Later [Scalar R] (cfg : Config R) (expired : Bool) (t' t : Node R) : Prop
  | counted {inCb : Bool × Bool} {as bs : List (Action R)}
      (before : Run (step cfg) Free (Node.init cfg inCb.1 inCb.2) as t')
      (after : Run (step cfg) Free t' bs t)
      (sent : beaconCount t'.log < beaconCount t.log)
  | restarted {inCb inCb' : Bool × Bool} {as bs : List (Action R)}
      (before : Run (step cfg) Free (Node.init cfg inCb.1 inCb.2) as t')
      (after : Run (step cfg) Free (Node.init cfg inCb'.1 inCb'.2) bs t)
      (expired : expired = true)

theorem Later.numbered [Scalar R] {cfg : Config R} {expired : Bool} {t' t : Node R}
    (h : Later cfg expired t' t) : Numbered t' ∧ Numbered t := by
  cases h with
  | counted before after sent => exact ⟨seqno_run before, seqno_run (before.append after)⟩
  | restarted before after expired => exact ⟨seqno_run before, seqno_run after⟩

/-- **Learning a neighbour again.**  A neighbour's entry holds the number of the beacon that it
broadcast in the state `t'`; a later one, broadcast in the state `t`, arrives.  It is accepted
exactly if the count of beacons in `t` is greater modulo 2³¹, or the same modulo 2³¹ for a
neighbour that is known indirectly. -/
theorem relearns_iff [Scalar R] {cfg sender : Config R} {env senv' senv : Env R}
    {s t' t : Node R} {nei : Neighbor R} (hne : sender.localAddr ≠ cfg.localAddr)
    (hf : neighListFind s sender.localAddr = some nei)
    (hstored : nei.seqno = .ofNat (beaconPacket sender senv' t').seqno.toNat)
    (hlater : Later sender nei.state.invalid t' t) :
    Relearns cfg env (beaconPacket sender senv t) s ↔
      beaconCount t'.log % 2 ^ 31 < beaconCount t.log % 2 ^ 31 ∨
      (beaconCount t'.log % 2 ^ 31 = beaconCount t.log % 2 ^ 31 ∧
        inCircle env s (beaconPacket sender senv t) = false ∧ nei.state.direct = false) := by
  obtain ⟨hn', hn⟩ := hlater.numbered
  rw [@relearns_iff_seqno R _ _ _ (beaconPacket sender senv t) _ _ rfl hne hne hf, hstored,
    toNat_ofNat_seqno, toNat_beaconPacket_seqno hn', toNat_beaconPacket_seqno hn]

/-- The host `10.0.0.2`, whose beacons `10.0.0.1` receives. -/
def senderConfig : Config ℝ := { sampleConfig with localAddr := 0x0200000A }

/-- The sender after its first beacon. -/
noncomputable def senderState : Node ℝ :=
  sendNode senderConfig sampleEnv (Node.init senderConfig false false)

theorem senderState_run : Run (step senderConfig) Free (Node.init senderConfig false false)
    [.fire 0 sampleEnv] senderState := run_of_exec _ rfl

/-- The table after the first beacon. -/
noncomputable def learnedState : Node ℝ :=
  recvNode sampleConfig sampleEnv
    (beaconPacket senderConfig sampleEnv (Node.init senderConfig false false))
    (Node.init sampleConfig false false)

theorem relearns_iff_sample : Relearns sampleConfig sampleEnv
    (beaconPacket senderConfig sampleEnv senderState) learnedState := by
  have hlater : Later senderConfig false (Node.init senderConfig false false) senderState :=
    @Later.counted ℝ _ senderConfig false _ _ (false, false) [] _ (Run.nil _) senderState_run
      (Nat.lt_succ_self 0)
  have h := @relearns_iff ℝ _ sampleConfig senderConfig sampleEnv sampleEnv sampleEnv learnedState
    _ _ _ (by decide) rfl rfl hlater
  exact h.mpr (Or.inl (by decide))

/-! ### Beacons that are refused -/

/-- As long as the send timer is pending, there is a next beacon. -/
theorem next_beacon {cfg : Config ℝ} {t : Node ℝ}
    (ht : t.timers = (Node.init cfg false false).timers) (hf : t.finished = false) :
    Run (step cfg) Free t [.fire 0 sampleEnv] (sendNode cfg sampleEnv t) ∧
      beaconCount (sendNode cfg sampleEnv t).log = beaconCount t.log + 1 := by
  refine ⟨Run.single trivial ?_, List.countP_cons_of_pos rfl⟩
  obtain ⟨neiList, num, timers, fresh, sendTimer, cleaner, seqno, finished, log⟩ := t
  cases ht
  cases hf
  rfl

/-- A host can broadcast any number of beacons. -/
theorem exists_beacons (cfg : Config ℝ) : ∀ k : ℕ, ∃ as t,
    Run (step cfg) Free (Node.init cfg false false) as t ∧ beaconCount t.log = k ∧
      t.timers = (Node.init cfg false false).timers ∧ t.finished = false
  | 0 => ⟨[], _, Run.nil _, rfl, rfl, rfl⟩
  | k + 1 => by
      obtain ⟨as, t, hr, hk, ht, hf⟩ := exists_beacons cfg k
      obtain ⟨hr', hk'⟩ := next_beacon ht hf
      exact ⟨_, _, hr.append hr', by rw [hk', hk], ht, hf⟩

/-- A table with one neighbour, `10.0.0.2`, with the number `q`. -/
def knownState (q : UInt32) (invalid : Bool) : Node ℝ :=
  { Node.init sampleConfig false false with
    neiList := [⟨2, 0x0200000A, 0, 0, 0, 0, q, ⟨false, true, false, invalid⟩, 0, 3, some 4⟩]
    num := 1 }

/-- A smaller number is refused, also for an entry that has expired. -/
theorem refused_of_lt {q : UInt32} {invalid : Bool} {t : Node ℝ}
    (h : (beaconPacket senderConfig sampleEnv t).seqno.toNat < q.toNat) :
    ¬ Relearns sampleConfig sampleEnv (beaconPacket senderConfig sampleEnv t)
      (knownState q invalid) := by
  have hhost : senderConfig.localAddr ≠ sampleConfig.localAddr := by decide
  rw [@relearns_iff_seqno ℝ _ _ _ (beaconPacket senderConfig sampleEnv t) _ _ rfl hhost hhost rfl]
  rintro (hlt | ⟨heq, -⟩)
  · exact absurd hlt (not_lt.mpr h.le)
  · exact absurd heq h.ne'

/-- A restart, where the entry has expired, and the wrap of the counter: a later beacon is
refused. -/
theorem not_relearns :
    (∃ t' t : Node ℝ, Later senderConfig true t' t ∧
      ¬ Relearns sampleConfig sampleEnv (beaconPacket senderConfig sampleEnv t)
        (knownState (.ofNat (beaconPacket senderConfig sampleEnv t').seqno.toNat) true)) ∧
    ∃ t' t : Node ℝ, Later senderConfig false t' t ∧
      ¬ Relearns sampleConfig sampleEnv (beaconPacket senderConfig sampleEnv t)
        (knownState (.ofNat (beaconPacket senderConfig sampleEnv t').seqno.toNat) false) := by
  constructor
  · refine ⟨senderState, Node.init senderConfig false false, ?_, refused_of_lt (by decide)⟩
    exact @Later.restarted ℝ _ senderConfig true _ _ (false, false) (false, false) _ []
      senderState_run (Run.nil _) rfl
  · obtain ⟨as, t', hr', hk', ht, hf⟩ := exists_beacons senderConfig (2 ^ 31 - 1)
    obtain ⟨hr, hk⟩ := next_beacon ht hf
    refine ⟨t', _, @Later.counted ℝ _ senderConfig false _ _ (false, false) as _ hr' hr
      (by omega), refused_of_lt ?_⟩
    have hn' : Numbered t' := @seqno_run ℝ _ _ (false, false) _ _ hr'
    have hn := @seqno_run ℝ _ _ (false, false) _ _ (hr'.append hr)
    rw [toNat_ofNat_seqno, toNat_beaconPacket_seqno hn', toNat_beaconPacket_seqno hn, hk, hk']
    decide

end GeoSvr.Daemon
