import GeoSvr.TimerLifetime

/-! # How often a beacon is relayed

`step_effect` says what a step does to the table and the log: a packet is accepted, the host's
own beacon is broadcast, the beacon of a neighbour is broadcast again, or neither the log nor
what the table says changes.

A copy with a sequence number that the table has already is accepted only if the neighbour is
known indirectly and the host is not in the circle over source and relay (`in_circle` is false
for an unknown relay).  It re-arms the rebroadcast timer, so the beacon is relayed again.  The
number of rebroadcasts is bounded by the number of accepted copies: one, and one more for each
such copy. -/

namespace GeoSvr.Daemon

open Runs

variable {R : Type*}

/-! ### What a step does to the table and the log -/

/-- The neighbour says what the packet says. -/
structure Holds (n : Neighbor R) (pkt : NodePacket R) : Prop where
  ipAddr : n.ipAddr = pkt.saddr
  latitude : n.latitude = pkt.latitude
  longitude : n.longitude = pkt.longitude
  track : n.track = pkt.track
  speed : n.speed = pkt.speed
  seqno : n.seqno.toNat = pkt.seqno.toNat
  direct : n.state.direct = pkt.direct
  indirect : n.state.indirect = !pkt.direct

theorem toNat_ofNat_seqno (q : BitVec 31) : (UInt32.ofNat q.toNat).toNat = q.toNat := by
  have := q.isLt
  rw [UInt32.toNat_ofNat']
  omega

theorem orDirect_state (st : NeighState) (b : Bool) :
    (NeighState.orDirect { st with indirect := false, direct := false } b).direct = b ∧
      (NeighState.orDirect { st with indirect := false, direct := false } b).indirect = !b ∧
      (NeighState.orDirect { st with indirect := false, direct := false } b).rebroadcast =
        st.rebroadcast ∧
      (NeighState.orDirect { st with indirect := false, direct := false } b).invalid =
        st.invalid := by
  cases b <;> exact ⟨rfl, rfl, rfl, rfl⟩

/-- The neighbour that an insertion stores. -/
theorem neighListInsert_effect (cfg : Config R) (env : Env R) (pkt : NodePacket R) (roadid : ℤ)
    (w : UInt64) (s : Node R) :
    let s' := neighListInsert cfg env pkt roadid w s
    ∃ n', s'.neiList = n' :: s.neiList ∧ n'.addr = s.fresh ∧ Holds n' pkt ∧
      n'.state.rebroadcast = false ∧ n'.state.invalid = false ∧
      s'.log = .accept n'.addr false pkt :: s.log ∧ s'.seqno = s.seqno ∧ s.fresh < s'.fresh := by
  obtain ⟨h₁, h₂, h₃, h₄⟩ := orDirect_state ⟨false, false, false, false⟩ pkt.direct
  exact ⟨_, rfl, rfl, ⟨rfl, rfl, rfl, rfl, rfl, toNat_ofNat_seqno _, h₁, h₂⟩, h₃, h₄, rfl, rfl,
    Nat.lt_of_lt_of_le (Nat.lt_succ_self _) (Nat.le_add_right (s.fresh + 1) 2)⟩

theorem restartTimeout_effect (cfg : Config R) (env : Env R) (n : Neighbor R) (s : Node R) :
    let r := restartTimeout cfg env n s
    (r.1.addr = n.addr ∧ r.1.state.rebroadcast = n.state.rebroadcast ∧
      r.1.state.invalid = false ∧ ∀ pkt, Holds n pkt → Holds r.1 pkt) ∧
    r.2.neiList = s.neiList ∧ r.2.log = s.log ∧ r.2.seqno = s.seqno ∧ s.fresh ≤ r.2.fresh := by
  unfold restartTimeout
  split_ifs with h
  · exact ⟨⟨rfl, rfl, rfl, fun _ h => ⟨h.1, h.2, h.3, h.4, h.5, h.6, h.7, h.8⟩⟩, rfl, rfl, rfl,
      Nat.le_succ _⟩
  · exact ⟨⟨rfl, rfl, by simpa using h, fun _ h => h⟩, rfl, rfl, rfl, le_refl _⟩

theorem restartRebroadcast_effect (env : Env R) (w : UInt64) (n : Neighbor R) (s : Node R) :
    let r := restartRebroadcast env w n s
    (r.1.addr = n.addr ∧ r.1.state.rebroadcast = false ∧
      r.1.state.invalid = n.state.invalid ∧ ∀ pkt, Holds n pkt → Holds r.1 pkt) ∧
    r.2.neiList = s.neiList ∧ r.2.log = s.log ∧ r.2.seqno = s.seqno ∧ s.fresh ≤ r.2.fresh := by
  unfold restartRebroadcast
  split_ifs with h
  · exact ⟨⟨rfl, rfl, rfl, fun _ h => ⟨h.1, h.2, h.3, h.4, h.5, h.6, h.7, h.8⟩⟩, rfl, rfl, rfl,
      Nat.le_succ _⟩
  · exact ⟨⟨rfl, by simpa using h, rfl, fun _ h => h⟩, rfl, rfl, rfl, le_refl _⟩

/-- The neighbour that an update stores. -/
theorem neighListUpdate_effect (cfg : Config R) (env : Env R) {n : Neighbor R}
    (pkt : NodePacket R) (roadid : ℤ) (w : UInt64) (s : Node R) (hip : n.ipAddr = pkt.saddr) :
    let s' := neighListUpdate cfg env n pkt roadid w s
    ∃ n', s'.neiList = replaceNeighbor n' s.neiList ∧ n'.addr = n.addr ∧ Holds n' pkt ∧
      n'.state.rebroadcast = false ∧ n'.state.invalid = false ∧
      s'.log = .accept n'.addr (decide (n.seqno.toNat = pkt.seqno.toNat)) pkt :: s.log ∧
      s'.seqno = s.seqno ∧ s.fresh ≤ s'.fresh := by
  obtain ⟨hd, hi, -⟩ := orDirect_state n.state pkt.direct
  have h₀ : Holds (n.refresh pkt roadid) pkt :=
    ⟨hip, rfl, rfl, rfl, rfl, toNat_ofNat_seqno _, hd, hi⟩
  obtain ⟨⟨ha₁, -, hv₁, hh₁⟩, hl₁, hg₁, hq₁, hf₁⟩ :=
    restartTimeout_effect cfg env (n.refresh pkt roadid) s
  obtain ⟨⟨ha₂, hb₂, hv₂, hh₂⟩, hl₂, hg₂, hq₂, hf₂⟩ :=
    restartRebroadcast_effect env w (restartTimeout cfg env (n.refresh pkt roadid) s).1
      (restartTimeout cfg env (n.refresh pkt roadid) s).2
  have hagain : (n.seqno == .ofNat pkt.seqno.toNat) =
      decide (n.seqno.toNat = pkt.seqno.toNat) := by
    rw [Bool.eq_iff_iff, beq_iff_eq, decide_eq_true_eq, ← UInt32.toNat_inj, toNat_ofNat_seqno]
  refine ⟨_, ?_, ha₂.trans ha₁, hh₂ _ (hh₁ _ h₀), hb₂, hv₂.trans hv₁, ?_, hq₂.trans hq₁,
    hf₁.trans hf₂⟩
  · simp only [neighListUpdate, putNeighbor, hl₂, hl₁]
  · simp only [neighListUpdate, putNeighbor, hg₂, hg₁, hagain]

theorem num_neighListUpdate (cfg : Config R) (env : Env R) (n : Neighbor R) (pkt : NodePacket R)
    (roadid : ℤ) (w : UInt64) (s : Node R) :
    (neighListUpdate cfg env n pkt roadid w s).num = s.num := by
  simp only [neighListUpdate, restartTimeout, restartRebroadcast]
  split_ifs <;> rfl

/-- A packet is accepted: as a new neighbour, or by one that it is not older than. -/
structure Accepted [Scalar R] (s s' : Node R) (env : Env R) (pkt : NodePacket R)
    (n' : Neighbor R) (again : Bool) : Prop where
  holds : Holds n' pkt
  rebroadcast : n'.state.rebroadcast = false
  log : s'.log = .accept n'.addr again pkt :: s.log
  seqno : s'.seqno = s.seqno
  fresh : s.fresh ≤ s'.fresh
  neiList : (again = false ∧ n'.addr = s.fresh ∧ s.fresh < s'.fresh ∧
      s'.neiList = n' :: s.neiList) ∨
    ∃ n ∈ s.neiList, n.addr = n'.addr ∧ n.ipAddr = pkt.saddr ∧
      n.seqno.toNat ≤ pkt.seqno.toNat ∧ again = decide (n.seqno.toNat = pkt.seqno.toNat) ∧
      (n.seqno.toNat = pkt.seqno.toNat → inCircle env s pkt = false ∧ n.state.direct = false) ∧
      s'.neiList = replaceNeighbor n' s.neiList

/-- What the table says and the log stay; neighbours may go or time out. -/
structure Quiet (s s' : Node R) : Prop where
  log : s'.log = s.log
  seqno : s'.seqno = s.seqno
  fresh : s'.fresh = s.fresh
  neiList : ∀ x ∈ s'.neiList, ∃ y ∈ s.neiList, x = y ∨
    x = { y with state := { y.state with invalid := true } }

theorem Quiet.of_sublist {s s' : Node R} (hg : s'.log = s.log) (hq : s'.seqno = s.seqno)
    (hf : s'.fresh = s.fresh) (hl : s'.neiList.Sublist s.neiList) : Quiet s s' :=
  ⟨hg, hq, hf, fun x hx => ⟨x, hl.subset hx, Or.inl rfl⟩⟩

theorem recvNode_effect [Scalar R] (cfg : Config R) (env : Env R) (pkt : NodePacket R)
    (s : Node R) : recvNode cfg env pkt s = s ∨
      ∃ n' again, Accepted s (recvNode cfg env pkt s) env pkt n' again := by
  rcases recvNode_cases cfg env pkt s with he | ⟨-, roadid, w, he⟩ |
    ⟨n, roadid, w, hfind, hle, heq, he⟩
  · exact Or.inl he
  · obtain ⟨n', hl, ha, hh, hb, -, hg, hq, hf⟩ := neighListInsert_effect cfg env pkt roadid w s
    rw [he]
    exact Or.inr ⟨n', false, hh, hb, hg, hq, hf.le, Or.inl ⟨rfl, ha, hf, hl⟩⟩
  · obtain ⟨hn, hip⟩ := neighListFind_some hfind
    obtain ⟨n', hl, ha, hh, hb, -, hg, hq, hf⟩ :=
      neighListUpdate_effect cfg env pkt roadid w s hip
    rw [he]
    exact Or.inr ⟨n', _, hh, hb, hg, hq, hf, Or.inr ⟨n, hn, ha.symm, hip, hle, rfl, heq, hl⟩⟩

/-- What a step does to the table and the log. -/
theorem step_effect [Scalar R] {cfg : Config R} {s s' : Node R} {a : Action R} (hs : Sound s)
    (h : step cfg s a = some s') :
    (∃ pkt env n' again, a = .recv pkt env ∧ Accepted s s' env pkt n' again) ∨
    (∃ env, s'.neiList = s.neiList ∧ s'.fresh = s.fresh ∧
      s'.log = .beacon (beaconPacket cfg env s) :: s.log) ∨
    (∃ n ∈ s.neiList, n.state.rebroadcast = false ∧ s'.fresh = s.fresh ∧
      s'.neiList = replaceNeighbor { n with state := { n.state with rebroadcast := true } }
        s.neiList ∧
      s'.log = .rebroadcast n.addr (rebroadcastPacket cfg n) :: s.log) ∨
    Quiet s s' := by
  obtain ⟨pkt, env, rfl, rfl⟩ | ⟨env, t, more, s₁, rfl, ht, hc, rfl⟩ | ⟨rfl, rfl⟩ := step_cases h
  · obtain he | ⟨n', again, hacc⟩ := recvNode_effect cfg env pkt s
    · exact Or.inr (Or.inr (Or.inr (Quiet.of_sublist (by rw [he]) (by rw [he]) (by rw [he])
        (by rw [he]))))
    · exact Or.inl ⟨pkt, env, n', again, rfl, hacc⟩
  · obtain ⟨-, rfl, rfl⟩ | ⟨-, rfl, rfl⟩ | ⟨n, hn, hd, rfl, hs₁⟩ := callback_cases hc
    · exact Or.inr (Or.inl ⟨env, rfl, rfl, rfl⟩)
    · obtain ⟨hl, -, -, -, hf, -, -, hq, hg⟩ :=
        deleteWhere_deleted (fun n : Neighbor R => n.state.invalid) (setInCb t.addr true s)
      exact Or.inr (Or.inr (Or.inr (Quiet.of_sublist hg hq hf hl)))
    · obtain ⟨-, rfl⟩ | ⟨hfunc, rfl⟩ := hs₁
      · refine Or.inr (Or.inr (Or.inr ⟨rfl, rfl, rfl, fun x hx => ?_⟩))
        obtain ⟨rfl, -⟩ | ⟨hx, -⟩ := mem_replaceNeighbor.mp hx
        · exact ⟨n, hn, Or.inr rfl⟩
        · exact ⟨x, hx, Or.inl rfl⟩
      · -- the timer that fires is the one the neighbour's bit speaks of
        have hk : (t.addr, TimerCallback.rebroadcastExpire, n.addr) ∈ s.keys := by
          rw [hd, ← hfunc]
          exact List.mem_map_of_mem ht
        obtain ⟨r, hr, -, hiff⟩ := hs.owned.rebroadcast n hn
        rw [hs.owned.rebroadcastOwner n hn _ hk] at hr
        cases hr
        exact Or.inr (Or.inr (Or.inl ⟨n, hn, hiff.mp hk, rfl, rfl, rfl⟩))
  · obtain ⟨hl, -, -, -, hf, -, -, hq, hg⟩ :=
      deleteWhere_deleted (fun _ : Neighbor R => true) (geosvrTimerFree s.sendTimer s)
    exact Or.inr (Or.inr (Or.inr (Quiet.of_sublist hg hq hf hl)))

/-! ### One entry for each source -/

/-- `num` counts the list, and no two entries are about one source. -/
structure Listed (s : Node R) : Prop where
  num : s.num = s.neiList.length
  sources : (s.neiList.map Neighbor.ipAddr).Nodup

theorem Listed.eq_of_ipAddr {s : Node R} (h : Listed s) {n n' : Neighbor R} (hn : n ∈ s.neiList)
    (hn' : n' ∈ s.neiList) (he : n.ipAddr = n'.ipAddr) : n = n' :=
  List.inj_on_of_nodup_map h.sources hn hn' he

theorem Listed.find_none {s : Node R} (h : Listed s) {ipAddr : UInt32}
    (hf : neighListFind s ipAddr = none) : ∀ n ∈ s.neiList, n.ipAddr ≠ ipAddr := by
  intro n hn
  unfold neighListFind at hf
  split_ifs at hf with h0
  · have hempty : s.neiList = [] := List.length_eq_zero_iff.mp (h.num ▸ h0)
    rw [hempty] at hn
    cases hn
  · simpa using List.find?_eq_none.mp hf n hn

theorem Listed.of_eq {s s' : Node R} (h : Listed s) (hn : s'.num = s.num)
    (hl : s'.neiList.map Neighbor.ipAddr = s.neiList.map Neighbor.ipAddr) : Listed s' where
  num := by
    have hlen := congrArg List.length hl
    rw [List.length_map, List.length_map] at hlen
    rw [hn, hlen, h.num]
  sources := hl ▸ h.sources

/-- Storing a neighbour at its address again does not change the sources. -/
theorem map_ipAddr_replaceNeighbor {n n' : Neighbor R} {l : List (Neighbor R)}
    (hl : (l.map Neighbor.addr).Nodup) (hn : n ∈ l) (ha : n'.addr = n.addr)
    (hip : n'.ipAddr = n.ipAddr) :
    (replaceNeighbor n' l).map Neighbor.ipAddr = l.map Neighbor.ipAddr := by
  simp only [replaceNeighbor, List.map_map]
  apply List.map_congr_left
  intro x hx
  simp only [Function.comp]
  split_ifs with h
  · rw [hip, List.inj_on_of_nodup_map hl hx hn (h.trans ha)]
  · rfl

/-- A deletion takes one entry out. -/
theorem length_neighListDelete {s : Node R} {n : Neighbor R}
    (hl : (s.neiList.map Neighbor.addr).Nodup) (hn : n ∈ s.neiList) :
    (neighListDelete n s).neiList.length + 1 = s.neiList.length := by
  have hcount : s.neiList.countP (fun x => x.addr == n.addr) = 1 := by
    have h := List.count_eq_one_of_mem hl (List.mem_map_of_mem hn)
    rwa [List.count, List.countP_map] at h
  have hsum := List.length_eq_countP_add_countP (fun x : Neighbor R => x.addr == n.addr)
    (l := s.neiList)
  have hdel : (neighListDelete n s).neiList = s.neiList.filter (fun x => x.addr != n.addr) := by
    unfold neighListDelete
    cases n.rebroadcastTimer with
    | none => rfl
    | some r => cases n.state.rebroadcast <;> rfl
  rw [hdel, ← List.countP_eq_length_filter]
  have hneg : s.neiList.countP (fun x => x.addr != n.addr) =
      s.neiList.countP (fun x => decide ¬(x.addr == n.addr) = true) :=
    List.countP_congr (fun x _ => by simp)
  omega

theorem num_neighListDelete (n : Neighbor R) (s : Node R) :
    (neighListDelete n s).num = s.num - 1 := by
  unfold neighListDelete
  cases n.rebroadcastTimer with
  | none => rfl
  | some r => cases n.state.rebroadcast <;> rfl

/-- Induction on the neighbours that are still to be looked at. -/
theorem foldl_listed (p : Neighbor R → Bool) : ∀ (l : List (Neighbor R)) (s : Node R),
    (l.map Neighbor.addr).Nodup → (∀ n ∈ l, n ∈ s.neiList) →
    (s.neiList.map Neighbor.addr).Nodup → Listed s →
    Listed (l.foldl (fun s n => if p n then neighListDelete n s else s) s)
  | [], _, _, _, _, hs => hs
  | n :: l, s, hnd, hmem, hl, hs => by
      rw [List.map_cons, List.nodup_cons] at hnd
      rw [List.foldl_cons]
      have hrest : ∀ x ∈ l, x ∈ s.neiList := fun x hx => hmem x (List.mem_cons_of_mem _ hx)
      split_ifs with hp
      · have hn := hmem n List.mem_cons_self
        have hlen := length_neighListDelete hl hn
        have hd := neighListDelete_deleted n s
        refine foldl_listed p l _ hnd.2 (fun x hx => ?_) (hl.sublist (hd.neiList.map _)) ⟨?_, ?_⟩
        · refine (hd.mem_neiList x).mpr ⟨hrest x hx, fun m hm _ he => hnd.1 ?_⟩
          rw [List.mem_singleton.mp hm] at he
          exact List.mem_map.mpr ⟨x, hx, he⟩
        · rw [num_neighListDelete, hs.num]
          omega
        · exact hs.sources.sublist (hd.neiList.map _)
      · exact foldl_listed p l s hnd.2 hrest hl hs

theorem deleteWhere_listed (p : Neighbor R → Bool) {s : Node R}
    (hl : (s.neiList.map Neighbor.addr).Nodup) (hs : Listed s) : Listed (deleteWhere p s) :=
  foldl_listed p s.neiList s hl (fun _ hn => hn) hl hs

theorem recvNode_listed [Scalar R] (cfg : Config R) (env : Env R) (pkt : NodePacket R)
    {s : Node R} (hs : Sound s) (hl : Listed s) : Listed (recvNode cfg env pkt s) := by
  rcases recvNode_cases cfg env pkt s with he | ⟨hf, roadid, w, he⟩ |
    ⟨n, roadid, w, hfind, -, -, he⟩
  · rw [he]
    exact hl
  · rw [he]
    refine ⟨congrArg (· + 1) hl.num, List.nodup_cons.mpr ⟨fun hm => ?_, hl.sources⟩⟩
    obtain ⟨n, hn, hip⟩ := List.mem_map.mp hm
    exact hl.find_none hf n hn hip
  · obtain ⟨hn, hip⟩ := neighListFind_some hfind
    obtain ⟨n', hl', ha, hh, -⟩ := neighListUpdate_effect cfg env pkt roadid w s hip
    rw [he]
    refine hl.of_eq (num_neighListUpdate cfg env n pkt roadid w s) ?_
    rw [hl']
    exact map_ipAddr_replaceNeighbor hs.owned.addrs hn ha (hh.ipAddr.trans hip.symm)

theorem step_listed [Scalar R] {cfg : Config R} {s s' : Node R} {a : Action R} (hs : Sound s)
    (hl : Listed s) (h : step cfg s a = some s') : Listed s' := by
  obtain ⟨pkt, env, rfl, rfl⟩ | ⟨env, t, more, s₁, rfl, ht, hc, rfl⟩ | ⟨rfl, rfl⟩ := step_cases h
  · exact recvNode_listed cfg env pkt hs hl
  · obtain ⟨-, rfl, rfl⟩ | ⟨-, rfl, rfl⟩ | ⟨n, hn, hd, rfl, hs₁⟩ := callback_cases hc
    · exact hl.of_eq rfl rfl
    · exact (deleteWhere_listed (fun n : Neighbor R => n.state.invalid)
        (s := setInCb t.addr true s) hs.owned.addrs (hl.of_eq rfl rfl)).of_eq rfl rfl
    · obtain ⟨-, rfl⟩ | ⟨-, rfl⟩ := hs₁
      · exact hl.of_eq rfl (map_ipAddr_replaceNeighbor hs.owned.addrs hn rfl rfl)
      · exact hl.of_eq rfl (map_ipAddr_replaceNeighbor hs.owned.addrs hn rfl rfl)
  · exact (deleteWhere_listed (fun _ : Neighbor R => true)
      (s := geosvrTimerFree s.sendTimer s) hs.owned.addrs (hl.of_eq rfl rfl)).of_eq rfl rfl

theorem init_listed (cfg : Config R) (sendInCb cleanerInCb : Bool) :
    Listed (Node.init cfg sendInCb cleanerInCb) := ⟨rfl, List.nodup_nil⟩

/-! ### Counting copies -/

/-- The neighbour at `a` was rebroadcast with the sequence number `q`. -/
def Event.isRebroadcast (a : ℕ) (q : BitVec 31) : Event R → Bool
  | .rebroadcast a' pkt => a' == a && pkt.seqno == q
  | _ => false

/-- A copy with the sequence number `q` was accepted for the neighbour at `a`. -/
def Event.isAccept (a : ℕ) (q : BitVec 31) : Event R → Bool
  | .accept a' _ pkt => a' == a && pkt.seqno == q
  | _ => false

/-- A further copy was. -/
def Event.isAgain (a : ℕ) (q : BitVec 31) : Event R → Bool
  | .accept a' again pkt => again && (a' == a && pkt.seqno == q)
  | _ => false

def rebroadcasts (l : List (Event R)) (a : ℕ) (q : BitVec 31) : ℕ :=
  l.countP (Event.isRebroadcast a q)

def accepts (l : List (Event R)) (a : ℕ) (q : BitVec 31) : ℕ := l.countP (Event.isAccept a q)

def agains (l : List (Event R)) (a : ℕ) (q : BitVec 31) : ℕ := l.countP (Event.isAgain a q)

/-- The invariant: a neighbour whose rebroadcast is pending has an accepted copy to spend, and
first copies come once. -/
structure Relayed (s : Node R) : Prop where
  spent : ∀ a q, rebroadcasts s.log a q ≤ accepts s.log a q
  pending : ∀ n ∈ s.neiList, n.state.rebroadcast = false → ∀ q : BitVec 31,
    n.seqno.toNat = q.toNat → rebroadcasts s.log n.addr q + 1 ≤ accepts s.log n.addr q
  first : ∀ a q, accepts s.log a q ≤ 1 + agains s.log a q
  later : ∀ n ∈ s.neiList, ∀ q : BitVec 31, n.seqno.toNat < q.toNat →
    accepts s.log n.addr q = 0
  unused : ∀ a q, s.fresh ≤ a → accepts s.log a q = 0
  small : ∀ n ∈ s.neiList, n.seqno.toNat < 2 ^ 31

theorem accepts_cons (e : Event R) (l : List (Event R)) (a : ℕ) (q : BitVec 31) :
    accepts (e :: l) a q = accepts l a q + if e.isAccept a q then 1 else 0 := List.countP_cons

theorem rebroadcasts_cons (e : Event R) (l : List (Event R)) (a : ℕ) (q : BitVec 31) :
    rebroadcasts (e :: l) a q = rebroadcasts l a q + if e.isRebroadcast a q then 1 else 0 :=
  List.countP_cons

theorem agains_cons (e : Event R) (l : List (Event R)) (a : ℕ) (q : BitVec 31) :
    agains (e :: l) a q = agains l a q + if e.isAgain a q then 1 else 0 := List.countP_cons

/-- An event that is about no copy. -/
theorem Relayed.of_log {s s' : Node R} (hs : Relayed s) (hf : s.fresh ≤ s'.fresh)
    (ha : ∀ a q, accepts s'.log a q = accepts s.log a q)
    (hr : ∀ a q, rebroadcasts s'.log a q = rebroadcasts s.log a q)
    (hg : ∀ a q, agains s'.log a q = agains s.log a q)
    (hl : ∀ x ∈ s'.neiList, ∃ y ∈ s.neiList, x.addr = y.addr ∧ x.seqno = y.seqno ∧
      x.state.rebroadcast = y.state.rebroadcast) : Relayed s' where
  spent a q := by rw [ha, hr]; exact hs.spent a q
  pending x hx hb q hq := by
    obtain ⟨y, hy, hya, hys, hyb⟩ := hl x hx
    rw [ha, hr, hya]
    exact hs.pending y hy (hyb ▸ hb) q (hys ▸ hq)
  first a q := by rw [ha, hg]; exact hs.first a q
  later x hx q hq := by
    obtain ⟨y, hy, hya, hys, -⟩ := hl x hx
    rw [ha, hya]
    exact hs.later y hy q (hys ▸ hq)
  unused a q hlt := by rw [ha]; exact hs.unused a q (hf.trans hlt)
  small x hx := by
    obtain ⟨y, hy, -, hys, -⟩ := hl x hx
    exact hys ▸ hs.small y hy

/-- The copies there were before an accepted one, and the neighbours there are after it. -/
theorem Accepted.before [Scalar R] {s s' : Node R} {env : Env R} {pkt : NodePacket R}
    {n' : Neighbor R} {again : Bool} (h : Accepted s s' env pkt n' again) (hs : Sound s)
    (hrel : Relayed s) : (again = false → accepts s.log n'.addr pkt.seqno = 0) ∧
      (∀ q : BitVec 31, pkt.seqno.toNat < q.toNat → accepts s.log n'.addr q = 0) ∧
      (∀ x ∈ s'.neiList, x = n' ∨ (x ∈ s.neiList ∧ x.addr ≠ n'.addr)) ∧
      n'.addr < s'.fresh := by
  obtain ⟨-, ha, hf, hl⟩ | ⟨n, hn, ha, -, hle, hag, -, hl⟩ := h.neiList
  · refine ⟨fun _ => hrel.unused _ _ ha.ge, fun q _ => hrel.unused _ _ ha.ge, ?_, by omega⟩
    intro x hx
    rw [hl] at hx
    obtain rfl | hx := List.mem_cons.mp hx
    · exact Or.inl rfl
    · have := (hs.owned.addrLt x hx).1
      exact Or.inr ⟨hx, by omega⟩
  · have hflt := (hs.owned.addrLt n hn).1
    have hfle := h.fresh
    refine ⟨fun hno => ?_, fun q hq => ?_, ?_, by omega⟩
    · have hne : n.seqno.toNat ≠ pkt.seqno.toNat := by simpa [hno] using hag
      rw [← ha]
      exact hrel.later n hn _ (by omega)
    · rw [← ha]
      exact hrel.later n hn _ (by omega)
    · intro x hx
      rw [hl] at hx
      obtain ⟨rfl, -⟩ | hx := mem_replaceNeighbor.mp hx
      · exact Or.inl rfl
      · exact Or.inr hx

/-- An accepted copy is one more to spend. -/
theorem Accepted.relayed [Scalar R] {s s' : Node R} {env : Env R} {pkt : NodePacket R}
    {n' : Neighbor R} {again : Bool} (h : Accepted s s' env pkt n' again) (hs : Sound s)
    (hrel : Relayed s) : Relayed s' := by
  have hacc : ∀ a q, accepts s'.log a q =
      accepts s.log a q + if n'.addr = a ∧ pkt.seqno = q then 1 else 0 := by
    intro a q
    rw [h.log, accepts_cons]
    simp [Event.isAccept]
  have hreb : ∀ a q, rebroadcasts s'.log a q = rebroadcasts s.log a q := by
    intro a q
    rw [h.log, rebroadcasts_cons]
    simp [Event.isRebroadcast]
  have hagain : ∀ a q, agains s'.log a q =
      agains s.log a q + if again = true ∧ n'.addr = a ∧ pkt.seqno = q then 1 else 0 := by
    intro a q
    rw [h.log, agains_cons]
    simp [Event.isAgain]
  obtain ⟨hbefore, hlater, hmem, hlt⟩ := h.before hs hrel
  refine ⟨?_, ?_, ?_, ?_, ?_, ?_⟩
  · intro a q
    have := hrel.spent a q
    rw [hacc, hreb]
    omega
  · intro x hx hb q hq
    rw [hacc, hreb]
    obtain rfl | ⟨hx, hne⟩ := hmem x hx
    · have hpq : pkt.seqno = q := by
        apply BitVec.eq_of_toNat_eq
        rw [← hq, h.holds.seqno]
      have := hrel.spent x.addr q
      rw [if_pos ⟨rfl, hpq⟩]
      omega
    · rw [if_neg (fun h => hne h.1.symm)]
      exact hrel.pending x hx hb q hq
  · intro a q
    have := hrel.first a q
    rw [hacc, hagain]
    by_cases hc : n'.addr = a ∧ pkt.seqno = q
    · cases ha : again with
      | true => simp only [hc, and_self, if_true]; omega
      | false =>
          have := hbefore ha
          rw [hc.1, hc.2] at this
          simp only [hc, and_self, if_true]
          omega
    · rw [if_neg hc]
      omega
  · intro x hx q hq
    rw [hacc]
    obtain rfl | ⟨hx, hne⟩ := hmem x hx
    · rw [h.holds.seqno] at hq
      rw [hlater q hq, if_neg (fun h => by rw [h.2] at hq; omega)]
    · rw [if_neg (fun h => hne h.1.symm)]
      exact hrel.later x hx q hq
  · intro a q hle
    have hfle := h.fresh
    rw [hacc, hrel.unused a q (by omega), if_neg (fun h => by omega)]
  · intro x hx
    obtain rfl | ⟨hx, -⟩ := hmem x hx
    · rw [h.holds.seqno]
      exact pkt.seqno.isLt
    · exact hrel.small x hx

/-- A rebroadcast spends the pending copy. -/
theorem rebroadcast_relayed {s s' : Node R} {cfg : Config R} {n : Neighbor R}
    (hrel : Relayed s) (hn : n ∈ s.neiList) (hb : n.state.rebroadcast = false)
    (hf : s'.fresh = s.fresh)
    (hl : s'.neiList = replaceNeighbor { n with state := { n.state with rebroadcast := true } }
      s.neiList)
    (hg : s'.log = .rebroadcast n.addr (rebroadcastPacket cfg n) :: s.log) : Relayed s' := by
  have hacc : ∀ a q, accepts s'.log a q = accepts s.log a q := by
    intro a q
    rw [hg, accepts_cons]
    simp [Event.isAccept]
  have hreb : ∀ a q, rebroadcasts s'.log a q = rebroadcasts s.log a q +
      if n.addr = a ∧ BitVec.ofNat 31 n.seqno.toNat = q then 1 else 0 := by
    intro a q
    rw [hg, rebroadcasts_cons]
    simp [Event.isRebroadcast, rebroadcastPacket]
  have hagain : ∀ a q, agains s'.log a q = agains s.log a q := by
    intro a q
    rw [hg, agains_cons]
    simp [Event.isAgain]
  have hsmall := hrel.small n hn
  have hseq : (BitVec.ofNat 31 n.seqno.toNat).toNat = n.seqno.toNat := by
    rw [BitVec.toNat_ofNat, Nat.mod_eq_of_lt hsmall]
  -- the neighbours, with the sequence numbers they had
  have hmem : ∀ x ∈ s'.neiList, (x.state.rebroadcast = true ∨ x.addr ≠ n.addr) ∧
      ∃ y ∈ s.neiList, x.addr = y.addr ∧ x.seqno = y.seqno ∧
        (x.addr ≠ n.addr → x.state.rebroadcast = y.state.rebroadcast) := by
    intro x hx
    rw [hl] at hx
    obtain ⟨rfl, -⟩ | ⟨hx, hne⟩ := mem_replaceNeighbor.mp hx
    · exact ⟨Or.inl rfl, n, hn, rfl, rfl, fun hne => absurd rfl hne⟩
    · exact ⟨Or.inr hne, x, hx, rfl, rfl, fun _ => rfl⟩
  refine ⟨?_, ?_, ?_, ?_, ?_, ?_⟩
  · intro a q
    rw [hacc, hreb]
    split_ifs with hc
    · obtain ⟨rfl, rfl⟩ := hc
      exact hrel.pending n hn hb _ hseq.symm
    · exact hrel.spent a q
  · intro x hx hxb q hq
    obtain ⟨hx', y, hy, hya, hys, hyb⟩ := hmem x hx
    have hne : x.addr ≠ n.addr := hx'.resolve_left (by rw [hxb]; exact Bool.false_ne_true)
    rw [hacc, hreb, if_neg (fun h => hne h.1.symm), hya]
    exact hrel.pending y hy ((hyb hne).symm.trans hxb) q (hys ▸ hq)
  · intro a q
    rw [hacc, hagain]
    exact hrel.first a q
  · intro x hx q hq
    obtain ⟨-, y, hy, hya, hys, -⟩ := hmem x hx
    rw [hacc, hya]
    exact hrel.later y hy q (hys ▸ hq)
  · intro a q hle
    rw [hacc]
    exact hrel.unused a q (hf ▸ hle)
  · intro x hx
    obtain ⟨-, y, hy, -, hys, -⟩ := hmem x hx
    exact hys ▸ hrel.small y hy

/-- Step lemma: every step spends copies that were accepted. -/
theorem step_relayed [Scalar R] {cfg : Config R} {s s' : Node R} {a : Action R} (hs : Sound s)
    (hrel : Relayed s) (h : step cfg s a = some s') : Relayed s' := by
  rcases step_effect hs h with ⟨pkt, env, n', again, -, hacc⟩ | ⟨env, hl, hf, hg⟩ |
    ⟨n, hn, hb, hf, hl, hg⟩ | hq
  · exact hacc.relayed hs hrel
  · refine hrel.of_log hf.ge (fun a q => ?_) (fun a q => ?_) (fun a q => ?_)
      (fun x hx => ⟨x, hl ▸ hx, rfl, rfl, rfl⟩)
    · rw [hg, accepts_cons]
      rfl
    · rw [hg, rebroadcasts_cons]
      rfl
    · rw [hg, agains_cons]
      rfl
  · exact rebroadcast_relayed hrel hn hb hf hl hg
  · refine hrel.of_log hq.fresh.ge (fun a q => by rw [hq.log]) (fun a q => by rw [hq.log])
      (fun a q => by rw [hq.log]) (fun x hx => ?_)
    obtain ⟨y, hy, hxy⟩ := hq.neiList x hx
    obtain rfl | rfl := hxy
    · exact ⟨x, hy, rfl, rfl, rfl⟩
    · exact ⟨y, hy, rfl, rfl, rfl⟩

theorem init_relayed (cfg : Config R) (sendInCb cleanerInCb : Bool) :
    Relayed (Node.init cfg sendInCb cleanerInCb) where
  spent _ _ := le_refl _
  pending _ hn := absurd hn List.not_mem_nil
  first _ _ := Nat.zero_le _
  later _ hn := absurd hn List.not_mem_nil
  unused _ _ _ := rfl
  small _ hn := absurd hn List.not_mem_nil

/-! ### Runs -/

/-- The packet is a further copy: the source is a neighbour with this sequence number, of which
only relayed copies came so far, and the host is not known to be in the circle. -/
def FurtherCopy [Scalar R] (s : Node R) : Action R → Prop
  | .recv pkt env => ∃ n ∈ s.neiList, n.ipAddr = pkt.saddr ∧ n.seqno.toNat = pkt.seqno.toNat ∧
      n.state.direct = false ∧ inCircle env s pkt = false
  | .fire _ _ => False
  | .fini => False

/-- Without further copies, none is accepted. -/
theorem step_agains [Scalar R] {cfg : Config R} {s s' : Node R} {a : Action R} (hs : Sound s)
    (hc : ¬ FurtherCopy s a) (h : step cfg s a = some s') (a' : ℕ) (q : BitVec 31) :
    agains s'.log a' q = agains s.log a' q := by
  rcases step_effect hs h with ⟨pkt, env, n', again, rfl, hacc⟩ | ⟨env, -, -, hg⟩ |
    ⟨n, -, -, -, -, hg⟩ | hq
  · have hno : again = false := by
      obtain ⟨hno, -⟩ | ⟨n, hn, -, hip, -, hag, heq, -⟩ := hacc.neiList
      · exact hno
      · rw [hag, decide_eq_false_iff_not]
        exact fun he => hc ⟨n, hn, hip, he, (heq he).2, (heq he).1⟩
    rw [hacc.log, agains_cons, hno]
    rfl
  · rw [hg, agains_cons]
    rfl
  · rw [hg, agains_cons]
    rfl
  · rw [hq.log]

/-- The invariant of every run. -/
structure Protocol (s : Node R) : Prop where
  sound : Sound s
  listed : Listed s
  relayed : Relayed s

theorem step_protocol [Scalar R] {cfg : Config R} {s s' : Node R} {a : Action R}
    (hs : Protocol s) (h : step cfg s a = some s') : Protocol s' :=
  ⟨step_sound hs.sound h, step_listed hs.sound hs.listed h, step_relayed hs.sound hs.relayed h⟩

theorem init_protocol (cfg : Config R) (sendInCb cleanerInCb : Bool) :
    Protocol (Node.init cfg sendInCb cleanerInCb) :=
  ⟨init_sound cfg _ _, init_listed cfg _ _, init_relayed cfg _ _⟩

theorem run_protocol [Scalar R] {cfg : Config R} {C : Node R → Action R → Prop}
    {sendInCb cleanerInCb : Bool} {as : List (Action R)} {s : Node R}
    (hr : Run (step cfg) C (Node.init cfg sendInCb cleanerInCb) as s) : Protocol s :=
  hr.inv Protocol (fun _ _ _ hs _ h => step_protocol hs h) (init_protocol cfg _ _)

theorem run_agains [Scalar R] {cfg : Config R} {sendInCb cleanerInCb : Bool}
    {as : List (Action R)} {s : Node R}
    (hr : Run (step cfg) (fun s a => ¬ FurtherCopy s a)
      (Node.init cfg sendInCb cleanerInCb) as s) (a : ℕ) (q : BitVec 31) :
    agains s.log a q = 0 := by
  have h := hr.inv (fun s => Sound s ∧ agains s.log a q = 0)
    (fun _ _ _ hs hc h => ⟨step_sound hs.1 h, (step_agains hs.1 hc h a q).trans hs.2⟩)
    ⟨init_sound cfg _ _, rfl⟩
  exact h.2

/-- The beacon of `10.0.0.2`, relayed by `10.0.0.3`, which is not a neighbour. -/
def relayedPacket : NodePacket ℝ := { samplePacket with taddr := 0x0300000A, direct := false }

/-- Two copies come, one before the rebroadcast timer fires and one after. -/
def relayedActions : List (Action ℝ) :=
  [.recv relayedPacket sampleEnv, .fire 4 sampleEnv, .recv relayedPacket sampleEnv,
    .fire 5 sampleEnv]

end GeoSvr.Daemon
