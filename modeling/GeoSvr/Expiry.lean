import GeoSvr.Beacon
import GeoSvr.Forwarding

/-! # Expired neighbours

A timeout sets a bit of the neighbour's state, and the entry stays until the next pass of the
cleaner.  The lookups test other bits: `dst_is_direct` the bit INDIRECT, and
`restricted_forwarding_algo` the bit DIRECT.  So an expired neighbour is used exactly if it is
known directly, and no expired neighbour is used in a run exactly if no timeout fires for a DIRECT
neighbour. -/

namespace GeoSvr.Daemon

open Runs
open MapManager (DedupedData Route)

variable {R : Type*}

/-- No lookup answers with an expired neighbour; address 0 stands for no next hop. -/
def ExpiredUnused [Scalar R] (s : Node R) : Prop :=
  ∀ n ∈ s.neiList, n.state.invalid = true → dstIsDirect s n.ipAddr = false ∧
    ∀ (env : Env R) (table : List (DedupedData R)) (ofr : List Route),
      nextHop env table s ofr = some n.ipAddr → n.ipAddr = 0

/-- No timeout fires for a DIRECT neighbour. -/
def ExpiresIndirect (s : Node R) : Action R → Prop
  | .recv _ _ => True
  | .fire timer _ => ∀ t ∈ s.timers, t.addr = timer → t.func = .neighListExpire →
      ∀ n ∈ s.neiList, n.addr = t.data → n.state.direct = false
  | .fini => True

instance (s : Node R) (a : Action R) : Decidable (ExpiresIndirect s a) :=
  match a with
  | .recv _ _ => isTrue trivial
  | .fire timer _ => inferInstanceAs (Decidable (∀ t ∈ s.timers, t.addr = timer →
      t.func = .neighListExpire → ∀ n ∈ s.neiList, n.addr = t.data → n.state.direct = false))
  | .fini => isTrue trivial

/-! ### The bits of the state -/

/-- A neighbour is known either directly or indirectly. -/
def Exclusive (n : Neighbor R) : Prop := n.state.indirect = !n.state.direct

/-- The expired neighbours are INDIRECT. -/
def ExpiredIndirect (s : Node R) : Prop :=
  ∀ n ∈ s.neiList, n.state.invalid = true → n.state.direct = false

theorem Holds.exclusive {n : Neighbor R} {pkt : NodePacket R} (h : Holds n pkt) : Exclusive n :=
  h.indirect.trans (congrArg not h.direct.symm)

/-- A packet leaves an entry as it is, or stores one that has not expired. -/
theorem recvNode_valid [Scalar R] (cfg : Config R) (env : Env R) (pkt : NodePacket R)
    (s : Node R) : ∀ x ∈ (recvNode cfg env pkt s).neiList,
      x ∈ s.neiList ∨ (x.state.invalid = false ∧ Exclusive x) := by
  intro x hx
  obtain he | ⟨-, roadid, w, he⟩ | ⟨n, roadid, w, hfind, -, -, he⟩ := recvNode_cases cfg env pkt s
  · rw [he] at hx
    exact Or.inl hx
  · obtain ⟨n', hl, -, hh, -, hv, -⟩ := neighListInsert_effect cfg env pkt roadid w s
    rw [he, hl] at hx
    obtain rfl | hx := List.mem_cons.mp hx
    · exact Or.inr ⟨hv, hh.exclusive⟩
    · exact Or.inl hx
  · obtain ⟨-, hip⟩ := neighListFind_some hfind
    obtain ⟨n', hl, -, hh, -, hv, -⟩ := neighListUpdate_effect cfg env pkt roadid w s hip
    rw [he, hl] at hx
    obtain ⟨rfl, -⟩ | ⟨hx, -⟩ := mem_replaceNeighbor.mp hx
    · exact Or.inr ⟨hv, hh.exclusive⟩
    · exact Or.inl hx

/-- The same bits, REBROADCAST apart. -/
def SameBits (x y : Neighbor R) : Prop :=
  x.state.invalid = y.state.invalid ∧ x.state.direct = y.state.direct ∧
    x.state.indirect = y.state.indirect

/-- What a step does to the bits: a timeout fires, or every entry has the bits it had or has not
expired. -/
theorem step_bits [Scalar R] {cfg : Config R} {s s' : Node R} {a : Action R} (hs : Sound s)
    (h : step cfg s a = some s') :
    (∃ env t, a = .fire t.addr env ∧ t ∈ s.timers ∧ t.func = .neighListExpire ∧
      ∃ n ∈ s.neiList, n.addr = t.data ∧
        s'.neiList = replaceNeighbor { n with state := { n.state with invalid := true } }
          s.neiList) ∨
    (ExpiresIndirect s a ∧ ∀ x ∈ s'.neiList, (∃ y ∈ s.neiList, SameBits x y) ∨
      (x.state.invalid = false ∧ Exclusive x)) := by
  have hsame : ∀ {l : List (Neighbor R)}, l.Sublist s.neiList →
      ∀ x ∈ l, (∃ y ∈ s.neiList, SameBits x y) ∨ (x.state.invalid = false ∧ Exclusive x) :=
    fun hl x hx => Or.inl ⟨x, hl.subset hx, rfl, rfl, rfl⟩
  obtain ⟨pkt, env, rfl, rfl⟩ | ⟨env, t, more, s₁, rfl, ht, hc, rfl⟩ | ⟨rfl, rfl⟩ := step_cases h
  · refine Or.inr ⟨trivial, fun x hx => ?_⟩
    exact (recvNode_valid cfg env pkt s x hx).imp_left (fun hx => ⟨x, hx, rfl, rfl, rfl⟩)
  · have hother : t.func ≠ .neighListExpire → ExpiresIndirect s (.fire t.addr env) := by
      intro hne u hu he hf
      exact absurd ((congrArg (fun k => k.2.1) (hs.key_eq ht hu he)).symm.trans hf) hne
    obtain ⟨hf, rfl, rfl⟩ | ⟨hf, rfl, rfl⟩ | ⟨n, hn, hd, rfl, hs₁⟩ := callback_cases hc
    · exact Or.inr ⟨hother (by rw [hf]; decide), hsame (List.Sublist.refl _)⟩
    · refine Or.inr ⟨hother (by rw [hf]; decide), hsame ?_⟩
      exact (deleteWhere_deleted (fun n : Neighbor R => n.state.invalid)
        (setInCb t.addr true s)).neiList
    · obtain ⟨hf, rfl⟩ | ⟨hf, rfl⟩ := hs₁
      · exact Or.inl ⟨env, t, rfl, ht, hf, n, hn, hd, rfl⟩
      · refine Or.inr ⟨hother (by rw [hf]; decide), fun x hx => Or.inl ?_⟩
        obtain ⟨rfl, -⟩ | ⟨hx, -⟩ := mem_replaceNeighbor.mp hx
        · exact ⟨n, hn, rfl, rfl, rfl⟩
        · exact ⟨x, hx, rfl, rfl, rfl⟩
  · exact Or.inr ⟨trivial, hsame (deleteWhere_deleted (fun _ : Neighbor R => true)
      (geosvrTimerFree s.sendTimer s)).neiList⟩

/-! ### Reachable states -/

/-- The invariant of a run: the timers and the table are in order, a neighbour is known in one
way. -/
structure Tabled (s : Node R) : Prop where
  sound : Sound s
  listed : Listed s
  exclusive : ∀ n ∈ s.neiList, Exclusive n

theorem init_tabled (cfg : Config R) (sendInCb cleanerInCb : Bool) :
    Tabled (Node.init cfg sendInCb cleanerInCb) :=
  ⟨init_sound cfg _ _, init_listed cfg _ _, fun _ hn => absurd hn List.not_mem_nil⟩

theorem step_tabled [Scalar R] {cfg : Config R} {s s' : Node R} {a : Action R} (hs : Tabled s)
    (h : step cfg s a = some s') : Tabled s' := by
  refine ⟨step_sound hs.sound h, step_listed hs.sound hs.listed h, fun x hx => ?_⟩
  obtain ⟨-, -, -, -, -, n, hn, -, hl⟩ | ⟨-, hbits⟩ := step_bits hs.sound h
  · rw [hl] at hx
    obtain ⟨rfl, -⟩ | ⟨hx, -⟩ := mem_replaceNeighbor.mp hx
    · exact hs.exclusive n hn
    · exact hs.exclusive x hx
  · obtain ⟨y, hy, -, hd, hi⟩ | ⟨-, he⟩ := hbits x hx
    · have := hs.exclusive y hy
      rwa [Exclusive, ← hd, ← hi] at this
    · exact he

/-- No expired neighbour is used iff the expired neighbours are INDIRECT. -/
theorem expiredUnused_iff [Scalar R] {s : Node R} (hs : Tabled s) :
    ExpiredUnused s ↔ ExpiredIndirect s := by
  have hfind : ∀ n ∈ s.neiList, neighListFind s n.ipAddr = some n := by
    intro n hn
    cases hf : neighListFind s n.ipAddr with
    | none => exact absurd rfl (hs.listed.find_none hf n hn)
    | some m =>
        obtain ⟨hm, hip⟩ := neighListFind_some hf
        rw [hs.listed.eq_of_ipAddr hm hn hip]
  constructor
  · intro h n hn hinv
    have hd := (h n hn hinv).1
    have hex := hs.exclusive n hn
    unfold dstIsDirect at hd
    rw [hfind n hn] at hd
    unfold Exclusive at hex
    simpa [hex] using hd
  · intro h n hn hinv
    have hdir := h n hn hinv
    constructor
    · have hex := hs.exclusive n hn
      unfold Exclusive at hex
      unfold dstIsDirect
      rw [hfind n hn]
      simp [hex, hdir]
    · intro env table ofr hnext
      by_contra h0
      obtain ⟨m, hm, hmd, hip, -⟩ := nextHop_sound hnext h0
      rw [hs.listed.eq_of_ipAddr hm hn hip.symm, hdir] at hmd
      cases hmd

/-- Step lemma: only the timeout of a DIRECT neighbour breaks the property. -/
theorem step_expired [Scalar R] {cfg : Config R} {s s' : Node R} {a : Action R} (hs : Tabled s)
    (hexp : ExpiredIndirect s) (h : step cfg s a = some s') :
    ExpiredIndirect s' ↔ ExpiresIndirect s a := by
  obtain ⟨env, t, rfl, ht, hf, n, hn, hd, hl⟩ | ⟨hc, hbits⟩ := step_bits hs.sound h
  · constructor
    · intro h' u hu he hfu m hm hmd
      have hdata : u.data = t.data := congrArg (fun k => k.2.2) (hs.sound.key_eq ht hu he)
      rw [hs.sound.owned.addr_unique hm hn (hmd.trans (hdata.trans hd.symm))]
      have hmem : ({ n with state := { n.state with invalid := true } } : Neighbor R) ∈
          s'.neiList := by
        rw [hl]
        exact mem_replaceNeighbor.mpr (Or.inl ⟨rfl, n, hn, rfl⟩)
      have hdirect := h' _ hmem rfl
      exact hdirect
    · intro hc x hx hinv
      rw [hl] at hx
      obtain ⟨rfl, -⟩ | ⟨hx, -⟩ := mem_replaceNeighbor.mp hx
      · exact hc t ht rfl hf n hn hd
      · exact hexp x hx hinv
  · refine iff_of_true (fun x hx hinv => ?_) hc
    obtain ⟨y, hy, hi, hdir, -⟩ | ⟨hv, -⟩ := hbits x hx
    · rw [hdir]
      exact hexp y hy (hi.symm.trans hinv)
    · rw [hinv] at hv
      cases hv

/-- **Expired neighbours.**  In a run of the daemon no lookup ever answers with an expired
neighbour, iff no timeout fires for a DIRECT neighbour. -/
theorem expiredUnused_run_iff [Scalar R] {cfg : Config R} {sendInCb cleanerInCb : Bool}
    {as : List (Action R)} {s : Node R}
    (hr : Run (step cfg) Free (Node.init cfg sendInCb cleanerInCb) as s) :
    (∀ bs cs t, as = bs ++ cs → Run (step cfg) Free (Node.init cfg sendInCb cleanerInCb) bs t →
      ExpiredUnused t) ↔
      Run (step cfg) ExpiresIndirect (Node.init cfg sendInCb cleanerInCb) as s := by
  have hinit : ExpiredIndirect (Node.init cfg sendInCb cleanerInCb) :=
    fun _ hn => absurd hn List.not_mem_nil
  have htabled : ∀ {bs t}, Run (step cfg) Free (Node.init cfg sendInCb cleanerInCb) bs t →
      Tabled t := fun ht =>
    ht.inv Tabled (fun _ _ _ hs _ h => step_tabled hs h) (init_tabled cfg _ _)
  rw [← Run.forall_iff (I := fun s => Tabled s ∧ ExpiredIndirect s)
    (fun _ _ _ hs h => step_expired hs.1 hs.2 h)
    (fun _ _ _ hs hc h => ⟨step_tabled hs.1 h, (step_expired hs.1 hs.2 h).mpr hc⟩)
    ⟨init_tabled cfg sendInCb cleanerInCb, hinit⟩ hinit hr]
  constructor
  · intro h bs cs t he ht
    exact (expiredUnused_iff (htabled ht)).mp (h bs cs t he ht)
  · intro h bs cs t he ht
    exact (expiredUnused_iff (htabled ht)).mpr (h bs cs t he ht)

/-- A relayed beacon, and its timeout. -/
theorem expiredUnused_run_iff_sample :
    ∃ s, Run (step sampleConfig) Free (Node.init sampleConfig false false)
        [.recv { samplePacket with direct := false } sampleEnv, .fire 3 sampleEnv] s ∧
      ∀ bs cs t, [.recv { samplePacket with direct := false } sampleEnv, .fire 3 sampleEnv] =
        bs ++ cs → Run (step sampleConfig) Free (Node.init sampleConfig false false) bs t →
          ExpiredUnused t := by
  have hr : Run (step sampleConfig) Free (Node.init sampleConfig false false)
      [.recv { samplePacket with direct := false } sampleEnv, .fire 3 sampleEnv] _ :=
    run_of_exec _ rfl
  exact ⟨_, hr, (expiredUnused_run_iff hr).mpr
    (Run.cons trivial rfl (Run.cons (by decide) rfl (Run.nil _)))⟩

/-- A neighbour that was heard directly times out, and packets for it are still sent to it. -/
theorem expired_used :
    ∃ (cfg : Config ℝ) (as : List (Action ℝ)) (s : Node ℝ),
      Run (step cfg) Free (Node.init cfg false false) as s ∧
        (∃ n ∈ s.neiList, n.state.invalid = true ∧ dstIsDirect s n.ipAddr = true) ∧
        ¬ ExpiredUnused s := by
  have hr : Run (step sampleConfig) Free (Node.init sampleConfig false false)
      [.recv samplePacket sampleEnv, .fire 3 sampleEnv] _ := run_of_exec _ rfl
  refine ⟨sampleConfig, _, _, hr, ⟨_, List.mem_cons_self, rfl, rfl⟩, fun h => ?_⟩
  exact absurd (h _ List.mem_cons_self rfl).1 (by decide)

end GeoSvr.Daemon
