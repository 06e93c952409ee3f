import GeoSvr.TimerOwnership

/-! # Timers and the neighbours they outlive

`NoOrphan` says that no pending timer is for a neighbour that is gone.  Everything but the
deletion of a neighbour keeps it: `neigh_list_delete` never frees the timeout timer, so the
neighbour must have timed out before, which `neigh_list_fini` does not look at; and
`geosvr_timer_free` does nothing when `in_cb_` is set, which for a timer that never fired is
what `malloc` left there.  `Cancelled` is the condition that a deletion leaves nothing
pending. -/

namespace GeoSvr.Daemon

open Runs

variable {R : Type*}

/-- The callbacks that work on a neighbour. -/
def TimerCallback.forNeighbor : TimerCallback → Bool
  | .neighListExpire => true
  | .rebroadcastExpire => true
  | _ => false

/-- No pending timer is for a neighbour that is gone. -/
def NoOrphan (s : Node R) : Prop :=
  ∀ t ∈ s.timers, t.func.forNeighbor = true → ∃ n ∈ s.neiList, n.addr = t.data

theorem noOrphan_iff_keys {s : Node R} : NoOrphan s ↔
    ∀ k ∈ s.keys, k.2.1.forNeighbor = true → ∃ n ∈ s.neiList, n.addr = k.2.2 := by
  simp only [NoOrphan, Node.keys, List.forall_mem_map]
  rfl

/-- Keys that are for neighbours decide about orphans. -/
theorem noOrphan_congr {s s' : Node R} (hl : s'.neiList = s.neiList)
    (hk : ∀ k, k.2.1.forNeighbor = true → (k ∈ s'.keys ↔ k ∈ s.keys)) :
    NoOrphan s' ↔ NoOrphan s := by
  rw [noOrphan_iff_keys, noOrphan_iff_keys, hl]
  exact ⟨fun h k hm hf => h k ((hk k hf).mpr hm) hf, fun h k hm hf => h k ((hk k hf).mp hm) hf⟩

/-- A change that deletes no neighbour leaves no orphan. -/
theorem Extends.noOrphan {s s' : Node R} (h : Extends s s') (hs : NoOrphan s) : NoOrphan s' := by
  rw [noOrphan_iff_keys] at hs ⊢
  intro k hk hf
  obtain hk | ⟨-, hn⟩ := h.keys k hk
  · obtain ⟨n, hn, hd⟩ := hs k hk hf
    obtain ⟨m, hm, hma⟩ := h.addrs n hn
    exact ⟨m, hm, hma.trans hd⟩
  · exact hn

/-! ### Deletions -/

/-- A deletion that leaves nothing pending: the neighbour has timed out, and if its rebroadcast
timer is pending, it can be freed. -/
def Cancelled (s : Node R) (n : Neighbor R) : Prop :=
  n.state.invalid = true ∧ ∀ t ∈ s.timers, n.rebroadcastTimer = some t.addr →
    n.state.rebroadcast = false → t.inCb = false

instance (s : Node R) (n : Neighbor R) : Decidable (Cancelled s n) :=
  inferInstanceAs (Decidable (_ ∧ ∀ t ∈ s.timers, _ → _ → _))

/-- Deletions leave no orphan exactly when each of them cancels. -/
theorem Deleted.noOrphan_iff {p : Neighbor R → Bool} {s s' : Node R} {f : ℕ}
    (h : Deleted p s.neiList s s') (ho : Owned s.neiList s.keys f) (hs : NoOrphan s) :
    NoOrphan s' ↔ ∀ n ∈ s.neiList, p n = true → Cancelled s n := by
  have hgone : ∀ n ∈ s.neiList, p n = true → ∀ m ∈ s'.neiList, m.addr ≠ n.addr :=
    fun n hn hp m hm => ((h.mem_neiList m).mp hm).2 n hn hp
  refine ⟨fun hno n hn hp => ⟨?_, ?_⟩, fun hc t ht hf => ?_⟩
  · -- a neighbour that has not timed out leaves its timeout timer
    by_contra hinv
    rw [Bool.not_eq_true] at hinv
    obtain ⟨t, ht, he⟩ := mem_keys.mp ((ho.timeout n hn).mpr hinv)
    have hf : t.func = .neighListExpire := congrArg (fun k => k.2.1) he
    have ht' := h.keeps ho ht (fun m _ _ _ hc => by rw [he] at hc; simp at hc)
    obtain ⟨m, hm, hd⟩ := hno t ht' (by rw [hf]; rfl)
    exact hgone n hn hp m hm (hd.trans (congrArg (fun k => k.2.2) he))
  · -- a rebroadcast timer with `in_cb_` set is left
    intro t ht hr hb
    by_contra hi
    rw [Bool.not_eq_false] at hi
    have hk := ho.key_of_pending (List.mem_map_of_mem ht) hn hr hb
    have hf : t.func = .rebroadcastExpire := congrArg (fun k => k.2.1) hk
    have ht' := h.keeps ho ht (fun _ _ _ hi' => absurd (hi.symm.trans hi') (by simp))
    obtain ⟨m, hm, hd⟩ := hno t ht' (by rw [hf]; rfl)
    exact hgone n hn hp m hm (hd.trans (congrArg (fun k => k.2.2) hk))
  · -- the neighbour of a timer that is left was not deleted
    obtain ⟨ht', hleft⟩ := (h.mem_timers t).mp ht
    obtain ⟨n, hn, hd⟩ := hs t ht' hf
    have hk : t.key ∈ s.keys := List.mem_map_of_mem ht'
    have hp : p n = false := by
      rw [← Bool.not_eq_true]
      intro hp
      obtain ⟨hinv, hcan⟩ := hc n hn hp
      cases hfunc : t.func with
      | neighListExpire =>
          have hkn : (t.addr, TimerCallback.neighListExpire, n.addr) ∈ s.keys := by
            rw [hd, ← hfunc]
            exact hk
          rw [← ho.timeoutOwner n hn _ hkn, ho.timeout n hn, hinv] at hkn
          cases hkn
      | rebroadcastExpire =>
          have hkn : (t.addr, TimerCallback.rebroadcastExpire, n.addr) ∈ s.keys := by
            rw [hd, ← hfunc]
            exact hk
          have hr := ho.rebroadcastOwner n hn _ hkn
          obtain ⟨r, hr', -, hiff⟩ := ho.rebroadcast n hn
          rw [hr] at hr'
          cases hr'
          have hb := hiff.mp hkn
          exact hleft n hn hp ⟨hr, hb, hcan t ht' hr hb⟩
      | sendNodeInfo => rw [hfunc] at hf; cases hf
      | listCleanerCb => rw [hfunc] at hf; cases hf
    refine ⟨n, (h.mem_neiList n).mpr ⟨hn, fun m hm hpm he => ?_⟩, hd⟩
    rw [ho.addr_unique hn hm he, hpm] at hp
    cases hp

/-- Whether a deletion cancels depends on the timers for rebroadcasts only. -/
theorem cancelled_congr {s s' : Node R} {f : ℕ} (ho : Owned s.neiList s.keys f)
    (ho' : Owned s.neiList s'.keys f) (ht : ∀ t : GeoSVRTimer, t.func = .rebroadcastExpire →
      (t ∈ s'.timers ↔ t ∈ s.timers)) {n : Neighbor R} (hn : n ∈ s.neiList) :
    Cancelled s' n ↔ Cancelled s n := by
  unfold Cancelled
  refine and_congr_right (fun _ => ⟨fun h t hm hr hb => ?_, fun h t hm hr hb => ?_⟩)
  · have hk := ho.key_of_pending (List.mem_map_of_mem hm) hn hr hb
    exact h t ((ht t (congrArg (fun k => k.2.1) hk)).mpr hm) hr hb
  · have hk := ho'.key_of_pending (List.mem_map_of_mem hm) hn hr hb
    exact h t ((ht t (congrArg (fun k => k.2.1) hk)).mp hm) hr hb

/-- A pass of the cleaner. -/
theorem cleaner_noOrphan {s : Node R} {t : GeoSVRTimer} (hs : Sound s) (hno : NoOrphan s)
    (ht : t ∈ s.timers) (hf : t.func = .listCleanerCb) :
    NoOrphan (setInCb t.addr false (listCleanerCb (setInCb t.addr true s))) ↔
      ∀ n ∈ s.neiList, n.state.invalid = true → Cancelled s n := by
  have hdel := deleteWhere_deleted (fun n : Neighbor R => n.state.invalid) (setInCb t.addr true s)
  have hs₀ := setInCb_sound hs t.addr true
  have hno₀ := (setInCb_extends hs.owned t.addr true).noOrphan hno
  have hsame : NoOrphan (setInCb t.addr false (listCleanerCb (setInCb t.addr true s))) ↔
      NoOrphan (listCleanerCb (setInCb t.addr true s)) :=
    noOrphan_congr rfl (fun _ _ => by rw [keys_setInCb])
  -- the mark in `in_cb_` is on the cleaner's own timer
  have huniq : ∀ v ∈ s.timers, v.addr = t.addr → v.func = .listCleanerCb := fun v hv he =>
    (congrArg (fun k => k.2.1) (hs.key_eq ht hv he)).trans hf
  have hcond : ∀ n ∈ s.neiList, (Cancelled (setInCb t.addr true s) n ↔ Cancelled s n) := by
    intro n hn
    refine cancelled_congr hs.owned hs₀.owned (fun u hu => ?_) hn
    simp only [setInCb, List.mem_map]
    constructor
    · rintro ⟨v, hv, rfl⟩
      split_ifs at hu ⊢ with hva
      · exact absurd ((huniq v hv hva).symm.trans hu) (by decide)
      · exact hv
    · intro hm
      refine ⟨u, hm, if_neg (fun he => ?_)⟩
      rw [huniq u hm he] at hu
      cases hu
  rw [hsame, show listCleanerCb (setInCb t.addr true s) =
    deleteWhere (fun n => n.state.invalid) (setInCb t.addr true s) from rfl,
    hdel.noOrphan_iff hs₀.owned hno₀]
  exact ⟨fun hc n hn hi => (hcond n hn).mp (hc n hn hi),
    fun hc n hn hi => (hcond n hn).mpr (hc n hn hi)⟩

/-- Freeing a timer that is not for a neighbour makes no difference. -/
theorem noOrphan_geosvrTimerFree {s : Node R} {timer : ℕ}
    (ht : ∀ k ∈ s.keys, k.1 = timer → k.2.1.forNeighbor = false) :
    NoOrphan (geosvrTimerFree timer s) ↔ NoOrphan s := by
  refine noOrphan_congr rfl (fun k hf => ?_)
  by_cases hk : k.1 = timer
  · have hno : k ∉ s.keys := fun hm => by
      rw [ht k hm hk] at hf
      cases hf
    exact iff_of_false (fun hm => hno ((List.filter_sublist.map _).subset hm)) hno
  · exact mem_keys_geosvrTimerFree hk

/-- `neigh_list_fini`. -/
theorem fini_noOrphan {s : Node R} (hs : Sound s) (hno : NoOrphan s) :
    NoOrphan s.fini ↔ ∀ n ∈ s.neiList, Cancelled s n := by
  have hsend : ∀ k ∈ s.keys, k.1 = s.sendTimer → k.2.1.forNeighbor = false := fun k hk he => by
    rw [hs.send.2 k hk he]
    rfl
  have hs₀ : Sound (geosvrTimerFree s.sendTimer s) :=
    geosvrTimerFree_sound hs _ (fun k hk he => Or.inl (hs.send.2 k hk he))
  have hno₀ := (noOrphan_geosvrTimerFree hsend).mpr hno
  have hdel := deleteWhere_deleted (fun _ : Neighbor R => true) (geosvrTimerFree s.sendTimer s)
  have hs₁ := hdel.sound hs₀
  have hclean : ∀ k ∈ (deleteWhere (fun _ => true) (geosvrTimerFree s.sendTimer s)).keys,
      k.1 = s.listCleanerTimer → k.2.1.forNeighbor = false := fun k hk he => by
    rw [hs₁.cleaner.2 k hk (he.trans hdel.rest.2.2.1.symm)]
    rfl
  have hcond : ∀ n ∈ s.neiList,
      (Cancelled (geosvrTimerFree s.sendTimer s) n ↔ Cancelled s n) := by
    intro n hn
    refine cancelled_congr hs.owned hs₀.owned (fun t ht => ?_) hn
    simp only [geosvrTimerFree, List.mem_filter, and_iff_left_iff_imp]
    intro hm
    have hne : t.addr ≠ s.sendTimer := fun he => by
      have := hsend t.key (List.mem_map_of_mem hm) he
      simp [GeoSVRTimer.key, ht, TimerCallback.forNeighbor] at this
    simp [hne]
  calc NoOrphan s.fini
      ↔ NoOrphan (deleteWhere (fun _ => true) (geosvrTimerFree s.sendTimer s)) :=
        noOrphan_geosvrTimerFree hclean
    _ ↔ ∀ n ∈ s.neiList, true = true → Cancelled (geosvrTimerFree s.sendTimer s) n :=
        hdel.noOrphan_iff hs₀.owned hno₀
    _ ↔ ∀ n ∈ s.neiList, Cancelled s n :=
        ⟨fun hc n hn => (hcond n hn).mp (hc n hn rfl), fun hc n hn _ => (hcond n hn).mpr (hc n hn)⟩

/-! ### Steps and runs -/

/-- The condition on a step: what it deletes leaves nothing pending.  Only the cleaner and
`neigh_list_fini` delete. -/
def CancelsAll (s : Node R) : Action R → Prop
  | .recv _ _ => True
  | .fire timer _ => ∀ t ∈ s.timers, t.addr = timer → t.func = .listCleanerCb →
      ∀ n ∈ s.neiList, n.state.invalid = true → Cancelled s n
  | .fini => ∀ n ∈ s.neiList, Cancelled s n

instance (s : Node R) (a : Action R) : Decidable (CancelsAll s a) :=
  match a with
  | .recv _ _ => isTrue trivial
  | .fire timer _ => inferInstanceAs (Decidable (∀ t ∈ s.timers, t.addr = timer →
      t.func = .listCleanerCb → ∀ n ∈ s.neiList, n.state.invalid = true → Cancelled s n))
  | .fini => inferInstanceAs (Decidable (∀ n ∈ s.neiList, Cancelled s n))

/-- Step lemma: a step leaves no orphan exactly when everything it deletes is cancelled. -/
theorem step_noOrphan [Scalar R] {cfg : Config R} {s s' : Node R} {a : Action R} (hs : Sound s)
    (hno : NoOrphan s) (h : step cfg s a = some s') : NoOrphan s' ↔ CancelsAll s a := by
  obtain ⟨pkt, env, rfl, rfl⟩ | ⟨env, t, more, s₁, rfl, ht, hc, rfl⟩ | ⟨rfl, rfl⟩ := step_cases h
  · exact iff_of_true ((recvNode_extends cfg env pkt hs.owned).noOrphan hno) trivial
  · have huniq : ∀ u ∈ s.timers, u.addr = t.addr → u.func = t.func := fun u hu he =>
      congrArg (fun k => k.2.1) (hs.key_eq ht hu he)
    have hvac : t.func ≠ .listCleanerCb → CancelsAll s (.fire t.addr env) :=
      fun hne u hu he hf => absurd ((huniq u hu he).symm.trans hf) hne
    obtain ⟨hf, rfl, rfl⟩ | ⟨hf, rfl, rfl⟩ | ⟨n, hn, hd, rfl, hs₁⟩ := callback_cases hc
    · exact iff_of_true ((beacon_extends cfg env t.addr hs.owned).noOrphan hno)
        (hvac (by rw [hf]; decide))
    · have hcond : CancelsAll s (.fire t.addr env) ↔
          ∀ n ∈ s.neiList, n.state.invalid = true → Cancelled s n :=
        ⟨fun hc => hc t ht rfl hf, fun hc _ _ _ _ => hc⟩
      rw [hcond]
      exact cleaner_noOrphan hs hno ht hf
    · have hne : t.func ≠ .listCleanerCb := by
        rcases hs₁ with ⟨hf, -⟩ | ⟨hf, -⟩ <;> rw [hf] <;> decide
      exact iff_of_true ((expired_extends hs.owned ht hn hd hs₁).noOrphan hno) (hvac hne)
  · exact fini_noOrphan hs hno

/-- **No timer outlives its neighbour** in a run of the daemon, iff everything the run deletes is
cancelled. -/
theorem noOrphan_run_iff [Scalar R] {cfg : Config R} {sendInCb cleanerInCb : Bool}
    {as : List (Action R)} {s : Node R}
    (hr : Run (step cfg) Free (Node.init cfg sendInCb cleanerInCb) as s) :
    (∀ bs cs t, as = bs ++ cs → Run (step cfg) Free (Node.init cfg sendInCb cleanerInCb) bs t →
      NoOrphan t) ↔
      Run (step cfg) CancelsAll (Node.init cfg sendInCb cleanerInCb) as s := by
  have hinit : NoOrphan (Node.init cfg sendInCb cleanerInCb) := by
    intro t ht hf
    rcases List.mem_pair.mp ht with rfl | rfl <;> cases hf
  exact Run.forall_iff (I := fun s => Sound s ∧ NoOrphan s)
    (fun _ _ _ hs h => step_noOrphan hs.1 hs.2 h)
    (fun _ _ _ hs hc h => ⟨step_sound hs.1 h, (step_noOrphan hs.1 hs.2 h).mpr hc⟩)
    ⟨init_sound cfg sendInCb cleanerInCb, hinit⟩ hinit hr

/-- The host `10.0.0.1`, on no road. -/
def sampleConfig : Config ℝ := ⟨0x0100000A, 1000, 3000, 10000, fun _ _ _ => -1⟩

def sampleEnv : Env ℝ := ⟨0, 0, 0, 0, false, false⟩

/-- A beacon of `10.0.0.2`, received from it. -/
def samplePacket : NodePacket ℝ := ⟨0x0200000A, 0x0200000A, 1, 1, 0, 0, true, 5⟩

/-- Both timers of a neighbour fire, the cleaner deletes it, and the daemon ends. -/
def sampleActions : List (Action ℝ) :=
  [.recv samplePacket sampleEnv, .fire 3 sampleEnv, .fire 4 sampleEnv, .fire 1 sampleEnv, .fini]

theorem noOrphan_run_iff_sample :
    ∃ s, Run (step sampleConfig) Free (Node.init sampleConfig false false) sampleActions s ∧
      ∀ bs cs t, sampleActions = bs ++ cs →
        Run (step sampleConfig) Free (Node.init sampleConfig false false) bs t → NoOrphan t := by
  have hr : Run (step sampleConfig) Free (Node.init sampleConfig false false) sampleActions _ :=
    run_of_exec _ rfl
  exact ⟨_, hr, (noOrphan_run_iff hr).mpr (Run.cons trivial rfl (Run.cons (by decide) rfl
    (Run.cons (by decide) rfl (Run.cons (by decide) rfl (Run.cons (by decide) rfl (Run.nil _))))))⟩

/-- The daemon ends while it has a neighbour: the timeout timer stays pending. -/
theorem orphan_after_fini :
    ∃ (cfg : Config ℝ) (as : List (Action ℝ)) (s : Node ℝ),
      Run (step cfg) Free (Node.init cfg false false) as s ∧ ¬ NoOrphan s := by
  refine ⟨sampleConfig, [.recv samplePacket sampleEnv, .fini], _, run_of_exec _ rfl, ?_⟩
  intro h
  obtain ⟨n, hn, -⟩ := h ⟨3, .neighListExpire, 2, false, 3000⟩ List.mem_cons_self rfl
  exact absurd hn List.not_mem_nil

end GeoSvr.Daemon
