import GeoSvr.KeyedList
import GeoSvr.NeighManager
import GeoSvr.Runs

/-! # Which neighbour a timer is for

`Owned` ties the state bits of a neighbour to its pending timers: the timeout timer is pending
until `invalid` is set, the rebroadcast timer until `rebroadcast` is.  It speaks of timers by
their `key`, which neither a reset nor `in_cb_` changes.  Together with the two timers that are
not for neighbours this is the invariant `Sound` of every run.  Timers for neighbours that are
gone may be left over; `Sound` says nothing about them. -/

namespace GeoSvr.Daemon

open Runs

variable {R : Type*}

/-- Address, callback and neighbour of a timer. -/
def GeoSVRTimer.key (t : GeoSVRTimer) : ℕ × TimerCallback × ℕ := (t.addr, t.func, t.data)

def Node.keys (s : Node R) : List (ℕ × TimerCallback × ℕ) := s.timers.map GeoSVRTimer.key

/-- The neighbours `l` own the timers `ks`, all with addresses below `f`. -/
structure Owned (l : List (Neighbor R)) (ks : List (ℕ × TimerCallback × ℕ)) (f : ℕ) : Prop where
  addrs : (l.map Neighbor.addr).Nodup
  keys : (ks.map Prod.fst).Nodup
  addrLt : ∀ n ∈ l, n.addr < f ∧ n.timeoutTimer < f
  keyLt : ∀ k ∈ ks, k.1 < f ∧ k.2.2 < f
  timeout : ∀ n ∈ l, (n.timeoutTimer, .neighListExpire, n.addr) ∈ ks ↔ n.state.invalid = false
  rebroadcast : ∀ n ∈ l, ∃ r, n.rebroadcastTimer = some r ∧ r < f ∧
    ((r, .rebroadcastExpire, n.addr) ∈ ks ↔ n.state.rebroadcast = false)
  timeoutOwner : ∀ n ∈ l, ∀ a, (a, .neighListExpire, n.addr) ∈ ks → n.timeoutTimer = a
  rebroadcastOwner : ∀ n ∈ l, ∀ a, (a, .rebroadcastExpire, n.addr) ∈ ks →
    n.rebroadcastTimer = some a

/-! ### Keys -/

theorem mem_keys {s : Node R} {k : ℕ × TimerCallback × ℕ} :
    k ∈ s.keys ↔ ∃ t ∈ s.timers, t.key = k := List.mem_map

theorem keys_map {s : Node R} {f : GeoSVRTimer → GeoSVRTimer} (h : ∀ t, (f t).key = t.key) :
    ({ s with timers := s.timers.map f } : Node R).keys = s.keys := by
  simp only [Node.keys, List.map_map]
  exact List.map_congr_left (fun t _ => h t)

@[simp] theorem keys_geosvrTimerReset (timer : ℕ) (msec : UInt64) (s : Node R) :
    (geosvrTimerReset timer msec s).keys = s.keys :=
  keys_map (fun t => by split_ifs <;> rfl)

@[simp] theorem keys_setInCb (timer : ℕ) (b : Bool) (s : Node R) :
    (setInCb timer b s).keys = s.keys :=
  keys_map (fun t => by split_ifs <;> rfl)

/-- A timer that is no longer in its callback is freed. -/
theorem keys_free_setInCb (timer : ℕ) (s : Node R) :
    (geosvrTimerFree timer (setInCb timer false s)).keys =
      s.keys.filter (fun k => k.1 != timer) := by
  simp only [geosvrTimerFree, setInCb, Node.keys, List.filter_map, List.map_map]
  have hkey : ∀ t ∈ s.timers.filter ((fun k => k.1 != timer) ∘ GeoSVRTimer.key),
      (GeoSVRTimer.key ∘ fun t => if t.addr = timer then { t with inCb := false } else t) t =
        t.key := by
    intro t _
    simp only [Function.comp]
    split_ifs <;> rfl
  rw [← List.map_congr_left hkey]
  congr 1
  apply List.filter_congr
  intro t _
  simp only [Function.comp, GeoSVRTimer.key]
  split_ifs with h <;> simp [h]

theorem Owned.key_unique {l : List (Neighbor R)} {ks : List (ℕ × TimerCallback × ℕ)} {f : ℕ}
    (h : Owned l ks f) {k k' : ℕ × TimerCallback × ℕ} (hk : k ∈ ks) (hk' : k' ∈ ks)
    (he : k.1 = k'.1) : k = k' :=
  List.inj_on_of_nodup_map h.keys hk hk' he

theorem Owned.addr_unique {l : List (Neighbor R)} {ks : List (ℕ × TimerCallback × ℕ)} {f : ℕ}
    (h : Owned l ks f) {n n' : Neighbor R} (hn : n ∈ l) (hn' : n' ∈ l) (he : n.addr = n'.addr) :
    n = n' :=
  List.inj_on_of_nodup_map h.addrs hn hn' he

/-- The timer of a neighbour whose rebroadcast is pending. -/
theorem Owned.key_of_pending {l : List (Neighbor R)} {ks : List (ℕ × TimerCallback × ℕ)} {f : ℕ}
    (h : Owned l ks f) {k : ℕ × TimerCallback × ℕ} (hk : k ∈ ks) {n : Neighbor R} (hn : n ∈ l)
    (hr : n.rebroadcastTimer = some k.1) (hb : n.state.rebroadcast = false) :
    k = (k.1, .rebroadcastExpire, n.addr) := by
  obtain ⟨r, hr', -, hiff⟩ := h.rebroadcast n hn
  rw [hr] at hr'
  cases hr'
  exact h.key_unique hk (hiff.mpr hb) rfl

theorem mem_keys_geosvrTimerFree {timer : ℕ} {s : Node R} {k : ℕ × TimerCallback × ℕ}
    (h : k.1 ≠ timer) : k ∈ (geosvrTimerFree timer s).keys ↔ k ∈ s.keys := by
  simp only [mem_keys, geosvrTimerFree, List.mem_filter]
  constructor
  · rintro ⟨t, ⟨ht, -⟩, he⟩
    exact ⟨t, ht, he⟩
  · rintro ⟨t, ht, rfl⟩
    have : t.addr ≠ timer := h
    exact ⟨t, ⟨ht, by simp [this]⟩, rfl⟩

/-! ### Deletions -/

/-- Deleting the neighbour `n` frees the timer `t`. -/
def Cancels (n : Neighbor R) (t : GeoSVRTimer) : Prop :=
  n.rebroadcastTimer = some t.addr ∧ n.state.rebroadcast = false ∧ t.inCb = false

/-- What is left after the neighbours of `l` that satisfy `p` were deleted. -/
structure Deleted (p : Neighbor R → Bool) (l : List (Neighbor R)) (s s' : Node R) : Prop where
  neiList : s'.neiList.Sublist s.neiList
  timers : s'.timers.Sublist s.timers
  mem_neiList : ∀ x, x ∈ s'.neiList ↔ x ∈ s.neiList ∧ ∀ n ∈ l, p n = true → x.addr ≠ n.addr
  mem_timers : ∀ t, t ∈ s'.timers ↔ t ∈ s.timers ∧ ∀ n ∈ l, p n = true → ¬ Cancels n t
  rest : s'.fresh = s.fresh ∧ s'.sendTimer = s.sendTimer ∧
    s'.listCleanerTimer = s.listCleanerTimer ∧ s'.seqno = s.seqno ∧ s'.log = s.log

theorem neighListDelete_deleted (n : Neighbor R) (s : Node R) :
    Deleted (fun _ => true) [n] s (neighListDelete n s) := by
  unfold neighListDelete
  cases hr : n.rebroadcastTimer with
  | none =>
      refine ⟨List.filter_sublist, List.Sublist.refl _, ?_, ?_, rfl, rfl, rfl, rfl, rfl⟩
      · simp
      · simp [Cancels, hr]
  | some timer =>
      dsimp only
      split_ifs with hb
      · refine ⟨List.filter_sublist, List.Sublist.refl _, ?_, ?_, rfl, rfl, rfl, rfl, rfl⟩
        · simp
        · simp [Cancels, hb]
      · refine ⟨List.filter_sublist, List.filter_sublist, ?_, ?_, rfl, rfl, rfl, rfl, rfl⟩
        · simp [geosvrTimerFree]
        · intro t
          simp only [geosvrTimerFree, List.mem_filter, Cancels, hr, List.mem_singleton,
            forall_eq, true_implies]
          by_cases ha : timer = t.addr
          · cases hi : t.inCb <;> simp [hb, ha]
          · simp [ha, Ne.symm ha]

theorem foldl_deleted (p : Neighbor R → Bool) : ∀ (l : List (Neighbor R)) (s : Node R),
    Deleted p l s (l.foldl (fun s n => if p n then neighListDelete n s else s) s)
  | [], s => ⟨List.Sublist.refl _, List.Sublist.refl _, by simp, by simp, rfl, rfl, rfl, rfl, rfl⟩
  | n :: l, s => by
      rw [List.foldl_cons]
      cases hp : p n with
      | false =>
          obtain ⟨h₁, h₂, h₃, h₄, h₅⟩ := foldl_deleted p l s
          exact ⟨h₁, h₂, by simpa [hp] using h₃, by simpa [hp] using h₄, h₅⟩
      | true =>
          obtain ⟨g₁, g₂, g₃, g₄, g₅⟩ := neighListDelete_deleted n s
          obtain ⟨h₁, h₂, h₃, h₄, h₅⟩ := foldl_deleted p l (neighListDelete n s)
          refine ⟨h₁.trans g₁, h₂.trans g₂, ?_, ?_, ?_⟩
          · intro x
            simp only [if_true] at h₃ ⊢
            rw [h₃, g₃]
            simp [hp, and_assoc]
          · intro t
            simp only [if_true] at h₄ ⊢
            rw [h₄, g₄]
            simp [hp, and_assoc]
          · obtain ⟨a₁, a₂, a₃, a₄, a₅⟩ := g₅
            obtain ⟨b₁, b₂, b₃, b₄, b₅⟩ := h₅
            exact ⟨b₁.trans a₁, b₂.trans a₂, b₃.trans a₃, b₄.trans a₄, b₅.trans a₅⟩

theorem deleteWhere_deleted (p : Neighbor R → Bool) (s : Node R) :
    Deleted p s.neiList s (deleteWhere p s) := foldl_deleted p s.neiList s

/-- What is left in the neighbour table. -/
theorem deleteWhere_neiList {s : Node R} (p : Neighbor R → Bool) (hnodup : s.neiList.Nodup) :
    (deleteWhere p s).neiList =
      s.neiList.filter (fun x => !s.neiList.any (fun n => n.addr == x.addr && p n)) := by
  have hdel := deleteWhere_deleted p s
  refine KeyedList.eq_filter_of_sublist hnodup hdel.neiList (fun x => ?_)
  rw [hdel.mem_neiList, Bool.not_eq_true', List.any_eq_false]
  refine and_congr_right (fun _ => forall₂_congr (fun n _ => ?_))
  simp only [Bool.and_eq_true, beq_iff_eq]
  exact ⟨fun hne hand => hne hand.2 hand.1.symm, fun hne hp heq => hne ⟨heq.symm, hp⟩⟩

/-- Timers that are not the rebroadcast timer of a deleted neighbour stay. -/
theorem Deleted.keeps {p : Neighbor R → Bool} {s s' : Node R} {f : ℕ}
    (h : Deleted p s.neiList s s') (ho : Owned s.neiList s.keys f) {t : GeoSVRTimer}
    (ht : t ∈ s.timers) (hn : ∀ n ∈ s.neiList, p n = true → t.inCb = false →
      t.key ≠ (t.addr, .rebroadcastExpire, n.addr)) : t ∈ s'.timers := by
  rw [h.mem_timers]
  refine ⟨ht, fun n hmem hp hc => ?_⟩
  obtain ⟨hr, hb, hi⟩ := hc
  exact hn n hmem hp hi (ho.key_of_pending (List.mem_map_of_mem ht) hmem hr hb)

theorem Deleted.owned {p : Neighbor R → Bool} {s s' : Node R} {f : ℕ}
    (h : Deleted p s.neiList s s') (ho : Owned s.neiList s.keys f) :
    Owned s'.neiList s'.keys f := by
  have hmem : ∀ n ∈ s'.neiList, n ∈ s.neiList := fun n hn => h.neiList.subset hn
  have hsub : ∀ k, k ∈ s'.keys → k ∈ s.keys := fun k hk => (h.timers.map _).subset hk
  refine ⟨ho.addrs.sublist (h.neiList.map _), ho.keys.sublist ((h.timers.map _).map _),
    fun n hn => ho.addrLt n (hmem n hn), fun k hk => ho.keyLt k (hsub k hk), ?_, ?_,
    fun n hn a hk => ho.timeoutOwner n (hmem n hn) a (hsub _ hk),
    fun n hn a hk => ho.rebroadcastOwner n (hmem n hn) a (hsub _ hk)⟩
  · intro n hn
    rw [← ho.timeout n (hmem n hn)]
    refine ⟨hsub _, fun hk => ?_⟩
    obtain ⟨t, ht, he⟩ := mem_keys.mp hk
    refine mem_keys.mpr ⟨t, h.keeps ho ht (fun m _ _ _ hc => ?_), he⟩
    rw [he] at hc
    simp at hc
  · intro n hn
    obtain ⟨r, hr, hlt, hiff⟩ := ho.rebroadcast n (hmem n hn)
    refine ⟨r, hr, hlt, ?_⟩
    rw [← hiff]
    refine ⟨hsub _, fun hk => ?_⟩
    obtain ⟨t, ht, he⟩ := mem_keys.mp hk
    refine mem_keys.mpr ⟨t, h.keeps ho ht (fun m hm hpm _ hkey => ?_), he⟩
    rw [he] at hkey
    exact ((h.mem_neiList n).mp hn).2 m hm hpm (congrArg (fun k => k.2.2) hkey)

/-! ### Insertions and updates -/

section owned

variable {l : List (Neighbor R)} {ks : List (ℕ × TimerCallback × ℕ)} {f : ℕ} {n n' : Neighbor R}

/-- The timers for a neighbour that was there are the old ones. -/
theorem Owned.mem_insert_old (h : Owned l ks f) {x : Neighbor R} (hx : x ∈ l) (a : ℕ)
    (func : TimerCallback) :
    (a, func, x.addr) ∈
        (f + 2, .rebroadcastExpire, f) :: (f + 1, .neighListExpire, f) :: ks ↔
      (a, func, x.addr) ∈ ks := by
  have hne : x.addr ≠ f := (h.addrLt x hx).1.ne
  simp only [List.mem_cons, Prod.mk.injEq, hne, and_false, false_or]

/-- The timers for the neighbour that is inserted are the new ones. -/
theorem Owned.mem_insert_new (h : Owned l ks f) (a : ℕ) (func : TimerCallback) :
    (a, func, f) ∈ (f + 2, .rebroadcastExpire, f) :: (f + 1, .neighListExpire, f) :: ks ↔
      (a = f + 2 ∧ func = .rebroadcastExpire) ∨ (a = f + 1 ∧ func = .neighListExpire) := by
  have hnot : (a, func, f) ∉ ks := fun hk => absurd (h.keyLt _ hk).2 (lt_irrefl f)
  simp only [List.mem_cons, Prod.mk.injEq, and_true, hnot, or_false]

theorem Owned.insert (h : Owned l ks f) (ha : n.addr = f) (ht : n.timeoutTimer = f + 1)
    (hr : n.rebroadcastTimer = some (f + 2)) (hi : n.state.invalid = false)
    (hb : n.state.rebroadcast = false) :
    Owned (n :: l) ((f + 2, .rebroadcastExpire, f) :: (f + 1, .neighListExpire, f) :: ks)
      (f + 3) := by
  have hlt : ∀ k ∈ ks, k.1 < f := fun k hk => (h.keyLt k hk).1
  refine ⟨?_, ?_, ?_, ?_, ?_, ?_, ?_, ?_⟩
  · rw [List.map_cons, List.nodup_cons]
    refine ⟨fun hm => ?_, h.addrs⟩
    obtain ⟨x, hx, he⟩ := List.mem_map.mp hm
    have := (h.addrLt x hx).1
    omega
  · simp only [List.map_cons, List.nodup_cons, List.mem_cons, List.mem_map, not_or, not_exists,
      not_and]
    exact ⟨⟨by omega, fun k hk he => absurd (hlt k hk) (by omega)⟩,
      fun k hk he => absurd (hlt k hk) (by omega), h.keys⟩
  · refine List.forall_mem_cons.mpr ⟨by omega, fun x hx => ?_⟩
    have := h.addrLt x hx
    omega
  · refine List.forall_mem_cons.mpr ⟨by simp only; omega, List.forall_mem_cons.mpr
      ⟨by simp only; omega, fun k hk => ?_⟩⟩
    have := h.keyLt k hk
    omega
  · refine List.forall_mem_cons.mpr ⟨?_, fun x hx => ?_⟩
    · rw [ha, h.mem_insert_new, ht, hi]
      simp
    · rw [h.mem_insert_old hx]
      exact h.timeout x hx
  · refine List.forall_mem_cons.mpr ⟨⟨f + 2, hr, by omega, ?_⟩, fun x hx => ?_⟩
    · rw [ha, h.mem_insert_new, hb]
      simp
    · obtain ⟨r, hxr, hrlt, hiff⟩ := h.rebroadcast x hx
      refine ⟨r, hxr, by omega, ?_⟩
      rwa [h.mem_insert_old hx]
  · refine List.forall_mem_cons.mpr ⟨fun a hk => ?_, fun x hx a hk => ?_⟩
    · rw [ha, h.mem_insert_new] at hk
      obtain ⟨-, hfunc⟩ | ⟨rfl, -⟩ := hk
      · cases hfunc
      · exact ht
    · exact h.timeoutOwner x hx a ((h.mem_insert_old hx a _).mp hk)
  · refine List.forall_mem_cons.mpr ⟨fun a hk => ?_, fun x hx a hk => ?_⟩
    · rw [ha, h.mem_insert_new] at hk
      obtain ⟨rfl, -⟩ | ⟨-, hfunc⟩ := hk
      · exact hr
      · cases hfunc
    · exact h.rebroadcastOwner x hx a ((h.mem_insert_old hx a _).mp hk)

/-- Replacing a neighbour together with the timers that are for it. -/
theorem Owned.replace {ks' : List (ℕ × TimerCallback × ℕ)} {f' : ℕ} (h : Owned l ks f)
    (hn : n ∈ l) (ha : n'.addr = n.addr) (hf : f ≤ f') (hnodup : (ks'.map Prod.fst).Nodup)
    (hlt : ∀ k ∈ ks', k.1 < f' ∧ k.2.2 < f')
    (hother : ∀ k, k.2.2 ≠ n.addr → (k ∈ ks' ↔ k ∈ ks))
    (ht : n'.timeoutTimer < f' ∧
      ((n'.timeoutTimer, .neighListExpire, n.addr) ∈ ks' ↔ n'.state.invalid = false))
    (hr : ∃ r, n'.rebroadcastTimer = some r ∧ r < f' ∧
      ((r, .rebroadcastExpire, n.addr) ∈ ks' ↔ n'.state.rebroadcast = false))
    (htown : ∀ a, (a, .neighListExpire, n.addr) ∈ ks' → n'.timeoutTimer = a)
    (hrown : ∀ a, (a, .rebroadcastExpire, n.addr) ∈ ks' → n'.rebroadcastTimer = some a) :
    Owned (replaceNeighbor n' l) ks' f' := by
  have hold : ∀ x ∈ replaceNeighbor n' l, x = n' ∨ (x ∈ l ∧ x.addr ≠ n.addr) := by
    intro x hx
    obtain ⟨rfl, -⟩ | ⟨hx, hne⟩ := mem_replaceNeighbor.mp hx
    · exact Or.inl rfl
    · exact Or.inr ⟨hx, ha ▸ hne⟩
  refine ⟨by rw [map_addr_replaceNeighbor]; exact h.addrs, hnodup, ?_, hlt, ?_, ?_, ?_, ?_⟩
  · intro x hx
    obtain rfl | ⟨hx, -⟩ := hold x hx
    · have := h.addrLt n hn
      exact ⟨by omega, ht.1⟩
    · have := h.addrLt x hx
      omega
  · intro x hx
    obtain rfl | ⟨hx, hne⟩ := hold x hx
    · rw [ha]
      exact ht.2
    · rw [hother _ hne]
      exact h.timeout x hx
  · intro x hx
    obtain rfl | ⟨hx, hne⟩ := hold x hx
    · rw [ha]
      exact hr
    · obtain ⟨r, hxr, hrlt, hiff⟩ := h.rebroadcast x hx
      exact ⟨r, hxr, by omega, by rw [hother _ hne]; exact hiff⟩
  · intro x hx a hk
    obtain rfl | ⟨hx, hne⟩ := hold x hx
    · exact htown a (ha ▸ hk)
    · exact h.timeoutOwner x hx a ((hother _ hne).mp hk)
  · intro x hx a hk
    obtain rfl | ⟨hx, hne⟩ := hold x hx
    · exact hrown a (ha ▸ hk)
    · exact h.rebroadcastOwner x hx a ((hother _ hne).mp hk)

/-- Fields that have nothing to do with timers. -/
theorem Owned.refresh (h : Owned l ks f) (hn : n ∈ l) (ha : n'.addr = n.addr)
    (ht : n'.timeoutTimer = n.timeoutTimer) (hr : n'.rebroadcastTimer = n.rebroadcastTimer)
    (hi : n'.state.invalid = n.state.invalid)
    (hb : n'.state.rebroadcast = n.state.rebroadcast) : Owned (replaceNeighbor n' l) ks f := by
  refine h.replace hn ha (le_refl f) h.keys h.keyLt (fun _ _ => Iff.rfl) ?_ ?_ ?_ ?_
  · rw [ht, hi]
    exact ⟨(h.addrLt n hn).2, h.timeout n hn⟩
  · rw [hr, hb]
    exact h.rebroadcast n hn
  · intro a hk
    rw [ht]
    exact h.timeoutOwner n hn _ hk
  · intro a hk
    rw [hr]
    exact h.rebroadcastOwner n hn _ hk

/-- Without one timer the others are still there. -/
theorem Owned.mem_without (h : Owned l ks f) {k k' : ℕ × TimerCallback × ℕ} (hk : k ∈ ks)
    (hne : k' ≠ k) : k' ∈ ks.filter (fun x => x.1 != k.1) ↔ k' ∈ ks := by
  rw [List.mem_filter]
  refine and_iff_left_of_imp (fun hmem => ?_)
  rw [bne_iff_ne]
  exact fun he => hne (h.key_unique hmem hk he)

/-- A timer that is over: the neighbour has the bit for it, and the timer is gone. -/
theorem Owned.timeoutOver (h : Owned l ks f) (hn : n ∈ l)
    (hk : (n.timeoutTimer, .neighListExpire, n.addr) ∈ ks) :
    Owned (replaceNeighbor { n with state := { n.state with invalid := true } } l)
      (ks.filter (fun k => k.1 != n.timeoutTimer)) f := by
  refine h.replace hn rfl (le_refl f) (h.keys.sublist (List.filter_sublist.map _))
    (fun k hk => h.keyLt k (List.mem_of_mem_filter hk)) ?_ ?_ ?_ ?_ ?_
  · exact fun k hd => h.mem_without hk (fun he => hd (congrArg (fun k => k.2.2) he))
  · exact ⟨(h.addrLt n hn).2, by simp⟩
  · obtain ⟨r, hr, hlt, hiff⟩ := h.rebroadcast n hn
    exact ⟨r, hr, hlt, (h.mem_without hk (by simp)).trans hiff⟩
  · intro a hmem
    exact h.timeoutOwner n hn a (List.mem_of_mem_filter hmem)
  · intro a hmem
    exact h.rebroadcastOwner n hn a (List.mem_of_mem_filter hmem)

theorem Owned.rebroadcastOver (h : Owned l ks f) (hn : n ∈ l) {r : ℕ}
    (hk : (r, .rebroadcastExpire, n.addr) ∈ ks) :
    Owned (replaceNeighbor { n with state := { n.state with rebroadcast := true } } l)
      (ks.filter (fun k => k.1 != r)) f := by
  have hr := h.rebroadcastOwner n hn _ hk
  refine h.replace hn rfl (le_refl f) (h.keys.sublist (List.filter_sublist.map _))
    (fun k hk => h.keyLt k (List.mem_of_mem_filter hk)) ?_ ?_ ?_ ?_ ?_
  · exact fun k hd => h.mem_without hk (fun he => hd (congrArg (fun k => k.2.2) he))
  · exact ⟨(h.addrLt n hn).2, (h.mem_without hk (by simp)).trans (h.timeout n hn)⟩
  · exact ⟨r, hr, (h.keyLt _ hk).1, by simp⟩
  · intro a hmem
    exact h.timeoutOwner n hn a (List.mem_of_mem_filter hmem)
  · intro a hmem
    exact h.rebroadcastOwner n hn a (List.mem_of_mem_filter hmem)

/-- A timer at the next unused address. -/
theorem Owned.cons_key (h : Owned l ks f) (hn : n ∈ l) (c : TimerCallback) :
    (((f, c, n.addr) :: ks).map Prod.fst).Nodup ∧
      ∀ k ∈ (f, c, n.addr) :: ks, k.1 < f + 1 ∧ k.2.2 < f + 1 := by
  refine ⟨?_, fun k hk => ?_⟩
  · rw [List.map_cons, List.nodup_cons]
    refine ⟨fun hm => ?_, h.keys⟩
    obtain ⟨k, hk, he⟩ := List.mem_map.mp hm
    have := h.keyLt k hk
    simp only at he
    omega
  · obtain rfl | hk := List.mem_cons.mp hk
    · have := h.addrLt n hn
      simp only
      omega
    · have := h.keyLt k hk
      omega

theorem Owned.timeoutNew (h : Owned l ks f) (hn : n ∈ l) (hi : n.state.invalid = true) :
    Owned (replaceNeighbor { n with state := { n.state with invalid := false },
                                    timeoutTimer := f } l)
      ((f, .neighListExpire, n.addr) :: ks) (f + 1) := by
  have hnone : ∀ a, (a, TimerCallback.neighListExpire, n.addr) ∉ ks := by
    intro a hk
    have := h.timeoutOwner n hn _ hk
    subst this
    rw [(h.timeout n hn).mp hk] at hi
    cases hi
  obtain ⟨hnodup, hlt'⟩ := h.cons_key hn .neighListExpire
  refine h.replace hn rfl (Nat.le_succ f) hnodup hlt' ?_ ?_ ?_ ?_ ?_
  · intro k hd
    rw [List.mem_cons]
    exact or_iff_right (fun he => hd (by rw [he]))
  · exact ⟨Nat.lt_succ_self f, by simp⟩
  · obtain ⟨r, hr, hlt, hiff⟩ := h.rebroadcast n hn
    refine ⟨r, hr, by omega, ?_⟩
    rw [← hiff]
    simp
  · intro a hmem
    obtain he | hk := List.mem_cons.mp hmem
    · exact (congrArg Prod.fst he).symm
    · exact absurd hk (hnone a)
  · intro a hmem
    obtain he | hk := List.mem_cons.mp hmem
    · simp at he
    · exact h.rebroadcastOwner n hn _ hk

theorem Owned.rebroadcastNew (h : Owned l ks f) (hn : n ∈ l)
    (hb : n.state.rebroadcast = true) :
    Owned (replaceNeighbor { n with state := { n.state with rebroadcast := false },
                                    rebroadcastTimer := some f } l)
      ((f, .rebroadcastExpire, n.addr) :: ks) (f + 1) := by
  obtain ⟨r, hr, hlt, hiff⟩ := h.rebroadcast n hn
  have hnone : ∀ a, (a, TimerCallback.rebroadcastExpire, n.addr) ∉ ks := by
    intro a hk
    have he := h.rebroadcastOwner n hn _ hk
    rw [hr] at he
    cases he
    rw [hiff.mp hk] at hb
    cases hb
  obtain ⟨hnodup, hlt'⟩ := h.cons_key hn .rebroadcastExpire
  refine h.replace hn rfl (Nat.le_succ f) hnodup hlt' ?_ ?_ ?_ ?_ ?_
  · intro k hd
    rw [List.mem_cons]
    exact or_iff_right (fun he => hd (by rw [he]))
  · have := h.addrLt n hn
    refine ⟨by simp only; omega, ?_⟩
    rw [← h.timeout n hn]
    simp
  · exact ⟨f, rfl, Nat.lt_succ_self f, by simp⟩
  · intro a hmem
    obtain he | hk := List.mem_cons.mp hmem
    · simp at he
    · exact h.timeoutOwner n hn _ hk
  · intro a hmem
    obtain he | hk := List.mem_cons.mp hmem
    · exact congrArg some (congrArg Prod.fst he).symm
    · exact absurd hk (hnone a)

end owned

/-! ### Steps and runs -/

/-- The invariant of every run. -/
structure Sound (s : Node R) : Prop where
  owned : Owned s.neiList s.keys s.fresh
  send : s.sendTimer < s.fresh ∧
    ∀ k ∈ s.keys, k.1 = s.sendTimer → k.2.1 = .sendNodeInfo
  cleaner : s.listCleanerTimer < s.fresh ∧
    ∀ k ∈ s.keys, k.1 = s.listCleanerTimer → k.2.1 = .listCleanerCb

/-- There is one timer at an address. -/
theorem Sound.key_eq {s : Node R} (h : Sound s) {t u : GeoSVRTimer} (ht : t ∈ s.timers)
    (hu : u ∈ s.timers) (he : u.addr = t.addr) : u.key = t.key :=
  h.owned.key_unique (List.mem_map_of_mem hu) (List.mem_map_of_mem ht) he

/-- The timers that a change adds have new addresses. -/
theorem Sound.of_keys {s s' : Node R} (h : Sound s) (ho : Owned s'.neiList s'.keys s'.fresh)
    (hs : s'.sendTimer = s.sendTimer) (hc : s'.listCleanerTimer = s.listCleanerTimer)
    (hf : s.fresh ≤ s'.fresh) (hk : ∀ k ∈ s'.keys, k ∈ s.keys ∨ s.fresh ≤ k.1) : Sound s' := by
  have hold : ∀ k ∈ s'.keys, k.1 < s.fresh → k ∈ s.keys :=
    fun k hk' hlt => (hk k hk').resolve_right (by omega)
  refine ⟨ho, ⟨by have := h.send.1; omega, ?_⟩, ⟨by have := h.cleaner.1; omega, ?_⟩⟩
  · intro k hk' he
    rw [hs] at he
    exact h.send.2 k (hold k hk' (by rw [he]; exact h.send.1)) he
  · intro k hk' he
    rw [hc] at he
    exact h.cleaner.2 k (hold k hk' (by rw [he]; exact h.cleaner.1)) he

/-- A change that deletes no neighbour: the timers it adds are for neighbours that are there. -/
structure Extends (s s' : Node R) : Prop where
  owned : Owned s'.neiList s'.keys s'.fresh
  send : s'.sendTimer = s.sendTimer
  cleaner : s'.listCleanerTimer = s.listCleanerTimer
  fresh : s.fresh ≤ s'.fresh
  keys : ∀ k ∈ s'.keys, k ∈ s.keys ∨ s.fresh ≤ k.1 ∧ ∃ n ∈ s'.neiList, n.addr = k.2.2
  addrs : ∀ n ∈ s.neiList, ∃ m ∈ s'.neiList, m.addr = n.addr

theorem Extends.sound {s s' : Node R} (h : Extends s s') (hs : Sound s) : Sound s' :=
  hs.of_keys h.owned h.send h.cleaner h.fresh (fun k hk => (h.keys k hk).imp_right (fun h => h.1))

theorem Extends.trans {s₁ s₂ s₃ : Node R} (h : Extends s₁ s₂) (h' : Extends s₂ s₃) :
    Extends s₁ s₃ where
  owned := h'.owned
  send := h'.send.trans h.send
  cleaner := h'.cleaner.trans h.cleaner
  fresh := h.fresh.trans h'.fresh
  keys k hk := by
    obtain hk | ⟨hlt, hn⟩ := h'.keys k hk
    · refine (h.keys k hk).imp_right (fun ⟨hlt, n, hn, ha⟩ => ?_)
      obtain ⟨m, hm, hma⟩ := h'.addrs n hn
      exact ⟨hlt, m, hm, hma.trans ha⟩
    · exact Or.inr ⟨h.fresh.trans hlt, hn⟩
  addrs n hn := by
    obtain ⟨m, hm, hma⟩ := h.addrs n hn
    obtain ⟨p, hp, hpa⟩ := h'.addrs m hm
    exact ⟨p, hp, hpa.trans hma⟩

/-- A change that touches neither neighbours nor keys. -/
theorem Extends.of_eq {s s' : Node R} (ho : Owned s.neiList s.keys s.fresh)
    (hl : s'.neiList = s.neiList) (hk : s'.keys = s.keys) (hf : s'.fresh = s.fresh)
    (hs : s'.sendTimer = s.sendTimer) (hc : s'.listCleanerTimer = s.listCleanerTimer) :
    Extends s s' where
  owned := by rw [hl, hk, hf]; exact ho
  send := hs
  cleaner := hc
  fresh := hf.symm.le
  keys k hm := Or.inl (hk ▸ hm)
  addrs n hn := ⟨n, by rw [hl]; exact hn, rfl⟩

theorem exists_addr_replaceNeighbor {l : List (Neighbor R)} {n : Neighbor R} (n' : Neighbor R)
    (hn : n ∈ l) : ∃ m ∈ replaceNeighbor n' l, m.addr = n.addr := by
  have : n.addr ∈ (replaceNeighbor n' l).map Neighbor.addr := by
    rw [map_addr_replaceNeighbor]
    exact List.mem_map_of_mem hn
  exact List.mem_map.mp this

theorem setInCb_extends {s : Node R} (ho : Owned s.neiList s.keys s.fresh) (timer : ℕ) (b : Bool) :
    Extends s (setInCb timer b s) :=
  Extends.of_eq ho rfl (keys_setInCb timer b s) rfl rfl rfl

/-- Storing a neighbour again, after its timers changed. -/
theorem put_extends {n n' : Neighbor R} {s s₁ : Node R} (hn : ∃ y ∈ s.neiList, y.addr = n.addr)
    (ha : n'.addr = n.addr) (hl : s₁.neiList = s.neiList)
    (ho : Owned (replaceNeighbor n' s.neiList) s₁.keys s₁.fresh)
    (hs : s₁.sendTimer = s.sendTimer) (hc : s₁.listCleanerTimer = s.listCleanerTimer)
    (hf : s.fresh ≤ s₁.fresh)
    (hk : ∀ k ∈ s₁.keys, k ∈ s.keys ∨ s.fresh ≤ k.1 ∧ k.2.2 = n.addr) :
    Extends (putNeighbor n s) (putNeighbor n' s₁) where
  owned := by
    simp only [putNeighbor, hl]
    exact ho
  send := hs
  cleaner := hc
  fresh := hf
  keys k hm := by
    refine (hk k hm).imp_right (fun ⟨hlt, hd⟩ => ⟨hlt, ?_⟩)
    obtain ⟨y, hy, hya⟩ := hn
    obtain ⟨m, hm, hma⟩ := exists_addr_replaceNeighbor n' hy
    exact ⟨m, by simp only [putNeighbor, hl]; exact hm, (hma.trans hya).trans hd.symm⟩
  addrs x hx := by
    obtain ⟨m, hm, hma⟩ := exists_addr_replaceNeighbor n' hx
    simp only [putNeighbor, replaceNeighbor_replaceNeighbor ha, hl] at hm ⊢
    exact ⟨m, hm, hma⟩

theorem restartTimeout_extends (cfg : Config R) (env : Env R) {n : Neighbor R} {s : Node R}
    (hn : ∃ y ∈ s.neiList, y.addr = n.addr)
    (h : Owned (replaceNeighbor n s.neiList) s.keys s.fresh) :
    let r := restartTimeout cfg env n s
    r.1.addr = n.addr ∧ r.2.neiList = s.neiList ∧
      Extends (putNeighbor n s) (putNeighbor r.1 r.2) := by
  have hmem : n ∈ replaceNeighbor n s.neiList := mem_replaceNeighbor.mpr (Or.inl ⟨rfl, hn⟩)
  unfold restartTimeout
  cases hi : n.state.invalid with
  | false => exact ⟨rfl, rfl, Extends.of_eq h rfl (keys_geosvrTimerReset _ _ _) rfl rfl rfl⟩
  | true =>
      have hnew := h.timeoutNew hmem hi
      rw [replaceNeighbor_replaceNeighbor] at hnew
      · refine ⟨rfl, rfl, put_extends hn rfl rfl hnew rfl rfl (Nat.le_succ _) ?_⟩
        intro k hk
        obtain rfl | hk := List.mem_cons.mp hk
        · exact Or.inr ⟨le_refl _, rfl⟩
        · exact Or.inl hk
      · rfl

theorem restartRebroadcast_extends (env : Env R) (w : UInt64) {n : Neighbor R} {s : Node R}
    (hn : ∃ y ∈ s.neiList, y.addr = n.addr)
    (h : Owned (replaceNeighbor n s.neiList) s.keys s.fresh) :
    let r := restartRebroadcast env w n s
    r.1.addr = n.addr ∧ r.2.neiList = s.neiList ∧
      Extends (putNeighbor n s) (putNeighbor r.1 r.2) := by
  have hmem : n ∈ replaceNeighbor n s.neiList := mem_replaceNeighbor.mpr (Or.inl ⟨rfl, hn⟩)
  unfold restartRebroadcast
  cases hb : n.state.rebroadcast with
  | false => exact ⟨rfl, rfl, Extends.of_eq h rfl rfl rfl rfl rfl⟩
  | true =>
      have hnew := h.rebroadcastNew hmem hb
      rw [replaceNeighbor_replaceNeighbor] at hnew
      · refine ⟨rfl, rfl, put_extends hn rfl rfl hnew rfl rfl (Nat.le_succ _) ?_⟩
        intro k hk
        obtain rfl | hk := List.mem_cons.mp hk
        · exact Or.inr ⟨le_refl _, rfl⟩
        · exact Or.inl hk
      · rfl

theorem neighListUpdate_extends (cfg : Config R) (env : Env R) {n : Neighbor R}
    (pkt : NodePacket R) (roadid : ℤ) (w : UInt64) {s : Node R}
    (h : Owned s.neiList s.keys s.fresh) (hn : n ∈ s.neiList) :
    Extends s (neighListUpdate cfg env n pkt roadid w s) := by
  have hrefresh : Owned (replaceNeighbor (n.refresh pkt roadid) s.neiList) s.keys s.fresh := by
    refine h.refresh hn rfl rfl rfl ?_ ?_ <;>
      simp only [Neighbor.refresh, NeighState.orDirect] <;> split_ifs <;> rfl
  have h₀ : Extends s (putNeighbor (n.refresh pkt roadid) s) :=
    ⟨hrefresh, rfl, rfl, le_refl _, fun k hk => Or.inl hk,
      fun x hx => exists_addr_replaceNeighbor _ hx⟩
  obtain ⟨ha₁, hl₁, h₁⟩ :=
    restartTimeout_extends cfg env (n := n.refresh pkt roadid) ⟨n, hn, rfl⟩ hrefresh
  obtain ⟨-, -, h₂⟩ :=
    restartRebroadcast_extends env w (n := (restartTimeout cfg env (n.refresh pkt roadid) s).1)
      ⟨n, by rw [hl₁]; exact hn, ha₁.symm⟩ h₁.owned
  have h₃ := (h₀.trans h₁).trans h₂
  exact ⟨h₃.owned, h₃.send, h₃.cleaner, h₃.fresh, h₃.keys, h₃.addrs⟩

theorem recvNode_extends [Scalar R] (cfg : Config R) (env : Env R) (pkt : NodePacket R)
    {s : Node R} (h : Owned s.neiList s.keys s.fresh) : Extends s (recvNode cfg env pkt s) := by
  obtain he | ⟨-, roadid, w, he⟩ | ⟨n, roadid, w, hf, -, -, he⟩ := recvNode_cases cfg env pkt s
  · rw [he]
    exact Extends.of_eq h rfl rfl rfl rfl rfl
  · rw [he]
    have hstate : ∀ b, (NeighState.orDirect ⟨false, false, false, false⟩ b).invalid = false ∧
        (NeighState.orDirect ⟨false, false, false, false⟩ b).rebroadcast = false := by decide
    refine ⟨h.insert rfl rfl rfl (hstate _).1 (hstate _).2, rfl, rfl,
      Nat.le_add_right s.fresh 3, ?_, fun n hn => ⟨n, List.mem_cons_of_mem _ hn, rfl⟩⟩
    intro k hk
    obtain rfl | hk := List.mem_cons.mp hk
    · exact Or.inr ⟨Nat.le_add_right s.fresh 2, _, List.mem_cons_self, rfl⟩
    · obtain rfl | hk := List.mem_cons.mp hk
      · exact Or.inr ⟨Nat.le_add_right s.fresh 1, _, List.mem_cons_self, rfl⟩
      · exact Or.inl hk
  · rw [he]
    exact neighListUpdate_extends cfg env pkt roadid w h (neighListFind_some hf).1

/-- A timer of a neighbour fires: it is over. -/
theorem expired_extends {cfg : Config R} {s s₁ : Node R} {t : GeoSVRTimer} {n : Neighbor R}
    (h : Owned s.neiList s.keys s.fresh) (ht : t ∈ s.timers) (hn : n ∈ s.neiList)
    (hd : n.addr = t.data)
    (hs₁ : (t.func = .neighListExpire ∧ s₁ = neighListExpire n (setInCb t.addr true s)) ∨
      (t.func = .rebroadcastExpire ∧ s₁ = rebroadcastExpire cfg n (setInCb t.addr true s))) :
    Extends s (geosvrTimerFree t.addr (setInCb t.addr false s₁)) := by
  have hk : t.key ∈ s.keys := List.mem_map_of_mem ht
  have hkeys : (geosvrTimerFree t.addr (setInCb t.addr false s₁)).keys =
      s.keys.filter (fun k => k.1 != t.addr) := by
    rw [keys_free_setInCb]
    rcases hs₁ with ⟨-, rfl⟩ | ⟨-, rfl⟩ <;>
      exact congrArg _ (keys_setInCb t.addr true s)
  have hsub : ∀ k ∈ (geosvrTimerFree t.addr (setInCb t.addr false s₁)).keys, k ∈ s.keys :=
    fun k hk' => List.mem_of_mem_filter (hkeys ▸ hk')
  obtain ⟨hf, rfl⟩ | ⟨hf, rfl⟩ := hs₁
  · have hk' : (t.addr, TimerCallback.neighListExpire, n.addr) ∈ s.keys := by
      rw [hd, ← hf]
      exact hk
    have he := h.timeoutOwner n hn _ hk'
    refine ⟨?_, rfl, rfl, le_refl _, fun k hk => Or.inl (hsub k hk),
      fun x hx => exists_addr_replaceNeighbor _ hx⟩
    rw [hkeys, ← he]
    exact h.timeoutOver hn (he ▸ hk')
  · have hk' : (t.addr, TimerCallback.rebroadcastExpire, n.addr) ∈ s.keys := by
      rw [hd, ← hf]
      exact hk
    refine ⟨?_, rfl, rfl, le_refl _, fun k hk => Or.inl (hsub k hk),
      fun x hx => exists_addr_replaceNeighbor _ hx⟩
    rw [hkeys]
    exact h.rebroadcastOver hn hk'

/-- The host's own beacon leaves the neighbours and their timers alone. -/
theorem beacon_extends (cfg : Config R) (env : Env R) {s : Node R} (timer : ℕ)
    (h : Owned s.neiList s.keys s.fresh) :
    Extends s (setInCb timer false (sendNode cfg env (setInCb timer true s))) :=
  Extends.of_eq h rfl ((keys_setInCb _ _ _).trans (keys_setInCb timer true s)) rfl rfl rfl

theorem Deleted.sound {p : Neighbor R → Bool} {s s' : Node R} (h : Deleted p s.neiList s s')
    (hs : Sound s) : Sound s' := by
  refine hs.of_keys ?_ h.rest.2.1 h.rest.2.2.1 (le_of_eq h.rest.1.symm)
    (fun k hk => Or.inl ((h.timers.map _).subset hk))
  rw [h.rest.1]
  exact h.owned hs.owned

/-- Freeing a timer that is not for a neighbour. -/
theorem geosvrTimerFree_sound {s : Node R} (hs : Sound s) (timer : ℕ)
    (ht : ∀ k ∈ s.keys, k.1 = timer →
      k.2.1 = TimerCallback.sendNodeInfo ∨ k.2.1 = TimerCallback.listCleanerCb) :
    Sound (geosvrTimerFree timer s) := by
  have hsub : (geosvrTimerFree timer s).keys.Sublist s.keys := List.filter_sublist.map _
  refine hs.of_keys ?_ rfl rfl (le_refl _) (fun k hk => Or.inl (hsub.subset hk))
  have hkey : ∀ a c d, c = TimerCallback.neighListExpire ∨ c = TimerCallback.rebroadcastExpire →
      ((a, c, d) ∈ (geosvrTimerFree timer s).keys ↔ (a, c, d) ∈ s.keys) := by
    intro a c d hc
    refine ⟨fun hk => hsub.subset hk, fun hk => (mem_keys_geosvrTimerFree ?_).mpr hk⟩
    intro he
    rcases ht _ hk he with h | h <;> rcases hc with rfl | rfl <;> cases h
  have ho := hs.owned
  refine ⟨ho.addrs, ho.keys.sublist (hsub.map _), ho.addrLt, fun k hk => ho.keyLt k (hsub.subset hk),
    fun n hn => (hkey _ _ _ (Or.inl rfl)).trans (ho.timeout n hn), fun n hn => ?_,
    fun n hn a hk => ho.timeoutOwner n hn a (hsub.subset hk),
    fun n hn a hk => ho.rebroadcastOwner n hn a (hsub.subset hk)⟩
  obtain ⟨r, hr, hlt, hiff⟩ := ho.rebroadcast n hn
  exact ⟨r, hr, hlt, (hkey _ _ _ (Or.inr rfl)).trans hiff⟩

theorem setInCb_sound {s : Node R} (hs : Sound s) (timer : ℕ) (b : Bool) :
    Sound (setInCb timer b s) := (setInCb_extends hs.owned timer b).sound hs

theorem fini_sound {s : Node R} (hs : Sound s) : Sound s.fini := by
  have h₀ : Sound (geosvrTimerFree s.sendTimer s) :=
    geosvrTimerFree_sound hs _ (fun k hk he => Or.inl (hs.send.2 k hk he))
  have h₁ := (deleteWhere_deleted (fun _ => true) (geosvrTimerFree s.sendTimer s)).sound h₀
  have hc := (deleteWhere_deleted (fun _ => true) (geosvrTimerFree s.sendTimer s)).rest.2.2.1
  have h₂ := geosvrTimerFree_sound h₁ (geosvrTimerFree s.sendTimer s).listCleanerTimer
    (fun k hk he => Or.inr (h₁.cleaner.2 k hk (he.trans hc.symm)))
  exact ⟨h₂.owned, h₂.send, h₂.cleaner⟩

/-- Step lemma. -/
theorem step_sound [Scalar R] {cfg : Config R} {s s' : Node R} {a : Action R} (hs : Sound s)
    (h : step cfg s a = some s') : Sound s' := by
  obtain ⟨pkt, env, rfl, rfl⟩ | ⟨env, t, more, s₁, rfl, ht, hc, rfl⟩ | ⟨rfl, rfl⟩ := step_cases h
  · exact (recvNode_extends cfg env pkt hs.owned).sound hs
  · obtain ⟨-, rfl, rfl⟩ | ⟨-, rfl, rfl⟩ | ⟨n, hn, hd, rfl, hs₁⟩ := callback_cases hc
    · exact (beacon_extends cfg env t.addr hs.owned).sound hs
    · exact setInCb_sound ((deleteWhere_deleted _ _).sound (setInCb_sound hs _ _)) _ _
    · exact (expired_extends hs.owned ht hn hd hs₁).sound hs
  · exact fini_sound hs

theorem init_sound (cfg : Config R) (sendInCb cleanerInCb : Bool) :
    Sound (Node.init cfg sendInCb cleanerInCb) where
  owned := by
    constructor <;> simp [Node.init, Node.keys, GeoSVRTimer.key]
  send := by simp [Node.init, Node.keys, GeoSVRTimer.key]
  cleaner := by simp [Node.init, Node.keys, GeoSVRTimer.key]

end GeoSvr.Daemon
