import GeoSvr.MsvrNblist
import GeoSvr.Runs

/-! # Runs of the neighbour list of the simulation (`msvr_nblist.cc`)

`msvr_nbladd` and `msvr_nblaging` are called with the time that `gettimeofday` gives them, which
does not decrease.  `Watched` is the list together with what a reader of the calls knows: the time
of the last call, and for each id in the list the last info that was added and when.

`Kept` says that the list has what was added last and loses what is too old.  Aging always ends and
is right.  `msvr_nbladd` is right but for `n_dst`, which it does not refresh: every state of a run is
`Kept` exactly when each info for an id in the list comes with the address that the entry has
(`kept_iff`). -/

namespace GeoSvr.MsvrNblist

open Runs

variable {R : Type*}

/-! ### Aging -/

/-- The clock in microseconds. -/
def Timeval.micros (t : Timeval) : ℕ := t.sec * 1000000 + t.usec

theorem eraseAged_eq_none_iff {now : Timeval} : ∀ {nbl : List (NbEntry R)},
    eraseAged now nbl = none ↔ ∀ e ∈ nbl, aged now e = false
  | [] => iff_of_true rfl (fun e he => absurd he List.not_mem_nil)
  | e :: nbl => by
      rw [eraseAged, List.forall_mem_cons]
      cases he : aged now e with
      | true => simp
      | false => simp [eraseAged_eq_none_iff]

/-- A pass that erases takes one entry away, which is too old. -/
theorem eraseAged_some {now : Timeval} : ∀ {nbl nbl' : List (NbEntry R)},
    eraseAged now nbl = some nbl' → nbl.length = nbl'.length + 1 ∧
      nbl'.filter (fun e => !aged now e) = nbl.filter (fun e => !aged now e)
  | [], nbl', h => by cases h
  | e :: nbl, nbl', h => by
      rw [eraseAged] at h
      cases he : aged now e with
      | true =>
          rw [he, if_pos rfl] at h
          cases h
          exact ⟨rfl, (List.filter_cons_of_neg (by simp [he])).symm⟩
      | false =>
          rw [he, if_neg (by decide)] at h
          obtain ⟨nbl₁, h₁, rfl⟩ := Option.map_eq_some_iff.mp h
          obtain ⟨hlen, hfilter⟩ := eraseAged_some h₁
          refine ⟨congrArg (· + 1) hlen, ?_⟩
          rw [List.filter_cons_of_pos (by simp [he]), List.filter_cons_of_pos (by simp [he]), hfilter]

/-- `msvr_nblaging` ends, and takes the entries away that are too old. -/
theorem msvrNblaging_eq (now : Timeval) {fuel : ℕ} {nbl : List (NbEntry R)}
    (hfuel : nbl.length ≤ fuel) :
    msvrNblaging now fuel nbl = some (nbl.filter (fun e => !aged now e)) := by
  -- each pass but the last makes the list shorter
  induction fuel generalizing nbl with
  | zero =>
      obtain rfl : nbl = [] := List.length_eq_zero_iff.mp (by omega)
      rfl
  | succ fuel ih =>
      cases h : eraseAged now nbl with
      | none =>
          have hkeep : nbl.filter (fun e => !aged now e) = nbl :=
            List.filter_eq_self.mpr (fun e he => by rw [eraseAged_eq_none_iff.mp h e he]; rfl)
          rw [hkeep]
          exact WhileLoop.run_of_false (by rw [h]; rfl) (fuel + 1)
      | some nbl' =>
          obtain ⟨hlen, hfilter⟩ := eraseAged_some h
          rw [← hfilter, ← ih (by omega)]
          exact WhileLoop.run_succ ⟨by rw [h]; rfl, h⟩ fuel

/-- The seconds tell the age up to one second. -/
theorem aged_of_old {now : Timeval} {e : NbEntry R} (h : e.ts.micros + 4000000 ≤ now.micros) :
    aged now e = true := by
  have hu := now.usec_lt
  unfold Timeval.micros at h
  refine decide_eq_true ?_
  unfold MSVR_MAX_NB_AGING
  omega

theorem not_aged_of_new {now : Timeval} {e : NbEntry R} (h : now.micros < e.ts.micros + 3000000) :
    aged now e = false := by
  have hu := e.ts.usec_lt
  unfold Timeval.micros at h
  refine decide_eq_false ?_
  unfold MSVR_MAX_NB_AGING
  omega

/-! ### Adding -/

/-- The ids of the list. -/
def ids (nbl : List (NbEntry R)) : List ℤ := nbl.map (fun e => e.ninfo.id)

theorem refresh_eq_none {ip : Ninfo R} {now : Timeval} : ∀ {nbl : List (NbEntry R)},
    refresh ip now nbl = none → ip.id ∉ ids nbl
  | [], _ => List.not_mem_nil
  | e :: nbl, h => by
      rw [refresh] at h
      split_ifs at h with he
      have hnot := refresh_eq_none (Option.map_eq_none_iff.mp h)
      rw [ids, List.map_cons, List.mem_cons]
      rintro (heq | hmem)
      · exact he heq.symm
      · exact hnot hmem

/-- The entry that is refreshed is the first one with the id. -/
theorem refresh_eq_some {ip : Ninfo R} {now : Timeval} : ∀ {nbl nbl' : List (NbEntry R)},
    refresh ip now nbl = some nbl' → ∃ pre e post, nbl = pre ++ e :: post ∧ e.ninfo.id = ip.id ∧
      nbl' = pre ++ copyInfo e ip now :: post
  | [], nbl', h => by cases h
  | e :: nbl, nbl', h => by
      rw [refresh] at h
      split_ifs at h with he
      · cases h
        exact ⟨[], e, nbl, rfl, he, rfl⟩
      · obtain ⟨nbl₁, h₁, rfl⟩ := Option.map_eq_some_iff.mp h
        obtain ⟨pre, e', post, rfl, he', rfl⟩ := refresh_eq_some h₁
        exact ⟨e :: pre, e', post, rfl, he', rfl⟩

theorem copyInfo_eq {e : NbEntry R} {ip : Ninfo R} {now : Timeval} (hid : e.ninfo.id = ip.id)
    (hdst : e.ninfo.dst = ip.dst) : copyInfo e ip now = ⟨ip, now⟩ := by
  show NbEntry.mk (Ninfo.mk e.ninfo.id ip.x ip.y ip.speed ip.heading ip.roadid e.ninfo.dst) now = _
  rw [hid, hdst]

/-- What `msvr_nbladd` does: it puts an entry for a new id in front, or copies the info to the entry
of the id. -/
theorem msvrNbladd_cases (nbl : List (NbEntry R)) (ip : Ninfo R) (now : Timeval) :
    (ip.id ∉ ids nbl ∧ msvrNbladd nbl ip now = ⟨ip, now⟩ :: nbl) ∨
    ∃ pre e post, nbl = pre ++ e :: post ∧ e.ninfo.id = ip.id ∧
      msvrNbladd nbl ip now = pre ++ copyInfo e ip now :: post := by
  unfold msvrNbladd
  cases h : refresh ip now nbl with
  | none => exact Or.inl ⟨refresh_eq_none h, rfl⟩
  | some nbl' =>
      obtain ⟨pre, e, post, hsplit, hid, rfl⟩ := refresh_eq_some h
      exact Or.inr ⟨pre, e, post, hsplit, hid, rfl⟩

/-! ### Runs -/

/-- A call. -/
inductive Action (R : Type*) where
  | add (ip : Ninfo R) (now : Timeval)
  | aging (now : Timeval)

/-- The list, the time of the last call, and the last info for each id that is in the list, with
the time at which it was added. -/
structure Watched (R : Type*) where
  nbl : List (NbEntry R)
  now : Timeval
  last : ℤ → Option (Ninfo R × Timeval)

/-- A call at a time that is not earlier than the last one. -/
def step (s : Watched R) : Action R → Option (Watched R)
  | .add ip now =>
      if s.now.micros ≤ now.micros then
        some ⟨msvrNbladd s.nbl ip now, now, Function.update s.last ip.id (some (ip, now))⟩
      else none
  | .aging now =>
      if s.now.micros ≤ now.micros then
        (msvrNblaging now s.nbl.length s.nbl).map
          (fun nbl => ⟨nbl, now, fun id => if id ∈ ids nbl then s.last id else none⟩)
      else none

/-- The empty list. -/
def start (now : Timeval) : Watched R := ⟨[], now, fun _ => none⟩

/-- An id has one entry, with all fields of the last info since it was absent; and aging ends, takes
away what is 4 seconds old, and keeps what is not 3 seconds old, in order. -/
structure Kept (s : Watched R) : Prop where
  nodup : (ids s.nbl).Nodup
  last : ∀ e ∈ s.nbl, s.last e.ninfo.id = some (e.ninfo, e.ts)
  aging : ∀ now : Timeval, s.now.micros ≤ now.micros →
    ∃ nbl, msvrNblaging now s.nbl.length s.nbl = some nbl ∧ nbl.Sublist s.nbl ∧
      ∀ e ∈ s.nbl, (e.ts.micros + 4000000 ≤ now.micros → e ∉ nbl) ∧
        (now.micros < e.ts.micros + 3000000 → e ∈ nbl)

/-- An info for an id in the list comes with the address of the entry. -/
def SameDst (s : Watched R) : Action R → Prop
  | .add ip _ => ∀ e ∈ s.nbl, e.ninfo.id = ip.id → e.ninfo.dst = ip.dst
  | .aging _ => True

/-- Aging is right for every list. -/
theorem Kept.of_last {s : Watched R} (hnodup : (ids s.nbl).Nodup)
    (hlast : ∀ e ∈ s.nbl, s.last e.ninfo.id = some (e.ninfo, e.ts)) : Kept s := by
  refine ⟨hnodup, hlast, fun now _ => ⟨_, msvrNblaging_eq now le_rfl, List.filter_sublist,
    fun e he => ⟨fun h hmem => ?_, fun h => ?_⟩⟩⟩
  · have haged := (List.mem_filter.mp hmem).2
    rw [aged_of_old h] at haged
    cases haged
  · exact List.mem_filter.mpr ⟨he, by rw [not_aged_of_new h]; rfl⟩

theorem kept_start (now : Timeval) : Kept (start (R := R) now) :=
  Kept.of_last List.nodup_nil (fun _ he => absurd he List.not_mem_nil)

section add

variable {s : Watched R} {ip : Ninfo R} {now : Timeval} {pre post : List (NbEntry R)} {e : NbEntry R}

/-- The other entries have other ids. -/
theorem ne_of_nodup (hnodup : (ids (pre ++ e :: post)).Nodup) :
    ∀ e' ∈ pre ++ post, e'.ninfo.id ≠ e.ninfo.id := by
  rw [ids, List.map_append, List.map_cons] at hnodup
  have hmid := List.nodup_middle.mp hnodup
  rw [List.nodup_cons, ← List.map_append] at hmid
  exact fun e' hmem heq => hmid.1 (heq ▸ List.mem_map_of_mem hmem)

/-- An entry for a new id. -/
theorem kept_insert (h : Kept s) (hnew : ip.id ∉ ids s.nbl) :
    Kept ⟨⟨ip, now⟩ :: s.nbl, now, Function.update s.last ip.id (some (ip, now))⟩ := by
  refine Kept.of_last (List.nodup_cons.mpr ⟨hnew, h.nodup⟩) (fun e hmem => ?_)
  obtain rfl | hmem := List.mem_cons.mp hmem
  · exact Function.update_self _ _ _
  · have hne : e.ninfo.id ≠ ip.id := fun heq => hnew (heq ▸ List.mem_map_of_mem hmem)
    exact (Function.update_of_ne hne _ _).trans (h.last e hmem)

/-- All fields of the info in the entry of its id. -/
theorem kept_replace (h : Kept s) (hsplit : s.nbl = pre ++ e :: post)
    (hid : e.ninfo.id = ip.id) :
    Kept ⟨pre ++ ⟨ip, now⟩ :: post, now, Function.update s.last ip.id (some (ip, now))⟩ := by
  have hnodup := h.nodup
  rw [hsplit] at hnodup
  have hother := ne_of_nodup hnodup
  rw [hid] at hother
  have hrest : ∀ e' ∈ pre ++ post,
      Function.update s.last ip.id (some (ip, now)) e'.ninfo.id = some (e'.ninfo, e'.ts) := by
    intro e' hmem
    rw [Function.update_of_ne (hother e' hmem)]
    refine h.last e' (hsplit ▸ ?_)
    obtain hmem | hmem := List.mem_append.mp hmem
    · exact List.mem_append_left _ hmem
    · exact List.mem_append_right _ (List.mem_cons_of_mem _ hmem)
  refine Kept.of_last ?_ (fun e' hmem => ?_)
  · rw [ids, List.map_append, List.map_cons] at hnodup ⊢
    rwa [← hid]
  · obtain hmem | hmem := List.mem_append.mp hmem
    · exact hrest e' (List.mem_append_left _ hmem)
    · obtain rfl | hmem := List.mem_cons.mp hmem
      · exact Function.update_self _ _ _
      · exact hrest e' (List.mem_append_right _ hmem)

/-- The refreshed entry is the info only if it had the address before. -/
theorem dst_of_kept {nbl : List (NbEntry R)} (hcopy : copyInfo e ip now ∈ nbl)
    (hid : e.ninfo.id = ip.id)
    (h : Kept ⟨nbl, now, Function.update s.last ip.id (some (ip, now))⟩) :
    e.ninfo.dst = ip.dst := by
  have hself : Function.update s.last ip.id (some (ip, now)) (copyInfo e ip now).ninfo.id =
      some (ip, now) := by
    rw [show (copyInfo e ip now).ninfo.id = ip.id from hid, Function.update_self]
  have hinfo : ip = (copyInfo e ip now).ninfo :=
    congrArg Prod.fst (Option.some.inj (hself.symm.trans (h.last _ hcopy)))
  exact (congrArg Ninfo.dst hinfo).symm

/-- `msvr_nbladd` keeps the list right exactly when it need not change an address. -/
theorem kept_add_iff (h : Kept s) (ip : Ninfo R) (now : Timeval) :
    Kept ⟨msvrNbladd s.nbl ip now, now, Function.update s.last ip.id (some (ip, now))⟩ ↔
      SameDst s (.add ip now) := by
  obtain ⟨hnew, he⟩ | ⟨pre, e, post, hsplit, hid, he⟩ := msvrNbladd_cases s.nbl ip now
  · rw [he]
    exact iff_of_true (kept_insert h hnew)
      (fun e hmem heq => absurd (heq ▸ List.mem_map_of_mem hmem) hnew)
  · rw [he]
    constructor
    · intro hkept e' hmem heq
      have hnodup := h.nodup
      rw [hsplit] at hmem hnodup
      have hother := ne_of_nodup hnodup
      rw [hid] at hother
      obtain hmem | hmem := List.mem_append.mp hmem
      · exact absurd heq (hother e' (List.mem_append_left _ hmem))
      · obtain rfl | hmem := List.mem_cons.mp hmem
        · exact dst_of_kept (List.mem_append_right _ List.mem_cons_self) hid hkept
        · exact absurd heq (hother e' (List.mem_append_right _ hmem))
    · intro hsame
      have hdst : e.ninfo.dst = ip.dst :=
        hsame e (hsplit ▸ List.mem_append_right _ List.mem_cons_self) hid
      rw [copyInfo_eq hid hdst]
      exact kept_replace h hsplit hid

end add

theorem kept_aging {s : Watched R} (h : Kept s) (now : Timeval) :
    Kept ⟨s.nbl.filter (fun e => !aged now e), now,
      fun id => if id ∈ ids (s.nbl.filter (fun e => !aged now e)) then s.last id else none⟩ := by
  have hsub : (s.nbl.filter (fun e => !aged now e)).Sublist s.nbl := List.filter_sublist
  refine Kept.of_last (h.nodup.sublist (hsub.map _)) (fun e hmem => ?_)
  exact (if_pos (List.mem_map_of_mem hmem)).trans (h.last e (hsub.mem hmem))

theorem step_aging {s s' : Watched R} {now : Timeval} (h : step s (.aging now) = some s') :
    s' = ⟨s.nbl.filter (fun e => !aged now e), now,
      fun id => if id ∈ ids (s.nbl.filter (fun e => !aged now e)) then s.last id else none⟩ := by
  simp only [step, msvrNblaging_eq now le_rfl, Option.map_some] at h
  split_ifs at h
  exact (Option.some.inj h).symm

theorem step_add {s s' : Watched R} {ip : Ninfo R} {now : Timeval}
    (h : step s (.add ip now) = some s') :
    s' = ⟨msvrNbladd s.nbl ip now, now, Function.update s.last ip.id (some (ip, now))⟩ := by
  simp only [step] at h
  split_ifs at h
  exact (Option.some.inj h).symm

/-- A call keeps the list right exactly when it need not change an address. -/
theorem kept_step_iff {s s' : Watched R} {a : Action R} (h : Kept s) (hs : step s a = some s') :
    Kept s' ↔ SameDst s a := by
  cases a with
  | add ip now =>
      rw [step_add hs]
      exact kept_add_iff h ip now
  | aging now =>
      rw [step_aging hs]
      exact iff_of_true (kept_aging h now) trivial

/-- A call is possible at every time that is not earlier than the last one. -/
theorem step_isSome {s : Watched R} {now : Timeval} (h : s.now.micros ≤ now.micros) (ip : Ninfo R) :
    (step s (.add ip now)).isSome ∧ (step s (.aging now)).isSome := by
  simp only [step, if_pos h, msvrNblaging_eq now le_rfl, Option.map_some, Option.isSome_some,
    and_self]

/-- **The neighbour list.**  Every state of a run is right exactly when each info that is added for
an id in the list comes with the address that its entry has. -/
theorem kept_iff {now : Timeval} {as : List (Action R)} {s : Watched R}
    (hr : Run step Free (start now) as s) :
    (∀ bs cs t, as = bs ++ cs → Run step Free (start now) bs t → Kept t) ↔
      Run step SameDst (start now) as s :=
  @Run.forall_iff _ _ step SameDst Kept Kept (fun _ _ _ h hs => kept_step_iff h hs)
    (fun _ _ _ h hc hs => (kept_step_iff h hs).mpr hc) _ _ _ (kept_start now) (kept_start now) hr

/-- A neighbour that is added, and two seconds later again. -/
def twoAdds (dst₁ dst₂ : UInt32) : List (Action ℕ) :=
  [.add ⟨1, 0, 0, 0, 0, 7, dst₁⟩ ⟨10, 0, by decide⟩,
    .add ⟨1, 5, 0, 0, 0, 8, dst₂⟩ ⟨12, 0, by decide⟩]

theorem step_add_of_le {s : Watched R} {now : Timeval} (h : s.now.micros ≤ now.micros)
    (ip : Ninfo R) : step s (.add ip now) =
      some ⟨msvrNbladd s.nbl ip now, now, Function.update s.last ip.id (some (ip, now))⟩ :=
  if_pos h

theorem run_twoAdds (dst₁ dst₂ : UInt32) : ∃ s,
    Run step Free (start ⟨0, 0, by decide⟩) (twoAdds dst₁ dst₂) s ∧
      s.nbl = [⟨⟨1, 5, 0, 0, 0, 8, dst₁⟩, ⟨12, 0, by decide⟩⟩] ∧
      s.last 1 = some (⟨1, 5, 0, 0, 0, 8, dst₂⟩, ⟨12, 0, by decide⟩) := by
  refine ⟨_, Run.cons trivial (step_add_of_le ?_ _)
    (Run.cons trivial (step_add_of_le ?_ _) (Run.nil _)), ?_, ?_⟩
  · show 0 * 1000000 + 0 ≤ 10 * 1000000 + 0
    omega
  · show 10 * 1000000 + 0 ≤ 12 * 1000000 + 0
    omega
  · simp [msvrNbladd, refresh, start, copyInfo]
  · simp

theorem kept_iff_twoAdds : ∃ s,
    (∀ bs cs t, twoAdds 3 3 = bs ++ cs → Run step Free (start ⟨0, 0, by decide⟩) bs t → Kept t) ↔
      Run step SameDst (start ⟨0, 0, by decide⟩) (twoAdds 3 3) s := by
  obtain ⟨s, hr, -⟩ := run_twoAdds 3 3
  exact ⟨s, kept_iff hr⟩

/-- A neighbour that comes back with another address keeps the old one. -/
theorem not_kept_twoAdds :
    ¬ ∀ (as : List (Action ℕ)) (s : Watched ℕ),
      Run step Free (start ⟨0, 0, by decide⟩) as s → Kept s := by
  intro h
  obtain ⟨s, hr, hnbl, hlast⟩ := run_twoAdds 3 4
  have hkept := (h _ s hr).last _ (hnbl ▸ List.mem_cons_self)
  have hdst : (3 : UInt32) = 4 :=
    (congrArg (fun p => p.1.dst) (Option.some.inj (hlast.symm.trans hkept))).symm
  exact absurd hdst (by decide)

end GeoSvr.MsvrNblist
