import GeoSvr.CpcRt

/-! # Runs of the routing table of the CPC kernel module (`cpc_rt.c`)

A run is any sequence of the calls that change the table, each with any value of `jiffies`; the
lock makes a call one step.  In every state of a run the list is sorted by `expires`, has one entry
for an address, and the timer is set for the first entry (`ordered_of_run`).

The counter is not always right.  `cpc_rt_add` counts an entry that the full table refused, and
`cpc_rt_update` takes the entry out and loses it when the table is full, without counting.  `rt_len`
is the length of the list in every state of a run exactly when no call adds a new address to the
full table, or updates one in it (`counted_iff`). -/

namespace GeoSvr.CpcRt

open KeyedList Runs

/-! ### Calls as steps -/

/-- A call. -/
inductive Action
  | add (granted : Bool) (jiffies : UInt64) (daddr nhop : UInt32) (time : UInt64) (ifindex : ℤ)
  | update (jiffies : UInt64) (daddr nhop : UInt32) (time : UInt64) (ifindex : ℤ)
  | del (daddr : UInt32)
  | timeout (jiffies : UInt64)
  | flush

def step (HZ : UInt64) (t : Table) : Action → Option Table
  | .add granted jiffies daddr nhop time ifindex =>
      some (cpcRtAdd HZ granted jiffies daddr nhop time ifindex t).2
  | .update jiffies daddr nhop time ifindex =>
      some (cpcRtUpdate HZ jiffies daddr nhop time ifindex t).2
  | .del daddr => some (cpcRtDel daddr t).2
  | .timeout jiffies => some (cpcRtTimeout jiffies t)
  | .flush => some (cpcRtFlush t)

/-! ### Order -/

/-- The entries are sorted by expiry, and have different addresses. -/
structure Keyed (list : List RtEntry) : Prop where
  sorted : list.Pairwise (fun a b => a.expires.toNat ≤ b.expires.toNat)
  nodup : (list.map RtEntry.daddr).Nodup

theorem Keyed.sublist {list list' : List RtEntry} (h : Keyed list) (hs : list'.Sublist list) :
    Keyed list' :=
  ⟨h.sorted.sublist hs, h.nodup.sublist (hs.map _)⟩

/-- The entries with another address are those that removing leaves. -/
theorem Keyed.eraseP_eq {list : List RtEntry} (h : Keyed list) (daddr : UInt32) :
    list.eraseP (isFor daddr) = list.filter (fun rt => !isFor daddr rt) := by
  refine eraseP_eq_filter ((List.pairwise_map.mp h.nodup).imp (fun {a b} hne ha => ?_))
  have ha : a.daddr = daddr := eq_of_beq ha
  exact beq_eq_false_iff_ne.mpr (fun hb => hne (ha.trans hb.symm))

theorem Keyed.insert {list : List RtEntry} (h : Keyed list) {rt : RtEntry}
    (hnew : ∀ e ∈ list, isFor rt.daddr e = false) : Keyed (insertByExpires rt list) := by
  constructor
  · exact @pairwise_orderedInsert _ _ _ (fun e : RtEntry => e.expires.toNat) _ _
      (fun _ _ => UInt64.lt_iff_toNat_lt) rt _ h.sorted
  · have hperm := (List.perm_orderedInsert (fun rt curr : RtEntry => rt.expires < curr.expires) rt
      list).map RtEntry.daddr
    refine hperm.nodup_iff.mpr (List.nodup_cons.mpr ⟨fun hmem => ?_, h.nodup⟩)
    obtain ⟨e, he, heq⟩ := List.mem_map.mp hmem
    have hne : (e.daddr == rt.daddr) = false := hnew e he
    exact beq_eq_false_iff_ne.mp hne heq

/-- What holds of the table in every state: the list is sorted, has one entry for an address, and
the timer is set for the first entry. -/
structure Ordered (t : Table) : Prop where
  sorted : t.list.Pairwise (fun a b => a.expires.toNat ≤ b.expires.toNat)
  nodup : (t.list.map RtEntry.daddr).Nodup
  timer : TimerSet t

theorem Ordered.keyed {t : Table} (h : Ordered t) : Keyed t.list := ⟨h.sorted, h.nodup⟩

theorem Keyed.ordered {t : Table} (h : Keyed t.list) (ht : TimerSet t) : Ordered t :=
  ⟨h.sorted, h.nodup, ht⟩

theorem ordered_init : Ordered Table.init :=
  ⟨List.Pairwise.nil, List.nodup_nil, fun rt hrt => by cases hrt⟩

/-- Setting the timer makes a sorted table ordered. -/
theorem ordered_setNextTimeout {t : Table} (h : Keyed t.list) : Ordered (cpcRtSetNextTimeout t) :=
  Keyed.ordered (by rw [cpcRtSetNextTimeout_list]; exact h) (timerSet_setNextTimeout t)

section calls

variable {HZ : UInt64} {t : Table}

/-- The timer of a table that has taken an entry. -/
theorem timerSet_insert (h : TimerSet t) {rt : RtEntry}
    (hnew : ∀ e ∈ t.list, isFor rt.daddr e = false) (len : UInt32) :
    let t' : Table := { t with list := insertByExpires rt t.list, len := len }
    TimerSet (if listIsFirst rt.daddr t' then modTimer rt.expires t' else t') := by
  have hself : isFor rt.daddr rt = true := beq_self_eq_true _
  intro t'
  -- the new entry is the first, or the first one stays
  cases hl : t.list with
  | nil =>
      have ht' : t'.list = [rt] := by
        show insertByExpires rt t.list = [rt]
        rw [hl]
        rfl
      rw [if_pos (by rw [listIsFirst, ht']; exact hself)]
      intro e he
      rw [show (modTimer rt.expires t').list = [rt] from ht'] at he
      cases he
      rfl
  | cons b list =>
      have ht' : t'.list = if rt.expires < b.expires then rt :: b :: list
          else b :: insertByExpires rt list := by
        show insertByExpires rt t.list = _
        rw [hl]
        exact List.orderedInsert_cons _ rt b list
      split_ifs at ht' with hlt
      · rw [if_pos (by rw [listIsFirst, ht']; exact hself)]
        intro e he
        rw [show (modTimer rt.expires t').list = rt :: b :: list from ht'] at he
        cases he
        rfl
      · have hb : isFor rt.daddr b = false := hnew b (hl ▸ List.mem_cons_self)
        rw [if_neg (by rw [listIsFirst, ht']; simpa using hb)]
        intro e he
        rw [ht'] at he
        cases he
        exact h b (by rw [hl]; rfl)

theorem ordered_add (h : Ordered t) (granted : Bool) (jiffies : UInt64) (daddr nhop : UInt32)
    (time : UInt64) (ifindex : ℤ) :
    Ordered (cpcRtAdd HZ granted jiffies daddr nhop time ifindex t).2 := by
  cases hf : rtFind daddr t with
  | some rt =>
      rw [cpcRtAdd_of_found hf]
      exact h
  | none =>
      cases granted with
      | false =>
          rw [cpcRtAdd_of_refused hf]
          exact h
      | true =>
          by_cases hfull : RT_MAX_LEN < t.len
          · rw [cpcRtAdd_of_full hf hfull]
            exact ⟨h.sorted, h.nodup, h.timer⟩
          · have hnew := rtFind_eq_none.mp hf
            rw [cpcRtAdd_of_space hf hfull]
            refine Keyed.ordered ?_ (timerSet_insert h.timer hnew _)
            have hk := @Keyed.insert _ h.keyed (newEntry HZ jiffies daddr nhop time ifindex) hnew
            simp only
            split_ifs <;> exact hk

theorem ordered_update (h : Ordered t) (jiffies : UInt64) (daddr nhop : UInt32) (time : UInt64)
    (ifindex : ℤ) : Ordered (cpcRtUpdate HZ jiffies daddr nhop time ifindex t).2 := by
  cases hf : rtFind daddr t with
  | none =>
      rw [cpcRtUpdate_of_not_found hf]
      exact h
  | some rt =>
      have herase : Keyed (t.list.eraseP (isFor daddr)) := h.keyed.sublist List.eraseP_sublist
      by_cases hfull : RT_MAX_LEN < t.len
      · rw [cpcRtUpdate_of_full hf hfull]
        exact ordered_setNextTimeout herase
      · rw [cpcRtUpdate_of_space hf hfull]
        refine ordered_setNextTimeout (herase.insert (fun e he => ?_))
        rw [h.keyed.eraseP_eq] at he
        show isFor daddr e = false
        simpa using (List.mem_filter.mp he).2

/-- The timer of a table that an entry is removed from. -/
theorem timerSet_rtDel (h : TimerSet t) (daddr : UInt32) : TimerSet (rtDel daddr t).2 := by
  unfold rtDel TimerSet
  simp only
  split_ifs with hfirst
  · -- the first entry is removed: the timer is set for the next one
    cases hu : (unlink daddr t).list with
    | nil =>
        simp only
        intro e he
        rw [show ({ unlink daddr t with len := (unlink daddr t).len - 1 } : Table).list = []
          from hu] at he
        cases he
    | cons next list =>
        simp only
        intro e he
        rw [show ({ modTimer next.expires (unlink daddr t) with
          len := (modTimer next.expires (unlink daddr t)).len - 1 } : Table).list = next :: list
          from hu] at he
        cases he
        rfl
  · -- another one is removed: the first stays
    intro e he
    cases hl : t.list with
    | nil =>
        rw [unlink, hl] at he
        cases he
    | cons b list =>
        have hb : ¬ isFor daddr b = true := by
          rw [listIsFirst, hl] at hfirst
          exact hfirst
        rw [unlink, hl, List.eraseP_cons_of_neg hb] at he
        have hbe : b = e := Option.some.inj he
        rw [← hbe]
        exact h b (by rw [hl]; rfl)

theorem ordered_del (h : Ordered t) (daddr : UInt32) : Ordered (cpcRtDel daddr t).2 := by
  unfold cpcRtDel
  cases hf : rtFind daddr t with
  | none => exact h
  | some rt =>
      have hlist := (rtDel_list daddr t).1
      exact Keyed.ordered (hlist ▸ h.keyed.sublist List.eraseP_sublist)
        (timerSet_rtDel h.timer daddr)

theorem ordered_timeout (h : Ordered t) (jiffies : UInt64) : Ordered (cpcRtTimeout jiffies t) := by
  refine Keyed.ordered ?_ (timerSet_setNextTimeout _)
  rw [cpcRtTimeout_list]
  exact h.keyed.sublist (List.dropWhile_sublist _)

theorem ordered_flush (t : Table) : Ordered (cpcRtFlush t) :=
  ⟨List.Pairwise.nil, List.nodup_nil, fun rt hrt => by cases hrt⟩

/-- A call keeps the table ordered. -/
theorem step_ordered {t' : Table} {a : Action} (h : Ordered t) (hs : step HZ t a = some t') :
    Ordered t' := by
  cases a with
  | add granted jiffies daddr nhop time ifindex =>
      cases hs
      exact ordered_add h granted jiffies daddr nhop time ifindex
  | update jiffies daddr nhop time ifindex =>
      cases hs
      exact ordered_update h jiffies daddr nhop time ifindex
  | del daddr =>
      cases hs
      exact ordered_del h daddr
  | timeout jiffies =>
      cases hs
      exact ordered_timeout h jiffies
  | flush =>
      cases hs
      exact ordered_flush t

end calls

/-- Every state of a run is ordered. -/
theorem ordered_run {HZ : UInt64} {as : List Action} {t : Table}
    (hr : Run (step HZ) Free Table.init as t) : Ordered t :=
  hr.inv Ordered (fun _ _ _ h _ hs => step_ordered h hs) ordered_init

/-- **Order and timer.**  After any calls the list is sorted by `expires`, no two entries have the
same `daddr`, and if there is an entry the timer is pending with the expiry of the first. -/
theorem ordered_of_run {HZ : UInt64} {as : List Action} {t : Table}
    (hr : Run (step HZ) Free Table.init as t) :
    t.list.Pairwise (fun a b => a.expires ≤ b.expires) ∧
      t.list.Pairwise (fun a b => a.daddr ≠ b.daddr) ∧
      ∀ rt list, t.list = rt :: list → t.timer = some rt.expires := by
  have h := ordered_run hr
  refine ⟨h.sorted.imp UInt64.le_iff_toNat_le.mpr, List.pairwise_map.mp h.nodup, ?_⟩
  intro rt list hl
  exact h.timer rt (by rw [hl]; rfl)

/-- Two routes are added, the one that expires first is updated, and the other one expires. -/
def twoRoutes : List Action :=
  [.add true 0 1 9 1000 1, .add true 0 2 9 2000 1, .update 100 1 8 4000 1, .timeout 600]

theorem ordered_of_run_twoRoutes : ∃ t : Table, t.list = [⟨1100, 1, 8, 1⟩] ∧
    t.list.Pairwise (fun a b => a.expires ≤ b.expires) ∧
      t.list.Pairwise (fun a b => a.daddr ≠ b.daddr) ∧
      ∀ rt list, t.list = rt :: list → t.timer = some rt.expires := by
  have hr : Run (step 250) Free Table.init twoRoutes _ := run_of_exec _ rfl
  exact ⟨_, rfl, ordered_of_run hr⟩

/-! ### The counter -/

/-- `rt_len` is the number of entries. -/
def Counted (t : Table) : Prop := t.len.toNat = t.list.length

/-- The call does not add a new address to a full table, and does not update one in it. -/
def WithinSpace (t : Table) : Action → Prop
  | .add granted _ daddr _ _ _ =>
      granted = true → rtFind daddr t = none → ¬ RT_MAX_LEN < t.len
  | .update _ daddr _ _ _ => rtFind daddr t ≠ none → ¬ RT_MAX_LEN < t.len
  | .del _ | .timeout _ | .flush => True

theorem counted_init : Counted Table.init := rfl

/-- Counting down for an entry that is removed. -/
theorem toNat_sub_one {len : UInt32} {n : ℕ} (h : len.toNat = n + 1) : (len - 1).toNat = n := by
  have hle : (1 : UInt32) ≤ len := UInt32.le_iff_toNat_le.mpr (by rw [h]; exact Nat.le_add_left 1 n)
  rw [UInt32.toNat_sub_of_le _ _ hle, h]
  rfl

theorem timeoutLoop_counted (time : UInt64) : ∀ {list : List RtEntry} {len : UInt32},
    len.toNat = list.length →
      (timeoutLoop time list len).2.toNat = (timeoutLoop time list len).1.length
  | [], _, h => h
  | rt :: list, len, h => by
      rw [timeoutLoop]
      split_ifs
      · exact h
      · exact timeoutLoop_counted time (toNat_sub_one h)

theorem flushLoop_counted : ∀ {list : List RtEntry} {len : UInt32}, len.toNat = list.length →
    (flushLoop list len).toNat = 0
  | [], _, h => h
  | _ :: list, len, h => @flushLoop_counted list (len - 1) (toNat_sub_one h)

section calls

variable {HZ : UInt64} {t : Table}

theorem length_eraseP {daddr : UInt32} {rt : RtEntry} (h : rtFind daddr t = some rt) :
    t.list.length = (t.list.eraseP (isFor daddr)).length + 1 := by
  obtain ⟨hmem, heq⟩ := rtFind_eq_some h
  have hpos := List.length_pos_of_mem hmem
  have hfor : isFor daddr rt = true := beq_iff_eq.mpr heq
  rw [List.length_eraseP_of_mem hmem hfor]
  omega

theorem length_insertByExpires (rt : RtEntry) (list : List RtEntry) :
    (insertByExpires rt list).length = list.length + 1 :=
  (List.perm_orderedInsert _ rt list).length_eq

/-- Adding counts right exactly when there is space for a new address. -/
theorem counted_add_iff (h : Counted t) (granted : Bool) (jiffies : UInt64) (daddr nhop : UInt32)
    (time : UInt64) (ifindex : ℤ) :
    Counted (cpcRtAdd HZ granted jiffies daddr nhop time ifindex t).2 ↔
      WithinSpace t (.add granted jiffies daddr nhop time ifindex) := by
  cases hf : rtFind daddr t with
  | some rt =>
      rw [cpcRtAdd_of_found hf]
      exact iff_of_true h (fun _ hnone => by rw [hf] at hnone; cases hnone)
  | none =>
      cases granted with
      | false =>
          rw [cpcRtAdd_of_refused hf]
          exact iff_of_true h (fun hg => by cases hg)
      | true =>
          have hadd : (t.len + 1).toNat = (t.len.toNat + 1) % 2 ^ 32 := UInt32.toNat_add t.len 1
          have hlt := t.len.toNat_lt
          unfold Counted at h
          by_cases hfull : RT_MAX_LEN < t.len
          · rw [cpcRtAdd_of_full hf hfull]
            refine iff_of_false (fun hc => ?_) (fun hspace => hspace rfl hf hfull)
            unfold Counted at hc
            simp only at hc
            omega
          · have hle : t.len.toNat ≤ 1024 :=
              Nat.not_lt.mp (fun hgt => hfull (UInt32.lt_iff_toNat_lt.mpr hgt))
            rw [cpcRtAdd_of_space hf hfull]
            refine iff_of_true ?_ (fun _ _ => hfull)
            have hlen := length_insertByExpires (newEntry HZ jiffies daddr nhop time ifindex) t.list
            have hcount : (t.len + 1).toNat =
                (insertByExpires (newEntry HZ jiffies daddr nhop time ifindex) t.list).length := by
              omega
            simp only
            split_ifs <;> exact hcount

/-- Updating counts right exactly when there is space for the entry that it took out. -/
theorem counted_update_iff (h : Counted t) (jiffies : UInt64) (daddr nhop : UInt32) (time : UInt64)
    (ifindex : ℤ) :
    Counted (cpcRtUpdate HZ jiffies daddr nhop time ifindex t).2 ↔
      WithinSpace t (.update jiffies daddr nhop time ifindex) := by
  cases hf : rtFind daddr t with
  | none =>
      rw [cpcRtUpdate_of_not_found hf]
      exact iff_of_true h (fun hne => absurd hf hne)
  | some rt =>
      have hlen := length_eraseP hf
      unfold Counted at h ⊢
      by_cases hfull : RT_MAX_LEN < t.len
      · rw [cpcRtUpdate_of_full hf hfull, cpcRtSetNextTimeout_len, cpcRtSetNextTimeout_list]
        refine iff_of_false (fun hc => ?_) (fun hspace => hspace (by rw [hf]; simp) hfull)
        have hc : t.len.toNat = (t.list.eraseP (isFor daddr)).length := hc
        omega
      · rw [cpcRtUpdate_of_space hf hfull, cpcRtSetNextTimeout_len, cpcRtSetNextTimeout_list,
          length_insertByExpires, ← hlen]
        exact iff_of_true h (fun _ => hfull)

theorem counted_del (h : Counted t) (daddr : UInt32) : Counted (cpcRtDel daddr t).2 := by
  unfold cpcRtDel
  cases hf : rtFind daddr t with
  | none => exact h
  | some rt =>
      obtain ⟨hlist, hlen⟩ := rtDel_list daddr t
      show (rtDel daddr t).2.len.toNat = (rtDel daddr t).2.list.length
      rw [hlist, hlen]
      exact toNat_sub_one (h.trans (length_eraseP hf))

theorem counted_timeout (h : Counted t) (jiffies : UInt64) : Counted (cpcRtTimeout jiffies t) := by
  unfold Counted cpcRtTimeout
  rw [cpcRtSetNextTimeout_len, cpcRtSetNextTimeout_list]
  exact timeoutLoop_counted _ h

/-- A call counts right exactly when it meets the condition. -/
theorem step_counted_iff {t' : Table} {a : Action} (h : Counted t) (hs : step HZ t a = some t') :
    Counted t' ↔ WithinSpace t a := by
  cases a with
  | add granted jiffies daddr nhop time ifindex =>
      cases hs
      exact counted_add_iff h granted jiffies daddr nhop time ifindex
  | update jiffies daddr nhop time ifindex =>
      cases hs
      exact counted_update_iff h jiffies daddr nhop time ifindex
  | del daddr =>
      cases hs
      exact iff_of_true (counted_del h daddr) trivial
  | timeout jiffies =>
      cases hs
      exact iff_of_true (counted_timeout h jiffies) trivial
  | flush =>
      cases hs
      exact iff_of_true (flushLoop_counted h) trivial

end calls

/-- **The counter.**  In every state of a run `rt_len` is the number of entries exactly when no call
adds a new address to a full table or updates one in it. -/
theorem counted_iff {HZ : UInt64} {as : List Action} {t : Table}
    (hr : Run (step HZ) Free Table.init as t) :
    (∀ bs cs t, as = bs ++ cs → Run (step HZ) Free Table.init bs t → Counted t) ↔
      Run (step HZ) WithinSpace Table.init as t :=
  @Run.forall_iff _ _ (step HZ) WithinSpace Counted Counted (fun _ _ _ h hs => step_counted_iff h hs)
    (fun _ _ _ h hc hs => (step_counted_iff h hs).mpr hc) _ _ _ counted_init counted_init hr

theorem counted_iff_twoRoutes : ∃ t,
    (∀ bs cs t, twoRoutes = bs ++ cs → Run (step 250) Free Table.init bs t → Counted t) ↔
      Run (step 250) WithinSpace Table.init twoRoutes t := by
  have hr : Run (step 250) Free Table.init twoRoutes _ := run_of_exec _ rfl
  exact ⟨_, counted_iff hr⟩

/-! ### A full table -/

/-- Adding the addresses below `n`. -/
def fill : ℕ → List Action
  | 0 => []
  | n + 1 => fill n ++ [.add true 0 (.ofNat n) 0 0 1]

/-- Up to one more than `RT_MAX_LEN` entries are added and counted. -/
theorem run_fill (HZ : UInt64) : ∀ n : ℕ, n ≤ 1025 →
    ∃ t, Run (step HZ) Free Table.init (fill n) t ∧ t.len.toNat = n ∧ t.list.length = n ∧
      ∀ rt ∈ t.list, rt.daddr.toNat < n
  | 0, _ => ⟨_, Run.nil _, rfl, rfl, fun rt hrt => absurd hrt List.not_mem_nil⟩
  | n + 1, hn => by
      obtain ⟨t, hr, hlen, hlist, hlt⟩ := run_fill HZ n (by omega)
      have hnat : (UInt32.ofNat n).toNat = n := UInt32.toNat_ofNat_of_lt' (by
        show n < 4294967296
        omega)
      have hnew : rtFind (.ofNat n) t = none := by
        refine rtFind_eq_none.mpr (fun rt hrt => beq_eq_false_iff_ne.mpr (fun heq => ?_))
        have := hlt rt hrt
        rw [heq, hnat] at this
        omega
      have hspace : ¬ RT_MAX_LEN < t.len := by
        rw [UInt32.lt_iff_toNat_lt, hlen]
        show ¬ 1024 < n
        omega
      refine ⟨_, hr.append (Run.single trivial rfl), ?_⟩
      have hadd : (t.len + 1).toNat = n + 1 := by
        rw [UInt32.toNat_add, hlen]
        show (n + 1) % 2 ^ 32 = n + 1
        omega
      have hmem : ∀ rt ∈ insertByExpires (newEntry HZ 0 (.ofNat n) 0 0 1) t.list,
          rt.daddr.toNat < n + 1 := by
        intro rt hrt
        obtain rfl | hrt := (List.mem_orderedInsert _).mp hrt
        · show (UInt32.ofNat n).toNat < n + 1
          omega
        · have := hlt rt hrt
          omega
      have hins := length_insertByExpires (newEntry HZ 0 (.ofNat n) 0 0 1) t.list
      rw [cpcRtAdd_of_space hnew hspace]
      simp only
      split_ifs
      · exact ⟨hadd, hins.trans (by rw [hlist]), hmem⟩
      · exact ⟨hadd, hins.trans (by rw [hlist]), hmem⟩

/-- `RT_MAX_LEN + 1` entries are added, and the next one is counted but not added. -/
theorem not_counted_full :
    ¬ ∀ (HZ : UInt64) (as : List Action) (t : Table),
      Run (step HZ) Free Table.init as t → Counted t := by
  intro h
  obtain ⟨t, hr, hlen, hlist, hlt⟩ := run_fill 250 1025 le_rfl
  have hnew : rtFind 1025 t = none := by
    refine rtFind_eq_none.mpr (fun rt hrt => beq_eq_false_iff_ne.mpr (fun heq => ?_))
    have := hlt rt hrt
    rw [heq] at this
    exact absurd this (by decide)
  have hfull : RT_MAX_LEN < t.len := by
    rw [UInt32.lt_iff_toNat_lt, hlen]
    decide
  have hstep : step 250 t (.add true 0 1025 0 0 1) = some _ := rfl
  have hnot := (@counted_add_iff 250 t (hlen.trans hlist.symm) true 0 1025 0 0 1).mp
    (h 250 _ _ (hr.append (Run.single trivial hstep)))
  exact hnot rfl hnew hfull

end GeoSvr.CpcRt
