import GeoSvr.CpcRtRuns

/-! # Updating a route in the CPC kernel module (`cpc_rt.c`, `cpc_netlink.c`)

`cpc_rt_update` takes the entry out of the list and adds it again, and does not look at what
`__cpc_rt_add` returns: in a full table the entry is lost, and 0 is returned
(`updateRight_iff`).

The daemon's message for a route is to add or to update it.  `cpc_netlink_receive_peer` decides by
`cpc_rt_get`, which returns 1 for a route and 0 for none, and takes a negative result for a route to
be updated.  So it always adds, and adding does nothing for an address that has a route
(`routeAddRight_iff`). -/

namespace GeoSvr.CpcRt

open KeyedList Runs

variable {HZ : UInt64}

/-! ### The call -/

/-- What `cpc_rt_update` is to do with an address that has an entry. -/
def UpdateRight (HZ jiffies : UInt64) (daddr nhop : UInt32) (time : UInt64) (ifindex : ℤ)
    (t : Table) : Prop :=
  let (ret, t') := cpcRtUpdate HZ jiffies daddr nhop time ifindex t
  (t'.list.filter (isFor daddr) = [newEntry HZ jiffies daddr nhop time ifindex] ∧
    t'.list.filter (fun rt => !isFor daddr rt) = t.list.filter (fun rt => !isFor daddr rt)) ∨
  (ret < 0 ∧ t' = t)

/-- The entries for other addresses do not change when the one for `daddr` is removed. -/
theorem filter_not_eraseP (daddr : UInt32) (list : List RtEntry) :
    (list.eraseP (isFor daddr)).filter (fun rt => !isFor daddr rt) =
      list.filter (fun rt => !isFor daddr rt) :=
  eraseP_filter_of_not (fun rt _ h => by rw [h]; rfl)

theorem filter_eraseP_self {list : List RtEntry} (h : Keyed list) (daddr : UInt32) :
    (list.eraseP (isFor daddr)).filter (isFor daddr) = [] := by
  rw [h.eraseP_eq]
  refine List.filter_eq_nil_iff.mpr (fun rt hrt => ?_)
  simpa using (List.mem_filter.mp hrt).2

/-- An update is right exactly when the table is not full. -/
theorem updateRight_iff_not_full {t : Table} (h : Keyed t.list) {daddr : UInt32} {rt : RtEntry}
    (hf : rtFind daddr t = some rt) (jiffies : UInt64) (nhop : UInt32) (time : UInt64)
    (ifindex : ℤ) :
    UpdateRight HZ jiffies daddr nhop time ifindex t ↔ ¬ RT_MAX_LEN < t.len := by
  unfold UpdateRight
  by_cases hfull : RT_MAX_LEN < t.len
  · refine iff_of_false ?_ (fun hnot => hnot hfull)
    rw [cpcRtUpdate_of_full hf hfull]
    simp only [cpcRtSetNextTimeout_list]
    rintro (⟨hone, -⟩ | ⟨hret, -⟩)
    · rw [show (unlink daddr t).list = t.list.eraseP (isFor daddr) from rfl,
        filter_eraseP_self h daddr] at hone
      cases hone
    · omega
  · refine iff_of_true ?_ hfull
    rw [cpcRtUpdate_of_space hf hfull]
    simp only [cpcRtSetNextTimeout_list]
    have hself : isFor daddr (newEntry HZ jiffies daddr nhop time ifindex) = true :=
      beq_self_eq_true daddr
    refine Or.inl ⟨?_, ?_⟩
    · refine filter_orderedInsert_of_new _ hself (fun e he => ?_)
      rw [h.eraseP_eq] at he
      simpa using (List.mem_filter.mp he).2
    · rw [← filter_not_eraseP daddr t.list]
      exact filter_orderedInsert_of_neg _ (by rw [hself]; rfl) _

/-- **Updating.**  In every reachable table the update of an address that has an entry leaves one
entry for it, with the new values, and the others as they were, exactly when `rt_len` is at most
`RT_MAX_LEN`. -/
theorem updateRight_iff {as : List Action} {t : Table} (hr : Run (step HZ) Free Table.init as t)
    {daddr : UInt32} (hmem : ∃ rt ∈ t.list, rt.daddr = daddr) (jiffies : UInt64) (nhop : UInt32)
    (time : UInt64) (ifindex : ℤ) :
    UpdateRight HZ jiffies daddr nhop time ifindex t ↔ t.len ≤ RT_MAX_LEN := by
  obtain ⟨rt, hrt, rfl⟩ := hmem
  cases hf : rtFind rt.daddr t with
  | none => exact absurd (rtFind_eq_none.mp hf rt hrt) (by simp [isFor])
  | some e =>
      rw [updateRight_iff_not_full (ordered_run hr).keyed hf]
      exact UInt32.not_lt

theorem updateRight_iff_twoRoutes : ∃ t : Table, t.list = [⟨1100, 1, 8, 1⟩] ∧
    (UpdateRight 250 700 1 7 4000 2 t ↔ t.len ≤ RT_MAX_LEN) := by
  have hr : Run (step 250) Free Table.init twoRoutes _ := run_of_exec _ rfl
  exact ⟨_, rfl, updateRight_iff hr ⟨_, List.mem_cons_self, rfl⟩ 700 7 4000 2⟩

/-- An update in a table with `RT_MAX_LEN + 1` entries loses the entry. -/
theorem not_updateRight_full :
    ¬ ∀ (HZ : UInt64) (as : List Action) (t : Table) (daddr : UInt32),
      Run (step HZ) Free Table.init as t → (∃ rt ∈ t.list, rt.daddr = daddr) →
        ∀ (jiffies : UInt64) (nhop : UInt32) (time : UInt64) (ifindex : ℤ),
          UpdateRight HZ jiffies daddr nhop time ifindex t := by
  intro h
  obtain ⟨t, hr, hlen, hlist, -⟩ := run_fill 250 1025 le_rfl
  have hfull : RT_MAX_LEN < t.len := by
    rw [UInt32.lt_iff_toNat_lt, hlen]
    decide
  obtain ⟨rt, hrt⟩ := List.exists_mem_of_length_pos (show 0 < t.list.length by omega)
  have hupdate := h 250 _ t rt.daddr hr ⟨rt, hrt, rfl⟩ 0 0 0 1
  cases hf : rtFind rt.daddr t with
  | none => exact absurd (rtFind_eq_none.mp hf rt hrt) (by simp [isFor])
  | some e =>
      exact (updateRight_iff_not_full (ordered_run hr).keyed hf 0 0 0 1).mp hupdate hfull

/-! ### The message -/

/-- What a message for the route to `m.dst` is to do. -/
structure RouteAddRight (HZ : UInt64) (granted : Bool) (jiffies : UInt64) (len : ℕ) (m : RtMsg)
    (t : Table) : Prop where
  get : ∃ rt, cpcRtGet m.dst (cpcNetlinkReceivePeer HZ granted jiffies len t (.routeAdd m)).table =
      (1, some rt) ∧ rt.nhop = m.nhop ∧ rt.ifindex = m.ifindex ∧
        rt.expires = expiry HZ jiffies m.time.toUInt64
  others : (cpcNetlinkReceivePeer HZ granted jiffies len t (.routeAdd m)).table.list.filter
      (fun rt => !isFor m.dst rt) = t.list.filter (fun rt => !isFor m.dst rt)

/-- `cpc_rt_get` is never negative: a message always adds. -/
theorem receivePeer_routeAdd {granted : Bool} {jiffies : UInt64} {len : ℕ} (hlen : rtMsgSize ≤ len)
    (m : RtMsg) (t : Table) :
    (cpcNetlinkReceivePeer HZ granted jiffies len t (.routeAdd m)).table =
      (cpcRtAdd HZ granted jiffies m.dst m.nhop m.time.toUInt64 m.ifindex t).2 := by
  have hget : ¬ (cpcRtGet m.dst t).1 < 0 := by
    unfold cpcRtGet
    split
    · exact (by decide : ¬ (1 : ℤ) < 0)
    · exact (by decide : ¬ (0 : ℤ) < 0)
  rw [cpcNetlinkReceivePeer, if_neg (Nat.not_lt.mpr hlen)]
  simp only [if_neg hget]

/-- The daemon's update of a route that is there has no effect on the table. -/
theorem cpcRtUpdateLinux_ignored {granted : Bool} {jiffies : UInt64} {len : ℕ}
    (hlen : rtMsgSize ≤ len) {dst : UInt32} {t : Table} {rt : RtEntry}
    (hf : rtFind dst t = some rt) (next : UInt32) (ifindex : ℤ) :
    (cpcNetlinkReceivePeer HZ granted jiffies len t (cpcRtUpdateLinux dst next ifindex)).table =
      t := by
  rw [cpcRtUpdateLinux, nlSendAddRouteMsg, receivePeer_routeAdd hlen]
  exact congrArg Prod.snd (cpcRtAdd_of_found hf)

/-- A message that leaves the list is right if the route that is there is the one of the message. -/
theorem routeAddRight_of_list_eq {granted : Bool} {jiffies : UInt64} {len : ℕ} {m : RtMsg}
    {t t' : Table}
    (htable : (cpcNetlinkReceivePeer HZ granted jiffies len t (.routeAdd m)).table = t')
    (hlist : t'.list = t.list) : RouteAddRight HZ granted jiffies len m t ↔
      ∃ rt, rtFind m.dst t = some rt ∧ rt.nhop = m.nhop ∧ rt.ifindex = m.ifindex ∧
        rt.expires = expiry HZ jiffies m.time.toUInt64 := by
  have hfind : rtFind m.dst t' = rtFind m.dst t := by rw [rtFind, rtFind, hlist]
  constructor
  · rintro ⟨⟨rt, hrt, hvals⟩, -⟩
    rw [htable] at hrt
    cases hf : rtFind m.dst t with
    | none =>
        rw [cpcRtGet_none (hfind.trans hf)] at hrt
        cases hrt
    | some e =>
        rw [cpcRtGet_some (hfind.trans hf)] at hrt
        cases hrt
        exact ⟨_, rfl, hvals⟩
  · rintro ⟨rt, hf, hvals⟩
    refine ⟨⟨rt, ?_, hvals⟩, ?_⟩
    · rw [htable, cpcRtGet_some (hfind.trans hf)]
    · rw [htable, hlist]

/-- A message that puts an entry for a new address into the list is right. -/
theorem routeAddRight_of_insert {granted : Bool} {jiffies : UInt64} {len : ℕ} {m : RtMsg} {t : Table}
    (hf : rtFind m.dst t = none)
    (hlist : (cpcNetlinkReceivePeer HZ granted jiffies len t (.routeAdd m)).table.list =
      insertByExpires (newEntry HZ jiffies m.dst m.nhop m.time.toUInt64 m.ifindex) t.list) :
    RouteAddRight HZ granted jiffies len m t := by
  have hself : isFor m.dst (newEntry HZ jiffies m.dst m.nhop m.time.toUInt64 m.ifindex) = true :=
    beq_self_eq_true m.dst
  refine ⟨⟨newEntry HZ jiffies m.dst m.nhop m.time.toUInt64 m.ifindex, cpcRtGet_some ?_, rfl, rfl,
    rfl⟩, ?_⟩
  · rw [← head?_filter_isFor, hlist]
    exact congrArg List.head? (filter_orderedInsert_of_new _ hself (rtFind_eq_none.mp hf))
  · rw [hlist]
    exact filter_orderedInsert_of_neg _ (by rw [hself]; rfl) _

/-- **The message for a route** is right exactly when there is no route yet, and memory and space
for one, or when the route that is there is the one of the message. -/
theorem routeAddRight_iff (HZ : UInt64) (granted : Bool) (jiffies : UInt64) {len : ℕ}
    (hlen : rtMsgSize ≤ len) (m : RtMsg) (t : Table) :
    RouteAddRight HZ granted jiffies len m t ↔
      (rtFind m.dst t = none ∧ granted = true ∧ t.len ≤ RT_MAX_LEN) ∨
      ∃ rt, rtFind m.dst t = some rt ∧ rt.nhop = m.nhop ∧ rt.ifindex = m.ifindex ∧
        rt.expires = expiry HZ jiffies m.time.toUInt64 := by
  have hrec := @receivePeer_routeAdd HZ granted jiffies len hlen m t
  cases hf : rtFind m.dst t with
  | some rt =>
      rw [cpcRtAdd_of_found hf] at hrec
      rw [routeAddRight_of_list_eq hrec rfl, hf]
      simp only [reduceCtorEq, false_and, false_or]
  | none =>
      cases granted with
      | false =>
          rw [cpcRtAdd_of_refused hf] at hrec
          rw [routeAddRight_of_list_eq hrec rfl, hf]
          simp only [Bool.false_eq_true, false_and, and_false, false_or]
      | true =>
          by_cases hfull : RT_MAX_LEN < t.len
          · rw [cpcRtAdd_of_full hf hfull] at hrec
            rw [routeAddRight_of_list_eq hrec rfl, hf]
            simp only [true_and, UInt32.not_le.mpr hfull, false_or]
          · rw [cpcRtAdd_of_space hf hfull] at hrec
            refine iff_of_true (routeAddRight_of_insert hf ?_)
              (Or.inl ⟨rfl, rfl, UInt32.not_lt.mp hfull⟩)
            rw [hrec]
            simp only
            split_ifs <;> rfl

/-- A first message for a route. -/
theorem routeAddRight_iff_first : RouteAddRight 250 true 0 rtMsgSize ⟨1, 9, 1, 1000⟩ Table.init :=
  (routeAddRight_iff 250 true 0 le_rfl ⟨1, 9, 1, 1000⟩ Table.init).mpr
    (Or.inl ⟨rfl, rfl, by decide⟩)

/-- A second message for the route through another hop does not change it. -/
theorem not_routeAddRight_second :
    ¬ ∀ (HZ : UInt64) (as : List Action) (t : Table), Run (step HZ) Free Table.init as t →
      t.len ≤ RT_MAX_LEN → ∀ (jiffies : UInt64) (len : ℕ), rtMsgSize ≤ len →
        ∀ m : RtMsg, RouteAddRight HZ true jiffies len m t := by
  intro h
  have hr : Run (step 250) Free Table.init [.add true 0 1 9 1000 1]
      ⟨[⟨250, 1, 9, 1⟩], 1, some 250⟩ := run_of_exec _ rfl
  obtain ⟨rt, hrt, hnhop, -⟩ := (h 250 _ _ hr (by decide) 0 rtMsgSize le_rfl ⟨1, 8, 1, 1000⟩).get
  rw [receivePeer_routeAdd le_rfl, @cpcRtAdd_of_found _ _ _ _ _ _ _ _ ⟨250, 1, 9, 1⟩ rfl] at hrt
  obtain rfl : (⟨250, 1, 9, 1⟩ : RtEntry) = rt := Option.some.inj (congrArg Prod.snd hrt)
  exact absurd hnhop (by decide)

end GeoSvr.CpcRt
