import GeoSvr.CpcRtRuns

/-! # When routes of the CPC kernel module expire (`cpc_rt.c`)

`cpc_rt_timeout` keeps `jiffies` in an `int`.  The comparison with `expires` makes an `unsigned long`
of it again, with the sign in the upper half: of a counter whose low word is below 2^31 only the low
word is left, and of any other one a number close to 2^64 (`narrowed_toNat`).

So entries that have expired stay in the first case, and entries that have not expired go in the
second.  The timeout is right exactly when there are no such entries (`timeoutRight_iff`), as long
as the counter is below 2^31 for every table (`timeoutRight_of_lt`). -/

namespace GeoSvr.CpcRt

open KeyedList

/-! ### The narrowed time -/

theorem narrowed_toNat (jiffies : UInt64) :
    (narrowed jiffies).toNat =
      if jiffies.toNat % 2 ^ 32 < 2 ^ 31 then jiffies.toNat % 2 ^ 32
      else 2 ^ 64 - 2 ^ 32 + jiffies.toNat % 2 ^ 32 := by
  have hbits : (narrowed jiffies).toBitVec = (jiffies.toBitVec.setWidth 32).signExtend 64 := rfl
  have hmsb : (jiffies.toBitVec.setWidth 32).msb = decide (2 ^ 31 ≤ jiffies.toNat % 2 ^ 32) := by
    rw [BitVec.msb_eq_decide, BitVec.toNat_setWidth]
    rfl
  have hlow : ((jiffies.toBitVec.setWidth 32).setWidth 64).toNat = jiffies.toNat % 2 ^ 32 := by
    rw [BitVec.toNat_setWidth, BitVec.toNat_setWidth]
    show jiffies.toNat % 2 ^ 32 % 2 ^ 64 = jiffies.toNat % 2 ^ 32
    omega
  show (narrowed jiffies).toBitVec.toNat = _
  rw [hbits, BitVec.toNat_signExtend, hmsb, hlow]
  by_cases h : jiffies.toNat % 2 ^ 32 < 2 ^ 31
  · rw [if_pos h, if_neg (by simpa using h)]
    rfl
  · rw [if_neg h, if_pos (by simpa using h)]
    omega

/-! ### The timeout -/

/-- `cpc_rt_timeout` removes the entries that have expired, and keeps the others in order. -/
def TimeoutRight (jiffies : UInt64) (t : Table) : Prop :=
  (cpcRtTimeout jiffies t).list = t.list.filter (fun rt => jiffies < rt.expires)

/-- In a sorted table the loop selects the entries that are later than the narrowed time. -/
theorem cpcRtTimeout_filter {t : Table} (h : t.list.Pairwise (fun a b => a.expires ≤ b.expires))
    (jiffies : UInt64) :
    (cpcRtTimeout jiffies t).list = t.list.filter (fun rt => narrowed jiffies < rt.expires) := by
  rw [cpcRtTimeout_list, dropWhile_eq_filter]
  · simp only [Bool.not_not]
  · refine h.imp (fun {a b} hle hb => ?_)
    simp only [Bool.not_eq_true', decide_eq_false_iff_not, UInt64.not_lt] at hb ⊢
    exact UInt64.le_trans hle hb

/-- The entry is on the same side of the counter and of its narrowed value: it is not between the
low word and the counter, or not between the counter and the low word with its sign. -/
def SameSide (jiffies : UInt64) (rt : RtEntry) : Prop :=
  if jiffies.toNat % 2 ^ 32 < 2 ^ 31 then
    ¬ (jiffies.toNat % 2 ^ 32 < rt.expires.toNat ∧ rt.expires.toNat ≤ jiffies.toNat)
  else
    ¬ (jiffies.toNat < rt.expires.toNat ∧
      rt.expires.toNat ≤ 2 ^ 64 - 2 ^ 32 + jiffies.toNat % 2 ^ 32)

theorem sameSide_iff (jiffies : UInt64) (rt : RtEntry) :
    SameSide jiffies rt ↔ (narrowed jiffies < rt.expires ↔ jiffies < rt.expires) := by
  have hn := narrowed_toNat jiffies
  have hlt := jiffies.toNat_lt
  rw [UInt64.lt_iff_toNat_lt, UInt64.lt_iff_toNat_lt, SameSide]
  split_ifs at hn ⊢ with h
  · rw [hn]
    omega
  · rw [hn]
    omega

/-- **The timeout.**  It is right for a sorted table exactly when every entry is on the same side
of the counter and of its narrowed value. -/
theorem timeoutRight_iff {t : Table} (h : t.list.Pairwise (fun a b => a.expires ≤ b.expires))
    (jiffies : UInt64) : TimeoutRight jiffies t ↔ ∀ rt ∈ t.list, SameSide jiffies rt := by
  rw [TimeoutRight, cpcRtTimeout_filter h, filter_eq_filter_iff]
  simp only [sameSide_iff, decide_eq_decide]

/-- Two entries, of which one has expired. -/
theorem timeoutRight_iff_pair :
    TimeoutRight 300 ⟨[⟨250, 1, 9, 1⟩, ⟨500, 2, 9, 1⟩], 2, none⟩ ↔
      ∀ rt ∈ [(⟨250, 1, 9, 1⟩ : RtEntry), ⟨500, 2, 9, 1⟩], SameSide 300 rt :=
  timeoutRight_iff (t := ⟨[⟨250, 1, 9, 1⟩, ⟨500, 2, 9, 1⟩], 2, none⟩) (by decide) 300

/-- As long as the counter fits in an `int`, the timeout is right. -/
theorem timeoutRight_of_lt {t : Table} (h : t.list.Pairwise (fun a b => a.expires ≤ b.expires))
    {jiffies : UInt64} (hj : jiffies.toNat < 2 ^ 31) : TimeoutRight jiffies t := by
  rw [TimeoutRight, cpcRtTimeout_filter h, filter_eq_filter_iff]
  intro rt _
  rw [decide_eq_decide, ← sameSide_iff, SameSide, if_pos (by omega)]
  omega

/-- When the counter reaches 2^31 all entries go, those that have not expired too. -/
theorem not_timeoutRight_sign :
    ¬ ∀ (t : Table), t.list.Pairwise (fun a b => a.expires ≤ b.expires) →
      ∀ jiffies : UInt64, TimeoutRight jiffies t := by
  intro h
  have hright := h ⟨[⟨0x80000100, 1, 9, 1⟩], 1, none⟩ (by decide) 0x80000000
  exact absurd hright (by unfold TimeoutRight; decide)

/-! ### The table of the module

The model of the module (`CpcKernel`) has a table whose times and counter are natural numbers.  The
calls that it makes do the same there, as long as the counters do not overflow. -/

/-- An entry with its time as a natural number. -/
def RtEntry.coarse (rt : RtEntry) : Cpc.RtEntry := ⟨rt.expires.toNat, rt.daddr, rt.nhop, rt.ifindex⟩

/-- The table without its timer. -/
def Table.coarse (t : Table) : Cpc.RtTable := ⟨t.list.map RtEntry.coarse, t.len.toNat⟩

theorem coarse_get (daddr : UInt32) (t : Table) :
    Cpc.cpcRtGet daddr t.coarse = (rtFind daddr t).isSome := by
  unfold Cpc.cpcRtGet Cpc.rtFind Table.coarse rtFind
  rw [List.find?_map, Option.isSome_map]
  rfl

theorem coarse_insert (rt : RtEntry) : ∀ list : List RtEntry,
    (insertByExpires rt list).map RtEntry.coarse =
      Cpc.insertByExpires rt.coarse (list.map RtEntry.coarse)
  | [] => rfl
  | e :: list => by
      rw [insertByExpires, List.orderedInsert_cons, List.map_cons, Cpc.insertByExpires]
      by_cases hlt : rt.expires < e.expires
      · have hnat : rt.coarse.expires < e.coarse.expires := UInt64.lt_iff_toNat_lt.mp hlt
        rw [if_pos hlt, if_pos hnat]
        rfl
      · have hnat : ¬ rt.coarse.expires < e.coarse.expires :=
          fun h => hlt (UInt64.lt_iff_toNat_lt.mpr h)
        rw [if_neg hlt, if_neg hnat, List.map_cons]
        exact congrArg _ (coarse_insert rt list)

/-- Adding a route. -/
theorem coarse_add {HZ : UInt64} {t : Table} (hlen : t.len.toNat + 1 < 2 ^ 32) (granted : Bool)
    (jiffies : UInt64) (daddr nhop : UInt32) (time : UInt64) (ifindex : ℤ) :
    (cpcRtAdd HZ granted jiffies daddr nhop time ifindex t).2.coarse =
      Cpc.cpcRtAdd granted (newEntry HZ jiffies daddr nhop time ifindex).coarse t.coarse := by
  have hcount : (t.len + 1).toNat = t.len.toNat + 1 := by
    rw [UInt32.toNat_add]
    exact Nat.mod_eq_of_lt hlen
  have hget := coarse_get daddr t
  have hdaddr : (newEntry HZ jiffies daddr nhop time ifindex).coarse.daddr = daddr := rfl
  cases hf : rtFind daddr t with
  | some rt =>
      rw [cpcRtAdd_of_found hf, Cpc.cpcRtAdd, hdaddr, hget, hf]
      rfl
  | none =>
      cases granted with
      | false =>
          rw [cpcRtAdd_of_refused hf, Cpc.cpcRtAdd, hdaddr, hget, hf]
          rfl
      | true =>
          by_cases hfull : RT_MAX_LEN < t.len
          · have hgt : Cpc.RT_MAX_LEN < t.coarse.len := UInt32.lt_iff_toNat_lt.mp hfull
            rw [cpcRtAdd_of_full hf hfull, Cpc.cpcRtAdd, hdaddr, hget, hf]
            exact (congrArg (Cpc.RtTable.mk _) hcount).trans (if_pos hgt).symm
          · have hle : ¬ Cpc.RT_MAX_LEN < t.coarse.len :=
              fun h => hfull (UInt32.lt_iff_toNat_lt.mpr h)
            have hlist := coarse_insert (newEntry HZ jiffies daddr nhop time ifindex) t.list
            have htable := congrArg₂ Cpc.RtTable.mk hlist hcount
            rw [cpcRtAdd_of_space hf hfull, Cpc.cpcRtAdd, hdaddr, hget, hf]
            simp only
            split
            · exact htable
            · exact htable

/-- The timeout, as long as the counter fits in an `int`. -/
theorem coarse_timeout {t : Table} (h : Counted t) {jiffies : UInt64}
    (hj : jiffies.toNat < 2 ^ 31) :
    (cpcRtTimeout jiffies t).coarse = Cpc.cpcRtTimeout jiffies.toNat t.coarse := by
  have hn : (narrowed jiffies).toNat = jiffies.toNat := by
    rw [narrowed_toNat, if_pos (by omega)]
    omega
  have hlist : (cpcRtTimeout jiffies t).list.map RtEntry.coarse =
      (t.list.map RtEntry.coarse).dropWhile (fun e => e.expires ≤ jiffies.toNat) := by
    rw [cpcRtTimeout_list, List.dropWhile_map]
    refine congrArg (fun p => (t.list.dropWhile p).map RtEntry.coarse) (funext (fun rt => ?_))
    rw [← decide_not]
    refine decide_eq_decide.mpr ?_
    rw [UInt64.lt_iff_toNat_lt, hn]
    exact Nat.not_lt
  have hcount : (cpcRtTimeout jiffies t).len.toNat = (cpcRtTimeout jiffies t).list.length :=
    counted_timeout h jiffies
  have hle : (cpcRtTimeout jiffies t).list.length ≤ t.list.length := by
    rw [cpcRtTimeout_list]
    exact (List.dropWhile_sublist _).length_le
  have hrest := congrArg List.length hlist
  rw [List.length_map] at hrest
  unfold Counted at h
  unfold Cpc.cpcRtTimeout Table.coarse
  simp only
  rw [← hlist, List.length_map, List.length_map, hcount, h]
  congr 1
  omega

end GeoSvr.CpcRt
