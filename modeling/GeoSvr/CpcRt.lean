import GeoSvr.CpcKernel
import GeoSvr.KeyedList

/-! # The routing table of the CPC kernel module (`cpc_rt.c`, `cpc_netlink.c`)

The entries stand in a list in the order of `expires`, `rt_len` counts them, and `rt_timer` is set
for the first.  Times are `unsigned long`, with 64 bits; `HZ` is the kernel's, and a call has the
value of `jiffies` that it reads.  An entry is found by its `daddr`, and the one that is found is
the first in the list exactly when the first has that `daddr` (`listIsFirst`).

`timer` is the expiry of `rt_timer` if it is pending.  `cpc_rt_timeout` is called by the timer,
which is not pending any more then. -/

namespace GeoSvr.CpcRt

open KeyedList

/-- `struct rt_entry`. -/
structure RtEntry where
  expires : UInt64
  daddr : UInt32
  nhop : UInt32
  ifindex : ℤ
deriving DecidableEq

/-- `rt_head`, `rt_len` and `rt_timer`. -/
structure Table where
  list : List RtEntry
  len : UInt32
  timer : Option UInt64
deriving DecidableEq

def RT_MAX_LEN : UInt32 := 1024

def ENOSPC : ℤ := 28
def ENOMEM : ℤ := 12
def EINVAL : ℤ := 22

/-- `cpc_rt_init`. -/
def Table.init : Table := ⟨[], 0, none⟩

/-- The entry is the one for `daddr`. -/
def isFor (daddr : UInt32) (rt : RtEntry) : Bool := rt.daddr == daddr

/-! ### The operations on the list -/

/-- `mod_timer`, or `add_timer` for a timer that is not pending. -/
def modTimer (expires : UInt64) (t : Table) : Table := { t with timer := some expires }

/-- `__cpc_rt_set_next_timeout`. -/
def cpcRtSetNextTimeout (t : Table) : Table :=
  match t.list with
  | [] => t
  | rt :: _ => modTimer rt.expires t

/-- The loop of `__cpc_rt_add`: in front of the first entry that expires later, or at the end. -/
def insertByExpires (rt : RtEntry) (list : List RtEntry) : List RtEntry :=
  list.orderedInsert (fun rt curr => rt.expires < curr.expires) rt

/-- `__cpc_rt_add`. -/
def rtAdd (rt : RtEntry) (t : Table) : ℤ × Table :=
  if RT_MAX_LEN < t.len then (-ENOSPC, t) else (1, { t with list := insertByExpires rt t.list })

/-- `__cpc_rt_find`. -/
def rtFind (daddr : UInt32) (t : Table) : Option RtEntry := t.list.find? (isFor daddr)

/-- `list_del` of the entry that is found. -/
def unlink (daddr : UInt32) (t : Table) : Table := { t with list := t.list.eraseP (isFor daddr) }

/-- `list_is_first`. -/
def listIsFirst (daddr : UInt32) (t : Table) : Bool := t.list.head?.any (isFor daddr)

/-- `__cpc_rt_del` of the entry that is found. -/
def rtDel (daddr : UInt32) (t : Table) : ℤ × Table :=
  let t :=
    if listIsFirst daddr t then
      match (unlink daddr t).list with
      | [] => unlink daddr t
      | next :: _ => modTimer next.expires (unlink daddr t)
    else unlink daddr t
  (1, { t with len := t.len - 1 })

/-! ### The calls -/

section calls

variable (HZ : UInt64)

/-- `jiffies + (time * HZ) / 1000`. -/
def expiry (jiffies time : UInt64) : UInt64 := jiffies + time * HZ / 1000

/-- The entry that `cpc_rt_add` fills. -/
def newEntry (jiffies : UInt64) (daddr nhop : UInt32) (time : UInt64) (ifindex : ℤ) : RtEntry :=
  ⟨expiry HZ jiffies time, daddr, nhop, ifindex⟩

/-- `cpc_rt_get`, and the entry that it copies. -/
def cpcRtGet (daddr : UInt32) (t : Table) : ℤ × Option RtEntry :=
  match rtFind daddr t with
  | some tmp => (1, some tmp)
  | none => (0, none)

/-- `cpc_rt_del`. -/
def cpcRtDel (daddr : UInt32) (t : Table) : ℤ × Table :=
  match rtFind daddr t with
  | none => (0, t)
  | some _ => rtDel daddr t

/-- `cpc_rt_add`; `granted`: `kmalloc` succeeds.  The status of `__cpc_rt_add` is not 0 when it
fails. -/
def cpcRtAdd (granted : Bool) (jiffies : UInt64) (daddr nhop : UInt32) (time : UInt64) (ifindex : ℤ)
    (t : Table) : ℤ × Table :=
  if (cpcRtGet daddr t).1 ≠ 0 then (0, t)
  else if granted = false then (-ENOMEM, t)
  else
    let rt := newEntry HZ jiffies daddr nhop time ifindex
    let (status, t) := rtAdd rt t
    let t := if status ≠ 0 then { t with len := t.len + 1 } else t
    let t := if status ≠ 0 ∧ listIsFirst daddr t = true then modTimer rt.expires t else t
    (status, t)

/-- `cpc_rt_update`. -/
def cpcRtUpdate (jiffies : UInt64) (daddr nhop : UInt32) (time : UInt64) (ifindex : ℤ) (t : Table) :
    ℤ × Table :=
  match rtFind daddr t with
  | none => (-1, t)
  | some rt =>
      let rt := { rt with nhop := nhop, ifindex := ifindex, expires := expiry HZ jiffies time }
      (0, cpcRtSetNextTimeout (rtAdd rt (unlink daddr t)).2)

/-- `int time = jiffies`, as it is compared with an `unsigned long`. -/
def narrowed (jiffies : UInt64) : UInt64 := jiffies.toUInt32.toInt32.toInt64.toUInt64

/-- The loop of `cpc_rt_timeout`: the list and `rt_len` afterwards. -/
def timeoutLoop (time : UInt64) : List RtEntry → UInt32 → List RtEntry × UInt32
  | [], len => ([], len)
  | rt :: list, len => if time < rt.expires then (rt :: list, len) else timeoutLoop time list (len - 1)

/-- `cpc_rt_timeout`, called by the timer. -/
def cpcRtTimeout (jiffies : UInt64) (t : Table) : Table :=
  let (list, len) := timeoutLoop (narrowed jiffies) t.list t.len
  cpcRtSetNextTimeout ⟨list, len, none⟩

/-- The loop of `__cpc_rt_flush`. -/
def flushLoop : List RtEntry → UInt32 → UInt32
  | [], len => len
  | _ :: list, len => flushLoop list (len - 1)

/-- `cpc_rt_flush`. -/
def cpcRtFlush (t : Table) : Table := ⟨[], flushLoop t.list t.len, none⟩

/-! ### The messages of the daemon -/

/-- `struct cpc_rt_msg`, as far as a message of the daemon is read. -/
structure RtMsg where
  dst : UInt32
  nhop : UInt32
  ifindex : ℤ
  time : Int64

/-- A message, by `nlmsg_type`. -/
inductive Message
  | routeAdd (m : RtMsg)
  | routeDel (m : RtMsg)
  | norouteFound (m : RtMsg)
  | sendQueue (m : RtMsg)
  | dropQueue (m : RtMsg)
  | sendWithData (dst : UInt32)
  | unknown

/-- `sizeof(struct cpc_rt_msg)` and `sizeof(struct cpc_stateless_msg)`. -/
def rtMsgSize : ℕ := 32
def statelessMsgSize : ℕ := 16

/-- What is called on the queue. -/
inductive QueueCall
  | setVerdict (verdict : Cpc.Verdict) (daddr : UInt32)
  | sendWithData (daddr : UInt32)

/-- What `cpc_netlink_receive_peer` returns, leaves behind, and calls on the queue. -/
structure Received where
  ret : ℤ
  table : Table
  queue : Option QueueCall

/-- `cpc_netlink_receive_peer`, of a message with `len` bytes. -/
def cpcNetlinkReceivePeer (granted : Bool) (jiffies : UInt64) (len : ℕ) (t : Table) :
    Message → Received
  | .routeAdd m =>
      if len < rtMsgSize then ⟨-EINVAL, t, none⟩
      else
        let ret := (cpcRtGet m.dst t).1
        let (ret, t) :=
          if ret < 0 then cpcRtUpdate HZ jiffies m.dst m.nhop m.time.toUInt64 m.ifindex t
          else cpcRtAdd HZ granted jiffies m.dst m.nhop m.time.toUInt64 m.ifindex t
        ⟨ret, t, some (.setVerdict .send m.dst)⟩
  | .routeDel m =>
      if len < rtMsgSize then ⟨-EINVAL, t, none⟩
      else ⟨0, (cpcRtDel m.dst t).2, some (.setVerdict .drop m.dst)⟩
  | .norouteFound m | .dropQueue m =>
      if len < rtMsgSize then ⟨-EINVAL, t, none⟩ else ⟨0, t, some (.setVerdict .drop m.dst)⟩
  | .sendQueue m =>
      if len < rtMsgSize then ⟨-EINVAL, t, none⟩ else ⟨0, t, some (.setVerdict .send m.dst)⟩
  | .sendWithData dst =>
      if len < statelessMsgSize then ⟨-EINVAL, t, none⟩ else ⟨0, t, some (.sendWithData dst)⟩
  | .unknown => ⟨-EINVAL, t, none⟩

/-- The message of `nl_send_add_route_msg`. -/
def nlSendAddRouteMsg (dest nextHop lifetime : UInt32) (ifindex : ℤ) : Message :=
  .routeAdd ⟨dest, nextHop, ifindex, lifetime.toUInt64.toInt64⟩

/-- `cpc_rt_add_linux`. -/
def cpcRtAddLinux (dst next : UInt32) (ifindex : ℤ) : Message :=
  nlSendAddRouteMsg dst next 1000 ifindex

/-- `cpc_rt_update_linux`. -/
def cpcRtUpdateLinux (dst next : UInt32) (ifindex : ℤ) : Message :=
  nlSendAddRouteMsg dst next 1000 ifindex

end calls

/-! ### The list -/

theorem rtFind_eq_none {daddr : UInt32} {t : Table} :
    rtFind daddr t = none ↔ ∀ rt ∈ t.list, isFor daddr rt = false := by
  rw [rtFind, List.find?_eq_none]
  simp only [Bool.not_eq_true]

theorem rtFind_eq_some {daddr : UInt32} {t : Table} {rt : RtEntry} (h : rtFind daddr t = some rt) :
    rt ∈ t.list ∧ rt.daddr = daddr :=
  ⟨List.mem_of_find?_eq_some h, eq_of_beq (@List.find?_some _ (isFor daddr) _ _ h)⟩

/-- The entry that is found is the first of those for `daddr`. -/
theorem head?_filter_isFor (daddr : UInt32) (t : Table) :
    (t.list.filter (isFor daddr)).head? = rtFind daddr t := List.head?_filter

@[simp] theorem cpcRtSetNextTimeout_list (t : Table) : (cpcRtSetNextTimeout t).list = t.list := by
  unfold cpcRtSetNextTimeout
  split <;> rfl

@[simp] theorem cpcRtSetNextTimeout_len (t : Table) : (cpcRtSetNextTimeout t).len = t.len := by
  unfold cpcRtSetNextTimeout
  split <;> rfl

/-- The timer is set for the first entry. -/
def TimerSet (t : Table) : Prop := ∀ rt ∈ t.list.head?, t.timer = some rt.expires

theorem timerSet_setNextTimeout (t : Table) : TimerSet (cpcRtSetNextTimeout t) := by
  unfold TimerSet
  rw [cpcRtSetNextTimeout_list]
  intro rt hrt
  unfold cpcRtSetNextTimeout
  cases hl : t.list with
  | nil =>
      rw [hl] at hrt
      cases hrt
  | cons rt' list =>
      rw [hl] at hrt
      cases hrt
      rfl

theorem cpcRtGet_none {daddr : UInt32} {t : Table} (h : rtFind daddr t = none) :
    cpcRtGet daddr t = (0, none) := by rw [cpcRtGet, h]

theorem cpcRtGet_some {daddr : UInt32} {t : Table} {rt : RtEntry} (h : rtFind daddr t = some rt) :
    cpcRtGet daddr t = (1, some rt) := by rw [cpcRtGet, h]

theorem rtAdd_of_full {t : Table} (hfull : RT_MAX_LEN < t.len) (rt : RtEntry) :
    rtAdd rt t = (-ENOSPC, t) := if_pos hfull

theorem rtAdd_of_space {t : Table} (hspace : ¬ RT_MAX_LEN < t.len) (rt : RtEntry) :
    rtAdd rt t = (1, { t with list := insertByExpires rt t.list }) := if_neg hspace

/-- `__cpc_rt_del` takes the entry out of the list and the count. -/
theorem rtDel_list (daddr : UInt32) (t : Table) :
    (rtDel daddr t).2.list = t.list.eraseP (isFor daddr) ∧ (rtDel daddr t).2.len = t.len - 1 := by
  unfold rtDel
  simp only
  split_ifs
  · split <;> exact ⟨rfl, rfl⟩
  · exact ⟨rfl, rfl⟩

/-- The loop of `cpc_rt_timeout` stops at the first entry that has not expired. -/
theorem timeoutLoop_list (time : UInt64) : ∀ (list : List RtEntry) (len : UInt32),
    (timeoutLoop time list len).1 = list.dropWhile (fun rt => !decide (time < rt.expires))
  | [], _ => rfl
  | rt :: list, len => by
      rw [timeoutLoop]
      split_ifs with h
      · rw [List.dropWhile_cons_of_neg (by simpa using h)]
      · rw [List.dropWhile_cons_of_pos (by simpa using h), timeoutLoop_list time list]

@[simp] theorem cpcRtTimeout_list (jiffies : UInt64) (t : Table) : (cpcRtTimeout jiffies t).list =
    t.list.dropWhile (fun rt => !decide (narrowed jiffies < rt.expires)) := by
  rw [cpcRtTimeout, cpcRtSetNextTimeout_list, timeoutLoop_list]

/-! ### What a call does -/

section calls

variable {HZ : UInt64} {granted : Bool} {jiffies : UInt64} {daddr nhop : UInt32} {time : UInt64}
  {ifindex : ℤ} {t : Table}

/-- An address that has an entry is not added again. -/
theorem cpcRtAdd_of_found {rt : RtEntry} (h : rtFind daddr t = some rt) :
    cpcRtAdd HZ granted jiffies daddr nhop time ifindex t = (0, t) := by
  rw [cpcRtAdd, cpcRtGet_some h]
  rfl

theorem cpcRtAdd_of_refused (h : rtFind daddr t = none) :
    cpcRtAdd HZ false jiffies daddr nhop time ifindex t = (-ENOMEM, t) := by
  rw [cpcRtAdd, cpcRtGet_none h]
  rfl

/-- A full table counts the entry that it has no space for. -/
theorem cpcRtAdd_of_full (h : rtFind daddr t = none) (hfull : RT_MAX_LEN < t.len) :
    cpcRtAdd HZ true jiffies daddr nhop time ifindex t = (-ENOSPC, { t with len := t.len + 1 }) := by
  have hfirst : listIsFirst daddr { t with len := t.len + 1 } = false := by
    unfold listIsFirst
    cases hl : t.list with
    | nil => rfl
    | cons rt list => exact rtFind_eq_none.mp h rt (hl ▸ List.mem_cons_self)
  have hstatus : (-ENOSPC : ℤ) ≠ 0 := by decide
  simp only [cpcRtAdd, cpcRtGet_none h, rtAdd_of_full hfull, hfirst, hstatus, ne_eq, not_true_eq_false,
    if_false, reduceCtorEq, not_false_eq_true, if_true, Bool.false_eq_true, and_false]

/-- A table with space takes the entry, and is set for it if it is the first. -/
theorem cpcRtAdd_of_space (h : rtFind daddr t = none) (hspace : ¬ RT_MAX_LEN < t.len) :
    let rt := newEntry HZ jiffies daddr nhop time ifindex
    let t' : Table := { t with list := insertByExpires rt t.list, len := t.len + 1 }
    cpcRtAdd HZ true jiffies daddr nhop time ifindex t =
      (1, if listIsFirst daddr t' then modTimer rt.expires t' else t') := by
  simp only [cpcRtAdd, cpcRtGet_none h, rtAdd_of_space hspace, ne_eq, not_true_eq_false, if_false,
    reduceCtorEq, one_ne_zero, not_false_eq_true, if_true, true_and]

theorem cpcRtUpdate_of_not_found (h : rtFind daddr t = none) :
    cpcRtUpdate HZ jiffies daddr nhop time ifindex t = (-1, t) := by rw [cpcRtUpdate, h]

/-- An update in a full table loses the entry. -/
theorem cpcRtUpdate_of_full {rt : RtEntry} (h : rtFind daddr t = some rt)
    (hfull : RT_MAX_LEN < t.len) :
    cpcRtUpdate HZ jiffies daddr nhop time ifindex t =
      (0, cpcRtSetNextTimeout (unlink daddr t)) := by
  have hadd := @rtAdd_of_full (unlink daddr t) hfull
    (newEntry HZ jiffies rt.daddr nhop time ifindex)
  rw [cpcRtUpdate, h]
  exact congrArg (fun p : ℤ × Table => ((0 : ℤ), cpcRtSetNextTimeout p.2)) hadd

theorem cpcRtUpdate_of_space {rt : RtEntry} (h : rtFind daddr t = some rt)
    (hspace : ¬ RT_MAX_LEN < t.len) :
    cpcRtUpdate HZ jiffies daddr nhop time ifindex t =
      (0, cpcRtSetNextTimeout { t with
        list := insertByExpires (newEntry HZ jiffies daddr nhop time ifindex)
          (t.list.eraseP (isFor daddr)) }) := by
  obtain ⟨-, rfl⟩ := rtFind_eq_some h
  have hadd := @rtAdd_of_space (unlink rt.daddr t) hspace
    (newEntry HZ jiffies rt.daddr nhop time ifindex)
  rw [cpcRtUpdate, h]
  exact congrArg (fun p : ℤ × Table => ((0 : ℤ), cpcRtSetNextTimeout p.2)) hadd

end calls

end GeoSvr.CpcRt
