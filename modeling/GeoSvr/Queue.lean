import GeoSvr.Ipenc

/-! # The packet queue (`geosvr_queue.c`)

Captured packets wait in a list of at most `queue_maxlen` entries until the daemon answers.
`list_add` puts an entry at the head and `list_for_each_prev` searches from the tail, so that of
several matching entries the oldest is found.  An entry holds the `sk_buff` and the function
that passes it on; a search compares the destination address and nothing else.

What happens to packets is recorded as `Effect`s, in order.  The loops of `geosvr_queue_send_pkt`
and `geosvr_queue_drop_pkt` release the lock between two entries, so their bodies are functions
of their own (`sendEntry`, `dropEntry`) and the loops are runs of the module. -/

namespace GeoSvr.Kernel

/-- `int (*okfn)(struct sk_buff *)`, by its identity. -/
abbrev Okfn := ℕ

/-- `struct queue_entry`. -/
structure QueueEntry where
  skb : SkBuff
  okfn : Okfn

/-- `queue_list`, from the head, and `queue_total`. -/
structure Queue where
  list : List QueueEntry
  total : ℕ

/-- What the module does to a packet. -/
inductive Effect
  | okfn (f : Okfn) (skb : SkBuff)
  | nfForward (skb : SkBuff)
  | icmpSend (skb : SkBuff)
  | kfree (skb : SkBuff)

/-- What the kernel decides while a packet is released. -/
structure Release where
  granted : Bool
  lookup : UInt32 → Option Rtable
  ident : UInt16

/-- `GEOSVR_QUEUE_MAX_DEFAULT`. -/
def queueMaxlen : ℕ := 1024

def ENOMEM : ℤ := 12
def ENOSPC : ℤ := 28

/-- `__geosvr_queue_enqueue_entry`. -/
def enqueueEntry (e : QueueEntry) (q : Queue) : ℤ × Queue :=
  if queueMaxlen ≤ q.total then (-ENOSPC, q) else (0, ⟨e :: q.list, q.total + 1⟩)

/-- `geosvr_queue_enqueue_packet`. -/
def geosvrQueueEnqueuePacket (granted : Bool) (skb : SkBuff) (okfn : Okfn) (q : Queue) :
    ℤ × Queue :=
  if granted then enqueueEntry ⟨skb, okfn⟩ q else (-ENOMEM, q)

/-- `list_for_each_prev` with `list_del` of the entry found. -/
def findDel (cmp : QueueEntry → Bool) : List QueueEntry → Option (QueueEntry × List QueueEntry)
  | [] => none
  | e :: es =>
      match findDel cmp es with
      | some (x, rest) => some (x, e :: rest)
      | none => if cmp e then some (e, es) else none

/-- `__geosvr_queue_find_dequeue_entry`. -/
def findDequeueEntry (cmp : QueueEntry → Bool) (q : Queue) : Option (QueueEntry × Queue) :=
  match findDel cmp q.list with
  | none => none
  | some (e, rest) => some (e, ⟨rest, q.total - 1⟩)

/-- `dest_cmp`. -/
def destCmp (dst : UInt32) (e : QueueEntry) : Bool := daddr e.skb.mem e.skb.networkHeader == dst

/-- `geosvr_queue_flush`: entries leave from the tail. -/
def geosvrQueueFlush (q : Queue) : List Effect × Queue :=
  (q.list.reverse.map (fun e => .kfree e.skb.kfreeSkb), ⟨[], q.total - q.list.length⟩)

/-- The loop body of `geosvr_queue_send_pkt`. -/
def sendEntry (k : Release) (msg : NlMsg) (e : QueueEntry) : List Effect :=
  if msg.routeLen = 0 then
    if msg.reqType = GEOSVR_NL_MSG_REQ_SEND then [.okfn e.okfn e.skb]
    else
      match geosvrIpForward k.lookup k.ident e.skb msg with
      | (0, skb) => [.nfForward skb]
      | _ => []
  else
    let (res, skb) := geosvrIpEncapsulate k.granted k.lookup e.skb msg
    if res < 0 then [.kfree skb.kfreeSkb] else [.okfn e.okfn skb]

/-- `sendEntry` calls `geosvr_ip_forward`, which finds no route. -/
def forwardFails (k : Release) (msg : NlMsg) : Bool :=
  decide (msg.routeLen = 0) && decide (msg.reqType ≠ GEOSVR_NL_MSG_REQ_SEND) &&
    (k.lookup msg.nhop).isNone

/-- The loop body of `geosvr_queue_drop_pkt`. -/
def dropEntry (e : QueueEntry) : List Effect := [.icmpSend e.skb, .kfree e.skb.kfreeSkb]

/-! ### The list -/

theorem findDel_none {cmp : QueueEntry → Bool} :
    ∀ {l : List QueueEntry}, findDel cmp l = none ↔ ∀ e ∈ l, cmp e = false
  | [] => by simp [findDel]
  | e :: es => by
      have ih := @findDel_none cmp es
      unfold findDel
      cases h : findDel cmp es with
      | none =>
          have hes := ih.mp h
          cases hc : cmp e with
          | true => simp [hc]
          | false => simpa [hc] using hes
      | some p =>
          have hes : ¬ ∀ e ∈ es, cmp e = false := fun hall => by
            rw [ih.mpr hall] at h
            cases h
          simp only [List.forall_mem_cons]
          exact iff_of_false (by simp) (fun hall => hes hall.2)

/-- The entry found matches, no later one in the list does, and the others stay in order. -/
theorem findDel_some {cmp : QueueEntry → Bool} :
    ∀ {l : List QueueEntry} {e : QueueEntry} {rest : List QueueEntry},
      findDel cmp l = some (e, rest) →
      cmp e = true ∧ ∃ l₁ l₂, l = l₁ ++ e :: l₂ ∧ rest = l₁ ++ l₂ ∧ ∀ x ∈ l₂, cmp x = false
  | [], e, rest, h => by cases h
  | a :: es, e, rest, h => by
      unfold findDel at h
      cases hes : findDel cmp es with
      | some p =>
          rw [hes] at h
          obtain ⟨hc, l₁, l₂, rfl, hrest, hl₂⟩ := @findDel_some cmp es p.1 p.2 hes
          cases h
          exact ⟨hc, a :: l₁, l₂, rfl, by rw [hrest]; rfl, hl₂⟩
      | none =>
          rw [hes] at h
          simp only at h
          split_ifs at h with hc
          cases h
          exact ⟨hc, [], es, rfl, rfl, findDel_none.mp hes⟩

theorem findDel_mem {cmp : QueueEntry → Bool} {l rest : List QueueEntry} {e : QueueEntry}
    (h : findDel cmp l = some (e, rest)) : e ∈ l := by
  obtain ⟨-, l₁, l₂, rfl, -, -⟩ := findDel_some h
  simp

theorem findDel_subset {cmp : QueueEntry → Bool} {l rest : List QueueEntry} {e : QueueEntry}
    (h : findDel cmp l = some (e, rest)) : rest ⊆ l := by
  obtain ⟨-, l₁, l₂, rfl, rfl, -⟩ := findDel_some h
  intro x hx
  simp only [List.mem_append, List.mem_cons] at hx ⊢
  tauto

theorem findDequeueEntry_some {cmp : QueueEntry → Bool} {q q' : Queue} {e : QueueEntry}
    (h : findDequeueEntry cmp q = some (e, q')) :
    findDel cmp q.list = some (e, q'.list) ∧ q'.total = q.total - 1 := by
  unfold findDequeueEntry at h
  cases hl : findDel cmp q.list with
  | none => rw [hl] at h; cases h
  | some p =>
      rw [hl] at h
      cases h
      exact ⟨rfl, rfl⟩

/-- Enqueuing succeeds when the entry can be allocated and the queue is not full. -/
theorem enqueuePacket_cases (granted : Bool) (skb : SkBuff) (okfn : Okfn) (q : Queue) :
    (granted = true ∧ q.total < queueMaxlen ∧
      geosvrQueueEnqueuePacket granted skb okfn q = (0, ⟨⟨skb, okfn⟩ :: q.list, q.total + 1⟩)) ∨
    (¬ (granted = true ∧ q.total < queueMaxlen) ∧
      (geosvrQueueEnqueuePacket granted skb okfn q).2 = q) := by
  unfold geosvrQueueEnqueuePacket enqueueEntry
  cases granted with
  | false => exact Or.inr ⟨by simp, rfl⟩
  | true =>
      by_cases h : queueMaxlen ≤ q.total
      · exact Or.inr ⟨by omega, by simp [h]⟩
      · exact Or.inl ⟨rfl, by omega, by simp [h]⟩

/-- `queue_total` counts the entries and never exceeds the limit. -/
def Queue.Counted (q : Queue) : Prop := q.total = q.list.length ∧ q.total ≤ queueMaxlen

theorem Queue.Counted.enqueue {q : Queue} (h : q.Counted) (granted : Bool) (skb : SkBuff)
    (okfn : Okfn) : (geosvrQueueEnqueuePacket granted skb okfn q).2.Counted := by
  obtain ⟨hlen, hmax⟩ := h
  obtain ⟨-, hlt, he⟩ | ⟨-, he⟩ := enqueuePacket_cases granted skb okfn q
  · rw [he]
    exact ⟨by simp [hlen], by simp only; omega⟩
  · rw [he]
    exact ⟨hlen, hmax⟩

theorem Queue.Counted.dequeue {q q' : Queue} (h : q.Counted) {cmp : QueueEntry → Bool}
    {e : QueueEntry} (hd : findDequeueEntry cmp q = some (e, q')) : q'.Counted := by
  obtain ⟨hlen, hmax⟩ := h
  obtain ⟨hl, htot⟩ := findDequeueEntry_some hd
  obtain ⟨-, l₁, l₂, hq, hq', -⟩ := findDel_some hl
  have := congrArg List.length hq
  have := congrArg List.length hq'
  simp only [List.length_append, List.length_cons] at *
  exact ⟨by omega, by omega⟩

theorem Queue.Counted.flush {q : Queue} (h : q.Counted) : (geosvrQueueFlush q).2.Counted := by
  obtain ⟨hlen, hmax⟩ := h
  exact ⟨by simp [geosvrQueueFlush, hlen], by simp [geosvrQueueFlush, hlen]⟩

/-! ### What a release does to the packet -/

/-- The packet leaves the module: it is handed on or freed. -/
def Effect.handsOn (id : ℕ) : Effect → Bool
  | .okfn _ skb => skb.id == id
  | .nfForward skb => skb.id == id
  | _ => false

def Effect.frees (id : ℕ) : Effect → Bool
  | .kfree skb => skb.id == id
  | _ => false

theorem encapsulate_id (granted : Bool) (lookup : UInt32 → Option Rtable) (skb : SkBuff)
    (msg : NlMsg) : (geosvrIpEncapsulate granted lookup skb msg).2.id = skb.id := by
  unfold geosvrIpEncapsulate
  split_ifs with h
  · rfl
  · cases hc : skb.cow granted ((geosvrHdrSize + msg.routeLen.toNat) % 2 ^ 32) with
    | none => simp only [hc]
    | some skb' =>
        cases hl : lookup msg.nhop with
        | none => simpa only [hc, hl, SkBuff.resetNetworkHeader_id, SkBuff.push_id] using
            SkBuff.cow_id hc
        | some rt => simpa only [hc, hl, SkBuff.setDst_id, SkBuff.resetNetworkHeader_id,
            SkBuff.push_id] using SkBuff.cow_id hc

/-- A release hands the packet on or frees it, once; but when `geosvr_ip_forward` finds no route
it does neither. -/
theorem sendEntry_counts (k : Release) (msg : NlMsg) (e : QueueEntry) (id : ℕ) :
    (sendEntry k msg e).countP (Effect.handsOn id) + (sendEntry k msg e).countP (Effect.frees id) =
      if e.skb.id = id ∧ forwardFails k msg = false then 1 else 0 := by
  unfold forwardFails
  by_cases hlen : msg.routeLen = 0
  · by_cases hreq : msg.reqType = GEOSVR_NL_MSG_REQ_SEND
    · simp [sendEntry, hlen, hreq, Effect.handsOn, Effect.frees, List.countP_cons]
    · cases hl : k.lookup msg.nhop with
      | none => simp [sendEntry, hlen, hreq, geosvrIpForward, hl]
      | some rt =>
          simp [sendEntry, hlen, hreq, geosvrIpForward, hl, SkBuff.setDst, Effect.handsOn,
            Effect.frees, List.countP_cons]
  · have hid := encapsulate_id k.granted k.lookup e.skb msg
    simp only [sendEntry, hlen, if_false, decide_false, Bool.false_and, and_true]
    split_ifs with hres he <;>
      simp_all [Effect.handsOn, Effect.frees]

theorem dropEntry_counts (e : QueueEntry) (id : ℕ) :
    (dropEntry e).countP (Effect.handsOn id) + (dropEntry e).countP (Effect.frees id) =
      if e.skb.id = id then 1 else 0 := by
  simp [dropEntry, Effect.handsOn, Effect.frees, SkBuff.kfreeSkb, List.countP_cons]

end GeoSvr.Kernel
