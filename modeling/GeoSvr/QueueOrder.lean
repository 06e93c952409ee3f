import GeoSvr.Release

/-! # Order and number of the queued packets

The operations on the packet queue interleave freely: enqueuing takes the lock once, a flush keeps
it until the queue is empty, and the loops of `geosvr_queue_send_pkt` and `geosvr_queue_drop_pkt`
take it once for each entry.  `Traffic` is the queue together with the loops under way and, beside
it, all entries that were ever accepted and dequeued, in order.

In every run the accepted entries are those dequeued and those still queued, for each destination
in the order of arrival (`InOrder`).  A loop for a destination to which nothing more is enqueued
ends, and then leaves nothing for it (`loop_ends`). -/

namespace GeoSvr.Kernel

open Runs

/-! ### The flush -/

/-- `__geosvr_queue_flush`, whose loop ends because each iteration takes an entry out. -/
def queueFlushLoop : ℕ → Queue → List QueueEntry × Queue
  | 0, q => ([], q)
  | n + 1, q =>
      match findDequeueEntry (fun _ => true) q with
      | none => ([], q)
      | some (e, q') => (e :: (queueFlushLoop n q').1, (queueFlushLoop n q').2)

theorem findDel_true_append (e : QueueEntry) :
    ∀ l : List QueueEntry, findDel (fun _ => true) (l ++ [e]) = some (e, l)
  | [] => rfl
  | a :: l => by
      have ih := findDel_true_append e l
      rw [List.cons_append, findDel, ih]

/-- The loop empties the queue, from the tail. -/
theorem queueFlushLoop_eq : ∀ (n : ℕ) (q : Queue), q.list.length ≤ n →
    queueFlushLoop n q = (q.list.reverse, ⟨[], q.total - q.list.length⟩)
  | 0, q, h => by
      have hl : q.list = [] := List.length_eq_zero_iff.mp (by omega)
      cases q
      simp_all [queueFlushLoop]
  | n + 1, ⟨l, total⟩, h => by
      cases hl : l.reverse with
      | nil =>
          rw [List.reverse_eq_nil_iff] at hl
          subst hl
          rfl
      | cons e es =>
          have hrev : l = es.reverse ++ [e] := by
            rw [← List.reverse_reverse l, hl, List.reverse_cons]
          subst hrev
          have ih := queueFlushLoop_eq n ⟨es.reverse, total - 1⟩ (by simp at h ⊢; omega)
          simp only [queueFlushLoop, findDequeueEntry, findDel_true_append, ih]
          simp
          omega

/-- `geosvr_queue_flush` frees what the loop takes out. -/
theorem geosvrQueueFlush_loop (q : Queue) :
    geosvrQueueFlush q = ((queueFlushLoop q.list.length q).1.map (fun e => .kfree e.skb.kfreeSkb),
      (queueFlushLoop q.list.length q).2) := by
  rw [queueFlushLoop_eq _ _ le_rfl]
  rfl

/-! ### Interleavings -/

/-- The queue, the loops under way by their tickets, the next ticket, and the entries accepted and
dequeued so far. -/
structure Traffic where
  queue : Queue
  loops : List (ℕ × Response)
  ticket : ℕ
  accepted : List QueueEntry
  dequeued : List QueueEntry

/-- The operations on the queue, each atomic under `queue_lock`. -/
inductive QueueOp
  | enqueue (granted : Bool) (skb : SkBuff) (okfn : Okfn)
  | start (r : Response)
  | iterate (t : ℕ)
  | flush

/-- The queue of a module just loaded. -/
def Traffic.init : Traffic := ⟨⟨[], 0⟩, [], 0, [], []⟩

/-- An iteration of the loop `t` of the response `r`, which ends with the first entry not found. -/
def Traffic.iterated (s : Traffic) (t : ℕ) (r : Response) : Traffic :=
  match findDequeueEntry (destCmp r.dst) s.queue with
  | none => { s with loops := s.loops.filter (fun l => l.1 != t) }
  | some (e, q) => { s with queue := q, dequeued := s.dequeued ++ [e] }

/-- The queue after `geosvr_queue_enqueue_packet`. -/
def Traffic.enqueued (s : Traffic) (granted : Bool) (skb : SkBuff) (okfn : Okfn) : Traffic :=
  let r := geosvrQueueEnqueuePacket granted skb okfn s.queue
  { s with
    queue := r.2
    accepted := if r.1 < 0 then s.accepted else s.accepted ++ [⟨skb, okfn⟩] }

/-- One operation. -/
def Traffic.step (s : Traffic) : QueueOp → Option Traffic
  | .enqueue granted skb okfn => some (s.enqueued granted skb okfn)
  | .start r => some { s with loops := (s.ticket, r) :: s.loops, ticket := s.ticket + 1 }
  | .iterate t =>
      match s.loops.lookup t with
      | none => none
      | some r => some (s.iterated t r)
  | .flush =>
      some { s with
        queue := (queueFlushLoop s.queue.list.length s.queue).2
        dequeued := s.dequeued ++ (queueFlushLoop s.queue.list.length s.queue).1 }

/-- What an operation does: it adds an entry, it takes one out, it takes all out, or it leaves the
entries alone. -/
theorem Traffic.step_cases {s s' : Traffic} {a : QueueOp} (h : s.step a = some s') :
    (∃ g skb f, a = .enqueue g skb f ∧ s' = s.enqueued g skb f) ∨
    (∃ r, a = .start r ∧
      s' = { s with loops := (s.ticket, r) :: s.loops, ticket := s.ticket + 1 }) ∨
    (∃ t r, a = .iterate t ∧ s.loops.lookup t = some r ∧
      findDequeueEntry (destCmp r.dst) s.queue = none ∧
      s' = { s with loops := s.loops.filter (fun l => l.1 != t) }) ∨
    (∃ t r e q, a = .iterate t ∧ s.loops.lookup t = some r ∧
      findDequeueEntry (destCmp r.dst) s.queue = some (e, q) ∧
      s' = { s with queue := q, dequeued := s.dequeued ++ [e] }) ∨
    (a = .flush ∧ s' = { s with
      queue := ⟨[], s.queue.total - s.queue.list.length⟩
      dequeued := s.dequeued ++ s.queue.list.reverse }) := by
  cases a with
  | enqueue g skb f =>
      cases h
      exact Or.inl ⟨g, skb, f, rfl, rfl⟩
  | start r =>
      cases h
      exact Or.inr (Or.inl ⟨r, rfl, rfl⟩)
  | iterate t =>
      simp only [Traffic.step] at h
      cases hl : s.loops.lookup t with
      | none => rw [hl] at h; cases h
      | some r =>
          rw [hl] at h
          cases h
          unfold Traffic.iterated
          cases hd : findDequeueEntry (destCmp r.dst) s.queue with
          | none => exact Or.inr (Or.inr (Or.inl ⟨t, r, rfl, hl, hd, rfl⟩))
          | some p => exact Or.inr (Or.inr (Or.inr (Or.inl ⟨t, r, p.1, p.2, rfl, hl, hd, rfl⟩)))
  | flush =>
      simp only [Traffic.step, queueFlushLoop_eq _ _ le_rfl] at h
      cases h
      exact Or.inr (Or.inr (Or.inr (Or.inr ⟨rfl, rfl⟩)))

/-- An enqueuing is accepted, or refused with an error and without effect. -/
theorem enqueuePacket_refused (granted : Bool) (skb : SkBuff) (okfn : Okfn) (q : Queue) :
    (geosvrQueueEnqueuePacket granted skb okfn q = (0, ⟨⟨skb, okfn⟩ :: q.list, q.total + 1⟩)) ∨
    ((geosvrQueueEnqueuePacket granted skb okfn q).1 < 0 ∧
      (geosvrQueueEnqueuePacket granted skb okfn q).2 = q) := by
  unfold geosvrQueueEnqueuePacket enqueueEntry
  cases granted with
  | false => exact Or.inr ⟨by simp [ENOMEM], rfl⟩
  | true =>
      by_cases h : queueMaxlen ≤ q.total
      · exact Or.inr ⟨by simp [h, ENOSPC], by simp [h]⟩
      · exact Or.inl (by simp [h])

theorem Traffic.enqueued_cases (s : Traffic) (granted : Bool) (skb : SkBuff) (okfn : Okfn) :
    (s.enqueued granted skb okfn = { s with
      queue := ⟨⟨skb, okfn⟩ :: s.queue.list, s.queue.total + 1⟩
      accepted := s.accepted ++ [⟨skb, okfn⟩] } ∧
      (geosvrQueueEnqueuePacket granted skb okfn s.queue).1 = 0) ∨
    (s.enqueued granted skb okfn = s ∧
      (geosvrQueueEnqueuePacket granted skb okfn s.queue).1 < 0) := by
  unfold Traffic.enqueued
  obtain he | ⟨hneg, he⟩ := enqueuePacket_refused granted skb okfn s.queue
  · exact Or.inl (by simp [he])
  · exact Or.inr (by simp [hneg, he])

/-! ### Order -/

/-- The entries waiting for `d`, oldest first. -/
def Queue.waiting (q : Queue) (d : UInt32) : List QueueEntry := q.list.reverse.filter (destCmp d)

/-- The counter is right, and what was accepted is what was dequeued and what is queued: as a
whole, for each destination in order, and what is queued in order. -/
structure InOrder (s : Traffic) : Prop where
  counted : s.queue.Counted
  once : (s.dequeued ++ s.queue.list).Perm s.accepted
  split : ∀ d, s.dequeued.filter (destCmp d) ++ s.queue.waiting d = s.accepted.filter (destCmp d)
  remaining : s.queue.list.reverse.Sublist s.accepted

/-- A dequeuing takes the oldest entry for its destination, and leaves those for others. -/
theorem waiting_dequeue {d : UInt32} {q q' : Queue} {e : QueueEntry}
    (h : findDequeueEntry (destCmp d) q = some (e, q')) :
    destCmp d e = true ∧ (e :: q'.list).Perm q.list ∧ q'.list.Sublist q.list ∧
      ∀ c, q.waiting c = if destCmp c e then e :: q'.waiting c else q'.waiting c := by
  obtain ⟨hl, -⟩ := findDequeueEntry_some h
  obtain ⟨hc, l₁, l₂, hq, hq', hlate⟩ := findDel_some hl
  have hd : dest e.skb = d := destCmp_iff.mp hc
  rw [hq, hq']
  refine ⟨hc, List.perm_middle.symm, by simp, fun c => ?_⟩
  simp only [Queue.waiting, hq, hq', List.reverse_append, List.reverse_cons, List.filter_append,
    List.filter_cons, List.filter_nil]
  cases he : destCmp c e with
  | false => simp
  | true =>
      -- a later entry is for the same destination only if the search missed it
      have hcd : c = d := (destCmp_iff.mp he).symm.trans hd
      have hnone : l₂.filter (destCmp c) = [] := by
        rw [List.filter_eq_nil_iff, hcd]
        exact fun x hx => by simp [hlate x hx]
      simp [List.filter_reverse, hnone]

theorem waiting_none {d : UInt32} {q : Queue} (h : findDequeueEntry (destCmp d) q = none) :
    q.waiting d = [] := by
  have hl : findDel (destCmp d) q.list = none := by
    unfold findDequeueEntry at h
    cases hl : findDel (destCmp d) q.list with
    | none => rfl
    | some p => rw [hl] at h; cases h
  rw [Queue.waiting, List.filter_eq_nil_iff]
  exact fun e he => by simp [findDel_none.mp hl e (List.mem_reverse.mp he)]

theorem inOrder_init : InOrder Traffic.init where
  counted := ⟨rfl, by decide⟩
  once := List.Perm.refl _
  split _ := rfl
  remaining := List.Sublist.refl _

/-- Every operation keeps the order. -/
theorem step_inOrder {s s' : Traffic} {a : QueueOp} (hs : InOrder s) (h : s.step a = some s') :
    InOrder s' := by
  obtain ⟨g, skb, f, -, rfl⟩ | ⟨r, -, rfl⟩ | ⟨t, r, -, -, -, rfl⟩ | ⟨t, r, e, q, -, -, hd, rfl⟩ |
    ⟨-, rfl⟩ := Traffic.step_cases h
  · have hcounted := hs.counted.enqueue g skb f
    obtain ⟨he, -⟩ | ⟨he, -⟩ := s.enqueued_cases g skb f
    · have hq : (geosvrQueueEnqueuePacket g skb f s.queue).2 = (s.enqueued g skb f).queue := rfl
      rw [hq, he] at hcounted
      rw [he]
      refine ⟨hcounted, ?_, fun d => ?_, ?_⟩
      · have hmid : (s.dequeued ++ ⟨skb, f⟩ :: s.queue.list).Perm
            (⟨skb, f⟩ :: (s.dequeued ++ s.queue.list)) := List.perm_middle
        exact hmid.trans ((hs.once.cons _).trans (List.perm_append_singleton _ _).symm)
      · simp only [Queue.waiting, List.reverse_cons, List.filter_append]
        rw [← List.append_assoc]
        exact congrArg (· ++ _) (hs.split d)
      · simp only [List.reverse_cons]
        exact hs.remaining.append (List.Sublist.refl _)
    · rw [he]
      exact hs
  · exact ⟨hs.counted, hs.once, hs.split, hs.remaining⟩
  · exact ⟨hs.counted, hs.once, hs.split, hs.remaining⟩
  · obtain ⟨-, hperm, hsub, hwait⟩ := waiting_dequeue hd
    refine ⟨hs.counted.dequeue hd, ?_, fun d => ?_, ?_⟩
    · simp only [List.append_assoc, List.singleton_append]
      exact (hperm.append_left _).trans hs.once
    · have hsplit := hs.split d
      rw [hwait d] at hsplit
      rw [← hsplit]
      cases hc : destCmp d e with
      | false => simp [hc]
      | true => simp [hc]
    · exact (List.reverse_sublist.mpr hsub).trans hs.remaining
  · refine ⟨hs.counted.flush, ?_, fun d => ?_, List.nil_sublist _⟩
    · rw [List.append_nil]
      exact ((List.reverse_perm _).append_left _).trans hs.once
    · simp only [Queue.waiting, List.filter_append, List.reverse_nil, List.filter_nil,
        List.append_nil]
      exact hs.split d

/-! ### The loops -/

/-- Nothing more is enqueued for `d`. -/
def NoMore (d : UInt32) (s : Traffic) : QueueOp → Prop
  | .enqueue granted skb okfn =>
      dest skb = d → (geosvrQueueEnqueuePacket granted skb okfn s.queue).1 < 0
  | _ => True

/-- An iteration of the loop `t`. -/
def QueueOp.isIterate (t : ℕ) : QueueOp → Bool
  | .iterate u => u == t
  | _ => false

/-- The loop `t` of `r` is under way, or it has ended and nothing waits for its destination. -/
structure Looping (t : ℕ) (r : Response) (s : Traffic) : Prop where
  issued : t < s.ticket
  own : ∀ r', s.loops.lookup t = some r' → r' = r
  ended : s.loops.lookup t = none → s.queue.waiting r.dst = []

/-- How many iterations the loop `t` has left when nothing more is enqueued for `d`. -/
def Traffic.left (t : ℕ) (d : UInt32) (s : Traffic) : ℕ :=
  match s.loops.lookup t with
  | none => 0
  | some _ => (s.queue.waiting d).length + 1

theorem lookup_filter_ne (t u : ℕ) : ∀ l : List (ℕ × Response),
    (l.filter (fun p => p.1 != t)).lookup u = if u = t then none else l.lookup u
  | [] => by simp
  | (v, r) :: l => by
      have ih := lookup_filter_ne t u l
      by_cases hv : v = t
      · subst hv
        by_cases hu : u = v
        · simpa [hu] using ih
        · have hb : (u == v) = false := by simpa using hu
          simpa [hu, List.lookup_cons, hb] using ih
      · by_cases hu : u = v
        · have hut : u ≠ t := hu ▸ hv
          simp [hv, hu]
        · have hb : (u == v) = false := by simpa using hu
          simpa [hv, List.lookup_cons, hb] using ih

/-- What waits for `d` after a dequeuing is part of what waited before. -/
theorem waiting_dequeue_le {c d : UInt32} {q q' : Queue} {e : QueueEntry}
    (h : findDequeueEntry (destCmp c) q = some (e, q')) :
    (q'.waiting d).length + (if c = d then 1 else 0) ≤ (q.waiting d).length := by
  obtain ⟨hc, -, -, hwait⟩ := waiting_dequeue h
  rw [hwait d]
  by_cases hcd : c = d
  · subst hcd
    simp [hc]
  · rw [if_neg hcd]
    split_ifs <;> simp

/-- An enqueuing for other destinations leaves the loop as it is. -/
theorem Looping.enqueued {s : Traffic} {t : ℕ} {r : Response} (hs : Looping t r s) {g : Bool}
    {skb : SkBuff} {f : Okfn} (hc : NoMore r.dst s (.enqueue g skb f)) :
    Looping t r (s.enqueued g skb f) ∧ (s.enqueued g skb f).left t r.dst = s.left t r.dst := by
  obtain ⟨he, hres⟩ | ⟨he, -⟩ := s.enqueued_cases g skb f
  · have hne : destCmp r.dst ⟨skb, f⟩ = false := by
      refine Bool.eq_false_iff.mpr fun hm => ?_
      have hneg := hc (destCmp_iff.mp hm)
      omega
    have hwait : (s.enqueued g skb f).queue.waiting r.dst = s.queue.waiting r.dst := by
      rw [he]
      simp [Queue.waiting, hne]
    have hloops : (s.enqueued g skb f).loops = s.loops := by rw [he]
    have hticket : (s.enqueued g skb f).ticket = s.ticket := by rw [he]
    refine ⟨⟨by rw [hticket]; exact hs.issued, by rw [hloops]; exact hs.own,
      by rw [hloops, hwait]; exact hs.ended⟩, ?_⟩
    simp only [Traffic.left, hloops, hwait]
  · rw [he]
    exact ⟨hs, rfl⟩

/-- The loop `u` finds no entry: it ends, and another loop `t` goes on. -/
theorem Looping.removed {s : Traffic} {t u : ℕ} {r r' : Response} (hs : Looping t r s)
    (hu : s.loops.lookup u = some r') (hd : findDequeueEntry (destCmp r'.dst) s.queue = none) :
    Looping t r { s with loops := s.loops.filter (fun l => l.1 != u) } ∧
      (if QueueOp.isIterate t (.iterate u) then 1 else 0) + Traffic.left t r.dst
        { s with loops := s.loops.filter (fun l => l.1 != u) } ≤ s.left t r.dst := by
  by_cases hut : t = u
  · subst hut
    obtain rfl := hs.own r' hu
    refine ⟨⟨hs.issued, by simp [lookup_filter_ne], fun _ => waiting_none hd⟩, ?_⟩
    simp [Traffic.left, lookup_filter_ne, hu, QueueOp.isIterate]
  · refine ⟨⟨hs.issued, ?_, ?_⟩, ?_⟩
    · simp only [lookup_filter_ne, if_neg hut]
      exact hs.own
    · simp only [lookup_filter_ne, if_neg hut]
      exact hs.ended
    · have hb : (u == t) = false := by simpa using fun he : u = t => hut he.symm
      simp [Traffic.left, lookup_filter_ne, hut, QueueOp.isIterate, hb]

/-- The loop `u` takes an entry. -/
theorem Looping.dequeued {s : Traffic} {t u : ℕ} {r r' : Response} {e : QueueEntry} {q : Queue}
    (hs : Looping t r s) (hu : s.loops.lookup u = some r')
    (hd : findDequeueEntry (destCmp r'.dst) s.queue = some (e, q)) :
    Looping t r { s with queue := q, dequeued := s.dequeued ++ [e] } ∧
      (if QueueOp.isIterate t (.iterate u) then 1 else 0) + Traffic.left t r.dst
        { s with queue := q, dequeued := s.dequeued ++ [e] } ≤ s.left t r.dst := by
  have hle := waiting_dequeue_le (d := r.dst) hd
  refine ⟨⟨hs.issued, hs.own, fun hend => ?_⟩, ?_⟩
  · have hnil := hs.ended hend
    rw [hnil, List.length_nil] at hle
    have hzero : (q.waiting r.dst).length = 0 := by omega
    exact List.length_eq_zero_iff.mp hzero
  · by_cases hut : u = t
    · subst hut
      obtain rfl := hs.own r' hu
      simp only [Traffic.left, hu, QueueOp.isIterate]
      simp at hle ⊢
      omega
    · have hb : (u == t) = false := by simpa using hut
      simp only [Traffic.left, QueueOp.isIterate, hb]
      cases hl : s.loops.lookup t with
      | none => simp
      | some _ =>
          simp only
          split_ifs at hle <;> simp <;> omega

/-- Every operation keeps a loop going or ended, and its iterations count down. -/
theorem step_looping {s s' : Traffic} {a : QueueOp} {t : ℕ} {r : Response} (hs : Looping t r s)
    (hc : NoMore r.dst s a) (h : s.step a = some s') :
    Looping t r s' ∧ (if a.isIterate t then 1 else 0) + s'.left t r.dst ≤ s.left t r.dst := by
  obtain ⟨g, skb, f, rfl, rfl⟩ | ⟨r', rfl, rfl⟩ | ⟨u, r', rfl, hu, hd, rfl⟩ |
    ⟨u, r', e, q, rfl, hu, hd, rfl⟩ | ⟨rfl, rfl⟩ := Traffic.step_cases h
  · obtain ⟨hloop, hleft⟩ := hs.enqueued hc
    refine ⟨hloop, ?_⟩
    rw [hleft]
    simp [QueueOp.isIterate]
  · have hlook : List.lookup t ((s.ticket, r') :: s.loops) = s.loops.lookup t := by
      have hb : (t == s.ticket) = false := by simpa using Nat.ne_of_lt hs.issued
      rw [List.lookup_cons, hb]
    refine ⟨⟨Nat.lt_succ_of_lt hs.issued, ?_, ?_⟩, ?_⟩
    · simp only [hlook]
      exact hs.own
    · simp only [hlook]
      exact hs.ended
    · simp only [Traffic.left, hlook, QueueOp.isIterate]
      simp
  · exact hs.removed hu hd
  · exact hs.dequeued hu hd
  · refine ⟨⟨hs.issued, hs.own, fun _ => rfl⟩, ?_⟩
    simp only [Traffic.left, QueueOp.isIterate]
    cases s.loops.lookup t with
    | none => simp
    | some _ => simp [Queue.waiting]

/-- Tickets are not given out twice. -/
def Issued (s : Traffic) : Prop := ∀ t r, s.loops.lookup t = some r → t < s.ticket

theorem step_issued {s s' : Traffic} {a : QueueOp} (hs : Issued s) (h : s.step a = some s') :
    Issued s' := by
  obtain ⟨g, skb, f, -, rfl⟩ | ⟨r', -, rfl⟩ | ⟨u, r', -, -, -, rfl⟩ | ⟨u, r', e, q, -, -, -, rfl⟩ |
    ⟨-, rfl⟩ := Traffic.step_cases h
  · exact hs
  · intro t r ht
    simp only [List.lookup_cons] at ht ⊢
    split at ht
    · rename_i he
      have : t = s.ticket := by simpa using he
      omega
    · have := hs t r ht
      omega
  · intro t r ht
    simp only [lookup_filter_ne] at ht
    split_ifs at ht
    exact hs t r ht
  · exact hs
  · exact hs

/-- A loop for a destination to which nothing more is enqueued makes at most one iteration for
each packet that waits for it and one that finds none, and leaves nothing when it has ended. -/
theorem loop_ends {s s' : Traffic} {bs : List QueueOp} {t : ℕ} {r : Response} (hi : Issued s)
    (ht : s.loops.lookup t = some r) (hr : Run Traffic.step (NoMore r.dst) s bs s') :
    bs.countP (QueueOp.isIterate t) ≤ (s.queue.waiting r.dst).length + 1 ∧
      (s'.loops.lookup t = none → s'.queue.waiting r.dst = []) ∧
      (s'.loops.lookup t ≠ none → (s'.step (.iterate t)).isSome) := by
  have h₀ : Looping t r s := by
    refine ⟨hi t r ht, fun r' hr' => ?_, fun hn => ?_⟩
    · rw [ht] at hr'
      exact (Option.some.inj hr').symm
    · rw [ht] at hn
      cases hn
  have hcount := hr.countP_add_le (Looping t r) (Traffic.left t r.dst) (QueueOp.isIterate t)
    (fun _ _ _ hs hc h => step_looping hs hc h) h₀
  have hlast : Looping t r s' :=
    hr.inv (Looping t r) (fun _ _ _ hs hc h => (step_looping hs hc h).1) h₀
  have hleft : s.left t r.dst = (s.queue.waiting r.dst).length + 1 := by
    simp only [Traffic.left, ht]
  refine ⟨by omega, hlast.ended, fun hsome => ?_⟩
  cases hl : s'.loops.lookup t with
  | none => exact absurd hl hsome
  | some r' => simp [Traffic.step, hl]

/-- **The packet queue keeps count and order**, however its operations interleave: the counter is
the number of entries and at most 1024; a refused enqueuing changes nothing; the accepted entries
are those dequeued and those queued, each once, those dequeued for a destination being the first
that were accepted for it and those queued in order; and a send or a drop for a destination to
which nothing more is enqueued ends with nothing queued for it. -/
theorem queue_inOrder {as : List QueueOp} {s : Traffic}
    (hr : Run Traffic.step Free Traffic.init as s) :
    InOrder s ∧
    (∀ d, s.dequeued.filter (destCmp d) <+: s.accepted.filter (destCmp d)) ∧
    (∀ granted skb okfn, (geosvrQueueEnqueuePacket granted skb okfn s.queue).1 < 0 →
      (geosvrQueueEnqueuePacket granted skb okfn s.queue).2 = s.queue ∧
        s.step (.enqueue granted skb okfn) = some s) ∧
    ∀ t r, s.loops.lookup t = some r → ∀ bs s', Run Traffic.step (NoMore r.dst) s bs s' →
      bs.countP (QueueOp.isIterate t) ≤ (s.queue.waiting r.dst).length + 1 ∧
        (s'.loops.lookup t = none → s'.queue.waiting r.dst = []) ∧
        (s'.loops.lookup t ≠ none → (s'.step (.iterate t)).isSome) := by
  have horder : InOrder s := hr.inv InOrder (fun _ _ _ hs _ h => step_inOrder hs h) inOrder_init
  have hissued : Issued s :=
    hr.inv Issued (fun _ _ _ hs _ h => step_issued hs h) (fun t r h => by cases h)
  refine ⟨horder, fun d => ?_, fun g skb f hneg => ?_, fun t r ht bs s' hrun => ?_⟩
  · rw [← horder.split d]
    exact List.prefix_append _ _
  · obtain ⟨-, hres⟩ | ⟨he, -⟩ := s.enqueued_cases g skb f
    · omega
    · exact ⟨congrArg Traffic.queue he, congrArg some he⟩
  · exact loop_ends hissued ht hrun

/-- A packet is enqueued, and a drop for its destination takes it out and ends. -/
theorem queue_inOrder_sample : ∃ s s' : Traffic,
    Run Traffic.step Free Traffic.init
      [.enqueue true sampleSkb 0, .start (.dropPkt 0x0200000A)] s ∧ InOrder s ∧
    Run Traffic.step (NoMore 0x0200000A) s [.iterate 0, .iterate 0] s' ∧
    s'.dequeued.length = 1 ∧ s'.queue.waiting 0x0200000A = [] := by
  obtain ⟨s, s', hs, hlook, hrun, hd, hend⟩ : ∃ s s' : Traffic,
      exec Traffic.step Traffic.init
        [.enqueue true sampleSkb 0, .start (.dropPkt 0x0200000A)] = some s ∧
      s.loops.lookup 0 = some (.dropPkt 0x0200000A) ∧
      Run Traffic.step (NoMore 0x0200000A) s [.iterate 0, .iterate 0] s' ∧
      s'.dequeued.length = 1 ∧ s'.loops.lookup 0 = none :=
    ⟨_, _, rfl, rfl, Run.cons trivial rfl (Run.cons trivial rfl (Run.nil _)), by decide,
      by decide⟩
  obtain ⟨horder, -, -, hloop⟩ := queue_inOrder (run_of_exec _ hs)
  exact ⟨s, s', run_of_exec _ hs, horder, hrun, hd, (hloop 0 _ hlook _ s' hrun).2.1 hend⟩

end GeoSvr.Kernel
