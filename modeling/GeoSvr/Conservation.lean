import GeoSvr.Hook
import GeoSvr.RoundTrip
import GeoSvr.Runs

/-! # Conservation of captured packets

A packet that the hook kept should be in one place: in the queue, handed on once, or freed once.
`Conserved` says so for a state, by counting the occurrences of its `id` in the queue and in the
log of effects.  Three slips break it: the hook does not look whether the enqueuing succeeded;
it goes on with a shared or cloned `sk_buff` that `geosvr_ip_has_encapsulated` has released; and
`geosvr_queue_send_pkt` does not look whether `geosvr_ip_forward` found a route.  `Kept` is the
condition on a step that none of them happens, and it is exact. -/

namespace GeoSvr.Kernel

open Runs

/-! ### Places -/

/-- How often the module handed on or freed the packet `id`. -/
def gone (l : List Effect) (id : ℕ) : ℕ :=
  l.countP (Effect.handsOn id) + l.countP (Effect.frees id)

/-- How often the packet `id` is in the queue. -/
def queued (l : List QueueEntry) (id : ℕ) : ℕ := l.countP (fun e => e.skb.id == id)

/-- Every packet the hook kept is in one place. -/
def Conserved (s : Module) : Prop :=
  ∀ id ∈ s.stolen, queued s.queue.list id + s.effects.countP (Effect.handsOn id) +
    s.effects.countP (Effect.frees id) = 1

@[simp] theorem gone_nil (id : ℕ) : gone [] id = 0 := rfl

@[simp] theorem gone_append (l l' : List Effect) (id : ℕ) :
    gone (l ++ l') id = gone l id + gone l' id := by
  unfold gone
  rw [List.countP_append, List.countP_append]
  omega

@[simp] theorem gone_replicate (n : ℕ) (skb : SkBuff) (id : ℕ) :
    gone (List.replicate n (.kfree skb)) id = if skb.id = id then n else 0 := by
  simp [gone, List.countP_replicate, Effect.handsOn, Effect.frees]

theorem gone_flush (q : Queue) (id : ℕ) : gone (geosvrQueueFlush q).1 id = queued q.list id := by
  simp [gone, queued, geosvrQueueFlush, List.countP_map, Function.comp_def, Effect.handsOn,
    Effect.frees]

@[simp] theorem queued_cons (e : QueueEntry) (l : List QueueEntry) (id : ℕ) :
    queued (e :: l) id = queued l id + if e.skb.id = id then 1 else 0 := by
  simp [queued, List.countP_cons]

theorem queued_findDel {cmp : QueueEntry → Bool} {l rest : List QueueEntry} {e : QueueEntry}
    (h : findDel cmp l = some (e, rest)) (id : ℕ) :
    queued l id = queued rest id + if e.skb.id = id then 1 else 0 := by
  obtain ⟨-, l₁, l₂, rfl, rfl, -⟩ := findDel_some h
  simp only [queued, List.countP_append, List.countP_cons, beq_iff_eq]
  omega

theorem queued_pos {l : List QueueEntry} {e : QueueEntry} (h : e ∈ l) :
    0 < queued l e.skb.id :=
  List.countP_pos_iff.mpr ⟨e, h, by simp⟩

theorem conserved_iff {s : Module} :
    Conserved s ↔ ∀ id ∈ s.stolen, queued s.queue.list id + gone s.effects id = 1 := by
  unfold Conserved gone
  simp only [Nat.add_assoc]

/-! ### Steps and runs -/

/-- None of the three slips happens.  (An `sk_buff` with one other holder that is released by
the probe and then not enqueued has left the module exactly once.) -/
def Kept (cfg : Config) (s : Module) : Action → Prop
  | .hook c => Captures cfg c →
      if c.hooknum = .localOut ∨ Private c.skb then Enqueued c s.queue
      else c.skb.users = 2 ∧ c.skb.cloned = false ∧ ¬ Enqueued c s.queue
  | .handle i k => ∀ r e q, s.handlers[i]? = some r →
      findDequeueEntry (destCmp r.2.dst) s.queue = some (e, q) → releaseFails k r.2 = false
  | _ => True

/-- The invariant: packets are conserved, and those never seen are nowhere. -/
structure Traced (s : Module) : Prop where
  conserved : Conserved s
  unseen : ∀ id, id ∉ s.seen → queued s.queue.list id = 0 ∧ gone s.effects id = 0
  queue : ∀ e ∈ s.queue.list, e.skb.id ∈ s.stolen
  stolen : ∀ id ∈ s.stolen, id ∈ s.seen

theorem traced_init : Traced Module.init where
  conserved := by simp [Conserved, Module.init]
  unseen := by simp [Module.init, queued]
  queue := by simp [Module.init]
  stolen := by simp [Module.init]

/-- What a call does to the module that takes its packet. -/
theorem captured_stolen {cfg : Config} {s : Module} {c : Capture} (hcap : Captures cfg c) :
    (s.captured cfg c).stolen = c.skb.id :: s.stolen ∧
    (∀ id, gone (s.captured cfg c).effects id =
      gone s.effects id + if c.skb.id = id then captureFrees c else 0) ∧
    ((Enqueued c s.queue ∧ ∃ e, e.skb.id = c.skb.id ∧
        (s.captured cfg c).queue.list = e :: s.queue.list) ∨
      (¬ Enqueued c s.queue ∧ (s.captured cfg c).queue.list = s.queue.list)) := by
  obtain ⟨hid, ⟨-, hv, hq, hfrees, -⟩ | ⟨hnot, -⟩⟩ := geosvrHook_cases cfg c s.queue
  · refine ⟨?_, fun id => ?_, ?_⟩
    · simp only [Module.captured, hv, if_true]
    · simp only [Module.captured, gone_append, gone_replicate, hid, hfrees,
        Nat.add_sub_cancel_left]
    · unfold Module.captured
      obtain ⟨hg, hlt, he⟩ | ⟨hn, he⟩ :=
        enqueuePacket_cases c.entryGranted (geosvrHook cfg c s.queue).skb c.okfn s.queue
      · exact Or.inl ⟨⟨hg, hlt⟩, ⟨(geosvrHook cfg c s.queue).skb, c.okfn⟩, hid, by simp only [hq, he]⟩
      · exact Or.inr ⟨hn, by simp only [hq, he]⟩
  · exact absurd hcap hnot

/-- The condition counts: the packet is in the queue, or has been released once. -/
theorem kept_hook_iff {cfg : Config} {s : Module} {c : Capture} (hcap : Captures cfg c) :
    Kept cfg s (.hook c) ↔ (if Enqueued c s.queue then 1 else 0) + captureFrees c = 1 := by
  unfold Kept captureFrees Private
  simp only [hcap, true_implies]
  by_cases he : Enqueued c s.queue <;> by_cases hl : c.hooknum = .localOut <;>
    by_cases hp : c.skb.users = 1 ∧ c.skb.cloned = false <;>
    by_cases h2 : c.skb.users = 2 ∧ c.skb.cloned = false <;> simp [he, hl, hp, h2]

/-- A call that leaves its packet to netfilter. -/
theorem captured_passed {cfg : Config} {s : Module} {c : Capture} (hs : Traced s)
    (hnew : c.skb.id ∉ s.seen) (hcap : ¬ Captures cfg c) : Traced (s.captured cfg c) := by
  obtain ⟨hid, ⟨hyes, -⟩ | ⟨-, hv, hq, -⟩⟩ := geosvrHook_cases cfg c s.queue
  · exact absurd hyes hcap
  have hold : ∀ id ∈ s.stolen, c.skb.id ≠ id := fun id hm he => hnew (he ▸ hs.stolen id hm)
  have hqueue : (s.captured cfg c).queue = s.queue := hq
  have hstolen : (s.captured cfg c).stolen = s.stolen := by
    simp only [Module.captured, hv, if_false]
  have hgone : ∀ id, c.skb.id ≠ id → gone (s.captured cfg c).effects id = gone s.effects id := by
    intro id hne
    simp only [Module.captured, gone_append, gone_replicate, hid, if_neg hne, Nat.add_zero]
  refine ⟨?_, ?_, ?_, ?_⟩
  · rw [conserved_iff, hstolen, hqueue]
    intro id hm
    rw [hgone id (hold id hm)]
    exact conserved_iff.mp hs.conserved id hm
  · intro id hn
    obtain ⟨hne, hn⟩ : id ≠ c.skb.id ∧ id ∉ s.seen := by
      simpa [Module.captured] using hn
    rw [hqueue, hgone id (fun h => hne h.symm)]
    exact hs.unseen id hn
  · rw [hqueue, hstolen]
    exact hs.queue
  · rw [hstolen]
    exact fun id hm => List.mem_cons_of_mem _ (hs.stolen id hm)

/-- A call of the hook conserves packets exactly when it meets the condition. -/
theorem captured_conserved {cfg : Config} {s : Module} {c : Capture} (hs : Traced s)
    (hnew : c.skb.id ∉ s.seen) :
    (Conserved (s.captured cfg c) ↔ Kept cfg s (.hook c)) ∧
      (Kept cfg s (.hook c) → Traced (s.captured cfg c)) := by
  by_cases hcap : Captures cfg c
  · obtain ⟨hstolen, hgone, hlist⟩ := captured_stolen (s := s) hcap
    obtain ⟨hq0, hg0⟩ := hs.unseen _ hnew
    have hold : ∀ id ∈ s.stolen, c.skb.id ≠ id := fun id hm he => hnew (he ▸ hs.stolen id hm)
    have hqueued : ∀ id, queued (s.captured cfg c).queue.list id = queued s.queue.list id +
        if c.skb.id = id ∧ Enqueued c s.queue then 1 else 0 := by
      intro id
      obtain ⟨he, e, hid, hl⟩ | ⟨he, hl⟩ := hlist
      · simp [hl, hid, he]
      · simp [hl, he]
    have hiff : Conserved (s.captured cfg c) ↔ Kept cfg s (.hook c) := by
      rw [conserved_iff, hstolen, kept_hook_iff hcap, List.forall_mem_cons, hqueued, hgone, hq0,
        hg0]
      simp only [true_and, Nat.zero_add, if_true]
      refine and_iff_left (fun id hm => ?_)
      rw [hqueued, hgone, if_neg (fun h => hold id hm h.1), if_neg (hold id hm)]
      simpa using conserved_iff.mp hs.conserved id hm
    refine ⟨hiff, fun hk => ⟨hiff.mpr hk, ?_, ?_, ?_⟩⟩
    · intro id hn
      obtain ⟨hne, hn⟩ : id ≠ c.skb.id ∧ id ∉ s.seen := by
        simpa [Module.captured] using hn
      rw [hqueued, hgone, if_neg (fun h => hne h.1.symm), if_neg (fun h => hne h.symm)]
      simpa using hs.unseen id hn
    · intro e he
      rw [hstolen]
      obtain ⟨-, e', hid, hl⟩ | ⟨-, hl⟩ := hlist
      · rw [hl, List.mem_cons] at he
        cases he with
        | inl he =>
            rw [he, hid]
            exact List.mem_cons_self
        | inr he => exact List.mem_cons_of_mem _ (hs.queue e he)
      · rw [hl] at he
        exact List.mem_cons_of_mem _ (hs.queue e he)
    · intro id hm
      rw [hstolen, List.mem_cons] at hm
      simp only [Module.captured, List.mem_cons]
      exact hm.imp_right (hs.stolen id)
  · have htraced := captured_passed hs hnew hcap
    exact ⟨iff_of_true htraced.conserved (fun h => absurd h hcap), fun _ => htraced⟩

/-- What the effects of a released entry amount to. -/
theorem gone_releaseEntry (k : Release) (r : Response) (e : QueueEntry) (id : ℕ) :
    gone (releaseEntry k r e) id = if e.skb.id = id ∧ releaseFails k r = false then 1 else 0 := by
  cases r with
  | sendPkt msg => exact sendEntry_counts k msg e id
  | dropPkt dst => simpa [releaseFails, gone, releaseEntry] using dropEntry_counts e id

/-- An iteration that finds no entry changes nothing. -/
theorem handled_none {s : Module} {i : ℕ} {k : Release} {r : ℕ × Response} (hs : Traced s)
    (hd : findDequeueEntry (destCmp r.2.dst) s.queue = none) : Traced (s.handled i k r) := by
  unfold Module.handled
  simp only [hd]
  exact ⟨hs.conserved, hs.unseen, hs.queue, hs.stolen⟩

/-- An iteration that takes the entry `e` conserves packets exactly when its release succeeds. -/
theorem handled_some {s : Module} {i : ℕ} {k : Release} {r : ℕ × Response} {e : QueueEntry}
    {q : Queue} (hs : Traced s)
    (hd : findDequeueEntry (destCmp r.2.dst) s.queue = some (e, q)) :
    (Conserved (s.handled i k r) ↔ releaseFails k r.2 = false) ∧
      (releaseFails k r.2 = false → Traced (s.handled i k r)) := by
  obtain ⟨hl, -⟩ := findDequeueEntry_some hd
  have hcons := conserved_iff.mp hs.conserved
  have hmem := hs.queue e (findDel_mem hl)
  have hq := queued_findDel hl
  have hpos := queued_pos (findDel_mem hl)
  have hstate : s.handled i k r = { s with
      queue := q
      effects := s.effects ++ releaseEntry k r.2 e
      released := ⟨e.skb, r.1, r.2, releaseEntry k r.2 e⟩ :: s.released } := by
    unfold Module.handled
    simp only [hd]
  have hgone : ∀ id, gone (s.handled i k r).effects id =
      gone s.effects id + if e.skb.id = id ∧ releaseFails k r.2 = false then 1 else 0 := by
    intro id
    rw [hstate, gone_append, gone_releaseEntry]
  have hiff : Conserved (s.handled i k r) ↔ releaseFails k r.2 = false := by
    rw [conserved_iff]
    constructor
    · intro hall
      have h₁ := hall e.skb.id (by rw [hstate]; exact hmem)
      have h₂ := hcons _ hmem
      have h₃ := hq e.skb.id
      rw [hgone] at h₁
      simp only [hstate, true_and, if_true] at h₁ h₃
      by_contra hf
      rw [if_neg hf] at h₁
      omega
    · intro hf id hm
      rw [hstate] at hm
      have h₂ := hcons id hm
      have h₃ := hq id
      rw [hgone]
      simp only [hstate, hf, and_true]
      omega
  refine ⟨hiff, fun hf => ⟨hiff.mpr hf, ?_, ?_, ?_⟩⟩
  · intro id hn
    rw [hstate] at hn
    obtain ⟨h₁, h₂⟩ := hs.unseen id hn
    have h₃ := hq id
    have hne : e.skb.id ≠ id := fun he => hn (he ▸ hs.stolen _ hmem)
    rw [hgone, if_neg (fun h => hne h.1), hstate]
    exact ⟨by simp only; omega, by omega⟩
  · rw [hstate]
    exact fun x hx => hs.queue x (findDel_subset hl hx)
  · rw [hstate]
    exact hs.stolen

/-- An iteration of a loop conserves packets exactly when it meets the condition. -/
theorem handled_conserved {cfg : Config} {s : Module} {i : ℕ} {k : Release} {r : ℕ × Response}
    (hs : Traced s) (hi : s.handlers[i]? = some r) :
    (Conserved (s.handled i k r) ↔ Kept cfg s (.handle i k)) ∧
      (Kept cfg s (.handle i k) → Traced (s.handled i k r)) := by
  cases hd : findDequeueEntry (destCmp r.2.dst) s.queue with
  | none =>
      have htraced := handled_none (i := i) (k := k) hs hd
      refine ⟨iff_of_true htraced.conserved ?_, fun _ => htraced⟩
      intro r' e q hr' hf
      rw [hi] at hr'
      cases hr'
      rw [hd] at hf
      cases hf
  | some p =>
      obtain ⟨e, q⟩ := p
      have hkept : Kept cfg s (.handle i k) ↔ releaseFails k r.2 = false := by
        constructor
        · intro hk
          exact hk r e q hi hd
        · intro hf r' e' q' hr' _
          rw [hi] at hr'
          cases hr'
          exact hf
      rw [hkept]
      exact handled_some hs hd

/-- Unloading moves the packets from the queue to the freed ones. -/
theorem exited_traced {s : Module} (hs : Traced s) : Traced s.exited := by
  have hgone : ∀ id, queued s.exited.queue.list id + gone s.exited.effects id =
      queued s.queue.list id + gone s.effects id := by
    intro id
    simp only [Module.exited, gone_append, gone_flush]
    simp [geosvrQueueFlush, queued, Nat.add_comm]
  refine ⟨?_, ?_, by simp [Module.exited, geosvrQueueFlush], hs.stolen⟩
  · rw [conserved_iff]
    intro id hm
    rw [hgone]
    exact conserved_iff.mp hs.conserved id hm
  · intro id hn
    have := hgone id
    have := hs.unseen id hn
    omega

/-- Step lemma: a step conserves packets exactly when it meets the condition, and then keeps the
invariant. -/
theorem step_conserved {cfg : Config} {s s' : Module} {a : Action} (hs : Traced s)
    (h : step cfg s a = some s') : (Conserved s' ↔ Kept cfg s a) ∧ (Kept cfg s a → Traced s') := by
  rcases step_cases h with ⟨c, rfl, hnew, rfl⟩ | ⟨tag, granted, msg, rfl, -, rfl⟩ |
    ⟨tag, type, len, msg, rfl, rfl⟩ | ⟨i, k, r, rfl, hi, rfl⟩ | ⟨rfl, rfl⟩
  · exact captured_conserved hs hnew
  · exact ⟨iff_of_true hs.conserved trivial,
      fun _ => ⟨hs.conserved, hs.unseen, hs.queue, hs.stolen⟩⟩
  · exact ⟨iff_of_true hs.conserved trivial,
      fun _ => ⟨hs.conserved, hs.unseen, hs.queue, hs.stolen⟩⟩
  · exact handled_conserved hs hi
  · exact ⟨iff_of_true (exited_traced hs).conserved trivial, fun _ => exited_traced hs⟩

/-- **Packet conservation.**  In a run of the module, in any order of its steps and with
anything failing, packets are conserved at every moment iff every step meets `Kept`. -/
theorem conserved_run_iff {cfg : Config} {as : List Action} {s : Module}
    (hr : Run (step cfg) Free Module.init as s) :
    (∀ bs cs t, as = bs ++ cs → Run (step cfg) Free Module.init bs t → Conserved t) ↔
      Run (step cfg) (Kept cfg) Module.init as s :=
  Run.forall_iff (fun _ _ _ hs h => (step_conserved hs h).1)
    (fun _ _ _ hs hk h => (step_conserved hs h).2 hk) traced_init traced_init.conserved hr

/-- The interface `10.0.0.1/24`. -/
def sampleConfig : Config := ⟨0x0100000A, 0xFF00000A, 2, none⟩

/-- The host sends `sampleSkb`. -/
def sampleOut (entryGranted : Bool) : Capture :=
  ⟨.localOut, sampleSkb, 2, 0, true, 0, true, 0, true, entryGranted⟩

/-- A packet that is queued and flushed by the unloading is conserved throughout. -/
theorem conserved_run_iff_sample :
    ∃ s, Run (step sampleConfig) Free Module.init
        [.hook (sampleOut true), .request 1 true, .unload] s ∧
      ∀ bs cs t, [.hook (sampleOut true), .request 1 true, .unload] = bs ++ cs →
        Run (step sampleConfig) Free Module.init bs t → Conserved t := by
  have hr : Run (step sampleConfig) Free Module.init
      [.hook (sampleOut true), .request 1 true, .unload] _ := run_of_exec _ rfl
  refine ⟨_, hr, (conserved_run_iff hr).mpr (Run.cons ?_ rfl (Run.cons trivial rfl
    (Run.cons trivial rfl (Run.nil _))))⟩
  intro _
  decide

/-- The allocation of the queue entry is refused, and the packet is nowhere. -/
theorem conserved_fails :
    ∃ (cfg : Config) (as : List Action) (s : Module),
      Run (step cfg) Free Module.init as s ∧ ¬ Conserved s := by
  refine ⟨sampleConfig, [.hook (sampleOut false)],
    Module.init.captured sampleConfig (sampleOut false), run_of_exec _ rfl, ?_⟩
  intro h
  exact absurd (h 1 (by decide +kernel)) (by decide +kernel)

end GeoSvr.Kernel
