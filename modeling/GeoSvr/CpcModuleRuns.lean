import GeoSvr.CpcModule

/-! # Runs of the CPC kernel module (`cpc_mod.c`, `cpc_queue.c`, `cpc_netlink.c`)

In every interleaving of calls of the hook, messages, exits of the daemon, timeouts and the removal
of the module,

* a packet that came to the hook is in one place: a call, the queue, the hand of the loop, or it was
  accepted, handed on, freed or leaked, once (`accounted`);
* none is leaked exactly when no enqueuing is refused and `CPC_SEND_WITH_DATA` finds no packet
  (`nothingLost_iff`). -/

namespace GeoSvr.CpcMod

open KeyedList Runs CpcRt
open Cpc (Stage Verdict)

/-! ### Places -/

/-- The packet is accepted, handed on, freed or leaked. -/
def Effect.ends (id : ℕ) : Effect → Bool
  | .accept skb | .okfn skb | .kfree skb | .leak _ skb => skb.id == id
  | _ => false

def Effect.isLeak : Effect → Bool
  | .leak _ _ => true
  | _ => false

/-- The entry that the loop has taken out. -/
def Module.hand (s : Module) : List QueueEntry := (s.handler.bind Handler.hand).toList

def Module.running (s : Module) (id : ℕ) : ℕ := s.runs.countP (fun r => r.skb.id == id)

def Module.waiting (s : Module) (id : ℕ) : ℕ := s.queue.list.countP (fun e => e.skb.id == id)

def Module.held (s : Module) (id : ℕ) : ℕ := s.hand.countP (fun e => e.skb.id == id)

def Module.ended (s : Module) (id : ℕ) : ℕ := s.effects.countP (Effect.ends id)

/-- How often the packet is somewhere. -/
def Module.places (s : Module) (id : ℕ) : ℕ :=
  s.running id + s.waiting id + s.held id + s.ended id

/-- Every packet that came to the hook is in one place. -/
def Accounted (s : Module) : Prop := ∀ id, s.places id = if id ∈ s.seen then 1 else 0

/-- And not leaked. -/
def Conserved (s : Module) : Prop :=
  ∀ id ∈ s.seen, s.running id + s.waiting id + s.held id +
    s.effects.countP (fun x => x.ends id && !x.isLeak) = 1

variable {HZ : UInt64} {routingPort : UInt16} {s s' : Module}

/-! ### The hand of the loop -/

theorem hand_of_none (h : s.handler = none) : s.hand = [] := by simp [Module.hand, h]

theorem hand_of_some {h : Handler} (hh : s.handler = some h) : s.hand = h.hand.toList := by
  simp [Module.hand, hh]

/-- A new loop has nothing in its hand. -/
theorem received_hand (skb : NlSkb) (granted : Bool) (jiffies : UInt64) {k : Handler}
    (hk : (s.received HZ skb granted jiffies).handler = some k) : k.hand = none := by
  obtain ⟨call, -, rfl⟩ := Option.map_eq_some_iff.mp hk
  rfl

theorem received_hand_nil (s : Module) (skb : NlSkb) (granted : Bool) (jiffies : UInt64) :
    (s.received HZ skb granted jiffies).hand = [] := by
  cases hk : (s.received HZ skb granted jiffies).handler with
  | none => exact hand_of_none hk
  | some k => rw [hand_of_some hk, received_hand skb granted jiffies hk, Option.toList_none]

/-- A message waits for the loop of the one before it. -/
theorem step_message {skb : NlSkb} {granted : Bool} {jiffies : UInt64}
    (h : step HZ routingPort s (.message skb granted jiffies) = some s') :
    s.handler = none ∧ s' = s.received HZ skb granted jiffies := by
  simp only [step] at h
  split_ifs at h with hc
  cases h
  refine ⟨?_, rfl⟩
  cases hh : s.handler with
  | none => rfl
  | some _ => exact absurd (Or.inl (by rw [hh]; rfl)) hc

/-! ### Moves -/

/-- What a step may do to the places: nothing, or one packet comes to the hook. -/
def Moves (s s' : Module) : Prop :=
  (s'.seen = s.seen ∧ ∀ id, s'.places id = s.places id) ∨
  ∃ new, new ∉ s.seen ∧ s'.seen = new :: s.seen ∧
    ∀ id, s'.places id = s.places id + if new = id then 1 else 0

theorem Accounted.moves (h : Accounted s) (hm : Moves s s') : Accounted s' := by
  intro id
  obtain ⟨hseen, hp⟩ | ⟨new, hnew, hseen, hp⟩ := hm
  · rw [hp, hseen, h id]
  · rw [hp, hseen, h id]
    by_cases he : new = id
    · subst he
      simp [hnew]
    · simp [he, Ne.symm he]

/-! ### Steps of the hook -/

theorem accept_places (s : Module) (skb : SkBuff) (id : ℕ) :
    (s.accept skb).places id = s.places id + if skb.id = id then 1 else 0 := by
  have he : (s.accept skb).ended id = s.ended id + if skb.id = id then 1 else 0 := by
    simp [Module.ended, Module.accept, Effect.ends, List.countP_append, List.countP_singleton]
  calc (s.accept skb).places id =
        s.running id + s.waiting id + s.held id + (s.accept skb).ended id := rfl
    _ = s.places id + if skb.id = id then 1 else 0 := by
        rw [he]
        unfold Module.places
        omega

theorem hook_moves {skb : SkBuff} (hnew : skb.id ∉ s.seen) (hooknum : HookNum) (ifindex : ℤ) :
    Moves s (s.hook hooknum skb ifindex) := by
  have hacc : Moves s (s.accept skb) := Or.inr ⟨skb.id, hnew, rfl, accept_places s skb⟩
  unfold Module.hook
  split_ifs
  · exact hacc
  · cases ifInfoFromIfindex s.ifs ifindex with
    | none => exact hacc
    | some _ =>
        cases hooknum with
        | preRouting => exact hacc
        | postRouting => exact hacc
        | localOut =>
            refine Or.inr ⟨skb.id, hnew, rfl, fun id => ?_⟩
            have hr : Module.running { s with
                  runs := ⟨skb, .lookup⟩ :: s.runs, seen := skb.id :: s.seen } id =
                s.running id + if skb.id = id then 1 else 0 := by
              simp [Module.running, List.countP_cons]
            unfold Module.places
            rw [hr]
            simp only [Module.waiting, Module.held, Module.hand, Module.ended]
            omega

/-- A call that goes on. -/
theorem advance_set_places {i : ℕ} {r : HookRun} (hr : s.runs[i]? = some r) (stage : Stage)
    {effects : List Effect} (he : ∀ id, effects.countP (Effect.ends id) = s.ended id) (id : ℕ) :
    Module.places { s with runs := s.runs.set i ⟨r.skb, stage⟩, effects := effects } id =
      s.places id := by
  have hset : (s.runs.set i ⟨r.skb, stage⟩).countP (fun r => r.skb.id == id) =
      s.running id := countP_set_of_eq hr rfl
  unfold Module.places
  simp only [Module.running, Module.ended, he] at hset ⊢
  rw [hset]
  rfl

/-- A call that ends with its packet, which is accepted or leaked. -/
theorem advance_end_places {i : ℕ} {r : HookRun} (hr : s.runs[i]? = some r) {x : Effect}
    (hx : ∀ id, Effect.ends id x = (r.skb.id == id)) (id : ℕ) :
    Module.places { s with runs := s.runs.eraseIdx i, effects := s.effects ++ [x] } id =
      s.places id := by
  have hrun := @countP_eraseIdx _ (fun r : HookRun => r.skb.id == id) _ _ _ hr
  unfold Module.places
  simp only [Module.running, Module.ended, List.countP_append, List.countP_singleton, hx] at hrun ⊢
  simp only [hrun, Module.waiting, Module.held, Module.hand]
  omega

theorem enqueue_places {i : ℕ} {r : HookRun} (hr : s.runs[i]? = some r) (granted : Bool) :
    (s.enqueue i granted r.skb).seen = s.seen ∧
      ∀ id, (s.enqueue i granted r.skb).places id = s.places id := by
  unfold Module.enqueue
  obtain ⟨-, -, he⟩ | ⟨-, hneg⟩ := enqueuePacket_cases granted r.skb s.queue
  · rw [he]
    refine ⟨rfl, fun id => ?_⟩
    have hrun := @countP_eraseIdx _ (fun r : HookRun => r.skb.id == id) _ _ _ hr
    unfold Module.places
    simp only [lt_irrefl, if_false, Module.running, Module.waiting, queueEntry,
      List.countP_append, List.countP_singleton] at hrun ⊢
    simp only [hrun, Module.held, Module.hand, Module.ended]
    omega
  · simp only [hneg, if_true]
    exact ⟨trivial, advance_end_places hr (fun _ => rfl)⟩

theorem advance_moves {i : ℕ} {r : HookRun} (hr : s.runs[i]? = some r) (granted : Bool) :
    Moves s (s.advance i granted r) := by
  refine Or.inl ?_
  unfold Module.advance
  cases r.stage with
  | lookup =>
      dsimp only
      split_ifs
      · exact ⟨rfl, advance_set_places hr .find (fun _ => rfl)⟩
      · exact ⟨rfl, advance_end_places hr (fun _ => rfl)⟩
  | find =>
      dsimp only
      split_ifs
      · exact ⟨rfl, advance_set_places hr .enqueue (fun _ => rfl)⟩
      · exact ⟨rfl, advance_set_places hr .send (fun _ => rfl)⟩
  | send =>
      refine ⟨rfl, advance_set_places hr .enqueue (fun id => ?_)⟩
      split_ifs
      · simp [Module.ended, Effect.ends, List.countP_append]
      · rfl
  | enqueue => exact enqueue_places hr granted

/-! ### Steps of the loop -/

/-- Taking an entry out moves it from the queue into the hand. -/
theorem take_places {h : Handler} (hh : s.handler = some h) (hnone : h.hand = none)
    {e : QueueEntry} {q : Queue} (hd : findDequeueEntry (destCmp h.daddr) s.queue = some (e, q))
    (id : ℕ) :
    Module.places { s with queue := q, handler := some { h with hand := some e } } id =
      s.places id := by
  obtain ⟨as, bs, hl, hl', -, -, -⟩ := findDequeueEntry_some hd
  unfold Module.places
  simp only [Module.waiting, Module.held, Module.hand, hh, hl, hl', hnone, List.countP_append,
    List.countP_cons, Option.bind_some, Option.toList_some, Option.toList_none, List.countP_nil]
  simp only [Module.running, Module.ended]
  omega

/-- What is in the hand ends. -/
theorem release_places {h : Handler} (hh : s.handler = some h) {e : QueueEntry}
    (he : h.hand = some e) (granted : Bool) :
    (s.release routingPort granted h e).seen = s.seen ∧
      ∀ id, (s.release routingPort granted h e).places id = s.places id := by
  have hand : s.hand = [e] := by rw [hand_of_some hh, he, Option.toList_some]
  have hstep : ∀ (handler : Option Handler) (xs : List Effect) (entries : ℕ),
      handler.bind Handler.hand = none →
      (∀ id, xs.countP (Effect.ends id) = if e.skb.id = id then 1 else 0) →
      ∀ id, Module.places { s with
        effects := s.effects ++ xs, handler := handler, entries := entries } id = s.places id := by
    intro handler xs entries hnone hxs id
    have hheld : s.held id = if e.skb.id = id then 1 else 0 := by
      simp [Module.held, hand, List.countP_singleton]
    unfold Module.places
    rw [hheld]
    simp only [Module.held, Module.hand, hnone, Module.ended, List.countP_append, hxs,
      Option.toList_none, List.countP_nil, Module.running, Module.waiting]
    omega
  unfold Module.release
  cases h.call with
  | setVerdict verdict daddr =>
      cases verdict with
      | send =>
          dsimp only
          split_ifs
          · exact ⟨rfl, hstep _ _ _ rfl (fun id => by simp [Effect.ends, List.countP_singleton])⟩
          · exact ⟨rfl, hstep _ _ _ rfl (fun id => by simp [Effect.ends, List.countP_singleton])⟩
      | drop =>
          refine ⟨rfl, ?_⟩
          simp only [List.append_assoc]
          refine hstep _ _ _ rfl (fun id => ?_)
          split_ifs <;> simp_all [Effect.ends]
  | sendWithData daddr =>
      dsimp only
      split_ifs
      · exact ⟨rfl, hstep none _ s.entries rfl
          (fun id => by simp [Effect.ends, redirected, List.countP_singleton])⟩
      · exact ⟨rfl, hstep _ _ _ rfl
          (fun id => by simp [Effect.ends, redirected, List.countP_cons])⟩

theorem iterate_moves {h : Handler} (hh : s.handler = some h) (granted : Bool) :
    Moves s (s.iterate routingPort granted h) := by
  refine Or.inl ?_
  unfold Module.iterate
  cases he : h.hand with
  | some e => exact release_places hh he granted
  | none =>
      dsimp only
      cases hd : findDequeueEntry (destCmp h.daddr) s.queue with
      | none =>
          refine ⟨rfl, fun id => ?_⟩
          simp only [Module.places, Module.held, Module.hand, hh, he, Module.running,
            Module.waiting, Module.ended, Option.bind_some, Option.bind_none]
      | some p => exact ⟨rfl, take_places hh he hd⟩

/-! ### The other steps -/

theorem received_moves (hn : s.handler = none) (skb : NlSkb) (granted : Bool) (jiffies : UInt64) :
    Moves s (s.received HZ skb granted jiffies) := by
  refine Or.inl ⟨rfl, fun id => ?_⟩
  unfold Module.places Module.held
  rw [received_hand_nil, hand_of_none hn]
  rfl

/-- The flush moves the packets from the queue to the end. -/
theorem flushed_places (s : Module) (id : ℕ) : s.flushed.places id = s.places id := by
  have hw : s.flushed.waiting id = 0 := by
    simp [Module.waiting, Module.flushed, cpcQueueFlush_eq]
  have he : s.flushed.ended id = s.ended id + s.waiting id := by
    simp only [Module.ended, Module.flushed, Module.waiting, cpcQueueFlush_eq, List.countP_append,
      List.countP_map]
    rfl
  unfold Module.places
  rw [hw, he]
  simp only [Module.running, Module.held, Module.hand, Module.flushed]
  omega

theorem timeout_moves (s : Module) (jiffies : UInt64) : Moves s (s.timeout jiffies) := by
  refine Or.inl ⟨rfl, fun id => ?_⟩
  have he : (s.timeout jiffies).ended id = s.ended id := by
    simp only [Module.ended, Module.timeout, List.countP_append, List.countP_map,
      Nat.add_eq_left, List.countP_eq_zero]
    rintro rt -
    simp [Effect.ends]
  unfold Module.places
  rw [he]
  rfl

theorem unload_moves (h : s.unload = some s') : Moves s s' := by
  refine Or.inl ?_
  unfold Module.unload at h
  cases hp : s.phase with
  | unhooked =>
      rw [hp] at h
      cases h
      exact ⟨rfl, flushed_places s⟩
  | purged =>
      rw [hp] at h
      simp only at h
      split_ifs at h
      cases h
      exact ⟨rfl, fun _ => rfl⟩
  | loaded | queueDone | rtDone =>
      rw [hp] at h
      cases h
      exact ⟨rfl, fun _ => rfl⟩
  | unloaded =>
      rw [hp] at h
      cases h

theorem step_moves {a : Action} (h : step HZ routingPort s a = some s') : Moves s s' := by
  cases a with
  | hook hooknum skb ifindex =>
      simp only [step] at h
      split_ifs at h with hc
      cases h
      exact hook_moves (fun hm => hc (Or.inl hm)) hooknum ifindex
  | advance i granted =>
      obtain ⟨r, hr, rfl⟩ := Option.map_eq_some_iff.mp h
      exact advance_moves hr granted
  | message skb granted jiffies =>
      obtain ⟨hn, rfl⟩ := step_message h
      exact received_moves hn skb granted jiffies
  | iterate granted =>
      obtain ⟨h', hh, rfl⟩ := Option.map_eq_some_iff.mp h
      exact iterate_moves hh granted
  | event event n =>
      cases h
      refine Or.inl ?_
      unfold Module.event
      split_ifs
      · exact ⟨rfl, fun _ => rfl⟩
      · exact ⟨rfl, fun _ => rfl⟩
  | flush =>
      simp only [step] at h
      split_ifs at h
      cases h
      exact Or.inl ⟨rfl, flushed_places s⟩
  | timeout jiffies =>
      simp only [step] at h
      split_ifs at h
      cases h
      exact timeout_moves s jiffies
  | unload => exact unload_moves h

theorem accounted_init (ifs : List IfInfo) : Accounted (Module.init ifs) := by
  intro id
  simp [Module.places, Module.running, Module.waiting, Module.held, Module.hand, Module.ended,
    Module.init]

/-- **No packet twice.** In every state of a run each packet that came to the hook is in one place,
and no other packet is anywhere. -/
theorem accounted {ifs : List IfInfo} {as : List Action}
    (hr : Run (step HZ routingPort) Free (Module.init ifs) as s) :
    ∀ id, s.places id = if id ∈ s.seen then 1 else 0 :=
  hr.inv Accounted (fun _ _ _ ha _ h => ha.moves (step_moves h)) (accounted_init ifs)

/-- One interface. -/
def sampleIfs : List IfInfo := [⟨2, 0x0100000a, 0xff00000a⟩]

/-- A packet for 10.0.0.2. -/
def samplePacket (id : ℕ) : SkBuff := ⟨id, true, 0, 0x0100000a, 0x0200000a, 80⟩

/-- The daemon's message of the type, for 10.0.0.2. -/
def sampleMessage (type : UInt8) : NlSkb :=
  ⟨48, 48, type.toUInt16, 1, 77, ⟨0x0200000a, 0x0300000a, 2, 1000⟩, ⟨0x1000, 5, 0x0200000a⟩⟩

/-- Two packets are queued, and a message comes. -/
def sampleActions (type : UInt8) : List Action :=
  [.hook .localOut (samplePacket 1) 2, .advance 0 true, .advance 0 true, .advance 0 true,
    .advance 0 true, .hook .localOut (samplePacket 2) 2, .advance 0 true, .advance 0 true,
    .advance 0 true, .message (sampleMessage type) true 100, .iterate true, .iterate true,
    .iterate true]

/-- One packet is handed on, the other is in the hand of the loop. -/
theorem accounted_sample : ∃ s, Run (step 250 654) Free (Module.init sampleIfs)
      (sampleActions CPC_ROUTE_ADD) s ∧ s.held 2 = 1 ∧
      ∀ id, s.places id = if id ∈ s.seen then 1 else 0 := by
  have hr : Run (step 250 654) Free (Module.init sampleIfs) (sampleActions CPC_ROUTE_ADD) _ :=
    run_of_exec _ rfl
  exact ⟨_, hr, by decide, accounted hr⟩

/-! ### Leaks -/

/-- No effect is a leak. -/
def NoLeak (l : List Effect) : Prop := ∀ x ∈ l, x.isLeak = false

theorem noLeak_append {l xs : List Effect} : NoLeak (l ++ xs) ↔ NoLeak l ∧ NoLeak xs :=
  List.forall_mem_append

/-- The condition: an enqueuing is granted and finds space, and no packet is copied. -/
def Kept (s : Module) : Action → Prop
  | .advance i granted => ∀ r, s.runs[i]? = some r → r.stage = .enqueue →
      granted = true ∧ s.queue.total < queueMaxlen
  | .iterate _ => ∀ h e daddr, s.handler = some h → h.hand = some e → h.call ≠ .sendWithData daddr
  | _ => True

/-- Of a packet that is accounted for, a leak is all that can be missing. -/
theorem Accounted.conserved_iff (h : Accounted s) : Conserved s ↔ NoLeak s.effects := by
  have hsplit : ∀ id, s.ended id = s.effects.countP (fun x => x.ends id && !x.isLeak) +
      s.effects.countP (fun x => x.ends id && x.isLeak) := by
    intro id
    unfold Module.ended
    induction s.effects with
    | nil => rfl
    | cons x xs ih =>
        simp only [List.countP_cons, ih]
        cases x.ends id <;> cases x.isLeak <;> simp <;> omega
  have hplaces : ∀ id ∈ s.seen, s.running id + s.waiting id + s.held id + s.ended id = 1 :=
    fun id hid => (h id).trans (if_pos hid)
  constructor
  · intro hc x hx
    cases x with
    | leak why skb =>
        have hpos : 0 < s.effects.countP (fun x => x.ends skb.id && x.isLeak) :=
          List.countP_pos_iff.mpr ⟨_, hx, by simp [Effect.ends, Effect.isLeak]⟩
        have hsum := hsplit skb.id
        by_cases hid : skb.id ∈ s.seen
        · have := hplaces _ hid
          have := hc _ hid
          omega
        · have hzero := h skb.id
          rw [if_neg hid] at hzero
          unfold Module.places at hzero
          omega
    | _ => rfl
  · intro hn id hid
    have hzero : s.effects.countP (fun x => x.ends id && x.isLeak) = 0 := by
      refine List.countP_eq_zero.mpr (fun x hx => ?_)
      simp [hn x hx]
    have := hplaces id hid
    have := hsplit id
    omega

theorem hook_noLeak (hs : NoLeak s.effects) (hooknum : HookNum) (skb : SkBuff) (ifindex : ℤ) :
    NoLeak (s.hook hooknum skb ifindex).effects := by
  have hacc : NoLeak (s.accept skb).effects :=
    noLeak_append.mpr ⟨hs, by simp [NoLeak, Effect.isLeak]⟩
  unfold Module.hook
  split_ifs
  · exact hacc
  · split
    · exact hacc
    · cases hooknum
      · exact hacc
      · exact hacc
      · exact hs

/-- A call leaks its packet exactly when the enqueuing is refused. -/
theorem advance_noLeak (hs : NoLeak s.effects) (i : ℕ) (granted : Bool) (r : HookRun) :
    NoLeak (s.advance i granted r).effects ↔
      (r.stage = .enqueue → granted = true ∧ s.queue.total < queueMaxlen) := by
  unfold Module.advance
  cases r.stage with
  | lookup =>
      refine iff_of_true ?_ (by simp)
      dsimp only
      split_ifs
      · exact hs
      · exact noLeak_append.mpr ⟨hs, by simp [NoLeak, Effect.isLeak]⟩
  | find =>
      refine iff_of_true ?_ (by simp)
      dsimp only
      split_ifs
      · exact hs
      · exact hs
  | send =>
      refine iff_of_true ?_ (by simp)
      dsimp only
      split_ifs
      · exact noLeak_append.mpr ⟨hs, by simp [NoLeak, Effect.isLeak]⟩
      · exact hs
  | enqueue =>
      simp only [true_implies]
      unfold Module.enqueue
      obtain ⟨hg, hlt, he⟩ | ⟨hn, hneg⟩ := enqueuePacket_cases granted r.skb s.queue
      · rw [he]
        exact iff_of_true hs ⟨hg, hlt⟩
      · simp only [hneg, if_true]
        refine iff_of_false (fun h => ?_) hn
        have := (noLeak_append.mp h).2 _ List.mem_cons_self
        cases this

/-- The loop leaks the packet in its hand exactly when it copies. -/
theorem iterate_noLeak (hs : NoLeak s.effects) (granted : Bool) (h : Handler) :
    NoLeak (s.iterate routingPort granted h).effects ↔
      ∀ e daddr, h.hand = some e → h.call ≠ .sendWithData daddr := by
  unfold Module.iterate
  cases he : h.hand with
  | none =>
      refine iff_of_true ?_ (by simp)
      dsimp only
      split
      · exact hs
      · exact hs
  | some e =>
      unfold Module.release
      cases hc : h.call with
      | setVerdict verdict daddr =>
          refine iff_of_true ?_ (by simp)
          cases verdict with
          | send =>
              dsimp only
              split_ifs <;>
                exact noLeak_append.mpr ⟨hs, by simp [NoLeak, Effect.isLeak]⟩
          | drop =>
              refine noLeak_append.mpr ⟨noLeak_append.mpr ⟨hs, ?_⟩, by simp [NoLeak, Effect.isLeak]⟩
              split_ifs <;> simp [NoLeak, Effect.isLeak]
      | sendWithData daddr =>
          refine iff_of_false (fun h => ?_) (fun h => h e daddr rfl rfl)
          dsimp only at h
          split_ifs at h
          · have := (noLeak_append.mp h).2 _ List.mem_cons_self
            cases this
          · have := (noLeak_append.mp h).2 _ (List.mem_cons_of_mem _ List.mem_cons_self)
            cases this

theorem flushed_noLeak (hs : NoLeak s.effects) : NoLeak s.flushed.effects := by
  refine noLeak_append.mpr ⟨hs, fun x hx => ?_⟩
  obtain ⟨e, -, rfl⟩ := List.mem_map.mp hx
  rfl

theorem step_noLeak {a : Action} (hs : NoLeak s.effects)
    (h : step HZ routingPort s a = some s') : NoLeak s'.effects ↔ Kept s a := by
  cases a with
  | hook hooknum skb ifindex =>
      simp only [step] at h
      split_ifs at h
      cases h
      exact iff_of_true (hook_noLeak hs hooknum skb ifindex) trivial
  | advance i granted =>
      obtain ⟨r, hr, rfl⟩ := Option.map_eq_some_iff.mp h
      rw [advance_noLeak hs]
      unfold Kept
      simp only [hr, Option.some.injEq, forall_eq']
  | iterate granted =>
      obtain ⟨h', hh, rfl⟩ := Option.map_eq_some_iff.mp h
      rw [iterate_noLeak hs]
      unfold Kept
      constructor
      · intro hk k e daddr hk' he
        rw [hh] at hk'
        cases hk'
        exact hk e daddr he
      · intro hk e daddr he
        exact hk h' e daddr hh he
  | message skb granted jiffies =>
      simp only [step] at h
      split_ifs at h
      cases h
      exact iff_of_true hs trivial
  | event event n =>
      cases h
      refine iff_of_true ?_ trivial
      unfold Module.event
      split_ifs
      · exact hs
      · exact hs
  | flush =>
      simp only [step] at h
      split_ifs at h
      cases h
      exact iff_of_true (flushed_noLeak hs) trivial
  | timeout jiffies =>
      simp only [step] at h
      split_ifs at h
      cases h
      refine iff_of_true (noLeak_append.mpr ⟨hs, fun x hx => ?_⟩) trivial
      obtain ⟨rt, -, rfl⟩ := List.mem_map.mp hx
      rfl
  | unload =>
      refine iff_of_true ?_ trivial
      have h : s.unload = some s' := h
      unfold Module.unload at h
      split at h
      all_goals try split_ifs at h
      all_goals cases h
      · exact hs
      · exact hs
      · exact flushed_noLeak hs
      · exact hs
      · exact hs

/-- **No packet lost.** In every state of a run all packets that came to the hook are under way, in
the queue or in the hand of the loop, or were accepted, handed on or freed, exactly when the module
refuses no enqueuing and copies no packet. -/
theorem nothingLost_iff {ifs : List IfInfo} {as : List Action}
    (hr : Run (step HZ routingPort) Free (Module.init ifs) as s) :
    (∀ bs cs t, as = bs ++ cs → Run (step HZ routingPort) Free (Module.init ifs) bs t →
      Conserved t) ↔
      Run (step HZ routingPort) Kept (Module.init ifs) as s := by
  have hinit : NoLeak (Module.init ifs).effects := by simp [NoLeak, Module.init]
  refine Run.forall_iff (I := fun s => Accounted s ∧ NoLeak s.effects) (P := Conserved) ?_ ?_
    ⟨accounted_init ifs, hinit⟩ ((accounted_init ifs).conserved_iff.mpr hinit) hr
  · intro t a t' hi h
    rw [(hi.1.moves (step_moves h)).conserved_iff]
    exact step_noLeak hi.2 h
  · intro t a t' hi hc h
    exact ⟨hi.1.moves (step_moves h), (step_noLeak hi.2 h).mpr hc⟩

/-- One packet, which is queued. -/
def queueOne : List Action :=
  [.hook .localOut (samplePacket 1) 2, .advance 0 true, .advance 0 true, .advance 0 true,
    .advance 0 true]

theorem nothingLost_iff_sample : ∃ s, Run (step 250 654) Free (Module.init sampleIfs) queueOne s ∧
    ∀ bs cs t, queueOne = bs ++ cs → Run (step 250 654) Free (Module.init sampleIfs) bs t →
      Conserved t := by
  have hr : Run (step 250 654) Free (Module.init sampleIfs) queueOne _ := run_of_exec _ rfl
  have hkept : Run (step 250 654) Kept (Module.init sampleIfs) queueOne _ :=
    Run.cons trivial rfl (Run.cons (fun _ _ _ => ⟨rfl, by decide⟩) rfl
      (Run.cons (fun _ _ _ => ⟨rfl, by decide⟩) rfl (Run.cons (fun _ _ _ => ⟨rfl, by decide⟩) rfl
        (Run.single (fun _ _ _ => ⟨rfl, by decide⟩) rfl))))
  exact ⟨_, hr, (nothingLost_iff hr).mpr hkept⟩

end GeoSvr.CpcMod
