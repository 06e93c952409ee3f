import GeoSvr.CpcModuleRuns

/-! # Messages and memory of the CPC kernel module (`cpc_queue.c`, `cpc_rt.c`)

A message of the daemon causes one ICMP message at the most (`icmp_le_drops`), and only one that
drops packets causes any.

`queue_total` is right and at most `CPC_QUEUE_MAX_DEFAULT`; the memory of an entry of the queue is
lost exactly with a packet that could not be copied, and that of a route exactly when it expires
(`memory_balance`).

A call of the hook leaves the loop and the table alone, and does one of three things at the most
(`ByHook`); the counts of everything else stay. -/

namespace GeoSvr.CpcMod

open Runs CpcRt
open Cpc (Stage Verdict)

variable {HZ : UInt64} {routingPort : UInt16} {s s' : Module}

/-! ### What the calls of the hook do -/

/-- What a call of the hook does. -/
def Effect.byHook : Effect → Bool
  | .accept _ | .request _ | .leak .refused _ => true
  | _ => false

/-- The step is one of a call of the hook: it leaves the loop and the table alone. -/
structure ByHook (s t : Module) : Prop where
  handler : t.handler = s.handler
  table : t.table = s.table
  rts : t.rts = s.rts
  effects : ∃ xs, t.effects = s.effects ++ xs ∧ ∀ x ∈ xs, x.byHook = true

theorem hook_byHook (s : Module) (hooknum : HookNum) (skb : SkBuff) (ifindex : ℤ) :
    ByHook s (s.hook hooknum skb ifindex) := by
  have hacc : ByHook s (s.accept skb) :=
    ⟨rfl, rfl, rfl, [.accept skb], rfl, by simp [Effect.byHook]⟩
  unfold Module.hook
  split_ifs
  · exact hacc
  · split
    · exact hacc
    · cases hooknum
      · exact hacc
      · exact hacc
      · exact ⟨rfl, rfl, rfl, [], (List.append_nil _).symm, by simp⟩

theorem advance_byHook (s : Module) (i : ℕ) (granted : Bool) (r : HookRun) :
    ByHook s (s.advance i granted r) := by
  unfold Module.advance
  cases r.stage with
  | lookup =>
      dsimp only
      split_ifs
      · exact ⟨rfl, rfl, rfl, [], (List.append_nil _).symm, by simp⟩
      · exact ⟨rfl, rfl, rfl, [.accept r.skb], rfl, by simp [Effect.byHook]⟩
  | find =>
      dsimp only
      split_ifs <;> exact ⟨rfl, rfl, rfl, [], (List.append_nil _).symm, by simp⟩
  | send =>
      dsimp only
      split_ifs
      · exact ⟨rfl, rfl, rfl, [.request r.skb.daddr], rfl, by simp [Effect.byHook]⟩
      · exact ⟨rfl, rfl, rfl, [], (List.append_nil _).symm, by simp⟩
  | enqueue =>
      unfold Module.enqueue
      dsimp only
      split_ifs
      · exact ⟨rfl, rfl, rfl, [.leak .refused r.skb], rfl, by simp [Effect.byHook]⟩
      · exact ⟨rfl, rfl, rfl, [], (List.append_nil _).symm, by simp⟩

/-- Effects of another kind are not counted. -/
theorem countP_append_of_not {p : Effect → Bool} {l xs : List Effect}
    (hx : ∀ x ∈ xs, p x = false) : (l ++ xs).countP p = l.countP p := by
  have hzero : xs.countP p = 0 := List.countP_eq_zero.mpr (fun x h => by simp [hx x h])
  rw [List.countP_append, hzero, Nat.add_zero]

theorem ByHook.countP {t : Module} (h : ByHook s t) {p : Effect → Bool}
    (hp : ∀ x, x.byHook = true → p x = false) : t.effects.countP p = s.effects.countP p := by
  obtain ⟨xs, he, hx⟩ := h.effects
  rw [he]
  exact countP_append_of_not (fun x hm => hp x (hx x hm))

/-! ### ICMP messages -/

def Effect.isIcmp : Effect → Bool
  | .icmpSend _ => true
  | _ => false

/-- The step is a message that drops packets. -/
def Action.drops : Action → Bool
  | .message skb _ _ => CpcMod.drops skb.message
  | _ => false

/-- The loop may still send an ICMP message. -/
def Handler.mayIcmp (h : Handler) : Bool :=
  match h.call with
  | .setVerdict .drop _ => h.pkts = 0
  | _ => false

/-- The ICMP messages that were sent, and the one that may be. -/
def Module.icmps (s : Module) : ℕ :=
  s.effects.countP Effect.isIcmp + if s.handler.any Handler.mayIcmp then 1 else 0

theorem ByHook.icmps {t : Module} (h : ByHook s t) : t.icmps = s.icmps := by
  unfold Module.icmps
  rw [h.handler, h.countP (fun x hx => by cases x <;> simp_all [Effect.byHook, Effect.isIcmp])]

/-- Only a message that drops packets starts a loop that may send an ICMP message. -/
theorem received_mayIcmp (s : Module) (skb : NlSkb) (granted : Bool) (jiffies : UInt64)
    (h : (s.received HZ skb granted jiffies).handler.any Handler.mayIcmp = true) :
    Action.drops (.message skb granted jiffies) = true := by
  unfold Module.received at h
  dsimp only at h
  obtain ⟨-, -, hq⟩ | ⟨len, -, -, hq⟩ :=
    rcvSkb_cases HZ granted jiffies skb s.peerPid s.table s.rts
  · rw [hq] at h
    cases h
  · rw [hq] at h
    cases hc : (cpcNetlinkReceivePeer HZ granted jiffies len s.table skb.message).queue with
    | none =>
        rw [hc] at h
        cases h
    | some call =>
        rw [hc] at h
        cases call with
        | setVerdict verdict daddr =>
            cases verdict with
            | drop => exact receivePeer_drop hc
            | send => cases h
        | sendWithData daddr => cases h

/-- The loop sends its message when it drops its first packet. -/
theorem release_icmps {h : Handler} (hh : s.handler = some h) (granted : Bool) (e : QueueEntry) :
    (s.release routingPort granted h e).icmps ≤ s.icmps := by
  have hold : s.icmps = s.effects.countP Effect.isIcmp + if h.mayIcmp then 1 else 0 := by
    simp [Module.icmps, hh]
  rw [hold]
  unfold Module.release
  cases hc : h.call with
  | setVerdict verdict daddr =>
      cases verdict with
      | send =>
          dsimp only
          split_ifs <;>
            simp [Module.icmps, Handler.mayIcmp, Effect.isIcmp, List.countP_append]
      | drop =>
          dsimp only
          by_cases hp : h.pkts = 0 <;>
            simp [Module.icmps, Handler.mayIcmp, hc, hp, Effect.isIcmp, List.countP_append,
              List.countP_cons]
  | sendWithData daddr =>
      dsimp only
      split_ifs <;>
        simp [Module.icmps, Handler.mayIcmp, Effect.isIcmp, List.countP_append]

theorem iterate_icmps {h : Handler} (hh : s.handler = some h) (granted : Bool) :
    (s.iterate routingPort granted h).icmps ≤ s.icmps := by
  unfold Module.iterate
  cases h.hand with
  | some e => exact release_icmps hh granted e
  | none =>
      dsimp only
      split
      · unfold Module.icmps
        simp
      · unfold Module.icmps
        rw [hh]
        exact le_rfl

theorem flushed_icmps (s : Module) : s.flushed.icmps = s.icmps := by
  unfold Module.icmps Module.flushed
  rw [countP_append_of_not (fun x hx => ?_)]
  obtain ⟨e, -, rfl⟩ := List.mem_map.mp hx
  rfl

theorem step_icmps {a : Action} (h : step HZ routingPort s a = some s') :
    s'.icmps ≤ s.icmps + if a.drops then 1 else 0 := by
  have hle : ∀ {t : Module}, t.icmps ≤ s.icmps → t.icmps ≤ s.icmps + if a.drops then 1 else 0 :=
    fun h => h.trans (Nat.le_add_right _ _)
  cases a with
  | hook hooknum skb ifindex =>
      simp only [step] at h
      split_ifs at h
      cases h
      exact hle (hook_byHook s hooknum skb ifindex).icmps.le
  | advance i granted =>
      obtain ⟨r, -, rfl⟩ := Option.map_eq_some_iff.mp h
      exact hle (advance_byHook s i granted r).icmps.le
  | message skb granted jiffies =>
      obtain ⟨-, rfl⟩ := step_message h
      have hsame : (s.received HZ skb granted jiffies).effects = s.effects := rfl
      unfold Module.icmps
      rw [hsame]
      by_cases hmay : (s.received HZ skb granted jiffies).handler.any Handler.mayIcmp = true
      · rw [if_pos hmay, if_pos (received_mayIcmp s skb granted jiffies hmay)]
        omega
      · rw [if_neg hmay]
        omega
  | iterate granted =>
      obtain ⟨k, hk, rfl⟩ := Option.map_eq_some_iff.mp h
      exact hle (iterate_icmps hk granted)
  | event event n =>
      cases h
      refine hle ?_
      unfold Module.event
      split_ifs
      · exact le_rfl
      · exact le_rfl
  | flush =>
      simp only [step] at h
      split_ifs at h
      cases h
      exact hle (flushed_icmps s).le
  | timeout jiffies =>
      simp only [step] at h
      split_ifs at h
      cases h
      refine hle (le_of_eq ?_)
      unfold Module.icmps Module.timeout
      rw [countP_append_of_not (fun x hx => ?_)]
      obtain ⟨rt, -, rfl⟩ := List.mem_map.mp hx
      rfl
  | unload =>
      have h : s.unload = some s' := h
      unfold Module.unload at h
      split at h
      all_goals try split_ifs at h
      all_goals cases h
      · exact hle le_rfl
      · exact hle le_rfl
      · exact hle (flushed_icmps s).le
      · exact hle le_rfl
      · exact hle le_rfl

/-- **One ICMP message for a message of the daemon.** In every run the module sends at most as many
ICMP messages as it got messages that drop packets. -/
theorem icmp_le_drops {ifs : List IfInfo} {as : List Action}
    (hr : Run (step HZ routingPort) Free (Module.init ifs) as s) :
    s.effects.countP Effect.isIcmp ≤ as.countP Action.drops := by
  have hle := hr.le_add_countP Module.icmps Action.drops (fun _ _ _ _ h => step_icmps h)
  have hinit : (Module.init ifs).icmps = 0 := by simp [Module.icmps, Module.init]
  have hs : s.effects.countP Effect.isIcmp ≤ s.icmps := Nat.le_add_right _ _
  omega

/-- Two packets are dropped. -/
theorem icmp_le_drops_sample : ∃ s, Run (step 250 654) Free (Module.init sampleIfs)
      (sampleActions CPC_DROP_QUEUE ++ [.iterate true]) s ∧
      s.effects.countP (Effect.ends 2) = 1 ∧
      s.effects.countP Effect.isIcmp ≤
        (sampleActions CPC_DROP_QUEUE ++ [Action.iterate true]).countP Action.drops := by
  have hr : Run (step 250 654) Free (Module.init sampleIfs)
      (sampleActions CPC_DROP_QUEUE ++ [.iterate true]) _ := run_of_exec _ rfl
  exact ⟨_, hr, by decide, icmp_le_drops hr⟩

/-! ### Counters and memory -/

/-- An entry of the queue is not freed. -/
def Effect.losesEntry : Effect → Bool
  | .leak .notCopied _ => true
  | _ => false

/-- A route is not freed. -/
def Effect.losesRoute : Effect → Bool
  | .expire _ => true
  | _ => false

/-- The counters. -/
structure Balanced (s : Module) : Prop where
  total : s.queue.total = s.queue.list.length
  bound : s.queue.total ≤ queueMaxlen
  entries : s.entries = s.queue.list.length + s.hand.length + s.effects.countP Effect.losesEntry
  rts : s.rts = s.table.list.length + s.effects.countP Effect.losesRoute

theorem balanced_init (ifs : List IfInfo) : Balanced (Module.init ifs) where
  total := rfl
  bound := Nat.zero_le _
  entries := rfl
  rts := rfl

theorem losesEntry_of_byHook {x : Effect} (h : x.byHook = true) : x.losesEntry = false := by
  cases x with
  | leak why skb =>
      cases why with
      | refused => rfl
      | copied | notCopied => cases h
  | _ => rfl

theorem losesRoute_of_byHook {x : Effect} (h : x.byHook = true) : x.losesRoute = false := by
  cases x with
  | expire rt => cases h
  | _ => rfl

/-- A step of the hook that queues nothing. -/
theorem Balanced.byHook (hs : Balanced s) {t : Module} (h : ByHook s t) (hq : t.queue = s.queue)
    (he : t.entries = s.entries) : Balanced t where
  total := hq ▸ hs.total
  bound := hq ▸ hs.bound
  entries := by
    have hhand : t.hand = s.hand := by unfold Module.hand; rw [h.handler]
    rw [he, hq, hhand, hs.entries, h.countP (fun _ => losesEntry_of_byHook)]
  rts := by
    rw [h.rts, h.table, hs.rts, h.countP (fun _ => losesRoute_of_byHook)]

theorem hook_balanced (hs : Balanced s) (hooknum : HookNum) (skb : SkBuff) (ifindex : ℤ) :
    Balanced (s.hook hooknum skb ifindex) := by
  refine hs.byHook (hook_byHook s hooknum skb ifindex) ?_ ?_
  all_goals
    unfold Module.hook
    split_ifs
    · rfl
    · split
      · rfl
      · cases hooknum <;> rfl

theorem advance_balanced (hs : Balanced s) (i : ℕ) (granted : Bool) (r : HookRun) :
    Balanced (s.advance i granted r) := by
  have hby := advance_byHook s i granted r
  unfold Module.advance at hby ⊢
  cases hst : r.stage with
  | lookup | find =>
      rw [hst] at hby
      dsimp only at hby ⊢
      split_ifs at hby ⊢ <;> exact hs.byHook hby rfl rfl
  | send =>
      rw [hst] at hby
      exact hs.byHook hby rfl rfl
  | enqueue =>
      rw [hst] at hby
      dsimp only at hby ⊢
      unfold Module.enqueue at hby ⊢
      obtain ⟨-, hlt, he⟩ | ⟨-, hneg⟩ := enqueuePacket_cases granted r.skb s.queue
      · rw [he]
        simp only [lt_irrefl, if_false]
        have htotal := hs.total
        refine ⟨?_, hlt, ?_, hs.rts⟩
        · simp [htotal]
        · have hent := hs.entries
          simp only [List.length_append, List.length_singleton]
          simp only [Module.hand] at hent ⊢
          omega
      · simp only [hneg, if_true] at hby ⊢
        exact hs.byHook hby rfl rfl

/-- Taking an entry out. -/
theorem take_balanced (hs : Balanced s) {h : Handler} (hh : s.handler = some h)
    (hnone : h.hand = none) {e : QueueEntry} {q : Queue}
    (hd : findDequeueEntry (destCmp h.daddr) s.queue = some (e, q)) :
    Balanced { s with queue := q, handler := some { h with hand := some e } } := by
  obtain ⟨as, bs, hl, hl', -, -, htot⟩ := findDequeueEntry_some hd
  have hlen : s.queue.list.length = q.list.length + 1 := by
    rw [hl, hl']
    simp only [List.length_append, List.length_cons]
    omega
  have htotal := hs.total
  have hbound := hs.bound
  refine ⟨?_, ?_, ?_, hs.rts⟩
  · show q.total = q.list.length
    omega
  · show q.total ≤ queueMaxlen
    omega
  · have hent := hs.entries
    have hhand : s.hand = [] := by rw [hand_of_some hh, hnone, Option.toList_none]
    rw [hhand, List.length_nil, Nat.add_zero, hlen] at hent
    exact hent

/-- The entry in the hand is freed, or lost. -/
theorem release_balanced (hs : Balanced s) {h : Handler} (hh : s.handler = some h)
    {e : QueueEntry} (he : h.hand = some e) (granted : Bool) :
    Balanced (s.release routingPort granted h e) := by
  have hand : s.hand = [e] := by rw [hand_of_some hh, he, Option.toList_some]
  have hent := hs.entries
  rw [hand, List.length_singleton] at hent
  have hstep : ∀ (handler : Option Handler) (xs : List Effect) (entries : ℕ),
      handler.bind Handler.hand = none →
      entries + 1 = s.entries + xs.countP Effect.losesEntry →
      xs.countP Effect.losesRoute = 0 →
      Balanced { s with effects := s.effects ++ xs, handler := handler, entries := entries } := by
    intro handler xs entries hnone hxs hroute
    refine ⟨hs.total, hs.bound, ?_, ?_⟩
    · simp only [Module.hand, hnone, List.countP_append, Option.toList_none, List.length_nil]
      omega
    · have hrts := hs.rts
      simp only [List.countP_append, hroute]
      exact hrts
  unfold Module.release
  cases h.call with
  | setVerdict verdict daddr =>
      cases verdict with
      | send =>
          dsimp only
          split_ifs
          · exact hstep _ _ _ rfl (by simp [Effect.losesEntry]; omega) rfl
          · exact hstep _ _ _ rfl (by simp [Effect.losesEntry]; omega) rfl
      | drop =>
          simp only [List.append_assoc]
          refine hstep _ _ _ rfl ?_ ?_
          · split_ifs <;> simp [Effect.losesEntry] <;> omega
          · split_ifs <;> rfl
  | sendWithData daddr =>
      dsimp only
      split_ifs
      · exact hstep none _ s.entries rfl rfl rfl
      · exact hstep _ _ _ rfl (by simp [Effect.losesEntry]; omega) rfl

theorem flushed_balanced (hs : Balanced s) : Balanced s.flushed := by
  have htotal := hs.total
  have hent := hs.entries
  refine ⟨?_, ?_, ?_, ?_⟩
  · simp [Module.flushed, cpcQueueFlush_eq, htotal]
  · simp [Module.flushed, cpcQueueFlush_eq, htotal]
  · have hkeep : s.flushed.effects.countP Effect.losesEntry =
        s.effects.countP Effect.losesEntry := by
      refine countP_append_of_not (fun x hx => ?_)
      obtain ⟨e, -, rfl⟩ := List.mem_map.mp hx
      rfl
    rw [hkeep]
    simp only [Module.flushed, cpcQueueFlush_eq, List.length_nil, Nat.zero_add]
    simp only [Module.hand] at hent ⊢
    omega
  · have hkeep : s.flushed.effects.countP Effect.losesRoute =
        s.effects.countP Effect.losesRoute := by
      refine countP_append_of_not (fun x hx => ?_)
      obtain ⟨e, -, rfl⟩ := List.mem_map.mp hx
      rfl
    rw [hkeep]
    exact hs.rts

theorem rtFlushed_balanced (hs : Balanced s) : Balanced s.rtFlushed := by
  refine ⟨hs.total, hs.bound, hs.entries, ?_⟩
  have hrts := hs.rts
  simp only [Module.rtFlushed, cpcRtFlush, List.length_nil]
  omega

/-- What expires leaves the table and keeps its memory. -/
theorem timeout_balanced (hs : Balanced s) (jiffies : UInt64) : Balanced (s.timeout jiffies) := by
  have hle := (cpcRtTimeout_suffix jiffies s.table).length_le
  have hent := hs.entries
  have hrts := hs.rts
  refine ⟨hs.total, hs.bound, ?_, ?_⟩
  · have hkeep : (s.timeout jiffies).effects.countP Effect.losesEntry =
        s.effects.countP Effect.losesEntry := by
      refine countP_append_of_not (fun x hx => ?_)
      obtain ⟨rt, -, rfl⟩ := List.mem_map.mp hx
      rfl
    rw [hkeep]
    exact hent
  · have hmore : (s.timeout jiffies).effects.countP Effect.losesRoute =
        s.effects.countP Effect.losesRoute +
          (s.table.list.length - (cpcRtTimeout jiffies s.table).list.length) := by
      simp only [Module.timeout, List.countP_append, List.countP_map]
      have hall : ∀ l : List RtEntry, l.countP (Effect.losesRoute ∘ Effect.expire) = l.length :=
        fun l => List.countP_eq_length.mpr (fun _ _ => rfl)
      rw [hall, List.length_take]
      omega
    rw [hmore]
    simp only [Module.timeout]
    omega

theorem step_balanced (hs : Balanced s) {a : Action} (h : step HZ routingPort s a = some s') :
    Balanced s' := by
  cases a with
  | hook hooknum skb ifindex =>
      simp only [step] at h
      split_ifs at h
      cases h
      exact hook_balanced hs hooknum skb ifindex
  | advance i granted =>
      obtain ⟨r, -, rfl⟩ := Option.map_eq_some_iff.mp h
      exact advance_balanced hs i granted r
  | message skb granted jiffies =>
      obtain ⟨hn, rfl⟩ := step_message h
      have hrts := hs.rts
      have hent := hs.entries
      rw [hand_of_none hn] at hent
      refine ⟨hs.total, hs.bound, ?_, ?_⟩
      · rw [received_hand_nil]
        exact hent
      · show (cpcNetlinkRcvSkb HZ granted jiffies skb s.peerPid s.table s.rts).rts = _
        obtain ⟨ht, hr, -⟩ | ⟨len, ht, hr, -⟩ :=
          rcvSkb_cases HZ granted jiffies skb s.peerPid s.table s.rts
        · rw [hr, hrts]
          simp only [Module.received, ht]
        · have hbal := rtsAfter_balance HZ granted jiffies len s.table
            (show s.table.list.length ≤ s.rts by omega) skb.message
          rw [hr]
          simp only [Module.received, ht]
          omega
  | iterate granted =>
      obtain ⟨k, hk, rfl⟩ := Option.map_eq_some_iff.mp h
      unfold Module.iterate
      cases he : k.hand with
      | some e => exact release_balanced hs hk he granted
      | none =>
          dsimp only
          cases hd : findDequeueEntry (destCmp k.daddr) s.queue with
          | none =>
              have hhand : s.hand = [] := by rw [hand_of_some hk, he, Option.toList_none]
              have hent := hs.entries
              rw [hhand] at hent
              exact ⟨hs.total, hs.bound, hent, hs.rts⟩
          | some p => exact take_balanced hs hk he hd
  | event event n =>
      cases h
      unfold Module.event
      split_ifs
      · have hf := rtFlushed_balanced hs
        exact ⟨hf.total, hf.bound, hf.entries, hf.rts⟩
      · exact hs
  | flush =>
      simp only [step] at h
      split_ifs at h
      cases h
      have hf := flushed_balanced hs
      exact ⟨hf.total, hf.bound, hf.entries, hf.rts⟩
  | timeout jiffies =>
      simp only [step] at h
      split_ifs at h
      cases h
      exact timeout_balanced hs jiffies
  | unload =>
      have h : s.unload = some s' := h
      unfold Module.unload at h
      have hf := flushed_balanced hs
      have hr := rtFlushed_balanced hs
      split at h
      all_goals try split_ifs at h
      all_goals cases h
      · exact ⟨hs.total, hs.bound, hs.entries, hs.rts⟩
      · exact ⟨hs.total, hs.bound, hs.entries, hs.rts⟩
      · exact ⟨hf.total, hf.bound, hf.entries, hf.rts⟩
      · exact ⟨hr.total, hr.bound, hr.entries, hr.rts⟩
      · exact ⟨hs.total, hs.bound, hs.entries, hs.rts⟩

/-- **Memory.** In every state of a run `queue_total` is the length of the queue, at most
`CPC_QUEUE_MAX_DEFAULT`; the entries that are allocated are those in the queue, the one in the hand
of the loop and one for each packet that could not be copied; and the routes that are allocated are
those in the table and all that expired. -/
theorem memory_balance {ifs : List IfInfo} {as : List Action}
    (hr : Run (step HZ routingPort) Free (Module.init ifs) as s) :
    s.queue.total = s.queue.list.length ∧ s.queue.total ≤ queueMaxlen ∧
      s.entries = s.queue.list.length + s.hand.length + s.effects.countP Effect.losesEntry ∧
      s.rts = s.table.list.length + s.effects.countP Effect.losesRoute := by
  have hb := hr.inv Balanced (fun _ _ _ hs _ h => step_balanced hs h) (balanced_init ifs)
  exact ⟨hb.total, hb.bound, hb.entries, hb.rts⟩

/-- A route expires. -/
theorem memory_balance_sample : ∃ s, Run (step 250 654) Free (Module.init sampleIfs)
      [.message (sampleMessage CPC_ROUTE_ADD) true 100, .timeout 400] s ∧ s.rts = 1 ∧
      s.table.list = [] ∧ s.queue.total = s.queue.list.length ∧ s.queue.total ≤ queueMaxlen ∧
      s.entries = s.queue.list.length + s.hand.length + s.effects.countP Effect.losesEntry ∧
      s.rts = s.table.list.length + s.effects.countP Effect.losesRoute := by
  have hr : Run (step 250 654) Free (Module.init sampleIfs)
      [.message (sampleMessage CPC_ROUTE_ADD) true 100, .timeout 400] _ := run_of_exec _ rfl
  exact ⟨_, hr, rfl, rfl, memory_balance hr⟩

end GeoSvr.CpcMod
