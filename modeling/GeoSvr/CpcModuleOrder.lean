import GeoSvr.CpcModuleRuns

/-! # Order in the queue of the CPC kernel module (`cpc_queue.c`)

Packets for one destination are handed on in the order in which they were queued, each once
(`handedOn_inOrder`): the loop takes the oldest one first, and while it holds an entry a flush may
free later ones, but nothing overtakes it. -/

namespace GeoSvr.CpcMod

open KeyedList Runs CpcRt
open Cpc (Stage Verdict)

variable {HZ : UInt64} {routingPort : UInt16} {s s' : Module}

/-! ### Order -/

/-- The packet, if it is handed on and is for `d`. -/
def Effect.handedOn (d : UInt32) : Effect → Option ℕ
  | .okfn skb | .okfnCopy skb _ => if skb.daddr = d then some skb.id else none
  | _ => none

/-- The packets for `d` that were handed on. -/
def Module.handedOn (s : Module) (d : UInt32) : List ℕ := s.effects.filterMap (Effect.handedOn d)

/-- The packets for `d` among the entries. -/
def idsFor (d : UInt32) (l : List QueueEntry) : List ℕ :=
  (l.filter (destCmp d)).map (fun e => e.skb.id)

@[simp] theorem idsFor_nil (d : UInt32) : idsFor d [] = [] := rfl

@[simp] theorem idsFor_append (d : UInt32) (l l' : List QueueEntry) :
    idsFor d (l ++ l') = idsFor d l ++ idsFor d l' := by
  simp [idsFor]

theorem idsFor_cons (d : UInt32) (e : QueueEntry) (l : List QueueEntry) :
    idsFor d (e :: l) = (if e.rtinfo.daddr = d then [e.skb.id] else []) ++ idsFor d l := by
  unfold idsFor destCmp
  by_cases h : e.rtinfo.daddr = d <;> simp [h]

/-- The entries say where their packets go; those for `d` that were handed on, are in the hand or
in the queue came into the queue in this order; and a packet comes into the queue once. -/
structure InOrder (s : Module) : Prop where
  queue : ∀ e ∈ s.queue.list, e.rtinfo.daddr = e.skb.daddr
  hand : ∀ h e, s.handler = some h → h.hand = some e →
    e.rtinfo.daddr = e.skb.daddr ∧ e.rtinfo.daddr = h.daddr
  order : ∀ d, (s.handedOn d ++ (idsFor d s.hand ++ idsFor d s.queue.list)).Sublist
    (idsFor d s.queued)
  fresh : ∀ id, s.queued.countP (fun e => e.skb.id == id) + s.running id ≤
    if id ∈ s.seen then 1 else 0

theorem inOrder_init (ifs : List IfInfo) : InOrder (Module.init ifs) where
  queue e he := by cases he
  hand h e hh := by cases hh
  order d := List.Sublist.refl _
  fresh id := by simp [Module.init, Module.running]

/-- A step that neither queues nor hands on, and takes nothing out. -/
theorem InOrder.idle (hs : InOrder s) {t : Module} (hq : t.queue = s.queue)
    (hqd : t.queued = s.queued) (hh : t.handler = s.handler)
    (he : ∀ d, t.handedOn d = s.handedOn d)
    (hf : ∀ id, t.running id + (if id ∈ s.seen then 1 else 0) ≤
      s.running id + if id ∈ t.seen then 1 else 0) : InOrder t where
  queue := hq ▸ hs.queue
  hand := hh ▸ hs.hand
  order d := by
    have hhand : t.hand = s.hand := by unfold Module.hand; rw [hh]
    rw [he, hhand, hq, hqd]
    exact hs.order d
  fresh id := by
    have := hs.fresh id
    have := hf id
    rw [hqd]
    omega

/-- The effect `x` hands nothing on. -/
theorem handedOn_append_none {d : UInt32} {l xs : List Effect}
    (hx : ∀ x ∈ xs, Effect.handedOn d x = none) :
    (l ++ xs).filterMap (Effect.handedOn d) = l.filterMap (Effect.handedOn d) := by
  rw [List.filterMap_append, List.filterMap_eq_nil_iff.mpr hx, List.append_nil]

theorem hook_inOrder (hs : InOrder s) {skb : SkBuff} (hnew : skb.id ∉ s.seen) (hooknum : HookNum)
    (ifindex : ℤ) : InOrder (s.hook hooknum skb ifindex) := by
  have hacc : InOrder (s.accept skb) := by
    refine hs.idle rfl rfl rfl (fun d => handedOn_append_none (by simp [Effect.handedOn]))
      (fun id => ?_)
    simp only [Module.running, Module.accept, List.mem_cons]
    by_cases hid : id ∈ s.seen <;> simp [hid]
  unfold Module.hook
  split_ifs
  · exact hacc
  · split
    · exact hacc
    · cases hooknum
      · exact hacc
      · exact hacc
      · refine hs.idle rfl rfl rfl (fun d => rfl) (fun id => ?_)
        simp only [Module.running, List.countP_cons, List.mem_cons]
        by_cases hid : id = skb.id
        · subst hid
          simp [hnew]
        · simp [hid, Ne.symm hid]

/-- A call that goes on or ends without queueing its packet. -/
theorem InOrder.call (hs : InOrder s) {i : ℕ} {r : HookRun} (hr : s.runs[i]? = some r)
    {runs : List HookRun} {xs : List Effect}
    (hruns : (∃ stage, runs = s.runs.set i ⟨r.skb, stage⟩) ∨ runs = s.runs.eraseIdx i)
    (hx : ∀ d, ∀ x ∈ xs, Effect.handedOn d x = none) :
    InOrder { s with runs := runs, effects := s.effects ++ xs } := by
  refine hs.idle rfl rfl rfl (fun d => handedOn_append_none (hx d)) (fun id => ?_)
  have hle : runs.countP (fun r => r.skb.id == id) ≤ s.running id := by
    obtain ⟨stage, rfl⟩ | rfl := hruns
    · exact (@countP_set_of_eq _ (fun r : HookRun => r.skb.id == id) _ _ _
        ⟨r.skb, stage⟩ hr rfl).le
    · exact List.Sublist.countP_le (List.eraseIdx_sublist _ _)
  have hle : Module.running { s with runs := runs, effects := s.effects ++ xs } id ≤ s.running id :=
    hle
  show _ + _ ≤ _ + if id ∈ s.seen then 1 else 0
  omega

theorem enqueue_inOrder (hs : InOrder s) {i : ℕ} {r : HookRun} (hr : s.runs[i]? = some r)
    (granted : Bool) : InOrder (s.enqueue i granted r.skb) := by
  unfold Module.enqueue
  obtain ⟨-, -, he⟩ | ⟨-, hneg⟩ := enqueuePacket_cases granted r.skb s.queue
  · rw [he]
    simp only [lt_irrefl, if_false]
    refine ⟨fun e hm => ?_, hs.hand, fun d => ?_, fun id => ?_⟩
    · obtain hm | hm := List.mem_append.mp hm
      · exact hs.queue e hm
      · rw [List.mem_singleton.mp hm]
        rfl
    · simp only [idsFor_append]
      rw [← List.append_assoc, ← List.append_assoc]
      refine List.Sublist.append ?_ (List.Sublist.refl _)
      rw [List.append_assoc]
      exact hs.order d
    · have hrun := @countP_eraseIdx _ (fun r : HookRun => r.skb.id == id) _ _ _ hr
      have hf := hs.fresh id
      simp only [Module.running, List.countP_append, List.countP_singleton, queueEntry] at hrun hf ⊢
      omega
  · simp only [hneg, if_true]
    exact hs.call hr (Or.inr rfl) (by simp [Effect.handedOn])

theorem advance_inOrder (hs : InOrder s) {i : ℕ} {r : HookRun} (hr : s.runs[i]? = some r)
    (granted : Bool) : InOrder (s.advance i granted r) := by
  have hnext : ∀ stage, InOrder { s with runs := s.runs.set i ⟨r.skb, stage⟩ } := by
    intro stage
    have h := @InOrder.call s hs i r hr _ [] (Or.inl ⟨stage, rfl⟩) (by simp)
    rwa [List.append_nil] at h
  unfold Module.advance
  cases r.stage with
  | lookup =>
      dsimp only
      split_ifs
      · exact hnext .find
      · exact hs.call hr (Or.inr rfl) (by simp [Effect.handedOn])
  | find =>
      dsimp only
      split_ifs
      · exact hnext .enqueue
      · exact hnext .send
  | send =>
      dsimp only
      split_ifs
      · exact hs.call hr (Or.inl ⟨.enqueue, rfl⟩) (by simp [Effect.handedOn])
      · exact hnext .enqueue
  | enqueue => exact enqueue_inOrder hs hr granted

/-- The entry that is taken out is the oldest for its destination. -/
theorem take_inOrder (hs : InOrder s) {h : Handler} (hh : s.handler = some h)
    (hnone : h.hand = none) {e : QueueEntry} {q : Queue}
    (hd : findDequeueEntry (destCmp h.daddr) s.queue = some (e, q)) :
    InOrder { s with queue := q, handler := some { h with hand := some e } } := by
  obtain ⟨as, bs, hl, hl', hc, has, -⟩ := findDequeueEntry_some hd
  have hdaddr : e.rtinfo.daddr = h.daddr := eq_of_beq hc
  refine ⟨fun e' hm => hs.queue e' ?_, fun k e' hk he' => ?_, fun d => ?_, hs.fresh⟩
  · rw [hl]
    rw [hl'] at hm
    obtain hm | hm := List.mem_append.mp hm
    · exact List.mem_append_left _ hm
    · exact List.mem_append_right _ (List.mem_cons_of_mem _ hm)
  · cases hk
    cases he'
    refine ⟨hs.queue e ?_, hdaddr⟩
    rw [hl]
    simp
  · have hold := hs.order d
    have hhand : s.hand = [] := by rw [hand_of_some hh, hnone, Option.toList_none]
    rw [hhand, hl, idsFor_nil, List.nil_append, idsFor_append, idsFor_cons] at hold
    show (s.handedOn d ++ (idsFor d [e] ++ idsFor d q.list)).Sublist _
    rw [hl', idsFor_append, idsFor_cons, idsFor_nil, List.append_nil]
    by_cases hed : e.rtinfo.daddr = d
    · have hnil : idsFor d as = [] := by
        unfold idsFor
        rw [List.filter_eq_nil_iff.mpr (fun a ha => ?_), List.map_nil]
        rw [← hed, hdaddr, has a ha]
        decide
      rw [hnil, List.nil_append] at hold ⊢
      exact hold
    · rw [if_neg hed, List.nil_append] at hold ⊢
      exact hold

/-- The entry in the hand is handed on, or not. -/
theorem release_inOrder (hs : InOrder s) {h : Handler} (hh : s.handler = some h) {e : QueueEntry}
    (he : h.hand = some e) (granted : Bool) : InOrder (s.release routingPort granted h e) := by
  obtain ⟨haddr, hdaddr⟩ := hs.hand h e hh he
  have hand : s.hand = [e] := by rw [hand_of_some hh, he, Option.toList_some]
  -- the loop goes on with nothing in its hand, or ends
  have hstep : ∀ (handler : Option Handler) (xs : List Effect) (entries : ℕ),
      handler.bind Handler.hand = none →
      (∀ d, (xs.filterMap (Effect.handedOn d)).Sublist (idsFor d [e])) →
      InOrder { s with effects := s.effects ++ xs, handler := handler, entries := entries } := by
    intro handler xs entries hnone hxs
    refine ⟨hs.queue, fun k e' hk he' => ?_, fun d => ?_, hs.fresh⟩
    · have hk : handler = some k := hk
      rw [hk, Option.bind_some, he'] at hnone
      cases hnone
    · have hold := hs.order d
      have hhand : Module.hand { s with
          effects := s.effects ++ xs, handler := handler, entries := entries } = [] := by
        simp [Module.hand, hnone]
      rw [hhand, idsFor_nil, List.nil_append]
      refine List.Sublist.trans ?_ hold
      rw [hand, ← List.append_assoc]
      refine List.Sublist.append ?_ (List.Sublist.refl _)
      show ((s.effects ++ xs).filterMap (Effect.handedOn d)).Sublist _
      rw [List.filterMap_append]
      exact List.Sublist.append (List.Sublist.refl _) (hxs d)
  have hself : ∀ (skb : SkBuff) (d : UInt32), skb.id = e.skb.id → skb.daddr = e.rtinfo.daddr →
      (if skb.daddr = d then some skb.id else none).toList = idsFor d [e] := by
    intro skb d hid hda
    rw [idsFor_cons, idsFor_nil, List.append_nil, hda, hid]
    split_ifs <;> rfl
  have hnone : ∀ xs : List Effect, (∀ d, ∀ x ∈ xs, Effect.handedOn d x = none) →
      ∀ d, (xs.filterMap (Effect.handedOn d)).Sublist (idsFor d [e]) := by
    intro xs hx d
    rw [List.filterMap_eq_nil_iff.mpr (hx d)]
    exact List.nil_sublist _
  unfold Module.release
  cases hc : h.call with
  | setVerdict verdict daddr =>
      cases verdict with
      | send =>
          dsimp only
          split_ifs
          · exact hstep _ _ _ rfl (hnone _ (by simp [Effect.handedOn]))
          · refine hstep _ _ _ rfl (fun d => ?_)
            have := hself e.skb d rfl haddr.symm
            rw [← this]
            simp only [List.filterMap_cons, Effect.handedOn, List.filterMap_nil]
            split_ifs <;> simp
      | drop =>
          simp only [List.append_assoc]
          refine hstep _ _ _ rfl (hnone _ (fun d x hx => ?_))
          split_ifs at hx <;> simp at hx
          · obtain rfl | rfl := hx <;> rfl
          · subst hx
            rfl
  | sendWithData daddr =>
      have hda : daddr = e.rtinfo.daddr := by
        rw [hdaddr]
        simp [Handler.daddr, hc]
      dsimp only
      split_ifs
      · exact hstep none _ s.entries rfl (hnone _ (by simp [Effect.handedOn]))
      · refine hstep _ _ _ rfl (fun d => ?_)
        rw [← hself (redirected routingPort daddr e.skb) d rfl hda]
        simp only [List.filterMap_cons, Effect.handedOn, List.filterMap_nil]
        split_ifs <;> simp

theorem iterate_inOrder (hs : InOrder s) {h : Handler} (hh : s.handler = some h) (granted : Bool) :
    InOrder (s.iterate routingPort granted h) := by
  unfold Module.iterate
  cases he : h.hand with
  | some e => exact release_inOrder hs hh he granted
  | none =>
      dsimp only
      cases hd : findDequeueEntry (destCmp h.daddr) s.queue with
      | none =>
          have hhand : s.hand = [] := by rw [hand_of_some hh, he, Option.toList_none]
          refine ⟨hs.queue, fun k e hk _ => (by cases hk), fun d => ?_, hs.fresh⟩
          have hold := hs.order d
          rw [hhand] at hold
          exact hold
      | some p => exact take_inOrder hs hh he hd

theorem flushed_inOrder (hs : InOrder s) : InOrder s.flushed where
  queue e he := by simp [Module.flushed, cpcQueueFlush_eq] at he
  hand := hs.hand
  order d := by
    have heff : s.flushed.handedOn d = s.handedOn d :=
      handedOn_append_none (by simp [Effect.handedOn])
    have hq : s.flushed.queue.list = [] := by simp [Module.flushed, cpcQueueFlush_eq]
    rw [heff, hq, idsFor_nil, List.append_nil]
    exact ((List.sublist_append_left _ _).append_left _).trans (hs.order d)
  fresh := hs.fresh

theorem step_inOrder (hs : InOrder s) {a : Action} (h : step HZ routingPort s a = some s') :
    InOrder s' := by
  cases a with
  | hook hooknum skb ifindex =>
      simp only [step] at h
      split_ifs at h with hc
      cases h
      exact hook_inOrder hs (fun hm => hc (Or.inl hm)) hooknum ifindex
  | advance i granted =>
      obtain ⟨r, hr, rfl⟩ := Option.map_eq_some_iff.mp h
      exact advance_inOrder hs hr granted
  | message skb granted jiffies =>
      obtain ⟨hn, rfl⟩ := step_message h
      refine ⟨hs.queue, fun k e hk he => ?_, fun d => ?_, hs.fresh⟩
      · rw [received_hand skb granted jiffies hk] at he
        cases he
      · have hold := hs.order d
        rw [hand_of_none hn] at hold
        rw [received_hand_nil]
        exact hold
  | iterate granted =>
      obtain ⟨k, hk, rfl⟩ := Option.map_eq_some_iff.mp h
      exact iterate_inOrder hs hk granted
  | event event n =>
      cases h
      unfold Module.event
      split_ifs
      · exact ⟨hs.queue, hs.hand, hs.order, hs.fresh⟩
      · exact hs
  | flush =>
      simp only [step] at h
      split_ifs at h
      cases h
      have hf := flushed_inOrder hs
      exact ⟨hf.queue, hf.hand, hf.order, hf.fresh⟩
  | timeout jiffies =>
      simp only [step] at h
      split_ifs at h
      cases h
      refine hs.idle rfl rfl rfl (fun d => handedOn_append_none (fun x hx => ?_))
        (fun id => le_rfl)
      obtain ⟨rt, -, rfl⟩ := List.mem_map.mp hx
      rfl
  | unload =>
      have h : s.unload = some s' := h
      unfold Module.unload at h
      have hf := flushed_inOrder hs
      split at h
      all_goals try split_ifs at h
      all_goals cases h
      · exact ⟨hs.queue, hs.hand, hs.order, hs.fresh⟩
      · exact ⟨hs.queue, hs.hand, hs.order, hs.fresh⟩
      · exact ⟨hf.queue, hf.hand, hf.order, hf.fresh⟩
      · exact ⟨hs.queue, hs.hand, hs.order, hs.fresh⟩
      · exact ⟨hs.queue, hs.hand, hs.order, hs.fresh⟩

/-- **First in, first out.** In every run the packets for a destination that were handed on were
queued in this order, and no packet was queued, or handed on, twice. -/
theorem handedOn_inOrder {ifs : List IfInfo} {as : List Action}
    (hr : Run (step HZ routingPort) Free (Module.init ifs) as s) (d : UInt32) :
    (s.handedOn d).Sublist (idsFor d s.queued) ∧ (idsFor d s.queued).Nodup := by
  have hi := hr.inv InOrder (fun _ _ _ hs _ h => step_inOrder hs h) (inOrder_init ifs)
  refine ⟨(List.sublist_append_left _ _).trans (hi.order d), ?_⟩
  have hall : (s.queued.map (fun e => e.skb.id)).Nodup := by
    refine List.nodup_iff_count_le_one.mpr (fun id => ?_)
    have hf := hi.fresh id
    have hone : (if id ∈ s.seen then 1 else 0) ≤ 1 := by split_ifs <;> omega
    have hcount : (s.queued.map (fun e => e.skb.id)).count id =
        s.queued.countP (fun e => e.skb.id == id) := by
      rw [List.count, List.countP_map]
      rfl
    omega
  exact hall.sublist (List.filter_sublist.map _)

/-- The first packet is handed on first. -/
theorem handedOn_inOrder_sample : ∃ s, Run (step 250 654) Free (Module.init sampleIfs)
      (sampleActions CPC_ROUTE_ADD ++ [.iterate true]) s ∧ s.handedOn 0x0200000a = [1, 2] ∧
      (s.handedOn 0x0200000a).Sublist (idsFor 0x0200000a s.queued) ∧
      (idsFor 0x0200000a s.queued).Nodup := by
  have hr : Run (step 250 654) Free (Module.init sampleIfs)
      (sampleActions CPC_ROUTE_ADD ++ [.iterate true]) _ := run_of_exec _ rfl
  exact ⟨_, hr, by decide, handedOn_inOrder hr _⟩

end GeoSvr.CpcMod
