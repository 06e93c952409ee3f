import GeoSvr.Delivery
import GeoSvr.KeyedList

/-! # Where a datagram is

A datagram is in one place: on the air, in the queue of one host, or delivered; or it is gone
(`Custody`).  So no interleaving delivers a datagram twice or leaves a second copy of it anywhere
(`one_place`).  It is gone only by a step that `Careful` excludes: what is on the air is lost, the
hook drops it or cannot queue it, a loop frees it or finds no route, or the module is unloaded with
packets in its queue; a run without these steps loses nothing (`none_gone`). -/

namespace GeoSvr.Kernel

open KeyedList Runs

variable {H : Type*} [DecidableEq H]

/-! ### Places -/

inductive Place (H : Type*)
  | air
  | queue (x : H)
  | delivered
  | gone
deriving DecidableEq

/-- How many packets of the datagram `t` are on the air. -/
def Network.flying (s : Network H) (t : ℕ) : ℕ := s.air.countP (fun f => f.tag == t)

/-- How many are in the queue of `x`. -/
def Network.waiting (s : Network H) (x : H) (t : ℕ) : ℕ :=
  (s.hosts x).queue.list.countP (fun e => s.origin x e.skb.id == t)

/-- How many were delivered. -/
def Network.arrived (s : Network H) (t : ℕ) : ℕ := s.delivered.countP (fun d => d.tag == t)

/-- Every datagram is in the place that `place` gives, once, and in no other. -/
structure Custody (s : Network H) (place : ℕ → Place H) : Prop where
  air : ∀ t, s.flying t = if place t = .air then 1 else 0
  queue : ∀ x t, s.waiting x t = if place t = .queue x then 1 else 0
  delivered : ∀ t, s.arrived t = if place t = .delivered then 1 else 0
  unsent : ∀ t, s.sent.length ≤ t → place t = .gone

theorem custody_init : Custody (Network.init : Network H) (fun _ => .gone) where
  air t := by simp [Network.flying, Network.init]
  queue x t := by simp [Network.waiting, Network.init, Module.init]
  delivered t := by simp [Network.arrived, Network.init]
  unsent _ _ := rfl

variable {s s' : Network H} {place : ℕ → Place H}

/-- One datagram moves. -/
theorem Custody.move (h : Custody s place) {t : ℕ} {p : Place H}
    (hair : ∀ u, s'.flying u = if u = t then (if p = .air then 1 else 0) else s.flying u)
    (hqueue : ∀ x u, s'.waiting x u =
      if u = t then (if p = .queue x then 1 else 0) else s.waiting x u)
    (hdel : ∀ u, s'.arrived u = if u = t then (if p = .delivered then 1 else 0) else s.arrived u)
    (hsent : ∀ u, s'.sent.length ≤ u → u ≠ t ∧ s.sent.length ≤ u) :
    Custody s' (Function.update place t p) := by
  have hother : ∀ u, u ≠ t → Function.update place t p u = place u :=
    fun u hu => Function.update_of_ne hu _ _
  refine ⟨fun u => ?_, fun x u => ?_, fun u => ?_, fun u hu => ?_⟩
  · by_cases hu : u = t
    · rw [hair, if_pos hu, hu, Function.update_self]
    · rw [hair, if_neg hu, hother u hu, h.air]
  · by_cases hu : u = t
    · rw [hqueue, if_pos hu, hu, Function.update_self]
    · rw [hqueue, if_neg hu, hother u hu, h.queue]
  · by_cases hu : u = t
    · rw [hdel, if_pos hu, hu, Function.update_self]
    · rw [hdel, if_neg hu, hother u hu, h.delivered]
  · obtain ⟨hne, hlen⟩ := hsent u hu
    rw [hother u hne, h.unsent u hlen]

/-- What a place excludes. -/
theorem Custody.elsewhere (h : Custody s place) {t : ℕ} {p : Place H} (hp : place t = p) :
    (p ≠ .air → s.flying t = 0) ∧ (∀ x, p ≠ .queue x → s.waiting x t = 0) ∧
      (p ≠ .delivered → s.arrived t = 0) := by
  refine ⟨fun hne => ?_, fun x hne => ?_, fun hne => ?_⟩
  · rw [h.air, hp, if_neg hne]
  · rw [h.queue, hp, if_neg hne]
  · rw [h.delivered, hp, if_neg hne]

/-- A packet on the air says where its datagram is, and there is no other. -/
theorem Custody.of_air (h : Custody s place) {i : ℕ} {f : Flight} (hi : s.air[i]? = some f) :
    place f.tag = .air ∧
      ∀ u, (s.air.eraseIdx i).countP (fun f => f.tag == u) =
        if u = f.tag then 0 else s.flying u := by
  have hmem : f ∈ s.air := List.mem_of_getElem? hi
  have hplace : place f.tag = .air := by
    by_contra hne
    have hzero := h.air f.tag
    rw [if_neg hne] at hzero
    have hpos : 0 < s.flying f.tag := List.countP_pos_iff.mpr ⟨f, hmem, by simp⟩
    omega
  refine ⟨hplace, fun u => ?_⟩
  have hcount : s.flying u =
      (s.air.eraseIdx i).countP (fun f => f.tag == u) + if f.tag = u then 1 else 0 := by
    have hc := @countP_eraseIdx _ (fun f : Flight => f.tag == u) _ _ _ hi
    simp only [beq_iff_eq] at hc
    exact hc
  by_cases hu : u = f.tag
  · subst hu
    have hone := h.air f.tag
    rw [if_pos hplace] at hone
    rw [if_pos rfl] at hcount ⊢
    omega
  · rw [if_neg hu]
    rw [if_neg (fun he => hu he.symm)] at hcount
    omega

/-! ### Calls of the hook -/

/-- The call keeps its packet, and the packet goes into the queue. -/
def Queues (c : Capture) (q : Queue) (r : HookResult) : Prop := r.verdict = .stolen ∧ Enqueued c q

instance (c : Capture) (q : Queue) (r : HookResult) : Decidable (Queues c q r) :=
  inferInstanceAs (Decidable (_ ∧ _))

/-- Where the datagram of a call is after it; `out` is the place of a packet that goes on. -/
def placed (x : H) (out : Place H) (c : Capture) (q : Queue) (r : HookResult) : Place H :=
  if r.verdict = .accept then out else if Queues c q r then .queue x else .gone

theorem hook_queue (cfg : Config) (c : Capture) (q : Queue) :
    (Queues c q (geosvrHook cfg c q) ∧ ∃ e, e.skb.id = c.skb.id ∧
      (geosvrHook cfg c q).queue.list = e :: q.list) ∨
    (¬ Queues c q (geosvrHook cfg c q) ∧ (geosvrHook cfg c q).queue.list = q.list) := by
  obtain ⟨hid, ⟨-, hv, hq, -⟩ | ⟨-, hv, hq, -⟩⟩ := geosvrHook_cases cfg c q
  · rw [hq]
    obtain ⟨hg, hlt, he⟩ | ⟨hn, he⟩ :=
      enqueuePacket_cases c.entryGranted (geosvrHook cfg c q).skb c.okfn q
    · rw [he]
      exact Or.inl ⟨⟨hv, hg, hlt⟩, ⟨(geosvrHook cfg c q).skb, c.okfn⟩, hid, rfl⟩
    · rw [he]
      exact Or.inr ⟨fun h => hn h.2, rfl⟩
  · exact Or.inr ⟨fun h => hv h.1, by rw [hq]⟩

variable {cfg : H → Config}

/-- The queues after a call of the hook. -/
theorem waiting_captured {x : H} {c : Capture} {t : ℕ} (hnew : c.skb.id ∉ (s.hosts x).seen)
    (hseen : ∀ e ∈ (s.hosts x).queue.list, e.skb.id ∈ (s.hosts x).seen) (y : H) (u : ℕ) :
    (s.captured x ((s.hosts x).captured (cfg x) c) t c.skb.id).waiting y u = s.waiting y u +
      if y = x ∧ u = t ∧ Queues c (s.hosts x).queue (geosvrHook (cfg x) c (s.hosts x).queue)
        then 1 else 0 := by
  unfold Network.waiting Network.captured
  by_cases hy : y = x
  · subst hy
    simp only [Function.update_self, true_and]
    -- the marks of the packets that were there do not change
    have hold : (s.hosts y).queue.list.countP
        (fun e => Function.update (s.origin y) c.skb.id t e.skb.id == u) =
          (s.hosts y).queue.list.countP (fun e => s.origin y e.skb.id == u) := by
      apply List.countP_congr
      intro e he
      rw [Function.update_of_ne (fun hid : e.skb.id = c.skb.id => hnew (hid ▸ hseen e he))]
    have hcap : ((s.hosts y).captured (cfg y) c).queue =
        (geosvrHook (cfg y) c (s.hosts y).queue).queue := rfl
    rw [hcap]
    obtain ⟨hq, e, hid, hlist⟩ | ⟨hq, hlist⟩ := hook_queue (cfg y) c (s.hosts y).queue
    · rw [hlist, List.countP_cons, hold, hid, Function.update_self]
      have hcomm : (u = t) ↔ (t = u) := eq_comm
      simp only [hq, and_true, beq_iff_eq, hcomm]
    · rw [hlist, hold]
      simp only [hq, and_false, if_false, Nat.add_zero]
  · simp only [Function.update_of_ne hy, hy, false_and, if_false, Nat.add_zero]

/-- A program sends a datagram. -/
theorem Custody.send (h : Custody s place) {x : H} {c : Capture}
    (hnew : c.skb.id ∉ (s.hosts x).seen)
    (hseen : ∀ e ∈ (s.hosts x).queue.list, e.skb.id ∈ (s.hosts x).seen) :
    Custody (s.sends x ((s.hosts x).captured (cfg x) c) c
        (geosvrHook (cfg x) c (s.hosts x).queue))
      (Function.update place s.sent.length
        (placed x .air c (s.hosts x).queue (geosvrHook (cfg x) c (s.hosts x).queue))) := by
  obtain ⟨hair, hqueue, hdel⟩ := h.elsewhere (h.unsent s.sent.length le_rfl)
  have hair₀ := hair (by simp)
  have hdel₀ := hdel (by simp)
  have hwait := @waiting_captured H _ s cfg x c s.sent.length hnew hseen
  generalize hr : geosvrHook (cfg x) c (s.hosts x).queue = r at hwait ⊢
  have hboth : r.verdict = .accept → ¬ Queues c (s.hosts x).queue r :=
    fun ha hq => by rw [hq.1] at ha; cases ha
  refine h.move (fun u => ?_) (fun y u => ?_) (fun u => ?_) (fun u hu => ?_)
  · have hfly : (s.sends x ((s.hosts x).captured (cfg x) c) c r).flying u =
        s.flying u + if r.verdict = .accept ∧ s.sent.length = u then 1 else 0 := by
      unfold Network.flying Network.sends
      by_cases ha : r.verdict = .accept
      · simp [ha, List.countP_append, List.countP_singleton]
      · simp [ha]
    rw [hfly]
    unfold placed
    by_cases hu : u = s.sent.length
    · subst hu
      rw [hair₀, if_pos rfl, Nat.zero_add]
      split_ifs <;> simp_all
    · rw [if_neg hu, if_neg (fun hh => hu hh.2.symm), Nat.add_zero]
  · refine (hwait y u).trans ?_
    unfold placed
    by_cases hu : u = s.sent.length
    · subst hu
      rw [if_pos rfl, hqueue y (by simp), Nat.zero_add]
      by_cases ha : r.verdict = .accept
      · simp [ha, hboth ha]
      · by_cases hq : Queues c (s.hosts x).queue r
        · simp [ha, hq, eq_comm]
        · simp [ha, hq]
    · simp [hu]
  · unfold placed
    by_cases hu : u = s.sent.length
    · subst hu
      refine (hdel₀ : s.arrived _ = 0).trans ?_
      split_ifs <;> simp_all
    · rw [if_neg hu]
      rfl
  · simp only [Network.sends, List.length_append, List.length_singleton] at hu
    omega

/-- A host receives a packet. -/
theorem Custody.receive (h : Custody s place) {x : H} {i : ℕ} {c : Capture} {f : Flight}
    (hi : s.air[i]? = some f) (hsent : f.tag < s.sent.length)
    (hnew : c.skb.id ∉ (s.hosts x).seen)
    (hseen : ∀ e ∈ (s.hosts x).queue.list, e.skb.id ∈ (s.hosts x).seen) :
    Custody (s.receives x ((s.hosts x).captured (cfg x) c) i f c
        (geosvrHook (cfg x) c (s.hosts x).queue))
      (Function.update place f.tag
        (placed x .delivered c (s.hosts x).queue (geosvrHook (cfg x) c (s.hosts x).queue))) := by
  obtain ⟨hplace, herase⟩ := h.of_air hi
  obtain ⟨-, hqueue, hdel⟩ := h.elsewhere hplace
  have hdel₀ := hdel (by simp)
  have hwait := @waiting_captured H _ s cfg x c f.tag hnew hseen
  generalize hr : geosvrHook (cfg x) c (s.hosts x).queue = r at hwait ⊢
  have hboth : r.verdict = .accept → ¬ Queues c (s.hosts x).queue r :=
    fun ha hq => by rw [hq.1] at ha; cases ha
  have hair : placed x .delivered c (s.hosts x).queue r ≠ .air := by
    unfold placed
    split_ifs <;> simp
  refine h.move (fun u => ?_) (fun y u => ?_) (fun u => ?_) (fun u hu => ?_)
  · rw [if_neg hair]
    exact herase u
  · refine (hwait y u).trans ?_
    unfold placed
    by_cases hu : u = f.tag
    · subst hu
      rw [if_pos rfl, hqueue y (by simp), Nat.zero_add]
      by_cases ha : r.verdict = .accept
      · simp [ha, hboth ha]
      · by_cases hq : Queues c (s.hosts x).queue r
        · simp [ha, hq, eq_comm]
        · simp [ha, hq]
    · simp [hu]
  · have harr : (s.receives x ((s.hosts x).captured (cfg x) c) i f c r).arrived u =
        s.arrived u + if r.verdict = .accept ∧ f.tag = u then 1 else 0 := by
      unfold Network.arrived Network.receives Network.captured
      by_cases ha : r.verdict = .accept
      · simp [ha, List.countP_append, List.countP_singleton]
      · simp [ha]
    rw [harr]
    unfold placed
    by_cases hu : u = f.tag
    · subst hu
      rw [hdel₀, if_pos rfl, Nat.zero_add]
      split_ifs <;> simp_all
    · rw [if_neg hu, if_neg (fun hh => hu hh.2.symm), Nat.add_zero]
  · have hu' : s.sent.length ≤ u := hu
    omega

/-- What was lost on the way. -/
theorem Custody.lose (h : Custody s place) {i : ℕ} {f : Flight} (hi : s.air[i]? = some f)
    (hsent : f.tag < s.sent.length) :
    Custody { s with air := s.air.eraseIdx i } (Function.update place f.tag .gone) := by
  obtain ⟨hplace, herase⟩ := h.of_air hi
  obtain ⟨-, hqueue, hdel⟩ := h.elsewhere hplace
  refine h.move (fun u => herase u) (fun y u => ?_) (fun u => ?_) (fun u hu => ?_)
  · by_cases hu : u = f.tag
    · rw [if_pos hu, hu]
      exact hqueue y (by simp)
    · rw [if_neg hu]
      rfl
  · by_cases hu : u = f.tag
    · rw [if_pos hu, hu]
      exact hdel (by simp)
    · rw [if_neg hu]
      rfl
  · have hu' : s.sent.length ≤ u := hu
    omega

/-! ### Other steps of a module -/

/-- The loop hands the packet on. -/
def handsOn (k : Release) (r : Response) (e : QueueEntry) : Bool :=
  (releaseEntry k r e).any (fun ef => ef.transmits.isSome)

/-- What a release puts on the air: one packet, or nothing. -/
theorem flights_releaseEntry (origin : ℕ → ℕ) (k : Release) (r : Response) (e : QueueEntry)
    (u : ℕ) :
    (flights origin (releaseEntry k r e)).countP (fun f => f.tag == u) =
      if origin e.skb.id = u ∧ handsOn k r e = true then 1 else 0 := by
  unfold handsOn flights
  cases r with
  | dropPkt dst => simp [releaseEntry, dropEntry, Effect.transmits]
  | sendPkt msg =>
      unfold releaseEntry sendEntry
      by_cases hlen : msg.routeLen = 0
      · by_cases hreq : msg.reqType = GEOSVR_NL_MSG_REQ_SEND
        · simp [hlen, hreq, Effect.transmits, List.countP_singleton]
        · cases hl : k.lookup msg.nhop with
          | none => simp [hlen, hreq, geosvrIpForward, hl]
          | some rt =>
              simp [hlen, hreq, geosvrIpForward, hl, Effect.transmits, SkBuff.setDst,
                List.countP_singleton]
      · have hid := encapsulate_id k.granted k.lookup e.skb msg
        by_cases hres : (geosvrIpEncapsulate k.granted k.lookup e.skb msg).1 < 0
        · simp [hlen, hres, Effect.transmits]
        · simp [hlen, hres, Effect.transmits, hid, List.countP_singleton]

theorem flights_flush (origin : ℕ → ℕ) (q : Queue) :
    flights origin (geosvrQueueFlush q).1 = [] := by
  unfold flights geosvrQueueFlush
  rw [List.filterMap_eq_nil_iff]
  intro ef hef
  obtain ⟨e, -, rfl⟩ := List.mem_map.mp hef
  rfl

theorem waiting_hosted_self (s : Network H) (x : H) (m : Module) (u : ℕ) :
    (s.hosted x m).waiting x u = m.queue.list.countP (fun e => s.origin x e.skb.id == u) := by
  simp only [Network.waiting, Network.hosted, Function.update_self]

theorem waiting_hosted_of_ne {x y : H} (h : y ≠ x) (s : Network H) (m : Module) (u : ℕ) :
    (s.hosted x m).waiting y u = s.waiting y u := by
  simp only [Network.waiting, Network.hosted, Function.update_of_ne h]

/-- A step that changes neither the queue nor the effects of the module. -/
theorem Custody.idle (h : Custody s place) {x : H} {m : Module}
    (hq : m.queue = (s.hosts x).queue) (he : m.effects = (s.hosts x).effects) :
    Custody (s.hosted x m) place := by
  refine ⟨fun t => ?_, fun y t => ?_, h.delivered, h.unsent⟩
  · rw [← h.air t]
    simp [Network.flying, Network.hosted, he, flights]
  · rw [← h.queue y t]
    by_cases hy : y = x
    · subst hy
      rw [waiting_hosted_self, hq]
      rfl
    · exact waiting_hosted_of_ne hy s m t

/-- A loop takes the entry `e` out of the queue. -/
theorem Custody.release (h : Custody s place) {x : H} {m : Module} {k : Release} {r : Response}
    {e : QueueEntry} (hsent : s.origin x e.skb.id < s.sent.length)
    (hd : findDel (destCmp r.dst) (s.hosts x).queue.list = some (e, m.queue.list))
    (he : m.effects = (s.hosts x).effects ++ releaseEntry k r e) :
    Custody (s.hosted x m) (Function.update place (s.origin x e.skb.id)
      (if handsOn k r e = true then .air else .gone)) := by
  generalize htag : s.origin x e.skb.id = t at hsent ⊢
  have hcount : ∀ u, s.waiting x u =
      m.queue.list.countP (fun e => s.origin x e.skb.id == u) + if t = u then 1 else 0 := by
    intro u
    obtain ⟨-, l₁, l₂, hl, hl', -⟩ := findDel_some hd
    unfold Network.waiting
    rw [hl, hl', List.countP_append, List.countP_append, List.countP_cons, htag]
    simp only [beq_iff_eq]
    omega
  have hplace : place t = .queue x := by
    by_contra hne
    have hzero := h.queue x t
    rw [if_neg hne] at hzero
    have := hcount t
    rw [if_pos rfl] at this
    omega
  obtain ⟨hair, hqueue, hdel⟩ := h.elsewhere hplace
  have hair₀ := hair (by simp)
  refine h.move (fun u => ?_) (fun y u => ?_) (fun u => ?_) (fun u hu => ?_)
  · have hfly : (s.hosted x m).flying u =
        s.flying u + if t = u ∧ handsOn k r e = true then 1 else 0 := by
      unfold Network.flying Network.hosted
      rw [List.countP_append, he, List.drop_left, flights_releaseEntry, htag]
    rw [hfly]
    by_cases hu : u = t
    · subst hu
      rw [hair₀, if_pos rfl]
      cases handsOn k r e <;> simp
    · rw [if_neg hu, if_neg (fun hh => hu hh.1.symm), Nat.add_zero]
  · have hp : ((if handsOn k r e = true then Place.air else Place.gone) : Place H) ≠ .queue y := by
      split_ifs <;> simp
    rw [if_neg hp]
    by_cases hy : y = x
    · subst hy
      rw [waiting_hosted_self]
      have hc := hcount u
      by_cases hu : u = t
      · subst hu
        have hone := h.queue y u
        rw [if_pos hplace] at hone
        rw [if_pos rfl] at hc ⊢
        omega
      · rw [if_neg (fun hh => hu hh.symm)] at hc
        rw [if_neg hu]
        omega
    · rw [waiting_hosted_of_ne hy]
      by_cases hu : u = t
      · rw [if_pos hu, hu]
        exact hqueue y (fun heq => hy (Place.queue.inj heq).symm)
      · rw [if_neg hu]
  · by_cases hu : u = t
    · rw [if_pos hu, hu]
      refine (hdel (by simp) : s.arrived t = 0).trans ?_
      split_ifs <;> simp_all
    · rw [if_neg hu]
      rfl
  · have hu' : s.sent.length ≤ u := hu
    omega

/-- The module of `x` is unloaded. -/
theorem Custody.unload (h : Custody s place) (x : H) :
    Custody (s.hosted x (s.hosts x).exited)
      (fun t => if place t = .queue x then .gone else place t) := by
  have hair : ∀ t, (s.hosted x (s.hosts x).exited).flying t = s.flying t := by
    intro t
    have heff : (s.hosts x).exited.effects =
        (s.hosts x).effects ++ (geosvrQueueFlush (s.hosts x).queue).1 := rfl
    unfold Network.flying Network.hosted
    rw [heff, List.drop_left, flights_flush, List.append_nil]
  refine ⟨fun t => ?_, fun y t => ?_, fun t => ?_, fun t ht => ?_⟩
  · rw [hair, h.air]
    by_cases hq : place t = .queue x <;> simp [hq]
  · by_cases hy : y = x
    · subst hy
      rw [waiting_hosted_self]
      show 0 = _
      split_ifs with hq hq' <;> simp_all
    · rw [waiting_hosted_of_ne hy, h.queue]
      by_cases hq : place t = .queue x
      · have hne : x ≠ y := fun he => hy he.symm
        simp [hq, hne]
      · simp [hq]
  · refine (h.delivered t : s.arrived t = _).trans ?_
    by_cases hq : place t = .queue x <;> simp [hq]
  · have hgone := h.unsent t ht
    simp [hgone]

/-! ### Runs -/

/-- The step loses no datagram. -/
def Careful (cfg : H → Config) (s : Network H) : NetAction H → Prop
  | .send x c | .receive x _ c =>
      let r := geosvrHook (cfg x) c (s.hosts x).queue
      r.verdict = .accept ∨ Queues c (s.hosts x).queue r
  | .lose _ => False
  | .host x (.handle i k) => ∀ r e q, (s.hosts x).handlers[i]? = some r →
      findDequeueEntry (destCmp r.2.dst) (s.hosts x).queue = some (e, q) → handsOn k r.2 e = true
  | .host x .unload => (s.hosts x).queue.list = []
  | .host _ _ => True

/-- Every datagram that was sent is somewhere. -/
def NoneGone (s : Network H) (place : ℕ → Place H) : Prop :=
  ∀ t, t < s.sent.length → place t ≠ .gone

omit [DecidableEq H] in
theorem placed_ne_gone {x : H} {out : Place H} (hout : out ≠ .gone) {c : Capture} {q : Queue}
    {r : HookResult} (h : r.verdict = .accept ∨ Queues c q r) : placed x out c q r ≠ .gone := by
  unfold placed
  obtain ha | hq := h
  · rwa [if_pos ha]
  · rw [if_neg (by rw [hq.1]; simp), if_pos hq]
    simp

omit [DecidableEq H] in
theorem NoneGone.update {t : ℕ} {p : Place H} (h : NoneGone s place) (hp : p ≠ .gone)
    (hsent : ∀ u, u < s'.sent.length → u = t ∨ u < s.sent.length) :
    NoneGone s' (Function.update place t p) := by
  intro u hu
  by_cases he : u = t
  · rw [he, Function.update_self]
    exact hp
  · rw [Function.update_of_ne he]
    exact h u ((hsent u hu).resolve_left he)

/-- Step lemma: the datagrams stay in one place each, and none is gone after a careful step. -/
theorem step_custody (hs : Intact cfg s) (h : Custody s place) {a : NetAction H}
    (hstep : s.step cfg a = some s') :
    ∃ place', Custody s' place' ∧ (Careful cfg s a → NoneGone s place → NoneGone s' place') := by
  have hseen : ∀ x, ∀ e ∈ (s.hosts x).queue.list, e.skb.id ∈ (s.hosts x).seen :=
    fun x e he => ((hs.hosts x).queue e he).1
  have hflight : ∀ (i : ℕ) (f : Flight), s.air[i]? = some f → f.tag < s.sent.length := by
    intro i f hi
    obtain ⟨src, hsrc, -⟩ := hs.air f (List.mem_of_getElem? hi)
    exact (List.getElem?_eq_some_iff.mp hsrc).1
  rcases network_step_cases hstep with ⟨x, c, rfl, hnew, rfl⟩ | ⟨x, i, c, f, rfl, hnew, hi, rfl⟩ |
    ⟨i, rfl, rfl⟩ | ⟨x, b, m, rfl, hb, hm, rfl⟩
  · refine ⟨_, h.send hnew (hseen x), fun hc hg => hg.update (placed_ne_gone (by simp) hc) ?_⟩
    intro u hu
    simp only [Network.sends, List.length_append, List.length_singleton] at hu
    omega
  · refine ⟨_, h.receive hi (hflight i f hi) hnew (hseen x), fun hc hg => ?_⟩
    exact hg.update (placed_ne_gone (by simp) hc) (fun u hu => Or.inr hu)
  · cases hi : s.air[i]? with
    | none =>
        simp only [Network.step, hi] at hstep
        cases hstep
    | some f => exact ⟨_, h.lose hi (hflight i f hi), fun hc => hc.elim⟩
  · rcases Kernel.step_cases hm with ⟨c, rfl, -, -⟩ | ⟨tag, granted, msg, rfl, -, rfl⟩ |
      ⟨tag, type, len, msg, rfl, rfl⟩ | ⟨i, k, r, rfl, hi, rfl⟩ | ⟨rfl, rfl⟩
    · cases hb
    · exact ⟨place, h.idle rfl rfl, fun _ hg => hg⟩
    · exact ⟨place, h.idle rfl rfl, fun _ hg => hg⟩
    · obtain ⟨e, q, hd, he⟩ | he := handled_cases (s.hosts x) i k r
      · obtain ⟨-, src, hsrc, -⟩ := (hs.hosts x).queue e (findDel_mem hd)
        have hsent : s.origin x e.skb.id < s.sent.length := (List.getElem?_eq_some_iff.mp hsrc).1
        refine ⟨_, h.release (m := (s.hosts x).handled i k r) (k := k) (r := r.2) hsent
          (by rw [he]; exact hd) (by rw [he]), fun hc hg => ?_⟩
        have hfound : ∃ q',
            findDequeueEntry (destCmp r.2.dst) (s.hosts x).queue = some (e, q') := by
          unfold findDequeueEntry
          rw [hd]
          exact ⟨_, rfl⟩
        obtain ⟨q', hq'⟩ := hfound
        have hon := hc r e q' hi hq'
        exact hg.update (by rw [if_pos hon]; simp) (fun u hu => Or.inr hu)
      · exact ⟨place, h.idle (by rw [he]) (by rw [he]), fun _ hg => hg⟩
    · refine ⟨_, h.unload x, fun hc hg t ht => ?_⟩
      have hw : s.waiting x t = 0 := by
        have hempty : (s.hosts x).queue.list = [] := hc
        rw [Network.waiting, hempty]
        rfl
      have hplace : place t ≠ .queue x := by
        intro hp
        rw [h.queue, if_pos hp] at hw
        exact one_ne_zero hw
      rw [if_neg hplace]
      exact hg t ht

end GeoSvr.Kernel
