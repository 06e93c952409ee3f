import GeoSvr.Hook
import GeoSvr.RoundTrip
import GeoSvr.Runs

/-! # Which answer releases a packet

The queue is searched by destination only, so an answer releases every packet to its
destination, whichever request it answers.  Two flows to one destination that overlap can thus
be released with each other's route.  What holds in every run is
that a packet is released by an answer to some request for its destination; and for a
destination `d` whose flows do not overlap (`Exclusive`: a packet to `d` is captured only when
nothing about `d` is under way) it is the answer to the packet's own request. -/

namespace GeoSvr.Kernel

open Runs

/-! ### Answers -/

/-- The response answers the request `q`: it is for the same destination, and an answer to a
forward request that attaches a route repeats the source and the route of the request. -/
def Answer (q : NlMsg) : Response → Prop
  | .sendPkt msg => msg.dst = q.dst ∧
      (q.reqType = GEOSVR_NL_MSG_TYPE_FORWARD → msg.routeLen ≠ 0 →
        msg.src = q.src ∧ msg.routeLen = q.routeLen ∧
        msg.route.take msg.routeLen.toNat = q.route)
  | .dropPkt dst => dst = q.dst

theorem Answer.dst {q : NlMsg} {r : Response} (h : Answer q r) : r.dst = q.dst := by
  cases r with
  | sendPkt msg => exact h.1
  | dropPkt dst => exact h

/-- Responses come from the daemon: each answers a request that was sent to it. -/
def Answers (s : Module) : Action → Prop
  | .response tag type len msg => ∃ q, (tag, q) ∈ s.requests ∧
      ∀ r, geosvrNetlinkRecvPeer type len msg = some r → Answer q r
  | _ => True

/-- The destination of a packet. -/
def dest (skb : SkBuff) : UInt32 := daddr skb.mem skb.networkHeader

theorem destCmp_iff {d : UInt32} {e : QueueEntry} : destCmp d e = true ↔ dest e.skb = d := by
  simp [destCmp, dest]

/-- Somebody asked for the packet `tag` with the request `q`. -/
def AskedFor (s : Module) (tag : ℕ) (q : NlMsg) : Prop :=
  ∃ c, (c, q) ∈ s.kept ∧ c.skb.id = tag ∧ RequestOf c q

/-- What is known in every run: who asked for what, and that a packet is released by an answer to
a request for its destination. -/
structure Known (s : Module) : Prop where
  asking : ∀ r ∈ s.asking, AskedFor s r.1 r.2
  requests : ∀ r ∈ s.requests, AskedFor s r.1 r.2
  handlers : ∀ h ∈ s.handlers, ∃ q, AskedFor s h.1 q ∧ Answer q h.2
  released : ∀ r ∈ s.released, r.response.dst = dest r.skb ∧
    (∃ q, AskedFor s r.tag q ∧ Answer q r.response) ∧
    ∃ k f, r.effects = releaseEntry k r.response ⟨r.skb, f⟩

theorem AskedFor.mono {s s' : Module} (hk : s.kept ⊆ s'.kept) {tag : ℕ} {q : NlMsg}
    (h : AskedFor s tag q) : AskedFor s' tag q := by
  obtain ⟨c, hc, h⟩ := h
  exact ⟨c, hk hc, h⟩

/-- The knowledge is kept when the lists do not grow. -/
theorem Known.mono {s s' : Module} (h : Known s) (hk : s.kept ⊆ s'.kept)
    (ha : ∀ r ∈ s'.asking, r ∈ s.asking ∨ AskedFor s' r.1 r.2)
    (hr : ∀ r ∈ s'.requests, r ∈ s.requests ∨ AskedFor s' r.1 r.2)
    (hh : ∀ r ∈ s'.handlers, r ∈ s.handlers ∨ ∃ q, AskedFor s' r.1 q ∧ Answer q r.2)
    (hl : ∀ r ∈ s'.released, r ∈ s.released ∨ r.response.dst = dest r.skb ∧
      (∃ q, AskedFor s' r.tag q ∧ Answer q r.response) ∧
      ∃ k f, r.effects = releaseEntry k r.response ⟨r.skb, f⟩) : Known s' where
  asking r hm := (ha r hm).elim (fun hm => (h.asking r hm).mono hk) id
  requests r hm := (hr r hm).elim (fun hm => (h.requests r hm).mono hk) id
  handlers r hm := (hh r hm).elim
    (fun hm => (h.handlers r hm).imp (fun _ hq => ⟨hq.1.mono hk, hq.2⟩)) id
  released r hm := (hl r hm).elim
    (fun hm => ⟨(h.released r hm).1, (h.released r hm).2.1.imp
      (fun _ hq => ⟨hq.1.mono hk, hq.2⟩), (h.released r hm).2.2⟩) id

/-- The state after an iteration of a loop. -/
theorem handled_cases (s : Module) (i : ℕ) (k : Release) (r : ℕ × Response) :
    (∃ e q, findDel (destCmp r.2.dst) s.queue.list = some (e, q.list) ∧ s.handled i k r = { s with
      queue := q
      effects := s.effects ++ releaseEntry k r.2 e
      released := ⟨e.skb, r.1, r.2, releaseEntry k r.2 e⟩ :: s.released }) ∨
    s.handled i k r = { s with handlers := s.handlers.eraseIdx i } := by
  unfold Module.handled
  cases hd : findDequeueEntry (destCmp r.2.dst) s.queue with
  | none => exact Or.inr rfl
  | some p => exact Or.inl ⟨p.1, p.2, (findDequeueEntry_some hd).1, rfl⟩

/-- A call of the hook adds its own request. -/
theorem captured_known {s : Module} (hs : Known s) (cfg : Config) (c : Capture) :
    Known (s.captured cfg c) := by
  obtain ⟨-, -, -, -, msg, hreq, hof⟩ | ⟨-, -, -, hreq⟩ := (geosvrHook_cases cfg c s.queue).2
  · have hkept : (s.captured cfg c).kept = (c, msg) :: s.kept := by
      simp only [Module.captured, hreq]
    refine hs.mono (by rw [hkept]; exact List.subset_cons_self _ _) ?_
      (fun r hr => Or.inl hr) (fun r hr => Or.inl hr) (fun r hr => Or.inl hr)
    intro r hr
    simp only [Module.captured, hreq, List.mem_cons] at hr
    obtain rfl | hr := hr
    · exact Or.inr ⟨c, by rw [hkept]; exact List.mem_cons_self, rfl, hof⟩
    · exact Or.inl hr
  · refine hs.mono ?_ (fun r hr => Or.inl ?_) (fun r hr => Or.inl hr)
      (fun r hr => Or.inl hr) (fun r hr => Or.inl hr)
    · simp only [Module.captured, hreq]
      exact fun _ => id
    · simpa only [Module.captured, hreq] using hr

/-- A request that is sent was asked. -/
theorem asked_known {s : Module} (hs : Known s) {tag : ℕ} {msg : NlMsg}
    (hm : (tag, msg) ∈ s.asking) (granted : Bool) : Known (s.asked tag granted msg) := by
  refine hs.mono (fun _ => id) (fun r hr => Or.inl (List.mem_of_mem_filter hr)) ?_
    (fun r hr => Or.inl hr) (fun r hr => Or.inl hr)
  intro r hr
  cases granted with
  | false => exact Or.inl hr
  | true =>
      obtain rfl | hr := List.mem_cons.mp hr
      · exact Or.inr (hs.asking _ hm)
      · exact Or.inl hr

/-- An answer is to a request that was sent. -/
theorem answered_known {s : Module} (hs : Known s) {tag type len : ℕ} {msg : NlMsg}
    (ha : Answers s (.response tag type len msg)) : Known (s.answered tag type len msg) := by
  refine hs.mono (fun _ => id) (fun r hr => Or.inl hr)
    (fun r hr => Or.inl (List.mem_of_mem_filter hr)) ?_ (fun r hr => Or.inl hr)
  intro r hr
  obtain ⟨q, hq, hans⟩ := ha
  simp only [Module.answered] at hr
  cases hp : geosvrNetlinkRecvPeer type len msg with
  | none => exact Or.inl (by simpa only [hp] using hr)
  | some p =>
      rw [hp] at hr
      obtain rfl | hr := List.mem_cons.mp hr
      · exact Or.inr ⟨q, hs.requests _ hq, hans p hp⟩
      · exact Or.inl hr

/-- A loop releases a packet for the destination of its answer. -/
theorem handled_known {s : Module} (hs : Known s) {i : ℕ} {r : ℕ × Response}
    (hi : s.handlers[i]? = some r) (k : Release) : Known (s.handled i k r) := by
  obtain ⟨e, q, hd, he⟩ | he := handled_cases s i k r
  · rw [he]
    refine hs.mono (fun _ => id) (fun r hr => Or.inl hr) (fun r hr => Or.inl hr)
      (fun r hr => Or.inl hr) ?_
    intro r' hr'
    obtain rfl | hr' := List.mem_cons.mp hr'
    · refine Or.inr ⟨(destCmp_iff.mp (findDel_some hd).1).symm,
        hs.handlers r (List.mem_of_getElem? hi), k, e.okfn, rfl⟩
    · exact Or.inl hr'
  · rw [he]
    exact hs.mono (fun _ => id) (fun r hr => Or.inl hr) (fun r hr => Or.inl hr)
      (fun r hr => Or.inl (List.mem_of_mem_eraseIdx hr)) (fun r hr => Or.inl hr)

theorem step_known {cfg : Config} {s s' : Module} {a : Action} (hs : Known s) (ha : Answers s a)
    (h : step cfg s a = some s') : Known s' := by
  rcases step_cases h with ⟨c, rfl, -, rfl⟩ | ⟨tag, granted, msg, rfl, hm, rfl⟩ |
    ⟨tag, type, len, msg, rfl, rfl⟩ | ⟨i, k, r, rfl, hi, rfl⟩ | ⟨rfl, rfl⟩
  · exact captured_known hs cfg c
  · exact asked_known hs hm granted
  · exact answered_known hs ha
  · exact handled_known hs hi k
  · exact ⟨hs.asking, hs.requests, hs.handlers, hs.released⟩

theorem run_known {cfg : Config} {as : List Action} {s : Module}
    (hr : Run (step cfg) Answers Module.init as s) : Known s :=
  hr.inv Known (fun _ _ _ hs ha h => step_known hs ha h)
    ⟨by simp [Module.init], by simp [Module.init], by simp [Module.init], by simp [Module.init]⟩

/-! ### Flows that do not overlap -/

/-- Nothing about the destination `d` is under way. -/
structure Idle (d : UInt32) (s : Module) : Prop where
  queue : ∀ e ∈ s.queue.list, dest e.skb ≠ d
  asking : ∀ r ∈ s.asking, r.2.dst ≠ d
  requests : ∀ r ∈ s.requests, r.2.dst ≠ d
  handlers : ∀ h ∈ s.handlers, h.2.dst ≠ d

/-- Responses come from the daemon, and a packet to `d` is captured only when `d` is idle, with a
request for `d`. -/
def Exclusive (cfg : Config) (d : UInt32) (s : Module) (a : Action) : Prop :=
  Answers s a ∧ ∀ c msg, a = .hook c → (geosvrHook cfg c s.queue).request = some msg →
    dest (geosvrHook cfg c s.queue).skb = d ∨ msg.dst = d →
    dest (geosvrHook cfg c s.queue).skb = d ∧ msg.dst = d ∧ Idle d s

/-- All that is under way about `d` concerns the packet `t`. -/
structure OneFlow (d : UInt32) (t : ℕ) (s : Module) : Prop where
  queue : ∀ e ∈ s.queue.list, dest e.skb = d → e.skb.id = t
  asking : ∀ r ∈ s.asking, r.2.dst = d → r.1 = t
  requests : ∀ r ∈ s.requests, r.2.dst = d → r.1 = t
  handlers : ∀ h ∈ s.handlers, h.2.dst = d → h.1 = t

/-- Packets to `d` were released by their own answers. -/
def Own (d : UInt32) (s : Module) : Prop := ∀ r ∈ s.released, dest r.skb = d → r.tag = r.skb.id

theorem Idle.oneFlow {d : UInt32} {s : Module} (h : Idle d s) (t : ℕ) : OneFlow d t s :=
  ⟨fun e he hd => absurd hd (h.queue e he), fun r hr hd => absurd hd (h.asking r hr),
    fun r hr hd => absurd hd (h.requests r hr), fun r hr hd => absurd hd (h.handlers r hr)⟩

theorem captured_oneFlow {cfg : Config} {d : UInt32} {t : ℕ} {s : Module} {c : Capture}
    (hs : OneFlow d t s) (hc : Exclusive cfg d s (.hook c)) :
    ∃ t', OneFlow d t' (s.captured cfg c) := by
  obtain ⟨hid, hcase⟩ := geosvrHook_cases cfg c s.queue
  obtain ⟨-, -, hq, -, msg, hreq, -⟩ | ⟨-, -, hq, hreq⟩ := hcase
  · have hqueue : ∀ e ∈ (s.captured cfg c).queue.list,
        e.skb = (geosvrHook cfg c s.queue).skb ∨ e ∈ s.queue.list := by
      intro e he
      simp only [Module.captured, hq] at he
      rcases enqueuePacket_cases c.entryGranted (geosvrHook cfg c s.queue).skb c.okfn s.queue with
        ⟨-, -, h⟩ | ⟨-, h⟩
      · rw [h] at he
        obtain rfl | he := List.mem_cons.mp he
        · exact Or.inl rfl
        · exact Or.inr he
      · rw [h] at he
        exact Or.inr he
    have hasking : (s.captured cfg c).asking = (c.skb.id, msg) :: s.asking := by
      simp only [Module.captured, hreq]
    by_cases hd : dest (geosvrHook cfg c s.queue).skb = d ∨ msg.dst = d
    · -- a packet to `d`, which was idle
      obtain ⟨-, -, hidle⟩ := hc.2 c msg rfl hreq hd
      have h := hidle.oneFlow c.skb.id
      refine ⟨c.skb.id, ?_, ?_, h.requests, h.handlers⟩
      · intro e he hd
        obtain he | he := hqueue e he
        · rw [he, hid]
        · exact h.queue e he hd
      · intro r hr hd
        rw [hasking] at hr
        obtain rfl | hr := List.mem_cons.mp hr
        · rfl
        · exact h.asking r hr hd
    · -- a packet to another destination
      refine ⟨t, ?_, ?_, hs.requests, hs.handlers⟩
      · intro e he hd'
        obtain he | he := hqueue e he
        · exact absurd (Or.inl (he ▸ hd')) hd
        · exact hs.queue e he hd'
      · intro r hr hd'
        rw [hasking] at hr
        obtain rfl | hr := List.mem_cons.mp hr
        · exact absurd (Or.inr hd') hd
        · exact hs.asking r hr hd'
  · refine ⟨t, ?_, ?_, hs.requests, hs.handlers⟩
    · simpa only [Module.captured, hq] using hs.queue
    · simpa only [Module.captured, hreq] using hs.asking

theorem asked_oneFlow {d : UInt32} {t tag : ℕ} {s : Module} {msg : NlMsg} (hs : OneFlow d t s)
    (hm : (tag, msg) ∈ s.asking) (granted : Bool) : OneFlow d t (s.asked tag granted msg) := by
  refine ⟨hs.queue, fun r hr => hs.asking r (List.mem_of_mem_filter hr), ?_, hs.handlers⟩
  intro r hr hd
  cases granted with
  | false => exact hs.requests r hr hd
  | true =>
      obtain rfl | hr := List.mem_cons.mp hr
      · exact hs.asking _ hm hd
      · exact hs.requests r hr hd

theorem answered_oneFlow {d : UInt32} {t tag type len : ℕ} {s : Module} {msg : NlMsg}
    (hs : OneFlow d t s) (ha : Answers s (.response tag type len msg)) :
    OneFlow d t (s.answered tag type len msg) := by
  refine ⟨hs.queue, hs.asking, fun r hr => hs.requests r (List.mem_of_mem_filter hr), ?_⟩
  intro r hr hd
  obtain ⟨q, hq, hans⟩ := ha
  simp only [Module.answered] at hr
  cases hp : geosvrNetlinkRecvPeer type len msg with
  | none => exact hs.handlers r (by simpa only [hp] using hr) hd
  | some p =>
      rw [hp] at hr
      obtain rfl | hr := List.mem_cons.mp hr
      · exact hs.requests _ hq ((hans p hp).dst.symm.trans hd)
      · exact hs.handlers r hr hd

/-- The packet that a loop releases belongs to the flow of the answer. -/
theorem handled_oneFlow {d : UInt32} {t i : ℕ} {s : Module} {r : ℕ × Response}
    (hs : OneFlow d t s) (hown : Own d s) (hi : s.handlers[i]? = some r) (k : Release) :
    OneFlow d t (s.handled i k r) ∧ Own d (s.handled i k r) := by
  have hmem := List.mem_of_getElem? hi
  obtain ⟨e, q, hd, he⟩ | he := handled_cases s i k r
  · rw [he]
    refine ⟨⟨fun x hx => hs.queue x (findDel_subset hd hx), hs.asking, hs.requests, hs.handlers⟩,
      fun r' hr' hd' => ?_⟩
    obtain rfl | hr' := List.mem_cons.mp hr'
    · -- both the answer and the packet belong to the flow
      have hdst := destCmp_iff.mp (findDel_some hd).1
      exact (hs.handlers r hmem (hdst.symm.trans hd')).trans
        (hs.queue e (findDel_mem hd) hd').symm
    · exact hown r' hr' hd'
  · rw [he]
    exact ⟨⟨hs.queue, hs.asking, hs.requests,
      fun h hh => hs.handlers h (List.mem_of_mem_eraseIdx hh)⟩, hown⟩

/-- Step lemma: the step keeps to one flow, and a packet it releases goes with its own answer. -/
theorem step_oneFlow {cfg : Config} {d : UInt32} {t : ℕ} {s s' : Module} {a : Action}
    (hs : OneFlow d t s) (hown : Own d s) (hc : Exclusive cfg d s a)
    (h : step cfg s a = some s') : (∃ t', OneFlow d t' s') ∧ Own d s' := by
  rcases step_cases h with ⟨c, rfl, -, rfl⟩ | ⟨tag, granted, msg, rfl, hm, rfl⟩ |
    ⟨tag, type, len, msg, rfl, rfl⟩ | ⟨i, k, r, rfl, hi, rfl⟩ | ⟨rfl, rfl⟩
  · exact ⟨captured_oneFlow hs hc, hown⟩
  · exact ⟨⟨t, asked_oneFlow hs hm granted⟩, hown⟩
  · exact ⟨⟨t, answered_oneFlow hs hc.1⟩, hown⟩
  · obtain ⟨hflow, hown'⟩ := handled_oneFlow hs hown hi k
    exact ⟨⟨t, hflow⟩, hown'⟩
  · exact ⟨⟨t, by simp [Module.exited, geosvrQueueFlush], hs.asking, hs.requests,
      hs.handlers⟩, hown⟩

theorem run_own {cfg : Config} {d : UInt32} {as : List Action} {s : Module}
    (hr : Run (step cfg) (Exclusive cfg d) Module.init as s) : Own d s := by
  have hinit : ∃ t, OneFlow d t Module.init :=
    ⟨0, by simp [Module.init], by simp [Module.init], by simp [Module.init], by simp [Module.init]⟩
  have h := hr.inv (fun s => (∃ t, OneFlow d t s) ∧ Own d s)
    (fun s a s' hs hc h => by
      obtain ⟨⟨t, hone⟩, hown⟩ := hs
      exact step_oneFlow hone hown hc h)
    ⟨hinit, by simp [Own, Module.init]⟩
  exact h.2

/-- A relay, `10.0.0.9`. -/
def relayConfig : Config := ⟨0x0900000A, 0xFF00000A, 2, none⟩

/-- A packet from `10.0.0.src` to `10.0.0.2` with the route `road`, a single digit. -/
def relayedSkb (id : ℕ) (src road : UInt8) : SkBuff where
  id := id
  mem := Bytes.write (fun _ => 0) 64
    [0x45, 0, 0, 45, 0, 0, 0, 0, 64, 17, 0, 0, 10, 0, 0, src, 10, 0, 0, 2,
      0, 0xFE, 0, 0, 0, 0xFE, 0, 0, 10, 0, 0, src, 10, 0, 0, 2, 1, 0, 0, 0, road, 7, 8, 9, 10]
  head := 0
  data := 64
  len := 45
  networkHeader := 64
  users := 1
  cloned := false
  kfrees := 0
  dst := none

def relayedCapture (id : ℕ) (src road : UInt8) : Capture :=
  ⟨.preRouting, relayedSkb id src road, 2, 0, true, 0, true, 0, true, true⟩

/-- The answer to a forward request from `10.0.0.src` to `10.0.0.2`: its route again. -/
def relayedAnswer (src : UInt32) (road : UInt8) : NlMsg :=
  ⟨GEOSVR_RSP_SEND, GEOSVR_NL_MSG_REQ_FORWARD, 0, src, 0x0200000A, 5, 1, [road]⟩

/-- One packet, its request, the answer, its release. -/
def single : List Action :=
  [.hook (relayedCapture 1 1 49), .request 1 true,
    .response 1 103 49 (relayedAnswer 0x0100000A 49), .handle 0 ⟨true, fun _ => some 1, 0⟩]

def overlapping : List Action :=
  [.hook (relayedCapture 1 1 49), .hook (relayedCapture 2 3 50), .request 1 true, .request 2 true,
    .response 1 103 49 (relayedAnswer 0x0100000A 49),
    .handle 0 ⟨true, fun _ => some 1, 0⟩, .handle 0 ⟨true, fun _ => some 1, 0⟩]

end GeoSvr.Kernel
