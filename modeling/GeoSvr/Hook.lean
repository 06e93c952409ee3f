import GeoSvr.Queue

/-! # The netfilter hook and the module (`geosvr_mod.c`)

`geosvrHook` is the hook function: it lets gpsd traffic, broadcasts and multicasts through,
queues what the host sends and what it has to relay, and asks the daemon for a route.

`Module` is the state of the module and `step` what can happen to it.  The locks are held for a
single list operation, so the steps are small and interleave freely:

* `hook` runs the hook up to the enqueuing of the packet, `request` sends the request of a hook
  call that is under way;
* `response` is the arrival of an answer, `handle` one iteration of the loop it starts;
* `unload` is `geosvr_linux_exit`: unregistering waits for the hook calls under way, then the
  queue is flushed.

Every `sk_buff` that enters the hook is a new one, known by its `id`.  A request carries the `id`
of the packet it is for, and a response the `id` of the request it answers.  These marks, and the
logs of what happened, are not in the source; no step depends on them. -/

namespace GeoSvr.Kernel

open Bytes

inductive HookNum
  | preRouting
  | localOut
  | other
deriving DecidableEq

/-- Verdicts of a hook function. -/
inductive Verdict
  | accept
  | drop
  | stolen
deriving DecidableEq

/-- `struct if_info` and the module's parameter `bcast_addr`. -/
structure Config where
  ifAddr : UInt32
  bcAddr : UInt32
  ifindex : ℕ
  bcastAddr : Option UInt32

/-- A call of the hook: its arguments (`dev` is the index of `in` or `out`) and what the kernel
decides during the call. -/
structure Capture where
  hooknum : HookNum
  skb : SkBuff
  dev : ℕ
  okfn : Okfn
  probeGranted : Bool
  probeId : ℕ
  copyGranted : Bool
  copyId : ℕ
  hdrGranted : Bool
  entryGranted : Bool

/-- The port of gpsd. -/
def gpsdPort : UInt16 := 2947

def IPPROTO_TCP : UInt8 := 6
def IPPROTO_UDP : UInt8 := 17

/-- Traffic of gpsd; both protocols have the source and the destination port first. -/
def isGpsd (m : Mem) (iph : ℕ) : Bool :=
  (protocol m iph == IPPROTO_UDP || protocol m iph == IPPROTO_TCP) &&
    (be16 m (iph + ipHdrLen m iph + 2) == gpsdPort || be16 m (iph + ipHdrLen m iph) == gpsdPort)

def INADDR_BROADCAST : UInt32 := 0xffffffff

/-- `IN_MULTICAST(ntohl(a))`: the first byte in memory begins with `1110`. -/
def inMulticast (a : UInt32) : Bool := a.toNat % 256 / 16 == 14

/-- The addresses of the interface, or zero if the packet uses another one. -/
def ifaddr (cfg : Config) (c : Capture) : UInt32 := if cfg.ifindex = c.dev then cfg.ifAddr else 0
def bcaddr (cfg : Config) (c : Capture) : UInt32 := if cfg.ifindex = c.dev then cfg.bcAddr else 0

/-- The part of `geosvr_hook` before the `switch`. -/
def bypass (cfg : Config) (c : Capture) : Option Verdict :=
  let m := c.skb.mem
  let iph := c.skb.networkHeader
  if iph = 0 then some .accept
  else if isGpsd m iph then some .accept
  else if daddr m iph = INADDR_BROADCAST ∨ inMulticast (daddr m iph) ∨
      daddr m iph = bcaddr cfg c then
    match cfg.bcastAddr with
    | none => some .accept
    | some a => if saddr m iph = a ∨ saddr m iph = ifaddr cfg c then some .accept else some .drop
  else none

/-- What a call of the hook leaves: its verdict, the caller's `sk_buff`, the queue, and the
request that is to be sent. -/
structure HookResult where
  verdict : Verdict
  skb : SkBuff
  queue : Queue
  request : Option NlMsg

/-- `geosvr_hook`.  The status of `geosvr_queue_enqueue_packet` is not looked at. -/
def geosvrHook (cfg : Config) (c : Capture) (q : Queue) : HookResult :=
  match bypass cfg c with
  | some v => ⟨v, c.skb, q, none⟩
  | none =>
      match c.hooknum with
      | .preRouting =>
          let (encapsulated, skb) := geosvrIpHasEncapsulated c.probeGranted c.probeId c.skb
          if encapsulated then
            let d := geosvrIpDecapsulate c.copyGranted c.hdrGranted c.copyId skb
            match d.geoHdr with
            | none => ⟨.accept, d.skb, q, none⟩
            | some hdr =>
                if daddr d.skb.mem d.skb.networkHeader = ifaddr cfg c then
                  ⟨.accept, d.skb, q, none⟩
                else
                  ⟨.stolen, d.skb, (geosvrQueueEnqueuePacket c.entryGranted d.skb c.okfn q).2,
                    some (geosvrNetlinkReqNormal GEOSVR_NL_MSG_TYPE_FORWARD hdr.src hdr.dst
                      hdr.routeLen hdr.route)⟩
          else ⟨.accept, skb, q, none⟩
      | .localOut =>
          ⟨.stolen, c.skb, (geosvrQueueEnqueuePacket c.entryGranted c.skb c.okfn q).2,
            some (geosvrNetlinkReqNormal GEOSVR_NL_MSG_TYPE_SEND
              (saddr c.skb.mem c.skb.networkHeader) (daddr c.skb.mem c.skb.networkHeader) 0 [])⟩
      | .other => ⟨.accept, c.skb, q, none⟩

/-! ### What a call of the hook does -/

/-- Neither shared nor cloned. -/
def Private (skb : SkBuff) : Prop := skb.users = 1 ∧ skb.cloned = false

instance (skb : SkBuff) : Decidable (Private skb) := inferInstanceAs (Decidable (_ ∧ _))

/-- The hook keeps the packet: nothing lets it bypass, and either this host sends it, or it
carries a GeoSVR header, which can be copied out, and is for another host. -/
def Captures (cfg : Config) (c : Capture) : Prop :=
  bypass cfg c = none ∧ (c.hooknum = .localOut ∨ c.hooknum = .preRouting ∧
    (geosvrIpHasEncapsulated c.probeGranted c.probeId c.skb).1 = true ∧
    let d := geosvrIpDecapsulate c.copyGranted c.hdrGranted c.copyId
      (geosvrIpHasEncapsulated c.probeGranted c.probeId c.skb).2
    d.geoHdr ≠ none ∧ daddr d.skb.mem d.skb.networkHeader ≠ ifaddr cfg c)

/-- The new entry goes into the queue. -/
def Enqueued (c : Capture) (q : Queue) : Prop := c.entryGranted = true ∧ q.total < queueMaxlen

instance (c : Capture) (q : Queue) : Decidable (Enqueued c q) :=
  inferInstanceAs (Decidable (_ ∧ _))

theorem decapsulatePrivate_frame (granted : Bool) (skb : SkBuff) :
    (decapsulatePrivate granted skb).1.id = skb.id ∧
      (decapsulatePrivate granted skb).1.kfrees = skb.kfrees := by
  unfold decapsulatePrivate SkBuff.trim
  dsimp only
  split_ifs <;> exact ⟨rfl, rfl⟩

/-- A shared or cloned `sk_buff` is released once; nothing else is. -/
theorem decapsulate_frame (copyGranted granted : Bool) (copyId : ℕ) (skb : SkBuff) :
    (geosvrIpDecapsulate copyGranted granted copyId skb).skb.id = skb.id ∧
      (geosvrIpDecapsulate copyGranted granted copyId skb).skb.kfrees =
        skb.kfrees + if skb.shared || skb.cloned then 1 else 0 := by
  unfold geosvrIpDecapsulate
  split_ifs with h
  · cases skb.pskbCopy copyGranted copyId <;> exact ⟨rfl, rfl⟩
  · exact decapsulatePrivate_frame granted skb

theorem hasEncapsulated_skb (granted : Bool) (copyId : ℕ) (skb : SkBuff) :
    (geosvrIpHasEncapsulated granted copyId skb).2 =
      if skb.shared || skb.cloned then skb.kfreeSkb else skb := by
  unfold geosvrIpHasEncapsulated
  split_ifs with h
  · cases skb.pskbCopy granted copyId <;> rfl
  · rfl

/-- The request of a call: for the packet's addresses, or for what its GeoSVR header says. -/
def RequestOf (c : Capture) (msg : NlMsg) : Prop :=
  (c.hooknum = .localOut ∧ msg = geosvrNetlinkReqNormal GEOSVR_NL_MSG_TYPE_SEND
    (saddr c.skb.mem c.skb.networkHeader) (daddr c.skb.mem c.skb.networkHeader) 0 []) ∨
  (c.hooknum = .preRouting ∧ ∃ hdr,
    (geosvrIpDecapsulate c.copyGranted c.hdrGranted c.copyId
      (geosvrIpHasEncapsulated c.probeGranted c.probeId c.skb).2).geoHdr = some hdr ∧
    msg = geosvrNetlinkReqNormal GEOSVR_NL_MSG_TYPE_FORWARD hdr.src hdr.dst hdr.routeLen hdr.route)

/-- How often a call that keeps the packet releases it. -/
def captureFrees (c : Capture) : ℕ :=
  if c.hooknum = .localOut then 0
  else if c.skb.users = 1 ∧ c.skb.cloned = false then 0
  else if c.skb.users = 2 ∧ c.skb.cloned = false then 1
  else 2

theorem preRouting_frees (copyGranted granted probeGranted : Bool) (copyId probeId : ℕ)
    (skb : SkBuff) :
    (geosvrIpDecapsulate copyGranted granted copyId
        (geosvrIpHasEncapsulated probeGranted probeId skb).2).skb.kfrees =
      skb.kfrees + if skb.users = 1 ∧ skb.cloned = false then 0
        else if skb.users = 2 ∧ skb.cloned = false then 1 else 2 := by
  rw [(decapsulate_frame _ _ _ _).2, hasEncapsulated_skb]
  by_cases hu : skb.users = 1
  · cases hcl : skb.cloned <;> simp [SkBuff.shared, hu, hcl, SkBuff.kfreeSkb]
  · cases hcl : skb.cloned with
    | true => simp [SkBuff.shared, hu, hcl, SkBuff.kfreeSkb]
    | false =>
        by_cases h2 : skb.users = 2
        · simp [SkBuff.shared, h2, hcl, SkBuff.kfreeSkb]
        · have : skb.users - 1 ≠ 1 := by omega
          simp [SkBuff.shared, hu, h2, hcl, SkBuff.kfreeSkb, this]

/-- What a call of the hook does: it keeps the packet and asks for a route, or it leaves the
queue alone. -/
theorem geosvrHook_cases (cfg : Config) (c : Capture) (q : Queue) :
    (geosvrHook cfg c q).skb.id = c.skb.id ∧
    ((Captures cfg c ∧ (geosvrHook cfg c q).verdict = .stolen ∧
        (geosvrHook cfg c q).queue =
          (geosvrQueueEnqueuePacket c.entryGranted (geosvrHook cfg c q).skb c.okfn q).2 ∧
        (geosvrHook cfg c q).skb.kfrees = c.skb.kfrees + captureFrees c ∧
        ∃ msg, (geosvrHook cfg c q).request = some msg ∧ RequestOf c msg) ∨
      (¬ Captures cfg c ∧ (geosvrHook cfg c q).verdict ≠ .stolen ∧
        (geosvrHook cfg c q).queue = q ∧ (geosvrHook cfg c q).request = none)) := by
  unfold geosvrHook Captures RequestOf
  cases hb : bypass cfg c with
  | some v =>
      refine ⟨rfl, Or.inr ⟨by simp, ?_, rfl, rfl⟩⟩
      unfold bypass at hb
      dsimp only at hb
      split_ifs at hb with h₁ h₂ h₃
      · cases hb; simp
      · cases hb; simp
      · cases ha : cfg.bcastAddr with
        | none => rw [ha] at hb; cases hb; simp
        | some a =>
            rw [ha] at hb
            dsimp only at hb
            split_ifs at hb <;> cases hb <;> simp
  | none =>
      cases hn : c.hooknum with
      | localOut =>
          exact ⟨rfl, Or.inl ⟨by simp, rfl, rfl, by simp [captureFrees, hn], _, rfl, by simp⟩⟩
      | other => exact ⟨rfl, Or.inr ⟨by simp, by simp, rfl, rfl⟩⟩
      | preRouting =>
          have hfrees := preRouting_frees c.copyGranted c.hdrGranted c.probeGranted c.copyId
            c.probeId c.skb
          have hprobe : (geosvrIpHasEncapsulated c.probeGranted c.probeId c.skb).2.id =
              c.skb.id := by
            rw [hasEncapsulated_skb]
            split_ifs <;> rfl
          dsimp only
          cases he : (geosvrIpHasEncapsulated c.probeGranted c.probeId c.skb).1 with
          | false => exact ⟨hprobe, Or.inr ⟨by simp, by simp, rfl, rfl⟩⟩
          | true =>
              generalize (geosvrIpHasEncapsulated c.probeGranted c.probeId c.skb).2 = skb at *
              have hid := (decapsulate_frame c.copyGranted c.hdrGranted c.copyId skb).1.trans hprobe
              cases hg : (geosvrIpDecapsulate c.copyGranted c.hdrGranted c.copyId skb).geoHdr with
              | none => simp [hid]
              | some hdr =>
                  simp only [if_true]
                  split_ifs with hd
                  · exact ⟨hid, Or.inr ⟨by simp [hd], by simp, rfl, rfl⟩⟩
                  · exact ⟨hid, Or.inl ⟨by simp [hd], rfl, rfl,
                      by simpa [captureFrees, hn] using hfrees, _, rfl, by simp⟩⟩

/-! ### The module -/

/-- A packet that a response released: as it was queued, the mark of the response, the
response, and what became of the packet. -/
structure Released where
  skb : SkBuff
  tag : ℕ
  response : Response
  effects : List Effect

structure Module where
  queue : Queue
  /-- requests of hook calls under way -/
  asking : List (ℕ × NlMsg)
  /-- requests sent and not answered -/
  requests : List (ℕ × NlMsg)
  /-- loops under way -/
  handlers : List (ℕ × Response)
  unloaded : Bool
  /-- the `sk_buff`s that entered the hook, and those it kept -/
  seen : List ℕ
  stolen : List ℕ
  /-- the calls that asked for a route -/
  kept : List (Capture × NlMsg)
  effects : List Effect
  released : List Released

inductive Action
  | hook (c : Capture)
  | request (tag : ℕ) (granted : Bool)
  | response (tag : ℕ) (type len : ℕ) (msg : NlMsg)
  | handle (i : ℕ) (k : Release)
  | unload

/-- `geosvr_queue_init`: the module after it was loaded. -/
def Module.init : Module := ⟨⟨[], 0⟩, [], [], [], false, [], [], [], [], []⟩

/-- The loop body of a response. -/
def releaseEntry (k : Release) : Response → QueueEntry → List Effect
  | .sendPkt msg, e => sendEntry k msg e
  | .dropPkt _, e => dropEntry e

/-- The release fails for want of a route. -/
def releaseFails (k : Release) : Response → Bool
  | .sendPkt msg => forwardFails k msg
  | .dropPkt _ => false

/-- The module after a call of the hook. -/
def Module.captured (cfg : Config) (s : Module) (c : Capture) : Module :=
  let r := geosvrHook cfg c s.queue
  { s with
    queue := r.queue
    asking := match r.request with
      | none => s.asking
      | some msg => (c.skb.id, msg) :: s.asking
    seen := c.skb.id :: s.seen
    stolen := if r.verdict = .stolen then c.skb.id :: s.stolen else s.stolen
    kept := match r.request with
      | none => s.kept
      | some msg => (c, msg) :: s.kept
    effects := s.effects ++ List.replicate (r.skb.kfrees - c.skb.kfrees) (.kfree r.skb) }

/-- The module after an iteration of the loop of `h`, the `i`th handler. -/
def Module.handled (s : Module) (i : ℕ) (k : Release) (h : ℕ × Response) : Module :=
  match findDequeueEntry (destCmp h.2.dst) s.queue with
  | none => { s with handlers := s.handlers.eraseIdx i }
  | some (e, q) =>
      { s with
        queue := q
        effects := s.effects ++ releaseEntry k h.2 e
        released := ⟨e.skb, h.1, h.2, releaseEntry k h.2 e⟩ :: s.released }

/-- The module after the request `msg` of the packet `tag` was sent, if its allocations were
granted. -/
def Module.asked (s : Module) (tag : ℕ) (granted : Bool) (msg : NlMsg) : Module :=
  { s with
    asking := s.asking.filter (fun r => r.1 != tag)
    requests := if granted then (tag, msg) :: s.requests else s.requests }

/-- The module after the arrival of an answer to the request `tag`. -/
def Module.answered (s : Module) (tag type len : ℕ) (msg : NlMsg) : Module :=
  { s with
    requests := s.requests.filter (fun r => r.1 != tag)
    handlers := match geosvrNetlinkRecvPeer type len msg with
      | none => s.handlers
      | some r => (tag, r) :: s.handlers }

/-- `geosvr_linux_exit`. -/
def Module.exited (s : Module) : Module :=
  { s with
    unloaded := true
    queue := (geosvrQueueFlush s.queue).2
    effects := s.effects ++ (geosvrQueueFlush s.queue).1 }

def step (cfg : Config) (s : Module) : Action → Option Module
  | .hook c => if s.unloaded ∨ c.skb.id ∈ s.seen then none else some (s.captured cfg c)
  | .request tag granted =>
      match s.asking.lookup tag with
      | none => none
      | some msg => some (s.asked tag granted msg)
  | .response tag type len msg => some (s.answered tag type len msg)
  | .handle i k =>
      match s.handlers[i]? with
      | none => none
      | some h => some (s.handled i k h)
  | .unload => if s.unloaded ∨ s.asking ≠ [] then none else some s.exited

/-- What a step is. -/
theorem step_cases {cfg : Config} {s s' : Module} {a : Action} (h : step cfg s a = some s') :
    (∃ c, a = .hook c ∧ c.skb.id ∉ s.seen ∧ s' = s.captured cfg c) ∨
    (∃ tag granted msg, a = .request tag granted ∧ (tag, msg) ∈ s.asking ∧
      s' = s.asked tag granted msg) ∨
    (∃ tag type len msg, a = .response tag type len msg ∧ s' = s.answered tag type len msg) ∨
    (∃ i k r, a = .handle i k ∧ s.handlers[i]? = some r ∧ s' = s.handled i k r) ∨
    (a = .unload ∧ s' = s.exited) := by
  cases a with
  | hook c =>
      simp only [step] at h
      split_ifs at h with hg
      cases h
      exact Or.inl ⟨c, rfl, fun hm => hg (Or.inr hm), rfl⟩
  | request tag granted =>
      simp only [step] at h
      cases hl : s.asking.lookup tag with
      | none => rw [hl] at h; cases h
      | some msg =>
          rw [hl] at h
          cases h
          obtain ⟨l₁, l₂, he, -⟩ := List.lookup_eq_some_iff.mp hl
          exact Or.inr (Or.inl ⟨tag, granted, msg, rfl, by simp [he], rfl⟩)
  | response tag type len msg =>
      cases h
      exact Or.inr (Or.inr (Or.inl ⟨tag, type, len, msg, rfl, rfl⟩))
  | handle i k =>
      simp only [step] at h
      cases hi : s.handlers[i]? with
      | none => rw [hi] at h; cases h
      | some r =>
          rw [hi] at h
          cases h
          exact Or.inr (Or.inr (Or.inr (Or.inl ⟨i, k, r, rfl, hi, rfl⟩)))
  | unload =>
      simp only [step] at h
      split_ifs at h
      cases h
      exact Or.inr (Or.inr (Or.inr (Or.inr ⟨rfl, rfl⟩)))

end GeoSvr.Kernel
