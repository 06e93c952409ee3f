import GeoSvr.CpcNs
import GeoSvr.Runs

/-! # Packets of the ns-2 agents (`cpc_agent.cc`, `msvr_agent.cc`)

A packet for which there is no route is queued, and the routing protocol is asked for one.  The
MSVR agent answers at once: it sends the packet with the route in it, as a copy, or drops it.
Both look for the packet in the queue by its destination.  The copy's original is freed and every
entry for the destination removed; a dropped packet is freed, and its entry stays.

`Sim` is the simulation, with a log of what became of the packets.  `Conserved` is what should
hold after every packet; it fails at the first request that ends in a drop, and only there. -/

namespace GeoSvr.CpcNs

namespace Agents

open Runs

variable {ι : Type*}

/-! ### The routing protocol -/

/-- What the MSVR agent finds when it is asked for a route: whether the destination is a
neighbour, the bytes of the path in the packet, the next hop, and the header it builds. -/
structure Env where
  isNeighbour : Bool
  path : List ℤ
  next : UInt32
  header : List UInt8

/-- What `request_routing_cb` has the agent do. -/
inductive Call
  | sendProtPacketWithData (src dst next : UInt32)
  | dropPacket (dst : UInt32)
deriving DecidableEq

def everyOther : List ℤ → List ℤ
  | [] => []
  | [a] => [a]
  | a :: _ :: rest => a :: everyOther rest

/-- `decode_path`: the first byte is the length of the text, and every second one of the others a
junction. -/
def decodePath : List ℤ → List ℤ
  | [] => []
  | len :: bytes => everyOther (bytes.take len.toNat)

/-- `next.s_addr == -1`. -/
def nowhere : UInt32 := 0xffffffff

/-- `request_routing_cb`; `received` is the path of a packet that is relayed. -/
def requestRoutingCb (received : Option (List ℤ)) (src dst : UInt32) (env : Env) : Call :=
  if env.isNeighbour then .sendProtPacketWithData src dst dst
  else
    let send := Call.sendProtPacketWithData src dst (if env.next = nowhere then dst else env.next)
    match received with
    | none => send
    | some path => if (decodePath path).length < 2 then .dropPacket dst else send

/-! ### The simulation -/

/-- A packet sent with a route: the one it is a copy of, and the one that caused the request. -/
structure Copied where
  original : ℕ
  request : ℕ
  pkt : Packet

structure Sim (ι : Type*) where
  globals : Globals ι
  added : List ℕ
  freed : List ℕ
  copied : List Copied
  dropped : List ℕ
  /-- packets passed on without a request -/
  passed : List Packet

def init : Sim ι := ⟨Globals.init, [], [], [], [], []⟩

inductive Action (ι : Type*)
  | process (x : ι) (p : Packet) (env : Env)
  | rtAdd (x : ι) (dst next : UInt32)
  | rtUpdate (x : ι) (dst next : UInt32)
  | rtRemove (dst : UInt32)

/-- `CpcAgent::sendProtPacketWithData`, of the agent with the address `addr`. -/
def sendProtPacketWithData (addr : UInt32) (header : List UInt8) (request : ℕ)
    (src dst next : UInt32) (s : Sim ι) : Option (Sim ι) :=
  match cpcQueueNsGet dst s.globals with
  | none => none
  | some opkt =>
      let npkt : Packet := { opkt with
        saddr := src
        daddr := dst
        direction := .down
        afInet := true
        lastHop := addr
        nextHop := next
        prot := header ++ opkt.prot.drop header.length }
      some { s with
        globals := cpcQueueNsRemove dst s.globals
        freed := opkt.id :: s.freed
        copied := ⟨opkt.id, request, npkt⟩ :: s.copied }

/-- `CpcAgent::dropPacket`: the packet that is found is freed. -/
def dropPacket (dst : UInt32) (s : Sim ι) : Option (Sim ι) :=
  match cpcQueueNsGet dst s.globals with
  | none => none
  | some p => some { s with freed := p.id :: s.freed, dropped := p.id :: s.dropped }

/-- The packet is queued and the protocol asked, by the agent `x` with the address `addr`. -/
def request (addr : UInt32) (x : ι) (p : Packet) (env : Env) (s : Sim ι) : Option (Sim ι) :=
  let s := { s with
    globals := cpcQueueNsAdd x p p.daddr s.globals
    added := p.id :: s.added }
  -- a packet of this host has no path yet
  match requestRoutingCb (if p.saddr = addr then none else some env.path) p.saddr p.daddr env with
  | .sendProtPacketWithData src dst next =>
      sendProtPacketWithData addr env.header p.id src dst next s
  | .dropPacket dst => dropPacket dst s

/-- `CpcAgent::processPacket`. -/
def processPacket (addr : UInt32) (x : ι) (p : Packet) (env : Env) (s : Sim ι) : Option (Sim ι) :=
  if p.daddr = addr then some { s with passed := p :: s.passed }
  else
    match cpcRtFind p.daddr s.globals with
    | some next =>
        some { s with passed := { p with
          direction := .down, afInet := true, lastHop := addr, nextHop := next } :: s.passed }
    | none => request addr x p env s

/-- A packet that is processed has not been freed. -/
def step (addr : ι → UInt32) (s : Sim ι) : Action ι → Option (Sim ι)
  | .process x p env => if p.id ∈ s.freed then none else processPacket (addr x) x p env s
  | .rtAdd x dst next => some { s with globals := cpcRtAdd x dst next s.globals }
  | .rtUpdate x dst next => some { s with globals := cpcRtUpdate x dst next s.globals }
  | .rtRemove dst => some { s with globals := cpcRtRemove dst s.globals }

/-- Every packet that was queued has left the queue and was sent or dropped once, no entry refers
to a freed packet, and what was sent for a request is the packet that caused it. -/
structure Conserved (s : Sim ι) : Prop where
  left : ∀ id ∈ s.added, (∀ e ∈ s.globals.queue, e.p.id ≠ id) ∧
    s.copied.countP (fun c => c.original == id) + s.dropped.count id = 1
  live : ∀ e ∈ s.globals.queue, e.p.id ∉ s.freed
  matched : ∀ c ∈ s.copied, c.original = c.request

/-- The condition: a request does not end in a drop. -/
def Answered (addr : ι → UInt32) (s : Sim ι) : Action ι → Prop
  | .process x p env => p.daddr ≠ addr x → cpcRtFind p.daddr s.globals = none →
      env.isNeighbour = true ∨ p.saddr = addr x ∨ 2 ≤ (decodePath env.path).length
  | _ => True

/-- The invariant: the queue is empty, and what was freed is known. -/
structure Settled (s : Sim ι) : Prop where
  conserved : Conserved s
  queue : s.globals.queue = []
  added : ∀ id ∈ s.added, id ∈ s.freed
  copied : ∀ c ∈ s.copied, c.original ∈ s.freed
  dropped : ∀ id ∈ s.dropped, id ∈ s.freed

theorem settled_init : Settled (init : Sim ι) where
  conserved := ⟨by simp [init], by simp [init, Globals.init], by simp [init]⟩
  queue := rfl
  added := by simp [init]
  copied := by simp [init]
  dropped := by simp [init]

/-! ### Steps -/

/-- The routing table does not matter to the invariant. -/
theorem Settled.of_queue {s : Sim ι} (hs : Settled s) {g : Globals ι}
    (hq : g.queue = s.globals.queue) : Settled { s with globals := g } where
  conserved :=
    ⟨fun id hid => by
        obtain ⟨hleft, hone⟩ := hs.conserved.left id hid
        exact ⟨by simpa only [hq] using hleft, hone⟩,
      by simpa only [hq] using hs.conserved.live, hs.conserved.matched⟩
  queue := hq.trans hs.queue
  added := hs.added
  copied := hs.copied
  dropped := hs.dropped

theorem rtAdd_queue (x : ι) (dst next : UInt32) (g : Globals ι) :
    (rtAdd x dst next g).queue = g.queue := by
  unfold rtAdd
  split_ifs <;> rfl

theorem cpcRtUpdate_queue (x : ι) (dst next : UInt32) (g : Globals ι) :
    (cpcRtUpdate x dst next g).queue = g.queue := by
  unfold cpcRtUpdate
  cases rtFind dst g with
  | none => exact rtAdd_queue x dst next g
  | some e => rfl

theorem cpcRtRemove_queue (dst : UInt32) (g : Globals ι) : (cpcRtRemove dst g).queue = g.queue := by
  unfold cpcRtRemove
  cases rtFind dst g <;> rfl

/-- The callback drops the packet exactly when it is relayed, its destination is no neighbour and
its path has less than two junctions. -/
theorem requestRoutingCb_cases (received : Option (List ℤ)) (src dst : UInt32) (env : Env) :
    (∃ next, requestRoutingCb received src dst env = .sendProtPacketWithData src dst next ∧
      (env.isNeighbour = true ∨ ∀ path, received = some path → 2 ≤ (decodePath path).length)) ∨
    (requestRoutingCb received src dst env = .dropPacket dst ∧ env.isNeighbour = false ∧
      ∃ path, received = some path ∧ (decodePath path).length < 2) := by
  unfold requestRoutingCb
  cases hn : env.isNeighbour with
  | true => exact Or.inl ⟨dst, rfl, Or.inl rfl⟩
  | false =>
      cases received with
      | none => exact Or.inl ⟨_, rfl, Or.inr (fun _ h => by cases h)⟩
      | some path =>
          by_cases hl : (decodePath path).length < 2
          · refine Or.inr ⟨?_, rfl, path, rfl, hl⟩
            simp only [Bool.false_eq_true, if_false, hl, if_true]
          · refine Or.inl ⟨if env.next = nowhere then dst else env.next, ?_, Or.inr ?_⟩
            · simp only [Bool.false_eq_true, if_false, hl]
            · intro path' h
              cases h
              omega

/-- The packet just queued is the one that is found. -/
theorem get_added {g : Globals ι} (hq : g.queue = []) (x : ι) (p : Packet) :
    cpcQueueNsGet p.daddr (cpcQueueNsAdd x p p.daddr g) = some p := by
  simp [cpcQueueNsGet, cpcQueueNsAdd, hq]

theorem remove_added {g : Globals ι} (hq : g.queue = []) (x : ι) (p : Packet) :
    (cpcQueueNsRemove p.daddr (cpcQueueNsAdd x p p.daddr g)).queue = [] := by
  simp [cpcQueueNsRemove, cpcQueueNsAdd, hq]

/-- A request that is answered leaves the packet sent and freed. -/
theorem sent_settled {s : Sim ι} (hs : Settled s) {p pkt : Packet} (hnew : p.id ∉ s.freed)
    {g : Globals ι} (hq : g.queue = []) :
    Settled { s with
      globals := g
      added := p.id :: s.added
      freed := p.id :: s.freed
      copied := ⟨p.id, p.id, pkt⟩ :: s.copied } := by
  have hc0 : s.copied.countP (fun c => c.original == p.id) = 0 := by
    rw [List.countP_eq_zero]
    intro c hc he
    have he : c.original = p.id := by simpa using he
    exact hnew (he ▸ hs.copied c hc)
  have hd0 : s.dropped.count p.id = 0 := List.count_eq_zero.mpr (fun hm => hnew (hs.dropped _ hm))
  refine ⟨⟨fun id hid => ⟨by simp [hq], ?_⟩, by simp [hq], fun c hc => ?_⟩, hq, ?_, ?_, ?_⟩
  · obtain rfl | hid := List.mem_cons.mp hid
    · rw [List.countP_cons, hc0, hd0]
      simp
    · have hne : p.id ≠ id := fun he => hnew (he ▸ hs.added id hid)
      have hone := (hs.conserved.left id hid).2
      rw [List.countP_cons]
      simpa [hne] using hone
  · obtain rfl | hc := List.mem_cons.mp hc
    · rfl
    · exact hs.conserved.matched c hc
  · intro id hid
    obtain rfl | hid := List.mem_cons.mp hid
    · exact List.mem_cons_self
    · exact List.mem_cons_of_mem _ (hs.added id hid)
  · intro c hc
    obtain rfl | hc := List.mem_cons.mp hc
    · exact List.mem_cons_self
    · exact List.mem_cons_of_mem _ (hs.copied c hc)
  · exact fun id hid => List.mem_cons_of_mem _ (hs.dropped id hid)

/-- A request keeps packets conserved exactly when it does not end in a drop. -/
theorem request_conserved {addr : UInt32} {x : ι} {p : Packet} {env : Env} {s s' : Sim ι}
    (hs : Settled s) (hnew : p.id ∉ s.freed) (h : request addr x p env s = some s') :
    (Conserved s' ↔
        env.isNeighbour = true ∨ p.saddr = addr ∨ 2 ≤ (decodePath env.path).length) ∧
      (Conserved s' → Settled s') := by
  unfold request at h
  obtain ⟨next, hcb, hcond⟩ | ⟨hcb, hn, path, hpath, hlen⟩ := requestRoutingCb_cases
    (if p.saddr = addr then none else some env.path) p.saddr p.daddr env
  · simp only [hcb, sendProtPacketWithData, get_added hs.queue] at h
    have hset : Settled s' := by
      cases h
      exact sent_settled hs hnew (remove_added hs.queue x p)
    refine ⟨iff_of_true hset.conserved ?_, fun _ => hset⟩
    obtain hcond | hcond := hcond
    · exact Or.inl hcond
    · by_cases hsrc : p.saddr = addr
      · exact Or.inr (Or.inl hsrc)
      · exact Or.inr (Or.inr (hcond env.path (if_neg hsrc)))
  · simp only [hcb, dropPacket, get_added hs.queue] at h
    cases h
    have hbad : ¬ Conserved { s with
        globals := cpcQueueNsAdd x p p.daddr s.globals
        added := p.id :: s.added
        freed := p.id :: s.freed
        dropped := p.id :: s.dropped } := by
      intro hc
      have hentry : (⟨x, p.daddr, p⟩ : QueueEntry ι) ∈
          (cpcQueueNsAdd x p p.daddr s.globals).queue := by
        simp [cpcQueueNsAdd]
      exact hc.live _ hentry List.mem_cons_self
    refine ⟨iff_of_false hbad ?_, fun hc => absurd hc hbad⟩
    have hsrc : p.saddr ≠ addr := fun he => by simp [he] at hpath
    rw [if_neg hsrc] at hpath
    cases hpath
    rintro (h | h | h)
    · rw [hn] at h
      cases h
    · exact hsrc h
    · omega

/-- Processing a packet keeps packets conserved exactly when it meets the condition. -/
theorem process_conserved {addr : ι → UInt32} {x : ι} {p : Packet} {env : Env} {s s' : Sim ι}
    (hs : Settled s) (hnew : p.id ∉ s.freed) (h : processPacket (addr x) x p env s = some s') :
    (Conserved s' ↔ Answered addr s (.process x p env)) ∧ (Conserved s' → Settled s') := by
  have hpassed : ∀ l, Settled { s with passed := l } := fun l =>
    ⟨⟨hs.conserved.left, hs.conserved.live, hs.conserved.matched⟩, hs.queue, hs.added, hs.copied,
      hs.dropped⟩
  unfold processPacket at h
  unfold Answered
  by_cases hme : p.daddr = addr x
  · rw [if_pos hme] at h
    cases h
    exact ⟨iff_of_true (hpassed _).conserved (fun hne => absurd hme hne), fun _ => hpassed _⟩
  rw [if_neg hme] at h
  cases hrt : cpcRtFind p.daddr s.globals with
  | some next =>
      rw [hrt] at h
      cases h
      refine ⟨iff_of_true (hpassed _).conserved (fun _ hn => ?_), fun _ => hpassed _⟩
      rw [hrt] at hn
      cases hn
  | none =>
      rw [hrt] at h
      have hr := request_conserved hs hnew h
      exact ⟨hr.1.trans ⟨fun h _ _ => h, fun h => h hme hrt⟩, hr.2⟩

theorem step_conserved {addr : ι → UInt32} {s s' : Sim ι} {a : Action ι} (hs : Settled s)
    (h : step addr s a = some s') :
    (Conserved s' ↔ Answered addr s a) ∧ (Conserved s' → Settled s') := by
  cases a with
  | process x p env =>
      simp only [step] at h
      split_ifs at h with hfreed
      exact process_conserved hs hfreed h
  | rtAdd x dst next =>
      cases h
      have hset := hs.of_queue (rtAdd_queue x dst next s.globals)
      exact ⟨iff_of_true hset.conserved trivial, fun _ => hset⟩
  | rtUpdate x dst next =>
      cases h
      have hset := hs.of_queue (cpcRtUpdate_queue x dst next s.globals)
      exact ⟨iff_of_true hset.conserved trivial, fun _ => hset⟩
  | rtRemove dst =>
      cases h
      have hset := hs.of_queue (cpcRtRemove_queue dst s.globals)
      exact ⟨iff_of_true hset.conserved trivial, fun _ => hset⟩

/-! ### Runs -/

/-- Packets are conserved throughout a run exactly when no request ends in a drop. -/
theorem requests_conserved_iff {addr : ι → UInt32} {as : List (Action ι)} {s : Sim ι}
    (hr : Run (step addr) Free init as s) :
    (∀ bs cs t, as = bs ++ cs → Run (step addr) Free init bs t → Conserved t) ↔
      Run (step addr) (Answered addr) init as s :=
  Run.forall_iff (I := Settled) (fun _ _ _ hs h => (step_conserved hs h).1)
    (fun _ _ _ hs hc h => (step_conserved hs h).2 ((step_conserved hs h).1.mpr hc))
    settled_init settled_init.conserved hr

/-! ### A relay -/

/-- The packet `id` from 1 to 3, at the relay 2. -/
def relayed (id : ℕ) : Packet := ⟨id, 1, 3, .down, true, 1, 2, []⟩

/-- The path in the packet has one junction, or two. -/
def oneJunction : Env := ⟨false, [1, 5], 4, []⟩
def twoJunctions : Env := ⟨false, [3, 5, 44, 6], 4, []⟩

/-- Two packets are relayed. -/
theorem requests_conserved_iff_sample :
    ∃ s, Run (step (fun _ : Unit => 2)) Free init [.process () (relayed 1) twoJunctions,
        .process () (relayed 2) twoJunctions] s ∧
      ∀ bs cs t, [.process () (relayed 1) twoJunctions, .process () (relayed 2) twoJunctions] =
        bs ++ cs → Run (step (fun _ : Unit => 2)) Free init bs t → Conserved t := by
  have hr : Run (step (fun _ : Unit => 2)) Free init [.process () (relayed 1) twoJunctions,
      .process () (relayed 2) twoJunctions] _ := run_of_exec _ rfl
  exact ⟨_, hr, (requests_conserved_iff hr).mpr (Run.cons (fun _ _ => by decide) rfl
    (Run.single (fun _ _ => by decide) rfl))⟩

/-- A packet is dropped; the next one for its destination is answered with a copy of the one that
was freed, which is freed again, and is itself never sent nor dropped. -/
theorem freed_packet_sent :
    ∃ s, Run (step (fun _ : Unit => 2)) Free init [.process () (relayed 1) oneJunction,
        .process () (relayed 2) twoJunctions] s ∧
      s.freed = [1, 1] ∧ s.dropped = [1] ∧
      s.copied.map (fun c => (c.original, c.request)) = [(1, 2)] ∧ s.globals.queue = [] ∧ ¬ Conserved s := by
  have hr : Run (step (fun _ : Unit => 2)) Free init [.process () (relayed 1) oneJunction,
      .process () (relayed 2) twoJunctions] _ := run_of_exec _ rfl
  refine ⟨_, hr, rfl, rfl, rfl, rfl, fun h => ?_⟩
  exact absurd (h.matched _ List.mem_cons_self) (by decide)

end Agents

end GeoSvr.CpcNs
