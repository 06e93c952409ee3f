import GeoSvr.IntrusiveList
import GeoSvr.NodeIsolation
import GeoSvr.RecordRing
import GeoSvr.Runs

/-! # The memory of the simulation (`cpc_queue_ns.cc`, `routing_table.c`, `cpc_agent.cc`)

The queue and the routing table of the ns-2 agents are rings of records on one heap.  `Memory` is
this heap: the links of every cell, the other fields of the records, and the globals.  A function
is `none` where it leaves the language: it reads or writes a cell that is not allocated, frees one
twice, calls a null agent, fails the assertion, or follows the links for more than `fuel` elements.

The functions are those of the source, loop by loop.  `Repr` says which sequences a memory stands
for and where every allocated cell is; each function keeps it and does to the sequences what
the functions of `CpcNs` do (`Memory.rtRemove_spec` and the others).  The whole runs are in
`CpcMemoryRuns`.

`malloc` answers with an address and the links that are found there; a process that gets no
memory exits, so that it has no further step. -/

namespace GeoSvr.CpcNs

open LinkedRing IntrusiveList

variable {ι : Type}

/-! ### The memory -/

/-- The addresses of `q.head` and `rt_tbl.list`. -/
structure Layout where
  q : ℕ
  rtTbl : ℕ
  q_ne_zero : q ≠ 0
  rtTbl_ne_zero : rtTbl ≠ 0
  ne : q ≠ rtTbl

structure Memory (ι : Type) where
  links : Heap
  /-- the fields of the allocated `struct queue_entry` behind `l` -/
  entries : ℕ → Option (QueueEntry ι)
  /-- the fields of the allocated `struct rt_entry` behind `list` -/
  routes : ℕ → Option (RtEntry ι)
  len : UInt32
  nentries : UInt32
  agent : Option ι

/-- What `malloc` answers. -/
structure Block where
  addr : ℕ
  junk : Links
deriving DecidableEq

namespace Memory

def freeEntry (p : ℕ) (m : Memory ι) : Option (Memory ι) := do
  let links ← free m.links p
  return { m with links := links, entries := Function.update m.entries p none }

def freeRoute (p : ℕ) (m : Memory ι) : Option (Memory ι) := do
  let links ← free m.links p
  return { m with links := links, routes := Function.update m.routes p none }

/-- `malloc` of a `struct queue_entry`, and the writing of its fields. -/
def newEntry (b : Block) (e : QueueEntry ι) (m : Memory ι) : Memory ι :=
  { m with
    links := Function.update m.links b.addr (some b.junk)
    entries := Function.update m.entries b.addr (some e) }

/-- `malloc` of a `struct rt_entry`, which is cleared, and the writing of its fields. -/
def newRoute (b : Block) (e : RtEntry ι) (m : Memory ι) : Memory ι :=
  { m with
    links := Function.update m.links b.addr (some ⟨0, 0⟩)
    routes := Function.update m.routes b.addr (some e) }

/-! ### The routing table -/

section routes

variable (L : Layout) (fuel : ℕ)

/-- `rt_init`. -/
def rtInit (m : Memory ι) : Option (Memory ι) := do
  let links ← initListHead m.links L.rtTbl
  return { m with nentries := 0, links := links }

/-- `rt_remove`. -/
def rtRemove (rt : ℕ) (m : Memory ι) : Option (Memory ι) :=
  if rt = 0 then some m
  else do
    let r ← listDetach m.links rt
    freeRoute rt { m with links := r.2, nentries := m.nentries - 1 }

/-- The body of `rt_des`. -/
def desRoute (pos : ℕ) (m : Memory ι) : Option (Exit (Memory ι) Unit) := do
  let m ← rtRemove pos m
  return .ended m

/-- `rt_des`. -/
def rtDes (m : Memory ι) : Option (Memory ι) :=
  (foreachSafe links L.rtTbl desRoute fuel m).map Exit.state

/-- The body of the search of `rt_find`, and of the one in `rt_add`. -/
def rtTest (dst : UInt32) (pos : ℕ) (m : Memory ι) : Option (Exit (Memory ι) ℕ) := do
  let rt ← m.routes pos
  return if rt.dst == dst then .returned pos m else .ended m

/-- `rt_find`, where `ended` is the null pointer. -/
def rtFind (dst : UInt32) (m : Memory ι) : Option (Exit (Memory ι) ℕ) :=
  foreach links L.rtTbl (rtTest dst) fuel m

/-- `rt_add`: an entry that exists stays as it is. -/
def rtAdd (x : ι) (dst next : UInt32) (b : Block) (m : Memory ι) : Option (Memory ι) := do
  match ← foreach links L.rtTbl (rtTest dst) fuel m with
  | .returned _ m => return m
  | .ended m => do
      let m := m.newRoute b ⟨x, dst, next⟩
      let r ← listAdd m.links L.rtTbl b.addr
      return { m with nentries := m.nentries + 1, links := r.2 }

/-- `rt_update`. -/
def rtUpdate (rt : ℕ) (next : UInt32) (m : Memory ι) : Option (Memory ι) := do
  let e ← m.routes rt
  return { m with routes := Function.update m.routes rt (some { e with next := next }) }

/-- `cpc_rt_remove`. -/
def cpcRtRemove (dst : UInt32) (m : Memory ι) : Option (Memory ι) := do
  match ← rtFind L fuel dst m with
  | .ended m => return m
  | .returned rt m => rtRemove rt m

/-- `cpc_rt_update`. -/
def cpcRtUpdate (x : ι) (dst next : UInt32) (b : Block) (m : Memory ι) : Option (Memory ι) := do
  match ← rtFind L fuel dst m with
  | .ended m => rtAdd L fuel x dst next b m
  | .returned rt m => rtUpdate rt next m

/-- `cpc_rt_find`, and what is read through the pointer. -/
def cpcRtFind (dst : UInt32) (m : Memory ι) : Option (Option UInt32) := do
  match ← rtFind L fuel dst m with
  | .ended _ => return none
  | .returned rt m => do
      let e ← m.routes rt
      return some e.next

end routes

/-! ### The queue -/

section queue

variable (L : Layout) (fuel : ℕ)

/-- The memory, and what the agents were made to do with packets. -/
structure Logged (ι : Type) where
  mem : Memory ι
  effects : List (Effect ι)

/-- `cpc_queue_ns_init`. -/
def cpcQueueNsInit (x : ι) (m : Memory ι) : Option (Memory ι) := do
  let links ← initListHead m.links L.q
  return { m with links := links, len := 0, agent := some x }

/-- The body of `cpc_queue_ns_des`. -/
def desEntry (pos : ℕ) (s : Logged ι) : Option (Exit (Logged ι) Unit) := do
  let r ← listDetach s.mem.links pos
  let e ← s.mem.entries pos
  let x ← s.mem.agent
  let m ← freeEntry pos { s.mem with links := r.2 }
  return .ended ⟨{ m with len := m.len - 1 }, s.effects ++ [.drop (some x) e.p]⟩

/-- `cpc_queue_ns_des`. -/
def cpcQueueNsDes (m : Memory ι) : Option (Logged ι) :=
  (foreachSafe (fun s : Logged ι => s.mem.links) L.q desEntry fuel ⟨m, []⟩).map Exit.state

/-- `cpc_queue_ns_add`, with its assertion. -/
def cpcQueueNsAdd (x : ι) (p : Packet) (dst : UInt32) (b : Block) (m : Memory ι) :
    Option (Memory ι) :=
  if p.daddr ≠ dst then none
  else do
    let m := m.newEntry b ⟨x, dst, p⟩
    let r ← listAddTail m.links L.q b.addr
    return { m with links := r.2, len := m.len + 1 }

/-- The body of `cpc_queue_ns_remove`. -/
def removeEntry (dst : UInt32) (pos : ℕ) (m : Memory ι) : Option (Exit (Memory ι) Unit) := do
  let e ← m.entries pos
  if e.dst == dst then
    let r ← listDetach m.links pos
    let m ← freeEntry pos { m with links := r.2, len := m.len - 1 }
    return .ended m
  else return .ended m

/-- `cpc_queue_ns_remove`. -/
def cpcQueueNsRemove (dst : UInt32) (m : Memory ι) : Option (Memory ι) :=
  (foreachSafe links L.q (removeEntry dst) fuel m).map Exit.state

/-- The body of `cpc_queue_ns_get`. -/
def getEntry (dst : UInt32) (pos : ℕ) (m : Memory ι) : Option (Exit (Memory ι) Packet) := do
  let e ← m.entries pos
  return if e.dst == dst then .returned e.p m else .ended m

/-- `cpc_queue_ns_get`. -/
def cpcQueueNsGet (dst : UInt32) (m : Memory ι) : Option (Option Packet) :=
  (foreachSafe links L.q (getEntry dst) fuel m).map Exit.value

/-- `CpcAgent::sendData`. -/
def sendData (addr : UInt32) (p : Packet) (dst : UInt32) (m : Memory ι) :
    Option (Option Packet) := do
  match ← cpcRtFind L fuel dst m with
  | none => return none
  | some next =>
      return some { p with direction := .down, afInet := true, lastHop := addr, nextHop := next }

/-- What `cpc_queue_ns_send_packets` keeps in its loop. -/
structure Sending (ι : Type) where
  mem : Memory ι
  effects : List (Effect ι)
  flag : Bool

/-- The body of `cpc_queue_ns_send_packets`; `addr` gives the addresses of the agents. -/
def sendEntry (addr : Option ι → UInt32) (dst : UInt32) (pos : ℕ) (s : Sending ι) :
    Option (Exit (Sending ι) Unit) := do
  let e ← s.mem.entries pos
  if e.dst == dst then
    let x ← s.mem.agent
    let p ← sendData L fuel (addr (some x)) e.p dst s.mem
    return .ended { s with effects := s.effects ++ (p.map (.send (some x))).toList, flag := true }
  else return .ended s

/-- `cpc_queue_ns_send_packets`. -/
def cpcQueueNsSendPackets (addr : Option ι → UInt32) (dst : UInt32) (m : Memory ι) :
    Option (Logged ι) := do
  let s ← (foreachSafe (fun s : Sending ι => s.mem.links) L.q (sendEntry L fuel addr dst) fuel
    ⟨m, [], false⟩).map Exit.state
  let m ← if s.flag then cpcQueueNsRemove L fuel dst s.mem else some s.mem
  return ⟨m, s.effects⟩

end queue

/-! ### The agents -/

/-- The constructor. -/
def construct (L : Layout) (x : ι) (m : Memory ι) : Option (Memory ι) := do
  let m ← rtInit L m
  cpcQueueNsInit L x m

/-- The destructor. -/
def destruct (L : Layout) (fuel : ℕ) (m : Memory ι) : Option (Logged ι) := do
  let m ← rtDes L fuel m
  cpcQueueNsDes L fuel m

/-! ### What a memory stands for -/

/-- The memory stands for `g`: the elements of the queue are `qs`, those of the table are `ps`, and
the other allocated cells are `lost`. -/
structure Repr (L : Layout) (m : Memory ι) (g : Globals ι) (qs ps : List ℕ)
    (lost : List (List ℕ)) : Prop where
  queue : HoldsRecords m.links m.entries L.q qs g.queue
  table : HoldsRecords m.links m.routes L.rtTbl ps g.routes
  blocks : Blocks m.links ((L.q :: qs) :: (L.rtTbl :: ps) :: lost)
  len : m.len = .ofNat g.len ∧ g.len = g.queue.length
  nentries : m.nentries = .ofNat g.nentries ∧ g.nentries = g.routes.length
  agent : m.agent = g.agent ∧ ∃ x, m.agent = some x

section specs

variable {L : Layout} {m m' : Memory ι} {g : Globals ι} {qs ps qs' ps' : List ℕ}
  {lost : List (List ℕ)} {fuel : ℕ}

/-- A change of the table. -/
theorem Repr.setTable (h : Repr L m g qs ps lost) {rs : List (RtEntry ι)}
    (hrep : Replaces m.links m'.links (L.rtTbl :: ps) (L.rtTbl :: ps'))
    (htable : HoldsRecords m'.links m'.routes L.rtTbl ps' rs) (hentries : m'.entries = m.entries)
    (hlen : m'.len = m.len) (hn : m'.nentries = .ofNat rs.length) (hagent : m'.agent = m.agent) :
    Repr L m' { g with routes := rs, nentries := rs.length } qs ps' lost := by
  have hblocks : Blocks m.links ((L.rtTbl :: ps) :: (L.q :: qs) :: lost) :=
    h.blocks.perm (List.Perm.swap _ _ _)
  exact {
    queue := h.queue.congr (fun p hp => hblocks.frame hrep List.mem_cons_self hp)
      (fun p _ => by rw [hentries])
    table := htable
    blocks := (hblocks.replace hrep).perm (List.Perm.swap _ _ _)
    len := ⟨hlen.trans h.len.1, h.len.2⟩
    nentries := ⟨hn, rfl⟩
    agent := by rw [hagent]; exact h.agent }

/-- A change of the queue. -/
theorem Repr.setQueue (h : Repr L m g qs ps lost) {es : List (QueueEntry ι)}
    (hrep : Replaces m.links m'.links (L.q :: qs) (L.q :: qs'))
    (hqueue : HoldsRecords m'.links m'.entries L.q qs' es) (hroutes : m'.routes = m.routes)
    (hlen : m'.len = .ofNat es.length) (hn : m'.nentries = m.nentries)
    (hagent : m'.agent = m.agent) :
    Repr L m' { g with queue := es, len := es.length } qs' ps lost where
  queue := hqueue
  table := h.table.congr (fun p hp => h.blocks.frame hrep List.mem_cons_self hp)
    (fun p _ => by rw [hroutes])
  blocks := h.blocks.replace hrep
  len := ⟨hlen, rfl⟩
  nentries := ⟨hn.trans h.nentries.1, h.nentries.2⟩
  agent := by rw [hagent]; exact h.agent

/-- The memory that stands for a table says how long it is. -/
theorem Repr.withTable (h : Repr L m g qs ps lost) :
    Repr L m { g with routes := g.routes, nentries := g.routes.length } qs ps lost := by
  have hg : { g with routes := g.routes, nentries := g.routes.length } = g := by
    rw [← h.nentries.2]
  rwa [hg]

theorem Repr.withQueue (h : Repr L m g qs ps lost) :
    Repr L m { g with queue := g.queue, len := g.queue.length } qs ps lost := by
  have hg : { g with queue := g.queue, len := g.queue.length } = g := by rw [← h.len.2]
  rwa [hg]

theorem ofNat_pred {n : ℕ} : UInt32.ofNat (n + 1) - 1 = UInt32.ofNat n := by
  rw [UInt32.ofNat_add]
  exact add_sub_cancel_right _ _

/-- `list_detach` and `free` of an element. -/
theorem detachFree_spec {links : Heap} {head e : ℕ} {l t : List ℕ}
    (h : IsRing links head (l ++ e :: t)) :
    ∃ links₁ links₂, listDetach links e = some (LIST_SUCCESS, links₁) ∧
      free links₁ e = some links₂ ∧ IsRing links₂ head (l ++ t) ∧
      Replaces links links₂ (head :: (l ++ e :: t)) (head :: (l ++ t)) := by
  obtain ⟨links₁, hrun, hring, hcell, hframe⟩ := listDetach_ring h
  have hsome : (links₁ e).isSome := by rw [hcell]; rfl
  have hring₂ : IsRing (Function.update links₁ e none) head (l ++ t) := by
    refine hring.congr (fun p hp => ?_)
    have hne : p ≠ e := fun heq => h.not_mem (heq ▸ hp)
    rw [Function.update_of_ne hne]
  refine ⟨links₁, Function.update links₁ e none, hrun, if_pos hsome, hring₂,
    replaces_remove h hring₂ (Function.update_self _ _ _) (fun p hp => ?_)⟩
  have hne : p ≠ e := by
    rintro rfl
    exact hp (List.mem_cons_of_mem _ (List.mem_append_right _ List.mem_cons_self))
  rw [Function.update_of_ne hne, hframe p hp]

/-! ### The routing table -/

/-- `rt_remove` of an element of the table. -/
theorem rtRemove_spec {l t : List ℕ} {e : ℕ} {ls ts : List (RtEntry ι)} {x : RtEntry ι} {n : ℕ}
    (h : Repr L m { g with routes := ls ++ x :: ts, nentries := n } qs (l ++ e :: t) lost)
    (hl : l.length = ls.length) :
    ∃ m', rtRemove e m = some m' ∧
      Repr L m' { g with routes := ls ++ ts, nentries := (ls ++ ts).length } qs (l ++ t) lost := by
  obtain ⟨links₁, links₂, hrun, hfree, hring, hrep⟩ := detachFree_spec h.table.ring
  have he : e ≠ 0 := h.table.ring.ne_null e (List.mem_cons_of_mem _ (List.mem_append_right _
    List.mem_cons_self))
  refine ⟨{ m with
    links := links₂, routes := Function.update m.routes e none, nentries := m.nentries - 1 },
    ?_, h.setTable hrep ?_ rfl rfl ?_ rfl⟩
  · simp only [rtRemove, if_neg he, hrun, freeRoute, hfree, Option.bind_eq_bind, Option.bind_some]
    rfl
  · exact h.table.remove hl hring (fun p hp => Function.update_of_ne hp _ _)
  · have hn : n = (ls ++ ts).length + 1 := by
      have := h.nentries.2
      simp only [List.length_append, List.length_cons] at this ⊢
      omega
    have hm := h.nentries.1
    rw [hn] at hm
    show m.nentries - 1 = _
    rw [hm, ofNat_pred]

/-- `rt_des`. -/
theorem rtDes_spec (h : Repr L m g qs ps lost) (hfuel : g.routes.length ≤ fuel) :
    ∃ m', rtDes L fuel m = some m' ∧ Repr L m' (CpcNs.rtDes g) qs [] lost := by
  let R : List (RtEntry ι) → List ℕ → List (RtEntry ι) → Memory ι → Prop := fun _ xs rs m =>
    Repr L m { g with routes := rs, nentries := rs.length } qs xs lost
  have hrule := @foreachSafe_records (Memory ι) Unit (RtEntry ι) links routes L.rtTbl desRoute
    (fun _ _ => False) (fun _ => false) R (fun _ _ _ _ hr => hr.table) ?_ ps g.routes fuel m
    h.withTable hfuel
  · obtain ⟨m', hrun, xs, hr⟩ := hrule.state
    have hr : Repr L m' { g with routes := [], nentries := 0 } qs xs lost := by
      simpa [R] using hr
    obtain rfl : xs = [] := List.length_eq_zero_iff.mp hr.table.length
    refine ⟨m', hrun, ?_⟩
    have hg : CpcNs.rtDes g = { g with routes := [], nentries := 0 } := by
      unfold CpcNs.rtDes
      rw [h.nentries.2, Nat.sub_self]
    rwa [hg]
  · intro done l e t ls x ts m hr hl _
    obtain ⟨m', hrun, hr'⟩ := rtRemove_spec hr hl
    simp only [desRoute, hrun, Option.bind_eq_bind, Option.bind_some]
    exact hr'

/-- The search finds the first entry for the destination. -/
theorem rtSearch_cases (h : Repr L m g qs ps lost) (dst : UInt32)
    (hfuel : g.routes.length ≤ fuel) :
    (foreach links L.rtTbl (rtTest dst) fuel m = some (.ended m) ∧
      ∀ x ∈ g.routes, (x.dst == dst) = false) ∨
    ∃ l e t ls x ts, ps = l ++ e :: t ∧ g.routes = ls ++ x :: ts ∧ l.length = ls.length ∧
      (∀ y ∈ ls, (y.dst == dst) = false) ∧ (x.dst == dst) = true ∧
      foreach links L.rtTbl (rtTest dst) fuel m = some (.returned e m) := by
  have hrule := @foreach_search (Memory ι) ℕ (RtEntry ι) links routes L.rtTbl (rtTest dst)
    (fun x => x.dst == dst) (fun e _ => e) ps g.routes m h.table
    (fun e x hx => by
      simp only [rtTest, hx, Option.bind_eq_bind, Option.bind_some]
      rfl) fuel hfuel
  obtain ⟨s, hrun, rfl, hnone⟩ | ⟨b, s, hrun, rfl, l, e, t, ls, x, ts, hps, hrs, hl, hls, hx, rfl⟩ :=
    hrule.cases
  · exact Or.inl ⟨hrun, hnone⟩
  · exact Or.inr ⟨l, b, t, ls, x, ts, hps, hrs, hl, hls, hx, hrun⟩

/-- The abstract search in the two cases. -/
theorem rtFind_none {dst : UInt32} (hnone : ∀ x ∈ g.routes, (x.dst == dst) = false) :
    CpcNs.rtFind dst g = none :=
  List.find?_eq_none.mpr (fun x hx => by simp [hnone x hx])

theorem rtFind_some {dst : UInt32} {ls ts : List (RtEntry ι)} {x : RtEntry ι}
    (hg : g.routes = ls ++ x :: ts) (hls : ∀ y ∈ ls, (y.dst == dst) = false)
    (hx : (x.dst == dst) = true) : CpcNs.rtFind dst g = some x := by
  unfold CpcNs.rtFind
  rw [hg, List.find?_append, List.find?_eq_none.mpr (fun y hy => by simp [hls y hy])]
  simp only [List.find?_cons, hx, Option.none_or]

/-- `cpc_rt_remove`. -/
theorem cpcRtRemove_spec (h : Repr L m g qs ps lost) (dst : UInt32)
    (hfuel : g.routes.length ≤ fuel) :
    ∃ m' ps', cpcRtRemove L fuel dst m = some m' ∧
      Repr L m' (CpcNs.cpcRtRemove dst g) qs ps' lost := by
  unfold cpcRtRemove CpcNs.cpcRtRemove rtFind
  obtain ⟨hrun, hnone⟩ | ⟨l, e, t, ls, x, ts, rfl, hrs, hl, hls, hx, hrun⟩ :=
    rtSearch_cases h dst hfuel
  · rw [hrun, rtFind_none hnone]
    exact ⟨m, ps, rfl, h⟩
  · rw [hrun, rtFind_some hrs hls hx]
    have hg : { g with routes := ls ++ x :: ts, nentries := g.nentries } = g := by rw [← hrs]
    obtain ⟨m', hremove, hr⟩ := rtRemove_spec (hg.symm ▸ h) hl
    refine ⟨m', l ++ t, hremove, ?_⟩
    have herase : g.routes.eraseP (fun e => e.dst == dst) = ls ++ ts := by
      rw [hrs, List.eraseP_append_right _ (fun y hy => by simp [hls y hy])]
      simp only [List.eraseP_cons, hx, cond_true]
    have hn : g.nentries - 1 = (ls ++ ts).length := by
      rw [h.nentries.2, hrs]
      simp only [List.length_append, List.length_cons]
      omega
    simp only [CpcNs.rtRemove, herase, hn]
    exact hr

/-- What `malloc` is taken to answer: an address that is not in use. -/
def Fresh (m : Memory ι) (b : Block) : Prop := b.addr ≠ 0 ∧ m.links b.addr = none

/-- `rt_add`. -/
theorem rtAdd_spec (h : Repr L m g qs ps lost) (x : ι) (dst next : UInt32) {b : Block}
    (hb : Fresh m b) (hfuel : g.routes.length ≤ fuel) :
    ∃ m' ps', rtAdd L fuel x dst next b m = some m' ∧
      Repr L m' (CpcNs.rtAdd x dst next g) qs ps' lost := by
  unfold rtAdd CpcNs.rtAdd
  obtain ⟨hrun, hnone⟩ | ⟨l, e, t, ls, y, ts, -, hrs, hl, hls, hy, hrun⟩ :=
    rtSearch_cases h dst hfuel
  · have hany : g.routes.any (fun e => e.dst == dst) = false :=
      List.any_eq_false.mpr (fun x hx => by simp [hnone x hx])
    obtain ⟨hout, hring⟩ := alloc_ring h.table.ring hb.2 ⟨0, 0⟩
    obtain ⟨links', hadd, hring', hframe⟩ :=
      listAdd_ring hring hout hb.1 (by rw [Function.update_self]; rfl)
    have hframe' : ∀ p, p ∉ b.addr :: L.rtTbl :: ([] ++ ps) → links' p = m.links p := by
      intro p hp
      rw [hframe p hp, Function.update_of_ne (List.ne_of_not_mem_cons hp)]
    have hrep : Replaces m.links links' (L.rtTbl :: ps) (L.rtTbl :: b.addr :: ps) :=
      @replaces_insert _ _ L.rtTbl b.addr [] ps hb.2 hring' hframe'
    have htable : HoldsRecords links' (Function.update m.routes b.addr (some ⟨x, dst, next⟩))
        L.rtTbl (b.addr :: ps) (⟨x, dst, next⟩ :: g.routes) :=
      @HoldsRecords.insert _ _ _ _ _ _ _ [] ps [] g.routes _ h.table rfl hring'
        (Function.update_self _ _ _) (fun p hp => Function.update_of_ne hp _ _)
    refine ⟨{ m.newRoute b ⟨x, dst, next⟩ with nentries := m.nentries + 1, links := links' },
      b.addr :: ps, ?_, ?_⟩
    · simp only [hrun, newRoute, hadd, Option.bind_eq_bind, Option.bind_some]
      rfl
    · rw [if_neg (by simp [hany])]
      have hn : g.nentries + 1 = (⟨x, dst, next⟩ :: g.routes).length := by
        rw [h.nentries.2, List.length_cons]
      rw [hn]
      refine h.setTable hrep htable rfl rfl ?_ rfl
      show m.nentries + 1 = _
      rw [h.nentries.1, h.nentries.2, List.length_cons, UInt32.ofNat_add]
      rfl
  · have hany : g.routes.any (fun e => e.dst == dst) = true :=
      List.any_eq_true.mpr ⟨y, by rw [hrs]; simp, hy⟩
    rw [hrun, if_pos hany]
    exact ⟨m, ps, rfl, h⟩

theorem updateNext_append {dst next : UInt32} {x : RtEntry ι} {ts : List (RtEntry ι)}
    (hx : (x.dst == dst) = true) : ∀ {ls : List (RtEntry ι)}, (∀ y ∈ ls, (y.dst == dst) = false) →
      updateNext dst next (ls ++ x :: ts) = ls ++ { x with next := next } :: ts
  | [], _ => by
      rw [List.nil_append, updateNext, if_pos hx]
      rfl
  | y :: ls, h => by
      have hy := h y List.mem_cons_self
      rw [List.cons_append, updateNext, hy, if_neg (by simp),
        updateNext_append hx (fun z hz => h z (List.mem_cons_of_mem _ hz))]
      rfl

/-- `cpc_rt_update`. -/
theorem cpcRtUpdate_spec (h : Repr L m g qs ps lost) (x : ι) (dst next : UInt32) {b : Block}
    (hb : Fresh m b) (hfuel : g.routes.length ≤ fuel) :
    ∃ m' ps', cpcRtUpdate L fuel x dst next b m = some m' ∧
      Repr L m' (CpcNs.cpcRtUpdate x dst next g) qs ps' lost := by
  unfold cpcRtUpdate CpcNs.cpcRtUpdate rtFind
  obtain ⟨hrun, hnone⟩ | ⟨l, e, t, ls, y, ts, rfl, hrs, hl, hls, hy, hrun⟩ :=
    rtSearch_cases h dst hfuel
  · rw [hrun, rtFind_none hnone]
    exact rtAdd_spec h x dst next hb hfuel
  · rw [hrun, rtFind_some hrs hls hy]
    have htable := h.table
    rw [hrs] at htable
    obtain ⟨_, _, hts, hdata, -, -⟩ := htable.element hl
    cases hts
    refine ⟨{ m with routes := Function.update m.routes e (some { y with next := next }) },
      l ++ e :: t, ?_, ?_⟩
    · simp only [rtUpdate, hdata, Option.bind_eq_bind, Option.bind_some]
      rfl
    · have hroutes : updateNext dst next g.routes = ls ++ { y with next := next } :: ts := by
        rw [hrs, updateNext_append hy hls]
      have hn : g.nentries = (updateNext dst next g.routes).length := by
        rw [h.nentries.2, hrs, updateNext_append hy hls, List.length_append, List.length_append]
        rfl
      simp only [hroutes]
      exact {
        queue := h.queue
        table := htable.update hl
        blocks := h.blocks
        len := h.len
        nentries := ⟨h.nentries.1, by rw [hn, hroutes]⟩
        agent := h.agent }

/-- `cpc_rt_find`. -/
theorem cpcRtFind_spec (h : Repr L m g qs ps lost) (dst : UInt32)
    (hfuel : g.routes.length ≤ fuel) :
    cpcRtFind L fuel dst m = some (CpcNs.cpcRtFind dst g) := by
  unfold cpcRtFind CpcNs.cpcRtFind rtFind
  obtain ⟨hrun, hnone⟩ | ⟨l, e, t, ls, y, ts, rfl, hrs, hl, hls, hy, hrun⟩ :=
    rtSearch_cases h dst hfuel
  · rw [hrun, rtFind_none hnone]
    rfl
  · have htable := h.table
    rw [hrs] at htable
    obtain ⟨_, _, hts, hdata, -, -⟩ := htable.element hl
    cases hts
    rw [hrun, rtFind_some hrs hls hy]
    simp only [hdata, Option.bind_eq_bind, Option.bind_some]
    rfl

/-! ### The queue -/

/-- The memory without the entry `e` of the queue. -/
def withoutEntry (m : Memory ι) (e : ℕ) (links : Heap) : Memory ι :=
  { m with links := links, entries := Function.update m.entries e none, len := m.len - 1 }

/-- Detaching and freeing an element of the queue. -/
theorem unlinkEntry_spec {l t : List ℕ} {e : ℕ} {ls ts : List (QueueEntry ι)} {x : QueueEntry ι}
    {n : ℕ} (h : Repr L m { g with queue := ls ++ x :: ts, len := n } (l ++ e :: t) ps lost)
    (hl : l.length = ls.length) :
    ∃ links₁ links₂, listDetach m.links e = some (LIST_SUCCESS, links₁) ∧
      free links₁ e = some links₂ ∧
      Repr L (withoutEntry m e links₂) { g with queue := ls ++ ts, len := (ls ++ ts).length }
        (l ++ t) ps lost := by
  obtain ⟨links₁, links₂, hrun, hfree, hring, hrep⟩ := detachFree_spec h.queue.ring
  refine ⟨links₁, links₂, hrun, hfree, h.setQueue hrep ?_ rfl ?_ rfl rfl⟩
  · exact h.queue.remove hl hring (fun p hp => Function.update_of_ne hp _ _)
  · have hn : n = (ls ++ ts).length + 1 := by
      have := h.len.2
      simp only [List.length_append, List.length_cons] at this ⊢
      omega
    have hm := h.len.1
    rw [hn] at hm
    show m.len - 1 = _
    rw [hm, ofNat_pred]

/-- `cpc_queue_ns_des`. -/
theorem cpcQueueNsDes_spec (h : Repr L m g qs ps lost) (hfuel : g.queue.length ≤ fuel) :
    ∃ m', cpcQueueNsDes L fuel m = some ⟨m', (CpcNs.cpcQueueNsDes g).1⟩ ∧
      Repr L m' (CpcNs.cpcQueueNsDes g).2 [] ps lost := by
  let R : List (QueueEntry ι) → List ℕ → List (QueueEntry ι) → Logged ι → Prop :=
    fun done xs rs s => Repr L s.mem { g with queue := rs, len := rs.length } xs ps lost ∧
      s.effects = done.map (fun e => .drop g.agent e.p)
  have hrule := @foreachSafe_records (Logged ι) Unit (QueueEntry ι) (fun s => s.mem.links)
    (fun s => s.mem.entries) L.q desEntry (fun _ _ => False) (fun _ => false) R
    (fun _ _ _ _ hr => hr.1.queue) ?_ qs g.queue fuel ⟨m, []⟩ ⟨h.withQueue, rfl⟩ hfuel
  · obtain ⟨s, hrun, xs, hr, heff⟩ := hrule.state
    have hr : Repr L s.mem { g with queue := [], len := 0 } xs ps lost := by simpa using hr
    obtain rfl : xs = [] := List.length_eq_zero_iff.mp hr.queue.length
    refine ⟨s.mem, hrun.trans ?_, ?_⟩
    · rw [show (CpcNs.cpcQueueNsDes g).1 = s.effects from heff.symm]
    · have hg : (CpcNs.cpcQueueNsDes g).2 = { g with queue := [], len := 0 } := by
        unfold CpcNs.cpcQueueNsDes
        rw [h.len.2, Nat.sub_self]
      rwa [hg]
  · rintro done l e t ls x ts s ⟨hr, heff⟩ hl hx
    obtain ⟨links₁, links₂, hdetach, hfree, hr'⟩ := unlinkEntry_spec hr hl
    obtain ⟨hagent, y, hy⟩ := hr.agent
    have hg : some y = g.agent := hy.symm.trans hagent
    have hstep : desEntry e s =
        some (.ended ⟨withoutEntry s.mem e links₂, s.effects ++ [.drop (some y) x.p]⟩) := by
      simp only [desEntry, hdetach, hx, hy, freeEntry, hfree, Option.bind_eq_bind,
        Option.bind_some, withoutEntry]
      rfl
    rw [hstep]
    refine ⟨hr', ?_⟩
    rw [heff, List.map_append, hg]
    rfl

theorem cpcQueueNsRemove_eq (hlen : g.len = g.queue.length) (dst : UInt32) :
    CpcNs.cpcQueueNsRemove dst g = { g with
      queue := g.queue.filter (fun e => e.dst != dst)
      len := (g.queue.filter (fun e => e.dst != dst)).length } := by
  have hle := List.length_filter_le (fun e : QueueEntry ι => e.dst != dst) g.queue
  unfold CpcNs.cpcQueueNsRemove
  simp only [hlen, Nat.sub_sub_self hle]

/-- `cpc_queue_ns_remove`. -/
theorem cpcQueueNsRemove_spec (h : Repr L m g qs ps lost) (dst : UInt32)
    (hfuel : g.queue.length ≤ fuel) :
    ∃ m' qs', cpcQueueNsRemove L fuel dst m = some m' ∧
      Repr L m' (CpcNs.cpcQueueNsRemove dst g) qs' ps lost := by
  let R : List (QueueEntry ι) → List ℕ → List (QueueEntry ι) → Memory ι → Prop :=
    fun _ xs rs m => Repr L m { g with queue := rs, len := rs.length } xs ps lost
  have hrule := @foreachSafe_records (Memory ι) Unit (QueueEntry ι) links entries L.q
    (removeEntry dst) (fun _ _ => False) (fun e => e.dst != dst) R
    (fun _ _ _ _ hr => hr.queue) ?_ qs g.queue fuel m h.withQueue hfuel
  · obtain ⟨m', hrun, qs', hr⟩ := hrule.state
    refine ⟨m', qs', hrun, ?_⟩
    rw [cpcQueueNsRemove_eq h.len.2]
    exact hr
  · intro done l e t ls x ts m hr hl hx
    by_cases hd : x.dst = dst
    · obtain ⟨links₁, links₂, hdetach, hfree, hr'⟩ := unlinkEntry_spec hr hl
      have hstep : removeEntry dst e m = some (.ended (withoutEntry m e links₂)) := by
        simp only [removeEntry, hx, hd, hdetach, freeEntry, hfree, Option.bind_eq_bind,
          Option.bind_some, beq_self_eq_true, if_true]
        rfl
      rw [hstep]
      simp only [hd, bne_self_eq_false, Bool.false_eq_true, if_false]
      exact hr'
    · have hstep : removeEntry dst e m = some (.ended m) := by
        simp only [removeEntry, hx, Option.bind_eq_bind, Option.bind_some, beq_iff_eq, hd, if_false]
        rfl
      have hkeep : (x.dst != dst) = true := bne_iff_ne.mpr hd
      rw [hstep]
      simp only [hkeep, if_true]
      exact hr

/-- `cpc_queue_ns_get`. -/
theorem cpcQueueNsGet_spec (h : Repr L m g qs ps lost) (dst : UInt32)
    (hfuel : g.queue.length ≤ fuel) :
    cpcQueueNsGet L fuel dst m = some (CpcNs.cpcQueueNsGet dst g) := by
  have hrule := @foreachSafe_search (Memory ι) Packet (QueueEntry ι) links entries L.q
    (getEntry dst) (fun e => e.dst == dst) (fun _ e => e.p) qs g.queue m h.queue
    (fun e x hx => by
      simp only [getEntry, hx, Option.bind_eq_bind, Option.bind_some]
      rfl) fuel hfuel
  unfold cpcQueueNsGet CpcNs.cpcQueueNsGet
  obtain ⟨s, hrun, -, hnone⟩ | ⟨b, s, hrun, -, hfound⟩ := hrule.cases
  · rw [hrun, List.find?_eq_none.mpr (fun x hx => by simp [hnone x hx])]
    rfl
  · obtain ⟨e, x, hfind, rfl⟩ := hfound.find?
    rw [hrun, hfind]
    rfl

/-- `cpc_queue_ns_add`. -/
theorem cpcQueueNsAdd_spec (h : Repr L m g qs ps lost) (x : ι) (p : Packet) {b : Block}
    (hb : Fresh m b) :
    ∃ m' qs', cpcQueueNsAdd L x p p.daddr b m = some m' ∧
      Repr L m' (CpcNs.cpcQueueNsAdd x p p.daddr g) qs' ps lost := by
  obtain ⟨hout, hring⟩ := alloc_ring h.queue.ring hb.2 b.junk
  obtain ⟨links', hadd, hring', hframe⟩ :=
    listAddTail_ring hring hout hb.1 (by rw [Function.update_self]; rfl)
  have hframe' : ∀ p, p ∉ b.addr :: L.q :: (qs ++ []) → links' p = m.links p := by
    intro p hp
    rw [List.append_nil] at hp
    rw [hframe p hp, Function.update_of_ne (List.ne_of_not_mem_cons hp)]
  have hrep : Replaces m.links links' (L.q :: (qs ++ [])) (L.q :: (qs ++ [b.addr])) :=
    replaces_insert hb.2 hring' hframe'
  have hnil : HoldsRecords m.links m.entries L.q (qs ++ []) (g.queue ++ []) := by
    rw [List.append_nil, List.append_nil]
    exact h.queue
  have hqueue : HoldsRecords links' (Function.update m.entries b.addr (some ⟨x, p.daddr, p⟩))
      L.q (qs ++ [b.addr]) (g.queue ++ [⟨x, p.daddr, p⟩]) :=
    hnil.insert h.queue.length hring' (Function.update_self _ _ _)
      (fun p hp => Function.update_of_ne hp _ _)
  refine ⟨{ m.newEntry b ⟨x, p.daddr, p⟩ with links := links', len := m.len + 1 },
    qs ++ [b.addr], ?_, ?_⟩
  · simp only [cpcQueueNsAdd, ne_eq, not_true_eq_false, if_false, newEntry, hadd,
      Option.bind_eq_bind, Option.bind_some]
    rfl
  · have hn : g.len + 1 = (g.queue ++ [(⟨x, p.daddr, p⟩ : QueueEntry ι)]).length := by
      rw [h.len.2, List.length_append]
      rfl
    unfold CpcNs.cpcQueueNsAdd
    rw [hn]
    rw [List.append_nil] at hrep
    refine h.setQueue hrep hqueue rfl ?_ rfl rfl
    show m.len + 1 = _
    rw [h.len.1, h.len.2, List.length_append, UInt32.ofNat_add]
    rfl

/-- `CpcAgent::sendData`. -/
theorem sendData_spec (h : Repr L m g qs ps lost) (addr : UInt32) (p : Packet) (dst : UInt32)
    (hfuel : g.routes.length ≤ fuel) :
    sendData L fuel addr p dst m = some (CpcNs.sendData addr p dst g) := by
  unfold sendData CpcNs.sendData
  rw [cpcRtFind_spec h dst hfuel]
  cases CpcNs.cpcRtFind dst g <;> rfl

/-- `cpc_queue_ns_send_packets`. -/
theorem cpcQueueNsSendPackets_spec (h : Repr L m g qs ps lost) (addr : Option ι → UInt32)
    (dst : UInt32) (hqueue : g.queue.length ≤ fuel) (hroutes : g.routes.length ≤ fuel) :
    ∃ m' qs', cpcQueueNsSendPackets L fuel addr dst m =
        some ⟨m', (CpcNs.cpcQueueNsSendPackets addr dst g).1⟩ ∧
      Repr L m' (CpcNs.cpcQueueNsSendPackets addr dst g).2 qs' ps lost := by
  let sent : List (QueueEntry ι) → List (Effect ι) := fun l =>
    (l.filter (fun e => e.dst == dst)).filterMap
      (fun e => (CpcNs.sendData (addr g.agent) e.p dst g).map (.send g.agent))
  let R : List (QueueEntry ι) → List ℕ → List (QueueEntry ι) → Sending ι → Prop :=
    fun done xs rs s => xs = qs ∧ rs = g.queue ∧ s.mem = m ∧ s.effects = sent done ∧
      s.flag = done.any (fun e => e.dst == dst)
  have hrule := @foreachSafe_records (Sending ι) Unit (QueueEntry ι) (fun s => s.mem.links)
    (fun s => s.mem.entries) L.q (sendEntry L fuel addr dst) (fun _ _ => False) (fun _ => true) R
    (fun _ _ _ _ hr => by obtain ⟨rfl, rfl, rfl, -, -⟩ := hr; exact h.queue) ?_ qs g.queue fuel
    ⟨m, [], false⟩ ⟨rfl, rfl, rfl, rfl, rfl⟩ hqueue
  · obtain ⟨s, hrun, xs, -, -, rfl, heff, hflag⟩ := hrule.state
    have hfilter : g.queue.filter (fun e => e.dst == dst) = [] ↔ s.flag = false := by
      rw [hflag, List.any_eq_false, List.filter_eq_nil_iff]
    simp only [cpcQueueNsSendPackets, hrun, Option.bind_eq_bind, Option.bind_some,
      CpcNs.cpcQueueNsSendPackets]
    have heff' : s.effects = (g.queue.filter (fun e => e.dst == dst)).filterMap
        (fun e => (CpcNs.sendData (addr g.agent) e.p dst g).map (.send g.agent)) := heff
    cases hf : s.flag with
    | true =>
        obtain ⟨m', qs', hremove, hr⟩ := cpcQueueNsRemove_spec h dst hqueue
        have hne : g.queue.filter (fun e => e.dst == dst) ≠ [] := by
          intro hnil
          rw [hfilter.mp hnil] at hf
          cases hf
        rw [if_neg hne]
        refine ⟨m', qs', ?_, hr⟩
        simp only [hremove, if_true, Option.bind_some, ← heff']
        rfl
    | false =>
        rw [if_pos (hfilter.mpr hf)]
        refine ⟨s.mem, qs, ?_, h⟩
        simp only [Bool.false_eq_true, if_false, ← heff']
        rfl
  · rintro done l e t ls x ts s ⟨hxs, hrs, rfl, heff, hflag⟩ hl hx
    obtain ⟨hagent, y, hy⟩ := h.agent
    have hg : some y = g.agent := hy.symm.trans hagent
    simp only [if_true]
    by_cases hd : x.dst = dst
    · have hsend := sendData_spec h (addr (some y)) x.p dst hroutes
      have hstep : sendEntry L fuel addr dst e s = some (.ended { s with
          effects := s.effects ++
            ((CpcNs.sendData (addr (some y)) x.p dst g).map (.send (some y))).toList
          flag := true }) := by
        simp only [sendEntry, hx, hd, hy, hsend, Option.bind_eq_bind, Option.bind_some,
          beq_self_eq_true, if_true]
        rfl
      rw [hstep]
      refine ⟨hxs, hrs, rfl, ?_, by simp [hd]⟩
      simp only [heff, sent, List.filter_append, List.filterMap_append, List.append_cancel_left_eq,
        ← hg]
      rw [List.filter_cons_of_pos (by simp [hd])]
      cases hc : (CpcNs.sendData (addr (some y)) x.p dst g) <;> simp [hc]
    · have hstep : sendEntry L fuel addr dst e s = some (.ended s) := by
        simp only [sendEntry, hx, Option.bind_eq_bind, Option.bind_some, beq_iff_eq, hd, if_false]
        rfl
      rw [hstep]
      refine ⟨hxs, hrs, rfl, ?_, by simp [hflag, hd]⟩
      simp [heff, sent, hd]

/-! ### The agents -/

/-- The heads are allocated, and the rest is of two lists and of lost cells. -/
structure Shaped (L : Layout) (m : Memory ι) (qs ps : List ℕ) (lost : List (List ℕ)) : Prop where
  blocks : Blocks m.links ((L.q :: qs) :: (L.rtTbl :: ps) :: lost)
  queue : (L.q :: qs).Nodup
  table : (L.rtTbl :: ps).Nodup

theorem Repr.shaped (h : Repr L m g qs ps lost) : Shaped L m qs ps lost :=
  ⟨h.blocks, h.queue.ring.nodup, h.table.ring.nodup⟩

/-- A head is initialised, and what was in its list is lost. -/
theorem initListHead_blocks {links : Heap} {head : ℕ} {xs : List ℕ} {bs : List (List ℕ)}
    (h : Blocks links ((head :: xs) :: bs)) (hnodup : (head :: xs).Nodup) (h0 : head ≠ 0) :
    ∃ links', initListHead links head = some links' ∧ IsRing links' head [] ∧
      Blocks links' ([head] :: xs :: bs) ∧ Replaces links links' [head] [head] := by
  have hsome : (links head).isSome :=
    (h.cells head).mpr ⟨_, List.mem_cons_self, List.mem_cons_self⟩
  obtain ⟨links', hrun, hring, hframe⟩ := initListHead_ring h0 hsome
  have hrep : Replaces links links' [head] [head] :=
    ⟨fun p hp _ => hframe p (fun heq => hp (heq ▸ List.mem_cons_self)),
      fun p hp => hring.isSome hp, fun p hp hp' => absurd hp hp', fun p hp => Or.inl hp⟩
  have hdivided : Blocks links ([head] :: xs :: bs) := Blocks.divide h hnodup
  exact ⟨links', hrun, hring, hdivided.replace hrep, hrep⟩

/-- The constructor: whatever the lists held before is lost. -/
theorem construct_spec (h : Shaped L m qs ps lost) (x : ι) (g : Globals ι) :
    ∃ m', construct L x m = some m' ∧
      Repr L m' (CpcNs.construct x g) [] [] (qs :: ps :: lost) := by
  have hblocks : Blocks m.links ((L.rtTbl :: ps) :: (L.q :: qs) :: lost) :=
    h.blocks.perm (List.Perm.swap _ _ _)
  obtain ⟨links₁, hrun₁, hring₁, hblocks₁, -⟩ :=
    initListHead_blocks hblocks h.table L.rtTbl_ne_zero
  have hblocks₁' : Blocks links₁ ((L.q :: qs) :: [L.rtTbl] :: ps :: lost) := by
    refine hblocks₁.perm ?_
    exact ((List.Perm.swap _ _ _).cons _).trans (List.Perm.swap _ _ _)
  obtain ⟨links₂, hrun₂, hring₂, hblocks₂, hrep₂⟩ :=
    initListHead_blocks hblocks₁' h.queue L.q_ne_zero
  have hdivided : Blocks links₁ ([L.q] :: qs :: [L.rtTbl] :: ps :: lost) :=
    Blocks.divide hblocks₁' h.queue
  refine ⟨{ m with links := links₂, nentries := 0, len := 0, agent := some x }, ?_, ?_⟩
  · simp only [construct, rtInit, cpcQueueNsInit, hrun₁, hrun₂, Option.bind_eq_bind,
      Option.bind_some, Option.pure_def]
  · have htable : IsRing links₂ L.rtTbl [] :=
      hring₁.congr (fun p hp => hdivided.frame hrep₂
        (List.mem_cons_of_mem _ List.mem_cons_self) hp)
    exact {
      queue := holdsRecords_nil hring₂ _
      table := holdsRecords_nil htable _
      blocks := hblocks₂.perm ((List.Perm.swap _ _ _).cons _)
      len := ⟨rfl, rfl⟩
      nentries := ⟨rfl, rfl⟩
      agent := ⟨rfl, x, rfl⟩ }

/-- The destructor. -/
theorem destruct_spec (h : Repr L m g qs ps lost) (hqueue : g.queue.length ≤ fuel)
    (hroutes : g.routes.length ≤ fuel) :
    ∃ m', destruct L fuel m = some ⟨m', (CpcNs.destruct g).1⟩ ∧
      Repr L m' (CpcNs.destruct g).2 [] [] lost := by
  obtain ⟨m₁, hrun₁, hr₁⟩ := rtDes_spec h hroutes
  obtain ⟨m₂, hrun₂, hr₂⟩ := cpcQueueNsDes_spec hr₁ hqueue
  refine ⟨m₂, ?_, hr₂⟩
  simp only [destruct, hrun₁, Option.bind_eq_bind, Option.bind_some]
  exact hrun₂

end specs

end Memory

end GeoSvr.CpcNs
