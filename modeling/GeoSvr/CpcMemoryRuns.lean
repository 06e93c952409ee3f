import GeoSvr.CpcMemory

/-! # Runs of the simulation on its memory

The agents of a simulation call the functions of the queue and of the table in any order.  In every
such run, beginning with a constructor, no call leaves the language, and what the calls return and
make the agents do is what the sequences of `CpcNs` say (`memory_refines`): no cell is used after it
was freed, none is freed twice, and every loop ends.

A constructor initialises the heads without looking at the lists, so that the entries of a
simulation that is running are lost.  `noLeak_iff` says that this is the only way to lose memory,
and that what remains allocated after a destructor is the two heads. -/

namespace GeoSvr.CpcNs

open LinkedRing IntrusiveList Runs Memory

variable {ι : Type}

/-! ### The process -/

/-- What is seen of a call. -/
structure Observation (ι : Type) where
  effects : List (Effect ι)
  output : Output

/-- A call: the agent, the operation, and what `malloc` answers if it is called. -/
structure Call (ι : Type) where
  agent : ι
  op : Op
  block : Block

structure Process (ι : Type) where
  mem : Memory ι
  log : List (Observation ι)

variable (L : Layout) (addr : Option ι → UInt32) (fuel : ℕ)

/-- The globals are zero, and nothing is allocated. -/
def Process.loaded : Process ι where
  mem :=
    { links := fun p => if p = L.q ∨ p = L.rtTbl then some ⟨0, 0⟩ else none
      entries := fun _ => none
      routes := fun _ => none
      len := 0
      nentries := 0
      agent := none }
  log := []

/-- A call on the memory. -/
def Memory.step (m : Memory ι) (c : Call ι) : Option (Process ι) :=
  let quiet (m : Option (Memory ι)) : Option (Process ι) := m.map (fun m => ⟨m, [⟨[], .unit⟩]⟩)
  let logged (s : Option (Logged ι)) : Option (Process ι) :=
    s.map (fun s => ⟨s.mem, [⟨s.effects, .unit⟩]⟩)
  match c.op with
  | .construct => quiet (construct L c.agent m)
  | .destruct => logged (destruct L fuel m)
  | .queueAdd p dst => quiet (cpcQueueNsAdd L c.agent p dst c.block m)
  | .queueGet dst => (cpcQueueNsGet L fuel dst m).map (fun p => ⟨m, [⟨[], .packet p⟩]⟩)
  | .queueRemove dst => quiet (cpcQueueNsRemove L fuel dst m)
  | .sendPackets dst => logged (cpcQueueNsSendPackets L fuel addr dst m)
  | .rtAdd dst next => quiet (rtAdd L fuel c.agent dst next c.block m)
  | .rtUpdate dst next => quiet (cpcRtUpdate L fuel c.agent dst next c.block m)
  | .rtRemove dst => quiet (cpcRtRemove L fuel dst m)
  | .rtFind dst => (cpcRtFind L fuel dst m).map (fun a => ⟨m, [⟨[], .next a⟩]⟩)

def Process.step (s : Process ι) (c : Call ι) : Option (Process ι) :=
  (s.mem.step L addr fuel c).map (fun t => ⟨t.mem, s.log ++ t.log⟩)

/-- `malloc` answers with an address that is not in use, and a packet is queued for its
destination. -/
def Legal (s : Process ι) (c : Call ι) : Prop :=
  match c.op with
  | .queueAdd p dst => Fresh s.mem c.block ∧ p.daddr = dst
  | .rtAdd _ _ | .rtUpdate _ _ => Fresh s.mem c.block
  | _ => True

/-! ### The abstract process -/

/-- What a call makes the agents do. -/
def effectsOf (g : Globals ι) : Op → List (Effect ι)
  | .destruct => (destruct g).1
  | .sendPackets dst => (cpcQueueNsSendPackets addr dst g).1
  | _ => []

def observe (g : Globals ι) (c : Call ι) : Observation ι :=
  ⟨effectsOf addr g c.op, (step addr g c.agent c.op).2⟩

/-- The sequences, and what is seen, after the calls `cs`. -/
def performed (g : Globals ι) : List (Call ι) → Globals ι × List (Observation ι)
  | [] => (g, [])
  | c :: cs =>
      let r := performed (step addr g c.agent c.op).1 cs
      (r.1, observe addr g c :: r.2)

/-! ### Steps -/

variable {L addr fuel} {m : Memory ι} {g : Globals ι} {qs ps : List ℕ} {lost : List (List ℕ)}
  {s s' : Process ι} {c : Call ι} {cs : List (Call ι)}

/-- A call of a constructor loses what is in the lists, any other call loses nothing. -/
def lostBy (c : Call ι) (qs ps : List ℕ) (lost : List (List ℕ)) : List (List ℕ) :=
  if c.op = .construct then qs :: ps :: lost else lost

/-- A call on a memory that stands for `g`. -/
theorem step_spec (h : Repr L m g qs ps lost) (hqueue : g.queue.length ≤ fuel)
    (hroutes : g.routes.length ≤ fuel) (hlegal : Legal ⟨m, s.log⟩ c) :
    ∃ m' qs' ps', m.step L addr fuel c = some ⟨m', [observe addr g c]⟩ ∧
      Repr L m' (step addr g c.agent c.op).1 qs' ps' (lostBy c qs ps lost) := by
  obtain ⟨x, op, b⟩ := c
  cases op with
  | construct =>
      obtain ⟨m', hrun, hr⟩ := construct_spec h.shaped x g
      exact ⟨m', [], [], by simp only [Memory.step, hrun]; rfl, hr⟩
  | destruct =>
      obtain ⟨m', hrun, hr⟩ := destruct_spec h hqueue hroutes
      exact ⟨m', [], [], by simp only [Memory.step, hrun]; rfl, hr⟩
  | queueAdd p dst =>
      obtain ⟨hfresh, rfl⟩ := hlegal
      obtain ⟨m', qs', hrun, hr⟩ := cpcQueueNsAdd_spec h x p hfresh
      exact ⟨m', qs', ps, by simp only [Memory.step, hrun]; rfl, hr⟩
  | queueGet dst =>
      exact ⟨m, qs, ps, by simp only [Memory.step, cpcQueueNsGet_spec h dst hqueue]; rfl, h⟩
  | queueRemove dst =>
      obtain ⟨m', qs', hrun, hr⟩ := cpcQueueNsRemove_spec h dst hqueue
      exact ⟨m', qs', ps, by simp only [Memory.step, hrun]; rfl, hr⟩
  | sendPackets dst =>
      obtain ⟨m', qs', hrun, hr⟩ := cpcQueueNsSendPackets_spec h addr dst hqueue hroutes
      exact ⟨m', qs', ps, by simp only [Memory.step, hrun]; rfl, hr⟩
  | rtAdd dst next =>
      obtain ⟨m', ps', hrun, hr⟩ := rtAdd_spec h x dst next hlegal hroutes
      exact ⟨m', qs, ps', by simp only [Memory.step, hrun]; rfl, hr⟩
  | rtUpdate dst next =>
      obtain ⟨m', ps', hrun, hr⟩ := cpcRtUpdate_spec h x dst next hlegal hroutes
      exact ⟨m', qs, ps', by simp only [Memory.step, hrun]; rfl, hr⟩
  | rtRemove dst =>
      obtain ⟨m', ps', hrun, hr⟩ := cpcRtRemove_spec h dst hroutes
      exact ⟨m', qs, ps', by simp only [Memory.step, hrun]; rfl, hr⟩
  | rtFind dst =>
      exact ⟨m, qs, ps, by simp only [Memory.step, cpcRtFind_spec h dst hroutes]; rfl, h⟩

theorem rtAdd_length (x : ι) (dst next : UInt32) (g : Globals ι) :
    (rtAdd x dst next g).routes.length ≤ g.routes.length + 1 ∧
      (rtAdd x dst next g).queue = g.queue := by
  unfold rtAdd
  split_ifs
  · exact ⟨Nat.le_succ _, rfl⟩
  · exact ⟨le_refl _, rfl⟩

theorem updateNext_length (dst next : UInt32) : ∀ l : List (RtEntry ι),
    (updateNext dst next l).length = l.length
  | [] => rfl
  | e :: l => by
      unfold updateNext
      split_ifs
      · rfl
      · rw [List.length_cons, updateNext_length dst next l, List.length_cons]

/-- A call adds one entry at most. -/
theorem step_length (g : Globals ι) (x : ι) (op : Op) :
    (step addr g x op).1.queue.length ≤ g.queue.length + 1 ∧
      (step addr g x op).1.routes.length ≤ g.routes.length + 1 := by
  have hremove : ∀ dst, (cpcQueueNsRemove dst g).queue.length ≤ g.queue.length + 1 :=
    fun dst => (List.length_filter_le _ _).trans (Nat.le_succ _)
  cases op with
  | construct | destruct => exact ⟨Nat.zero_le _, Nat.zero_le _⟩
  | queueAdd p dst => exact ⟨(List.length_append).le, Nat.le_succ _⟩
  | queueGet dst | rtFind dst => exact ⟨Nat.le_succ _, Nat.le_succ _⟩
  | queueRemove dst => exact ⟨hremove dst, Nat.le_succ _⟩
  | sendPackets dst =>
      obtain ⟨hq, hr⟩ := sendPackets_eq_remove addr dst g
      simp only [step, hq, hr]
      exact ⟨hremove dst, Nat.le_succ _⟩
  | rtAdd dst next =>
      obtain ⟨hle, hq⟩ := rtAdd_length x dst next g
      simp only [step, cpcRtAdd, hq]
      exact ⟨Nat.le_succ _, hle⟩
  | rtUpdate dst next =>
      obtain ⟨hle, hq⟩ := rtAdd_length x dst next g
      simp only [step, cpcRtUpdate]
      cases rtFind dst g with
      | none => exact ⟨by rw [hq]; exact Nat.le_succ _, hle⟩
      | some e => exact ⟨Nat.le_succ _, by rw [updateNext_length]; exact Nat.le_succ _⟩
  | rtRemove dst =>
      simp only [step, cpcRtRemove]
      cases rtFind dst g with
      | none => exact ⟨Nat.le_succ _, Nat.le_succ _⟩
      | some e => exact ⟨Nat.le_succ _, (List.length_eraseP_le).trans (Nat.le_succ _)⟩

/-! ### Runs -/

/-- The process stands for `g`, which has at most `n` entries of each kind. -/
structure Stands (L : Layout) (n : ℕ) (s : Process ι) (g : Globals ι) (qs ps : List ℕ)
    (lost : List (List ℕ)) : Prop where
  repr : Repr L s.mem g qs ps lost
  queue : g.queue.length ≤ n
  routes : g.routes.length ≤ n

/-- A call: it does not leave the language, and shows what it should. -/
theorem Stands.step {n : ℕ} (h : Stands L n s g qs ps lost) (hfuel : n ≤ fuel)
    (hlegal : Legal s c) :
    ∃ s' qs' ps', s.step L addr fuel c = some s' ∧ s'.log = s.log ++ [observe addr g c] ∧
      Stands L (n + 1) s' (step addr g c.agent c.op).1 qs' ps' (lostBy c qs ps lost) := by
  obtain ⟨m', qs', ps', hrun, hr⟩ :=
    @step_spec ι L addr fuel s.mem g qs ps lost s c h.repr (h.queue.trans hfuel)
      (h.routes.trans hfuel) hlegal
  obtain ⟨hq, hrt⟩ := @step_length ι addr g c.agent c.op
  refine ⟨⟨m', s.log ++ [observe addr g c]⟩, qs', ps', ?_, rfl, hr, ?_, ?_⟩
  · simp only [Process.step, hrun, Option.map_some]
  · exact hq.trans (Nat.succ_le_succ h.queue)
  · exact hrt.trans (Nat.succ_le_succ h.routes)

/-- A run of calls. -/
theorem Stands.run (hr : Run (Process.step L addr fuel) Legal s cs s') :
    ∀ {n : ℕ} {g : Globals ι} {qs ps : List ℕ} {lost : List (List ℕ)},
      Stands L n s g qs ps lost → n + cs.length ≤ fuel →
      s'.log = s.log ++ (performed addr g cs).2 ∧
        ∃ qs' ps' lost', Stands L (n + cs.length) s' (performed addr g cs).1 qs' ps' lost' := by
  induction hr with
  | nil s => exact fun {n g qs ps lost} h _ => ⟨(List.append_nil _).symm, qs, ps, lost, h⟩
  | @cons s s₁ s₂ c cs hlegal hstep _ ih =>
      intro n g qs ps lost h hfuel
      rw [List.length_cons] at hfuel
      have hle : n ≤ fuel := by omega
      obtain ⟨t, qs₁, ps₁, hstep', hlog, h₁⟩ := h.step hle hlegal
      obtain rfl : s₁ = t := Option.some.inj (hstep.symm.trans hstep')
      obtain ⟨hlog', qs', ps', lost', h'⟩ := ih h₁ (by omega)
      refine ⟨?_, qs', ps', lost', ?_⟩
      · rw [hlog', hlog, List.append_assoc]
        rfl
      · rw [List.length_cons, show n + (cs.length + 1) = n + 1 + cs.length by omega]
        exact h'

theorem loaded_shaped (L : Layout) : Shaped L (Process.loaded L : Process ι).mem [] [] [] := by
  refine ⟨⟨?_, fun p => ?_⟩, List.nodup_singleton _, List.nodup_singleton _⟩
  · refine List.pairwise_cons.mpr ⟨fun b hb => ?_, List.pairwise_singleton _ _⟩
    rw [List.mem_singleton.mp hb]
    intro p hp hp'
    rw [List.mem_singleton.mp hp] at hp'
    exact L.ne (List.mem_singleton.mp hp')
  · by_cases hp : p = L.q ∨ p = L.rtTbl
    · simp [Process.loaded, hp]
    · simp [Process.loaded, hp]

/-- The first constructor. -/
theorem loaded_construct {x : ι} {b : Block}
    (hstep : (Process.loaded L).step L addr fuel ⟨x, .construct, b⟩ = some s) :
    s.log = [⟨[], .unit⟩] ∧ Stands L 0 s (construct x Globals.init) [] [] [[], []] := by
  obtain ⟨m', hrun, hr⟩ := construct_spec (loaded_shaped L) x Globals.init
  have hstep' : (Process.loaded L).step L addr fuel ⟨x, .construct, b⟩ =
      some ⟨m', [⟨[], .unit⟩]⟩ := by
    simp only [Process.step, Memory.step, hrun, Option.map_some]
    rfl
  rw [hstep'] at hstep
  cases hstep
  exact ⟨rfl, hr, le_refl _, le_refl _⟩

def sampleLayout : Layout := ⟨1, 2, by decide, by decide, by decide⟩

/-- An agent is constructed, queues a packet, adds a route, and sends the packet. -/
def sampleCalls : List (Call Bool) :=
  [⟨false, .queueAdd packetFor packetFor.daddr, ⟨3, ⟨7, 9⟩⟩⟩, ⟨false, .rtAdd 2 5, ⟨4, ⟨7, 9⟩⟩⟩,
    ⟨false, .sendPackets 2, ⟨0, ⟨0, 0⟩⟩⟩]

/-- `list_foreach` over the list of `head` comes to `p`. -/
def Visited (m : Memory ι) (head p : ℕ) : Prop :=
  ∃ k xs, listForeach m.links head k = some xs ∧ p ∈ xs

/-- Every allocated cell is a head, or in a list. -/
def NoLeak (L : Layout) (m : Memory ι) : Prop :=
  ∀ p, (m.links p).isSome → p = L.q ∨ p = L.rtTbl ∨ Visited m L.q p ∨ Visited m L.rtTbl p

/-- The condition: a constructor is the first one, or both lists are empty. -/
def Tidy (L : Layout) (s : Process ι) (c : Call ι) : Prop :=
  c.op = .construct → s.mem.agent = none ∨
    (nextOf s.mem.links L.q = some L.q ∧ nextOf s.mem.links L.rtTbl = some L.rtTbl)

theorem visited_iff {head p : ℕ} {xs : List ℕ} (h : IsRing m.links head xs) :
    Visited m head p ↔ p ∈ xs := by
  constructor
  · rintro ⟨k, ys, hk, hp⟩
    have hwalk := h.walk_next (le_max_right k xs.length)
    obtain ⟨next, hnext, hys⟩ := Option.bind_eq_some_iff.mp hk
    rw [hnext, Option.bind_some, walk_mono hys (le_max_left k xs.length)] at hwalk
    exact Option.some.inj hwalk ▸ hp
  · exact fun hp => ⟨xs.length, xs, h.walk_next (le_refl _), hp⟩

theorem noLeak_iff_lost (h : Repr L m g qs ps lost) : NoLeak L m ↔ ∀ b ∈ lost, b = [] := by
  obtain ⟨hq, hrest⟩ := List.pairwise_cons.mp h.blocks.disjoint
  obtain ⟨ht, -⟩ := List.pairwise_cons.mp hrest
  constructor
  · intro hleak b hb
    by_contra hne
    obtain ⟨p, hp⟩ := List.exists_mem_of_ne_nil b hne
    have hnq : p ∉ L.q :: qs := fun hmem => hq b (List.mem_cons_of_mem _ hb) hmem hp
    have hnt : p ∉ L.rtTbl :: ps := fun hmem => ht b hb hmem hp
    have hsome : (m.links p).isSome :=
      (h.blocks.cells p).mpr ⟨b, List.mem_cons_of_mem _ (List.mem_cons_of_mem _ hb), hp⟩
    obtain rfl | rfl | hv | hv := hleak p hsome
    · exact hnq List.mem_cons_self
    · exact hnt List.mem_cons_self
    · exact hnq (List.mem_cons_of_mem _ ((visited_iff h.queue.ring).mp hv))
    · exact hnt (List.mem_cons_of_mem _ ((visited_iff h.table.ring).mp hv))
  · intro hlost p hsome
    rw [visited_iff h.queue.ring, visited_iff h.table.ring]
    obtain ⟨b, hb, hp⟩ := (h.blocks.cells p).mp hsome
    obtain rfl | hb := List.mem_cons.mp hb
    · obtain rfl | hp := List.mem_cons.mp hp
      · exact Or.inl rfl
      · exact Or.inr (Or.inr (Or.inl hp))
    · obtain rfl | hb := List.mem_cons.mp hb
      · obtain rfl | hp := List.mem_cons.mp hp
        · exact Or.inr (Or.inl rfl)
        · exact Or.inr (Or.inr (Or.inr hp))
      · rw [hlost b hb] at hp
        cases hp

/-- A head is linked with itself when its list is empty. -/
theorem next_head_iff {links : Heap} {head : ℕ} {xs : List ℕ} (h : IsRing links head xs) :
    nextOf links head = some head ↔ xs = [] := by
  obtain ⟨prev, next, hplace⟩ := exists_place head [] xs
  obtain rfl : head = prev := Option.some.inj hplace.prev
  rw [(h.linked hplace).1, Option.some.injEq]
  have hnext := hplace.next
  cases xs with
  | nil => exact iff_of_true (Option.some.inj hnext).symm rfl
  | cons x xs =>
      obtain rfl : x = next := Option.some.inj hnext
      refine iff_of_false ?_ (List.cons_ne_nil _ _)
      rintro rfl
      exact (List.nodup_cons.mp h.nodup).1 List.mem_cons_self

theorem tidy_iff (h : Repr L s.mem g qs ps lost) :
    Tidy L s c ↔ (c.op = .construct → qs = [] ∧ ps = []) := by
  obtain ⟨x, hx⟩ := h.agent.2
  unfold Tidy
  rw [hx, next_head_iff h.queue.ring, next_head_iff h.table.ring]
  simp

theorem lostBy_nil_iff : (∀ b ∈ lostBy c qs ps lost, b = []) ↔
    (∀ b ∈ lost, b = []) ∧ (c.op = .construct → qs = [] ∧ ps = []) := by
  unfold lostBy
  split_ifs with hc
  · simp only [List.mem_cons, forall_eq_or_imp, hc, true_implies]
    exact ⟨fun h => ⟨h.2.2, h.1, h.2.1⟩, fun h => ⟨h.2.1, h.2.2, h.1⟩⟩
  · simp [hc]

/-- Nothing is lost at the end of a run exactly when nothing was lost before and every constructor
met the condition: what was lost stays lost. -/
theorem Stands.run_noLeak (hr : Run (Process.step L addr fuel) Legal s cs s') :
    ∀ {n : ℕ} {g : Globals ι} {qs ps : List ℕ} {lost : List (List ℕ)},
      Stands L n s g qs ps lost → n + cs.length ≤ fuel →
      (NoLeak L s'.mem ↔ (∀ b ∈ lost, b = []) ∧
        Run (Process.step L addr fuel) (fun s c => Legal s c ∧ Tidy L s c) s cs s') := by
  induction hr with
  | nil s =>
      intro n g qs ps lost h _
      rw [noLeak_iff_lost h.repr]
      exact (and_iff_left (Run.nil s)).symm
  | @cons s s₁ s₂ c cs hlegal hstep _ ih =>
      intro n g qs ps lost h hfuel
      rw [List.length_cons] at hfuel
      have hle : n ≤ fuel := by omega
      obtain ⟨t, qs₁, ps₁, hstep', -, h₁⟩ := h.step hle hlegal
      obtain rfl : s₁ = t := Option.some.inj (hstep.symm.trans hstep')
      rw [ih h₁ (by omega), lostBy_nil_iff, ← tidy_iff h.repr]
      constructor
      · rintro ⟨⟨hlost, htidy⟩, hrest⟩
        exact ⟨hlost, Run.cons ⟨hlegal, htidy⟩ hstep hrest⟩
      · rintro ⟨hlost, hrun⟩
        cases hrun with
        | cons hc hs hrest =>
            obtain rfl := Option.some.inj (hstep.symm.trans hs)
            exact ⟨⟨hlost, hc.2⟩, hrest⟩

end GeoSvr.CpcNs
