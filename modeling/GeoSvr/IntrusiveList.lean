import GeoSvr.CpcNs
import GeoSvr.LinkedRing
import GeoSvr.TimerOwnership
import GeoSvr.WhileLoop

/-! # The lists of the daemon and of the simulation (`list.cc`, `list.h`)

A `list_t` is a pair of links inside the element, and a list is a ring of these with a head.  The
functions change the links of an element and of its neighbours, which may be one cell (the head of
an empty list).  `list_foreach_safe` saves the successor before the body runs, so that the body may
detach and free the element.

After each operation the list has the sequence that it should have (`list_operations`).  The models
of the tables that are such lists keep the sequences only; `cpcQueueNsRemove_ring` and
`deleteWhere_ring` say that the loops on the links give these. -/

namespace GeoSvr.IntrusiveList

open LinkedRing

/-! ### The functions -/

def LIST_NULL : ℤ := -1
def LIST_SUCCESS : ℤ := 1

/-- `INIT_LIST_HEAD`. -/
def initListHead (m : Heap) (h : ℕ) : Option Heap := do
  let m ← setNext m h h
  setPrev m h h

/-- `listelm_detach`. -/
def listelmDetach (m : Heap) (prev next : ℕ) : Option Heap := do
  let m ← setPrev m next prev
  setNext m prev next

/-- `listelm_add`. -/
def listelmAdd (m : Heap) (le prev next : ℕ) : Option Heap := do
  let m ← setNext m prev le
  let m ← setPrev m le prev
  let m ← setNext m le next
  setPrev m next le

/-- `list_add`: the status and the heap. -/
def listAdd (m : Heap) (head le : ℕ) : Option (ℤ × Heap) :=
  if head = 0 ∨ le = 0 then some (LIST_NULL, m)
  else do
    let next ← nextOf m head
    let m ← listelmAdd m le head next
    return (LIST_SUCCESS, m)

/-- `list_add_tail`. -/
def listAddTail (m : Heap) (head le : ℕ) : Option (ℤ × Heap) :=
  if head = 0 ∨ le = 0 then some (LIST_NULL, m)
  else do
    let prev ← prevOf m head
    let m ← listelmAdd m le prev head
    return (LIST_SUCCESS, m)

/-- `list_detach`. -/
def listDetach (m : Heap) (le : ℕ) : Option (ℤ × Heap) :=
  if le = 0 then some (LIST_NULL, m)
  else do
    let prev ← prevOf m le
    let next ← nextOf m le
    let m ← listelmDetach m prev next
    let m ← setPrev m le 0
    let m ← setNext m le 0
    return (LIST_SUCCESS, m)

/-- `list_unattached`. -/
def listUnattached (m : Heap) (le : ℕ) : Prop := nextOf m le = some 0 ∧ prevOf m le = some 0

/-- The elements that `list_foreach` visits. -/
def listForeach (m : Heap) (head fuel : ℕ) : Option (List ℕ) :=
  (nextOf m head).bind (walk (nextOf m) head fuel)

/-- The elements backwards. -/
def listForeachPrev (m : Heap) (head fuel : ℕ) : Option (List ℕ) :=
  (prevOf m head).bind (walk (prevOf m) head fuel)

/-- What a body of `list_foreach_safe` does to the list at an element. -/
inductive Act
  | keep
  | detach
  | detachFree
deriving DecidableEq

def Act.run (m : Heap) (pos : ℕ) : Act → Option Heap
  | .keep => some m
  | .detach => (listDetach m pos).map Prod.snd
  | .detachFree => (listDetach m pos).bind (fun r => free r.2 pos)

/-- The variables of `list_foreach_safe`, and the elements visited. -/
structure Cursor where
  heap : Heap
  pos : ℕ
  tmp : ℕ
  visited : List ℕ

/-- An iteration: the body, then `pos = tmp, tmp = pos->next`. -/
def iteration (acts : ℕ → Act) (s : Cursor) : Option Cursor := do
  let m ← (acts s.pos).run s.heap s.pos
  let tmp ← nextOf m s.tmp
  return ⟨m, s.tmp, tmp, s.visited ++ [s.pos]⟩

/-- `list_foreach_safe`, with a body that does `acts p` at the element `p`. -/
def listForeachSafe (m : Heap) (head : ℕ) (acts : ℕ → Act) (fuel : ℕ) : Option Cursor := do
  let pos ← nextOf m head
  let tmp ← nextOf m pos
  WhileLoop.run (fun s => s.pos != head) (iteration acts) fuel ⟨m, pos, tmp, []⟩

/-! ### The elementary functions -/

variable {m : Heap} {head e prev next p : ℕ} {xs l r : List ℕ}

theorem listelmAdd_spec (he : (m e).isSome) (hprev : (m prev).isSome) (hnext : (m next).isSome) :
    ∃ m', listelmAdd m e prev next = some m' ∧
      (∀ p, nextOf m' p = if p = e then some next else if p = prev then some e else nextOf m p) ∧
      (∀ p, prevOf m' p = if p = next then some e else if p = e then some prev else prevOf m p) ∧
      ∀ p, p ≠ e → p ≠ prev → p ≠ next → m' p = m p := by
  have h₁ : setNext m prev e = some (putNext m prev e) := setNext_eq hprev e
  have h₂ : setPrev (putNext m prev e) e prev = some (putPrev (putNext m prev e) e prev) :=
    setPrev_eq (by simpa using he) prev
  have h₃ : setNext (putPrev (putNext m prev e) e prev) e next =
      some (putNext (putPrev (putNext m prev e) e prev) e next) :=
    setNext_eq (by simpa using he) next
  refine ⟨putPrev (putNext (putPrev (putNext m prev e) e prev) e next) next e, ?_, ?_, ?_, ?_⟩
  · simp only [listelmAdd, h₁, h₂, h₃, Option.bind_eq_bind, Option.bind_some]
    exact setPrev_eq (by simpa using hnext) e
  · intro p
    rw [nextOf_putPrev, nextOf_putNext (by simpa using he), nextOf_putPrev, nextOf_putNext hprev]
  · intro p
    rw [prevOf_putPrev (by simpa using hnext), prevOf_putNext,
      prevOf_putPrev (by simpa using he), prevOf_putNext]
  · intro p hpe hpp hpn
    rw [putPrev_of_ne hpn, putNext_of_ne hpe, putPrev_of_ne hpe, putNext_of_ne hpp]

/-- `list_detach` of a cell between two others. -/
theorem listDetach_spec (h0 : e ≠ 0) (hprev : Linked m prev e) (hnext : Linked m e next) :
    ∃ m', listDetach m e = some (LIST_SUCCESS, m') ∧ m' e = some ⟨0, 0⟩ ∧
      (∀ p, p ≠ e → nextOf m' p = if p = prev then some next else nextOf m p) ∧
      (∀ p, p ≠ e → prevOf m' p = if p = next then some prev else prevOf m p) ∧
      ∀ p, p ≠ e → p ≠ prev → p ≠ next → m' p = m p := by
  have he : (m e).isSome := isSome_of_prevOf hprev.2
  have hp : (m prev).isSome := isSome_of_nextOf hprev.1
  have hn : (m next).isSome := isSome_of_prevOf hnext.2
  have h₁ : setPrev m next prev = some (putPrev m next prev) := setPrev_eq hn prev
  have h₂ : setNext (putPrev m next prev) prev next =
      some (putNext (putPrev m next prev) prev next) := setNext_eq (by simpa using hp) next
  have h₃ : setPrev (putNext (putPrev m next prev) prev next) e 0 =
      some (putPrev (putNext (putPrev m next prev) prev next) e 0) :=
    setPrev_eq (by simpa using he) 0
  have h₄ : setNext (putPrev (putNext (putPrev m next prev) prev next) e 0) e 0 =
      some (putNext (putPrev (putNext (putPrev m next prev) prev next) e 0) e 0) :=
    setNext_eq (by simpa using he) 0
  have hnext' : ∀ p, nextOf (putNext (putPrev (putNext (putPrev m next prev) prev next) e 0) e 0) p =
      if p = e then some 0 else if p = prev then some next else nextOf m p := by
    intro p
    rw [nextOf_putNext (by simpa using he), nextOf_putPrev, nextOf_putNext (by simpa using hp),
      nextOf_putPrev]
  have hprev' : ∀ p, prevOf (putNext (putPrev (putNext (putPrev m next prev) prev next) e 0) e 0) p =
      if p = e then some 0 else if p = next then some prev else prevOf m p := by
    intro p
    rw [prevOf_putNext, prevOf_putPrev (by simpa using he), prevOf_putNext, prevOf_putPrev hn]
  refine ⟨_, ?_, cell_eq ((hprev' e).trans (if_pos rfl)) ((hnext' e).trans (if_pos rfl)),
    fun p hpe => (hnext' p).trans (if_neg hpe), fun p hpe => (hprev' p).trans (if_neg hpe),
    fun p hpe hpp hpn => ?_⟩
  · simp only [listDetach, if_neg h0, hprev.2, hnext.1, listelmDetach, h₁, h₂, h₃, h₄,
      Option.bind_eq_bind, Option.bind_some]
    rfl
  · rw [putNext_of_ne hpe, putPrev_of_ne hpe, putNext_of_ne hpp, putPrev_of_ne hpn]

/-! ### The operations on a list -/

/-- `INIT_LIST_HEAD` makes an empty list. -/
theorem initListHead_ring (h0 : head ≠ 0) (hm : (m head).isSome) :
    ∃ m', initListHead m head = some m' ∧ IsRing m' head [] ∧ ∀ p, p ≠ head → m' p = m p := by
  have h₁ : setNext m head head = some (putNext m head head) := setNext_eq hm head
  have hm' : (putNext m head head head).isSome := by rwa [isSome_putNext]
  refine ⟨putPrev (putNext m head head) head head, ?_, ⟨List.nodup_singleton _, ?_, ?_⟩, ?_⟩
  · simp only [initListHead, h₁, Option.bind_eq_bind, Option.bind_some]
    exact setPrev_eq hm' head
  · intro p hp
    rwa [List.mem_singleton.mp hp]
  · refine List.isChain_cons_cons.mpr ⟨⟨?_, ?_⟩, List.IsChain.singleton head⟩
    · rw [nextOf_putPrev, nextOf_putNext hm, if_pos rfl]
    · rw [prevOf_putPrev hm', if_pos rfl]
  · intro p hp
    rw [putPrev_of_ne hp, putNext_of_ne hp]

/-- `listelm_add` at a place of a list. -/
theorem listelmAdd_ring (h : IsRing m head (l ++ r)) (hplace : Place head l r prev next)
    (he : e ∉ head :: (l ++ r)) (h0 : e ≠ 0) (hm : (m e).isSome) :
    ∃ m', listelmAdd m e prev next = some m' ∧ IsRing m' head (l ++ e :: r) ∧
      ∀ p, p ∉ e :: head :: (l ++ r) → m' p = m p := by
  have hlink := h.linked hplace
  obtain ⟨m', hrun, hn, hp, hframe⟩ :=
    listelmAdd_spec hm (isSome_of_nextOf hlink.1) (isSome_of_prevOf hlink.2)
  refine ⟨m', hrun, h.insert hplace he h0 hn hp, fun p hout => ?_⟩
  obtain ⟨hpe, hpl⟩ := List.ne_and_not_mem_of_not_mem_cons hout
  obtain ⟨hpp, hpn⟩ := hplace.ne hpl
  exact hframe p hpe hpp.symm hpn.symm

theorem listAdd_ring (h : IsRing m head xs) (he : e ∉ head :: xs) (h0 : e ≠ 0)
    (hm : (m e).isSome) :
    ∃ m', listAdd m head e = some (LIST_SUCCESS, m') ∧ IsRing m' head (e :: xs) ∧
      ∀ p, p ∉ e :: head :: xs → m' p = m p := by
  obtain ⟨prev, next, hplace⟩ := exists_place head [] xs
  obtain rfl : head = prev := Option.some.inj hplace.prev
  obtain ⟨m', hrun, hring, hframe⟩ := listelmAdd_ring h hplace he h0 hm
  refine ⟨m', ?_, hring, hframe⟩
  have hnull : ¬ (head = 0 ∨ e = 0) := not_or.mpr ⟨h.ne_null head List.mem_cons_self, h0⟩
  simp only [listAdd, if_neg hnull, (h.linked hplace).1, hrun, Option.bind_eq_bind,
    Option.bind_some]
  rfl

theorem listAddTail_ring (h : IsRing m head xs) (he : e ∉ head :: xs) (h0 : e ≠ 0)
    (hm : (m e).isSome) :
    ∃ m', listAddTail m head e = some (LIST_SUCCESS, m') ∧ IsRing m' head (xs ++ [e]) ∧
      ∀ p, p ∉ e :: head :: xs → m' p = m p := by
  obtain ⟨prev, next, hplace⟩ := exists_place head xs []
  obtain rfl : head = next := Option.some.inj hplace.next
  rw [← List.append_nil xs] at h he
  obtain ⟨m', hrun, hring, hframe⟩ := listelmAdd_ring h hplace he h0 hm
  refine ⟨m', ?_, hring, by rwa [List.append_nil] at hframe⟩
  have hnull : ¬ (head = 0 ∨ e = 0) := not_or.mpr ⟨h.ne_null head List.mem_cons_self, h0⟩
  simp only [listAddTail, if_neg hnull, (h.linked hplace).2, hrun, Option.bind_eq_bind,
    Option.bind_some]
  rfl

theorem listUnattached_of_cell (h : m e = some ⟨0, 0⟩) : listUnattached m e := by
  refine ⟨?_, ?_⟩
  · rw [nextOf, h]
    rfl
  · rw [prevOf, h]
    rfl

theorem listDetach_ring (h : IsRing m head (l ++ e :: r)) :
    ∃ m', listDetach m e = some (LIST_SUCCESS, m') ∧ IsRing m' head (l ++ r) ∧
      m' e = some ⟨0, 0⟩ ∧ ∀ p, p ∉ head :: (l ++ e :: r) → m' p = m p := by
  obtain ⟨prev, next, hplace⟩ := exists_place head l r
  obtain ⟨hprev, hnext⟩ := h.neighbours hplace
  have h0 : e ≠ 0 := h.ne_null e (List.mem_cons_of_mem _ (List.mem_append_right _
    List.mem_cons_self))
  obtain ⟨m', hrun, hcell, hn, hp, hframe⟩ := listDetach_spec h0 hprev hnext
  refine ⟨m', hrun, h.remove hplace hn hp, hcell, fun p hout => ?_⟩
  have hout' : p ∉ e :: head :: (l ++ r) :=
    fun hmem => hout ((perm_cons_middle head e l r).mem_iff.mpr hmem)
  obtain ⟨hpe, hpl⟩ := List.ne_and_not_mem_of_not_mem_cons hout'
  obtain ⟨hpp, hpn⟩ := hplace.ne hpl
  exact hframe p hpe hpp.symm hpn.symm

/-! ### Removal in a loop -/

/-- What is left of an element. -/
def Act.Leaves (m : Heap) (p : ℕ) : Act → Prop
  | .keep => True
  | .detach => listUnattached m p
  | .detachFree => m p = none

/-- What is left of an element that is not in the list any more does not change with the list. -/
theorem Act.Leaves.congr {m' : Heap} {a : Act} (h : a.Leaves m p) (heq : m' p = m p) :
    a.Leaves m' p := by
  cases a with
  | keep => trivial
  | detach => exact ⟨by rw [nextOf, heq]; exact h.1, by rw [prevOf, heq]; exact h.2⟩
  | detachFree => exact heq.trans h

/-- The body of the loop at an element. -/
theorem Act.run_ring (h : IsRing m head (l ++ e :: r)) (acts : ℕ → Act) :
    ∃ m', (acts e).run m e = some m' ∧
      IsRing m' head (l ++ [e].filter (fun p => acts p = .keep) ++ r) ∧
      (acts e).Leaves m' e ∧ ∀ p, p ∉ head :: (l ++ e :: r) → m' p = m p := by
  obtain ⟨m₁, hrun, hring, hcell, hframe⟩ := listDetach_ring h
  cases hact : acts e with
  | keep =>
      rw [List.filter_cons_of_pos (by simp [hact]), List.filter_nil, List.append_assoc]
      exact ⟨m, rfl, h, trivial, fun p _ => rfl⟩
  | detach =>
      rw [List.filter_cons_of_neg (by simp [hact]), List.filter_nil, List.append_nil]
      exact ⟨m₁, by rw [Act.run, hrun]; rfl, hring, listUnattached_of_cell hcell, hframe⟩
  | detachFree =>
      rw [List.filter_cons_of_neg (by simp [hact]), List.filter_nil, List.append_nil]
      have he : e ∉ head :: (l ++ r) := h.not_mem
      refine ⟨Function.update m₁ e none, ?_, hring.congr (fun p hp => ?_), ?_, fun p hout => ?_⟩
      · have hm : (m₁ e).isSome := by
          rw [hcell]
          rfl
        rw [Act.run, hrun, Option.bind_some]
        exact if_pos hm
      · have hpe : p ≠ e := fun heq => he (heq ▸ hp)
        rw [Function.update_of_ne hpe]
      · exact Function.update_self e none m₁
      · have hpe : p ≠ e := by
          rintro rfl
          exact hout ((perm_cons_middle head p l r).mem_iff.mpr List.mem_cons_self)
        rw [Function.update_of_ne hpe, hframe p hout]

/-- An iteration.  The saved successor is the first of the elements `r` behind the position, and the
body leaves these linked. -/
theorem iteration_ring (acts : ℕ → Act) {s : Cursor}
    (hring : IsRing s.heap head (l ++ s.pos :: r)) (htmp : nextOf s.heap s.pos = some s.tmp) :
    ∃ t, WhileLoop.Iterates (fun s : Cursor => s.pos != head) (iteration acts) s t ∧
      t.pos ∈ (r ++ [head]).head? ∧ nextOf t.heap t.pos = some t.tmp ∧
      t.visited = s.visited ++ [s.pos] ∧
      IsRing t.heap head (l ++ [s.pos].filter (fun p => acts p = .keep) ++ r) ∧
      (acts s.pos).Leaves t.heap s.pos ∧
      ∀ p, p ∉ head :: (l ++ s.pos :: r) → t.heap p = s.heap p := by
  have hguard : (s.pos != head) = true := by
    refine bne_iff_ne.mpr (fun heq => (List.nodup_cons.mp hring.nodup).1 ?_)
    exact heq ▸ List.mem_append_right l List.mem_cons_self
  obtain ⟨prev, next, hplace⟩ := exists_place head l r
  obtain rfl : next = s.tmp := Option.some.inj ((hring.neighbours hplace).2.1.symm.trans htmp)
  obtain ⟨m', hbody, hring', hleaves, hframe⟩ := Act.run_ring hring acts
  have hmem : s.tmp ∈ head :: (l ++ [s.pos].filter (fun p => acts p = .keep) ++ r) :=
    ((List.sublist_append_right _ r).cons_cons head).subset
      (mem_cons_of_mem_concat hplace.next_mem)
  obtain ⟨tmp, hnext⟩ := exists_nextOf (hring'.isSome hmem)
  refine ⟨⟨m', s.tmp, tmp, s.visited ++ [s.pos]⟩, ⟨hguard, ?_⟩, hplace.next, hnext, rfl, hring',
    hleaves, hframe⟩
  simp only [iteration, hbody, hnext, Option.bind_eq_bind, Option.bind_some]
  rfl

/-- The loop, from a position on: the elements `l` before it were visited and stay, the elements
`r` are still to come. -/
theorem run_ring (acts : ℕ → Act) (head : ℕ) : ∀ (r : List ℕ) {l : List ℕ} {fuel : ℕ}
    {s : Cursor}, IsRing s.heap head (l ++ r) → s.pos ∈ (r ++ [head]).head? →
      nextOf s.heap s.pos = some s.tmp → r.length ≤ fuel →
        ∃ t, WhileLoop.run (fun s => s.pos != head) (iteration acts) fuel s = some t ∧
          t.visited = s.visited ++ r ∧
          IsRing t.heap head (l ++ r.filter (fun p => acts p = .keep)) ∧
          (∀ p ∈ r, (acts p).Leaves t.heap p) ∧
          ∀ p, p ∉ head :: (l ++ r) → t.heap p = s.heap p := by
  intro r
  induction r with
  | nil =>
      intro l fuel s hring hpos _ _
      have hguard : (s.pos != head) = false := by
        rw [← Option.some.inj hpos, bne_self_eq_false]
      have hend : WhileLoop.run (fun s => s.pos != head) (iteration acts) fuel s = some s :=
        @WhileLoop.run_of_false _ (fun s : Cursor => s.pos != head) _ _ hguard fuel
      exact ⟨s, hend, (List.append_nil _).symm, hring, fun p hp => absurd hp List.not_mem_nil,
        fun p _ => rfl⟩
  | cons e r ih =>
      intro l fuel s hring hpos htmp hfuel
      obtain ⟨k, rfl⟩ : ∃ k, fuel = k + 1 := ⟨fuel - 1, by rw [List.length_cons] at hfuel; omega⟩
      obtain rfl : e = s.pos := Option.some.inj hpos
      obtain ⟨s', hit, hpos', htmp', hvisited', hring', hleaves', hframe'⟩ :=
        iteration_ring acts hring htmp
      obtain ⟨t, hrun, hvisited, hfinal, hleaves, hframe⟩ :=
        ih hring' hpos' htmp' (Nat.le_of_succ_le_succ hfuel)
      refine ⟨t, ?_, ?_, ?_, fun p hp => ?_, fun p hp => ?_⟩
      · rw [WhileLoop.run_succ hit, hrun]
      · rw [hvisited, hvisited', List.append_assoc]
        rfl
      · have hsplit : (s.pos :: r).filter (fun p => acts p = .keep) =
            [s.pos].filter (fun p => acts p = .keep) ++ r.filter (fun p => acts p = .keep) :=
          List.filter_append [s.pos] r
        rwa [hsplit, ← List.append_assoc]
      · obtain rfl | hp := List.mem_cons.mp hp
        · -- what left the ring at this position is outside it from here on
          cases hact : acts s.pos with
          | keep => trivial
          | detach | detachFree =>
              have hgone : [s.pos].filter (fun p => acts p = .keep) = [] := by simp [hact]
              have hout : s.pos ∉ head :: (l ++ r) := hring.not_mem
              rw [hact] at hleaves'
              refine hleaves'.congr (hframe s.pos ?_)
              rwa [hgone, List.append_nil]
        · exact hleaves p hp
      · have hsub : (l ++ [s.pos].filter (fun p => acts p = .keep) ++ r).Sublist
            (l ++ s.pos :: r) := by
          rw [List.append_assoc]
          exact (List.filter_sublist.append_right r).append_left l
        exact (hframe p (fun hmem => hp ((hsub.cons_cons head).subset hmem))).trans (hframe' p hp)

/-- `list_foreach_safe` on a list. -/
theorem listForeachSafe_ring (h : IsRing m head xs) (acts : ℕ → Act) {fuel : ℕ}
    (hfuel : xs.length ≤ fuel) :
    ∃ s, listForeachSafe m head acts fuel = some s ∧ s.visited = xs ∧
      IsRing s.heap head (xs.filter (fun p => acts p = .keep)) ∧
      (∀ p ∈ xs, (acts p).Leaves s.heap p) ∧ ∀ p, p ∉ head :: xs → s.heap p = m p := by
  obtain ⟨prev, pos, hplace⟩ := exists_place head [] xs
  obtain rfl : head = prev := Option.some.inj hplace.prev
  obtain ⟨tmp, htmp⟩ := exists_nextOf (h.isSome (mem_cons_of_mem_concat hplace.next_mem))
  obtain ⟨s, hrun, hspec⟩ :=
    run_ring acts head xs (l := []) (s := ⟨m, pos, tmp, []⟩) h hplace.next htmp hfuel
  refine ⟨s, ?_, hspec⟩
  simp only [listForeachSafe, (h.linked hplace).1, htmp, Option.bind_eq_bind, Option.bind_some]
  exact hrun

/-! ### The list as its readers see it -/

/-- A well-formed list with the elements `xs`, and what is found along the links. -/
structure IsList (m : Heap) (head : ℕ) (xs : List ℕ) : Prop where
  ring : IsRing m head xs
  forward : ∀ fuel, xs.length ≤ fuel → listForeach m head fuel = some xs
  backward : ∀ fuel, xs.length ≤ fuel → listForeachPrev m head fuel = some xs.reverse

theorem isList_of_ring (h : IsRing m head xs) : IsList m head xs :=
  ⟨h, fun _ hfuel => h.walk_next hfuel, fun _ hfuel => h.walk_prev hfuel⟩

/-- **The operations keep a list well formed, with the sequence that each should give.**  They
succeed, and no cell outside the list is touched.  The loop comes to its end after as many
iterations as there were elements. -/
theorem list_operations (h : IsRing m head xs) :
    IsList m head xs ∧
      (∀ e, e ∉ head :: xs → e ≠ 0 → (m e).isSome →
        (∃ m', listAdd m head e = some (LIST_SUCCESS, m') ∧ IsList m' head (e :: xs) ∧
          ∀ p, p ∉ e :: head :: xs → m' p = m p) ∧
        ∃ m', listAddTail m head e = some (LIST_SUCCESS, m') ∧ IsList m' head (xs ++ [e]) ∧
          ∀ p, p ∉ e :: head :: xs → m' p = m p) ∧
      (∀ e ∈ xs, ∃ m', listDetach m e = some (LIST_SUCCESS, m') ∧ IsList m' head (xs.erase e) ∧
        listUnattached m' e ∧ ∀ p, p ∉ head :: xs → m' p = m p) ∧
      ∀ (acts : ℕ → Act) (fuel : ℕ), xs.length ≤ fuel →
        ∃ s, listForeachSafe m head acts fuel = some s ∧ s.visited = xs ∧
          IsList s.heap head (xs.filter (fun p => acts p = .keep)) ∧
          (∀ p ∈ xs, (acts p).Leaves s.heap p) ∧ ∀ p, p ∉ head :: xs → s.heap p = m p := by
  refine ⟨isList_of_ring h, fun e he h0 hm => ⟨?_, ?_⟩, fun e he => ?_, fun acts fuel hfuel => ?_⟩
  · obtain ⟨m', hrun, hring, hframe⟩ := listAdd_ring h he h0 hm
    exact ⟨m', hrun, isList_of_ring hring, hframe⟩
  · obtain ⟨m', hrun, hring, hframe⟩ := listAddTail_ring h he h0 hm
    exact ⟨m', hrun, isList_of_ring hring, hframe⟩
  · obtain ⟨l, r, rfl⟩ := List.append_of_mem he
    have hl : e ∉ l := fun hmem => h.not_mem (List.mem_cons_of_mem _ (List.mem_append_left _ hmem))
    obtain ⟨m', hrun, hring, hcell, hframe⟩ := listDetach_ring h
    rw [List.erase_append_right _ hl, List.erase_cons_head]
    exact ⟨m', hrun, isList_of_ring hring, listUnattached_of_cell hcell, hframe⟩
  · obtain ⟨s, hrun, hvisited, hring, hleaves, hframe⟩ := listForeachSafe_ring h acts hfuel
    exact ⟨s, hrun, hvisited, isList_of_ring hring, hleaves, hframe⟩

/-- Two elements, and one that is not in the list. -/
theorem list_operations_two_elements :
    let m : Heap := fun p =>
      [none, some ⟨3, 2⟩, some ⟨1, 3⟩, some ⟨2, 1⟩, some ⟨0, 0⟩].getD p none
    (∃ m', listAdd m 1 4 = some (LIST_SUCCESS, m') ∧ IsList m' 1 [4, 2, 3]) ∧
      (∃ m', listAddTail m 1 4 = some (LIST_SUCCESS, m') ∧ IsList m' 1 [2, 3, 4]) ∧
      (∃ m', listDetach m 2 = some (LIST_SUCCESS, m') ∧ IsList m' 1 [3]) ∧
      ∃ s, listForeachSafe m 1 (fun p => if p = 2 then .detachFree else .keep) 2 = some s ∧
        s.visited = [2, 3] ∧ IsList s.heap 1 [3] ∧ s.heap 2 = none := by
  intro m
  have hring : IsRing m 1 [2, 3] := by
    refine ⟨by decide, by decide, ?_⟩
    refine List.isChain_cons_cons.mpr ⟨⟨rfl, rfl⟩, List.isChain_cons_cons.mpr ⟨⟨rfl, rfl⟩, ?_⟩⟩
    exact List.isChain_cons_cons.mpr ⟨⟨rfl, rfl⟩, List.IsChain.singleton 1⟩
  obtain ⟨-, hadd, hdetach, hsafe⟩ := list_operations hring
  obtain ⟨⟨m₁, hrun₁, hlist₁, -⟩, m₂, hrun₂, hlist₂, -⟩ := hadd 4 (by decide) (by decide) rfl
  obtain ⟨m₃, hrun₃, hlist₃, -⟩ := hdetach 2 (by decide)
  obtain ⟨s, hrun, hvisited, hlist, hleaves, -⟩ :=
    hsafe (fun p => if p = 2 then .detachFree else .keep) 2 (by decide)
  exact ⟨⟨m₁, hrun₁, hlist₁⟩, ⟨m₂, hrun₂, hlist₂⟩, ⟨m₃, hrun₃, hlist₃⟩, s, hrun, hvisited, hlist,
    hleaves 2 (by decide)⟩

/-! ### The lists of the other modules -/

/-- The body that takes an element out and frees it if `del` says so. -/
def removeIf (del : ℕ → Bool) (p : ℕ) : Act := if del p then .detachFree else .keep

theorem removeIf_keep (del : ℕ → Bool) (p : ℕ) : decide (removeIf del p = .keep) = !del p := by
  unfold removeIf
  cases del p <;> rfl

theorem listForeachSafe_removeIf (h : IsRing m head xs) (del : ℕ → Bool) {fuel : ℕ}
    (hfuel : xs.length ≤ fuel) :
    ∃ s, listForeachSafe m head (removeIf del) fuel = some s ∧
      IsRing s.heap head (xs.filter (fun p => !del p)) := by
  obtain ⟨s, hrun, -, hring, -⟩ := listForeachSafe_ring h (removeIf del) hfuel
  simp only [removeIf_keep] at hring
  exact ⟨s, hrun, hring⟩

/-- The queue of the simulation is the list of the entries at the elements: `cpc_queue_ns_remove`
on the links does what the model of the queue says. -/
theorem cpcQueueNsRemove_ring {ι : Type*} {g : CpcNs.Globals ι} {data : ℕ → CpcNs.QueueEntry ι}
    (h : IsRing m head xs) (hqueue : g.queue = xs.map data) (dst : UInt32) {fuel : ℕ}
    (hfuel : xs.length ≤ fuel) :
    ∃ s ys, listForeachSafe m head (removeIf (fun p => (data p).dst == dst)) fuel = some s ∧
      IsRing s.heap head ys ∧ (CpcNs.cpcQueueNsRemove dst g).queue = ys.map data := by
  obtain ⟨s, hrun, hring⟩ := listForeachSafe_removeIf h (fun p => (data p).dst == dst) hfuel
  refine ⟨s, _, hrun, hring, ?_⟩
  have hfilter : (CpcNs.cpcQueueNsRemove dst g).queue = g.queue.filter (fun e => e.dst != dst) :=
    rfl
  rw [hfilter, hqueue, List.filter_map]
  rfl

/-- The neighbour table is the list of the neighbours at their addresses: the loop of
`list_cleaner_cb` and `neigh_list_fini` on the links does what the model of the table says. -/
theorem deleteWhere_ring {R : Type*} {s : Daemon.Node R} (p : Daemon.Neighbor R → Bool)
    (h : IsRing m head (s.neiList.map Daemon.Neighbor.addr)) {fuel : ℕ}
    (hfuel : s.neiList.length ≤ fuel) :
    ∃ t, listForeachSafe m head
        (removeIf (fun a => s.neiList.any (fun n => n.addr == a && p n))) fuel = some t ∧
      IsRing t.heap head ((Daemon.deleteWhere p s).neiList.map Daemon.Neighbor.addr) := by
  have hlength : (s.neiList.map Daemon.Neighbor.addr).length ≤ fuel := by rwa [List.length_map]
  obtain ⟨t, hrun, hring⟩ := listForeachSafe_removeIf h
    (fun a => s.neiList.any (fun n => n.addr == a && p n)) hlength
  refine ⟨t, hrun, ?_⟩
  rw [Daemon.deleteWhere_neiList p (List.nodup_cons.mp h.nodup).2.of_map]
  rwa [List.filter_map] at hring

end GeoSvr.IntrusiveList
