import Mathlib.Data.List.Chain
import Mathlib.Data.List.Nodup
import Mathlib.Logic.Function.Basic

/-! # Circular doubly linked lists on a heap

A heap gives the two links of every allocated cell; an address is a natural number, 0 is no address.
An access to a cell that is not allocated fails, and so does the program.

A ring is a head and the elements behind it, each linked with the next in both directions, the last
one with the head (`IsRing`).  Two operations are enough: `IsRing.insert` and `IsRing.remove` say
what a change of the links between two neighbours does to the sequence, wherever it is made.
`IsRing.congr` is the frame rule, and `IsRing.walk_next` and `IsRing.walk_prev` say what following
the links finds. -/

namespace LinkedRing

/-- The links of a cell. -/
structure Links where
  prev : ℕ
  next : ℕ
deriving DecidableEq

abbrev Heap := ℕ → Option Links

/-! ### Reading and writing -/

def nextOf (m : Heap) (p : ℕ) : Option ℕ := (m p).map Links.next

def prevOf (m : Heap) (p : ℕ) : Option ℕ := (m p).map Links.prev

/-- The heap with another link to the next cell. -/
def putNext (m : Heap) (p q : ℕ) : Heap :=
  Function.update m p ((m p).map (fun l => { l with next := q }))

/-- The heap with another link to the previous cell. -/
def putPrev (m : Heap) (p q : ℕ) : Heap :=
  Function.update m p ((m p).map (fun l => { l with prev := q }))

/-- Writing `p->next`. -/
def setNext (m : Heap) (p q : ℕ) : Option Heap := if (m p).isSome then some (putNext m p q) else none

/-- Writing `p->prev`. -/
def setPrev (m : Heap) (p q : ℕ) : Option Heap := if (m p).isSome then some (putPrev m p q) else none

/-- Freeing a cell. -/
def free (m : Heap) (p : ℕ) : Option Heap :=
  if (m p).isSome then some (Function.update m p none) else none

variable {m m' : Heap} {p q x : ℕ}

theorem setNext_eq (h : (m p).isSome) (q : ℕ) : setNext m p q = some (putNext m p q) := if_pos h

theorem setPrev_eq (h : (m p).isSome) (q : ℕ) : setPrev m p q = some (putPrev m p q) := if_pos h

@[simp] theorem isSome_putNext (m : Heap) (p q x : ℕ) : (putNext m p q x).isSome = (m x).isSome := by
  unfold putNext
  by_cases h : x = p
  · rw [h, Function.update_self, Option.isSome_map]
  · rw [Function.update_of_ne h]

@[simp] theorem isSome_putPrev (m : Heap) (p q x : ℕ) : (putPrev m p q x).isSome = (m x).isSome := by
  unfold putPrev
  by_cases h : x = p
  · rw [h, Function.update_self, Option.isSome_map]
  · rw [Function.update_of_ne h]

theorem putNext_of_ne (h : x ≠ p) (q : ℕ) : putNext m p q x = m x := Function.update_of_ne h _ _

theorem putPrev_of_ne (h : x ≠ p) (q : ℕ) : putPrev m p q x = m x := Function.update_of_ne h _ _

@[simp] theorem prevOf_putNext (m : Heap) (p q x : ℕ) : prevOf (putNext m p q) x = prevOf m x := by
  unfold prevOf
  by_cases h : x = p
  · rw [h, putNext, Function.update_self]
    cases m p <;> rfl
  · rw [putNext_of_ne h]

@[simp] theorem nextOf_putPrev (m : Heap) (p q x : ℕ) : nextOf (putPrev m p q) x = nextOf m x := by
  unfold nextOf
  by_cases h : x = p
  · rw [h, putPrev, Function.update_self]
    cases m p <;> rfl
  · rw [putPrev_of_ne h]

theorem nextOf_putNext (h : (m p).isSome) (q x : ℕ) :
    nextOf (putNext m p q) x = if x = p then some q else nextOf m x := by
  unfold nextOf
  split_ifs with hx
  · obtain ⟨l, hl⟩ := Option.isSome_iff_exists.mp h
    rw [hx, putNext, Function.update_self, hl]
    rfl
  · rw [putNext_of_ne hx]

theorem prevOf_putPrev (h : (m p).isSome) (q x : ℕ) :
    prevOf (putPrev m p q) x = if x = p then some q else prevOf m x := by
  unfold prevOf
  split_ifs with hx
  · obtain ⟨l, hl⟩ := Option.isSome_iff_exists.mp h
    rw [hx, putPrev, Function.update_self, hl]
    rfl
  · rw [putPrev_of_ne hx]

theorem isSome_of_nextOf (h : nextOf m p = some q) : (m p).isSome := by
  obtain ⟨l, hl, -⟩ := Option.map_eq_some_iff.mp h
  rw [hl]
  rfl

theorem isSome_of_prevOf (h : prevOf m p = some q) : (m p).isSome := by
  obtain ⟨l, hl, -⟩ := Option.map_eq_some_iff.mp h
  rw [hl]
  rfl

theorem exists_nextOf (h : (m p).isSome) : ∃ q, nextOf m p = some q := by
  obtain ⟨l, hl⟩ := Option.isSome_iff_exists.mp h
  exact ⟨l.next, by rw [nextOf, hl]; rfl⟩

/-- A cell is known by its links. -/
theorem cell_eq {a b : ℕ} (hp : prevOf m p = some a) (hn : nextOf m p = some b) :
    m p = some ⟨a, b⟩ := by
  obtain ⟨l, hl, rfl⟩ := Option.map_eq_some_iff.mp hp
  rw [nextOf, hl] at hn
  cases hn
  exact hl

/-! ### Rings -/

/-- `a` and `b` are linked in both directions. -/
def Linked (m : Heap) (a b : ℕ) : Prop := nextOf m a = some b ∧ prevOf m b = some a

/-- The ring of `head` and the elements `xs`. -/
structure IsRing (m : Heap) (head : ℕ) (xs : List ℕ) : Prop where
  nodup : (head :: xs).Nodup
  ne_null : ∀ p ∈ head :: xs, p ≠ 0
  chain : (head :: (xs ++ [head])).IsChain (Linked m)

/-- A chain depends on the links to the next cell of all but its last cell, and on the links to the
previous one of all but its first. -/
theorem chain_congr : ∀ {c : List ℕ}, (∀ a ∈ c.dropLast, nextOf m' a = nextOf m a) →
    (∀ b ∈ c.tail, prevOf m' b = prevOf m b) → c.IsChain (Linked m) → c.IsChain (Linked m')
  | [], _, _, _ => List.IsChain.nil
  | [a], _, _, _ => List.IsChain.singleton a
  | a :: b :: c, hn, hp, h => by
      obtain ⟨⟨hab, hba⟩, hc⟩ := List.isChain_cons_cons.mp h
      refine List.isChain_cons_cons.mpr ⟨⟨?_, ?_⟩, chain_congr (fun x hx => ?_) (fun x hx => ?_) hc⟩
      · rw [hn a List.mem_cons_self, hab]
      · rw [hp b List.mem_cons_self, hba]
      · exact hn x (List.mem_cons_of_mem _ hx)
      · exact hp x (List.mem_cons_of_mem _ hx)

theorem mem_cons_of_mem_concat {head : ℕ} {xs : List ℕ} (hp : p ∈ xs ++ [head]) :
    p ∈ head :: xs := by
  obtain hp | hp := List.mem_append.mp hp
  · exact List.mem_cons_of_mem _ hp
  · rw [List.mem_singleton.mp hp]
    exact List.mem_cons_self

/-- **Frame rule.** -/
theorem IsRing.congr {head : ℕ} {xs : List ℕ} (h : IsRing m head xs)
    (heq : ∀ p ∈ head :: xs, m' p = m p) : IsRing m' head xs := by
  refine ⟨h.nodup, h.ne_null, chain_congr (fun a ha => ?_) (fun b hb => ?_) h.chain⟩
  · have ha : a ∈ head :: xs := by
      rwa [← List.cons_append, List.dropLast_concat] at ha
    rw [nextOf, nextOf, heq a ha]
  · rw [prevOf, prevOf, heq b (mem_cons_of_mem_concat hb)]

/-- A place in a ring: between the cells `prev` and `next`, behind the elements `l` and in front of
`r`. -/
structure Place (head : ℕ) (l r : List ℕ) (prev next : ℕ) : Prop where
  prev : prev ∈ (head :: l).getLast?
  next : next ∈ (r ++ [head]).head?

theorem exists_place (head : ℕ) (l r : List ℕ) : ∃ prev next, Place head l r prev next := by
  refine ⟨(head :: l).getLast (List.cons_ne_nil _ _), (r ++ [head]).head (by simp), ?_, ?_⟩
  · exact List.getLast?_eq_some_getLast (List.cons_ne_nil _ _)
  · exact List.head?_eq_some_head _

section place

variable {head e prev next : ℕ} {l r : List ℕ}

theorem Place.prev_mem (h : Place head l r prev next) : prev ∈ head :: l := List.mem_of_getLast? h.prev

theorem Place.next_mem (h : Place head l r prev next) : next ∈ r ++ [head] := List.mem_of_head? h.next

/-- The neighbours of a cell that is not in the ring are other cells. -/
theorem Place.ne (h : Place head l r prev next) (he : e ∉ head :: (l ++ r)) :
    prev ≠ e ∧ next ≠ e := by
  constructor
  · rintro rfl
    obtain hmem | hmem := List.mem_cons.mp h.prev_mem
    · exact he (hmem ▸ List.mem_cons_self)
    · exact he (List.mem_cons_of_mem _ (List.mem_append_left _ hmem))
  · rintro rfl
    obtain hmem | hmem := List.mem_append.mp h.next_mem
    · exact he (List.mem_cons_of_mem _ (List.mem_append_right _ hmem))
    · exact he (List.mem_singleton.mp hmem ▸ List.mem_cons_self)

theorem perm_cons_middle (head e : ℕ) (l r : List ℕ) :
    (head :: (l ++ e :: r)).Perm (e :: head :: (l ++ r)) :=
  (List.perm_middle.cons head).trans (List.Perm.swap e head _)

theorem ring_append (head : ℕ) (l r : List ℕ) :
    head :: (l ++ r ++ [head]) = (head :: l) ++ (r ++ [head]) :=
  congrArg (List.cons head) (List.append_assoc l r [head])

/-- The chains on both sides of a place, and the link between them. -/
theorem IsRing.split (h : IsRing m head (l ++ r)) :
    (head :: l).IsChain (Linked m) ∧ (r ++ [head]).IsChain (Linked m) ∧
      ∀ x ∈ (head :: l).getLast?, ∀ y ∈ (r ++ [head]).head?, Linked m x y :=
  List.isChain_append.mp (ring_append head l r ▸ h.chain)

/-- An element is in one place only. -/
theorem IsRing.not_mem (h : IsRing m head (l ++ e :: r)) : e ∉ head :: (l ++ r) :=
  (List.nodup_cons.mp ((perm_cons_middle head e l r).nodup_iff.mp h.nodup)).1

/-- The cell in front of a place is the last of its side only. -/
theorem Place.prev_not_mem (h : Place head l r prev next) (hnodup : (head :: (l ++ r)).Nodup) :
    prev ∉ (head :: l).dropLast ∧ prev ∉ r := by
  rw [← List.cons_append, ← List.dropLast_append_getLast? prev h.prev, List.append_assoc] at hnodup
  obtain ⟨-, hr, hdisj⟩ := List.nodup_append.mp hnodup
  exact ⟨fun hmem => hdisj prev hmem prev List.mem_cons_self rfl, (List.nodup_cons.mp hr).1⟩

/-- The cell behind a place is the first of its side only. -/
theorem Place.next_not_mem (h : Place head l r prev next) (hnodup : (head :: (l ++ r)).Nodup) :
    next ∉ (r ++ [head]).tail ∧ next ∉ l := by
  have hperm : (head :: (l ++ r)).Perm (l ++ (r ++ [head])) := by
    rw [← List.append_assoc]
    exact (List.perm_append_singleton head (l ++ r)).symm
  have hnodup' := hperm.nodup_iff.mp hnodup
  rw [← List.cons_head?_tail h.next] at hnodup'
  obtain ⟨-, hr, hdisj⟩ := List.nodup_append.mp hnodup'
  exact ⟨(List.nodup_cons.mp hr).1, fun hmem => hdisj next hmem next List.mem_cons_self rfl⟩

/-- Changes at a place do not touch the chains beside it. -/
theorem Place.chains (h : Place head l r prev next) (hnodup : (head :: (l ++ r)).Nodup)
    (he : e ∉ head :: (l ++ r)) (hn : ∀ p, p ≠ e → p ≠ prev → nextOf m' p = nextOf m p)
    (hp : ∀ p, p ≠ e → p ≠ next → prevOf m' p = prevOf m p)
    (hl : (head :: l).IsChain (Linked m)) (hr : (r ++ [head]).IsChain (Linked m)) :
    (head :: l).IsChain (Linked m') ∧ (r ++ [head]).IsChain (Linked m') := by
  obtain ⟨hprevl, hprevr⟩ := h.prev_not_mem hnodup
  obtain ⟨hnextr, hnextl⟩ := h.next_not_mem hnodup
  have hel : ∀ p ∈ head :: l, p ≠ e := by
    rintro p hmem rfl
    exact he (((List.sublist_append_left l r).cons_cons head).subset hmem)
  have her : ∀ p ∈ r ++ [head], p ≠ e := by
    rintro p hmem rfl
    exact he (((List.sublist_append_right l r).cons_cons head).subset
      (mem_cons_of_mem_concat hmem))
  constructor
  · refine chain_congr (fun a ha => ?_) (fun b hb => ?_) hl
    · exact hn a (hel a (List.dropLast_subset _ ha)) (fun heq => hprevl (heq ▸ ha))
    · exact hp b (hel b (List.mem_cons_of_mem _ hb)) (fun heq => hnextl (heq ▸ hb))
  · refine chain_congr (fun a ha => ?_) (fun b hb => ?_) hr
    · rw [List.dropLast_concat] at ha
      exact hn a (her a (List.mem_append_left _ ha)) (fun heq => hprevr (heq ▸ ha))
    · exact hp b (her b (List.mem_of_mem_tail hb)) (fun heq => hnextr (heq ▸ hb))

/-- **Insertion.**  Linking a new cell between two neighbours puts it at this place. -/
theorem IsRing.insert (h : IsRing m head (l ++ r)) (hplace : Place head l r prev next)
    (he : e ∉ head :: (l ++ r)) (h0 : e ≠ 0)
    (hn : ∀ p, nextOf m' p =
      if p = e then some next else if p = prev then some e else nextOf m p)
    (hp : ∀ p, prevOf m' p =
      if p = next then some e else if p = e then some prev else prevOf m p) :
    IsRing m' head (l ++ e :: r) := by
  obtain ⟨hl, hr, -⟩ := h.split
  obtain ⟨hl', hr'⟩ : (head :: l).IsChain (Linked m') ∧ (r ++ [head]).IsChain (Linked m') :=
    hplace.chains h.nodup he (fun p h₁ h₂ => by rw [hn, if_neg h₁, if_neg h₂])
      (fun p h₁ h₂ => by rw [hp, if_neg h₂, if_neg h₁]) hl hr
  obtain ⟨hprev, hnext⟩ := hplace.ne he
  refine ⟨?_, ?_, ?_⟩
  · exact (perm_cons_middle head e l r).nodup_iff.mpr (List.nodup_cons.mpr ⟨he, h.nodup⟩)
  · intro p hmem
    obtain rfl | hmem := List.mem_cons.mp ((perm_cons_middle head e l r).mem_iff.mp hmem)
    · exact h0
    · exact h.ne_null p hmem
  · rw [ring_append]
    refine List.isChain_append.mpr ⟨hl', List.isChain_cons.mpr ⟨fun y hy => ?_, hr'⟩, ?_⟩
    · obtain rfl : next = y := Option.some.inj (hplace.next.symm.trans hy)
      exact ⟨by rw [hn, if_pos rfl], by rw [hp, if_pos rfl]⟩
    · intro x hx y hy
      obtain rfl : prev = x := Option.some.inj (hplace.prev.symm.trans hx)
      obtain rfl : e = y := Option.some.inj hy
      exact ⟨by rw [hn, if_neg hprev, if_pos rfl], by rw [hp, if_neg hnext.symm, if_pos rfl]⟩

/-- The cells beside a place are linked. -/
theorem IsRing.linked (h : IsRing m head (l ++ r)) (hplace : Place head l r prev next) :
    Linked m prev next := h.split.2.2 prev hplace.prev next hplace.next

/-- The links of an element lead to its neighbours. -/
theorem IsRing.neighbours (h : IsRing m head (l ++ e :: r)) (hplace : Place head l r prev next) :
    Linked m prev e ∧ Linked m e next := by
  obtain ⟨-, hr, hlink⟩ := h.split
  exact ⟨hlink prev hplace.prev e rfl, (List.isChain_cons.mp hr).1 next hplace.next⟩

/-- **Removal.**  Linking the neighbours of an element with each other takes it out. -/
theorem IsRing.remove (h : IsRing m head (l ++ e :: r)) (hplace : Place head l r prev next)
    (hn : ∀ p, p ≠ e → nextOf m' p = if p = prev then some next else nextOf m p)
    (hp : ∀ p, p ≠ e → prevOf m' p = if p = next then some prev else prevOf m p) :
    IsRing m' head (l ++ r) := by
  have hperm := perm_cons_middle head e l r
  obtain ⟨he, hnodup⟩ := List.nodup_cons.mp (hperm.nodup_iff.mp h.nodup)
  obtain ⟨hl, hr, -⟩ := h.split
  obtain ⟨hl', hr'⟩ : (head :: l).IsChain (Linked m') ∧ (r ++ [head]).IsChain (Linked m') :=
    hplace.chains hnodup he (fun p h₁ h₂ => by rw [hn p h₁, if_neg h₂])
      (fun p h₁ h₂ => by rw [hp p h₁, if_neg h₂]) hl (List.isChain_cons.mp hr).2
  obtain ⟨hprev, hnext⟩ := hplace.ne he
  refine ⟨hnodup, fun p hmem => h.ne_null p (hperm.mem_iff.mpr (List.mem_cons_of_mem _ hmem)), ?_⟩
  rw [ring_append]
  refine List.isChain_append.mpr ⟨hl', hr', fun x hx y hy => ?_⟩
  obtain rfl : prev = x := Option.some.inj (hplace.prev.symm.trans hx)
  obtain rfl : next = y := Option.some.inj (hplace.next.symm.trans hy)
  exact ⟨by rw [hn prev hprev, if_pos rfl], by rw [hp next hnext, if_pos rfl]⟩

end place

/-- The cells of a ring are allocated. -/
theorem IsRing.isSome {head : ℕ} {xs : List ℕ} (h : IsRing m head xs) (hp : p ∈ head :: xs) :
    (m p).isSome := by
  obtain rfl | hp := List.mem_cons.mp hp
  · obtain ⟨prev, next, hplace⟩ := exists_place p xs []
    obtain rfl : p = next := Option.some.inj hplace.next
    have h' : IsRing m p (xs ++ []) := by rwa [List.append_nil]
    exact isSome_of_prevOf (h'.linked hplace).2
  · obtain ⟨l, r, rfl⟩ := List.append_of_mem hp
    obtain ⟨prev, next, hplace⟩ := exists_place head l r
    exact isSome_of_prevOf (h.neighbours hplace).1.2

/-! ### Following the links -/

/-- The cells from `p` on, following `f` until it comes to `stop`. -/
def walk (f : ℕ → Option ℕ) (stop : ℕ) : ℕ → ℕ → Option (List ℕ)
  | fuel, p =>
      if p = stop then some []
      else
        match fuel with
        | 0 => none
        | fuel + 1 => (f p).bind (fun q => (walk f stop fuel q).map (fun xs => p :: xs))

theorem walk_stop (f : ℕ → Option ℕ) (stop fuel : ℕ) : walk f stop fuel stop = some [] := by
  cases fuel <;> exact if_pos rfl

/-- A walk along a chain that ends with the cell at which it stops. -/
theorem walk_chain {f : ℕ → Option ℕ} {stop : ℕ} : ∀ {xs : List ℕ} {fuel p : ℕ},
    (p :: (xs ++ [stop])).IsChain (fun a b => f a = some b) → stop ∉ p :: xs →
      xs.length < fuel → walk f stop fuel p = some (p :: xs)
  | [], fuel + 1, p, hc, hs, _ => by
      have hp : p ≠ stop := fun heq => hs (heq ▸ List.mem_cons_self)
      have hf : f p = some stop := (List.isChain_cons_cons.mp hc).1
      rw [walk, if_neg hp]
      simp only [hf, Option.bind_some, walk_stop, Option.map_some]
  | x :: xs, fuel + 1, p, hc, hs, hfuel => by
      have hp : p ≠ stop := fun heq => hs (heq ▸ List.mem_cons_self)
      obtain ⟨hf, hrest⟩ := List.isChain_cons_cons.mp hc
      have ih := walk_chain hrest (fun hmem => hs (List.mem_cons_of_mem _ hmem))
        (Nat.lt_of_succ_lt_succ hfuel)
      rw [walk, if_neg hp]
      simp only [hf, Option.bind_some, ih, Option.map_some]

/-- A walk around a cycle. -/
theorem walk_cycle {f : ℕ → Option ℕ} {head : ℕ} {xs : List ℕ} {fuel : ℕ}
    (hc : (head :: (xs ++ [head])).IsChain (fun a b => f a = some b)) (hs : head ∉ xs)
    (hfuel : xs.length ≤ fuel) : (f head).bind (walk f head fuel) = some xs := by
  cases xs with
  | nil =>
      rw [show f head = some head from (List.isChain_cons_cons.mp hc).1, Option.bind_some,
        walk_stop]
  | cons x xs =>
      obtain ⟨hf, hrest⟩ := List.isChain_cons_cons.mp hc
      rw [hf, Option.bind_some]
      exact walk_chain hrest hs hfuel

section walk

variable {head : ℕ} {xs : List ℕ} {fuel : ℕ}

/-- The elements, following the links to the next cell. -/
theorem IsRing.walk_next (h : IsRing m head xs) (hfuel : xs.length ≤ fuel) :
    (nextOf m head).bind (walk (nextOf m) head fuel) = some xs :=
  walk_cycle (h.chain.imp (fun _ _ hl => hl.1)) (List.nodup_cons.mp h.nodup).1 hfuel

/-- The elements backwards, following the links to the previous cell. -/
theorem IsRing.walk_prev (h : IsRing m head xs) (hfuel : xs.length ≤ fuel) :
    (prevOf m head).bind (walk (prevOf m) head fuel) = some xs.reverse := by
  have hrev : head :: (xs.reverse ++ [head]) = (head :: (xs ++ [head])).reverse := by simp
  refine walk_cycle ?_ (fun hmem => (List.nodup_cons.mp h.nodup).1 (List.mem_reverse.mp hmem))
    (by rwa [List.length_reverse])
  rw [hrev, List.isChain_reverse]
  exact h.chain.imp (fun _ _ hl => hl.2)

end walk

end LinkedRing
