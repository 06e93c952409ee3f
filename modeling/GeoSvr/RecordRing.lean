import GeoSvr.LinkedRing
import Mathlib.Tactic.SplitIfs

/-! # Rings of records, and loops over them

The elements of a ring are usually the first fields of records.  `HoldsRecords` says which records
a ring has, in their order, when the other fields of the cells are a second map.

`foreach` and `foreachSafe` are the two loops over a ring: they follow the links to the next cell
until they come back to the head, and their body may change a state that contains the heap, or
return.  The second one reads the successor of an element before the body runs, so that the body
may take the element out.  `foreach_rule` and `foreachSafe_rule` are their invariant rules: the
invariant names the elements that were kept and those that are still to come, and implies that
together they are the ring.  `foreachSafe_records` and `foreach_search` are the cases of a loop that
keeps some of the records, and of a search.

`Blocks` says that the allocated cells are those of some disjoint blocks, and `Blocks.replace` what
a change of one of them leaves of this. -/

namespace LinkedRing

/-! ### Records -/

/-- The ring of `head` has the elements `xs`, and these are the records `rs`. -/
structure HoldsRecords {α : Type*} (m : Heap) (data : ℕ → Option α) (head : ℕ) (xs : List ℕ)
    (rs : List α) : Prop where
  ring : IsRing m head xs
  data : xs.map data = rs.map some

section records

variable {α : Type*} {m m' : Heap} {data data' : ℕ → Option α} {head e : ℕ} {xs : List ℕ}
  {rs : List α} {r : α}

theorem HoldsRecords.length (h : HoldsRecords m data head xs rs) : xs.length = rs.length := by
  have := congrArg List.length h.data
  rwa [List.length_map, List.length_map] at this

/-- **Frame rule.** -/
theorem HoldsRecords.congr (h : HoldsRecords m data head xs rs)
    (hm : ∀ p ∈ head :: xs, m' p = m p) (hdata : ∀ p ∈ xs, data' p = data p) :
    HoldsRecords m' data' head xs rs :=
  ⟨h.ring.congr hm, by rw [← h.data]; exact List.map_congr_left hdata⟩

theorem holdsRecords_nil (h : IsRing m head []) (data : ℕ → Option α) :
    HoldsRecords m data head [] [] := ⟨h, rfl⟩

/-- Every element is a record. -/
theorem HoldsRecords.of_mem (h : HoldsRecords m data head xs rs) (he : e ∈ xs) :
    ∃ r ∈ rs, data e = some r := by
  have hmem : data e ∈ rs.map some := by
    rw [← h.data]
    exact List.mem_map_of_mem he
  obtain ⟨r, hr, heq⟩ := List.mem_map.mp hmem
  exact ⟨r, hr, heq.symm⟩

/-- An element and its record, found from the records in front of it. -/
theorem HoldsRecords.element {l t : List ℕ} {ls rest : List α}
    (h : HoldsRecords m data head (l ++ e :: t) (ls ++ rest)) (hl : l.length = ls.length) :
    ∃ x ts, rest = x :: ts ∧ data e = some x ∧ l.map data = ls.map some ∧
      t.map data = ts.map some := by
  have hdata := h.data
  rw [List.map_append, List.map_append] at hdata
  obtain ⟨hfront, hback⟩ := List.append_inj hdata (by simpa using hl)
  cases rest with
  | nil => cases hback
  | cons x ts =>
      obtain ⟨hx, hts⟩ := List.cons.inj hback
      exact ⟨x, ts, rfl, hx, hfront, hts⟩

section edit

variable {l t : List ℕ} {ls ts : List α} {x x' : α}

/-- The records when an element has been taken out. -/
theorem HoldsRecords.remove (h : HoldsRecords m data head (l ++ e :: t) (ls ++ x :: ts))
    (hl : l.length = ls.length) (hring : IsRing m' head (l ++ t))
    (hdata : ∀ p, p ≠ e → data' p = data p) : HoldsRecords m' data' head (l ++ t) (ls ++ ts) := by
  obtain ⟨x', ts', hts, -, hfront, hback⟩ := h.element hl
  cases hts
  have he : e ∉ l ++ t := fun hmem => h.ring.not_mem (List.mem_cons_of_mem _ hmem)
  refine ⟨hring, ?_⟩
  calc (l ++ t).map data' = (l ++ t).map data :=
        List.map_congr_left (fun p hp => hdata p (fun heq => he (heq ▸ hp)))
    _ = (ls ++ ts).map some := by rw [List.map_append, List.map_append, hfront, hback]

/-- The records when a new element has been linked in. -/
theorem HoldsRecords.insert (h : HoldsRecords m data head (l ++ t) (ls ++ ts))
    (hl : l.length = ls.length) (hring : IsRing m' head (l ++ e :: t)) (hx : data' e = some x)
    (hdata : ∀ p, p ≠ e → data' p = data p) :
    HoldsRecords m' data' head (l ++ e :: t) (ls ++ x :: ts) := by
  have he : e ∉ l ++ t := fun hmem => hring.not_mem (List.mem_cons_of_mem _ hmem)
  have hsame : ∀ p ∈ l ++ t, data' p = data p := fun p hp => hdata p (fun heq => he (heq ▸ hp))
  have hall := h.data
  rw [List.map_append, List.map_append] at hall
  obtain ⟨hfront, hback⟩ := List.append_inj hall (by simpa using hl)
  refine ⟨hring, ?_⟩
  rw [List.map_append, List.map_append, List.map_cons, List.map_cons, hx, ← hfront, ← hback,
    List.map_congr_left (fun p hp => hsame p (List.mem_append_left _ hp)),
    List.map_congr_left (fun p hp => hsame p (List.mem_append_right _ hp))]

/-- The records when the fields of one have been written. -/
theorem HoldsRecords.update (h : HoldsRecords m data head (l ++ e :: t) (ls ++ x :: ts))
    (hl : l.length = ls.length) :
    HoldsRecords m (Function.update data e (some x')) head (l ++ e :: t) (ls ++ x' :: ts) := by
  obtain ⟨_, _, hts, -, hfront, hback⟩ := h.element hl
  cases hts
  have he : e ∉ l ++ t := fun hmem => h.ring.not_mem (List.mem_cons_of_mem _ hmem)
  have hsame : ∀ p ∈ l ++ t, Function.update data e (some x') p = data p := by
    intro p hp
    have hne : p ≠ e := fun heq => he (heq ▸ hp)
    rw [Function.update_of_ne hne]
  refine ⟨h.ring, ?_⟩
  rw [List.map_append, List.map_append, List.map_cons, List.map_cons, Function.update_self,
    ← hfront, ← hback, List.map_congr_left (fun p hp => hsame p (List.mem_append_left _ hp)),
    List.map_congr_left (fun p hp => hsame p (List.mem_append_right _ hp))]

end edit

end records

/-! ### Loops -/

/-- What a body or a loop comes to: it returns a value, or it goes on to its end. -/
inductive Exit (σ β : Type*)
  | returned (b : β) (s : σ)
  | ended (s : σ)

variable {σ β : Type*}

/-- What is done when the body does not return. -/
def andThen : Option (Exit σ β) → (σ → Option (Exit σ β)) → Option (Exit σ β)
  | none, _ => none
  | some (.returned b s), _ => some (.returned b s)
  | some (.ended s), k => k s

/-- It comes to its end with `P`, or returns with `Q`. -/
def Ends (P : σ → Prop) (Q : β → σ → Prop) : Option (Exit σ β) → Prop
  | none => False
  | some (.returned b s) => Q b s
  | some (.ended s) => P s

theorem Ends.andThen {P P' : σ → Prop} {Q : β → σ → Prop} {x : Option (Exit σ β)}
    {k : σ → Option (Exit σ β)} (h : Ends P' Q x) (hk : ∀ s, P' s → Ends P Q (k s)) :
    Ends P Q (andThen x k) := by
  cases x with
  | none => exact h.elim
  | some x =>
      cases x with
      | returned b s => exact h
      | ended s => exact hk s h

theorem Ends.mono {P P' : σ → Prop} {Q Q' : β → σ → Prop} {x : Option (Exit σ β)}
    (h : Ends P Q x) (hP : ∀ s, P s → P' s) (hQ : ∀ b s, Q b s → Q' b s) : Ends P' Q' x := by
  cases x with
  | none => exact h
  | some x =>
      cases x with
      | returned b s => exact hQ b s h
      | ended s => exact hP s h

/-- The state in the end. -/
def Exit.state : Exit σ β → σ
  | .returned _ s => s
  | .ended s => s

/-- What was returned. -/
def Exit.value : Exit σ β → Option β
  | .returned b _ => some b
  | .ended _ => none

theorem Ends.cases {P : σ → Prop} {Q : β → σ → Prop} {x : Option (Exit σ β)} (h : Ends P Q x) :
    (∃ s, x = some (.ended s) ∧ P s) ∨ ∃ b s, x = some (.returned b s) ∧ Q b s := by
  cases x with
  | none => exact h.elim
  | some x =>
      cases x with
      | returned b s => exact Or.inr ⟨b, s, rfl, h⟩
      | ended s => exact Or.inl ⟨s, rfl, h⟩

/-- A loop that does not return. -/
theorem Ends.state {P : σ → Prop} {x : Option (Exit σ β)} (h : Ends P (fun _ _ => False) x) :
    ∃ s, x.map Exit.state = some s ∧ P s := by
  obtain ⟨s, rfl, hs⟩ | ⟨b, s, -, hs⟩ := h.cases
  · exact ⟨s, rfl, hs⟩
  · exact hs.elim

section loops

variable (heap : σ → Heap) (head : ℕ) (body : ℕ → σ → Option (Exit σ β))

/-- `for (pos = head->next; pos != head; pos = pos->next)`, from `pos` on. -/
def foreachFrom : ℕ → ℕ → σ → Option (Exit σ β)
  | 0, pos, s => if pos = head then some (.ended s) else none
  | fuel + 1, pos, s =>
      if pos = head then some (.ended s)
      else andThen (body pos s) (fun s' =>
        (nextOf (heap s') pos).bind (fun q => foreachFrom fuel q s'))

def foreach (fuel : ℕ) (s : σ) : Option (Exit σ β) :=
  (nextOf (heap s) head).bind (fun pos => foreachFrom heap head body fuel pos s)

/-- `for (pos = head->next, tmp = pos->next; pos != head; pos = tmp, tmp = pos->next)`, from `pos`
and `tmp` on. -/
def foreachSafeFrom : ℕ → ℕ → ℕ → σ → Option (Exit σ β)
  | 0, pos, _, s => if pos = head then some (.ended s) else none
  | fuel + 1, pos, tmp, s =>
      if pos = head then some (.ended s)
      else andThen (body pos s) (fun s' =>
        (nextOf (heap s') tmp).bind (fun q => foreachSafeFrom fuel tmp q s'))

def foreachSafe (fuel : ℕ) (s : σ) : Option (Exit σ β) :=
  (nextOf (heap s) head).bind (fun pos => (nextOf (heap s) pos).bind (fun tmp =>
    foreachSafeFrom heap head body fuel pos tmp s))

variable {heap head body}

theorem foreachFrom_head (fuel : ℕ) (s : σ) :
    foreachFrom heap head body fuel head s = some (.ended s) := by
  cases fuel <;> exact if_pos rfl

theorem foreachSafeFrom_head (fuel tmp : ℕ) (s : σ) :
    foreachSafeFrom heap head body fuel head tmp s = some (.ended s) := by
  cases fuel <;> exact if_pos rfl

/-- The next cell of an element of a ring. -/
theorem next_of_ring {m : Heap} {l r : List ℕ} {e : ℕ} (h : IsRing m head (l ++ e :: r)) :
    ∃ q, nextOf m e = some q ∧ q ∈ (r ++ [head]).head? := by
  obtain ⟨prev, next, hplace⟩ := exists_place head l r
  exact ⟨next, (h.neighbours hplace).2.1, hplace.next⟩

theorem ne_head_of_ring {m : Heap} {l r : List ℕ} {e : ℕ} (h : IsRing m head (l ++ e :: r)) :
    e ≠ head := by
  rintro rfl
  exact (List.nodup_cons.mp h.nodup).1 (List.mem_append_right l List.mem_cons_self)

variable {J : List ℕ → List ℕ → σ → Prop} {Q : β → σ → Prop}

/-- The loop from an element on: `kept` are behind it, `rest` begins with it. -/
theorem foreachFrom_rule
    (hring : ∀ kept rest s, J kept rest s → IsRing (heap s) head (kept ++ rest))
    (hbody : ∀ kept e rest s, J kept (e :: rest) s →
      Ends (fun s' => J (kept ++ [e]) rest s') Q (body e s)) :
    ∀ (rest : List ℕ) {kept : List ℕ} {fuel pos : ℕ} {s : σ}, J kept rest s →
      pos ∈ (rest ++ [head]).head? → rest.length ≤ fuel →
        Ends (fun s' => J (kept ++ rest) [] s') Q (foreachFrom heap head body fuel pos s)
  | [], kept, fuel, pos, s, hJ, hpos, _ => by
      obtain rfl : head = pos := Option.some.inj hpos
      rw [foreachFrom_head, List.append_nil]
      exact hJ
  | e :: rest, kept, fuel + 1, pos, s, hJ, hpos, hfuel => by
      obtain rfl : e = pos := Option.some.inj hpos
      rw [foreachFrom, if_neg (ne_head_of_ring (hring _ _ _ hJ))]
      refine (hbody kept e rest s hJ).andThen (fun s' hJ' => ?_)
      have hring' : IsRing (heap s') head (kept ++ e :: rest) := by
        have h := hring _ _ _ hJ'
        rwa [List.append_assoc] at h
      obtain ⟨q, hq, hhead⟩ := next_of_ring hring'
      rw [hq, Option.bind_some]
      have ih := foreachFrom_rule hring hbody rest hJ' hhead (Nat.le_of_succ_le_succ hfuel)
      rwa [List.append_assoc] at ih

/-- **Invariant rule** of the loop whose body leaves the ring as it is. -/
theorem foreach_rule (hring : ∀ kept rest s, J kept rest s → IsRing (heap s) head (kept ++ rest))
    (hbody : ∀ kept e rest s, J kept (e :: rest) s →
      Ends (fun s' => J (kept ++ [e]) rest s') Q (body e s))
    {xs : List ℕ} {fuel : ℕ} {s : σ} (hJ : J [] xs s) (hfuel : xs.length ≤ fuel) :
    Ends (fun s' => J xs [] s') Q (foreach heap head body fuel s) := by
  obtain ⟨prev, next, hplace⟩ := exists_place head [] xs
  obtain rfl : head = prev := Option.some.inj hplace.prev
  have hlink := (hring _ _ _ hJ).linked hplace
  unfold foreach
  rw [hlink.1, Option.bind_some]
  exact foreachFrom_rule hring hbody xs hJ hplace.next hfuel

/-- The safe loop from an element on. -/
theorem foreachSafeFrom_rule
    (hring : ∀ kept rest s, J kept rest s → IsRing (heap s) head (kept ++ rest))
    (hbody : ∀ kept e rest s, J kept (e :: rest) s →
      Ends (fun s' => ∃ kept', J kept' rest s') Q (body e s)) :
    ∀ (rest : List ℕ) {kept : List ℕ} {fuel pos tmp : ℕ} {s : σ}, J kept rest s →
      pos ∈ (rest ++ [head]).head? → nextOf (heap s) pos = some tmp → rest.length ≤ fuel →
        Ends (fun s' => ∃ kept', J kept' [] s') Q (foreachSafeFrom heap head body fuel pos tmp s)
  | [], kept, fuel, pos, tmp, s, hJ, hpos, _, _ => by
      obtain rfl : head = pos := Option.some.inj hpos
      rw [foreachSafeFrom_head]
      exact ⟨kept, hJ⟩
  | e :: rest, kept, fuel + 1, pos, tmp, s, hJ, hpos, htmp, hfuel => by
      obtain rfl : e = pos := Option.some.inj hpos
      obtain ⟨q, hq, hhead⟩ := next_of_ring (hring _ _ _ hJ)
      obtain rfl : q = tmp := Option.some.inj (hq.symm.trans htmp)
      rw [foreachSafeFrom, if_neg (ne_head_of_ring (hring _ _ _ hJ))]
      refine (hbody kept e rest s hJ).andThen (fun s' hJ' => ?_)
      obtain ⟨kept', hJ'⟩ := hJ'
      -- the successor that was saved is still a cell of the ring
      have hmem : q ∈ head :: (kept' ++ rest) := by
        have hq' : q ∈ head :: rest := mem_cons_of_mem_concat (List.mem_of_head? hhead)
        exact ((List.sublist_append_right kept' rest).cons_cons head).subset hq'
      obtain ⟨q', hq'⟩ := exists_nextOf ((hring _ _ _ hJ').isSome hmem)
      rw [hq', Option.bind_some]
      exact foreachSafeFrom_rule hring hbody rest hJ' hhead hq' (Nat.le_of_succ_le_succ hfuel)

/-- **Invariant rule** of the safe loop: the body may take its element out. -/
theorem foreachSafe_rule
    (hring : ∀ kept rest s, J kept rest s → IsRing (heap s) head (kept ++ rest))
    (hbody : ∀ kept e rest s, J kept (e :: rest) s →
      Ends (fun s' => ∃ kept', J kept' rest s') Q (body e s))
    {xs : List ℕ} {fuel : ℕ} {s : σ} (hJ : J [] xs s) (hfuel : xs.length ≤ fuel) :
    Ends (fun s' => ∃ kept, J kept [] s') Q (foreachSafe heap head body fuel s) := by
  obtain ⟨prev, next, hplace⟩ := exists_place head [] xs
  obtain rfl : head = prev := Option.some.inj hplace.prev
  have hring₀ := hring _ _ _ hJ
  obtain ⟨tmp, htmp⟩ := exists_nextOf (hring₀.isSome (mem_cons_of_mem_concat hplace.next_mem))
  unfold foreachSafe
  rw [(hring₀.linked hplace).1, Option.bind_some, htmp, Option.bind_some]
  exact foreachSafeFrom_rule hring hbody xs hJ hplace.next htmp hfuel

end loops

/-- A walk does not depend on the fuel that is left. -/
theorem walk_mono {f : ℕ → Option ℕ} {stop : ℕ} : ∀ {k k' p : ℕ} {xs : List ℕ},
    walk f stop k p = some xs → k ≤ k' → walk f stop k' p = some xs
  | k, k', p, xs, h, hle => by
      by_cases hp : p = stop
      · subst hp
        rw [walk_stop] at h ⊢
        exact h
      · cases k with
        | zero =>
            rw [walk, if_neg hp] at h
            cases h
        | succ k =>
            obtain ⟨j, rfl⟩ : ∃ j, k' = j + 1 := ⟨k' - 1, by omega⟩
            rw [walk, if_neg hp] at h ⊢
            obtain ⟨q, hq, hrest⟩ := Option.bind_eq_some_iff.mp h
            obtain ⟨ys, hys, rfl⟩ := Option.map_eq_some_iff.mp hrest
            simp only [hq, Option.bind_some, walk_mono hys (Nat.le_of_succ_le_succ hle),
              Option.map_some]

/-! ### Loops over records -/

section recordLoops

variable {α : Type*} {heap : σ → Heap} {data : σ → ℕ → Option α} {head : ℕ}
  {body : ℕ → σ → Option (Exit σ β)} {Q : β → σ → Prop}

/-- **A loop that keeps some records.**  `R done xs rs` describes the state after the records
`done`: the ring has the elements `xs` and the records `rs`. -/
theorem foreachSafe_records {keep : α → Bool} {R : List α → List ℕ → List α → σ → Prop}
    (hR : ∀ done xs rs s, R done xs rs s → HoldsRecords (heap s) (data s) head xs rs)
    (hbody : ∀ done l e t ls x ts s, R done (l ++ e :: t) (ls ++ x :: ts) s →
      l.length = ls.length → data s e = some x →
      Ends (fun s' => if keep x then R (done ++ [x]) (l ++ e :: t) (ls ++ x :: ts) s'
        else R (done ++ [x]) (l ++ t) (ls ++ ts) s') Q (body e s))
    {xs : List ℕ} {rs : List α} {fuel : ℕ} {s : σ} (h : R [] xs rs s) (hfuel : rs.length ≤ fuel) :
    Ends (fun s' => ∃ xs', R rs xs' (rs.filter keep) s') Q
      (foreachSafe heap head body fuel s) := by
  let J : List ℕ → List ℕ → σ → Prop := fun kept rest s => ∃ done todo, rs = done ++ todo ∧
    kept.length = (done.filter keep).length ∧ R done (kept ++ rest) (done.filter keep ++ todo) s
  have hlength : ∀ kept rest done todo s, kept.length = (done.filter keep).length →
      R done (kept ++ rest) (done.filter keep ++ todo) s → rest.length = todo.length := by
    intro kept rest done todo s hk hr
    have := (hR _ _ _ _ hr).length
    rw [List.length_append, List.length_append] at this
    omega
  have hrule := @foreachSafe_rule σ β heap head body J Q ?_ ?_ xs fuel s
    ⟨[], rs, rfl, rfl, h⟩ (by rwa [(hR _ _ _ _ h).length])
  · refine hrule.mono (fun s' hs' => ?_) (fun b s' hb => hb)
    obtain ⟨kept, done, todo, rfl, hk, hr⟩ := hs'
    have hnil : todo = [] := List.length_eq_zero_iff.mp (hlength kept [] done todo s' hk hr).symm
    rw [hnil, List.append_nil, List.append_nil] at hr
    rw [hnil, List.append_nil]
    exact ⟨kept, hr⟩
  · rintro kept rest s' ⟨done, todo, -, -, hr⟩
    exact (hR _ _ _ _ hr).ring
  · rintro kept e rest s' ⟨done, todo, rfl, hk, hr⟩
    obtain ⟨x, ts, rfl, hx, -, -⟩ := (hR _ _ _ _ hr).element hk
    refine (hbody done kept e rest _ x ts s' hr hk hx).mono (fun s'' hs'' => ?_) (fun _ _ hb => hb)
    cases hkeep : keep x with
    | true =>
        rw [hkeep, if_pos rfl] at hs''
        refine ⟨kept ++ [e], done ++ [x], ts, by simp, by simp [hkeep, hk], ?_⟩
        simpa [hkeep] using hs''
    | false =>
        rw [hkeep] at hs''
        refine ⟨kept, done ++ [x], ts, by simp, by simp [hkeep, hk], ?_⟩
        simpa [hkeep] using hs''

/-- What a search for a record with `test` comes to. -/
def Found (xs : List ℕ) (rs : List α) (test : α → Bool) (val : ℕ → α → β) (b : β) : Prop :=
  ∃ l e t ls x ts, xs = l ++ e :: t ∧ rs = ls ++ x :: ts ∧ l.length = ls.length ∧
    (∀ y ∈ ls, test y = false) ∧ test x = true ∧ b = val e x

/-- The state of a search: the records of the elements that were passed do not have `test`. -/
def Passed (xs : List ℕ) (rs : List α) (test : α → Bool) (s₀ : σ) (kept rest : List ℕ) (s : σ) :
    Prop :=
  s = s₀ ∧ xs = kept ++ rest ∧ ∃ done todo, rs = done ++ todo ∧ kept.length = done.length ∧
    ∀ y ∈ done, test y = false

variable {test : α → Bool} {val : ℕ → α → β} {xs : List ℕ} {rs : List α} {s₀ : σ}

/-- A step of a search. -/
theorem passed_body (h : HoldsRecords (heap s₀) (data s₀) head xs rs)
    (hbody : ∀ e x, data s₀ e = some x →
      body e s₀ = some (if test x then .returned (val e x) s₀ else .ended s₀))
    {kept : List ℕ} {e : ℕ} {rest : List ℕ} {s : σ} (hs : Passed xs rs test s₀ kept (e :: rest) s) :
    Ends (fun s' => Passed xs rs test s₀ (kept ++ [e]) rest s')
      (fun b s' => s' = s₀ ∧ Found xs rs test val b) (body e s) := by
  obtain ⟨rfl, rfl, done, todo, rfl, hk, hdone⟩ := hs
  obtain ⟨x, ts, rfl, hx, -, -⟩ := h.element hk
  rw [hbody e x hx]
  cases htest : test x with
  | true => exact ⟨rfl, kept, e, rest, done, x, ts, rfl, rfl, hk, hdone, htest, rfl⟩
  | false =>
      refine ⟨rfl, by simp, done ++ [x], ts, by simp, by simp [hk], fun y hy => ?_⟩
      obtain hy | hy := List.mem_append.mp hy
      · exact hdone y hy
      · rw [List.mem_singleton.mp hy]
        exact htest

/-- A search that came to the end. -/
theorem Passed.none (h : HoldsRecords (heap s₀) (data s₀) head xs rs) {kept : List ℕ} {s : σ}
    (hs : Passed xs rs test s₀ kept [] s) : s = s₀ ∧ ∀ x ∈ rs, test x = false := by
  obtain ⟨rfl, rfl, done, todo, rfl, hk, hdone⟩ := hs
  have hlen := h.length
  rw [List.append_nil, List.length_append] at hlen
  have hnil : todo = [] := List.length_eq_zero_iff.mp (by omega)
  rw [hnil, List.append_nil]
  exact ⟨rfl, hdone⟩

/-- **A search** finds the first record with `test`, or comes to the end when there is none. -/
theorem foreach_search (h : HoldsRecords (heap s₀) (data s₀) head xs rs)
    (hbody : ∀ e x, data s₀ e = some x →
      body e s₀ = some (if test x then .returned (val e x) s₀ else .ended s₀))
    {fuel : ℕ} (hfuel : rs.length ≤ fuel) :
    Ends (fun s' => s' = s₀ ∧ ∀ x ∈ rs, test x = false)
      (fun b s' => s' = s₀ ∧ Found xs rs test val b) (foreach heap head body fuel s₀) := by
  have hrule := @foreach_rule σ β heap head body (Passed xs rs test s₀)
    (fun b s' => s' = s₀ ∧ Found xs rs test val b)
    (fun kept rest s hs => by obtain ⟨rfl, rfl, -⟩ := hs; exact h.ring)
    (fun kept e rest s hs => passed_body h hbody hs) xs fuel s₀
    ⟨rfl, rfl, [], rs, rfl, rfl, by simp⟩ (by rwa [h.length])
  exact hrule.mono (fun s' hs' => hs'.none h) (fun _ _ hb => hb)

theorem foreachSafe_search (h : HoldsRecords (heap s₀) (data s₀) head xs rs)
    (hbody : ∀ e x, data s₀ e = some x →
      body e s₀ = some (if test x then .returned (val e x) s₀ else .ended s₀))
    {fuel : ℕ} (hfuel : rs.length ≤ fuel) :
    Ends (fun s' => s' = s₀ ∧ ∀ x ∈ rs, test x = false)
      (fun b s' => s' = s₀ ∧ Found xs rs test val b) (foreachSafe heap head body fuel s₀) := by
  have hrule := @foreachSafe_rule σ β heap head body (Passed xs rs test s₀)
    (fun b s' => s' = s₀ ∧ Found xs rs test val b)
    (fun kept rest s hs => by obtain ⟨rfl, rfl, -⟩ := hs; exact h.ring)
    (fun kept e rest s hs => (passed_body h hbody hs).mono (fun s' hs' => ⟨_, hs'⟩)
      (fun _ _ hb => hb)) xs fuel s₀
    ⟨rfl, rfl, [], rs, rfl, rfl, by simp⟩ (by rwa [h.length])
  refine hrule.mono (fun s' hs' => ?_) (fun _ _ hb => hb)
  obtain ⟨kept, hs'⟩ := hs'
  exact hs'.none h

/-- The record that a search finds. -/
theorem Found.find? {b : β} (h : Found xs rs test val b) :
    ∃ e x, rs.find? test = some x ∧ b = val e x := by
  obtain ⟨l, e, t, ls, x, ts, -, rfl, -, hls, hx, rfl⟩ := h
  refine ⟨e, x, ?_, rfl⟩
  rw [List.find?_append, List.find?_eq_none.mpr (fun y hy => by simp [hls y hy]),
    List.find?_cons_of_pos hx]
  rfl

end recordLoops

/-! ### The allocated cells -/

/-- The allocated cells are those of the blocks `bs`. -/
structure Blocks (m : Heap) (bs : List (List ℕ)) : Prop where
  disjoint : bs.Pairwise List.Disjoint
  cells : ∀ p, (m p).isSome ↔ ∃ b ∈ bs, p ∈ b

/-- The block `a` is replaced by `a'`: cells leave it by being freed, and come to it by being
allocated. -/
structure Replaces (m m' : Heap) (a a' : List ℕ) : Prop where
  frame : ∀ p, p ∉ a → p ∉ a' → m' p = m p
  alive : ∀ p ∈ a', (m' p).isSome
  freed : ∀ p ∈ a, p ∉ a' → m' p = none
  fresh : ∀ p ∈ a', p ∈ a ∨ m p = none

section blocks

variable {m m' m'' : Heap} {a a' a'' : List ℕ} {b : List ℕ} {bs bs' : List (List ℕ)}

theorem Blocks.perm (h : Blocks m bs) (hp : bs.Perm bs') : Blocks m bs' :=
  ⟨(hp.pairwise_iff List.disjoint_symm).mp h.disjoint,
    fun p => (h.cells p).trans (exists_congr (fun _ => and_congr_left (fun _ => hp.mem_iff)))⟩

theorem Blocks.notMem (h : Blocks m (a :: bs)) (hr : Replaces m m' a a') (hb : b ∈ bs) {p : ℕ}
    (hp : p ∈ b) : p ∉ a ∧ p ∉ a' := by
  have hout : p ∉ a := fun hpa => (List.pairwise_cons.mp h.disjoint).1 b hb hpa hp
  refine ⟨hout, fun hpa' => ?_⟩
  have hsome := (h.cells p).mpr ⟨b, List.mem_cons_of_mem _ hb, hp⟩
  rw [(hr.fresh p hpa').resolve_left hout] at hsome
  cases hsome

/-- The other blocks are not touched. -/
theorem Blocks.frame (h : Blocks m (a :: bs)) (hr : Replaces m m' a a') (hb : b ∈ bs) {p : ℕ}
    (hp : p ∈ b) : m' p = m p :=
  hr.frame p (h.notMem hr hb hp).1 (h.notMem hr hb hp).2

theorem Blocks.replace (h : Blocks m (a :: bs)) (hr : Replaces m m' a a') :
    Blocks m' (a' :: bs) := by
  obtain ⟨-, hrest⟩ := List.pairwise_cons.mp h.disjoint
  refine ⟨List.pairwise_cons.mpr ⟨fun b hb p hpa' hpb => ?_, hrest⟩, fun p => ?_⟩
  · exact (h.notMem hr hb hpb).2 hpa'
  · constructor
    · intro hsome
      by_cases hpa' : p ∈ a'
      · exact ⟨a', List.mem_cons_self, hpa'⟩
      · have hpa : p ∉ a := by
          intro hpa
          rw [hr.freed p hpa hpa'] at hsome
          cases hsome
        rw [hr.frame p hpa hpa', h.cells] at hsome
        obtain ⟨b, hb, hpb⟩ := hsome
        obtain rfl | hb := List.mem_cons.mp hb
        · exact absurd hpb hpa
        · exact ⟨b, List.mem_cons_of_mem _ hb, hpb⟩
    · rintro ⟨b, hb, hpb⟩
      obtain rfl | hb := List.mem_cons.mp hb
      · exact hr.alive p hpb
      · rw [h.frame hr hb hpb]
        exact (h.cells p).mpr ⟨b, List.mem_cons_of_mem _ hb, hpb⟩

/-- A block falls into two. -/
theorem Blocks.divide (h : Blocks m ((a ++ a') :: bs)) (hnodup : (a ++ a').Nodup) :
    Blocks m (a :: a' :: bs) := by
  obtain ⟨hout, hrest⟩ := List.pairwise_cons.mp h.disjoint
  refine ⟨?_, fun p => ?_⟩
  · refine List.pairwise_cons.mpr ⟨fun b hb => ?_, List.pairwise_cons.mpr
      ⟨fun b hb p hp => hout b hb (List.mem_append_right _ hp), hrest⟩⟩
    obtain rfl | hb := List.mem_cons.mp hb
    · exact List.disjoint_of_nodup_append hnodup
    · exact fun p hp => hout b hb (List.mem_append_left _ hp)
  · rw [h.cells]
    simp only [List.mem_cons, exists_eq_or_imp, List.mem_append, or_assoc]

/-- Taking an element of a ring out and freeing it. -/
theorem replaces_remove {head e : ℕ} {l r : List ℕ} (h : IsRing m head (l ++ e :: r))
    (h' : IsRing m' head (l ++ r)) (he : m' e = none)
    (hframe : ∀ p, p ∉ head :: (l ++ e :: r) → m' p = m p) :
    Replaces m m' (head :: (l ++ e :: r)) (head :: (l ++ r)) := by
  have hperm := perm_cons_middle head e l r
  refine ⟨fun p hp _ => hframe p hp, fun p hp => h'.isSome hp, fun p hp hp' => ?_,
    fun p hp => Or.inl (hperm.mem_iff.mpr (List.mem_cons_of_mem _ hp))⟩
  obtain rfl | hp := List.mem_cons.mp (hperm.mem_iff.mp hp)
  · exact he
  · exact absurd hp hp'

/-- A new cell is not in a ring. -/
theorem alloc_ring {head e : ℕ} {xs : List ℕ} (h : IsRing m head xs) (he : m e = none)
    (cell : Links) : e ∉ head :: xs ∧ IsRing (Function.update m e (some cell)) head xs := by
  have hout : e ∉ head :: xs := by
    intro hmem
    have hsome := h.isSome hmem
    rw [he] at hsome
    cases hsome
  refine ⟨hout, h.congr (fun p hp => ?_)⟩
  have hne : p ≠ e := fun heq => hout (heq ▸ hp)
  rw [Function.update_of_ne hne]

/-- Linking a new cell into a ring. -/
theorem replaces_insert {head e : ℕ} {l r : List ℕ} (he : m e = none)
    (h' : IsRing m' head (l ++ e :: r)) (hframe : ∀ p, p ∉ e :: head :: (l ++ r) → m' p = m p) :
    Replaces m m' (head :: (l ++ r)) (head :: (l ++ e :: r)) := by
  have hperm := perm_cons_middle head e l r
  refine ⟨fun p _ hp' => hframe p (fun hp => hp' (hperm.mem_iff.mpr hp)),
    fun p hp => h'.isSome hp, fun p hp hp' => ?_, fun p hp => ?_⟩
  · exact absurd (hperm.mem_iff.mpr (List.mem_cons_of_mem _ hp)) hp'
  · obtain rfl | hp := List.mem_cons.mp (hperm.mem_iff.mp hp)
    · exact Or.inr he
    · exact Or.inl hp

end blocks

end LinkedRing
