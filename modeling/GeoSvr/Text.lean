import Mathlib.Data.List.TakeWhile
import Mathlib.Tactic.SplitIfs

/-! # Text in C buffers

Integers are printed in decimal (`intDigits`) and scanned as `scanf` scans them with `%d`
(`scanInt`): blanks are skipped, then a sign and the digits are read, and what follows is left.

`items` cuts the string in a buffer at a separator, into its `tokens`.  A string ends with a NUL
byte, and a buffer that has none is read beyond its end: `items` is `none` there.  An empty item at
the end of the string is not an item. -/

namespace Text

/-! ### Decimal numerals -/

/-- `isspace`. -/
def isSpace (c : Char) : Bool := c == ' ' || (9 ≤ c.toNat && c.toNat ≤ 13)

/-- The decimal numeral of an integer. -/
def intDigits : ℤ → List Char
  | .ofNat n => Nat.toDigits 10 n
  | .negSucc n => '-' :: Nat.toDigits 10 (n + 1)

/-- The number at the beginning of a text. -/
def scanNat (s : List Char) : Option ℕ :=
  if s.takeWhile Char.isDigit = [] then none
  else some (Nat.ofDigitChars 10 (s.takeWhile Char.isDigit) 0)

/-- The integer at the beginning of a text, behind blanks. -/
def scanInt (s : List Char) : Option ℤ :=
  match s.dropWhile isSpace with
  | [] => none
  | c :: s =>
      if c = '-' then (scanNat s).map (fun n : ℕ => -(n : ℤ))
      else if c = '+' then (scanNat s).map (fun n : ℕ => (n : ℤ))
      else (scanNat (c :: s)).map (fun n : ℕ => (n : ℤ))

theorem isDigit_iff {c : Char} : c.isDigit = true ↔ 48 ≤ c.toNat ∧ c.toNat ≤ 57 := by
  rw [Char.isDigit, Bool.and_eq_true, decide_eq_true_eq, decide_eq_true_eq, ge_iff_le,
    UInt32.le_iff_toNat_le, UInt32.le_iff_toNat_le]
  rfl

theorem toNat_of_isDigit {c : Char} (h : c.isDigit = true) : 48 ≤ c.toNat ∧ c.toNat ≤ 57 :=
  isDigit_iff.mp h

theorem isDigit_of_mem_toDigits {c : Char} {n : ℕ} (h : c ∈ Nat.toDigits 10 n) :
    c.isDigit = true :=
  Nat.isDigit_of_mem_toDigits (by decide) (by decide) h

theorem intDigits_ne_nil : ∀ i : ℤ, intDigits i ≠ []
  | .ofNat _ => Nat.toDigits_ne_nil
  | .negSucc _ => List.cons_ne_nil _ _

/-- A numeral consists of digits and a minus sign. -/
theorem mem_intDigits {c : Char} : ∀ {i : ℤ}, c ∈ intDigits i → c = '-' ∨ c.isDigit = true
  | .ofNat _, h => Or.inr (isDigit_of_mem_toDigits h)
  | .negSucc _, h => by
      obtain rfl | h := List.mem_cons.mp h
      · exact Or.inl rfl
      · exact Or.inr (isDigit_of_mem_toDigits h)

/-- `t` is a decimal numeral of `i`: digits, perhaps behind a sign. -/
inductive Numeral : List Char → ℤ → Prop
  | digits {ds : List Char} : ds ≠ [] → (∀ c ∈ ds, c.isDigit = true) →
      Numeral ds (Nat.ofDigitChars 10 ds 0 : ℕ)
  | plus {ds : List Char} : ds ≠ [] → (∀ c ∈ ds, c.isDigit = true) →
      Numeral ('+' :: ds) (Nat.ofDigitChars 10 ds 0 : ℕ)
  | minus {ds : List Char} : ds ≠ [] → (∀ c ∈ ds, c.isDigit = true) →
      Numeral ('-' :: ds) (-(Nat.ofDigitChars 10 ds 0 : ℕ))

theorem scanNat_digits {ds : List Char} (hne : ds ≠ []) (hd : ∀ c ∈ ds, c.isDigit = true) :
    scanNat ds = some (Nat.ofDigitChars 10 ds 0) := by
  have htake : ds.takeWhile Char.isDigit = ds := List.takeWhile_eq_self_iff.mpr hd
  rw [scanNat, htake, if_neg hne]

/-- A digit is neither a blank nor a sign. -/
theorem isDigit_ne {c : Char} (h : c.isDigit = true) :
    isSpace c = false ∧ c ≠ '-' ∧ c ≠ '+' := by
  obtain ⟨h₀, h₉⟩ := toNat_of_isDigit h
  refine ⟨?_, ?_, ?_⟩
  · simp only [isSpace, Bool.or_eq_false_iff, beq_eq_false_iff_ne, Bool.and_eq_false_iff,
      decide_eq_false_iff_not]
    refine ⟨?_, Or.inr (by omega)⟩
    rintro rfl
    exact absurd h₀ (by decide)
  · rintro rfl
    exact absurd h₀ (by decide)
  · rintro rfl
    exact absurd h₀ (by decide)

/-- Scanning a numeral gives its value. -/
theorem scanInt_numeral {t : List Char} {i : ℤ} (h : Numeral t i) : scanInt t = some i := by
  cases h with
  | digits hne hd =>
      have hscan := scanNat_digits hne hd
      obtain ⟨c, s, rfl⟩ := List.exists_cons_of_ne_nil hne
      obtain ⟨hspace, hminus, hplus⟩ := isDigit_ne (hd c List.mem_cons_self)
      rw [scanInt, List.dropWhile_cons_of_neg (by simp [hspace])]
      simp only [if_neg hminus, if_neg hplus, hscan, Option.map_some]
  | plus hne hd =>
      rw [scanInt, List.dropWhile_cons_of_neg (by decide)]
      simp only [if_true, scanNat_digits hne hd, Option.map_some]
      rfl
  | minus hne hd =>
      rw [scanInt, List.dropWhile_cons_of_neg (by decide)]
      simp only [if_true, scanNat_digits hne hd, Option.map_some]

theorem numeral_intDigits : ∀ i : ℤ, Numeral (intDigits i) i
  | .ofNat n => by
      have h := Numeral.digits Nat.toDigits_ne_nil (fun c hc => @isDigit_of_mem_toDigits c n hc)
      rwa [Nat.ofDigitChars_ten_toDigits] at h
  | .negSucc n => by
      have h := Numeral.minus Nat.toDigits_ne_nil
        (fun c hc => @isDigit_of_mem_toDigits c (n + 1) hc)
      rwa [Nat.ofDigitChars_ten_toDigits] at h

theorem scanInt_intDigits (i : ℤ) : scanInt (intDigits i) = some i :=
  scanInt_numeral (numeral_intDigits i)

/-- What is scanned from one character. -/
theorem scanInt_singleton {c : Char} {i : ℤ} (h : scanInt [c] = some i) :
    c.isDigit = true ∧ 0 ≤ i ∧ i ≤ 9 := by
  have hdigit : ∀ {i : ℤ}, (scanNat [c]).map (fun n : ℕ => (n : ℤ)) = some i →
      c.isDigit = true ∧ 0 ≤ i ∧ i ≤ 9 := by
    intro i h
    cases hd : c.isDigit with
    | false => simp [scanNat, hd] at h
    | true =>
        obtain ⟨h₀, h₉⟩ := toNat_of_isDigit hd
        have he : ((c.toNat - '0'.toNat : ℕ) : ℤ) = i := by
          simpa [scanNat, hd, Nat.ofDigitChars] using h
        have h0 : '0'.toNat = 48 := rfl
        rw [h0] at he
        exact ⟨rfl, by omega, by omega⟩
  unfold scanInt at h
  cases hs : isSpace c with
  | true =>
      rw [List.dropWhile_cons_of_pos hs] at h
      cases h
  | false =>
      rw [List.dropWhile_cons_of_neg (by simp [hs])] at h
      simp only at h
      split_ifs at h with h₁ h₂
      · cases h
      · cases h
      · exact hdigit h

/-! ### Items -/

/-- The NUL byte that ends a string. -/
def nul : Char := .ofNat 0

/-- The items of the string in a buffer, where `cur` has been read of the first one. -/
def items (sep : Char) : List Char → List Char → Option (List (List Char))
  | _, [] => none
  | cur, c :: cs =>
      if c = nul then some (if cur = [] then [] else [cur])
      else if c = sep then (items sep [] cs).map (cur :: ·)
      else items sep (cur ++ [c]) cs

/-- Items with a separator between them. -/
def join (sep : Char) (l : List (List Char)) : List Char :=
  (l.flatMap (fun s => s ++ [sep])).dropLast

section items

variable {sep : Char}

theorem items_append {x : List Char} (hx : ∀ c ∈ x, c ≠ nul ∧ c ≠ sep) :
    ∀ cur s : List Char, items sep cur (x ++ s) = items sep (cur ++ x) s := by
  induction x with
  | nil => simp
  | cons c x ih =>
      intro cur s
      obtain ⟨hnul, hsep⟩ := hx c List.mem_cons_self
      rw [List.cons_append, items, if_neg hnul, if_neg hsep,
        ih (fun d hd => hx d (List.mem_cons_of_mem _ hd)), List.append_assoc, List.singleton_append]

theorem join_cons_cons (x y : List Char) (l : List (List Char)) :
    join sep (x :: y :: l) = x ++ sep :: join sep (y :: l) := by
  have hne : (y :: l).flatMap (fun s => s ++ [sep]) ≠ [] := by simp
  rw [join, List.flatMap_cons, List.dropLast_append_of_ne_nil hne, List.append_assoc,
    List.singleton_append, join]

/-- Joined items have at least one byte each. -/
theorem length_le_join : ∀ {l : List (List Char)}, (∀ x ∈ l, x ≠ []) → l.length ≤ (join sep l).length
  | [], _ => Nat.zero_le _
  | [x], h => by
      have hpos := List.length_pos_iff.mpr (h x List.mem_cons_self)
      have hjoin : join sep [x] = x := by simp [join]
      rw [hjoin, List.length_singleton]
      omega
  | x :: y :: l, h => by
      have ih := length_le_join (fun z hz => h z (List.mem_cons_of_mem x hz))
      rw [join_cons_cons]
      simp only [List.length_append, List.length_cons] at ih ⊢
      omega

/-- Cutting joined items gives them back. -/
theorem items_join {l : List (List Char)} (hl : l ≠ [])
    (hne : ∀ x ∈ l, x ≠ []) (hx : ∀ x ∈ l, ∀ c ∈ x, c ≠ nul ∧ c ≠ sep) (hsep : sep ≠ nul)
    (rest : List Char) : items sep [] (join sep l ++ nul :: rest) = some l := by
  induction l with
  | nil => exact absurd rfl hl
  | cons x l ih =>
      have hx₀ := hx x List.mem_cons_self
      cases l with
      | nil =>
          have hjoin : join sep [x] = x := by simp [join]
          rw [hjoin, items_append hx₀, List.nil_append, items, if_pos rfl,
            if_neg (hne x List.mem_cons_self)]
      | cons y l =>
          rw [join_cons_cons, List.append_assoc, items_append hx₀, List.nil_append,
            List.cons_append, items, if_neg hsep, if_pos rfl,
            ih (List.cons_ne_nil _ _) (fun z hz => hne z (List.mem_cons_of_mem _ hz))
              (fun z hz => hx z (List.mem_cons_of_mem _ hz)), Option.map_some]

/-- The parts of a text between separators; an empty one at the end is left out. -/
def tokens (sep : Char) (s : List Char) : List (List Char) :=
  if (s.splitOn sep).getLast? = some [] then (s.splitOn sep).dropLast else s.splitOn sep

/-- The items of a string are its tokens, the first of which `cur` has been read of. -/
theorem items_splitOn (hsep : sep ≠ nul) (rest : List Char) :
    ∀ {s cur : List Char}, nul ∉ s →
      items sep cur (s ++ nul :: rest) =
        let l := (s.splitOn sep).modifyHead (cur ++ ·)
        some (if l.getLast? = some [] then l.dropLast else l)
  | [], cur, _ => by
      rw [List.nil_append, items, if_pos rfl]
      by_cases hcur : cur = [] <;> simp [hcur]
  | c :: s, cur, h => by
      obtain ⟨hc, hs⟩ := not_or.mp (fun hm => h (List.mem_cons.mpr hm))
      rw [List.cons_append, items, if_neg (Ne.symm hc), List.splitOn_cons_eq_if_modifyHead]
      by_cases hcs : c = sep
      · have ih := @items_splitOn hsep rest s [] hs
        obtain ⟨x, l, hl⟩ := List.exists_cons_of_ne_nil (List.splitOn_ne_nil sep s)
        rw [if_pos hcs, ih, hl]
        simp only [hcs, beq_self_eq_true, if_true, List.modifyHead_cons, List.nil_append,
          Option.map_some, List.append_nil, List.getLast?_cons_cons, List.dropLast_cons_cons]
        split_ifs <;> rfl
      · have ih := @items_splitOn hsep rest s (cur ++ [c]) hs
        have hb : (c == sep) = false := by simpa using hcs
        obtain ⟨x, l, hl⟩ := List.exists_cons_of_ne_nil (List.splitOn_ne_nil sep s)
        rw [if_neg hcs, ih, hl]
        simp only [hb, Bool.false_eq_true, if_false, List.modifyHead_cons, List.append_assoc,
          List.singleton_append]

theorem items_tokens (hsep : sep ≠ nul) {s : List Char} (h : nul ∉ s) (rest : List Char) :
    items sep [] (s ++ nul :: rest) = some (tokens sep s) := by
  obtain ⟨x, l, hl⟩ := List.exists_cons_of_ne_nil (List.splitOn_ne_nil sep s)
  rw [items_splitOn hsep rest h, tokens, hl]
  rfl

/-- What lies behind the NUL byte does not matter. -/
theorem items_append_of_nul {t : List Char} : ∀ {s cur : List Char}, nul ∈ s →
    items sep cur (s ++ t) = items sep cur s
  | [], _, h => absurd h List.not_mem_nil
  | c :: s, cur, h => by
      rw [List.cons_append, items, items]
      by_cases hc : c = nul
      · rw [if_pos hc, if_pos hc]
      · have hs : nul ∈ s := (List.mem_cons.mp h).resolve_left (fun he => hc he.symm)
        rw [items_append_of_nul hs, items_append_of_nul hs]

/-- A buffer without a NUL byte. -/
theorem items_eq_none : ∀ {s cur : List Char}, nul ∉ s → items sep cur s = none
  | [], _, _ => rfl
  | c :: s, cur, h => by
      obtain ⟨hc, hs⟩ := not_or.mp (fun hm => h (List.mem_cons.mpr hm))
      rw [items, if_neg (Ne.symm hc), items_eq_none hs, items_eq_none hs]
      split_ifs <;> rfl

/-- A string of `n` bytes has at most `n` items. -/
theorem items_length {rest : List Char} : ∀ {s cur : List Char} {l : List (List Char)},
    items sep cur (s ++ nul :: rest) = some l →
      l.length ≤ s.length + (if cur = [] then 0 else 1)
  | [], cur, l, h => by
      rw [List.nil_append, items, if_pos rfl] at h
      cases h
      split_ifs <;> simp
  | c :: s, cur, l, h => by
      rw [List.cons_append, items] at h
      rw [List.length_cons]
      split_ifs at h with hnul hcur hsep
      · cases h
        simp
      · cases h
        simp only [List.length_singleton]
        omega
      · obtain ⟨l', hl', rfl⟩ := Option.map_eq_some_iff.mp h
        have := items_length hl'
        rw [if_pos rfl] at this
        rw [List.length_cons]
        split_ifs <;> omega
      · have := items_length h
        rw [if_neg (by simp)] at this
        split_ifs <;> omega

/-- A string of two bytes or more that does not begin with a separator has fewer items than
bytes. -/
theorem items_length_lt {rest : List Char} {c d : Char} {s : List Char} {l : List (List Char)}
    (hc : c ≠ sep) (h : items sep [] (c :: d :: s ++ nul :: rest) = some l) :
    l.length < s.length + 2 := by
  rw [List.cons_append, items, if_neg hc, if_pos rfl] at h
  split_ifs at h with hnul
  · cases h
    simp
  · rw [List.cons_append, items] at h
    split_ifs at h with hnul' hd' hsep
    · cases h
      simp
    · cases h
      simp
    · obtain ⟨l', hl', rfl⟩ := Option.map_eq_some_iff.mp h
      have := items_length hl'
      rw [if_pos rfl] at this
      rw [List.length_cons]
      omega
    · have := items_length h
      rw [if_neg (by simp)] at this
      omega

end items

end Text
