import GeoSvr.Access

/-! # Attributes in a message

A message ends in attributes: each has a header of four bytes, with the length of header and payload
and the type, then the payload; the next attribute begins at the next multiple of four.  A reader
goes from one to the next as long as the length in the header is at least four and not more than
what is left (`forEach`), a writer puts one more behind the last.

* `Holds m a b xs`: from `a` on the memory has the attributes `xs`, the last of which ends at `b`.
  What is written behind them is one more (`Holds.append`).
* The reader finds these (`forEach_val`), and whatever the memory has, it does not leave the bytes
  that it was given (`confined_forEach`). -/

namespace Attributes

open Bytes Access

/-! ### Attributes -/

structure Attr where
  type : UInt16
  payload : List UInt8
deriving DecidableEq, Repr

/-- The length of header and payload. -/
def Attr.size (x : Attr) : ℕ := 4 + x.payload.length

/-- An attribute as it is written. -/
def Attr.bytes (x : Attr) : List UInt8 := le16 (.ofNat x.size) ++ le16 x.type ++ x.payload

@[simp] theorem Attr.bytes_length (x : Attr) : x.bytes.length = x.size := by
  simp [Attr.bytes, Attr.size]
  omega

/-- The next multiple of four. -/
def align (len : ℕ) : ℕ := (len + 3) / 4 * 4

theorem le_align (len : ℕ) : len ≤ align len ∧ align len < len + 4 := by
  unfold align
  omega

theorem align_add {a : ℕ} (h : align a = a) (len : ℕ) : align (a + len) = a + align len := by
  unfold align at *
  omega

theorem align_align (len : ℕ) : align (align len) = align len := by
  unfold align
  omega

/-! ### Attributes in memory -/

/-- The attribute is at `p`. -/
structure At (m : Mem) (p : ℕ) (x : Attr) : Prop where
  bytes : Bytes.bytes m p x.size = x.bytes
  short : x.size < 2 ^ 16

theorem At.write (m : Mem) (p : ℕ) {x : Attr} (h : x.size < 2 ^ 16) :
    At (Bytes.write m p x.bytes) p x := by
  have hw := bytes_write m p x.bytes
  rw [Attr.bytes_length] at hw
  exact ⟨hw, h⟩

theorem At.congr {m m' : Mem} {p : ℕ} {x : Attr} (h : At m p x)
    (heq : ∀ i, p ≤ i → i < p + x.size → m i = m' i) : At m' p x := by
  refine ⟨?_, h.short⟩
  rw [← h.bytes]
  exact bytes_congr (fun i hi => (heq _ (by omega) (by omega)).symm)

/-- What is read is what was written. -/
theorem At.eq_write {m : Mem} {p : ℕ} {x : Attr} (h : At m p x) {i : ℕ} (hi : i < x.size) :
    m (p + i) = Bytes.write m p x.bytes (p + i) :=
  eq_of_bytes (h.bytes.trans (At.write m p h.short).bytes.symm) hi

theorem At.length {m : Mem} {p : ℕ} {x : Attr} (h : At m p x) : (u16 m p).toNat = x.size := by
  have hsize : 4 ≤ x.size := Nat.le_add_right 4 _
  have hread : u16 m p = .ofNat x.size := by
    rw [u16_congr (fun i hi => h.eq_write (show i < x.size by omega)), Attr.bytes,
      List.append_assoc, write_append, u16_write _ (by simp)]
    exact u16_setU16 m p _
  rw [hread, UInt16.toNat_ofNat_of_lt' h.short]

theorem At.type {m : Mem} {p : ℕ} {x : Attr} (h : At m p x) : u16 m (p + 2) = x.type := by
  have hread : u16 m (p + 2) = u16 (Bytes.write m p x.bytes) (p + 2) :=
    u16_congr (fun i hi => by
      rw [Nat.add_assoc]
      exact h.eq_write (by unfold Attr.size; omega))
  rw [hread, Attr.bytes, List.append_assoc, write_append, write_append, u16_write _ (by simp)]
  exact u16_setU16 _ _ _

theorem At.payload {m : Mem} {p : ℕ} {x : Attr} (h : At m p x) :
    Bytes.bytes m (p + 4) x.payload.length = x.payload := by
  have hall := h.bytes
  rw [Attr.size, bytes_append, Attr.bytes] at hall
  exact (List.append_inj hall (by simp)).2

/-- From `a` on the memory has the attributes `xs`, the last of which ends at `b`. -/
def Holds (m : Mem) : ℕ → ℕ → List Attr → Prop
  | a, b, [] => a = align b
  | a, b, x :: xs => At m a x ∧ a + x.size ≤ b ∧ Holds m (a + align x.size) b xs

theorem Holds.congr {m m' : Mem} {b : ℕ} : ∀ {a : ℕ} {xs : List Attr}, Holds m a b xs →
    (∀ i, a ≤ i → i < b → m i = m' i) → Holds m' a b xs
  | _, [], h, _ => h
  | a, x :: xs, ⟨hat, hle, hrest⟩, heq => by
      refine ⟨hat.congr (fun i hi hlt => heq i hi (by omega)), hle, hrest.congr ?_⟩
      intro i hi
      exact heq i (by omega)

/-- One more attribute behind the last. -/
theorem Holds.append {m : Mem} {b : ℕ} {x : Attr} (hat : At m (align b) x) :
    ∀ {a : ℕ} {xs : List Attr}, Holds m a b xs → Holds m a (align b + x.size) (xs ++ [x])
  | a, [], h => by
      cases h
      refine ⟨hat, le_rfl, ?_⟩
      show _ = align (align b + x.size)
      rw [align_add (align_align b)]
  | a, y :: ys, ⟨hy, hle, hrest⟩ => by
      have hb := le_align b
      exact ⟨hy, by omega, hrest.append hat⟩

/-- The attributes are written one behind the other when no payload needs padding. -/
theorem holds_of_bytes {m : Mem} : ∀ {a : ℕ} {xs : List Attr}, align a = a →
    (∀ x ∈ xs, x.size < 2 ^ 16 ∧ align x.size = x.size) →
    Bytes.bytes m a (xs.flatMap Attr.bytes).length = xs.flatMap Attr.bytes →
    Holds m a (a + (xs.flatMap Attr.bytes).length) xs
  | a, [], ha, _, _ => ha.symm
  | a, x :: xs, ha, hxs, h => by
      obtain ⟨hshort, halign⟩ := hxs x List.mem_cons_self
      rw [List.flatMap_cons, List.length_append, Attr.bytes_length, bytes_append] at h
      obtain ⟨hfirst, hrest⟩ := List.append_inj h (by simp)
      have hnext : align (a + x.size) = a + x.size := by rw [align_add ha, halign]
      have ih := holds_of_bytes hnext (fun y hy => hxs y (List.mem_cons_of_mem _ hy)) hrest
      rw [List.flatMap_cons, List.length_append, Attr.bytes_length]
      refine ⟨⟨hfirst, hshort⟩, by omega, ?_⟩
      rw [halign, ← Nat.add_assoc]
      exact ih

/-! ### Reading -/

section reading

variable {α : Type} (m : Mem) (body : ℕ → Traced α)

/-- `RTA_OK`: there is an attribute in the `len` bytes from `rta`. -/
def ok (rta : ℕ) (len : ℤ) : Traced Bool :=
  if len < 4 then return false
  else do
    let rtaLen ← readU16 m rta
    return decide (4 ≤ rtaLen.toNat ∧ (rtaLen.toNat : ℤ) ≤ len)

/-- `for ( ; RTA_OK(rta, len); rta = RTA_NEXT(rta, len))`, with no more than `n` iterations. -/
def forEach : ℕ → ℕ → ℤ → Traced (List α)
  | 0, _, _ => return []
  | n + 1, rta, len => do
      let more ← ok m rta len
      if more then
        let x ← body rta
        let rtaLen ← readU16 m rta
        let xs ← forEach n (rta + align rtaLen.toNat) (len - align rtaLen.toNat)
        return x :: xs
      else
        return []

variable {m body}

theorem ok_val {rta : ℕ} {len : ℤ} : (ok m rta len).val = true ↔
    4 ≤ (u16 m rta).toNat ∧ ((u16 m rta).toNat : ℤ) ≤ len := by
  unfold ok
  by_cases h : len < 4
  · rw [if_pos h, pure_val]
    exact iff_of_false Bool.false_ne_true (fun hok => by omega)
  · rw [if_neg h, bind_val, pure_val, readU16_val, decide_eq_true_iff]

/-- The attributes that are in the memory are found. -/
theorem forEach_val {f : Attr → α} (hbody : ∀ p x, At m p x → (body p).val = f x) {b : ℕ} :
    ∀ {n a : ℕ} {xs : List Attr}, Holds m a b xs → b ≤ a + n →
      (forEach m body n a ((b : ℤ) - a)).val = xs.map f
  | 0, a, [], _, _ => rfl
  | 0, a, x :: xs, ⟨_, hle, _⟩, hb => by
      have hsize : 4 ≤ x.size := Nat.le_add_right 4 _
      omega
  | n + 1, a, [], h, _ => by
      have hend : a = align b := h
      have hb := le_align b
      have hok : (ok m a ((b : ℤ) - a)).val = false :=
        Bool.eq_false_iff.mpr (fun hok => by have := ok_val.mp hok; omega)
      rw [forEach, bind_val, hok]
      rfl
  | n + 1, a, x :: xs, ⟨hat, hle, hrest⟩, hb => by
      have hsize : 4 ≤ x.size := Nat.le_add_right 4 _
      have halign := le_align x.size
      have hok : (ok m a ((b : ℤ) - a)).val = true := ok_val.mpr (by rw [hat.length]; omega)
      have ih := forEach_val hbody (n := n) hrest (by omega)
      have hnext : (b : ℤ) - a - align x.size = (b : ℤ) - (a + align x.size : ℕ) := by omega
      rw [forEach, bind_val, hok, if_pos rfl, bind_val, bind_val, bind_val, pure_val, readU16_val,
        hat.length, hnext, ih, hbody a x hat, List.map_cons]

/-- The loop stays in the bytes that it was given. -/
theorem confined_forEach {lo size : ℕ}
    (hbody : ∀ p, 4 ≤ (u16 m p).toNat → lo ≤ p → p + (u16 m p).toNat ≤ lo + size →
      Confined lo size (body p)) :
    ∀ {n a : ℕ} {len : ℤ}, lo ≤ a → (a : ℤ) + len ≤ lo + size →
      Confined lo size (forEach m body n a len)
  | 0, _, _, _, _ => (confined_pure _).mpr trivial
  | n + 1, a, len, hlo, hend => by
      have hok : Confined lo size (ok m a len) := by
        unfold ok
        rw [confined_ite]
        split_ifs
        · exact (confined_pure _).mpr trivial
        · exact confined_bind.mpr ⟨confined_readU16.mpr (by omega), (confined_pure _).mpr trivial⟩
      rw [forEach]
      refine confined_bind.mpr ⟨hok, ?_⟩
      cases hmore : (ok m a len).val with
      | false => exact (confined_pure _).mpr trivial
      | true =>
          obtain ⟨hfour, hlen⟩ := ok_val.mp hmore
          have halign := le_align (u16 m a).toNat
          rw [if_pos rfl]
          refine confined_bind.mpr ⟨hbody a hfour hlo (by omega), confined_bind.mpr
            ⟨confined_readU16.mpr (by omega), confined_bind.mpr ⟨?_, (confined_pure _).mpr trivial⟩⟩⟩
          rw [readU16_val]
          exact confined_forEach hbody (by omega) (by omega)

end reading

end Attributes
