import GeoSvr.Bytes

/-! # Accesses to memory

A `Traced` computation yields a value and the blocks of memory it read or wrote, in order.  It is
a writer monad, so a C function is written down in `do` notation with one primitive for each
access, and `val` is what the function computes.

`Confined lo n t` says that every access of `t` lies in the block of `n` bytes from `lo`.  It is
compositional: `confined_bind` splits it along the program. -/

namespace Access

open Bytes

/-- A block of memory: its address and its length. -/
structure Span where
  addr : ℕ
  len : ℕ
deriving DecidableEq, Repr

/-- The span lies in the block of `n` bytes from `lo`; an empty one touches nothing. -/
def Span.Inside (lo n : ℕ) (s : Span) : Prop := s.len = 0 ∨ lo ≤ s.addr ∧ s.addr + s.len ≤ lo + n

instance (lo n : ℕ) (s : Span) : Decidable (s.Inside lo n) := inferInstanceAs (Decidable (_ ∨ _))

/-- A value, and the accesses made for it. -/
structure Traced (α : Type) where
  val : α
  log : List Span

instance : Monad Traced where
  pure a := ⟨a, []⟩
  bind t f := ⟨(f t.val).val, t.log ++ (f t.val).log⟩

variable {α β : Type}

@[simp] theorem pure_val (a : α) : (pure a : Traced α).val = a := rfl
@[simp] theorem bind_val (t : Traced α) (f : α → Traced β) : (t >>= f).val = (f t.val).val := rfl
@[simp] theorem bind_log (t : Traced α) (f : α → Traced β) :
    (t >>= f).log = t.log ++ (f t.val).log := rfl

@[simp] theorem ite_val (c : Prop) [Decidable c] (t t' : Traced α) :
    (if c then t else t').val = if c then t.val else t'.val := apply_ite Traced.val c t t'

/-! ### Primitives -/

/-- Reading a byte. -/
def readU8 (m : Mem) (a : ℕ) : Traced UInt8 := ⟨m a, [⟨a, 1⟩]⟩

/-- Storing a byte. -/
def writeU8 (m : Mem) (a : ℕ) (v : UInt8) : Traced Mem := ⟨write m a [v], [⟨a, 1⟩]⟩

/-- Reading a host-order word. -/
def readU32 (m : Mem) (a : ℕ) : Traced UInt32 := ⟨u32 m a, [⟨a, 4⟩]⟩

/-- Reading a host-order half word. -/
def readU16 (m : Mem) (a : ℕ) : Traced UInt16 := ⟨u16 m a, [⟨a, 2⟩]⟩

/-- Reading a network-order half word. -/
def readBe16 (m : Mem) (a : ℕ) : Traced UInt16 := ⟨be16 m a, [⟨a, 2⟩]⟩

/-- Storing a network-order half word. -/
def writeBe16 (m : Mem) (a : ℕ) (v : UInt16) : Traced Mem := ⟨setBe16 m a v, [⟨a, 2⟩]⟩

/-- Reading the `n` bytes from `a` for the value `v`. -/
def readBlock (a n : ℕ) (v : α) : Traced α := ⟨v, [⟨a, n⟩]⟩

/-- Reading the string at an address byte by byte, up to its NUL byte; `n` bytes from there are
accessible, and the access behind them fails. -/
def readString (m : Mem) : ℕ → ℕ → Traced (List UInt8)
  | 0, a => do
      let _ ← readU8 m a
      return []
  | n + 1, a => do
      let b ← readU8 m a
      if b = 0 then
        return [b]
      else
        let rest ← readString m n (a + 1)
        return b :: rest

/-- `memmove(dst, src, n)`. -/
def move (m : Mem) (dst src n : ℕ) : Traced Mem := ⟨memmove m dst src n, [⟨src, n⟩, ⟨dst, n⟩]⟩

@[simp] theorem readU8_val (m : Mem) (a : ℕ) : (readU8 m a).val = m a := rfl
@[simp] theorem writeU8_val (m : Mem) (a : ℕ) (v : UInt8) : (writeU8 m a v).val = write m a [v] :=
  rfl
@[simp] theorem readU16_val (m : Mem) (a : ℕ) : (readU16 m a).val = u16 m a := rfl
@[simp] theorem readU32_val (m : Mem) (a : ℕ) : (readU32 m a).val = u32 m a := rfl
@[simp] theorem readBlock_val (a n : ℕ) (v : α) : (readBlock a n v).val = v := rfl

/-! ### Confinement -/

/-- Every access lies in the block. -/
def Confined (lo n : ℕ) (t : Traced α) : Prop := ∀ s ∈ t.log, s.Inside lo n

instance (lo n : ℕ) (t : Traced α) : Decidable (Confined lo n t) :=
  inferInstanceAs (Decidable (∀ s ∈ t.log, _))

variable {lo n : ℕ}

@[simp] theorem confined_pure (a : α) : Confined lo n (pure a : Traced α) ↔ True :=
  iff_true_intro (fun _ h => absurd h List.not_mem_nil)

@[simp] theorem confined_bind {t : Traced α} {f : α → Traced β} :
    Confined lo n (t >>= f) ↔ Confined lo n t ∧ Confined lo n (f t.val) := by
  unfold Confined
  rw [bind_log]
  exact List.forall_mem_append

@[simp] theorem confined_ite {c : Prop} [Decidable c] {t t' : Traced α} :
    Confined lo n (if c then t else t') ↔ if c then Confined lo n t else Confined lo n t' := by
  split_ifs <;> rfl

/-- One access that is not empty. -/
theorem confined_single {v : α} {a len : ℕ} (h : 0 < len) :
    Confined lo n (⟨v, [⟨a, len⟩]⟩ : Traced α) ↔ lo ≤ a ∧ a + len ≤ lo + n := by
  unfold Confined Span.Inside
  simp only [List.mem_singleton, forall_eq]
  omega

theorem confined_readU8 {m : Mem} {a : ℕ} :
    Confined lo n (readU8 m a) ↔ lo ≤ a ∧ a + 1 ≤ lo + n :=
  confined_single (by omega)

theorem confined_writeU8 {m : Mem} {a : ℕ} {v : UInt8} :
    Confined lo n (writeU8 m a v) ↔ lo ≤ a ∧ a + 1 ≤ lo + n :=
  confined_single (by omega)

theorem confined_readU16 {m : Mem} {a : ℕ} :
    Confined lo n (readU16 m a) ↔ lo ≤ a ∧ a + 2 ≤ lo + n :=
  confined_single (by omega)

theorem confined_readU32 {m : Mem} {a : ℕ} :
    Confined lo n (readU32 m a) ↔ lo ≤ a ∧ a + 4 ≤ lo + n :=
  confined_single (by omega)

theorem confined_readBlock {a len : ℕ} {v : α} (h : 0 < len) :
    Confined lo n (readBlock a len v) ↔ lo ≤ a ∧ a + len ≤ lo + n :=
  confined_single h

/-- A block that may be empty. -/
theorem confined_readBlock_iff {a len : ℕ} {v : α} :
    Confined lo n (readBlock a len v) ↔ (⟨a, len⟩ : Span).Inside lo n := by
  unfold Confined
  exact List.forall_mem_singleton

/-- A string is read inside the block when it ends there: among the `k` bytes from its start to the
end of the block. -/
theorem confined_readString {m : Mem} : ∀ {k n' a : ℕ}, lo ≤ a → a + k = lo + n → k ≤ n' →
    (Confined lo n (readString m n' a) ↔ 0 ∈ bytes m a k)
  | 0, n', a, _, hend, _ => by
      have hout : ¬ Confined lo n (readU8 m a) := by
        rw [confined_readU8]
        omega
      refine iff_of_false (fun h => hout ?_) (by simp [bytes])
      cases n' with
      | zero => exact (confined_bind.mp h).1
      | succ n' => exact (confined_bind.mp h).1
  | k + 1, 0, _, _, _, hk => absurd hk (Nat.not_succ_le_zero k)
  | k + 1, n' + 1, a, hlo, hend, hk => by
      have hhere : Confined lo n (readU8 m a) := by
        rw [confined_readU8]
        omega
      have ih := @confined_readString m k n' (a + 1) (by omega) (by omega) (by omega)
      have hval : (readU8 m a).val = m a := rfl
      rw [readString, confined_bind, confined_ite, bytes_succ, List.mem_cons, hval]
      by_cases hzero : m a = 0
      · rw [if_pos hzero, confined_pure]
        exact iff_of_true ⟨hhere, trivial⟩ (Or.inl hzero.symm)
      · rw [if_neg hzero, confined_bind, confined_pure, ih]
        simp only [hhere, true_and, and_true]
        exact (or_iff_right (fun h => hzero h.symm)).symm

/-- A copy whose source ends behind the block is not confined. -/
theorem not_confined_move {m : Mem} {dst src len : ℕ} (h : 0 < len) (hsrc : lo + n < src + len) :
    ¬ Confined lo n (move m dst src len) := by
  intro hc
  have hspan := hc ⟨src, len⟩ List.mem_cons_self
  unfold Span.Inside at hspan
  simp only at hspan
  omega

end Access
