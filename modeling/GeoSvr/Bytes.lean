import Mathlib.Data.List.GetD
import Mathlib.Tactic.SplitIfs
import Mathlib.Tactic.Ring

/-! # Byte memory

Memory is an unbounded array of bytes, `Mem := ℕ → UInt8`.  Blocks are copied and filled as C
copies and fills them: `memmove` reads the whole source before it writes, so that overlapping
blocks are allowed.  A C structure is accessed field by field: `u32`/`setU32` are host-order
(little-endian) words, `be16`/`setBe16` are network-order half words.

`bytes m a n` is the list of the `n` bytes from address `a`; equality of blocks is stated with
it and proved pointwise (`bytes_congr`). -/

namespace Bytes

/-- Memory: an unbounded array of bytes. -/
abbrev Mem := ℕ → UInt8

/-! ### Blocks -/

/-- The `n` bytes from address `a`. -/
def bytes (m : Mem) (a n : ℕ) : List UInt8 := (List.range n).map (fun i => m (a + i))

@[simp] theorem bytes_length (m : Mem) (a n : ℕ) : (bytes m a n).length = n := by simp [bytes]

@[simp] theorem bytes_getElem (m : Mem) (a n i : ℕ) (h : i < (bytes m a n).length) :
    (bytes m a n)[i] = m (a + i) := by simp [bytes]

theorem bytes_congr {m m' : Mem} {a a' n : ℕ} (h : ∀ i, i < n → m (a + i) = m' (a' + i)) :
    bytes m a n = bytes m' a' n := by
  apply List.ext_getElem (by simp)
  intro i h₁ _
  rw [bytes_length] at h₁
  simpa using h i h₁

theorem bytes_succ (m : Mem) (a n : ℕ) : bytes m a (n + 1) = m a :: bytes m (a + 1) n := by
  rw [bytes, List.range_succ_eq_map, List.map_cons, List.map_map, Nat.add_zero]
  refine congrArg (m a :: ·) (List.map_congr_left (fun i _ => ?_))
  show m (a + (i + 1)) = m (a + 1 + i)
  congr 1
  omega

/-- Writing the bytes `bs` at address `a`. -/
def write (m : Mem) (a : ℕ) (bs : List UInt8) : Mem := fun x =>
  if a ≤ x ∧ x < a + bs.length then bs.getD (x - a) 0 else m x

theorem write_outside (m : Mem) {a x : ℕ} {bs : List UInt8} (h : x < a ∨ a + bs.length ≤ x) :
    write m a bs x = m x := by
  unfold write
  rw [if_neg (by omega)]

theorem write_inside (m : Mem) {a i : ℕ} {bs : List UInt8} (h : i < bs.length) :
    write m a bs (a + i) = bs[i] := by
  unfold write
  rw [if_pos (by omega), Nat.add_sub_cancel_left, List.getD_eq_getElem _ _ h]

theorem bytes_write (m : Mem) (a : ℕ) (bs : List UInt8) :
    bytes (write m a bs) a bs.length = bs := by
  apply List.ext_getElem (by simp)
  intro i h₁ h₂
  rw [bytes_getElem, write_inside m h₂]

theorem bytes_append (m : Mem) (a n k : ℕ) :
    bytes m a (n + k) = bytes m a n ++ bytes m (a + n) k := by
  unfold bytes
  rw [List.range_add, List.map_append, List.map_map]
  refine congrArg (_ ++ ·) (List.map_congr_left (fun i _ => ?_))
  simp [Nat.add_assoc]

theorem bytes_take (m : Mem) {a n k : ℕ} (h : k ≤ n) : (bytes m a n).take k = bytes m a k := by
  obtain ⟨l, rfl⟩ := Nat.exists_eq_add_of_le h
  rw [bytes_append, List.take_left' (bytes_length m a k)]

theorem bytes_drop (m : Mem) (a : ℕ) {n k : ℕ} (h : k ≤ n) :
    (bytes m a n).drop k = bytes m (a + k) (n - k) := by
  obtain ⟨l, rfl⟩ := Nat.exists_eq_add_of_le h
  rw [bytes_append, List.drop_left' (bytes_length m a k), Nat.add_sub_cancel_left]

theorem bytes_write_bytes (m m' : Mem) (a b n : ℕ) :
    bytes (write m b (bytes m' a n)) b n = bytes m' a n := by
  have h := bytes_write m b (bytes m' a n)
  rwa [bytes_length] at h

/-- Memories that agree on a block. -/
theorem eq_of_bytes {m m' : Mem} {a a' n : ℕ} (h : bytes m a n = bytes m' a' n) {i : ℕ}
    (hi : i < n) : m (a + i) = m' (a' + i) := by
  have hget := congrArg (fun l => l[i]?) h
  simpa [bytes, hi] using hget

theorem eq_of_bytes_zero {m m' : Mem} {n : ℕ} (h : bytes m 0 n = bytes m' 0 n) {i : ℕ}
    (hi : i < n) : m i = m' i := by
  have h := eq_of_bytes h hi
  rwa [Nat.zero_add] at h

/-- Two blocks, one behind the other. -/
theorem write_append (m : Mem) (a : ℕ) (bs cs : List UInt8) :
    write m a (bs ++ cs) = write (write m a bs) (a + bs.length) cs := by
  funext x
  unfold write
  by_cases hx : x < a + bs.length
  · rw [if_neg (show ¬ (a + bs.length ≤ x ∧ x < a + bs.length + cs.length) by omega)]
    by_cases ha : a ≤ x
    · rw [if_pos ⟨ha, by rw [List.length_append]; omega⟩, if_pos ⟨ha, hx⟩,
        List.getD_append _ _ _ _ (by omega)]
    · rw [if_neg (fun h => ha h.1), if_neg (fun h => ha h.1)]
  · rw [if_neg (show ¬ (a ≤ x ∧ x < a + bs.length) by omega), List.length_append]
    by_cases hin : x < a + (bs.length + cs.length)
    · rw [if_pos (by omega), if_pos (by omega), List.getD_append_right _ _ _ _ (by omega),
        Nat.sub_sub]
    · rw [if_neg (by omega), if_neg (by omega)]

/-- `memset(a, c, n)`. -/
def memset (m : Mem) (a : ℕ) (c : UInt8) (n : ℕ) : Mem := fun x =>
  if a ≤ x ∧ x < a + n then c else m x

theorem memset_outside (m : Mem) {a x n : ℕ} (c : UInt8) (h : x < a ∨ a + n ≤ x) :
    memset m a c n x = m x := by
  unfold memset
  rw [if_neg (by omega)]

/-- `memmove(dst, src, n)`: the source is read before anything is written. -/
def memmove (m : Mem) (dst src n : ℕ) : Mem := fun x =>
  if dst ≤ x ∧ x < dst + n then m (src + (x - dst)) else m x

theorem memmove_outside (m : Mem) {dst x n : ℕ} (src : ℕ) (h : x < dst ∨ dst + n ≤ x) :
    memmove m dst src n x = m x := by
  unfold memmove
  rw [if_neg (by omega)]

theorem memmove_inside (m : Mem) (dst src : ℕ) {i n : ℕ} (h : i < n) :
    memmove m dst src n (dst + i) = m (src + i) := by
  unfold memmove
  rw [if_pos (by omega), Nat.add_sub_cancel_left]

theorem memmove_self (m : Mem) (a n : ℕ) : memmove m a a n = m := by
  funext x
  unfold memmove
  split_ifs with h
  · congr 1
    omega
  · rfl

/-! ### Words -/

/-- The four bytes of a word, least significant first. -/
def le32 (x : UInt32) : List UInt8 :=
  [.ofNat x.toNat, .ofNat (x.toNat / 256), .ofNat (x.toNat / 65536), .ofNat (x.toNat / 16777216)]

@[simp] theorem le32_length (x : UInt32) : (le32 x).length = 4 := rfl

/-- The host-order word at address `a`. -/
def u32 (m : Mem) (a : ℕ) : UInt32 :=
  .ofNat ((m a).toNat + 256 * (m (a + 1)).toNat + 65536 * (m (a + 2)).toNat +
    16777216 * (m (a + 3)).toNat)

/-- Storing a host-order word. -/
def setU32 (m : Mem) (a : ℕ) (x : UInt32) : Mem := write m a (le32 x)

theorem u32_congr {m m' : Mem} {a a' : ℕ} (h : ∀ i, i < 4 → m (a + i) = m' (a' + i)) :
    u32 m a = u32 m' a' := by
  unfold u32
  have h0 := h 0 (by omega)
  rw [Nat.add_zero, Nat.add_zero] at h0
  rw [h0, h 1 (by omega), h 2 (by omega), h 3 (by omega)]

theorem u32_setU32 (m : Mem) (a : ℕ) (x : UInt32) : u32 (setU32 m a x) a = x := by
  have h0 : setU32 m a x a = .ofNat x.toNat := by
    simpa [setU32, le32] using @write_inside m a 0 (le32 x) (by simp)
  have h1 : setU32 m a x (a + 1) = .ofNat (x.toNat / 256) := write_inside m (by simp)
  have h2 : setU32 m a x (a + 2) = .ofNat (x.toNat / 65536) := write_inside m (by simp)
  have h3 : setU32 m a x (a + 3) = .ofNat (x.toNat / 16777216) := write_inside m (by simp)
  unfold u32
  rw [h0, h1, h2, h3]
  apply UInt32.toNat_inj.mp
  have hx := x.toNat_lt
  simp only [UInt8.toNat_ofNat', UInt32.toNat_ofNat']
  omega

theorem u32_write (m : Mem) {a b : ℕ} {bs : List UInt8} (h : a + 4 ≤ b ∨ b + bs.length ≤ a) :
    u32 (write m b bs) a = u32 m a :=
  u32_congr (fun i hi => write_outside m (by omega))

/-- The two bytes of a host-order half word. -/
def le16 (x : UInt16) : List UInt8 := [.ofNat x.toNat, .ofNat (x.toNat / 256)]

@[simp] theorem le16_length (x : UInt16) : (le16 x).length = 2 := rfl

/-- The host-order half word at address `a`. -/
def u16 (m : Mem) (a : ℕ) : UInt16 := .ofNat ((m a).toNat + 256 * (m (a + 1)).toNat)

/-- Storing a host-order half word. -/
def setU16 (m : Mem) (a : ℕ) (x : UInt16) : Mem := write m a (le16 x)

theorem u16_setU16 (m : Mem) (a : ℕ) (x : UInt16) : u16 (setU16 m a x) a = x := by
  have h0 : setU16 m a x a = .ofNat x.toNat := by
    simpa [setU16, le16] using @write_inside m a 0 (le16 x) (by simp)
  have h1 : setU16 m a x (a + 1) = .ofNat (x.toNat / 256) := write_inside m (by simp)
  unfold u16
  rw [h0, h1]
  apply UInt16.toNat_inj.mp
  have hx := x.toNat_lt
  simp only [UInt8.toNat_ofNat', UInt16.toNat_ofNat']
  omega

theorem u16_congr {m m' : Mem} {a a' : ℕ} (h : ∀ i, i < 2 → m (a + i) = m' (a' + i)) :
    u16 m a = u16 m' a' := by
  unfold u16
  have h0 := h 0 (by omega)
  rw [Nat.add_zero, Nat.add_zero] at h0
  rw [h0, h 1 (by omega)]

theorem u16_write (m : Mem) {a b : ℕ} {bs : List UInt8} (h : a + 2 ≤ b ∨ b + bs.length ≤ a) :
    u16 (write m b bs) a = u16 m a := by
  unfold u16
  rw [write_outside m (by omega), write_outside m (by omega)]

/-- Storing one byte. -/
def setU8 (m : Mem) (a : ℕ) (x : UInt8) : Mem := write m a [x]

theorem setU8_same (m : Mem) (a : ℕ) (x : UInt8) : setU8 m a x a = x := by
  simpa [setU8] using @write_inside m a 0 [x] (by simp)

/-- The network-order half word at address `a`. -/
def be16 (m : Mem) (a : ℕ) : UInt16 := .ofNat (256 * (m a).toNat + (m (a + 1)).toNat)

/-- The two bytes of a half word in network order. -/
def be16Bytes (x : UInt16) : List UInt8 := [.ofNat (x.toNat / 256), .ofNat x.toNat]

/-- Storing a network-order half word. -/
def setBe16 (m : Mem) (a : ℕ) (x : UInt16) : Mem := write m a (be16Bytes x)

theorem setBe16_fst (m : Mem) (a : ℕ) (x : UInt16) :
    setBe16 m a x a = .ofNat (x.toNat / 256) := by
  simpa [setBe16, be16Bytes] using
    @write_inside m a 0 (be16Bytes x) (by simp [be16Bytes])

theorem setBe16_snd (m : Mem) (a : ℕ) (x : UInt16) :
    setBe16 m a x (a + 1) = .ofNat x.toNat :=
  write_inside m (by simp [be16Bytes])

theorem be16_setBe16 (m : Mem) (a : ℕ) (x : UInt16) : be16 (setBe16 m a x) a = x := by
  unfold be16
  rw [setBe16_fst, setBe16_snd]
  apply UInt16.toNat_inj.mp
  have hx := x.toNat_lt
  simp only [UInt8.toNat_ofNat', UInt16.toNat_ofNat']
  omega

theorem setBe16_outside (m : Mem) {a x : ℕ} (v : UInt16) (h : x < a ∨ a + 2 ≤ x) :
    setBe16 m a v x = m x :=
  write_outside m (by simpa [be16Bytes] using h)

theorem setBe16_be16 (m : Mem) (a : ℕ) : setBe16 m a (be16 m a) = m := by
  have h₀ := (m a).toNat_lt
  have h₁ := (m (a + 1)).toNat_lt
  funext x
  by_cases h : x < a ∨ a + 2 ≤ x
  · exact setBe16_outside m _ h
  · obtain rfl | rfl : x = a ∨ x = a + 1 := by omega
    · rw [setBe16_fst]
      apply UInt8.toNat_inj.mp
      simp only [be16, UInt8.toNat_ofNat', UInt16.toNat_ofNat']
      omega
    · rw [setBe16_snd]
      apply UInt8.toNat_inj.mp
      simp only [be16, UInt8.toNat_ofNat', UInt16.toNat_ofNat']
      omega

theorem setBe16_setBe16 (m : Mem) (a : ℕ) (v w : UInt16) :
    setBe16 (setBe16 m a v) a w = setBe16 m a w := by
  funext x
  by_cases h : x < a ∨ a + 2 ≤ x
  · rw [setBe16_outside _ _ h, setBe16_outside _ _ h, setBe16_outside _ _ h]
  · obtain rfl | rfl : x = a ∨ x = a + 1 := by omega
    · rw [setBe16_fst, setBe16_fst]
    · rw [setBe16_snd, setBe16_snd]

theorem be16_congr {m m' : Mem} {a a' : ℕ} (h₀ : m a = m' a') (h₁ : m (a + 1) = m' (a' + 1)) :
    be16 m a = be16 m' a' := by
  unfold be16
  rw [h₀, h₁]

/-- A half word determines its two bytes. -/
theorem be16_inj {m m' : Mem} {a a' : ℕ} (h : be16 m a = be16 m' a') :
    m a = m' a' ∧ m (a + 1) = m' (a' + 1) := by
  have h' := congrArg UInt16.toNat h
  simp only [be16, UInt16.toNat_ofNat'] at h'
  have := (m a).toNat_lt
  have := (m (a + 1)).toNat_lt
  have := (m' a').toNat_lt
  have := (m' (a' + 1)).toNat_lt
  constructor <;> apply UInt8.toNat_inj.mp <;> omega

end Bytes
