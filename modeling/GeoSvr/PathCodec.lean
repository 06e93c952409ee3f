import GeoSvr.Access

/-! # The path in a packet of the simulation (`msvr_agent.cc`)

`encode_path` allocates two bytes for each junction id of a path.  The first byte is the number of
bytes behind it that count, and then come the ids with a `','` after each, also after the last: that
one is written behind the end of the block.  `decode_path` reads every other byte behind the first.

A byte is a signed `char`, so an id is reduced to -128 .. 127 and so is the length.  What is decoded
is the path exactly when it has at most 64 ids that fit in a `char` (`decode_encode_iff`); reading
stays inside the block (`confined_decodePath`), and writing never does (`not_confined_encodePath`).

An `int` is an integer here; the index `i` of `encode_path` would overflow at 2^30 ids. -/

namespace GeoSvr.PathCodec

open Access Bytes

/-! ### Characters -/

/-- The `char` that an `int` is converted to. -/
def toChar (x : ℤ) : UInt8 := (Int8.ofInt x).toUInt8

/-- The value of a `char`. -/
def ofChar (b : UInt8) : ℤ := b.toInt8.toInt

theorem ofChar_toChar (x : ℤ) : ofChar (toChar x) = Int.bmod x 256 := by
  rw [ofChar, toChar, Int8.toInt8_toUInt8, Int8.toInt_ofInt]

theorem ofChar_lt (b : UInt8) : ofChar b < 128 := Int8.toInt_lt _

theorem bmod_eq_self_iff (x : ℤ) : Int.bmod x 256 = x ↔ -128 ≤ x ∧ x < 128 := by
  constructor
  · intro h
    rw [← h]
    exact ⟨@Int.le_bmod x 256 (by decide), @Int.bmod_lt x 256 (by decide)⟩
  · rintro ⟨h₀, h₁⟩
    exact Int.bmod_eq_of_le (by omega) (by omega)

/-! ### The functions -/

/-- The separator. -/
def comma : UInt8 := 44

/-- The loop of `encode_path`, from the index `i`. -/
def encodeLoop (enpath : ℕ) : List ℤ → ℕ → Mem → Traced Mem
  | [], _, m => pure m
  | id :: ids, i, m => do
      let m ← writeU8 m (enpath + i) (toChar id)
      let m ← writeU8 m (enpath + (i + 1)) comma
      encodeLoop enpath ids (i + 2) m

/-- `encode_path`, when `malloc` returns `enpath`. -/
def encodePath (m : Mem) (enpath : ℕ) (paths : List ℤ) : Traced Mem := do
  let m ← writeU8 m enpath (toChar (paths.length * 2 - 1))
  encodeLoop enpath paths 1 m

/-- The loop of `decode_path`, from the index `i`, with its number of iterations. -/
def decodeLoop (m : Mem) (enpaths : ℕ) : ℕ → ℕ → Traced (List ℤ)
  | 0, _ => pure []
  | k + 1, i => do
      let b ← readU8 m (enpaths + i)
      let ids ← decodeLoop m enpaths k (i + 2)
      return ofChar b :: ids

/-- How often `for (int i = 1; i <= len; i += 2)` iterates. -/
def iterations (len : ℤ) : ℕ := ((len + 1) / 2).toNat

/-- `decode_path`: what is in `paths` afterwards. -/
def decodePath (m : Mem) (paths : List ℤ) (enpaths : ℕ) : Traced (List ℤ) := do
  let b ← readU8 m enpaths
  let ids ← decodeLoop m enpaths (iterations (ofChar b)) 1
  return paths ++ ids

/-- The numbers for which the loop of `decode_path` has another iteration. -/
theorem lt_iterations_iff (len : ℤ) (j : ℕ) : j < iterations len ↔ (1 + 2 * j : ℤ) ≤ len := by
  unfold iterations
  omega

/-! ### What is written -/

variable {m : Mem} {enpath : ℕ}

theorem encodeLoop_outside : ∀ (ids : List ℤ) {i x : ℕ} {m : Mem},
    x < enpath + i ∨ enpath + i + 2 * ids.length ≤ x →
      (encodeLoop enpath ids i m).val x = m x
  | [], i, x, m, _ => rfl
  | id :: ids, i, x, m, h => by
      rw [List.length_cons] at h
      rw [encodeLoop, bind_val, bind_val, writeU8_val, writeU8_val,
        encodeLoop_outside ids (by omega), write_outside _ (by rw [List.length_singleton]; omega),
        write_outside _ (by rw [List.length_singleton]; omega)]

/-- The id at position `j`. -/
theorem encodeLoop_id : ∀ {ids : List ℤ} {i : ℕ} {m : Mem} {j : ℕ} (h : j < ids.length),
    (encodeLoop enpath ids i m).val (enpath + (i + 2 * j)) = toChar ids[j]
  | id :: ids, i, m, 0, _ => by
      rw [encodeLoop, bind_val, bind_val, writeU8_val, writeU8_val,
        encodeLoop_outside ids (by omega), write_outside _ (by omega)]
      exact @write_inside m (enpath + i) 0 [toChar id] Nat.zero_lt_one
  | id :: ids, i, m, j + 1, h => by
      rw [encodeLoop, bind_val, bind_val,
        show enpath + (i + 2 * (j + 1)) = enpath + (i + 2 + 2 * j) by omega]
      exact encodeLoop_id (Nat.lt_of_succ_lt_succ h)

/-- The first byte. -/
theorem encodePath_first (m : Mem) (enpath : ℕ) (paths : List ℤ) :
    (encodePath m enpath paths).val enpath = toChar (paths.length * 2 - 1) := by
  rw [encodePath, bind_val, writeU8_val, encodeLoop_outside paths (by omega)]
  exact @write_inside m enpath 0 [toChar (paths.length * 2 - 1)] Nat.zero_lt_one

theorem encodePath_id {paths : List ℤ} {j : ℕ} (h : j < paths.length) :
    (encodePath m enpath paths).val (enpath + (1 + 2 * j)) = toChar paths[j] :=
  encodeLoop_id h

/-- The loop writes from the index `i` on two bytes for each id. -/
theorem confined_encodeLoop {lo n : ℕ} : ∀ {ids : List ℤ} {i : ℕ} {m : Mem},
    lo ≤ enpath + i → (Confined lo n (encodeLoop enpath ids i m) ↔
      ids = [] ∨ enpath + i + 2 * ids.length ≤ lo + n)
  | [], i, m, _ => by simp [encodeLoop]
  | id :: ids, i, m, h => by
      rw [encodeLoop, confined_bind, confined_bind, confined_writeU8, confined_writeU8,
        confined_encodeLoop (by omega), List.length_cons]
      by_cases hids : ids = []
      · subst hids
        simp only [List.length_nil, reduceCtorEq, true_or, and_true, false_or]
        omega
      · simp only [hids, reduceCtorEq, false_or]
        omega

/-- **`encode_path` writes one byte too many**: all of `2 * n + 1` bytes, for `n` ids. -/
theorem confined_encodePath_iff {paths : List ℤ} (hne : paths ≠ []) (n : ℕ) :
    Confined enpath n (encodePath m enpath paths) ↔ 2 * paths.length + 1 ≤ n := by
  have hpos := List.length_pos_iff.mpr hne
  rw [encodePath, confined_bind, confined_writeU8, confined_encodeLoop (by omega)]
  simp only [hne, false_or]
  omega

/-! ### What is read -/

theorem decodeLoop_val (m : Mem) (enpaths : ℕ) : ∀ k i : ℕ,
    (decodeLoop m enpaths k i).val =
      (List.range k).map (fun j => ofChar (m (enpaths + (i + 2 * j))))
  | 0, i => rfl
  | k + 1, i => by
      rw [decodeLoop, bind_val, bind_val, pure_val, decodeLoop_val m enpaths k (i + 2),
        List.range_succ_eq_map, List.map_cons, List.map_map, readU8_val]
      refine congrArg₂ List.cons rfl (List.map_congr_left (fun j _ => ?_))
      show ofChar (m (enpaths + (i + 2 + 2 * j))) = ofChar (m (enpaths + (i + 2 * (j + 1))))
      rw [show i + 2 + 2 * j = i + 2 * (j + 1) by omega]

theorem confined_decodeLoop {lo n : ℕ} : ∀ {k i : ℕ},
    lo ≤ enpath + i → enpath + i + 2 * k ≤ lo + n + 1 → Confined lo n (decodeLoop m enpath k i)
  | 0, i, _, _ => by simp [decodeLoop]
  | k + 1, i, h, hend => by
      rw [decodeLoop, confined_bind, confined_readU8, confined_bind]
      refine ⟨by omega, confined_decodeLoop (by omega) (by omega), ?_⟩
      exact confined_pure _ |>.mpr trivial

/-- The length that `decode_path` finds is at most the one that is meant. -/
theorem iterations_le (n : ℕ) : iterations (ofChar (toChar (n * 2 - 1))) ≤ n := by
  have hlt := ofChar_lt (toChar (n * 2 - 1))
  by_contra hgt
  have hmore := (lt_iterations_iff _ n).mp (not_le.mp hgt)
  -- a length of more than `2 * n` would have been stored as it is
  rw [ofChar_toChar] at hlt hmore
  rw [(bmod_eq_self_iff _).mpr (by omega)] at hmore
  omega

theorem iterations_eq_iff {n : ℕ} (hpos : 0 < n) :
    iterations (ofChar (toChar (n * 2 - 1))) = n ↔ n ≤ 64 := by
  constructor
  · intro h
    have hlast := (lt_iterations_iff (ofChar (toChar (n * 2 - 1))) (n - 1)).mp (by omega)
    have hlt := ofChar_lt (toChar (n * 2 - 1))
    omega
  · intro h
    rw [ofChar_toChar, (bmod_eq_self_iff _).mpr (by omega), iterations]
    omega

/-- What `decode_path` finds in the block. -/
theorem decodePath_encodePath (m : Mem) (enpath : ℕ) (paths acc : List ℤ) :
    (decodePath (encodePath m enpath paths).val acc enpath).val =
      acc ++ (paths.take (iterations (ofChar (toChar (paths.length * 2 - 1))))).map
        (fun id => Int.bmod id 256) := by
  rw [decodePath, bind_val, bind_val, pure_val, decodeLoop_val, readU8_val, encodePath_first]
  have hle := iterations_le paths.length
  refine congrArg (acc ++ ·) (List.ext_getElem (by simpa using hle) (fun j h₁ h₂ => ?_))
  rw [List.length_map, List.length_range] at h₁
  rw [List.getElem_map, List.getElem_range, List.getElem_map, List.getElem_take,
    encodePath_id (by omega), ofChar_toChar]

/-- **The round trip**: the path is decoded exactly when it has at most 64 ids that fit in a
`char`. -/
theorem decode_encode_iff (m : Mem) (enpath : ℕ) {paths : List ℤ} (hne : paths ≠ []) :
    (∀ acc, (decodePath (encodePath m enpath paths).val acc enpath).val = acc ++ paths) ↔
      paths.length ≤ 64 ∧ ∀ id ∈ paths, -128 ≤ id ∧ id < 128 := by
  have hpos := List.length_pos_iff.mpr hne
  simp only [decodePath_encodePath, List.append_cancel_left_eq, forall_const]
  have hmap : paths.map (fun id => Int.bmod id 256) = paths ↔
      ∀ id ∈ paths, Int.bmod id 256 = id := by
    have hid := @List.map_inj_left _ _ paths (fun id => Int.bmod id 256) id
    rwa [List.map_id] at hid
  constructor
  · intro h
    have hlen := congrArg List.length h
    rw [List.length_map, List.length_take, Nat.min_eq_left (iterations_le _)] at hlen
    refine ⟨(iterations_eq_iff hpos).mp hlen, fun id hid => ?_⟩
    rw [hlen, List.take_length] at h
    exact (bmod_eq_self_iff id).mp (hmap.mp h id hid)
  · rintro ⟨hlen, hids⟩
    rw [(iterations_eq_iff hpos).mpr hlen, List.take_length]
    exact hmap.mpr (fun id hid => (bmod_eq_self_iff id).mpr (hids id hid))

/-- `decode_path` reads inside the block. -/
theorem confined_decodePath (m : Mem) (enpath : ℕ) {paths : List ℤ} (hne : paths ≠ [])
    (acc : List ℤ) :
    Confined enpath (2 * paths.length)
      (decodePath (encodePath m enpath paths).val acc enpath) := by
  have hpos := List.length_pos_iff.mpr hne
  have hle := iterations_le paths.length
  rw [decodePath, confined_bind, confined_readU8, confined_bind, readU8_val, encodePath_first]
  exact ⟨by omega, confined_decodeLoop (by omega) (by omega), confined_pure _ |>.mpr trivial⟩

/-! ### The codec -/

/-- What the two functions are to do with a path in a block of `2 * n` bytes. -/
structure CodecRight (m : Mem) (enpath : ℕ) (paths : List ℤ) : Prop where
  roundTrip : ∀ acc, (decodePath (encodePath m enpath paths).val acc enpath).val = acc ++ paths
  writes : Confined enpath (2 * paths.length) (encodePath m enpath paths)
  reads : ∀ acc, Confined enpath (2 * paths.length)
    (decodePath (encodePath m enpath paths).val acc enpath)

/-- **The codec is never right.**  The last separator is behind the end of the block. -/
theorem not_codecRight_of_ne_nil (m : Mem) (enpath : ℕ) {paths : List ℤ} (hne : paths ≠ []) :
    ¬ CodecRight m enpath paths := by
  intro h
  have hlen := (confined_encodePath_iff hne _).mp h.writes
  omega

theorem not_codecRight_of_ne_nil_one : ¬ CodecRight (fun _ => 0) 16 [3] :=
  not_codecRight_of_ne_nil (fun _ => 0) 16 (by decide)

/-- For the path `3, 5` the byte behind the four that are allocated is written. -/
theorem not_codecRight_pair :
    ¬ ∀ (m : Mem) (enpath : ℕ) (paths : List ℤ), paths ≠ [] → CodecRight m enpath paths := by
  intro h
  have hwrites := (h (fun _ => 0) 16 [3, 5] (by decide)).writes
  have hlast := hwrites ⟨20, 1⟩ (by decide)
  exact absurd hlast (by decide)

end GeoSvr.PathCodec
