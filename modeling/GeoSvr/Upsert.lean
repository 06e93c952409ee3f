import Mathlib.Data.List.Nodup

/-! # Merging rows by key

`upsert key extend` stores a row under its key: the record that has the key is extended by the
row, and a row with a new key becomes a record.  After a list of rows, the record of a key is the
first row with the key, extended by the later ones in their order (`record_merge`); so it depends
on the rows with this key alone. -/

namespace Upsert

variable {α κ : Type*} [DecidableEq κ]

def upsert (key : α → κ) (extend : α → α → α) : List α → α → List α
  | [], r => [r]
  | d :: ds, r => if key d = key r then extend d r :: ds else d :: upsert key extend ds r

/-- The records of a list of rows. -/
def merge (key : α → κ) (extend : α → α → α) (rows : List α) : List α :=
  rows.foldl (upsert key extend) []

variable {key : α → κ} {extend : α → α → α}

/-- The record of a key. -/
def record (key : α → κ) (ds : List α) (k : κ) : Option α := ds.find? (fun d => key d = k)

theorem record_cons (d : α) (ds : List α) (k : κ) :
    record key (d :: ds) k = if key d = k then some d else record key ds k := by
  unfold record
  by_cases h : key d = k <;> simp [h]

theorem record_of_mem {ds : List α} (hn : (ds.map key).Nodup) {d : α} (hd : d ∈ ds) :
    record key ds (key d) = some d := by
  cases h : record key ds (key d) with
  | none => exact absurd (decide_eq_true rfl) (List.find?_eq_none.mp h d hd)
  | some d' =>
      have hk : key d' = key d := by simpa using List.find?_some h
      rw [List.inj_on_of_nodup_map hn (List.mem_of_find?_eq_some h) hd hk]

theorem mem_of_record {ds : List α} {k : κ} {d : α} (h : record key ds k = some d) :
    d ∈ ds ∧ key d = k :=
  ⟨List.mem_of_find?_eq_some h, by simpa using List.find?_some h⟩

theorem record_upsert (hkey : ∀ d r, key (extend d r) = key d) (r : α) (k : κ) :
    ∀ ds : List α, record key (upsert key extend ds r) k =
      if key r = k then some ((record key ds k).elim r (fun d => extend d r)) else record key ds k
  | [] => by
      rw [upsert, record_cons]
      rfl
  | d :: ds => by
      unfold upsert
      by_cases hd : key d = key r
      · rw [if_pos hd, record_cons, record_cons, hkey, hd]
        by_cases hk : key r = k <;> simp [hk]
      · rw [if_neg hd, record_cons, record_cons, record_upsert hkey r k ds]
        by_cases hk : key r = k
        · have hdk : key d ≠ k := fun h => hd (h.trans hk.symm)
          simp [hk, hdk]
        · simp [hk]

theorem record_foldl (hkey : ∀ d r, key (extend d r) = key d) (k : κ) :
    ∀ (rows ds : List α), record key (rows.foldl (upsert key extend) ds) k =
      (rows.filter (fun r => key r = k)).foldl
        (fun d r => some (d.elim r (fun d => extend d r))) (record key ds k)
  | [], _ => rfl
  | r :: rows, ds => by
      rw [List.foldl_cons, record_foldl hkey k rows, record_upsert hkey]
      by_cases hk : key r = k <;> simp [hk]

theorem foldl_some : ∀ (rows : List α) (d : α),
    rows.foldl (fun d r => some (d.elim r (fun d => extend d r))) (some d) =
      some (rows.foldl extend d)
  | [], _ => rfl
  | r :: rows, d => foldl_some rows (extend d r)

/-- The record of a key is made of the rows with this key. -/
theorem record_merge (hkey : ∀ d r, key (extend d r) = key d) (rows : List α) (k : κ) :
    record key (merge key extend rows) k =
      (rows.filter (fun r => key r = k)).head?.map
        (fun r => (rows.filter (fun r => key r = k)).tail.foldl extend r) := by
  rw [merge, record_foldl hkey]
  cases rows.filter (fun r => key r = k) with
  | nil => rfl
  | cons r rs => exact foldl_some rs r

end Upsert
