import Mathlib.Data.Fintype.Card
import Mathlib.Data.List.MinMax
import Mathlib.Logic.Function.Iterate
import Mathlib.Logic.Relation

/-! # Predecessor trees of undirected graphs

A graph is a list of weighted links between vertices; several links may join two vertices, and
a link may join a vertex to itself.

* `IsTree Adj src p` says what a search from `src` promises of its predecessor map `p`: the
  vertices that are connected with `src` form a tree over `Adj`, all others are their own
  predecessors.
* `IsTree.reaches_iff`: these are the vertices to which links lead from the source.
* `IsTree.depth` bounds the length of the way back to the source.
* `pred` computes such a map with Dijkstra's algorithm: it settles the nearest vertex that is
  joined to a settled one until there is none (`pred_isTree`). -/

namespace Dijkstra

variable {V W : Type*}

/-- What a search promises of its predecessor map. -/
structure IsTree (Adj : V → V → Prop) (src : V) (p : V → V) : Prop where
  root : p src = src
  adj : ∀ v, p v ≠ v → Adj v (p v)
  ends : ∀ v, p v ≠ v → ∃ k, p^[k] v = src
  spans : ∀ u v, Adj u v → (u = src ∨ p u ≠ u) → v = src ∨ p v ≠ v

section tree

variable {Adj : V → V → Prop} {src : V} {p : V → V}

/-- On the way to the source no vertex is its own predecessor. -/
theorem iterate_ne_of_lt {v : V} {j k : ℕ} (hk : p^[k] v = src) (hjk : j < k)
    (hne : p^[j] v ≠ src) : p (p^[j] v) ≠ p^[j] v := by
  intro hfix
  have hstay : p^[k - j] (p^[j] v) = p^[j] v := Function.iterate_fixed hfix _
  rw [← Function.iterate_add_apply, Nat.sub_add_cancel hjk.le] at hstay
  exact hne (hstay.symm.trans hk)

/-- The tree spans what is connected with the source. -/
theorem IsTree.reaches_iff (h : IsTree Adj src p) (hsymm : ∀ u v, Adj u v → Adj v u)
    {v : V} :
    (v = src ∨ p v ≠ v) ↔ Relation.ReflTransGen Adj src v := by
  constructor
  · intro hv
    have hends : ∃ k, p^[k] v = src := by
      cases hv with
      | inl hv => exact ⟨0, hv⟩
      | inr hv => exact h.ends v hv
    obtain ⟨k, hk⟩ := hends
    clear hv
    -- induction on the way back
    induction k generalizing v with
    | zero =>
        rw [← hk]
        exact Relation.ReflTransGen.refl
    | succ k ih =>
        by_cases hfix : p v = v
        · have hsame : p^[k] v = v := Function.iterate_fixed hfix k
          rw [Function.iterate_succ_apply, hfix, hsame] at hk
          rw [hk]
        · exact (ih hk).tail (hsymm _ _ (h.adj v hfix))
  · intro hreach
    induction hreach with
    | refl => exact Or.inl rfl
    | tail _ hadj ih => exact h.spans _ _ hadj ih

/-- The shortest way back to the source visits each vertex once: two visits of one vertex would make
a shorter way. -/
theorem iterate_ne_iterate {v : V} {i j k : ℕ} (hk : p^[k] v = src) (hmin : ∀ j < k, p^[j] v ≠ src)
    (hij : i < j) (hjk : j ≤ k) : p^[i] v ≠ p^[j] v := by
  intro he
  have hshort : p^[k - j + i] v = src := by
    rw [Function.iterate_add_apply, he, ← Function.iterate_add_apply, Nat.sub_add_cancel hjk]
    exact hk
  exact hmin (k - j + i) (by omega) hshort

theorem iterate_inj {v : V} {k : ℕ} (hk : p^[k] v = src) (hmin : ∀ j < k, p^[j] v ≠ src)
    {i j : ℕ} (hi : i ≤ k) (hj : j ≤ k) (he : p^[i] v = p^[j] v) : i = j := by
  obtain hlt | heq | hlt := Nat.lt_trichotomy i j
  · exact absurd he (iterate_ne_iterate hk hmin hlt hj)
  · exact heq
  · exact absurd he.symm (iterate_ne_iterate hk hmin hlt hi)

/-- A way back to the source is shorter than there are vertices, if it stops there. -/
theorem exists_iterate [Fintype V] {v : V} (hends : ∃ k, p^[k] v = src) :
    ∃ k < Fintype.card V, p^[k] v = src ∧ ∀ j < k, p^[j] v ≠ src := by
  classical
  obtain ⟨k, hk, hmin⟩ : ∃ k, p^[k] v = src ∧ ∀ j < k, p^[j] v ≠ src :=
    ⟨Nat.find hends, Nat.find_spec hends, fun j hj => Nat.find_min hends hj⟩
  refine ⟨k, ?_, hk, hmin⟩
  have hinj : Function.Injective (fun j : Fin (k + 1) => p^[j.val] v) := by
    intro i j he
    exact Fin.ext (iterate_inj hk hmin (by omega) (by omega) he)
  have hcard := Fintype.card_le_of_injective _ hinj
  rw [Fintype.card_fin] at hcard
  omega

/-- The way back to the source is shorter than there are vertices. -/
theorem IsTree.depth [Fintype V] (h : IsTree Adj src p) {v : V} (hv : v = src ∨ p v ≠ v) :
    ∃ k < Fintype.card V, p^[k] v = src ∧ ∀ j < k, p^[j] v ≠ src := by
  apply exists_iterate
  cases hv with
  | inl hv => exact ⟨0, hv⟩
  | inr hv => exact h.ends v hv

end tree

/-! ### The search -/

/-- A link of the graph. -/
structure Link (V W : Type*) where
  fst : V
  snd : V
  weight : W

/-- The link joins the vertices. -/
def Link.joins (l : Link V W) (u v : V) : Prop :=
  (l.fst = u ∧ l.snd = v) ∨ (l.fst = v ∧ l.snd = u)

def Joined (ls : List (Link V W)) (u v : V) : Prop := ∃ l ∈ ls, l.joins u v

theorem Joined.symm {ls : List (Link V W)} {u v : V} (h : Joined ls u v) : Joined ls v u := by
  obtain ⟨l, hl, hj⟩ := h
  exact ⟨l, hl, Or.symm hj⟩

/-- A vertex, its distance from the source, and its predecessor. -/
structure Settled (V W : Type*) where
  vertex : V
  dist : W
  pred : V

section search

variable [DecidableEq V]

def vertices (done : List (Settled V W)) : List V := done.map Settled.vertex

/-- The predecessor of `v` according to what is settled. -/
def predOf : List (Settled V W) → V → V
  | [], v => v
  | c :: done, v => if c.vertex = v then c.pred else predOf done v

theorem predOf_of_not_mem : ∀ {done : List (Settled V W)} {v : V}, v ∉ vertices done →
    predOf done v = v
  | [], v, _ => rfl
  | c :: done, v, hv => by
      obtain ⟨hne, hrest⟩ := not_or.mp (fun h => hv (List.mem_cons.mpr h))
      rw [predOf, if_neg (fun h => hne h.symm)]
      exact predOf_of_not_mem hrest

variable [Add W]

/-- The ways to extend what is settled by a link from `c.vertex`. -/
def reached (l : Link V W) (c : Settled V W) : List (Settled V W) :=
  (if l.fst = c.vertex then [⟨l.snd, c.dist + l.weight, c.vertex⟩] else []) ++
    (if l.snd = c.vertex then [⟨l.fst, c.dist + l.weight, c.vertex⟩] else [])

/-- What can be settled next. -/
def candidates (ls : List (Link V W)) (done : List (Settled V W)) : List (Settled V W) :=
  (done.flatMap (fun c => ls.flatMap (fun l => reached l c))).filter
    (fun c => c.vertex ∉ vertices done)

/-- A candidate extends what is settled by one link. -/
theorem mem_candidates_iff {ls : List (Link V W)} {done : List (Settled V W)} {c : Settled V W} :
    c ∈ candidates ls done ↔ c.vertex ∉ vertices done ∧ ∃ d ∈ done, ∃ l ∈ ls,
      l.joins d.vertex c.vertex ∧ c = ⟨c.vertex, d.dist + l.weight, d.vertex⟩ := by
  simp only [candidates, List.mem_filter, List.mem_flatMap, reached, List.mem_append,
    decide_eq_true_eq]
  rw [and_comm]
  refine and_congr_right (fun _ => ?_)
  constructor
  · rintro ⟨d, hd, l, hl, hm⟩
    refine ⟨d, hd, l, hl, ?_⟩
    cases hm with
    | inl hm =>
        split_ifs at hm with he
        · rw [List.mem_singleton.mp hm]
          exact ⟨Or.inl ⟨he, rfl⟩, rfl⟩
        · cases hm
    | inr hm =>
        split_ifs at hm with he
        · rw [List.mem_singleton.mp hm]
          exact ⟨Or.inr ⟨rfl, he⟩, rfl⟩
        · cases hm
  · rintro ⟨d, hd, l, hl, hj, hc⟩
    refine ⟨d, hd, l, hl, ?_⟩
    cases hj with
    | inl hj =>
        rw [if_pos hj.1, hj.2]
        exact Or.inl (List.mem_singleton.mpr hc)
    | inr hj =>
        rw [if_pos hj.2, hj.1]
        exact Or.inr (List.mem_singleton.mpr hc)

theorem mem_candidates {ls : List (Link V W)} {done : List (Settled V W)} {v u : V} :
    (∃ w, ⟨v, w, u⟩ ∈ candidates ls done) ↔
      u ∈ vertices done ∧ v ∉ vertices done ∧ Joined ls v u := by
  constructor
  · rintro ⟨w, hw⟩
    obtain ⟨hv, d, hd, l, hl, hj, hc⟩ := mem_candidates_iff.mp hw
    cases hc
    exact ⟨List.mem_map_of_mem hd, hv, l, hl, hj.symm⟩
  · rintro ⟨hu, hv, l, hl, hj⟩
    obtain ⟨d, hd, rfl⟩ := List.mem_map.mp hu
    exact ⟨_, mem_candidates_iff.mpr ⟨hv, d, hd, l, hl, hj.symm, rfl⟩⟩

variable [Zero W]

/-- What the search has settled at any moment. -/
inductive Grown (ls : List (Link V W)) (src : V) : List (Settled V W) → Prop
  | start : Grown ls src [⟨src, 0, src⟩]
  | next {c : Settled V W} {done : List (Settled V W)} :
      Grown ls src done → c ∈ candidates ls done → Grown ls src (c :: done)

variable {ls : List (Link V W)} {src : V} {done : List (Settled V W)}

theorem Grown.nodup (h : Grown ls src done) : (vertices done).Nodup := by
  induction h with
  | start => exact List.nodup_singleton src
  | @next c done _ hc ih =>
      exact List.nodup_cons.mpr ⟨(mem_candidates.mp ⟨c.dist, hc⟩).2.1, ih⟩

theorem Grown.src_mem (h : Grown ls src done) : src ∈ vertices done := by
  induction h with
  | start => exact List.mem_singleton.mpr rfl
  | next _ _ ih => exact List.mem_cons_of_mem _ ih

/-- A settled vertex is the source, or its predecessor was settled before it. -/
theorem Grown.predOf_mem (h : Grown ls src done) : predOf done src = src ∧
    ∀ v ∈ vertices done, v ≠ src →
      predOf done v ∈ vertices done ∧ predOf done v ≠ v ∧ Joined ls v (predOf done v) := by
  induction h with
  | start =>
      refine ⟨if_pos rfl, fun v hv hne => ?_⟩
      exact absurd (List.mem_singleton.mp hv) hne
  | @next c done hd hc ih =>
      obtain ⟨hu, hv, hj⟩ := mem_candidates.mp ⟨c.dist, hc⟩
      have hsrc : c.vertex ≠ src := fun he => hv (he ▸ hd.src_mem)
      refine ⟨by rw [predOf, if_neg hsrc]; exact ih.1, fun v hm hne => ?_⟩
      rw [predOf]
      split_ifs with he
      · subst he
        exact ⟨List.mem_cons_of_mem _ hu, fun h => hv (h ▸ hu), hj⟩
      · have hmem := (List.mem_cons.mp hm).resolve_left (fun h => he h.symm)
        obtain ⟨h₁, h₂, h₃⟩ := ih.2 v hmem hne
        exact ⟨List.mem_cons_of_mem _ h₁, h₂, h₃⟩

/-- From a settled vertex the predecessors lead to the source. -/
theorem Grown.ends (h : Grown ls src done) : ∀ v ∈ vertices done, ∃ k,
    (predOf done)^[k] v = src := by
  induction h with
  | start => exact fun v hv => ⟨0, List.mem_singleton.mp hv⟩
  | @next c done hd hc ih =>
      obtain ⟨hu, hv, -⟩ := mem_candidates.mp ⟨c.dist, hc⟩
      have hstay : ∀ k, ∀ v ∈ vertices done,
          (predOf (c :: done))^[k] v = (predOf done)^[k] v := by
        intro k
        induction k with
        | zero => exact fun _ _ => rfl
        | succ k ihk =>
            intro v hm
            have hne : c.vertex ≠ v := fun he => hv (he ▸ hm)
            have hpred : predOf done v ∈ vertices done := by
              by_cases hsrc : v = src
              · rw [hsrc, hd.predOf_mem.1]
                exact hd.src_mem
              · exact (hd.predOf_mem.2 v hm hsrc).1
            rw [Function.iterate_succ_apply, Function.iterate_succ_apply, predOf, if_neg hne]
            exact ihk _ hpred
      intro v hm
      by_cases he : c.vertex = v
      · obtain ⟨k, hk⟩ := ih c.pred hu
        refine ⟨k + 1, ?_⟩
        rw [Function.iterate_succ_apply, predOf, if_pos he, hstay k _ hu]
        exact hk
      · have hmem := (List.mem_cons.mp hm).resolve_left (fun h => he h.symm)
        obtain ⟨k, hk⟩ := ih v hmem
        exact ⟨k, (hstay k v hmem).trans hk⟩

variable [LinearOrder W]

/-- Settles the nearest candidate, `k` times or until there is none. -/
def settle (ls : List (Link V W)) : ℕ → List (Settled V W) → List (Settled V W)
  | 0, done => done
  | k + 1, done =>
      match (candidates ls done).argmin Settled.dist with
      | none => done
      | some c => settle ls k (c :: done)

/-- The predecessor map of Dijkstra's algorithm. -/
def pred [Fintype V] (ls : List (Link V W)) (src : V) : V → V :=
  predOf (settle ls (Fintype.card V) [⟨src, 0, src⟩])

/-- The search stops when nothing is left to settle, or after `k` vertices. -/
theorem settle_grown (k : ℕ) : ∀ {done : List (Settled V W)}, Grown ls src done →
    Grown ls src (settle ls k done) ∧
      (candidates ls (settle ls k done) = [] ∨ (settle ls k done).length = k + done.length) := by
  induction k with
  | zero => exact fun h => ⟨h, Or.inr (by simp [settle])⟩
  | succ k ih =>
      intro done h
      unfold settle
      cases hc : (candidates ls done).argmin Settled.dist with
      | none => exact ⟨h, Or.inl (List.argmin_eq_none.mp hc)⟩
      | some c =>
          obtain ⟨hg, hstop⟩ := ih (Grown.next h (List.argmin_mem hc))
          refine ⟨hg, hstop.imp_right (fun hl => ?_)⟩
          rw [hl, List.length_cons]
          omega

/-- **Dijkstra's algorithm** computes a predecessor tree. -/
theorem pred_isTree [Fintype V] (ls : List (Link V W)) (src : V) :
    IsTree (Joined ls) src (pred ls src) := by
  have hstart : Grown ls src [⟨src, 0, src⟩] := Grown.start
  obtain ⟨hg, hstop⟩ := settle_grown (Fintype.card V) hstart
  have hclosed : candidates ls (settle ls (Fintype.card V) [⟨src, 0, src⟩]) = [] := by
    refine hstop.resolve_right (fun hlen => ?_)
    have hcard := hg.nodup.length_le_card
    rw [vertices, List.length_map, hlen, List.length_singleton] at hcard
    omega
  have hmem : ∀ v, pred ls src v ≠ v →
      v ∈ vertices (settle ls (Fintype.card V) [⟨src, 0, src⟩]) ∧ v ≠ src := by
    intro v hv
    refine ⟨by_contra fun h => hv (predOf_of_not_mem h), ?_⟩
    rintro rfl
    exact hv hg.predOf_mem.1
  refine ⟨hg.predOf_mem.1, fun v hv => ?_, fun v hv => hg.ends v (hmem v hv).1, ?_⟩
  · exact (hg.predOf_mem.2 v (hmem v hv).1 (hmem v hv).2).2.2
  · intro u v hadj hu
    by_contra hcon
    obtain ⟨hsrc, hfix⟩ := not_or.mp hcon
    have hu' : u ∈ vertices (settle ls (Fintype.card V) [⟨src, 0, src⟩]) := by
      obtain rfl | hu := hu
      · exact hg.src_mem
      · exact (hmem u hu).1
    have hv' : v ∉ vertices (settle ls (Fintype.card V) [⟨src, 0, src⟩]) :=
      fun hm => hfix (hg.predOf_mem.2 v hm hsrc).2.1
    obtain ⟨l, hl, hj⟩ := hadj
    obtain ⟨w, hw⟩ := mem_candidates.mpr ⟨hu', hv', l, hl, hj.symm⟩
    rw [hclosed] at hw
    cases hw

end search

end Dijkstra
