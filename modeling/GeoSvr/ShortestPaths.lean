import GeoSvr.Dijkstra
import Mathlib.Algebra.Order.Monoid.Defs

/-! # Shortest paths

A `Walk` from the source sums the weights of its links, and `IsDist` is the least such sum.
`IsShortest` says of a predecessor map that it is a tree and that the predecessors lie on shortest
paths: the distance of a vertex is that of its predecessor and the weight of a link between them.

Dijkstra's algorithm computes such a map when no weight is negative (`pred_isShortest`).  What it
settles has the distance it is settled with (`Nearest.isDist`), because a walk to a vertex that is
not settled passes by a candidate (`Walk.escapes`). -/

namespace Dijkstra

variable {V W : Type*}

/-- A walk along links, and the sum of their weights. -/
inductive Walk [Add W] [Zero W] (ls : List (Link V W)) (src : V) : V → W → Prop
  | start : Walk ls src src 0
  | step {u v : V} {w : W} {l : Link V W} :
      Walk ls src u w → l ∈ ls → l.joins u v → Walk ls src v (w + l.weight)

/-- The least weight of a walk to the vertex. -/
structure IsDist [Add W] [Zero W] [LE W] (ls : List (Link V W)) (src v : V) (w : W) : Prop where
  walk : Walk ls src v w
  least : ∀ w', Walk ls src v w' → w ≤ w'

/-- The predecessors lie on shortest paths from the source. -/
structure IsShortest [Add W] [Zero W] [LE W] (ls : List (Link V W)) (src : V) (p : V → V) : Prop
    extends IsTree (Joined ls) src p where
  shortest : ∀ v, p v ≠ v → ∃ l ∈ ls, ∃ w, l.joins v (p v) ∧ IsDist ls src (p v) w ∧
    IsDist ls src v (w + l.weight)

theorem Walk.reaches [Add W] [Zero W] {ls : List (Link V W)} {src v : V} {w : W}
    (h : Walk ls src v w) : Relation.ReflTransGen (Joined ls) src v := by
  induction h with
  | start => exact Relation.ReflTransGen.refl
  | step _ hl hj ih => exact ih.tail ⟨_, hl, hj⟩

theorem IsDist.unique [Add W] [Zero W] [PartialOrder W] {ls : List (Link V W)} {src v : V}
    {w w' : W} (h : IsDist ls src v w) (h' : IsDist ls src v w') : w = w' :=
  le_antisymm (h.least w' h'.walk) (h'.least w h.walk)

section nearest

variable [AddCommMonoid W] [LinearOrder W] {ls : List (Link V W)} {src : V}

section settling

variable [DecidableEq V]

/-- What the search has settled at any moment: every time the nearest candidate. -/
inductive Nearest (ls : List (Link V W)) (src : V) : List (Settled V W) → Prop
  | start : Nearest ls src [⟨src, 0, src⟩]
  | next {c : Settled V W} {done : List (Settled V W)} :
      Nearest ls src done → c ∈ candidates ls done →
      (∀ c' ∈ candidates ls done, c.dist ≤ c'.dist) → Nearest ls src (c :: done)

variable {done : List (Settled V W)}

theorem Nearest.grown (h : Nearest ls src done) : Grown ls src done := by
  induction h with
  | start => exact Grown.start
  | next _ hc _ ih => exact Grown.next ih hc

theorem settle_nearest : ∀ (k : ℕ) {done : List (Settled V W)}, Nearest ls src done →
    Nearest ls src (settle ls k done)
  | 0, _, h => h
  | k + 1, done, h => by
      unfold settle
      cases hc : (candidates ls done).argmin Settled.dist with
      | none => exact h
      | some c =>
          apply settle_nearest k
          exact Nearest.next h (List.argmin_mem hc) (fun c' hc' => List.le_of_mem_argmin hc' hc)

end settling

/-! ### Weights that are not negative -/

variable [IsOrderedAddMonoid W]

theorem Walk.nonneg (hls : ∀ l ∈ ls, 0 ≤ l.weight) {v : V} {w : W} (h : Walk ls src v w) :
    0 ≤ w := by
  induction h with
  | start => exact le_rfl
  | step _ hl _ ih => exact add_nonneg ih (hls _ hl)

/-- The source is at distance 0. -/
theorem isDist_start (hls : ∀ l ∈ ls, 0 ≤ l.weight) : IsDist ls src src 0 :=
  ⟨Walk.start, fun _ h => h.nonneg hls⟩

variable [DecidableEq V] {done : List (Settled V W)}

/-- A walk that leaves what is settled passes by a candidate. -/
theorem Walk.escapes (hls : ∀ l ∈ ls, 0 ≤ l.weight) (hsrc : src ∈ vertices done)
    (hdone : ∀ c ∈ done, IsDist ls src c.vertex c.dist) {v : V} {w : W} (h : Walk ls src v w) :
    v ∉ vertices done → ∃ c ∈ candidates ls done, c.dist ≤ w := by
  induction h with
  | start => exact fun hv => absurd hsrc hv
  | @step u v w l hwalk hl hj ih =>
      intro hv
      by_cases hu : u ∈ vertices done
      · -- the link leaves what is settled
        obtain ⟨d, hd, rfl⟩ := List.mem_map.mp hu
        refine ⟨⟨v, d.dist + l.weight, d.vertex⟩, ?_, ?_⟩
        · exact mem_candidates_iff.mpr ⟨hv, d, hd, l, hl, hj, rfl⟩
        · exact add_le_add_left ((hdone d hd).least w hwalk) l.weight
      · obtain ⟨c, hc, hle⟩ := ih hu
        exact ⟨c, hc, hle.trans (le_add_of_nonneg_right (hls l hl))⟩

/-- What is settled has its distance. -/
theorem Nearest.isDist (hls : ∀ l ∈ ls, 0 ≤ l.weight) (h : Nearest ls src done) :
    ∀ c ∈ done, IsDist ls src c.vertex c.dist := by
  induction h with
  | start =>
      intro c hc
      rw [List.mem_singleton.mp hc]
      exact isDist_start hls
  | @next c done hd hc hmin ih =>
      obtain ⟨hv, d, hdone, l, hl, hj, he⟩ := mem_candidates_iff.mp hc
      intro c' hc'
      cases List.mem_cons.mp hc' with
      | inr hold => exact ih c' hold
      | inl hnew =>
          rw [hnew]
          constructor
          · rw [he]
            exact Walk.step (ih d hdone).walk hl hj
          · intro w hw
            obtain ⟨c'', hc'', hle⟩ := hw.escapes hls hd.grown.src_mem ih hv
            exact (hmin c'' hc'').trans hle

/-- The predecessors of what is settled. -/
theorem Nearest.shortest (hls : ∀ l ∈ ls, 0 ≤ l.weight) (h : Nearest ls src done) :
    ∀ v ∈ vertices done, v ≠ src → ∃ l ∈ ls, ∃ w, l.joins v (predOf done v) ∧
      IsDist ls src (predOf done v) w ∧ IsDist ls src v (w + l.weight) := by
  induction h with
  | start => exact fun v hv hne => absurd (List.mem_singleton.mp hv) hne
  | @next c done hd hc hmin ih =>
      intro v hv hne
      rw [predOf]
      split_ifs with he
      · obtain ⟨-, d, hdone, l, hl, hj, hcand⟩ := mem_candidates_iff.mp hc
        have hdist := (Nearest.next hd hc hmin).isDist hls c List.mem_cons_self
        rw [hcand] at hdist ⊢
        rw [he] at hj hdist
        exact ⟨l, hl, d.dist, hj.symm, hd.isDist hls d hdone, hdist⟩
      · exact ih v ((List.mem_cons.mp hv).resolve_left (fun h => he h.symm)) hne

/-- **Dijkstra's algorithm** finds shortest paths. -/
theorem pred_isShortest [Fintype V] (hls : ∀ l ∈ ls, 0 ≤ l.weight) (src : V) :
    IsShortest ls src (pred ls src) where
  toIsTree := pred_isTree ls src
  shortest := by
    intro v hv
    have hnear : Nearest ls src (settle ls (Fintype.card V) [⟨src, 0, src⟩]) :=
      settle_nearest _ Nearest.start
    apply hnear.shortest hls
    · by_contra hnot
      exact hv (predOf_of_not_mem hnot)
    · rintro rfl
      exact hv hnear.grown.predOf_mem.1

end nearest

end Dijkstra
