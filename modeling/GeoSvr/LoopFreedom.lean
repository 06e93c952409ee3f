import GeoSvr.Forwarding
import GeoSvr.Orbits

/-! # Loops of relays

The hosts stand still, and the neighbour table of each is consistent with where they are.  A
packet with a fixed route goes from host to host as the relays decide.

A relay does not compare a next hop with itself, so two hosts on the last road of a route may
send a packet back and forth.  The packet never visits a host twice exactly when the hosts can be
ranked such that every relay's choice ranks below the relay; the distance to the
destination is such a rank if every candidate is nearer to the destination than the relay
(`loopFree_of_progress`). -/

namespace GeoSvr.Daemon

open Orbits
open MapManager (DedupedData Route RawData)

variable {R : Type*}

/-- Where the hosts are, the road that `on_road` matches each to, and the state of their
daemons. -/
structure Placement (R : Type*) where
  env : UInt32 → Env R
  road : UInt32 → ℤ
  node : UInt32 → Node R

/-- The table of the host `h` is consistent with the placement: a neighbour is a host, where it
is, and DIRECT if it is within the range of the radio. -/
structure Placement.ConsistentAt (p : Placement ℝ) (range : ℝ) (h : UInt32) (n : Neighbor ℝ) :
    Prop where
  host : n.ipAddr ≠ 0 ∧ n.ipAddr ≠ h
  latitude : n.latitude = (p.env n.ipAddr).latitude
  longitude : n.longitude = (p.env n.ipAddr).longitude
  roadid : n.roadid = .ofInt (p.road n.ipAddr)
  direct : n.state.direct = true ↔ Sphere.distance (p.env h).longitude (p.env h).latitude
    n.longitude n.latitude ≤ range
  indirect : n.state.indirect = !n.state.direct

structure Placement.Consistent (p : Placement ℝ) (range : ℝ) : Prop where
  num : ∀ h, (p.node h).num = (p.node h).neiList.length
  entry : ∀ h, ∀ n ∈ (p.node h).neiList, p.ConsistentAt range h n

/-- The host after `h` on the way of a packet to `dst` with the route `ofr`. -/
def Placement.nextHost [Scalar R] (p : Placement R) (table : List (DedupedData R))
    (ofr : List Route) (dst h : UInt32) : Option UInt32 :=
  match forwardDecision h (p.env h) table (p.node h) dst (some ofr) with
  | some .withoutHandle => if dst = h then none else some dst
  | some (.forward _ nhop) => some nhop
  | some (.drop _) => none
  | none => none

/-- The host `h` relays packets to `dst`: it knows `dst`, but not as DIRECT. -/
def Placement.Relays (p : Placement R) (dst h : UInt32) : Prop :=
  dst ≠ h ∧ dstIsDirect (p.node h) dst = false ∧ (getNeighbor (p.node h) dst).isSome = true

/-- The candidates of the host `h`. -/
def Placement.candidates [Scalar R] (p : Placement R) (table : List (DedupedData R))
    (ofr : List Route) (h : UInt32) : List (Neighbor R) :=
  lastCandidates table (p.node h).neiList ofr.reverse

section consistent

variable {p : Placement ℝ} {range : ℝ} {table : List (DedupedData ℝ)} {ofr : List Route}
  {dst h : UInt32}

/-- A relay sends to the candidate it chooses. -/
theorem nextHost_of_relays (hc : p.Consistent range) (hr : p.Relays dst h) {n : Neighbor ℝ}
    (hn : Chosen (p.env h) (p.candidates table ofr h) n) :
    p.nextHost table ofr dst h = some n.ipAddr := by
  obtain ⟨hne, hdirect, hsome⟩ := hr
  obtain ⟨nei, hnei⟩ := Option.isSome_iff_exists.mp hsome
  have hip : ∀ n ∈ (p.node h).neiList, n.ipAddr ≠ 0 := fun n hn => (hc.entry h n hn).host.1
  have hofr : ofr.length ≠ 0 := by
    intro hlen
    rw [Placement.candidates, List.length_eq_zero_iff.mp hlen] at hn
    exact absurd hn.mem List.not_mem_nil
  have hhop : nextHop (p.env h) table (p.node h) ofr = some n.ipAddr ∧ n.ipAddr ≠ 0 := by
    rcases nextHop_spec (p.env h) table ofr (hc.num h) hip with
      ⟨hnil, -⟩ | ⟨n', hn', hmem, he⟩
    · rw [Placement.candidates, hnil] at hn
      exact absurd hn.mem List.not_mem_nil
    · obtain rfl := hn.unique hn'
      exact ⟨he, hip n hmem⟩
  unfold Placement.nextHost forwardDecision
  rw [if_neg hne, hdirect, if_neg Bool.false_ne_true, hnei]
  simp only [if_neg hofr, hhop.1, if_neg hhop.2]

/-- A packet that has not arrived goes to its destination, or to the candidate that a relay
chooses. -/
theorem nextHost_some (hc : p.Consistent range) {h' : UInt32}
    (hnext : p.nextHost table ofr dst h = some h') : dst ≠ h ∧ (h' = dst ∨
      p.Relays dst h ∧ ∃ n, Chosen (p.env h) (p.candidates table ofr h) n ∧ h' = n.ipAddr) := by
  have hip : ∀ n ∈ (p.node h).neiList, n.ipAddr ≠ 0 := fun n hn => (hc.entry h n hn).host.1
  unfold Placement.nextHost at hnext
  unfold forwardDecision at hnext
  by_cases hne : dst = h
  · rw [if_pos hne] at hnext
    simp only [if_pos hne] at hnext
    cases hnext
  · refine ⟨hne, ?_⟩
    rw [if_neg hne] at hnext
    cases hdirect : dstIsDirect (p.node h) dst with
    | true =>
        rw [hdirect] at hnext
        simp only [if_true, if_neg hne] at hnext
        cases hnext
        exact Or.inl rfl
    | false =>
        rw [hdirect] at hnext
        cases hnei : getNeighbor (p.node h) dst with
        | none =>
            rw [hnei] at hnext
            cases hnext
        | some nei =>
            rw [hnei] at hnext
            simp only [Bool.false_eq_true, if_false] at hnext
            have hrelays : p.Relays dst h := ⟨hne, hdirect, by rw [hnei]; rfl⟩
            rcases nextHop_spec (p.env h) table ofr (hc.num h) hip with
              ⟨-, he | he⟩ | ⟨n, hn, hmem, he⟩
            · rw [he] at hnext
              split_ifs at hnext
            · rw [he] at hnext
              split_ifs at hnext
              cases hnext
            · rw [he] at hnext
              simp only [if_neg (hip n hmem)] at hnext
              split_ifs at hnext with hlen
              cases hnext
              exact Or.inr ⟨hrelays, n, hn, rfl⟩

/-- A ranking of the hosts in which every relay's choice ranks below it. -/
def Ranked {α : Type*} [LT α] (p : Placement ℝ) (table : List (DedupedData ℝ)) (ofr : List Route)
    (dst : UInt32) (rank : UInt32 → α) : Prop :=
  ∀ h, p.Relays dst h → ∀ n, Chosen (p.env h) (p.candidates table ofr h) n → rank n.ipAddr < rank h

/-- With the destination below all other hosts, every step decreases the rank. -/
theorem Ranked.nextHost {α : Type*} [Preorder α] {rank : UInt32 → α} (hc : p.Consistent range)
    (hr : Ranked p table ofr dst rank) {h' : UInt32}
    (hnext : p.nextHost table ofr dst h = some h') :
    (if h' = dst then (⊥ : WithBot α) else rank h') <
      if h = dst then (⊥ : WithBot α) else rank h := by
  obtain ⟨hne, hstep⟩ := nextHost_some hc hnext
  rw [if_neg (Ne.symm hne)]
  split_ifs with hdst
  · exact WithBot.bot_lt_coe _
  · obtain ⟨hrelays, n, hn, rfl⟩ := hstep.resolve_left hdst
    exact WithBot.coe_lt_coe.mpr (hr h hrelays n hn)

instance finiteUInt32 : Finite UInt32 :=
  Finite.of_injective UInt32.toFin (fun _ _ h => UInt32.toFin_inj.mp h)

/-- The check that is missing is enough: it suffices that every candidate of a relay is nearer to
the destination than the relay is. -/
theorem loopFree_of_progress (hc : p.Consistent range)
    (hprog : ∀ h, p.Relays dst h → ∀ n ∈ p.candidates table ofr h,
      Sphere.distance n.longitude n.latitude (p.env dst).longitude (p.env dst).latitude <
        Sphere.distance (p.env h).longitude (p.env h).latitude (p.env dst).longitude
          (p.env dst).latitude) :
    LoopFree (p.nextHost table ofr dst) := by
  have hr : Ranked p table ofr dst (fun h => Sphere.distance (p.env h).longitude
      (p.env h).latitude (p.env dst).longitude (p.env dst).latitude) := by
    intro h hrel n hn
    have hlt := hprog h hrel n hn.mem
    have hmem : n ∈ (p.node h).neiList := lastCandidates_subset hn.mem
    rwa [(hc.entry h n hmem).longitude, (hc.entry h n hmem).latitude] at hlt
  exact loopFree_of_rank (fun h h' hnext => hr.nextHost hc hnext)

end consistent

/-! ### A loop -/

/-- Three hosts on the equator: 1 and 2 are 111 metres apart, 9 is far away from both. -/
noncomputable def longitudeOf (h : UInt32) : ℝ :=
  if h = 1 then 0 else if h = 2 then 1 / (1000 : ℕ) else 1

/-- The hosts 1 and 2 are on the road 7, the host 9 is on the road 8. -/
def roadOf (h : UInt32) : ℤ := if h = 9 then 8 else 7

/-- The entry of the host `h`. -/
noncomputable def entryOf (h : UInt32) (direct : Bool) : Neighbor ℝ :=
  ⟨h.toNat, h, 0, longitudeOf h, 0, 0, 5, ⟨!direct, direct, false, false⟩, .ofInt (roadOf h), 0,
    none⟩

/-- The hosts 1 and 2 know each other as DIRECT, and the host 9 through others. -/
noncomputable def tableOf (h : UInt32) : List (Neighbor ℝ) :=
  if h = 1 then [entryOf 2 true, entryOf 9 false]
  else if h = 2 then [entryOf 1 true, entryOf 9 false]
  else []

noncomputable def samplePlacement : Placement ℝ where
  env h := ⟨0, longitudeOf h, 0, 0, false, false⟩
  road := roadOf
  node h := ⟨tableOf h, (tableOf h).length, [], 0, 0, 0, 0, false, []⟩

theorem entryOf_consistent {h k : UInt32} {direct : Bool} (h0 : k ≠ 0) (hk : k ≠ h)
    (hd : direct = true ↔ Sphere.distance (longitudeOf h) 0 (longitudeOf k) 0 ≤ 250) :
    samplePlacement.ConsistentAt 250 h (entryOf k direct) :=
  ⟨⟨h0, hk⟩, rfl, rfl, rfl, hd, rfl⟩

theorem samplePlacement_consistent : samplePlacement.Consistent 250 where
  num _ := rfl
  entry h n hn := by
    have hone : longitudeOf 1 = 0 := if_pos rfl
    have htwo : longitudeOf 2 = 1 / (1000 : ℕ) := by
      rw [longitudeOf, if_neg (by decide), if_pos rfl]
    have hnine : longitudeOf 9 = 1 := by
      rw [longitudeOf, if_neg (by decide), if_neg (by decide)]
    change n ∈ tableOf h at hn
    unfold tableOf at hn
    split_ifs at hn with h₁ h₂
    · subst h₁
      obtain rfl | rfl := List.mem_pair.mp hn
      · refine entryOf_consistent (by decide) (by decide) ?_
        rw [hone, htwo, Sphere.distance_equator] <;> norm_num [Sphere.PI]
      · refine entryOf_consistent (by decide) (by decide) ?_
        rw [hone, hnine, Sphere.distance_equator] <;> norm_num [Sphere.PI]
    · subst h₂
      obtain rfl | rfl := List.mem_pair.mp hn
      · refine entryOf_consistent (by decide) (by decide) ?_
        rw [hone, htwo, Sphere.distance_equator] <;> norm_num [Sphere.PI]
      · refine entryOf_consistent (by decide) (by decide) ?_
        rw [htwo, hnine, Sphere.distance_equator] <;> norm_num [Sphere.PI]
    · cases hn

/-- The road 7, on which the route ends. -/
def sampleRoad : DedupedData ℝ := ⟨7, 1, 0, 0, 1, 0, 0, 1, 3, 0⟩

end GeoSvr.Daemon
