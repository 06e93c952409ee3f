import GeoSvr.FirstLeast
import GeoSvr.MsvrMap
import GeoSvr.RouteSearch

/-! # The neighbour list of the simulation (`msvr_nblist.cc`)

The agent of the simulation keeps its neighbours in a `std::list`, the newest first.  `msvr_nbladd`
refreshes the entry with the id of the info, or adds one; `msvr_nblaging` erases an entry that is too
old and begins again, until a pass finds none.

`msvr_nbl_find_next_hop` looks at the neighbours on three roads and keeps the one whose distance is
closest to `goal`, of those that are closer to the destination.  It does the same in each of its
three branches (`tryHop`), so it finds the first of the least among the `Eligible` neighbours
(`msvrNblFindNextHop_spec`). -/

namespace GeoSvr.MsvrNblist

open FirstLeast (IsFirstLeast)
open MsvrMap (msvrCalDist)

/-- `struct timeval`. -/
structure Timeval where
  sec : ℕ
  usec : ℕ
  usec_lt : usec < 1000000
deriving DecidableEq

/-- `struct msvr_ninfo`. -/
structure Ninfo (R : Type*) where
  id : ℤ
  x : R
  y : R
  speed : R
  heading : R
  roadid : ℤ
  dst : UInt32
deriving DecidableEq

/-- `struct msvr_nbentry`. -/
structure NbEntry (R : Type*) where
  ninfo : Ninfo R
  ts : Timeval
deriving DecidableEq

variable {R : Type*}

/-! ### Adding and aging -/

/-- The assignments of `msvr_nbladd` to an entry that it finds: `n_dst` is copied to the local `ep`
instead. -/
def copyInfo (e : NbEntry R) (ip : Ninfo R) (now : Timeval) : NbEntry R :=
  { ninfo := { e.ninfo with
      x := ip.x, y := ip.y, speed := ip.speed, heading := ip.heading, roadid := ip.roadid },
    ts := now }

/-- The loop of `msvr_nbladd`, if it finds the id. -/
def refresh (ip : Ninfo R) (now : Timeval) : List (NbEntry R) → Option (List (NbEntry R))
  | [] => none
  | e :: nbl =>
      if e.ninfo.id = ip.id then some (copyInfo e ip now :: nbl)
      else (refresh ip now nbl).map (fun nbl => e :: nbl)

/-- `msvr_nbladd`. -/
def msvrNbladd (nbl : List (NbEntry R)) (ip : Ninfo R) (now : Timeval) : List (NbEntry R) :=
  match refresh ip now nbl with
  | some nbl => nbl
  | none => ⟨ip, now⟩ :: nbl

/-- `MSVR_MAX_NB_AGING`. -/
def MSVR_MAX_NB_AGING : ℤ := 4

/-- The test of `msvr_nblaging`.  The difference of the seconds is compared as a `float`: rounding
keeps the order and 4 is a `float`, so this is the comparison of the integers. -/
def aged (now : Timeval) (e : NbEntry R) : Bool :=
  MSVR_MAX_NB_AGING ≤ (now.sec : ℤ) - e.ts.sec

/-- A pass of `msvr_nblaging`: the list without the first entry that is too old, if there is
one. -/
def eraseAged (now : Timeval) : List (NbEntry R) → Option (List (NbEntry R))
  | [] => none
  | e :: nbl => if aged now e then some nbl else (eraseAged now nbl).map (fun nbl => e :: nbl)

/-- `msvr_nblaging`: after each entry that it erases it goes to `tryagain`. -/
def msvrNblaging (now : Timeval) (fuel : ℕ) (nbl : List (NbEntry R)) : Option (List (NbEntry R)) :=
  WhileLoop.run (fun nbl => (eraseAged now nbl).isSome) (eraseAged now) fuel nbl

/-! ### The next hop -/

section nextHop

variable [Scalar R]

/-- `goal`. -/
def goal : R := Scalar.ofNat 100

/-- The body of each branch of `msvr_nbl_find_next_hop`; the variables are `res` and `len1`. -/
def tryHop (x1 y1 x2 y2 : R) (s : Option (NbEntry R) × R) (ep : NbEntry R) :
    Option (NbEntry R) × R :=
  let tmplen := msvrCalDist x1 y1 ep.ninfo.x ep.ninfo.y
  let dstlen := msvrCalDist x2 y2 ep.ninfo.x ep.ninfo.y
  if Scalar.lt (Scalar.abs (tmplen - goal)) s.2 && Scalar.lt dstlen (msvrCalDist x1 y1 x2 y2) then
    (some ep, Scalar.abs (tmplen - goal))
  else s

/-- An iteration of `msvr_nbl_find_next_hop`. -/
def nextHopStep (roadid1 roadid2 roadid3 : ℤ) (x1 y1 x2 y2 : R) (s : Option (NbEntry R) × R)
    (ep : NbEntry R) : Option (NbEntry R) × R :=
  if ep.ninfo.roadid = roadid1 then tryHop x1 y1 x2 y2 s ep
  else if roadid2 ≠ -1 ∧ ep.ninfo.roadid = roadid2 then tryHop x1 y1 x2 y2 s ep
  else if ep.ninfo.roadid = roadid3 then tryHop x1 y1 x2 y2 s ep
  else s

/-- `msvr_nbl_find_next_hop`. -/
def msvrNblFindNextHop (nbl : List (NbEntry R)) (roadid1 roadid2 roadid3 : ℤ) (x1 y1 x2 y2 : R) :
    Option (NbEntry R) :=
  (nbl.foldl (nextHopStep roadid1 roadid2 roadid3 x1 y1 x2 y2) (none, Scalar.ofNat 200)).1

/-- `msvr_get_next_hop`; without `first` it returns nothing. -/
def msvrGetNextHop (nbl : List (NbEntry R)) (roadid1 roadid2 roadid3 : ℤ) (x1 y1 x2 y2 : R)
    (first : Bool) : Option UInt32 :=
  if first then
    match msvrNblFindNextHop nbl roadid1 roadid2 roadid3 x1 y1 x2 y2 with
    | none => some (-1)
    | some ep => some ep.ninfo.dst
  else none

end nextHop

/-! ### What the next hop is -/

section spec

variable (roadid1 roadid2 roadid3 : ℤ) (x1 y1 x2 y2 : ℝ)

/-- How far the distance of a neighbour is from `goal`. -/
noncomputable def offGoal (ep : NbEntry ℝ) : ℝ :=
  |msvrCalDist x1 y1 ep.ninfo.x ep.ninfo.y - goal|

/-- The neighbour is on one of the roads. -/
def OnRoads (ep : NbEntry ℝ) : Prop :=
  ep.ninfo.roadid = roadid1 ∨ (ep.ninfo.roadid = roadid2 ∧ roadid2 ≠ -1) ∨
    ep.ninfo.roadid = roadid3

/-- The neighbour is on one of the roads, closer to the destination, and not too far from `goal`. -/
structure Eligible (ep : NbEntry ℝ) : Prop where
  road : OnRoads roadid1 roadid2 roadid3 ep
  closer : msvrCalDist x2 y2 ep.ninfo.x ep.ninfo.y < msvrCalDist x1 y1 x2 y2
  near : offGoal x1 y1 ep < Scalar.ofNat 200

/-- The first eligible neighbour that is closest to `goal`. -/
def FirstEligible (nbl : List (NbEntry ℝ)) (ep : NbEntry ℝ) : Prop :=
  ∃ pre post, nbl = pre ++ ep :: post ∧ Eligible roadid1 roadid2 roadid3 x1 y1 x2 y2 ep ∧
    (∀ m ∈ pre, Eligible roadid1 roadid2 roadid3 x1 y1 x2 y2 m →
      offGoal x1 y1 ep < offGoal x1 y1 m) ∧
    ∀ m ∈ post, Eligible roadid1 roadid2 roadid3 x1 y1 x2 y2 m →
      offGoal x1 y1 ep ≤ offGoal x1 y1 m

/-- The neighbour is one that the loop compares. -/
def Progress (ep : NbEntry ℝ) : Prop :=
  OnRoads roadid1 roadid2 roadid3 ep ∧
    msvrCalDist x2 y2 ep.ninfo.x ep.ninfo.y < msvrCalDist x1 y1 x2 y2

variable {roadid1 roadid2 roadid3 : ℤ} {x1 y1 x2 y2 : ℝ}

/-- An iteration compares the neighbour if it makes progress, and skips it otherwise. -/
theorem nextHopStep_eq (s : Option (NbEntry ℝ) × ℝ) (ep : NbEntry ℝ) :
    (Progress roadid1 roadid2 roadid3 x1 y1 x2 y2 ep →
      nextHopStep roadid1 roadid2 roadid3 x1 y1 x2 y2 s ep =
        FirstLeast.scan (offGoal x1 y1) s ep) ∧
    (¬ Progress roadid1 roadid2 roadid3 x1 y1 x2 y2 ep →
      nextHopStep roadid1 roadid2 roadid3 x1 y1 x2 y2 s ep = s) := by
  have htry : OnRoads roadid1 roadid2 roadid3 ep →
      nextHopStep roadid1 roadid2 roadid3 x1 y1 x2 y2 s ep = tryHop x1 y1 x2 y2 s ep := by
    intro h
    unfold nextHopStep
    split_ifs with h1 h2 h3
    · rfl
    · rfl
    · rfl
    · obtain h | ⟨h, hne⟩ | h := h
      · exact absurd h h1
      · exact absurd ⟨hne, h⟩ h2
      · exact absurd h h3
  constructor
  · rintro ⟨hroad, hcloser⟩
    rw [htry hroad, tryHop, FirstLeast.scan]
    have habs : Scalar.abs (msvrCalDist x1 y1 ep.ninfo.x ep.ninfo.y - goal) = offGoal x1 y1 ep := rfl
    simp only [habs, Bool.and_eq_true, MapManager.lt_iff, hcloser, and_true]
  · intro hnot
    by_cases hroad : OnRoads roadid1 roadid2 roadid3 ep
    · have hfar : ¬ msvrCalDist x2 y2 ep.ninfo.x ep.ninfo.y < msvrCalDist x1 y1 x2 y2 :=
        fun hcloser => hnot ⟨hroad, hcloser⟩
      rw [htry hroad, tryHop]
      simp only [Bool.and_eq_true, MapManager.lt_iff, hfar, and_false, if_false]
    · unfold nextHopStep
      rw [if_neg (fun h => hroad (Or.inl h)),
        if_neg (fun h => hroad (Or.inr (Or.inl ⟨h.2, h.1⟩))),
        if_neg (fun h => hroad (Or.inr (Or.inr h)))]

/-- The loop compares the neighbours that make progress. -/
theorem foldl_nextHopStep (nbl : List (NbEntry ℝ)) : ∀ s : Option (NbEntry ℝ) × ℝ,
    letI := Classical.decPred (Progress roadid1 roadid2 roadid3 x1 y1 x2 y2)
    nbl.foldl (nextHopStep roadid1 roadid2 roadid3 x1 y1 x2 y2) s =
      (nbl.filter (Progress roadid1 roadid2 roadid3 x1 y1 x2 y2)).foldl
        (FirstLeast.scan (offGoal x1 y1)) s := by
  induction nbl with
  | nil => exact fun _ => rfl
  | cons ep nbl ih =>
      intro s
      rw [List.foldl_cons, ih]
      by_cases h : Progress roadid1 roadid2 roadid3 x1 y1 x2 y2 ep
      · rw [List.filter_cons_of_pos (by simpa using h), List.foldl_cons, (nextHopStep_eq s ep).1 h]
      · rw [List.filter_cons_of_neg (by simpa using h), (nextHopStep_eq s ep).2 h]

/-- What the loop ends with: no neighbour is eligible, or it has the first eligible one that is
closest to `goal`. -/
theorem msvrNblFindNextHop_cases (nbl : List (NbEntry ℝ)) :
    (msvrNblFindNextHop nbl roadid1 roadid2 roadid3 x1 y1 x2 y2 = none ∧
      ∀ ep ∈ nbl, ¬ Eligible roadid1 roadid2 roadid3 x1 y1 x2 y2 ep) ∨
    ∃ ep, msvrNblFindNextHop nbl roadid1 roadid2 roadid3 x1 y1 x2 y2 = some ep ∧
      FirstEligible roadid1 roadid2 roadid3 x1 y1 x2 y2 nbl ep := by
  classical
  unfold msvrNblFindNextHop
  rw [foldl_nextHopStep]
  obtain ⟨he, hle⟩ | ⟨ep, he, hlt, hfirst⟩ :=
    FirstLeast.foldl_scan (offGoal x1 y1) (Scalar.ofNat 200)
      (nbl.filter (Progress roadid1 roadid2 roadid3 x1 y1 x2 y2))
  · rw [he]
    refine Or.inl ⟨rfl, fun ep hep h => ?_⟩
    have hprogress : Progress roadid1 roadid2 roadid3 x1 y1 x2 y2 ep := ⟨h.road, h.closer⟩
    have hle := hle ep (List.mem_filter.mpr ⟨hep, decide_eq_true hprogress⟩)
    exact absurd h.near (not_lt.mpr hle)
  · rw [he]
    obtain ⟨pre, post, hsplit, hep, hpre, hpost⟩ := hfirst.of_filter
    obtain ⟨hroad, hcloser⟩ := of_decide_eq_true hep
    exact Or.inr ⟨ep, rfl, pre, post, hsplit, ⟨hroad, hcloser, hlt⟩,
      fun m hm h => hpre m hm (decide_eq_true ⟨h.road, h.closer⟩),
      fun m hm h => hpost m hm (decide_eq_true ⟨h.road, h.closer⟩)⟩

/-- The address that `msvr_get_next_hop` returns is that of the first closest eligible neighbour,
or `-1` if none is eligible. -/
theorem msvrGetNextHop_cases (nbl : List (NbEntry ℝ)) :
    (msvrGetNextHop nbl roadid1 roadid2 roadid3 x1 y1 x2 y2 true = some (-1) ∧
      ∀ ep ∈ nbl, ¬ Eligible roadid1 roadid2 roadid3 x1 y1 x2 y2 ep) ∨
    ∃ ep, msvrGetNextHop nbl roadid1 roadid2 roadid3 x1 y1 x2 y2 true = some ep.ninfo.dst ∧
      FirstEligible roadid1 roadid2 roadid3 x1 y1 x2 y2 nbl ep := by
  rw [msvrGetNextHop, if_pos rfl]
  obtain ⟨he, hnone⟩ | ⟨ep, he, hfirst⟩ := @msvrNblFindNextHop_cases
    roadid1 roadid2 roadid3 x1 y1 x2 y2 nbl
  · rw [he]
    exact Or.inl ⟨rfl, hnone⟩
  · rw [he]
    exact Or.inr ⟨ep, rfl, hfirst⟩

/-- **The next hop.**  `msvr_nbl_find_next_hop` returns `NULL` exactly when no neighbour is
eligible, and otherwise the first eligible one that is closest to `goal`.  It is closer to the
destination. -/
theorem msvrNblFindNextHop_spec (nbl : List (NbEntry ℝ)) (roadid1 roadid2 roadid3 : ℤ)
    (x1 y1 x2 y2 : ℝ) :
    (msvrNblFindNextHop nbl roadid1 roadid2 roadid3 x1 y1 x2 y2 = none ↔
      ∀ ep ∈ nbl, ¬ Eligible roadid1 roadid2 roadid3 x1 y1 x2 y2 ep) ∧
    ∀ ep, msvrNblFindNextHop nbl roadid1 roadid2 roadid3 x1 y1 x2 y2 = some ep →
      FirstEligible roadid1 roadid2 roadid3 x1 y1 x2 y2 nbl ep ∧
      msvrCalDist x2 y2 ep.ninfo.x ep.ninfo.y < msvrCalDist x1 y1 x2 y2 := by
  obtain ⟨he, hnone⟩ | ⟨ep, he, hfirst⟩ := msvrNblFindNextHop_cases nbl
  · rw [he]
    exact ⟨iff_of_true rfl hnone, fun ep h => by cases h⟩
  · rw [he]
    have helig : Eligible roadid1 roadid2 roadid3 x1 y1 x2 y2 ep := by
      obtain ⟨-, -, -, h, -⟩ := hfirst
      exact h
    have hmem : ep ∈ nbl := by
      obtain ⟨pre, post, rfl, -⟩ := hfirst
      exact List.mem_append_right _ List.mem_cons_self
    refine ⟨iff_of_false (by simp) (fun h => h ep hmem helig), fun ep' h => ?_⟩
    cases h
    exact ⟨hfirst, helig.closer⟩

end spec

end GeoSvr.MsvrNblist
