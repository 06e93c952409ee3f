import GeoSvr.NeighManager
import GeoSvr.RoadMap
import GeoSvr.SignedMin

/-! # The choice of the next hop (`neigh_manager.cc`, `routing_manager.cc`)

`restricted_forwarding_algo` goes through the roads of a route from the last one back, and on the
first of them that has a DIRECT neighbour it picks one.  It wants the neighbour whose distance is
closest to `RESTRICTED_RANGE`; but the best value so far is kept with its sign, so a neighbour
that is nearer than `RESTRICTED_RANGE` is never replaced.

A road that is not in the map has no record; the code reads it when it looks at a DIRECT
neighbour, which is `none` here.  Address 0 is no host. -/

namespace GeoSvr.Daemon

open MapManager (DedupedData Route getRoadInfo)

variable {R : Type*}

/-! ### Neighbours -/

/-- `dst_is_direct`. -/
def dstIsDirect (s : Node R) (dstAddr : UInt32) : Bool :=
  match neighListFind s dstAddr with
  | none => false
  | some n => !n.state.indirect

/-- `get_neighbor`. -/
def getNeighbor (s : Node R) (addr : UInt32) : Option (Neighbor R) := neighListFind s addr

section scalar

variable [Scalar R]

/-- `on_same_road`. -/
def onSameRoad (n : Neighbor R) (currRoad : DedupedData R) : Bool :=
  Scalar.lt (Scalar.distNode2line n.latitude n.longitude currRoad.startx currRoad.starty
    currRoad.endx currRoad.endy) (Scalar.ofNat 100)

/-- The second test of `restricted_forwarding_algo`: the `mainid` of the road is converted to
`u_int32_t`. -/
def onRoad (n : Neighbor R) (currRoad : DedupedData R) : Bool :=
  n.roadid == .ofInt currRoad.mainid || onSameRoad n currRoad

/-- `dist_abs`: how much farther than `RESTRICTED_RANGE` the neighbour is. -/
def distAbs (env : Env R) (n : Neighbor R) : R :=
  Scalar.distance env.longitude env.latitude n.longitude n.latitude - Scalar.ofNat 100

/-- `abs(dist_abs) < min_dist`, where no value is the maximum of `double`. -/
def lessThanMin (x : R) : Option R → Bool
  | none => true
  | some minDist => Scalar.lt (Scalar.abs x) minDist

/-- The inner loop of `restricted_forwarding_algo`: `next` and `min_dist`. -/
def scanNeighbors (env : Env R) (currRoad : Option (DedupedData R)) :
    List (Neighbor R) → UInt32 × Option R → Option (UInt32 × Option R)
  | [], acc => some acc
  | n :: ns, acc =>
      if n.state.direct then
        match currRoad with
        | none => none
        | some road =>
            if onRoad n road && lessThanMin (distAbs env n) acc.2 then
              scanNeighbors env currRoad ns (n.ipAddr, some (distAbs env n))
            else scanNeighbors env currRoad ns acc
      else scanNeighbors env currRoad ns acc

/-- The outer loop, over the roads from the last one. -/
def scanRoads (env : Env R) (table : List (DedupedData R)) (neiList : List (Neighbor R)) :
    List Route → UInt32 × Option R → Option UInt32
  | [], acc => some acc.1
  | r :: rs, acc =>
      match scanNeighbors env (getRoadInfo table r.roadid) neiList acc with
      | none => none
      | some acc => if acc.1 ≠ 0 then some acc.1 else scanRoads env table neiList rs acc

/-- `restricted_forwarding_algo`, which does not read `dstx` and `dsty`. -/
def restrictedForwardingAlgo (env : Env R) (table : List (DedupedData R)) (s : Node R)
    (ofr : List Route) : Option UInt32 :=
  if s.num = 0 then some 0
  else if ofr.length = 0 then some 0
  else scanRoads env table s.neiList ofr.reverse (0, none)

/-- `next_hop`. -/
def nextHop (env : Env R) (table : List (DedupedData R)) (s : Node R) (ofr : List Route) :
    Option UInt32 := restrictedForwardingAlgo env table s ofr

/-! ### The decision of a relay -/

/-- What a handler answers: the packet goes to its destination without a route, it is dropped
with a warning, or it goes to the next hop with the route. -/
inductive Decision
  | withoutHandle
  | drop (error : String)
  | forward (ofr : List Route) (nhop : UInt32)
deriving DecidableEq

/-- The tests of `handle_req_route_forward_normal`, where `ofr` is the result of `extract_ofr`. -/
def forwardDecision (localAddr : UInt32) (env : Env R) (table : List (DedupedData R)) (s : Node R)
    (dst : UInt32) (ofr : Option (List Route)) : Option Decision :=
  if dst = localAddr then some .withoutHandle
  else if dstIsDirect s dst then some .withoutHandle
  else
    match getNeighbor s dst with
    | none => some (.drop "can't find neighbor")
    | some _ =>
        match ofr with
        | none => none
        | some ofr =>
            if ofr.length = 0 then some (.drop "can't get an ofr")
            else
              match nextHop env table s ofr with
              | none => none
              | some nhop =>
                  if nhop = 0 then some (.drop "can't find next hop")
                  else some (.forward ofr nhop)

end scalar

/-! ### The candidates -/

section candidates

variable [Scalar R]

/-- The DIRECT neighbours on a road. -/
def candidates (neiList : List (Neighbor R)) (road : DedupedData R) : List (Neighbor R) :=
  neiList.filter (fun n => n.state.direct && onRoad n road)

/-- The DIRECT neighbours on the first of the roads that has one.  A road without a record ends the
search: there is no DIRECT neighbour at all, or the code reads the missing record. -/
def lastCandidates (table : List (DedupedData R)) (neiList : List (Neighbor R)) :
    List Route → List (Neighbor R)
  | [] => []
  | r :: rs =>
      match getRoadInfo table r.roadid with
      | none => []
      | some road =>
          if candidates neiList road = [] then lastCandidates table neiList rs
          else candidates neiList road

theorem lastCandidates_direct {table : List (DedupedData R)} {l : List (Neighbor R)} :
    ∀ {rs : List Route} {n : Neighbor R}, n ∈ lastCandidates table l rs → n.state.direct = true
  | [], _, h => absurd h List.not_mem_nil
  | r :: rs, n, h => by
      unfold lastCandidates at h
      cases hroad : getRoadInfo table r.roadid with
      | none =>
          rw [hroad] at h
          cases h
      | some road =>
          rw [hroad] at h
          simp only at h
          split_ifs at h with hc
          · exact lastCandidates_direct h
          · have hf := List.of_mem_filter h
            rw [Bool.and_eq_true] at hf
            exact hf.1

theorem lastCandidates_subset {table : List (DedupedData R)} {l : List (Neighbor R)} :
    ∀ {rs : List Route}, lastCandidates table l rs ⊆ l
  | [], _, h => absurd h List.not_mem_nil
  | r :: rs, n, h => by
      unfold lastCandidates at h
      cases hroad : getRoadInfo table r.roadid with
      | none =>
          rw [hroad] at h
          cases h
      | some road =>
          rw [hroad] at h
          simp only at h
          split_ifs at h with hc
          · exact lastCandidates_subset h
          · exact List.mem_of_mem_filter h

/-- What the inner loop does with the candidates. -/
def pick (env : Env R) : List (Neighbor R) → UInt32 × Option R → UInt32 × Option R
  | [], acc => acc
  | n :: ns, acc =>
      if lessThanMin (distAbs env n) acc.2 then pick env ns (n.ipAddr, some (distAbs env n))
      else pick env ns acc

theorem scanNeighbors_eq (env : Env R) (road : DedupedData R) : ∀ (l : List (Neighbor R))
    (acc : UInt32 × Option R),
    scanNeighbors env (some road) l acc = some (pick env (candidates l road) acc)
  | [], _ => rfl
  | n :: ns, acc => by
      unfold scanNeighbors candidates
      rw [List.filter_cons]
      cases hd : n.state.direct with
      | false => exact scanNeighbors_eq env road ns acc
      | true =>
          cases hr : onRoad n road with
          | false =>
              simp only [hr, Bool.false_and, Bool.and_false, Bool.false_eq_true, if_true, if_false]
              exact scanNeighbors_eq env road ns acc
          | true =>
              simp only [hr, Bool.true_and, if_true, pick]
              split_ifs with hlt
              · exact scanNeighbors_eq env road ns _
              · exact scanNeighbors_eq env road ns acc

/-- A road without a record has no DIRECT neighbour to look at. -/
theorem scanNeighbors_none {env : Env R} {acc acc' : UInt32 × Option R} :
    ∀ {l : List (Neighbor R)}, scanNeighbors env none l acc = some acc' →
      acc' = acc ∧ ∀ n ∈ l, n.state.direct = false
  | [], h => by
      cases h
      exact ⟨rfl, fun n hn => absurd hn List.not_mem_nil⟩
  | n :: ns, h => by
      unfold scanNeighbors at h
      split_ifs at h with hd
      obtain ⟨he, hrest⟩ := scanNeighbors_none h
      refine ⟨he, fun m hm => ?_⟩
      obtain rfl | hm := List.mem_cons.mp hm
      · simpa using hd
      · exact hrest m hm

/-- The inner loop returns what it had, or a candidate. -/
theorem scanNeighbors_sound {env : Env R} {l : List (Neighbor R)} {road : Option (DedupedData R)}
    {acc acc' : UInt32 × Option R} (h : scanNeighbors env road l acc = some acc') :
    acc' = acc ∨ ∃ n ∈ l, n.state.direct = true ∧ acc'.1 = n.ipAddr ∧
      ∃ d, road = some d ∧ onRoad n d = true := by
  induction l generalizing acc with
  | nil =>
      cases h
      exact Or.inl rfl
  | cons n ns ih =>
      have hrest : ∀ {acc}, scanNeighbors env road ns acc = some acc' → acc' = acc ∨
          ∃ m ∈ n :: ns, m.state.direct = true ∧ acc'.1 = m.ipAddr ∧
            ∃ d, road = some d ∧ onRoad m d = true := by
        intro acc h
        obtain h | ⟨m, hm, hrest⟩ := ih h
        · exact Or.inl h
        · exact Or.inr ⟨m, List.mem_cons_of_mem _ hm, hrest⟩
      unfold scanNeighbors at h
      cases hd : n.state.direct with
      | false =>
          rw [hd] at h
          exact hrest h
      | true =>
          rw [hd] at h
          cases road with
          | none => cases h
          | some d =>
              simp only [if_true] at h
              split_ifs at h with hon
              · rw [Bool.and_eq_true] at hon
                obtain rfl | hfound := hrest h
                · exact Or.inr ⟨n, List.mem_cons_self, hd, rfl, d, rfl, hon.1⟩
                · exact Or.inr hfound
              · exact hrest h

/-- The outer loop returns what it had, or a DIRECT neighbour on one of the roads. -/
theorem scanRoads_sound {env : Env R} {table : List (DedupedData R)} {l : List (Neighbor R)}
    {nhop : UInt32} : ∀ {rs : List Route} {acc : UInt32 × Option R},
      scanRoads env table l rs acc = some nhop → nhop = acc.1 ∨
        ∃ n ∈ l, n.state.direct = true ∧ nhop = n.ipAddr ∧
          ∃ r ∈ rs, ∃ d, getRoadInfo table r.roadid = some d ∧ onRoad n d = true
  | [], acc, h => by
      cases h
      exact Or.inl rfl
  | r :: rs, acc, h => by
      unfold scanRoads at h
      cases hscan : scanNeighbors env (getRoadInfo table r.roadid) l acc with
      | none =>
          rw [hscan] at h
          cases h
      | some acc' =>
          rw [hscan] at h
          have hhere : acc'.1 = acc.1 ∨ ∃ n ∈ l, n.state.direct = true ∧ acc'.1 = n.ipAddr ∧
              ∃ r' ∈ r :: rs, ∃ d, getRoadInfo table r'.roadid = some d ∧ onRoad n d = true := by
            obtain rfl | ⟨n, hn, hdir, he, d, hd, hon⟩ := scanNeighbors_sound hscan
            · exact Or.inl rfl
            · exact Or.inr ⟨n, hn, hdir, he, r, List.mem_cons_self, d, hd, hon⟩
          simp only at h
          split_ifs at h with h0
          · cases h
            exact hhere
          · obtain rfl | ⟨n, hn, hdir, he, r', hr', hroad⟩ := scanRoads_sound h
            · exact hhere
            · exact Or.inr ⟨n, hn, hdir, he, r', List.mem_cons_of_mem _ hr', hroad⟩

/-- A next hop is a DIRECT neighbour on a road of the route. -/
theorem nextHop_sound {env : Env R} {table : List (DedupedData R)} {s : Node R} {ofr : List Route}
    {nhop : UInt32} (h : nextHop env table s ofr = some nhop) (h0 : nhop ≠ 0) :
    ∃ n ∈ s.neiList, n.state.direct = true ∧ nhop = n.ipAddr ∧
      ∃ r ∈ ofr, ∃ d, getRoadInfo table r.roadid = some d ∧ onRoad n d = true := by
  unfold nextHop restrictedForwardingAlgo at h
  split_ifs at h with hnum hlen
  · exact absurd (Option.some.inj h).symm h0
  · exact absurd (Option.some.inj h).symm h0
  · obtain rfl | ⟨n, hn, hdir, he, r, hr, hroad⟩ := scanRoads_sound h
    · exact absurd rfl h0
    · exact ⟨n, hn, hdir, he, r, List.mem_reverse.mp hr, hroad⟩

end candidates

/-! ### Which candidate is chosen -/

/-- The candidate `n` after `pre` and before `post` can be chosen: it is closer to
`RESTRICTED_RANGE` than those before it, and it is nearer than that or none after it is closer. -/
def Eligible (env : Env ℝ) (pre : List (Neighbor ℝ)) (n : Neighbor ℝ) (post : List (Neighbor ℝ)) :
    Prop :=
  (∀ m ∈ pre, |distAbs env n| < |distAbs env m|) ∧
    (distAbs env n < 0 ∨ ∀ m ∈ post, |distAbs env n| ≤ |distAbs env m|)

/-- The first of the candidates that can be chosen. -/
def Chosen (env : Env ℝ) (c : List (Neighbor ℝ)) (n : Neighbor ℝ) : Prop :=
  ∃ pre post, c = pre ++ n :: post ∧ Eligible env pre n post ∧
    ∀ pre₁ m pre₂, pre = pre₁ ++ m :: pre₂ → ¬ Eligible env pre₁ m (pre₂ ++ n :: post)

section chosen

variable {env : Env ℝ}

/-- The inner loop is a search for the least `|dist_abs|` that keeps the sign, whatever the
distances are. -/
theorem pick_scan (dist : ℝ → ℝ → ℝ → ℝ → ℝ) (line : ℝ → ℝ → ℝ → ℝ → ℝ → ℝ → ℝ) (env : Env ℝ)
    (next : UInt32) : ∀ (c : List (Neighbor ℝ)) (b : Option (Neighbor ℝ)),
      letI := scalarWith dist line
      pick env c (b.elim next Neighbor.ipAddr, b.map (distAbs env)) =
        ((SignedMin.scan (distAbs env) c b).elim next Neighbor.ipAddr,
          (SignedMin.scan (distAbs env) c b).map (distAbs env))
  | [], _ => rfl
  | n :: c, none => pick_scan dist line env next c (some n)
  | n :: c, some b => by
      let _ := scalarWith dist line
      have hless : lessThanMin (distAbs env n) (some (distAbs env b)) = true ↔
          |distAbs env n| < distAbs env b := decide_eq_true_iff
      rw [SignedMin.scan]
      simp only [Option.map_some, Option.elim_some, pick]
      by_cases h : |distAbs env n| < distAbs env b
      · rw [if_pos (hless.mpr h), if_pos h]
        exact pick_scan dist line env next c (some n)
      · rw [if_neg (fun hl => h (hless.mp hl)), if_neg h]
        exact pick_scan dist line env next c (some b)

/-- The inner loop chooses a candidate if there is one. -/
theorem pick_spec (env : Env ℝ) {c : List (Neighbor ℝ)} (hc : c ≠ []) (next : UInt32) :
    ∃ n, Chosen env c n ∧ (pick env c (next, none)).1 = n.ipAddr := by
  obtain ⟨n, hscan, hn⟩ := SignedMin.scan_chosen (f := distAbs env) hc
  have hpick := pick_scan Sphere.distance Sphere.distNode2line env next c none
  refine ⟨n, hn, (congrArg Prod.fst hpick).trans ?_⟩
  show (SignedMin.scan (distAbs env) c none).elim next Neighbor.ipAddr = n.ipAddr
  rw [hscan]
  rfl

/-- Only one candidate is chosen. -/
theorem Chosen.unique {c : List (Neighbor ℝ)} {n n' : Neighbor ℝ} (h : Chosen env c n)
    (h' : Chosen env c n') : n = n' :=
  SignedMin.Chosen.unique h h'

theorem Chosen.mem {c : List (Neighbor ℝ)} {n : Neighbor ℝ} (h : Chosen env c n) : n ∈ c :=
  SignedMin.Chosen.mem h

end chosen

/-! ### What is chosen -/

theorem scanRoads_spec (env : Env ℝ) {table : List (DedupedData ℝ)} {l : List (Neighbor ℝ)}
    (hip : ∀ n ∈ l, n.ipAddr ≠ 0) : ∀ rs : List Route,
    (lastCandidates table l rs = [] ∧ (scanRoads env table l rs (0, none) = none ∨
      scanRoads env table l rs (0, none) = some 0)) ∨
    ∃ n, Chosen env (lastCandidates table l rs) n ∧ n ∈ l ∧
      scanRoads env table l rs (0, none) = some n.ipAddr
  | [] => Or.inl ⟨rfl, Or.inr rfl⟩
  | r :: rs => by
      unfold scanRoads lastCandidates
      cases hroad : getRoadInfo table r.roadid with
      | none =>
          refine Or.inl ⟨rfl, ?_⟩
          cases hscan : scanNeighbors env none l (0, none) with
          | none => exact Or.inl rfl
          | some acc =>
              obtain ⟨rfl, hnone⟩ := scanNeighbors_none hscan
              simp only [ne_eq, not_true_eq_false, if_false]
              obtain ⟨-, h⟩ | ⟨n, hch, hn, -⟩ := scanRoads_spec env hip rs
              · exact h
              · have hd := lastCandidates_direct hch.mem
                rw [hnone n hn] at hd
                cases hd
      | some road =>
          simp only [scanNeighbors_eq]
          by_cases hc : candidates l road = []
          · rw [if_pos hc, hc]
            simp only [pick, ne_eq, not_true_eq_false, if_false]
            exact scanRoads_spec env hip rs
          · obtain ⟨n, hch, he⟩ := pick_spec env hc 0
            have hn : n ∈ l := List.mem_of_mem_filter hch.mem
            rw [if_neg hc, he, if_pos (hip n hn)]
            exact Or.inr ⟨n, hch, hn, rfl⟩

/-- **The next hop** is the candidate that is chosen, if there is one. -/
theorem nextHop_spec (env : Env ℝ) (table : List (DedupedData ℝ)) {s : Node ℝ} (ofr : List Route)
    (hnum : s.num = s.neiList.length) (hip : ∀ n ∈ s.neiList, n.ipAddr ≠ 0) :
    (lastCandidates table s.neiList ofr.reverse = [] ∧
      (nextHop env table s ofr = none ∨ nextHop env table s ofr = some 0)) ∨
    ∃ n, Chosen env (lastCandidates table s.neiList ofr.reverse) n ∧ n ∈ s.neiList ∧
      nextHop env table s ofr = some n.ipAddr := by
  unfold nextHop restrictedForwardingAlgo
  split_ifs with h0 hlen
  · have hempty : s.neiList = [] := List.length_eq_zero_iff.mp (hnum ▸ h0)
    obtain ⟨hc, -⟩ | ⟨n, -, hn, -⟩ := scanRoads_spec env hip ofr.reverse
    · exact Or.inl ⟨hc, Or.inr rfl⟩
    · rw [hempty] at hn
      cases hn
  · rw [List.length_eq_zero_iff.mp hlen]
    exact Or.inl ⟨rfl, Or.inr rfl⟩
  · exact scanRoads_spec env hip ofr.reverse

end GeoSvr.Daemon
