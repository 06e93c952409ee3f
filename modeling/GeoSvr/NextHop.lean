import GeoSvr.Beacon
import GeoSvr.Forwarding

/-! # When the next hop is the right one (`neigh_manager.cc`)

`restricted_forwarding_algo` should go to the last road of the route that has a DIRECT neighbour on
it and return the neighbour there whose distance is closest to `RESTRICTED_RANGE`, or 0 when there
is no such road (`RightHop`).  Two slips keep it from that.  The best value so far keeps its sign,
so a neighbour nearer than `RESTRICTED_RANGE` is not replaced by a better one that comes later in
the list; and the address 0 stands for no neighbour, but a neighbour can have it.

The distances are arbitrary functions here (`scalarWith`). -/

namespace GeoSvr.Daemon

open MapManager (DedupedData Route getRoadInfo)

/-! ### The last road with a neighbour -/

section lastRoad

variable {R : Type*} [Scalar R]

/-- `d` is the record of the last road of the route with a DIRECT neighbour on it. -/
def LastRoad (table : List (DedupedData R)) (l : List (Neighbor R)) (ofr : List Route)
    (d : DedupedData R) : Prop :=
  ∃ rs r rs', ofr = rs ++ r :: rs' ∧ getRoadInfo table r.roadid = some d ∧ candidates l d ≠ [] ∧
    ∀ r' ∈ rs', ∀ d', getRoadInfo table r'.roadid = some d' → candidates l d' = []

/-- No DIRECT neighbour is on a road of the route. -/
def NoneOn (table : List (DedupedData R)) (l : List (Neighbor R)) (ofr : List Route) : Prop :=
  ∀ r ∈ ofr, ∀ d, getRoadInfo table r.roadid = some d →
    ∀ n ∈ l, ¬ (n.state.direct = true ∧ onRoad n d = true)

variable {table : List (DedupedData R)} {l : List (Neighbor R)}

theorem candidates_eq_nil_iff {d : DedupedData R} :
    candidates l d = [] ↔ ∀ n ∈ l, ¬ (n.state.direct = true ∧ onRoad n d = true) := by
  rw [candidates, List.filter_eq_nil_iff]
  simp only [Bool.and_eq_true]

theorem LastRoad.not_noneOn {ofr : List Route} {d : DedupedData R}
    (h : LastRoad table l ofr d) : ¬ NoneOn table l ofr := by
  obtain ⟨rs, r, rs', rfl, hd, hc, -⟩ := h
  intro hnone
  exact hc (candidates_eq_nil_iff.mpr (hnone r (by simp) d hd))

/-- There is one last road with a neighbour. -/
theorem LastRoad.unique {ofr : List Route} {d d' : DedupedData R} (h : LastRoad table l ofr d)
    (h' : LastRoad table l ofr d') : d = d' := by
  obtain ⟨rs, r, rs', he, hd, hc, hrest⟩ := h
  obtain ⟨qs, q, qs', he', hd', hc', hrest'⟩ := h'
  rw [he] at he'
  obtain ⟨as, hpre, hcons⟩ | ⟨as, hpre, hcons⟩ := List.append_eq_append_iff.mp he'
  · cases as with
    | nil =>
        cases hcons
        exact Option.some.inj (hd.symm.trans hd')
    | cons a as =>
        rw [List.cons_append] at hcons
        obtain ⟨rfl, rfl⟩ := List.cons.inj hcons
        exact absurd (hrest q (by simp) d' hd') hc'
  · cases as with
    | nil =>
        cases hcons
        exact Option.some.inj (hd.symm.trans hd')
    | cons a as =>
        rw [List.cons_append] at hcons
        obtain ⟨rfl, rfl⟩ := List.cons.inj hcons
        exact absurd (hrest' r (by simp) d hd) hc

end lastRoad

/-! ### What the search returns -/

section scan

variable (dist : ℝ → ℝ → ℝ → ℝ → ℝ) (line : ℝ → ℝ → ℝ → ℝ → ℝ → ℝ → ℝ) {env : Env ℝ}
  {table : List (DedupedData ℝ)} {l : List (Neighbor ℝ)}

/-- A search that goes on from the neighbour `b` returns its address, or that of a closer one. -/
theorem scanRoads_resume : ∀ {rs : List Route} (b : Neighbor ℝ),
    letI := scalarWith dist line
    (∀ r ∈ rs, getRoadInfo table r.roadid ≠ none) →
      ∃ res, scanRoads env table l rs (b.ipAddr, some (distAbs env b)) = some res ∧
        (res = b.ipAddr ∨ ∃ k ∈ l, res = k.ipAddr ∧ |distAbs env k| < distAbs env b)
  | [], b, _ => ⟨b.ipAddr, rfl, Or.inl rfl⟩
  | r :: rs, b, h => by
      let _ := scalarWith dist line
      obtain ⟨d, hd⟩ := Option.ne_none_iff_exists'.mp (h r List.mem_cons_self)
      obtain ⟨n, hscan, hor⟩ := SignedMin.scan_some (f := distAbs env) (candidates l d) b
      have hpick := pick_scan dist line env 0 (candidates l d) (some b)
      rw [hscan] at hpick
      have hn : scanNeighbors env (getRoadInfo table r.roadid) l (b.ipAddr, some (distAbs env b)) =
          some (n.ipAddr, some (distAbs env n)) := by
        rw [hd, scanNeighbors_eq]
        exact congrArg some hpick
      have hclose : n.ipAddr = b.ipAddr ∨
          ∃ k ∈ l, n.ipAddr = k.ipAddr ∧ |distAbs env k| < distAbs env b := by
        obtain rfl | ⟨hmem, hlt⟩ := hor
        · exact Or.inl rfl
        · exact Or.inr ⟨n, List.mem_of_mem_filter hmem, rfl, hlt⟩
      simp only [scanRoads, hn]
      split_ifs with h0
      · exact ⟨n.ipAddr, rfl, hclose⟩
      · obtain ⟨res, hres, he | ⟨k, hk, he, hlt⟩⟩ :=
          scanRoads_resume n (fun r' hr' => h r' (List.mem_cons_of_mem _ hr'))
        · exact ⟨res, hres, he ▸ hclose⟩
        · refine ⟨res, hres, Or.inr ⟨k, hk, he, ?_⟩⟩
          obtain rfl | ⟨-, hn⟩ := hor
          · exact hlt
          · exact (hlt.trans_le (le_abs_self _)).trans hn

/-- The search ends on the first of the roads with a neighbour, with the neighbour that is chosen
there; but if that one has the address 0 it goes on. -/
theorem scanRoads_right (env : Env ℝ) : ∀ {rs : List Route},
    letI := scalarWith dist line
    (∀ r ∈ rs, getRoadInfo table r.roadid ≠ none) →
      ((∀ r ∈ rs, ∀ d, getRoadInfo table r.roadid = some d → candidates l d = []) ∧
        scanRoads env table l rs (0, none) = some 0) ∨
      ∃ pre r post d n, rs = pre ++ r :: post ∧ getRoadInfo table r.roadid = some d ∧
        candidates l d ≠ [] ∧
        (∀ r' ∈ pre, ∀ d', getRoadInfo table r'.roadid = some d' → candidates l d' = []) ∧
        SignedMin.Chosen (distAbs env) (candidates l d) n ∧
        ∃ res, scanRoads env table l rs (0, none) = some res ∧
          if n.ipAddr = 0 then
            res = 0 ∨ ∃ k ∈ l, res = k.ipAddr ∧ |distAbs env k| < distAbs env n
          else res = n.ipAddr
  | [], _ => Or.inl ⟨fun r hr => absurd hr List.not_mem_nil, rfl⟩
  | r :: rs, h => by
      let _ := scalarWith dist line
      have hrest : ∀ r' ∈ rs, getRoadInfo table r'.roadid ≠ none :=
        fun r' hr' => h r' (List.mem_cons_of_mem _ hr')
      obtain ⟨d, hd⟩ := Option.ne_none_iff_exists'.mp (h r List.mem_cons_self)
      have hpick := pick_scan dist line env 0 (candidates l d) none
      by_cases hc : candidates l d = []
      · have hn : scanNeighbors env (getRoadInfo table r.roadid) l (0, none) = some (0, none) := by
          rw [hd, scanNeighbors_eq, hc]
          rfl
        have hhere : ∀ d', getRoadInfo table r.roadid = some d' → candidates l d' = [] := by
          intro d' hd'
          rw [hd] at hd'
          cases hd'
          exact hc
        simp only [scanRoads, hn, ne_eq, not_true_eq_false, if_false]
        obtain ⟨hnone, hres⟩ | ⟨pre, r', post, d', n, rfl, hd', hc', hpre, hch, hres⟩ :=
          scanRoads_right env hrest
        · exact Or.inl ⟨List.forall_mem_cons.mpr ⟨hhere, hnone⟩, hres⟩
        · exact Or.inr ⟨r :: pre, r', post, d', n, rfl, hd', hc',
            List.forall_mem_cons.mpr ⟨hhere, hpre⟩, hch, hres⟩
      · obtain ⟨n, hscan, hch⟩ := SignedMin.scan_chosen (f := distAbs env) hc
        rw [hscan] at hpick
        have hn : scanNeighbors env (getRoadInfo table r.roadid) l (0, none) =
            some (n.ipAddr, some (distAbs env n)) := by
          rw [hd, scanNeighbors_eq]
          exact congrArg some hpick
        refine Or.inr ⟨[], r, rs, d, n, rfl, hd, hc,
          fun r' hr' => absurd hr' List.not_mem_nil, hch, ?_⟩
        simp only [scanRoads, hn, ne_eq]
        by_cases h0 : n.ipAddr = 0
        · obtain ⟨res, hres, hor⟩ := @scanRoads_resume dist line env table l rs n hrest
          rw [h0] at hor
          rw [if_neg (not_not.mpr h0)]
          exact ⟨res, hres, by rw [if_pos h0]; exact hor⟩
        · rw [if_pos h0]
          exact ⟨n.ipAddr, rfl, by rw [if_neg h0]⟩

/-- What `restricted_forwarding_algo` returns. -/
theorem restrictedForwardingAlgo_cases (env : Env ℝ) {s : Node ℝ} {ofr : List Route} (hs : Listed s)
    (hroads : ∀ r ∈ ofr, getRoadInfo table r.roadid ≠ none) :
    letI := scalarWith dist line
    (NoneOn table s.neiList ofr ∧ restrictedForwardingAlgo env table s ofr = some 0) ∨
    ∃ d n res, LastRoad table s.neiList ofr d ∧
      SignedMin.Chosen (distAbs env) (candidates s.neiList d) n ∧
      restrictedForwardingAlgo env table s ofr = some res ∧
      if n.ipAddr = 0 then
        res = 0 ∨ ∃ k ∈ s.neiList, res = k.ipAddr ∧ |distAbs env k| < distAbs env n
      else res = n.ipAddr := by
  let _ := scalarWith dist line
  unfold restrictedForwardingAlgo
  split_ifs with hnum hlen
  · have hempty : s.neiList = [] := List.length_eq_zero_iff.mp (hs.num ▸ hnum)
    refine Or.inl ⟨fun r _ d _ n hn => ?_, rfl⟩
    rw [hempty] at hn
    cases hn
  · refine Or.inl ⟨fun r hr => ?_, rfl⟩
    rw [List.length_eq_zero_iff.mp hlen] at hr
    cases hr
  · have hrev : ∀ r ∈ ofr.reverse, getRoadInfo table r.roadid ≠ none :=
      fun r hr => hroads r (List.mem_reverse.mp hr)
    obtain ⟨hnone, hres⟩ | ⟨pre, r, post, d, n, he, hd, hc, hpre, hch, res, hres, hif⟩ :=
      scanRoads_right dist line (l := s.neiList) env hrev
    · refine Or.inl ⟨fun r hr d hd => ?_, hres⟩
      exact candidates_eq_nil_iff.mp (hnone r (List.mem_reverse.mpr hr) d hd)
    · refine Or.inr ⟨d, n, res, ⟨post.reverse, r, pre.reverse, ?_, hd, hc, ?_⟩, hch, hres, hif⟩
      · rw [← List.reverse_reverse ofr, he]
        simp
      · exact fun r' hr' => hpre r' (List.mem_reverse.mp hr')

end scan

/-! ### The right next hop -/

/-- `res` is 0 exactly when there is no DIRECT neighbour on the route, and otherwise the address of
one on the last road that has one, whose distance is closest to `RESTRICTED_RANGE`. -/
structure RightHop [Scalar ℝ] (env : Env ℝ) (table : List (DedupedData ℝ)) (l : List (Neighbor ℝ))
    (ofr : List Route) (res : Option UInt32) : Prop where
  none : res = some 0 ↔ NoneOn table l ofr
  closest : ∀ d, LastRoad table l ofr d → ∃ n ∈ candidates l d, res = some n.ipAddr ∧
    ∀ m ∈ candidates l d, |distAbs env n| ≤ |distAbs env m|

/-- On the road no neighbour nearer than `RESTRICTED_RANGE` that is closer to it than all before
comes before a still closer one, and the first of the closest neighbours has an address. -/
def Favourable [Scalar ℝ] (env : Env ℝ) (l : List (Neighbor ℝ)) (d : DedupedData ℝ) : Prop :=
  SignedMin.NeverStuck (distAbs env) (candidates l d) ∧
    ∀ n, SignedMin.FirstClosest (distAbs env) (candidates l d) n → n.ipAddr ≠ 0

/-- If a candidate is returned, it is the chosen one: otherwise the search went on from the address
0 and returned a neighbour closer than all of the road. -/
theorem eq_chosen [Scalar ℝ] {env : Env ℝ} {s : Node ℝ} (hs : Listed s) {d : DedupedData ℝ}
    {n k : Neighbor ℝ} (hch : SignedMin.Chosen (distAbs env) (candidates s.neiList d) n)
    (hk : k ∈ candidates s.neiList d) (hz : k.ipAddr ≠ 0)
    (hif : if n.ipAddr = 0 then
        k.ipAddr = 0 ∨ ∃ m ∈ s.neiList, k.ipAddr = m.ipAddr ∧ |distAbs env m| < distAbs env n
      else k.ipAddr = n.ipAddr) : k = n := by
  have hmem : k ∈ s.neiList := List.mem_of_mem_filter hk
  split_ifs at hif with h0
  · obtain ⟨m, hm, he, hlt⟩ := hif.resolve_left hz
    have hmk : m = k := hs.eq_of_ipAddr hm hmem he.symm
    have hpos : 0 ≤ distAbs env n := (abs_nonneg _).trans hlt.le
    have hle := hch.le_of_nonneg hpos k hk
    rw [hmk, ← abs_of_nonneg hpos] at hlt
    exact absurd (hle.trans_lt hlt) (lt_irrefl _)
  · exact hs.eq_of_ipAddr hmem (List.mem_of_mem_filter hch.mem) hif

/-- **The next hop** is the right one exactly when the neighbours on the last road that has one
are listed in a favourable order, whatever the distances are. -/
theorem rightHop_iff (dist : ℝ → ℝ → ℝ → ℝ → ℝ) (line : ℝ → ℝ → ℝ → ℝ → ℝ → ℝ → ℝ) (env : Env ℝ)
    {table : List (DedupedData ℝ)} {s : Node ℝ} {ofr : List Route} (hs : Listed s)
    (hroads : ∀ r ∈ ofr, getRoadInfo table r.roadid ≠ none) :
    letI := scalarWith dist line
    RightHop env table s.neiList ofr (restrictedForwardingAlgo env table s ofr) ↔
      ∀ d, LastRoad table s.neiList ofr d → Favourable env s.neiList d := by
  let _ := scalarWith dist line
  obtain ⟨hnone, hres⟩ | ⟨d, n, res, hlast, hch, hres, hif⟩ :=
    restrictedForwardingAlgo_cases dist line env hs hroads
  · refine iff_of_true ⟨iff_of_true hres hnone, fun d hd => ?_⟩ (fun d hd => ?_)
    · exact absurd hnone hd.not_noneOn
    · exact absurd hnone hd.not_noneOn
  · have hne : ∀ d', LastRoad table s.neiList ofr d' → d' = d := fun d' h => h.unique hlast
    constructor
    · intro h d' hd'
      obtain rfl := hne d' hd'
      obtain ⟨k, hk, hkres, hmin⟩ := h.closest d' hd'
      have hz : k.ipAddr ≠ 0 := fun h0 => hlast.not_noneOn (h.none.mp (by rw [hkres, h0]))
      obtain rfl := Option.some.inj (hres.symm.trans hkres)
      obtain rfl := eq_chosen hs hch hk hz hif
      refine ⟨hch.closest_iff.mp hmin, fun m hm h0 => ?_⟩
      obtain rfl := hch.eq_firstClosest hmin hm
      exact hz h0
    · intro h
      obtain ⟨hstuck, haddr⟩ := h d hlast
      have hmin := hch.closest_iff.mpr hstuck
      have h0 : n.ipAddr ≠ 0 := haddr n (hch.firstClosest hmin)
      rw [if_neg h0] at hif
      rw [hif] at hres
      refine ⟨iff_of_false (fun hz => ?_) hlast.not_noneOn, fun d' hd' => ?_⟩
      · rw [hres] at hz
        exact h0 (Option.some.inj hz)
      · obtain rfl := hne d' hd'
        exact ⟨n, hch.mem, hres, hmin⟩

/-! ### Two neighbours on a road -/

/-- A DIRECT neighbour on the road 7. -/
def onSeven (addr : ℕ) (ipAddr : UInt32) (longitude : ℝ) : Neighbor ℝ :=
  ⟨addr, ipAddr, 0, longitude, 0, 0, 5, ⟨false, true, false, false⟩, 7, 0, none⟩

/-- A host with the neighbours `l`. -/
def hostOf (l : List (Neighbor ℝ)) : Node ℝ := ⟨l, l.length, [], 0, 0, 0, 0, false, []⟩

/-- The record of the road 7, and a host at the origin. -/
def roadSeven : DedupedData ℝ := ⟨7, 1, 0, 0, 1, 0, 0, 1, 3, 0⟩

def atOrigin : Env ℝ := ⟨0, 0, 0, 0, false, false⟩

/-- A neighbour alone on the road. -/
theorem rightHop_iff_sample :
    RightHop atOrigin [roadSeven] [onSeven 1 5 1] [⟨7, 0, 1, 3⟩]
      (restrictedForwardingAlgo atOrigin [roadSeven] (hostOf [onSeven 1 5 1]) [⟨7, 0, 1, 3⟩]) := by
  have hlisted : Listed (hostOf [onSeven 1 5 1]) := ⟨rfl, List.nodup_singleton _⟩
  have hroads : ∀ r ∈ ([⟨7, 0, 1, 3⟩] : List Route), getRoadInfo [roadSeven] r.roadid ≠ none := by
    intro r hr
    rw [List.mem_singleton.mp hr]
    exact fun h => by cases h
  refine (rightHop_iff Sphere.distance Sphere.distNode2line atOrigin hlisted hroads).mpr
    (fun d hd => ?_)
  have hsub : ∀ n ∈ candidates (hostOf [onSeven 1 5 1]).neiList d, n = onSeven 1 5 1 :=
    fun n hn => List.mem_singleton.mp (List.mem_of_mem_filter hn)
  refine ⟨fun pre n post hc _ _ m hm => ?_, fun n hn => ?_⟩
  · have hn := hsub n (hc ▸ List.mem_append_right _ List.mem_cons_self)
    have hm' := hsub m (hc ▸ List.mem_append_right _ (List.mem_cons_of_mem _ hm))
    rw [hn, hm']
  · obtain ⟨pre, post, hc, -⟩ := hn
    rw [hsub n (hc ▸ List.mem_append_right _ List.mem_cons_self)]
    decide

/-- A neighbour at the place of the host, 100 m nearer than `RESTRICTED_RANGE`, is listed before
one at 111 m, and is returned. -/
theorem near_neighbour_kept :
    let near := onSeven 1 5 0
    let better := onSeven 2 6 ((1000 : ℕ) : ℝ)⁻¹
    restrictedForwardingAlgo atOrigin [roadSeven] (hostOf [near, better]) [⟨7, 0, 1, 3⟩] = some 5 ∧
      |distAbs atOrigin better| < |distAbs atOrigin near| ∧
      ¬ RightHop atOrigin [roadSeven] [near, better] [⟨7, 0, 1, 3⟩]
        (restrictedForwardingAlgo atOrigin [roadSeven] (hostOf [near, better]) [⟨7, 0, 1, 3⟩]) := by
  intro near better
  have hcand : candidates [near, better] roadSeven = [near, better] := rfl
  have hnear : distAbs atOrigin near = -((100 : ℕ) : ℝ) := by
    show Sphere.distance 0 0 0 0 - ((100 : ℕ) : ℝ) = _
    rw [Sphere.distance_self, zero_sub]
  have hneg : distAbs atOrigin near < 0 := by
    rw [hnear]
    norm_num
  have hbetter : |distAbs atOrigin better| < |distAbs atOrigin near| := by
    have hdist : distAbs atOrigin better =
        |((1000 : ℕ) : ℝ)⁻¹ - 0| / 180 * Sphere.PI * (6371 * 1000) - ((100 : ℕ) : ℝ) := by
      show Sphere.distance 0 0 ((1000 : ℕ) : ℝ)⁻¹ 0 - ((100 : ℕ) : ℝ) = _
      rw [Sphere.distance_equator (by norm_num [abs_of_pos])]
    rw [hnear, hdist, Sphere.PI, abs_neg, abs_lt]
    norm_num [abs_of_pos]
  have hscan : SignedMin.scan (distAbs atOrigin) (candidates [near, better] roadSeven) none =
      some near := by
    rw [hcand]
    exact SignedMin.scan_of_neg hneg [better]
  have hpick := pick_scan Sphere.distance Sphere.distNode2line atOrigin 0
    (candidates [near, better] roadSeven) none
  rw [hscan] at hpick
  have hres : restrictedForwardingAlgo atOrigin [roadSeven] (hostOf [near, better])
      [⟨7, 0, 1, 3⟩] = some 5 := by
    have hn : scanNeighbors atOrigin (some roadSeven) [near, better] (0, none) =
        some (5, some (distAbs atOrigin near)) :=
      (scanNeighbors_eq _ _ _ _).trans (congrArg some hpick)
    have hroad : getRoadInfo [roadSeven] 7 = some roadSeven := rfl
    show scanRoads atOrigin [roadSeven] [near, better] [⟨7, 0, 1, 3⟩] (0, none) = some 5
    rw [scanRoads, hroad, hn]
    rfl
  refine ⟨hres, hbetter, fun h => ?_⟩
  have hlast : LastRoad [roadSeven] [near, better] [⟨7, 0, 1, 3⟩] roadSeven :=
    ⟨[], _, [], rfl, rfl, by rw [hcand]; simp, fun r hr => absurd hr List.not_mem_nil⟩
  obtain ⟨n, hn, hip, hmin⟩ := h.closest roadSeven hlast
  rw [hcand] at hn hmin
  have hle := hmin better (by simp)
  obtain rfl | hn := List.mem_cons.mp hn
  · exact absurd hle (not_le.mpr hbetter)
  · rw [List.mem_singleton.mp hn, hres] at hip
    exact absurd (Option.some.inj hip) (by decide)

end GeoSvr.Daemon
