import GeoSvr.MsvrForwarding
import GeoSvr.Orbits
import GeoSvr.PathRestore

/-! # Packets of the simulation, hop by hop

The nodes stand still, and the lists of neighbours have them where they are.

* Every hop between relays either shortens the path or leads closer to the junction ahead
  (`relay_hop`), so it lowers a `budget`, and a packet does not travel forever (`hops_bounded`).
* The header of a packet on its way has a suffix of the path along roads that its source computed.
  A relay that has to find a next hop can do so exactly when the header was copied to the end of the
  pointer to the path (`path_suffix`): with pointers of four bytes when two junctions are left. -/

namespace GeoSvr.MsvrNet

open Bytes Runs Orbits
open MapManager (Edge Map)
open MsvrMap (getPaths msvrCalDist)
open MsvrNblist (NbEntry msvrGetNextHop)

variable {n : ℕ}

/-! ### No packet travels forever -/

section runs

variable {ptr : ℕ} {dijkstra : List (Edge (n + 1)) → Fin (n + 1) → Fin (n + 1) → Fin (n + 1)}
  {fuel : ℕ} {pos : UInt32 → ℝ × ℝ} {m : Map ℝ (n + 1)} {A : Finset UInt32} {src dst : UInt32}

/-- The nodes and the junctions stand still, the lists of neighbours tell the truth, and have hosts
of `A` only. -/
structure Still (pos : UInt32 → ℝ × ℝ) (m : Map ℝ (n + 1)) (A : Finset UInt32)
    (now : Moment ℝ n) : Prop where
  x : now.map.x = m.x
  y : now.map.y = m.y
  truthful : Truthful pos now.nbl
  hosts : ∀ e ∈ now.nbl, e.ninfo.dst ∈ A

/-- How far a host is from the junction ahead. -/
noncomputable def ahead (pos : UInt32 → ℝ × ℝ) (m : Map ℝ (n + 1)) (paths : List ℤ)
    (host : UInt32) : ℝ :=
  ((waypoint m paths).map (fun w => distTo w (pos host))).getD 0

/-- How many hops a packet has left at the most: for every junction of its path it visits each host
once, and then goes to the destination. -/
noncomputable def budget (pos : UInt32 → ℝ × ℝ) (m : Map ℝ (n + 1)) (A : Finset UInt32)
    (dst : UInt32) (f : Flight ℝ) : ℕ :=
  if f.host = dst then 0
  else f.paths.length * A.card + before A (ahead pos m f.paths) f.host + 1

theorem budget_le {f : Flight ℝ} (h : f.host ∈ A) :
    budget pos m A dst f ≤ (f.paths.length + 1) * A.card := by
  have hlt := @before_lt_card _ _ _ A (ahead pos m f.paths) _ h
  unfold budget
  split_ifs
  · exact Nat.zero_le _
  · rw [Nat.add_mul]
    omega

/-- A hop of a relay lowers the budget. -/
theorem budget_step {f f' : Flight ℝ} {now : Moment ℝ n} (hstill : Still pos m A now)
    (hrelay : 0 < f.forwards) (h : step ptr dijkstra fuel pos src dst f now = some f') :
    budget pos m A dst f' < budget pos m A dst f := by
  obtain ⟨-, hne, -, -⟩ := step_some h
  have hf : budget pos m A dst f =
      f.paths.length * A.card + before A (ahead pos m f.paths) f.host + 1 :=
    if_neg (Ne.symm hne)
  rw [hf]
  obtain hdst | ⟨⟨⟨e, he, hehost⟩, w, hw, hcloser⟩, hpaths⟩ := relay_hop h hrelay hstill.truthful
  · rw [budget, if_pos hdst]
    omega
  have hmem : f'.host ∈ A := hehost ▸ hstill.hosts e he
  by_cases hdst : f'.host = dst
  · rw [budget, if_pos hdst]
    omega
  obtain hsame | hshort := hpaths
  · rw [waypoint_congr hstill.x hstill.y] at hw
    have hahead : ahead pos m f.paths f'.host < ahead pos m f.paths f.host := by
      unfold ahead
      rw [hw]
      exact hcloser
    have hlt := before_lt_before hmem hahead
    rw [budget, if_neg hdst, hsame]
    omega
  · have hle := @budget_le _ pos m A dst _ hmem
    have hmul := Nat.mul_le_mul_right A.card (show f'.paths.length + 1 ≤ f.paths.length from hshort)
    omega

theorem step_forwards {f f' : Flight ℝ} {now : Moment ℝ n}
    (h : step ptr dijkstra fuel pos src dst f now = some f') : 0 < f'.forwards := by
  obtain ⟨-, -, hforwards, -⟩ := step_some h
  omega

/-- The hops of a run from a relay are bounded by the budget. -/
theorem length_add_budget_le {f f' : Flight ℝ} {as : List (Moment ℝ n)}
    (h : Run (step ptr dijkstra fuel pos src dst) (fun _ now => Still pos m A now) f as f')
    (hrelay : 0 < f.forwards) :
    as.length + budget pos m A dst f' ≤ budget pos m A dst f := by
  have hle := h.countP_add_le (fun f => 0 < f.forwards) (budget pos m A dst) (fun _ => true)
    (fun f now f' hrelay hstill hstep => ⟨step_forwards hstep, by
      have hlt := budget_step hstill hrelay hstep
      rw [if_pos rfl]
      omega⟩) hrelay
  rwa [List.countP_true] at hle

/-- The first hop. -/
theorem budget_source {hdr : HdrMsvrRouting ℝ} {f : Flight ℝ} {now : Moment ℝ n}
    (hstill : Still pos m A now)
    (h : step ptr dijkstra fuel pos src dst ⟨src, 0, hdr⟩ now = some f) :
    budget pos m A dst f ≤ 65 * A.card := by
  obtain ⟨-, -, -, hreply⟩ := step_some h
  rw [if_pos rfl] at hreply
  obtain ⟨hdst | ⟨e, he, hehost⟩, -⟩ := source_some hreply
  · rw [budget, if_pos hdst]
    exact Nat.zero_le _
  · have hlen : f.paths.length ≤ 64 := by
      unfold Flight.paths
      cases hpath : f.hdr.path.bind receivedPath with
      | none => exact Nat.zero_le _
      | some paths =>
          obtain ⟨text, -, htext⟩ := Option.bind_eq_some_iff.mp hpath
          exact (fits_of_receivedPath htext).1
    have hmem : f.host ∈ A := hehost ▸ hstill.hosts e he
    exact (budget_le hmem).trans (Nat.mul_le_mul_right _ (by omega))

end runs

/-! ### The path on the way -/

/-- The ids of junctions. -/
def ids (path : List (Fin n)) : List ℤ := path.map (fun v => (v.val : ℤ))

section path

variable {ptr : ℕ} {dijkstra : List (Edge (n + 1)) → Fin (n + 1) → Fin (n + 1) → Fin (n + 1)}
  {fuel : ℕ} {pos : UInt32 → ℝ × ℝ} {now : Moment ℝ n} {src dst : UInt32} {f f' : Flight ℝ}
  {path rest : List (Fin (n + 1))}

/-- The junctions from which and to which the source looks for a path. -/
noncomputable def ends (pos : UInt32 → ℝ × ℝ) (src dst : UInt32) (now : Moment ℝ n) :
    MsvrMap.Ends ℝ (n + 1) :=
  MsvrMap.getSrcAndDst now.map now.junk (pos src).1 (pos src).2 (pos dst).1 (pos dst).2

/-- The path that `getPaths` returns is one along roads; the points of the map are not changed. -/
theorem computedPath_some (hs : MsvrMap.Searches dijkstra) {paths : List ℤ}
    {map : Map ℝ (n + 1)} (h : computedPath dijkstra fuel pos now src dst = some (paths, map)) :
    (∃ path : List (Fin (n + 1)), paths = ids path ∧ path.length ≤ n + 2 ∧
      MsvrMap.IsPath now.map (ends pos src dst now).first (ends pos src dst now).second path) ∧
      map.x = now.map.x ∧ map.y = now.map.y := by
  obtain ⟨⟨ns, map'⟩, hget, he⟩ := Option.map_eq_some_iff.mp h
  obtain ⟨rfl, rfl⟩ := Prod.mk.inj he
  unfold getPaths at hget
  obtain ⟨s, hsearch, hchoose⟩ := Option.bind_eq_some_iff.mp hget
  have hall := MsvrMap.searchPaths_foundAll hsearch
  have hne : s.found ≠ [] := by
    intro hnil
    rw [MsvrMap.choosePath, hnil, List.getElem?_nil] at hchoose
    cases hchoose
  obtain ⟨i, c, m', hi, hc, -⟩ := MsvrMap.choosePath_eq hall hne
  obtain ⟨rfl, -⟩ := Prod.mk.inj (Option.some.inj (hchoose.symm.trans hc))
  have hpoints : map'.x = now.map.x ∧ map'.y = now.map.y := by
    obtain ⟨c', -, hchoose⟩ := Option.bind_eq_some_iff.mp hchoose
    obtain ⟨es, -, he⟩ := Option.map_eq_some_iff.mp hchoose
    rw [← (Prod.mk.inj he).2, hall.map]
    exact ⟨rfl, rfl⟩
  have hfound := hall.found i c hi
  have hends := MsvrMap.ne_of_hasNextPath ((MsvrMap.found_ne_nil_iff hsearch).mp hne)
  obtain ⟨path, hpath, hright⟩ := hfound.isPath hs hends
  refine ⟨⟨path, ?_, ?_, hright⟩, hpoints⟩
  · rw [hpath, ids, List.map_map]
    rfl
  · obtain ⟨vs, hvs, hc'⟩ := hfound.path
    obtain ⟨k, hk, rfl, -⟩ := MsvrMap.walk_eq_some hvs
    have hlen := congrArg List.length hpath
    rw [hc', List.length_reverse, List.length_map, List.length_cons, List.length_map,
      List.length_map, List.length_range, List.length_map] at hlen
    omega

/-- With less than 64 junctions, every path fits into the header. -/
theorem receivedPath_ids (hn : n + 1 < 64) (hlen : rest.length ≤ n + 2) (hne : rest ≠ []) :
    receivedPath (pathText (ids rest)) = some (ids rest) := by
  refine receivedPath_of_fits (fun h => hne (List.map_eq_nil_iff.mp h)) ?_ ?_
  · rw [ids, List.length_map]
    omega
  · intro id hid
    obtain ⟨v, -, rfl⟩ := List.mem_map.mp hid
    have hv := v.isLt
    omega

/-- The header of a packet that has the rest of a path. -/
def Carries (ptr : ℕ) (pos : UInt32 → ℝ × ℝ) (src dst : UInt32) (f : Flight ℝ)
    (rest : List (Fin (n + 1))) : Prop :=
  f.hdr = routingHeader ptr (pos src) (pos dst) (ids rest)

/-- A packet on its way: it goes to its destination, or carries the rest of the path. -/
def OnPath (ptr : ℕ) (pos : UInt32 → ℝ × ℝ) (src dst : UInt32) (path : List (Fin (n + 1)))
    (f : Flight ℝ) : Prop :=
  0 < f.forwards ∧
    (f.host = dst ∨ ∃ rest, rest ≠ [] ∧ rest <:+ path ∧ Carries ptr pos src dst f rest)

theorem ids_tail (path : List (Fin n)) : (ids path).tail = ids path.tail := by
  cases path <;> rfl

/-- The pointer is in the packet if the path is long enough. -/
theorem routingHeader_path (s d : ℝ × ℝ) (hn : n + 1 < 64) (hlen : rest.length ≤ n + 2) :
    (routingHeader ptr s d (ids rest)).path =
      if pathEnd ptr ≤ routingSize + rest.length * 2 then some (pathText (ids rest)) else none := by
  have hsize : (UInt16.ofNat (routingSize + (ids rest).length * 2)).toNat =
      routingSize + rest.length * 2 := by
    unfold routingSize
    rw [ids, List.length_map, UInt16.toNat_ofNat_of_lt' (show _ < 2 ^ 16 by omega)]
  unfold routingHeader
  dsimp only
  rw [hsize]

theorem carries_suffix {rest : List ℤ} {s d : ℝ × ℝ} {hdr : HdrMsvrRouting ℝ} (hne : rest ≠ [])
    (hrest : rest = ids path ∨ rest = (ids path).tail) (hhdr : hdr = routingHeader ptr s d rest) :
    ∃ left : List (Fin (n + 1)), left ≠ [] ∧ left <:+ path ∧
      hdr = routingHeader ptr s d (ids left) := by
  obtain rfl | rfl := hrest
  · exact ⟨path, fun h => hne (by rw [h]; rfl), List.suffix_refl _, hhdr⟩
  · rw [ids_tail] at hne hhdr
    exact ⟨path.tail, fun h => hne (by rw [h]; rfl), List.tail_suffix _, hhdr⟩

/-- A hop of a relay leaves a suffix of the path. -/
theorem onPath_step (hn : n + 1 < 64) (hlen : path.length ≤ n + 2)
    (h : OnPath ptr pos src dst path f)
    (hstep : step ptr dijkstra fuel pos src dst f now = some f') :
    OnPath ptr pos src dst path f' := by
  obtain ⟨hrelay, h⟩ := h
  obtain ⟨hloop, hne, hforwards, hreply⟩ := step_some hstep
  rw [if_neg (fun hsrc => hloop ⟨hsrc, hrelay⟩)] at hreply
  refine ⟨by omega, ?_⟩
  obtain hdst | ⟨rest, hnil, hsuffix, hcarries⟩ := h
  · exact absurd hdst.symm hne
  obtain hdst | ⟨paths, hpaths, -, -, rest', hne', hor, hhdr⟩ := relay_some hreply
  · exact Or.inl hdst
  have hrest : rest.length ≤ n + 2 := hsuffix.length_le.trans hlen
  rw [hcarries, routingHeader_path _ _ hn hrest] at hpaths
  split_ifs at hpaths
  · rw [Option.bind_some, receivedPath_ids hn hrest hnil] at hpaths
    cases hpaths
    obtain ⟨left, hleft, hls, hhdr'⟩ := carries_suffix hne' hor hhdr
    exact Or.inr ⟨left, hleft, hls.trans hsuffix, hhdr'⟩
  · cases hpaths

theorem onPath_source (hs : MsvrMap.Searches dijkstra) {hdr : HdrMsvrRouting ℝ}
    (hstep : step ptr dijkstra fuel pos src dst ⟨src, 0, hdr⟩ now = some f) :
    ∃ path, path.length ≤ n + 2 ∧
      MsvrMap.IsPath now.map (ends pos src dst now).first (ends pos src dst now).second path ∧
      OnPath ptr pos src dst path f := by
  obtain ⟨-, -, hforwards, hreply⟩ := step_some hstep
  rw [if_pos rfl] at hreply
  obtain ⟨-, paths, map, rest, hpaths, hne, hor, hhdr⟩ := source_some hreply
  obtain ⟨⟨path, rfl, hlen, hright⟩, -⟩ := computedPath_some hs hpaths
  obtain ⟨left, hleft, hls, hhdr'⟩ := carries_suffix hne hor hhdr
  exact ⟨path, hlen, hright, step_forwards hstep, Or.inr ⟨left, hleft, hls, hhdr'⟩⟩

theorem pointAt_val (m : Map ℝ n) (v : Fin n) : pointAt m (v.val : ℤ) = some (m.x v, m.y v) := by
  unfold pointAt
  rw [dif_pos (show (v.val : ℤ).toNat < n from v.isLt), if_pos (Int.natCast_nonneg _)]
  rfl

theorem findNext_isSome (m : Map ℝ n) (nbl : List (NbEntry ℝ)) {rest : List (Fin n)}
    (s d r : ℝ × ℝ) (h : 2 ≤ rest.length) : ∃ hop, findNext m nbl (ids rest) s d r = some hop := by
  obtain _ | ⟨a, _ | ⟨b, rest⟩⟩ := rest
  · exact absurd h (by simp)
  · exact absurd h (by simp)
  have hway : ∃ w, waypoint m (ids (a :: b :: rest)) = some w := by
    cases rest with
    | nil => exact ⟨_, pointAt_val m b⟩
    | cons c rest => exact ⟨_, pointAt_val m c⟩
  obtain ⟨w, hw⟩ := hway
  have hhop : ∀ roadid1 roadid2 roadid3, ∃ hop,
      msvrGetNextHop nbl roadid1 roadid2 roadid3 r.1 r.2 w.1 w.2 true = some hop := by
    intro roadid1 roadid2 roadid3
    obtain ⟨he, -⟩ | ⟨e, he, -⟩ :=
      @MsvrNblist.msvrGetNextHop_cases roadid1 roadid2 roadid3 r.1 r.2 w.1 w.2 nbl
    · exact ⟨_, he⟩
    · exact ⟨_, he⟩
  unfold findNext
  rw [hw]
  simp only [ids, List.map_cons, List.getElem?_cons_zero, List.getElem?_cons_succ, pointAt_val,
    Option.bind_some]
  exact hhop _ _ _

theorem sendOn_isSome (m : Map ℝ (n + 1)) (s : ℝ × ℝ) (hop : UInt32) (h : 2 ≤ rest.length) :
    (sendOn ptr pos m (ids rest) src dst s hop).isSome = true := by
  obtain _ | ⟨a, _ | ⟨b, rest⟩⟩ := rest
  · exact absurd h (by simp)
  · exact absurd h (by simp)
  · rfl

/-- A relay that has to find a next hop handles the packet exactly when the pointer to the path is
in the packet. -/
theorem recv_isSome_iff (hn : n + 1 < 64) (hlen : rest.length ≤ n + 2) (hne : rest ≠ [])
    (hcarries : Carries ptr pos src dst f rest) (hsrc : f.host ≠ src) (hdst : f.host ≠ dst)
    (hfar : msvrFindDst now.nbl dst = false) :
    (recv ptr dijkstra fuel pos src dst f now).isSome = true ↔
      pathEnd ptr ≤ routingSize + rest.length * 2 := by
  have hpath := congrArg HdrMsvrRouting.path hcarries
  rw [routingHeader_path _ _ hn hlen] at hpath
  unfold recv requestRoutingCb
  rw [if_neg (fun h => hsrc h.1.symm), if_neg (Ne.symm hdst), if_neg (Ne.symm hsrc), hfar,
    if_neg Bool.false_ne_true, Option.isSome_map]
  dsimp only
  rw [hpath]
  split_ifs with hend
  · rw [Option.bind_some, receivedPath_ids hn hlen hne, Option.bind_some]
    refine iff_of_true ?_ hend
    by_cases hshort : (ids rest).length < 2
    · rw [if_pos hshort]
      rfl
    · rw [if_neg hshort]
      rw [ids, List.length_map] at hshort
      obtain ⟨hop, hhop⟩ := findNext_isSome now.map now.nbl (pos src) (pos dst) (pos f.host)
        (not_lt.mp hshort)
      rw [hhop, Option.bind_some]
      exact sendOn_isSome _ _ _ (not_lt.mp hshort)
  · exact iff_of_false Bool.false_ne_true hend

end path

/-! ### Two junctions -/

open MsvrMap (twoJunctions left right dijkstraShortestPaths dijkstraShortestPaths_searches)

/-- The hosts 1 and 3 are at the left junction, the host 2 is on the road. -/
noncomputable def samplePos (h : UInt32) : ℝ × ℝ := if h = 2 then (50, 0) else (0, 0)

theorem usec_zero : 0 < 1000000 := by decide

/-- The host 2 is the only neighbour, on the road `roadid`. -/
noncomputable def sampleMoment (roadid : ℤ) : Moment ℝ 1 :=
  ⟨twoJunctions [20], [⟨⟨2, 50, 0, 0, 0, roadid, 2⟩, ⟨0, 0, usec_zero⟩⟩], (0, 0)⟩

/-- There is one path. -/
theorem isPath_twoJunctions {path : List (Fin 2)} (hlen : path.length ≤ 3)
    (h : MsvrMap.IsPath (twoJunctions [20]) left right path) : path = [left, right] := by
  have hjoin : ∀ {u v : Fin 2}, (∃ e ∈ (twoJunctions [20]).edges, e.joins u v = true) → u ≠ v := by
    rintro u v ⟨e, he, hj⟩ rfl
    obtain rfl := List.mem_singleton.mp he
    revert hj
    revert u
    decide
  obtain ⟨h2, hhead, hlast, hchain⟩ := h
  obtain _ | ⟨a, _ | ⟨b, _ | ⟨c, _ | ⟨d, rest⟩⟩⟩⟩ := path
  · cases hhead
  · exact absurd h2 (by simp)
  · cases hhead
    cases hlast
    rfl
  · cases hhead
    cases hlast
    rw [List.isChain_cons_cons, List.isChain_cons_cons] at hchain
    have hab := hjoin hchain.1
    have hbc := hjoin hchain.2.1
    revert hab hbc
    revert b
    decide
  · simp only [List.length_cons] at hlen
    omega

theorem sample_pos : samplePos 1 = (0, 0) ∧ samplePos 2 = (50, 0) ∧ samplePos 3 = (0, 0) :=
  ⟨if_neg (by decide), if_pos rfl, if_neg (by decide)⟩

/-- The source finds the path from the left to the right junction. -/
theorem sample_path : ∃ map, map.x = (twoJunctions [20]).x ∧ map.y = (twoJunctions [20]).y ∧
    ∀ roadid, computedPath dijkstraShortestPaths 1 samplePos (sampleMoment roadid) 1 3 =
      some ([0, 1], map) := by
  obtain ⟨path, map, hget, -, -⟩ := MsvrMap.returnsRight_sample
  have hcomputed : ∀ roadid, computedPath dijkstraShortestPaths 1 samplePos (sampleMoment roadid)
      1 3 = some (ids path, map) := by
    intro roadid
    unfold computedPath
    rw [sample_pos.1, sample_pos.2.2]
    refine Option.map_eq_some_iff.mpr ⟨_, hget, ?_⟩
    rw [List.map_map]
    rfl
  obtain ⟨⟨path', hids, hlen, hright⟩, hx, hy⟩ :=
    computedPath_some dijkstraShortestPaths_searches (hcomputed 0)
  have hends : (ends samplePos 1 3 (sampleMoment 0)).first = left ∧
      (ends samplePos 1 3 (sampleMoment 0)).second = right := by
    unfold ends
    rw [sample_pos.1, sample_pos.2.2]
    exact MsvrMap.ends_twoJunctions [20] (by decide)
  rw [hends.1, hends.2] at hright
  obtain rfl := isPath_twoJunctions hlen hright
  exact ⟨map, hx, hy, fun roadid => by rw [hcomputed, hids]; rfl⟩

/-- The host 2 is closer to the right junction. -/
theorem sample_nextHop (roadid roadid2 roadid3 : ℤ) :
    msvrGetNextHop (sampleMoment roadid).nbl roadid roadid2 roadid3 0 0 100 0 true = some 2 := by
  have hdist : msvrCalDist (0 : ℝ) 0 50 0 = 50 := by
    show Real.sqrt _ = 50
    rw [show ((0 : ℝ) - 50) * (0 - 50) + (0 - 0) * (0 - 0) = 50 * 50 by norm_num]
    exact Real.sqrt_mul_self (by norm_num)
  obtain ⟨-, hnone⟩ | ⟨e, he, pre, post, hsplit, -⟩ :=
    @MsvrNblist.msvrGetNextHop_cases roadid roadid2 roadid3 0 0 100 0 (sampleMoment roadid).nbl
  · refine absurd ⟨Or.inl rfl, ?_, ?_⟩ (hnone _ List.mem_cons_self)
    · exact MapManager.lt_iff.mp (MsvrMap.msvrCalDist_lt.mpr (by norm_num))
    · show |msvrCalDist (0 : ℝ) 0 50 0 - ((100 : ℕ) : ℝ)| < ((200 : ℕ) : ℝ)
      rw [hdist]
      norm_num [abs_lt]
  · rw [he]
    have hmem : e ∈ (sampleMoment roadid).nbl :=
      hsplit ▸ List.mem_append_right _ List.mem_cons_self
    rw [List.mem_singleton.mp hmem]

/-- A packet of the host 1. -/
noncomputable def samplePacket : Flight ℝ := ⟨1, 0, routingHeader 4 (0, 0) (0, 0) []⟩

/-- The source sends the packet to the host 2. -/
theorem sample_step : ∃ roadid f,
    step 4 dijkstraShortestPaths 1 samplePos 1 3 samplePacket (sampleMoment roadid) = some f ∧
      f.host = 2 := by
  obtain ⟨map, hx, hy, hpath⟩ := sample_path
  have hpoint : pointAt map 1 = some (100, 0) := by
    rw [show (1 : ℤ) = ((right : Fin 2).val : ℤ) from rfl, pointAt_val, hx, hy]
    norm_num [twoJunctions]
  have hnext : findNext map (sampleMoment (getRoadByNode map 0 1)).nbl [0, 1] (0, 0) (0, 0)
      (0, 0) = some 2 := by
    have hway : waypoint map [0, 1] = some (100, 0) := hpoint
    unfold findNext
    rw [hway]
    simp only [List.getElem?_cons_zero, List.getElem?_cons_succ, hpoint, Option.bind_some]
    exact sample_nextHop _ _ _
  have hreply : ∃ hdr, requestRoutingCb 4 dijkstraShortestPaths 1 samplePos
      (sampleMoment (getRoadByNode map 0 1)) 1 none 1 3 =
        some (.sendProtPacketWithData 2 hdr) := by
    have hfar : msvrFindDst (sampleMoment (getRoadByNode map 0 1)).nbl 3 = false := rfl
    unfold requestRoutingCb
    rw [hfar, if_neg Bool.false_ne_true, hpath, Option.bind_some, sample_pos.1, sample_pos.2.2,
      hnext, Option.bind_some]
    exact ⟨_, rfl⟩
  obtain ⟨hdr, hreply⟩ := hreply
  refine ⟨getRoadByNode map 0 1, ⟨2, 1, hdr⟩, ?_, rfl⟩
  have hsource : samplePacket.host = 1 := rfl
  unfold step recv
  rw [if_neg (fun h => absurd h.2 (Nat.lt_irrefl 0)), hsource, if_neg (by decide), if_pos rfl,
    hreply]
  rfl

/-! ### Every run -/

section results

variable {ptr : ℕ} {dijkstra : List (Edge (n + 1)) → Fin (n + 1) → Fin (n + 1) → Fin (n + 1)}
  {fuel : ℕ} {pos : UInt32 → ℝ × ℝ} {m : Map ℝ (n + 1)} {A : Finset UInt32} {src dst : UInt32}
  {now : Moment ℝ n} {f : Flight ℝ}

/-- **No packet travels forever.**  While the nodes stand still and the lists of neighbours tell the
truth, a packet of the source makes at most `65 * A.card + 1` hops, where `A` are the hosts in the
lists; and no relay gets it twice with the same path. -/
theorem hops_bounded {hdr : HdrMsvrRouting ℝ} {f : Flight ℝ} {as : List (Moment ℝ n)}
    (h : Run (step ptr dijkstra fuel pos src dst) (fun _ now => Still pos m A now) ⟨src, 0, hdr⟩
      as f) :
    as.length ≤ 65 * A.card + 1 ∧ ∀ bs cs t, as = bs ++ cs → bs ≠ [] → cs ≠ [] →
      Run (step ptr dijkstra fuel pos src dst) (fun _ now => Still pos m A now) ⟨src, 0, hdr⟩ bs t →
      Run (step ptr dijkstra fuel pos src dst) (fun _ now => Still pos m A now) t cs f →
      ¬ (f.host = t.host ∧ f.paths = t.paths) := by
  constructor
  · cases h with
    | nil => exact Nat.zero_le _
    | cons hstill hstep hrest =>
        have hsource := budget_source hstill hstep
        have hle := length_add_budget_le hrest (step_forwards hstep)
        rw [List.length_cons]
        omega
  · rintro bs cs t - hbs hcs hb hc ⟨hhost, hpaths⟩
    have hrelay : 0 < t.forwards := by
      cases hb with
      | nil => exact absurd rfl hbs
      | cons hstill hstep hrest =>
          exact hrest.inv (fun f => 0 < f.forwards) (fun f now f' _ _ hs => step_forwards hs)
            (step_forwards hstep)
    have hle := length_add_budget_le hc hrelay
    have hsame : budget pos m A dst f = budget pos m A dst t := by
      unfold budget
      rw [hhost, hpaths]
    have hpos := List.length_pos_iff.mpr hcs
    omega

/-- One hop, to the only neighbour. -/
theorem hops_bounded_sample : ∃ (now : Moment ℝ 1) (f : Flight ℝ),
    step 4 dijkstraShortestPaths 1 samplePos 1 3 samplePacket now = some f ∧
      [now].length ≤ 65 * ({2} : Finset UInt32).card + 1 := by
  obtain ⟨roadid, f, hstep, -⟩ := sample_step
  have hstill : Still samplePos (twoJunctions [20]) {2} (sampleMoment roadid) := by
    refine ⟨rfl, rfl, fun e he => ?_, fun e he => ?_⟩
    · rw [List.mem_singleton.mp he]
      exact sample_pos.2.1.symm
    · rw [List.mem_singleton.mp he]
      exact Finset.mem_singleton_self _
  exact ⟨_, f, hstep, (hops_bounded (Run.single hstill hstep)).1⟩

/-- **The path of a packet.**  On a map of less than 64 junctions, wherever a packet is that its
source has sent, it goes to its destination, or its header has a suffix of the path along roads that
the source computed; and if the destination is not among the neighbours, the host handles the packet
exactly when `length` reaches to the end of the pointer to the path. -/
theorem path_suffix (hs : MsvrMap.Searches dijkstra) (hn : n + 1 < 64) {hdr : HdrMsvrRouting ℝ}
    {as : List (Moment ℝ n)}
    (h : Run (step ptr dijkstra fuel pos src dst) Free ⟨src, 0, hdr⟩ (now :: as) f) :
    ∃ path : List (Fin (n + 1)),
      MsvrMap.IsPath now.map (ends pos src dst now).first (ends pos src dst now).second path ∧
      (f.host = dst ∨ ∃ rest, rest ≠ [] ∧ rest <:+ path ∧
        f.hdr = routingHeader ptr (pos src) (pos dst) (ids rest) ∧
        receivedPath (pathText (ids rest)) = some (ids rest) ∧
        ∀ now' : Moment ℝ n, f.host ≠ src → msvrFindDst now'.nbl dst = false →
          ((recv ptr dijkstra fuel pos src dst f now').isSome = true ↔
            pathEnd ptr ≤ routingSize + rest.length * 2)) := by
  cases h with
  | cons _ hstep hrest =>
      obtain ⟨path, hlen, hright, hfirst⟩ := onPath_source hs hstep
      obtain ⟨-, hlast⟩ := hrest.inv (OnPath ptr pos src dst path)
        (fun f now f' hon _ hs => onPath_step hn hlen hon hs) hfirst
      refine ⟨path, hright, ?_⟩
      by_cases hdst : f.host = dst
      · exact Or.inl hdst
      obtain ⟨rest, hne, hsuffix, hcarries⟩ := hlast.resolve_left hdst
      have hle : rest.length ≤ n + 2 := hsuffix.length_le.trans hlen
      exact Or.inr ⟨rest, hne, hsuffix, hcarries, receivedPath_ids hn hle hne,
        fun now' hsrc hfar => recv_isSome_iff hn hle hne hcarries hsrc hdst hfar⟩

/-- The neighbour gets a path. -/
theorem path_suffix_sample : ∃ (now : Moment ℝ 1) (f : Flight ℝ) (rest : List (Fin 2)),
    step 4 dijkstraShortestPaths 1 samplePos 1 3 samplePacket now = some f ∧ f.host = 2 ∧
      rest ≠ [] ∧ f.hdr = routingHeader 4 (0, 0) (0, 0) (ids rest) ∧
      receivedPath (pathText (ids rest)) = some (ids rest) := by
  obtain ⟨roadid, f, hstep, hhost⟩ := sample_step
  obtain ⟨path, -, hdst | ⟨rest, hne, -, hhdr, hreceived, -⟩⟩ :=
    path_suffix dijkstraShortestPaths_searches (by decide) (Run.single trivial hstep)
  · rw [hhost] at hdst
    exact absurd hdst (by decide)
  · rw [sample_pos.1, sample_pos.2.2] at hhdr
    exact ⟨_, f, rest, hstep, hhost, hne, hhdr, hreceived⟩

end results

end GeoSvr.MsvrNet
