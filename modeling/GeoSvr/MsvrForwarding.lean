import GeoSvr.AgentQueue
import GeoSvr.MsvrNblist
import GeoSvr.PathCodec
import GeoSvr.PathSearch

/-! # Packets of the simulation on their way (`msvr_agent.cc`, `cpc_agent.cc`)

The source of a packet computes a path, finds a next hop, and sends the packet with the rest of the
path in its header.  A relay decodes the path, finds a next hop in the same way, and removes the
first junction when it is on the first road of the path and the next hop is not.  An agent that has
the destination among its neighbours computes a new path and sends the packet to the destination;
one that finds no next hop does so as well, however far the destination is.

`request_routing_cb` is modelled with what it reads: the map, the positions of the nodes, the list
of neighbours and the header of the packet.  The routing table has no entry: MSVR adds none.

A relay that finds a next hop sends the packet closer to the junction that the path leads to next,
with the path or without its first junction (`relay_hop`). -/

namespace GeoSvr.MsvrNet

open Bytes Runs Access
open MapManager (Edge Map)
open MsvrMap (getRoadByPos getPaths msvrCalDist)
open MsvrNblist (NbEntry msvrGetNextHop)
open PathCodec (ofChar toChar iterations encodePath decodePath)
open CpcNs.Agents (nowhere)

variable {R : Type*} {n : ℕ}

/-! ### The path in the packet -/

/-- The text of a path, which `encode_path` writes and `memcpy` copies. -/
def pathText (paths : List ℤ) : List UInt8 :=
  bytes (encodePath (fun _ => 0) 0 paths).val 0 (paths.length * 2)

/-- A relay copies the text and decodes the copy; a negative `pathlen` is a size that `malloc` does
not grant. -/
def receivedPath (text : List UInt8) : Option (List ℤ) :=
  text.head?.bind (fun first =>
    let pathlen := ofChar first
    if pathlen < 0 then none
    else some (decodePath (write (fun _ => 0) 0 (text.take (pathlen.toNat + 1))) [] 0).val)

/-- `struct hdr_msvr_routing`, as far as it is set from what the agent knows.  `path` is the text
that the member points to, if it is a valid pointer. -/
structure HdrMsvrRouting (R : Type*) where
  type : UInt8
  length : UInt16
  hlen : UInt8
  sx : R
  sy : R
  dx : R
  dy : R
  path : Option (List UInt8)

def MSVR_TYPE_ROUTING : UInt8 := 0x02

/-- `hdr_msvr_routing::size`, which leaves out the member `path`. -/
def routingSize : ℕ := 28

/-- Where the member `path` ends in the structure, for pointers of `ptr` bytes. -/
def pathEnd (ptr : ℕ) : ℕ := (routingSize + ptr - 1) / ptr * ptr + ptr

/-- The header that `request_routing_cb` builds, as it is in the packet: `length` bytes of the
structure are copied, so the pointer is in the packet only if the path is long enough. -/
def routingHeader (ptr : ℕ) (src dst : R × R) (paths : List ℤ) : HdrMsvrRouting R where
  type := MSVR_TYPE_ROUTING
  length := .ofNat (routingSize + paths.length * 2)
  hlen := .ofNat (routingSize + paths.length * 2)
  sx := src.1
  sy := src.2
  dx := dst.1
  dy := dst.2
  path :=
    if pathEnd ptr ≤ (UInt16.ofNat (routingSize + paths.length * 2)).toNat then
      some (pathText paths)
    else none

section agent

variable [Scalar R]

/-! ### The next hop -/

/-- `MsvrMap::getRoadByNode`. -/
def getRoadByNode (m : Map R n) (src dst : ℤ) : ℤ :=
  match m.edges.find? (fun e => decide
    (((e.source : ℕ) : ℤ) = src ∧ ((e.target : ℕ) : ℤ) = dst ∨
      ((e.source : ℕ) : ℤ) = dst ∧ ((e.target : ℕ) : ℤ) = src)) with
  | some e => e.id
  | none => -1

/-- `getMap()[v]`, which does not check `v`. -/
def pointAt (m : Map R n) (v : ℤ) : Option (R × R) :=
  if h : v.toNat < n then
    if 0 ≤ v then some (m.x ⟨v.toNat, h⟩, m.y ⟨v.toNat, h⟩) else none
  else none

/-- The id of the road at a position. -/
def roadAt (m : Map R n) (p : R × R) : ℤ := (getRoadByPos m p.1 p.2).id

/-- The junction that the next hop is to be closer to. -/
def waypoint (m : Map R n) (paths : List ℤ) : Option (R × R) :=
  match paths[2]? with
  | some p2 => pointAt m p2
  | none => paths[1]?.bind (pointAt m)

/-- The search for a next hop, from the position `relay`. -/
def findNext (m : Map R n) (nbl : List (NbEntry R)) (paths : List ℤ) (src dst relay : R × R) :
    Option UInt32 :=
  match paths[0]?, paths[1]? with
  | some p0, some p1 =>
      let roadid1 := getRoadByNode m p0 p1
      (pointAt m p1).bind (fun _ =>
        (waypoint m paths).bind (fun nextPos =>
          let roadid2 := match paths[2]? with
            | some p2 => getRoadByNode m p1 p2
            | none => -1
          let roadid2 :=
            if roadid2 = -1 ∧ roadid1 ≠ roadAt m dst then roadAt m dst else roadid2
          let roadid3 := roadAt m src
          msvrGetNextHop nbl roadid1 roadid2 roadid3 relay.1 relay.2 nextPos.1 nextPos.2 true))
  | _, _ => none

/-- `// remove passed path`. -/
def removePassed (m : Map R n) (paths : List ℤ) (relay next : R × R) : Option (List ℤ) :=
  match paths with
  | p0 :: p1 :: rest =>
      let road := getRoadByNode m p0 p1
      some (if road ≠ roadAt m next ∧ roadAt m relay = road then p1 :: rest else p0 :: p1 :: rest)
  | _ => none

/-! ### The agent -/

/-- What an agent finds when it handles a packet: the map, its neighbours, and what is in the
variables that `getSrcAndDst` does not set. -/
structure Moment (R : Type*) (n : ℕ) where
  map : Map R (n + 1)
  nbl : List (NbEntry R)
  junk : R × R

/-- What `request_routing_cb` has the agent do. -/
inductive Reply (R : Type*)
  | dropPacket
  | sendProtPacketWithData (next : UInt32) (hdr : HdrMsvrRouting R)

/-- `msvr_find_dst`. -/
def msvrFindDst (nbl : List (NbEntry R)) (dst : UInt32) : Bool :=
  nbl.any (fun e => e.ninfo.dst == dst)

variable (ptr : ℕ) (dijkstra : List (Edge (n + 1)) → Fin (n + 1) → Fin (n + 1) → Fin (n + 1))
  (fuel : ℕ) (pos : UInt32 → R × R)

/-- The end of `request_routing_cb`. -/
def sendOn (m : Map R (n + 1)) (paths : List ℤ) (src dst : UInt32) (relay : R × R)
    (next : UInt32) : Option (Reply R) :=
  let next := if next = nowhere then dst else next
  (removePassed m paths relay (pos next)).map (fun paths =>
    .sendProtPacketWithData next (routingHeader ptr (pos src) (pos dst) paths))

/-- The path that `request_routing_cb` computes, and the map afterwards. -/
def computedPath (now : Moment R n) (src dst : UInt32) : Option (List ℤ × Map R (n + 1)) :=
  (getPaths dijkstra now.map now.junk (pos src).1 (pos src).2 (pos dst).1 (pos dst).2 fuel).map
    (fun r => (r.1.map Int.ofNat, r.2))

/-- `request_routing_cb`; `p` is the header of a packet that is relayed. -/
def requestRoutingCb (now : Moment R n) (self : UInt32) (p : Option (HdrMsvrRouting R))
    (src dst : UInt32) : Option (Reply R) :=
  if msvrFindDst now.nbl dst then
    (computedPath dijkstra fuel pos now src dst).bind (fun r =>
      sendOn ptr pos r.2 r.1 src dst (pos src) dst)
  else
    match p with
    | none =>
        (computedPath dijkstra fuel pos now src dst).bind (fun r =>
          (findNext r.2 now.nbl r.1 (pos src) (pos dst) (pos src)).bind
            (sendOn ptr pos r.2 r.1 src dst (pos src)))
    | some hdr =>
        (hdr.path.bind receivedPath).bind (fun paths =>
          if paths.length < 2 then some .dropPacket
          else
            (findNext now.map now.nbl paths (pos src) (pos dst) (pos self)).bind
              (sendOn ptr pos now.map paths src dst (pos self)))

/-- A packet that a host receives; `forwards` counts how often it was received from the radio. -/
structure Flight (R : Type*) where
  host : UInt32
  forwards : ℕ
  hdr : HdrMsvrRouting R

/-- What becomes of a packet that is received. -/
inductive Fate (R : Type*)
  | delivered
  | dropped
  | sent (next : UInt32) (hdr : HdrMsvrRouting R)

/-- `CpcAgent::recv` with `processPacket`, for a packet that is not of the routing protocol. -/
def recv (src dst : UInt32) (f : Flight R) (now : Moment R n) : Option (Fate R) :=
  if src = f.host ∧ 0 < f.forwards then some .dropped
  else if dst = f.host then some .delivered
  else
    (requestRoutingCb ptr dijkstra fuel pos now f.host (if src = f.host then none else some f.hdr)
      src dst).map (fun r =>
        match r with
        | .dropPacket => .dropped
        | .sendProtPacketWithData next hdr => .sent next hdr)

/-- A hop: the radio hands the packet to the next hop. -/
def step (src dst : UInt32) (f : Flight R) (now : Moment R n) : Option (Flight R) :=
  match recv ptr dijkstra fuel pos src dst f now with
  | some (.sent next hdr) => some ⟨next, f.forwards + 1, hdr⟩
  | _ => none

end agent

/-! ### What a relay decodes -/

theorem decodePath_congr {m m' : Mem} (h : ∀ i : ℕ, (i : ℤ) ≤ ofChar (m 0) → m i = m' i)
    (h0 : m 0 = m' 0) (acc : List ℤ) : (decodePath m acc 0).val = (decodePath m' acc 0).val := by
  rw [decodePath, decodePath, bind_val, bind_val, bind_val, bind_val, pure_val, pure_val,
    readU8_val, readU8_val, PathCodec.decodeLoop_val, PathCodec.decodeLoop_val, ← h0]
  refine congrArg (acc ++ ·) (List.map_congr_left (fun j hj => congrArg ofChar (h _ ?_)))
  have hlast := (PathCodec.lt_iterations_iff _ j).mp (List.mem_range.mp hj)
  omega

theorem pathText_head {paths : List ℤ} (hne : paths ≠ []) :
    (pathText paths).head? = some (toChar (paths.length * 2 - 1)) := by
  obtain ⟨k, hk⟩ := Nat.exists_eq_succ_of_ne_zero (List.length_pos_iff.mpr hne).ne'
  unfold pathText
  rw [hk, Nat.succ_eq_add_one, Nat.add_mul, bytes_succ, List.head?_cons, PathCodec.encodePath_first,
    hk, Nat.succ_eq_add_one]

/-- The path that arrives. -/
theorem receivedPath_pathText {paths : List ℤ} (hne : paths ≠ []) :
    receivedPath (pathText paths) =
      if ofChar (toChar (paths.length * 2 - 1)) < 0 then none
      else some ((paths.take (iterations (ofChar (toChar (paths.length * 2 - 1))))).map
        (fun id => Int.bmod id 256)) := by
  have hpos := List.length_pos_iff.mpr hne
  unfold receivedPath
  rw [pathText_head hne, Option.bind_some]
  dsimp only
  split_ifs with hneg
  · rfl
  have hlen : ofChar (toChar (paths.length * 2 - 1)) ≤ paths.length * 2 - 1 := by
    rw [PathCodec.ofChar_toChar, Int.bmod_def]
    omega
  -- the copy has the bytes that are decoded
  have hcopy : ∀ i : ℕ, (i : ℤ) ≤ ofChar (toChar (paths.length * 2 - 1)) →
      (encodePath (fun _ => 0) 0 paths).val i =
        write (fun _ => 0) 0 ((pathText paths).take
          ((ofChar (toChar (paths.length * 2 - 1))).toNat + 1)) i := by
    intro i hi
    have hin : i < ((pathText paths).take
        ((ofChar (toChar (paths.length * 2 - 1))).toNat + 1)).length := by
      rw [List.length_take, pathText, bytes_length]
      omega
    have hwrite := @write_inside (fun _ => 0) 0 i _ hin
    rw [Nat.zero_add] at hwrite
    rw [hwrite, List.getElem_take]
    unfold pathText
    rw [bytes_getElem, Nat.zero_add]
  have hfirst := PathCodec.encodePath_first (fun _ => 0) 0 paths
  have hdecode := PathCodec.decodePath_encodePath (fun _ => 0) 0 paths []
  rw [List.nil_append] at hdecode
  rw [← hdecode, decodePath_congr (fun i hi => hcopy i (by rwa [hfirst] at hi))
    (hcopy 0 (by omega))]

/-- A path that fits arrives as it is. -/
theorem receivedPath_of_fits {paths : List ℤ} (hne : paths ≠ []) (hlen : paths.length ≤ 64)
    (hids : ∀ id ∈ paths, -128 ≤ id ∧ id < 128) :
    receivedPath (pathText paths) = some paths := by
  have hpos := List.length_pos_iff.mpr hne
  have hall := (PathCodec.iterations_eq_iff hpos).mpr hlen
  rw [receivedPath_pathText hne, if_neg ?_, hall, List.take_length]
  · refine congrArg some ((List.map_congr_left (fun id hid => ?_)).trans (List.map_id paths))
    exact (PathCodec.bmod_eq_self_iff id).mpr (hids id hid)
  · intro hneg
    unfold iterations at hall
    omega

/-- What is decoded fits. -/
theorem fits_of_receivedPath {text : List UInt8} {paths : List ℤ}
    (h : receivedPath text = some paths) :
    paths.length ≤ 64 ∧ ∀ id ∈ paths, -128 ≤ id ∧ id < 128 := by
  obtain ⟨first, -, h⟩ := Option.bind_eq_some_iff.mp h
  dsimp only at h
  split_ifs at h
  cases h
  rw [decodePath, bind_val, bind_val, pure_val, readU8_val, PathCodec.decodeLoop_val,
    List.nil_append, List.length_map, List.length_range]
  constructor
  · have hlt := PathCodec.ofChar_lt (write (fun _ => 0) 0
      (text.take ((ofChar first).toNat + 1)) 0)
    unfold iterations
    omega
  · intro id hid
    obtain ⟨j, -, rfl⟩ := List.mem_map.mp hid
    exact ⟨Int8.le_toInt _, PathCodec.ofChar_lt _⟩

theorem receivedPath_suffix {text : List UInt8} {paths rest : List ℤ}
    (h : receivedPath text = some paths) (hne : rest ≠ []) (hsuffix : rest <:+ paths) :
    receivedPath (pathText rest) = some rest := by
  obtain ⟨hlen, hids⟩ := fits_of_receivedPath h
  exact receivedPath_of_fits hne (hsuffix.length_le.trans hlen)
    (fun id hid => hids id (hsuffix.subset hid))

/-! ### The next hop -/

section spec

variable {m : Map ℝ n} {nbl : List (NbEntry ℝ)} {paths rest : List ℤ}
  {src dst relay next : ℝ × ℝ} {hop : UInt32}

/-- The distance of a position from the junction `w`. -/
noncomputable def distTo (w p : ℝ × ℝ) : ℝ := msvrCalDist w.1 w.2 p.1 p.2

theorem msvrCalDist_comm (x1 y1 x2 y2 : ℝ) :
    msvrCalDist x1 y1 x2 y2 = msvrCalDist x2 y2 x1 y1 := by
  unfold msvrCalDist
  congr 1
  ring

/-- The junction depends on the points of the map only. -/
theorem waypoint_congr {m' : Map ℝ n} (hx : m.x = m'.x) (hy : m.y = m'.y) (paths : List ℤ) :
    waypoint m paths = waypoint m' paths := by
  unfold waypoint pointAt
  rw [hx, hy]

theorem msvrGetNextHop_some {roadid1 roadid2 roadid3 : ℤ} {w : ℝ × ℝ}
    (h : msvrGetNextHop nbl roadid1 roadid2 roadid3 relay.1 relay.2 w.1 w.2 true = some hop) :
    hop = nowhere ∨ ∃ e ∈ nbl, e.ninfo.dst = hop ∧
      distTo w (e.ninfo.x, e.ninfo.y) < distTo w relay := by
  obtain ⟨hnone, -⟩ | ⟨e, hsome, pre, post, rfl, heligible, -⟩ :=
    @MsvrNblist.msvrGetNextHop_cases roadid1 roadid2 roadid3 relay.1 relay.2 w.1 w.2 nbl
  · rw [hnone] at h
    cases h
    exact Or.inl rfl
  · rw [hsome] at h
    cases h
    have hcloser := heligible.closer
    rw [msvrCalDist_comm relay.1 relay.2] at hcloser
    exact Or.inr ⟨e, List.mem_append_right _ List.mem_cons_self, rfl, hcloser⟩

/-- A next hop that is found is closer to the junction than the relay. -/
theorem findNext_some (h : findNext m nbl paths src dst relay = some hop) :
    2 ≤ paths.length ∧ ∃ w, waypoint m paths = some w ∧
      (hop = nowhere ∨ ∃ e ∈ nbl, e.ninfo.dst = hop ∧
        distTo w (e.ninfo.x, e.ninfo.y) < distTo w relay) := by
  unfold findNext at h
  split at h
  case h_2 => cases h
  case h_1 p0 p1 _ hp1 =>
    obtain ⟨-, -, h⟩ := Option.bind_eq_some_iff.mp h
    obtain ⟨w, hw, h⟩ := Option.bind_eq_some_iff.mp h
    obtain ⟨hlen, -⟩ := List.getElem?_eq_some_iff.mp hp1
    exact ⟨hlen, w, hw, msvrGetNextHop_some h⟩

/-- One junction is removed at the most, and not the last one. -/
theorem removePassed_some (h : removePassed m paths relay next = some rest) :
    2 ≤ paths.length ∧ rest ≠ [] ∧ (rest = paths ∨ rest = paths.tail) := by
  obtain _ | ⟨p0, _ | ⟨p1, ps⟩⟩ := paths
  · cases h
  · cases h
  · have hlen : 2 ≤ (p0 :: p1 :: ps).length := Nat.le_add_left 2 _
    unfold removePassed at h
    cases h
    split_ifs
    · exact ⟨hlen, List.cons_ne_nil _ _, Or.inr rfl⟩
    · exact ⟨hlen, List.cons_ne_nil _ _, Or.inl rfl⟩

end spec

/-! ### A hop -/

/-- The path that is left to a packet. -/
def Flight.paths {R : Type*} (f : Flight R) : List ℤ := (f.hdr.path.bind receivedPath).getD []

/-- A host with a packet that is closer to the junction ahead than the relay. -/
structure Closer (pos : UInt32 → ℝ × ℝ) (m : Map ℝ n) (nbl : List (NbEntry ℝ)) (f : Flight ℝ)
    (host : UInt32) : Prop where
  neighbour : ∃ e ∈ nbl, e.ninfo.dst = host
  closer : ∃ w, waypoint m f.paths = some w ∧ distTo w (pos host) < distTo w (pos f.host)

/-- The neighbours are where the list has them. -/
def Truthful (pos : UInt32 → ℝ × ℝ) (nbl : List (NbEntry ℝ)) : Prop :=
  ∀ e ∈ nbl, (e.ninfo.x, e.ninfo.y) = pos e.ninfo.dst

section hop

variable {ptr : ℕ} {dijkstra : List (Edge (n + 1)) → Fin (n + 1) → Fin (n + 1) → Fin (n + 1)}
  {fuel : ℕ} {pos : UInt32 → ℝ × ℝ} {now : Moment ℝ n} {src dst : UInt32} {f f' : Flight ℝ}

/-- What a hop is made of. -/
theorem step_some (h : step ptr dijkstra fuel pos src dst f now = some f') :
    ¬ (src = f.host ∧ 0 < f.forwards) ∧ dst ≠ f.host ∧ f'.forwards = f.forwards + 1 ∧
      requestRoutingCb ptr dijkstra fuel pos now f.host
        (if src = f.host then none else some f.hdr) src dst =
          some (.sendProtPacketWithData f'.host f'.hdr) := by
  unfold step recv at h
  by_cases hloop : src = f.host ∧ 0 < f.forwards
  · rw [if_pos hloop] at h
    cases h
  by_cases hdst : dst = f.host
  · rw [if_neg hloop, if_pos hdst] at h
    cases h
  rw [if_neg hloop, if_neg hdst] at h
  refine ⟨hloop, hdst, ?_⟩
  cases hr : requestRoutingCb ptr dijkstra fuel pos now f.host
      (if src = f.host then none else some f.hdr) src dst with
  | none => rw [hr] at h; cases h
  | some r =>
      rw [hr] at h
      cases r with
      | dropPacket => cases h
      | sendProtPacketWithData next hdr =>
          cases h
          exact ⟨rfl, rfl⟩

/-- The header that is sent has the rest of the path. -/
theorem sendOn_some {m : Map ℝ (n + 1)} {paths : List ℤ} {relay : ℝ × ℝ} {hop next : UInt32}
    {hdr : HdrMsvrRouting ℝ}
    (h : sendOn ptr pos m paths src dst relay hop = some (.sendProtPacketWithData next hdr)) :
    next = (if hop = nowhere then dst else hop) ∧ ∃ rest, rest ≠ [] ∧
      (rest = paths ∨ rest = paths.tail) ∧
      hdr = routingHeader ptr (pos src) (pos dst) rest := by
  obtain ⟨rest, hrest, h⟩ := Option.map_eq_some_iff.mp h
  cases h
  obtain ⟨-, hne, hor⟩ := removePassed_some hrest
  exact ⟨rfl, rest, hne, hor, rfl⟩

/-- What a relay sends: the packet goes to the destination, or to a neighbour that the list has
closer to the junction ahead, with the path or without its first junction. -/
theorem relay_some {self next : UInt32} {hdr hdr' : HdrMsvrRouting ℝ}
    (h : requestRoutingCb ptr dijkstra fuel pos now self (some hdr) src dst =
      some (.sendProtPacketWithData next hdr')) :
    next = dst ∨ ∃ paths, hdr.path.bind receivedPath = some paths ∧ 2 ≤ paths.length ∧
      (∃ w, waypoint now.map paths = some w ∧ ∃ e ∈ now.nbl, e.ninfo.dst = next ∧
        distTo w (e.ninfo.x, e.ninfo.y) < distTo w (pos self)) ∧
      ∃ rest, rest ≠ [] ∧ (rest = paths ∨ rest = paths.tail) ∧
        hdr' = routingHeader ptr (pos src) (pos dst) rest := by
  unfold requestRoutingCb at h
  by_cases hdst : msvrFindDst now.nbl dst = true
  · rw [if_pos hdst] at h
    obtain ⟨r, -, h⟩ := Option.bind_eq_some_iff.mp h
    obtain ⟨hnext, -⟩ := sendOn_some h
    exact Or.inl (by rw [hnext, ite_self])
  · rw [if_neg hdst] at h
    obtain ⟨paths, hpaths, h⟩ := Option.bind_eq_some_iff.mp h
    by_cases hshort : paths.length < 2
    · rw [if_pos hshort] at h
      cases h
    rw [if_neg hshort] at h
    obtain ⟨hop, hhop, h⟩ := Option.bind_eq_some_iff.mp h
    obtain ⟨hnext, hrest⟩ := sendOn_some h
    obtain ⟨hlen, w, hw, rfl | ⟨e, he, rfl, hcloser⟩⟩ := findNext_some hhop
    · exact Or.inl (by rw [hnext, if_pos rfl])
    · by_cases hn : e.ninfo.dst = nowhere
      · exact Or.inl (by rw [hnext, if_pos hn])
      · rw [if_neg hn] at hnext
        exact Or.inr ⟨paths, hpaths, hlen, ⟨w, hw, e, he, hnext.symm, hcloser⟩, hrest⟩

/-- What the source sends. -/
theorem source_some {self next : UInt32} {hdr : HdrMsvrRouting ℝ}
    (h : requestRoutingCb ptr dijkstra fuel pos now self none src dst =
      some (.sendProtPacketWithData next hdr)) :
    (next = dst ∨ ∃ e ∈ now.nbl, e.ninfo.dst = next) ∧
      ∃ paths map rest, computedPath dijkstra fuel pos now src dst = some (paths, map) ∧
        rest ≠ [] ∧ (rest = paths ∨ rest = paths.tail) ∧
        hdr = routingHeader ptr (pos src) (pos dst) rest := by
  unfold requestRoutingCb at h
  by_cases hdst : msvrFindDst now.nbl dst = true
  · rw [if_pos hdst] at h
    obtain ⟨⟨paths, map⟩, hpaths, h⟩ := Option.bind_eq_some_iff.mp h
    obtain ⟨hnext, rest, hrest⟩ := sendOn_some h
    exact ⟨Or.inl (by rw [hnext, ite_self]), paths, map, rest, hpaths, hrest⟩
  · rw [if_neg hdst] at h
    obtain ⟨⟨paths, map⟩, hpaths, h⟩ := Option.bind_eq_some_iff.mp h
    obtain ⟨hop, hhop, h⟩ := Option.bind_eq_some_iff.mp h
    obtain ⟨hnext, rest, hrest⟩ := sendOn_some h
    refine ⟨?_, paths, map, rest, hpaths, hrest⟩
    obtain ⟨-, w, -, rfl | ⟨e, he, rfl, -⟩⟩ := findNext_some hhop
    · exact Or.inl (by rw [hnext, if_pos rfl])
    · by_cases hn : e.ninfo.dst = nowhere
      · exact Or.inl (by rw [hnext, if_pos hn])
      · exact Or.inr ⟨e, he, by rw [hnext, if_neg hn]⟩

/-- The next relay finds the rest of the path in the header, or a pointer that is not whole. -/
theorem paths_of_header {s d : ℝ × ℝ} {rest : List ℤ} (hhdr : f'.hdr = routingHeader ptr s d rest)
    (hrest : receivedPath (pathText rest) = some rest) : f'.paths = rest ∨ f'.paths = [] := by
  unfold Flight.paths
  rw [hhdr]
  unfold routingHeader
  dsimp only
  split_ifs
  · exact Or.inl (by rw [Option.bind_some, hrest, Option.getD_some])
  · exact Or.inr rfl

/-- **A hop of a relay**: to the destination, or closer to the junction ahead with no more of the
path; if the path is not the same, it is shorter. -/
theorem relay_hop (h : step ptr dijkstra fuel pos src dst f now = some f')
    (hrelay : 0 < f.forwards) (htrue : Truthful pos now.nbl) :
    f'.host = dst ∨ Closer pos now.map now.nbl f f'.host ∧
      (f'.paths = f.paths ∨ f'.paths.length < f.paths.length) := by
  obtain ⟨hloop, -, -, hreply⟩ := step_some h
  rw [if_neg (fun hsrc => hloop ⟨hsrc, hrelay⟩)] at hreply
  obtain hdst | ⟨paths, hpaths, hlen, ⟨w, hw, e, he, hehost, hcloser⟩, rest, hne, hrest, hhdr⟩ :=
    relay_some hreply
  · exact Or.inl hdst
  obtain ⟨text, -, htext⟩ := Option.bind_eq_some_iff.mp hpaths
  have hf : f.paths = paths := by
    unfold Flight.paths
    rw [hpaths, Option.getD_some]
  rw [← hf] at hw hlen hrest htext
  rw [htrue e he, hehost] at hcloser
  refine Or.inr ⟨⟨⟨e, he, hehost⟩, w, hw, hcloser⟩, ?_⟩
  have hsuffix : rest <:+ f.paths := by
    obtain rfl | rfl := hrest
    · exact List.suffix_refl _
    · exact List.tail_suffix _
  obtain hrest' | hnil := paths_of_header hhdr (receivedPath_suffix htext hne hsuffix)
  · rw [hrest']
    obtain he | he := hrest
    · exact Or.inl he
    · exact Or.inr (by rw [he, List.length_tail]; omega)
  · exact Or.inr (by rw [hnil, List.length_nil]; omega)

end hop

/-! ### The agents of the queue -/

section agents

open CpcNs (Agents.Env Agents.Call Agents.everyOther)

/-- What the agent is asked to do, without the header. -/
def Reply.call {R : Type*} (src dst : UInt32) : Reply R → Agents.Call
  | .dropPacket => .dropPacket dst
  | .sendProtPacketWithData next _ => .sendProtPacketWithData src dst next

theorem everyOther_length : ∀ l : List ℤ, (Agents.everyOther l).length = (l.length + 1) / 2
  | [] => rfl
  | [a] => by simp [Agents.everyOther]
  | _ :: _ :: l => by
      rw [Agents.everyOther, List.length_cons, everyOther_length l, List.length_cons,
        List.length_cons]
      omega

/-- Both decoders find the same number of junctions. -/
theorem decodePath_length {paths ps : List ℤ} (hne : paths ≠ [])
    (h : receivedPath (pathText paths) = some ps) :
    (CpcNs.Agents.decodePath ((pathText paths).map ofChar)).length = ps.length := by
  have hle := PathCodec.iterations_le paths.length
  have hhead := pathText_head hne
  have hlen : (pathText paths).length = paths.length * 2 := bytes_length _ _ _
  rw [receivedPath_pathText hne] at h
  split_ifs at h with hneg
  cases h
  generalize pathText paths = text at hhead hlen ⊢
  obtain _ | ⟨first, text⟩ := text
  · cases hhead
  obtain rfl := Option.some.inj hhead
  rw [List.length_cons] at hlen
  rw [List.map_cons, CpcNs.Agents.decodePath, everyOther_length, List.length_take, List.length_map,
    List.length_map, List.length_take, Nat.min_eq_left hle]
  unfold iterations at hle ⊢
  omega

variable {ptr : ℕ} {dijkstra : List (Edge (n + 1)) → Fin (n + 1) → Fin (n + 1) → Fin (n + 1)}
  {fuel : ℕ} {pos : UInt32 → ℝ × ℝ} {now : Moment ℝ n} {src dst : UInt32}

/-- The callback of the agents' queue is this one, seen from there: whatever it replies, the queue's
callback has the same call for an environment with the path of the packet. -/
theorem requestRoutingCb_call {self : UInt32} {p : Option (HdrMsvrRouting ℝ)} {r : Reply ℝ}
    (h : requestRoutingCb ptr dijkstra fuel pos now self p src dst = some r)
    (hp : ∀ hdr ∈ p, ∃ paths, paths ≠ [] ∧ hdr.path = some (pathText paths)) :
    ∃ env : Agents.Env, env.isNeighbour = msvrFindDst now.nbl dst ∧
      (∀ hdr ∈ p, hdr.path.map (List.map ofChar) = some env.path) ∧
      CpcNs.Agents.requestRoutingCb (p.map (fun _ => env.path)) src dst env = r.call src dst := by
  -- the next hop of the reply is one that is not replaced again
  have hnext : ∀ {m : Map ℝ (n + 1)} {paths : List ℤ} {relay : ℝ × ℝ} {hop : UInt32},
      sendOn ptr pos m paths src dst relay hop = some r → ∃ next, r.call src dst =
        .sendProtPacketWithData src dst (if next = nowhere then dst else next) ∧
        (hop = dst → next = dst) := by
    intro m paths relay hop hsend
    obtain ⟨rest, -, rfl⟩ := Option.map_eq_some_iff.mp hsend
    exact ⟨hop, rfl, id⟩
  obtain ⟨path, hpath⟩ : ∃ path, ∀ hdr ∈ p, hdr.path.map (List.map ofChar) = some path := by
    cases p with
    | none => exact ⟨[], fun hdr hmem => by cases hmem⟩
    | some hdr =>
        obtain ⟨paths, -, hpaths⟩ := hp hdr rfl
        refine ⟨(pathText paths).map ofChar, fun hdr' hmem => ?_⟩
        cases hmem
        rw [hpaths, Option.map_some]
  unfold requestRoutingCb at h
  by_cases hdst : msvrFindDst now.nbl dst = true
  · rw [if_pos hdst] at h
    obtain ⟨r', -, h⟩ := Option.bind_eq_some_iff.mp h
    obtain ⟨next, hcall, hdir⟩ := hnext h
    refine ⟨⟨true, path, next, []⟩, hdst.symm, hpath, ?_⟩
    rw [hcall, hdir rfl, ite_self]
    rfl
  · rw [if_neg hdst] at h
    have hfalse := (Bool.not_eq_true _).mp hdst
    cases p with
    | none =>
        obtain ⟨r', -, h⟩ := Option.bind_eq_some_iff.mp h
        obtain ⟨hop, -, h⟩ := Option.bind_eq_some_iff.mp h
        obtain ⟨next, hcall, -⟩ := hnext h
        exact ⟨⟨false, path, next, []⟩, hfalse.symm, hpath, hcall.symm⟩
    | some hdr =>
        obtain ⟨ps, hps, h⟩ := Option.bind_eq_some_iff.mp h
        obtain ⟨paths, hne, hpaths⟩ := hp hdr rfl
        have htext : (pathText paths).map ofChar = path := by
          have he := hpath hdr rfl
          rw [hpaths, Option.map_some] at he
          exact Option.some.inj he
        rw [hpaths, Option.bind_some] at hps
        have hlen := decodePath_length hne hps
        rw [htext] at hlen
        by_cases hshort : ps.length < 2
        · rw [if_pos hshort] at h
          cases h
          refine ⟨⟨false, path, 0, []⟩, hfalse.symm, hpath, ?_⟩
          unfold CpcNs.Agents.requestRoutingCb
          rw [if_neg Bool.false_ne_true, Option.map_some]
          exact if_pos (by rwa [hlen])
        · rw [if_neg hshort] at h
          obtain ⟨hop, -, h⟩ := Option.bind_eq_some_iff.mp h
          obtain ⟨next, hcall, -⟩ := hnext h
          refine ⟨⟨false, path, next, []⟩, hfalse.symm, hpath, ?_⟩
          unfold CpcNs.Agents.requestRoutingCb
          rw [if_neg Bool.false_ne_true, Option.map_some, hcall]
          exact if_neg (by rwa [hlen])

end agents

end GeoSvr.MsvrNet
