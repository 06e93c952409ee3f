import GeoSvr.RouteRestore
import GeoSvr.WhileLoop

/-! # The road map of the simulation (`msvr_map.cc`)

`MsvrMap` has the graph of `map_manager.cc` in another program: junctions are vertices, roads are
edges in the order in which they are stored, and the point of the vertex `v` has the id `v`, as in
all the lists of points in the source.  There is one vertex at least, the one that `path` begins
with.

`getPaths` collects paths until `hasNextPath` finds no unmarked road from the destination to a
junction that is closer to the source.  It marks all roads between two junctions of a path with
the type `INT_MAX`, for which the search still uses them: they are only the longest.  Afterwards
it gives the roads of each path the types that were recorded for that path.

`getSrcAndDst` reads `x` and `y` in the iteration for the destination road and sets them in the
one for the source road.  What they hold before is `junk`, and `unset` tells that it was read. -/

namespace GeoSvr.MsvrMap

open MapManager (Edge Map INT_MAX intAdd ofInt)

/-- `struct Road`. -/
structure Road where
  id : ℤ
  type : ℤ
deriving DecidableEq

variable {R : Type*} [Scalar R] {n : ℕ}

/-! ### Roads and distances -/

/-- `msvr_cal_dist`. -/
def msvrCalDist (x1 y1 x2 y2 : R) : R :=
  Scalar.sqrt ((x1 - x2) * (x1 - x2) + (y1 - y2) * (y1 - y2))

/-- The distance of a junction from a position. -/
def distFrom (m : Map R n) (v : Fin n) (x y : R) : R := msvrCalDist (m.x v) (m.y v) x y

/-- The distance between two junctions. -/
def dist (m : Map R n) (u v : Fin n) : R := msvrCalDist (m.x u) (m.y u) (m.x v) (m.y v)

/-- The test of `getRoadByPos` in one coordinate, with `MSVR_ROAD_PAD`: `x` is between `a` and `b`
or at most 30 beside. -/
def padded (a b x : R) : Bool :=
  !Scalar.lt x ((if Scalar.lt b a then b else a) - Scalar.ofNat 30) &&
    !Scalar.lt ((if Scalar.lt a b then b else a) + Scalar.ofNat 30) x

/-- `enum nodes` of the constructor. -/
abbrev nodeA : Fin 5 := ⟨0, by decide⟩
abbrev nodeB : Fin 5 := ⟨1, by decide⟩
abbrev nodeC : Fin 5 := ⟨2, by decide⟩
abbrev nodeD : Fin 5 := ⟨3, by decide⟩
abbrev nodeE : Fin 5 := ⟨4, by decide⟩

/-- The map that the constructor builds. -/
def defaultMap (R : Type*) [Scalar R] : Map R 5 where
  x v := Scalar.ofNat ([0, 100, 1400, 1500, 1550].getD v 0)
  y v := Scalar.ofNat ([0, 0, 0, 1000, 0].getD v 0)
  edges := [⟨nodeA, nodeB, 0, 100⟩, ⟨nodeB, nodeC, 1, 100⟩, ⟨nodeC, nodeD, 2, 100⟩,
    ⟨nodeD, nodeE, 3, 100⟩]

/-- `adjacent_vertices`, in the order of the roads at `v`. -/
def adjacentVertices (m : Map R n) (v : Fin n) : List (Fin n) :=
  m.edges.flatMap (fun e =>
    (if e.source = v then [e.target] else []) ++ (if e.target = v then [e.source] else []))

/-- The test of `getRoadByPos` for two junctions. -/
def inBox (m : Map R n) (u v : Fin n) (x y : R) : Bool :=
  padded (m.x u) (m.x v) x && padded (m.y u) (m.y v) y

/-- The loop of `getRoadByPos` over the roads, for two adjacent vertices. -/
def roadTo (m : Map R n) (x y : R) (vi ai : Fin n) : Option (Edge n) :=
  if inBox m vi ai x y then m.edges.find? (fun e => e.source == vi && e.target == ai) else none

/-- The loop of `getRoadByPos` over the vertices adjacent to `vi`. -/
def roadFrom (m : Map R n) (x y : R) (vi : Fin n) : Option (Edge n) :=
  (adjacentVertices m vi).findSome? (roadTo m x y vi)

/-- The road that `getRoadByPos` finds. -/
def roadAt (m : Map R n) (x y : R) : Option (Edge n) :=
  (List.finRange n).findSome? (roadFrom m x y)

/-- `getRoadByPos`. -/
def getRoadByPos (m : Map R n) (x y : R) : Road :=
  match roadAt m x y with
  | some e => ⟨e.id, e.type⟩
  | none => ⟨-1, 0⟩

/-! ### Source and destination -/

/-- The variables of `getSrcAndDst`: `path`, and `x` and `y` if they are set. -/
structure Ends (R : Type*) (n : ℕ) where
  first : Fin n
  second : Fin n
  pos : Option (R × R)
  unset : Bool

/-- The source is the nearer end of its road. -/
def setSource (m : Map R n) (x1 y1 : R) (s : Ends R n) (e : Edge n) : Ends R n :=
  let v := if Scalar.lt (distFrom m e.source x1 y1) (distFrom m e.target x1 y1) then e.source
    else e.target
  { s with first := v, pos := some (m.x v, m.y v) }

/-- The destination is the other end of the source's road, or the farther end of its own. -/
def setDest (m : Map R n) (junk : R × R) (s : Ends R n) (e : Edge n) : Ends R n :=
  let (x, y) := s.pos.getD junk
  let v :=
    if s.first = e.source then e.target
    else if s.first = e.target then e.source
    else if Scalar.lt (distFrom m e.target x y) (distFrom m e.source x y) then e.source
    else e.target
  { s with second := v, unset := s.unset || s.pos.isNone }

/-- An iteration of `getSrcAndDst`. -/
def endsStep (m : Map R n) (srcId dstId : ℤ) (x1 y1 : R) (junk : R × R) (s : Ends R n)
    (e : Edge n) : Ends R n :=
  let s := if e.id = srcId then setSource m x1 y1 s e else s
  if e.id = dstId then setDest m junk s e else s

/-- `getSrcAndDst`; `path` begins as `(0, 0)`. -/
def getSrcAndDst (m : Map R (n + 1)) (junk : R × R) (x1 y1 x2 y2 : R) : Ends R (n + 1) :=
  m.edges.foldl
    (endsStep m (getRoadByPos m x1 y1).id (getRoadByPos m x2 y2).id x1 y1 junk)
    ⟨⟨0, Nat.succ_pos n⟩, ⟨0, Nat.succ_pos n⟩, none, false⟩

/-! ### The search -/

/-- `hasNextPath`. -/
def hasNextPath (m : Map R n) (src dst : Fin n) : Bool :=
  m.edges.any (fun e => (e.source == dst || e.target == dst) && (e.type != INT_MAX &&
    Scalar.lt (dist m src (if e.source = dst then e.target else e.source)) (dist m src dst)))

/-- `meanSquare`; the mean is computed in `size_t`. -/
def meanSquare (types : List ℤ) : R :=
  let sum := types.foldl intAdd 0
  let mean : R := Scalar.ofNat ((sum % 2 ^ 64).toNat / types.length)
  let sum2 := types.foldl
    (fun sum2 type => sum2 + (ofInt type - mean) * (ofInt type - mean)) (Scalar.ofNat 0)
  Scalar.sqrt (sum2 / Scalar.ofNat types.length)

/-- The junctions `*vi` that `for (vi = dst_iter; vi != src_iter; vi = p[*vi])` visits; `none` if
it has not ended after `fuel` iterations. -/
def walk (p : Fin n → Fin n) (src : Fin n) : ℕ → Fin n → Option (List (Fin n))
  | fuel, vi =>
      if vi = src then some []
      else
        match fuel with
        | 0 => none
        | fuel + 1 => (walk p src fuel (p vi)).map (fun vs => vi :: vs)

/-- Each iteration of that loop records and marks the roads between `*vi` and its predecessor. -/
def markRoads (p : Fin n → Fin n) : List (Fin n) → List (Edge n) → List ℤ × List (Edge n)
  | [], es => ([], es)
  | vi :: vs, es =>
      let types := (es.filter (fun e => e.joins vi (p vi))).map Edge.type
      let (rest, marked) :=
        markRoads p vs (es.map (fun e => if e.joins vi (p vi) then e.close else e))
      (types ++ rest, marked)

/-- What an iteration adds to `preds_vec`, `types_vec`, `paths_vec` and `means_vec`. -/
structure Candidate (R : Type*) (n : ℕ) where
  preds : Fin n → Fin n
  types : List ℤ
  paths : List ℕ
  mean : R

/-- The state of the search. -/
structure Search (R : Type*) (n : ℕ) where
  map : Map R n
  found : List (Candidate R n)

section dijkstra

variable (dijkstra : List (Edge n) → Fin n → Fin n → Fin n) (src dst : Fin n)

/-- The body of the search loop.  A way back of `n` junctions visits one twice, so a loop that has
not ended after `n` iterations never ends. -/
def nextPath (s : Search R n) : Option (Search R n) :=
  let p := dijkstra s.map.edges src
  (walk p src n dst).map (fun vs =>
    let (types, es) := markRoads p vs s.map.edges
    { map := { s.map with edges := es },
      found := s.found ++
        [⟨p, types, ((dst :: vs.map p).map Fin.val).reverse, meanSquare types⟩] })

/-- The search loop of `getPaths` between two junctions. -/
def searchPaths (fuel : ℕ) (m : Map R n) : Option (Search R n) :=
  WhileLoop.run (fun s => hasNextPath s.map src dst) (nextPath dijkstra src dst) fuel ⟨m, []⟩

end dijkstra

/-! ### The choice -/

/-- The first loop of `findMeanMin`; the variables are `cnt`, `imax` and `index`. -/
def leastSum : List (List ℤ × ℕ) → ℕ × ℤ × ℕ → ℕ × ℤ × ℕ
  | [], s => s
  | (types, i) :: rest, (cnt, imax, index) =>
      let sum := types.foldl intAdd 0
      if sum < imax then leastSum rest (1, sum, i)
      else if sum = imax then leastSum rest (2, imax, index)
      else leastSum rest (cnt, imax, index)

/-- The second loop of `findMeanMin`; the largest `double` that `max` begins with is `none`. -/
def leastMean : List (R × ℕ) → Option R × ℕ → Option R × ℕ
  | [], s => s
  | (mean, i) :: rest, (max, index) =>
      if max.all (fun max => Scalar.lt mean max) then leastMean rest (some mean, i)
      else leastMean rest (max, index)

/-- `findMeanMin`. -/
def findMeanMin (types : List (List ℤ)) (means : List R) : ℕ :=
  let (cnt, _, index) := leastSum types.zipIdx (0, INT_MAX, 0)
  if cnt = 1 then index else (leastMean means.zipIdx (none, index)).2

/-! ### The types are restored -/

/-- The loops that restore the types for one candidate: the roads of each step get the next
type. -/
def restoreRoads (p : Fin n → Fin n) : List (Fin n) → List ℤ → List (Edge n) → List (Edge n)
  | vi :: vs, type :: types, es =>
      restoreRoads p vs types
        (es.map (fun e => if e.joins vi (p vi) then { e with type := type } else e))
  | _, _, es => es

/-- The last loop of `getPaths`. -/
def restore (src dst : Fin n) : List (Candidate R n) → List (Edge n) → Option (List (Edge n))
  | [], es => some es
  | c :: cs, es =>
      (walk c.preds src n dst).bind
        (fun vs => restore src dst cs (restoreRoads c.preds vs c.types es))

/-- What `getPaths` does after the search; `none` where it takes a path of an empty list. -/
def choosePath (src dst : Fin n) (s : Search R n) : Option (List ℕ × Map R n) :=
  (s.found[findMeanMin (s.found.map Candidate.types) (s.found.map Candidate.mean)]?).bind
    (fun c => (restore src dst s.found s.map.edges).map
      (fun es => (c.paths, { s.map with edges := es })))

section dijkstra

variable (dijkstra : List (Edge (n + 1)) → Fin (n + 1) → Fin (n + 1) → Fin (n + 1))
  (m : Map R (n + 1)) (junk : R × R) (x1 y1 x2 y2 : R)

/-- The search loop of `getPaths`. -/
def pathSearch (fuel : ℕ) : Option (Search R (n + 1)) :=
  let path := getSrcAndDst m junk x1 y1 x2 y2
  searchPaths dijkstra path.first path.second fuel m

/-- `getPaths`: the path, and the map afterwards. -/
def getPaths (fuel : ℕ) : Option (List ℕ × Map R (n + 1)) :=
  let path := getSrcAndDst m junk x1 y1 x2 y2
  (pathSearch dijkstra m junk x1 y1 x2 y2 fuel).bind (choosePath path.first path.second)

end dijkstra

end GeoSvr.MsvrMap
