import GeoSvr.RouteText

/-! # Forward requests (`handle_req_route_forward_normal`)

The kernel asks for the next hop of a packet with the route it carries, a text that another host
has written.  The handler should send one response, a next hop or a drop, whatever the text and the
neighbours are.

It goes wrong where it reads what is not there.  `extract_ofr` makes a road with the id −1 of a
number that no road has, and `restricted_forwarding_algo` reads the record of that road, which is
missing, once it looks at a DIRECT neighbour; `extract_ofr` uses the number of the first token even
if there is none; and `drop_msg` sends as many bytes back as the request says it has.  `Handled` is
the condition on the request that none of this happens. -/

namespace GeoSvr.Daemon

open MapManager (DedupedData Route Map getRoadInfo)
open Text

/-! ### The search over the roads -/

section search

/-- The DIRECT neighbours on a road; a road without a record has none. -/
def roadCandidates {R : Type*} [Scalar R] (table : List (DedupedData R)) (l : List (Neighbor R))
    (r : Route) : List (Neighbor R) :=
  match getRoadInfo table r.roadid with
  | none => []
  | some d => candidates l d

variable (env : Env ℝ) (table : List (DedupedData ℝ)) (l : List (Neighbor ℝ))

/-- The neighbours on the roads `rs`, one road after the other, leave a host. -/
def FindsHost (rs : List Route) : Prop :=
  ∃ n, Chosen env (rs.flatMap (roadCandidates table l)) n ∧ n.ipAddr ≠ 0

/-- A search over the roads `rs`, after those of `done`, looks at a DIRECT neighbour on a road
without a record: none of the roads before it leaves a host. -/
def MeetsMissing (done rs : List Route) : Prop :=
  (∃ n ∈ l, n.state.direct = true) ∧ ∃ pre r post, rs = pre ++ r :: post ∧
    getRoadInfo table r.roadid = none ∧ ∀ p, p <+: pre → ¬ FindsHost env table l (done ++ p)

variable {env table l}

theorem pick_append {R : Type*} [Scalar R] (env : Env R) : ∀ (c c' : List (Neighbor R))
    (acc : UInt32 × Option R), pick env (c ++ c') acc = pick env c' (pick env c acc)
  | [], _, _ => rfl
  | n :: c, c', acc => by
      rw [List.cons_append, pick, pick]
      split_ifs <;> exact pick_append env c c' _

/-- The inner loops over these roads leave an address exactly when a host is found. -/
theorem findsHost_iff {rs : List Route} : FindsHost env table l rs ↔
    (pick env (rs.flatMap (roadCandidates table l)) (0, none)).1 ≠ 0 := by
  unfold FindsHost
  by_cases hc : rs.flatMap (roadCandidates table l) = []
  · rw [hc]
    refine iff_of_false ?_ (fun h => h rfl)
    rintro ⟨n, hn, -⟩
    exact absurd hn.mem List.not_mem_nil
  · obtain ⟨n, hn, he⟩ := pick_spec env hc 0
    rw [he]
    constructor
    · rintro ⟨m, hm, h0⟩
      rwa [hn.unique hm]
    · exact fun h0 => ⟨n, hn, h0⟩

/-- A road without a record stops the inner loop at the first DIRECT neighbour. -/
theorem scanNeighbors_missing {R : Type*} [Scalar R] {env : Env R} {acc : UInt32 × Option R} :
    ∀ {l : List (Neighbor R)}, scanNeighbors env none l acc =
      if ∃ n ∈ l, n.state.direct = true then none else some acc
  | [] => by simp [scanNeighbors]
  | n :: l => by
      have ih := @scanNeighbors_missing R _ env acc l
      rw [scanNeighbors, ih]
      cases hd : n.state.direct with
      | false => simp [hd]
      | true => simp [hd]

/-- The `next` and `min_dist` that the inner loops over these roads leave. -/
def after {R : Type*} [Scalar R] (env : Env R) (table : List (DedupedData R))
    (l : List (Neighbor R)) (done : List Route) : UInt32 × Option R :=
  pick env (done.flatMap (roadCandidates table l)) (0, none)

/-- What the outer loop does with the next road: it reads a missing record, it returns a host, or
it goes on. -/
theorem scanRoads_cons {done rs : List Route} {r : Route} (h0 : ¬ FindsHost env table l done) :
    ((getRoadInfo table r.roadid = none ∧ ∃ n ∈ l, n.state.direct = true) ∧
      scanRoads env table l (r :: rs) (after env table l done) = none) ∨
    (¬ (getRoadInfo table r.roadid = none ∧ ∃ n ∈ l, n.state.direct = true) ∧
      ((FindsHost env table l (done ++ [r]) ∧ ∃ a, a ≠ 0 ∧
          scanRoads env table l (r :: rs) (after env table l done) = some a) ∨
        (¬ FindsHost env table l (done ++ [r]) ∧
          scanRoads env table l (r :: rs) (after env table l done) =
            scanRoads env table l rs (after env table l (done ++ [r]))))) := by
  have hafter : after env table l (done ++ [r]) =
      pick env (roadCandidates table l r) (after env table l done) := by
    simp [after, pick_append]
  have hzero : (after env table l done).1 = 0 := not_not.mp (mt findsHost_iff.mpr h0)
  have hnext : FindsHost env table l (done ++ [r]) ↔ (after env table l (done ++ [r])).1 ≠ 0 :=
    findsHost_iff
  rw [scanRoads, hnext]
  cases hd : getRoadInfo table r.roadid with
  | none =>
      have hsame : after env table l (done ++ [r]) = after env table l done := by
        rw [hafter, roadCandidates, hd]
        rfl
      rw [scanNeighbors_missing, hsame]
      split_ifs with hdir
      · exact Or.inl ⟨⟨rfl, hdir⟩, rfl⟩
      · refine Or.inr ⟨fun h => hdir h.2, Or.inr ⟨fun h => h hzero, ?_⟩⟩
        simp only [hzero, ne_eq, not_true_eq_false, if_false]
  | some d =>
      have hpick : after env table l (done ++ [r]) =
          pick env (candidates l d) (after env table l done) := by
        rw [hafter, roadCandidates, hd]
      rw [scanNeighbors_eq, ← hpick]
      refine Or.inr ⟨by simp, ?_⟩
      by_cases ha : (after env table l (done ++ [r])).1 = 0
      · exact Or.inr ⟨fun h => h ha, by simp only [ha, ne_eq, not_true_eq_false, if_false]⟩
      · exact Or.inl ⟨ha, _, ha, by simp only [ne_eq, ha, not_false_eq_true, if_true]⟩

/-- A road that is gone through makes no difference to what is met behind it. -/
theorem meetsMissing_append {done rs : List Route} {r : Route} (h0 : ¬ FindsHost env table l done)
    (hsome : ¬ (getRoadInfo table r.roadid = none ∧ ∃ n ∈ l, n.state.direct = true)) :
    MeetsMissing env table l (done ++ [r]) rs ↔ MeetsMissing env table l done (r :: rs) := by
  have hcons : ∀ p, FindsHost env table l ((done ++ [r]) ++ p) ↔
      FindsHost env table l (done ++ r :: p) := by
    intro p
    rw [List.append_assoc, List.singleton_append]
  constructor
  · rintro ⟨hdir, pre, q, post, rfl, hq, hpre⟩
    refine ⟨hdir, r :: pre, q, post, rfl, hq, fun p hp => ?_⟩
    cases p with
    | nil => rwa [List.append_nil]
    | cons b p =>
        obtain ⟨rfl, hp'⟩ := List.cons_prefix_cons.mp hp
        exact fun h => hpre p hp' ((hcons p).mpr h)
  · rintro ⟨hdir, pre, q, post, he, hq, hpre⟩
    cases pre with
    | nil =>
        obtain ⟨rfl, -⟩ := List.cons.inj he
        exact absurd ⟨hq, hdir⟩ hsome
    | cons b pre =>
        obtain ⟨rfl, rfl⟩ := List.cons.inj he
        refine ⟨hdir, pre, q, post, rfl, hq, fun p hp h => ?_⟩
        exact hpre (r :: p) (List.cons_prefix_cons.mpr ⟨rfl, hp⟩) ((hcons p).mp h)

/-- The three ways in which the search can end, by induction on the roads still to be looked at. -/
theorem scanRoads_ends : ∀ {rs done : List Route}, ¬ FindsHost env table l done →
    (MeetsMissing env table l done rs ∧
      scanRoads env table l rs (after env table l done) = none) ∨
    (¬ MeetsMissing env table l done rs ∧
      (((∃ p, p <+: rs ∧ FindsHost env table l (done ++ p)) ∧ ∃ a, a ≠ 0 ∧
          scanRoads env table l rs (after env table l done) = some a) ∨
        ((∀ p, p <+: rs → ¬ FindsHost env table l (done ++ p)) ∧
          scanRoads env table l rs (after env table l done) = some 0)))
  | [], done, h0 => by
      have hzero : (after env table l done).1 = 0 := not_not.mp (mt findsHost_iff.mpr h0)
      refine Or.inr ⟨?_, Or.inr ⟨fun p hp => ?_, congrArg some hzero⟩⟩
      · rintro ⟨-, pre, r, post, he, -⟩
        exact absurd he (by simp)
      · rw [List.prefix_nil.mp hp, List.append_nil]
        exact h0
  | r :: rs, done, h0 => by
      have hcons : ∀ p, FindsHost env table l ((done ++ [r]) ++ p) ↔
          FindsHost env table l (done ++ r :: p) := by
        intro p
        rw [List.append_assoc, List.singleton_append]
      obtain ⟨⟨hmiss, hdir⟩, hscan⟩ | ⟨hsome, ⟨hfind, a, ha, hscan⟩ | ⟨hnot, hscan⟩⟩ :=
        @scanRoads_cons env table l done rs r h0
      · refine Or.inl ⟨⟨hdir, [], r, rs, rfl, hmiss, fun p hp => ?_⟩, hscan⟩
        rw [List.prefix_nil.mp hp, List.append_nil]
        exact h0
      · refine Or.inr ⟨?_, Or.inl ⟨⟨[r], by simp, hfind⟩, a, ha, hscan⟩⟩
        rintro ⟨hdir, pre, q, post, he, hq, hpre⟩
        cases pre with
        | nil =>
            obtain ⟨rfl, -⟩ := List.cons.inj he
            exact hsome ⟨hq, hdir⟩
        | cons b pre =>
            obtain ⟨rfl, -⟩ := List.cons.inj he
            exact hpre [r] (by simp) hfind
      · rw [hscan]
        have hmeets : MeetsMissing env table l (done ++ [r]) rs ↔
            MeetsMissing env table l done (r :: rs) := meetsMissing_append h0 hsome
        obtain ⟨hm, hnone⟩ | ⟨hm, ⟨⟨p, hp, hf⟩, hres⟩ | ⟨hall, hres⟩⟩ :=
          @scanRoads_ends rs (done ++ [r]) hnot
        · exact Or.inl ⟨hmeets.mp hm, hnone⟩
        · exact Or.inr ⟨mt hmeets.mpr hm, Or.inl ⟨⟨r :: p, List.cons_prefix_cons.mpr ⟨rfl, hp⟩,
            (hcons p).mp hf⟩, hres⟩⟩
        · refine Or.inr ⟨mt hmeets.mpr hm, Or.inr ⟨fun p hp => ?_, hres⟩⟩
          cases p with
          | nil => rwa [List.append_nil]
          | cons b p =>
              obtain ⟨rfl, hp'⟩ := List.cons_prefix_cons.mp hp
              exact fun h => hall p hp' ((hcons p).mpr h)

end search

/-! ### The text -/

/-- The ids of the roads of a text: a token without a number repeats the one before it. -/
def readIds : ℤ → List (List Char) → List ℤ
  | _, [] => []
  | id, t :: l => (scanInt t).getD id :: readIds ((scanInt t).getD id) l

/-- The first token has a number, and every number is an `int`. -/
def Scannable (l : List (List Char)) : Prop :=
  (∀ t ∈ l.head?, scanInt t ≠ none) ∧ ∀ t ∈ l, ∀ i, scanInt t = some i → IsInt i

section text

variable {R : Type*} {n : ℕ}

/-- The roads of a text. -/
def namedRoads (m : Map R n) (s : List Char) : List Route :=
  (readIds 0 (tokens ',' s)).map m.getRouteById

/-- Once there is an id, only a number that is not an `int` stops the extraction. -/
theorem extractItems_some_iff (m : Map R n) : ∀ (l : List (List Char)) (id : ℤ),
    ((∀ t ∈ l, ∀ i, scanInt t = some i → IsInt i) ∧
      extractItems m (some id) l = some ((readIds id l).map m.getRouteById)) ∨
    (¬ (∀ t ∈ l, ∀ i, scanInt t = some i → IsInt i) ∧ extractItems m (some id) l = none)
  | [], _ => Or.inl ⟨fun t ht => absurd ht List.not_mem_nil, rfl⟩
  | t :: l, id => by
      rw [List.forall_mem_cons, extractItems, readIds, sscanfId]
      cases hs : scanInt t with
      | none =>
          obtain ⟨hint, he⟩ | ⟨hint, he⟩ := extractItems_some_iff m l id
          · exact Or.inl ⟨⟨fun i hi => absurd hi (by simp), hint⟩, by simp [he]⟩
          · exact Or.inr ⟨fun h => hint h.2, by simp [he]⟩
      | some i =>
          by_cases hi : -2 ^ 31 ≤ i ∧ i < 2 ^ 31
          · simp only [if_pos hi]
            obtain ⟨hint, he⟩ | ⟨hint, he⟩ := extractItems_some_iff m l i
            · refine Or.inl ⟨⟨fun j hj => ?_, hint⟩, by simp [he]⟩
              rw [← Option.some.inj hj]
              exact hi
            · exact Or.inr ⟨fun h => hint h.2, by simp [he]⟩
          · simp only [if_neg hi]
            exact Or.inr ⟨fun h => hi (h.1 i rfl), trivial⟩

/-- What is extracted from a text. -/
theorem extractItems_cases (m : Map R n) (l : List (List Char)) :
    (Scannable l ∧ extractItems m none l = some ((readIds 0 l).map m.getRouteById)) ∨
    (¬ Scannable l ∧ extractItems m none l = none) := by
  cases l with
  | nil => exact Or.inl ⟨⟨by simp, fun t ht => absurd ht List.not_mem_nil⟩, rfl⟩
  | cons t l =>
      cases hs : scanInt t with
      | none =>
          refine Or.inr ⟨fun h => h.1 t (by simp) hs, ?_⟩
          rw [extractItems, sscanfId, hs]
      | some i =>
          -- with a number in the first token the id before it does not matter
          have hfirst : extractItems m none (t :: l) = extractItems m (some 0) (t :: l) := by
            rw [extractItems, extractItems, sscanfId, sscanfId, hs]
          have hscan : Scannable (t :: l) ↔ ∀ t' ∈ t :: l, ∀ i, scanInt t' = some i → IsInt i := by
            refine and_iff_right (fun t' ht' => ?_)
            obtain rfl : t = t' := by simpa using ht'
            rw [hs]
            exact Option.some_ne_none i
          rw [hfirst, hscan]
          exact extractItems_some_iff m (t :: l) 0

theorem extractOfr_cases (m : Map R n) {msg : NlMsg} {s rest : List Char} (hs : nul ∉ s)
    (h : toChars msg.route = s ++ nul :: rest) :
    (Scannable (tokens ',' s) ∧ extractOfr m msg = some (namedRoads m s)) ∨
    (¬ Scannable (tokens ',' s) ∧ extractOfr m msg = none) := by
  unfold extractOfr namedRoads
  rw [h, items_tokens (by decide) hs, Option.bind_some]
  exact extractItems_cases m (tokens ',' s)

end text

/-! ### The handler -/

/-- The bytes that `drop_msg` sends back are in the buffer of the request. -/
def DropFits (msg : NlMsg) : Prop :=
  nlmsgSize - routeOffset + msg.routeLen.toNat ≤ msg.route.length

/-- The search for the next hop reads no missing record, and the response fits: the message that
is sent back, or the one with as many bytes of the route as it has roads. -/
def SearchHandled (mgr : RoutingManager ℝ) (msg : NlMsg) (roads : List Route) : Prop :=
  ¬ MeetsMissing mgr.env mgr.table mgr.node.neiList [] roads.reverse ∧
    ((∃ p, p <+: roads.reverse ∧ FindsHost mgr.env mgr.table mgr.node.neiList p) →
      nlmsgSize + roads.length ≤ BUFSIZ) ∧
    ((∀ p, p <+: roads.reverse → ¬ FindsHost mgr.env mgr.table mgr.node.neiList p) → DropFits msg)

/-- The request, with the text `s`, is for the host or a DIRECT neighbour; or it is dropped for
want of a neighbour or of roads, and can be; or its text and the search for the next hop make no
trouble. -/
def Handled (mgr : RoutingManager ℝ) (msg : NlMsg) (s : List Char) : Prop :=
  msg.dst = mgr.localAddr ∨ dstIsDirect mgr.node msg.dst = true ∨
    (getNeighbor mgr.node msg.dst = none ∧ DropFits msg) ∨
    (getNeighbor mgr.node msg.dst ≠ none ∧ Scannable (tokens ',' s) ∧
      if namedRoads mgr.map s = [] then DropFits msg
      else SearchHandled mgr msg (namedRoads mgr.map s))

/-- One response is sent: the packet is released to a next hop, or dropped. -/
def AnsweredOnce (mgr : RoutingManager ℝ) (heap msg : NlMsg) : Prop :=
  ∃ out, mgr.handleReqRouteForwardNormal heap msg = some out ∧ ∃ r, out.sent = [r] ∧
    r.msg.dst = msg.dst ∧ (r.type = GEOSVR_RSP_SEND ∨ r.type = GEOSVR_RSP_DROP)

section handler

variable {mgr : RoutingManager ℝ} {heap msg : NlMsg}

theorem dropMsg_fits {msg : NlMsg} {error : String} :
    dropMsg msg error ≠ none ↔ DropFits msg := by
  unfold dropMsg DropFits
  dsimp only
  split_ifs with h <;> simp [h]

/-- Every response is of one of the two types. -/
theorem handle_type {d : Decision} {reqType : UInt8} {routeLen : List Route → ℕ} {out : Outcome}
    (h : d.handle heap msg reqType routeLen = some out) :
    ∃ r, out.sent = [r] ∧ r.msg.dst = msg.dst ∧
      (r.type = GEOSVR_RSP_SEND ∨ r.type = GEOSVR_RSP_DROP) := by
  cases d with
  | withoutHandle =>
      cases h
      exact ⟨_, rfl, rfl, Or.inl rfl⟩
  | drop error =>
      simp only [Decision.handle, dropMsg] at h
      split_ifs at h
      cases h
      exact ⟨_, rfl, rfl, Or.inr rfl⟩
  | forward roads nhop =>
      simp only [Decision.handle, sendRoute] at h
      split_ifs at h
      cases h
      exact ⟨_, rfl, rfl, Or.inl rfl⟩

/-- The handler answers once unless it leaves the language. -/
theorem answeredOnce_iff :
    AnsweredOnce mgr heap msg ↔ mgr.handleReqRouteForwardNormal heap msg ≠ none := by
  constructor
  · rintro ⟨out, h, -⟩ hnone
    rw [h] at hnone
    cases hnone
  · intro h
    obtain ⟨out, hout⟩ := Option.ne_none_iff_exists'.mp h
    obtain ⟨d, -, hd⟩ := Option.bind_eq_some_iff.mp hout
    exact ⟨out, hout, handle_type hd⟩

/-- The search for the next hop, from the last road of a route back. -/
theorem nextHop_cases {roads : List Route} (hne : roads ≠ []) (hnum : mgr.node.num ≠ 0) :
    (MeetsMissing mgr.env mgr.table mgr.node.neiList [] roads.reverse ∧
      nextHop mgr.env mgr.table mgr.node roads = none) ∨
    (¬ MeetsMissing mgr.env mgr.table mgr.node.neiList [] roads.reverse ∧
      (((∃ p, p <+: roads.reverse ∧ FindsHost mgr.env mgr.table mgr.node.neiList p) ∧
          ∃ a, a ≠ 0 ∧ nextHop mgr.env mgr.table mgr.node roads = some a) ∨
        ((∀ p, p <+: roads.reverse → ¬ FindsHost mgr.env mgr.table mgr.node.neiList p) ∧
          nextHop mgr.env mgr.table mgr.node roads = some 0))) := by
  have hstart : ¬ FindsHost mgr.env mgr.table mgr.node.neiList [] := by
    rintro ⟨n, hn, -⟩
    exact absurd hn.mem List.not_mem_nil
  have hhop : nextHop mgr.env mgr.table mgr.node roads =
      scanRoads mgr.env mgr.table mgr.node.neiList roads.reverse
        (after mgr.env mgr.table mgr.node.neiList []) := by
    unfold nextHop restrictedForwardingAlgo
    rw [if_neg hnum, if_neg (fun h => hne (List.length_eq_zero_iff.mp h))]
    rfl
  rw [hhop]
  exact scanRoads_ends hstart

/-- A handler that drops the packet. -/
theorem handled_drop {roads : Option (List Route)} {error : String} {reqType : UInt8}
    {routeLen : List Route → ℕ} (h : mgr.decision msg roads = some (.drop error)) :
    (mgr.decision msg roads).bind (Decision.handle heap msg reqType routeLen) ≠ none ↔
      DropFits msg := by
  rw [h]
  exact dropMsg_fits

/-- What the handler does with a route, for a destination that is known through others. -/
theorem handled_route {roads : List Route} (hlocal : msg.dst ≠ mgr.localAddr)
    (hdirect : dstIsDirect mgr.node msg.dst = false) {n : Neighbor ℝ}
    (hget : getNeighbor mgr.node msg.dst = some n) :
    (mgr.decision msg (some roads)).bind
        (Decision.handle heap msg GEOSVR_NL_MSG_REQ_FORWARD List.length) ≠ none ↔
      if roads = [] then DropFits msg else SearchHandled mgr msg roads := by
  have hnum : mgr.node.num ≠ 0 := by
    intro h0
    rw [getNeighbor, neighListFind, if_pos h0] at hget
    cases hget
  by_cases hne : roads = []
  · subst hne
    rw [if_pos rfl]
    apply handled_drop
    unfold RoutingManager.decision forwardDecision
    simp only [if_neg hlocal, hdirect, hget, Bool.false_eq_true, if_false]
    rfl
  · have hdec : mgr.decision msg (some roads) =
        (nextHop mgr.env mgr.table mgr.node roads).bind (fun nhop =>
          if nhop = 0 then some (.drop "can't find next hop") else some (.forward roads nhop)) := by
      have hlen : roads.length ≠ 0 := fun h => hne (List.length_eq_zero_iff.mp h)
      unfold RoutingManager.decision forwardDecision
      simp only [if_neg hlocal, hdirect, hget, hlen, Bool.false_eq_true, if_false]
      cases nextHop mgr.env mgr.table mgr.node roads <;> rfl
    rw [if_neg hne]
    obtain ⟨hm, hhop⟩ | ⟨hm, ⟨hfind, a, ha, hhop⟩ | ⟨hnot, hhop⟩⟩ :=
      nextHop_cases hne hnum
    · rw [hhop, Option.bind_none] at hdec
      rw [hdec]
      exact iff_of_false (fun h => h rfl) (fun h => h.1 hm)
    · rw [hhop, Option.bind_some, if_neg ha] at hdec
      rw [hdec]
      have hnot : ¬ ∀ p, p <+: roads.reverse → ¬ FindsHost mgr.env mgr.table mgr.node.neiList p := by
        intro h
        obtain ⟨p, hp, hf⟩ := hfind
        exact h p hp hf
      have hsend : SearchHandled mgr msg roads ↔ nlmsgSize + roads.length ≤ BUFSIZ := by
        unfold SearchHandled
        simp only [hm, hfind, hnot, not_false_eq_true, true_implies, false_implies, true_and,
          and_true]
      rw [hsend]
      show sendRoute msg GEOSVR_NL_MSG_REQ_FORWARD a roads.length (ofrTostring roads) ≠ none ↔ _
      unfold sendRoute
      split_ifs with hfit <;> simp [hfit]
    · rw [hhop, Option.bind_some, if_pos rfl] at hdec
      have hsend : SearchHandled mgr msg roads ↔ DropFits msg := by
        have hfind : ¬ ∃ p, p <+: roads.reverse ∧
            FindsHost mgr.env mgr.table mgr.node.neiList p := fun ⟨p, hp, hf⟩ => hnot p hp hf
        unfold SearchHandled
        simp only [hm, hfind, not_false_eq_true, false_implies, true_and]
        exact ⟨fun h => h hnot, fun h _ => h⟩
      rw [hsend]
      exact handled_drop hdec

/-- **Forward requests.** A request with any text is answered once exactly when it is handled
without reading what is not there. -/
theorem answeredOnce_iff_handled {s rest : List Char} (hs : nul ∉ s)
    (h : toChars msg.route = s ++ nul :: rest) :
    AnsweredOnce mgr heap msg ↔ Handled mgr msg s := by
  rw [answeredOnce_iff]
  unfold RoutingManager.handleReqRouteForwardNormal Handled
  by_cases hlocal : msg.dst = mgr.localAddr
  · refine iff_of_true ?_ (Or.inl hlocal)
    unfold RoutingManager.decision forwardDecision
    rw [if_pos hlocal]
    exact Option.some_ne_none _
  · cases hdirect : dstIsDirect mgr.node msg.dst with
    | true =>
        refine iff_of_true ?_ (Or.inr (Or.inl rfl))
        unfold RoutingManager.decision forwardDecision
        rw [if_neg hlocal, if_pos hdirect]
        exact Option.some_ne_none _
    | false =>
        simp only [hlocal, Bool.false_eq_true, false_or]
        cases hget : getNeighbor mgr.node msg.dst with
        | none =>
            have hdec : ∀ roads, mgr.decision msg roads = some (.drop "can't find neighbor") := by
              intro roads
              unfold RoutingManager.decision forwardDecision
              simp only [if_neg hlocal, hdirect, hget, Bool.false_eq_true, if_false]
            rw [handled_drop (hdec _)]
            simp
        | some n =>
            simp only [reduceCtorEq, false_and, false_or, ne_eq, not_false_eq_true, true_and]
            obtain ⟨hscan, he⟩ | ⟨hscan, he⟩ := extractOfr_cases mgr.map hs h
            · rw [he]
              simp only [hscan, true_and]
              exact handled_route hlocal hdirect hget
            · rw [he]
              simp only [hscan, false_and, iff_false, not_not]
              unfold RoutingManager.decision forwardDecision
              simp only [if_neg hlocal, hdirect, hget, Bool.false_eq_true, if_false]
              rfl

end handler

/-! ### A road that no map has -/

/-- A request without a route is dropped. -/
theorem answeredOnce_iff_handled_sample :
    AnsweredOnce (hostWith 1 7) sampleRequest (requestWith []) := by
  have hnul : nul ∉ ([] : List Char) := List.not_mem_nil
  have htext : ∃ rest, toChars (requestWith []).route = [] ++ nul :: rest := ⟨_, rfl⟩
  obtain ⟨rest, hrest⟩ := htext
  refine (answeredOnce_iff_handled hnul hrest).mpr ?_
  have hget : getNeighbor (hostWith 1 7).node (requestWith []).dst ≠ none :=
    fun h => by cases h
  have hscan : Scannable (tokens ',' []) :=
    ⟨fun t ht => absurd ht (by simp [tokens]), fun t ht => absurd ht (by simp [tokens])⟩
  have hfits : DropFits (requestWith []) := by
    unfold DropFits requestWith nlRecvMsg
    rw [List.takeD_length]
    decide
  refine Or.inr (Or.inr (Or.inr ⟨hget, hscan, ?_⟩))
  rw [if_pos (show namedRoads (hostWith 1 7).map [] = [] from rfl)]
  exact hfits

/-- The text `9`, where the map has the roads 7 and 8: the record of the road −1 is read for the
neighbour 5. -/
theorem unknown_road_read :
    extractOfr (hostWith 1 7).map (requestWith [57]) = some [⟨-1, 0, 0, 0⟩] ∧
      (hostWith 1 7).handleReqRouteForwardNormal sampleRequest (requestWith [57]) = none ∧
      ¬ AnsweredOnce (hostWith 1 7) sampleRequest (requestWith [57]) := by
  have hnone : (hostWith 1 7).handleReqRouteForwardNormal sampleRequest (requestWith [57]) = none :=
    rfl
  refine ⟨rfl, hnone, fun h => answeredOnce_iff.mp h hnone⟩

end GeoSvr.Daemon
