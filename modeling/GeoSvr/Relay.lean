import GeoSvr.Conservation
import GeoSvr.RoundTrip
import GeoSvr.Routing

/-! # The way of a route

The source attaches a route to a packet, and every relay extracts it and attaches it again.
Between two daemons the route lies in a response, in the header of the packet, and in a request
(`Carried`); `Crosses` is the way over any number of relays.

The source sends the whole text, so that the first relay obtains the route if its buffer holds the
text and the NUL byte behind it.  A relay sends as many bytes as there are roads: the second relay
obtains the route only if it is a single road with a single digit. -/

namespace GeoSvr.Daemon

open MapManager (Route Map)
open Kernel (SkBuff IsPacket Carries Release QueueEntry Capture Queue geosvrHook sendEntry destCmp)
open Text

variable {R : Type*}

/-! ### From one daemon to the next -/

/-- The response `s` releases a packet with a route, and `req` is the request that the daemon of
the host receives which this packet reaches. -/
inductive Carried (s : NlSent) (req : NlMsg) : Prop
  | mk {k : Release} {e : QueueEntry} {sent : SkBuff} {cfg : Kernel.Config} {c : Capture}
      {q : Queue} {r : NlMsg} {pad : List UInt8} :
      geosvrNetlinkRecvPeer s.type.toNat s.len s.msg = some (.sendPkt s.msg) →
      s.msg.routeLen ≠ 0 → destCmp s.msg.dst e = true → IsPacket e.skb →
      sendEntry k s.msg e = [.okfn e.okfn sent] → Carries sent c.skb →
      c.hooknum = .preRouting → (geosvrHook cfg c q).request = some r →
      req = nlRecvMsg pad r → Carried s req

theorem Carried.type {s : NlSent} {req : NlMsg} (h : Carried s req) :
    s.type = GEOSVR_RSP_SEND ∧ s.msg.routeLen ≠ 0 := by
  obtain ⟨hpeer, h0, -, -, -, -, -, -, -⟩ := h
  unfold geosvrNetlinkRecvPeer at hpeer
  split_ifs at hpeer with ht hl ht' hl'
  · exact ⟨UInt8.toNat_inj.mp ht, h0⟩
  · cases hpeer

/-- The request has the route of the response, as far as the buffer reaches. -/
theorem Carried.req {s : NlSent} {req : NlMsg} (h : Carried s req)
    (hlen : s.msg.routeLen.toNat < 2 ^ 16) :
    req.reqType = GEOSVR_NL_MSG_TYPE_FORWARD ∧ ∃ pad,
      req.route = (s.msg.route.takeD s.msg.routeLen.toNat 0 ++ List.replicate 4 0 ++ pad).takeD
        196 0 := by
  obtain ⟨-, h0, -, hp, hsend, hc, hpre, hreq, rfl⟩ := h
  rename_i k e sent cfg c q r pad
  have henc : Kernel.geosvrIpEncapsulate k.granted k.lookup e.skb s.msg = (0, sent) := by
    unfold sendEntry at hsend
    rw [if_neg h0] at hsend
    have hres := Kernel.encapsulate_res k.granted k.lookup e.skb s.msg
    generalize Kernel.geosvrIpEncapsulate k.granted k.lookup e.skb s.msg = res at hsend hres
    obtain ⟨n, skb⟩ := res
    simp only at hsend hres
    split_ifs at hsend with hneg
    · cases hsend
    · cases hsend
      rw [hres.resolve_right hneg]
  have hr : Kernel.RequestOf c r := by
    obtain ⟨-, ⟨-, -, -, -, r', hr', hof⟩ | ⟨-, -, -, hnone⟩⟩ := Kernel.geosvrHook_cases cfg c q
    · rw [hreq] at hr'
      cases hr'
      exact hof
    · rw [hreq] at hnone
      cases hnone
  obtain ⟨hout, -⟩ | ⟨-, hdr, hgeo, rfl⟩ := hr
  · rw [hpre] at hout
    cases hout
  · have hskb : (Kernel.geosvrIpHasEncapsulated c.probeGranted c.probeId c.skb).2 = c.skb := by
      rw [Kernel.hasEncapsulated_skb, SkBuff.shared, hc.users, hc.cloned]
      rfl
    rw [hskb] at hgeo
    have hhdr : hdr = Kernel.hdrOf s.msg := by
      cases hg : c.hdrGranted with
      | false =>
          rw [hg, Kernel.decapsulate_refused hc.users hc.cloned] at hgeo
          cases hgeo
      | true =>
          obtain ⟨_, hdec, -⟩ := Kernel.decapsulate_carried hp hlen henc hc c.copyGranted c.copyId
          rw [hg, hdec] at hgeo
          cases hgeo
          rfl
    subst hhdr
    refine ⟨rfl, pad, ?_⟩
    have htwice : ((s.msg.route.takeD s.msg.routeLen.toNat 0).takeD s.msg.routeLen.toNat 0) =
        s.msg.route.takeD s.msg.routeLen.toNat 0 := by
      rw [List.takeD_eq_take _ (List.takeD_length ..).ge, List.take_of_length_le
        (List.takeD_length ..).le]
    simp only [nlRecvMsg, geosvrNetlinkReqNormal, Kernel.hdrOf, if_true, htwice]
    rfl

/-! ### Text in the request -/

theorem toChars_toBytes {s : List Char} (h : ∀ c ∈ s, c.toNat < 256) :
    toChars (toBytes s) = s := by
  induction s with
  | nil => rfl
  | cons c s ih =>
      have hc : (UInt8.ofNat c.toNat).toNat = c.toNat := by
        rw [UInt8.toNat_ofNat', Nat.mod_eq_of_lt (h c List.mem_cons_self)]
      have hrest := ih (fun d hd => h d (List.mem_cons_of_mem _ hd))
      rw [toBytes, List.map_cons, toChars, List.map_cons, hc, Char.ofNat_toNat]
      congr 1

theorem takeD_append {α : Type*} (a : α) (s : List α) : ∀ {t : List α} {n : ℕ}, t.length ≤ n →
    (t ++ s).takeD n a = t ++ s.takeD (n - t.length) a
  | [], _, _ => rfl
  | x :: t, 0, h => absurd h (Nat.not_succ_le_zero _)
  | x :: t, n + 1, h => by
      rw [List.cons_append, List.takeD_succ, List.head?_cons, Option.getD_some, List.tail_cons,
        takeD_append a s (Nat.le_of_succ_le_succ h), List.cons_append, List.length_cons,
        Nat.add_sub_add_right]

/-- The characters of a route. -/
def IsRouteChar (c : Char) : Prop := c = ',' ∨ c = '-' ∨ c.isDigit = true

theorem IsRouteChar.lt {c : Char} (h : IsRouteChar c) : c.toNat < 256 := by
  obtain rfl | rfl | h := h
  · decide
  · decide
  · exact (toNat_of_isDigit h).2.trans_lt (by decide)

theorem IsRouteChar.ne_nul {c : Char} (h : IsRouteChar c) : c ≠ nul := by
  rintro rfl
  obtain h | h | h := h
  · exact absurd h (by decide)
  · exact absurd h (by decide)
  · exact absurd h (by decide)

theorem ofrTostring_mem {ofr : List Route} {c : Char} (h : c ∈ ofrTostring ofr) :
    IsRouteChar c := by
  obtain ⟨s, hs, hc⟩ := List.mem_flatMap.mp (List.dropLast_subset _ h)
  obtain ⟨r, -, rfl⟩ := List.mem_map.mp hs
  obtain hc | hc := List.mem_append.mp hc
  · exact Or.inr (mem_intDigits hc)
  · exact Or.inl (List.mem_singleton.mp hc)

/-- The buffer of the request holds the string `t`. -/
def HoldsText (req : NlMsg) (t : List Char) : Prop :=
  t.length ≤ 195 ∧ ∃ rest, toChars req.route = t ++ nul :: rest

section received

variable {req : NlMsg} {t : List Char} {pad : List UInt8}

theorem received_short (ht : ∀ c ∈ t, IsRouteChar c) (hlen : t.length ≤ 195)
    (h : req.route = (toBytes t ++ List.replicate 4 0 ++ pad).takeD 196 0) : HoldsText req t := by
  have hb : (toBytes t).length = t.length := List.length_map _
  refine ⟨hlen, toChars ((List.replicate 3 0 ++ pad).takeD (195 - t.length) 0), ?_⟩
  have hzero : List.replicate 4 (0 : UInt8) ++ pad = 0 :: (List.replicate 3 0 ++ pad) := rfl
  have h196 : 196 - t.length = 195 - t.length + 1 := by omega
  rw [h, List.append_assoc, takeD_append _ _ (by omega), hb, hzero, h196, List.takeD_succ,
    List.head?_cons, Option.getD_some, List.tail_cons, toChars, List.map_append]
  congr 1
  exact toChars_toBytes (fun c hc => (ht c hc).lt)

theorem received_long (ht : ∀ c ∈ t, IsRouteChar c) (hlen : 196 ≤ t.length)
    (h : req.route = (toBytes t ++ List.replicate 4 0 ++ pad).takeD 196 0) :
    nul ∉ toChars req.route := by
  have hb : (toBytes t).length = t.length := List.length_map _
  have hroute : req.route = toBytes (t.take 196) := by
    rw [h, List.append_assoc, List.takeD_eq_take _ (by simp [hb]; omega),
      List.take_append_of_le_length (by omega), toBytes, toBytes, List.map_take]
  have hchars : ∀ c ∈ t.take 196, IsRouteChar c := fun c hc => ht c (List.mem_of_mem_take hc)
  rw [hroute, toChars_toBytes (fun c hc => (hchars c hc).lt)]
  exact fun hm => (hchars _ hm).ne_nul rfl

end received

/-! ### Extraction -/

theorem getRouteById_roadid {n : ℕ} (m : Map R n) (id : ℤ) :
    (m.getRouteById id).roadid = id ∨ (m.getRouteById id).roadid = -1 := by
  unfold Map.getRouteById
  cases h : m.edges.find? (fun e => e.id == id) with
  | none => exact Or.inr rfl
  | some e => exact Or.inl (by simpa using List.find?_some h)

/-- The value is one of `int`. -/
def IsInt (i : ℤ) : Prop := -2 ^ 31 ≤ i ∧ i < 2 ^ 31

theorem sscanfId_intDigits {i : ℤ} (h : IsInt i) (id : Option ℤ) :
    sscanfId (intDigits i) id = some (some i) := by
  unfold sscanfId
  rw [scanInt_intDigits]
  exact if_pos h

theorem extractItems_length {n : ℕ} {m : Map R n} : ∀ {l : List (List Char)} {id : Option ℤ}
    {roads : List Route}, extractItems m id l = some roads → roads.length = l.length
  | [], _, _, h => by
      cases h
      rfl
  | s :: l, id, roads, h => by
      unfold extractItems at h
      cases hs : sscanfId s id with
      | none =>
          rw [hs] at h
          cases h
      | some id' =>
          rw [hs] at h
          cases id' with
          | none => cases h
          | some id' =>
              obtain ⟨roads', hr, rfl⟩ := Option.map_eq_some_iff.mp h
              rw [List.length_cons, List.length_cons, extractItems_length hr]

theorem extractItems_intDigits {n : ℕ} (m : Map R n) : ∀ {ofr : List Route} (id : Option ℤ),
    (∀ r ∈ ofr, IsInt r.roadid) →
      extractItems m id (ofr.map (fun r => intDigits r.roadid)) =
        some (ofr.map (fun r => m.getRouteById r.roadid))
  | [], _, _ => rfl
  | r :: ofr, id, h => by
      rw [List.map_cons, extractItems, sscanfId_intDigits (h r List.mem_cons_self)]
      simp only [extractItems_intDigits m (some r.roadid)
        (fun r' hr' => h r' (List.mem_cons_of_mem _ hr')), Option.map_some, List.map_cons]

/-- The items of the text of a route are its ids. -/
theorem items_ofrTostring (ofr : List Route) (rest : List Char) :
    items ',' [] (ofrTostring ofr ++ nul :: rest) =
      some (ofr.map (fun r => intDigits r.roadid)) := by
  by_cases hne : ofr = []
  · subst hne
    rfl
  · refine items_join (by simpa using hne) ?_ ?_ (by decide) rest
    · intro s hs
      obtain ⟨r, -, rfl⟩ := List.mem_map.mp hs
      exact intDigits_ne_nil _
    · intro s hs c hc
      obtain ⟨r, -, rfl⟩ := List.mem_map.mp hs
      refine ⟨IsRouteChar.ne_nul (Or.inr (mem_intDigits hc)), ?_⟩
      obtain rfl | hd := mem_intDigits hc
      · decide
      · rintro rfl
        exact absurd hd (by decide)

section extract

variable {n : ℕ} {m : Map R n} {req : NlMsg} {t : List Char} {roads : List Route}

/-- The whole text of a route. -/
theorem extract_ofrTostring {ofr : List Route} (h : HoldsText req (ofrTostring ofr))
    (hint : ∀ r ∈ ofr, IsInt r.roadid) :
    extractOfr m req = some (ofr.map (fun r => m.getRouteById r.roadid)) := by
  obtain ⟨-, rest, hrest⟩ := h
  rw [extractOfr, hrest, items_ofrTostring, Option.bind_some]
  exact extractItems_intDigits m none hint

/-- No more roads than bytes. -/
theorem extract_length (h : HoldsText req t) (he : extractOfr m req = some roads) :
    roads.length ≤ t.length := by
  obtain ⟨-, rest, hrest⟩ := h
  obtain ⟨l, hl, he⟩ := Option.bind_eq_some_iff.mp he
  rw [hrest] at hl
  have := items_length hl
  rw [if_pos rfl] at this
  rw [extractItems_length he]
  exact this

/-- Fewer roads than bytes, if there are two. -/
theorem extract_length_lt {c d : Char} (h : HoldsText req (c :: d :: t)) (hc : c ≠ ',')
    (he : extractOfr m req = some roads) : roads.length < t.length + 2 := by
  obtain ⟨-, rest, hrest⟩ := h
  obtain ⟨l, hl, he⟩ := Option.bind_eq_some_iff.mp he
  rw [hrest] at hl
  rw [extractItems_length he]
  exact items_length_lt hc hl

/-- One byte that is not a separator. -/
theorem extract_singleton {c : Char} (h : HoldsText req [c]) (hc : c ≠ ',') (hnul : c ≠ nul)
    (he : extractOfr m req = some roads) :
    ∃ i, scanInt [c] = some i ∧ roads = [m.getRouteById i] := by
  obtain ⟨-, rest, hrest⟩ := h
  obtain ⟨l, hl, he⟩ := Option.bind_eq_some_iff.mp he
  rw [hrest, List.singleton_append, items, if_neg hnul, if_neg hc, List.nil_append, items,
    if_pos rfl, if_neg (List.cons_ne_nil _ _)] at hl
  cases hl
  unfold extractItems sscanfId at he
  cases hs : scanInt [c] with
  | none =>
      rw [hs] at he
      cases he
  | some i =>
      rw [hs] at he
      simp only at he
      split_ifs at he with hi
      cases he
      exact ⟨i, rfl, rfl⟩

/-- What is obtained from the first byte of the text of one road. -/
theorem extract_first_byte {y : Route} (h : HoldsText req ((ofrTostring [y]).take 1))
    (he : extractOfr m req = some roads) :
    0 ≤ y.roadid ∧ ∃ i, roads = [m.getRouteById i] ∧ 0 ≤ i ∧ i ≤ 9 ∧
      (y.roadid ≤ 9 → i = y.roadid) := by
  have htext : ofrTostring [y] = intDigits y.roadid := by simp [ofrTostring, join]
  rw [htext] at h
  obtain ⟨c, t, hct⟩ := List.exists_cons_of_ne_nil (intDigits_ne_nil y.roadid)
  have hmem : c ∈ intDigits y.roadid := hct ▸ List.mem_cons_self
  have hchar : c ≠ ',' ∧ c ≠ nul := by
    refine ⟨?_, IsRouteChar.ne_nul (Or.inr (mem_intDigits hmem))⟩
    obtain rfl | hd := mem_intDigits hmem
    · decide
    · rintro rfl
      exact absurd hd (by decide)
  rw [hct, List.take_succ_cons, List.take_zero] at h
  obtain ⟨i, hi, hroads⟩ := extract_singleton h hchar.1 hchar.2 he
  obtain ⟨hdigit, h0, h9⟩ := scanInt_singleton hi
  have hnonneg : 0 ≤ y.roadid := by
    by_contra hneg
    obtain ⟨k, hk⟩ := Int.eq_negSucc_of_lt_zero (not_le.mp hneg)
    rw [hk, intDigits] at hct
    cases hct
    exact absurd hdigit (by decide)
  refine ⟨hnonneg, i, hroads, h0, h9, fun hle => ?_⟩
  obtain ⟨k, hk⟩ := Int.eq_ofNat_of_zero_le hnonneg
  have hone : intDigits y.roadid = [k.digitChar] := by
    rw [hk]
    exact Nat.toDigits_of_lt_base (by omega)
  rw [hone] at hct
  cases hct
  have hscan := scanInt_intDigits y.roadid
  rw [hone, hi] at hscan
  exact Option.some.inj hscan

end extract

/-! ### The way -/

section crosses

variable [Scalar R]

/-- The request `req` is the one that the last of the relays `mgrs` gets, the last first, for a
packet to which its source attached the route `ofr`. -/
inductive Crosses (ofr : List Route) : List (RoutingManager R) → NlMsg → Prop
  | source {src mgr : RoutingManager R} {optimalRoute : Neighbor R → Option (List Route)}
      {heap msg req : NlMsg} {nhop : UInt32} {out : Outcome} {s : NlSent} :
      src.decision msg (src.routeTo optimalRoute msg.dst) = some (.forward ofr nhop) →
      src.handleReqRouteSendNormal optimalRoute heap msg = some out → s ∈ out.sent →
      Carried s req → Crosses ofr [mgr] req
  | relay {mgr next : RoutingManager R} {mgrs : List (RoutingManager R)}
      {optimalRoute : Neighbor R → Option (List Route)} {heap req req' : NlMsg} {out : Outcome}
      {s : NlSent} :
      Crosses ofr (mgr :: mgrs) req →
      mgr.handleReqRouteNormal optimalRoute heap req = some out → s ∈ out.sent →
      Carried s req' → Crosses ofr (next :: mgr :: mgrs) req'

/-- The relay obtains the ids of the route. -/
def Obtains (mgr : RoutingManager R) (req : NlMsg) (ofr : List Route) : Prop :=
  ∃ roads, extractOfr mgr.map req = some roads ∧
    roads.map Route.roadid = ofr.map Route.roadid

/-- The map of the relay has the road. -/
def Knows (mgr : RoutingManager R) (r : Route) : Prop :=
  (mgr.map.getRouteById r.roadid).roadid = r.roadid

variable {mgr : RoutingManager R} {mgrs : List (RoutingManager R)} {ofr : List Route}
  {heap msg req : NlMsg} {out : Outcome} {s : NlSent}

theorem length_le_ofrTostring (roads : List Route) : roads.length ≤ (ofrTostring roads).length := by
  have h : (roads.map (fun r => intDigits r.roadid)).length ≤ (ofrTostring roads).length := by
    apply length_le_join
    intro s hs
    obtain ⟨r, -, rfl⟩ := List.mem_map.mp hs
    exact intDigits_ne_nil _
  rwa [List.length_map] at h

/-- What a handler sends with a route. -/
theorem handle_carried {roads : Option (List Route)} {reqType : UInt8}
    {routeLen : List Route → ℕ}
    (h : (mgr.decision msg roads).bind (Decision.handle heap msg reqType routeLen) = some out)
    (hs : s ∈ out.sent) (hc : Carried s req)
    (hle : ∀ ofr, routeLen ofr ≤ (ofrTostring ofr).length) :
    ∃ ofr nhop pad, mgr.decision msg roads = some (.forward ofr nhop) ∧ roads = some ofr ∧
      ofr ≠ [] ∧ req.reqType = GEOSVR_NL_MSG_TYPE_FORWARD ∧
      req.route = (toBytes ((ofrTostring ofr).take (routeLen ofr)) ++ List.replicate 4 0 ++
        pad).takeD 196 0 := by
  obtain ⟨d, hd, h⟩ := Option.bind_eq_some_iff.mp h
  obtain ⟨htype, h0⟩ := hc.type
  cases d with
  | withoutHandle =>
      cases h
      obtain rfl := List.mem_singleton.mp hs
      exact absurd rfl h0
  | drop error =>
      simp only [Decision.handle, dropMsg] at h
      split_ifs at h with hlen
      cases h
      obtain rfl := List.mem_singleton.mp hs
      exact absurd (show GEOSVR_RSP_DROP = GEOSVR_RSP_SEND from htype) (by decide)
  | forward ofr nhop =>
      obtain ⟨he, hne, -, -⟩ := decision_forward hd
      simp only [Decision.handle, sendRoute] at h
      split_ifs at h with hlen
      cases h
      obtain rfl := List.mem_singleton.mp hs
      have h32 : (UInt32.ofNat (routeLen ofr)).toNat = routeLen ofr := by
        rw [UInt32.toNat_ofNat']
        unfold nlmsgSize BUFSIZ at hlen
        omega
      obtain ⟨hreq, pad, hroute⟩ := hc.req (by
        simp only [h32]
        unfold nlmsgSize BUFSIZ at hlen
        omega)
      refine ⟨ofr, nhop, pad, hd, he, hne, hreq, ?_⟩
      have hbytes : (toBytes (ofrTostring ofr)).length = (ofrTostring ofr).length :=
        List.length_map _
      have htake : (toBytes (ofrTostring ofr)).takeD (routeLen ofr) 0 =
          toBytes ((ofrTostring ofr).take (routeLen ofr)) := by
        rw [List.takeD_eq_take _ (hbytes ▸ hle ofr), toBytes, toBytes, List.map_take]
      have hlen' : (toBytes ((ofrTostring ofr).take (routeLen ofr))).length = routeLen ofr := by
        rw [toBytes, List.length_map, List.length_take, Nat.min_eq_left (hle ofr)]
      rw [hroute]
      simp only [h32, htake]
      rw [takeD_append _ _ hlen'.le, hlen', Nat.sub_self, List.takeD_zero, List.append_nil]

theorem Crosses.reqType {mgrs : List (RoutingManager R)} (h : Crosses ofr mgrs req) :
    req.reqType = GEOSVR_NL_MSG_TYPE_FORWARD := by
  have hfirst : ∀ {mgr : RoutingManager R} {roads : Option (List Route)} {reqType : UInt8}
      {routeLen : List Route → ℕ} {heap msg : NlMsg} {out : Outcome} {s : NlSent} {req : NlMsg},
      (mgr.decision msg roads).bind (Decision.handle heap msg reqType routeLen) = some out →
      s ∈ out.sent → Carried s req → (∀ ofr, routeLen ofr ≤ (ofrTostring ofr).length) →
      req.reqType = GEOSVR_NL_MSG_TYPE_FORWARD := by
    intro _ _ _ _ _ _ _ _ _ hout hs hc hle
    obtain ⟨-, -, -, -, -, -, hreq, -⟩ := handle_carried hout hs hc hle
    exact hreq
  induction h with
  | source _ hout hs hc => exact hfirst hout hs hc (fun _ => le_refl _)
  | relay _ hout hs hc ih =>
      unfold RoutingManager.handleReqRouteNormal at hout
      rw [ih, if_neg (by decide), if_pos rfl] at hout
      exact hfirst hout hs hc length_le_ofrTostring

theorem Crosses.ne_nil {mgrs : List (RoutingManager R)} (h : Crosses ofr mgrs req) : ofr ≠ [] := by
  induction h with
  | source hd => exact (decision_forward hd).2.1
  | relay _ _ _ _ ih => exact ih

/-- The first relay gets the text of the route, if its buffer holds it. -/
theorem crosses_first (h : Crosses ofr [mgr] req) : ofr ≠ [] ∧
    ((ofrTostring ofr).length ≤ 195 → HoldsText req (ofrTostring ofr)) ∧
    (196 ≤ (ofrTostring ofr).length → nul ∉ toChars req.route) := by
  cases h with
  | source hd hout hs hc =>
      obtain ⟨roads, nhop, pad, hd', -, hne, -, hroute⟩ :=
        handle_carried hout hs hc (fun _ => le_refl _)
      rw [hd] at hd'
      cases hd'
      rw [List.take_length] at hroute
      exact ⟨hne, fun hle => received_short (fun c hc => ofrTostring_mem hc) hle hroute,
        fun hle => received_long (fun c hc => ofrTostring_mem hc) hle hroute⟩

/-- A later relay gets as many bytes as its predecessor obtained roads. -/
theorem crosses_later {next : RoutingManager R} (h : Crosses ofr (next :: mgr :: mgrs) req) :
    ∃ req₀ roads, Crosses ofr (mgr :: mgrs) req₀ ∧ extractOfr mgr.map req₀ = some roads ∧
      roads ≠ [] ∧
      (roads.length ≤ 195 → HoldsText req ((ofrTostring roads).take roads.length)) := by
  cases h with
  | @relay _ _ _ _ _ req₀ _ _ _ hprev hout hs hc =>
      unfold RoutingManager.handleReqRouteNormal at hout
      rw [hprev.reqType, if_neg (by decide), if_pos rfl] at hout
      obtain ⟨roads, nhop, pad, -, he, hne, -, hroute⟩ :=
        handle_carried hout hs hc length_le_ofrTostring
      refine ⟨req₀, roads, hprev, he, hne, fun hle => ?_⟩
      exact received_short (fun c hc => ofrTostring_mem (List.mem_of_mem_take hc))
        (by rw [List.length_take]; omega) hroute

/-! ### What a relay obtains -/

/-- The first relay obtains the roads that its map has for the ids. -/
theorem first_extract (hint : ∀ r ∈ ofr, IsInt r.roadid) (h : Crosses ofr [mgr] req)
    {roads : List Route} (he : extractOfr mgr.map req = some roads) :
    (ofrTostring ofr).length ≤ 195 ∧ roads = ofr.map (fun r => mgr.map.getRouteById r.roadid) := by
  obtain ⟨hne, hshort, hlong⟩ := crosses_first h
  obtain hlen | hlen := Nat.lt_or_ge (ofrTostring ofr).length 196
  · have hle : (ofrTostring ofr).length ≤ 195 := by omega
    rw [extract_ofrTostring (hshort hle) hint] at he
    exact ⟨hle, (Option.some.inj he).symm⟩
  · rw [extractOfr, items_eq_none (hlong hlen)] at he
    cases he

/-- A buffer has room for 195 roads. -/
theorem extract_le : ∀ {mgrs : List (RoutingManager R)} {mgr : RoutingManager R} {req : NlMsg}
    {roads : List Route}, Crosses ofr (mgr :: mgrs) req → extractOfr mgr.map req = some roads →
      roads.length ≤ 195
  | [], mgr, req, roads, h, he => by
      obtain ⟨-, hshort, hlong⟩ := crosses_first h
      obtain hlen | hlen := Nat.lt_or_ge (ofrTostring ofr).length 196
      · have hle : (ofrTostring ofr).length ≤ 195 := by omega
        exact (extract_length (hshort hle) he).trans hle
      · rw [extractOfr, items_eq_none (hlong hlen)] at he
        cases he
  | prev :: rest, mgr, req, roads, h, he => by
      obtain ⟨req₀, roads₀, hprev, he₀, -, hold⟩ := crosses_later h
      have h195 := extract_le hprev he₀
      exact (extract_length (hold h195) he).trans (hold h195).1

theorem ofrTostring_head {roads : List Route} (hne : roads ≠ []) :
    ∃ c t, ofrTostring roads = c :: t ∧ c ≠ ',' := by
  have hchar : ∀ {i : ℤ} {c : Char} {t : List Char}, intDigits i = c :: t → c ≠ ',' := by
    intro i c t h
    obtain rfl | hd := mem_intDigits (h ▸ List.mem_cons_self)
    · decide
    · rintro rfl
      exact absurd hd (by decide)
  cases roads with
  | nil => exact absurd rfl hne
  | cons r roads =>
      obtain ⟨c, t, hct⟩ := List.exists_cons_of_ne_nil (intDigits_ne_nil r.roadid)
      cases roads with
      | nil => exact ⟨c, t, by simpa [ofrTostring, join] using hct, hchar hct⟩
      | cons r' roads =>
          refine ⟨c, t ++ ',' :: ofrTostring (r' :: roads), ?_, hchar hct⟩
          rw [ofrTostring, List.map_cons, List.map_cons, join_cons_cons, hct]
          rfl

/-- Of a route of several roads, the second relay and those after it obtain fewer. -/
theorem extract_shorter (hint : ∀ r ∈ ofr, IsInt r.roadid) (h2 : 2 ≤ ofr.length) :
    ∀ {mgrs : List (RoutingManager R)} {mgr prev : RoutingManager R} {req : NlMsg}
      {roads : List Route}, Crosses ofr (mgr :: prev :: mgrs) req →
      extractOfr mgr.map req = some roads → roads.length < ofr.length
  | [], mgr, prev, req, roads, h, he => by
      obtain ⟨req₀, roads₀, hprev, he₀, hne, hold⟩ := crosses_later h
      have h195 := extract_le hprev he₀
      obtain ⟨-, rfl⟩ := first_extract hint hprev he₀
      obtain ⟨c, t, htext, hc⟩ := ofrTostring_head hne
      have hlen := length_le_ofrTostring (ofr.map (fun r => prev.map.getRouteById r.roadid))
      have hhold := hold h195
      rw [htext] at hhold hlen
      rw [List.length_map, List.length_cons] at hlen
      obtain ⟨k, hk⟩ : ∃ k, ofr.length = k + 2 := ⟨ofr.length - 2, by omega⟩
      cases t with
      | nil =>
          rw [List.length_nil] at hlen
          omega
      | cons d t =>
          rw [List.length_map, hk, List.take_succ_cons, List.take_succ_cons] at hhold
          have hlt := extract_length_lt hhold hc he
          rw [List.length_take] at hlt
          omega
  | prev' :: rest, mgr, prev, req, roads, h, he => by
      obtain ⟨req₀, roads₀, hprev, he₀, -, hold⟩ := crosses_later h
      have hlt := extract_shorter hint h2 hprev he₀
      have hle := extract_length (hold (extract_le hprev he₀)) he
      rw [List.length_take] at hle
      omega

/-- Of a route of one road, the second relay and those after it obtain a road with one digit. -/
theorem extract_digit {r : Route} (hint : IsInt r.roadid) :
    ∀ {mgrs : List (RoutingManager R)} {mgr prev : RoutingManager R} {req : NlMsg}
      {roads : List Route}, Crosses [r] (mgr :: prev :: mgrs) req →
      extractOfr mgr.map req = some roads → 0 ≤ r.roadid ∧ ∃ x, roads = [x] ∧ x.roadid ≤ 9 ∧
        (x.roadid = r.roadid → ∀ m ∈ mgr :: prev :: mgrs, Knows m r) := by
  have hints : ∀ r' ∈ [r], IsInt r'.roadid := fun r' hr' => List.mem_singleton.mp hr' ▸ hint
  -- the road that the map has for a digit is the road of the route only if the digit is its id
  have hroad : ∀ (mgr : RoutingManager R) {i : ℤ}, 0 ≤ r.roadid → i ≤ 9 →
      (mgr.map.getRouteById i).roadid ≤ 9 ∧
        ((mgr.map.getRouteById i).roadid = r.roadid → i = r.roadid ∧ Knows mgr r) := by
    intro mgr i h0 h9
    obtain hi | hi := getRouteById_roadid mgr.map i
    · refine ⟨by omega, fun he => ?_⟩
      obtain rfl : i = r.roadid := hi.symm.trans he
      exact ⟨rfl, he⟩
    · exact ⟨by omega, fun he => by omega⟩
  intro mgrs
  induction mgrs with
  | nil =>
      intro mgr prev req roads h he
      obtain ⟨req₀, roads₀, hprev, he₀, -, hold⟩ := crosses_later h
      have h195 := extract_le hprev he₀
      obtain ⟨-, rfl⟩ := first_extract hints hprev he₀
      obtain ⟨hy, i, rfl, -, h9, -⟩ := extract_first_byte (hold h195) he
      change 0 ≤ (prev.map.getRouteById r.roadid).roadid at hy
      have hknows : Knows prev r :=
        (getRouteById_roadid prev.map r.roadid).resolve_right (fun hneg => by omega)
      have h0 : 0 ≤ r.roadid := by
        rw [← hknows]
        exact hy
      obtain ⟨hle, hsame⟩ := hroad mgr h0 h9
      refine ⟨h0, _, rfl, hle, fun hx m hm => ?_⟩
      obtain rfl | hm := List.mem_cons.mp hm
      · exact (hsame hx).2
      · rw [List.mem_singleton.mp hm]
        exact hknows
  | cons prev' rest ih =>
      intro mgr prev req roads h he
      obtain ⟨req₀, roads₀, hprev, he₀, -, hold⟩ := crosses_later h
      have h195 := extract_le hprev he₀
      obtain ⟨h0, y, rfl, hy9, hknown⟩ := ih hprev he₀
      obtain ⟨-, i, rfl, -, h9, hi⟩ := extract_first_byte (hold h195) he
      obtain ⟨hle, hsame⟩ := hroad mgr h0 h9
      refine ⟨h0, _, rfl, hle, fun hx m hm => ?_⟩
      obtain ⟨hir, hk⟩ := hsame hx
      obtain rfl | hm := List.mem_cons.mp hm
      · exact hk
      · exact hknown ((hi hy9).symm.trans hir) m hm

/-- A single digit reaches every relay whose predecessors know the road. -/
theorem crosses_digit {r : Route} (h0 : 0 ≤ r.roadid) (h9 : r.roadid ≤ 9) :
    ∀ {mgrs : List (RoutingManager R)} {mgr : RoutingManager R} {req : NlMsg},
      Crosses [r] (mgr :: mgrs) req → (∀ m ∈ mgrs, Knows m r) →
      HoldsText req (ofrTostring [r]) := by
  obtain ⟨k, hk⟩ := Int.eq_ofNat_of_zero_le h0
  have htext : ∀ {y : Route}, y.roadid = r.roadid → ofrTostring [y] = [k.digitChar] := by
    intro y hy
    have hjoin : ofrTostring [y] = intDigits y.roadid := by simp [ofrTostring, join]
    rw [hjoin, hy, hk]
    exact Nat.toDigits_of_lt_base (by omega)
  intro mgrs
  induction mgrs with
  | nil =>
      intro mgr req h _
      refine (crosses_first h).2.1 ?_
      rw [htext rfl, List.length_singleton]
      omega
  | cons prev rest ih =>
      intro mgr req h hknown
      obtain ⟨req₀, roads₀, hprev, he₀, -, hold⟩ := crosses_later h
      have h₀ := ih hprev (fun m hm => hknown m (List.mem_cons_of_mem _ hm))
      have hint : ∀ r' ∈ [r], IsInt r'.roadid := by
        intro r' hr'
        rw [List.mem_singleton.mp hr']
        exact ⟨by omega, by omega⟩
      rw [extract_ofrTostring h₀ hint] at he₀
      cases he₀
      have hy : (prev.map.getRouteById r.roadid).roadid = r.roadid :=
        hknown prev List.mem_cons_self
      have hreq := hold (by simp)
      rw [List.map_singleton, htext hy] at hreq
      rw [htext rfl]
      exact hreq

/-- **When a relay obtains the route.**  The first relay obtains it when its buffer holds the
text; any later relay, when the route is one road with an id of one digit.  The maps of the relays
must have the roads. -/
theorem relay_obtains_iff (hint : ∀ r ∈ ofr, IsInt r.roadid) (h : Crosses ofr (mgr :: mgrs) req) :
    Obtains mgr req ofr ↔ (ofrTostring ofr).length ≤ 195 ∧
      (mgrs = [] ∨ ∃ r, ofr = [r] ∧ 0 ≤ r.roadid ∧ r.roadid ≤ 9) ∧
      ∀ m ∈ mgr :: mgrs, ∀ r ∈ ofr, Knows m r := by
  cases mgrs with
  | nil =>
      obtain ⟨hne, hshort, -⟩ := crosses_first h
      constructor
      · rintro ⟨roads, he, hids⟩
        obtain ⟨hle, rfl⟩ := first_extract hint h he
        refine ⟨hle, Or.inl rfl, fun m hm r hr => ?_⟩
        rw [List.mem_singleton.mp hm]
        rw [List.map_map] at hids
        exact List.map_inj_left.mp hids r hr
      · rintro ⟨hle, -, hknown⟩
        refine ⟨_, extract_ofrTostring (hshort hle) hint, ?_⟩
        rw [List.map_map]
        exact List.map_inj_left.mpr (fun r hr => hknown mgr List.mem_cons_self r hr)
  | cons prev rest =>
      constructor
      · rintro ⟨roads, he, hids⟩
        have hlen : roads.length = ofr.length := by
          simpa using congrArg List.length hids
        have hpos := List.length_pos_iff.mpr h.ne_nil
        have hone : ofr.length = 1 := by
          by_contra hne
          have hlt := extract_shorter hint (by omega) h he
          omega
        obtain ⟨r, rfl⟩ := List.length_eq_one_iff.mp hone
        obtain ⟨h0, x, rfl, h9, hknown⟩ := extract_digit (hint r List.mem_cons_self) h he
        have hx : x.roadid = r.roadid := by simpa using hids
        have hhold := crosses_digit h0 (hx ▸ h9) h
          (fun m hm => hknown hx m (List.mem_cons_of_mem _ hm))
        refine ⟨hhold.1, Or.inr ⟨r, rfl, h0, hx ▸ h9⟩, fun m hm r' hr' => ?_⟩
        rw [List.mem_singleton.mp hr']
        exact hknown hx m hm
      · rintro ⟨hle, hor, hknown⟩
        obtain ⟨r, rfl, h0, h9⟩ := hor.resolve_left (List.cons_ne_nil _ _)
        have hhold := crosses_digit h0 h9 h
          (fun m hm => hknown m (List.mem_cons_of_mem _ hm) r List.mem_cons_self)
        refine ⟨_, extract_ofrTostring hhold hint, ?_⟩
        rw [List.map_map]
        exact List.map_inj_left.mpr (fun r' hr' => hknown mgr List.mem_cons_self r' hr')

end crosses

/-! ### Two relays -/

/-- The packet arrives at a host with another address. -/
def arrival (skb : SkBuff) : Capture :=
  ⟨.preRouting, skb, 2, 0, true, 0, true, 0, true, true⟩

/-- The response releases `sampleSkb`, and the hook of the next host asks for a route. -/
theorem carried_sample {s : NlSent} {sent : SkBuff} {r : NlMsg}
    (hpeer : geosvrNetlinkRecvPeer s.type.toNat s.len s.msg = some (.sendPkt s.msg))
    (h0 : s.msg.routeLen ≠ 0) (hdst : s.msg.dst = 0x0200000A) (hlen : s.msg.routeLen.toNat < 2 ^ 16)
    (henc : Kernel.geosvrIpEncapsulate true (fun _ => some 1) Kernel.sampleSkb s.msg = (0, sent))
    (hreq : (geosvrHook ⟨0x0300000A, 0xFF00000A, 2, none⟩ (arrival sent) ⟨[], 0⟩).request =
      some r) : Carried s (nlRecvMsg [] r) := by
  obtain ⟨-, hnet, hroom, hu, hcl⟩ :=
    Kernel.encapsulate_spec Kernel.isPacket_sampleSkb hlen henc
  have hsend : sendEntry ⟨true, fun _ => some 1, 0⟩ s.msg ⟨Kernel.sampleSkb, 0⟩ =
      [.okfn 0 sent] := by
    unfold sendEntry
    simp only [if_neg h0, henc, lt_irrefl, if_false]
  have hcmp : destCmp s.msg.dst ⟨Kernel.sampleSkb, 0⟩ = true := by
    rw [hdst]
    rfl
  exact Carried.mk hpeer h0 hcmp Kernel.isPacket_sampleSkb hsend
    ⟨rfl, hnet, hroom, hu, hcl⟩ rfl hreq rfl

/-- The route of the single road 7 reaches the second relay. -/
theorem relay_obtains_iff_sample : ∃ req,
    Crosses [⟨7, 0, 1, 3⟩] [hostWith 3 7, hostWith 2 7] req ∧
      Obtains (hostWith 3 7) req [⟨7, 0, 1, 3⟩] := by
  have hd : (hostWith 1 7).decision sampleRequest
      ((hostWith 1 7).routeTo (fun _ => some [⟨7, 0, 1, 3⟩]) sampleRequest.dst) =
        some (.forward [⟨7, 0, 1, 3⟩] 5) := rfl
  have hout : (hostWith 1 7).handleReqRouteSendNormal (fun _ => some [⟨7, 0, 1, 3⟩]) sampleRequest
      sampleRequest = some ⟨[responseWith 1 [55]], []⟩ := rfl
  have hfirst : Crosses [⟨7, 0, 1, 3⟩] [hostWith 2 7] (requestWith [55]) :=
    Crosses.source hd hout List.mem_cons_self
      (carried_sample rfl (by decide) rfl (by decide) rfl rfl)
  have hout₂ : (hostWith 2 7).handleReqRouteNormal (fun _ => none) sampleRequest
      (requestWith [55]) = some ⟨[responseWith 2 [55]], []⟩ := rfl
  have hsecond : Crosses [⟨7, 0, 1, 3⟩] [hostWith 3 7, hostWith 2 7] (requestWith [55]) :=
    Crosses.relay hfirst hout₂ List.mem_cons_self
      (carried_sample rfl (by decide) rfl (by decide) rfl rfl)
  refine ⟨_, hsecond, (relay_obtains_iff ?_ hsecond).mpr ⟨by decide, Or.inr ⟨_, rfl, ?_⟩, ?_⟩⟩
  · intro r hr
    rw [List.mem_singleton.mp hr]
    exact ⟨by decide, by decide⟩
  · exact ⟨by decide, by decide⟩
  · intro m hm r hr
    rw [List.mem_singleton.mp hr]
    rcases List.mem_pair.mp hm with rfl | rfl <;> rfl

/-- The route of the roads 7 and 8 does not. -/
theorem route_shortened : ∃ req,
    Crosses [⟨7, 0, 1, 3⟩, ⟨8, 1, 2, 3⟩] [hostWith 3 8, hostWith 2 8] req ∧
      (extractOfr (hostWith 3 8).map req).map (List.map Route.roadid) = some [7] ∧
      ¬ Obtains (hostWith 3 8) req [⟨7, 0, 1, 3⟩, ⟨8, 1, 2, 3⟩] := by
  have hd : (hostWith 1 8).decision sampleRequest
      ((hostWith 1 8).routeTo (fun _ => some [⟨7, 0, 1, 3⟩, ⟨8, 1, 2, 3⟩]) sampleRequest.dst) =
        some (.forward [⟨7, 0, 1, 3⟩, ⟨8, 1, 2, 3⟩] 5) := rfl
  have hout : (hostWith 1 8).handleReqRouteSendNormal
      (fun _ => some [⟨7, 0, 1, 3⟩, ⟨8, 1, 2, 3⟩]) sampleRequest sampleRequest =
        some ⟨[responseWith 1 [55, 44, 56]], []⟩ := rfl
  have hfirst : Crosses [⟨7, 0, 1, 3⟩, ⟨8, 1, 2, 3⟩] [hostWith 2 8] (requestWith [55, 44, 56]) :=
    Crosses.source hd hout List.mem_cons_self
      (carried_sample rfl (by decide) rfl (by decide) rfl rfl)
  have hout₂ : (hostWith 2 8).handleReqRouteNormal (fun _ => none) sampleRequest
      (requestWith [55, 44, 56]) = some ⟨[responseWith 2 [55, 44]], []⟩ := rfl
  have hsecond : Crosses [⟨7, 0, 1, 3⟩, ⟨8, 1, 2, 3⟩] [hostWith 3 8, hostWith 2 8]
      (requestWith [55, 44]) :=
    Crosses.relay hfirst hout₂ List.mem_cons_self
      (carried_sample rfl (by decide) rfl (by decide) rfl rfl)
  have hextract : (extractOfr (hostWith 3 8).map (requestWith [55, 44])).map
      (List.map Route.roadid) = some [7] := rfl
  refine ⟨_, hsecond, hextract, ?_⟩
  rintro ⟨roads, he, hids⟩
  rw [he, Option.map_some, hids] at hextract
  exact absurd (Option.some.inj hextract) (by decide)

end GeoSvr.Daemon
