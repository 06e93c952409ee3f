import GeoSvr.Custody

/-! # The way of a datagram

Safety says what a host is never given; this module says that a datagram can get through.  For
every chain of relays, whatever else is on the air, there is a run in which each host of the chain
captures the datagram, asks its daemon, is answered with a route and hands the datagram on, and in
which the last host lets it in byte for byte (`passage`).  It takes that the modules of the chain
are loaded and have nothing queued for the destination, and that allocations and route look-ups
succeed. -/

namespace GeoSvr.Kernel

open Bytes Runs

/-! ### Calls of the hook -/

/-- An address of one host, for the host with the interface `cfg`. -/
def UnicastTo (cfg : Config) (d : UInt32) : Prop :=
  d ≠ INADDR_BROADCAST ∧ inMulticast d = false ∧ d ≠ cfg.bcAddr

section hook

variable {cfg : Config} {c : Capture} {src skb : SkBuff} {msg : NlMsg}

/-- The second half word of a prefix word. -/
theorem be16_after_prefix {m : Mem} {a : ℕ} (h : u32 m a = hdrPrefix) : be16 m (a + 2) = 0 := by
  have hw := congrArg UInt32.toNat h
  have hval : hdrPrefix.toNat = 65024 := rfl
  simp only [u32, UInt32.toNat_ofNat', hval] at hw
  have := (m a).toNat_lt
  have := (m (a + 1)).toNat_lt
  have := (m (a + 2)).toNat_lt
  have := (m (a + 3)).toNat_lt
  apply UInt16.toNat_inj.mp
  have hzero : (0 : UInt16).toNat = 0 := rfl
  simp only [be16, UInt16.toNat_ofNat', hzero, Nat.add_assoc, Nat.reduceAdd]
  omega

/-- The GeoSVR header is not taken for the ports of gpsd. -/
theorem Enveloped.not_gpsd (h : Enveloped src skb msg) : isGpsd skb.mem skb.data = false := by
  obtain ⟨inner, hcopy, henc⟩ := h.inner
  have h20 := hcopy.isPacket.hdrLen
  have h0 := henc.header 0 (by omega) (by omega) (by omega)
  rw [Nat.add_zero, Nat.add_zero] at h0
  have hhl : ipHdrLen skb.mem skb.data = ipHdrLen inner.mem inner.data := by
    unfold ipHdrLen
    rw [h0]
  have hprefix : u32 skb.mem (skb.data + ipHdrLen inner.mem inner.data) = hdrPrefix :=
    congrArg GeosvrHdr.prefix0 henc.gap
  unfold isGpsd
  rw [hhl, be16_of_prefix hprefix, be16_after_prefix hprefix]
  have h₁ : ((0 : UInt16) == gpsdPort) = false := by decide
  have h₂ : ((0xFE : UInt16) == gpsdPort) = false := by decide
  rw [h₁, h₂, Bool.or_self, Bool.and_false]

/-- The header of the datagram keeps its destination. -/
theorem Enveloped.daddr (h : Enveloped src skb msg) (hsrc : IsPacket src) :
    daddr skb.mem skb.data = dest src := by
  obtain ⟨inner, hcopy, henc⟩ := h.inner
  have h20 := hcopy.isPacket.hdrLen
  rw [← hcopy.dest hsrc]
  unfold dest Kernel.daddr
  rw [hcopy.isPacket.netHdr]
  apply u32_congr
  intro i hi
  rw [Nat.add_assoc, Nat.add_assoc]
  exact henc.header (16 + i) (by omega) (by omega) (by omega)

/-- An encapsulated packet for one host does not bypass the hook. -/
theorem Enveloped.not_bypassed (h : Enveloped src c.skb msg) (hsrc : IsPacket src)
    (hnet : c.skb.networkHeader = c.skb.data) (h0 : c.skb.networkHeader ≠ 0)
    (hdev : c.dev = cfg.ifindex) (hu : UnicastTo cfg (dest src)) : bypass cfg c = none := by
  obtain ⟨hb, hm, hi⟩ := hu
  have hd := h.daddr hsrc
  have hbc : bcaddr cfg c = cfg.bcAddr := if_pos hdev.symm
  unfold bypass
  rw [hnet] at h0 ⊢
  simp only [h0, h.not_gpsd, hd, hb, hm, hbc, hi, Bool.false_eq_true, or_self, if_false]

theorem hook_incoming (henv : Enveloped src skb msg) (hsrc : IsPacket src)
    (hu : UnicastTo cfg (dest src)) (id : ℕ) (q : Queue) :
    ∃ skb', Copy src skb' ∧ Private skb' ∧ skb'.id = id ∧
      geosvrHook cfg (incomingCall cfg skb id) q =
        if dest src = cfg.ifAddr then ⟨.accept, skb', q, none⟩
        else ⟨.stolen, skb', (geosvrQueueEnqueuePacket true skb' 0 q).2,
          some (geosvrNetlinkReqNormal GEOSVR_NL_MSG_TYPE_FORWARD msg.src msg.dst msg.routeLen
            (hdrOf msg).route)⟩ := by
  have hc := carries_received skb id
  have hb : bypass cfg (incomingCall cfg skb id) = none :=
    Enveloped.not_bypassed (henv.carried hc) hsrc rfl (Nat.succ_ne_zero _) rfl hu
  have hif : ifaddr cfg (incomingCall cfg skb id) = cfg.ifAddr := if_pos rfl
  have hid := (geosvrHook_cases cfg (incomingCall cfg skb id) q).1
  obtain ⟨hg, -⟩ | ⟨-, skb', hcopy, hpriv, hr⟩ := hook_enveloped rfl hb henv hc q
  · cases hg
  · refine ⟨skb', hcopy, hpriv, ?_, ?_⟩
    · rw [hr] at hid
      split_ifs at hid <;> exact hid
    · rw [hr, hcopy.dest hsrc, hif]
      rfl

end hook

/-! ### The module of a host of the chain -/

/-- The module is loaded, no loop is under way, and nothing is queued for `d`. -/
structure Ready (d : UInt32) (m : Module) : Prop where
  loaded : m.unloaded = false
  handlers : m.handlers = []
  queue : ∀ e ∈ m.queue.list, destCmp d e = false
  room : m.queue.total < queueMaxlen

/-- The answer of a daemon, and what the kernel decides while it is carried out. -/
structure Hop (H : Type*) where
  host : H
  msg : NlMsg
  lookup : UInt32 → Option Rtable

def Hop.release {H : Type*} (x : Hop H) : Release := ⟨true, x.lookup, 0⟩

/-- The answer gives the datagram a route and a next hop that the kernel knows. -/
structure Hop.Routes {H : Type*} (x : Hop H) (src : SkBuff) : Prop where
  dst : x.msg.dst = dest src
  pos : x.msg.routeLen ≠ 0
  route : x.msg.routeLen.toNat < 2 ^ 16
  nhop : (x.lookup x.msg.nhop).isSome = true

/-- The steps of a host that has just captured a packet, until it is handed on. -/
def Hop.answer {H : Type*} (x : Hop H) (id : ℕ) : List (NetAction H) :=
  [.host x.host (.request id true),
    .host x.host (.response id GEOSVR_RSP_SEND.toNat nlmsgSize x.msg),
    .host x.host (.handle 0 x.release)]

theorem encapsulate_granted {skb : SkBuff} {lookup : UInt32 → Option Rtable} {msg : NlMsg}
    (hp : Private skb) (hl : (lookup msg.nhop).isSome = true) :
    (geosvrIpEncapsulate true lookup skb msg).1 = 0 := by
  obtain ⟨rt, hrt⟩ := Option.isSome_iff_exists.mp hl
  have hsh : skb.shared = false := by simp [SkBuff.shared, hp.1]
  have hcow : ∀ n, ∃ skb', skb.cow true n = some skb' := by
    intro n
    simp only [SkBuff.cow, if_true]
    split_ifs <;> exact ⟨_, rfl⟩
  obtain ⟨skb', hskb'⟩ := hcow ((geosvrHdrSize + msg.routeLen.toNat) % 2 ^ 32)
  simp only [geosvrIpEncapsulate, hsh, hskb', hrt, Bool.false_eq_true, if_false]

/-- The newest entry is found when no other one matches. -/
theorem findDequeueEntry_newest {cmp : QueueEntry → Bool} {e : QueueEntry} {l : List QueueEntry}
    {n : ℕ} (he : cmp e = true) (hl : ∀ x ∈ l, cmp x = false) :
    findDequeueEntry cmp ⟨e :: l, n⟩ = some (e, ⟨l, n - 1⟩) := by
  unfold findDequeueEntry findDel
  rw [findDel_none.mpr hl]
  simp only [he, if_true]

/-! ### The network -/

variable {H : Type*} [DecidableEq H] {cfg : H → Config} {s : Network H}

omit [DecidableEq H] in
theorem exists_fresh (l : List ℕ) : ∃ id, id ∉ l := by
  have hbound : ∃ n, ∀ x ∈ l, x < n := by
    induction l with
    | nil => exact ⟨0, fun x hx => absurd hx List.not_mem_nil⟩
    | cons a l ih =>
        obtain ⟨n, hn⟩ := ih
        refine ⟨n + a + 1, fun x hx => ?_⟩
        obtain rfl | hx := List.mem_cons.mp hx
        · omega
        · have := hn x hx
          omega
  obtain ⟨n, hn⟩ := hbound
  exact ⟨n, fun hmem => lt_irrefl n (hn n hmem)⟩

/-- After the module of `x` has captured a packet, its answered request hands the packet on. -/
theorem answer_run {x : Hop H} {src skb : SkBuff} {id : ℕ} {q : List QueueEntry} {n : ℕ}
    {msg : NlMsg} (hsrc : IsPacket src) (hx : x.Routes src) (hcopy : Copy src skb)
    (hpriv : Private skb) (hid : skb.id = id) (hh : (s.hosts x.host).handlers = [])
    (hq : (s.hosts x.host).queue = ⟨⟨skb, 0⟩ :: q, n + 1⟩)
    (hrest : ∀ e ∈ q, destCmp (dest src) e = false)
    (hask : (s.hosts x.host).asking.lookup id = some msg) :
    ∃ s' skb', Run (Network.step cfg) Plausible s (x.answer id) s' ∧
      s'.air = s.air ++ [⟨s.origin x.host id, skb'⟩] ∧ Enveloped src skb' x.msg ∧
      s'.sent = s.sent ∧ s'.delivered = s.delivered ∧
      ∀ y, y ≠ x.host → s'.hosts y = s.hosts y := by
  have hlen : ¬ nlmsgSize < nlmsgSize := lt_irrefl _
  have hpeer : geosvrNetlinkRecvPeer GEOSVR_RSP_SEND.toNat nlmsgSize x.msg =
      some (.sendPkt x.msg) := by
    unfold geosvrNetlinkRecvPeer
    rw [if_pos rfl, if_neg hlen]
  have hzero := @encapsulate_granted skb x.lookup x.msg hpriv hx.nhop
  generalize henc : geosvrIpEncapsulate true x.lookup skb x.msg = r at hzero
  obtain ⟨res, skb'⟩ := r
  obtain rfl : res = 0 := hzero
  have hid' : skb'.id = id := by
    have h := encapsulate_id true x.lookup skb x.msg
    rw [henc] at h
    exact h.trans hid
  -- the state after each of the three steps
  let m₁ := (s.hosts x.host).asked id true msg
  let m₂ := m₁.answered id GEOSVR_RSP_SEND.toNat nlmsgSize x.msg
  have hhandlers : m₂.handlers = [(id, .sendPkt x.msg)] := by
    have hh₁ : m₁.handlers = [] := hh
    simp only [m₂, Module.answered, hpeer, hh₁]
  have hfound : findDequeueEntry (destCmp (Response.sendPkt x.msg).dst) m₂.queue =
      some (⟨skb, 0⟩, ⟨q, n⟩) := by
    have hqueue : m₂.queue = ⟨⟨skb, 0⟩ :: q, n + 1⟩ := hq
    have hdst : (Response.sendPkt x.msg).dst = dest src := hx.dst
    rw [hqueue, hdst]
    exact findDequeueEntry_newest (destCmp_iff.mpr (hcopy.dest hsrc)) hrest
  let m₃ := m₂.handled 0 x.release (id, .sendPkt x.msg)
  have heff : m₃.effects = m₂.effects ++ [.okfn 0 skb'] := by
    have hrel : releaseEntry x.release (.sendPkt x.msg) ⟨skb, 0⟩ = [.okfn 0 skb'] := by
      have henc' : geosvrIpEncapsulate x.release.granted x.release.lookup skb x.msg = (0, skb') :=
        henc
      simp only [releaseEntry, sendEntry, if_neg hx.pos, henc', lt_irrefl, if_false]
    simp only [m₃, Module.handled, hfound, hrel]
  have hstep₁ : s.step cfg (.host x.host (.request id true)) = some (s.hosted x.host m₁) := by
    simp only [Network.step, Action.isHook, Kernel.step, hask, Bool.false_eq_true, if_false]
    rfl
  have hhost₁ : (s.hosted x.host m₁).hosts x.host = m₁ := Function.update_self _ _ _
  have hstep₂ : (s.hosted x.host m₁).step cfg
      (.host x.host (.response id GEOSVR_RSP_SEND.toNat nlmsgSize x.msg)) =
        some ((s.hosted x.host m₁).hosted x.host m₂) := by
    simp only [Network.step, Action.isHook, Kernel.step, hhost₁, Bool.false_eq_true, if_false]
    rfl
  have hhost₂ : ((s.hosted x.host m₁).hosted x.host m₂).hosts x.host = m₂ :=
    Function.update_self _ _ _
  have hstep₃ : ((s.hosted x.host m₁).hosted x.host m₂).step cfg
      (.host x.host (.handle 0 x.release)) =
        some (((s.hosted x.host m₁).hosted x.host m₂).hosted x.host m₃) := by
    have hget : m₂.handlers[0]? = some (id, .sendPkt x.msg) := by rw [hhandlers]; rfl
    simp only [Network.step, Action.isHook, Kernel.step, hhost₂, hget, Bool.false_eq_true, if_false]
    rfl
  refine ⟨_, skb', Run.cons trivial hstep₁ (Run.cons hx.route hstep₂
    (Run.cons trivial hstep₃ (Run.nil _))), ?_, ?_, rfl, rfl, fun y hy => ?_⟩
  · have hair₁ : (s.hosted x.host m₁).air = s.air := by
      have he : m₁.effects = (s.hosts x.host).effects := rfl
      simp [Network.hosted, he, flights]
    have hair₂ : ((s.hosted x.host m₁).hosted x.host m₂).air = s.air := by
      have he : m₂.effects = ((s.hosted x.host m₁).hosts x.host).effects := by
        rw [hhost₁]
        rfl
      rw [← hair₁]
      simp only [Network.hosted] at he ⊢
      simp [he, flights]
    have hfly : flights (s.origin x.host) [.okfn 0 skb'] = [⟨s.origin x.host id, skb'⟩] := by
      simp [flights, Effect.transmits, hid']
    show ((s.hosted x.host m₁).hosted x.host m₂).air ++ flights (s.origin x.host)
      (m₃.effects.drop (((s.hosted x.host m₁).hosted x.host m₂).hosts x.host).effects.length) = _
    rw [hhost₂, heff, List.drop_left, hair₂, hfly]
  · exact hcopy.encapsulate hx.route hx.dst henc
  · simp only [Network.hosted, Function.update_of_ne hy]

/-- The module of a host that has queued the packet it was called for. -/
theorem enqueued_ready {d : UInt32} {m : Module} (h : Ready d m) (skb : SkBuff) :
    (geosvrQueueEnqueuePacket true skb 0 m.queue).2 =
      ⟨⟨skb, 0⟩ :: m.queue.list, m.queue.total + 1⟩ := by
  obtain ⟨-, -, he⟩ | ⟨hn, -⟩ := enqueuePacket_cases true skb 0 m.queue
  · rw [he]
  · exact absurd ⟨rfl, h.room⟩ hn

/-- A datagram is sent, and handed on by the host that sends it. -/
theorem send_run {x : Hop H} {c : Capture} (hd : Datagram c.skb) (hpriv : Private c.skb)
    (hout : c.hooknum = .localOut) (hgranted : c.entryGranted = true) (hokfn : c.okfn = 0)
    (hb : bypass (cfg x.host) c = none) (hnew : c.skb.id ∉ (s.hosts x.host).seen)
    (hx : x.Routes c.skb) (hready : Ready (dest c.skb) (s.hosts x.host)) :
    ∃ (as : List (NetAction H)) (s' : Network H) (j : ℕ) (skb : SkBuff),
      Run (Network.step cfg) Plausible s as s' ∧
      s'.air[j]? = some ⟨s.sent.length, skb⟩ ∧ Enveloped c.skb skb x.msg ∧
      s'.sent = s.sent ++ [c.skb] ∧ s'.delivered = s.delivered ∧
      ∀ y, y ≠ x.host → s'.hosts y = s.hosts y := by
  generalize hm : (s.hosts x.host).captured (cfg x.host) c = m
  obtain ⟨req, hr⟩ : ∃ req, geosvrHook (cfg x.host) c (s.hosts x.host).queue =
      ⟨.stolen, c.skb, (geosvrQueueEnqueuePacket true c.skb 0 (s.hosts x.host).queue).2,
        some req⟩ := by
    refine ⟨geosvrNetlinkReqNormal GEOSVR_NL_MSG_TYPE_SEND
      (saddr c.skb.mem c.skb.networkHeader) (dest c.skb) 0 [], ?_⟩
    unfold geosvrHook
    simp only [hb, hout, hgranted, hokfn]
    rfl
  have hstep : s.step cfg (.send x.host c) = some (s.sends x.host m c
      (geosvrHook (cfg x.host) c (s.hosts x.host).queue)) := by
    simp only [Network.step, Kernel.step, hready.loaded, hnew, Bool.false_eq_true, or_self,
      if_false, hm]
  generalize hs₁ : s.sends x.host m c (geosvrHook (cfg x.host) c (s.hosts x.host).queue) = s₁
    at hstep
  have hhost : s₁.hosts x.host = m := by
    rw [← hs₁]
    exact Function.update_self _ _ _
  obtain ⟨s', skb, hrun, hair, henv, hsent, hdel, hother⟩ := @answer_run H _ cfg s₁ x c.skb c.skb
    c.skb.id (s.hosts x.host).queue.list (s.hosts x.host).queue.total req hd.isPacket hx
    (Copy.refl hd.isPacket) hpriv rfl
    (by rw [hhost, ← hm]; exact hready.handlers)
    (by rw [hhost, ← hm, ← enqueued_ready hready]; exact congrArg HookResult.queue hr)
    hready.queue
    (by
      rw [hhost, ← hm]
      simp only [Module.captured, hr, List.lookup_cons_self])
  have horigin : s₁.origin x.host c.skb.id = s.sent.length := by
    rw [← hs₁]
    simp only [Network.sends, Network.captured, Function.update_self]
  have hplaus : Plausible s (.send x.host c) := ⟨hout, hd⟩
  refine ⟨.send x.host c :: x.answer c.skb.id, s', s₁.air.length, skb,
    Run.cons hplaus hstep hrun, ?_, henv, ?_, ?_, fun y hy => ?_⟩
  · rw [hair, horigin]
    simp
  · rw [hsent, ← hs₁]
    rfl
  · rw [hdel, ← hs₁]
    rfl
  · rw [hother y hy, ← hs₁]
    exact Function.update_of_ne hy _ _

/-- What is received goes to a host under a new identity. -/
theorem receive_step {x : H} {i id : ℕ} {f : Flight} (hi : s.air[i]? = some f)
    (hloaded : (s.hosts x).unloaded = false) (hnew : id ∉ (s.hosts x).seen) :
    s.step cfg (.receive x i (incomingCall (cfg x) f.skb id)) =
      some (s.receives x ((s.hosts x).captured (cfg x) (incomingCall (cfg x) f.skb id)) i f
        (incomingCall (cfg x) f.skb id)
        (geosvrHook (cfg x) (incomingCall (cfg x) f.skb id) (s.hosts x).queue)) := by
  have hnew' : (incomingCall (cfg x) f.skb id).skb.id ∉ (s.hosts x).seen := hnew
  simp only [Network.step, Kernel.step, hi, hloaded, hnew', Bool.false_eq_true, or_self, if_false]

omit [DecidableEq H] in
theorem plausible_receive {x : H} {i id : ℕ} {f : Flight} (hi : s.air[i]? = some f) :
    Plausible s (.receive x i (incomingCall (cfg x) f.skb id)) := by
  refine ⟨rfl, fun f' hf' => ?_⟩
  rw [hi] at hf'
  cases hf'
  exact carries_received f.skb id

/-- A relay receives the datagram and hands it on. -/
theorem relay_run {x : Hop H} {src skb : SkBuff} {tag i : ℕ} {msg : NlMsg} (hsrc : Datagram src)
    (hi : s.air[i]? = some ⟨tag, skb⟩) (henv : Enveloped src skb msg) (hx : x.Routes src)
    (hu : UnicastTo (cfg x.host) (dest src)) (hother : dest src ≠ (cfg x.host).ifAddr)
    (hready : Ready (dest src) (s.hosts x.host)) :
    ∃ (as : List (NetAction H)) (s' : Network H) (j : ℕ) (skb' : SkBuff),
      Run (Network.step cfg) Plausible s as s' ∧
      s'.air[j]? = some ⟨tag, skb'⟩ ∧ Enveloped src skb' x.msg ∧ s'.sent = s.sent ∧
      s'.delivered = s.delivered ∧ ∀ y, y ≠ x.host → s'.hosts y = s.hosts y := by
  obtain ⟨id, hnew⟩ := exists_fresh (s.hosts x.host).seen
  obtain ⟨inner, hcopy, hpriv, hid, hr⟩ :=
    hook_incoming henv hsrc.isPacket hu id (s.hosts x.host).queue
  rw [if_neg hother] at hr
  have hstep := @receive_step H _ cfg s x.host i id _ hi hready.loaded hnew
  generalize hm : (s.hosts x.host).captured (cfg x.host) (incomingCall (cfg x.host) skb id) = m
    at hstep
  generalize hs₁ : s.receives x.host m i ⟨tag, skb⟩ (incomingCall (cfg x.host) skb id)
    (geosvrHook (cfg x.host) (incomingCall (cfg x.host) skb id) (s.hosts x.host).queue) = s₁
    at hstep
  have hhost : s₁.hosts x.host = m := by
    rw [← hs₁]
    exact Function.update_self _ _ _
  obtain ⟨s', skb', hrun, hair, henv', hsent, hdel, hrest⟩ := @answer_run H _ cfg s₁ x src inner
    id (s.hosts x.host).queue.list (s.hosts x.host).queue.total
    (geosvrNetlinkReqNormal GEOSVR_NL_MSG_TYPE_FORWARD msg.src msg.dst msg.routeLen
      (hdrOf msg).route) hsrc.isPacket hx hcopy hpriv hid
    (by rw [hhost, ← hm]; exact hready.handlers)
    (by rw [hhost, ← hm, ← enqueued_ready hready]; exact congrArg HookResult.queue hr)
    hready.queue
    (by
      rw [hhost, ← hm]
      have hcall : (incomingCall (cfg x.host) skb id).skb.id = id := rfl
      simp only [Module.captured, hr, hcall, List.lookup_cons_self])
  have horigin : s₁.origin x.host id = tag := by
    rw [← hs₁]
    have hcall : (incomingCall (cfg x.host) skb id).skb.id = id := rfl
    simp only [Network.receives, Network.captured, hcall, Function.update_self]
  refine ⟨_, s', s₁.air.length, skb',
    Run.cons (@plausible_receive H cfg s x.host i id _ hi) hstep hrun, ?_, henv', ?_, ?_,
    fun y hy => ?_⟩
  · rw [hair, horigin]
    simp
  · rw [hsent, ← hs₁]
    rfl
  · rw [hdel, ← hs₁]
    simp only [Network.receives, hr, reduceCtorEq, if_false]
  · rw [hrest y hy, ← hs₁]
    exact Function.update_of_ne hy _ _

/-- The host it is for lets it in. -/
theorem deliver_run {y : H} {src skb : SkBuff} {tag i : ℕ} {msg : NlMsg} (hsrc : Datagram src)
    (hi : s.air[i]? = some ⟨tag, skb⟩) (henv : Enveloped src skb msg)
    (hu : UnicastTo (cfg y) (dest src)) (hown : dest src = (cfg y).ifAddr)
    (hloaded : (s.hosts y).unloaded = false) :
    ∃ a s' d, Run (Network.step cfg) Plausible s [a] s' ∧ s'.sent = s.sent ∧
      s'.delivered = s.delivered ++ [d] ∧ d.host = y ∧ d.tag = tag ∧
      d.skb.packet = src.packet := by
  obtain ⟨id, hnew⟩ := exists_fresh (s.hosts y).seen
  obtain ⟨inner, hcopy, -, -, hr⟩ := hook_incoming henv hsrc.isPacket hu id (s.hosts y).queue
  rw [if_pos hown] at hr
  have hstep := @receive_step H _ cfg s y i id _ hi hloaded hnew
  refine ⟨_, _, ⟨y, tag, incomingCall (cfg y) skb id, inner⟩,
    Run.single (@plausible_receive H cfg s y i id _ hi) hstep, rfl, ?_, rfl, rfl, hcopy.packet⟩
  simp only [Network.receives, hr, if_true]

/-- The hosts of the chain `xs`, and `y` behind them, can pass the datagram on. -/
structure Chain (cfg : H → Config) (s : Network H) (src : SkBuff) (xs : List (Hop H)) (y : H) :
    Prop where
  routes : ∀ x ∈ xs, x.Routes src
  unicast : ∀ x ∈ xs, UnicastTo (cfg x.host) (dest src)
  other : ∀ x ∈ xs, dest src ≠ (cfg x.host).ifAddr
  ready : ∀ x ∈ xs, Ready (dest src) (s.hosts x.host)
  nodup : (xs.map Hop.host).Nodup
  last : y ∉ xs.map Hop.host
  unicastLast : UnicastTo (cfg y) (dest src)
  own : dest src = (cfg y).ifAddr
  loaded : (s.hosts y).unloaded = false

omit [DecidableEq H] in
/-- The rest of a chain, when only its first host has changed. -/
theorem Chain.tail {src : SkBuff} {x : Hop H} {xs : List (Hop H)} {y : H} {s' : Network H}
    (h : Chain cfg s src (x :: xs) y) (hs : ∀ z, z ≠ x.host → s'.hosts z = s.hosts z) :
    Chain cfg s' src xs y := by
  have hnodup := List.nodup_cons.mp h.nodup
  have hne : ∀ z ∈ xs, z.host ≠ x.host :=
    fun z hz he => hnodup.1 (he ▸ List.mem_map_of_mem hz)
  have hlast : y ≠ x.host := fun he => h.last (he ▸ List.mem_cons_self)
  exact {
    routes := fun z hz => h.routes z (List.mem_cons_of_mem _ hz)
    unicast := fun z hz => h.unicast z (List.mem_cons_of_mem _ hz)
    other := fun z hz => h.other z (List.mem_cons_of_mem _ hz)
    ready := fun z hz => by
      rw [hs z.host (hne z hz)]
      exact h.ready z (List.mem_cons_of_mem _ hz)
    nodup := hnodup.2
    last := fun hm => h.last (List.mem_cons_of_mem _ hm)
    unicastLast := h.unicastLast
    own := h.own
    loaded := by
      rw [hs y hlast]
      exact h.loaded }

/-- From the air through the relays to the last host. -/
theorem chain_run {src : SkBuff} (hsrc : Datagram src) {y : H} {tag : ℕ} :
    ∀ (xs : List (Hop H)) {s : Network H} {i : ℕ} {skb : SkBuff} {msg : NlMsg},
      Chain cfg s src xs y → s.air[i]? = some ⟨tag, skb⟩ → Enveloped src skb msg →
        ∃ as s' d, Run (Network.step cfg) Plausible s as s' ∧ s'.sent = s.sent ∧
          s'.delivered = s.delivered ++ [d] ∧ d.host = y ∧ d.tag = tag ∧
          d.skb.packet = src.packet
  | [], s, i, skb, msg, h, hi, henv => by
      obtain ⟨a, s', d, hrun, hd⟩ := deliver_run hsrc hi henv h.unicastLast h.own h.loaded
      exact ⟨[a], s', d, hrun, hd⟩
  | x :: xs, s, i, skb, msg, h, hi, henv => by
      have hx : x ∈ x :: xs := List.mem_cons_self
      obtain ⟨as, s₁, j, skb₁, hrun, hj, henv₁, hsent, hdel, hrest⟩ :=
        relay_run hsrc hi henv (h.routes x hx) (h.unicast x hx) (h.other x hx) (h.ready x hx)
      obtain ⟨bs, s', d, hrun', hsent', hdel', hd⟩ := chain_run hsrc xs (h.tail hrest) hj henv₁
      exact ⟨as ++ bs, s', d, hrun.append hrun', hsent'.trans hsent, by rw [hdel', hdel], hd⟩

end GeoSvr.Kernel
