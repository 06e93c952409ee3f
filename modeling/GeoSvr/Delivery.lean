import GeoSvr.Network

/-! # What the hosts deliver

In every run of the network, whatever the daemons answer, whichever allocations fail and however
the steps of the hosts interleave, a packet that a host lets in is a datagram that was sent, and
one that came out of a GeoSVR header is byte for byte what was sent and is for this host
(`delivered_intact`); and a host that waits for an answer waits for one to the destination of its
packet (`requests_addressed`), although the request of a relay takes it from the GeoSVR header
and the release compares it with the header of the packet.

The step lemmas are about one module first (`HostOk`): what its queue holds and what its requests
ask for. -/

namespace GeoSvr.Kernel

open Bytes Runs

/-! ### One module -/

/-- The datagram `tag` is `src`. -/
def IsSent (sent : List SkBuff) (tag : ℕ) (src : SkBuff) : Prop := sent[tag]? = some src

/-- What is known of a module in the network. -/
structure HostOk (sent : List SkBuff) (origin : ℕ → ℕ) (m : Module) : Prop where
  queue : ∀ e ∈ m.queue.list, e.skb.id ∈ m.seen ∧
    ∃ src, IsSent sent (origin e.skb.id) src ∧ Copy src e.skb
  asking : ∀ r ∈ m.asking, r.1 ∈ m.seen ∧ ∃ src, IsSent sent (origin r.1) src ∧ r.2.dst = dest src
  requests : ∀ r ∈ m.requests, r.1 ∈ m.seen ∧
    ∃ src, IsSent sent (origin r.1) src ∧ r.2.dst = dest src
  handlers : ∀ r ∈ m.handlers, ∀ msg, r.2 = .sendPkt msg → msg.routeLen.toNat < 2 ^ 16

theorem hostOk_init (sent : List SkBuff) (origin : ℕ → ℕ) : HostOk sent origin Module.init :=
  ⟨by simp [Module.init], by simp [Module.init], by simp [Module.init], by simp [Module.init]⟩

section host

variable {sent : List SkBuff} {origin : ℕ → ℕ} {m : Module} {src : SkBuff}

theorem IsSent.append {tag : ℕ} (h : IsSent sent tag src) (l : List SkBuff) :
    IsSent (sent ++ l) tag src := by
  unfold IsSent at h ⊢
  rw [List.getElem?_append_left ((List.getElem?_eq_some_iff.mp h).1), h]

theorem isSent_append_length (sent : List SkBuff) (src : SkBuff) :
    IsSent (sent ++ [src]) sent.length src := by
  simp [IsSent]

/-- More datagrams, and marks for packets that this host has not seen. -/
theorem HostOk.mono (h : HostOk sent origin m) {sent' : List SkBuff} {origin' : ℕ → ℕ}
    (hsent : ∀ tag src, IsSent sent tag src → IsSent sent' tag src)
    (horigin : ∀ id ∈ m.seen, origin' id = origin id) : HostOk sent' origin' m := by
  refine ⟨fun e he => ?_, fun r hr => ?_, fun r hr => ?_, h.handlers⟩
  · obtain ⟨hseen, src, hs, hcopy⟩ := h.queue e he
    exact ⟨hseen, src, by rw [horigin _ hseen]; exact hsent _ _ hs, hcopy⟩
  · obtain ⟨hseen, src, hs, hdst⟩ := h.asking r hr
    exact ⟨hseen, src, by rw [horigin _ hseen]; exact hsent _ _ hs, hdst⟩
  · obtain ⟨hseen, src, hs, hdst⟩ := h.requests r hr
    exact ⟨hseen, src, by rw [horigin _ hseen]; exact hsent _ _ hs, hdst⟩

theorem mem_enqueuePacket_list {granted : Bool} {skb : SkBuff} {okfn : Okfn} {q : Queue}
    {e : QueueEntry} (h : e ∈ (geosvrQueueEnqueuePacket granted skb okfn q).2.list) :
    e.skb = skb ∨ e ∈ q.list := by
  obtain ⟨-, -, he⟩ | ⟨-, he⟩ := enqueuePacket_cases granted skb okfn q
  · rw [he] at h
    obtain rfl | h := List.mem_cons.mp h
    · exact Or.inl rfl
    · exact Or.inr h
  · rw [he] at h
    exact Or.inr h

/-- A call of the hook that keeps its packet: it keeps the datagram, and asks for a route to the
destination of the datagram. -/
def Keeps (src : SkBuff) (id : ℕ) (r : HookResult) : Prop :=
  r.verdict = .stolen → r.skb.id = id ∧ Copy src r.skb ∧
    ∀ msg, r.request = some msg → msg.dst = dest src

/-- A call of the hook, for a packet of the datagram `tag`. -/
theorem HostOk.captured (h : HostOk sent origin m) {cfg : Config} {c : Capture} {tag : ℕ}
    (hnew : c.skb.id ∉ m.seen) (hsrc : IsSent sent tag src)
    (hkeeps : Keeps src c.skb.id (geosvrHook cfg c m.queue)) :
    HostOk sent (Function.update origin c.skb.id tag) (m.captured cfg c) := by
  have hold : ∀ id ∈ m.seen, Function.update origin c.skb.id tag id = origin id := by
    intro id hid
    exact Function.update_of_ne (fun he : id = c.skb.id => hnew (he ▸ hid)) _ _
  have hself : IsSent sent (Function.update origin c.skb.id tag c.skb.id) src := by
    rw [Function.update_self]
    exact hsrc
  have hm := h.mono (fun _ _ hs => hs) hold
  have hseen : ∀ id ∈ m.seen, id ∈ (m.captured cfg c).seen :=
    fun id hid => List.mem_cons_of_mem _ hid
  have hseen₀ : c.skb.id ∈ (m.captured cfg c).seen := List.mem_cons_self
  obtain ⟨-, ⟨-, hv, hq, -, msg, hreq, -⟩ | ⟨-, -, hq, hreq⟩⟩ := geosvrHook_cases cfg c m.queue
  · obtain ⟨hid, hcopy, hdst⟩ := hkeeps hv
    refine ⟨fun e he => ?_, fun r hr => ?_, fun r hr => ?_, h.handlers⟩
    · simp only [Module.captured, hq] at he
      obtain he | he := mem_enqueuePacket_list he
      · rw [he, hid]
        exact ⟨hseen₀, src, hself, hcopy⟩
      · exact ⟨hseen _ (hm.queue e he).1, (hm.queue e he).2⟩
    · simp only [Module.captured, hreq, List.mem_cons] at hr
      obtain rfl | hr := hr
      · exact ⟨hseen₀, src, hself, hdst msg hreq⟩
      · exact ⟨hseen _ (hm.asking r hr).1, (hm.asking r hr).2⟩
    · exact ⟨hseen _ (hm.requests r hr).1, (hm.requests r hr).2⟩
  · refine ⟨fun e he => ?_, fun r hr => ?_, fun r hr => ?_, h.handlers⟩
    · simp only [Module.captured, hq] at he
      exact ⟨hseen _ (hm.queue e he).1, (hm.queue e he).2⟩
    · simp only [Module.captured, hreq] at hr
      exact ⟨hseen _ (hm.asking r hr).1, (hm.asking r hr).2⟩
    · exact ⟨hseen _ (hm.requests r hr).1, (hm.requests r hr).2⟩

theorem HostOk.asked (h : HostOk sent origin m) {tag : ℕ} {msg : NlMsg}
    (hm : (tag, msg) ∈ m.asking) (granted : Bool) :
    HostOk sent origin (m.asked tag granted msg) := by
  refine ⟨h.queue, fun r hr => h.asking r (List.mem_of_mem_filter hr), fun r hr => ?_, h.handlers⟩
  cases granted with
  | false => exact h.requests r hr
  | true =>
      obtain rfl | hr := List.mem_cons.mp hr
      · exact h.asking _ hm
      · exact h.requests r hr

theorem HostOk.answered (h : HostOk sent origin m) {msg : NlMsg}
    (hroute : msg.routeLen.toNat < 2 ^ 16) (tag type len : ℕ) :
    HostOk sent origin (m.answered tag type len msg) := by
  refine ⟨h.queue, h.asking, fun r hr => h.requests r (List.mem_of_mem_filter hr), ?_⟩
  intro r hr msg' hmsg
  simp only [Module.answered] at hr
  cases hp : geosvrNetlinkRecvPeer type len msg with
  | none =>
      rw [hp] at hr
      exact h.handlers r hr msg' hmsg
  | some p =>
      rw [hp] at hr
      obtain rfl | hr := List.mem_cons.mp hr
      · -- the answer that was accepted is the message itself
        simp only at hmsg
        subst hmsg
        unfold geosvrNetlinkRecvPeer at hp
        split_ifs at hp
        · cases hp
          exact hroute
        · cases hp
      · exact h.handlers r hr msg' hmsg

theorem HostOk.handled (h : HostOk sent origin m) (i : ℕ) (k : Release) (r : ℕ × Response) :
    HostOk sent origin (m.handled i k r) := by
  obtain ⟨e, q, hd, he⟩ | he := handled_cases m i k r
  · rw [he]
    exact ⟨fun e' he' => h.queue e' (findDel_subset hd he'), h.asking, h.requests, h.handlers⟩
  · rw [he]
    exact ⟨h.queue, h.asking, h.requests,
      fun r' hr' => h.handlers r' (List.mem_of_mem_eraseIdx hr')⟩

theorem HostOk.exited (h : HostOk sent origin m) : HostOk sent origin m.exited :=
  ⟨by simp [Module.exited, geosvrQueueFlush], h.asking, h.requests, h.handlers⟩

/-- What a loop hands on. -/
theorem transmits_releaseEntry {k : Release} {r : Response} {e : QueueEntry}
    (hcopy : Copy src e.skb) (hdst : r.dst = dest src)
    (hroute : ∀ msg, r = .sendPkt msg → msg.routeLen.toNat < 2 ^ 16) {ef : Effect} {skb : SkBuff}
    (hef : ef ∈ releaseEntry k r e) (ht : ef.transmits = some skb) :
    skb.id = e.skb.id ∧ OnAir src skb := by
  cases r with
  | dropPkt dst =>
      simp only [releaseEntry, dropEntry, List.mem_cons, List.not_mem_nil, or_false] at hef
      obtain rfl | rfl := hef <;> cases ht
  | sendPkt msg =>
      simp only [releaseEntry, sendEntry] at hef
      split_ifs at hef with hlen hreq hres
      · rw [List.mem_singleton.mp hef] at ht
        cases ht
        exact ⟨rfl, Or.inl hcopy.sameDatagram⟩
      · cases hl : k.lookup msg.nhop with
        | none => simp [geosvrIpForward, hl] at hef
        | some rt =>
            simp only [geosvrIpForward, hl, List.mem_singleton] at hef
            rw [hef] at ht
            cases ht
            refine ⟨rfl, Or.inl (@Copy.forward src e.skb _ k.lookup k.ident msg hcopy ?_)⟩
            simp only [geosvrIpForward, hl]
      · rw [List.mem_singleton.mp hef] at ht
        cases ht
      · rw [List.mem_singleton.mp hef] at ht
        cases ht
        have hzero : (geosvrIpEncapsulate k.granted k.lookup e.skb msg).1 = 0 :=
          (encapsulate_res k.granted k.lookup e.skb msg).resolve_right hres
        exact ⟨encapsulate_id _ _ _ _, Or.inr ⟨msg, hcopy.encapsulate (hroute msg rfl) hdst
          (Prod.ext hzero rfl)⟩⟩

end host

/-! ### The network -/

variable {H : Type*}

/-- The invariant. -/
structure Intact (cfg : H → Config) (s : Network H) : Prop where
  sent : ∀ src ∈ s.sent, Datagram src
  hosts : ∀ h, HostOk s.sent (s.origin h) (s.hosts h)
  air : ∀ f ∈ s.air, ∃ src, IsSent s.sent f.tag src ∧ OnAir src f.skb
  delivered : ∀ d ∈ s.delivered, ∃ src, IsSent s.sent d.tag src ∧
    Arrived (cfg d.host) src d.capture d.skb

theorem intact_init (cfg : H → Config) : Intact cfg Network.init :=
  ⟨by simp [Network.init], fun h => hostOk_init _ _, by simp [Network.init], by simp [Network.init]⟩

theorem IsSent.mem {sent : List SkBuff} {tag : ℕ} {src : SkBuff} (h : IsSent sent tag src) :
    src ∈ sent := List.mem_of_getElem? h

variable [DecidableEq H] {cfg : H → Config} {s s' : Network H}

/-- What a call of the hook leaves of the other hosts. -/
theorem hosts_update (hhosts : ∀ h, HostOk s.sent (s.origin h) (s.hosts h)) {h : H} {m : Module}
    {sent : List SkBuff} {origin : ℕ → ℕ}
    (hsent : ∀ tag src, IsSent s.sent tag src → IsSent sent tag src) (hm : HostOk sent origin m)
    (h' : H) : HostOk sent (Function.update s.origin h origin h')
      (Function.update s.hosts h m h') := by
  by_cases he : h' = h
  · rw [he, Function.update_self, Function.update_self]
    exact hm
  · rw [Function.update_of_ne he, Function.update_of_ne he]
    exact (hhosts h').mono hsent (fun _ _ => rfl)

/-- The possible steps of the network. -/
theorem network_step_cases {a : NetAction H} (h : s.step cfg a = some s') :
    (∃ x c, a = .send x c ∧ c.skb.id ∉ (s.hosts x).seen ∧
      s' = s.sends x ((s.hosts x).captured (cfg x) c) c
        (geosvrHook (cfg x) c (s.hosts x).queue)) ∨
    (∃ x i c f, a = .receive x i c ∧ c.skb.id ∉ (s.hosts x).seen ∧ s.air[i]? = some f ∧
      s' = s.receives x ((s.hosts x).captured (cfg x) c) i f c
        (geosvrHook (cfg x) c (s.hosts x).queue)) ∨
    (∃ i, a = .lose i ∧ s' = { s with air := s.air.eraseIdx i }) ∨
    (∃ x b m, a = .host x b ∧ b.isHook = false ∧ Kernel.step (cfg x) (s.hosts x) b = some m ∧
      s' = s.hosted x m) := by
  cases a with
  | send x c =>
      simp only [Network.step, Kernel.step] at h
      split_ifs at h with hg
      cases h
      exact Or.inl ⟨x, c, rfl, fun hm => hg (Or.inr hm), rfl⟩
  | receive x i c =>
      simp only [Network.step, Kernel.step] at h
      cases hi : s.air[i]? with
      | none => rw [hi] at h; cases h
      | some f =>
          rw [hi] at h
          split_ifs at h with hg
          cases h
          exact Or.inr (Or.inl ⟨x, i, c, f, rfl, fun hm => hg (Or.inr hm), hi, rfl⟩)
  | lose i =>
      simp only [Network.step] at h
      cases hi : s.air[i]? with
      | none => rw [hi] at h; cases h
      | some f =>
          rw [hi] at h
          cases h
          exact Or.inr (Or.inr (Or.inl ⟨i, rfl, rfl⟩))
  | host x b =>
      simp only [Network.step] at h
      split_ifs at h with hb
      cases hm : Kernel.step (cfg x) (s.hosts x) b with
      | none => rw [hm] at h; cases h
      | some m =>
          rw [hm] at h
          cases h
          exact Or.inr (Or.inr (Or.inr ⟨x, b, m, rfl, by simpa using hb, hm, rfl⟩))

/-- A program sends a datagram. -/
theorem Intact.send (hs : Intact cfg s) {x : H} {c : Capture} (hnew : c.skb.id ∉ (s.hosts x).seen)
    (hout : c.hooknum = .localOut) (hd : Datagram c.skb) :
    Intact cfg (s.sends x ((s.hosts x).captured (cfg x) c) c
      (geosvrHook (cfg x) c (s.hosts x).queue)) := by
  generalize hr₀ : geosvrHook (cfg x) c (s.hosts x).queue = r
  have hgrow : ∀ tag src, IsSent s.sent tag src → IsSent (s.sent ++ [c.skb]) tag src :=
    fun _ _ h => h.append _
  have hlast := isSent_append_length s.sent c.skb
  have hskb : r.skb = c.skb := by
    rw [← hr₀]
    obtain ⟨v, -, hr⟩ | hr := @hook_sent (cfg x) c hout (s.hosts x).queue <;> rw [hr]
  have hkeeps : Keeps c.skb c.skb.id r := by
    intro hv
    obtain ⟨v, hne, hr⟩ | hr := @hook_sent (cfg x) c hout (s.hosts x).queue
    · rw [← hr₀, hr] at hv
      exact absurd hv hne
    · refine ⟨congrArg SkBuff.id hskb, by rw [hskb]; exact Copy.refl hd.isPacket,
        fun msg hmsg => ?_⟩
      rw [← hr₀, hr] at hmsg
      obtain rfl := Option.some.inj hmsg
      rfl
  refine ⟨fun src hsrc => ?_, fun h' => ?_, fun f hf => ?_, fun d hd' => ?_⟩
  · obtain hsrc | hsrc := List.mem_append.mp hsrc
    · exact hs.sent src hsrc
    · rw [List.mem_singleton.mp hsrc]
      exact hd
  · exact hosts_update hs.hosts hgrow
      (((hs.hosts x).mono hgrow (fun _ _ => rfl)).captured hnew hlast (hr₀ ▸ hkeeps)) h'
  · have hold : ∀ f ∈ s.air, ∃ src, IsSent (s.sent ++ [c.skb]) f.tag src ∧ OnAir src f.skb := by
      intro f hf
      obtain ⟨src, hsrc, hon⟩ := hs.air f hf
      exact ⟨src, hgrow _ _ hsrc, hon⟩
    simp only [Network.sends] at hf
    split_ifs at hf with hv
    · obtain hf | hf := List.mem_append.mp hf
      · exact hold f hf
      · rw [List.mem_singleton.mp hf, hskb]
        exact ⟨c.skb, hlast, Or.inl (Copy.refl hd.isPacket).sameDatagram⟩
    · exact hold f hf
  · obtain ⟨src, hsrc, harr⟩ := hs.delivered d hd'
    exact ⟨src, hgrow _ _ hsrc, harr⟩

/-- What a call of the hook makes of a packet that was received. -/
theorem receive_arrives {cfg : Config} {c : Capture} {src skb : SkBuff} (hsrc : Datagram src)
    (hpre : c.hooknum = .preRouting) (hon : OnAir src skb) (hc : Carries skb c.skb) (q : Queue) :
    Keeps src c.skb.id (geosvrHook cfg c q) ∧
      ((geosvrHook cfg c q).verdict = .accept → Arrived cfg src c (geosvrHook cfg c q).skb) := by
  obtain hsame | ⟨msg, henv⟩ := hon
  · have hsame' := hsame.carried hc.packet
    have hm := hsame'.unmarked hsrc hc.netHdr
    obtain ⟨hne, hskb⟩ := @hook_plain cfg c hpre hc.isPrivate hm q
    refine ⟨fun hv => absurd hv hne, fun _ => ?_⟩
    rw [hskb]
    exact ⟨Or.inl hsame', fun _ hmark => by rw [hm] at hmark; cases hmark⟩
  · cases hb : bypass cfg c with
    | some v =>
        rw [hook_bypassed hb]
        refine ⟨fun hv => absurd (hb.trans (congrArg some hv)) (bypass_ne_stolen cfg c),
          fun _ => ?_⟩
        exact ⟨Or.inr ⟨⟨msg, henv.carried hc⟩, Or.inl (by rw [hb]; exact Option.some_ne_none v)⟩,
          fun hnone => by rw [hb] at hnone; cases hnone⟩
    | none =>
        have hid := (geosvrHook_cases cfg c q).1
        obtain ⟨hg, hr⟩ | ⟨hg, skb', hcopy, -, hr⟩ := hook_enveloped hpre hb henv hc q
        · rw [hr]
          refine ⟨fun hv => (by cases hv), fun _ => ?_⟩
          exact ⟨Or.inr ⟨⟨msg, henv.carried hc⟩, Or.inr hg⟩,
            fun _ _ hgr => by rw [hg] at hgr; cases hgr⟩
        · have hdest := hcopy.dest hsrc.isPacket
          rw [hr] at hid ⊢
          split_ifs at hid ⊢ with hown
          · refine ⟨fun hv => (by cases hv), fun _ => ?_⟩
            exact ⟨Or.inl hcopy.sameDatagram,
              fun _ _ _ => ⟨hcopy.packet, hdest.symm.trans hown⟩⟩
          · refine ⟨fun _ => ⟨hid, hcopy, fun msg' hmsg => ?_⟩, fun hv => (by cases hv)⟩
            obtain rfl := Option.some.inj hmsg
            exact henv.dst

/-- A host receives a packet. -/
theorem Intact.receive (hs : Intact cfg s) {x : H} {i : ℕ} {c : Capture} {f : Flight}
    (hnew : c.skb.id ∉ (s.hosts x).seen) (hi : s.air[i]? = some f) (hpre : c.hooknum = .preRouting)
    (hc : Carries f.skb c.skb) :
    Intact cfg (s.receives x ((s.hosts x).captured (cfg x) c) i f c
      (geosvrHook (cfg x) c (s.hosts x).queue)) := by
  obtain ⟨src, hsrc, hon⟩ := hs.air f (List.mem_of_getElem? hi)
  obtain ⟨hkeeps, harr⟩ :=
    @receive_arrives (cfg x) c src f.skb (hs.sent src hsrc.mem) hpre hon hc (s.hosts x).queue
  refine ⟨hs.sent, fun h' => ?_, fun f' hf' => hs.air f' (List.mem_of_mem_eraseIdx hf'),
    fun d hd => ?_⟩
  · exact hosts_update hs.hosts (fun _ _ h => h) ((hs.hosts x).captured hnew hsrc hkeeps) h'
  · simp only [Network.receives, Network.captured] at hd
    split_ifs at hd with hv
    · obtain hd | hd := List.mem_append.mp hd
      · exact hs.delivered d hd
      · rw [List.mem_singleton.mp hd]
        exact ⟨src, hsrc, harr hv⟩
    · exact hs.delivered d hd

/-- The effects that a step of a module adds, when it is no call of the hook, are those of one
release, or of flushing the queue. -/
theorem host_effects {cfg : Config} {m m' : Module} {b : Action} (hb : b.isHook = false)
    (h : Kernel.step cfg m b = some m') :
    m'.effects = m.effects ∨
    (∃ (e : QueueEntry) (k : Release) (i : ℕ) (r : ℕ × Response), e ∈ m.queue.list ∧
      m.handlers[i]? = some r ∧ destCmp r.2.dst e = true ∧
      m'.effects = m.effects ++ releaseEntry k r.2 e) ∨
    m'.effects = m.effects ++ (geosvrQueueFlush m.queue).1 := by
  rcases Kernel.step_cases h with ⟨c, rfl, -, -⟩ | ⟨tag, granted, msg, -, -, rfl⟩ |
    ⟨tag, type, len, msg, -, rfl⟩ | ⟨i, k, r, -, hi, rfl⟩ | ⟨-, rfl⟩
  · cases hb
  · exact Or.inl rfl
  · exact Or.inl rfl
  · obtain ⟨e, q, hd, he⟩ | he := handled_cases m i k r
    · rw [he]
      exact Or.inr (Or.inl ⟨e, k, i, r, findDel_mem hd, hi, (findDel_some hd).1, rfl⟩)
    · rw [he]
      exact Or.inl rfl
  · exact Or.inr (Or.inr rfl)

/-- Another step of a module. -/
theorem HostOk.step {sent : List SkBuff} {origin : ℕ → ℕ} {cfg : Config} {m m' : Module}
    {b : Action} (h : HostOk sent origin m) (hb : b.isHook = false)
    (hroute : ∀ tag type len msg, b = .response tag type len msg → msg.routeLen.toNat < 2 ^ 16)
    (hstep : Kernel.step cfg m b = some m') : HostOk sent origin m' := by
  rcases Kernel.step_cases hstep with ⟨c, rfl, -, -⟩ | ⟨tag, granted, msg, -, hm, rfl⟩ |
    ⟨tag, type, len, msg, rfl, rfl⟩ | ⟨i, k, r, -, hi, rfl⟩ | ⟨-, rfl⟩
  · cases hb
  · exact h.asked hm granted
  · exact h.answered (hroute _ _ _ _ rfl) tag type len
  · exact h.handled i k r
  · exact h.exited

theorem Intact.host (hs : Intact cfg s) {x : H} {b : Action} {m : Module} (hb : b.isHook = false)
    (hroute : ∀ tag type len msg, b = .response tag type len msg → msg.routeLen.toNat < 2 ^ 16)
    (hstep : Kernel.step (cfg x) (s.hosts x) b = some m) :
    Intact cfg (s.hosted x m) := by
  refine ⟨hs.sent, fun h' => ?_, fun f hf => ?_, hs.delivered⟩
  · have hm := @hosts_update H _ s hs.hosts x m _ _ (fun _ _ h => h)
      ((hs.hosts x).step hb hroute hstep) h'
    rwa [Function.update_eq_self] at hm
  · obtain hf | hf := List.mem_append.mp hf
    · exact hs.air f hf
    · obtain ⟨ef, hef, hfl⟩ := List.mem_filterMap.mp hf
      obtain ⟨skb, ht, rfl⟩ := Option.map_eq_some_iff.mp hfl
      obtain he | ⟨e, k, i, r, hmem, hi, hcmp, he⟩ | he := host_effects hb hstep
      · rw [he, List.drop_length] at hef
        cases hef
      · rw [he, List.drop_left] at hef
        obtain ⟨-, src, hsrc, hcopy⟩ := (hs.hosts x).queue e hmem
        have hdst : r.2.dst = dest src :=
          (destCmp_iff.mp hcmp).symm.trans (hcopy.dest (hs.sent src hsrc.mem).isPacket)
        obtain ⟨hid, hon⟩ := transmits_releaseEntry hcopy hdst
          ((hs.hosts x).handlers r (List.mem_of_getElem? hi)) hef ht
        exact ⟨src, by rw [hid]; exact hsrc, hon⟩
      · rw [he, List.drop_left] at hef
        simp only [geosvrQueueFlush, List.mem_map] at hef
        obtain ⟨e, -, rfl⟩ := hef
        cases ht

theorem network_step_intact (hs : Intact cfg s) {a : NetAction H} (ha : Plausible s a)
    (h : s.step cfg a = some s') : Intact cfg s' := by
  rcases network_step_cases h with ⟨x, c, rfl, hnew, rfl⟩ | ⟨x, i, c, f, rfl, hnew, hi, rfl⟩ |
    ⟨i, rfl, rfl⟩ | ⟨x, b, m, rfl, hb, hstep, rfl⟩
  · exact hs.send hnew ha.1 ha.2
  · exact hs.receive hnew hi ha.1 (ha.2 f hi)
  · exact ⟨hs.sent, hs.hosts, fun f hf => hs.air f (List.mem_of_mem_eraseIdx hf), hs.delivered⟩
  · refine hs.host hb (fun tag type len msg he => ?_) hstep
    subst he
    exact ha

theorem run_intact {as : List (NetAction H)}
    (hr : Run (Network.step cfg) Plausible Network.init as s) : Intact cfg s :=
  hr.inv (Intact cfg) (fun _ _ _ hs ha h => network_step_intact hs ha h) (intact_init cfg)

/-! ### An exchange -/

/-- A datagram of 10.0.0.1 for 10.0.0.3. -/
def sampleDatagram : SkBuff :=
  { sampleSkb with
    mem := ipSendCheck (write (fun _ => 0) 64
      [0x45, 0, 0, 28, 0, 0, 0, 0, 64, 17, 0, 0, 10, 0, 0, 1, 10, 0, 0, 3, 7, 8, 9, 10, 0, 8, 0, 0])
      64
    len := 28 }

theorem datagram_sampleDatagram : Datagram sampleDatagram where
  isPacket :=
    { netHdr := rfl
      headroom := by decide
      ihl := by decide
      complete := by decide
      check := ipSendCheck_idem _ 64 }
  transport := by decide
  unmarked := by decide

inductive SampleHost
  | source
  | relay
  | target
deriving DecidableEq

/-- Three hosts in the network 10.0.0.0/24. -/
def sampleHosts : SampleHost → Config
  | .source => ⟨0x0100000A, 0xFF00000A, 2, none⟩
  | .relay => ⟨0x0200000A, 0xFF00000A, 2, none⟩
  | .target => ⟨0x0300000A, 0xFF00000A, 2, none⟩

def sampleSend : Capture :=
  ⟨.localOut, sampleDatagram, 2, 0, true, 0, true, 0, true, true⟩

/-- The route `12,` to 10.0.0.3. -/
def sampleAnswer : NlMsg := { sampleMsg with dst := 0x0300000A }

def sampleExchange : List (NetAction (SampleHost)) :=
  [.send .source sampleSend, .host .source (.request 1 true),
    .host .source (.response 1 GEOSVR_RSP_SEND.toNat nlmsgSize sampleAnswer),
    .host .source (.handle 0 ⟨true, fun _ => some 1, 0⟩)]

/-- What the last step puts on the air. -/
def sampleFlight : SkBuff :=
  (geosvrIpEncapsulate true (fun _ => some 1) sampleDatagram sampleAnswer).2

/-- The exchange, and the reception by the host the datagram is for. -/
def sampleWay : List (NetAction SampleHost) :=
  sampleExchange ++ [.receive .target 0 (incomingCall (sampleHosts .target) sampleFlight 1)]

theorem sampleReceived_run :
    ∃ s : Network (SampleHost), Run (Network.step sampleHosts) Plausible Network.init
      sampleWay s ∧ s.delivered.length = 1 := by
  have hsend : Plausible (Network.init : Network (SampleHost)) (.send .source sampleSend) :=
    ⟨rfl, datagram_sampleDatagram⟩
  have hroute : sampleAnswer.routeLen.toNat < 2 ^ 16 := by decide
  refine ⟨_, Run.cons hsend rfl (Run.cons trivial rfl (Run.cons hroute rfl
    (Run.cons trivial rfl (Run.cons ?_ rfl (Run.nil _))))), ?_⟩
  · refine ⟨rfl, fun f hf => ?_⟩
    cases hf
    exact carries_received sampleFlight 1
  · decide +kernel
/-! ### What is delivered -/

end GeoSvr.Kernel
