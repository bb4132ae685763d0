import OxiGate.Delivery

/-! One request in two versions of HTTP. The handler copies the client's version into the
requests it sends, and does nothing else with it: the two executions agree until one of them
sends something. -/
namespace OxiGate
namespace Proxy

open RustText Net Http Lb BodyLimit Interaction

def Parts.over (parts : Parts) (v : Version) : Parts := { parts with version := v }

def Request.over (req : Request) (v : Version) : Request := { req with parts := req.parts.over v }

def Forwarding.over (fw : Forwarding) (v : Version) : Forwarding := { fw with parts := fw.parts.over v }

def ProxyAttempt.over (a : ProxyAttempt) (v : Version) : ProxyAttempt := { a with parts := a.parts.over v }

/-- The upstreams speak HTTP/1.1 only: the client fails a request of version 2. -/
def Http1Only (m : Moment) : Prop :=
  ∀ u out, out.version = .http2 → ∃ e, m.reply u out = .error e

/-- The same status after the same attempts. -/
def SameOutcome (r r' : Response × Trace) : Prop :=
  r.1.status = r'.1.status ∧ attempted r.2 = attempted r'.2

def Op.Sends (op : Op) : Prop := op.sent?.isSome = true

section Versions

variable [HttpCrate]

theorem buildRequest_over (a : ProxyAttempt) (v : Version) :
    buildRequest (a.over v) = (buildRequest a).map fun out => { out with version := v } := by
  have hheaders : requestHeaders (a.over v) = requestHeaders a := rfl
  simp only [buildRequest,hheaders]
  show ((buildTargetUri a.upstream.address a.path a.query).mapError _ >>= _) = _
  cases buildTargetUri a.upstream.address a.path a.query with
  | error e => rfl
  | ok uri =>
    cases requestHeaders a with
    | error e => rfl
    | ok headers => rfl

theorem buildRequest_version {a : ProxyAttempt} {out : OutRequest} (h : buildRequest a = .ok out) :
    out.version = a.parts.version := by
  obtain ⟨uri,-,h⟩ := ok_of_bind h
  obtain ⟨headers,-,h⟩ := ok_of_bind h
  cases h
  rfl

theorem attemptProxy_agree (a : ProxyAttempt) (v : Version) :
    AgreeUntil Op.Sends (attemptProxy a) (attemptProxy (a.over v)) := by
  unfold attemptProxy
  rw [buildRequest_over]
  cases buildRequest a with
  | error e => exact .pure _
  | ok out => exact .stopped rfl

theorem countedAttempt_agree (fw : Forwarding) (v : Version) (u : UpstreamRef) :
    AgreeUntil Op.Sends (countedAttempt fw u) (countedAttempt (fw.over v) u) := by
  refine .call fun _ => .call fun _ => ?_
  exact (attemptProxy_agree (plainAttempt fw u) v).bind fun _ => .refl _

/-- The loop goes on alike in both versions, an iteration at a time. -/
theorem attemptLoop_agree (fw : Forwarding) (v : Version) (left attempt : ℕ) (tried : List String)
    (lastError : Option String) :
    AgreeUntil Op.Sends (attemptLoop fw left attempt tried lastError)
      (attemptLoop (fw.over v) left attempt tried lastError) := by
  induction left generalizing attempt tried lastError with
  | zero => exact .refl _
  | succ left ih =>
    have hselect : AgreeUntil Op.Sends (selectUpstream fw attempt tried)
      (selectUpstream (fw.over v) attempt tried) := .refl _
    refine hselect.bind fun upstream => ?_
    cases upstream with
    | none => exact .refl _
    | some u =>
      refine (countedAttempt_agree fw v u).bind fun result => ?_
      cases result with
      | ok response => exact .refl _
      | error e => exact .call fun _ => ih _ _ _

theorem proxyPlain_agree (ctx : ProxyContext) (req : Request) (remoteAddr : SocketAddr) (v : Version)
    (lb start : ℕ) :
    AgreeUntil Op.Sends (proxyPlain ctx req remoteAddr lb start)
      (proxyPlain ctx (req.over v) remoteAddr lb start) := by
  have hbody : (req.over v).body = req.body := rfl
  unfold proxyPlain
  refine (AgreeUntil.refl (perform .now)).bind fun now => (AgreeUntil.refl (perform .collectBody)).bind fun _ => ?_
  rw [hbody]
  cases collectLimited req.body ctx.maxBodyBytes ctx.idleTimeout now with
  | ok body => exact attemptLoop_agree (forwarding ctx req remoteAddr lb start body) v _ _ _ _
  | error e =>
    cases e with
    | tooLarge => exact AgreeUntil.refl (reject req.parts.method 413 "Payload Too Large")
    | idleTimeout => exact AgreeUntil.refl (reject req.parts.method 408 "Request Body Idle Timeout")
    | other e => exact .call fun _ => .pure _

theorem proxyUpgrade_agree (ctx : ProxyContext) (req : Request) (remoteAddr : SocketAddr) (v : Version)
    (lb start : ℕ) :
    AgreeUntil Op.Sends (proxyUpgrade ctx req remoteAddr lb start)
      (proxyUpgrade ctx (req.over v) remoteAddr lb start) := by
  refine .call fun upstream => ?_
  cases upstream with
  | none => exact .refl _
  | some u =>
    refine .call fun _ => ?_
    exact (attemptProxy_agree (upgradeAttempt ctx req remoteAddr u) v).bind fun _ => .refl _

theorem proxyRequest_agree (ctx : ProxyContext) (req : Request) (remoteAddr : SocketAddr) (v : Version) :
    AgreeUntil Op.Sends (proxyRequest ctx req remoteAddr) (proxyRequest ctx (req.over v) remoteAddr) := by
  have hpath : (req.over v).parts.uri = req.parts.uri := rfl
  have hkind : isUpgradeRequest (req.over v).parts = isUpgradeRequest req.parts := rfl
  unfold proxyRequest
  rw [hpath,hkind]
  refine (AgreeUntil.refl (perform .now)).bind fun start =>
    (AgreeUntil.refl (acquirePermit ctx)).bind fun permitted => ?_
  cases permitted with
  | false => exact AgreeUntil.refl (reject req.parts.method 503 "Too Many Concurrent Requests")
  | true =>
    cases aclAllows ctx remoteAddr.ip with
    | false => exact AgreeUntil.refl (reject req.parts.method 403 "Forbidden")
    | true =>
      refine (AgreeUntil.refl (checkRate ctx remoteAddr.ip)).bind fun withinRate => ?_
      cases withinRate with
      | false => exact AgreeUntil.refl (reject req.parts.method 429 "Too Many Requests")
      | true =>
        cases ctx.router.resolve req.parts.uri.path with
        | none => exact .refl _
        | some lb =>
          cases isUpgradeRequest req.parts with
          | true => exact proxyUpgrade_agree ctx req remoteAddr v lb start
          | false => exact proxyPlain_agree ctx req remoteAddr v lb start

/-- The request passes the gates, its body can be read at the given time, and a request can be
built for this upstream of the pool it is routed to. -/
structure DeliverableTo (ctx : ProxyContext) (req : Request) (remoteAddr : SocketAddr)
    (pools : ℕ → LoadBalancer) (now : ℕ) (u : UpstreamRef) : Prop where
  allowed : aclAllows ctx remoteAddr.ip = true
  routed : ctx.router.resolve req.parts.uri.path = some u.lb
  inPool : InPool (pools u.lb) u
  body : isUpgradeRequest req.parts = false →
    collectLimited req.body ctx.maxBodyBytes ctx.idleTimeout now = .ok req.body.data
  built : ∃ out, buildRequest (proxyAttempt ctx req.parts remoteAddr
    (if isUpgradeRequest req.parts then [] else req.body.data) (isUpgradeRequest req.parts) u) = .ok out

def Deliverable (ctx : ProxyContext) (req : Request) (remoteAddr : SocketAddr)
    (pools : ℕ → LoadBalancer) : Prop :=
  ∃ now u, DeliverableTo ctx req remoteAddr pools now u

section Delivered

variable {ctx : ProxyContext} {req : Request} {remoteAddr : SocketAddr} {pools : ℕ → LoadBalancer}
  {now : ℕ} {u : UpstreamRef}

theorem DeliverableTo.over (h : DeliverableTo ctx req remoteAddr pools now u) (v : Version) :
    DeliverableTo ctx (req.over v) remoteAddr pools now u := by
  obtain ⟨hallowed,hrouted,hpool,hbody,out,hbuild⟩ := h
  refine ⟨hallowed,hrouted,hpool,hbody,{ out with version := v },?_⟩
  have hover := buildRequest_over (proxyAttempt ctx req.parts remoteAddr
    (if isUpgradeRequest req.parts then [] else req.body.data) (isUpgradeRequest req.parts) u) v
  rw [hbuild] at hover
  exact hover

theorem deliverable_of_sent {moments : ℕ → Moment}
    (hpools : ∀ n k, (pools k).SamePool ((moments n).balancers k)) {out : OutRequest}
    (hsent : (u,out) ∈ sent (run answer (proxyRequest ctx req remoteAddr) moments).2) :
    Deliverable ctx req remoteAddr pools := by
  have hbuilt := (proxyRequest_built ctx req remoteAddr).run moments u out hsent
  have hinPool : ∀ {lb : ℕ}, (u.lb = lb ∧ ∃ e ∈ course (run answer (proxyRequest ctx req remoteAddr) moments).2,
      found e.2 e.1 = some u ∧ HealthyAt e.2 u) → u.lb = lb ∧ InPool (pools u.lb) u := by
    rintro lb ⟨hlb,e,he,-,hhealthy⟩
    obtain ⟨n,hn⟩ := mem_run (mem_course.mp he).1
    exact ⟨hlb,hhealthy.inPool (hn ▸ hpools n u.lb)⟩
  rw [← sent_course] at hsent
  rcases (proxyRequest_paths ctx req remoteAddr).run moments with
    hnone | ⟨lb,hlb,hacl,⟨hupgrade,hcourse⟩ | ⟨hplain,⟨now,hbody⟩,start,hcourse⟩⟩
  · rw [hnone] at hsent
    cases hsent
  · obtain ⟨rfl,hpool⟩ := hinPool (hcourse.healthy u (hcourse.sent.2 u out hsent).1)
    exact ⟨0,u,hacl,hlb,hpool,by simp [hupgrade],out,hbuilt⟩
  · have hattempted := hcourse.sent_sublist.subset (List.mem_map_of_mem hsent)
    obtain ⟨rfl,hpool⟩ := hinPool (hcourse.healthy u hattempted)
    exact ⟨now,u,hacl,hlb,hpool,fun _ => hbody,out,hbuilt⟩

/-- One upstream of each pool is healthy, and answers what is not of version 2. -/
def speaking (pools : ℕ → LoadBalancer) (now place : ℕ) : Moment :=
  { silent pools now place with
    reply := fun _ out => if out.version = .http2 then .error .timedOut else .ok (bare 200) }

omit [HttpCrate] in
theorem speaking_http1Only (pools : ℕ → LoadBalancer) (now place : ℕ) :
    Http1Only (speaking pools now place) := by
  intro u out hversion
  exact ⟨.timedOut,if_pos hversion⟩

omit [HttpCrate] in
theorem speaking_answers {place : ℕ} {v : UpstreamRef} {out : OutRequest} {r : UpstreamResponse}
    (h : (speaking pools now place).reply v out = .ok r) : out.version ≠ .http2 ∧ r = bare 200 := by
  by_cases hversion : out.version = .http2
  · rw [(speaking_http1Only pools now place v out hversion).choose_spec] at h
    cases h
  · have hreply : (speaking pools now place).reply v out = .ok (bare 200) := if_neg hversion
    rw [hreply] at h
    cases h
    exact ⟨hversion,rfl⟩

omit [HttpCrate] in
theorem speaking_refuses {place : ℕ} {v : UpstreamRef} {out : OutRequest} {e : SendError}
    (h : (speaking pools now place).reply v out = .error e) : out.version = .http2 := by
  by_contra hversion
  have hreply : (speaking pools now place).reply v out = .ok (bare 200) := if_neg hversion
  rw [hreply] at h
  cases h

omit [HttpCrate] in
theorem chosen_speaking {fw : Forwarding} (now attempt : ℕ) (hlb : u.lb = fw.lb)
    (hpool : InPool (pools fw.lb) u) : chosen fw attempt [] (speaking pools now u.place) = some u := by
  have hchosen : chosen fw attempt [] (silent pools now u.place) = some u :=
    chosen_silent hlb hpool (by simp)
  exact hchosen

theorem Course.status_speaking {fw : Forwarding} {left : ℕ} {tr : Trace} {resp : Response} {out : OutRequest}
    (h : Course fw (left+1) 0 [] tr resp) (hat : ∀ e ∈ tr, e.2 = speaking pools now u.place)
    (hlb : u.lb = fw.lb) (hpool : InPool (pools fw.lb) u) (hbuild : buildRequest (plainAttempt fw u) = .ok out) :
    resp.status = if fw.parts.version = .http2 then 502 else 200 := by
  have hchosen := chosen_speaking now 0 hlb hpool
  have hversion : ∀ {v : UpstreamRef} {out' : OutRequest},
      buildRequest (plainAttempt fw v) = .ok out' → out'.version = fw.parts.version :=
    fun hbuilt => buildRequest_version hbuilt
  by_cases hold : fw.parts.version = .http2
  · rw [if_pos hold]
    rcases h.verdict with ⟨front,v,out',timeout,m,r,htr,-,hreply,-⟩ | ⟨-,rfl,-⟩
    · have hm : m = speaking pools now u.place := hat (.request v out' timeout,m) (by simp [htr])
      have hbuilt := h.built v out' (by simp [htr])
      rw [hm] at hreply
      exact absurd ((hversion hbuilt).trans hold) (speaking_answers hreply).1
    · rfl
  · rw [if_neg hold]
    cases h with
    | @nobody _ _ _ m hnone =>
      have hm : m = speaking pools now u.place := hat _ List.mem_cons_self
      rw [hm,hchosen] at hnone
      cases hnone
    | @again _ _ _ m m' v exchange tr _ hsome hfailed hrest =>
      have hm : m = speaking pools now u.place := hat _ List.mem_cons_self
      rw [hm,hchosen] at hsome
      cases hsome
      cases hfailed with
      | unbuilt hno =>
        rw [hbuild] at hno
        cases hno
      | @refused out' mr e hbuilt hreply =>
        have hmr : mr = speaking pools now u.place := hat (.request u out' fw.ctx.requestTimeout,mr) (by simp)
        rw [hmr] at hreply
        exact absurd ((hversion hbuilt).symm.trans (speaking_refuses hreply)) hold
    | @answered _ _ _ m m' mr v out' r hsome hbuilt hreply =>
      have hmr : mr = speaking pools now u.place := hat (.request v out' fw.ctx.requestTimeout,mr) (by simp)
      rw [hmr] at hreply
      rw [(speaking_answers hreply).2]
      rfl

theorem UpgradeCourse.status_speaking {tr : Trace} {resp : Response} {out : OutRequest}
    (h : UpgradeCourse ctx req remoteAddr u.lb tr resp) (hat : ∀ e ∈ tr, e.2 = speaking pools now u.place)
    (hpool : InPool (pools u.lb) u) (hbuild : buildRequest (upgradeAttempt ctx req remoteAddr u) = .ok out) :
    resp.status = if req.parts.version = .http2 then 502 else 200 := by
  have hchosen : answer (speaking pools now u.place) (.select u.lb) = some u :=
    @chosen_speaking _ u (forwarding ctx req remoteAddr u.lb 0 []) now 1 rfl hpool
  cases h with
  | @nobody m hnone =>
    have hm : m = speaking pools now u.place := hat _ List.mem_cons_self
    rw [hm,hchosen] at hnone
    cases hnone
  | @unbuilt m m' v e hsome hno =>
    have hm : m = speaking pools now u.place := hat _ List.mem_cons_self
    rw [hm,hchosen] at hsome
    cases hsome
    rw [hbuild] at hno
    cases hno
  | @refused m m' mr v out' e hsome hbuilt hreply =>
    have hmr : mr = speaking pools now u.place := hat (.request v out' ctx.requestTimeout,mr) (by simp)
    rw [hmr] at hreply
    have hversion : req.parts.version = .http2 :=
      (buildRequest_version hbuilt).symm.trans (speaking_refuses hreply)
    rw [if_pos hversion]
    rfl
  | @answered m m' mr v out' r hsome hbuilt hreply =>
    have hmr : mr = speaking pools now u.place := hat (.request v out' ctx.requestTimeout,mr) (by simp)
    rw [hmr] at hreply
    obtain ⟨hversion,rfl⟩ := speaking_answers hreply
    have hold : req.parts.version ≠ .http2 := fun h => hversion ((buildRequest_version hbuilt).trans h)
    rw [if_neg hold]
    rfl

/-- While only the upstream the request can be sent to is healthy, the version decides the status. -/
theorem DeliverableTo.status (h : DeliverableTo ctx req remoteAddr pools now u) :
    (run answer (proxyRequest ctx req remoteAddr) fun _ => speaking pools now u.place).1.status =
      if req.parts.version = .http2 then 502 else 200 := by
  obtain ⟨hallowed,hrouted,hpool,hbody,out,hbuild⟩ := h
  generalize hm : speaking pools now u.place = m
  have hspeaking : ∀ {tr : Trace}, (∀ e ∈ tr, e.2 = m) → ∀ e ∈ course tr, e.2 = speaking pools now u.place := by
    intro tr hat e he
    exact (hat e (mem_course.mp he).1).trans hm.symm
  have hpath : May answer (if isUpgradeRequest req.parts then proxyUpgrade ctx req remoteAddr u.lb m.time
      else proxyPlain ctx req remoteAddr u.lb m.time) fun tr resp =>
        (∀ e ∈ tr, e.2 = m) ∧ resp.status = if req.parts.version = .http2 then 502 else 200 := by
    cases hupgrade : isUpgradeRequest req.parts with
    | true =>
      rw [hupgrade] at hbuild
      obtain ⟨tr,resp,hret,hat⟩ : May answer (proxyUpgrade ctx req remoteAddr u.lb m.time) fun tr _ =>
        ∀ e ∈ tr, e.2 = m := may_always _ m
      have hcourse := proxyUpgrade_course ctx req remoteAddr u.lb m.time tr resp hret
      exact ⟨tr,resp,hret,hat,hcourse.status_speaking (hspeaking hat) hpool hbuild⟩
    | false =>
      rw [hupgrade] at hbuild
      have htime : collectLimited req.body ctx.maxBodyBytes ctx.idleTimeout m.time = .ok req.body.data := by
        rw [← hm]
        exact hbody hupgrade
      obtain ⟨tr,resp,hret,hat⟩ : May answer (attemptLoop (forwarding ctx req remoteAddr u.lb m.time
        req.body.data) (maxAttempts ctx req.parts.method req.body.data) 0 [] none) fun tr _ =>
          ∀ e ∈ tr, e.2 = m := may_always _ m
      obtain ⟨left,hleft⟩ := Nat.exists_eq_succ_of_ne_zero
        (maxAttempts_pos ctx req.parts.method req.body.data).ne'
      have hcourse := attemptLoop_sat _ _ _ _ _ tr resp hret
      rw [hleft] at hcourse
      exact ⟨_,resp,returns_plain htime hret,by simpa using hat,
        hcourse.status_speaking (hspeaking hat) rfl hpool hbuild⟩
  obtain ⟨tr,resp,hret,hat,hstatus⟩ := hpath
  obtain ⟨before,hbefore,hall⟩ := returns_forward (hm ▸ rfl) (hm ▸ rfl) hallowed hrouted hret
  have hrun := run_always hall fun e he => (List.mem_append.mp he).elim (hbefore e) (hat e)
  rw [hrun]
  exact hstatus

theorem sameOutcome_of_undeliverable (h : ¬ Deliverable ctx req remoteAddr pools) {moments : ℕ → Moment}
    (hpools : ∀ n k, (pools k).SamePool ((moments n).balancers k)) (v : Version) :
    run answer (proxyRequest ctx (req.over v) remoteAddr) moments =
      run answer (proxyRequest ctx req remoteAddr) moments := by
  apply (proxyRequest_agree ctx req remoteAddr v).run_eq
  intro e he hsends
  obtain ⟨⟨u,out⟩,hsent⟩ := Option.isSome_iff_exists.mp hsends
  exact h (deliverable_of_sent hpools (List.mem_filterMap.mpr ⟨e,he,hsent⟩))

end Delivered

/-- The version makes no difference exactly when the request cannot be delivered. -/
theorem version_invisible_iff (ctx : ProxyContext) (req : Request) (remoteAddr : SocketAddr)
    (pools : ℕ → LoadBalancer) :
    (∀ moments : ℕ → Moment, (∀ n k, (pools k).SamePool ((moments n).balancers k)) →
      (∀ n, Http1Only (moments n)) →
      SameOutcome (run answer (proxyRequest ctx (req.over .http11) remoteAddr) moments)
        (run answer (proxyRequest ctx (req.over .http2) remoteAddr) moments)) ↔
    ¬ Deliverable ctx req remoteAddr pools := by
  constructor
  · rintro hall ⟨now,u,h⟩
    have hsame := hall (fun _ => speaking pools now u.place) (fun _ k => samePool_onlyHealthy _ _)
      (fun _ => speaking_http1Only _ _ _)
    have hstatus : 200 = 502 := ((h.over .http11).status.symm.trans hsame.1).trans (h.over .http2).status
    exact absurd hstatus (by decide)
  · intro h moments hpools _
    rw [sameOutcome_of_undeliverable h hpools,sameOutcome_of_undeliverable h hpools]
    exact ⟨rfl,rfl⟩

end Versions

/-- A GET that the only upstream answers over HTTP/1.1 fails over HTTP/2. -/
theorem version_decides_status :
    let req := basicRequest "GET" [] []
    let pools := fun _ : ℕ => LoadBalancer.fromUpstreams [⟨"http://a",1⟩] .roundRobin
    let m := speaking pools 0 0
    (∀ k, (pools k).SamePool (m.balancers k)) ∧ Http1Only m ∧
      (run answer (@proxyRequest visibleAscii (basicContext 1) (req.over .http11) SocketAddr.unspecified)
        fun _ => m).1.status = 200 ∧
      (run answer (@proxyRequest visibleAscii (basicContext 1) (req.over .http2) SocketAddr.unspecified)
        fun _ => m).1.status = 502 :=
  ⟨fun _ => samePool_onlyHealthy _ _,speaking_http1Only _ _ _,by decide +kernel,by decide +kernel⟩

end Proxy
end OxiGate
