import OxiGate.UpgradePath

/-! How often a request is delivered, and with which body. -/
namespace OxiGate
namespace Proxy

open RustText Net Http Lb BodyLimit Interaction

/-- The upstream is one of the pool, healthy or not. -/
def InPool (lb : LoadBalancer) (u : UpstreamRef) : Prop :=
  ∃ rt, lb.upstreams[u.place]? = some rt ∧ rt.address = u.address

theorem inPool_iff {lb : LoadBalancer} {u : UpstreamRef} :
    InPool lb u ↔ (lb.upstreams.map fun rt => (rt.address,rt.weight))[u.place]?.map Prod.fst =
      some u.address := by
  simp [InPool,Option.map_map,Function.comp_def]

theorem InPool.of_samePool {lb lb' : LoadBalancer} {u : UpstreamRef} (hsame : lb.SamePool lb')
    (h : InPool lb' u) : InPool lb u := by
  rw [inPool_iff] at h ⊢
  rw [hsame.1]
  exact h

theorem HealthyAt.inPool {pool : LoadBalancer} {m : Moment} {u : UpstreamRef} (h : HealthyAt m u)
    (hsame : pool.SamePool (m.balancers u.lb)) : InPool pool u := by
  obtain ⟨rt,hget,-,haddress⟩ := h
  exact InPool.of_samePool hsame ⟨rt,hget,haddress⟩

def onlyHealthy (lb : LoadBalancer) (place : ℕ) : LoadBalancer :=
  { lb with upstreams := lb.upstreams.mapIdx fun i rt => rt.setHealthy (i = place) }

theorem samePool_onlyHealthy (lb : LoadBalancer) (place : ℕ) : lb.SamePool (onlyHealthy lb place) := by
  refine ⟨?_,rfl⟩
  apply List.ext_getElem?
  intro i
  simp [onlyHealthy,UpstreamRuntime.setHealthy,Function.comp_def]

/-- No upstream answers, and one is healthy in each pool. -/
def silent (pools : ℕ → LoadBalancer) (now place : ℕ) : Moment where
  time := now
  permitFree := true
  withinRate := true
  balancers := fun k => onlyHealthy (pools k) place
  reply := fun _ _ => .error .timedOut

theorem healthyAt_silent {pools : ℕ → LoadBalancer} {now place : ℕ} {u : UpstreamRef}
    (h : HealthyAt (silent pools now place) u) : u.place = place ∧ InPool (pools u.lb) u := by
  refine ⟨?_,h.inPool (samePool_onlyHealthy _ _)⟩
  obtain ⟨rt,hget,hhealthy,-⟩ := h
  simp only [silent,onlyHealthy,List.getElem?_mapIdx,Option.map_eq_some_iff] at hget
  obtain ⟨rt',-,rfl⟩ := hget
  simpa [UpstreamRuntime.setHealthy] using hhealthy

theorem chosen_silent {fw : Forwarding} {attempt : ℕ} {tried : List String} {pools : ℕ → LoadBalancer}
    {now : ℕ} {u : UpstreamRef} (hlb : u.lb = fw.lb) (hpool : InPool (pools fw.lb) u)
    (hnew : u.address ∉ tried) : chosen fw attempt tried (silent pools now u.place) = some u := by
  obtain ⟨rt,hget,haddress⟩ := hpool
  cases hchosen : chosen fw attempt tried (silent pools now u.place) with
  | none =>
    have hmem : rt.setHealthy true ∈ ((silent pools now u.place).balancers fw.lb).upstreams := by
      apply List.mem_of_getElem? (i := u.place)
      simp [silent,onlyHealthy,hget]
    have htried := chosen_none hchosen _ hmem rfl
    exact absurd (haddress ▸ htried) hnew
  | some v =>
    obtain ⟨hhealthy,hlb',-⟩ := chosen_sound hchosen
    obtain ⟨hplace,rt',hget',haddress'⟩ := healthyAt_silent hhealthy
    rw [hlb',hplace,hget] at hget'
    cases hget'
    rcases u with ⟨lb,place,address⟩
    rcases v with ⟨lb',place',address'⟩
    simp_all

section AtMostOnce

variable [HttpCrate] {P : Moment → Prop}

def SentUnder (P : Moment → Prop) (n : ℕ) (tr : Trace) : Prop :=
  (∀ e ∈ tr, P e.2) ∧ n ≤ (sent tr).length

omit [HttpCrate] in
theorem SentUnder.append {n n' : ℕ} {tr tr' : Trace} (h : SentUnder P n tr) (h' : SentUnder P n' tr') :
    SentUnder P (n+n') (tr++tr') := by
  refine ⟨?_,?_⟩
  · intro e he
    rcases List.mem_append.mp he with he | he
    · exact h.1 e he
    · exact h'.1 e he
  · simpa using Nat.add_le_add h.2 h'.2

omit [HttpCrate] in
theorem SentUnder.cons {n : ℕ} {op : Op} {m : Moment} {tr : Trace} (hm : P m) (h : SentUnder P n tr) :
    SentUnder P n ((op,m)::tr) := by
  have hone : SentUnder P 0 [(op,m)] := ⟨by simpa using hm,Nat.zero_le _⟩
  simpa using hone.append h

omit [HttpCrate] in
theorem may_silence {α : Type} (p : Handler α) {m : Moment} (hm : P m) :
    May answer p fun tr _ => SentUnder P 0 tr := by
  refine May.mono (may_always p m) ?_
  intro tr _ hall
  exact ⟨fun e he => hall e he ▸ hm,Nat.zero_le _⟩

theorem may_again {fw : Forwarding} {left attempt n : ℕ} {tried : List String} {lastError : Option String}
    {m : Moment} {u : UpstreamRef} {out : OutRequest} {e : SendError} (hm : P m)
    (hsome : chosen fw attempt tried m = some u)
    (hbuild : buildRequest (plainAttempt fw u) = .ok out) (hreply : m.reply u out = .error e)
    (hrest : May answer (attemptLoop fw left (attempt+1) (tried++[u.address]) (some e.message))
      fun tr _ => SentUnder P n tr) :
    May answer (attemptLoop fw (left+1) attempt tried lastError) fun tr _ => SentUnder P (1+n) tr := by
  have hselect : May answer (selectUpstream fw attempt tried) fun tr r =>
      SentUnder P 0 tr ∧ r = some u := by
    unfold selectUpstream
    unfold chosen at hsome
    split
    · rename_i hzero
      rw [if_pos hzero] at hsome
      exact ⟨[(_,m)],_,⟨m,[],rfl,rfl,rfl⟩,SentUnder.cons hm ⟨by simp,by simp⟩,hsome⟩
    · rename_i hzero
      rw [if_neg hzero] at hsome
      exact ⟨[(_,m),(_,m)],_,⟨m,_,rfl,m,[],rfl,rfl,rfl⟩,
        SentUnder.cons hm (SentUnder.cons hm ⟨by simp,by simp⟩),hsome⟩
  have hattempt : May answer (countedAttempt fw u) fun tr r =>
      SentUnder P 1 tr ∧ r = .error e.message := by
    unfold countedAttempt
    refine may_perform_bind.mpr ⟨m,may_perform_bind.mpr ⟨m,may_bind.mpr ?_⟩⟩
    refine ⟨[(.request u out fw.ctx.requestTimeout,m)],.error e.message,?_,?_⟩
    · change Returns answer (attemptProxy (plainAttempt fw u)) _ _
      unfold attemptProxy
      rw [hbuild]
      refine ⟨m,[],rfl,rfl,?_⟩
      simp [answer,plainAttempt,proxyAttempt,hreply]
    · refine may_perform_bind.mpr ⟨m,may_perform_bind.mpr ⟨m,may_pure.mpr ⟨?_,rfl⟩⟩⟩
      refine ⟨by simp [hm],?_⟩
      simp [sent,Op.sent?]
  obtain ⟨trSel,_,hretSel,hsel,rfl⟩ := hselect
  obtain ⟨trAtt,_,hretAtt,hatt,rfl⟩ := hattempt
  obtain ⟨tr,resp,hret,htr⟩ := hrest
  refine ⟨trSel++(trAtt++(.log (.upstreamFailed u.address (attempt+1)),m)::tr),resp,?_,?_⟩
  · exact returns_bind.mpr ⟨_,_,_,rfl,hretSel,
      returns_bind.mpr ⟨_,_,_,rfl,hretAtt,m,tr,rfl,hret⟩⟩
  · simpa [Nat.add_comm] using hsel.append (hatt.append (htr.cons hm))

theorem returns_forward {ctx : ProxyContext} {req : Request} {remoteAddr : SocketAddr} {lb : ℕ} {m : Moment}
    {tr : Trace} {resp : Response} (hpermit : m.permitFree = true) (hrate : m.withinRate = true)
    (hacl : aclAllows ctx remoteAddr.ip = true) (hlb : ctx.router.resolve req.parts.uri.path = some lb)
    (hret : Returns answer (if isUpgradeRequest req.parts then proxyUpgrade ctx req remoteAddr lb m.time
      else proxyPlain ctx req remoteAddr lb m.time) tr resp) :
    ∃ before, (∀ e ∈ before, e.2 = m) ∧
      Returns answer (proxyRequest ctx req remoteAddr) (before++tr) resp := by
  have hacquire : ∃ before, (∀ e ∈ before, e.2 = m) ∧ Returns answer (acquirePermit ctx) before true := by
    unfold acquirePermit
    split
    · exact ⟨[(_,m)],by simp,m,[],rfl,rfl,hpermit.symm⟩
    · exact ⟨[],by simp,rfl,rfl⟩
  have hcheck : ∃ before, (∀ e ∈ before, e.2 = m) ∧
      Returns answer (checkRate ctx remoteAddr.ip) before true := by
    unfold checkRate
    split
    · exact ⟨[(_,m),(_,m)],by simp,m,_,rfl,m,_,rfl,rfl,hrate.symm⟩
    · exact ⟨[],by simp,rfl,rfl⟩
  obtain ⟨trPermit,hpermitAt,hretPermit⟩ := hacquire
  obtain ⟨trRate,hrateAt,hretRate⟩ := hcheck
  refine ⟨(.now,m)::(trPermit++trRate),?_,?_⟩
  · intro e he
    rcases List.mem_cons.mp he with rfl | he
    · rfl
    · exact (List.mem_append.mp he).elim (hpermitAt e) (hrateAt e)
  · rw [List.cons_append,List.append_assoc]
    refine returns_perform_bind.mpr ⟨m,_,rfl,returns_bind.mpr ⟨_,_,_,rfl,hretPermit,?_⟩⟩
    simp only [Bool.not_true,Bool.false_eq_true,if_false,hacl]
    refine returns_bind.mpr ⟨_,_,_,rfl,hretRate,?_⟩
    simp only [Bool.not_true,Bool.false_eq_true,if_false,hlb]
    exact hret

theorem returns_plain {ctx : ProxyContext} {req : Request} {remoteAddr : SocketAddr} {lb start : ℕ}
    {m : Moment} {body : List UInt8} {tr : Trace} {resp : Response}
    (hbody : collectLimited req.body ctx.maxBodyBytes ctx.idleTimeout m.time = .ok body)
    (hret : Returns answer (attemptLoop (forwarding ctx req remoteAddr lb start body)
      (maxAttempts ctx req.parts.method body) 0 [] none) tr resp) :
    Returns answer (proxyPlain ctx req remoteAddr lb start) ((.now,m)::(.collectBody,m)::tr) resp := by
  refine returns_perform_bind.mpr ⟨m,_,rfl,returns_perform_bind.mpr ⟨m,_,rfl,?_⟩⟩
  simp only [answer,hbody]
  exact hret

/-- A request that passes the gates may reach the loop without anything being sent. -/
theorem may_forward {ctx : ProxyContext} {req : Request} {remoteAddr : SocketAddr} {lb n : ℕ} {m : Moment}
    {body : List UInt8} (hm : P m) (hpermit : m.permitFree = true) (hrate : m.withinRate = true)
    (hplain : isUpgradeRequest req.parts = false) (hacl : aclAllows ctx remoteAddr.ip = true)
    (hlb : ctx.router.resolve req.parts.uri.path = some lb)
    (hbody : collectLimited req.body ctx.maxBodyBytes ctx.idleTimeout m.time = .ok body)
    (hloop : May answer (attemptLoop (forwarding ctx req remoteAddr lb m.time body)
      (maxAttempts ctx req.parts.method body) 0 [] none) fun tr _ => SentUnder P n tr) :
    May answer (proxyRequest ctx req remoteAddr) fun tr _ => SentUnder P n tr := by
  obtain ⟨tr,resp,hret,htr⟩ := hloop
  have hpath : Returns answer (if isUpgradeRequest req.parts then proxyUpgrade ctx req remoteAddr lb m.time
      else proxyPlain ctx req remoteAddr lb m.time) ((.now,m)::(.collectBody,m)::tr) resp := by
    rw [hplain]
    exact returns_plain hbody hret
  obtain ⟨before,hbefore,hall⟩ := returns_forward hpermit hrate hacl hlb hpath
  have hquiet : SentUnder P 0 before := ⟨fun e he => hbefore e he ▸ hm,Nat.zero_le _⟩
  exact ⟨_,resp,hall,by simpa using hquiet.append ((htr.cons hm).cons hm)⟩

def Sendable (ctx : ProxyContext) (req : Request) (remoteAddr : SocketAddr) (pools : ℕ → LoadBalancer)
    (u : UpstreamRef) : Prop :=
  InPool (pools u.lb) u ∧
    ∃ out, buildRequest (proxyAttempt ctx req.parts remoteAddr req.body.data false u) = .ok out

/-- A plain request with an empty body, which passes the gates, may be retried and finds
two addresses to be sent to. -/
def Repeatable (ctx : ProxyContext) (req : Request) (remoteAddr : SocketAddr)
    (pools : ℕ → LoadBalancer) : Prop :=
  isUpgradeRequest req.parts = false ∧ aclAllows ctx remoteAddr.ip = true ∧
    (∃ now, collectLimited req.body ctx.maxBodyBytes ctx.idleTimeout now = .ok []) ∧ 0 < ctx.retries ∧
    ∃ lb u v, ctx.router.resolve req.parts.uri.path = some lb ∧ u.lb = lb ∧ v.lb = lb ∧
      Sendable ctx req remoteAddr pools u ∧ Sendable ctx req remoteAddr pools v ∧
      u.address ≠ v.address

theorem Course.repeatable {ctx : ProxyContext} {req : Request} {remoteAddr : SocketAddr}
    {lb start left : ℕ} {pools : ℕ → LoadBalancer} {tr : Trace} {resp : Response}
    (h : Course (forwarding ctx req remoteAddr lb start req.body.data) left 0 [] tr resp)
    (hpools : ∀ e ∈ tr, (pools lb).SamePool (e.2.balancers lb)) (htwo : 2 ≤ (sent tr).length) :
    ∃ u v, u.lb = lb ∧ v.lb = lb ∧ Sendable ctx req remoteAddr pools u ∧
      Sendable ctx req remoteAddr pools v ∧ u.address ≠ v.address := by
  have hsendable : ∀ u out, (u,out) ∈ sent tr → u.lb = lb ∧ Sendable ctx req remoteAddr pools u := by
    intro u out hmem
    have hatt : u ∈ attempted tr := h.sent_sublist.subset (List.mem_map_of_mem hmem)
    obtain ⟨hlb,e,he,-,hhealthy⟩ := h.healthy u hatt
    have hlb : u.lb = lb := hlb
    have hsame := hpools e he
    rw [← hlb] at hsame
    exact ⟨hlb,hhealthy.inPool hsame,out,h.built u out hmem⟩
  have hnodup : (((sent tr).map Prod.fst).map (·.address)).Nodup :=
    (h.distinct fun _ => rfl).1.sublist (h.sent_sublist.map _)
  match hsent : sent tr with
  | [] => simp [hsent] at htwo
  | [_] => simp [hsent] at htwo
  | (u,out)::(v,out')::rest =>
    obtain ⟨hu,husend⟩ := hsendable u out (by simp [hsent])
    obtain ⟨hv,hvsend⟩ := hsendable v out' (by simp [hsent])
    refine ⟨u,v,hu,hv,husend,hvsend,?_⟩
    simp only [hsent,List.map_cons,List.nodup_cons,List.mem_cons,not_or] at hnodup
    exact hnodup.1.1

theorem may_send_twice {ctx : ProxyContext} {req : Request} {remoteAddr : SocketAddr}
    {pools : ℕ → LoadBalancer} (h : Repeatable ctx req remoteAddr pools) :
    May answer (proxyRequest ctx req remoteAddr) fun tr _ =>
      SentUnder (fun m => ∀ k, (pools k).SamePool (m.balancers k)) 2 tr := by
  obtain ⟨hplain,hacl,⟨now,hbody⟩,hretries,lb,u,v,hlb,hu,hv,⟨hupool,out,hbuild⟩,⟨hvpool,out',hbuild'⟩,hne⟩ := h
  have hdata : [] = req.body.data := collectLimited_ok hbody
  have hm : ∀ place k, (pools k).SamePool ((silent pools now place).balancers k) :=
    fun place k => samePool_onlyHealthy _ _
  obtain ⟨left,hleft⟩ : ∃ left, maxAttempts ctx req.parts.method [] = left+2 := by
    refine ⟨min (ctx.retries+1) (2^32-1)-2,?_⟩
    simp only [maxAttempts,mayRetry,List.isEmpty_nil,Bool.or_true,Bool.true_or,if_true]
    omega
  refine may_forward (hm u.place) rfl rfl hplain hacl hlb hbody ?_
  rw [hleft,hdata]
  refine may_again (n := 1) (hm u.place) (chosen_silent hu (hu ▸ hupool) (by simp)) hbuild rfl ?_
  refine may_again (n := 0) (hm v.place) (chosen_silent hv (hv ▸ hvpool) ?_) hbuild' rfl ?_
  · simpa using hne.symm
  · exact may_silence _ (hm v.place)

theorem upgrade_sent_once (ctx : ProxyContext) {req : Request} (remoteAddr : SocketAddr)
    (hupgrade : isUpgradeRequest req.parts = true) :
    Sat answer (proxyRequest ctx req remoteAddr) fun tr _ => (sent tr).length ≤ 1 := by
  refine Sat.mono (proxyRequest_paths ctx req remoteAddr) ?_
  intro tr resp hpath
  rw [← sent_course]
  rcases hpath with hnone | ⟨lb,-,-,⟨-,hcourse⟩ | ⟨hplain,-⟩⟩
  · rw [hnone]
    exact Nat.zero_le _
  · exact hcourse.sent.1
  · rw [hupgrade] at hplain
    cases hplain

theorem repeatable_of_sent_twice {ctx : ProxyContext} {req : Request} {remoteAddr : SocketAddr}
    {pools : ℕ → LoadBalancer} (hidempotent : ctx.retryIdempotentOnly = true)
    (hforce : ctx.forceRetryWithBody = false)
    (hmethod : req.parts.method ∉ ["GET","HEAD","OPTIONS","PUT","DELETE"])
    (hplain : isUpgradeRequest req.parts = false) {moments : ℕ → Moment}
    (hpools : ∀ n k, (pools k).SamePool ((moments n).balancers k))
    (htwo : 2 ≤ (sent (run answer (proxyRequest ctx req remoteAddr) moments).2).length) :
    Repeatable ctx req remoteAddr pools := by
  have hsame : ∀ e ∈ (run answer (proxyRequest ctx req remoteAddr) moments).2, ∀ k,
      (pools k).SamePool (e.2.balancers k) := by
    intro e he
    obtain ⟨n,hn⟩ := mem_run he
    rw [hn]
    exact hpools n
  rcases (proxyRequest_course hplain).run moments with hturned | ⟨lb,start,hlb,hacl,hbody,hcourse⟩
  · rw [← sent_course,hturned.course] at htwo
    exact absurd htwo (by decide)
  · rw [← sent_course] at htwo
    obtain ⟨u,v,hu,hv,husend,hvsend,hne⟩ := hcourse.repeatable
      (fun e he => hsame e (mem_course.mp he).1 lb) htwo
    have hlength := hcourse.sent_sublist.length_le.trans hcourse.length_le
    rw [List.length_map] at hlength
    have hretry : mayRetry ctx req.parts.method req.body.data = true := by
      by_contra hno
      rw [maxAttempts,if_neg hno] at hlength
      omega
    have hempty : req.body.data = [] := by
      simpa [mayRetry,hforce,hidempotent,hmethod] using hretry
    have hretries : 0 < ctx.retries := by
      have hmax := hlength.trans (maxAttempts_le ctx req.parts.method req.body.data)
      omega
    obtain ⟨now,hbody⟩ := hbody
    exact ⟨hplain,hacl,⟨now,hempty ▸ hbody⟩,hretries,lb,u,v,hlb,hu,hv,husend,hvsend,hne⟩

/-- A non-idempotent request is delivered at most once exactly when it is not repeatable. -/
theorem sent_atMostOnce_iff (ctx : ProxyContext) (req : Request) (remoteAddr : SocketAddr)
    (pools : ℕ → LoadBalancer) (hidempotent : ctx.retryIdempotentOnly = true)
    (hforce : ctx.forceRetryWithBody = false)
    (hmethod : req.parts.method ∉ ["GET","HEAD","OPTIONS","PUT","DELETE"]) :
    (∀ moments : ℕ → Moment, (∀ n k, (pools k).SamePool ((moments n).balancers k)) →
      (sent (run answer (proxyRequest ctx req remoteAddr) moments).2).length ≤ 1) ↔
    ¬ Repeatable ctx req remoteAddr pools := by
  constructor
  · intro hall hrep
    obtain ⟨tr,resp,hret,hmoments,htwo⟩ := may_send_twice hrep
    have hfiller : ∀ k, (pools k).SamePool ((silent pools 0 0).balancers k) :=
      fun k => samePool_onlyHealthy _ _
    have hrun := run_of_returns hret (silent pools 0 0)
    have honce := hall (fun n => (tr[n]?.map Prod.snd).getD (silent pools 0 0)) ?_
    · rw [hrun] at honce
      exact absurd honce (Nat.not_le.mpr htwo)
    · intro n
      cases hn : tr[n]? with
      | none => simpa using hfiller
      | some e => simpa using hmoments e (List.mem_of_getElem? hn)
  · intro hrep moments hpools
    by_contra htwo
    have htwo := Nat.not_le.mp htwo
    cases hplain : isUpgradeRequest req.parts with
    | true =>
      have honce := (upgrade_sent_once ctx remoteAddr hplain).run moments
      omega
    | false => exact hrep (repeatable_of_sent_twice hidempotent hforce hmethod hplain hpools htwo)

end AtMostOnce

/-- A POST without a body reaches both upstreams of the pool, neither of which answers. -/
theorem post_sent_twice :
    let ctx := basicContext 1
    let req := basicRequest "POST" [] []
    ctx.retryIdempotentOnly = true ∧ ctx.forceRetryWithBody = false ∧
      (sent (run answer (@proxyRequest visibleAscii ctx req SocketAddr.unspecified)
        fun _ => steady [⟨"http://a",1⟩,⟨"http://b",1⟩] (.error .timedOut)).2).map (·.1.address) =
          ["http://a","http://b"] := by
  decide +kernel

theorem sent_atMostOnce_iff_without_retries :
    let ctx := basicContext 0
    let req := basicRequest "POST" [] []
    req.parts.method ∉ ["GET","HEAD","OPTIONS","PUT","DELETE"] ∧
      ∀ moments : ℕ → Moment,
        (∀ n k, (LoadBalancer.fromUpstreams [⟨"http://a",1⟩,⟨"http://b",1⟩] .roundRobin).SamePool
          ((moments n).balancers k)) →
        (sent (run answer (@proxyRequest visibleAscii ctx req SocketAddr.unspecified)
          moments).2).length ≤ 1 := by
  intro ctx req
  have hmethod : req.parts.method ∉ ["GET","HEAD","OPTIONS","PUT","DELETE"] := by decide
  refine ⟨hmethod,(@sent_atMostOnce_iff visibleAscii ctx req SocketAddr.unspecified
    (fun _ => LoadBalancer.fromUpstreams [⟨"http://a",1⟩,⟨"http://b",1⟩] .roundRobin)
    rfl rfl hmethod).mpr ?_⟩
  rintro ⟨-,-,-,hretries,-⟩
  exact absurd hretries (by decide)

section Body

variable [HttpCrate]

/-- Each request sent was built for the client's address, with the body of its path: the
client's, or none for an upgrade. -/
theorem proxyRequest_built (ctx : ProxyContext) (req : Request) (remoteAddr : SocketAddr) :
    Sat answer (proxyRequest ctx req remoteAddr) fun tr _ => ∀ u out, (u,out) ∈ sent tr →
      buildRequest (proxyAttempt ctx req.parts remoteAddr
        (if isUpgradeRequest req.parts then [] else req.body.data)
        (isUpgradeRequest req.parts) u) = .ok out := by
  refine Sat.mono (proxyRequest_paths ctx req remoteAddr) ?_
  intro tr resp hpath u out hmem
  rw [← sent_course] at hmem
  rcases hpath with hnone | ⟨lb,-,-,⟨hupgrade,hcourse⟩ | ⟨hplain,-,start,hcourse⟩⟩
  · rw [hnone] at hmem
    cases hmem
  · rw [hupgrade]
    exact (hcourse.sent.2 u out hmem).2
  · rw [hplain]
    exact hcourse.built u out hmem

/-- A forwarded request keeps its body exactly when it is not taken for an upgrade or has
none to lose. -/
theorem body_delivered_iff (ctx : ProxyContext) (req : Request) (remoteAddr : SocketAddr)
    (moments : ℕ → Moment)
    (hforwarded : sent (run answer (proxyRequest ctx req remoteAddr) moments).2 ≠ []) :
    (∀ u out, (u,out) ∈ sent (run answer (proxyRequest ctx req remoteAddr) moments).2 →
      out.body = req.body.data) ↔
    isUpgradeRequest req.parts = false ∨ req.body.data = [] := by
  have hbody : ∀ u out, (u,out) ∈ sent (run answer (proxyRequest ctx req remoteAddr) moments).2 →
      out.body = if isUpgradeRequest req.parts then [] else req.body.data := fun u out hmem =>
    (buildRequest_ok ((proxyRequest_built ctx req remoteAddr).run moments u out hmem)).2.2.2
  constructor
  · intro hall
    cases hupgrade : isUpgradeRequest req.parts with
    | false => exact Or.inl rfl
    | true =>
      obtain ⟨⟨u,out⟩,hmem⟩ := List.exists_mem_of_ne_nil _ hforwarded
      have hdata := hall u out hmem
      rw [hbody u out hmem,hupgrade] at hdata
      exact Or.inr hdata.symm
  · intro hkept u out hmem
    rw [hbody u out hmem]
    rcases hkept with hplain | hempty
    · simp [hplain]
    · simp [hempty]

end Body

/-- A POST with an `Upgrade` field loses its body. -/
theorem upgrade_body_lost :
    let ctx := basicContext 1
    let req := basicRequest "POST" [(UPGRADE,⟨asBytes "h2c".toList⟩)] [104,105]
    collectLimited req.body ctx.maxBodyBytes ctx.idleTimeout 0 = .ok [104,105] ∧
      (sent (run answer (@proxyRequest visibleAscii ctx req SocketAddr.unspecified)
        fun _ => steady [⟨"http://a",1⟩] (.ok (bare 200))).2).map (·.2.body) = [[]] := by
  decide +kernel

theorem body_delivered_iff_post :
    let req := basicRequest "POST" [] [104,105]
    let tr := (run answer (@proxyRequest visibleAscii (basicContext 1) req SocketAddr.unspecified)
      fun _ => steady [⟨"http://a",1⟩] (.ok (bare 200))).2
    sent tr ≠ [] ∧ ((∀ u out, (u,out) ∈ sent tr → out.body = req.body.data) ↔
      @isUpgradeRequest visibleAscii req.parts = false ∨ req.body.data = []) :=
  ⟨by decide +kernel,@body_delivered_iff visibleAscii _ _ _ _ (by decide +kernel)⟩

end Proxy
end OxiGate
