import OxiGate.AccessLists
import OxiGate.Checked

/-! Which accepted configurations keep the arithmetic in range, from validation and start-up to
the last request served before a given time. -/
namespace OxiGate
namespace Checked

open RustText Net Http Lb RateLimit BodyLimit Interaction Proxy Connection

section Requests

variable [HttpCrate]

/-- A body is streamed only as the answer of an upstream, under the idle timeout of the context. -/
theorem proxyRequest_streamed (ctx : ProxyContext) (req : Request) (remoteAddr : SocketAddr) :
    Sat answer (proxyRequest ctx req remoteAddr) fun tr resp =>
      ∀ body idle, resp.body = .streamed body idle → idle = ctx.idleTimeout ∧
        aclAllows ctx remoteAddr.ip = true ∧
        ∃ u out timeout m r, (.request u out timeout,m) ∈ tr ∧ m.reply u out = .ok r := by
  apply proxyRequest_rule
  · intro tr status msg _ _ _ body idle hbody
    cases hbody
  · intro tr lb start _ hacl _
    split
    · refine Sat.mono (proxyUpgrade_course ctx req remoteAddr lb start) ?_
      intro tr' resp hcourse body idle hbody
      generalize hc : course tr' = c at hcourse
      cases hcourse with
      | @answered m m' m'' u out r hsome hbuild hreply =>
        cases hbody
        have hmem : (Op.request u out ctx.requestTimeout,m'') ∈ course tr' := by simp [hc]
        exact ⟨rfl,hacl,u,out,_,m'',r,List.mem_append_right _ (mem_course.mp hmem).1,hreply⟩
      | _ => cases hbody
    · refine Sat.mono (proxyPlain_sat ctx req remoteAddr lb start) ?_
      rintro tr' resp (hturned | ⟨-,hcourse⟩) body idle hbody
      · obtain ⟨status,msg,-,rfl⟩ := hturned.response
        cases hbody
      · rcases hcourse.verdict with ⟨front,u,out,timeout,m,r,hend,-,hreply,rfl⟩ | ⟨-,rfl,-⟩
        · cases hbody
          have hmem : (Op.request u out timeout,m) ∈ course tr' := by simp [hend]
          exact ⟨rfl,hacl,u,out,timeout,m,r,List.mem_append_right _ (mem_course.mp hmem).1,hreply⟩
        · cases hbody

omit [HttpCrate] in
theorem checks_eq_nil {tr : Trace} (h : ∀ e ∈ tr, ChecksOnly (fun _ => False) e.1) : checks tr = [] := by
  refine List.filterMap_eq_nil_iff.mpr ?_
  rintro ⟨op,m⟩ he
  have hop := h _ he
  cases op with
  | check limiter ip => exact hop.elim
  | _ => rfl

omit [HttpCrate] in
theorem mem_checks {tr : Trace} {ip : IpAddr} {time : ℕ} (h : (ip,time) ∈ checks tr) :
    ∃ limiter m, (Op.check limiter ip,m) ∈ tr ∧ time = m.time := by
  obtain ⟨⟨op,m⟩,he,hop⟩ := List.mem_filterMap.mp h
  cases op with
  | check limiter ip' =>
    cases hop
    exact ⟨limiter,m,he,rfl⟩
  | _ => cases hop

/-- The clock is not added to for a client that the access list denies. -/
theorem proxyRequest_denied {ctx : ProxyContext} {req : Request} {remoteAddr : SocketAddr}
    (hacl : aclAllows ctx remoteAddr.ip = false) :
    Sat answer (proxyRequest ctx req remoteAddr) fun tr resp =>
      checks tr = [] ∧ bodyTime tr = none ∧ ∃ text, resp.body = .full text := by
  have hchecks : Sat answer (proxyRequest ctx req remoteAddr) fun tr _ =>
      ∀ e ∈ tr, ChecksOnly (fun _ => False) e.1 :=
    (proxyRequest_checks ctx req remoteAddr (by simp [hacl])).sat
  have hgated : Sat answer (proxyRequest ctx req remoteAddr) fun tr resp =>
      Gated remoteAddr.ip tr ∧ ∃ text, resp.body = .full text := by
    apply proxyRequest_rule
    · intro tr status msg htr _ _
      exact ⟨htr,msg,rfl⟩
    · intro tr lb start _ hallowed
      rw [hacl] at hallowed
      cases hallowed
  intro tr resp hret
  obtain ⟨htr,hfull⟩ := hgated tr resp hret
  refine ⟨checks_eq_nil (hchecks tr resp hret),bodyTime_eq_none ?_,hfull⟩
  intro e he hop
  have hgate := htr e he
  rw [hop] at hgate
  cases hgate

theorem proxyRequest_passed {ctx : ProxyContext} {req : Request} {remoteAddr : SocketAddr}
    (hplain : isUpgradeRequest req.parts = false) :
    Sat answer (proxyRequest ctx req remoteAddr) fun tr _ => ¬ Barred ctx req remoteAddr tr →
      RateChecked ctx remoteAddr.ip tr ∧ ∃ m, (.now,m) ∈ tr ∧ bodyTime tr = some m.time := by
  refine (proxyRequest_untilRule (R := fun _ => True) ?_ ?_).2
  · intro tr m status msg _ hbarred hfree
    exact absurd (hbarred.mono (List.subset_append_left _ _)) hfree
  · intro tr lb start htr hchecked _
    rw [hplain]
    refine ⟨fun _ _ => trivial,?_⟩
    intro tr' resp hret _
    obtain ⟨-,m,m',rest,rfl,-⟩ := (proxyPlain_until ctx req remoteAddr lb start).2 tr' resp hret
    have hnone := checks_eq_nil ((proxyPlain_uses checksOnly_routine ctx req remoteAddr lb start).sat _ _ hret)
    refine ⟨?_,m,by simp,bodyTime_append tr rest (.now,m) m' htr.collectBody (by simp)⟩
    rcases hchecked with ⟨hlimiter,hempty⟩ | ⟨limiter,mc,hlimiter,hmem,hone⟩
    · exact Or.inl ⟨hlimiter,by rw [checks_append,hempty,hnone]; rfl⟩
    · exact Or.inr ⟨limiter,mc,hlimiter,List.mem_append_left _ hmem,by rw [checks_append,hone,hnone]; rfl⟩

end Requests

section Serving

variable {F : Type} [F64 F]

/-- The limiter of a fresh runtime. -/
def limiterOf (config : Config F) : Option (RateLimiter F) :=
  config.rateLimit.map fun rl => RateLimiter.new ⟨rl.rps,seconds 1,rl.burst⟩

def consult (rl : Option (RateLimiter F)) (c : IpAddr × ℕ) : Except Fault (Option (RateLimiter F)) :=
  match rl with
  | some l => (check l c.1 c.2).map fun r => some r.2
  | none => .ok none

def readBody (ctx : ProxyContext) (req : Request) : Option ℕ → Except Fault Unit
  | some time => (collectLimited req.body ctx.maxBodyBytes ctx.idleTimeout time).map fun _ => ()
  | none => .ok ()

def sendBody (wrappedAt : ℕ) : ResponseBody → Except Fault Unit
  | .streamed body idle => stream body.polls (IdleBody.new idle wrappedAt)
  | .full _ => .ok ()

variable [HttpCrate]

/-- A request served under a runtime before the time is up: every reading of the clock, by the
handler or when a body is polled, is at most `T`. -/
structure Served (rt : Runtime F) (T : ℕ) where
  req : Request
  remoteAddr : SocketAddr
  trace : Trace
  response : Response
  wrappedAt : ℕ
  returns : Returns answer (proxyRequest (proxyContext rt) req remoteAddr) trace response
  clock : ∀ e ∈ trace, e.2.time ≤ T
  polled : ∀ p ∈ req.body.polls, p.1 ≤ T
  answered : ∀ body idle, response.body = .streamed body idle → ∀ p ∈ body.polls, p.1 ≤ T

def Served.serve {rt : Runtime F} {T : ℕ} (x : Served rt T) (rl : Option (RateLimiter F)) :
    Except Fault (Option (RateLimiter F)) := do
  let rl ← (checks x.trace).foldlM consult rl
  readBody (proxyContext rt) x.req (bodyTime x.trace)
  sendBody x.wrappedAt x.response.body
  pure rl

/-- The request has been told what the limiter says. -/
def Agrees (rl : Option (RateLimiter F)) (tr : Trace) : Prop :=
  ∀ l, rl = some l → ∀ limiter ip m, (.check limiter ip,m) ∈ tr → m.withinRate = (l.check ip m.time).1

/-- The limiters that requests can leave behind. -/
inductive Reached (rt : Runtime F) (T : ℕ) : Option (RateLimiter F) → Prop
  | fresh : Reached rt T (limiterOf rt.config)
  | served {rl rl' : Option (RateLimiter F)} (x : Served rt T) (hrl : Reached rt T rl)
      (hagrees : Agrees rl x.trace) (hserve : x.serve rl = .ok rl') : Reached rt T rl'

variable [LE F] [DecidableLE F]

/-- Nothing leaves its range: not when the configuration is validated, not at start-up or on a
reload, and not while requests are served up to the time `T`. -/
structure NeverFaults (fileExists : String → Bool) (config : Config F) (T : ℕ) : Prop where
  validate : ∃ r, validate fileExists config = .ok r
  startUp : startUp config = .ok ()
  reload : buildRuntime config = .ok ()
  serve : ∀ generation loadTls rt, Runtime.fromConfig generation loadTls config = .ok rt →
    ∀ rl, Reached rt T rl → ∀ x : Served rt T, Agrees rl x.trace → ∃ rl', x.serve rl = .ok rl'

def Admits (config : Config F) (ip : IpAddr) : Prop :=
  (config.acl.bind fun a => (Security.Acl.fromConfig a.allow a.deny).toOption).all (·.isAllowed ip) = true

/-- The ranges that the configuration has to keep: for the products and semaphores, and, if
there is anyone to serve, for the tolerance of the limiter and the idle timeout. -/
structure WithinRange (config : Config F) (T : ℕ) : Prop where
  interval : config.healthCheck.intervalSecs*10 < 2^64
  permits : Server.maxConn config ≤ maxPermits
  limiter : (∃ ip, Admits config ip) → ∀ rl, limiterOf config = some rl →
    rl.maxCredit ≤ durationMax ∧ T+rl.maxCredit+rl.emission ≤ instantMax
  idle : (∃ ip, Admits config ip) → T+seconds (max config.timeouts.idleSecs 1) ≤ instantMax

end Serving

section Sufficient

variable {F : Type} [F64 F] {config : Config F} {T : ℕ}

/-- The limiter has the emission interval and the tolerance of the configuration. -/
def Tuned (config : Config F) (rl : Option (RateLimiter F)) : Prop :=
  ∀ l, rl = some l → ∃ l₀, limiterOf config = some l₀ ∧ l.emission = l₀.emission ∧ l.maxCredit = l₀.maxCredit

theorem tuned_fresh (config : Config F) : Tuned config (limiterOf config) :=
  fun l hl => ⟨l,hl,rfl,rfl⟩

theorem Tuned.consult {rl rl' : Option (RateLimiter F)} {c : IpAddr × ℕ} (h : Tuned config rl)
    (hconsult : consult rl c = .ok rl') : Tuned config rl' := by
  cases rl with
  | none =>
    cases hconsult
    exact h
  | some l =>
    obtain ⟨r,hr,rfl⟩ := ok_of_map hconsult
    obtain ⟨l₀,hl₀,hemission,hcredit⟩ := h l rfl
    rintro l' ⟨⟩
    rw [check_agrees hr]
    exact ⟨l₀,hl₀,by rw [RateLimiter.check_emission,hemission],by rw [RateLimiter.check_maxCredit,hcredit]⟩

theorem consult_ok {rl : Option (RateLimiter F)} {c : IpAddr × ℕ} (h : Tuned config rl)
    (hrange : ∀ l, limiterOf config = some l → l.maxCredit ≤ durationMax ∧ T+l.maxCredit+l.emission ≤ instantMax)
    (hc : c.2 ≤ T) : ∃ rl', Checked.consult rl c = .ok rl' := by
  cases rl with
  | none => exact ⟨none,rfl⟩
  | some l =>
    obtain ⟨l₀,hl₀,hemission,hcredit⟩ := h l rfl
    obtain ⟨hduration,hinstant⟩ := hrange l₀ hl₀
    have hcheck : check l c.1 c.2 = .ok (l.check c.1 c.2) :=
      check_ok (by rwa [hcredit]) (by rw [hcredit,hemission]; omega)
    exact ⟨_,by rw [Checked.consult,hcheck]; rfl⟩

variable [HttpCrate] {rt : Runtime F}

omit [F64 F] in
theorem Served.checks_le (x : Served rt T) : ∀ c ∈ checks x.trace, c.2 ≤ T := by
  rintro ⟨ip,time⟩ hc
  obtain ⟨limiter,m,hmem,rfl⟩ := mem_checks hc
  exact x.clock _ hmem

theorem serve_tuned {x : Served rt T} {rl rl' : Option (RateLimiter F)} (h : Tuned config rl)
    (hserve : x.serve rl = .ok rl') : Tuned config rl' := by
  obtain ⟨rl₁,hfold,hserve⟩ := ok_of_bind hserve
  obtain ⟨_,-,hserve⟩ := ok_of_bind hserve
  obtain ⟨_,-,hserve⟩ := ok_of_bind hserve
  cases hserve
  exact foldlM_keeps (fun _ _ _ => Tuned.consult) h hfold

theorem Reached.tuned {rl : Option (RateLimiter F)} (h : Reached rt T rl) : Tuned rt.config rl := by
  induction h with
  | fresh => exact tuned_fresh rt.config
  | served x hrl hagrees hserve ih => exact serve_tuned ih hserve

omit [F64 F] [HttpCrate] in
/-- The timeout of a body is never the least that `IdleBody` would take. -/
theorem idle_new (rt : Runtime F) (now : ℕ) : (IdleBody.new (proxyContext rt).idleTimeout now).idle =
    seconds (max rt.config.timeouts.idleSecs 1) := by
  have hleast : 50000000 ≤ seconds (max rt.config.timeouts.idleSecs 1) := by
    have hone := le_max_right rt.config.timeouts.idleSecs 1
    unfold seconds
    omega
  exact max_eq_left hleast

omit [F64 F] [HttpCrate] in
theorem aclAllows_iff {ip : IpAddr} : aclAllows (proxyContext rt) ip = true ↔ Admits rt.config ip := Iff.rfl

theorem serve_ok {x : Served rt T} {rl : Option (RateLimiter F)} (h : WithinRange rt.config T)
    (hrl : Tuned rt.config rl) : ∃ rl', x.serve rl = .ok rl' := by
  cases hacl : aclAllows (proxyContext rt) x.remoteAddr.ip with
  | false =>
    obtain ⟨hchecks,hbody,text,hfull⟩ := proxyRequest_denied hacl _ _ x.returns
    exact ⟨rl,by simp only [Served.serve,hchecks,hbody,hfull]; rfl⟩
  | true =>
    have hadmits : ∃ ip, Admits rt.config ip := ⟨_,aclAllows_iff.mp hacl⟩
    obtain ⟨rl',hfold⟩ := exists_foldlM_ok (fun _ _ _ => Tuned.consult)
      (fun c hc _ htuned => consult_ok htuned (h.limiter hadmits) (x.checks_le c hc)) hrl
    have htimer : ∀ {now wrappedAt : ℕ}, now ≤ T →
        now+(IdleBody.new (proxyContext rt).idleTimeout wrappedAt).idle ≤ instantMax := by
      intro now wrappedAt hnow
      have hidle := h.idle hadmits
      rw [idle_new]
      omega
    have hread : readBody (proxyContext rt) x.req (bodyTime x.trace) = .ok () := by
      cases bodyTime x.trace with
      | none => rfl
      | some time =>
        rw [readBody,collectLimited,collect_eq fun p hp => htimer (x.polled p hp)]
        rfl
    have hsend : sendBody x.wrappedAt x.response.body = .ok () := by
      cases hbody : x.response.body with
      | full text => rfl
      | streamed body idle =>
        obtain ⟨rfl,-,-⟩ := proxyRequest_streamed _ _ _ _ _ x.returns body idle hbody
        exact stream_ok fun p hp => htimer (x.answered body _ hbody p hp)
    exact ⟨rl',by simp only [Served.serve,hfold,hread,hsend]; rfl⟩

theorem neverFaults_of_withinRange [LE F] [DecidableLE F] {fileExists : String → Bool}
    (hvalid : Validator.validate fileExists config = .ok ()) (h : WithinRange config T) :
    NeverFaults fileExists config T := by
  refine ⟨(validate_accepted hvalid).mpr h.interval,startUp_eq_ok.mpr h.permits,buildRuntime_ok h.permits,?_⟩
  intro generation loadTls rt hrt rl hreached x _
  obtain ⟨rfl,-⟩ := fromConfig_ok hrt
  exact serve_ok h hreached.tuned

end Sufficient

section Necessary

variable {F : Type}

theorem exists_resolve {config : Config F} (h : config.upstreams ≠ [] ∨ config.routes ≠ []) :
    ∃ path lb, (Router.fromConfig config).resolve path = some lb := by
  rcases h with hpool | hroutes
  · have hdefault : (Router.fromConfig config).default = some config.routes.length := by
      simp [Router.fromConfig,hpool]
    refine ⟨"/",?_⟩
    unfold Router.resolve
    split
    · exact ⟨_,rfl⟩
    · exact ⟨_,hdefault⟩
  · have hne : (Router.fromConfig config).routes ≠ [] := by
      rw [← List.length_pos_iff]
      simpa [Router.fromConfig,List.length_insertionSort,List.length_pos_iff] using hroutes
    obtain ⟨route,hroute⟩ := List.exists_mem_of_ne_nil _ hne
    refine ⟨route.pathPrefix,?_⟩
    unfold Router.resolve
    split
    · exact ⟨_,rfl⟩
    · rename_i hnone
      have hmiss := List.find?_eq_none.mp hnone route hroute
      simp [pathMatches] at hmiss

theorem fromConfig_parts {generation : ℕ} {loadTls : Except String Unit} {config : Config F} {rt : Runtime F}
    (h : Runtime.fromConfig generation loadTls config = .ok rt) :
    rt.router = Router.fromConfig config ∧ rt.rateLimiter = config.rateLimit.map fun _ => generation := by
  obtain ⟨_,-,h⟩ := ok_of_bind h
  obtain ⟨trusted,-,h⟩ := ok_of_bind h
  cases h
  exact ⟨rfl,rfl⟩

def loneMoment (time : ℕ) : Moment where
  time := time
  permitFree := true
  withinRate := true
  balancers := fun _ => ⟨[],.roundRobin,0⟩
  reply := fun _ _ => .error .timedOut

def loneRequest (path : String) (time : ℕ) : Request where
  parts := ⟨"GET",⟨none,none,path,none⟩,.http11,[]⟩
  body := ⟨[(time,some (.data []))],.ok ()⟩

theorem loneRequest_body (path : String) (time max idle now : ℕ) :
    BodyLimit.collectLimited (loneRequest path time).body max idle now = .ok [] := by
  simp [BodyLimit.collectLimited,loneRequest,BodyLimit.collect,frameOr,mapErr,LimitedBody.pollFrame,
    Frame.dataRef,LimitedBody.new,IdleBody.pollFrame]

theorem loneRequest_timer {path : String} {time max idle now : ℕ} {r : Except BodyLimitError (List UInt8)}
    (h : collectLimited (loneRequest path time).body max idle now = .ok r) :
    time+(IdleBody.new idle now).idle ≤ instantMax := by
  by_contra hlate
  simp [collectLimited,loneRequest,collect,frameOr,mapErr,LimitedBody.pollFrame,Frame.dataRef,LimitedBody.new,
    pollFrame,instantAdd,within_error (Nat.not_le.mp hlate),bind,Except.bind] at h

variable [HttpCrate] {rt : Runtime F} {T time : ℕ} {path : String} {ip : IpAddr}

def knock (rt : Runtime F) (path : String) (ip : IpAddr) (htime : time ≤ T) : Served rt T where
  req := loneRequest path time
  remoteAddr := ⟨ip,0⟩
  trace := (run answer (proxyRequest (proxyContext rt) (loneRequest path time) ⟨ip,0⟩)
    fun _ => loneMoment time).2
  response := (run answer (proxyRequest (proxyContext rt) (loneRequest path time) ⟨ip,0⟩)
    fun _ => loneMoment time).1
  wrappedAt := time
  returns := returns_run answer _ _
  clock := by
    intro e he
    obtain ⟨n,hn⟩ := mem_run he
    rw [hn]
    exact htime
  polled := by simpa [loneRequest] using htime
  answered := by
    intro body idle hbody
    obtain ⟨-,-,u,out,timeout,m,r,hmem,hreply⟩ :=
      (proxyRequest_streamed (proxyContext rt) (loneRequest path time) ⟨ip,0⟩).run _ body idle hbody
    obtain ⟨n,hn⟩ := mem_run hmem
    have hm : m = loneMoment time := hn
    rw [hm] at hreply
    cases hreply

theorem knock_moment {htime : time ≤ T} {op : Op} {m : Moment} (h : (op,m) ∈ (knock rt path ip htime).trace) :
    m = loneMoment time := by
  obtain ⟨n,hn⟩ := mem_run h
  exact hn

/-- Where the route exists and the client is let in, nothing keeps the request. -/
theorem knock_passed {lb : ℕ} (htime : time ≤ T) (hlb : rt.router.resolve path = some lb)
    (hadmits : Admits rt.config ip) : bodyTime (knock rt path ip htime).trace = some time ∧
      ((rt.rateLimiter = none ∧ checks (knock rt path ip htime).trace = []) ∨
        rt.rateLimiter ≠ none ∧ checks (knock rt path ip htime).trace = [(ip,time)]) := by
  have hfree : ¬ Barred (proxyContext rt) (loneRequest path time) ⟨ip,0⟩ (knock rt path ip htime).trace := by
    rintro (hacl | hroute | ⟨⟨op,m⟩,he,hmoment⟩)
    · rw [aclAllows_iff.mpr hadmits] at hacl
      cases hacl
    · have hsome : (proxyContext rt).router.resolve (loneRequest path time).parts.uri.path = some lb := hlb
      rw [hsome] at hroute
      cases hroute
    · obtain rfl := knock_moment he
      rcases hmoment with hpermit | hrate | ⟨err,herr⟩
      · cases hpermit
      · cases hrate
      · rw [loneRequest_body] at herr
        cases herr
  obtain ⟨hchecked,m,hm,hbody⟩ := proxyRequest_passed rfl _ _ (knock rt path ip htime).returns hfree
  obtain rfl := knock_moment hm
  refine ⟨hbody,?_⟩
  rcases hchecked with ⟨hnone,hchecks⟩ | ⟨limiter,m,hsome,hmem,hchecks⟩
  · exact Or.inl ⟨hnone,hchecks⟩
  · obtain rfl := knock_moment hmem
    have hsome : rt.rateLimiter = some limiter := hsome
    exact Or.inr ⟨by simp [hsome],hchecks⟩

variable [F64 F] {rl rl' : Option (RateLimiter F)} {l : RateLimiter F}

theorem knock_agrees {htime : time ≤ T} (h : ∀ l, rl = some l → (l.check ip time).1 = true) :
    Agrees rl (knock rt path ip htime).trace := by
  intro l hl limiter ip' m hmem
  obtain rfl := knock_moment hmem
  have hip : ip' = ip :=
    (proxyRequest_goesBy _ _ _ _ _ (knock rt path ip htime).returns).rate limiter ip' _ hmem
  rw [hip]
  exact (h l hl).symm

theorem knock_idle {lb : ℕ} {htime : time ≤ T} (hlb : rt.router.resolve path = some lb)
    (hadmits : Admits rt.config ip) (h : (knock rt path ip htime).serve rl = .ok rl') :
    time+seconds (max rt.config.timeouts.idleSecs 1) ≤ instantMax := by
  obtain ⟨_,-,h⟩ := ok_of_bind h
  obtain ⟨_,hread,-⟩ := ok_of_bind h
  rw [(knock_passed htime hlb hadmits).1] at hread
  obtain ⟨r,hcollect,-⟩ := ok_of_map hread
  have hreset := loneRequest_timer hcollect
  rwa [idle_new] at hreset

theorem knock_check {lb : ℕ} {htime : time ≤ T} (hlb : rt.router.resolve path = some lb)
    (hadmits : Admits rt.config ip) (hlimiter : rt.rateLimiter ≠ none)
    (h : (knock rt path ip htime).serve (some l) = .ok rl') :
    check l ip time = .ok (l.check ip time) ∧ rl' = some (l.check ip time).2 := by
  obtain ⟨rl₁,hfold,h⟩ := ok_of_bind h
  obtain ⟨_,-,h⟩ := ok_of_bind h
  obtain ⟨_,-,h⟩ := ok_of_bind h
  cases h
  rcases (knock_passed htime hlb hadmits).2 with ⟨hnone,-⟩ | ⟨-,hchecks⟩
  · exact absurd hnone hlimiter
  · rw [hchecks] at hfold
    obtain ⟨rl₂,hconsult,hrest⟩ := ok_of_bind hfold
    cases hrest
    obtain ⟨r,hr,rfl⟩ := ok_of_map hconsult
    obtain rfl := check_agrees hr
    exact ⟨hr,rfl⟩

omit [HttpCrate] in
theorem check_moves {l : RateLimiter F} {ip : IpAddr} {now : ℕ} (h : tatAt l ip now ≤ now+l.maxCredit) :
    (l.check ip now).1 = true ∧
      (l.check ip now).2.buckets ip = some ⟨max (tatAt l ip now) now+l.emission⟩ := by
  unfold tatAt at h ⊢
  simp only [RateLimiter.check,if_neg (Nat.not_lt.mpr h),Function.update_self,true_and]
  split
  · rename_i hahead
    rw [max_eq_left hahead.le]
  · rename_i hbehind
    rw [max_eq_right (Nat.not_lt.mp hbehind)]

def Serves (rt : Runtime F) (T : ℕ) : Prop :=
  ∀ rl : Option (RateLimiter F), Reached rt T rl → ∀ x : Served rt T, Agrees rl x.trace → ∃ rl', x.serve rl = .ok rl'

/-- As long as the tolerance lasts, one request after the other moves the arrival time on. -/
theorem reached_moved {lb : ℕ} {l₀ : RateLimiter F} (hserves : Serves rt T) (htime : time ≤ T)
    (hlb : rt.router.resolve path = some lb) (hadmits : Admits rt.config ip) (hlimiter : rt.rateLimiter ≠ none)
    (hl₀ : limiterOf rt.config = some l₀) (k : ℕ) (hk : ∀ j < k, j*l₀.emission ≤ l₀.maxCredit) :
    ∃ l, Reached rt T (some l) ∧ l.emission = l₀.emission ∧ l.maxCredit = l₀.maxCredit ∧
      l.buckets ip = if k = 0 then none else some ⟨time+k*l₀.emission⟩ := by
  induction k with
  | zero =>
    refine ⟨l₀,hl₀ ▸ Reached.fresh,rfl,rfl,?_⟩
    obtain ⟨cfg,-,rfl⟩ := Option.map_eq_some_iff.mp hl₀
    rfl
  | succ k ih =>
    obtain ⟨l,hreached,hemission,hcredit,hbucket⟩ := ih fun j hj => hk j (by omega)
    have htat : tatAt l ip time = time+k*l₀.emission := by
      rw [tatAt,hbucket]
      cases k with
      | zero => simp
      | succ k => simp
    have hallowed : tatAt l ip time ≤ time+l.maxCredit := by
      rw [htat,hcredit]
      exact Nat.add_le_add_left (hk k (by omega)) time
    obtain ⟨hyes,hmoved⟩ := check_moves hallowed
    have hagrees : Agrees (some l) (knock rt path ip htime).trace :=
      knock_agrees (by rintro l' ⟨⟩; exact hyes)
    obtain ⟨rl',hserve⟩ := hserves _ hreached _ hagrees
    obtain ⟨-,rfl⟩ := knock_check hlb hadmits hlimiter hserve
    refine ⟨_,hreached.served _ hagrees hserve,?_,?_,?_⟩
    · rw [RateLimiter.check_emission,hemission]
    · rw [RateLimiter.check_maxCredit,hcredit]
    · rw [hmoved,htat,max_eq_left (Nat.le_add_right _ _),hemission,if_neg (Nat.succ_ne_zero k),Nat.succ_mul,
        Nat.add_assoc]

theorem check_range_of_serves {lb : ℕ} (hserves : Serves rt T) (htime : time ≤ T)
    (hlb : rt.router.resolve path = some lb) (hadmits : Admits rt.config ip) (hlimiter : rt.rateLimiter ≠ none)
    (hreached : Reached rt T (some l)) (hallowed : tatAt l ip time ≤ time+l.maxCredit) :
    l.maxCredit ≤ durationMax ∧ time+l.maxCredit ≤ instantMax ∧
      max (tatAt l ip time) time+l.emission ≤ instantMax := by
  have hagrees : Agrees (some l) (knock rt path ip htime).trace := by
    refine knock_agrees ?_
    rintro l' ⟨⟩
    exact (check_moves hallowed).1
  obtain ⟨rl',hserve⟩ := hserves _ hreached _ hagrees
  obtain ⟨hduration,hinstant,hnew⟩ := check_range (knock_check hlb hadmits hlimiter hserve).1
  exact ⟨hduration,hinstant,hnew hallowed⟩

/-- The arrival time can come to lie at the very end of the tolerance, and is then moved on. -/
theorem limiter_range {lb : ℕ} {l₀ : RateLimiter F} (hserves : Serves rt T)
    (hlb : rt.router.resolve path = some lb) (hadmits : Admits rt.config ip) (hlimiter : rt.rateLimiter ≠ none)
    (hl₀ : limiterOf rt.config = some l₀) (hT : l₀.emission ≤ T) :
    l₀.maxCredit ≤ durationMax ∧ T+l₀.maxCredit+l₀.emission ≤ instantMax := by
  have hmoved := fun {time : ℕ} (htime : time ≤ T) =>
    reached_moved hserves htime hlb hadmits hlimiter hl₀
  obtain ⟨l,hreached,hemission,hcredit,hbucket⟩ := hmoved le_rfl 0 (by simp)
  have hfresh : tatAt l ip T = T := by
    rw [tatAt,hbucket]
    rfl
  obtain ⟨hduration,hlatest,-⟩ :=
    check_range_of_serves hserves le_rfl hlb hadmits hlimiter hreached (by rw [hfresh]; exact Nat.le_add_right _ _)
  rw [hcredit] at hduration hlatest
  refine ⟨hduration,?_⟩
  rcases Nat.eq_zero_or_pos l₀.emission with hzero | hpos
  · rw [hzero]
    exact hlatest
  -- so many requests, all at one time, bring the arrival time to the end of the tolerance at `T`
  have hover : ∃ k, l₀.maxCredit ≤ k*l₀.emission ∧ k*l₀.emission < l₀.maxCredit+l₀.emission := by
    refine ⟨(l₀.maxCredit+l₀.emission-1)/l₀.emission,?_,?_⟩
    · have hdiv := Nat.lt_div_mul_add (a := l₀.maxCredit+l₀.emission-1) hpos
      omega
    · have hdiv := Nat.div_mul_le_self (l₀.maxCredit+l₀.emission-1) l₀.emission
      omega
  obtain ⟨k,hreach,hshort⟩ := hover
  have hsteps : ∀ j < k, j*l₀.emission ≤ l₀.maxCredit := by
    intro j hj
    have hnext : (j+1)*l₀.emission ≤ k*l₀.emission := Nat.mul_le_mul_right _ hj
    rw [Nat.succ_mul] at hnext
    omega
  obtain ⟨l,hreached,hemission,hcredit,hbucket⟩ :=
    hmoved (show T+l₀.maxCredit-k*l₀.emission ≤ T by omega) k hsteps
  have hend : tatAt l ip T = T+l₀.maxCredit := by
    rw [tatAt,hbucket]
    cases k with
    | zero =>
      have hnone : l₀.maxCredit = 0 := by simpa using hreach
      simp [hnone]
    | succ k =>
      simp only [Nat.succ_ne_zero,if_false,Option.getD_some]
      omega
  obtain ⟨-,-,hnew⟩ :=
    check_range_of_serves hserves le_rfl hlb hadmits hlimiter hreached (by rw [hend,hcredit])
  rwa [hend,hemission,max_eq_left (Nat.le_add_right _ _)] at hnew

omit [HttpCrate] [F64 F] in
theorem exists_runtime {config : Config F}
    (h : ∀ cidr ∈ config.proxyProtocolTrustedCidrs, Validator.CidrAccepted cidr) :
    ∃ rt, Runtime.fromConfig 0 (.ok ()) config = .ok rt := by
  have htrusted : ∃ trusted, trustedAcl config = .ok trusted := by
    unfold trustedAcl
    split
    · obtain ⟨acl,hacl,-⟩ := @Security.fromConfig_accepted config.proxyProtocolTrustedCidrs [] (by simpa using h)
      exact ⟨some acl,by rw [hacl]; rfl⟩
    · exact ⟨none,rfl⟩
  obtain ⟨trusted,htrusted⟩ := htrusted
  simp only [Runtime.fromConfig,ite_self,htrusted]
  exact ⟨_,rfl⟩

variable [LE F] [DecidableLE F]

theorem withinRange_of_neverFaults {fileExists : String → Bool} {config : Config F}
    (hvalid : Validator.validate fileExists config = .ok ()) (hT : seconds 1 ≤ T)
    (h : NeverFaults fileExists config T) : WithinRange config T := by
  have haccepted := Validator.validate_eq_ok.mp hvalid
  obtain ⟨path,lb,hlb⟩ := exists_resolve haccepted.pools
  obtain ⟨rt,hrt⟩ := exists_runtime haccepted.trusted
  have hserves : Serves rt T := h.serve 0 (.ok ()) rt hrt
  obtain ⟨hrouter,hlimiter⟩ := fromConfig_parts hrt
  obtain ⟨rfl,-⟩ := fromConfig_ok hrt
  rw [← hrouter] at hlb
  refine ⟨(validate_accepted hvalid).mp h.validate,startUp_eq_ok.mp h.startUp,?_,?_⟩
  · rintro ⟨ip,hadmits⟩ l₀ hl₀
    have hsome : rt.rateLimiter ≠ none := by
      obtain ⟨cfg,hcfg,-⟩ := Option.map_eq_some_iff.mp hl₀
      simp [hlimiter,hcfg]
    have hemission : l₀.emission ≤ T := by
      obtain ⟨cfg,-,rfl⟩ := Option.map_eq_some_iff.mp hl₀
      exact (Nat.div_le_self _ _).trans hT
    exact limiter_range hserves hlb hadmits hsome hl₀ hemission
  · rintro ⟨ip,hadmits⟩
    have hagrees : Agrees (limiterOf rt.config) (knock rt path ip (le_refl T)).trace := by
      refine knock_agrees fun l hl => (check_moves ?_).1
      obtain ⟨cfg,-,rfl⟩ := Option.map_eq_some_iff.mp hl
      exact Nat.le_add_right _ _
    obtain ⟨rl',hserve⟩ := hserves _ Reached.fresh _ hagrees
    exact knock_idle hlb hadmits hserve

end Necessary

section Results

variable {F : Type} [F64 F] [LE F] [DecidableLE F] [HttpCrate]

/-- An accepted configuration keeps all arithmetic in range up to a time exactly when its
intervals, connections, tolerance and idle timeout are in range themselves. -/
theorem neverFaults_iff {fileExists : String → Bool} {config : Config F} {T : ℕ}
    (hvalid : Validator.validate fileExists config = .ok ()) (hT : seconds 1 ≤ T) :
    NeverFaults fileExists config T ↔ WithinRange config T :=
  ⟨withinRange_of_neverFaults hvalid hT,neverFaults_of_withinRange hvalid⟩

end Results

def plainConfig : Config ℚ := .ofPools [⟨"http://a",1⟩] []

theorem neverFaults_iff_plainConfig :
    letI := visibleAscii
    Validator.validate (fun _ => false) plainConfig = .ok () ∧ seconds 1 ≤ seconds 31536000 ∧
      (NeverFaults (fun _ => false) plainConfig (seconds 31536000) ↔
        WithinRange plainConfig (seconds 31536000)) := by
  let _ := visibleAscii
  have hvalid : Validator.validate (fun _ => false) plainConfig = .ok () := by decide +kernel
  exact ⟨hvalid,by decide,neverFaults_iff hvalid (by decide)⟩

def longInterval : Config ℚ :=
  { plainConfig with healthCheck := { HealthCheckConfig.default with intervalSecs := 1844674407370955162 } }

def manyConnections : Config ℚ := { plainConfig with maxConnections := 2^61 }

def endlessIdle : Config ℚ := { plainConfig with timeouts := ⟨5,30,2^64-1⟩ }

def hugeBurst : Config ℚ := { plainConfig with rateLimit := some ⟨1,10^20⟩ }

def Escapes [HttpCrate] (config : Config ℚ) : Prop :=
  Validator.validate (fun _ => false) config = .ok () ∧ ¬ NeverFaults (fun _ => false) config (seconds 1)

theorem escapes_of [HttpCrate] {config : Config ℚ} (hvalid : Validator.validate (fun _ => false) config = .ok ())
    (h : ¬ WithinRange config (seconds 1)) : Escapes config :=
  ⟨hvalid,fun hnever => h (withinRange_of_neverFaults hvalid le_rfl hnever)⟩

/-- A product wraps, a semaphore cannot be made, and the first body frame or the first rate
check panics. -/
theorem accepted_settings_escape :
    letI := visibleAscii
    Escapes longInterval ∧ Escapes manyConnections ∧ Escapes endlessIdle ∧ Escapes hugeBurst := by
  let _ := visibleAscii
  have hanyone : ∀ {config : Config ℚ}, config.acl = none → ∃ ip, Admits config ip := by
    intro config hacl
    exact ⟨.v4 (ipv4 1 1 1 1),by simp [Admits,hacl]⟩
  refine ⟨escapes_of (by decide +kernel) fun h => ?_,escapes_of (by decide +kernel) fun h => ?_,
    escapes_of (by decide +kernel) fun h => ?_,escapes_of (by decide +kernel) fun h => ?_⟩
  · exact absurd h.interval (by decide)
  · exact absurd h.permits (by decide)
  · exact absurd (h.idle (hanyone rfl)) (by decide)
  · exact absurd (h.limiter (hanyone rfl) _ rfl).1 (by decide +kernel)

end Checked
end OxiGate
