import OxiGate.Handler

/-! The retry loop of a plain request. The course of a trace is its selections,
counted connections and requests to upstreams; the loop's courses are described on
their own, and the loop is shown to follow the description. -/
namespace OxiGate
namespace Proxy

open RustText Net Http Lb BodyLimit Interaction

def Op.inCourse : Op → Bool
  | .selectSticky _ _ => true
  | .selectExcluding _ _ => true
  | .select _ => true
  | .incConnections _ => true
  | .request _ _ _ => true
  | _ => false

def course (tr : Trace) : Trace := tr.filter (·.1.inCourse)

def Op.attempt? : Op → Option UpstreamRef
  | .incConnections u => some u
  | _ => none

def Op.sent? : Op → Option (UpstreamRef × OutRequest)
  | .request u out _ => some (u,out)
  | _ => none

def attempted (tr : Trace) : List UpstreamRef := tr.filterMap (·.1.attempt?)

def sent (tr : Trace) : List (UpstreamRef × OutRequest) := tr.filterMap (·.1.sent?)

@[simp] theorem course_nil : course [] = [] := rfl

@[simp] theorem course_append (tr tr' : Trace) : course (tr++tr') = course tr++course tr' :=
  List.filter_append ..

theorem course_cons (e : Op × Moment) (tr : Trace) :
    course (e::tr) = if e.1.inCourse then e::course tr else course tr :=
  List.filter_cons ..

theorem mem_course {e : Op × Moment} {tr : Trace} :
    e ∈ course tr ↔ e ∈ tr ∧ e.1.inCourse = true := List.mem_filter

@[simp] theorem attempted_append (tr tr' : Trace) :
    attempted (tr++tr') = attempted tr++attempted tr' := List.filterMap_append

@[simp] theorem sent_append (tr tr' : Trace) : sent (tr++tr') = sent tr++sent tr' :=
  List.filterMap_append

theorem filterMap_course {β : Type} {f : Op → Option β} (hf : ∀ op, op.inCourse = false → f op = none)
    (tr : Trace) : (course tr).filterMap (fun e => f e.1) = tr.filterMap fun e => f e.1 := by
  induction tr with
  | nil => rfl
  | cons e tr ih =>
    cases he : e.1.inCourse with
    | true => simp [course_cons,he,List.filterMap_cons,ih]
    | false => simp [course_cons,he,hf _ he,ih]

theorem attempted_course (tr : Trace) : attempted (course tr) = attempted tr := by
  apply filterMap_course
  intro op hop
  cases op with
  | incConnections u => cases hop
  | _ => rfl

theorem sent_course (tr : Trace) : sent (course tr) = sent tr := by
  apply filterMap_course
  intro op hop
  cases op with
  | request u out timeout => cases hop
  | _ => rfl

/-- The calls made before a request is forwarded, the rate being that of `ip`. -/
def Op.atGate (ip : IpAddr) : Op → Bool
  | .now => true
  | .tryAcquire _ => true
  | .check _ ip' => decide (ip' = ip)
  | .metric _ => true
  | _ => false

def Gated (ip : IpAddr) (tr : Trace) : Prop := ∀ e ∈ tr, e.1.atGate ip = true

@[simp] theorem gated_nil (ip : IpAddr) : Gated ip [] := by simp [Gated]

@[simp] theorem gated_cons {ip : IpAddr} {e : Op × Moment} {tr : Trace} :
    Gated ip (e::tr) ↔ e.1.atGate ip = true ∧ Gated ip tr := List.forall_mem_cons

theorem Gated.append {ip : IpAddr} {tr tr' : Trace} (h : Gated ip tr) (h' : Gated ip tr') :
    Gated ip (tr++tr') := by
  intro e he
  rcases List.mem_append.mp he with he | he
  · exact h e he
  · exact h' e he

theorem Gated.course {ip : IpAddr} {tr : Trace} (h : Gated ip tr) : course tr = [] := by
  apply List.filter_eq_nil_iff.mpr
  rintro ⟨op,m⟩ he
  have hop := h _ he
  cases op <;> simp_all [Op.inCourse,Op.atGate]

/-- What can keep a request from being forwarded: the configuration, or a moment without a
permit, beyond the rate, or at which the body cannot be read. -/
def Barred (ctx : ProxyContext) (req : Request) (remoteAddr : SocketAddr) (tr : Trace) : Prop :=
  aclAllows ctx remoteAddr.ip = false ∨ ctx.router.resolve req.parts.uri.path = none ∨
    ∃ e ∈ tr, e.2.permitFree = false ∨ e.2.withinRate = false ∨
      ∃ err, collectLimited req.body ctx.maxBodyBytes ctx.idleTimeout e.2.time = .error err

theorem Barred.mono {ctx : ProxyContext} {req : Request} {remoteAddr : SocketAddr} {tr tr' : Trace}
    (h : Barred ctx req remoteAddr tr) (hsub : tr ⊆ tr') : Barred ctx req remoteAddr tr' := by
  refine h.imp_right (Or.imp_right ?_)
  rintro ⟨e,he,hmoment⟩
  exact ⟨e,hsub he,hmoment⟩

/-- The request is answered without an attempt. -/
structure TurnedAway (ctx : ProxyContext) (req : Request) (remoteAddr : SocketAddr) (tr : Trace)
    (resp : Response) : Prop where
  course : course tr = []
  response : ∃ status msg, (status ≠ 502 ∧ (status = 403 → aclAllows ctx remoteAddr.ip = false)) ∧
    resp = errorResponse status msg
  barred : Barred ctx req remoteAddr tr

variable [HttpCrate]

theorem copyFields_ok (skip : HeaderName → Bool) (fields before : HeaderMap) :
    copyFields skip fields (.ok before) = .ok (appendAll before (fields.filter fun f => !skip f.1)) := by
  induction fields generalizing before with
  | nil => rfl
  | cons f fields ih =>
    have hstep : copyFields skip (f::fields) (.ok before) =
        copyFields skip fields (if skip f.1 then .ok before else .ok (HttpCrate.append before f.1 f.2)) := by
      simp only [copyFields,List.foldl_cons]
      congr 1
    cases hf : skip f.1 with
    | false => simp [hstep,hf,ih,appendAll]
    | true => simp [hstep,hf,ih]

/-- The upstream's answer as it is passed on. -/
def passOn (preserveUpgrade : Bool) (idleTimeout : ℕ) (r : UpstreamResponse) : Response where
  status := r.status
  version := r.version
  headers := ofFields (r.headers.filter fun f => !isStopped preserveUpgrade f.1)
  body := .streamed r.body idleTimeout

theorem buildResponse_eq (a : ProxyAttempt) (r : UpstreamResponse) :
    buildResponse a r = .ok (passOn a.preserveUpgrade a.idleTimeout r) := by
  simp only [buildResponse,copyFields_ok]
  rfl

def outcome (a : ProxyAttempt) : Except SendError UpstreamResponse → Except String Response
  | .error e => .error e.message
  | .ok r => .ok (passOn a.preserveUpgrade a.idleTimeout r)

/-- An attempt fails before anything is sent, or sends the one request it built. -/
theorem attemptProxy_sat (a : ProxyAttempt) :
    Sat answer (attemptProxy a) fun tr result =>
      (∃ e, buildRequest a = .error e ∧ tr = [] ∧ result = .error e) ∨
      ∃ out m, buildRequest a = .ok out ∧ tr = [(.request a.upstream out a.requestTimeout,m)] ∧
        result = outcome a (m.reply a.upstream out) := by
  unfold attemptProxy
  cases hbuild : buildRequest a with
  | error e => simp
  | ok out =>
    simp only [sat_perform_bind,sat_pure]
    intro m
    refine Or.inr ⟨out,m,rfl,rfl,?_⟩
    cases hreply : m.reply a.upstream out with
    | error e => simp [answer,hreply,outcome]
    | ok r => simp [answer,hreply,outcome,buildResponse_eq]

omit [HttpCrate] in
theorem acquirePermit_sat (ctx : ProxyContext) (ip : IpAddr) :
    Sat answer (acquirePermit ctx) fun tr permitted =>
      Gated ip tr ∧ (permitted = false → ∃ e ∈ tr, e.2.permitFree = false) := by
  unfold acquirePermit
  split <;> simp [Op.atGate,answer]

omit [HttpCrate] in
theorem checkRate_sat (ctx : ProxyContext) (ip : IpAddr) :
    Sat answer (checkRate ctx ip) fun tr withinRate =>
      Gated ip tr ∧ (withinRate = false → ∃ e ∈ tr, e.2.withinRate = false) := by
  unfold checkRate
  split
  · simp only [sat_perform_bind,sat_pure]
    intro m m'
    exact ⟨by simp [Op.atGate],fun hover => ⟨_,List.mem_cons_self,hover⟩⟩
  · simp

omit [HttpCrate] in
theorem reject_sat (ip : IpAddr) (method : String) (status : ℕ) (msg : String) :
    Sat answer (reject method status msg) fun tr resp =>
      Gated ip tr ∧ resp = errorResponse status msg := by
  simp [reject,Op.atGate]

/-- A request is turned away at a gate, or forwarded in one of the two ways. -/
theorem proxyRequest_rule {ctx : ProxyContext} {req : Request} {remoteAddr : SocketAddr}
    {Q : Trace → Response → Prop}
    (hreject : ∀ tr status msg, Gated remoteAddr.ip tr →
      status ∈ [503,403,429,404] ∧ (status = 403 → aclAllows ctx remoteAddr.ip = false) →
      Barred ctx req remoteAddr tr → Q tr (errorResponse status msg))
    (hforward : ∀ tr lb start, Gated remoteAddr.ip tr → aclAllows ctx remoteAddr.ip = true →
      ctx.router.resolve req.parts.uri.path = some lb →
      Sat answer (if isUpgradeRequest req.parts then proxyUpgrade ctx req remoteAddr lb start
        else proxyPlain ctx req remoteAddr lb start) fun tr' resp => Q (tr++tr') resp) :
    Sat answer (proxyRequest ctx req remoteAddr) Q := by
  have hturned : ∀ tr status msg, Gated remoteAddr.ip tr →
      status ∈ [503,403,429,404] ∧ (status = 403 → aclAllows ctx remoteAddr.ip = false) →
      Barred ctx req remoteAddr tr →
      Sat answer (reject req.parts.method status msg) fun tr' resp => Q (tr++tr') resp := by
    intro tr status msg htr hstatus hbarred
    refine Sat.mono (reject_sat remoteAddr.ip req.parts.method status msg) ?_
    rintro tr' resp ⟨htr',rfl⟩
    exact hreject _ status msg (htr.append htr') hstatus (hbarred.mono (List.subset_append_left _ _))
  unfold proxyRequest
  rw [sat_perform_bind]
  intro mStart
  have hstart : Gated remoteAddr.ip [(.now,mStart)] := by simp [Op.atGate]
  rw [sat_bind]
  refine Sat.mono (acquirePermit_sat ctx remoteAddr.ip) ?_
  rintro trPermit permitted ⟨hpermit,hfree⟩
  have hopen : Gated remoteAddr.ip ((.now,mStart)::trPermit) := hstart.append hpermit
  cases permitted with
  | false =>
    obtain ⟨e,he,hnone⟩ := hfree rfl
    exact hturned _ 503 _ hopen ⟨by decide,by simp⟩ (Or.inr (Or.inr ⟨e,by simp [he],Or.inl hnone⟩))
  | true =>
    cases hacl : aclAllows ctx remoteAddr.ip with
    | false => exact hturned _ 403 _ hopen ⟨by decide,fun _ => hacl⟩ (Or.inl hacl)
    | true =>
      simp only [Bool.not_true,Bool.false_eq_true,if_false]
      rw [sat_bind]
      refine Sat.mono (checkRate_sat ctx remoteAddr.ip) ?_
      rintro trRate withinRate ⟨hrate,hwithin⟩
      have hpassed := hopen.append hrate
      cases withinRate with
      | false =>
        obtain ⟨e,he,hover⟩ := hwithin rfl
        simpa using hturned _ 429 "Too Many Requests" hpassed ⟨by decide,by simp⟩
          (Or.inr (Or.inr ⟨e,by simp [he],Or.inr (Or.inl hover)⟩))
      | true =>
        cases hlb : ctx.router.resolve req.parts.uri.path with
        | none => simpa using hturned _ 404 "No route matched" hpassed ⟨by decide,by simp⟩ (Or.inr (Or.inl hlb))
        | some lb => simpa using hforward _ lb _ hpassed hacl hlb

def plainAttempt (fw : Forwarding) (u : UpstreamRef) : ProxyAttempt :=
  proxyAttempt fw.ctx fw.parts fw.remoteAddr fw.body false u

/-- The selecting call of an iteration, and what it finds. -/
def selection (fw : Forwarding) (attempt : ℕ) (tried : List String) : Op :=
  if attempt = 0 then .selectSticky fw.lb fw.stickyVal else .selectExcluding fw.lb tried

def chosen (fw : Forwarding) (attempt : ℕ) (tried : List String) (m : Moment) : Option UpstreamRef :=
  if attempt = 0 then answer m (.selectSticky fw.lb fw.stickyVal)
  else answer m (.selectExcluding fw.lb tried)

def badGateway : Response := errorResponse 502 "Bad Gateway"

/-- What a failed attempt adds to the course: nothing when its request could not be
built, else the request that was not answered. -/
inductive FailedExchange (fw : Forwarding) (u : UpstreamRef) : Trace → Prop
  | unbuilt {e : String} (hbuild : buildRequest (plainAttempt fw u) = .error e) :
      FailedExchange fw u []
  | refused {out : OutRequest} {m : Moment} {e : SendError}
      (hbuild : buildRequest (plainAttempt fw u) = .ok out) (hreply : m.reply u out = .error e) :
      FailedExchange fw u [(.request u out fw.ctx.requestTimeout,m)]

/-- The courses of the loop with `left` iterations to come, and the response at the
end of each. -/
inductive Course (fw : Forwarding) : (left attempt : ℕ) → (tried : List String) → Trace → Response → Prop
  | spent {attempt : ℕ} {tried : List String} : Course fw 0 attempt tried [] badGateway
  | nobody {left attempt : ℕ} {tried : List String} {m : Moment}
      (hnone : chosen fw attempt tried m = none) :
      Course fw (left+1) attempt tried [(selection fw attempt tried,m)] badGateway
  | again {left attempt : ℕ} {tried : List String} {m m' : Moment} {u : UpstreamRef}
      {exchange tr : Trace} {resp : Response} (hsome : chosen fw attempt tried m = some u)
      (hfailed : FailedExchange fw u exchange)
      (hrest : Course fw left (attempt+1) (tried++[u.address]) tr resp) :
      Course fw (left+1) attempt tried
        ((selection fw attempt tried,m)::(.incConnections u,m')::(exchange++tr)) resp
  | answered {left attempt : ℕ} {tried : List String} {m m' m'' : Moment} {u : UpstreamRef}
      {out : OutRequest} {r : UpstreamResponse}
      (hsome : chosen fw attempt tried m = some u)
      (hbuild : buildRequest (plainAttempt fw u) = .ok out)
      (hreply : m''.reply u out = .ok r) :
      Course fw (left+1) attempt tried
        [(selection fw attempt tried,m),(.incConnections u,m'),
          (.request u out fw.ctx.requestTimeout,m'')]
        (decorate fw.ctx u.address (passOn false fw.ctx.idleTimeout r))

omit [HttpCrate] in
theorem selectUpstream_sat (fw : Forwarding) (attempt : ℕ) (tried : List String) :
    Sat answer (selectUpstream fw attempt tried) fun tr r =>
      ∃ m, course tr = [(selection fw attempt tried,m)] ∧ r = chosen fw attempt tried m := by
  unfold selectUpstream
  by_cases hzero : attempt = 0
  · simp only [if_pos hzero,sat_perform]
    intro m
    exact ⟨m,by simp [selection,hzero,course_cons,Op.inCourse],by simp [chosen,hzero]⟩
  · simp only [if_neg hzero,sat_perform_bind,sat_perform]
    intro m m'
    exact ⟨m',by simp [selection,hzero,course_cons,Op.inCourse],by simp [chosen,hzero]⟩

theorem countedAttempt_sat (fw : Forwarding) (u : UpstreamRef) :
    Sat answer (countedAttempt fw u) fun tr result =>
      (∃ m e, buildRequest (plainAttempt fw u) = .error e ∧ course tr = [(.incConnections u,m)] ∧
        result = .error e) ∨
      ∃ m m' out, buildRequest (plainAttempt fw u) = .ok out ∧
        course tr = [(.incConnections u,m),(.request u out fw.ctx.requestTimeout,m')] ∧
        result = outcome (plainAttempt fw u) (m'.reply u out) := by
  unfold countedAttempt
  simp only [sat_perform_bind]
  intro m _
  rw [sat_bind]
  refine Sat.mono (attemptProxy_sat (plainAttempt fw u)) ?_
  simp only [sat_perform_bind,sat_pure]
  rintro tr result (⟨e,hbuild,rfl,rfl⟩ | ⟨out,m',hbuild,rfl,rfl⟩) _ _
  · exact Or.inl ⟨m,e,hbuild,by simp [course_cons,Op.inCourse],rfl⟩
  · exact Or.inr ⟨m,m',out,hbuild,by simp [course_cons,Op.inCourse,plainAttempt,proxyAttempt],rfl⟩

theorem succeed_sat (fw : Forwarding) (attempt : ℕ) (u : UpstreamRef) (response : Response) :
    Sat answer (succeed fw attempt u response) fun tr resp =>
      course tr = [] ∧ resp = decorate fw.ctx u.address response := by
  unfold succeed countAnswer
  split <;> simp [sat_bind,course_cons,Op.inCourse]

omit [HttpCrate] in
theorem allAttemptsFailed_sat (fw : Forwarding) (lastError : Option String) :
    Sat answer (allAttemptsFailed fw lastError) fun tr resp => course tr = [] ∧ resp = badGateway := by
  simp [allAttemptsFailed,reject,course_cons,Op.inCourse,badGateway]

theorem attemptLoop_sat (fw : Forwarding) (left attempt : ℕ) (tried : List String)
    (lastError : Option String) :
    Sat answer (attemptLoop fw left attempt tried lastError) fun tr resp =>
      Course fw left attempt tried (course tr) resp := by
  induction left generalizing attempt tried lastError with
  | zero =>
    refine Sat.mono (allAttemptsFailed_sat fw lastError) ?_
    rintro tr resp ⟨htr,rfl⟩
    rw [htr]
    exact .spent
  | succ left ih =>
    rw [attemptLoop,sat_bind]
    refine Sat.mono (selectUpstream_sat fw attempt tried) ?_
    rintro trSel upstream ⟨m,hsel,hchosen⟩
    cases upstream with
    | none =>
      refine Sat.mono (allAttemptsFailed_sat fw lastError) ?_
      rintro tr resp ⟨htr,rfl⟩
      rw [course_append,hsel,htr]
      exact .nobody hchosen.symm
    | some u =>
      rw [sat_bind]
      refine Sat.mono (countedAttempt_sat fw u) ?_
      rintro trAtt result (⟨m',e,hbuild,hatt,rfl⟩ | ⟨m',m'',out,hbuild,hatt,rfl⟩)
      · rw [sat_perform_bind]
        intro mLog
        refine Sat.mono (ih (attempt+1) (tried++[u.address]) (some e)) ?_
        intro tr resp hrest
        simpa [hsel,hatt,course_cons,Op.inCourse] using
          Course.again hchosen.symm (.unbuilt hbuild) hrest
      · cases hreply : m''.reply u out with
        | error e =>
          simp only [outcome,sat_perform_bind]
          intro mLog
          refine Sat.mono (ih (attempt+1) (tried++[u.address]) (some e.message)) ?_
          intro tr resp hrest
          simpa [hsel,hatt,course_cons,Op.inCourse] using
            Course.again hchosen.symm (.refused hbuild hreply) hrest
        | ok r =>
          simp only [outcome]
          refine Sat.mono (succeed_sat fw attempt u _) ?_
          rintro tr resp ⟨htr,rfl⟩
          simpa [hsel,hatt,htr,plainAttempt,proxyAttempt] using
            Course.answered hchosen.symm hbuild hreply

/-- A plain request is turned away or follows the loop with its whole body. -/
theorem proxyPlain_sat (ctx : ProxyContext) (req : Request) (remoteAddr : SocketAddr) (lb start : ℕ) :
    Sat answer (proxyPlain ctx req remoteAddr lb start) fun tr resp =>
      TurnedAway ctx req remoteAddr tr resp ∨
      (∃ now, collectLimited req.body ctx.maxBodyBytes ctx.idleTimeout now = .ok req.body.data) ∧
        Course (forwarding ctx req remoteAddr lb start req.body.data)
          (maxAttempts ctx req.parts.method req.body.data) 0 [] (course tr) resp := by
  unfold proxyPlain
  simp only [sat_perform_bind]
  intro mNow mBody
  have hbarred : ∀ {err : BodyLimitError} {tr : Trace},
      collectLimited req.body ctx.maxBodyBytes ctx.idleTimeout mNow.time = .error err →
      Barred ctx req remoteAddr ((.now,mNow)::tr) := fun hbody =>
    Or.inr (Or.inr ⟨_,List.mem_cons_self,Or.inr (Or.inr ⟨_,hbody⟩)⟩)
  have hreject : ∀ {err : BodyLimitError} (status : ℕ) (msg : String),
      status ≠ 502 ∧ (status = 403 → aclAllows ctx remoteAddr.ip = false) →
      collectLimited req.body ctx.maxBodyBytes ctx.idleTimeout mNow.time = .error err →
      Sat answer (reject req.parts.method status msg) fun tr resp =>
        TurnedAway ctx req remoteAddr ((.now,mNow)::(.collectBody,mBody)::tr) resp := by
    intro err status msg hstatus hbody
    refine Sat.mono (reject_sat remoteAddr.ip req.parts.method status msg) ?_
    rintro tr resp ⟨htr,rfl⟩
    exact ⟨by simp [course_cons,Op.inCourse,htr.course],⟨status,msg,hstatus,rfl⟩,hbarred hbody⟩
  split
  · rename_i body hbody
    have hdata : body = req.body.data := collectLimited_ok hbody
    subst hdata
    refine Sat.mono (attemptLoop_sat _ _ _ _ _) ?_
    intro tr resp hcourse
    exact Or.inr ⟨⟨_,hbody⟩,by simpa [course_cons,Op.inCourse] using hcourse⟩
  · rename_i hbody
    exact Sat.mono (hreject 413 _ ⟨by decide,by simp⟩ hbody) fun _ _ => Or.inl
  · rename_i hbody
    exact Sat.mono (hreject 408 _ ⟨by decide,by simp⟩ hbody) fun _ _ => Or.inl
  · rename_i e hbody
    simp only [sat_perform_bind,sat_pure]
    intro mLog
    exact Or.inl ⟨rfl,⟨400,_,⟨by decide,by simp⟩,rfl⟩,hbarred hbody⟩

end Proxy
end OxiGate
