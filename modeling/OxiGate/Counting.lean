import OxiGate.Accounting

/-! What the metrics say about the requests: `oxigate_requests_total` against the responses, and
`oxigate_retries_total` against the attempts. The calls of one request are followed to where it
returns or waits; requests served at the same time keep one log, and the counters add up over it. -/
namespace OxiGate
namespace Proxy

open RustText Net Http Lb BodyLimit Interaction Accounting

/-- The status label under which the call counts a request. -/
def Op.counts? : Op → Option String
  | .metric (.requestsTotal _ status _) => some status
  | _ => none

def Op.isRetry : Op → Bool
  | .metric .retriesTotal => true
  | _ => false

def inVain (e : Op × Moment) : Bool :=
  match e.1 with
  | .selectExcluding lb tried => (answer e.2 (.selectExcluding lb tried)).isNone
  | _ => false

def counted (tr : Trace) : List String := tr.filterMap (·.1.counts?)

/-- The increments of `oxigate_retries_total`. -/
def retriesTotal (tr : Trace) : ℕ := tr.countP (·.1.isRetry)

def vain (tr : Trace) : ℕ := tr.countP inVain

/-- The time of the call before the body is collected. -/
def bodyTime : Trace → Option ℕ
  | e::e'::tr => if e'.1 = .collectBody then some e.2.time else bodyTime (e'::tr)
  | _ => none

def checks (tr : Trace) : List (IpAddr × ℕ) :=
  tr.filterMap fun e =>
    match e.1 with
    | .check _ ip => some (ip,e.2.time)
    | _ => none

@[simp] theorem checks_append (tr tr' : Trace) : checks (tr++tr') = checks tr++checks tr' :=
  List.filterMap_append

@[simp] theorem retriesTotal_nil : retriesTotal [] = 0 := rfl

@[simp] theorem vain_nil : vain [] = 0 := rfl

@[simp] theorem counted_append (tr tr' : Trace) : counted (tr++tr') = counted tr++counted tr' :=
  List.filterMap_append

@[simp] theorem retriesTotal_append (tr tr' : Trace) :
    retriesTotal (tr++tr') = retriesTotal tr+retriesTotal tr' := List.countP_append

@[simp] theorem vain_append (tr tr' : Trace) : vain (tr++tr') = vain tr+vain tr' :=
  List.countP_append

theorem counted_cons (e : Op × Moment) (tr : Trace) :
    counted (e::tr) = e.1.counts?.toList++counted tr := by
  cases h : e.1.counts? <;> simp [counted,h]

theorem vain_cons (e : Op × Moment) (tr : Trace) :
    vain (e::tr) = vain tr+if inVain e then 1 else 0 := List.countP_cons

theorem bodyTime_append (tr rest : Trace) (e : Op × Moment) (m : Moment)
    (h : ∀ e ∈ tr, e.1 ≠ .collectBody) (he : e.1 ≠ .collectBody) :
    bodyTime (tr++e::(.collectBody,m)::rest) = some e.2.time := by
  induction tr with
  | nil => simp [bodyTime]
  | cons e' tr ih =>
    obtain ⟨-,htr⟩ := List.forall_mem_cons.mp h
    cases tr with
    | nil => simp [bodyTime,he]
    | cons e'' tr =>
      have hnext := (List.forall_mem_cons.mp htr).1
      simpa [bodyTime,hnext] using ih htr

theorem bodyTime_eq_none {tr : Trace} (h : ∀ e ∈ tr, e.1 ≠ .collectBody) : bodyTime tr = none := by
  fun_induction bodyTime tr with
  | case1 e e' tr he => exact absurd he (h e' (by simp))
  | case2 e e' tr he ih => exact ih fun e'' hmem => h e'' (List.mem_cons_of_mem _ hmem)
  | case3 => rfl

section Idle

def Op.idle (op : Op) : Bool :=
  op.counts?.isNone && !op.isRetry && !op.inCourse && decide (op ≠ .collectBody)

def Idle (tr : Trace) : Prop := ∀ e ∈ tr, e.1.idle = true

variable {tr tr' : Trace}

theorem Idle.append (h : Idle tr) (h' : Idle tr') : Idle (tr++tr') :=
  List.forall_mem_append.mpr ⟨h,h'⟩

theorem Idle.counted (h : Idle tr) : counted tr = [] := by
  refine List.filterMap_eq_nil_iff.mpr fun e he => ?_
  have hidle := h e he
  simp only [Op.idle,Bool.and_eq_true] at hidle
  exact Option.isNone_iff_eq_none.mp hidle.1.1.1

theorem Idle.retriesTotal (h : Idle tr) : retriesTotal tr = 0 := by
  refine List.countP_eq_zero.mpr fun e he => ?_
  have hidle := h e he
  simp only [Op.idle,Bool.and_eq_true,Bool.not_eq_true'] at hidle
  simp [hidle.1.1.2]

theorem Idle.course (h : Idle tr) : course tr = [] := by
  refine List.filter_eq_nil_iff.mpr fun e he => ?_
  have hidle := h e he
  simp only [Op.idle,Bool.and_eq_true,Bool.not_eq_true'] at hidle
  simp [hidle.1.2]

theorem Idle.collectBody (h : Idle tr) : ∀ e ∈ tr, e.1 ≠ .collectBody := by
  intro e he
  have hidle := h e he
  simp only [Op.idle,Bool.and_eq_true,decide_eq_true_eq] at hidle
  exact hidle.2

end Idle

/-- Each retry counted is an attempt, those before `attempt` left out, or was in vain. -/
def Balanced (attempt : ℕ) (tr : Trace) : Prop :=
  retriesTotal tr+(if attempt = 0 ∧ attempted tr ≠ [] then 1 else 0) = (attempted tr).length+vain tr

theorem inVain_of_not_inCourse {e : Op × Moment} (h : e.1.inCourse = false) : inVain e = false := by
  rcases e with ⟨op,m⟩
  cases op with
  | selectExcluding lb tried => cases h
  | _ => rfl

theorem vain_course (tr : Trace) : vain (course tr) = vain tr := by
  rw [vain,course,List.countP_filter,vain]
  refine List.countP_congr fun e _ => ?_
  cases he : e.1.inCourse with
  | true => simp
  | false => simp [inVain_of_not_inCourse he]

theorem Idle.balanced_append {tr tr' : Trace} {attempt : ℕ} (h : Idle tr) (h' : Balanced attempt tr') :
    Balanced attempt (tr++tr') := by
  have hattempted : attempted tr = [] := by rw [← attempted_course,h.course]; rfl
  have hvain : vain tr = 0 := by rw [← vain_course,h.course]; rfl
  simpa [Balanced,h.retriesTotal,hattempted,hvain] using h'

section Programs

variable [HttpCrate]

structure OneAttempt (tr : Trace) : Prop where
  counted : counted tr = []
  retriesTotal : retriesTotal tr = 0
  attempted : (attempted tr).length = 1
  vain : vain tr = 0

/-- The request is counted under the status of the response, and nothing else is. -/
structure Settled (tr : Trace) (resp : Response) : Prop where
  counted : counted tr = [toString resp.status]
  retriesTotal : retriesTotal tr = 0
  attempted : attempted tr = []
  vain : vain tr = 0

/-- The request is counted under the status of the response, or in the excepted case not at all. -/
def CountedUnless (P : Prop) (tr : Trace) (resp : Response) : Prop :=
  (counted tr = [toString resp.status] ∧ ¬ P) ∨ (counted tr = [] ∧ P)

omit [HttpCrate] in
theorem CountedUnless.iff {P : Prop} {tr : Trace} {resp : Response} (h : CountedUnless P tr resp) :
    counted tr = [toString resp.status] ↔ ¬ P := by
  rcases h with ⟨hcounted,hP⟩ | ⟨hcounted,hP⟩
  · simp [hcounted,hP]
  · simp [hcounted,hP]

omit [HttpCrate] in
theorem CountedUnless.after {P P' : Prop} {tr tr' : Trace} {resp : Response}
    (h : CountedUnless P tr' resp) (htr : Idle tr) (hP : P' ↔ P) : CountedUnless P' (tr++tr') resp := by
  unfold CountedUnless
  rw [counted_append,htr.counted,List.nil_append,hP]
  exact h

theorem attemptProxy_until (a : ProxyAttempt) :
    SatUntil answer awaits (attemptProxy a) (fun tr => tr = []) fun tr result =>
      (∃ e, buildRequest a = .error e ∧ tr = [] ∧ result = .error e) ∨
      ∃ out m, buildRequest a = .ok out ∧ tr = [(.request a.upstream out a.requestTimeout,m)] ∧
        result = outcome a (m.reply a.upstream out) := by
  refine ⟨?_,attemptProxy_sat a⟩
  intro tr hwaits
  unfold attemptProxy at hwaits
  split at hwaits
  · exact hwaits.elim
  · rcases hwaits with ⟨htr,-⟩ | ⟨m,rest,-,hwaits⟩
    · exact htr
    · exact hwaits.elim

theorem countedAttempt_until (fw : Forwarding) (u : UpstreamRef) :
    SatUntil answer awaits (countedAttempt fw u) OneAttempt fun tr _ => OneAttempt tr := by
  unfold countedAttempt
  simp only [satUntil_perform_bind]
  refine ⟨by simp [awaits],fun m => ⟨by simp [awaits],fun m' => SatUntil.bind ?_⟩⟩
  refine (attemptProxy_until _).mono ?_ ?_
  · rintro tr rfl
    exact ⟨rfl,rfl,rfl,rfl⟩
  · rintro tr result (⟨e,-,rfl,-⟩ | ⟨out,mr,-,rfl,-⟩)
    · simp only [satUntil_perform_bind,satUntil_pure]
      exact ⟨by simp [awaits],fun _ => ⟨by simp [awaits],fun _ => ⟨rfl,rfl,rfl,rfl⟩⟩⟩
    · simp only [satUntil_perform_bind,satUntil_pure]
      exact ⟨by simp [awaits],fun _ => ⟨by simp [awaits],fun _ => ⟨rfl,rfl,rfl,rfl⟩⟩⟩

omit [HttpCrate] in
/-- A selection for another attempt is counted as a retry, whatever it finds. -/
theorem selectUpstream_until (fw : Forwarding) (attempt : ℕ) (tried : List String) :
    SatUntil answer awaits (selectUpstream fw attempt tried) (fun _ => False) fun tr r =>
      counted tr = [] ∧ attempted tr = [] ∧ retriesTotal tr = (if attempt = 0 then 0 else 1) ∧
        vain tr = if attempt ≠ 0 ∧ r = none then 1 else 0 := by
  unfold selectUpstream
  by_cases hzero : attempt = 0
  · simp only [if_pos hzero,satUntil_perform]
    exact ⟨by simp [awaits],fun m => ⟨rfl,rfl,rfl,by simp [hzero,vain_cons,inVain]⟩⟩
  · simp only [if_neg hzero,satUntil_perform_bind,satUntil_perform]
    refine ⟨by simp [awaits],fun m => ⟨by simp [awaits],fun m' => ⟨rfl,rfl,rfl,?_⟩⟩⟩
    simp [hzero,vain_cons,inVain]

omit [HttpCrate] in
theorem reject_until (method : String) (status : ℕ) (msg : String) :
    SatUntil answer awaits (reject method status msg) (fun _ => False) fun tr resp =>
      (∃ m, tr = [(.metric (.requestsTotal method (toString status) "none"),m)]) ∧
        resp = errorResponse status msg := by
  simp [reject,awaits]

omit [HttpCrate] in
theorem countAnswer_until (method : String) (status : ℕ) (address : String) (start : ℕ) :
    SatUntil answer awaits (countAnswer method status address start) (fun _ => False) fun tr _ =>
      ∃ m m' m'' duration, tr = [(.now,m),(.metric (.requestsTotal method (toString status) address),m'),
        (.metric (.requestDuration address duration),m'')] := by
  simp [countAnswer,awaits]

omit [HttpCrate] in
theorem allAttemptsFailed_until (fw : Forwarding) (lastError : Option String) :
    SatUntil answer awaits (allAttemptsFailed fw lastError) (fun _ => False) Settled := by
  simp only [allAttemptsFailed,reject,satUntil_perform_bind,satUntil_pure]
  exact ⟨by simp [awaits],fun m => ⟨by simp [awaits],fun m' => ⟨rfl,rfl,rfl,rfl⟩⟩⟩

theorem succeed_until (fw : Forwarding) (attempt : ℕ) (u : UpstreamRef) (response : Response) :
    SatUntil answer awaits (succeed fw attempt u response) (fun _ => False) Settled := by
  unfold succeed
  refine SatUntil.bind ((countAnswer_until _ _ _ _).mono (fun _ => id) ?_)
  rintro tr duration ⟨m,m',m'',d,rfl⟩
  split
  · simp only [satUntil_perform_bind,satUntil_pure]
    exact ⟨by simp [awaits],fun _ => ⟨rfl,rfl,rfl,rfl⟩⟩
  · exact satUntil_pure.mpr ⟨rfl,rfl,rfl,rfl⟩

theorem attemptLoop_until (fw : Forwarding) (left attempt : ℕ) (tried : List String)
    (lastError : Option String) :
    SatUntil answer awaits (attemptLoop fw left attempt tried lastError) (Balanced attempt)
      fun tr resp => Balanced attempt tr ∧ counted tr = [toString resp.status] := by
  induction left generalizing attempt tried lastError with
  | zero =>
    refine (allAttemptsFailed_until fw lastError).mono (fun _ => False.elim) ?_
    intro tr resp h
    exact ⟨by simp [Balanced,h.attempted,h.retriesTotal,h.vain],h.counted⟩
  | succ left ih =>
    rw [attemptLoop]
    refine SatUntil.bind ((selectUpstream_until fw attempt tried).mono (fun _ => False.elim) ?_)
    rintro trSel upstream ⟨hcounted,hattempted,hretries,hvain⟩
    cases upstream with
    | none =>
      refine (allAttemptsFailed_until fw lastError).mono (fun _ => False.elim) ?_
      intro tr resp h
      refine ⟨?_,by simp [hcounted,h.counted]⟩
      by_cases hzero : attempt = 0
      · simp [Balanced,hattempted,h.attempted,hretries,h.retriesTotal,hvain,h.vain,hzero]
      · simp [Balanced,hattempted,h.attempted,hretries,h.retriesTotal,hvain,h.vain,hzero]
    | some u =>
      -- one attempt, and for all but the first the retry counted for it
      have hbegun : ∀ {tr tr' : Trace}, OneAttempt tr → Balanced (attempt+1) tr' →
          Balanced attempt (trSel++(tr++tr')) := by
        intro tr tr' hone hrest
        have hne : attempted tr ≠ [] := fun h => by simpa [h] using hone.attempted
        simp only [Balanced,Nat.succ_ne_zero,false_and,if_false,Nat.add_zero] at hrest
        by_cases hzero : attempt = 0
        · simp [Balanced,hretries,hattempted,hvain,hone.retriesTotal,hone.vain,hone.attempted,hrest,hzero,hne]
          omega
        · simp [Balanced,hretries,hattempted,hvain,hone.retriesTotal,hone.vain,hone.attempted,hrest,hzero]
          omega
      have hnothing : Balanced (attempt+1) [] := by simp [Balanced]
      refine SatUntil.bind ((countedAttempt_until fw u).mono ?_ ?_)
      · intro tr hone
        simpa using hbegun hone hnothing
      · intro tr result hone
        cases result with
        | ok response =>
          refine (succeed_until fw attempt u response).mono (fun _ => False.elim) ?_
          intro tr' resp h
          refine ⟨hbegun hone ?_,by simp [hcounted,hone.counted,h.counted]⟩
          simp [Balanced,h.attempted,h.retriesTotal,h.vain]
        | error e =>
          simp only [satUntil_perform_bind]
          refine ⟨by simp [awaits],fun mLog => (ih _ _ _).mono ?_ ?_⟩
          · intro tr' hrest
            exact hbegun hone hrest
          · rintro tr' resp ⟨hrest,hcount⟩
            exact ⟨hbegun hone hrest,by simpa [hcounted,hone.counted,counted_cons,Op.counts?] using hcount⟩

theorem proxyUpgrade_until (ctx : ProxyContext) (req : Request) (remoteAddr : SocketAddr) (lb start : ℕ) :
    SatUntil answer awaits (proxyUpgrade ctx req remoteAddr lb start) (Balanced 0) fun tr resp =>
      Balanced 0 tr ∧ (∃ m, (.select lb,m) ∈ tr) ∧ CountedUnless (AllFailed tr) tr resp := by
  unfold proxyUpgrade
  rw [satUntil_perform_bind]
  refine ⟨by simp [awaits],fun mSel => ?_⟩
  cases hsel : answer mSel (.select lb) with
  | none =>
    rw [satUntil_pure]
    exact ⟨rfl,⟨mSel,List.mem_cons_self⟩,Or.inr ⟨rfl,AllFailed.nil.cons rfl⟩⟩
  | some u =>
    simp only [satUntil_perform_bind]
    refine ⟨by simp [awaits],fun mInc => SatUntil.bind ((attemptProxy_until _).mono ?_ ?_)⟩
    · rintro tr rfl
      rfl
    rintro tr result (⟨e,-,rfl,rfl⟩ | ⟨out,m,-,rfl,rfl⟩)
    · simp only [satUntil_perform_bind,satUntil_pure]
      refine ⟨by simp [awaits],fun mDec => ⟨rfl,⟨mSel,List.mem_cons_self⟩,Or.inr ⟨rfl,?_⟩⟩⟩
      exact ((AllFailed.nil.cons rfl).cons rfl).cons rfl
    · simp only [satUntil_perform_bind]
      refine ⟨by simp [awaits],fun mDec => ?_⟩
      cases hreply : m.reply u out with
      | error e =>
        simp only [proxyAttempt,hreply,outcome,satUntil_pure]
        refine ⟨rfl,⟨mSel,List.mem_cons_self⟩,Or.inr ⟨rfl,?_⟩⟩
        intro v out' timeout m' hmem
        obtain ⟨⟨rfl,rfl,-⟩,rfl⟩ : (v = u ∧ out' = out ∧ _) ∧ m' = m := by simpa using hmem
        exact ⟨e,hreply⟩
      | ok r =>
        have hanswered : ∀ tr' : Trace, ¬ AllFailed ((.select lb,mSel)::(.incConnections u,mInc)::
            ((.request u out ctx.requestTimeout,m)::tr')) := by
          intro tr' hall
          obtain ⟨e,he⟩ := hall u out ctx.requestTimeout m (by simp)
          rw [hreply] at he
          cases he
        simp only [proxyAttempt,hreply,outcome]
        refine SatUntil.bind ((countAnswer_until _ _ _ _).mono (fun _ => False.elim) ?_)
        rintro tr' _ ⟨m₁,m₂,m₃,duration,rfl⟩
        split
        · simp only [satUntil_perform_bind,satUntil_pure]
          exact ⟨by simp [awaits],fun _ => ⟨rfl,⟨mSel,List.mem_cons_self⟩,Or.inl ⟨rfl,hanswered _⟩⟩⟩
        · exact satUntil_pure.mpr ⟨rfl,⟨mSel,List.mem_cons_self⟩,Or.inl ⟨rfl,hanswered _⟩⟩

/-- A body read from this time on breaks off with an error of the connection. -/
def BreaksOff (ctx : ProxyContext) (req : Request) (time : ℕ) : Prop :=
  ∃ e, collectLimited req.body ctx.maxBodyBytes ctx.idleTimeout time = .error (.other e)

omit [HttpCrate] in
theorem not_breaksOff {ctx : ProxyContext} {req : Request} {time : ℕ} {r : Except BodyLimitError (List UInt8)}
    (h : collectLimited req.body ctx.maxBodyBytes ctx.idleTimeout time = r) (hr : ∀ e, r ≠ .error (.other e)) :
    ¬ BreaksOff ctx req time := by
  rintro ⟨e,he⟩
  exact hr e (h.symm.trans he)

theorem proxyPlain_until (ctx : ProxyContext) (req : Request) (remoteAddr : SocketAddr) (lb start : ℕ) :
    SatUntil answer awaits (proxyPlain ctx req remoteAddr lb start) (Balanced 0) fun tr resp =>
      Balanced 0 tr ∧ ∃ m m' rest, tr = (.now,m)::(.collectBody,m')::rest ∧
        CountedUnless (BreaksOff ctx req m.time) tr resp := by
  unfold proxyPlain
  simp only [satUntil_perform_bind]
  refine ⟨by simp [awaits],fun m => ⟨fun _ => rfl,fun m' => ?_⟩⟩
  have hreject : ∀ (status : ℕ) (msg : String), ¬ BreaksOff ctx req m.time →
      SatUntil answer awaits (reject req.parts.method status msg)
        (fun tr => Balanced 0 ((.now,m)::(.collectBody,m')::tr)) fun tr resp =>
          Balanced 0 ((.now,m)::(.collectBody,m')::tr) ∧
          CountedUnless (BreaksOff ctx req m.time) ((.now,m)::(.collectBody,m')::tr) resp := by
    intro status msg hwhole
    refine (reject_until _ status msg).mono (fun _ => False.elim) ?_
    rintro tr resp ⟨⟨mr,rfl⟩,rfl⟩
    exact ⟨rfl,Or.inl ⟨rfl,hwhole⟩⟩
  cases hbody : collectLimited req.body ctx.maxBodyBytes ctx.idleTimeout (answer m .now) with
  | ok body =>
    have hwhole : ¬ BreaksOff ctx req m.time := not_breaksOff hbody (by simp)
    refine (attemptLoop_until _ _ _ _ _).mono (fun _ => id) ?_
    rintro tr resp ⟨hbalanced,hcounted⟩
    exact ⟨hbalanced,m,m',tr,rfl,Or.inl ⟨hcounted,hwhole⟩⟩
  | error err =>
    cases err with
    | tooLarge =>
      have hwhole : ¬ BreaksOff ctx req m.time := not_breaksOff hbody (by simp)
      exact (hreject 413 _ hwhole).mono (fun _ => id) fun tr _ h => ⟨h.1,m,m',tr,rfl,h.2⟩
    | idleTimeout =>
      have hwhole : ¬ BreaksOff ctx req m.time := not_breaksOff hbody (by simp)
      exact (hreject 408 _ hwhole).mono (fun _ => id) fun tr _ h => ⟨h.1,m,m',tr,rfl,h.2⟩
    | other e =>
      simp only [satUntil_perform_bind,satUntil_pure]
      exact ⟨by simp [awaits],fun mLog => ⟨rfl,m,m',_,rfl,Or.inr ⟨rfl,e,hbody⟩⟩⟩

/-- The rate is checked once, when there is a limiter. -/
def RateChecked (ctx : ProxyContext) (ip : IpAddr) (tr : Trace) : Prop :=
  (ctx.rateLimiter = none ∧ checks tr = []) ∨
    ∃ limiter m, ctx.rateLimiter = some limiter ∧ (.check limiter ip,m) ∈ tr ∧ checks tr = [(ip,m.time)]

omit [HttpCrate] in
theorem acquirePermit_until (ctx : ProxyContext) :
    SatUntil answer awaits (acquirePermit ctx) (fun _ => False) fun tr permitted =>
      Idle tr ∧ checks tr = [] ∧ (permitted = false → ∃ e ∈ tr, e.2.permitFree = false) := by
  unfold acquirePermit
  split <;> simp [awaits,Idle,Op.idle,Op.counts?,Op.isRetry,Op.inCourse,checks,answer]

omit [HttpCrate] in
theorem checkRate_until (ctx : ProxyContext) (ip : IpAddr) :
    SatUntil answer awaits (checkRate ctx ip) (fun _ => False) fun tr withinRate =>
      Idle tr ∧ RateChecked ctx ip tr ∧ (withinRate = false → ∃ e ∈ tr, e.2.withinRate = false) := by
  unfold checkRate
  split
  · rename_i limiter hlimiter
    simp only [satUntil_perform_bind,satUntil_pure]
    refine ⟨by simp [awaits],fun m => ⟨by simp [awaits],fun m' => ⟨?_,?_,?_⟩⟩⟩
    · cases hrate : m.withinRate <;> simp [answer,hrate,Idle,Op.idle,Op.counts?,Op.isRetry,Op.inCourse]
    · exact Or.inr ⟨limiter,m,hlimiter,List.mem_cons_self,rfl⟩
    · intro hover
      exact ⟨_,List.mem_cons_self,hover⟩
  · rename_i hnone
    exact satUntil_pure.mpr ⟨by simp [Idle],Or.inl ⟨hnone,rfl⟩,by simp⟩

theorem proxyRequest_untilRule {ctx : ProxyContext} {req : Request} {remoteAddr : SocketAddr}
    {R : Trace → Prop} {Q : Trace → Response → Prop}
    (hreject : ∀ tr m status msg, Idle tr → Barred ctx req remoteAddr tr →
      Q (tr++[(.metric (.requestsTotal req.parts.method (toString status) "none"),m)])
        (errorResponse status msg))
    (hforward : ∀ tr lb start, Idle tr → RateChecked ctx remoteAddr.ip tr →
      ctx.router.resolve req.parts.uri.path = some lb →
      SatUntil answer awaits (if isUpgradeRequest req.parts then proxyUpgrade ctx req remoteAddr lb start
        else proxyPlain ctx req remoteAddr lb start) (fun tr' => R (tr++tr')) fun tr' resp => Q (tr++tr') resp) :
    SatUntil answer awaits (proxyRequest ctx req remoteAddr) R Q := by
  have hturned : ∀ tr status msg, Idle tr → Barred ctx req remoteAddr tr →
      SatUntil answer awaits (reject req.parts.method status msg) (fun tr' => R (tr++tr'))
        fun tr' resp => Q (tr++tr') resp := by
    intro tr status msg htr hbarred
    refine (reject_until _ status msg).mono (fun _ => False.elim) ?_
    rintro tr' resp ⟨⟨m,rfl⟩,rfl⟩
    exact hreject tr m status msg htr hbarred
  unfold proxyRequest
  rw [satUntil_perform_bind]
  refine ⟨by simp [awaits],fun mStart => ?_⟩
  have hstart : Idle [(.now,mStart)] := by simp [Idle,Op.idle,Op.counts?,Op.isRetry,Op.inCourse]
  refine SatUntil.bind ((acquirePermit_until ctx).mono (fun _ => False.elim) ?_)
  rintro trPermit permitted ⟨hpermit,hnocheck,hfree⟩
  have hopen : Idle ((.now,mStart)::trPermit) := hstart.append hpermit
  cases permitted with
  | false =>
    obtain ⟨e,he,hnone⟩ := hfree rfl
    exact hturned _ 503 _ hopen (Or.inr (Or.inr ⟨e,by simp [he],Or.inl hnone⟩))
  | true =>
    cases hacl : aclAllows ctx remoteAddr.ip with
    | false => exact hturned _ 403 _ hopen (Or.inl hacl)
    | true =>
      simp only [Bool.not_true,Bool.false_eq_true,if_false]
      refine SatUntil.bind ((checkRate_until ctx remoteAddr.ip).mono (fun _ => False.elim) ?_)
      rintro trRate withinRate ⟨hrate,hchecked,hwithin⟩
      have hpassed := hopen.append hrate
      cases withinRate with
      | false =>
        obtain ⟨e,he,hover⟩ := hwithin rfl
        simpa using hturned _ 429 "Too Many Requests" hpassed
          (Or.inr (Or.inr ⟨e,by simp [he],Or.inr (Or.inl hover)⟩))
      | true =>
        cases hlb : ctx.router.resolve req.parts.uri.path with
        | none => simpa using hturned _ 404 "No route matched" hpassed (Or.inr (Or.inl hlb))
        | some lb =>
          have hall : RateChecked ctx remoteAddr.ip ((.now,mStart)::trPermit++trRate) := by
            have hchecks : checks ((.now,mStart)::trPermit++trRate) = checks trRate := by
              have hbefore : checks ((.now,mStart)::trPermit) = [] := hnocheck
              rw [checks_append,hbefore,List.nil_append]
            rcases hchecked with ⟨hnone,hempty⟩ | ⟨limiter,m,hsome,hmem,hone⟩
            · exact Or.inl ⟨hnone,hchecks.trans hempty⟩
            · exact Or.inr ⟨limiter,m,hsome,List.mem_append_right _ hmem,hchecks.trans hone⟩
          simpa using hforward _ lb _ hpassed hall hlb

/-- The exits at which a request is answered without being counted: a plain request whose body
breaks off, and an upgrade that reaches a balancer and is not answered by an upstream. -/
def Uncounted (r : Arrival) (tr : Trace) : Prop :=
  if isUpgradeRequest r.req.parts then (∃ lb m, (.select lb,m) ∈ tr) ∧ AllFailed tr
  else ∃ time, bodyTime tr = some time ∧ BreaksOff r.ctx r.req time

theorem uncounted_upgrade {r : Arrival} {tr tr' : Trace} {lb : ℕ} {m : Moment}
    (hupgrade : isUpgradeRequest r.req.parts = true) (htr : Idle tr) (hsel : (.select lb,m) ∈ tr') :
    Uncounted r (tr++tr') ↔ AllFailed tr' := by
  have hreached : ∃ lb m, (Op.select lb,m) ∈ tr++tr' := ⟨lb,m,List.mem_append_right _ hsel⟩
  rw [Uncounted,if_pos hupgrade,and_iff_right hreached,← allFailed_course,course_append,htr.course,
    List.nil_append,allFailed_course]

theorem uncounted_plain {r : Arrival} {tr rest : Trace} {m m' : Moment}
    (hplain : isUpgradeRequest r.req.parts = false) (htr : Idle tr) :
    Uncounted r (tr++(.now,m)::(.collectBody,m')::rest) ↔ BreaksOff r.ctx r.req m.time := by
  have htime := bodyTime_append tr rest (.now,m) m' htr.collectBody (by simp)
  simp [Uncounted,hplain,htime]

theorem not_uncounted {r : Arrival} {tr : Trace} (hcourse : course tr = [])
    (hbody : ∀ e ∈ tr, e.1 ≠ .collectBody) : ¬ Uncounted r tr := by
  unfold Uncounted
  split
  · rintro ⟨⟨lb,m,hsel⟩,-⟩
    have hmem : (Op.select lb,m) ∈ course tr := mem_course.mpr ⟨hsel,rfl⟩
    rw [hcourse] at hmem
    cases hmem
  · simp [bodyTime_eq_none hbody]

/-- Wherever a request returns or waits, its retries are balanced; when it returns, it is
counted but for the two exits. -/
theorem proxyRequest_until (r : Arrival) :
    SatUntil answer awaits (proxyRequest r.ctx r.req r.remoteAddr) (Balanced 0) fun tr resp =>
      Balanced 0 tr ∧ CountedUnless (Uncounted r tr) tr resp := by
  apply proxyRequest_untilRule
  · intro tr m status msg htr _
    have hcounts : CountedUnless False [(.metric (.requestsTotal r.req.parts.method (toString status) "none"),m)]
        (errorResponse status msg) := Or.inl ⟨rfl,id⟩
    refine ⟨htr.balanced_append rfl,hcounts.after htr (iff_false_intro (not_uncounted ?_ ?_))⟩
    · rw [course_append,htr.course]
      rfl
    · exact List.forall_mem_append.mpr ⟨htr.collectBody,by simp⟩
  · intro tr lb start htr _ _
    cases hupgrade : isUpgradeRequest r.req.parts with
    | true =>
      refine (proxyUpgrade_until _ _ _ lb start).mono (fun _ => htr.balanced_append) ?_
      rintro tr' resp ⟨hbalanced,⟨m,hsel⟩,hcounts⟩
      exact ⟨htr.balanced_append hbalanced,hcounts.after htr (uncounted_upgrade hupgrade htr hsel)⟩
    | false =>
      refine (proxyPlain_until _ _ _ lb start).mono (fun _ => htr.balanced_append) ?_
      rintro tr' resp ⟨hbalanced,m,m',rest,rfl,hcounts⟩
      exact ⟨htr.balanced_append hbalanced,hcounts.after htr (uncounted_plain hupgrade htr)⟩

end Programs

section Serving

variable [HttpCrate]

/-- Requests served at the same time. The log holds the calls of all of them in the order they
were made, each with the number of its request. A request without a response has not begun, or
waits, or was dropped where it waited. -/
structure Traffic where
  requests : List (Arrival × Option Response)
  log : List (ℕ × Op × Moment)
  owned : ∀ c ∈ log, c.1 < requests.length
  answered : ∀ (i : ℕ) r resp, requests[i]? = some (r,some resp) →
    Returns answer (proxyRequest r.ctx r.req r.remoteAddr) (partOf i log) resp
  unanswered : ∀ (i : ℕ) r, requests[i]? = some (r,none) →
    partOf i log = [] ∨ Waits answer awaits (proxyRequest r.ctx r.req r.remoteAddr) (partOf i log)

namespace Traffic

def retries (t : Traffic) : ℕ := t.log.countP (·.2.1.isRetry)

/-- The attempts beyond the first of each request. -/
def furtherAttempts (t : Traffic) : ℕ :=
  ∑ i ∈ Finset.range t.requests.length, ((attempted (partOf i t.log)).length-1)

/-- Every answered request is counted once, under the status of its response, and every
retry counted is an attempt. -/
structure CountedOnce (t : Traffic) : Prop where
  requests : ∀ (i : ℕ) r resp, t.requests[i]? = some (r,some resp) →
    counted (partOf i t.log) = [toString resp.status]
  retries : t.retries = t.furtherAttempts

/-- No answered request leaves by an exit that does not count it, and whenever another upstream
is sought for a request there is one. -/
structure Regular (t : Traffic) : Prop where
  exits : ∀ (i : ℕ) r resp, t.requests[i]? = some (r,some resp) → ¬ Uncounted r (partOf i t.log)
  found : ∀ i lb tried m, (i,Op.selectExcluding lb tried,m) ∈ t.log →
    answer m (.selectExcluding lb tried) ≠ none

theorem balanced (t : Traffic) {i : ℕ} (hi : i < t.requests.length) : Balanced 0 (partOf i t.log) := by
  rcases hget : t.requests[i] with ⟨r,resp⟩
  have hrequest : t.requests[i]? = some (r,resp) := by rw [List.getElem?_eq_getElem hi,hget]
  cases resp with
  | some resp => exact ((proxyRequest_until r).2 _ _ (t.answered i r resp hrequest)).1
  | none =>
    rcases t.unanswered i r hrequest with hnil | hwaits
    · simp [hnil,Balanced]
    · exact (proxyRequest_until r).1 _ hwaits

theorem retries_eq (t : Traffic) :
    t.retries = t.furtherAttempts+t.log.countP fun c => inVain c.2 := by
  have hpart : ∀ i ∈ Finset.range t.requests.length, retriesTotal (partOf i t.log) =
      (attempted (partOf i t.log)).length-1+vain (partOf i t.log) := by
    intro i hi
    have hbalanced := t.balanced (Finset.mem_range.mp hi)
    cases hattempted : attempted (partOf i t.log) with
    | nil => simpa [Balanced,hattempted] using hbalanced
    | cons u us =>
      simp only [Balanced,hattempted,ne_eq,reduceCtorEq,not_false_eq_true,and_self,if_true,
        List.length_cons] at hbalanced ⊢
      omega
  calc t.retries = ∑ i ∈ Finset.range t.requests.length, retriesTotal (partOf i t.log) :=
        (sum_countP_partOf t.owned fun e => e.1.isRetry).symm
    _ = t.furtherAttempts+∑ i ∈ Finset.range t.requests.length, vain (partOf i t.log) := by
        rw [Finset.sum_congr rfl hpart,Finset.sum_add_distrib,furtherAttempts]
    _ = t.furtherAttempts+t.log.countP fun c => inVain c.2 := by
        simp only [vain,sum_countP_partOf t.owned]

theorem countedOnce_iff (t : Traffic) : t.CountedOnce ↔ t.Regular := by
  have hexit : ∀ (i : ℕ) r resp, t.requests[i]? = some (r,some resp) →
      (counted (partOf i t.log) = [toString resp.status] ↔ ¬ Uncounted r (partOf i t.log)) :=
    fun i r resp hi => ((proxyRequest_until r).2 _ _ (t.answered i r resp hi)).2.iff
  have hretries : t.retries = t.furtherAttempts ↔ ∀ i lb tried m,
      (i,Op.selectExcluding lb tried,m) ∈ t.log → answer m (.selectExcluding lb tried) ≠ none := by
    rw [t.retries_eq,Nat.add_eq_left,List.countP_eq_zero]
    constructor
    · intro h i lb tried m hmem hnone
      exact h _ hmem (by simp [inVain,hnone])
    · rintro h ⟨i,op,m⟩ hmem hvain
      cases op with
      | selectExcluding lb tried => exact h i lb tried m hmem (Option.isNone_iff_eq_none.mp hvain)
      | _ => cases hvain
  constructor
  · intro h
    exact ⟨fun i r resp hi => (hexit i r resp hi).mp (h.requests i r resp hi),hretries.mp h.retries⟩
  · intro h
    exact ⟨fun i r resp hi => (hexit i r resp hi).mpr (h.exits i r resp hi),hretries.mpr h.found⟩

def single (r : Arrival) (moments : ℕ → Moment) : Traffic where
  requests := [(r,some (run answer (proxyRequest r.ctx r.req r.remoteAddr) moments).1)]
  log := (run answer (proxyRequest r.ctx r.req r.remoteAddr) moments).2.map fun e => (0,e)
  owned := by
    intro c hc
    obtain ⟨e,-,rfl⟩ := List.mem_map.mp hc
    exact Nat.zero_lt_one
  answered := by
    intro i r' resp hi
    cases i with
    | zero =>
      cases hi
      rw [partOf_map]
      exact returns_run answer _ moments
    | succ i => cases hi
  unanswered := by
    intro i r' hi
    cases i with
    | zero => cases hi
    | succ i => cases hi

theorem CountedOnce.of_single {r : Arrival} {moments : ℕ → Moment} (h : (single r moments).CountedOnce) :
    let served := run answer (proxyRequest r.ctx r.req r.remoteAddr) moments
    counted served.2 = [toString served.1.status] ∧
      retriesTotal served.2 = (attempted served.2).length-1 := by
  intro served
  have hpart : partOf 0 (single r moments).log = served.2 := partOf_map 0 served.2
  have hrequests := h.requests 0 r served.1 rfl
  have hretries := h.retries
  rw [hpart] at hrequests
  have hfurther : (single r moments).furtherAttempts = (attempted served.2).length-1 := by
    rw [furtherAttempts]
    simp [single,partOf_map]
    rfl
  have hcount : (single r moments).retries = retriesTotal served.2 := List.countP_map ..
  exact ⟨hrequests,by rw [← hcount,hretries,hfurther]⟩

end Traffic

end Serving

def refusing : Moment := steady [⟨"http://a",1⟩] (.error .timedOut)

def unhealthy : Moment :=
  { refusing with balancers := fun lb => modifyUpstream (refusing.balancers lb) 0 (·.setHealthy false) }

def arrival (req : Request) : Arrival := ⟨basicContext 1,req,SocketAddr.unspecified⟩

def upgradeRequest : Request := basicRequest "GET" [(UPGRADE,⟨asBytes "websocket".toList⟩)] []

def resetRequest : Request := { basicRequest "POST" [] [] with body := ⟨[],.error "connection reset"⟩ }

/-- A body that breaks off (400), an upgrade with no healthy upstream (503) or with one that
refuses (502) are not counted, and a retry is counted although there is nobody to retry at. -/
theorem uncounted_exits :
    letI := visibleAscii
    ¬ (Traffic.single (arrival resetRequest) fun _ => refusing).CountedOnce ∧
    ¬ (Traffic.single (arrival upgradeRequest) fun _ => unhealthy).CountedOnce ∧
    ¬ (Traffic.single (arrival upgradeRequest) fun _ => refusing).CountedOnce ∧
    ¬ (Traffic.single (arrival (basicRequest "GET" [] [])) fun _ => refusing).CountedOnce := by
  let _ := visibleAscii
  refine ⟨fun h => ?_,fun h => ?_,fun h => ?_,fun h => ?_⟩
  · exact absurd h.of_single.1 (by decide +kernel)
  · exact absurd h.of_single.1 (by decide +kernel)
  · exact absurd h.of_single.1 (by decide +kernel)
  · exact absurd h.of_single.2 (by decide +kernel)

end Proxy
end OxiGate
