import OxiGate.RetryLoop

/-! What the retry loop guarantees, for every course it can take. -/
namespace OxiGate
namespace Proxy

open RustText Net Http Lb BodyLimit Interaction

def HealthyAt (m : Moment) (u : UpstreamRef) : Prop :=
  ∃ rt, (m.balancers u.lb).upstreams[u.place]? = some rt ∧ rt.healthy = true ∧ rt.address = u.address

def Op.selects? : Op → Option ℕ
  | .selectSticky lb _ => some lb
  | .selectExcluding lb _ => some lb
  | .select lb => some lb
  | _ => none

def found (m : Moment) : Op → Option UpstreamRef
  | .selectSticky lb stickyValue => answer m (.selectSticky lb stickyValue)
  | .selectExcluding lb exclude => answer m (.selectExcluding lb exclude)
  | .select lb => answer m (.select lb)
  | _ => none

theorem healthyAt_refer {m : Moment} {lb : ℕ} {u : Placed}
    (hget : (m.balancers lb).upstreams[u.2]? = some u.1) (hhealthy : u.1.healthy = true) :
    HealthyAt m (refer lb u) := ⟨u.1,hget,hhealthy,rfl⟩

theorem found_selection (fw : Forwarding) (attempt : ℕ) (tried : List String) (m : Moment) :
    found m (selection fw attempt tried) = chosen fw attempt tried m := by
  unfold selection chosen
  split <;> rfl

theorem chosen_sound {fw : Forwarding} {attempt : ℕ} {tried : List String} {m : Moment}
    {u : UpstreamRef} (h : chosen fw attempt tried m = some u) :
    HealthyAt m u ∧ u.lb = fw.lb ∧ (attempt ≠ 0 → u.address ∉ tried) := by
  unfold chosen at h
  split at h
  · rename_i hzero
    obtain ⟨v,hsel,rfl⟩ := Option.map_eq_some_iff.mp h
    obtain ⟨hget,hhealthy⟩ := LoadBalancer.selectSticky_sound hsel
    exact ⟨healthyAt_refer hget hhealthy,rfl,fun hne => absurd hzero hne⟩
  · obtain ⟨v,hsel,rfl⟩ := Option.map_eq_some_iff.mp h
    obtain ⟨hget,hhealthy,hex⟩ := LoadBalancer.selectExcluding_sound hsel
    exact ⟨healthyAt_refer hget hhealthy,rfl,fun _ => hex⟩

theorem chosen_none {fw : Forwarding} {attempt : ℕ} {tried : List String} {m : Moment}
    (h : chosen fw attempt tried m = none) :
    ∀ rt ∈ (m.balancers fw.lb).upstreams, rt.healthy = true → rt.address ∈ tried := by
  intro rt hrt hhealthy
  unfold chosen at h
  split at h
  · have hsick := LoadBalancer.selectSticky_eq_none (Option.map_eq_none_iff.mp h) rt hrt
    rw [hhealthy] at hsick
    cases hsick
  · exact LoadBalancer.selectExcluding_eq_none.mp (Option.map_eq_none_iff.mp h) rt hrt hhealthy

@[simp] theorem attempted_nil : attempted [] = [] := rfl

@[simp] theorem sent_nil : sent [] = [] := rfl

@[simp] theorem attempted_selection (fw : Forwarding) (attempt : ℕ) (tried : List String) (m : Moment)
    (tr : Trace) : attempted ((selection fw attempt tried,m)::tr) = attempted tr := by
  unfold selection
  split <;> rfl

@[simp] theorem attempted_incConnections (u : UpstreamRef) (m : Moment) (tr : Trace) :
    attempted ((.incConnections u,m)::tr) = u::attempted tr := rfl

@[simp] theorem attempted_request (u : UpstreamRef) (out : OutRequest) (timeout : ℕ) (m : Moment)
    (tr : Trace) : attempted ((.request u out timeout,m)::tr) = attempted tr := rfl

@[simp] theorem sent_selection (fw : Forwarding) (attempt : ℕ) (tried : List String) (m : Moment)
    (tr : Trace) : sent ((selection fw attempt tried,m)::tr) = sent tr := by
  unfold selection
  split <;> rfl

@[simp] theorem sent_incConnections (u : UpstreamRef) (m : Moment) (tr : Trace) :
    sent ((.incConnections u,m)::tr) = sent tr := rfl

@[simp] theorem sent_request (u : UpstreamRef) (out : OutRequest) (timeout : ℕ) (m : Moment)
    (tr : Trace) : sent ((.request u out timeout,m)::tr) = (u,out)::sent tr := rfl

theorem selection_sent (fw : Forwarding) (attempt : ℕ) (tried : List String) :
    (selection fw attempt tried).sent? = none := by
  unfold selection
  split <;> rfl

theorem selection_selects (fw : Forwarding) (attempt : ℕ) (tried : List String) :
    (selection fw attempt tried).selects? = some fw.lb := by
  unfold selection
  split <;> rfl

def AllFailed (tr : Trace) : Prop :=
  ∀ u out timeout m, (Op.request u out timeout,m) ∈ tr → ∃ e, m.reply u out = .error e

/-- The trace ends at a selection for which no healthy upstream was left untried. -/
def NobodyLeft (lb : ℕ) (tried : List String) (tr : Trace) : Prop :=
  ∃ op m, tr.getLast? = some (op,m) ∧ op.selects? = some lb ∧
    ∀ rt ∈ (m.balancers lb).upstreams, rt.healthy = true →
      rt.address ∈ tried ∨ rt.address ∈ (attempted tr).map (·.address)

theorem AllFailed.nil : AllFailed [] := by
  intro u out timeout m hmem
  cases hmem

theorem AllFailed.append {tr tr' : Trace} (h : AllFailed tr) (h' : AllFailed tr') :
    AllFailed (tr++tr') := by
  intro u out timeout m hmem
  rcases List.mem_append.mp hmem with hmem | hmem
  · exact h u out timeout m hmem
  · exact h' u out timeout m hmem

theorem AllFailed.cons {e : Op × Moment} {tr : Trace} (he : e.1.sent? = none) (h : AllFailed tr) :
    AllFailed (e::tr) := by
  intro u out timeout m hmem
  rcases List.mem_cons.mp hmem with rfl | hmem
  · cases he
  · exact h u out timeout m hmem

theorem allFailed_course {tr : Trace} : AllFailed (course tr) ↔ AllFailed tr := by
  constructor
  · intro h u out timeout m hmem
    exact h u out timeout m (mem_course.mpr ⟨hmem,rfl⟩)
  · intro h u out timeout m hmem
    exact h u out timeout m (mem_course.mp hmem).1

theorem maxAttempts_le (ctx : ProxyContext) (method : String) (body : List UInt8) :
    maxAttempts ctx method body ≤ min (ctx.retries+1) (2^32-1) := by
  unfold maxAttempts
  split
  · exact le_rfl
  · omega

theorem maxAttempts_pos (ctx : ProxyContext) (method : String) (body : List UInt8) :
    0 < maxAttempts ctx method body := by
  unfold maxAttempts
  split <;> omega

/-- In a trace that ends with its only answered request, nothing follows that request. -/
theorem after_answered {before after front : Trace} {e e' : Op × Moment} (hfront : e ∉ front)
    (h : before++e::after = front++[e']) : after = [] ∧ e = e' := by
  rcases List.eq_nil_or_concat after with rfl | ⟨init,last,rfl⟩
  · obtain ⟨-,hlast⟩ := List.append_inj' h rfl
    exact ⟨rfl,by simpa using hlast⟩
  · have hinit : before++e::init = front := by
      have h' : (before++e::init)++[last] = front++[e'] := by simpa using h
      exact (List.append_inj' h' rfl).1
    exact absurd (by simp [← hinit]) hfront

section Courses

variable [HttpCrate] {fw : Forwarding} {left attempt : ℕ} {tried : List String} {u : UpstreamRef}
  {exchange tr : Trace} {resp : Response}

theorem FailedExchange.attempted (h : FailedExchange fw u exchange) : attempted exchange = [] := by
  cases h <;> rfl

theorem FailedExchange.sent (h : FailedExchange fw u exchange) :
    ∀ v out, (v,out) ∈ sent exchange → v = u ∧ buildRequest (plainAttempt fw u) = .ok out := by
  intro v out hmem
  cases h with
  | unbuilt hbuild => cases hmem
  | refused hbuild hreply =>
    cases List.mem_singleton.mp hmem
    exact ⟨rfl,hbuild⟩

theorem FailedExchange.allFailed (h : FailedExchange fw u exchange) : AllFailed exchange := by
  cases h with
  | unbuilt hbuild => exact AllFailed.nil
  | @refused out m e hbuild hreply =>
    intro v out' timeout m' hmem
    cases List.mem_singleton.mp hmem
    exact ⟨e,hreply⟩

theorem Course.distinct (h : Course fw left attempt tried tr resp) (hfresh : attempt = 0 → tried = []) :
    ((attempted tr).map (·.address)).Nodup ∧ ∀ u ∈ attempted tr, u.address ∉ tried := by
  have hnew : ∀ {attempt : ℕ} {tried : List String} {m : Moment} {u : UpstreamRef},
      (attempt = 0 → tried = []) → chosen fw attempt tried m = some u → u.address ∉ tried := by
    intro attempt tried m u hfresh hsome
    by_cases hzero : attempt = 0
    · simp [hfresh hzero]
    · exact (chosen_sound hsome).2.2 hzero
  induction h with
  | spent => simp
  | nobody hnone => simp
  | @again left attempt tried m m' u exchange tr resp hsome hfailed hrest ih =>
    obtain ⟨hnodup,havoid⟩ := ih (by simp)
    simp only [attempted_selection,attempted_incConnections,attempted_append,hfailed.attempted,
      List.nil_append,List.map_cons,List.nodup_cons]
    refine ⟨⟨?_,hnodup⟩,?_⟩
    · intro hmem
      obtain ⟨v,hv,heq⟩ := List.mem_map.mp hmem
      exact havoid v hv (by simp [heq])
    · intro v hv
      rcases List.mem_cons.mp hv with rfl | hv
      · exact hnew hfresh hsome
      · exact fun hmem => havoid v hv (by simp [hmem])
  | answered hsome hbuild hreply => simpa using hnew hfresh hsome

theorem Course.healthy (h : Course fw left attempt tried tr resp) :
    ∀ u ∈ attempted tr, u.lb = fw.lb ∧ ∃ e ∈ tr, found e.2 e.1 = some u ∧ HealthyAt e.2 u := by
  have hnow : ∀ {attempt : ℕ} {tried : List String} {m : Moment} {u : UpstreamRef} {rest : Trace},
      chosen fw attempt tried m = some u → u.lb = fw.lb ∧
        ∃ e ∈ (selection fw attempt tried,m)::rest, found e.2 e.1 = some u ∧ HealthyAt e.2 u := by
    intro attempt tried m u rest hsome
    obtain ⟨hhealthy,hlb,-⟩ := chosen_sound hsome
    exact ⟨hlb,_,List.mem_cons_self,by rw [found_selection,hsome],hhealthy⟩
  induction h with
  | spent => simp
  | nobody hnone => simp
  | @again left attempt tried m m' u exchange tr resp hsome hfailed hrest ih =>
    intro v hv
    simp only [attempted_selection,attempted_incConnections,attempted_append,hfailed.attempted,
      List.nil_append] at hv
    rcases List.mem_cons.mp hv with rfl | hv
    · exact hnow hsome
    · obtain ⟨hlb,e,he,hfound⟩ := ih v hv
      exact ⟨hlb,e,by simp [he],hfound⟩
  | @answered left attempt tried m m' m'' u out r hsome hbuild hreply =>
    intro v hv
    have hv : v = u := by simpa using hv
    subst hv
    exact hnow hsome

theorem Course.length_le (h : Course fw left attempt tried tr resp) : (attempted tr).length ≤ left := by
  induction h with
  | spent => simp
  | nobody hnone => simp
  | again hsome hfailed hrest ih => simpa [hfailed.attempted] using ih
  | answered hsome hbuild hreply => simp

theorem Course.sent_sublist (h : Course fw left attempt tried tr resp) :
    ((sent tr).map Prod.fst).Sublist (attempted tr) := by
  induction h with
  | spent => simp
  | nobody hnone => simp
  | @again left attempt tried m m' u exchange tr resp hsome hfailed hrest ih =>
    cases hfailed with
    | unbuilt hbuild => simpa using ih.cons u
    | refused hbuild hreply => simpa using ih
  | answered hsome hbuild hreply => simp

theorem Course.built (h : Course fw left attempt tried tr resp) :
    ∀ u out, (u,out) ∈ sent tr → buildRequest (plainAttempt fw u) = .ok out := by
  induction h with
  | spent => simp
  | nobody hnone => simp
  | @again left attempt tried m m' u exchange tr resp hsome hfailed hrest ih =>
    intro v out hmem
    simp only [sent_selection,sent_incConnections,sent_append,List.mem_append] at hmem
    rcases hmem with hmem | hmem
    · obtain ⟨rfl,hbuild⟩ := hfailed.sent v out hmem
      exact hbuild
    · exact ih v out hmem
  | @answered left attempt tried m m' m'' u out r hsome hbuild hreply =>
    intro v out' hmem
    obtain ⟨rfl,rfl⟩ : v = u ∧ out' = out := by simpa using hmem
    exact hbuild

theorem Course.begins (h : Course fw (left+1) 0 [] tr resp) :
    ∃ m, (selection fw 0 [],m) ∈ tr ∧ ∀ u, chosen fw 0 [] m = some u → u ∈ attempted tr := by
  cases h with
  | @nobody _ _ _ m hnone =>
    refine ⟨m,List.mem_cons_self,?_⟩
    intro u hu
    rw [hnone] at hu
    cases hu
  | @again _ _ _ m m' v exchange tr _ hsome hfailed hrest =>
    refine ⟨m,List.mem_cons_self,?_⟩
    intro u hu
    rw [hsome] at hu
    cases hu
    simp
  | @answered _ _ _ m m' mr v out r hsome hbuilt hreply =>
    refine ⟨m,List.mem_cons_self,?_⟩
    intro u hu
    rw [hsome] at hu
    cases hu
    simp

/-- A course ends with the first answered request, or has none and ends because the
iterations are used up or nobody is left to try. -/
theorem Course.verdict (h : Course fw left attempt tried tr resp) :
    (∃ front u out timeout m r, tr = front++[(.request u out timeout,m)] ∧ AllFailed front ∧
      m.reply u out = .ok r ∧ resp = decorate fw.ctx u.address (passOn false fw.ctx.idleTimeout r)) ∨
    (AllFailed tr ∧ resp = badGateway ∧ ((attempted tr).length = left ∨ NobodyLeft fw.lb tried tr)) := by
  induction h with
  | spent => exact Or.inr ⟨AllFailed.nil,rfl,Or.inl rfl⟩
  | @nobody left attempt tried m hnone =>
    refine Or.inr ⟨AllFailed.nil.cons (selection_sent _ _ _),rfl,Or.inr ?_⟩
    exact ⟨_,m,rfl,selection_selects _ _ _,fun rt hrt hh => Or.inl (chosen_none hnone rt hrt hh)⟩
  | @again left attempt tried m m' u exchange tr resp hsome hfailed hrest ih =>
    rcases ih with ⟨front,v,out,timeout,mr,r,rfl,hfront,hreply,hresp⟩ | ⟨htr,hresp,hend⟩
    · refine Or.inl ⟨(selection fw attempt tried,m)::(.incConnections u,m')::(exchange++front),
        v,out,timeout,mr,r,by simp,?_,hreply,hresp⟩
      exact ((hfailed.allFailed.append hfront).cons rfl).cons (selection_sent _ _ _)
    · refine Or.inr ⟨((hfailed.allFailed.append htr).cons rfl).cons (selection_sent _ _ _),hresp,?_⟩
      rcases hend with hlength | ⟨op,ml,hlast,hop,hnobody⟩
      · exact Or.inl (by simp [hfailed.attempted,hlength])
      · refine Or.inr ⟨op,ml,by simp [List.getLast?_cons,List.getLast?_append,hlast],hop,?_⟩
        intro rt hrt hh
        have hcases := hnobody rt hrt hh
        simp only [List.mem_append,List.mem_singleton] at hcases
        simp only [attempted_selection,attempted_incConnections,attempted_append,hfailed.attempted,
          List.nil_append,List.map_cons,List.mem_cons]
        rcases hcases with (htried | hu) | hatt
        · exact Or.inl htried
        · exact Or.inr (Or.inl hu)
        · exact Or.inr (Or.inr hatt)
  | @answered left attempt tried m m' m'' u out r hsome hbuild hreply =>
    refine Or.inl ⟨[(selection fw attempt tried,m),(.incConnections u,m')],u,out,_,m'',r,rfl,?_,hreply,rfl⟩
    exact (AllFailed.nil.cons rfl).cons (selection_sent _ _ _)

theorem Course.first_answer (h : Course fw left attempt tried tr resp) {before after : Trace}
    {u : UpstreamRef} {out : OutRequest} {timeout : ℕ} {m : Moment} {r : UpstreamResponse}
    (htr : tr = before++(.request u out timeout,m)::after) (hreply : m.reply u out = .ok r) :
    after = [] ∧ resp = decorate fw.ctx u.address (passOn false fw.ctx.idleTimeout r) := by
  have hnot : ∀ {l : Trace}, AllFailed l → (Op.request u out timeout,m) ∉ l := by
    intro l hl hmem
    obtain ⟨e,he⟩ := hl u out timeout m hmem
    rw [hreply] at he
    cases he
  rcases h.verdict with ⟨front,v,out',timeout',m',r',hend,hfront,hreply',hresp⟩ | ⟨hall,-,-⟩
  · obtain ⟨hafter,heq⟩ := after_answered (hnot hfront) (htr.symm.trans hend)
    cases heq
    rw [hreply] at hreply'
    cases hreply'
    exact ⟨hafter,hresp⟩
  · exact absurd (by simp [htr]) (hnot hall)

end Courses

section Contract

variable [HttpCrate] {ctx : ProxyContext} {req : Request} {tr : Trace} {resp : Response}

/-- What the attempts of a plain request have in common. -/
structure RetryContract (ctx : ProxyContext) (req : Request) (tr : Trace) (resp : Response) : Prop where
  distinct : ((attempted tr).map (·.address)).Nodup
  healthy : ∀ u ∈ attempted tr, ∃ e ∈ tr, found e.2 e.1 = some u ∧ HealthyAt e.2 u
  bounded : (attempted tr).length ≤ min (ctx.retries+1) (2^32-1)
  single : mayRetry ctx req.parts.method req.body.data = false → (attempted tr).length ≤ 1
  /-- Method, target and body of every attempt are the client's. -/
  same : ∀ u out, (u,out) ∈ sent tr → u ∈ attempted tr ∧ out.method = req.parts.method ∧
    buildTargetUri u.address req.parts.uri.path req.parts.uri.query = .ok out.uri ∧
    out.body = req.body.data
  /-- The first answer is returned, and nothing comes after it. -/
  first : ∀ before after u out timeout m r, tr = before++(.request u out timeout,m)::after →
    m.reply u out = .ok r →
    course after = [] ∧ resp = decorate ctx u.address (passOn false ctx.idleTimeout r)
  /-- A 502 is an upstream's own, or every attempt failed and no more were possible. -/
  badGateway : resp.status = 502 →
    (∃ u out timeout m r, (.request u out timeout,m) ∈ tr ∧ m.reply u out = .ok r ∧ r.status = 502) ∨
    (AllFailed tr ∧ ((attempted tr).length = maxAttempts ctx req.parts.method req.body.data ∨
      ∃ lb, ctx.router.resolve req.parts.uri.path = some lb ∧ NobodyLeft lb [] (course tr)))

theorem buildRequest_ok {a : ProxyAttempt} {out : OutRequest} (h : buildRequest a = .ok out) :
    out.method = a.method ∧ buildTargetUri a.upstream.address a.path a.query = .ok out.uri ∧
      requestHeaders a = .ok out.headers ∧ out.body = a.bodyBytes := by
  obtain ⟨uri,huri,h⟩ := ok_of_bind h
  obtain ⟨headers,hheaders,h⟩ := ok_of_bind h
  cases h
  exact ⟨rfl,ok_of_mapError huri,ok_of_mapError hheaders,rfl⟩

theorem RetryContract.of_turnedAway {remoteAddr : SocketAddr} (h : TurnedAway ctx req remoteAddr tr resp) :
    RetryContract ctx req tr resp := by
  obtain ⟨hcourse,⟨status,msg,hstatus,rfl⟩,-⟩ := h
  have hattempted : attempted tr = [] := by rw [← attempted_course,hcourse]; rfl
  have hsent : sent tr = [] := by rw [← sent_course,hcourse]; rfl
  refine ⟨by simp [hattempted],by simp [hattempted],by simp [hattempted],by simp [hattempted],
    by simp [hsent],?_,fun h => absurd h hstatus.1⟩
  intro before after u out timeout m r htr _
  have hmem : (Op.request u out timeout,m) ∈ course tr := mem_course.mpr ⟨by simp [htr],rfl⟩
  rw [hcourse] at hmem
  cases hmem

theorem RetryContract.of_course {remoteAddr : SocketAddr} {lb start : ℕ}
    (hlb : ctx.router.resolve req.parts.uri.path = some lb)
    (h : Course (forwarding ctx req remoteAddr lb start req.body.data)
      (maxAttempts ctx req.parts.method req.body.data) 0 [] (course tr) resp) :
    RetryContract ctx req tr resp := by
  have hlength := h.length_le
  rw [attempted_course] at hlength
  refine ⟨?_,?_,?_,?_,?_,?_,?_⟩
  · simpa [attempted_course] using (h.distinct (fun _ => rfl)).1
  · intro u hu
    obtain ⟨-,e,he,hfound⟩ := h.healthy u (by rwa [attempted_course])
    exact ⟨e,(mem_course.mp he).1,hfound⟩
  · exact hlength.trans (maxAttempts_le ..)
  · intro hno
    simpa [maxAttempts,hno] using hlength
  · intro u out hmem
    rw [← sent_course] at hmem
    have hatt : u ∈ attempted (course tr) := h.sent_sublist.subset (List.mem_map_of_mem hmem)
    obtain ⟨hmethod,huri,-,hbody⟩ := buildRequest_ok (h.built u out hmem)
    exact ⟨by rwa [attempted_course] at hatt,hmethod,huri,hbody⟩
  · intro before after u out timeout m r htr hreply
    have hcourse : course tr = course before++(.request u out timeout,m)::course after := by
      rw [htr,course_append,course_cons]
      rfl
    exact h.first_answer hcourse hreply
  · intro hstatus
    rcases h.verdict with ⟨front,u,out,timeout,m,r,hend,-,hreply,hresp⟩ | ⟨hall,-,hend⟩
    · refine Or.inl ⟨u,out,timeout,m,r,(mem_course.mp (by simp [hend])).1,hreply,?_⟩
      rw [hresp] at hstatus
      exact hstatus
    · refine Or.inr ⟨allFailed_course.mp hall,?_⟩
      rcases hend with hend | hend
      · exact Or.inl (by rwa [attempted_course] at hend)
      · exact Or.inr ⟨lb,hlb,hend⟩

/-- A plain request is turned away, or follows the loop over the balancer it is routed to. -/
theorem proxyRequest_course {remoteAddr : SocketAddr} (hplain : isUpgradeRequest req.parts = false) :
    Sat answer (proxyRequest ctx req remoteAddr) fun tr resp =>
      TurnedAway ctx req remoteAddr tr resp ∨
      ∃ lb start, ctx.router.resolve req.parts.uri.path = some lb ∧ aclAllows ctx remoteAddr.ip = true ∧
        (∃ now, collectLimited req.body ctx.maxBodyBytes ctx.idleTimeout now = .ok req.body.data) ∧
        Course (forwarding ctx req remoteAddr lb start req.body.data)
          (maxAttempts ctx req.parts.method req.body.data) 0 [] (course tr) resp := by
  apply proxyRequest_rule
  · intro tr status msg htr hstatus hbarred
    refine Or.inl ⟨htr.course,⟨status,msg,⟨?_,hstatus.2⟩,rfl⟩,hbarred⟩
    rintro rfl
    exact absurd hstatus.1 (by decide)
  · intro tr lb start htr hacl hlb
    rw [hplain]
    refine Sat.mono (proxyPlain_sat ctx req remoteAddr lb start) ?_
    intro tr' resp hend
    have hcourse : course (tr++tr') = course tr' := by rw [course_append,htr.course,List.nil_append]
    rcases hend with hturned | hforwarded
    · exact Or.inl ⟨hcourse.trans hturned.course,hturned.response,
        hturned.barred.mono (List.subset_append_right _ _)⟩
    · rw [hcourse]
      exact Or.inr ⟨lb,start,hlb,hacl,hforwarded⟩

/-- The contract holds for every plain request, whatever the balancers are like at each
selection and whatever the upstreams answer. -/
theorem proxyRequest_retryContract (ctx : ProxyContext) (req : Request) (remoteAddr : SocketAddr)
    (hplain : isUpgradeRequest req.parts = false) (moments : ℕ → Moment) :
    RetryContract ctx req (run answer (proxyRequest ctx req remoteAddr) moments).2
      (run answer (proxyRequest ctx req remoteAddr) moments).1 := by
  rcases (proxyRequest_course hplain).run moments with hturned | ⟨lb,start,hlb,-,-,hcourse⟩
  · exact RetryContract.of_turnedAway hturned
  · exact RetryContract.of_course hlb hcourse

end Contract

def basicContext (retries : ℕ) : ProxyContext where
  router := ⟨[],some 0⟩
  retries := retries
  requestTimeout := 30000000000
  sticky := none
  headers := ⟨[],[]⟩
  accessLog := true
  rateLimiter := none
  maxBodyBytes := 16777216
  retryIdempotentOnly := true
  forceRetryWithBody := false
  acl := none
  securityHeaders := true
  clientIsTls := false
  requestLimit := none
  idleTimeout := 60000000000

def basicRequest (method : String) (headers : HeaderMap) (body : List UInt8) : Request where
  parts := ⟨method,⟨none,none,"/",none⟩,.http11,headers⟩
  body := ⟨[(0,some (.data body))],.ok ()⟩

def bare (status : ℕ) : UpstreamResponse := ⟨status,.http11,[],⟨[],.ok ()⟩⟩

/-- Every upstream of a fresh pool replies the same. -/
def steady (pool : List Upstream) (reply : Except SendError UpstreamResponse) : Moment where
  time := 0
  permitFree := true
  withinRate := true
  balancers := fun _ => LoadBalancer.fromUpstreams pool .roundRobin
  reply := fun _ _ => reply

def answered (e : Op × Moment) : Bool :=
  match e.1 with
  | .request u out _ => (e.2.reply u out).isOk
  | _ => false

theorem not_allFailed {tr : Trace} (h : tr.any answered = true) : ¬ AllFailed tr := by
  intro hall
  obtain ⟨⟨op,m⟩,hmem,hans⟩ := List.any_eq_true.mp h
  cases op with
  | request u out timeout =>
    obtain ⟨e,he⟩ := hall u out timeout m hmem
    simp [answered,he,Except.isOk,Except.toBool] at hans
  | _ => cases hans

/-- An upstream's own 502 is returned although its attempt succeeded. -/
theorem badGateway_from_upstream :
    let r := run answer (@proxyRequest visibleAscii (basicContext 1) (basicRequest "GET" [] [])
      SocketAddr.unspecified) fun _ => steady [⟨"http://a",1⟩] (.ok (bare 502))
    r.1.status = 502 ∧ ¬ AllFailed r.2 :=
  ⟨by decide +kernel,not_allFailed (by decide +kernel)⟩

/-- The first of two upstreams times out. -/
def halfDown : Moment :=
  { steady [⟨"http://a",1⟩,⟨"http://b",1⟩] (.ok (bare 200)) with
    reply := fun u _ => if u.address = "http://a" then .error .timedOut else .ok (bare 200) }

theorem proxyRequest_retryContract_retried :
    let req := basicRequest "GET" [] []
    let r := run answer (@proxyRequest visibleAscii (basicContext 1) req SocketAddr.unspecified) fun _ => halfDown
    (attempted r.2).map (·.address) = ["http://a","http://b"] ∧ r.1.status = 200 ∧
      @RetryContract visibleAscii (basicContext 1) req r.2 r.1 :=
  ⟨by decide +kernel,by decide +kernel,@proxyRequest_retryContract visibleAscii (basicContext 1)
    (basicRequest "GET" [] []) SocketAddr.unspecified (by decide +kernel) _⟩

end Proxy
end OxiGate
