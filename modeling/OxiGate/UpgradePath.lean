import OxiGate.Retries

/-! The upgrade path: one attempt at one upstream. Its courses are described as those of the
retry loop are, and together they are all a request can take. -/
namespace OxiGate
namespace Proxy

open RustText Net Http Lb BodyLimit Interaction

variable [HttpCrate]

def upgradeAttempt (ctx : ProxyContext) (req : Request) (remoteAddr : SocketAddr) (u : UpstreamRef) :
    ProxyAttempt :=
  proxyAttempt ctx req.parts remoteAddr [] true u

/-- The courses of an upgrade request that is routed to a balancer, and their responses. -/
inductive UpgradeCourse (ctx : ProxyContext) (req : Request) (remoteAddr : SocketAddr) (lb : ℕ) :
    Trace → Response → Prop
  | nobody {m : Moment} (hnone : answer m (.select lb) = none) :
      UpgradeCourse ctx req remoteAddr lb [(.select lb,m)] (errorResponse 503 "No healthy upstreams")
  | unbuilt {m m' : Moment} {u : UpstreamRef} {e : String} (hsome : answer m (.select lb) = some u)
      (hbuild : buildRequest (upgradeAttempt ctx req remoteAddr u) = .error e) :
      UpgradeCourse ctx req remoteAddr lb [(.select lb,m),(.incConnections u,m')] badGateway
  | refused {m m' m'' : Moment} {u : UpstreamRef} {out : OutRequest} {e : SendError}
      (hsome : answer m (.select lb) = some u)
      (hbuild : buildRequest (upgradeAttempt ctx req remoteAddr u) = .ok out)
      (hreply : m''.reply u out = .error e) :
      UpgradeCourse ctx req remoteAddr lb
        [(.select lb,m),(.incConnections u,m'),(.request u out ctx.requestTimeout,m'')] badGateway
  | answered {m m' m'' : Moment} {u : UpstreamRef} {out : OutRequest} {r : UpstreamResponse}
      (hsome : answer m (.select lb) = some u)
      (hbuild : buildRequest (upgradeAttempt ctx req remoteAddr u) = .ok out)
      (hreply : m''.reply u out = .ok r) :
      UpgradeCourse ctx req remoteAddr lb
        [(.select lb,m),(.incConnections u,m'),(.request u out ctx.requestTimeout,m'')]
        (passOn true ctx.idleTimeout r)

omit [HttpCrate] in
theorem countAnswer_sat (method : String) (status : ℕ) (address : String) (start : ℕ) :
    Sat answer (countAnswer method status address start) fun tr _ => course tr = [] := by
  simp [countAnswer,course_cons,Op.inCourse]

theorem proxyUpgrade_course (ctx : ProxyContext) (req : Request) (remoteAddr : SocketAddr) (lb start : ℕ) :
    Sat answer (proxyUpgrade ctx req remoteAddr lb start) fun tr resp =>
      UpgradeCourse ctx req remoteAddr lb (course tr) resp := by
  unfold proxyUpgrade
  rw [sat_perform_bind]
  intro mSel
  cases hsel : answer mSel (.select lb) with
  | none => simpa [course_cons,Op.inCourse] using UpgradeCourse.nobody hsel
  | some u =>
    simp only [sat_perform_bind]
    intro mInc
    rw [sat_bind]
    refine Sat.mono (attemptProxy_sat _) ?_
    rintro tr result (⟨e,hbuild,rfl,rfl⟩ | ⟨out,m,hbuild,rfl,rfl⟩)
    · simp only [sat_perform_bind]
      intro mDec
      simpa [course_cons,Op.inCourse,badGateway] using UpgradeCourse.unbuilt hsel hbuild
    · simp only [sat_perform_bind]
      intro mDec
      cases hreply : m.reply u out with
      | error e =>
        simpa [outcome,hreply,course_cons,Op.inCourse,proxyAttempt,badGateway] using
          UpgradeCourse.refused hsel hbuild hreply
      | ok r =>
        have hfinal : UpgradeCourse ctx req remoteAddr lb [(.select lb,mSel),(.incConnections u,mInc),
          (.request u out ctx.requestTimeout,m)] (passOn true ctx.idleTimeout r) := .answered hsel hbuild hreply
        simp only [proxyAttempt,hreply,outcome,sat_bind]
        refine Sat.mono (countAnswer_sat _ _ _ _) ?_
        intro tr' _ htr'
        by_cases hswitch : r.status = 101
        · simpa [passOn,hswitch,htr',course_cons,Op.inCourse] using fun _ : Moment => hfinal
        · simpa [passOn,hswitch,htr',course_cons,Op.inCourse] using hfinal

theorem UpgradeCourse.sent {ctx : ProxyContext} {req : Request} {remoteAddr : SocketAddr} {lb : ℕ}
    {tr : Trace} {resp : Response} (h : UpgradeCourse ctx req remoteAddr lb tr resp) :
    (sent tr).length ≤ 1 ∧ ∀ u out, (u,out) ∈ sent tr → u ∈ attempted tr ∧
      buildRequest (upgradeAttempt ctx req remoteAddr u) = .ok out := by
  have hone : ∀ {u v : UpstreamRef} {out out' : OutRequest},
      buildRequest (upgradeAttempt ctx req remoteAddr u) = .ok out → (v,out') ∈ [(u,out)] →
      v ∈ [u] ∧ buildRequest (upgradeAttempt ctx req remoteAddr v) = .ok out' := by
    intro u v out out' hbuild hmem
    cases List.mem_singleton.mp hmem
    exact ⟨List.mem_singleton_self _,hbuild⟩
  cases h with
  | nobody hnone => exact ⟨Nat.zero_le _,by rintro u out ⟨⟩⟩
  | unbuilt hsome hbuild => exact ⟨Nat.zero_le _,by rintro u out ⟨⟩⟩
  | refused hsome hbuild hreply => exact ⟨le_rfl,fun v out hmem => hone hbuild hmem⟩
  | answered hsome hbuild hreply => exact ⟨le_rfl,fun v out hmem => hone hbuild hmem⟩

theorem UpgradeCourse.healthy {ctx : ProxyContext} {req : Request} {remoteAddr : SocketAddr} {lb : ℕ}
    {tr : Trace} {resp : Response} (h : UpgradeCourse ctx req remoteAddr lb tr resp) :
    ∀ u ∈ attempted tr, u.lb = lb ∧ ∃ e ∈ tr, found e.2 e.1 = some u ∧ HealthyAt e.2 u := by
  have hnow : ∀ {m : Moment} {u v : UpstreamRef} {rest : Trace}, answer m (.select lb) = some u →
      v ∈ [u] → v.lb = lb ∧ ∃ e ∈ (Op.select lb,m)::rest, found e.2 e.1 = some v ∧ HealthyAt e.2 v := by
    intro m u v rest hsome hv
    cases List.mem_singleton.mp hv
    obtain ⟨placed,hsel,rfl⟩ := Option.map_eq_some_iff.mp hsome
    obtain ⟨hget,hhealthy,-⟩ := LoadBalancer.selectExcluding_sound hsel
    exact ⟨rfl,_,List.mem_cons_self,hsome,healthyAt_refer hget hhealthy⟩
  intro v hv
  cases h with
  | nobody hnone => cases hv
  | unbuilt hsome hbuild => exact hnow hsome hv
  | refused hsome hbuild hreply => exact hnow hsome hv
  | answered hsome hbuild hreply => exact hnow hsome hv

/-- What a request can come to: it is turned away without an attempt, or it takes one of the two
paths over the balancer of its route. -/
theorem proxyRequest_paths (ctx : ProxyContext) (req : Request) (remoteAddr : SocketAddr) :
    Sat answer (proxyRequest ctx req remoteAddr) fun tr resp =>
      course tr = [] ∨
      ∃ lb, ctx.router.resolve req.parts.uri.path = some lb ∧ aclAllows ctx remoteAddr.ip = true ∧
        ((isUpgradeRequest req.parts = true ∧ UpgradeCourse ctx req remoteAddr lb (course tr) resp) ∨
          isUpgradeRequest req.parts = false ∧
          (∃ now, collectLimited req.body ctx.maxBodyBytes ctx.idleTimeout now = .ok req.body.data) ∧
          ∃ start, Course (forwarding ctx req remoteAddr lb start req.body.data)
            (maxAttempts ctx req.parts.method req.body.data) 0 [] (course tr) resp) := by
  cases hupgrade : isUpgradeRequest req.parts with
  | false =>
    refine Sat.mono (proxyRequest_course hupgrade) ?_
    rintro tr resp (hturned | ⟨lb,start,hlb,hacl,hbody,hcourse⟩)
    · exact Or.inl hturned.course
    · exact Or.inr ⟨lb,hlb,hacl,Or.inr ⟨rfl,hbody,start,hcourse⟩⟩
  | true =>
    apply proxyRequest_rule
    · intro tr status msg htr _ _
      exact Or.inl htr.course
    · intro tr lb start htr hacl hlb
      rw [hupgrade]
      refine Sat.mono (proxyUpgrade_course ctx req remoteAddr lb start) ?_
      intro tr' resp hcourse
      refine Or.inr ⟨lb,hlb,hacl,Or.inl ⟨rfl,?_⟩⟩
      rw [course_append,htr.course,List.nil_append]
      exact hcourse

end Proxy
end OxiGate
