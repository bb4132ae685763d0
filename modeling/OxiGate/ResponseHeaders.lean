import OxiGate.UpgradePath

/-! The configured response headers on every way out of the handler. They are set on responses of
upstreams to plain requests; the proxy's own answers and responses to upgrade requests are returned
as they are. -/
namespace OxiGate
namespace Proxy

open RustText Net Http Lb BodyLimit Security Interaction

/-- The same configuration, the map of response headers iterated in another order. -/
def ProxyContext.ordered (ctx : ProxyContext) (order : List (String × String)) : ProxyContext :=
  { ctx with headers := { ctx.headers with responseSet := order } }

def errorFields : HeaderMap :=
  [(⟨"content-type"⟩,⟨asBytes "text/plain; charset=utf-8".toList⟩),(CONNECTION,⟨asBytes "close".toList⟩)]

def received (e : Op × Moment) : Option UpstreamResponse :=
  match e.1 with
  | .request u out _ => (e.2.reply u out).toOption
  | _ => none

def replied (tr : Trace) : Option UpstreamResponse := tr.findSome? received

/-- What an answer carries if no headers are set on it. -/
def undressed [HttpCrate] (tr : Trace) : HeaderMap := (replied tr).elim errorFields fun r => (passOn true 0 r).headers

theorem received_eq_none {e : Op × Moment} (h : e.1.inCourse = false) : received e = none := by
  rcases e with ⟨op,m⟩
  cases op with
  | request u out timeout => cases h
  | _ => rfl

theorem replied_course (tr : Trace) : replied (course tr) = replied tr := by
  induction tr with
  | nil => rfl
  | cons e tr ih =>
    unfold replied at ih ⊢
    rw [course_cons,List.findSome?_cons,← ih]
    cases hcourse : e.1.inCourse with
    | true => rw [if_pos rfl,List.findSome?_cons]
    | false => rw [if_neg Bool.false_ne_true,received_eq_none hcourse]

theorem AllFailed.replied {tr : Trace} (h : AllFailed tr) : replied tr = none := by
  unfold Proxy.replied
  rw [List.findSome?_eq_none_iff]
  rintro ⟨op,m⟩ hmem
  cases op with
  | request u out timeout =>
    obtain ⟨e,he⟩ := h u out timeout m hmem
    simp [received,he,Except.toOption]
  | _ => rfl

section Sets

variable [HttpCrate]

def ValidSet (set : List (String × String)) : Prop :=
  ∀ kv ∈ set, ∃ n v, HttpCrate.headerName kv.1 = .ok n ∧ HttpCrate.headerValue kv.2.toList = .ok v

/-- Names that are the same header have the same value. -/
def Consistent (set : List (String × String)) : Prop :=
  ∀ kv ∈ set, ∀ kv' ∈ set, HttpCrate.headerName kv.1 = HttpCrate.headerName kv'.1 → kv.2 = kv'.2

/-- Each header of the map, once and with its value. -/
def Carries (set : List (String × String)) (headers : HeaderMap) : Prop :=
  ∀ kv ∈ set, ∀ n v, HttpCrate.headerName kv.1 = .ok n → HttpCrate.headerValue kv.2.toList = .ok v →
    headers.values n = [v]

theorem Carries.consistent {set : List (String × String)} {headers : HeaderMap} (hvalid : ValidSet set)
    (h : Carries set headers) : Consistent set := by
  intro kv hkv kv' hkv' hnames
  obtain ⟨n,v,hn,hv⟩ := hvalid kv hkv
  obtain ⟨n',v',hn',hv'⟩ := hvalid kv' hkv'
  have hsame : n = n' := by
    rw [hn,hn'] at hnames
    cases hnames
    rfl
  subst hsame
  have hvalues := h kv hkv n v hn hv
  rw [h kv' hkv' n v' hn' hv'] at hvalues
  cases hvalues
  have hbytes := HttpCrate.headerValue_bytes _ _ hv
  rw [HttpCrate.headerValue_bytes _ _ hv'] at hbytes
  exact String.toList_inj.mp (asBytes_injective (HeaderValue.mk.inj hbytes).symm)

theorem values_foldl_setHeader {set : List (String × String)} {hs : HeaderMap} {n : HeaderName} {v : HeaderValue}
    (hagree : ∀ kv ∈ set, HttpCrate.headerName kv.1 = .ok n → HttpCrate.headerValue kv.2.toList = .ok v)
    (hsome : hs.values n = [v] ∨ ∃ kv ∈ set, HttpCrate.headerName kv.1 = .ok n) :
    (set.foldl (fun hs kv => setHeader hs kv.1 kv.2) hs).values n = [v] := by
  induction set generalizing hs with
  | nil =>
    refine hsome.resolve_right ?_
    rintro ⟨kv,hkv,-⟩
    exact absurd hkv List.not_mem_nil
  | cons kv set ih =>
    rw [List.foldl_cons]
    apply ih
    · intro kv' hkv'
      exact hagree kv' (List.mem_cons_of_mem kv hkv')
    · by_cases hname : HttpCrate.headerName kv.1 = .ok n
      · exact Or.inl (values_setHeader_self hs hname (hagree kv List.mem_cons_self hname))
      · rw [values_setHeader hs kv.2 hname]
        refine hsome.imp_right ?_
        rintro ⟨kv',hkv',hname'⟩
        rcases List.mem_cons.mp hkv' with rfl | hkv'
        · exact absurd hname' hname
        · exact ⟨kv',hkv',hname'⟩

theorem values_foldl_setHeader_ne {set : List (String × String)} (hs : HeaderMap) {n : HeaderName}
    (h : ∀ kv ∈ set, HttpCrate.headerName kv.1 ≠ .ok n) :
    (set.foldl (fun hs kv => setHeader hs kv.1 kv.2) hs).values n = hs.values n := by
  apply Multimap.values_foldl
  intro hs kv hkv
  exact values_setHeader hs kv.2 (h kv hkv)

/-- The fields of a response before the configured headers are set. -/
def baseline (ctx : ProxyContext) (address : String) (response : Response) : HeaderMap :=
  (decorate (ctx.ordered []) address response).headers

theorem headers_decorate (ctx : ProxyContext) (address : String) (response : Response) :
    (decorate ctx address response).headers =
      ctx.headers.responseSet.foldl (fun hs kv => setHeader hs kv.1 kv.2) (baseline ctx address response) := rfl

theorem baseline_ordered (ctx : ProxyContext) (order : List (String × String)) (address : String)
    (response : Response) : baseline (ctx.ordered order) address response = baseline ctx address response := rfl

theorem carries_decorate {ctx : ProxyContext} {set : List (String × String)} (hperm : ctx.headers.responseSet.Perm set)
    (hconsistent : Consistent set) (address : String) (response : Response) :
    Carries set (decorate ctx address response).headers := by
  intro kv hkv n v hn hv
  rw [headers_decorate]
  apply values_foldl_setHeader
  · intro kv' hkv' hn'
    rw [hconsistent kv' (hperm.subset hkv') kv hkv (hn'.trans hn.symm),hv]
  · exact Or.inr ⟨kv,hperm.symm.subset hkv,hn⟩

theorem values_decorate_ordered {ctx : ProxyContext} {order : List (String × String)}
    (hperm : order.Perm ctx.headers.responseSet) (hvalid : ValidSet ctx.headers.responseSet)
    (hconsistent : Consistent ctx.headers.responseSet) (address : String) (response : Response) (n : HeaderName) :
    (decorate (ctx.ordered order) address response).headers.values n =
      (decorate ctx address response).headers.values n := by
  by_cases hset : ∃ kv ∈ ctx.headers.responseSet, HttpCrate.headerName kv.1 = .ok n
  · obtain ⟨kv,hkv,hn⟩ := hset
    obtain ⟨-,v,-,hv⟩ := hvalid kv hkv
    have hordered : (ctx.ordered order).headers.responseSet.Perm ctx.headers.responseSet := hperm
    rw [carries_decorate hordered hconsistent address response kv hkv n v hn hv,
      carries_decorate (List.Perm.refl _) hconsistent address response kv hkv n v hn hv]
  · have hnone : ∀ kv ∈ ctx.headers.responseSet, HttpCrate.headerName kv.1 ≠ .ok n :=
      fun kv hkv hn => hset ⟨kv,hkv,hn⟩
    rw [headers_decorate,headers_decorate,baseline_ordered,values_foldl_setHeader_ne _ hnone]
    exact values_foldl_setHeader_ne _ fun kv hkv => hnone kv (hperm.subset hkv)

end Sets

section Exits

variable [HttpCrate]

/-- The response was an upstream's to a plain request. -/
def Dressed (req : Request) (tr : Trace) : Prop :=
  isUpgradeRequest req.parts = false ∧ (replied tr).isSome = true

theorem Course.exit {fw : Forwarding} {left attempt : ℕ} {tried : List String} {tr : Trace} {resp : Response}
    (h : Course fw left attempt tried tr resp) :
    ((replied tr).isSome = true ∧ ∃ address response, resp = decorate fw.ctx address response) ∨
      replied tr = none ∧ resp.headers = errorFields := by
  rcases h.verdict with ⟨front,u,out,timeout,m,r,rfl,hfront,hreply,rfl⟩ | ⟨hfailed,rfl,-⟩
  · refine Or.inl ⟨?_,u.address,_,rfl⟩
    have hrest : replied (front++[(.request u out timeout,m)]) = some r := by
      have hnone : front.findSome? received = none := hfront.replied
      rw [replied,List.findSome?_append,hnone]
      simp [received,hreply,Except.toOption]
    rw [hrest]
    rfl
  · exact Or.inr ⟨hfailed.replied,rfl⟩

omit [HttpCrate] in
theorem replied_single {lb timeout : ℕ} {u : UpstreamRef} {out : OutRequest} {m m' m'' : Moment} :
    replied [(.select lb,m),(.incConnections u,m'),(.request u out timeout,m'')] = (m''.reply u out).toOption := by
  have hselect : received (.select lb,m) = none := rfl
  have hinc : received (.incConnections u,m') = none := rfl
  have hrequest : received (.request u out timeout,m'') = (m''.reply u out).toOption := rfl
  rw [replied,List.findSome?_cons,hselect,List.findSome?_cons,hinc,List.findSome?_cons,hrequest]
  cases (m''.reply u out).toOption <;> rfl

theorem UpgradeCourse.exit {ctx : ProxyContext} {req : Request} {remoteAddr : SocketAddr} {lb : ℕ} {tr : Trace}
    {resp : Response} (h : UpgradeCourse ctx req remoteAddr lb tr resp) : resp.headers = undressed tr := by
  cases h with
  | nobody hnone => rfl
  | unbuilt hsome hbuild => rfl
  | refused hsome hbuild hreply =>
    rw [undressed,replied_single,hreply]
    rfl
  | answered hsome hbuild hreply =>
    rw [undressed,replied_single,hreply]
    rfl

theorem proxyRequest_exit (ctx : ProxyContext) (req : Request) (remoteAddr : SocketAddr) :
    Sat answer (proxyRequest ctx req remoteAddr) fun tr resp =>
      (Dressed req tr ∧ ∃ address response, resp = decorate ctx address response) ∨
        ¬Dressed req tr ∧ resp.headers = undressed tr := by
  have hturned : ∀ {tr : Trace} {resp : Response}, course tr = [] → resp.headers = errorFields →
      ¬Dressed req tr ∧ resp.headers = undressed tr := by
    intro tr resp hcourse hresp
    have hnone : replied tr = none := by
      rw [← replied_course,hcourse]
      rfl
    simp [Dressed,undressed,hnone,hresp]
  cases hupgrade : isUpgradeRequest req.parts with
  | false =>
    refine Sat.mono (proxyRequest_course hupgrade) ?_
    rintro tr resp (haway | ⟨lb,start,-,-,-,hcourse⟩)
    · obtain ⟨status,msg,-,rfl⟩ := haway.response
      exact Or.inr (hturned haway.course rfl)
    · have hexit := hcourse.exit
      rw [replied_course] at hexit
      rcases hexit with ⟨hsome,hdecorated⟩ | ⟨hnone,hresp⟩
      · exact Or.inl ⟨⟨hupgrade,hsome⟩,hdecorated⟩
      · exact Or.inr (by simp [Dressed,undressed,hnone,hresp])
  | true =>
    have hnot : ∀ tr, ¬Dressed req tr := by
      rintro tr ⟨hplain,-⟩
      rw [hupgrade] at hplain
      cases hplain
    apply proxyRequest_rule
    · intro tr status msg htr _ _
      exact Or.inr (hturned htr.course rfl)
    · intro tr lb start htr _ _
      rw [hupgrade]
      refine Sat.mono (proxyUpgrade_course ctx req remoteAddr lb start) ?_
      intro tr' resp hcourse
      refine Or.inr ⟨hnot _,?_⟩
      have hcalls : course (tr++tr') = course tr' := by rw [course_append,htr.course,List.nil_append]
      rw [hcourse.exit]
      unfold undressed
      rw [replied_course,← replied_course (tr++tr'),hcalls,replied_course]

end Exits

section Orders

variable [HttpCrate] {ctx : ProxyContext} {order : List (String × String)}

def UpToOrder (ctx : ProxyContext) (order : List (String × String)) (resp resp' : Response) : Prop :=
  resp' = resp ∨ ∃ address response, resp = decorate ctx address response ∧
    resp' = decorate (ctx.ordered order) address response

theorem sameCalls_self (ctx : ProxyContext) (order : List (String × String)) (p : Handler Response) :
    SameCalls (UpToOrder ctx order) p p := by
  apply SameCalls.refl
  intro resp
  exact Or.inl rfl

theorem attemptProxy_ordered (ctx : ProxyContext) (order : List (String × String)) (parts : Parts)
    (remoteAddr : SocketAddr) (body : List UInt8) (preserveUpgrade : Bool) (u : UpstreamRef) :
    attemptProxy (proxyAttempt (ctx.ordered order) parts remoteAddr body preserveUpgrade u) =
      attemptProxy (proxyAttempt ctx parts remoteAddr body preserveUpgrade u) := by
  have hbuild : buildRequest (proxyAttempt (ctx.ordered order) parts remoteAddr body preserveUpgrade u) =
      buildRequest (proxyAttempt ctx parts remoteAddr body preserveUpgrade u) := rfl
  unfold attemptProxy
  rw [hbuild]
  cases buildRequest (proxyAttempt ctx parts remoteAddr body preserveUpgrade u) with
  | error e => rfl
  | ok proxyReq =>
    refine congrArg (perform (.request u proxyReq ctx.requestTimeout) >>= ·) ?_
    funext response
    cases response with
    | error e => rfl
    | ok response =>
      simp only [buildResponse_eq]
      rfl

theorem countedAttempt_ordered (fw : Forwarding) (order : List (String × String)) (u : UpstreamRef) :
    countedAttempt { fw with ctx := fw.ctx.ordered order } u = countedAttempt fw u := by
  unfold countedAttempt
  rw [attemptProxy_ordered]

theorem proxyUpgrade_ordered (ctx : ProxyContext) (order : List (String × String)) (req : Request)
    (remoteAddr : SocketAddr) (lb start : ℕ) :
    proxyUpgrade (ctx.ordered order) req remoteAddr lb start = proxyUpgrade ctx req remoteAddr lb start := by
  unfold proxyUpgrade
  simp only [attemptProxy_ordered]

theorem succeed_ordered (fw : Forwarding) (order : List (String × String)) (attempt : ℕ) (u : UpstreamRef)
    (response : Response) :
    SameCalls (UpToOrder fw.ctx order) (succeed fw attempt u response)
      (succeed { fw with ctx := fw.ctx.ordered order } attempt u response) := by
  unfold succeed
  refine SameCalls.after (countAnswer fw.parts.method response.status u.address fw.start) ?_
  intro duration
  have hfinal : SameCalls (UpToOrder fw.ctx order) (pure (decorate fw.ctx u.address response) : Handler Response)
      (pure (decorate (fw.ctx.ordered order) u.address response)) :=
    .pure (Or.inr ⟨u.address,response,rfl,rfl⟩)
  exact SameCalls.ite (fw.ctx.accessLog = true) (SameCalls.after (Prog.perform _) fun _ => hfinal) hfinal

theorem attemptLoop_ordered (fw : Forwarding) (order : List (String × String)) (left attempt : ℕ)
    (tried : List String) (lastError : Option String) :
    SameCalls (UpToOrder fw.ctx order) (attemptLoop fw left attempt tried lastError)
      (attemptLoop { fw with ctx := fw.ctx.ordered order } left attempt tried lastError) := by
  induction left generalizing attempt tried lastError with
  | zero => exact sameCalls_self fw.ctx order (allAttemptsFailed fw lastError)
  | succ left ih =>
    refine SameCalls.after (selectUpstream fw attempt tried) ?_
    intro upstream
    cases upstream with
    | none => exact sameCalls_self fw.ctx order (allAttemptsFailed fw lastError)
    | some u =>
      dsimp only
      rw [countedAttempt_ordered]
      refine SameCalls.after (countedAttempt fw u) ?_
      intro result
      cases result with
      | error e =>
        dsimp only
        exact SameCalls.after (Prog.perform _) fun _ => ih _ _ _
      | ok response => exact succeed_ordered fw order attempt u response

theorem proxyPlain_ordered (ctx : ProxyContext) (order : List (String × String)) (req : Request)
    (remoteAddr : SocketAddr) (lb start : ℕ) :
    SameCalls (UpToOrder ctx order) (proxyPlain ctx req remoteAddr lb start)
      (proxyPlain (ctx.ordered order) req remoteAddr lb start) := by
  unfold proxyPlain
  refine SameCalls.after (Prog.perform Op.now) ?_
  intro now
  refine SameCalls.after (Prog.perform Op.collectBody) ?_
  intro _
  have hlimits : collectLimited req.body (ctx.ordered order).maxBodyBytes (ctx.ordered order).idleTimeout now =
      collectLimited req.body ctx.maxBodyBytes ctx.idleTimeout now := rfl
  rw [hlimits]
  cases collectLimited req.body ctx.maxBodyBytes ctx.idleTimeout now with
  | ok body => exact attemptLoop_ordered (forwarding ctx req remoteAddr lb start body) order _ 0 [] none
  | error e => cases e <;> exact sameCalls_self ctx order _

/-- The order of the map changes no call of the handler. -/
theorem proxyRequest_ordered (ctx : ProxyContext) (order : List (String × String)) (req : Request)
    (remoteAddr : SocketAddr) :
    SameCalls (UpToOrder ctx order) (proxyRequest ctx req remoteAddr)
      (proxyRequest (ctx.ordered order) req remoteAddr) := by
  unfold proxyRequest
  refine SameCalls.after (Prog.perform Op.now) ?_
  intro start
  refine SameCalls.after (acquirePermit ctx) ?_
  intro permitted
  refine SameCalls.ite _ (sameCalls_self ctx order _) ?_
  refine SameCalls.ite ((!aclAllows ctx remoteAddr.ip) = true) (sameCalls_self ctx order _) ?_
  refine SameCalls.after (checkRate ctx remoteAddr.ip) ?_
  intro withinRate
  refine SameCalls.ite _ (sameCalls_self ctx order _) ?_
  have hroute : (ctx.ordered order).router = ctx.router := rfl
  rw [hroute]
  cases ctx.router.resolve req.parts.uri.path with
  | none => exact sameCalls_self ctx order _
  | some lb =>
    refine SameCalls.ite (isUpgradeRequest req.parts = true) ?_ (proxyPlain_ordered ctx order req remoteAddr lb start)
    rw [proxyUpgrade_ordered]
    exact sameCalls_self ctx order (proxyUpgrade ctx req remoteAddr lb start)

/-- For a map of valid headers, the response carries each once with its value in whatever order the
map is iterated, exactly if names that are the same header have one value and the response is an
upstream's to a plain request, or carries the headers by itself. -/
theorem response_headers_iff {ctx : ProxyContext} {req : Request} {remoteAddr : SocketAddr}
    (moments : ℕ → Moment) (hvalid : ValidSet ctx.headers.responseSet) :
    (∀ order, order.Perm ctx.headers.responseSet →
      Carries ctx.headers.responseSet
        (run answer (proxyRequest (ctx.ordered order) req remoteAddr) moments).1.headers ∧
      ∀ n, (run answer (proxyRequest (ctx.ordered order) req remoteAddr) moments).1.headers.values n =
        (run answer (proxyRequest ctx req remoteAddr) moments).1.headers.values n) ↔
    Consistent ctx.headers.responseSet ∧
      (Dressed req (run answer (proxyRequest ctx req remoteAddr) moments).2 ∨
        Carries ctx.headers.responseSet (undressed (run answer (proxyRequest ctx req remoteAddr) moments).2)) := by
  have hexit := (proxyRequest_exit ctx req remoteAddr).run moments
  constructor
  · intro h
    have hcarries : Carries ctx.headers.responseSet (run answer (proxyRequest ctx req remoteAddr) moments).1.headers :=
      (h _ (List.Perm.refl _)).1
    refine ⟨hcarries.consistent hvalid,?_⟩
    rcases hexit with ⟨hdressed,-⟩ | ⟨-,hresp⟩
    · exact Or.inl hdressed
    · rw [hresp] at hcarries
      exact Or.inr hcarries
  · rintro ⟨hconsistent,hcond⟩ order hperm
    have hcarries : Carries ctx.headers.responseSet
        (run answer (proxyRequest ctx req remoteAddr) moments).1.headers := by
      rcases hexit with ⟨-,address,response,hresp⟩ | ⟨hnot,hresp⟩
      · rw [hresp]
        exact carries_decorate (List.Perm.refl _) hconsistent address response
      · rw [hresp]
        exact hcond.resolve_left hnot
    rcases ((proxyRequest_ordered ctx order req remoteAddr).run moments).2 with
      hsame | ⟨address,response,hresp,hresp'⟩
    · rw [hsame]
      exact ⟨hcarries,fun n => rfl⟩
    · rw [hresp,hresp']
      have hordered : (ctx.ordered order).headers.responseSet.Perm ctx.headers.responseSet := hperm
      exact ⟨carries_decorate hordered hconsistent address response,
        values_decorate_ordered hperm hvalid hconsistent address response⟩

end Orders

def markedContext (set : List (String × String)) : ProxyContext :=
  { basicContext 0 with headers := ⟨[],set⟩ }

def markedRun (set : List (String × String)) (req : Request) (reply : Except SendError UpstreamResponse) :
    Response × Trace :=
  run answer (@proxyRequest visibleAscii (markedContext set) req SocketAddr.unspecified)
    fun _ => steady [⟨"http://a",1⟩] reply

/-- An answer of the proxy's own has no configured header, nor has the response to an upgrade
request, and names that differ in case overwrite each other. -/
theorem configured_header_missing :
    let get := basicRequest "GET" [] []
    let upgrade := basicRequest "GET" [(UPGRADE,⟨asBytes "websocket".toList⟩)] []
    let name : HeaderName := ⟨"x-served-by"⟩
    (markedRun [("X-Served-By","oxigate")] get (.error .timedOut)).1.headers.values name = [] ∧
    (markedRun [("X-Served-By","oxigate")] upgrade (.ok (bare 101))).1.headers.values name = [] ∧
    (markedRun [("X-Served-By","a"),("x-served-by","b")] get (.ok (bare 200))).1.headers.values name =
      [⟨asBytes "b".toList⟩] ∧
    (markedRun [("x-served-by","b"),("X-Served-By","a")] get (.ok (bare 200))).1.headers.values name =
      [⟨asBytes "a".toList⟩] := by
  decide +kernel

theorem response_headers_iff_served :
    letI := visibleAscii
    let set := [("X-Served-By","oxigate")]
    Carries set (markedRun set (basicRequest "GET" [] []) (.ok (bare 200))).1.headers := by
  let _ := visibleAscii
  intro set
  have hset : ∀ kv ∈ set, kv = ("X-Served-By","oxigate") := fun kv hkv => List.mem_singleton.mp hkv
  have hvalid : ValidSet (markedContext set).headers.responseSet := by
    intro kv hkv
    rw [hset kv hkv]
    exact ⟨⟨"x-served-by"⟩,⟨asBytes "oxigate".toList⟩,by decide +kernel,by decide +kernel⟩
  have hconsistent : Consistent (markedContext set).headers.responseSet := by
    intro kv hkv kv' hkv' _
    rw [hset kv hkv,hset kv' hkv']
  have hiff := @response_headers_iff visibleAscii (markedContext set) (basicRequest "GET" [] [])
    SocketAddr.unspecified (fun _ => steady [⟨"http://a",1⟩] (.ok (bare 200))) hvalid
  have hsame : (markedContext set).ordered set = markedContext set := rfl
  have hcarries := (hiff.mpr ⟨hconsistent,Or.inl ⟨by decide +kernel,by decide +kernel⟩⟩ set (List.Perm.refl _)).1
  rw [hsame] at hcarries
  exact hcarries

end Proxy
end OxiGate
