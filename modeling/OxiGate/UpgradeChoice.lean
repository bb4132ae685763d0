import OxiGate.UpgradePath

/-! Where an upgrade request and a plain request with the same cookies are sent. The plain path
asks the balancer with the affinity cookie, the upgrade path without it. -/
namespace OxiGate
namespace Lb
namespace LoadBalancer

def HasTurn (lb : LoadBalancer) (u : Placed) : Prop :=
  match lb.algorithm with
  | .roundRobin => (lb.eligible [])[lb.rrCounter % (lb.eligible []).length]? = some u
  | .weightedRoundRobin =>
    (expanded (lb.eligible []))[lb.rrCounter % (expanded (lb.eligible [])).length]? = some u
  | .leastConnections => u ∈ lb.eligible [] ∧
      (∀ v ∈ lb.eligible [], u.1.activeConnections ≤ v.1.activeConnections) ∧
      ∀ v ∈ lb.eligible [], v.1.activeConnections ≤ u.1.activeConnections →
        (lb.eligible []).idxOf u ≤ (lb.eligible []).idxOf v
  | .powerOfTwoChoices => ∃ a b, (lb.eligible [])[lb.rrCounter % (lb.eligible []).length]? = some a ∧
      (lb.eligible [])[(lb.rrCounter+1) % 2^64 % (lb.eligible []).length]? = some b ∧
      u = fewerConnections a b

def FirstNamed (lb : LoadBalancer) (address : String) (u : Placed) : Prop :=
  lb.upstreams[u.2]? = some u.1 ∧ u.1.healthy = true ∧ u.1.address = address ∧
    ∀ i < u.2, ∀ rt, lb.upstreams[i]? = some rt → rt.healthy = true → rt.address ≠ address

theorem leastConnSelect_eq_some_iff {healthy : List Placed} {u : Placed} :
    leastConnSelect healthy = some u ↔ u ∈ healthy ∧
      (∀ v ∈ healthy, u.1.activeConnections ≤ v.1.activeConnections) ∧
      ∀ v ∈ healthy, v.1.activeConnections ≤ u.1.activeConnections → healthy.idxOf u ≤ healthy.idxOf v := by
  have hbeq : (instBEqOfDecidableEq : BEq Placed) = instBEqProd := lawful_beq_subsingleton _ _
  rw [← hbeq]
  exact List.mem_argmin_iff

theorem select_eq_some_iff {lb : LoadBalancer} {u : Placed} : lb.select.1 = some u ↔ lb.HasTurn u := by
  by_cases hnil : lb.eligible [] = []
  · have hnone : lb.select.1 = none := by simp [select,selectExcluding,hnil]
    rw [hnone]
    unfold HasTurn
    rw [hnil]
    cases lb.algorithm <;> simp [expanded]
  · have hempty : (lb.eligible []).isEmpty = false := by simpa using hnil
    simp only [select,selectExcluding,hempty,Bool.false_eq_true,if_false,HasTurn]
    cases lb.algorithm with
    | roundRobin => exact Iff.rfl
    | weightedRoundRobin =>
      have hne : (expanded (lb.eligible [])).isEmpty = false := by simpa [expanded_eq_nil] using hnil
      simp only [hne,Bool.false_eq_true,if_false]
    | leastConnections => exact leastConnSelect_eq_some_iff
    | powerOfTwoChoices =>
      obtain ⟨a,-,ha⟩ := getElem?_mod (lb.eligible []) lb.rrCounter hnil
      obtain ⟨b,-,hb⟩ := getElem?_mod (lb.eligible []) ((lb.rrCounter+1) % 2^64) hnil
      simp only [ha,hb,Option.some.injEq]
      by_cases hone : (lb.eligible []).length = 1
      · -- both candidates are the only upstream
        obtain ⟨only,honly⟩ := List.length_eq_one_iff.mp hone
        rw [honly] at ha hb ⊢
        simp only [List.length_singleton,Nat.mod_one,List.getElem?_cons_zero,Option.some.injEq] at ha hb
        subst ha hb
        simp [fewerConnections,eq_comm]
      · simp [hone,eq_comm]

theorem find?_eq_some_iff {lb : LoadBalancer} {address : String} {u : Placed} :
    (lb.upstreams.zipIdx.find? fun u => u.1.healthy && u.1.address = address) = some u ↔
      lb.FirstNamed address u := by
  rw [List.find?_eq_some_iff_getElem]
  rcases u with ⟨rt,place⟩
  constructor
  · rintro ⟨hprop,i,hi,hget,hbefore⟩
    simp only [List.getElem_zipIdx,Nat.zero_add,Prod.mk.injEq] at hget
    obtain ⟨rfl,rfl⟩ := hget
    simp only [Bool.and_eq_true,decide_eq_true_eq] at hprop
    rw [List.length_zipIdx] at hi
    refine ⟨List.getElem?_eq_getElem hi,hprop.1,hprop.2,?_⟩
    intro j hj rt hrt hhealthy haddress
    have hnot := hbefore j hj
    obtain ⟨hlt,rfl⟩ := List.getElem?_eq_some_iff.mp hrt
    simp [hhealthy,haddress] at hnot
  · rintro ⟨hget,hhealthy,haddress,hbefore⟩
    simp only at hget hhealthy haddress hbefore
    obtain ⟨hlt,hrt⟩ := List.getElem?_eq_some_iff.mp hget
    refine ⟨by simp [hhealthy,haddress],place,by simpa using hlt,by simp [hrt],?_⟩
    intro j hj
    have hother := hbefore j hj _ (List.getElem?_eq_getElem (hj.trans hlt))
    cases hsick : lb.upstreams[j].healthy with
    | false => simp [hsick]
    | true => simp [hsick,hother hsick]

/-- Selection with and without a cookie agree unless the cookie names a healthy upstream out of turn. -/
theorem select_eq_selectSticky_iff {lb : LoadBalancer} {sticky : Option String} :
    lb.select.1 = (lb.selectSticky sticky).1 ↔
      ∀ address u, sticky = some address → lb.FirstNamed address u → lb.HasTurn u := by
  unfold selectSticky
  cases sticky with
  | none =>
    refine iff_of_true rfl ?_
    intro address u hnone
    cases hnone
  | some address =>
    cases hfind : lb.upstreams.zipIdx.find? fun u => u.1.healthy && u.1.address = address with
    | none =>
      simp only [Option.bind_some,hfind]
      refine iff_of_true rfl ?_
      intro address' u heq hnamed
      cases heq
      rw [← find?_eq_some_iff,hfind] at hnamed
      cases hnamed
    | some u =>
      simp only [Option.bind_some,hfind]
      rw [select_eq_some_iff]
      constructor
      · intro hturn address' v heq hnamed
        cases heq
        rw [← find?_eq_some_iff,hfind] at hnamed
        cases hnamed
        exact hturn
      · intro h
        exact h address u rfl (find?_eq_some_iff.mp hfind)

end LoadBalancer
end Lb

namespace Proxy

open RustText Net Http Lb BodyLimit Interaction

def firstSelection (tr : Trace) : Option (Op × Moment) := tr.find? fun e => e.1.selects?.isSome

theorem firstSelection_course (tr : Trace) : firstSelection (course tr) = firstSelection tr := by
  unfold firstSelection course
  rw [List.find?_filter]
  congr 1
  funext e
  rcases e with ⟨op,m⟩
  cases op <;> rfl

theorem refer_injective {pool : LoadBalancer} {lb : ℕ} {u v : Placed} (hu : pool.upstreams[u.2]? = some u.1)
    (hv : pool.upstreams[v.2]? = some v.1) (h : refer lb u = refer lb v) : u = v := by
  have hplace : u.2 = v.2 := congrArg UpstreamRef.place h
  rw [hplace,hv] at hu
  exact Prod.ext (Option.some.inj hu).symm hplace

theorem map_refer_eq_iff {pool : LoadBalancer} {lb : ℕ} {sticky : Option String} :
    pool.select.1.map (refer lb) = (pool.selectSticky sticky).1.map (refer lb) ↔
      pool.select.1 = (pool.selectSticky sticky).1 := by
  constructor
  · intro h
    cases hsel : pool.select.1 with
    | none =>
      rw [hsel,Option.map_none] at h
      exact (Option.map_eq_none_iff.mp h.symm).symm
    | some u =>
      rw [hsel,Option.map_some] at h
      obtain ⟨v,hv,heq⟩ := Option.map_eq_some_iff.mp h.symm
      rw [hv,refer_injective (LoadBalancer.selectExcluding_sound hsel).1 (LoadBalancer.selectSticky_sound hv).1
        heq.symm]
  · intro h
    rw [h]

section Choice

variable [HttpCrate]

def stickyValue (ctx : ProxyContext) (headers : HeaderMap) : Option String :=
  ctx.sticky.bind fun s => extractCookie headers s.cookieName

theorem stickyValue_congr {ctx : ProxyContext} {headers headers' : HeaderMap}
    (h : headers'.values COOKIE = headers.values COOKIE) : stickyValue ctx headers' = stickyValue ctx headers := by
  unfold stickyValue extractCookie Multimap.first
  rw [h]

theorem UpgradeCourse.firstSelection {ctx : ProxyContext} {req : Request} {remoteAddr : SocketAddr} {lb : ℕ}
    {tr : Trace} {resp : Response} (h : UpgradeCourse ctx req remoteAddr lb tr resp) :
    ∃ m, firstSelection tr = some (.select lb,m) := by
  cases h with
  | nobody hnone => exact ⟨_,rfl⟩
  | unbuilt hsome hbuild => exact ⟨_,rfl⟩
  | refused hsome hbuild hreply => exact ⟨_,rfl⟩
  | answered hsome hbuild hreply => exact ⟨_,rfl⟩

theorem Course.firstSelection {fw : Forwarding} {left : ℕ} {tr : Trace} {resp : Response}
    (h : Course fw (left+1) 0 [] tr resp) : ∃ m, firstSelection tr = some (.selectSticky fw.lb fw.stickyVal,m) := by
  cases h with
  | nobody hnone => exact ⟨_,rfl⟩
  | again hsome hfailed hrest => exact ⟨_,rfl⟩
  | answered hsome hbuild hreply => exact ⟨_,rfl⟩

theorem proxyRequest_firstSelection (ctx : ProxyContext) (req : Request) (remoteAddr : SocketAddr) :
    Sat answer (proxyRequest ctx req remoteAddr) fun tr _ => ∀ e, firstSelection tr = some e →
      ∃ lb, ctx.router.resolve req.parts.uri.path = some lb ∧
        e.1 = if isUpgradeRequest req.parts then .select lb
          else .selectSticky lb (stickyValue ctx req.parts.headers) := by
  refine Sat.mono (proxyRequest_paths ctx req remoteAddr) ?_
  intro tr resp hpaths e he
  rw [← firstSelection_course] at he
  rcases hpaths with hnil | ⟨lb,hlb,-,⟨hupgrade,hcourse⟩ | ⟨hplain,-,start,hcourse⟩⟩
  · rw [hnil] at he
    cases he
  · obtain ⟨m,hm⟩ := hcourse.firstSelection
    rw [hm] at he
    cases he
    exact ⟨lb,hlb,by rw [hupgrade]; rfl⟩
  · obtain ⟨left,hleft⟩ := Nat.exists_eq_succ_of_ne_zero (maxAttempts_pos ctx req.parts.method req.body.data).ne'
    rw [hleft] at hcourse
    obtain ⟨m,hm⟩ := hcourse.firstSelection
    rw [hm] at he
    cases he
    exact ⟨lb,hlb,by rw [hplain]; rfl⟩

/-- An upgrade request and a plain request with the same cookies, which find the balancers in the
same state, choose the same upstream exactly if the cookie names no healthy upstream of the pool,
or the one whose turn it is. -/
theorem same_backend_iff {ctx : ProxyContext} {req req' : Request} {remoteAddr remoteAddr' : SocketAddr}
    {tr tr' : Trace} {resp resp' : Response} {e e' : Op × Moment}
    (hupgrade : isUpgradeRequest req.parts = true) (hplain : isUpgradeRequest req'.parts = false)
    (hpath : req'.parts.uri.path = req.parts.uri.path)
    (hcookie : req'.parts.headers.values COOKIE = req.parts.headers.values COOKIE)
    (hrun : Returns answer (proxyRequest ctx req remoteAddr) tr resp)
    (hrun' : Returns answer (proxyRequest ctx req' remoteAddr') tr' resp')
    (he : firstSelection tr = some e) (he' : firstSelection tr' = some e')
    (hstate : e'.2.balancers = e.2.balancers) :
    found e.2 e.1 = found e'.2 e'.1 ↔
      ∀ lb address u, ctx.router.resolve req.parts.uri.path = some lb →
        stickyValue ctx req.parts.headers = some address → (e.2.balancers lb).FirstNamed address u →
        (e.2.balancers lb).HasTurn u := by
  obtain ⟨lb,hlb,hop⟩ := proxyRequest_firstSelection ctx req remoteAddr tr resp hrun e he
  obtain ⟨lb',hlb',hop'⟩ := proxyRequest_firstSelection ctx req' remoteAddr' tr' resp' hrun' e' he'
  rw [hpath,hlb] at hlb'
  cases hlb'
  rw [hupgrade,if_pos rfl] at hop
  rw [hplain,if_neg Bool.false_ne_true,stickyValue_congr hcookie] at hop'
  rw [hop,hop']
  simp only [found,answer,hstate]
  rw [map_refer_eq_iff,LoadBalancer.select_eq_selectSticky_iff]
  constructor
  · intro h lb' address u hlb' hsticky hnamed
    rw [hlb] at hlb'
    cases hlb'
    exact h address u hsticky hnamed
  · intro h address u hsticky hnamed
    exact h lb address u hlb hsticky hnamed

end Choice

def stickyContext : ProxyContext := { basicContext 0 with sticky := some ⟨"OXIGATE",3600⟩ }

def stickyRequest (address : String) (upgrade : Bool) : Request :=
  basicRequest "GET" ((COOKIE,⟨asBytes ("OXIGATE="++address).toList⟩)::
    if upgrade then [(UPGRADE,⟨asBytes "websocket".toList⟩)] else []) []

def stickyRun (address : String) (upgrade : Bool) : Response × Trace :=
  run answer (@proxyRequest visibleAscii stickyContext (stickyRequest address upgrade) SocketAddr.unspecified)
    fun _ => steady [⟨"http://a",1⟩,⟨"http://b",1⟩] (.ok (bare 200))

/-- The client's session is at the second upstream, its upgrade request goes to the first. -/
theorem upgrade_leaves_session :
    (firstSelection (stickyRun "http://b" true).2).map (fun e => found e.2 e.1) = some (some ⟨0,0,"http://a"⟩) ∧
    (firstSelection (stickyRun "http://b" false).2).map (fun e => found e.2 e.1) =
      some (some ⟨0,1,"http://b"⟩) :=
  ⟨by decide +kernel,by decide +kernel⟩

/-- The hypotheses hold of a client whose session is at the upstream whose turn it is. -/
theorem same_backend_iff_in_turn :
    let pool := LoadBalancer.fromUpstreams [⟨"http://a",1⟩,⟨"http://b",1⟩] .roundRobin
    let m := steady [⟨"http://a",1⟩,⟨"http://b",1⟩] (.ok (bare 200))
    found m (.select 0) = found m (.selectSticky 0 (some "http://a")) ↔
      ∀ lb address u, stickyContext.router.resolve "/" = some lb →
        @stickyValue visibleAscii stickyContext (stickyRequest "http://a" true).parts.headers = some address →
        pool.FirstNamed address u → pool.HasTurn u := by
  let _ := visibleAscii
  intro pool m
  have hrun := fun upgrade => returns_run answer
    (proxyRequest stickyContext (stickyRequest "http://a" upgrade) SocketAddr.unspecified) fun _ => m
  have hfirst : firstSelection (stickyRun "http://a" true).2 = some (.select 0,m) := rfl
  have hfirst' : firstSelection (stickyRun "http://a" false).2 = some (.selectSticky 0 (some "http://a"),m) :=
    rfl
  have hpath : (stickyRequest "http://a" false).parts.uri.path = (stickyRequest "http://a" true).parts.uri.path :=
    rfl
  exact same_backend_iff (by decide +kernel) (by decide +kernel) hpath (by decide +kernel) (hrun true)
    (hrun false) hfirst hfirst' rfl

end Proxy
end OxiGate
