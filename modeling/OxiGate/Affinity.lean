import OxiGate.Delivery
import OxiGate.UpgradeChoice

/-! Session affinity along a client's visits. A client keeps the value of the last affinity
cookie it was given and returns it; what other clients do shows in the balancers each visit
finds. -/
namespace OxiGate
namespace Proxy

open RustText Net Http Lb BodyLimit Security Interaction

structure Visit where
  req : Request
  remoteAddr : SocketAddr
  /-- How many answers the client had when it sent the request. -/
  seen : ℕ
  moments : ℕ → Moment

def Answered (u : UpstreamRef) (tr : Trace) : Prop :=
  ∃ out timeout m r, (Op.request u out timeout,m) ∈ tr ∧ m.reply u out = .ok r

/-- No upstream before it in the pool has the same address. -/
def FirstOfAddress (pool : LoadBalancer) (u : UpstreamRef) : Prop :=
  ∀ i < u.place, ∀ rt, pool.upstreams[i]? = some rt → rt.address ≠ u.address

theorem selectSticky_home {lb : LoadBalancer} {place : ℕ} {rt : UpstreamRuntime}
    (hget : lb.upstreams[place]? = some rt) (hhealthy : rt.healthy = true)
    (hfirst : ∀ i < place, ∀ rt', lb.upstreams[i]? = some rt' → rt'.address ≠ rt.address) :
    (lb.selectSticky (some rt.address)).1 = some (rt,place) := by
  have hnamed : lb.FirstNamed rt.address (rt,place) :=
    ⟨hget,hhealthy,rfl,fun i hi rt' hrt' _ => hfirst i hi rt' hrt'⟩
  simp [LoadBalancer.selectSticky,LoadBalancer.find?_eq_some_iff.mpr hnamed]

theorem FirstOfAddress.of_samePool {pool pool' : LoadBalancer} {u : UpstreamRef} (hsame : pool.SamePool pool')
    (h : FirstOfAddress pool u) : FirstOfAddress pool' u := by
  intro i hi rt hget
  have hpair : (pool.upstreams.map fun rt => (rt.address,rt.weight))[i]? = some (rt.address,rt.weight) := by
    rw [hsame.1]
    simp [hget]
  rw [List.getElem?_map] at hpair
  obtain ⟨rt',hget',heq⟩ := Option.map_eq_some_iff.mp hpair
  rw [← (Prod.mk.inj heq).1]
  exact h i hi rt' hget'

section Cookies

variable [HttpCrate]

/-- The value a client takes for the cookie of this name from a `Set-Cookie` field. -/
def setCookieValue (name : String) (value : HeaderValue) : Option String := do
  let text ← HttpCrate.toStr value
  let pair ← splitOnce '=' (text.takeWhile (· ≠ ';'))
  if trim pair.1 = name.toList then some (String.ofList (trim pair.2)) else none

def given (name : String) (resp : Response) : Option String :=
  ((resp.headers.values SET_COOKIE).filterMap (setCookieValue name)).getLast?

/-- The affinity cookie for the address is a header value from which a client takes the address. -/
def ReadsBack (sticky : StickyConfig) (address : String) : Prop :=
  ∃ value, HttpCrate.headerValue (stickyCookie sticky address) = .ok value ∧
    setCookieValue sticky.cookieName value = some address

/-- None of the configured response headers replaces the cookie. -/
def KeepsCookie (ctx : ProxyContext) : Prop :=
  ∀ kv ∈ ctx.headers.responseSet, HttpCrate.headerName kv.1 ≠ .ok SET_COOKIE

theorem values_applySecurityHeaders (hs : HeaderMap) :
    (applySecurityHeaders hs).values SET_COOKIE = hs.values SET_COOKIE := by
  have hnames : ∀ kv ∈ securityHeaders, isPlainName kv.1 = true ∧
      HeaderName.mk (String.ofList (toAsciiLowercase kv.1.toList)) ≠ SET_COOKIE := by decide +kernel
  apply Multimap.values_foldl
  intro hs kv hkv
  obtain ⟨hplain,hne⟩ := hnames kv hkv
  split
  · rfl
  · apply values_setHeader
    rw [HttpCrate.headerName_plain kv.1 hplain]
    exact fun heq => hne (Except.ok.inj heq)

theorem given_decorate {ctx : ProxyContext} {sticky : StickyConfig} {address : String}
    (hsticky : ctx.sticky = some sticky) (hreads : ReadsBack sticky address) (hkeeps : KeepsCookie ctx)
    (resp : Response) : given sticky.cookieName (decorate ctx address resp) = some address := by
  obtain ⟨value,hvalue,hread⟩ := hreads
  have hlast : (decorate ctx address resp).headers.values SET_COOKIE = resp.headers.values SET_COOKIE++[value] := by
    simp only [decorate,hsticky,hvalue]
    rw [Multimap.values_foldl fun hs kv hkv => values_setHeader hs kv.2 (hkeeps kv hkv)]
    split
    · rw [values_applySecurityHeaders,HttpCrate.values_append,if_pos rfl]
    · rw [HttpCrate.values_append,if_pos rfl]
  simp [given,hlast,hread]

theorem TurnedAway.given_eq_none {ctx : ProxyContext} {req : Request} {remoteAddr : SocketAddr} {tr : Trace}
    {resp : Response} (h : TurnedAway ctx req remoteAddr tr resp) {name : String} : given name resp = none := by
  obtain ⟨-,⟨status,msg,-,rfl⟩,-⟩ := h
  rfl

def cookieText : List (Text × Text) → Option Text
  | [] => none
  | cs => some (List.intercalate [';',' '] (cs.map fun c => c.1++ '='::c.2))

structure PlainCookie (c : Text × Text) : Prop where
  chars : ∀ ch ∈ c.1++c.2, isWhitespace ch = false ∧ ch ≠ ';'
  name : '=' ∉ c.1

instance (c : Text × Text) : Decidable (PlainCookie c) :=
  letI := List.decidableBAll (fun ch : Char => isWhitespace ch = false ∧ ch ≠ ';') (c.1++c.2)
  decidable_of_iff ((∀ ch ∈ c.1++c.2, isWhitespace ch = false ∧ ch ≠ ';') ∧ '=' ∉ c.1)
    ⟨fun h => ⟨h.1,h.2⟩,fun h => ⟨h.chars,h.name⟩⟩

/-- The cookies sent in the first `Cookie` field have the value under this name, or none. -/
def Brings (headers : HeaderMap) (name : String) (value : Option String) : Prop :=
  ∃ before after : List (Text × Text), (∀ c ∈ before++after, c.1 ≠ name.toList) ∧
    (∀ c ∈ before++((value.map fun v => (name.toList,v.toList)).toList++after), PlainCookie c) ∧
    (headers.first COOKIE).map HttpCrate.toStr =
      (cookieText (before++((value.map fun v => (name.toList,v.toList)).toList++after))).map some

omit [HttpCrate] in
theorem trim_of_no_whitespace {text : Text} (h : ∀ c ∈ text, isWhitespace c = false) : trim text = text := by
  have hkept : ∀ {text : Text}, (∀ c ∈ text, isWhitespace c = false) → text.dropWhile isWhitespace = text := by
    intro text htext
    cases text with
    | nil => rfl
    | cons c cs => exact List.dropWhile_cons_of_neg (by simp [htext c List.mem_cons_self])
  rw [trim,hkept h,hkept (by simpa using h),List.reverse_reverse]

/-- What the loop of `extract_cookie` makes of a part. -/
def readPart (name : String) (part : Text) : Option String :=
  match splitOnce '=' (trim part) with
  | some (k,v) => if trim k = name.toList then some (String.ofList (trim v)) else none
  | none => none

omit [HttpCrate] in
theorem readPart_plain {c : Text × Text} (h : PlainCookie c) (name : String) :
    readPart name (c.1++ '='::c.2) = if c.1 = name.toList then some (String.ofList c.2) else none := by
  have hname : trim c.1 = c.1 := trim_of_no_whitespace fun ch hch => (h.chars ch (List.mem_append_left _ hch)).1
  have hvalue : trim c.2 = c.2 := trim_of_no_whitespace fun ch hch => (h.chars ch (List.mem_append_right _ hch)).1
  have hpair : trim (c.1++ '='::c.2) = c.1++ '='::c.2 := by
    apply trim_of_no_whitespace
    intro ch hch
    rcases List.mem_append.mp hch with hch | hch
    · exact (h.chars ch (List.mem_append_left _ hch)).1
    · rcases List.mem_cons.mp hch with rfl | hch
      · decide
      · exact (h.chars ch (List.mem_append_right _ hch)).1
  rw [readPart,hpair,splitOnce_append h.name]
  simp only [hname,hvalue]

omit [HttpCrate] in
theorem intercalate_blank (part : Text) (parts : List Text) :
    List.intercalate [';',' '] (part::parts) = List.intercalate [';'] (part::parts.map (' '::·)) := by
  induction parts generalizing part with
  | nil => rfl
  | cons next parts ih =>
    rw [List.intercalate_cons_cons,ih,List.map_cons,List.intercalate_cons_cons]
    cases parts <;> simp [List.intercalate_cons_cons]

omit [HttpCrate] in
theorem findSome?_cookieText {cs : List (Text × Text)} (h : ∀ c ∈ cs, PlainCookie c) (name : String) {text : Text}
    (htext : cookieText cs = some text) :
    (text.splitOn ';').findSome? (readPart name) =
      cs.findSome? fun c => if c.1 = name.toList then some (String.ofList c.2) else none := by
  cases cs with
  | nil => cases htext
  | cons c cs =>
    cases htext
    have hparts : ∀ part ∈ (c.1++ '='::c.2)::(cs.map fun c => c.1++ '='::c.2).map (' '::·), ';' ∉ part := by
      have hpair : ∀ c' ∈ c::cs, ';' ∉ c'.1++ '='::c'.2 := by
        intro c' hc' hmem
        have hchars := (h c' hc').chars
        simp only [List.mem_append,List.mem_cons] at hmem
        rcases hmem with hmem | hmem | hmem
        · exact (hchars _ (List.mem_append_left _ hmem)).2 rfl
        · cases hmem
        · exact (hchars _ (List.mem_append_right _ hmem)).2 rfl
      rw [List.map_map,List.forall_mem_cons,List.forall_mem_map]
      refine ⟨hpair c List.mem_cons_self,fun c' hc' hmem => ?_⟩
      rcases List.mem_cons.mp hmem with hblank | hmem
      · cases hblank
      · exact hpair c' (List.mem_cons_of_mem c hc') hmem
    have hread : ∀ c' ∈ c::cs, readPart name (c'.1++ '='::c'.2) =
        if c'.1 = name.toList then some (String.ofList c'.2) else none := fun c' hc' => readPart_plain (h c' hc') name
    have hrest : ((cs.map fun c => c.1++ '='::c.2).map (' '::·)).findSome? (readPart name) =
        cs.findSome? fun c => if c.1 = name.toList then some (String.ofList c.2) else none := by
      rw [List.findSome?_map,List.findSome?_map,← List.head?_filterMap,← List.head?_filterMap]
      congr 1
      exact List.filterMap_congr fun c' hc' => hread c' (List.mem_cons_of_mem c hc')
    rw [List.map_cons,intercalate_blank,List.splitOn_intercalate _ hparts (List.cons_ne_nil _ _),List.findSome?_cons,
      List.findSome?_cons,hread c List.mem_cons_self,hrest]

theorem extractCookie_of_brings {headers : HeaderMap} {name : String} {value : Option String}
    (h : Brings headers name value) : extractCookie headers name = value := by
  obtain ⟨before,after,hothers,hplain,hfield⟩ := h
  have hfound : (before++((value.map fun v => (name.toList,v.toList)).toList++after)).findSome?
      (fun c => if c.1 = name.toList then some (String.ofList c.2) else none) = value := by
    have hnone : ∀ cs : List (Text × Text), (∀ c ∈ cs, c ∈ before++after) → cs.findSome?
        (fun c => if c.1 = name.toList then some (String.ofList c.2) else none) = none := by
      intro cs hcs
      exact List.findSome?_eq_none_iff.mpr fun c hc => if_neg (hothers c (hcs c hc))
    rw [List.findSome?_append,List.findSome?_append,hnone before fun c hc => List.mem_append_left _ hc,
      hnone after fun c hc => List.mem_append_right _ hc]
    cases value <;> simp
  generalize before++((value.map fun v => (name.toList,v.toList)).toList++after) = cs at hplain hfield hfound
  cases hfirst : headers.first COOKIE with
  | none =>
    rw [hfirst] at hfield
    have hempty : cs = [] := by
      cases cs with
      | nil => rfl
      | cons c cs => cases hfield
    rw [← hfound,hempty,extractCookie,hfirst]
    rfl
  | some field =>
    rw [hfirst] at hfield
    obtain ⟨text,htext,hread⟩ := Option.map_eq_some_iff.mp hfield.symm
    rw [extractCookie,hfirst]
    simp only [Option.bind_eq_bind,Option.bind_some,← hread]
    exact (findSome?_cookieText hplain name htext).trans hfound

end Cookies

section Visits

variable [HttpCrate]

def Visit.handled (ctx : ProxyContext) (v : Visit) : Response × Trace :=
  run answer (proxyRequest ctx v.req v.remoteAddr) v.moments

def jar (ctx : ProxyContext) (sticky : StickyConfig) (visits : List Visit) : Option String :=
  (visits.filterMap fun v => given sticky.cookieName (v.handled ctx).1).getLast?

/-- The visits, in the order of their answers, of a client that always returns the last affinity
cookie it was given. -/
def Loyal (ctx : ProxyContext) (sticky : StickyConfig) (visits : List Visit) : Prop :=
  ∀ (k : ℕ) (v : Visit), visits[k]? = some v → v.seen ≤ k ∧
    Brings v.req.parts.headers sticky.cookieName (jar ctx sticky (visits.take v.seen))

/-- The upstream stays healthy during the visit, in a pool that stays the same, and answers if it
is attempted. -/
structure StaysUp (ctx : ProxyContext) (pool : LoadBalancer) (u : UpstreamRef) (v : Visit) : Prop where
  pool : ∀ n, pool.SamePool ((v.moments n).balancers u.lb)
  healthy : ∀ n, HealthyAt (v.moments n) u
  answers : u ∈ attempted (v.handled ctx).2 → Answered u (v.handled ctx).2

/-- Neither the limits nor the access list turn the visit away, and its body can be read. -/
structure Admitted (ctx : ProxyContext) (v : Visit) : Prop where
  allowed : aclAllows ctx v.remoteAddr.ip = true
  permitted : ∀ n, (v.moments n).permitFree = true
  withinRate : ∀ n, (v.moments n).withinRate = true
  body : ∀ n, ∃ bytes,
    collectLimited v.req.body ctx.maxBodyBytes ctx.idleTimeout (v.moments n).time = .ok bytes

variable {ctx : ProxyContext} {sticky : StickyConfig} {pool : LoadBalancer} {u : UpstreamRef} {v : Visit}

theorem jar_take_succ {visits : List Visit} {k : ℕ} (hk : visits[k]? = some v) :
    jar ctx sticky (visits.take (k+1)) =
      (given sticky.cookieName (v.handled ctx).1).or (jar ctx sticky (visits.take k)) := by
  rw [List.take_add_one,hk]
  cases hgiven : given sticky.cookieName (v.handled ctx).1 with
  | none => simp [jar,hgiven]
  | some value => simp [jar,hgiven]

theorem Admitted.not_barred (h : Admitted ctx v) {lb : ℕ}
    (hlb : ctx.router.resolve v.req.parts.uri.path = some lb) :
    ¬ Barred ctx v.req v.remoteAddr (v.handled ctx).2 := by
  rintro (hacl | hnone | ⟨e,he,hmoment⟩)
  · rw [h.allowed] at hacl
    cases hacl
  · rw [hlb] at hnone
    cases hnone
  · obtain ⟨n,hn⟩ := mem_run he
    obtain ⟨bytes,hbytes⟩ := h.body n
    rw [hn,h.permitted n,h.withinRate n,hbytes] at hmoment
    simp at hmoment

theorem Visit.given_of_answered (hsticky : ctx.sticky = some sticky) (hreads : ReadsBack sticky u.address)
    (hkeeps : KeepsCookie ctx) (hplain : isUpgradeRequest v.req.parts = false)
    (h : Answered u (v.handled ctx).2) :
    ctx.router.resolve v.req.parts.uri.path = some u.lb ∧
      given sticky.cookieName (v.handled ctx).1 = some u.address := by
  obtain ⟨out,timeout,m,r,hmem,hreply⟩ := h
  have hcoursed : (Op.request u out timeout,m) ∈ course (v.handled ctx).2 := mem_course.mpr ⟨hmem,rfl⟩
  rcases (proxyRequest_course hplain).run v.moments with hturned | ⟨lb,start,hlb,-,-,hcourse⟩
  · have hnone : course (v.handled ctx).2 = [] := hturned.course
    rw [hnone] at hcoursed
    cases hcoursed
  · obtain ⟨before,after,hsplit⟩ := List.append_of_mem hcoursed
    have hsent : (u,out) ∈ sent (course (v.handled ctx).2) := by simp [hsplit]
    have hattempted := hcourse.sent_sublist.subset (List.mem_map_of_mem hsent)
    have hu : u.lb = lb := (hcourse.healthy u hattempted).1
    have hresp := (hcourse.first_answer hsplit hreply).2
    refine ⟨hu ▸ hlb,?_⟩
    have hhandled : (v.handled ctx).1 = decorate ctx u.address (passOn false ctx.idleTimeout r) := hresp
    rw [hhandled]
    exact given_decorate hsticky hreads hkeeps _

theorem Visit.answered_of_cookie (hsticky : ctx.sticky = some sticky)
    (hplain : isUpgradeRequest v.req.parts = false)
    (hlb : ctx.router.resolve v.req.parts.uri.path = some u.lb)
    (hcookie : extractCookie v.req.parts.headers sticky.cookieName = some u.address)
    (hfirst : FirstOfAddress pool u) (hup : StaysUp ctx pool u v) :
    TurnedAway ctx v.req v.remoteAddr (v.handled ctx).2 (v.handled ctx).1 ∨ Answered u (v.handled ctx).2 := by
  rcases (proxyRequest_course hplain).run v.moments with hturned | ⟨lb,start,hlb',-,-,hcourse⟩
  · exact Or.inl hturned
  · rw [hlb] at hlb'
    cases hlb'
    obtain ⟨left,hleft⟩ := Nat.exists_eq_succ_of_ne_zero
      (maxAttempts_pos ctx v.req.parts.method v.req.body.data).ne'
    rw [hleft] at hcourse
    obtain ⟨m,hmem,hbegins⟩ := hcourse.begins
    obtain ⟨n,hn⟩ := mem_run (mem_course.mp hmem).1
    have hn : m = v.moments n := hn
    obtain ⟨rt,hget,hhealthy,haddress⟩ := hup.healthy n
    have hhome := selectSticky_home hget hhealthy fun i hi rt' hget' =>
      haddress ▸ (hfirst.of_samePool (hup.pool n)) i hi rt' hget'
    rw [haddress] at hhome
    have hchosen : chosen (forwarding ctx v.req v.remoteAddr u.lb start v.req.body.data) 0 [] m = some u := by
      have hvalue : (forwarding ctx v.req v.remoteAddr u.lb start v.req.body.data).stickyVal =
          some u.address := by simp [forwarding,hsticky,hcookie]
      rw [chosen,if_pos rfl,hvalue,hn]
      simp only [answer,forwarding,hhome,Option.map_some,refer,haddress]
    have hattempted := hbegins u hchosen
    rw [attempted_course] at hattempted
    exact Or.inr (hup.answers hattempted)

theorem jar_kept {visits : List Visit} {i j : ℕ} {first second : Visit} (hsticky : ctx.sticky = some sticky)
    (hloyal : Loyal ctx sticky visits) (hplain : ∀ v ∈ visits, isUpgradeRequest v.req.parts = false)
    (hi : visits[i]? = some first) (hj : visits[j]? = some second)
    (hanswered : Answered u (first.handled ctx).2) (hreads : ReadsBack sticky u.address)
    (hkeeps : KeepsCookie ctx) (hfirst : FirstOfAddress pool u)
    (hup : ∀ k v, i < k → k < second.seen → visits[k]? = some v → StaysUp ctx pool u v)
    (hbetween : ∀ k v, i < k → k < second.seen → visits[k]? = some v →
      ctx.router.resolve v.req.parts.uri.path = none ∨
        ctx.router.resolve v.req.parts.uri.path = some u.lb ∧ i < v.seen)
    {n : ℕ} (hin : i < n) (hn : n ≤ second.seen) : jar ctx sticky (visits.take n) = some u.address := by
  induction n using Nat.strong_induction_on with
  | _ n ih =>
    obtain ⟨k,rfl⟩ : ∃ k, n = k+1 := ⟨n-1,by omega⟩
    rcases Nat.lt_or_eq_of_le (Nat.le_of_lt_succ hin) with hik | rfl
    · have hlt : k < visits.length := by
        have hseen := (hloyal j second hj).1
        have hlength := (List.getElem?_eq_some_iff.mp hj).1
        omega
      have hk := List.getElem?_eq_getElem hlt
      generalize visits[k] = v at hk
      have hbefore := ih k (Nat.lt_succ_self k) hik (by omega)
      rw [jar_take_succ hk,hbefore]
      have hplain' := hplain v (List.mem_of_getElem? hk)
      have hkept : given sticky.cookieName (v.handled ctx).1 = none ∨
          given sticky.cookieName (v.handled ctx).1 = some u.address := by
        rcases hbetween k v hik (by omega) hk with hnone | ⟨hlb,hseen⟩
        · rcases (proxyRequest_course hplain').run v.moments with hturn | ⟨lb,start,hlb,-⟩
          · exact Or.inl hturn.given_eq_none
          · rw [hnone] at hlb
            cases hlb
        · obtain ⟨hle,hcookie⟩ := hloyal k v hk
          rw [ih v.seen (by omega) hseen (by omega)] at hcookie
          have hstays := hup k v hik (by omega) hk
          rcases Visit.answered_of_cookie hsticky hplain' hlb (extractCookie_of_brings hcookie) hfirst hstays with
            hturn | hans
          · exact Or.inl hturn.given_eq_none
          · exact Or.inr (Visit.given_of_answered hsticky hreads hkeeps hplain' hans).2
      rcases hkept with hgiven | hgiven
      · rw [hgiven]
        rfl
      · rw [hgiven]
        rfl
    · have hgiven := (Visit.given_of_answered hsticky hreads hkeeps
        (hplain first (List.mem_of_getElem? hi)) hanswered).2
      rw [jar_take_succ hi,hgiven]
      rfl

end Visits

/-! A pool of two behind the root and a pool of one behind `/img`. -/

def shopConfig : Config ℚ :=
  .ofPools [⟨"http://a",1⟩,⟨"http://b",1⟩] [⟨"/img",[⟨"http://c",1⟩],none⟩]

def shopSticky : StickyConfig := ⟨"OXIGATE",3600⟩

def shopContext : ProxyContext :=
  { basicContext 1 with router := Router.fromConfig shopConfig, sticky := some shopSticky }

def shopPools (turn k : ℕ) : LoadBalancer :=
  if k = 0 then .fromUpstreams [⟨"http://c",1⟩] .roundRobin
  else { LoadBalancer.fromUpstreams [⟨"http://a",1⟩,⟨"http://b",1⟩] .roundRobin with rrCounter := turn }

def shopFields (cookie : Option String) : HeaderMap :=
  cookie.toList.map fun value => (COOKIE,⟨asBytes ("OXIGATE="++value).toList⟩)

def shopVisit (path : String) (cookie : Option String) (seen turn : ℕ) : Visit where
  req :=
    { parts := ⟨"GET",⟨none,none,path,none⟩,.http11,shopFields cookie⟩
      body := ⟨[],.ok ()⟩ }
  remoteAddr := .unspecified
  seen := seen
  moments := fun _ => { steady [] (.ok (bare 200)) with balancers := shopPools turn }

def answeredBy (u : UpstreamRef) (e : Op × Moment) : Bool :=
  match e.1 with
  | .request v out _ => decide (v = u) && (e.2.reply v out).isOk
  | _ => false

theorem answered_of_any {u : UpstreamRef} {tr : Trace} (h : tr.any (answeredBy u) = true) : Answered u tr := by
  obtain ⟨⟨op,m⟩,hmem,hans⟩ := List.any_eq_true.mp h
  cases op with
  | request v out timeout =>
    simp only [answeredBy,Bool.and_eq_true,decide_eq_true_eq] at hans
    obtain ⟨rfl,hok⟩ := hans
    cases hreply : m.reply v out with
    | error e => simp [hreply,Except.isOk,Except.toBool] at hok
    | ok r => exact ⟨out,timeout,m,r,hmem,hreply⟩
  | _ => cases hans

theorem Answered.sent {u : UpstreamRef} {tr : Trace} (h : Answered u tr) : u ∈ (sent tr).map Prod.fst := by
  obtain ⟨out,timeout,m,r,hmem,-⟩ := h
  exact List.mem_map.mpr ⟨(u,out),List.mem_filterMap.mpr ⟨_,hmem,rfl⟩,rfl⟩

theorem shopVisit_up {path : String} {cookie : Option String} {seen turn : ℕ}
    (hanswers : ⟨1,0,"http://a"⟩ ∈ attempted (@Visit.handled visibleAscii shopContext
      (shopVisit path cookie seen turn)).2 →
      Answered ⟨1,0,"http://a"⟩ (@Visit.handled visibleAscii shopContext (shopVisit path cookie seen turn)).2) :
    @StaysUp visibleAscii shopContext (shopPools 0 1) ⟨1,0,"http://a"⟩ (shopVisit path cookie seen turn) :=
  @StaysUp.mk visibleAscii _ _ _ _ (fun _ => ⟨rfl,rfl⟩) (fun _ => ⟨_,rfl,rfl,rfl⟩) hanswers

theorem shopVisit_admitted (path : String) (cookie : Option String) (seen turn : ℕ) :
    Admitted shopContext (shopVisit path cookie seen turn) :=
  ⟨rfl,fun _ => rfl,fun _ => rfl,fun _ => ⟨[],rfl⟩⟩

theorem shopFields_bring {cookie : Option String} (h : cookie ∈ [none,some "http://a",some "http://c"]) :
    @Brings visibleAscii (shopFields cookie) "OXIGATE" cookie := by
  have hplain : PlainCookie ("OXIGATE".toList,"http://a".toList) ∧ PlainCookie ("OXIGATE".toList,"http://c".toList) :=
    ⟨by decide +kernel,by decide +kernel⟩
  simp only [List.mem_cons,List.not_mem_nil,or_false] at h
  rcases h with rfl | rfl | rfl
  · exact ⟨[],[],by simp,by simp,rfl⟩
  · exact ⟨[],[],by simp,by simpa using hplain.1,by decide +kernel⟩
  · exact ⟨[],[],by simp,by simpa using hplain.2,by decide +kernel⟩

theorem shop_loyal {path : String} {cookie : Option String} (hcookie : cookie ∈ [none,some "http://a",some "http://c"])
    (hjar : @jar visibleAscii shopContext shopSticky
      [shopVisit "/" none 0 0,shopVisit path (some "http://a") 1 1] = cookie) :
    @Loyal visibleAscii shopContext shopSticky
      [shopVisit "/" none 0 0,shopVisit path (some "http://a") 1 1,shopVisit "/" cookie 2 1] := by
  have hjar' : @jar visibleAscii shopContext shopSticky [shopVisit "/" none 0 0] = some "http://a" := by decide +kernel
  have hbrings : ∀ {headers visits} {cookie : Option String}, cookie ∈ [none,some "http://a",some "http://c"] →
      headers = shopFields cookie → @jar visibleAscii shopContext shopSticky visits = cookie →
      @Brings visibleAscii headers "OXIGATE" (@jar visibleAscii shopContext shopSticky visits) := by
    rintro headers visits cookie hmem rfl hjar
    rw [hjar]
    exact shopFields_bring hmem
  intro k v hk
  rcases k with _ | _ | _ | k
  · cases hk
    exact ⟨le_rfl,hbrings (by decide) rfl rfl⟩
  · cases hk
    exact ⟨le_rfl,hbrings (by decide) rfl hjar'⟩
  · cases hk
    exact ⟨le_rfl,hbrings hcookie rfl hjar⟩
  · cases hk

end Proxy
end OxiGate
