import OxiGate.Delivery
import OxiGate.IdentityHeaders
import OxiGate.ProxyPeek

/-! What becomes of an accepted connection: whether it is served, and under which
client address. -/
namespace OxiGate
namespace Connection

open Stream' (Seq)
open ByteReader ProxyProtocol Net RustText Http Security Interaction Proxy

variable {F S : Type}

structure Runtime (F : Type) where
  config : Config F
  router : Router
  rateLimiter : Option ℕ
  tls : Bool
  requestLimit : Option ℕ
  proxyTrusted : Option Acl

inductive RuntimeError
  | tls (e : String)
  | cidr (e : CidrError)

/-- The peers that may send PROXY headers, when that is restricted. -/
def trustedAcl (config : Config F) : Except CidrError (Option Acl) :=
  if config.proxyProtocol && !config.proxyProtocolTrustedCidrs.isEmpty then
    (Acl.fromConfig config.proxyProtocolTrustedCidrs []).map some
  else .ok none

/-- The runtime of a configuration. Its limiter and semaphore are new objects, known by
the generation; `loadTls` is what loading the certificate comes to. -/
def Runtime.fromConfig (generation : ℕ) (loadTls : Except String Unit) (config : Config F) :
    Except RuntimeError (Runtime F) := do
  (if config.tls.isSome then loadTls else .ok ()).mapError .tls
  let proxyTrusted ← (trustedAcl config).mapError .cidr
  pure {
    config := config
    router := Router.fromConfig config
    rateLimiter := config.rateLimit.map fun _ => generation
    tls := config.tls.isSome
    requestLimit := if 0 < config.maxConnections then some generation else none
    proxyTrusted := proxyTrusted }

def seconds (n : ℕ) : ℕ := n*1000000000

def proxyContext (rt : Runtime F) : ProxyContext where
  router := rt.router
  retries := rt.config.retries
  requestTimeout := seconds rt.config.timeouts.requestSecs
  sticky := rt.config.sticky
  headers := rt.config.headers
  accessLog := rt.config.accessLog
  rateLimiter := rt.rateLimiter
  maxBodyBytes := rt.config.maxBodyBytes
  retryIdempotentOnly := rt.config.retryIdempotentOnly
  forceRetryWithBody := rt.config.forceRetryWithBody
  acl := rt.config.acl.bind fun a => (Acl.fromConfig a.allow a.deny).toOption
  securityHeaders := rt.config.securityHeaders
  clientIsTls := rt.tls
  requestLimit := rt.requestLimit
  idleTimeout := seconds (max rt.config.timeouts.idleSecs 1)

/-- A served connection passes each request of the stream to `proxy_request` with the
context and the client's address. -/
inductive Fate (S : Type)
  | closed
  | served (clientAddr : SocketAddr) (stream : PrefixedStream S) (ctx : ProxyContext)

def peerAllowed (rt : Runtime F) (ip : IpAddr) : Bool :=
  match rt.proxyTrusted with
  | some acl => acl.isAllowed ip
  | none => true

/-- The client's address and the stream to serve, unless the connection is closed. -/
def acceptClient [AsyncRead UInt8 S] (rt : Runtime F) (stream : S) (remoteAddr : SocketAddr) :
    Option (SocketAddr × PrefixedStream S) :=
  if rt.config.proxyProtocol then
    if !peerAllowed rt remoteAddr.ip then none
    else
      match maybeReadProxyHeader stream with
      | .ok (some h,s) => some (h.src,s)
      | .ok (none,s) => some (remoteAddr,s)
      | .error _ => none
  else some (remoteAddr,PrefixedStream.new stream [])

def handleOneConnection [AsyncRead UInt8 S] (rt : Runtime F) (stream : S) (remoteAddr : SocketAddr) :
    Fate S :=
  match acceptClient rt stream remoteAddr with
  | some (clientAddr,stream) => .served clientAddr stream (proxyContext rt)
  | none => .closed

/-! What a PROXY header says about the client, read off the bytes of the stream. -/

def unknownLine (line : Text) : Bool :=
  match splitWhitespace line with
  | _::proto::_ => decide (proto = "UNKNOWN".toList)
  | _ => false

def lineSource (line : Text) : Option SocketAddr :=
  match splitWhitespace line with
  | _::_::src::_::sport::_ => (parseSocket src sport).toOption
  | _ => none

def v1Line (input : Seq UInt8) : Option Text :=
  (crlfPosition (input.take 109)).bind fun pos => fromUtf8 (input.take pos)

def localCommand (hdr : List UInt8) : Bool := decide (hdr.getD 12 0 &&& 0x0F = 0x00)

def blockSource (hdr rest : List UInt8) : Option SocketAddr :=
  if hdr.getD 13 0 = 0x11 then some ⟨.v4 (octetsAt 4 rest 0),portAt rest 8⟩
  else if hdr.getD 13 0 = 0x21 then some ⟨.v6 (octetsAt 16 rest 0),portAt rest 32⟩
  else none

/-- The stream starts with a header that gives no address. -/
def Addressless (input : Seq UInt8) : Prop :=
  if input.take 6 = v1Sig then (v1Line input).any unknownLine = true
  else input.take 12 = v2Sig ∧ localCommand (input.take 16) = true

def carriedSource (input : Seq UInt8) : Option SocketAddr :=
  if input.take 6 = v1Sig then
    (v1Line input).bind fun line => if unknownLine line then none else lineSource line
  else if input.take 12 = v2Sig then
    let hdr := input.take 16
    if localCommand hdr then none else blockSource hdr ((input.drop 16).take (v2Len hdr))
  else none

theorem decodeV1_source {bytes : List UInt8} {header : ProxyHeader} (h : decodeV1 bytes = .ok header) :
    ∃ line, fromUtf8 bytes = some line ∧
      (unknownLine line = true ∧ header.src = .unspecified ∨
        unknownLine line = false ∧ lineSource line = some header.src) := by
  unfold decodeV1 at h
  cases hline : fromUtf8 bytes with
  | none => simp [hline] at h
  | some line =>
    refine ⟨line,rfl,?_⟩
    simp only [hline,parseV1Line] at h
    unfold unknownLine lineSource
    split at h
    · rename_i proxy proto parts hsplit
      rw [hsplit]
      split at h
      · cases h
      · split at h
        · rename_i hunknown
          cases h
          exact Or.inl ⟨decide_eq_true hunknown,rfl⟩
        · rename_i hknown
          refine Or.inr ⟨decide_eq_false hknown,?_⟩
          split at h
          · rename_i src dst sport dport rest
            obtain ⟨source,hsrc,h⟩ := ok_of_bind h
            obtain ⟨dest,-,h⟩ := ok_of_bind h
            cases h
            simp [hsrc,Except.toOption]
          · cases h
    · cases h

theorem decodeV2_source {hdr rest : List UInt8} {header : ProxyHeader}
    (h : decodeV2 hdr rest = .ok header) :
    localCommand hdr = true ∧ header.src = .unspecified ∨
      localCommand hdr = false ∧ blockSource hdr rest = some header.src := by
  unfold decodeV2 at h
  dsimp only at h
  unfold localCommand blockSource
  split at h
  · rename_i hlocal
    cases h
    exact Or.inl ⟨decide_eq_true hlocal,rfl⟩
  · rename_i hproxied
    refine Or.inr ⟨decide_eq_false hproxied,?_⟩
    split at h
    · rename_i hv4
      cases h
      rw [if_pos hv4.1]
    · split at h
      · rename_i hv6
        cases h
        have hne : ¬ hdr.getD 13 0 = 0x11 := by
          rw [hv6.1]
          decide
        rw [if_neg hne,if_pos hv6.1]
      · cases h

/-- An accepted header gives its source, or the unspecified address when it carries none. -/
theorem peek_source {input r : Seq UInt8} {header : ProxyHeader} (h : peek input = .ok (some header,r)) :
    Addressless input ∧ carriedSource input = none ∧ header.src = .unspecified ∨
      ¬ Addressless input ∧ carriedSource input = some header.src := by
  unfold Addressless carriedSource
  rcases peek_ok h with ⟨hv1,header',heq,hpeek⟩ | ⟨hv1,hv2,header',heq,hpeek⟩ | ⟨-,-,hnone,-⟩
  · cases heq
    simp only [if_pos hv1]
    obtain ⟨pos,hpos,hdecode,-⟩ := peekV1_ok hpeek
    obtain ⟨line,hline,hsource⟩ := decodeV1_source hdecode
    have hfound : v1Line input = some line := by simp [v1Line,hpos,hline]
    rcases hsource with ⟨hunknown,hsrc⟩ | ⟨hknown,hsrc⟩
    · exact Or.inl ⟨by simp [hfound,hunknown],by simp [hfound,hunknown],hsrc⟩
    · exact Or.inr ⟨by simp [hfound,hknown],by simp [hfound,hknown,hsrc]⟩
  · cases heq
    simp only [if_neg hv1,if_pos hv2]
    obtain ⟨-,hdecode,-⟩ := peekV2_ok hpeek
    rcases decodeV2_source hdecode with ⟨hlocal,hsrc⟩ | ⟨hproxied,hsrc⟩
    · exact Or.inl ⟨⟨hv2,hlocal⟩,by simp [hlocal],hsrc⟩
    · exact Or.inr ⟨by simp [hproxied],by simp [hproxied,hsrc]⟩
  · cases hnone

theorem peek_sourceless {input r : Seq UInt8} (h : peek input = .ok (none,r)) :
    ¬ Addressless input ∧ carriedSource input = none := by
  unfold Addressless carriedSource
  rcases peek_ok h with ⟨-,header,hnone,-⟩ | ⟨-,-,header,hnone,-⟩ | ⟨hv1,hv2,-,-⟩
  · cases hnone
  · cases hnone
  · simp [hv1,hv2]

/-! The calls a request is handled with. -/

def routine : Op → Bool
  | .check _ _ => false
  | .spawnTunnel _ => false
  | _ => true

section Handling

variable {allowed : Op → Prop} (hroutine : ∀ op, routine op = true → allowed op)

include hroutine

theorem routine_uses {op : Op} (h : routine op = true) : Uses allowed (perform op) :=
  uses_perform.mpr (hroutine op h)

theorem reject_uses (method : String) (status : ℕ) (msg : String) :
    Uses allowed (reject method status msg) :=
  Uses.bind (routine_uses hroutine rfl) fun _ => trivial

theorem acquirePermit_uses (ctx : ProxyContext) : Uses allowed (acquirePermit ctx) := by
  unfold acquirePermit
  split
  · exact routine_uses hroutine rfl
  · trivial

theorem countAnswer_uses (method : String) (status : ℕ) (address : String) (start : ℕ) :
    Uses allowed (countAnswer method status address start) :=
  Uses.bind (routine_uses hroutine rfl) fun _ => Uses.bind (routine_uses hroutine rfl) fun _ =>
    Uses.bind (routine_uses hroutine rfl) fun _ => trivial

variable [HttpCrate]

theorem attemptProxy_uses (a : ProxyAttempt) : Uses allowed (attemptProxy a) := by
  unfold attemptProxy
  split
  · trivial
  · exact Uses.bind (routine_uses hroutine rfl) fun _ => trivial

theorem attemptLoop_uses (fw : Forwarding) (left attempt : ℕ) (tried : List String)
    (lastError : Option String) : Uses allowed (attemptLoop fw left attempt tried lastError) := by
  have hfailed : ∀ lastError, Uses allowed (allAttemptsFailed fw lastError) := fun _ =>
    Uses.bind (routine_uses hroutine rfl) fun _ => reject_uses hroutine ..
  induction left generalizing attempt tried lastError with
  | zero => exact hfailed lastError
  | succ left ih =>
    have hselect : Uses allowed (selectUpstream fw attempt tried) := by
      unfold selectUpstream
      split
      · exact routine_uses hroutine rfl
      · exact Uses.bind (routine_uses hroutine rfl) fun _ => routine_uses hroutine rfl
    refine Uses.bind hselect ?_
    intro upstream
    cases upstream with
    | none => exact hfailed lastError
    | some u =>
      have hattempt : Uses allowed (countedAttempt fw u) :=
        Uses.bind (routine_uses hroutine rfl) fun _ => Uses.bind (routine_uses hroutine rfl) fun _ =>
          Uses.bind (attemptProxy_uses hroutine _) fun _ => Uses.bind (routine_uses hroutine rfl) fun _ =>
            Uses.bind (routine_uses hroutine rfl) fun _ => trivial
      refine Uses.bind hattempt ?_
      intro result
      cases result with
      | error e => exact Uses.bind (routine_uses hroutine rfl) fun _ => ih ..
      | ok response =>
        refine Uses.bind (countAnswer_uses hroutine ..) fun _ => ?_
        split
        · exact Uses.bind (routine_uses hroutine rfl) fun _ => trivial
        · trivial

theorem proxyPlain_uses (ctx : ProxyContext) (req : Request) (remoteAddr : SocketAddr) (lb start : ℕ) :
    Uses allowed (proxyPlain ctx req remoteAddr lb start) := by
  refine Uses.bind (routine_uses hroutine rfl) fun _ => Uses.bind (routine_uses hroutine rfl) fun _ => ?_
  split
  · exact attemptLoop_uses hroutine ..
  · exact reject_uses hroutine ..
  · exact reject_uses hroutine ..
  · exact Uses.bind (routine_uses hroutine rfl) fun _ => trivial

theorem proxyUpgrade_uses (htunnel : ∀ u, allowed (.spawnTunnel u)) (ctx : ProxyContext) (req : Request)
    (remoteAddr : SocketAddr) (lb start : ℕ) : Uses allowed (proxyUpgrade ctx req remoteAddr lb start) := by
  refine Uses.bind (routine_uses hroutine rfl) ?_
  intro upstream
  cases upstream with
  | none => trivial
  | some u =>
    refine Uses.bind (routine_uses hroutine rfl) fun _ => Uses.bind (attemptProxy_uses hroutine _) ?_
    intro result
    refine Uses.bind (routine_uses hroutine rfl) fun _ => ?_
    cases result with
    | error e => trivial
    | ok response =>
      refine Uses.bind (countAnswer_uses hroutine ..) fun _ => ?_
      split
      · exact Uses.bind (uses_perform.mpr (htunnel u)) fun _ => trivial
      · trivial

end Handling

def ChecksOnly (P : IpAddr → Prop) : Op → Prop
  | .check _ ip => P ip
  | _ => True

theorem checksOnly_routine {P : IpAddr → Prop} (op : Op) (h : routine op = true) : ChecksOnly P op := by
  cases op with
  | check limiter ip => cases h
  | _ => trivial

/-- The rate is checked for the client's address, and only once the access list allows it. -/
theorem proxyRequest_checks [HttpCrate] {P : IpAddr → Prop} (ctx : ProxyContext) (req : Request)
    (remoteAddr : SocketAddr) (hP : aclAllows ctx remoteAddr.ip = true → P remoteAddr.ip) :
    Uses (ChecksOnly P) (proxyRequest ctx req remoteAddr) := by
  refine Uses.bind (uses_perform.mpr trivial) fun start =>
    Uses.bind (acquirePermit_uses checksOnly_routine ctx) ?_
  intro permitted
  split
  · exact reject_uses checksOnly_routine ..
  · split
    · exact reject_uses checksOnly_routine ..
    · rename_i hacl
      have hrate : Uses (ChecksOnly P) (checkRate ctx remoteAddr.ip) := by
        unfold checkRate
        split
        · exact Uses.bind (uses_perform.mpr (hP (by simpa using hacl))) fun _ =>
            Uses.bind (uses_perform.mpr trivial) fun _ => trivial
        · trivial
      refine Uses.bind hrate fun withinRate => ?_
      split
      · exact reject_uses checksOnly_routine ..
      · split
        · exact reject_uses checksOnly_routine ..
        · split
          · exact proxyUpgrade_uses checksOnly_routine (fun _ => trivial) ..
          · exact proxyPlain_uses checksOnly_routine ..

def Permitted (tr : Trace) : Prop := ∀ semaphore m, (Op.tryAcquire semaphore,m) ∈ tr → m.permitFree = true

def Forbidden (tr : Trace) (resp : Response) : Prop := course tr = [] ∧ resp = errorResponse 403 "Forbidden"

/-- The access list, the rate limiter and the `X-Real-IP` field go by the address. -/
structure GoesBy (ctx : ProxyContext) (addr : SocketAddr) (tr : Trace) (resp : Response) : Prop where
  acl : Forbidden tr resp ↔ aclAllows ctx addr.ip = false ∧ Permitted tr
  denied : aclAllows ctx addr.ip = false →
    course tr = [] ∧ ∀ limiter ip m, (Op.check limiter ip,m) ∉ tr
  rate : ∀ limiter ip m, (Op.check limiter ip,m) ∈ tr → ip = addr.ip
  realIp : ∀ u out, (u,out) ∈ sent tr → ⟨asBytes addr.ip.display⟩ ∈ out.headers.values X_REAL_IP

section Addresses

variable [HttpCrate] (ctx : ProxyContext) (req : Request) (addr : SocketAddr)

theorem proxyRequest_denies (hacl : aclAllows ctx addr.ip = false) :
    Sat answer (proxyRequest ctx req addr) fun tr resp => Forbidden tr resp ↔ Permitted tr := by
  unfold proxyRequest acquirePermit
  cases ctx.requestLimit with
  | none =>
    rw [sat_perform_bind]
    intro mStart
    rw [sat_bind,sat_pure]
    simp [hacl,reject,Forbidden,Permitted,course,Op.inCourse]
  | some semaphore =>
    simp only [sat_perform_bind,hacl,reject]
    intro mStart mPermit
    cases hfree : mPermit.permitFree with
    | false => simp [answer,hfree,Forbidden,Permitted,errorResponse]
    | true => simp [answer,hfree,Forbidden,Permitted,course,Op.inCourse]

theorem proxyRequest_allows (hacl : aclAllows ctx addr.ip = true) :
    Sat answer (proxyRequest ctx req addr) fun tr resp => ¬ Forbidden tr resp := by
  apply proxyRequest_rule
  · rintro tr status msg - ⟨-,hstatus⟩ - ⟨-,hresp⟩
    have hforbidden : status = 403 := congrArg Response.status hresp
    rw [hstatus hforbidden] at hacl
    cases hacl
  · intro tr lb start _ _ _
    split
    · rw [proxyUpgrade,sat_perform_bind]
      rintro m tr' resp - ⟨hnone,-⟩
      simp [course_cons,Op.inCourse] at hnone
    · refine Sat.mono (proxyPlain_sat ctx req addr lb start) ?_
      rintro tr' resp (hturned | ⟨-,hcourse⟩) ⟨hnone,hresp⟩
      · obtain ⟨status,msg,⟨-,hstatus⟩,rfl⟩ := hturned.response
        have hforbidden : status = 403 := congrArg Response.status hresp
        rw [hstatus hforbidden] at hacl
        cases hacl
      · obtain ⟨left,hleft⟩ := Nat.exists_eq_succ_of_ne_zero (maxAttempts_pos ctx req.parts.method req.body.data).ne'
        rw [hleft] at hcourse
        obtain ⟨m,hmem,-⟩ := hcourse.begins
        rw [course_append,List.append_eq_nil_iff] at hnone
        simp [hnone.2] at hmem

theorem proxyRequest_goesBy : Sat answer (proxyRequest ctx req addr) fun tr resp => GoesBy ctx addr tr resp := by
  have hdenied : aclAllows ctx addr.ip = false →
      Sat answer (proxyRequest ctx req addr) fun tr _ => course tr = [] := by
    intro hacl
    apply proxyRequest_rule
    · intro tr status msg htr _ _
      exact htr.course
    · intro tr lb start _ hallowed
      rw [hacl] at hallowed
      cases hallowed
  have hrate : Sat answer (proxyRequest ctx req addr) fun tr _ => ∀ e ∈ tr, ChecksOnly (· = addr.ip) e.1 :=
    (proxyRequest_checks (P := (· = addr.ip)) ctx req addr fun _ => rfl).sat
  intro tr resp hret
  refine ⟨?_,?_,?_,?_⟩
  · cases hacl : aclAllows ctx addr.ip with
    | false =>
      have hiff : Forbidden tr resp ↔ Permitted tr := proxyRequest_denies ctx req addr hacl tr resp hret
      simpa using hiff
    | true => simpa using proxyRequest_allows ctx req addr hacl tr resp hret
  · intro hacl
    have hnone : Sat answer (proxyRequest ctx req addr) fun tr _ => ∀ e ∈ tr, ChecksOnly (fun _ => False) e.1 :=
      (proxyRequest_checks ctx req addr (by simp [hacl])).sat
    exact ⟨hdenied hacl tr resp hret,fun limiter ip m hmem => hnone tr resp hret _ hmem⟩
  · intro limiter ip m hmem
    exact hrate tr resp hret _ hmem
  · intro u out hmem
    have hbuild := proxyRequest_built ctx req addr tr resp hret u out hmem
    obtain ⟨extra,hvalues,-⟩ := requestHeaders_values (n := X_REAL_IP) (by decide)
      (buildRequest_ok hbuild).2.2.1
    rw [hvalues]
    simp [ownValue,proxyAttempt]

end Addresses

/-- Trusted blocks are configured, and the address is in none of them. -/
def Untrusted (config : Config F) (ip : IpAddr) : Prop :=
  config.proxyProtocolTrustedCidrs ≠ [] ∧
    ∀ s ∈ config.proxyProtocolTrustedCidrs, ∀ net, parseCidr s = .ok net → net.contains ip = false

theorem mapM_parseCidr {cidrs : List String} {nets : List IpNet} (h : cidrs.mapM parseCidr = .ok nets) :
    nets.length = cidrs.length ∧ ∀ net ∈ nets, ∃ s ∈ cidrs, parseCidr s = .ok net := by
  induction cidrs generalizing nets with
  | nil =>
    cases h
    simp
  | cons s cidrs ih =>
    rw [List.mapM_cons] at h
    obtain ⟨net,hs,h⟩ := ok_of_bind h
    obtain ⟨rest,hrest,h⟩ := ok_of_bind h
    cases h
    obtain ⟨hlength,hsource⟩ := ih hrest
    refine ⟨by simp [hlength],?_⟩
    intro net' hnet'
    rcases List.mem_cons.mp hnet' with rfl | hnet'
    · exact ⟨s,by simp,hs⟩
    · obtain ⟨s',hs',hparse⟩ := hsource net' hnet'
      exact ⟨s',by simp [hs'],hparse⟩

theorem trustedAcl_ok {config : Config F} {trusted : Option Acl} (h : trustedAcl config = .ok trusted)
    (hproxy : config.proxyProtocol = true) (hcidrs : config.proxyProtocolTrustedCidrs ≠ []) :
    ∃ nets, config.proxyProtocolTrustedCidrs.mapM parseCidr = .ok nets ∧ trusted = some ⟨nets,[]⟩ := by
  have hon : (config.proxyProtocol && !config.proxyProtocolTrustedCidrs.isEmpty) = true := by
    simp [hproxy,hcidrs]
  rw [trustedAcl,if_pos hon] at h
  obtain ⟨acl,hacl,rfl⟩ := ok_of_map h
  obtain ⟨nets,hnets,hacl⟩ := ok_of_bind hacl
  cases hacl
  exact ⟨nets,hnets,rfl⟩

theorem fromConfig_ok {generation : ℕ} {loadTls : Except String Unit} {config : Config F}
    {rt : Runtime F} (h : Runtime.fromConfig generation loadTls config = .ok rt) :
    rt.config = config ∧ trustedAcl config = .ok rt.proxyTrusted := by
  obtain ⟨_,-,h⟩ := ok_of_bind h
  obtain ⟨trusted,htrusted,h⟩ := ok_of_bind h
  cases h
  exact ⟨rfl,ok_of_mapError htrusted⟩

theorem untrusted_not_allowed {config : Config F} {ip : IpAddr} {trusted : Option Acl}
    (h : trustedAcl config = .ok trusted) (hproxy : config.proxyProtocol = true)
    (huntrusted : Untrusted config ip) : ∃ acl, trusted = some acl ∧ acl.isAllowed ip = false := by
  obtain ⟨hcidrs,houtside⟩ := huntrusted
  obtain ⟨nets,hnets,rfl⟩ := trustedAcl_ok h hproxy hcidrs
  obtain ⟨hlength,hsource⟩ := mapM_parseCidr hnets
  have hne : nets ≠ [] := by
    rintro rfl
    exact hcidrs (List.length_eq_zero_iff.mp hlength.symm)
  have hout : nets.any (·.contains ip) = false := by
    apply List.any_eq_false.mpr
    intro net hnet
    obtain ⟨s,hs,hparse⟩ := hsource net hnet
    simp [houtside s hs net hparse]
  exact ⟨_,rfl,by simp [Acl.isAllowed,hne,hout]⟩

/-- A connection is accepted under the source of its header, or else the peer's address. -/
theorem acceptClient_addr [AsyncRead UInt8 S] [LawfulRead UInt8 S] {rt : Runtime F} {stream : S}
    {remoteAddr addr : SocketAddr} {ps : PrefixedStream S} (hproxy : rt.config.proxyProtocol = true)
    (h : acceptClient rt stream remoteAddr = some (addr,ps)) :
    addr = (carriedSource (LawfulRead.rest stream)).getD remoteAddr ↔
      ¬ Addressless (LawfulRead.rest stream) ∨ remoteAddr = .unspecified := by
  unfold acceptClient at h
  rw [if_pos hproxy] at h
  split at h
  · cases h
  · cases hread : maybeReadProxyHeader stream with
    | error f =>
      rw [hread] at h
      cases h
    | ok r =>
      rcases r with ⟨header,s⟩
      have hpeek := peek_of_ok hread
      rw [hread] at h
      cases header with
      | none =>
        cases h
        obtain ⟨hnot,hnone⟩ := peek_sourceless hpeek
        simp [hnot,hnone]
      | some header =>
        cases h
        rcases peek_source hpeek with ⟨hless,hnone,hsrc⟩ | ⟨hnot,hsome⟩
        · rw [hnone,hsrc]
          simp [hless,eq_comm]
        · simp [hnot,hsome]

/-- With PROXY headers on, an untrusted peer is not served; a served request goes by one
address, which is the right one exactly when the header gives one or there is none. -/
theorem clientAddress_iff [HttpCrate] [AsyncRead UInt8 S] [LawfulRead UInt8 S] (generation : ℕ)
    (loadTls : Except String Unit) (config : Config F) (rt : Runtime F) (stream : S)
    (remoteAddr : SocketAddr) (hrt : Runtime.fromConfig generation loadTls config = .ok rt)
    (hproxy : config.proxyProtocol = true) :
    (Untrusted config remoteAddr.ip → handleOneConnection rt stream remoteAddr = .closed) ∧
    ∀ addr ps ctx, handleOneConnection rt stream remoteAddr = .served addr ps ctx →
      (∀ req moments, GoesBy ctx addr (run answer (proxyRequest ctx req addr) moments).2
        (run answer (proxyRequest ctx req addr) moments).1) ∧
      (addr = (carriedSource (LawfulRead.rest stream)).getD remoteAddr ↔
        ¬ Addressless (LawfulRead.rest stream) ∨ remoteAddr = .unspecified) := by
  obtain ⟨rfl,htrusted⟩ := fromConfig_ok hrt
  constructor
  · intro huntrusted
    obtain ⟨acl,hacl,hdenied⟩ := untrusted_not_allowed htrusted hproxy huntrusted
    simp [handleOneConnection,acceptClient,peerAllowed,hproxy,hacl,hdenied]
  · intro addr ps ctx hserved
    refine ⟨fun req moments => (proxyRequest_goesBy ctx req addr).run moments,?_⟩
    unfold handleOneConnection at hserved
    split at hserved
    · rename_i addr' ps' haccept
      cases hserved
      exact acceptClient_addr hproxy haccept
    · cases hserved

def proxyConfig : Config ℚ := { Config.ofPools [⟨"http://a",1⟩] [] with proxyProtocol := true }

/-- A load balancer at 192.0.2.7 that does not know its client. -/
def unknownStream : Scheduled UInt8 :=
  ⟨Seq.ofList (asBytes "PROXY UNKNOWN\r\n".toList),Stream'.const 16⟩

def sampleRuntime : Runtime ℚ where
  config := proxyConfig
  router := Router.fromConfig proxyConfig
  rateLimiter := none
  tls := false
  requestLimit := none
  proxyTrusted := none

def samplePeer : SocketAddr := ⟨.v4 (ipv4 192 0 2 7),4000⟩

/-- A client announced as unknown is taken to come from 0.0.0.0, not from its peer. -/
theorem unknown_client_unspecified :
    Runtime.fromConfig 0 (.ok ()) proxyConfig = .ok sampleRuntime ∧
      ∃ ps, handleOneConnection sampleRuntime unknownStream samplePeer =
        .served .unspecified ps (proxyContext sampleRuntime) := by
  have haddr : (acceptClient sampleRuntime unknownStream samplePeer).map Prod.fst =
      some .unspecified := by decide +kernel
  obtain ⟨⟨addr,ps⟩,haccept,rfl⟩ := Option.map_eq_some_iff.mp haddr
  refine ⟨rfl,ps,?_⟩
  rw [handleOneConnection,haccept]

theorem clientAddress_iff_unknown :
    let input := LawfulRead.rest unknownStream
    (Untrusted proxyConfig samplePeer.ip →
      handleOneConnection sampleRuntime unknownStream samplePeer = .closed) ∧
    ∀ addr ps ctx, handleOneConnection sampleRuntime unknownStream samplePeer = .served addr ps ctx →
      (∀ req moments, GoesBy ctx addr (run answer (@proxyRequest visibleAscii ctx req addr) moments).2
        (run answer (@proxyRequest visibleAscii ctx req addr) moments).1) ∧
      (addr = (carriedSource input).getD samplePeer ↔
        ¬ Addressless input ∨ samplePeer = .unspecified) :=
  @clientAddress_iff ℚ (Scheduled UInt8) visibleAscii _ _ 0 (.ok ()) proxyConfig sampleRuntime
    unknownStream samplePeer rfl rfl

end Connection
end OxiGate
