import OxiGate.BodyLimit
import OxiGate.Interaction
import OxiGate.Router
import OxiGate.Security

/-! The request handler: a program that calls on the clock, the limits, the load
balancers, the upstreams, the metrics and the log. Durations are nanoseconds, and
shared objects (balancers, limiters, semaphores) are known by number. -/
namespace OxiGate
namespace Proxy

open RustText Net Http Lb BodyLimit Security Interaction

structure Parts where
  method : String
  uri : Uri
  version : Version
  headers : HeaderMap
  deriving DecidableEq

structure Request where
  parts : Parts
  body : Incoming

structure OutRequest where
  method : String
  uri : Uri
  version : Version
  headers : HeaderMap
  body : List UInt8
  deriving DecidableEq

structure UpstreamResponse where
  status : ℕ
  version : Version
  headers : HeaderMap
  body : Incoming

/-- A text of the proxy's own, or the upstream's body under the idle timeout. -/
inductive ResponseBody
  | full (text : String)
  | streamed (body : Incoming) (idle : ℕ)

structure Response where
  status : ℕ
  version : Version
  headers : HeaderMap
  body : ResponseBody

inductive SendError
  | timedOut
  | upstream (e : String)

def SendError.message : SendError → String
  | .timedOut => "upstream request timed out"
  | .upstream e => "upstream error: "++e

structure ProxyContext where
  router : Router
  retries : ℕ
  requestTimeout : ℕ
  sticky : Option StickyConfig
  headers : HeaderConfig
  accessLog : Bool
  rateLimiter : Option ℕ
  maxBodyBytes : ℕ
  retryIdempotentOnly : Bool
  forceRetryWithBody : Bool
  acl : Option Acl
  securityHeaders : Bool
  clientIsTls : Bool
  requestLimit : Option ℕ
  idleTimeout : ℕ

/-- A shared upstream: its balancer, its place in the pool, and its address. -/
structure UpstreamRef where
  lb : ℕ
  place : ℕ
  address : String
  deriving DecidableEq

inductive Metric
  | requestsTotal (method status upstream : String)
  | requestDuration (upstream : String) (duration : ℕ)
  | upstreamConnectionsInc (upstream : String)
  | upstreamConnectionsDec (upstream : String)
  | rateLimitRejects
  | rateLimitAllows
  | retriesTotal
  deriving DecidableEq

inductive LogEntry
  | bodyReadFailed (error : String)
  | upstreamFailed (upstream : String) (attempt : ℕ)
  | allAttemptsFailed (path error : String)
  | access (method path : String) (status : ℕ) (upstream : String) (durationMs : ℕ)
      (remote : SocketAddr) (attempt : ℕ)
  deriving DecidableEq

/-- The calls. `collectBody` and `request` are where the handler is suspended. -/
inductive Op
  | now
  | tryAcquire (semaphore : ℕ)
  | check (limiter : ℕ) (ip : IpAddr)
  | collectBody
  | selectSticky (lb : ℕ) (stickyValue : Option String)
  | selectExcluding (lb : ℕ) (exclude : List String)
  | select (lb : ℕ)
  | incConnections (u : UpstreamRef)
  | decConnections (u : UpstreamRef)
  | request (u : UpstreamRef) (req : OutRequest) (timeout : ℕ)
  | spawnTunnel (u : UpstreamRef)
  | metric (m : Metric)
  | log (entry : LogEntry)
  deriving DecidableEq

@[reducible] def Op.Ans : Op → Type
  | .now => ℕ
  | .tryAcquire _ => Bool
  | .check _ _ => Bool
  | .selectSticky _ _ => Option UpstreamRef
  | .selectExcluding _ _ => Option UpstreamRef
  | .select _ => Option UpstreamRef
  | .request _ _ _ => Except SendError UpstreamResponse
  | _ => Unit

/-- The surroundings at a call. The balancers' health flags, counters and round-robin
positions may be anything, as other tasks change them. -/
structure Moment where
  time : ℕ
  permitFree : Bool
  withinRate : Bool
  balancers : ℕ → LoadBalancer
  reply : UpstreamRef → OutRequest → Except SendError UpstreamResponse

def refer (lb : ℕ) (u : Placed) : UpstreamRef := ⟨lb,u.2,u.1.address⟩

def answer (m : Moment) : (op : Op) → op.Ans
  | .now => m.time
  | .tryAcquire _ => m.permitFree
  | .check _ _ => m.withinRate
  | .selectSticky lb stickyValue => ((m.balancers lb).selectSticky stickyValue).1.map (refer lb)
  | .selectExcluding lb exclude => ((m.balancers lb).selectExcluding exclude).1.map (refer lb)
  | .select lb => (m.balancers lb).select.1.map (refer lb)
  | .request u req _ => m.reply u req
  | .collectBody => ()
  | .incConnections _ => ()
  | .decConnections _ => ()
  | .spawnTunnel _ => ()
  | .metric _ => ()
  | .log _ => ()

abbrev Handler := Prog Op.Ans

abbrev Trace := List (Op × Moment)

abbrev perform (op : Op) : Handler op.Ans := Prog.perform op

def isHopByHop (name : HeaderName) : Bool :=
  ["connection","keep-alive","proxy-authenticate","proxy-authorization","te","trailers",
    "transfer-encoding","upgrade"].contains name.asStr

def isHopByHopExceptUpgrade (name : HeaderName) : Bool :=
  ["keep-alive","proxy-authenticate","proxy-authorization","te","trailers",
    "transfer-encoding"].contains name.asStr

def isStopped (preserveUpgrade : Bool) (name : HeaderName) : Bool :=
  if preserveUpgrade then isHopByHopExceptUpgrade name else isHopByHop name

def errorResponse (status : ℕ) (msg : String) : Response where
  status := status
  version := .http11
  headers := [(⟨"content-type"⟩,⟨asBytes "text/plain; charset=utf-8".toList⟩),
    (CONNECTION,⟨asBytes "close".toList⟩)]
  body := .full msg

/-- Strip the scheme and everything from the first slash on. -/
def extractHost (upstream : String) : Option Text := do
  let withoutScheme ← (stripPrefix "http://".toList upstream.toList).or
    (stripPrefix "https://".toList upstream.toList)
  pure (withoutScheme.takeWhile (· ≠ '/'))

structure ProxyAttempt where
  parts : Parts
  bodyBytes : List UInt8
  upstream : UpstreamRef
  method : String
  path : String
  query : Option String
  remoteAddr : SocketAddr
  headersCfg : HeaderConfig
  requestTimeout : ℕ
  idleTimeout : ℕ
  clientIsTls : Bool
  preserveUpgrade : Bool

variable [HttpCrate]

def copyFields (skip : HeaderName → Bool) (fields : HeaderMap) (b : Builder) : Builder :=
  fields.foldl (fun b field => if skip field.1 then b else b.header (.ok field.1) (.ok field.2)) b

def isUpgradeRequest (parts : Parts) : Bool :=
  parts.headers.containsKey UPGRADE ||
    (((parts.headers.first CONNECTION).bind HttpCrate.toStr).map fun s =>
      contains (toAsciiLowercase s) "upgrade".toList).getD false

def extractCookie (headers : HeaderMap) (name : String) : Option String := do
  let value ← headers.first COOKIE
  let cookie ← HttpCrate.toStr value
  (cookie.splitOn ';').findSome? fun part =>
    match splitOnce '=' (trim part) with
    | some (k,v) => if trim k = name.toList then some (String.ofList (trim v)) else none
    | none => none

def targetText (upstreamBase path : String) (query : Option String) : Text :=
  let base := trimEndMatches '/' upstreamBase.toList
  let path := if path.toList.isEmpty then ['/'] else path.toList
  match query with
  | some q => base++path++['?']++q.toList
  | none => base++path

def buildTargetUri (upstreamBase path : String) (query : Option String) : Except String Uri :=
  HttpCrate.parseUri (targetText upstreamBase path query)

def forwardedProto (clientIsTls : Bool) : Text := if clientIsTls then "https".toList else "http".toList

def requestHeaders (a : ProxyAttempt) : Builder :=
  let clientIp := a.remoteAddr.ip.display
  let b := copyFields (fun name => decide (name = HOST) || isStopped a.preserveUpgrade name)
    a.parts.headers (.ok [])
  let b := b.header (HttpCrate.headerName "X-Real-IP") (HttpCrate.headerValue clientIp)
  let b := b.header (HttpCrate.headerName "X-Forwarded-For") (HttpCrate.headerValue clientIp)
  let b := b.header (HttpCrate.headerName "X-Forwarded-Proto")
    (HttpCrate.headerValue (forwardedProto a.clientIsTls))
  let b := a.headersCfg.requestSet.foldl
    (fun b kv => b.header (HttpCrate.headerName kv.1) (HttpCrate.headerValue kv.2.toList)) b
  match extractHost a.upstream.address with
  | some host =>
    match HttpCrate.headerValue host with
    | .ok value => b.header (.ok HOST) (.ok value)
    | .error _ => b
  | none => b

def buildRequest (a : ProxyAttempt) : Except String OutRequest := do
  let targetUri ← (buildTargetUri a.upstream.address a.path a.query).mapError ("bad target uri: "++·)
  let headers ← (requestHeaders a).mapError ("build request: "++·)
  pure ⟨a.method,targetUri,a.parts.version,headers,a.bodyBytes⟩

def buildResponse (a : ProxyAttempt) (response : UpstreamResponse) : Except String Response := do
  let headers ← (copyFields (isStopped a.preserveUpgrade) response.headers (.ok [])).mapError
    ("build response: "++·)
  pure ⟨response.status,response.version,headers,.streamed response.body a.idleTimeout⟩

def attemptProxy (a : ProxyAttempt) : Handler (Except String Response) :=
  match buildRequest a with
  | .error e => pure (.error e)
  | .ok proxyReq => do
    let response ← perform (.request a.upstream proxyReq a.requestTimeout)
    pure (match response with
      | .error e => .error e.message
      | .ok response => buildResponse a response)

def proxyAttempt (ctx : ProxyContext) (parts : Parts) (remoteAddr : SocketAddr) (body : List UInt8)
    (preserveUpgrade : Bool) (u : UpstreamRef) : ProxyAttempt where
  parts := parts
  bodyBytes := body
  upstream := u
  method := parts.method
  path := parts.uri.path
  query := parts.uri.query
  remoteAddr := remoteAddr
  headersCfg := ctx.headers
  requestTimeout := ctx.requestTimeout
  idleTimeout := ctx.idleTimeout
  clientIsTls := ctx.clientIsTls
  preserveUpgrade := preserveUpgrade

def stickyCookie (sticky : StickyConfig) (address : String) : Text :=
  sticky.cookieName.toList++['=']++address.toList++"; Path=/; Max-Age=".toList++
    decimal sticky.maxAgeSecs++"; HttpOnly; SameSite=Lax".toList

/-- The affinity cookie, the security baseline and the configured headers. -/
def decorate (ctx : ProxyContext) (address : String) (response : Response) : Response :=
  let hs := response.headers
  let hs :=
    match ctx.sticky with
    | some sticky =>
      match HttpCrate.headerValue (stickyCookie sticky address) with
      | .ok value => HttpCrate.append hs SET_COOKIE value
      | .error _ => hs
    | none => hs
  let hs := if ctx.securityHeaders then applySecurityHeaders hs else hs
  let hs := ctx.headers.responseSet.foldl (fun hs kv => setHeader hs kv.1 kv.2) hs
  { response with headers := hs }

omit [HttpCrate] in
/-- Count the request under the status and answer with it. -/
def reject (method : String) (status : ℕ) (msg : String) : Handler Response := do
  perform (.metric (.requestsTotal method (toString status) "none"))
  pure (errorResponse status msg)

omit [HttpCrate] in
/-- Count an answered request, and return how long it took. -/
def countAnswer (method : String) (status : ℕ) (address : String) (start : ℕ) : Handler ℕ := do
  let now ← perform .now
  let duration := now-start
  perform (.metric (.requestsTotal method (toString status) address))
  perform (.metric (.requestDuration address duration))
  pure duration

def mayRetry (ctx : ProxyContext) (method : String) (body : List UInt8) : Bool :=
  ctx.forceRetryWithBody || body.isEmpty || !ctx.retryIdempotentOnly ||
    ["GET","HEAD","OPTIONS","PUT","DELETE"].contains method

def maxAttempts (ctx : ProxyContext) (method : String) (body : List UInt8) : ℕ :=
  if mayRetry ctx method body then min (ctx.retries+1) (2^32-1) else 1

/-- A request on its way to the balancer it was routed to. -/
structure Forwarding where
  ctx : ProxyContext
  parts : Parts
  remoteAddr : SocketAddr
  body : List UInt8
  lb : ℕ
  stickyVal : Option String
  start : ℕ

def allAttemptsFailed (fw : Forwarding) (lastError : Option String) : Handler Response := do
  perform (.log (.allAttemptsFailed fw.parts.uri.path (lastError.getD "no upstreams")))
  reject fw.parts.method 502 "Bad Gateway"

def selectUpstream (fw : Forwarding) (attempt : ℕ) (tried : List String) :
    Handler (Option UpstreamRef) :=
  if attempt = 0 then perform (.selectSticky fw.lb fw.stickyVal)
  else do
    perform (.metric .retriesTotal)
    perform (.selectExcluding fw.lb tried)

/-- An attempt, counted as a connection to the upstream while it lasts. -/
def countedAttempt (fw : Forwarding) (u : UpstreamRef) : Handler (Except String Response) := do
  perform (.incConnections u)
  perform (.metric (.upstreamConnectionsInc u.address))
  let result ← attemptProxy (proxyAttempt fw.ctx fw.parts fw.remoteAddr fw.body false u)
  perform (.decConnections u)
  perform (.metric (.upstreamConnectionsDec u.address))
  pure result

def succeed (fw : Forwarding) (attempt : ℕ) (u : UpstreamRef) (response : Response) :
    Handler Response := do
  let duration ← countAnswer fw.parts.method response.status u.address fw.start
  if fw.ctx.accessLog then
    perform (.log (.access fw.parts.method fw.parts.uri.path response.status u.address
      (duration/1000000) fw.remoteAddr (attempt+1)))
  pure (decorate fw.ctx u.address response)

/-- The iterations of `for attempt in 0..max_attempts`, `left` of them to come. -/
def attemptLoop (fw : Forwarding) : (left attempt : ℕ) → (tried : List String) →
    (lastError : Option String) → Handler Response
  | 0, _, _, lastError => allAttemptsFailed fw lastError
  | left+1, attempt, tried, lastError => do
    let upstream ← selectUpstream fw attempt tried
    match upstream with
    | none => allAttemptsFailed fw lastError
    | some u => do
      let result ← countedAttempt fw u
      match result with
      | .ok response => succeed fw attempt u response
      | .error e => do
        perform (.log (.upstreamFailed u.address (attempt+1)))
        attemptLoop fw left (attempt+1) (tried++[u.address]) (some e)

def proxyUpgrade (ctx : ProxyContext) (req : Request) (remoteAddr : SocketAddr) (lb start : ℕ) :
    Handler Response := do
  let upstream ← perform (.select lb)
  match upstream with
  | none => pure (errorResponse 503 "No healthy upstreams")
  | some u => do
    perform (.incConnections u)
    let result ← attemptProxy (proxyAttempt ctx req.parts remoteAddr [] true u)
    perform (.decConnections u)
    match result with
    | .ok response => do
      let _ ← countAnswer req.parts.method response.status u.address start
      if response.status = 101 then perform (.spawnTunnel u)
      pure response
    | .error _ => pure (errorResponse 502 "Bad Gateway")

def forwarding (ctx : ProxyContext) (req : Request) (remoteAddr : SocketAddr) (lb start : ℕ)
    (body : List UInt8) : Forwarding where
  ctx := ctx
  parts := req.parts
  remoteAddr := remoteAddr
  body := body
  lb := lb
  stickyVal := ctx.sticky.bind fun s => extractCookie req.parts.headers s.cookieName
  start := start

def proxyPlain (ctx : ProxyContext) (req : Request) (remoteAddr : SocketAddr) (lb start : ℕ) :
    Handler Response := do
  let now ← perform .now
  perform .collectBody
  match collectLimited req.body ctx.maxBodyBytes ctx.idleTimeout now with
  | .ok body =>
    attemptLoop (forwarding ctx req remoteAddr lb start body)
      (maxAttempts ctx req.parts.method body) 0 [] none
  | .error .tooLarge => reject req.parts.method 413 "Payload Too Large"
  | .error .idleTimeout => reject req.parts.method 408 "Request Body Idle Timeout"
  | .error (.other e) => do
    perform (.log (.bodyReadFailed e))
    pure (errorResponse 400 "Bad Request")

omit [HttpCrate] in
def acquirePermit (ctx : ProxyContext) : Handler Bool :=
  match ctx.requestLimit with
  | some semaphore => perform (.tryAcquire semaphore)
  | none => pure true

omit [HttpCrate] in
def aclAllows (ctx : ProxyContext) (ip : IpAddr) : Bool := ctx.acl.all (·.isAllowed ip)

omit [HttpCrate] in
def checkRate (ctx : ProxyContext) (ip : IpAddr) : Handler Bool :=
  match ctx.rateLimiter with
  | some limiter => do
    let allowed ← perform (.check limiter ip)
    perform (.metric (if allowed then .rateLimitAllows else .rateLimitRejects))
    pure allowed
  | none => pure true

def proxyRequest (ctx : ProxyContext) (req : Request) (remoteAddr : SocketAddr) : Handler Response := do
  let start ← perform .now
  let permitted ← acquirePermit ctx
  if !permitted then reject req.parts.method 503 "Too Many Concurrent Requests"
  else if !aclAllows ctx remoteAddr.ip then reject req.parts.method 403 "Forbidden"
  else do
    let withinRate ← checkRate ctx remoteAddr.ip
    if !withinRate then reject req.parts.method 429 "Too Many Requests"
    else
      match ctx.router.resolve req.parts.uri.path with
      | none => reject req.parts.method 404 "No route matched"
      | some lb =>
        if isUpgradeRequest req.parts then proxyUpgrade ctx req remoteAddr lb start
        else proxyPlain ctx req remoteAddr lb start

end Proxy
end OxiGate
