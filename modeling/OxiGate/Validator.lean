import OxiGate.Config
import OxiGate.Security

/-! The checks a configuration has to pass, and what the configurations that pass them are
like. Warnings are left out. -/
namespace OxiGate
namespace Validator

open RustText Net Http Lb RateLimit

/-- `bail!` under a condition. -/
def bailIf (failed : Bool) (msg : String) : Except String Unit := if failed then .error msg else .ok ()

@[simp] theorem bailIf_eq_ok {failed : Bool} {msg : String} : bailIf failed msg = .ok () ↔ failed = false := by
  cases failed <;> simp [bailIf]

/-- `ok_or` with the message. -/
def parsed {α : Type} (x : Option α) (msg : String) : Except String α := x.elim (.error msg) .ok

theorem parsed_eq_ok {α : Type} {x : Option α} {msg : String} {a : α} :
    parsed x msg = .ok a ↔ x = some a := by
  cases x <;> simp [parsed]

/-- How `{:?}` prints a scheme. -/
def debugScheme : Option String → String
  | none => "None"
  | some scheme => "Some(\""++scheme++"\")"

def validateUpstream [HttpCrate] (i : ℕ) (upstream : Upstream) : Except String Unit := do
  bailIf upstream.address.toList.isEmpty s!"upstream[{i}] address cannot be empty"
  bailIf (upstream.weight == 0) s!"upstream[{i}] weight must be > 0"
  let url ← (HttpCrate.parseUri upstream.address.toList).mapError
    fun e => s!"upstream[{i}] is not a valid URI: {e}"
  bailIf (url.scheme != some "http" && url.scheme != some "https")
    (s!"upstream[{i}] scheme must be http or https, got "++debugScheme url.scheme)
  bailIf url.authority.isNone s!"upstream[{i}] must include a host"

def validateRoute [HttpCrate] (ri : ℕ) (route : RouteConfig) : Except String Unit := do
  bailIf route.upstreams.isEmpty s!"routes[{ri}] must have at least one upstream"
  bailIf route.pathPrefix.toList.isEmpty s!"routes[{ri}].path_prefix must not be empty (use \"/\")"
  route.upstreams.zipIdx.forM fun u =>
    (validateUpstream u.2 u.1).mapError fun e => s!"routes[{ri}]: {e}"

def validateCidr (s : String) : Except String Unit :=
  match splitOnce '/' s.toList with
  | some (ip,pfx) => do
    let _ ← parsed (parseIpAddr ip) s!"invalid IP in CIDR: {s}"
    let p ← (parseUint 255 pfx).mapError fun _ => s!"invalid prefix in CIDR: {s}"
    bailIf (128 < p) s!"CIDR prefix out of range: {s}"
  | none => do
    let _ ← parsed (parseIpAddr s.toList) s!"invalid IP or CIDR: {s}"

section

variable {F : Type} [F64 F] [LE F] [DecidableLE F]

def validateRateLimit (rl : RateLimitConfigYaml F) : Except String Unit := do
  bailIf (rl.rps == 0) "rate_limit.rps must be > 0"
  bailIf (rl.burst ≤ F64.zero) "rate_limit.burst must be > 0"

def validateTls (fileExists : String → Bool) (tls : TlsConfig) : Except String Unit := do
  bailIf (!fileExists tls.cert) s!"tls.cert file does not exist: {tls.cert}"
  bailIf (!fileExists tls.key) s!"tls.key file does not exist: {tls.key}"

/-- The products of a release build wrap around. -/
def validate [HttpCrate] (fileExists : String → Bool) (config : Config F) : Except String Unit := do
  bailIf (config.upstreams.isEmpty && config.routes.isEmpty)
    "configure either top-level `upstreams` or at least one `routes` entry"
  config.upstreams.zipIdx.forM fun u => validateUpstream u.2 u.1
  config.routes.zipIdx.forM fun r => validateRoute r.2 r.1
  bailIf (config.healthCheck.intervalSecs == 0) "health_check.interval_secs must be > 0"
  bailIf (config.healthCheck.timeoutSecs == 0) "health_check.timeout_secs must be > 0"
  bailIf (config.healthCheck.intervalSecs*10 % 2^64 < config.healthCheck.timeoutSecs)
    "health_check.timeout_secs looks unreasonable vs interval"
  bailIf (config.timeouts.connectSecs == 0 || config.timeouts.requestSecs == 0)
    "timeouts.connect_secs and request_secs must be > 0"
  bailIf (config.maxBodyBytes == 0) "max_body_bytes must be > 0"
  config.rateLimit.toList.forM validateRateLimit
  config.tls.toList.forM (validateTls fileExists)
  config.acl.toList.forM fun acl => (acl.allow++acl.deny).forM validateCidr
  config.proxyProtocolTrustedCidrs.forM validateCidr

end

/-- An upstream with a positive weight, at an HTTP address with a host. -/
structure UpstreamAccepted [HttpCrate] (upstream : Upstream) : Prop where
  address : upstream.address ≠ ""
  weight : 0 < upstream.weight
  url : ∃ url, HttpCrate.parseUri upstream.address.toList = .ok url ∧
    (url.scheme = some "http" ∨ url.scheme = some "https") ∧ url.authority.isSome

structure RouteAccepted [HttpCrate] (route : RouteConfig) : Prop where
  nonempty : route.upstreams ≠ []
  pathPrefix : route.pathPrefix ≠ ""
  upstreams : ∀ u ∈ route.upstreams, UpstreamAccepted u

def CidrAccepted (s : String) : Prop :=
  match splitOnce '/' s.toList with
  | some (ip,pfx) => (∃ addr, parseIpAddr ip = some addr) ∧ ∃ p, parseUint 255 pfx = .ok p ∧ p ≤ 128
  | none => ∃ addr, parseIpAddr s.toList = some addr

structure Accepted {F : Type} [F64 F] [LE F] [HttpCrate] (fileExists : String → Bool) (config : Config F) :
    Prop where
  pools : config.upstreams ≠ [] ∨ config.routes ≠ []
  upstreams : ∀ u ∈ config.upstreams, UpstreamAccepted u
  routes : ∀ r ∈ config.routes, RouteAccepted r
  interval : 0 < config.healthCheck.intervalSecs
  timeout : 0 < config.healthCheck.timeoutSecs
  timeout_le : config.healthCheck.timeoutSecs ≤ config.healthCheck.intervalSecs*10 % 2^64
  connect : 0 < config.timeouts.connectSecs
  request : 0 < config.timeouts.requestSecs
  body : 0 < config.maxBodyBytes
  rateLimit : ∀ rl, config.rateLimit = some rl → 0 < rl.rps ∧ ¬ rl.burst ≤ F64.zero
  tls : ∀ tls, config.tls = some tls → fileExists tls.cert = true ∧ fileExists tls.key = true
  acl : ∀ acl, config.acl = some acl → ∀ cidr ∈ acl.allow++acl.deny, CidrAccepted cidr
  trusted : ∀ cidr ∈ config.proxyProtocolTrustedCidrs, CidrAccepted cidr

theorem isEmpty_toList {s : String} : s.toList.isEmpty = false ↔ s ≠ "" := by
  rw [← Bool.not_eq_true,List.isEmpty_iff,String.toList_eq_nil_iff]

theorem validateUpstream_eq_ok [HttpCrate] {i : ℕ} {upstream : Upstream} :
    validateUpstream i upstream = .ok () ↔ UpstreamAccepted upstream := by
  have hscheme : ∀ scheme : Option String, (scheme != some "http" && scheme != some "https") = false ↔
      scheme = some "http" ∨ scheme = some "https" := by
    intro scheme
    simp only [Bool.and_eq_false_iff,bne_eq_false_iff_eq]
  have hweight : (upstream.weight == 0) = false ↔ 0 < upstream.weight := by
    rw [beq_eq_false_iff_ne,Nat.pos_iff_ne_zero]
  unfold validateUpstream
  rw [seq_eq_ok,seq_eq_ok,bind_eq_ok]
  simp only [seq_eq_ok,mapError_eq_ok,bailIf_eq_ok,isEmpty_toList,hscheme,hweight,Option.isNone_eq_false_iff]
  constructor
  · rintro ⟨haddress,hpos,hurl⟩
    exact ⟨haddress,hpos,hurl⟩
  · rintro ⟨haddress,hpos,hurl⟩
    exact ⟨haddress,hpos,hurl⟩

theorem forM_zipIdx_eq_ok {α : Type} {f : α × ℕ → Except String PUnit} {P : α → Prop}
    (hf : ∀ a i, f (a,i) = .ok () ↔ P a) {l : List α} : l.zipIdx.forM f = .ok () ↔ ∀ a ∈ l, P a := by
  rw [forM_eq_ok]
  constructor
  · intro h a ha
    obtain ⟨i,hi⟩ := List.getElem?_of_mem ha
    exact (hf a i).mp (h (a,i) (List.mem_zipIdx_iff_getElem?.mpr hi))
  · rintro h ⟨a,i⟩ ha
    exact (hf a i).mpr (h a (List.mem_of_getElem? (List.mem_zipIdx_iff_getElem?.mp ha)))

theorem validateRoute_eq_ok [HttpCrate] {ri : ℕ} {route : RouteConfig} :
    validateRoute ri route = .ok () ↔ RouteAccepted route := by
  have hupstreams : (route.upstreams.zipIdx.forM fun u =>
      (validateUpstream u.2 u.1).mapError fun e => s!"routes[{ri}]: {e}") = .ok () ↔
      ∀ u ∈ route.upstreams, UpstreamAccepted u :=
    forM_zipIdx_eq_ok fun _ _ => mapError_eq_ok.trans validateUpstream_eq_ok
  have hnonempty : route.upstreams.isEmpty = false ↔ route.upstreams ≠ [] := List.isEmpty_eq_false_iff
  simp only [validateRoute,seq_eq_ok,bailIf_eq_ok,isEmpty_toList,hnonempty,hupstreams]
  constructor
  · rintro ⟨hne,hpath,hall⟩
    exact ⟨hne,hpath,hall⟩
  · rintro ⟨hne,hpath,hall⟩
    exact ⟨hne,hpath,hall⟩

theorem validateCidr_eq_ok {s : String} : validateCidr s = .ok () ↔ CidrAccepted s := by
  unfold validateCidr CidrAccepted
  split
  · rw [bind_eq_ok]
    simp [bind_eq_ok,mapError_eq_ok,parsed_eq_ok]
  · rw [bind_eq_ok]
    simp [pure,Except.pure,parsed_eq_ok]

theorem validate_eq_ok {F : Type} [F64 F] [LE F] [DecidableLE F] [HttpCrate] {fileExists : String → Bool}
    {config : Config F} : validate fileExists config = .ok () ↔ Accepted fileExists config := by
  have hupstreams : (config.upstreams.zipIdx.forM fun u => validateUpstream u.2 u.1) = .ok () ↔
      ∀ u ∈ config.upstreams, UpstreamAccepted u := forM_zipIdx_eq_ok fun _ _ => validateUpstream_eq_ok
  have hroutes : (config.routes.zipIdx.forM fun r => validateRoute r.2 r.1) = .ok () ↔
      ∀ r ∈ config.routes, RouteAccepted r := forM_zipIdx_eq_ok fun _ _ => validateRoute_eq_ok
  have hpos : ∀ n : ℕ, (n == 0) = false ↔ 0 < n := by
    intro n
    rw [beq_eq_false_iff_ne,Nat.pos_iff_ne_zero]
  simp only [validate,seq_eq_ok,bailIf_eq_ok,hupstreams,hroutes,
    forM_eq_ok,Option.mem_toList,validateCidr_eq_ok,validateRateLimit,validateTls,Bool.and_eq_false_iff,
    Bool.or_eq_false_iff,List.isEmpty_eq_false_iff,hpos,decide_eq_false_iff_not,Nat.not_lt,Bool.not_eq_false']
  constructor
  · rintro ⟨hpools,hups,hrs,hinterval,htimeout,hle,⟨hconnect,hrequest⟩,hbody,hrate,htls,hacl,htrusted⟩
    exact ⟨hpools,hups,hrs,hinterval,htimeout,hle,hconnect,hrequest,hbody,hrate,htls,hacl,htrusted⟩
  · intro h
    exact ⟨h.pools,h.upstreams,h.routes,h.interval,h.timeout,h.timeout_le,⟨h.connect,h.request⟩,h.body,
      h.rateLimit,h.tls,h.acl,h.trusted⟩

end Validator
end OxiGate
