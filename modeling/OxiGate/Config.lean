import OxiGate.LoadBalancer
import OxiGate.RateLimit

/-! The configuration, as far as the modelled parts of the proxy read it. -/
namespace OxiGate

open Lb Net

structure StickyConfig where
  cookieName : String
  maxAgeSecs : ℕ
  deriving DecidableEq, Repr

/-- Headers to set; a map in the iteration order of the moment. -/
structure HeaderConfig where
  requestSet : List (String × String)
  responseSet : List (String × String)
  deriving DecidableEq, Repr

structure AclConfig where
  allow : List String
  deny : List String
  deriving DecidableEq, Repr

structure RouteConfig where
  pathPrefix : String
  upstreams : List Upstream
  loadBalancing : Option LoadBalancingAlgorithm
  deriving DecidableEq, Repr

structure RateLimitConfigYaml (F : Type) where
  rps : ℕ
  burst : F

structure TimeoutConfig where
  connectSecs : ℕ
  requestSecs : ℕ
  idleSecs : ℕ
  deriving DecidableEq, Repr

structure HealthCheckConfig where
  intervalSecs : ℕ
  timeoutSecs : ℕ
  path : String
  unhealthyThreshold : UInt32
  healthyThreshold : UInt32
  deriving DecidableEq, Repr

def HealthCheckConfig.default : HealthCheckConfig := ⟨5,2,"/",3,2⟩

structure TlsConfig where
  cert : String
  key : String
  deriving DecidableEq, Repr

structure Config (F : Type) where
  maxConcurrency : Option ℕ
  upstreams : List Upstream
  routes : List RouteConfig
  loadBalancing : LoadBalancingAlgorithm
  healthCheck : HealthCheckConfig
  timeouts : TimeoutConfig
  tls : Option TlsConfig
  retries : ℕ
  maxConnections : ℕ
  sticky : Option StickyConfig
  headers : HeaderConfig
  accessLog : Bool
  rateLimit : Option (RateLimitConfigYaml F)
  proxyProtocol : Bool
  maxBodyBytes : ℕ
  retryIdempotentOnly : Bool
  forceRetryWithBody : Bool
  acl : Option AclConfig
  securityHeaders : Bool
  adminToken : Option String
  proxyProtocolTrustedCidrs : List String

/-- A configuration that leaves all but its pools to the defaults. -/
def Config.ofPools {F : Type} (upstreams : List Upstream) (routes : List RouteConfig) : Config F where
  maxConcurrency := none
  upstreams := upstreams
  routes := routes
  loadBalancing := .roundRobin
  healthCheck := .default
  timeouts := ⟨5,30,60⟩
  tls := none
  retries := 1
  maxConnections := 0
  sticky := none
  headers := ⟨[],[]⟩
  accessLog := true
  rateLimit := none
  proxyProtocol := false
  maxBodyBytes := 16*1024*1024
  retryIdempotentOnly := true
  forceRetryWithBody := false
  acl := none
  securityHeaders := true
  adminToken := none
  proxyProtocolTrustedCidrs := []

end OxiGate
