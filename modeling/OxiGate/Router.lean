import OxiGate.Config
import OxiGate.RustText

/-! The route table. Balancers are shared objects: a route holds the number of its
balancer, which are numbered in the order they are allocated in. -/
namespace OxiGate

open RustText Lb

structure Route where
  pathPrefix : String
  lb : ℕ
  deriving DecidableEq, Repr

structure Router where
  routes : List Route
  default : Option ℕ
  deriving DecidableEq, Repr

def normalizePrefix (p : String) : String := if p.toList.isEmpty then "/" else p

def pathMatches (path pathPrefix : String) : Bool :=
  if pathPrefix = "/" then true
  else
    path = pathPrefix ||
      (trimEndMatches '/' pathPrefix.toList++['/']).isPrefixOf path.toList

def Router.balancers {F : Type} (config : Config F) : List LoadBalancer :=
  config.routes.map (fun r =>
      LoadBalancer.fromUpstreams r.upstreams (r.loadBalancing.getD config.loadBalancing))++
    if config.upstreams.isEmpty then []
    else [LoadBalancer.fromUpstreams config.upstreams config.loadBalancing]

namespace Router

/-- Longer prefixes come first; the sort is stable. -/
def fromConfig {F : Type} (config : Config F) : Router :=
  let routes := config.routes.zipIdx.map fun r => Route.mk (normalizePrefix r.1.pathPrefix) r.2
  { routes := routes.insertionSort fun a b =>
      byteLen b.pathPrefix.toList ≤ byteLen a.pathPrefix.toList
    default := if config.upstreams.isEmpty then none else some config.routes.length }

/-- The load balancer for a request path. -/
def resolve (router : Router) (path : String) : Option ℕ :=
  match router.routes.find? fun route => pathMatches path route.pathPrefix with
  | some route => some route.lb
  | none => router.default

def allLbs (router : Router) : List ℕ := router.routes.map Route.lb++router.default.toList

/-- The same routes over balancers that are numbered from `base` on. -/
def shift (base : ℕ) (router : Router) : Router where
  routes := router.routes.map fun route => { route with lb := base+route.lb }
  default := router.default.map (base+·)

theorem allLbs_shift (base : ℕ) (router : Router) :
    (router.shift base).allLbs = router.allLbs.map (base+·) := by
  cases hd : router.default <;> simp [allLbs,shift,hd,Function.comp_def]

theorem lb_numbered (routes : List RouteConfig) :
    (routes.zipIdx.map fun r => Route.mk (normalizePrefix r.1.pathPrefix) r.2).map Route.lb =
      List.range routes.length := by
  rw [List.map_map,List.range_eq_range']
  exact List.zipIdx_map_snd 0 routes

/-- Every balancer built is in use once. -/
theorem allLbs_fromConfig {F : Type} (config : Config F) :
    (fromConfig config).allLbs.Perm (List.range (balancers config).length) := by
  have hroutes : (fromConfig config).routes.Perm
      (config.routes.zipIdx.map fun r => Route.mk (normalizePrefix r.1.pathPrefix) r.2) :=
    List.perm_insertionSort _ _
  have hnumbers := hroutes.map Route.lb
  rw [lb_numbered] at hnumbers
  by_cases hempty : config.upstreams.isEmpty = true
  · have hlength : (balancers config).length = config.routes.length := by simp [balancers,hempty]
    rw [hlength]
    simpa [allLbs,fromConfig,hempty] using hnumbers
  · have hlength : (balancers config).length = config.routes.length+1 := by simp [balancers,hempty]
    rw [hlength,List.range_succ]
    have hdefault : (fromConfig config).default = some config.routes.length := by simp [fromConfig,hempty]
    unfold allLbs
    rw [hdefault]
    exact hnumbers.append_right _

end Router

end OxiGate
