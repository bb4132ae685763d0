import OxiGate.Router
import OxiGate.Validator

/-! Which route a path is sent to. The table is sorted by falling length of the prefixes and
searched from the front; the sort keeps the order of prefixes of one length. -/
namespace OxiGate
namespace Routing

open RustText Lb RateLimit Http

section Sorted

variable {α : Type} {r : α → α → Prop} [DecidableRel r] [Std.Total r] [IsTrans α r]

omit [DecidableRel r] [Std.Total r] [IsTrans α r] in
theorem pair_sublist_of_mem {l : List α} {x y : α} (hx : x ∈ l) (hy : y ∈ l) (hne : y ≠ x) :
    [x,y].Sublist l ∨ [y,x].Sublist l := by
  obtain ⟨before,after,rfl⟩ := List.append_of_mem hx
  rcases List.mem_append.mp hy with hbefore | hafter
  · right
    exact (List.singleton_sublist.mpr hbefore).append (List.singleton_sublist.mpr (by simp))
  · left
    have hmem : y ∈ after := (List.mem_cons.mp hafter).resolve_left hne
    exact ((List.singleton_sublist.mpr hmem).cons_cons x).trans (List.sublist_append_right _ _)

/-- The first match in a sorted table comes before every other match: it is at least as good, and
of those as good as itself it is the first of the unsorted table. -/
theorem find?_insertionSort {l : List α} (hnodup : l.Nodup) {q : α → Bool} {x : α}
    (hx : (l.insertionSort r).find? q = some x) :
    x ∈ l ∧ q x = true ∧ ∀ y ∈ l, q y = true → y ≠ x → r x y ∧ (r y x → [x,y].Sublist l) := by
  obtain ⟨hq,before,after,hsplit,hbefore⟩ := List.find?_eq_some_iff_append.mp hx
  have hmem : x ∈ l := (List.mem_insertionSort r).mp (List.mem_of_find?_eq_some hx)
  refine ⟨hmem,hq,?_⟩
  intro y hy hqy hne
  have hskipped : y ∉ before := by
    intro hyb
    have hnot := hbefore y hyb
    simp [hqy] at hnot
  have hafter : y ∈ after := by
    have hsorted : y ∈ l.insertionSort r := (List.mem_insertionSort r).mpr hy
    rw [hsplit] at hsorted
    exact (List.mem_cons.mp ((List.mem_append.mp hsorted).resolve_left hskipped)).resolve_left hne
  have hpairwise := List.pairwise_insertionSort r l
  have hunique : (l.insertionSort r).Nodup := (List.perm_insertionSort r l).nodup_iff.mpr hnodup
  rw [hsplit] at hpairwise hunique
  constructor
  · exact List.rel_of_pairwise_cons (List.pairwise_append.mp hpairwise).2.1 hafter
  · intro hyx
    refine (pair_sublist_of_mem hmem hy hne).resolve_right fun hsub => ?_
    have hsorted := List.pair_sublist_insertionSort hyx hsub
    rw [hsplit] at hsorted
    obtain ⟨l₁,l₂,heq,hl₁,hl₂⟩ := List.sublist_append_iff.mp hsorted
    cases l₁ with
    | nil =>
      rw [List.nil_append] at heq
      subst heq
      cases hl₂ with
      | cons _ h =>
        have hagain : x ∈ after := h.subset (by simp)
        exact (List.nodup_cons.mp (List.nodup_append.mp hunique).2.1).1 hagain
      | cons_cons _ _ => exact hne rfl
    | cons a l₁ =>
      have hhead : y = a := (List.cons.inj heq).1
      subst hhead
      exact hskipped (hl₁.subset (by simp))

end Sorted

section Matching

theorem pathMatches_iff {path p : String} : pathMatches path p = true ↔
    p = "/" ∨ p = path ∨ trimEndMatches '/' p.toList++['/'] <+: path.toList := by
  unfold pathMatches
  by_cases hroot : p = "/"
  · simp [hroot]
  · simp only [hroot,if_false,false_or,Bool.or_eq_true,decide_eq_true_eq,List.isPrefixOf_iff_prefix]
    exact or_congr_left eq_comm

theorem pathMatches_segments {path p : String} (hp : p.toList.getLast? ≠ some '/') :
    pathMatches path p = true ↔ p.toList.splitOn '/' <+: path.toList.splitOn '/' := by
  have hroot : p ≠ "/" := by
    rintro rfl
    exact hp rfl
  rw [pathMatches_iff,splitOn_isPrefix_iff,trimEndMatches_of_ne hp,String.toList_inj]
  simp only [hroot,false_or,eq_comm]

end Matching

section Resolve

variable {F : Type}

/-- The route of a path: none that matches has a longer prefix, and none before it one as long. -/
def BestRoute (config : Config F) (path : String) (i : ℕ) : Prop :=
  ∃ r, config.routes[i]? = some r ∧ pathMatches path r.pathPrefix = true ∧
    (Router.balancers config)[i]? =
      some (LoadBalancer.fromUpstreams r.upstreams (r.loadBalancing.getD config.loadBalancing)) ∧
    ∀ k r', config.routes[k]? = some r' → pathMatches path r'.pathPrefix = true →
      byteLen r'.pathPrefix.toList ≤ byteLen r.pathPrefix.toList ∧
        (byteLen r'.pathPrefix.toList = byteLen r.pathPrefix.toList → i ≤ k)

theorem normalizePrefix_of_ne {p : String} (hp : p ≠ "") : normalizePrefix p = p := by
  have hlist : p.toList.isEmpty = false := Validator.isEmpty_toList.mpr hp
  simp [normalizePrefix,hlist]

theorem mem_numbered {routes : List RouteConfig} {route : Route} :
    route ∈ routes.zipIdx.map (fun r => Route.mk (normalizePrefix r.1.pathPrefix) r.2) ↔
      ∃ r, routes[route.lb]? = some r ∧ route.pathPrefix = normalizePrefix r.pathPrefix := by
  constructor
  · intro h
    obtain ⟨⟨r,i⟩,hr,rfl⟩ := List.mem_map.mp h
    exact ⟨r,List.mem_zipIdx_iff_getElem?.mp hr,rfl⟩
  · rintro ⟨r,hr,hpath⟩
    refine List.mem_map.mpr ⟨(r,route.lb),List.mem_zipIdx_iff_getElem?.mpr hr,?_⟩
    rw [← hpath]

theorem bestRoute_of_find? {config : Config F} (hnonempty : ∀ r ∈ config.routes, r.pathPrefix ≠ "")
    {path : String} {route : Route}
    (hfind : (Router.fromConfig config).routes.find? (fun t => pathMatches path t.pathPrefix) = some route) :
    BestRoute config path route.lb := by
  have htotal : Std.Total fun a b : Route => byteLen b.pathPrefix.toList ≤ byteLen a.pathPrefix.toList :=
    ⟨fun a b => Nat.le_total _ _⟩
  have htrans : IsTrans Route fun a b : Route => byteLen b.pathPrefix.toList ≤ byteLen a.pathPrefix.toList :=
    ⟨fun a b c hab hbc => hbc.trans hab⟩
  have hplain : ∀ (i : ℕ) (r : RouteConfig), config.routes[i]? = some r → normalizePrefix r.pathPrefix = r.pathPrefix :=
    fun i r hr => normalizePrefix_of_ne (hnonempty r (List.mem_of_getElem? hr))
  have hincreasing : (config.routes.zipIdx.map fun r => Route.mk (normalizePrefix r.1.pathPrefix) r.2).Pairwise
      fun a b : Route => a.lb < b.lb := by
    rw [← List.pairwise_map (f := Route.lb) (R := fun m n => m < n),Router.lb_numbered]
    exact List.pairwise_lt_range
  have hnodup : (config.routes.zipIdx.map fun r => Route.mk (normalizePrefix r.1.pathPrefix) r.2).Nodup := by
    refine hincreasing.imp ?_
    rintro a b hlt rfl
    exact Nat.lt_irrefl _ hlt
  obtain ⟨hmem,hmatch,hbest⟩ := find?_insertionSort hnodup hfind
  obtain ⟨r,hr,hpath⟩ := mem_numbered.mp hmem
  rw [hplain _ r hr] at hpath
  rw [hpath] at hmatch
  refine ⟨r,hr,hmatch,?_,?_⟩
  · have hlt := (List.getElem?_eq_some_iff.mp hr).1
    unfold Router.balancers
    rw [List.getElem?_append_left (by simpa using hlt),List.getElem?_map,hr]
    rfl
  · intro k r' hr' hmatch'
    by_cases hk : k = route.lb
    · subst hk
      rw [hr] at hr'
      cases hr'
      exact ⟨Nat.le_refl _,fun _ => Nat.le_refl _⟩
    · have hother : Route.mk r'.pathPrefix k ∈
          config.routes.zipIdx.map (fun r => Route.mk (normalizePrefix r.1.pathPrefix) r.2) :=
        mem_numbered.mpr ⟨r',hr',(hplain k r' hr').symm⟩
      obtain ⟨hle,hfirst⟩ := hbest _ hother hmatch' fun heq => hk (congrArg Route.lb heq)
      rw [hpath] at hle hfirst
      refine ⟨hle,fun heq => ?_⟩
      exact Nat.le_of_lt (List.pairwise_iff_forall_sublist.mp hincreasing (hfirst (Nat.le_of_eq heq.symm)))

theorem exists_bestRoute {config : Config F} (hnonempty : ∀ r ∈ config.routes, r.pathPrefix ≠ "") {path : String}
    (h : ∃ r ∈ config.routes, pathMatches path r.pathPrefix = true) :
    ∃ i, (Router.fromConfig config).resolve path = some i ∧ BestRoute config path i := by
  obtain ⟨r,hr,hmatch⟩ := h
  obtain ⟨i,hi⟩ := List.getElem?_of_mem hr
  have hroute : Route.mk r.pathPrefix i ∈ (Router.fromConfig config).routes :=
    (List.mem_insertionSort _).mpr (mem_numbered.mpr ⟨r,hi,(normalizePrefix_of_ne (hnonempty r hr)).symm⟩)
  cases hfind : (Router.fromConfig config).routes.find? (fun t => pathMatches path t.pathPrefix) with
  | none => exact absurd hmatch (List.find?_eq_none.mp hfind _ hroute)
  | some best => exact ⟨best.lb,by simp [Router.resolve,hfind],bestRoute_of_find? hnonempty hfind⟩

variable [F64 F] [LE F] [DecidableLE F] [HttpCrate]

/-- Longest-prefix routing. -/
theorem resolve_longest {fileExists : String → Bool} {config : Config F}
    (hvalid : Validator.validate fileExists config = .ok ()) (path : String) :
    ((∃ r ∈ config.routes, pathMatches path r.pathPrefix = true) →
      ∃ i, (Router.fromConfig config).resolve path = some i ∧ BestRoute config path i) ∧
    ((∀ r ∈ config.routes, pathMatches path r.pathPrefix = false) →
      if config.upstreams = [] then (Router.fromConfig config).resolve path = none
      else ∃ i, (Router.fromConfig config).resolve path = some i ∧
        (Router.balancers config)[i]? =
          some (LoadBalancer.fromUpstreams config.upstreams config.loadBalancing)) ∧
    (∀ p, pathMatches path p = true ↔
      p = "/" ∨ p = path ∨ trimEndMatches '/' p.toList++['/'] <+: path.toList) ∧
    ∀ p : String, p.toList.getLast? ≠ some '/' →
      (pathMatches path p = true ↔ p.toList.splitOn '/' <+: path.toList.splitOn '/') := by
  have hnonempty : ∀ r ∈ config.routes, r.pathPrefix ≠ "" :=
    fun r hr => ((Validator.validate_eq_ok.mp hvalid).routes r hr).pathPrefix
  refine ⟨exists_bestRoute hnonempty,?_,fun p => pathMatches_iff,fun p => pathMatches_segments⟩
  intro hnone
  have hfind : (Router.fromConfig config).routes.find? (fun t => pathMatches path t.pathPrefix) = none := by
    refine List.find?_eq_none.mpr fun route hroute => ?_
    obtain ⟨r,hr,hpath⟩ := mem_numbered.mp ((List.mem_insertionSort _).mp hroute)
    have hmem := List.mem_of_getElem? hr
    rw [hpath,normalizePrefix_of_ne (hnonempty r hmem),hnone r hmem]
    exact Bool.false_ne_true
  have hdefault : (Router.fromConfig config).resolve path =
      if config.upstreams.isEmpty then none else some config.routes.length := by
    rw [Router.resolve,hfind]
    rfl
  rw [hdefault]
  by_cases hempty : config.upstreams = []
  · simp [hempty]
  · simp [hempty,Router.balancers]

end Resolve

def nestedRoutes : Config ℚ :=
  .ofPools [] [⟨"/",[⟨"http://a",1⟩],none⟩,⟨"/api",[⟨"http://b",1⟩],none⟩,⟨"/api/",[⟨"http://c",1⟩],none⟩]

theorem resolve_longest_nested :
    @Validator.validate ℚ _ _ _ visibleAscii (fun _ => false) nestedRoutes = .ok () ∧
      ∃ i, (Router.fromConfig nestedRoutes).resolve "/api/v1" = some i ∧ BestRoute nestedRoutes "/api/v1" i := by
  have hvalid : @Validator.validate ℚ _ _ _ visibleAscii (fun _ => false) nestedRoutes = .ok () := by
    decide +kernel
  refine ⟨hvalid,(@resolve_longest ℚ _ _ _ visibleAscii _ _ hvalid "/api/v1").1 ?_⟩
  exact ⟨⟨"/api",[⟨"http://b",1⟩],none⟩,by simp [nestedRoutes,Config.ofPools],by decide⟩

example : (Router.fromConfig nestedRoutes).resolve "/apiary" = some 0 := by decide +kernel

end Routing
end OxiGate
