import Mathlib.Data.List.MinMax
import Mathlib.Tactic

/-! Upstream selection. A balancer's atomics are fields of the value: a selection
returns the chosen upstream with its place in the pool, and the balancer with its
counter advanced. -/
namespace OxiGate
namespace Lb

inductive LoadBalancingAlgorithm
  | roundRobin | weightedRoundRobin | leastConnections | powerOfTwoChoices
  deriving DecidableEq, Repr

structure Upstream where
  address : String
  weight : ℕ
  deriving DecidableEq, Repr

structure UpstreamRuntime where
  address : String
  weight : ℕ
  healthy : Bool
  activeConnections : ℕ
  deriving DecidableEq, Repr

namespace UpstreamRuntime

def new (upstream : Upstream) : UpstreamRuntime := ⟨upstream.address,upstream.weight,true,0⟩

def setHealthy (u : UpstreamRuntime) (healthy : Bool) : UpstreamRuntime :=
  { u with healthy := healthy }

/-- `fetch_add`, short of 2^64 attempts at a time. -/
def incConnections (u : UpstreamRuntime) : UpstreamRuntime :=
  { u with activeConnections := u.activeConnections+1 }

/-- `fetch_sub` wraps around below zero. -/
def decConnections (u : UpstreamRuntime) : UpstreamRuntime :=
  { u with activeConnections :=
      if u.activeConnections = 0 then 2^64-1 else u.activeConnections-1 }

end UpstreamRuntime

structure LoadBalancer where
  upstreams : List UpstreamRuntime
  algorithm : LoadBalancingAlgorithm
  rrCounter : ℕ
  deriving DecidableEq, Repr

abbrev Placed := UpstreamRuntime × ℕ

namespace LoadBalancer

def fromUpstreams (upstreams : List Upstream) (algorithm : LoadBalancingAlgorithm) : LoadBalancer :=
  ⟨upstreams.map UpstreamRuntime.new,algorithm,0⟩

def advance (lb : LoadBalancer) (n : ℕ) : LoadBalancer :=
  { lb with rrCounter := (lb.rrCounter+n) % 2^64 }

/-- The healthy upstreams whose address is not excluded, in pool order. -/
def eligible (lb : LoadBalancer) (exclude : List String) : List Placed :=
  lb.upstreams.zipIdx.filter fun u => u.1.healthy && !exclude.any (· = u.1.address)

/-- `least_conn::select`: the first upstream with the fewest active connections. -/
def leastConnSelect (healthy : List Placed) : Option Placed :=
  healthy.argmin fun u => u.1.activeConnections

def expanded (healthy : List Placed) : List Placed :=
  healthy.flatMap fun u => List.replicate (max u.1.weight 1) u

def fewerConnections (a b : Placed) : Placed :=
  if a.1.activeConnections ≤ b.1.activeConnections then a else b

/-- Select the next healthy upstream, skipping the excluded addresses. -/
def selectExcluding (lb : LoadBalancer) (exclude : List String) : Option Placed × LoadBalancer :=
  let healthy := lb.eligible exclude
  if healthy.isEmpty then (none,lb)
  else
    match lb.algorithm with
    | .roundRobin => (healthy[lb.rrCounter % healthy.length]?,lb.advance 1)
    | .weightedRoundRobin =>
      if (expanded healthy).isEmpty then (none,lb)
      else ((expanded healthy)[lb.rrCounter % (expanded healthy).length]?,lb.advance 1)
    | .leastConnections => (leastConnSelect healthy,lb)
    | .powerOfTwoChoices =>
      if healthy.length = 1 then (healthy[0]?,lb)
      else
        let a := healthy[lb.rrCounter % healthy.length]?
        let b := healthy[(lb.rrCounter+1) % 2^64 % healthy.length]?
        (Option.map₂ fewerConnections a b,lb.advance 2)

def select (lb : LoadBalancer) : Option Placed × LoadBalancer := lb.selectExcluding []

/-- Prefer the sticky upstream if the cookie names a healthy one. -/
def selectSticky (lb : LoadBalancer) (stickyValue : Option String) : Option Placed × LoadBalancer :=
  match stickyValue.bind fun val =>
      lb.upstreams.zipIdx.find? fun u => u.1.healthy && u.1.address = val with
  | some u => (some u,lb)
  | none => lb.selectExcluding []

/-- The same addresses, weights and algorithm; only atomics may differ. -/
def SamePool (lb lb' : LoadBalancer) : Prop :=
  lb.upstreams.map (fun u => (u.address,u.weight)) =
    lb'.upstreams.map (fun u => (u.address,u.weight)) ∧ lb.algorithm = lb'.algorithm

theorem mem_eligible {lb : LoadBalancer} {exclude : List String} {u : Placed} :
    u ∈ lb.eligible exclude ↔
      lb.upstreams[u.2]? = some u.1 ∧ u.1.healthy = true ∧ u.1.address ∉ exclude := by
  rcases u with ⟨u,i⟩
  simp only [eligible,List.mem_filter,List.mem_zipIdx_iff_getElem?,Bool.and_eq_true,
    Bool.not_eq_true',List.any_eq_false,decide_eq_true_eq]
  apply and_congr_right
  intro _
  apply and_congr_right
  intro _
  constructor
  · intro h hmem
    exact h _ hmem rfl
  · intro h e he heq
    exact h (heq ▸ he)

theorem mem_expanded {healthy : List Placed} {u : Placed} : u ∈ expanded healthy ↔ u ∈ healthy := by
  simp only [expanded,List.mem_flatMap,List.mem_replicate]
  constructor
  · rintro ⟨v,hv,-,rfl⟩
    exact hv
  · intro hu
    exact ⟨u,hu,by omega,rfl⟩

theorem expanded_eq_nil {healthy : List Placed} : expanded healthy = [] ↔ healthy = [] := by
  simp only [List.eq_nil_iff_forall_not_mem,mem_expanded]

theorem getElem?_mod (l : List Placed) (n : ℕ) (hl : l ≠ []) : ∃ u ∈ l, l[n % l.length]? = some u := by
  have hlt : n % l.length < l.length := Nat.mod_lt _ (List.length_pos_of_ne_nil hl)
  exact ⟨l[n % l.length],List.getElem_mem hlt,List.getElem?_eq_getElem hlt⟩

theorem fewerConnections_mem {l : List Placed} {a b : Placed} (ha : a ∈ l) (hb : b ∈ l) :
    fewerConnections a b ∈ l := by
  unfold fewerConnections
  split
  · exact ha
  · exact hb

theorem selectExcluding_of_ne_nil {lb : LoadBalancer} {exclude : List String}
    (h : lb.eligible exclude ≠ []) : ∃ u ∈ lb.eligible exclude, (lb.selectExcluding exclude).1 = some u := by
  generalize hl : lb.eligible exclude = healthy at h
  have hempty : healthy.isEmpty = false := by simpa using h
  simp only [selectExcluding,hl,hempty,Bool.false_eq_true,if_false]
  cases lb.algorithm with
  | roundRobin => exact getElem?_mod healthy _ h
  | weightedRoundRobin =>
    have hne : expanded healthy ≠ [] := fun he => h (expanded_eq_nil.mp he)
    have hempty' : (expanded healthy).isEmpty = false := by simpa using hne
    obtain ⟨u,hu,hget⟩ := getElem?_mod (expanded healthy) lb.rrCounter hne
    exact ⟨u,mem_expanded.mp hu,by simp only [hempty',Bool.false_eq_true,if_false]; exact hget⟩
  | leastConnections =>
    cases hmin : leastConnSelect healthy with
    | none => exact absurd (List.argmin_eq_none.mp hmin) h
    | some u => exact ⟨u,List.argmin_mem hmin,rfl⟩
  | powerOfTwoChoices =>
    obtain ⟨a,ha,hgeta⟩ := getElem?_mod healthy lb.rrCounter h
    obtain ⟨b,hb,hgetb⟩ := getElem?_mod healthy ((lb.rrCounter+1) % 2^64) h
    dsimp only
    split
    · obtain ⟨c,hc,hgetc⟩ := getElem?_mod healthy 0 h
      exact ⟨c,hc,by simpa using hgetc⟩
    · exact ⟨_,fewerConnections_mem ha hb,by rw [hgeta,hgetb]; rfl⟩

/-- Selection is sound: what is selected is healthy and was not excluded. -/
theorem selectExcluding_sound {lb : LoadBalancer} {exclude : List String} {u : Placed}
    (h : (lb.selectExcluding exclude).1 = some u) :
    lb.upstreams[u.2]? = some u.1 ∧ u.1.healthy = true ∧ u.1.address ∉ exclude := by
  by_cases hne : lb.eligible exclude = []
  · simp [selectExcluding,hne] at h
  · obtain ⟨v,hv,hsel⟩ := selectExcluding_of_ne_nil hne
    rw [h] at hsel
    cases hsel
    exact mem_eligible.mp hv

/-- Selection is complete: nothing is selected only when nothing is eligible. -/
theorem selectExcluding_eq_none {lb : LoadBalancer} {exclude : List String} :
    (lb.selectExcluding exclude).1 = none ↔
      ∀ u ∈ lb.upstreams, u.healthy = true → u.address ∈ exclude := by
  constructor
  · intro h u hu hhealthy
    by_contra hex
    obtain ⟨i,hi⟩ := List.getElem?_of_mem hu
    have hmem : (u,i) ∈ lb.eligible exclude := mem_eligible.mpr ⟨hi,hhealthy,hex⟩
    obtain ⟨v,-,hv⟩ := selectExcluding_of_ne_nil (List.ne_nil_of_mem hmem)
    rw [h] at hv
    cases hv
  · intro h
    have hnil : lb.eligible exclude = [] := by
      rw [List.eq_nil_iff_forall_not_mem]
      intro u hu
      obtain ⟨hget,hhealthy,hex⟩ := mem_eligible.mp hu
      exact hex (h u.1 (List.mem_of_getElem? hget) hhealthy)
    simp [selectExcluding,hnil]

theorem selectSticky_sound {lb : LoadBalancer} {sticky : Option String} {u : Placed}
    (h : (lb.selectSticky sticky).1 = some u) :
    lb.upstreams[u.2]? = some u.1 ∧ u.1.healthy = true := by
  simp only [selectSticky] at h
  split at h
  · rename_i v hv
    cases h
    obtain ⟨val,-,hfind⟩ := Option.bind_eq_some_iff.mp hv
    have hprop := List.find?_some hfind
    have hmem := List.mem_of_find?_eq_some hfind
    simp only [Bool.and_eq_true,decide_eq_true_eq] at hprop
    exact ⟨List.mem_zipIdx_iff_getElem?.mp hmem,hprop.1⟩
  · have hsound := selectExcluding_sound h
    exact ⟨hsound.1,hsound.2.1⟩

theorem selectSticky_eq_none {lb : LoadBalancer} {sticky : Option String}
    (h : (lb.selectSticky sticky).1 = none) : ∀ u ∈ lb.upstreams, u.healthy = false := by
  simp only [selectSticky] at h
  split at h
  · cases h
  · intro u hu
    cases hhealthy : u.healthy with
    | false => rfl
    | true => exact absurd (selectExcluding_eq_none.mp h u hu hhealthy) (by simp)

end LoadBalancer

end Lb
end OxiGate
