import Mathlib.Data.List.AList
import OxiGate.Handler

/-! The metrics of the proxy. A child of a vector is made when its label values are first used.
Observed durations are kept in nanoseconds. -/
namespace OxiGate
namespace Metrics

open Proxy

/-- The children of a vector, by their label values. -/
abbrev Children (K V : Type) := AList fun _ : K => V

namespace Children

variable {K V : Type} [DecidableEq K] {fresh : V}

/-- What a child shows; one that has not been made is like a fresh one. -/
def value (fresh : V) (c : Children K V) (labels : K) : V := (c.lookup labels).getD fresh

/-- `with_label_values`, and a change of the child. -/
def update (fresh : V) (c : Children K V) (labels : K) (f : V → V) : Children K V :=
  c.insert labels (f (value fresh c labels))

theorem value_update (c : Children K V) (labels other : K) (f : V → V) :
    value fresh (update fresh c labels f) other =
      if other = labels then f (value fresh c labels) else value fresh c other := by
  by_cases h : other = labels
  · subst h
    simp [value,update]
  · simp [value,update,AList.lookup_insert_ne h,h]

theorem mem_update (c : Children K V) (labels other : K) (f : V → V) :
    other ∈ update fresh c labels f ↔ other = labels ∨ other ∈ c := by
  simp [update]

theorem lookup_update {c : Children K V} {k : K} {f : V → V} {P : K → V → Prop}
    (hc : ∀ k v, c.lookup k = some v → P k v) (hnew : P k (f (c.value fresh k))) :
    ∀ k' v, (c.update fresh k f).lookup k' = some v → P k' v := by
  intro k' v hv
  rw [update] at hv
  by_cases hk : k' = k
  · subst hk
    rw [AList.lookup_insert] at hv
    cases hv
    exact hnew
  · rw [AList.lookup_insert_ne hk] at hv
    exact hc k' v hv

theorem value_of_children {c : Children K V} {P : V → Prop} (hc : ∀ k v, c.lookup k = some v → P v) (hfresh : P fresh)
    (k : K) : P (c.value fresh k) := by
  rw [value]
  cases h : c.lookup k with
  | none => exact hfresh
  | some v => exact hc k v h

section Folds

variable {ι : Type} (key : ι → K) (f : ι → V → V)

def updates (fresh : V) (c : Children K V) (xs : List ι) : Children K V :=
  xs.foldl (fun c x => update fresh c (key x) (f x)) c

theorem mem_updates (c : Children K V) (xs : List ι) (k : K) :
    k ∈ updates key f fresh c xs ↔ (∃ x ∈ xs, key x = k) ∨ k ∈ c := by
  induction xs generalizing c with
  | nil => simp [updates]
  | cons x xs ih =>
    have hrest := ih (update fresh c (key x) (f x))
    simp only [updates,List.foldl_cons] at hrest ⊢
    have hcons : (∃ y ∈ x::xs, key y = k) ↔ k = key x ∨ ∃ y ∈ xs, key y = k := by
      simp [eq_comm]
    rw [hrest,mem_update,hcons,or_left_comm,or_assoc]

theorem value_updates (c : Children K V) (xs : List ι) (k : K) :
    value fresh (updates key f fresh c xs) k =
      (xs.filter fun x => key x = k).foldl (fun v x => f x v) (value fresh c k) := by
  induction xs generalizing c with
  | nil => simp [updates]
  | cons x xs ih =>
    have hrest := ih (update fresh c (key x) (f x))
    simp only [updates,List.foldl_cons] at hrest ⊢
    rw [hrest,value_update]
    by_cases h : key x = k
    · simp [h]
    · simp [h,Ne.symm h]

end Folds

end Children

structure Registry where
  requestsTotal : Children (String × String × String) ℕ
  requestDuration : Children String (List ℕ)
  upstreamConnections : Children String ℤ
  upstreamHealth : Children String ℤ
  rateLimitRejects : ℕ
  rateLimitAllows : ℕ
  activeConnections : ℤ
  retriesTotal : ℕ

namespace Registry

def new : Registry := ⟨∅,∅,∅,∅,0,0,0,0⟩

/-- What the request handler does to the metrics. -/
def record (r : Registry) : Metric → Registry
  | .requestsTotal method status upstream =>
    { r with requestsTotal := r.requestsTotal.update 0 (method,status,upstream) (·+1) }
  | .requestDuration upstream duration =>
    { r with requestDuration := r.requestDuration.update [] upstream (·++[duration]) }
  | .upstreamConnectionsInc upstream =>
    { r with upstreamConnections := r.upstreamConnections.update 0 upstream (·+1) }
  | .upstreamConnectionsDec upstream =>
    { r with upstreamConnections := r.upstreamConnections.update 0 upstream (·-1) }
  | .rateLimitRejects => { r with rateLimitRejects := r.rateLimitRejects+1 }
  | .rateLimitAllows => { r with rateLimitAllows := r.rateLimitAllows+1 }
  | .retriesTotal => { r with retriesTotal := r.retriesTotal+1 }

def setHealth (r : Registry) (upstream : String) (healthy : Bool) : Registry :=
  { r with upstreamHealth := r.upstreamHealth.update 0 upstream fun _ => if healthy then 1 else 0 }

/-- A connection that is shed is counted under these label values. -/
def shedLabels : String × String × String := ("ACCEPT","503","none")

def recordShed (r : Registry) : Registry := r.record (.requestsTotal "ACCEPT" "503" "none")

def connectionOpened (r : Registry) : Registry := { r with activeConnections := r.activeConnections+1 }

def connectionClosed (r : Registry) : Registry := { r with activeConnections := r.activeConnections-1 }

/-- `oxigate_upstream_connections` of an upstream. -/
def connections (r : Registry) (upstream : String) : ℤ := r.upstreamConnections.value 0 upstream

def requests (r : Registry) (labels : String × String × String) : ℕ := r.requestsTotal.value 0 labels

def total (r : Registry) (p : String × String × String → Bool) : ℕ :=
  ((r.requestsTotal.entries.filter fun e => p e.1).map Sigma.snd).sum

def counts : Metric → List (String × String × String)
  | .requestsTotal method status upstream => [(method,status,upstream)]
  | _ => []

theorem sum_kerase {K : Type} [DecidableEq K] (p : K → Bool) (l : List (Sigma fun _ : K => ℕ)) (k : K) :
    ((l.filter fun e => p e.1).map Sigma.snd).sum =
      (if p k then (l.dlookup k).getD 0 else 0)+(((l.kerase k).filter fun e => p e.1).map Sigma.snd).sum := by
  induction l with
  | nil => simp
  | cons e l ih =>
    rcases e with ⟨k',n⟩
    by_cases hk : k = k'
    · subst hk
      have hrest : (⟨k,n⟩::l : List (Sigma fun _ : K => ℕ)).kerase k = l := List.kerase_cons_eq rfl
      rw [hrest,List.dlookup_cons_eq]
      cases hp : p k <;> simp [hp]
    · rw [List.kerase_cons_ne hk,List.dlookup_cons_ne l _ hk]
      cases hp : p k' with
      | false => simpa [hp] using ih
      | true =>
        simp only [List.filter_cons,hp,if_true,List.map_cons,List.sum_cons,ih]
        omega

theorem total_record (r : Registry) (m : Metric) (p : String × String × String → Bool) :
    (r.record m).total p = r.total p+(counts m).countP p := by
  cases m with
  | requestsTotal method status upstream =>
    have hbefore := sum_kerase p r.requestsTotal.entries (method,status,upstream)
    simp only [total,record,Children.update,Children.value,AList.entries_insert,AList.lookup] at hbefore ⊢
    rw [hbefore]
    cases hp : p (method,status,upstream) with
    | false => simp [counts,hp]
    | true =>
      simp only [List.filter_cons,hp,if_true,List.map_cons,List.sum_cons,counts,List.countP_cons,List.countP_nil]
      omega
  | _ => rfl

theorem total_recordShed (r : Registry) (p : String × String × String → Bool) :
    r.recordShed.total p = r.total p+if p shedLabels then 1 else 0 := by
  rw [recordShed,total_record,counts,List.countP_cons,List.countP_nil,Nat.zero_add]
  rfl

/-- Every child of the request counter has counted a request. -/
def Counted (r : Registry) : Prop := ∀ l n, r.requestsTotal.lookup l = some n → 0 < n

theorem counted_new : new.Counted := by
  intro l n h
  cases h

theorem Counted.record {r : Registry} (h : r.Counted) (m : Metric) : (r.record m).Counted := by
  cases m with
  | requestsTotal method status upstream => exact Children.lookup_update h (Nat.succ_pos _)
  | _ => exact h

theorem Counted.total_pos {r : Registry} (h : r.Counted) {p : String × String × String → Bool} :
    0 < r.total p ↔ ∃ l ∈ r.requestsTotal, p l = true := by
  have hentry : ∀ e ∈ r.requestsTotal.entries, 0 < e.2 := by
    intro e he
    exact h e.1 e.2 (AList.mem_lookup_iff.mpr he)
  rw [total,Nat.pos_iff_ne_zero,Ne,List.sum_eq_zero_iff]
  constructor
  · intro hsum
    simp only [List.mem_map,List.mem_filter,not_forall] at hsum
    obtain ⟨n,⟨e,⟨he,hp⟩,-⟩,-⟩ := hsum
    exact ⟨e.1,AList.mem_keys.mp (List.mem_map.mpr ⟨e,he,rfl⟩),hp⟩
  · rintro ⟨l,hl,hp⟩ hsum
    obtain ⟨e,he,rfl⟩ := List.mem_map.mp (AList.mem_keys.mpr hl)
    have hzero := hsum e.2 (List.mem_map.mpr ⟨e,List.mem_filter.mpr ⟨he,hp⟩,rfl⟩)
    have hpos := hentry e he
    omega

end Registry

end Metrics
end OxiGate
