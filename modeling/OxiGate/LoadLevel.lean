import OxiGate.RoundRobin

/-! A growing load under the algorithms that look at connection counts. Both keep the counts
level: one always takes a smallest count, the other goes round the pool two places at a time. -/
namespace OxiGate
namespace Lb

open Cyclic

namespace LoadBalancer

/-- `select` and then `inc_connections` on what it returned. -/
def assign (lb : LoadBalancer) : LoadBalancer :=
  match lb.select with
  | (some u,lb') => { lb' with upstreams := lb'.upstreams.modify u.2 UpstreamRuntime.incConnections }
  | (none,lb') => lb'

def places (lb : LoadBalancer) : List ℕ := (lb.eligible []).map Prod.snd

def load (lb : LoadBalancer) (place : ℕ) : ℕ := ((lb.upstreams[place]?).map UpstreamRuntime.activeConnections).getD 0

theorem mem_places {lb : LoadBalancer} {i : ℕ} :
    i ∈ lb.places ↔ ∃ u, lb.upstreams[i]? = some u ∧ u.healthy = true := by
  simp only [places,List.mem_map]
  constructor
  · rintro ⟨u,hu,rfl⟩
    obtain ⟨hget,hhealthy,-⟩ := mem_eligible.mp hu
    exact ⟨u.1,hget,hhealthy⟩
  · rintro ⟨u,hget,hhealthy⟩
    exact ⟨(u,i),mem_eligible.mpr ⟨hget,hhealthy,by simp⟩,rfl⟩

theorem load_of_mem {lb : LoadBalancer} {u : Placed} (hu : u ∈ lb.eligible []) :
    u.1.activeConnections = lb.load u.2 := by
  have hget := (mem_eligible.mp hu).1
  simp [load,hget]

def flags (u : UpstreamRuntime) : String × Bool := (u.address,u.healthy)

theorem places_of_flags {lb lb' : LoadBalancer} (h : lb'.upstreams.map flags = lb.upstreams.map flags) :
    lb'.places = lb.places := by
  have heq : ∀ lb : LoadBalancer, lb.places =
      ((lb.upstreams.map flags).zipIdx.filter fun x => x.1.2).map Prod.snd := by
    intro lb
    simp [places,eligible,List.zipIdx_map,List.filter_map,Function.comp_def,flags]
  rw [heq,heq,h]

/-- The same upstreams and algorithm; loads and counter may differ. -/
structure SameFlags (lb lb' : LoadBalancer) : Prop where
  upstreams : lb'.upstreams.map flags = lb.upstreams.map flags
  algorithm : lb'.algorithm = lb.algorithm

theorem select_upstreams (lb : LoadBalancer) : lb.select.2.upstreams = lb.upstreams ∧
    lb.select.2.algorithm = lb.algorithm := by
  unfold select selectExcluding
  dsimp only
  split
  · exact ⟨rfl,rfl⟩
  · split
    · exact ⟨rfl,rfl⟩
    · split
      · exact ⟨rfl,rfl⟩
      · exact ⟨rfl,rfl⟩
    · exact ⟨rfl,rfl⟩
    · split
      · exact ⟨rfl,rfl⟩
      · exact ⟨rfl,rfl⟩

theorem assign_spec {lb : LoadBalancer} {u : Placed} (h : lb.select.1 = some u) :
    SameFlags lb lb.assign ∧ lb.assign.load = Function.update lb.load u.2 (lb.load u.2+1) ∧
      lb.assign.rrCounter = lb.select.2.rrCounter := by
  obtain ⟨hupstreams,halgorithm⟩ := select_upstreams lb
  have hget : lb.upstreams[u.2]? = some u.1 := (selectExcluding_sound h).1
  have hassign : lb.assign = { lb.select.2 with
      upstreams := lb.upstreams.modify u.2 UpstreamRuntime.incConnections } := by
    rw [assign,← hupstreams]
    rcases hsel : lb.select with ⟨found,lb'⟩
    rw [hsel] at h
    dsimp only at h
    rw [h]
  rw [hassign]
  refine ⟨⟨?_,halgorithm⟩,?_,rfl⟩
  · apply List.ext_getElem?
    intro i
    by_cases hi : u.2 = i
    · subst hi
      simp [hget,flags,UpstreamRuntime.incConnections]
    · simp [hi]
  · funext i
    by_cases hi : i = u.2
    · subst hi
      simp [load,hget,UpstreamRuntime.incConnections]
    · simp [load,hi,Ne.symm hi]

theorem SameFlags.places {lb lb' : LoadBalancer} (h : SameFlags lb lb') : lb'.places = lb.places :=
  places_of_flags h.upstreams

theorem SameFlags.trans {lb lb' lb'' : LoadBalancer} (h : SameFlags lb lb') (h' : SameFlags lb' lb'') :
    SameFlags lb lb'' :=
  ⟨h'.upstreams.trans h.upstreams,h'.algorithm.trans h.algorithm⟩

/-- All healthy loads are `k` or `k+1`. -/
def Level (lb : LoadBalancer) (k : ℕ) : Prop := ∀ i ∈ lb.places, lb.load i = k ∨ lb.load i = k+1

theorem Level.assign {lb : LoadBalancer} {k : ℕ} (hlevel : Level lb k) {u : Placed} (hsel : lb.select.1 = some u)
    (hmin : ∀ i ∈ lb.places, lb.load u.2 ≤ lb.load i) : Level lb.assign k ∨ Level lb.assign (k+1) := by
  obtain ⟨hflags,hload,-⟩ := assign_spec hsel
  have hmem : u.2 ∈ lb.places := by
    obtain ⟨hget,hhealthy,-⟩ := selectExcluding_sound hsel
    exact mem_places.mpr ⟨u.1,hget,hhealthy⟩
  unfold Level
  rw [hflags.places,hload]
  rcases hlevel u.2 hmem with hlow | hhigh
  · left
    intro i hi
    by_cases heq : i = u.2
    · rw [heq,Function.update_self,hlow]
      exact Or.inr rfl
    · rw [Function.update_of_ne heq]
      exact hlevel i hi
  · right
    intro i hi
    by_cases heq : i = u.2
    · rw [heq,Function.update_self,hhigh]
      exact Or.inr rfl
    · rw [Function.update_of_ne heq]
      have hle := hmin i hi
      rcases hlevel i hi with h | h
      · omega
      · exact Or.inl h

theorem select_leastConnections {lb : LoadBalancer} (halg : lb.algorithm = .leastConnections)
    (hne : lb.places ≠ []) : ∃ u, lb.select.1 = some u ∧ ∀ i ∈ lb.places, lb.load u.2 ≤ lb.load i := by
  have heligible : lb.eligible [] ≠ [] := by simpa [places] using hne
  obtain ⟨u,hu,hsel⟩ := selectExcluding_of_ne_nil heligible
  refine ⟨u,hsel,?_⟩
  have hempty : (lb.eligible []).isEmpty = false := by simpa using heligible
  have hargmin : u ∈ (lb.eligible []).argmin fun u => u.1.activeConnections := by
    simpa [selectExcluding,hempty,halg,leastConnSelect] using hsel
  intro i hi
  obtain ⟨v,hv,rfl⟩ := List.mem_map.mp hi
  rw [← load_of_mem hu,← load_of_mem hv]
  exact List.le_of_mem_argmin (f := fun u : Placed => u.1.activeConnections) hv hargmin

end LoadBalancer

section Turns

/-- The place that has its turn at the `s`-th pair of `n` places. The pairs of an odd pool start
everywhere; those of an even pool stay the same, and their members alternate. -/
def turn (n c s : ℕ) : ℕ := if n % 2 = 1 then (c+2*s) % n else (c+2*s+s/(n/2) % 2) % n

theorem turn_lt {n : ℕ} (hn : 0 < n) (c s : ℕ) : turn n c s < n := by
  unfold turn
  split
  · exact Nat.mod_lt _ hn
  · exact Nat.mod_lt _ hn

theorem turn_mod (n c s : ℕ) : turn n c (s % n) = turn n c s := by
  unfold turn
  split
  · exact Nat.ModEq.add_left c ((Nat.mod_modEq s n).mul_left 2)
  · rename_i hodd
    have hhalf : s % n/(n/2) % 2 = s/(n/2) % 2 := by
      conv_lhs => rw [show n = n/2*2 by omega,Nat.mul_div_cancel _ two_pos,Nat.mod_mul_right_div_self,Nat.mod_mod]
    rw [hhalf]
    exact ((Nat.mod_modEq s n).mul_left 2).add_left c |>.add_right _

theorem turn_injective {n c s s' : ℕ} (hs : s < n) (hs' : s' < n)
    (h : turn n c s = turn n c s') : s = s' := by
  unfold turn at h
  split at h
  · rename_i hodd
    have hcoprime : Nat.gcd n 2 = 1 := Nat.Coprime.symm (Nat.coprime_two_left.mpr (Nat.odd_iff.mpr hodd))
    have hdouble : 2*s ≡ 2*s' [MOD n] := Nat.ModEq.add_left_cancel' c h
    have hmod : s ≡ s' [MOD n] := Nat.ModEq.cancel_left_of_coprime hcoprime hdouble
    exact hmod.eq_of_lt_of_lt hs hs'
  · rename_i hodd
    obtain ⟨half,rfl⟩ : ∃ half, n = 2*half := ⟨n/2,by omega⟩
    rw [Nat.mul_div_cancel_left _ two_pos] at h
    have hhalf : s/half % 2 = s'/half % 2 := by
      have hparity : c+2*s+s/half % 2 ≡ c+2*s'+s'/half % 2 [MOD 2] :=
        Nat.ModEq.of_mul_right half h
      unfold Nat.ModEq at hparity
      omega
    rw [hhalf] at h
    have hdouble : 2*s ≡ 2*s' [MOD 2*half] :=
      Nat.ModEq.add_left_cancel' c (Nat.ModEq.add_right_cancel' _ h)
    have hmod : s % half = s' % half := Nat.ModEq.mul_left_cancel' two_ne_zero hdouble
    have hlt : s/half < 2 := Nat.div_lt_of_lt_mul (by omega)
    have hlt' : s'/half < 2 := Nat.div_lt_of_lt_mul (by omega)
    have hdiv : s/half = s'/half := by
      rwa [Nat.mod_eq_of_lt hlt,Nat.mod_eq_of_lt hlt'] at hhalf
    rw [← Nat.div_add_mod s half,← Nat.div_add_mod s' half,hdiv,hmod]

/-- The turn is the first candidate's, or it is the second's and the first had one in this round. -/
theorem turn_candidates {n : ℕ} (hn : 0 < n) (c m : ℕ) : turn n c m = (c+2*m) % n ∨
    turn n c m = (c+2*m+1) % n ∧ ∃ j < m, m/n*n ≤ j ∧ turn n c j = (c+2*m) % n := by
  by_cases hodd : n % 2 = 1
  · exact Or.inl (by rw [turn,if_pos hodd])
  · obtain ⟨half,rfl⟩ : ∃ half, n = 2*half := ⟨n/2,by omega⟩
    have hturn : ∀ s, turn (2*half) c s = (c+2*s+s/half % 2) % (2*half) := by
      intro s
      rw [turn,if_neg hodd,Nat.mul_div_cancel_left _ two_pos]
    rcases Nat.mod_two_eq_zero_or_one (m/half) with hfirst | hsecond
    · exact Or.inl (by rw [hturn,hfirst,Nat.add_zero])
    · -- the first member of the pair had its turn half a round ago
      obtain ⟨w,hw⟩ : ∃ w, m/half = 2*w+1 := ⟨m/half/2,by omega⟩
      have hm : 2*(half*w)+half+m % half = m := by
        calc 2*(half*w)+half+m % half = half*(2*w+1)+m % half := by ring
          _ = m := by rw [← hw]; exact Nat.div_add_mod m half
      have hround : m/(2*half)*(2*half) = 2*(half*w) := by
        have hdiv : m/(2*half) = w := by
          rw [Nat.mul_comm,← Nat.div_div_eq_div_mul,hw]
          omega
        rw [hdiv]
        ring
      have hbefore : (m-half)/half % 2 = 0 := by
        have hstep := Nat.div_eq_sub_div (by omega : 0 < half) (by omega : half ≤ m)
        omega
      have hback : c+2*(m-half)+2*half = c+2*m := by omega
      refine Or.inr ⟨by rw [hturn,hsecond],m-half,by omega,by omega,?_⟩
      rw [hturn,hbefore,Nat.add_zero,← hback,Nat.add_mod_right]

end Turns

namespace LoadBalancer

def order (lb : LoadBalancer) : List ℕ :=
  (List.range lb.places.length).map fun s => lb.places.getD (turn lb.places.length lb.rrCounter s) 0

@[simp] theorem length_order (lb : LoadBalancer) : lb.order.length = lb.places.length := by simp [order]

theorem getD_turn {lb : LoadBalancer} {s : ℕ} (hs : s < lb.places.length) :
    ∃ hlt, lb.places.getD (turn lb.places.length lb.rrCounter s) 0 =
      lb.places.get ⟨turn lb.places.length lb.rrCounter s,hlt⟩ := by
  have hlt := turn_lt (by omega : 0 < lb.places.length) lb.rrCounter s
  refine ⟨hlt,?_⟩
  rw [List.getD_eq_getElem?_getD,List.getElem?_eq_getElem hlt,Option.getD_some]
  rfl

theorem order_getElem? {lb : LoadBalancer} (hne : lb.places ≠ []) (m : ℕ) :
    lb.order[m % lb.order.length]? = lb.places[turn lb.places.length lb.rrCounter m]? := by
  have hpos : 0 < lb.places.length := List.length_pos_of_ne_nil hne
  have hlt := turn_lt hpos lb.rrCounter m
  rw [length_order]
  simp [order,Nat.mod_lt m hpos,turn_mod,List.getElem?_eq_getElem hlt]

theorem order_nodup (lb : LoadBalancer) : lb.order.Nodup := by
  have hplaces : lb.places.Nodup := eligible_places_nodup lb []
  refine List.Nodup.map_on ?_ List.nodup_range
  intro s hs s' hs' heq
  rw [List.mem_range] at hs hs'
  obtain ⟨hlt,hget⟩ := getD_turn hs
  obtain ⟨hlt',hget'⟩ := getD_turn hs'
  rw [hget,hget'] at heq
  exact turn_injective hs hs' (Fin.mk.inj (hplaces.get_inj_iff.mp heq))

theorem mem_order {lb : LoadBalancer} {i : ℕ} (hi : i ∈ lb.places) : i ∈ lb.order := by
  have hsubset : lb.order ⊆ lb.places := by
    intro j hj
    obtain ⟨s,hs,rfl⟩ := List.mem_map.mp hj
    rw [List.mem_range] at hs
    obtain ⟨hlt,hget⟩ := getD_turn hs
    rw [hget]
    exact List.getElem_mem hlt
  have hperm := ((order_nodup lb).subperm hsubset).perm_of_length_le (by simp)
  exact hperm.mem_iff.mpr hi

theorem select_powerOfTwoChoices {lb : LoadBalancer} (halg : lb.algorithm = .powerOfTwoChoices)
    (htwo : 2 ≤ lb.places.length) :
    ∃ u p q, lb.select = (some u,lb.advance 2) ∧
      lb.places[lb.rrCounter % lb.places.length]? = some p ∧
      lb.places[(lb.rrCounter+1) % 2^64 % lb.places.length]? = some q ∧
      u.2 = if lb.load p ≤ lb.load q then p else q := by
  have hlength : lb.places.length = (lb.eligible []).length := by simp [places]
  have hne : lb.eligible [] ≠ [] := List.ne_nil_of_length_pos (by omega)
  obtain ⟨a,ha,hgeta⟩ := getElem?_mod (lb.eligible []) lb.rrCounter hne
  obtain ⟨b,hb,hgetb⟩ := getElem?_mod (lb.eligible []) ((lb.rrCounter+1) % 2^64) hne
  have hempty : (lb.eligible []).isEmpty = false := by simpa using hne
  have hone : ¬(lb.eligible []).length = 1 := by omega
  have hselect : lb.select = (some (fewerConnections a b),lb.advance 2) := by
    simp only [select,selectExcluding,hempty,Bool.false_eq_true,if_false,halg,if_neg hone,hgeta,hgetb]
    rfl
  refine ⟨fewerConnections a b,a.2,b.2,hselect,?_,?_,?_⟩
  · rw [hlength,places,List.getElem?_map,hgeta]
    rfl
  · rw [hlength,places,List.getElem?_map,hgetb]
    rfl
  · unfold fewerConnections
    rw [load_of_mem ha,load_of_mem hb]
    split
    · rfl
    · rfl

/-- Which of two candidates has the turn shows in how often they were taken. -/
theorem order_candidates {lb : LoadBalancer} {m p q : ℕ}
    (hp : lb.places[(lb.rrCounter+2*m) % lb.places.length]? = some p)
    (hq : lb.places[(lb.rrCounter+2*m+1) % lb.places.length]? = some q) :
    lb.order[m % lb.order.length]? =
      some (if (picks lb.order 0 m).count (some p) ≤ (picks lb.order 0 m).count (some q) then p else q) := by
  have hne := List.ne_nil_of_mem (List.mem_of_getElem? hp)
  have hnodup := order_nodup lb
  have hnext : ∀ i, lb.order[m % lb.order.length]? = some i →
      (picks lb.order 0 m).count (some i) = m/lb.order.length := by
    intro i hi
    exact count_next hnodup (by rwa [Nat.zero_add])
  rcases turn_candidates (List.length_pos_of_ne_nil hne) lb.rrCounter m with hfirst | ⟨hsecond,j,hj,hround,hturn⟩
  · have hp' : lb.order[m % lb.order.length]? = some p := by rw [order_getElem? hne,hfirst,hp]
    have hlaps : m/lb.order.length ≤ (picks lb.order 0 m).count (some q) := by
      rw [picks_split,List.count_append,count_laps,
        List.count_eq_one_of_mem hnodup (mem_order (List.mem_of_getElem? hq))]
      omega
    have hcount := hnext p hp'
    rw [hp',if_pos (by omega)]
  · have hq' : lb.order[m % lb.order.length]? = some q := by rw [order_getElem? hne,hsecond,hq]
    have hp' : lb.order[(0+j) % lb.order.length]? = some p := by rw [Nat.zero_add,order_getElem? hne,hturn,hp]
    have hahead := count_recent hnodup (by rwa [length_order]) hj hp'
    have hcount := hnext q hq'
    rw [hq',if_neg (by omega)]

/-- After `m` assignments every healthy place has had its turns. -/
structure Turned (lb : LoadBalancer) (m : ℕ) (lb' : LoadBalancer) : Prop where
  flags : SameFlags lb lb'
  counter : lb.rrCounter+2*m < 2^64 → lb'.rrCounter = lb.rrCounter+2*m
  load : ∀ i ∈ lb.places, lb'.load i = lb.load i+(picks lb.order 0 m).count (some i)

theorem Turned.assign {lb lb' : LoadBalancer} {m k : ℕ} (h : Turned lb m lb')
    (halg : lb.algorithm = .powerOfTwoChoices) (htwo : 2 ≤ lb.places.length)
    (hequal : ∀ i ∈ lb.places, lb.load i = k) (hwrap : lb.rrCounter+2*(m+1) ≤ 2^64) :
    Turned lb (m+1) lb'.assign := by
  have hcounter := h.counter (by omega)
  have hplaces := h.flags.places
  obtain ⟨u,p,q,hsel,hp,hq,hu⟩ := select_powerOfTwoChoices
    (h.flags.algorithm.trans halg) (by rwa [hplaces])
  obtain ⟨hflags,hload,hcounter'⟩ := assign_spec (by rw [hsel] : lb'.select.1 = some u)
  rw [hplaces,hcounter] at hp hq
  rw [Nat.mod_eq_of_lt (by omega : lb.rrCounter+2*m+1 < 2^64)] at hq
  have hpmem := List.mem_of_getElem? hp
  have hqmem := List.mem_of_getElem? hq
  have hturn : lb.order[(0+m) % lb.order.length]? = some u.2 := by
    rw [Nat.zero_add,order_candidates hp hq,hu,h.load p hpmem,h.load q hqmem,hequal p hpmem,hequal q hqmem]
    simp only [Nat.add_le_add_iff_left]
  refine ⟨h.flags.trans hflags,?_,?_⟩
  · intro hlt
    rw [hcounter',hsel]
    simp only [advance,hcounter]
    omega
  · intro i hi
    rw [hload,picks_succ,hturn,List.count_append]
    by_cases heq : i = u.2
    · subst heq
      rw [Function.update_self,h.load _ hi]
      simp [Nat.add_assoc]
    · rw [Function.update_of_ne heq,h.load i hi]
      simp [Ne.symm heq]

theorem turned_iterate {lb : LoadBalancer} {m k : ℕ} (halg : lb.algorithm = .powerOfTwoChoices)
    (htwo : 2 ≤ lb.places.length) (hequal : ∀ i ∈ lb.places, lb.load i = k) (hwrap : lb.rrCounter+2*m ≤ 2^64) :
    Turned lb m (LoadBalancer.assign^[m] lb) := by
  induction m with
  | zero => exact ⟨⟨rfl,rfl⟩,fun _ => rfl,fun i _ => by simp⟩
  | succ m ih =>
    rw [Function.iterate_succ_apply']
    exact (ih (by omega)).assign halg htwo hequal hwrap

theorem sameFlags_assign (lb : LoadBalancer) : SameFlags lb lb.assign := by
  cases hsel : lb.select.1 with
  | some u => exact (assign_spec hsel).1
  | none =>
    obtain ⟨hupstreams,halgorithm⟩ := select_upstreams lb
    have hassign : lb.assign = lb.select.2 := by
      rw [assign]
      rcases hpair : lb.select with ⟨found,lb'⟩
      rw [hpair] at hsel
      cases hsel
      rfl
    rw [hassign]
    exact ⟨by rw [hupstreams],halgorithm⟩

theorem sameFlags_iterate (lb : LoadBalancer) (m : ℕ) : SameFlags lb (LoadBalancer.assign^[m] lb) := by
  induction m with
  | zero => exact ⟨rfl,rfl⟩
  | succ m ih =>
    rw [Function.iterate_succ_apply']
    exact ih.trans (sameFlags_assign _)

theorem level_iterate {lb : LoadBalancer} {k : ℕ} (halg : lb.algorithm = .leastConnections)
    (hne : lb.places ≠ []) (hequal : ∀ i ∈ lb.places, lb.load i = k) (m : ℕ) :
    ∃ k', Level (LoadBalancer.assign^[m] lb) k' := by
  induction m with
  | zero => exact ⟨k,fun i hi => Or.inl (hequal i hi)⟩
  | succ m ih =>
    obtain ⟨k',hlevel⟩ := ih
    have hflags := sameFlags_iterate lb m
    obtain ⟨u,hsel,hmin⟩ := select_leastConnections (hflags.algorithm.trans halg) (by rwa [hflags.places])
    rw [Function.iterate_succ_apply']
    rcases hlevel.assign hsel hmin with h | h
    · exact ⟨k',h⟩
    · exact ⟨k'+1,h⟩

/-- Both load-aware algorithms keep a growing load level: from equal counts, the counts of healthy
upstreams never differ by more than one. -/
theorem load_level {lb : LoadBalancer} {k m : ℕ}
    (halg : lb.algorithm = .leastConnections ∨ lb.algorithm = .powerOfTwoChoices)
    (hequal : ∀ u ∈ lb.upstreams, u.healthy = true → u.activeConnections = k)
    (hwrap : lb.rrCounter+2*m ≤ 2^64) {u v : UpstreamRuntime}
    (hu : u ∈ (LoadBalancer.assign^[m] lb).upstreams) (hv : v ∈ (LoadBalancer.assign^[m] lb).upstreams)
    (huhealthy : u.healthy = true) (hvhealthy : v.healthy = true) :
    u.activeConnections ≤ v.activeConnections+1 := by
  obtain ⟨i,hi⟩ := List.getElem?_of_mem hu
  obtain ⟨j,hj⟩ := List.getElem?_of_mem hv
  have hflags := sameFlags_iterate lb m
  have hiplace : i ∈ (LoadBalancer.assign^[m] lb).places := mem_places.mpr ⟨u,hi,huhealthy⟩
  have hjplace : j ∈ (LoadBalancer.assign^[m] lb).places := mem_places.mpr ⟨v,hj,hvhealthy⟩
  have hiload : (LoadBalancer.assign^[m] lb).load i = u.activeConnections := by simp [load,hi]
  have hjload : (LoadBalancer.assign^[m] lb).load j = v.activeConnections := by simp [load,hj]
  have hstart : ∀ i ∈ lb.places, lb.load i = k := by
    intro i hi
    obtain ⟨w,hget,hhealthy⟩ := mem_places.mp hi
    simpa [load,hget] using hequal w (List.mem_of_getElem? hget) hhealthy
  rw [← hiload,← hjload]
  rcases halg with halg | halg
  · rw [hflags.places] at hiplace hjplace
    obtain ⟨k',hlevel⟩ := level_iterate halg (List.ne_nil_of_mem hiplace) hstart m
    have hlevelI := hlevel i (by rwa [hflags.places])
    have hlevelJ := hlevel j (by rwa [hflags.places])
    omega
  · rw [hflags.places] at hiplace hjplace
    by_cases htwo : 2 ≤ lb.places.length
    · have hturned := turned_iterate halg htwo hstart hwrap
      rw [hturned.load i hiplace,hturned.load j hjplace,hstart i hiplace,hstart j hjplace,Nat.add_assoc]
      exact Nat.add_le_add_left (count_level (order_nodup lb) 0 m (mem_order hjplace)) k
    · -- a single healthy place is level with itself
      have hpos := List.length_pos_of_mem hiplace
      obtain ⟨only,honly⟩ := List.length_eq_one_iff.mp (by omega : lb.places.length = 1)
      rw [honly] at hiplace hjplace
      rw [List.mem_singleton.mp hiplace,List.mem_singleton.mp hjplace]
      omega

def fourUpstreams : LoadBalancer :=
  ⟨[⟨"http://10.0.0.1:80",1,true,2⟩,⟨"http://10.0.0.2:80",1,false,2⟩,⟨"http://10.0.0.3:80",1,true,2⟩,
    ⟨"http://10.0.0.4:80",1,true,2⟩],.powerOfTwoChoices,6⟩

theorem load_level_fourUpstreams :
    (LoadBalancer.assign^[5] fourUpstreams).upstreams.map UpstreamRuntime.activeConnections = [4,2,3,4] ∧
    ∀ u ∈ (LoadBalancer.assign^[5] fourUpstreams).upstreams,
      ∀ v ∈ (LoadBalancer.assign^[5] fourUpstreams).upstreams, u.healthy = true → v.healthy = true →
        u.activeConnections ≤ v.activeConnections+1 := by
  refine ⟨by decide,?_⟩
  intro u hu v hv
  exact load_level (k := 2) (Or.inr rfl) (by decide) (by decide) hu hv

end LoadBalancer

end Lb
end OxiGate
