import OxiGate.Accounting
import OxiGate.Cyclic
import OxiGate.UpgradePath

/-! Requests one after the other, over balancers that keep their state. Where each request is
tried first depends on how often the balancer's counter has been advanced before. -/
namespace OxiGate
namespace Proxy

open Net Http Lb Interaction Accounting Cyclic

/-- The balancers at each call are what the calls before have made of them. -/
def Threaded : Balancers → Trace → Balancers → Prop
  | s, [], s' => s' = s
  | s, e::tr, s' => e.2.balancers = s ∧ Threaded (respond s e.1 (answer e.2 e.1)).2 tr s'

theorem threaded_append {s s' : Balancers} {tr tr' : Trace} :
    Threaded s (tr++tr') s' ↔ ∃ m, Threaded s tr m ∧ Threaded m tr' s' := by
  induction tr generalizing s with
  | nil =>
    constructor
    · intro h
      exact ⟨s,rfl,h⟩
    · rintro ⟨m,rfl,h⟩
      exact h
  | cons e tr ih =>
    constructor
    · rintro ⟨hbalancers,hrest⟩
      obtain ⟨m,hfront,hback⟩ := ih.mp hrest
      exact ⟨m,⟨hbalancers,hfront⟩,hback⟩
    · rintro ⟨m,⟨hbalancers,hfront⟩,hback⟩
      exact ⟨hbalancers,ih.mpr ⟨m,hfront,hback⟩⟩

structure Exchange where
  arrival : Arrival
  trace : Trace
  response : Response

def ServedInTurn [HttpCrate] : Balancers → List Exchange → Balancers → Prop
  | s, [], s' => s' = s
  | s, x::xs, s' =>
    Returns answer (proxyRequest x.arrival.ctx x.arrival.req x.arrival.remoteAddr) x.trace x.response ∧
      ∃ m, Threaded s x.trace m ∧ ServedInTurn m xs s'

/-- The request brings no affinity cookie, or none is configured. -/
def NonSticky [HttpCrate] (r : Arrival) : Prop :=
  (r.ctx.sticky.bind fun s => extractCookie r.req.parts.headers s.cookieName) = none

def firstAttempts (lb place : ℕ) (exchanges : List Exchange) : ℕ :=
  exchanges.countP fun x => (attempted x.trace).head?.any fun u => u.lb = lb && u.place = place

def selected (tr : Trace) : List UpstreamRef := tr.filterMap fun e => found e.2 e.1

section Balancer

theorem selectExcluding_none {lb : LoadBalancer} {exclude : List String}
    (h : (lb.selectExcluding exclude).1 = none) : (lb.selectExcluding exclude).2 = lb := by
  by_cases hne : lb.eligible exclude = []
  · simp [LoadBalancer.selectExcluding,hne]
  · obtain ⟨u,-,hu⟩ := LoadBalancer.selectExcluding_of_ne_nil hne
    rw [h] at hu
    cases hu

theorem selectSticky_none {lb : LoadBalancer} {stickyValue : Option String}
    (h : (lb.selectSticky stickyValue).1 = none) : (lb.selectSticky stickyValue).2 = lb := by
  unfold LoadBalancer.selectSticky at h ⊢
  split
  · rfl
  · rename_i hnone
    rw [hnone] at h
    exact selectExcluding_none h

/-- A round-robin pool of healthy upstreams whose counter stands at `c`. -/
structure Turning (n c : ℕ) (lb : LoadBalancer) : Prop where
  algorithm : lb.algorithm = .roundRobin
  healthy : ∀ u ∈ lb.upstreams, u.healthy = true
  length : lb.upstreams.length = n
  counter : c < 2^64 → lb.rrCounter = c

theorem Turning.select {n c : ℕ} {lb : LoadBalancer} (h : Turning n c lb) {u : Placed}
    (hu : (lb.selectExcluding []).1 = some u) :
    (c < 2^64 → (List.range n)[c % (List.range n).length]? = some u.2) ∧
      Turning n (c+1) (lb.selectExcluding []).2 := by
  have heligible : lb.eligible [] = lb.upstreams.zipIdx := by
    refine List.filter_eq_self.mpr fun v hv => ?_
    have hmem := List.mem_of_getElem? (List.mem_zipIdx_iff_getElem?.mp hv)
    simp [h.healthy v.1 hmem]
  have hne : lb.upstreams.zipIdx.isEmpty = false := by
    cases hempty : lb.upstreams.zipIdx.isEmpty with
    | false => rfl
    | true => simp [LoadBalancer.selectExcluding,heligible,hempty] at hu
  have hselect : lb.selectExcluding [] =
      (lb.upstreams.zipIdx[lb.rrCounter % lb.upstreams.zipIdx.length]?,lb.advance 1) := by
    simp only [LoadBalancer.selectExcluding,heligible,hne,h.algorithm,Bool.false_eq_true,if_false]
  rw [hselect] at hu ⊢
  refine ⟨?_,h.algorithm,h.healthy,h.length,?_⟩
  · intro hc
    rw [List.length_zipIdx,h.length,h.counter hc] at hu
    obtain ⟨hlt,heq⟩ := List.getElem?_eq_some_iff.mp hu
    rw [List.length_zipIdx,h.length] at hlt
    rw [List.length_range,List.getElem?_range hlt]
    simpa using congrArg Prod.snd heq
  · intro hc
    have hcounter := h.counter (by omega)
    simp only [LoadBalancer.advance,hcounter]
    omega

theorem Turning.modify {n c : ℕ} {lb : LoadBalancer} (h : Turning n c lb) (place : ℕ)
    {f : UpstreamRuntime → UpstreamRuntime} (hf : ∀ u, (f u).healthy = u.healthy) :
    Turning n c (modifyUpstream lb place f) := by
  refine ⟨h.algorithm,?_,?_,h.counter⟩
  · intro u hu
    obtain ⟨i,hi⟩ := List.getElem?_of_mem hu
    simp only [modifyUpstream,List.getElem?_modify] at hi
    obtain ⟨v,hv,rfl⟩ := Option.map_eq_some_iff.mp hi
    have hhealthy := h.healthy v (List.mem_of_getElem? hv)
    by_cases hplace : place = i
    · simp [hplace,hf,hhealthy]
    · simp [hplace,hhealthy]
  · simpa [modifyUpstream] using h.length

end Balancer

section Calls

variable {n c k : ℕ}

/-- A selection that excludes nobody, and that no cookie decides. -/
def Op.unconditional : Op → Bool
  | .selectSticky _ none => true
  | .select _ => true
  | _ => false

/-- A selection comes to the place the counter says, or leaves the pool alone. -/
theorem Turning.selects {s : Balancers} (h : Turning n c (s k)) {lb : ℕ} {r : Option Placed × LoadBalancer}
    (hnone : r.1 = none → r.2 = s lb) (hsome : ∀ u, r.1 = some u → lb = k → r = (s k).selectExcluding []) :
    (∀ u, r.1.map (refer lb) = some u → u.lb = k →
      (c < 2^64 → (List.range n)[c % (List.range n).length]? = some u.place) ∧
        Turning n (c+1) (Function.update s lb r.2 k)) ∧
    ((∀ u, r.1.map (refer lb) = some u → u.lb ≠ k) → Turning n c (Function.update s lb r.2 k)) := by
  constructor
  · intro u hu hlb
    obtain ⟨v,hv,rfl⟩ := Option.map_eq_some_iff.mp hu
    have hk : lb = k := hlb
    subst hk
    have hopen := hsome v hv rfl
    rw [hopen] at hv
    rw [Function.update_self,hopen]
    exact h.select hv
  · intro hother
    by_cases hk : k = lb
    · subst hk
      have hr : r.1 = none := by
        cases hr : r.1 with
        | none => rfl
        | some v => exact absurd rfl (hother (refer k v) (by rw [hr]; rfl))
      rw [Function.update_self,hnone hr]
      exact h
    · rw [Function.update_of_ne hk]
      exact h

theorem Turning.call {m : Moment} {op : Op} (h : Turning n c (m.balancers k))
    (hopen : ∀ u, found m op = some u → u.lb = k → op.unconditional = true) :
    (∀ u, found m op = some u → u.lb = k →
      (c < 2^64 → (List.range n)[c % (List.range n).length]? = some u.place) ∧
        Turning n (c+1) ((respond m.balancers op (answer m op)).2 k)) ∧
    ((∀ u, found m op = some u → u.lb ≠ k) → Turning n c ((respond m.balancers op (answer m op)).2 k)) := by
  have hcounted : ∀ (u : UpstreamRef) (f : UpstreamRuntime → UpstreamRuntime), (∀ v, (f v).healthy = v.healthy) →
      Turning n c (Function.update m.balancers u.lb (modifyUpstream (m.balancers u.lb) u.place f) k) := by
    intro u f hf
    by_cases hk : k = u.lb
    · subst hk
      simpa using h.modify u.place hf
    · simpa [hk] using h
  cases op with
  | selectSticky lb v =>
    refine h.selects (fun hnone => selectSticky_none hnone) ?_
    rintro u hu rfl
    have hv := hopen (refer lb u) (by simp [found,answer,hu]) rfl
    cases v with
    | none => rfl
    | some v => cases hv
  | selectExcluding lb ex =>
    refine h.selects (fun hnone => selectExcluding_none hnone) ?_
    rintro u hu rfl
    exact absurd (hopen (refer lb u) (by simp [found,answer,hu]) rfl) Bool.false_ne_true
  | select lb =>
    refine h.selects (fun hnone => selectExcluding_none hnone) ?_
    rintro u hu rfl
    rfl
  | incConnections u => exact ⟨fun v hv => absurd hv (by simp [found]),fun _ => hcounted u _ fun _ => rfl⟩
  | decConnections u => exact ⟨fun v hv => absurd hv (by simp [found]),fun _ => hcounted u _ fun _ => rfl⟩
  | _ => exact ⟨fun v hv => absurd hv (by simp [found]),fun _ => h⟩

theorem Turning.run {s s' : Balancers} {tr : Trace} (h : Turning n c (s k)) (hthread : Threaded s tr s')
    (hopen : ∀ e ∈ tr, ∀ u, found e.2 e.1 = some u → u.lb = k → e.1.unconditional = true)
    (hwrap : c+((selected tr).filter (·.lb = k)).length ≤ 2^64) :
    ((selected tr).filter (·.lb = k)).map (fun u => some u.place) =
      picks (List.range n) c ((selected tr).filter (·.lb = k)).length := by
  induction tr generalizing s c with
  | nil => rfl
  | cons e tr ih =>
    rcases e with ⟨op,m⟩
    obtain ⟨hbalancers,hrest⟩ := hthread
    have hbalancers : m.balancers = s := hbalancers
    subst hbalancers
    have hcall := h.call (hopen (op,m) (by simp))
    have hopen' : ∀ e ∈ tr, ∀ u, found e.2 e.1 = some u → u.lb = k → e.1.unconditional = true :=
      fun e he => hopen e (List.mem_cons_of_mem _ he)
    by_cases hhit : ∃ u, found m op = some u ∧ u.lb = k
    · obtain ⟨u,hu,hlb⟩ := hhit
      have hcons : (selected ((op,m)::tr)).filter (·.lb = k) = u::(selected tr).filter (·.lb = k) := by
        simp [selected,hu,hlb]
      rw [hcons,List.length_cons] at hwrap ⊢
      obtain ⟨hplace,hnext⟩ := hcall.1 u hu hlb
      rw [List.map_cons,picks_cons,hplace (by omega),ih hnext hrest hopen' (by omega)]
    · have hother : ∀ u, found m op = some u → u.lb ≠ k := fun u hu hlb => hhit ⟨u,hu,hlb⟩
      have hcons : (selected ((op,m)::tr)).filter (·.lb = k) = (selected tr).filter (·.lb = k) := by
        cases hfound : found m op with
        | none => simp [selected,hfound]
        | some u => simp [selected,hfound,hother u hfound]
      rw [hcons] at hwrap ⊢
      exact ih (hcall.2 hother) hrest hopen' hwrap

end Calls

section Requests

variable [HttpCrate]

omit [HttpCrate] in
theorem mem_course_of_found {e : Op × Moment} {tr : Trace} (he : e ∈ tr) {u : UpstreamRef}
    (hfound : found e.2 e.1 = some u) : e ∈ course tr := by
  refine mem_course.mpr ⟨he,?_⟩
  rcases e with ⟨op,m⟩
  cases op with
  | selectSticky lb v => rfl
  | selectExcluding lb ex => rfl
  | select lb => rfl
  | _ => cases hfound

omit [HttpCrate] in
theorem selected_course (tr : Trace) : selected (course tr) = selected tr := by
  unfold selected course
  rw [List.filterMap_filter]
  congr 1
  funext e
  rcases e with ⟨op,m⟩
  cases op <;> rfl

omit [HttpCrate] in
@[simp] theorem selected_nil : selected [] = [] := rfl

omit [HttpCrate] in
theorem selected_cons (e : Op × Moment) (tr : Trace) :
    selected (e::tr) = (found e.2 e.1).toList++selected tr := by
  unfold selected
  cases h : found e.2 e.1 <;> simp [h]

omit [HttpCrate] in
@[simp] theorem selected_append (tr tr' : Trace) : selected (tr++tr') = selected tr++selected tr' :=
  List.filterMap_append

omit [HttpCrate] in
@[simp] theorem found_incConnections (m : Moment) (u : UpstreamRef) : found m (.incConnections u) = none := rfl

omit [HttpCrate] in
@[simp] theorem found_request (m : Moment) (u : UpstreamRef) (out : OutRequest) (timeout : ℕ) :
    found m (.request u out timeout) = none := rfl

theorem FailedExchange.selected {fw : Forwarding} {u : UpstreamRef} {exchange : Trace}
    (h : FailedExchange fw u exchange) : selected exchange = [] := by
  cases h <;> rfl

theorem Course.selected {fw : Forwarding} {left attempt : ℕ} {tried : List String} {tr : Trace}
    {resp : Response} (h : Course fw left attempt tried tr resp) : selected tr = attempted tr := by
  induction h with
  | spent => rfl
  | nobody hnone => simp [selected_cons,found_selection,hnone]
  | again hsome hfailed hrest ih =>
    simp [selected_cons,found_selection,hsome,hfailed.selected,hfailed.attempted,ih]
  | answered hsome hbuild hreply => simp [selected_cons,found_selection,hsome]

omit [HttpCrate] in
theorem unconditional_cons {e : Op × Moment} {tr : Trace} (he : e.1.unconditional = true)
    (htr : selected tr = []) : ∀ e' ∈ e::tr, ∀ u, found e'.2 e'.1 = some u → e'.1.unconditional = true := by
  intro e' he' u hu
  rcases List.mem_cons.mp he' with rfl | hmem
  · exact he
  · rw [List.filterMap_eq_nil_iff.mp htr e' hmem] at hu
    cases hu

/-- A request that is attempted once selects with nobody excluded. -/
theorem Course.unconditional {fw : Forwarding} {left : ℕ} {tr : Trace} {resp : Response}
    (h : Course fw left 0 [] tr resp) (hsticky : fw.stickyVal = none) (honce : (attempted tr).length ≤ 1) :
    ∀ e ∈ tr, ∀ u, found e.2 e.1 = some u → e.1.unconditional = true := by
  have hfirst : (selection fw 0 []).unconditional = true := by simp [selection,hsticky,Op.unconditional]
  rw [← h.selected] at honce
  cases h with
  | spent => simp
  | nobody hnone => exact unconditional_cons hfirst rfl
  | again hsome hfailed hrest =>
    refine unconditional_cons hfirst (List.eq_nil_of_length_eq_zero ?_)
    rw [selected_cons,found_selection,hsome,List.length_append] at honce
    simp only [Option.toList_some,List.length_singleton] at honce
    omega
  | answered hsome hbuild hreply => exact unconditional_cons hfirst rfl

theorem UpgradeCourse.selected {ctx : ProxyContext} {req : Request} {remoteAddr : SocketAddr} {lb : ℕ}
    {tr : Trace} {resp : Response} (h : UpgradeCourse ctx req remoteAddr lb tr resp) :
    Proxy.selected tr = attempted tr ∧ ∀ e ∈ tr, ∀ u, found e.2 e.1 = some u → e.1.unconditional = true := by
  have hfound : ∀ {m : Moment} {u}, answer m (.select lb) = u → found m (.select lb) = u := fun h => h
  cases h with
  | nobody hnone =>
    exact ⟨by simp [selected_cons,hfound hnone,attempted,Op.attempt?],unconditional_cons rfl rfl⟩
  | unbuilt hsome hbuild =>
    exact ⟨by simp [selected_cons,hfound hsome,attempted,Op.attempt?],unconditional_cons rfl rfl⟩
  | refused hsome hbuild hreply =>
    exact ⟨by simp [selected_cons,hfound hsome,attempted,Op.attempt?],unconditional_cons rfl rfl⟩
  | answered hsome hbuild hreply =>
    exact ⟨by simp [selected_cons,hfound hsome,attempted,Op.attempt?],unconditional_cons rfl rfl⟩

theorem exchange_selected {x : Exchange}
    (hret : Returns answer (proxyRequest x.arrival.ctx x.arrival.req x.arrival.remoteAddr) x.trace x.response) :
    selected x.trace = attempted x.trace := by
  rw [← selected_course,← attempted_course]
  rcases proxyRequest_paths _ _ _ _ _ hret with hnone | ⟨lb,-,-,⟨-,hupgrade⟩ | ⟨-,-,start,hplain⟩⟩
  · rw [hnone]
    rfl
  · exact hupgrade.selected.1
  · exact hplain.selected

theorem exchange_unconditional {x : Exchange}
    (hret : Returns answer (proxyRequest x.arrival.ctx x.arrival.req x.arrival.remoteAddr) x.trace x.response)
    (hsticky : NonSticky x.arrival) (honce : (attempted x.trace).length ≤ 1) {e : Op × Moment} (he : e ∈ x.trace)
    {u : UpstreamRef} (hu : found e.2 e.1 = some u) : e.1.unconditional = true := by
  have hmem := mem_course_of_found he hu
  rcases proxyRequest_paths _ _ _ _ _ hret with hnone | ⟨lb,-,-,⟨-,hupgrade⟩ | ⟨-,-,start,hplain⟩⟩
  · rw [hnone] at hmem
    cases hmem
  · exact hupgrade.selected.2 e hmem u hu
  · rw [← attempted_course] at honce
    exact hplain.unconditional hsticky honce e hmem u hu

def TriedIn (lb : ℕ) (x : Exchange) : Prop := ∃ u ∈ attempted x.trace, u.lb = lb

def firsts (exchanges : List Exchange) : List UpstreamRef := exchanges.flatMap fun x => attempted x.trace

theorem served_threaded {s s' : Balancers} {exchanges : List Exchange} (h : ServedInTurn s exchanges s') :
    Threaded s (exchanges.flatMap Exchange.trace) s' := by
  induction exchanges generalizing s with
  | nil => exact h
  | cons x exchanges ih =>
    obtain ⟨-,m,hx,hrest⟩ := h
    exact threaded_append.mpr ⟨m,hx,ih hrest⟩

theorem served_returns {s s' : Balancers} {exchanges : List Exchange} (h : ServedInTurn s exchanges s') :
    ∀ x ∈ exchanges,
      Returns answer (proxyRequest x.arrival.ctx x.arrival.req x.arrival.remoteAddr) x.trace x.response := by
  induction exchanges generalizing s with
  | nil => simp
  | cons x exchanges ih =>
    obtain ⟨hx,m,-,hrest⟩ := h
    exact List.forall_mem_cons.mpr ⟨hx,ih hrest⟩

section Once

variable {exchanges : List Exchange} {lb : ℕ}

omit [HttpCrate] in
theorem tried_once {x : Exchange} (hx : TriedIn lb x → (attempted x.trace).length ≤ 1) :
    (attempted x.trace).filter (·.lb = lb) = (attempted x.trace).head?.toList.filter (·.lb = lb) := by
  cases hatt : attempted x.trace with
  | nil => rfl
  | cons u us =>
    by_cases htried : TriedIn lb x
    · have hlength := hx htried
      rw [hatt,List.length_cons] at hlength
      have hus : us = [] := List.eq_nil_of_length_eq_zero (by omega)
      rw [hus]
      rfl
    · have hother : ∀ v ∈ u::us, v.lb ≠ lb := fun v hv hlb => htried ⟨v,hatt ▸ hv,hlb⟩
      rw [List.filter_eq_nil_iff.mpr (by simpa using hother)]
      simp [hother u List.mem_cons_self]

omit [HttpCrate] in
theorem length_firsts (honce : ∀ x ∈ exchanges, TriedIn lb x → (attempted x.trace).length ≤ 1) :
    ((firsts exchanges).filter (·.lb = lb)).length ≤ exchanges.length := by
  induction exchanges with
  | nil => simp [firsts]
  | cons x exchanges ih =>
    obtain ⟨hx,hrest⟩ := List.forall_mem_cons.mp honce
    have hle := ih hrest
    have hone : ((attempted x.trace).filter (·.lb = lb)).length ≤ 1 := by
      rw [tried_once hx]
      refine (List.length_filter_le _ _).trans ?_
      cases (attempted x.trace).head? <;> simp
    simp only [firsts,List.flatMap_cons,List.filter_append,List.length_append,List.length_cons] at hle ⊢
    omega

omit [HttpCrate] in
theorem firstAttempts_eq (honce : ∀ x ∈ exchanges, TriedIn lb x → (attempted x.trace).length ≤ 1) (place : ℕ) :
    firstAttempts lb place exchanges =
      (((firsts exchanges).filter (·.lb = lb)).map fun u => some u.place).count (some place) := by
  induction exchanges with
  | nil => rfl
  | cons x exchanges ih =>
    obtain ⟨hx,hrest⟩ := List.forall_mem_cons.mp honce
    have hsplit : firstAttempts lb place (x::exchanges) = firstAttempts lb place exchanges+
        (((attempted x.trace).filter (·.lb = lb)).map fun u => some u.place).count (some place) := by
      unfold firstAttempts
      rw [List.countP_cons,tried_once hx]
      congr 1
      cases (attempted x.trace).head? with
      | none => rfl
      | some u =>
        by_cases hlb : u.lb = lb
        · by_cases hplace : u.place = place
          · simp [hlb,hplace]
          · simp [hlb,hplace]
        · simp [hlb]
    rw [hsplit,ih hrest]
    simp only [firsts,List.flatMap_cons,List.filter_append,List.map_append,List.count_append]
    omega

end Once

/-- Over requests that are not retried in it, first attempts are spread evenly over a healthy round-robin
pool. -/
theorem firstAttempts_level {s s' : Balancers} {exchanges : List Exchange} (hserved : ServedInTurn s exchanges s')
    {k : ℕ} (halgorithm : (s k).algorithm = .roundRobin) (hhealthy : ∀ u ∈ (s k).upstreams, u.healthy = true)
    (hsticky : ∀ x ∈ exchanges, TriedIn k x → NonSticky x.arrival)
    (honce : ∀ x ∈ exchanges, TriedIn k x → (attempted x.trace).length ≤ 1)
    (hwrap : (s k).rrCounter+exchanges.length ≤ 2^64) {i j : ℕ} (hj : j < (s k).upstreams.length) :
    firstAttempts k i exchanges ≤ firstAttempts k j exchanges+1 := by
  have hreturns := served_returns hserved
  have hselected : selected (exchanges.flatMap Exchange.trace) = firsts exchanges := by
    unfold selected firsts
    rw [List.filterMap_flatMap]
    exact List.flatMap_congr fun x hx => exchange_selected (hreturns x hx)
  have hopen : ∀ e ∈ exchanges.flatMap Exchange.trace, ∀ u, found e.2 e.1 = some u → u.lb = k →
      e.1.unconditional = true := by
    intro e he u hu hlb
    obtain ⟨x,hx,hmem⟩ := List.mem_flatMap.mp he
    have htried : TriedIn k x := by
      refine ⟨u,?_,hlb⟩
      rw [← exchange_selected (hreturns x hx)]
      exact List.mem_filterMap.mpr ⟨e,hmem,hu⟩
    exact exchange_unconditional (hreturns x hx) (hsticky x hx htried) (honce x hx htried) hmem hu
  have hturning : Turning (s k).upstreams.length (s k).rrCounter (s k) :=
    ⟨halgorithm,hhealthy,rfl,fun _ => rfl⟩
  have hrun := hturning.run (served_threaded hserved) hopen
  rw [hselected] at hrun
  have hlength := length_firsts honce
  rw [firstAttempts_eq honce,firstAttempts_eq honce,hrun (by omega)]
  exact count_level List.nodup_range _ _ (List.mem_range.mpr hj)

end Requests

section Samples

/-- Run a program over balancers that keep their state, with upstreams that always reply alike. -/
def serve (reply : UpstreamRef → OutRequest → Except SendError UpstreamResponse) {α : Type} :
    Handler α → Balancers → α × Trace × Balancers
  | .pure value, s => (value,[],s)
  | .call op next, s =>
    let m : Moment := ⟨0,true,true,s,reply⟩
    let r := serve reply (next (answer m op)) (respond s op (answer m op)).2
    (r.1,(op,m)::r.2.1,r.2.2)

theorem serve_returns (reply : UpstreamRef → OutRequest → Except SendError UpstreamResponse) {α : Type}
    (p : Handler α) (s : Balancers) :
    Returns answer p (serve reply p s).2.1 (serve reply p s).1 ∧
      Threaded s (serve reply p s).2.1 (serve reply p s).2.2 := by
  induction p generalizing s with
  | pure value => exact ⟨⟨rfl,rfl⟩,rfl⟩
  | call op next ih =>
    have hnext := ih (answer ⟨0,true,true,s,reply⟩ op) (respond s op (answer ⟨0,true,true,s,reply⟩ op)).2
    exact ⟨⟨_,_,rfl,hnext.1⟩,rfl,hnext.2⟩

def serveAll [HttpCrate] (reply : UpstreamRef → OutRequest → Except SendError UpstreamResponse) :
    List Arrival → Balancers → List Exchange × Balancers
  | [], s => ([],s)
  | r::arrivals, s =>
    let x := serve reply (proxyRequest r.ctx r.req r.remoteAddr) s
    let rest := serveAll reply arrivals x.2.2
    (⟨r,x.2.1,x.1⟩::rest.1,rest.2)

section

variable [HttpCrate] (reply : UpstreamRef → OutRequest → Except SendError UpstreamResponse)

theorem serveAll_served (arrivals : List Arrival) (s : Balancers) :
    ServedInTurn s (serveAll reply arrivals s).1 (serveAll reply arrivals s).2 := by
  induction arrivals generalizing s with
  | nil => rfl
  | cons r arrivals ih =>
    obtain ⟨hreturns,hthread⟩ := serve_returns reply (proxyRequest r.ctx r.req r.remoteAddr) s
    exact ⟨hreturns,_,hthread,ih _⟩

theorem serveAll_arrivals (arrivals : List Arrival) (s : Balancers) :
    (serveAll reply arrivals s).1.map Exchange.arrival = arrivals := by
  induction arrivals generalizing s with
  | nil => rfl
  | cons r arrivals ih => exact congrArg (r::·) (ih _)

end

def twoBackends : Balancers :=
  fun _ => LoadBalancer.fromUpstreams [⟨"http://a",1⟩,⟨"http://b",1⟩] .roundRobin

/-- The first backend times out, the second answers. -/
def firstSilent (u : UpstreamRef) (_ : OutRequest) : Except SendError UpstreamResponse :=
  if u.place = 0 then .error .timedOut else .ok (bare 200)

def retriedGet : Arrival := ⟨basicContext 1,basicRequest "GET" [] [],SocketAddr.unspecified⟩

theorem serveAll_nonSticky {reply : UpstreamRef → OutRequest → Except SendError UpstreamResponse}
    {arrivals : List Arrival} {s : Balancers} (h : ∀ r ∈ arrivals, r.ctx.sticky = none) :
    ∀ x ∈ (@serveAll visibleAscii reply arrivals s).1, @NonSticky visibleAscii x.arrival := by
  intro x hx
  have hmem := List.mem_map_of_mem (f := Exchange.arrival) hx
  rw [@serveAll_arrivals visibleAscii] at hmem
  unfold NonSticky
  rw [h _ hmem]
  rfl

/-- With one retry each, both requests are tried first at the backend that fails. -/
theorem firstAttempts_skewed :
    let run := @serveAll visibleAscii firstSilent [retriedGet,retriedGet] twoBackends
    @ServedInTurn visibleAscii twoBackends run.1 run.2 ∧ (twoBackends 0).algorithm = .roundRobin ∧
      (∀ u ∈ (twoBackends 0).upstreams, u.healthy = true) ∧ (∀ x ∈ run.1, @NonSticky visibleAscii x.arrival) ∧
      firstAttempts 0 0 run.1 = 2 ∧ firstAttempts 0 1 run.1 = 0 :=
  ⟨@serveAll_served visibleAscii _ _ _,rfl,by decide,serveAll_nonSticky (by simp [retriedGet,basicContext]),
    by decide +kernel,by decide +kernel⟩

def elsewhereGet : Arrival := { retriedGet with ctx := { basicContext 1 with router := ⟨[],some 1⟩ } }

/-- Only the second pool has a backend that times out. -/
def elsewhereSilent (u : UpstreamRef) (out : OutRequest) : Except SendError UpstreamResponse :=
  if u.lb = 1 then firstSilent u out else .ok (bare 200)

/-- Three requests that the pool answers, and one that is retried in another. -/
theorem firstAttempts_level_answered :
    let run := @serveAll visibleAscii elsewhereSilent [retriedGet,elsewhereGet,retriedGet,retriedGet] twoBackends
    run.1.map (fun x => (attempted x.trace).map fun u => (u.lb,u.place)) = [[(0,0)],[(1,0),(1,1)],[(0,1)],[(0,0)]] ∧
      firstAttempts 0 0 run.1 ≤ firstAttempts 0 1 run.1+1 := by
  have honce : ((@serveAll visibleAscii elsewhereSilent [retriedGet,elsewhereGet,retriedGet,retriedGet]
      twoBackends).1.all
        fun x => (attempted x.trace).all (fun u => u.lb ≠ 0) || decide ((attempted x.trace).length ≤ 1)) = true := by
    decide +kernel
  refine ⟨by decide +kernel,?_⟩
  refine @firstAttempts_level visibleAscii _ _ _ (@serveAll_served visibleAscii _ _ _) 0 rfl (by decide) ?_ ?_
    (by decide +kernel) 0 1 (by decide)
  · intro x hx _
    exact serveAll_nonSticky (by simp [retriedGet,elsewhereGet,basicContext]) x hx
  · rintro x hx ⟨u,hu,hlb⟩
    have hx' := List.all_eq_true.mp honce x hx
    rcases Bool.or_eq_true_iff.mp hx' with hother | hone
    · exact absurd hlb (of_decide_eq_true (List.all_eq_true.mp hother u hu))
    · exact of_decide_eq_true hone

end Samples

end Proxy
end OxiGate
