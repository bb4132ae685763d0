import OxiGate.Retries
import OxiGate.Tasks

/-! Concurrent requests over shared load balancers, and the connections counted for each
upstream. Every call is one atomic step; health checks may come in between, and the
future of a request may be dropped where it is suspended. -/
namespace OxiGate
namespace Accounting

open Http Net Lb BodyLimit Interaction Runs Tasks Proxy

abbrev Balancers := ℕ → LoadBalancer

def modifyUpstream (lb : LoadBalancer) (place : ℕ) (f : UpstreamRuntime → UpstreamRuntime) : LoadBalancer :=
  { lb with upstreams := lb.upstreams.modify place f }

/-- The answer and effect of a call. What the balancers do not decide, the world does. -/
def respond (s : Balancers) : (op : Op) → op.Ans → op.Ans × Balancers
  | .selectSticky lb stickyValue, _ =>
    let r := (s lb).selectSticky stickyValue
    (r.1.map (refer lb),Function.update s lb r.2)
  | .selectExcluding lb exclude, _ =>
    let r := (s lb).selectExcluding exclude
    (r.1.map (refer lb),Function.update s lb r.2)
  | .select lb, _ =>
    let r := (s lb).select
    (r.1.map (refer lb),Function.update s lb r.2)
  | .incConnections u, _ =>
    ((),Function.update s u.lb (modifyUpstream (s u.lb) u.place UpstreamRuntime.incConnections))
  | .decConnections u, _ =>
    ((),Function.update s u.lb (modifyUpstream (s u.lb) u.place UpstreamRuntime.decConnections))
  | .now, a => (a,s)
  | .tryAcquire _, a => (a,s)
  | .check _ _, a => (a,s)
  | .collectBody, a => (a,s)
  | .request _ _ _, a => (a,s)
  | .spawnTunnel _, a => (a,s)
  | .metric _, a => (a,s)
  | .log _, a => (a,s)

def awaits : Op → Bool
  | .collectBody => true
  | .request _ _ _ => true
  | _ => false

structure HealthCheck where
  lb : ℕ
  place : ℕ
  healthy : Bool

def HealthCheck.apply (c : HealthCheck) (s : Balancers) : Balancers :=
  Function.update s c.lb (modifyUpstream (s c.lb) c.place fun u => u.setHealthy c.healthy)

structure Arrival where
  ctx : ProxyContext
  req : Request
  remoteAddr : SocketAddr

def proxySetting [HttpCrate] : Setting Op.Ans Balancers Response Arrival HealthCheck where
  program r := proxyRequest r.ctx r.req r.remoteAddr
  respond := respond
  awaits := awaits
  change := HealthCheck.apply

def key (u : UpstreamRef) : ℕ × ℕ := (u.lb,u.place)

/-- An attempt lasts from its connection being counted to its being counted off. -/
def heldAfter : Op → List (ℕ × ℕ) → List (ℕ × ℕ)
  | .incConnections u, held => key u::held
  | .decConnections u, held => held.erase (key u)
  | _, held => held

def openAttempts (done : List Op) : List (ℕ × ℕ) := done.foldl (fun held op => heldAfter op held) []

def connections (s : Balancers) (k : ℕ × ℕ) : ℕ :=
  ((s k.1).upstreams[k.2]?.map UpstreamRuntime.activeConnections).getD 0

/-- What a request holds when it makes a call: an upstream's answer is awaited during the
attempt at that upstream and no other, the client's body outside any attempt. -/
def holds (size : ℕ → ℕ) : Op → List (ℕ × ℕ) → Prop
  | .incConnections u, held => held = [] ∧ u.place < size u.lb
  | .decConnections u, held => held = [key u]
  | .request u _ _, held => held = [key u]
  | .collectBody, held => held = []
  | _, _ => True

def fits (size : ℕ → ℕ) : (op : Op) → op.Ans → Prop
  | .selectSticky lb _, a => ∀ u, a = some u → u.lb = lb ∧ u.place < size lb
  | .selectExcluding lb _, a => ∀ u, a = some u → u.lb = lb ∧ u.place < size lb
  | .select lb, a => ∀ u, a = some u → u.lb = lb ∧ u.place < size lb
  | _, _ => True

def sized (size : ℕ → ℕ) (s : Balancers) : Prop := ∀ lb, (s lb).upstreams.length = size lb

theorem selectExcluding_upstreams (lb : LoadBalancer) (exclude : List String) :
    (lb.selectExcluding exclude).2.upstreams = lb.upstreams := by
  unfold LoadBalancer.selectExcluding
  dsimp only
  split
  · rfl
  · cases lb.algorithm with
    | roundRobin => rfl
    | weightedRoundRobin => dsimp only; split <;> rfl
    | leastConnections => rfl
    | powerOfTwoChoices => dsimp only; split <;> rfl

theorem selectSticky_upstreams (lb : LoadBalancer) (stickyValue : Option String) :
    (lb.selectSticky stickyValue).2.upstreams = lb.upstreams := by
  unfold LoadBalancer.selectSticky
  split
  · rfl
  · exact selectExcluding_upstreams lb []

/-- The pools are the same, apart from round-robin positions. -/
def SameUpstreams (s s' : Balancers) : Prop := ∀ lb, (s' lb).upstreams = (s lb).upstreams

theorem sameUpstreams_update {s : Balancers} {lb : ℕ} {lb' : LoadBalancer}
    (h : lb'.upstreams = (s lb).upstreams) : SameUpstreams s (Function.update s lb lb') := by
  intro k
  by_cases hk : k = lb
  · subst hk
    simpa using h
  · simp [hk]

theorem SameUpstreams.sized {size : ℕ → ℕ} {s s' : Balancers} (h : SameUpstreams s s')
    (hs : sized size s) : sized size s' := by
  intro lb
  rw [h lb]
  exact hs lb

theorem SameUpstreams.connections {s s' : Balancers} (h : SameUpstreams s s') (k : ℕ × ℕ) :
    connections s' k = connections s k := by
  unfold Accounting.connections
  rw [h k.1]

theorem sized_modify {size : ℕ → ℕ} {s : Balancers} (hs : sized size s) (lb place : ℕ)
    (f : UpstreamRuntime → UpstreamRuntime) :
    sized size (Function.update s lb (modifyUpstream (s lb) place f)) := by
  intro k
  by_cases hk : k = lb
  · subst hk
    simpa [modifyUpstream] using hs k
  · simpa [hk] using hs k

theorem connections_modify_ne {s : Balancers} {lb place : ℕ} {k : ℕ × ℕ} (hk : k ≠ (lb,place))
    (f : UpstreamRuntime → UpstreamRuntime) :
    connections (Function.update s lb (modifyUpstream (s lb) place f)) k = connections s k := by
  rcases k with ⟨l,i⟩
  unfold connections
  by_cases hl : l = lb
  · subst hl
    have hi : place ≠ i := by
      rintro rfl
      exact hk rfl
    simp [modifyUpstream,hi]
  · simp [hl]

theorem connections_modify_self {s : Balancers} {lb place : ℕ} {rt : UpstreamRuntime}
    (hget : (s lb).upstreams[place]? = some rt) (f : UpstreamRuntime → UpstreamRuntime) :
    connections (Function.update s lb (modifyUpstream (s lb) place f)) (lb,place) =
      (f rt).activeConnections := by
  simp [connections,modifyUpstream,hget]

theorem connections_modify {s : Balancers} (lb place : ℕ) {f : UpstreamRuntime → UpstreamRuntime}
    (hf : ∀ rt, (f rt).activeConnections = rt.activeConnections) (k : ℕ × ℕ) :
    connections (Function.update s lb (modifyUpstream (s lb) place f)) k = connections s k := by
  by_cases hk : k = (lb,place)
  · subst hk
    cases hget : (s lb).upstreams[place]? with
    | none => simp [connections,modifyUpstream,hget]
    | some rt => rw [connections_modify_self hget,hf,connections,hget]; rfl
  · exact connections_modify_ne hk f

theorem fits_refer {size : ℕ → ℕ} {s : Balancers} (hs : sized size s) {lb : ℕ} {selected : Option Placed}
    (hsound : ∀ u, selected = some u → (s lb).upstreams[u.2]? = some u.1) :
    ∀ u, selected.map (refer lb) = some u → u.lb = lb ∧ u.place < size lb := by
  intro u hu
  obtain ⟨v,hv,rfl⟩ := Option.map_eq_some_iff.mp hu
  refine ⟨rfl,?_⟩
  have hlt := (List.getElem?_eq_some_iff.mp (hsound v hv)).1
  rw [hs lb] at hlt
  exact hlt

theorem respond_sized {size : ℕ → ℕ} {s : Balancers} (hs : sized size s) (op : Op) (a : op.Ans) :
    sized size (respond s op a).2 := by
  cases op with
  | selectSticky lb v => exact (sameUpstreams_update (selectSticky_upstreams _ _)).sized hs
  | selectExcluding lb ex => exact (sameUpstreams_update (selectExcluding_upstreams _ _)).sized hs
  | select lb => exact (sameUpstreams_update (selectExcluding_upstreams _ _)).sized hs
  | incConnections u => exact sized_modify hs _ _ _
  | decConnections u => exact sized_modify hs _ _ _
  | _ => exact hs

theorem respond_fits {size : ℕ → ℕ} {s : Balancers} (hs : sized size s) (op : Op) (a : op.Ans) :
    fits size op (respond s op a).1 := by
  cases op with
  | selectSticky lb v => exact fits_refer hs fun u hu => (LoadBalancer.selectSticky_sound hu).1
  | selectExcluding lb ex => exact fits_refer hs fun u hu => (LoadBalancer.selectExcluding_sound hu).1
  | select lb => exact fits_refer hs fun u hu => (LoadBalancer.selectExcluding_sound hu).1
  | _ => trivial

theorem connections_inc {size : ℕ → ℕ} {s : Balancers} (hs : sized size s) {u : UpstreamRef}
    (hplace : u.place < size u.lb) (k : ℕ × ℕ) :
    connections (Function.update s u.lb (modifyUpstream (s u.lb) u.place UpstreamRuntime.incConnections)) k =
      connections s k+[key u].count k := by
  by_cases hk : k = key u
  · subst hk
    rw [← hs u.lb] at hplace
    have hget := List.getElem?_eq_getElem hplace
    have hbefore : connections s (key u) = (s u.lb).upstreams[u.place].activeConnections := by
      simp [connections,key,hget]
    rw [hbefore,List.count_singleton_self]
    exact connections_modify_self hget _
  · rw [connections_modify_ne hk,List.count_cons_of_ne (Ne.symm hk)]
    rfl

/-- A counter that is not zero goes down by one, without wrapping around. -/
theorem connections_dec {s : Balancers} {u : UpstreamRef} (hpos : 0 < connections s (key u)) (k : ℕ × ℕ) :
    connections (Function.update s u.lb (modifyUpstream (s u.lb) u.place UpstreamRuntime.decConnections)) k+
      [key u].count k = connections s k := by
  by_cases hk : k = key u
  · subst hk
    cases hget : (s u.lb).upstreams[u.place]? with
    | none =>
      have hzero : connections s (key u) = 0 := by simp [connections,key,hget]
      omega
    | some rt =>
      have hbefore : connections s (key u) = rt.activeConnections := by simp [connections,key,hget]
      have hne : rt.activeConnections ≠ 0 := by omega
      have hafter := connections_modify_self hget UpstreamRuntime.decConnections
      simp only [UpstreamRuntime.decConnections,if_neg hne] at hafter
      rw [List.count_singleton_self,hbefore]
      change connections _ (u.lb,u.place)+1 = _
      omega
  · rw [connections_modify_ne hk,List.count_cons_of_ne (Ne.symm hk)]
    rfl

theorem respond_connections {size : ℕ → ℕ} {s : Balancers} (hs : sized size s) (op : Op) (a : op.Ans)
    {held : List (ℕ × ℕ)} (hholds : holds size op held)
    (henough : ∀ k, held.count k ≤ connections s k) (k : ℕ × ℕ) :
    connections (respond s op a).2 k+held.count k = connections s k+(heldAfter op held).count k := by
  cases op with
  | selectSticky lb v =>
    exact congrArg (·+held.count k) ((sameUpstreams_update (selectSticky_upstreams _ _)).connections k)
  | selectExcluding lb ex =>
    exact congrArg (·+held.count k) ((sameUpstreams_update (selectExcluding_upstreams _ _)).connections k)
  | select lb =>
    exact congrArg (·+held.count k) ((sameUpstreams_update (selectExcluding_upstreams _ _)).connections k)
  | incConnections u =>
    obtain ⟨rfl,hplace⟩ := hholds
    exact connections_inc hs hplace k
  | decConnections u =>
    have hheld : held = [key u] := hholds
    subst hheld
    have hpos : 0 < connections s (key u) := by
      have hone := henough (key u)
      rw [List.count_singleton_self] at hone
      exact hone
    have hclosed : heldAfter (.decConnections u) [key u] = [] := List.erase_cons_head ..
    rw [hclosed]
    exact connections_dec hpos k
  | _ => rfl

def discipline [HttpCrate] (size : ℕ → ℕ) : Discipline proxySetting (ℕ × ℕ) where
  level := connections
  after := heldAfter
  guard := holds size
  sane := sized size
  fits := fits size
  sane_respond := fun op a hs => respond_sized hs op a
  fits_respond := fun op a hs => respond_fits hs op a
  level_respond := fun op a _ hs hholds henough => respond_connections hs op a hholds henough
  sane_change := fun c hs => sized_modify hs c.lb c.place _
  level_change := fun _ c => connections_modify c.lb c.place fun _ => rfl

section Requests

variable [HttpCrate] {size : ℕ → ℕ} {held : List (ℕ × ℕ)}

/-- The program ends the attempts it begins. -/
def Balanced (size : ℕ → ℕ) (held : List (ℕ × ℕ)) {β : Type} (p : Handler β) : Prop :=
  (discipline size).Keeps p held fun _ held' => held' = held

theorem Balanced.bind {β γ : Type} {p : Handler β} {f : β → Handler γ} (hp : Balanced size held p)
    (hf : ∀ b, Balanced size held (f b)) : Balanced size held (p >>= f) := by
  refine Discipline.Keeps.bind hp ?_
  intro b held' h
  subst h
  exact hf b

theorem balanced_pure {β : Type} (b : β) : Balanced size held (pure b) := rfl

theorem balanced_perform {op : Op} (hholds : holds size op held) (hafter : heldAfter op held = held) :
    Balanced size held (perform op) := ⟨hholds,fun _ _ => hafter⟩

theorem balanced_now : Balanced size held (perform .now) := balanced_perform trivial rfl

theorem balanced_metric (m : Metric) : Balanced size held (perform (.metric m)) :=
  balanced_perform trivial rfl

theorem balanced_log (e : LogEntry) : Balanced size held (perform (.log e)) := balanced_perform trivial rfl

theorem reject_balanced (method : String) (status : ℕ) (msg : String) :
    Balanced size held (reject method status msg) :=
  (balanced_metric _).bind fun _ => balanced_pure _

theorem countAnswer_balanced (method : String) (status : ℕ) (address : String) (start : ℕ) :
    Balanced size held (countAnswer method status address start) :=
  balanced_now.bind fun _ => (balanced_metric _).bind fun _ => (balanced_metric _).bind fun _ => balanced_pure _

theorem allAttemptsFailed_balanced (fw : Forwarding) (lastError : Option String) :
    Balanced size held (allAttemptsFailed fw lastError) :=
  (balanced_log _).bind fun _ => reject_balanced ..

theorem attemptProxy_balanced {a : ProxyAttempt} (hheld : held = [key a.upstream]) :
    Balanced size held (attemptProxy a) := by
  unfold attemptProxy
  split
  · exact balanced_pure _
  · exact Balanced.bind (balanced_perform hheld rfl) fun _ => balanced_pure _

theorem succeed_balanced (fw : Forwarding) (attempt : ℕ) (u : UpstreamRef) (response : Response) :
    Balanced size held (succeed fw attempt u response) := by
  refine (countAnswer_balanced ..).bind fun _ => ?_
  by_cases hlog : fw.ctx.accessLog = true
  · simp only [hlog,if_true]
    exact (balanced_log _).bind fun _ => balanced_pure _
  · simp only [hlog]
    exact balanced_pure _

theorem selectUpstream_keeps (fw : Forwarding) (attempt : ℕ) (tried : List String) :
    (discipline size).Keeps (selectUpstream fw attempt tried) []
      fun selected held => held = [] ∧ ∀ u, selected = some u → u.place < size u.lb := by
  unfold selectUpstream
  split
  · refine ⟨trivial,fun selected hfits => ⟨rfl,?_⟩⟩
    intro u hu
    obtain ⟨hlb,hplace⟩ := hfits u hu
    exact hlb ▸ hplace
  · refine ⟨trivial,fun _ _ => ⟨trivial,fun selected hfits => ⟨rfl,?_⟩⟩⟩
    intro u hu
    obtain ⟨hlb,hplace⟩ := hfits u hu
    exact hlb ▸ hplace

/-- Counting the connection in and off around a program that leaves the attempt open. -/
theorem counted_balanced {β γ : Type} {u : UpstreamRef} (hu : u.place < size u.lb) {p : Handler β}
    {f : β → Handler γ} (hp : Balanced size [key u] p) (hf : ∀ b, Balanced size [] (f b)) :
    Balanced size [] (do
      perform (.incConnections u)
      let result ← p
      perform (.decConnections u)
      f result) := by
  refine Discipline.keeps_perform_bind.mpr ⟨⟨rfl,hu⟩,fun _ _ => ?_⟩
  refine Discipline.Keeps.bind hp ?_
  intro b held' h
  subst h
  have hclosed : (discipline size).after (.decConnections u) [key u] = [] := List.erase_cons_head ..
  refine Discipline.keeps_perform_bind.mpr ⟨rfl,fun _ _ => ?_⟩
  rw [hclosed]
  exact hf b

theorem countedAttempt_balanced (fw : Forwarding) {u : UpstreamRef} (hu : u.place < size u.lb) :
    Balanced size [] (countedAttempt fw u) := by
  have hinside : Balanced size [key u] (do
      perform (.metric (.upstreamConnectionsInc u.address))
      attemptProxy (proxyAttempt fw.ctx fw.parts fw.remoteAddr fw.body false u)) :=
    (balanced_metric _).bind fun _ => attemptProxy_balanced rfl
  exact counted_balanced hu hinside fun _ => (balanced_metric _).bind fun _ => balanced_pure _

theorem attemptLoop_balanced (fw : Forwarding) (left attempt : ℕ) (tried : List String)
    (lastError : Option String) : Balanced size [] (attemptLoop fw left attempt tried lastError) := by
  induction left generalizing attempt tried lastError with
  | zero => exact allAttemptsFailed_balanced fw lastError
  | succ left ih =>
    refine Discipline.Keeps.bind (selectUpstream_keeps fw attempt tried) ?_
    rintro selected held ⟨rfl,hplace⟩
    cases selected with
    | none => exact allAttemptsFailed_balanced fw lastError
    | some u =>
      refine (countedAttempt_balanced fw (hplace u rfl)).bind ?_
      intro result
      cases result with
      | ok response => exact succeed_balanced fw attempt u response
      | error e => exact (balanced_log _).bind fun _ => ih ..

theorem proxyPlain_balanced (ctx : ProxyContext) (req : Request) (remoteAddr : SocketAddr) (lb start : ℕ) :
    Balanced size [] (proxyPlain ctx req remoteAddr lb start) := by
  have hcollect : Balanced size [] (perform .collectBody) := balanced_perform rfl rfl
  refine balanced_now.bind fun now => hcollect.bind fun _ => ?_
  split
  · exact attemptLoop_balanced ..
  · exact reject_balanced ..
  · exact reject_balanced ..
  · exact (balanced_log _).bind fun _ => balanced_pure _

theorem proxyUpgrade_balanced (ctx : ProxyContext) (req : Request) (remoteAddr : SocketAddr)
    (lb start : ℕ) : Balanced size [] (proxyUpgrade ctx req remoteAddr lb start) := by
  refine ⟨trivial,fun selected hfits => ?_⟩
  cases selected with
  | none => exact balanced_pure _
  | some u =>
    obtain ⟨hlb,hplace⟩ := hfits u rfl
    refine counted_balanced (hlb ▸ hplace) (attemptProxy_balanced rfl) fun result => ?_
    cases result with
    | error e => exact balanced_pure _
    | ok response =>
      refine (countAnswer_balanced ..).bind fun _ => ?_
      by_cases hswitch : response.status = 101
      · simp only [hswitch,if_true]
        exact Balanced.bind (balanced_perform trivial rfl) fun _ => balanced_pure _
      · simp only [hswitch,if_false]
        exact balanced_pure _

theorem proxyRequest_balanced (ctx : ProxyContext) (req : Request) (remoteAddr : SocketAddr) :
    Balanced size [] (proxyRequest ctx req remoteAddr) := by
  have hpermit : Balanced size [] (acquirePermit ctx) := by
    unfold acquirePermit
    split
    · exact balanced_perform trivial rfl
    · exact balanced_pure _
  have hrate : Balanced size [] (checkRate ctx remoteAddr.ip) := by
    unfold checkRate
    split
    · exact Balanced.bind (balanced_perform trivial rfl) fun _ =>
        (balanced_metric _).bind fun _ => balanced_pure _
    · exact balanced_pure _
  refine balanced_now.bind fun start => hpermit.bind fun permitted => ?_
  split
  · exact reject_balanced ..
  split
  · exact reject_balanced ..
  refine hrate.bind fun withinRate => ?_
  split
  · exact reject_balanced ..
  split
  · exact reject_balanced ..
  split
  · exact proxyUpgrade_balanced ..
  · exact proxyPlain_balanced ..

end Requests

abbrev ProxySystem := System Op.Ans Balancers Response

abbrev Event := Label Op.Ans Arrival HealthCheck

/-- The upstream whose answer a request is suspended on. -/
def awaiting (t : Task Op.Ans Response) : Option (ℕ × ℕ) :=
  match t.rest with
  | .call (.request u _ _) _ => some (key u)
  | _ => none

def attemptsInFlight (s : ProxySystem) (k : ℕ × ℕ) : ℕ :=
  (s.tasks.map fun t => (openAttempts t.done).count k).sum

section Runs

variable [HttpCrate]

/-- The counters are right. While every request is suspended, they count the requests that
await an answer; a connection about to be counted off has been counted in. -/
structure Exact (s : ProxySystem) : Prop where
  counted : ∀ k, connections s.shared k = attemptsInFlight s k
  suspended : (∀ t ∈ s.tasks, proxySetting.canDrop t = true) →
    ∀ k, connections s.shared k = s.tasks.countP fun t => awaiting t = some k
  noUnderflow : ∀ t ∈ s.tasks, ∀ u next, t.rest = .call (.decConnections u) next →
    0 < connections s.shared (key u)
  idle : s.tasks = [] → ∀ k, connections s.shared k = 0

/-- The counters are right in every state of the run. -/
def ExactThroughout (pools : Balancers) (events : List Event) : Prop :=
  ∀ front back s, events = front++back → exec proxySetting.step ⟨pools,[]⟩ front = some s → Exact s

/-- No request of the run is dropped while it awaits an upstream's answer. -/
def NoneAbandoned (pools : Balancers) (events : List Event) : Prop :=
  ∀ front i back s t, events = front++.cancel i::back → exec proxySetting.step ⟨pools,[]⟩ front = some s →
    s.tasks[i]? = some t → awaiting t = none

variable {size : ℕ → ℕ}

/-- A suspended request has an attempt open exactly if it awaits an upstream's answer. -/
theorem openAttempts_of_suspended {t : Task Op.Ans Response} (horderly : (discipline size).Orderly t)
    (hdrop : proxySetting.canDrop t = true) : openAttempts t.done = (awaiting t).toList := by
  rcases t with ⟨rest,done⟩
  cases rest with
  | pure response =>
    have hdone : done = [] := by simpa [Setting.canDrop] using hdrop
    subst hdone
    rfl
  | call op next =>
    have hholds : holds size op (openAttempts done) := horderly.1
    by_cases hwait : awaits op = true
    · cases op with
      | request u out timeout => exact hholds
      | collectBody => exact hholds
      | _ => cases hwait
    · have hdone : done = [] := by
        have hcases : done.isEmpty = true ∨ awaits op = true := by
          simpa [Setting.canDrop,proxySetting] using hdrop
        rcases hcases with hempty | hsuspended
        · simpa using hempty
        · exact absurd hsuspended hwait
      subst hdone
      cases op with
      | request u out timeout => exact absurd rfl hwait
      | _ => rfl

theorem attemptsInFlight_of_suspended {tasks : List (Task Op.Ans Response)}
    (horderly : ∀ t ∈ tasks, (discipline size).Orderly t)
    (hdrop : ∀ t ∈ tasks, proxySetting.canDrop t = true) (k : ℕ × ℕ) :
    (tasks.map fun t => (openAttempts t.done).count k).sum = tasks.countP fun t => awaiting t = some k := by
  induction tasks with
  | nil => rfl
  | cons t tasks ih =>
    have hrest := ih (fun u hu => horderly u (List.mem_cons_of_mem _ hu))
      fun u hu => hdrop u (List.mem_cons_of_mem _ hu)
    have hopen := openAttempts_of_suspended (horderly t (by simp)) (hdrop t (by simp))
    rw [List.map_cons,List.sum_cons,hrest,hopen,List.countP_cons,Nat.add_comm]
    cases awaiting t with
    | none => simp
    | some k' =>
      by_cases hk : k' = k
      · simp [hk]
      · simp [hk]

theorem exact_of_accounted {s : ProxySystem} (hs : (discipline size).Disciplined s)
    (hacc : (discipline size).Accounted s) : Exact s := by
  have hcounted : ∀ k, connections s.shared k = attemptsInFlight s k := hacc
  refine ⟨hcounted,?_,?_,?_⟩
  · intro hdrop k
    rw [hcounted k]
    exact attemptsInFlight_of_suspended hs.orderly hdrop k
  · rintro ⟨rest,done⟩ ht u next rfl
    have hholds : openAttempts done = [key u] := (hs.orderly _ ht).1
    obtain ⟨i,hi⟩ := List.mem_iff_getElem?.mp ht
    have hle : (openAttempts done).count (key u) ≤ attemptsInFlight s (key u) :=
      Discipline.count_le_inFlight (d := discipline size) hi (key u)
    rw [hholds,List.count_singleton_self] at hle
    rw [hcounted]
    omega
  · intro hidle k
    rw [hcounted,attemptsInFlight,hidle]
    rfl

theorem arrivals_balanced (r : Arrival) :
    (discipline size).Keeps (proxySetting.program r) [] fun _ held => held = [] :=
  proxyRequest_balanced r.ctx r.req r.remoteAddr

theorem start_disciplined (pools : Balancers) :
    (discipline fun lb => (pools lb).upstreams.length).Disciplined ⟨pools,[]⟩ := by
  refine ⟨fun _ => rfl,?_⟩
  intro t ht
  cases ht

theorem reachable_disciplined {pools : Balancers} {events : List Event} {s : ProxySystem}
    (hrun : exec proxySetting.step ⟨pools,[]⟩ events = some s) :
    (discipline fun lb => (pools lb).upstreams.length).Disciplined s :=
  (start_disciplined pools).run arrivals_balanced hrun

theorem noneAbandoned_iff {pools : Balancers} {events : List Event} {s : ProxySystem}
    (hrun : exec proxySetting.step ⟨pools,[]⟩ events = some s) :
    NoneAbandoned pools events ↔
      (discipline fun lb => (pools lb).upstreams.length).DropsNothing ⟨pools,[]⟩ events := by
  have hopen : ∀ front i back s' t, events = front++.cancel i::back →
      exec proxySetting.step ⟨pools,[]⟩ front = some s' → s'.tasks[i]? = some t →
      openAttempts t.done = (awaiting t).toList := by
    intro front i back s' t heq hfront htask
    subst heq
    rw [exec_append,hfront] at hrun
    obtain ⟨m,hstep,-⟩ := exec_cons.mp hrun
    obtain ⟨t',htask',hdrop,-⟩ := Setting.step_cancel hstep
    rw [htask] at htask'
    cases htask'
    have horderly := (reachable_disciplined hfront).orderly t (List.mem_of_getElem? htask)
    exact openAttempts_of_suspended horderly hdrop
  constructor
  · intro hnone front i back s' t heq hfront htask
    have hawaiting := hnone front i back s' t heq hfront htask
    have hheld := hopen front i back s' t heq hfront htask
    rw [hawaiting] at hheld
    exact hheld
  · intro hdrops front i back s' t heq hfront htask
    have hheld : openAttempts t.done = [] := hdrops front i back s' t heq hfront htask
    rw [hopen front i back s' t heq hfront htask] at hheld
    simpa using hheld

/-- The counters are right all along exactly the runs that drop no request while it awaits
an upstream's answer. -/
theorem connections_exact_iff {pools : Balancers} (hfresh : ∀ k, connections pools k = 0)
    {events : List Event} {s : ProxySystem}
    (hrun : exec proxySetting.step ⟨pools,[]⟩ events = some s) :
    ExactThroughout pools events ↔ NoneAbandoned pools events := by
  have hstart : (discipline fun lb => (pools lb).upstreams.length).Accounted ⟨pools,[]⟩ := hfresh
  have hiff := Discipline.accounted_iff arrivals_balanced hstart (start_disciplined pools) hrun
  rw [noneAbandoned_iff hrun,← hiff]
  constructor
  · intro hexact front back s' heq hfront
    exact (hexact front back s' heq hfront).counted
  · intro hacc front back s' heq hfront
    exact exact_of_accounted (reachable_disciplined hfront) (hacc front back s' heq hfront)

end Runs

section Samples

theorem connections_fromUpstreams (pool : ℕ → List Upstream) (algorithm : ℕ → LoadBalancingAlgorithm)
    (k : ℕ × ℕ) : connections (fun lb => LoadBalancer.fromUpstreams (pool lb) (algorithm lb)) k = 0 := by
  simp only [connections,LoadBalancer.fromUpstreams,List.getElem?_map]
  cases (pool k.1)[k.2]? with
  | none => rfl
  | some u => rfl

def onePool : Balancers := fun _ => LoadBalancer.fromUpstreams [⟨"http://10.0.0.1:80",1⟩] .roundRobin

def getArrival : Arrival := ⟨basicContext 0,basicRequest "GET" [] [],⟨.v4 (ipv4 192 0 2 7),4000⟩⟩

def bareWorld : (op : Op) → op.Ans
  | .now => (0:ℕ)
  | .tryAcquire _ => true
  | .check _ _ => true
  | .selectSticky _ _ => none
  | .selectExcluding _ _ => none
  | .select _ => none
  | .request _ _ _ => .ok (bare 200)
  | .collectBody => ()
  | .incConnections _ => ()
  | .decConnections _ => ()
  | .spawnTunnel _ => ()
  | .metric _ => ()
  | .log _ => ()

def getUpTo (calls : ℕ) : List Event := .spawn getArrival::List.replicate calls (.advance 0 bareWorld)

/-- Dropped at its sixth call, the request has its connection counted for good. -/
theorem dropped_attempt_counted : ∃ s,
    exec (@proxySetting visibleAscii).step ⟨onePool,[]⟩ (getUpTo 6++[.cancel 0]) = some s ∧
      s.tasks.length = 0 ∧ connections s.shared (0,0) = 1 := by
  have hshown : (exec (@proxySetting visibleAscii).step ⟨onePool,[]⟩ (getUpTo 6++[.cancel 0])).map
      (fun s => (s.tasks.length,connections s.shared (0,0))) = some (0,1) := by decide +kernel
  obtain ⟨s,hs,hpair⟩ := Option.map_eq_some_iff.mp hshown
  exact ⟨s,hs,congrArg Prod.fst hpair,congrArg Prod.snd hpair⟩

/-- The same request, run to its end. -/
theorem connections_exact_get : @ExactThroughout visibleAscii onePool (getUpTo 13++[.retire 0]) := by
  have hruns : (exec (@proxySetting visibleAscii).step ⟨onePool,[]⟩ (getUpTo 13++[.retire 0])).isSome = true := by
    decide +kernel
  obtain ⟨s,hs⟩ := Option.isSome_iff_exists.mp hruns
  refine (@connections_exact_iff visibleAscii onePool (connections_fromUpstreams _ _) _ s hs).mpr ?_
  intro front i back s' t heq
  have hmem : (.cancel i : Event) ∈ getUpTo 13++[.retire 0] := by
    rw [heq]
    simp
  simp [getUpTo] at hmem

end Samples

end Accounting
end OxiGate
