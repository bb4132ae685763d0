import OxiGate.Accounting
import OxiGate.Histories

/-! Health checks, requests and reloads over shared load balancers. A reload builds new
balancers; those of earlier routers stay with whoever still holds them. The probes made
are recorded. -/
namespace OxiGate
namespace Health

open Lb Runs Histories Proxy Accounting

structure ThresholdState where
  fails : ℕ
  successes : ℕ
  deriving DecidableEq, Repr

/-- Count one more outcome; the counters are `u32`. -/
def ThresholdState.note (entry : ThresholdState) (healthyNow : Bool) : ThresholdState :=
  if healthyNow then ⟨0,(entry.successes+1) % 2^32⟩ else ⟨(entry.fails+1) % 2^32,0⟩

structure Probe where
  target : ℕ × ℕ
  address : String
  healthyNow : Bool
  cfg : HealthCheckConfig
  deriving DecidableEq

/-- The task that runs the health checks: its counters, where an absent entry counts
nothing, and what is left of the round. -/
structure HealthTask where
  state : String → ThresholdState
  healthCfg : HealthCheckConfig
  pending : List (ℕ × ℕ)

structure State (F : Type) where
  balancers : Balancers
  allocated : ℕ
  router : Router
  sharedCfg : HealthCheckConfig
  /-- A reload that has written its health inputs, but not yet its runtime. -/
  incoming : Option (Config F)
  task : HealthTask
  history : List Probe

inductive Event (F : Type)
  | round
  | probe (healthyNow : Bool)
  | call (op : Op) (a : op.Ans)
  | reloadHealth (config : Config F)
  | reloadRuntime

variable {F : Type}

def Event.isReload : Event F → Bool
  | .reloadHealth _ => true
  | .reloadRuntime => true
  | _ => false

/-- Build the runtime of a configuration and make it the current one. -/
def install (s : State F) (config : Config F) : State F :=
  { s with
    balancers := fun k =>
      if k < s.allocated then s.balancers k
      else (Router.balancers config)[k-s.allocated]?.getD ⟨[],.roundRobin,0⟩
    allocated := s.allocated+(Router.balancers config).length
    router := (Router.fromConfig config).shift s.allocated }

def start (config : Config F) : State F :=
  install
    { balancers := fun _ => ⟨[],.roundRobin,0⟩
      allocated := 0
      router := ⟨[],none⟩
      sharedCfg := config.healthCheck
      incoming := none
      task := ⟨fun _ => ⟨0,0⟩,config.healthCheck,[]⟩
      history := [] }
    config

/-- The upstreams in the order a round probes them. -/
def targets (router : Router) (balancers : Balancers) : List (ℕ × ℕ) :=
  router.allLbs.flatMap fun lb => (List.range (balancers lb).upstreams.length).map fun i => (lb,i)

/-- The flag of an upstream after a probe, given the counters with that probe. -/
def judge (cfg : HealthCheckConfig) (entry : ThresholdState) (healthyNow healthy : Bool) : Bool :=
  if healthyNow then
    if !healthy && decide (max cfg.healthyThreshold.toNat 1 ≤ entry.successes) then true else healthy
  else if healthy && decide (max cfg.unhealthyThreshold.toNat 1 ≤ entry.fails) then false else healthy

def probed (s : State F) (t : ℕ × ℕ) (rest : List (ℕ × ℕ)) (u : UpstreamRuntime) (healthyNow : Bool) :
    State F :=
  let entry := (s.task.state u.address).note healthyNow
  { s with
    balancers := HealthCheck.apply ⟨t.1,t.2,judge s.task.healthCfg entry healthyNow u.healthy⟩ s.balancers
    task := { s.task with state := Function.update s.task.state u.address entry, pending := rest }
    history := s.history++[⟨t,u.address,healthyNow,s.task.healthCfg⟩] }

def upstreamAt (s : State F) (t : ℕ × ℕ) : Option UpstreamRuntime := (s.balancers t.1).upstreams[t.2]?

def step (s : State F) : Event F → Option (State F)
  | .round =>
    if s.task.pending.isEmpty then
      some { s with task :=
        { s.task with healthCfg := s.sharedCfg, pending := targets s.router s.balancers } }
    else none
  | .probe healthyNow =>
    match s.task.pending with
    | [] => none
    | t::rest => (upstreamAt s t).map fun u => probed s t rest u healthyNow
  | .call op a => some { s with balancers := (respond s.balancers op a).2 }
  | .reloadHealth config =>
    if s.incoming.isSome then none
    else some { s with sharedCfg := config.healthCheck, incoming := some config }
  | .reloadRuntime => s.incoming.map fun config => { install s config with incoming := none }

/-- The probes so far that count for a threshold end with so many of one outcome. -/
def streak (outcome : Bool) (among : Probe → Bool) (h : List Probe) : ℕ :=
  trailing (fun p => p.healthyNow == outcome) (h.filter among)

def toAddress (address : String) (p : Probe) : Bool := p.address = address

def ofUpstream (t : ℕ × ℕ) (p : Probe) : Bool := p.target = t

def threshold (cfg : HealthCheckConfig) (outcome : Bool) : ℕ :=
  max (if outcome then cfg.healthyThreshold else cfg.unhealthyThreshold).toNat 1

/-- The last probe is of this upstream, and with it the counter of its address has reached
the threshold. -/
def Reached (outcome : Bool) (t : ℕ × ℕ) (h : List Probe) : Prop :=
  ∃ p, h.getLast? = some p ∧ p.target = t ∧
    threshold p.cfg outcome ≤ streak outcome (toAddress p.address) h % 2^32

@[simp] theorem streak_nil (outcome : Bool) (among : Probe → Bool) : streak outcome among [] = 0 := rfl

theorem streak_concat (outcome : Bool) (among : Probe → Bool) (h : List Probe) (p : Probe) :
    streak outcome among (h++[p]) =
      if among p then if p.healthyNow = outcome then streak outcome among h+1 else 0
      else streak outcome among h := by
  unfold streak
  rw [trailing_filter_concat]
  simp only [beq_iff_eq]

theorem streak_le_length (outcome : Bool) (among : Probe → Bool) (h : List Probe) :
    streak outcome among h ≤ h.length :=
  (trailing_le_length _ _).trans (List.length_filter_le among h)

theorem streak_append_of_all {outcome : Bool} {x : List Probe} (hx : ∀ p ∈ x, p.healthyNow = outcome)
    (among : Probe → Bool) (h : List Probe) :
    streak outcome among (h++x) = streak outcome among h+x.countP among := by
  unfold streak
  rw [List.filter_append,trailing_append_of_all,List.countP_eq_length_filter]
  intro p hp
  simpa using hx p (List.mem_of_mem_filter hp)

theorem streak_of_all_ne {outcome : Bool} {h : List Probe} (hh : ∀ p ∈ h, p.healthyNow ≠ outcome)
    (among : Probe → Bool) : streak outcome among h = 0 := by
  induction h using List.reverseRecOn with
  | nil => rfl
  | append_singleton h p ih =>
    rw [streak_concat,ih fun q hq => hh q (List.mem_append_left _ hq)]
    simp [hh p (by simp)]

theorem one_le_threshold (cfg : HealthCheckConfig) (outcome : Bool) : 1 ≤ threshold cfg outcome :=
  le_max_right _ _

theorem threshold_lt (cfg : HealthCheckConfig) (outcome : Bool) : threshold cfg outcome < 2^32 :=
  max_lt (UInt32.toNat_lt _) (by decide)

theorem reached_concat {outcome : Bool} {t : ℕ × ℕ} {h : List Probe} {p : Probe} :
    Reached outcome t (h++[p]) ↔ p.target = t ∧
      threshold p.cfg outcome ≤ streak outcome (toAddress p.address) (h++[p]) % 2^32 := by
  simp [Reached]

def ThresholdState.count (entry : ThresholdState) (outcome : Bool) : ℕ :=
  if outcome then entry.successes else entry.fails

/-- A probe settles the flag when its outcome has reached its threshold, and leaves it
alone otherwise. -/
theorem judge_eq (cfg : HealthCheckConfig) (entry : ThresholdState) (healthyNow healthy : Bool) :
    judge cfg entry healthyNow healthy =
      if threshold cfg healthyNow ≤ entry.count healthyNow then healthyNow else healthy := by
  cases healthyNow <;> cases healthy <;> simp [judge,threshold,ThresholdState.count]

theorem count_note (entry : ThresholdState) (healthyNow outcome : Bool) :
    (entry.note healthyNow).count outcome =
      if healthyNow = outcome then (entry.count outcome+1) % 2^32 else 0 := by
  cases healthyNow <;> cases outcome <;> simp [ThresholdState.note,ThresholdState.count]

def mark (u : UpstreamRuntime) : String × Bool := (u.address,u.healthy)

def marks (s : Balancers) (t : ℕ × ℕ) : Option (String × Bool) := (s t.1).upstreams[t.2]?.map mark

theorem marks_sameUpstreams {s s' : Balancers} (h : SameUpstreams s s') (t : ℕ × ℕ) :
    marks s' t = marks s t := by
  unfold Health.marks
  rw [h t.1]

theorem marks_modify (s : Balancers) (lb place : ℕ) (f : UpstreamRuntime → UpstreamRuntime) (t : ℕ × ℕ) :
    marks (Function.update s lb (modifyUpstream (s lb) place f)) t =
      (s t.1).upstreams[t.2]?.map fun u => mark (if t = (lb,place) then f u else u) := by
  rcases t with ⟨l,i⟩
  unfold marks
  by_cases hl : l = lb
  · subst hl
    simp only [Function.update_self,modifyUpstream,List.getElem?_modify,Prod.mk.injEq,true_and]
    by_cases hi : place = i
    · subst hi
      simp [Function.comp_def]
    · simp [hi,Ne.symm hi]
  · simp [hl]

theorem marks_respond (s : Balancers) (op : Op) (a : op.Ans) (t : ℕ × ℕ) :
    marks (respond s op a).2 t = marks s t := by
  have hmodify : ∀ lb place (f : UpstreamRuntime → UpstreamRuntime), (∀ u, mark (f u) = mark u) →
      marks (Function.update s lb (modifyUpstream (s lb) place f)) t = marks s t := by
    intro lb place f hf
    rw [marks_modify]
    unfold marks
    congr 1
    funext u
    split
    · exact hf u
    · rfl
  cases op with
  | selectSticky lb v => exact marks_sameUpstreams (sameUpstreams_update (selectSticky_upstreams _ _)) t
  | selectExcluding lb ex => exact marks_sameUpstreams (sameUpstreams_update (selectExcluding_upstreams _ _)) t
  | select lb => exact marks_sameUpstreams (sameUpstreams_update (selectExcluding_upstreams _ _)) t
  | incConnections u => exact hmodify _ _ _ fun _ => rfl
  | decConnections u => exact hmodify _ _ _ fun _ => rfl
  | _ => rfl

theorem marks_check (s : Balancers) (t' : ℕ × ℕ) (healthy : Bool) (t : ℕ × ℕ) :
    marks (HealthCheck.apply ⟨t'.1,t'.2,healthy⟩ s) t =
      (marks s t).map fun m => if t = t' then (m.1,healthy) else m := by
  unfold HealthCheck.apply
  rw [marks_modify,marks,Option.map_map]
  congr 1
  funext u
  by_cases ht : t = t'
  · simp [ht,mark,UpstreamRuntime.setHealthy]
  · simp [ht,mark]

theorem marks_upstreamAt {s : State F} {t : ℕ × ℕ} {u : UpstreamRuntime} (hu : upstreamAt s t = some u) :
    marks s.balancers t = some (mark u) := by
  unfold upstreamAt at hu
  simp [marks,hu]

theorem marks_probed (s : State F) (t : ℕ × ℕ) (rest : List (ℕ × ℕ)) (u : UpstreamRuntime) (healthyNow : Bool)
    (t' : ℕ × ℕ) : marks (probed s t rest u healthyNow).balancers t' =
      (marks s.balancers t').map fun m => if t' = t then
        (m.1,judge s.task.healthCfg ((s.task.state u.address).note healthyNow) healthyNow u.healthy) else m :=
  marks_check _ _ _ _

theorem marks_install_old {s : State F} {t : ℕ × ℕ} (config : Config F) (ht : t.1 < s.allocated) :
    marks (install s config).balancers t = marks s.balancers t := by
  simp [marks,install,ht]

theorem marks_install_new {s : State F} {t : ℕ × ℕ} {config : Config F} {m : String × Bool}
    (ht : ¬ t.1 < s.allocated) (hm : marks (install s config).balancers t = some m) :
    t.1 < s.allocated+(Router.balancers config).length ∧ m.2 = true := by
  simp only [marks,install,ht,if_false] at hm
  cases hlb : (Router.balancers config)[t.1-s.allocated]? with
  | none => simp [hlb] at hm
  | some lb =>
    have hlt := (List.getElem?_eq_some_iff.mp hlb).1
    refine ⟨by omega,?_⟩
    have hfresh : ∃ pool algorithm, lb = LoadBalancer.fromUpstreams pool algorithm := by
      have hmem := List.mem_of_getElem? hlb
      unfold Router.balancers at hmem
      rcases List.mem_append.mp hmem with hroute | hdefault
      · obtain ⟨r,-,rfl⟩ := List.mem_map.mp hroute
        exact ⟨_,_,rfl⟩
      · split at hdefault
        · cases hdefault
        · exact ⟨_,_,List.mem_singleton.mp hdefault⟩
    obtain ⟨pool,algorithm,rfl⟩ := hfresh
    obtain ⟨u,hu,rfl⟩ := Option.map_eq_some_iff.mp hm
    simp only [hlb,Option.getD_some,LoadBalancer.fromUpstreams,List.getElem?_map] at hu
    obtain ⟨v,-,rfl⟩ := Option.map_eq_some_iff.mp hu
    rfl

/-- Counters and flags are functions of the probes made. -/
structure Recorded (s : State F) : Prop where
  counted : ∀ address outcome, (s.task.state address).count outcome =
    streak outcome (toAddress address) s.history % 2^32
  latched : ∀ t m, marks s.balancers t = some m →
    (m.2 = false ↔ Latched (Reached false t) (Reached true t) s.history)
  placed : ∀ p ∈ s.history, ∃ m, marks s.balancers p.target = some m ∧ m.1 = p.address
  built : ∀ t m, marks s.balancers t = some m → t.1 < s.allocated

theorem Recorded.of_marks {s s' : State F} (hs : Recorded s)
    (hmarks : ∀ t, marks s'.balancers t = marks s.balancers t) (hallocated : s'.allocated = s.allocated)
    (hstate : s'.task.state = s.task.state) (hhistory : s'.history = s.history) : Recorded s' := by
  refine ⟨?_,?_,?_,?_⟩
  · rw [hstate,hhistory]
    exact hs.counted
  · intro t m
    rw [hmarks,hhistory]
    exact hs.latched t m
  · intro p
    rw [hmarks,hhistory]
    exact hs.placed p
  · intro t m
    rw [hmarks,hallocated]
    exact hs.built t m

theorem not_reached_of_ne {outcome : Bool} {t : ℕ × ℕ} {h : List Probe} {p : Probe}
    (hp : p.healthyNow ≠ outcome) : ¬ Reached outcome t (h++[p]) := by
  intro hreached
  have hle := (reached_concat.mp hreached).2
  rw [streak_concat] at hle
  have hpos := one_le_threshold p.cfg outcome
  simp [toAddress,hp] at hle
  omega

theorem counted_probe {state : String → ThresholdState} {h : List Probe} (p : Probe)
    (hcount : ∀ address outcome, (state address).count outcome = streak outcome (toAddress address) h % 2^32)
    (address : String) (outcome : Bool) :
    (Function.update state p.address ((state p.address).note p.healthyNow) address).count outcome =
      streak outcome (toAddress address) (h++[p]) % 2^32 := by
  rw [streak_concat]
  by_cases ha : address = p.address
  · subst ha
    rw [Function.update_self,count_note,hcount]
    by_cases hout : p.healthyNow = outcome
    · simp [hout,toAddress]
    · simp [hout,toAddress]
  · rw [Function.update_of_ne ha,hcount]
    simp [toAddress,Ne.symm ha]

/-- A probe latches the flag of its upstream and of no other. -/
theorem latched_probe {h : List Probe} {p : Probe} {t : ℕ × ℕ} {healthy : Bool}
    (hflag : healthy = false ↔ Latched (Reached false t) (Reached true t) h) :
    (if t = p.target then
        if threshold p.cfg p.healthyNow ≤ streak p.healthyNow (toAddress p.address) (h++[p]) % 2^32 then
          p.healthyNow else healthy
      else healthy) = false ↔ Latched (Reached false t) (Reached true t) (h++[p]) := by
  rw [latched_concat,← hflag]
  by_cases ht : t = p.target
  · subst ht
    have hother : ∀ outcome, p.healthyNow ≠ outcome → ¬ Reached outcome p.target (h++[p]) :=
      fun _ => not_reached_of_ne
    cases hnow : p.healthyNow with
    | false =>
      have htrue := hother true (by simp [hnow])
      simp only [if_true,reached_concat,true_and] at htrue ⊢
      by_cases hreached : threshold p.cfg false ≤ streak false (toAddress p.address) (h++[p]) % 2^32
      · simp only [hreached,if_true,true_or]
      · simp only [hreached,htrue,if_false,false_or,not_false_eq_true,and_true]
    | true =>
      have hfalse := hother false (by simp [hnow])
      simp only [if_true,reached_concat,true_and] at hfalse ⊢
      by_cases hreached : threshold p.cfg true ≤ streak true (toAddress p.address) (h++[p]) % 2^32
      · simp only [hreached,hfalse,if_true,false_or,not_true_eq_false,and_false,Bool.true_eq_false]
      · simp only [hreached,hfalse,if_false,false_or,not_false_eq_true,and_true]
  · simp [ht,reached_concat,Ne.symm ht]

theorem Recorded.probed {s : State F} (hs : Recorded s) {t : ℕ × ℕ} {u : UpstreamRuntime}
    (hu : upstreamAt s t = some u) (rest : List (ℕ × ℕ)) (healthyNow : Bool) :
    Recorded (probed s t rest u healthyNow) := by
  have hmark := marks_upstreamAt hu
  have hcount := counted_probe ⟨t,u.address,healthyNow,s.task.healthCfg⟩ hs.counted
  refine ⟨hcount,?_,?_,?_⟩
  · intro t' m' hm'
    rw [marks_probed] at hm'
    obtain ⟨m,hm,rfl⟩ := Option.map_eq_some_iff.mp hm'
    have hown := hcount u.address healthyNow
    simp only [Function.update_self] at hown
    refine Iff.trans ?_ (latched_probe (hs.latched t' m hm))
    by_cases ht : t' = t
    · subst ht
      rw [hmark] at hm
      cases hm
      simp only [if_true]
      rw [judge_eq,hown]
      rfl
    · simp [ht]
  · intro p hp
    have hat : ∃ m, marks s.balancers p.target = some m ∧ m.1 = p.address := by
      rcases List.mem_append.mp hp with hold | hnew
      · exact hs.placed p hold
      · cases List.mem_singleton.mp hnew
        exact ⟨mark u,hmark,rfl⟩
    obtain ⟨m,hm,haddress⟩ := hat
    refine ⟨_,by rw [marks_probed,hm]; rfl,?_⟩
    split
    · exact haddress
    · exact haddress
  · intro t' m' hm'
    rw [marks_probed] at hm'
    obtain ⟨m,hm,-⟩ := Option.map_eq_some_iff.mp hm'
    exact hs.built t' m hm

theorem Recorded.install {s : State F} (hs : Recorded s) (config : Config F) :
    Recorded (install s config) := by
  refine ⟨hs.counted,?_,?_,?_⟩
  · intro t m hm
    by_cases ht : t.1 < s.allocated
    · rw [marks_install_old config ht] at hm
      exact hs.latched t m hm
    · have hhealthy := (marks_install_new ht hm).2
      rw [hhealthy]
      refine iff_of_false (by simp) ?_
      rintro ⟨front,hfront,⟨p,hlast,rfl,-⟩,-⟩
      obtain ⟨m',hm',-⟩ := hs.placed p (hfront.mem (List.mem_of_getLast? hlast))
      exact ht (hs.built _ _ hm')
  · intro p hp
    obtain ⟨m,hm,haddress⟩ := hs.placed p hp
    exact ⟨m,by rw [marks_install_old config (hs.built _ _ hm)]; exact hm,haddress⟩
  · intro t m hm
    by_cases ht : t.1 < s.allocated
    · exact Nat.lt_of_lt_of_le ht (Nat.le_add_right _ _)
    · exact (marks_install_new ht hm).1

theorem start_recorded (config : Config F) : Recorded (start config) := by
  apply Recorded.install
  refine ⟨?_,?_,?_,?_⟩
  · intro address outcome
    cases outcome <;> rfl
  · intro t m hm
    simp [marks] at hm
  · intro p hp
    cases hp
  · intro t m hm
    simp [marks] at hm

inductive Stepped (s : State F) : Event F → State F → Prop
  | round (hdone : s.task.pending = []) : Stepped s .round { s with task :=
      { s.task with healthCfg := s.sharedCfg, pending := targets s.router s.balancers } }
  | probe {t : ℕ × ℕ} {rest : List (ℕ × ℕ)} {u : UpstreamRuntime} {healthyNow : Bool}
      (hpending : s.task.pending = t::rest) (hu : upstreamAt s t = some u) :
      Stepped s (.probe healthyNow) (probed s t rest u healthyNow)
  | call (op : Op) (a : op.Ans) : Stepped s (.call op a) { s with balancers := (respond s.balancers op a).2 }
  | reloadHealth {config : Config F} (hnone : s.incoming = none) : Stepped s (.reloadHealth config)
      { s with sharedCfg := config.healthCheck, incoming := some config }
  | reloadRuntime {config : Config F} (hsome : s.incoming = some config) :
      Stepped s .reloadRuntime { install s config with incoming := none }

theorem stepped {s s' : State F} {e : Event F} (h : step s e = some s') : Stepped s e s' := by
  cases e with
  | round =>
    simp only [step] at h
    split at h
    · rename_i hdone
      cases h
      exact .round (List.isEmpty_iff.mp hdone)
    · cases h
  | probe healthyNow =>
    simp only [step] at h
    split at h
    · cases h
    · rename_i t rest hpending
      obtain ⟨u,hu,rfl⟩ := Option.map_eq_some_iff.mp h
      exact .probe hpending hu
  | call op a =>
    cases h
    exact .call op a
  | reloadHealth config =>
    simp only [step] at h
    split at h
    · cases h
    · rename_i hnone
      cases h
      exact .reloadHealth (by simpa using hnone)
  | reloadRuntime =>
    obtain ⟨config,hsome,rfl⟩ := Option.map_eq_some_iff.mp h
    exact .reloadRuntime hsome

theorem Recorded.step {s s' : State F} {e : Event F} (hs : Recorded s) (h : step s e = some s') :
    Recorded s' := by
  cases stepped h with
  | round hdone => exact hs.of_marks (fun _ => rfl) rfl rfl rfl
  | probe hpending hu => exact hs.probed hu _ _
  | call op a => exact hs.of_marks (marks_respond s.balancers op a) rfl rfl rfl
  | reloadHealth hnone => exact hs.of_marks (fun _ => rfl) rfl rfl rfl
  | reloadRuntime hsome => exact (hs.install _).of_marks (fun _ => rfl) rfl rfl rfl

theorem reachable_recorded {config : Config F} {events : List (Event F)} {s : State F}
    (hrun : exec step (start config) events = some s) : Recorded s :=
  exec_invariant (fun _ _ _ hs h => Recorded.step hs h) (start_recorded config) hrun

structure Fixed (config : Config F) (s : State F) : Prop where
  router : s.router = (start config).router
  pools : ∀ t, (marks s.balancers t).map Prod.fst = (marks (start config).balancers t).map Prod.fst
  shared : s.sharedCfg = config.healthCheck
  inForce : s.task.healthCfg = config.healthCheck
  probes : ∀ p ∈ s.history, p.cfg = config.healthCheck

theorem Fixed.step {config : Config F} {s s' : State F} {e : Event F} (he : e.isReload = false)
    (hs : Fixed config s) (h : step s e = some s') : Fixed config s' := by
  cases stepped h with
  | round hdone => exact ⟨hs.router,hs.pools,hs.shared,hs.shared,hs.probes⟩
  | @probe t rest u healthyNow hpending hu =>
    refine ⟨hs.router,?_,hs.shared,hs.inForce,?_⟩
    · intro t'
      rw [← hs.pools t',marks_probed,Option.map_map]
      congr 1
      funext m
      by_cases ht : t' = t
      · simp [ht]
      · simp [ht]
    · intro p hp
      rcases List.mem_append.mp hp with hold | hnew
      · exact hs.probes p hold
      · cases List.mem_singleton.mp hnew
        exact hs.inForce
  | call op a =>
    refine ⟨hs.router,?_,hs.shared,hs.inForce,hs.probes⟩
    intro t
    rw [← hs.pools t,marks_respond]
  | reloadHealth hnone => cases he
  | reloadRuntime hsome => cases he

theorem start_fixed (config : Config F) : Fixed config (start config) :=
  ⟨rfl,fun _ => rfl,rfl,rfl,fun p hp => by cases hp⟩

theorem reachable_fixed {config : Config F} {events : List (Event F)} {s : State F}
    (hfixed : ∀ e ∈ events, e.isReload = false) (hrun : exec step (start config) events = some s) :
    Fixed config s :=
  exec_invariant_of (fun _ _ _ he hs h => Fixed.step he hs h) hfixed (start_fixed config) hrun

def EndsAt (t : ℕ × ℕ) (h : List Probe) : Prop := ∃ p, h.getLast? = some p ∧ p.target = t

/-- Short of 2^32 probes the counters do not wrap around. -/
theorem reached_iff {cfg : HealthCheckConfig} {address : String} {outcome : Bool} {t : ℕ × ℕ} {h : List Probe}
    (hcfg : ∀ p ∈ h, p.cfg = cfg) (haddress : ∀ p ∈ h, p.target = t → p.address = address)
    (hshort : h.length < 2^32) :
    Reached outcome t h ↔ EndsAt t h ∧ threshold cfg outcome ≤ streak outcome (toAddress address) h := by
  have hmod : ∀ a, streak outcome (toAddress a) h % 2^32 = streak outcome (toAddress a) h :=
    fun a => Nat.mod_eq_of_lt ((streak_le_length _ _ _).trans_lt hshort)
  constructor
  · rintro ⟨p,hlast,htarget,hle⟩
    have hmem := List.mem_of_getLast? hlast
    rw [hcfg p hmem,haddress p hmem htarget,hmod] at hle
    exact ⟨⟨p,hlast,htarget⟩,hle⟩
  · rintro ⟨⟨p,hlast,htarget⟩,hle⟩
    have hmem := List.mem_of_getLast? hlast
    refine ⟨p,hlast,htarget,?_⟩
    rw [hcfg p hmem,haddress p hmem htarget,hmod]
    exact hle

/-- An upstream is unhealthy exactly if a probe of it found its address at the unhealthy
threshold, and no later one found it at the healthy threshold. -/
theorem unhealthy_iff {config : Config F} {events : List (Event F)} {s : State F}
    (hfixed : ∀ e ∈ events, e.isReload = false) (hrun : exec step (start config) events = some s)
    (hshort : s.history.length < 2^32) {t : ℕ × ℕ} {u : UpstreamRuntime} (hu : upstreamAt s t = some u) :
    u.healthy = false ↔
      Latched
        (fun h => EndsAt t h ∧
          max config.healthCheck.unhealthyThreshold.toNat 1 ≤ streak false (toAddress u.address) h)
        (fun h => EndsAt t h ∧
          max config.healthCheck.healthyThreshold.toNat 1 ≤ streak true (toAddress u.address) h)
        s.history := by
  have hs := reachable_recorded hrun
  have hmark := marks_upstreamAt hu
  have hreached : ∀ outcome front, front <+: s.history → (Reached outcome t front ↔
      EndsAt t front ∧ threshold config.healthCheck outcome ≤ streak outcome (toAddress u.address) front) := by
    intro outcome front hfront
    apply reached_iff
    · intro p hp
      exact (reachable_fixed hfixed hrun).probes p (hfront.mem hp)
    · intro p hp htarget
      obtain ⟨m,hm,haddress⟩ := hs.placed p (hfront.mem hp)
      rw [htarget,hmark] at hm
      cases hm
      exact haddress.symm
    · exact hfront.length_le.trans_lt hshort
  exact (hs.latched t (mark u) hmark).trans (latched_congr (hreached false) (hreached true))

section Samples

/-- One backend in the pool of a route and in the default pool. -/
def sharedConfig : Config ℚ :=
  .ofPools [⟨"http://10.0.0.1:80",1⟩] [⟨"/api",[⟨"http://10.0.0.1:80",1⟩],none⟩]

/-- A failing round, and the first probe of the next. -/
def failingRounds : List (Event ℚ) := [.round,.probe false,.probe false,.round,.probe false]

theorem unhealthy_iff_shared : ∃ s u, exec step (start sharedConfig) failingRounds = some s ∧
    s.history.length < 2^32 ∧ upstreamAt s (0,0) = some u ∧ u.healthy = false ∧
    (u.healthy = false ↔
      Latched
        (fun h => EndsAt (0,0) h ∧
          max sharedConfig.healthCheck.unhealthyThreshold.toNat 1 ≤ streak false (toAddress u.address) h)
        (fun h => EndsAt (0,0) h ∧
          max sharedConfig.healthCheck.healthyThreshold.toNat 1 ≤ streak true (toAddress u.address) h)
        s.history) := by
  have hshown : (exec step (start sharedConfig) failingRounds).map
      (fun s => (s.history.length,(upstreamAt s (0,0)).map UpstreamRuntime.healthy)) = some (3,some false) := by
    decide +kernel
  obtain ⟨s,hrun,hpair⟩ := Option.map_eq_some_iff.mp hshown
  have hlength : s.history.length = 3 := congrArg Prod.fst hpair
  obtain ⟨u,hu,hflag⟩ := Option.map_eq_some_iff.mp (congrArg Prod.snd hpair)
  have hshort : s.history.length < 2^32 := by omega
  exact ⟨s,u,hrun,hshort,hu,hflag,unhealthy_iff (by decide) hrun hshort hu⟩

end Samples

end Health
end OxiGate
