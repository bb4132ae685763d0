import OxiGate.Health

/-! Whose probes a threshold counts. Probes and flags belong to the upstreams of a pool, the
counters to addresses; runs in which every probe has the same outcome show what a shared
address does. -/
namespace OxiGate
namespace Health

open Lb Runs Histories Accounting

variable {F : Type}

/-- The flags turn only on the last probes of the upstream itself. -/
def OwnThresholds (config : Config F) : Prop :=
  ∀ events e s s' t u u', (∀ e' ∈ events++[e], e'.isReload = false) →
    exec step (start config) events = some s → step s e = some s' →
    upstreamAt s t = some u → upstreamAt s' t = some u' →
    (u.healthy = true → u'.healthy = false →
      max config.healthCheck.unhealthyThreshold.toNat 1 ≤ streak false (ofUpstream t) s'.history) ∧
    (u.healthy = false → u'.healthy = true →
      max config.healthCheck.healthyThreshold.toNat 1 ≤ streak true (ofUpstream t) s'.history)

def configured (config : Config F) : List String :=
  (config.routes.flatMap RouteConfig.upstreams++config.upstreams).map Upstream.address

/-- A flag turns at a probe of its upstream, when the counter of the address has reached the
threshold of the outcome. -/
theorem turned_at_probe {s s' : State F} {e : Event F} (hs : Recorded s) (h : step s e = some s')
    {t : ℕ × ℕ} {m m' : String × Bool} (hm : marks s.balancers t = some m)
    (hm' : marks s'.balancers t = some m') (hturned : m'.2 ≠ m.2) :
    ∃ p, s'.history = s.history++[p] ∧ p.target = t ∧ p.address = m.1 ∧ p.healthyNow = m'.2 ∧
      p.cfg = s.task.healthCfg ∧ threshold p.cfg m'.2 ≤ streak m'.2 (toAddress m.1) s'.history := by
  have hsame : marks s'.balancers t ≠ marks s.balancers t := by
    intro heq
    rw [hm,hm'] at heq
    cases heq
    exact hturned rfl
  cases stepped h with
  | round hdone => exact absurd rfl hsame
  | @probe t₀ rest u healthyNow hpending hu =>
    have hcount := (hs.probed hu rest healthyNow).counted u.address healthyNow
    have hmarks := marks_probed s t₀ rest u healthyNow t
    by_cases ht : t = t₀
    · subst ht
      rw [marks_upstreamAt hu] at hm
      cases hm
      simp only [probed,Function.update_self] at hcount
      rw [marks_upstreamAt hu,Option.map_some,if_pos rfl,judge_eq,hcount] at hmarks
      obtain rfl := Option.some.inj (hm'.symm.trans hmarks)
      by_cases hreached : threshold s.task.healthCfg healthyNow ≤
          streak healthyNow (toAddress u.address) (s.history++[⟨t,u.address,healthyNow,s.task.healthCfg⟩]) % 2^32
      · simp only [hreached,if_true]
        exact ⟨_,rfl,rfl,rfl,rfl,rfl,hreached.trans (Nat.mod_le _ _)⟩
      · simp only [hreached,if_false] at hturned
        exact absurd rfl hturned
    · simp only [ht,if_false,Option.map_id'] at hmarks
      exact absurd hmarks hsame
  | call op a => exact absurd (marks_respond s.balancers op a t) hsame
  | reloadHealth hnone => exact absurd rfl hsame
  | reloadRuntime hsome => exact absurd (marks_install_old _ (hs.built t m hm)) hsame

section Pools

def addressAt (config : Config F) (t : ℕ × ℕ) : String :=
  ((marks (start config).balancers t).map Prod.fst).getD ""

theorem mem_targets {router : Router} {s : Balancers} {t : ℕ × ℕ} :
    t ∈ targets router s ↔ t.1 ∈ router.allLbs ∧ (marks s t).isSome := by
  rcases t with ⟨k,i⟩
  simp only [targets,List.mem_flatMap,List.mem_map,List.mem_range,Prod.mk.injEq,marks,Option.isSome_map,
    isSome_getElem?]
  constructor
  · rintro ⟨lb,hlb,i',hi,rfl,rfl⟩
    exact ⟨hlb,hi⟩
  · rintro ⟨hk,hi⟩
    exact ⟨k,hk,i,hi,rfl,rfl⟩

theorem targets_nodup {router : Router} (hrouter : router.allLbs.Nodup) (s : Balancers) :
    (targets router s).Nodup := by
  unfold targets
  rw [List.nodup_flatMap]
  constructor
  · intro k _
    exact (List.nodup_range).map fun i j hij => congrArg Prod.snd hij
  · refine hrouter.imp ?_
    intro k k' hne t ht ht'
    obtain ⟨i,-,rfl⟩ := List.mem_map.mp ht
    obtain ⟨j,-,hj⟩ := List.mem_map.mp ht'
    exact hne (congrArg Prod.fst hj).symm

theorem start_allLbs (config : Config F) :
    (start config).router.allLbs.Perm (List.range (Router.balancers config).length) := by
  have hperm := Router.allLbs_fromConfig config
  have hshift : (start config).router.allLbs = (Router.fromConfig config).allLbs.map (0+·) :=
    Router.allLbs_shift 0 _
  rw [hshift]
  simpa using hperm

def allTargets (config : Config F) : List (ℕ × ℕ) := targets (start config).router (start config).balancers

theorem allTargets_nodup (config : Config F) : (allTargets config).Nodup :=
  targets_nodup ((start_allLbs config).nodup_iff.mpr List.nodup_range) _

theorem addresses_perm (config : Config F) : ((allTargets config).map (addressAt config)).Perm (configured config) := by
  have hpool : ∀ k, (List.range ((start config).balancers k).upstreams.length).map
      (fun i => addressAt config (k,i)) = ((start config).balancers k).upstreams.map UpstreamRuntime.address := by
    intro k
    apply List.ext_getElem
    · simp
    · intro i hi _
      have hlt : i < ((start config).balancers k).upstreams.length := by simpa using hi
      simp [addressAt,marks,mark,hlt]
  have hbuilt : (List.range (Router.balancers config).length).map (start config).balancers =
      Router.balancers config := by
    apply List.ext_getElem
    · simp
    · intro k hk hk'
      simp [start,install,hk']
  have hconfigured : (Router.balancers config).flatMap (fun lb => lb.upstreams.map UpstreamRuntime.address) =
      configured config := by
    have hfresh : ∀ pool algorithm, ((LoadBalancer.fromUpstreams pool algorithm).upstreams.map
        UpstreamRuntime.address) = pool.map Upstream.address := by
      intro pool algorithm
      simp [LoadBalancer.fromUpstreams,Function.comp_def,UpstreamRuntime.new]
    unfold Router.balancers configured
    rw [List.flatMap_append,List.map_append,List.map_flatMap,List.flatMap_map]
    congr 1
    · simp only [hfresh]
    · cases hups : config.upstreams with
      | nil => rfl
      | cons u us => simp [hfresh]
  unfold allTargets targets
  rw [List.map_flatMap]
  simp only [List.map_map,Function.comp_def,hpool]
  rw [← hconfigured,← hbuilt,List.flatMap_map]
  exact (start_allLbs config).flatMap_right _

theorem targets_of_fixed {config : Config F} {s : State F} (hs : Fixed config s) :
    targets s.router s.balancers = allTargets config := by
  have hlength : ∀ k, (s.balancers k).upstreams.length = ((start config).balancers k).upstreams.length := by
    intro k
    have hsome : ∀ i, i < (s.balancers k).upstreams.length ↔
        i < ((start config).balancers k).upstreams.length := by
      intro i
      have heq : (marks s.balancers (k,i)).isSome = true ↔ (marks (start config).balancers (k,i)).isSome = true := by
        rw [← Option.isSome_map (f := Prod.fst),hs.pools,Option.isSome_map]
      simpa only [marks,Option.isSome_map,isSome_getElem?] using heq
    exact Nat.le_antisymm (Nat.le_of_not_lt fun hlt => absurd ((hsome _).mp hlt) (Nat.lt_irrefl _))
      (Nat.le_of_not_lt fun hlt => absurd ((hsome _).mpr hlt) (Nat.lt_irrefl _))
  unfold allTargets targets
  rw [hs.router]
  simp only [hlength]

theorem mem_allTargets {config : Config F} {t : ℕ × ℕ} :
    t ∈ allTargets config ↔ (marks (start config).balancers t).isSome := by
  unfold allTargets
  rw [mem_targets,and_iff_right_iff_imp]
  intro hsome
  obtain ⟨m,hm⟩ := Option.isSome_iff_exists.mp hsome
  have hbuilt : t.1 < (start config).allocated := (start_recorded config).built t m hm
  have hallocated : (start config).allocated = (Router.balancers config).length := Nat.zero_add _
  rw [(start_allLbs config).mem_iff,List.mem_range,← hallocated]
  exact hbuilt

theorem marks_fixed {config : Config F} {s : State F} (hs : Fixed config s) {t : ℕ × ℕ} {m : String × Bool}
    (hm : marks s.balancers t = some m) : t ∈ allTargets config ∧ m.1 = addressAt config t := by
  have hpools := hs.pools t
  rw [hm] at hpools
  obtain ⟨m₀,hm₀,haddress⟩ := Option.map_eq_some_iff.mp hpools.symm
  refine ⟨mem_allTargets.mpr (by rw [hm₀]; rfl),?_⟩
  rw [addressAt,← hpools]
  rfl

theorem addressAt_injective {config : Config F} (hdistinct : (configured config).Nodup) {t t' : ℕ × ℕ}
    (ht : t ∈ allTargets config) (ht' : t' ∈ allTargets config)
    (haddress : addressAt config t = addressAt config t') : t = t' := by
  have hnodup := (addresses_perm config).nodup_iff.mpr hdistinct
  exact List.inj_on_of_nodup_map hnodup ht ht' haddress

end Pools

theorem own_of_turned {config : Config F} {s s' : State F} {e : Event F} (hs : Recorded s)
    (hfixed : Fixed config s) (he : e.isReload = false) (h : step s e = some s')
    (hwhen : (configured config).Nodup ∨ ∀ outcome, threshold config.healthCheck outcome = 1)
    {t : ℕ × ℕ} {m m' : String × Bool} (hm : marks s.balancers t = some m)
    (hm' : marks s'.balancers t = some m') (hturned : m'.2 ≠ m.2) :
    threshold config.healthCheck m'.2 ≤ streak m'.2 (ofUpstream t) s'.history := by
  obtain ⟨p,hhistory,htarget,haddress,hnow,hcfg,hreached⟩ := turned_at_probe hs h hm hm' hturned
  rw [hcfg,hfixed.inForce] at hreached
  rcases hwhen with hdistinct | hone
  · have hsame : streak m'.2 (ofUpstream t) s'.history = streak m'.2 (toAddress m.1) s'.history := by
      have hmem := marks_fixed hfixed hm
      unfold streak
      congr 1
      apply List.filter_congr
      intro q hq
      obtain ⟨n,hn,hqaddress⟩ := (hs.step h).placed q hq
      have hqmem := marks_fixed (hfixed.step he h) hn
      unfold ofUpstream toAddress
      rw [decide_eq_decide,← hqaddress,hqmem.2,hmem.2]
      constructor
      · rintro rfl
        rfl
      · exact addressAt_injective hdistinct hqmem.1 hmem.1
    rw [hsame]
    exact hreached
  · rw [hone,hhistory,streak_concat]
    simp [ofUpstream,htarget,hnow]

section Uniform

variable {config : Config F}

def probeOf (config : Config F) (outcome : Bool) (t : ℕ × ℕ) : Probe :=
  ⟨t,addressAt config t,outcome,config.healthCheck⟩

theorem known_mark {s : State F} (hs : Fixed config s) {t : ℕ × ℕ} {front back : List (ℕ × ℕ)}
    (hsplit : allTargets config = front++t::back) : ∃ m, marks s.balancers t = some m := by
  rw [← Option.isSome_iff_exists,← Option.isSome_map (f := Prod.fst),hs.pools,Option.isSome_map,← mem_allTargets,
    hsplit]
  simp

theorem probe_step (outcome : Bool) {s : State F} (hs : Fixed config s) {t : ℕ × ℕ} {rest : List (ℕ × ℕ)}
    (hpending : s.task.pending = t::rest) (hknown : t ∈ allTargets config) :
    ∃ u, upstreamAt s t = some u ∧ step s (.probe outcome) = some (probed s t rest u outcome) := by
  have hsome : (marks s.balancers t).isSome = true := by
    rw [← Option.isSome_map (f := Prod.fst),hs.pools,Option.isSome_map]
    exact mem_allTargets.mp hknown
  obtain ⟨m,hm⟩ := Option.isSome_iff_exists.mp hsome
  obtain ⟨u,hu,rfl⟩ := Option.map_eq_some_iff.mp hm
  refine ⟨u,hu,?_⟩
  unfold step
  rw [hpending]
  exact congrArg (Option.map _) hu

theorem probes_run (outcome : Bool) {front back : List (ℕ × ℕ)} {s : State F} (hs : Fixed config s)
    (hpending : s.task.pending = front++back) (hknown : ∀ t ∈ front, t ∈ allTargets config) :
    ∃ s', exec step s (List.replicate front.length (.probe outcome)) = some s' ∧ Fixed config s' ∧
      s'.task.pending = back ∧ s'.history = s.history++front.map (probeOf config outcome) := by
  induction front generalizing s with
  | nil => exact ⟨s,rfl,hs,hpending,by simp⟩
  | cons t front ih =>
    obtain ⟨u,hu,hstep⟩ := probe_step outcome hs hpending (hknown t (by simp))
    have haddress : u.address = addressAt config t := (marks_fixed hs (marks_upstreamAt hu)).2
    obtain ⟨s',hrun,hs',hback,hhistory⟩ := ih (hs.step rfl hstep) rfl fun t' ht' =>
      hknown t' (List.mem_cons_of_mem _ ht')
    refine ⟨s',exec_cons.mpr ⟨_,hstep,hrun⟩,hs',hback,?_⟩
    rw [hhistory]
    simp [probed,probeOf,haddress,hs.inForce]

def uniformRound (config : Config F) (outcome : Bool) : List (Event F) :=
  .round::List.replicate (allTargets config).length (.probe outcome)

theorem round_begins {s : State F} (hs : Fixed config s) (hdone : s.task.pending = []) :
    ∃ s', step s .round = some s' ∧ Fixed config s' ∧ s'.task.pending = allTargets config ∧
      s'.history = s.history := by
  have hstep : step s .round = some { s with task :=
      { s.task with healthCfg := s.sharedCfg, pending := targets s.router s.balancers } } := by
    simp [step,hdone]
  exact ⟨_,hstep,hs.step rfl hstep,targets_of_fixed hs,rfl⟩

theorem uniformRounds_fixed (outcome : Bool) (n : ℕ) :
    ∀ e ∈ (List.replicate n (uniformRound config outcome)).flatten, e.isReload = false := by
  intro e he
  obtain ⟨l,hl,hmem⟩ := List.mem_flatten.mp he
  rw [List.eq_of_mem_replicate hl] at hmem
  rcases List.mem_cons.mp hmem with rfl | hprobe
  · rfl
  · rw [List.eq_of_mem_replicate hprobe]
    rfl

theorem rounds_run (outcome : Bool) (n : ℕ) {s : State F} (hs : Fixed config s) (hdone : s.task.pending = []) :
    ∃ s', exec step s (List.replicate n (uniformRound config outcome)).flatten = some s' ∧ Fixed config s' ∧
      s'.task.pending = [] ∧
      s'.history = s.history++(List.replicate n ((allTargets config).map (probeOf config outcome))).flatten := by
  induction n generalizing s with
  | zero => exact ⟨s,rfl,hs,hdone,by simp⟩
  | succ n ih =>
    obtain ⟨s₁,hstep,hs₁,hpending,hhistory₁⟩ := round_begins hs hdone
    rw [← List.append_nil (allTargets config)] at hpending
    obtain ⟨s₂,hprobes,hs₂,hdone₂,hhistory₂⟩ := probes_run outcome hs₁ hpending fun _ ht => ht
    obtain ⟨s₃,hrest,hs₃,hdone₃,hhistory₃⟩ := ih hs₂ hdone₂
    refine ⟨s₃,?_,hs₃,hdone₃,?_⟩
    · rw [List.replicate_succ,List.flatten_cons,exec_append]
      have hround : exec step s (uniformRound config outcome) = some s₂ := exec_cons.mpr ⟨s₁,hstep,hprobes⟩
      rw [hround]
      exact hrest
    · rw [hhistory₃,hhistory₂,hhistory₁,List.replicate_succ,List.flatten_cons,List.append_assoc]

theorem countP_rounds (outcome : Bool) (among : Probe → Bool) (n : ℕ) (front : List (ℕ × ℕ)) :
    ((List.replicate n ((allTargets config).map (probeOf config outcome))).flatten++
        front.map (probeOf config outcome)).countP among =
      n*(allTargets config).countP (fun t => among (probeOf config outcome t))+
        front.countP fun t => among (probeOf config outcome t) := by
  have hmap : ∀ l : List (ℕ × ℕ), (l.map (probeOf config outcome)).countP among =
      l.countP fun t => among (probeOf config outcome t) := fun l => List.countP_map
  rw [List.countP_append,List.countP_flatten,List.map_replicate,List.sum_replicate,hmap,hmap,smul_eq_mul]

theorem uniform_outcome {outcome : Bool} {n : ℕ} {front : List (ℕ × ℕ)} {p : Probe}
    (hp : p ∈ (List.replicate n ((allTargets config).map (probeOf config outcome))).flatten++
      front.map (probeOf config outcome)) : ∃ t, p = probeOf config outcome t := by
  rcases List.mem_append.mp hp with hrounds | hfront
  · obtain ⟨l,hl,hmem⟩ := List.mem_flatten.mp hrounds
    rw [List.eq_of_mem_replicate hl] at hmem
    obtain ⟨t,-,rfl⟩ := List.mem_map.mp hmem
    exact ⟨t,rfl⟩
  · obtain ⟨t,-,rfl⟩ := List.mem_map.mp hfront
    exact ⟨t,rfl⟩

/-- Probes of one outcome leave a flag alone until its address reaches the threshold. -/
theorem flag_kept {s s' : State F} (hs : Recorded s) (hs' : Recorded s') {outcome : Bool} {x : List Probe}
    (hhistory : s'.history = s.history++x) (hx : ∀ p ∈ x, ∃ t', p = probeOf config outcome t')
    {t : ℕ × ℕ} {m m' : String × Bool} (hm : marks s.balancers t = some m)
    (hm' : marks s'.balancers t = some m')
    (hbelow : streak outcome (toAddress (addressAt config t)) s'.history < threshold config.healthCheck outcome) :
    m'.2 = m.2 := by
  have houtcome : ∀ y, y <+: x → ∀ p ∈ y, p.healthyNow = outcome := by
    intro y hy p hp
    obtain ⟨t',rfl⟩ := hx p (hy.mem hp)
    rfl
  have hquiet : ∀ y, y <+: x → y ≠ [] → ∀ b, ¬ Reached b t (s.history++y) := by
    intro y hy hne b hreached
    obtain ⟨y',p,rfl⟩ := (List.eq_nil_or_concat' y).resolve_left hne
    have hp := houtcome _ hy p (by simp)
    rw [← List.append_assoc] at hreached
    by_cases hb : b = outcome
    · subst hb
      obtain ⟨htarget,hle⟩ := reached_concat.mp hreached
      obtain ⟨t',rfl⟩ := hx p (hy.mem (by simp))
      obtain rfl : t' = t := htarget
      have hgrown : streak b (toAddress (addressAt config t')) (s.history++y'++[probeOf config b t']) ≤
          streak b (toAddress (addressAt config t')) s'.history := by
        rw [List.append_assoc,hhistory,streak_append_of_all (houtcome _ hy),
          streak_append_of_all (houtcome x List.prefix_rfl)]
        exact Nat.add_le_add_left (hy.sublist.countP_le) _
      exact absurd (hle.trans ((Nat.mod_le _ _).trans hgrown)) (Nat.not_le.mpr hbelow)
    · exact not_reached_of_ne (fun h => hb (h.symm.trans hp)) hreached
  have hflags : m'.2 = false ↔ m.2 = false := by
    rw [hs'.latched t m' hm',hs.latched t m hm,hhistory]
    exact latched_append fun y hy hne => ⟨hquiet y hy hne false,hquiet y hy hne true⟩
  exact Bool.eq_iff_iff.mpr (by simpa using not_congr hflags)

theorem uniform_run (outcome : Bool) (n : ℕ) {front back : List (ℕ × ℕ)} (hsplit : allTargets config = front++back)
    {s : State F} (hs : Fixed config s) (hdone : s.task.pending = []) :
    ∃ events s', (∀ e ∈ events, e.isReload = false) ∧ exec step s events = some s' ∧
      s'.task.pending = back ∧ s'.history = s.history++
        ((List.replicate n ((allTargets config).map (probeOf config outcome))).flatten++
          front.map (probeOf config outcome)) := by
  obtain ⟨s₁,hrounds,hs₁,hdone₁,hhistory₁⟩ := rounds_run outcome n hs hdone
  obtain ⟨s₂,hbegin,hs₂,hpending,hhistory₂⟩ := round_begins hs₁ hdone₁
  rw [hsplit] at hpending
  have hknown : ∀ t ∈ front, t ∈ allTargets config := by
    intro t ht
    rw [hsplit]
    exact List.mem_append_left _ ht
  obtain ⟨s₃,hfront,-,hback,hhistory₃⟩ := probes_run outcome hs₂ hpending hknown
  refine ⟨(List.replicate n (uniformRound config outcome)).flatten++
    .round::List.replicate front.length (.probe outcome),s₃,?_,?_,hback,?_⟩
  · intro e he
    rcases List.mem_append.mp he with hround | hlast
    · exact uniformRounds_fixed outcome n e hround
    · rcases List.mem_cons.mp hlast with rfl | hprobe
      · rfl
      · rw [List.eq_of_mem_replicate hprobe]
        rfl
  · rw [exec_append,hrounds]
    exact exec_cons.mpr ⟨s₂,hbegin,hfront⟩
  · rw [hhistory₃,hhistory₂,hhistory₁,List.append_assoc]

/-- From the end of a round on, probes of one outcome turn a flag after `n+1` of its own, when
those of its address before it make up the threshold. -/
theorem turned_by_others {events : List (Event F)} {s : State F}
    (hfixed : ∀ e ∈ events, e.isReload = false) (hrun : exec step (start config) events = some s)
    (hdone : s.task.pending = []) {outcome : Bool} (hnone : ∀ among, streak outcome among s.history = 0)
    {t : ℕ × ℕ} {front back : List (ℕ × ℕ)} (hsplit : allTargets config = front++t::back) {n : ℕ}
    (hcount : threshold config.healthCheck outcome =
      n*(allTargets config).countP (fun t' => addressAt config t' = addressAt config t)+
        front.countP (fun t' => addressAt config t' = addressAt config t)+1)
    {m : String × Bool} (hm : marks s.balancers t = some m) (hflag : m.2 ≠ outcome) :
    ∃ events' s₁ s₂ u u', (∀ e ∈ events'++[.probe outcome], e.isReload = false) ∧
      exec step (start config) events' = some s₁ ∧ step s₁ (.probe outcome) = some s₂ ∧
      upstreamAt s₁ t = some u ∧ upstreamAt s₂ t = some u' ∧ u.healthy ≠ outcome ∧ u'.healthy = outcome ∧
      streak outcome (ofUpstream t) s₂.history = n+1 := by
  obtain ⟨more,s₁,hmore,hrun₁,hpending,hhistory⟩ :=
    uniform_run outcome n hsplit (reachable_fixed hfixed hrun) hdone
  generalize hx : (List.replicate n ((allTargets config).map (probeOf config outcome))).flatten++
    front.map (probeOf config outcome) = x at hhistory
  have huniform : ∀ p ∈ x, ∃ t', p = probeOf config outcome t' := by
    intro p hp
    rw [← hx] at hp
    exact uniform_outcome hp
  have hall : ∀ p ∈ x, p.healthyNow = outcome := by
    intro p hp
    obtain ⟨t',rfl⟩ := huniform p hp
    rfl
  have hfixed₁ : ∀ e ∈ events++more, e.isReload = false := by
    intro e he
    exact (List.mem_append.mp he).elim (hfixed e) (hmore e)
  have hreach₁ : exec step (start config) (events++more) = some s₁ := by
    rw [exec_append,hrun]
    exact hrun₁
  have hs₁ := reachable_recorded hreach₁
  have hf₁ := reachable_fixed hfixed₁ hreach₁
  obtain ⟨u,hu,hstep⟩ := probe_step outcome hf₁ hpending (by rw [hsplit]; simp)
  have hm₁ := marks_upstreamAt hu
  have haddress : u.address = addressAt config t := (marks_fixed hf₁ hm₁).2
  have hbefore : streak outcome (toAddress (addressAt config t)) s₁.history+1 =
      threshold config.healthCheck outcome := by
    rw [hhistory,streak_append_of_all hall,hnone,← hx,countP_rounds,hcount,Nat.zero_add]
    rfl
  have hkept : u.healthy = m.2 :=
    flag_kept (reachable_recorded hrun) hs₁ hhistory huniform hm hm₁ (by omega)
  have hturned : marks (probed s₁ t back u outcome).balancers t = some (u.address,outcome) := by
    have hcounted := (hs₁.probed hu back outcome).counted u.address outcome
    have hreached : streak outcome (toAddress u.address) (probed s₁ t back u outcome).history =
        threshold config.healthCheck outcome := by
      rw [← hbefore,haddress]
      simp [probed,streak_concat,toAddress,haddress]
    rw [hreached,Nat.mod_eq_of_lt (threshold_lt _ _)] at hcounted
    simp only [probed,Function.update_self] at hcounted
    rw [marks_probed,hm₁,judge_eq,hcounted,hf₁.inForce]
    simp [mark]
  obtain ⟨u',hu',hmark'⟩ := Option.map_eq_some_iff.mp hturned
  have hown : streak outcome (ofUpstream t) s₁.history = n := by
    have hnodup := allTargets_nodup config
    have hcountP : ∀ l : List (ℕ × ℕ), l.countP (fun t' => ofUpstream t (probeOf config outcome t')) = l.count t := by
      intro l
      apply List.countP_congr
      intro t' _
      exact decide_eq_true_iff.trans beq_iff_eq.symm
    have honce : (allTargets config).count t = 1 := List.count_eq_one_of_mem hnodup (by rw [hsplit]; simp)
    have hnever : front.count t = 0 := by
      rw [hsplit] at hnodup
      refine List.count_eq_zero_of_not_mem fun hmem => ?_
      exact List.disjoint_of_nodup_append hnodup hmem (by simp)
    rw [hhistory,streak_append_of_all hall,hnone,← hx,countP_rounds,hcountP,hcountP,honce,hnever]
    omega
  refine ⟨events++more,s₁,_,u,u',?_,hreach₁,hstep,hu,hu',?_,congrArg Prod.snd hmark',?_⟩
  · intro e he
    rcases List.mem_append.mp he with hold | hnew
    · exact hfixed₁ e hold
    · rw [List.mem_singleton.mp hnew]
      rfl
  · rw [hkept]
    exact hflag
  · simp [probed,streak_concat,ofUpstream,hown]

/-- A failing round marks an upstream unhealthy, when one failure is enough and its address has
not been probed so often that the counter wraps around. -/
theorem unhealthy_after_round (hone : threshold config.healthCheck false = 1) {t : ℕ × ℕ}
    {front back : List (ℕ × ℕ)} (hsplit : allTargets config = front++t::back)
    (hshort : front.countP (fun t' => addressAt config t' = addressAt config t)+1 < 2^32)
    {s : State F} (hs : Recorded s) (hhistory : s.history = (allTargets config).map (probeOf config false))
    {m : String × Bool} (hm : marks s.balancers t = some m) : m.2 = false := by
  have hall : ∀ l : List (ℕ × ℕ), ∀ p ∈ l.map (probeOf config false), p.healthyNow = false := by
    intro l p hp
    obtain ⟨t',-,rfl⟩ := List.mem_map.mp hp
    rfl
  have hfront : (front++[t]).map (probeOf config false) <+: s.history := by
    rw [hhistory,hsplit]
    exact ⟨back.map (probeOf config false),by simp⟩
  rw [hs.latched t m hm]
  refine ⟨_,hfront,?_,?_⟩
  · have hcount : streak false (toAddress (addressAt config t)) ((front++[t]).map (probeOf config false)) =
        front.countP (fun t' => addressAt config t' = addressAt config t)+1 := by
      have happend := streak_append_of_all (hall (front++[t])) (toAddress (addressAt config t)) []
      rw [List.nil_append,List.countP_map,List.countP_append] at happend
      have hlast : [t].countP (toAddress (addressAt config t) ∘ probeOf config false) = 1 := by
        simp [toAddress,probeOf]
      rw [happend,hlast,streak_nil,Nat.zero_add]
      rfl
    refine ⟨probeOf config false t,by simp,rfl,?_⟩
    change threshold config.healthCheck false ≤ streak false (toAddress (addressAt config t)) _ % 2^32
    rw [hone,hcount,Nat.mod_eq_of_lt hshort]
    omega
  · intro later hlater hlonger hreached
    obtain ⟨y,p,rfl⟩ := (List.eq_nil_or_concat' later).resolve_left (List.ne_nil_of_length_pos (by omega))
    have hp : p ∈ (allTargets config).map (probeOf config false) := by
      rw [← hhistory]
      exact hlater.mem (by simp)
    exact not_reached_of_ne (by simp [hall _ p hp]) hreached

/-- Where an address is shared, some upstream of it is the one whose probe makes up the threshold,
with less than that of its own. -/
theorem exists_short_of_own {outcome : Bool} (hshared : ¬ (configured config).Nodup)
    (hmany : threshold config.healthCheck outcome ≠ 1) :
    ∃ t front back n, allTargets config = front++t::back ∧
      threshold config.healthCheck outcome =
        n*(allTargets config).countP (fun t' => addressAt config t' = addressAt config t)+
          front.countP (fun t' => addressAt config t' = addressAt config t)+1 ∧
      n+1 < threshold config.healthCheck outcome := by
  have hpos := one_le_threshold config.healthCheck outcome
  have hpair : ∃ t₁ ∈ allTargets config, ∃ t₂ ∈ allTargets config,
      addressAt config t₁ = addressAt config t₂ ∧ t₁ ≠ t₂ := by
    rw [← (addresses_perm config).nodup_iff,List.nodup_map_iff_inj_on (allTargets_nodup config)] at hshared
    push Not at hshared
    exact hshared
  obtain ⟨t₁,ht₁,t₂,ht₂,haddress,hne⟩ := hpair
  generalize hsize : (allTargets config).countP (fun t' => addressAt config t' = addressAt config t₂) = size
  have htwo : 2 ≤ size := by
    have hsub : [t₁,t₂].Subperm ((allTargets config).filter fun t' => addressAt config t' = addressAt config t₂) := by
      refine List.subperm_of_subset (by simpa using hne) ?_
      intro t ht
      rcases List.mem_pair.mp ht with rfl | rfl
      · simp [ht₁,haddress]
      · simp [ht₂]
    rw [← hsize,List.countP_eq_length_filter]
    exact hsub.length_le
  generalize hthreshold : threshold config.healthCheck outcome = limit at hpos hmany
  have hnth : (limit-1) % size < (allTargets config).countP (fun t' => addressAt config t' = addressAt config t₂) := by
    rw [hsize]
    exact Nat.mod_lt _ (by omega)
  obtain ⟨front,t,back,hsplit,ht,hfront⟩ := exists_nth hnth
  have hsame : addressAt config t = addressAt config t₂ := by simpa using ht
  refine ⟨t,front,back,(limit-1)/size,hsplit,?_,?_⟩
  · rw [hsame,hsize,hfront,Nat.div_add_mod']
    omega
  · have hsum := Nat.div_add_mod' (limit-1) size
    have hle := Nat.mul_le_mul_left ((limit-1)/size) htwo
    omega

/-- The flags of a configuration turn on each upstream's own probes exactly if no two upstreams
have one address, or one probe is enough. -/
theorem ownThresholds_iff (config : Config F) : OwnThresholds config ↔
    (configured config).Nodup ∨
      max config.healthCheck.unhealthyThreshold.toNat 1 = 1 ∧ max config.healthCheck.healthyThreshold.toNat 1 = 1 := by
  constructor
  · intro hown
    by_contra hnot
    obtain ⟨hshared,hmany⟩ := not_or.mp hnot
    by_cases hone : threshold config.healthCheck false = 1
    · have hsuccess : threshold config.healthCheck true ≠ 1 := fun h => hmany ⟨hone,h⟩
      obtain ⟨t,front,back,n,hsplit,hcount,hshort⟩ := exists_short_of_own hshared hsuccess
      obtain ⟨s,hround,hs,hdone,hhistory⟩ := rounds_run false 1 (start_fixed config) rfl
      have hfailed : s.history = (allTargets config).map (probeOf config false) := by
        rw [hhistory]
        simp [start,install]
      have hnone : ∀ among, streak true among s.history = 0 := by
        refine streak_of_all_ne fun p hp => ?_
        rw [hfailed] at hp
        obtain ⟨t',-,rfl⟩ := List.mem_map.mp hp
        exact Bool.false_ne_true
      obtain ⟨m,hm⟩ := known_mark hs hsplit
      have hlimit := threshold_lt config.healthCheck true
      have hunhealthy := unhealthy_after_round hone hsplit (by omega) (reachable_recorded hround) hfailed hm
      obtain ⟨events,s₁,s₂,u,u',hfixed,hrun,hstep,hu,hu',hbefore,hafter,hcount'⟩ :=
        turned_by_others (uniformRounds_fixed false 1) hround hdone hnone hsplit hcount hm (by simp [hunhealthy])
      have hle := (hown events _ s₁ s₂ t u u' hfixed hrun hstep hu hu').2 (by simpa using hbefore) hafter
      rw [hcount'] at hle
      exact absurd hle (Nat.not_le.mpr hshort)
    · obtain ⟨t,front,back,n,hsplit,hcount,hshort⟩ := exists_short_of_own hshared hone
      have hrun₀ : exec step (start config) [] = some (start config) := rfl
      have hnone : ∀ among, streak false among (start config).history = 0 := fun _ => rfl
      obtain ⟨m,hm⟩ := known_mark (start_fixed config) hsplit
      have hhealthy : m.2 = true := (marks_install_new (Nat.not_lt_zero _) hm).2
      obtain ⟨events,s,s',u,u',hfixed,hrun,hstep,hu,hu',hbefore,hafter,hcount'⟩ :=
        turned_by_others (by simp) hrun₀ rfl hnone hsplit hcount hm (by simp [hhealthy])
      have hle := (hown events _ s s' t u u' hfixed hrun hstep hu hu').1 (by simpa using hbefore) hafter
      rw [hcount'] at hle
      exact absurd hle (Nat.not_le.mpr hshort)
  · intro hwhen events e s s' t u u' hfixed hrun hstep hu hu'
    have hwhen' : (configured config).Nodup ∨ ∀ outcome, threshold config.healthCheck outcome = 1 := by
      refine hwhen.imp_right fun hone outcome => ?_
      cases outcome with
      | false => exact hone.1
      | true => exact hone.2
    have hfront : ∀ e' ∈ events, e'.isReload = false := fun e' he' => hfixed e' (List.mem_append_left _ he')
    have hown := own_of_turned (reachable_recorded hrun) (reachable_fixed hfront hrun)
      (hfixed e (by simp)) hstep hwhen' (marks_upstreamAt hu) (marks_upstreamAt hu')
    constructor
    · intro hbefore hafter
      have hle := hown (by simp [mark,hafter,hbefore])
      simp only [mark,hafter] at hle
      exact hle
    · intro hbefore hafter
      have hle := hown (by simp [mark,hafter,hbefore])
      simp only [mark,hafter] at hle
      exact hle

end Uniform

/-- With its address in two pools, an upstream is marked unhealthy after two failures of its own,
where three are configured. -/
theorem shared_address_marked_early : ∃ s s' u u',
    exec step (start sharedConfig) [.round,.probe false,.probe false,.round] = some s ∧
      step s (.probe false) = some s' ∧ upstreamAt s (0,0) = some u ∧ upstreamAt s' (0,0) = some u' ∧
      u.healthy = true ∧ u'.healthy = false ∧ streak false (ofUpstream (0,0)) s'.history = 2 ∧
      sharedConfig.healthCheck.unhealthyThreshold = 3 := by
  have hshown : (exec step (start sharedConfig) [.round,.probe false,.probe false,.round]).bind (fun s =>
      (step s (.probe false)).map fun s' =>
        ((upstreamAt s (0,0)).map UpstreamRuntime.healthy,(upstreamAt s' (0,0)).map UpstreamRuntime.healthy,
          streak false (ofUpstream (0,0)) s'.history)) = some (some true,some false,2) := by
    decide +kernel
  obtain ⟨s,hrun,hnext⟩ := Option.bind_eq_some_iff.mp hshown
  obtain ⟨s',hstep,hpair⟩ := Option.map_eq_some_iff.mp hnext
  obtain ⟨u,hu,hhealthy⟩ := Option.map_eq_some_iff.mp (congrArg Prod.fst hpair)
  obtain ⟨u',hu',hunhealthy⟩ := Option.map_eq_some_iff.mp (congrArg (fun x => x.2.1) hpair)
  exact ⟨s,s',u,u',hrun,hstep,hu,hu',hhealthy,hunhealthy,congrArg (fun x => x.2.2) hpair,rfl⟩

end Health
end OxiGate
