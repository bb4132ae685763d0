import OxiGate.Thresholds

/-! Reloads. A successful reload replaces the router and its balancers; the health task keeps
its counters, but the flags of the new upstreams are new. -/
namespace OxiGate
namespace Health

open Lb Runs Histories Accounting

variable {F : Type}

def Selects (lb : LoadBalancer) (place : ℕ) : Prop :=
  (∃ exclude x, (lb.selectExcluding exclude).1 = some x ∧ x.2 = place) ∨
    ∃ stickyValue x, (lb.selectSticky stickyValue).1 = some x ∧ x.2 = place

theorem healthy_of_selects {s : State F} {t : ℕ × ℕ} (h : Selects (s.balancers t.1) t.2) :
    ∃ u, upstreamAt s t = some u ∧ u.healthy = true := by
  rcases h with ⟨exclude,x,hx,hplace⟩ | ⟨stickyValue,x,hx,hplace⟩
  · have hsound := LoadBalancer.selectExcluding_sound hx
    rw [hplace] at hsound
    exact ⟨x.1,hsound.1,hsound.2.1⟩
  · have hsound := LoadBalancer.selectSticky_sound hx
    rw [hplace] at hsound
    exact ⟨x.1,hsound.1,hsound.2⟩

theorem history_grows {s s' : State F} {e : Event F} (h : step s e = some s') : s.history <+: s'.history := by
  cases stepped h with
  | probe hpending hu => exact List.prefix_append _ _
  | _ => exact List.prefix_rfl

theorem mark_kept {s s' : State F} {e : Event F} (hs : Recorded s) (h : step s e = some s') {t : ℕ × ℕ}
    {m : String × Bool} (hm : marks s.balancers t = some m) :
    ∃ m', marks s'.balancers t = some m' ∧ m'.1 = m.1 := by
  cases stepped h with
  | round hdone => exact ⟨m,hm,rfl⟩
  | @probe t₀ rest u healthyNow hpending hu =>
    refine ⟨_,by rw [marks_probed,hm]; rfl,?_⟩
    split
    · rfl
    · rfl
  | call op a => exact ⟨m,(marks_respond s.balancers op a t).trans hm,rfl⟩
  | reloadHealth hnone => exact ⟨m,hm,rfl⟩
  | reloadRuntime hsome => exact ⟨m,(marks_install_old _ (hs.built t m hm)).trans hm,rfl⟩

/-- Between two states of a run, a flag turns at a probe that reached the threshold. -/
theorem turned_between {events : List (Event F)} {s s' : State F} (hs : Recorded s)
    (hrun : exec step s events = some s') {t : ℕ × ℕ} {m m' : String × Bool}
    (hm : marks s.balancers t = some m) (hm' : marks s'.balancers t = some m') (hturned : m'.2 ≠ m.2) :
    ∃ h p, s.history <+: h ∧ h++[p] <+: s'.history ∧ p.target = t ∧ p.address = m.1 ∧ p.healthyNow = m'.2 ∧
      threshold p.cfg m'.2 ≤ streak m'.2 (toAddress m.1) (h++[p]) := by
  induction events generalizing s m with
  | nil =>
    have heq : s = s' := by simpa [exec] using hrun
    subst heq
    rw [hm] at hm'
    cases hm'
    exact absurd rfl hturned
  | cons e events ih =>
    obtain ⟨s₁,hstep,hrest⟩ := exec_cons.mp hrun
    obtain ⟨m₁,hm₁,haddress⟩ := mark_kept hs hstep hm
    by_cases hflag : m'.2 = m₁.2
    · rw [hflag] at hturned ⊢
      obtain ⟨p,hhistory,htarget,hp,hnow,-,hreached⟩ := turned_at_probe hs hstep hm hm₁ hturned
      rw [hhistory] at hreached
      have hgrows : s₁.history <+: s'.history :=
        exec_invariant (P := fun s₂ => s₁.history <+: s₂.history)
          (fun _ _ _ hs₂ h => hs₂.trans (history_grows h)) List.prefix_rfl hrest
      rw [hhistory] at hgrows
      exact ⟨s.history,p,List.prefix_rfl,hgrows,htarget,hp,hnow,hreached⟩
    · obtain ⟨h,p,hbefore,hafter,htarget,hp,hnow,hreached⟩ := ih (hs.step hstep) hrest hm₁ hflag
      rw [haddress] at hp hreached
      exact ⟨h,p,(history_grows hstep).trans hbefore,hafter,htarget,hp,hnow,hreached⟩

theorem healthy_after_reload {s s' : State F} (h : step s .reloadRuntime = some s') {t : ℕ × ℕ}
    {u : UpstreamRuntime} (ht : t.1 ∈ s'.router.allLbs) (hu : upstreamAt s' t = some u) : u.healthy = true := by
  cases stepped h with
  | @reloadRuntime config hsome =>
    have hnew : ¬ t.1 < s.allocated := by
      have hmem : t.1 ∈ ((Router.fromConfig config).shift s.allocated).allLbs := ht
      rw [Router.allLbs_shift] at hmem
      obtain ⟨k,-,hk⟩ := List.mem_map.mp hmem
      omega
    exact (marks_install_new hnew (marks_upstreamAt hu)).2

def SelectsAddress (lb : LoadBalancer) (address : String) : Prop :=
  ∃ place u, lb.upstreams[place]? = some u ∧ u.address = address ∧ Selects lb place

theorem pools_kept {s s' : State F} {e : Event F} (he : e ≠ .reloadRuntime) (h : step s e = some s') :
    s'.router = s.router ∧ ∀ t, (marks s'.balancers t).map Prod.fst = (marks s.balancers t).map Prod.fst := by
  cases stepped h with
  | round hdone => exact ⟨rfl,fun _ => rfl⟩
  | @probe t₀ rest u healthyNow hpending hu =>
    refine ⟨rfl,?_⟩
    intro t
    rw [marks_probed,Option.map_map]
    congr 1
    funext m
    by_cases ht : t = t₀
    · simp [ht]
    · simp [ht]
  | call op a => exact ⟨rfl,fun t => congrArg _ (marks_respond s.balancers op a t)⟩
  | reloadHealth hnone => exact ⟨rfl,fun _ => rfl⟩
  | reloadRuntime hsome => exact absurd rfl he

theorem pools_kept_run {events : List (Event F)} {s s' : State F} (hevents : ∀ e ∈ events, e ≠ .reloadRuntime)
    (hrun : exec step s events = some s') :
    s'.router = s.router ∧ ∀ t, (marks s'.balancers t).map Prod.fst = (marks s.balancers t).map Prod.fst := by
  refine exec_invariant_of (P := fun s' : State F => s'.router = s.router ∧
    ∀ t, (marks s'.balancers t).map Prod.fst = (marks s.balancers t).map Prod.fst) ?_ hevents ⟨rfl,fun _ => rfl⟩ hrun
  rintro m e m' he ⟨hrouter,hpools⟩ h
  obtain ⟨hrouter',hpools'⟩ := pools_kept he h
  exact ⟨hrouter'.trans hrouter,fun t => (hpools' t).trans (hpools t)⟩

def Recovered (such : Probe → Bool) (address : String) (before after : List Probe) : Prop :=
  ∃ h p, before <+: h ∧ h++[p] <+: after ∧ such p = true ∧
    max p.cfg.healthyThreshold.toNat 1 ≤ streak true (toAddress address) (h++[p])

theorem recovered_of_selects {events : List (Event F)} {s s' : State F} (hs : Recorded s)
    (hrun : exec step s events = some s') {t : ℕ × ℕ} {u : UpstreamRuntime} (hu : upstreamAt s t = some u)
    (hunhealthy : u.healthy = false) (hselects : Selects (s'.balancers t.1) t.2) :
    Recovered (fun p => ofUpstream t p && toAddress u.address p) u.address s.history s'.history := by
  obtain ⟨u',hu',hhealthy⟩ := healthy_of_selects hselects
  have hturned : (mark u').2 ≠ (mark u).2 := by simp [mark,hunhealthy,hhealthy]
  obtain ⟨h,p,hbefore,hafter,htarget,haddress,-,hreached⟩ :=
    turned_between hs hrun (marks_upstreamAt hu) (marks_upstreamAt hu') hturned
  simp only [mark,hhealthy] at hreached haddress
  exact ⟨h,p,hbefore,hafter,by simp [ofUpstream,toAddress,htarget,haddress],hreached⟩

/-- A reload makes every upstream of its router healthy. From then on, until enough probes of the address in a
row have succeeded, an upstream that is marked unhealthy is not selected by its balancer, and an address all of
whose upstreams in the router are marked unhealthy is selected by none of the router's balancers. -/
theorem health_across_reloads {config : Config F} {events : List (Event F)} {s₀ s₁ : State F}
    (hrun : exec step (start config) events = some s₀) (hreload : step s₀ .reloadRuntime = some s₁) :
    (∀ t u, t.1 ∈ s₁.router.allLbs → upstreamAt s₁ t = some u → u.healthy = true) ∧
    (∀ front back s₂ s₃ t u, exec step s₁ front = some s₂ → exec step s₂ back = some s₃ →
      upstreamAt s₂ t = some u → u.healthy = false →
      Recovered (ofUpstream t) u.address s₂.history s₃.history ∨ ¬ Selects (s₃.balancers t.1) t.2) ∧
    ∀ front back s₂ s₃ address, exec step s₁ front = some s₂ → exec step s₂ back = some s₃ →
      (∀ e ∈ back, e ≠ .reloadRuntime) →
      (∀ t u, t.1 ∈ s₂.router.allLbs → upstreamAt s₂ t = some u → u.address = address → u.healthy = false) →
      Recovered (toAddress address) address s₂.history s₃.history ∨
        ∀ lb ∈ s₃.router.allLbs, ¬ SelectsAddress (s₃.balancers lb) address := by
  have hrecorded : ∀ {front s₂}, exec step s₁ front = some s₂ → Recorded s₂ := by
    intro front s₂ hfront
    have hs₁ := (reachable_recorded hrun).step hreload
    exact exec_invariant (fun _ _ _ hs h => Recorded.step hs h) hs₁ hfront
  have hmono : ∀ {such such' : Probe → Bool} {address before after}, (∀ p, such p = true → such' p = true) →
      Recovered such address before after → Recovered such' address before after := by
    rintro such such' address before after himp ⟨h,p,hbefore,hafter,hp,hreached⟩
    exact ⟨h,p,hbefore,hafter,himp p hp,hreached⟩
  refine ⟨fun t u ht hu => healthy_after_reload hreload ht hu,?_,?_⟩
  · intro front back s₂ s₃ t u hfront hback hu hunhealthy
    by_cases hselects : Selects (s₃.balancers t.1) t.2
    · refine Or.inl (hmono ?_ (recovered_of_selects (hrecorded hfront) hback hu hunhealthy hselects))
      intro p hp
      exact (Bool.and_eq_true_iff.mp hp).1
    · exact Or.inr hselects
  · intro front back s₂ s₃ address hfront hback hkeeps hmarked
    obtain ⟨hrouter,hpools⟩ := pools_kept_run hkeeps hback
    by_cases hselects : ∃ lb ∈ s₃.router.allLbs, SelectsAddress (s₃.balancers lb) address
    · -- the upstream that is selected was in the same place, under the same address, and marked
      obtain ⟨lb,hlb,place,u',hu',rfl,hselects⟩ := hselects
      have hpool := hpools (lb,place)
      rw [marks_upstreamAt (s := s₃) (t := (lb,place)) hu'] at hpool
      obtain ⟨m,hm,haddress⟩ := Option.map_eq_some_iff.mp hpool.symm
      obtain ⟨u,hu,rfl⟩ := Option.map_eq_some_iff.mp hm
      have hsame : u.address = u'.address := haddress
      have hunhealthy := hmarked (lb,place) u (hrouter ▸ hlb) hu hsame
      have hrecovered := recovered_of_selects (hrecorded hfront) hback hu hunhealthy hselects
      rw [hsame] at hrecovered
      exact Or.inl (hmono (fun p hp => (Bool.and_eq_true_iff.mp hp).2) hrecovered)
    · refine Or.inr ?_
      intro lb hlb hsel
      exact hselects ⟨lb,hlb,hsel⟩

def oneBackend : Config ℚ := .ofPools [⟨"http://10.0.0.1:80",1⟩] []

def downThenReloaded : List (Event ℚ) :=
  [.round,.probe false,.round,.probe false,.round,.probe false,.reloadHealth oneBackend]

/-- Both pools of the shared backend are loaded again; then a round fails, and the first probe of the next. -/
def reloadedThenDown : List (Event ℚ) := .reloadHealth sharedConfig::.reloadRuntime::failingRounds

/-- A reload forgets that the backend is down: it is selected again without a probe of it having
succeeded. And after a reload, a backend of two pools that is marked in one of them is still selected in the
other, with no probe of it having succeeded either. -/
theorem selected_without_success :
    (∃ s s' u u', exec step (start oneBackend) downThenReloaded = some s ∧
      s.router.allLbs = [0] ∧ upstreamAt s (0,0) = some u ∧ u.healthy = false ∧
      step s .reloadRuntime = some s' ∧ s'.router.allLbs = [1] ∧
      ((s'.balancers 1).selectExcluding []).1 = some u' ∧ u'.1.address = u.address ∧
      ∀ p ∈ s'.history, p.healthyNow = false) ∧
    ∃ s u u', exec step (start sharedConfig) reloadedThenDown = some s ∧
      s.router.allLbs = [2,3] ∧ upstreamAt s (2,0) = some u ∧ u.healthy = false ∧
      ((s.balancers 3).selectExcluding []).1 = some u' ∧ u'.1.address = u.address ∧
      ∀ p ∈ s.history, p.healthyNow = false := by
  have hshown : (exec step (start oneBackend) downThenReloaded).bind (fun s =>
      (step s .reloadRuntime).map fun s' => ((s.router.allLbs,upstreamAt s (0,0)),s'.router.allLbs,
        ((s'.balancers 1).selectExcluding []).1,s'.history.all fun p => !p.healthyNow)) =
      some (([0],some ⟨"http://10.0.0.1:80",1,false,0⟩),[1],some (⟨"http://10.0.0.1:80",1,true,0⟩,0),true) := by
    decide +kernel
  have hshared : (exec step (start sharedConfig) reloadedThenDown).map (fun s =>
      (s.router.allLbs,upstreamAt s (2,0),((s.balancers 3).selectExcluding []).1,
        s.history.all fun p => !p.healthyNow)) =
      some ([2,3],some ⟨"http://10.0.0.1:80",1,false,0⟩,some (⟨"http://10.0.0.1:80",1,true,0⟩,0),true) := by
    decide +kernel
  refine ⟨?_,?_⟩
  · obtain ⟨s,hrun,hnext⟩ := Option.bind_eq_some_iff.mp hshown
    obtain ⟨s',hstep,hpair⟩ := Option.map_eq_some_iff.mp hnext
    simp only [Prod.mk.injEq] at hpair
    obtain ⟨⟨hrouter,hu⟩,hrouter',hselect,hfailed⟩ := hpair
    exact ⟨s,s',_,_,hrun,hrouter,hu,rfl,hstep,hrouter',hselect,rfl,by simpa using hfailed⟩
  · obtain ⟨s,hrun,hpair⟩ := Option.map_eq_some_iff.mp hshared
    simp only [Prod.mk.injEq] at hpair
    obtain ⟨hrouter,hu,hselect,hfailed⟩ := hpair
    exact ⟨s,_,_,hrun,hrouter,hu,rfl,hselect,rfl,by simpa using hfailed⟩

/-- After the reload the backend is marked unhealthy again by one more failure, as the counters
have gone on. -/
theorem health_across_reloads_backend : ∃ s₀ s₁ s₂ u, exec step (start oneBackend) downThenReloaded = some s₀ ∧
    step s₀ .reloadRuntime = some s₁ ∧ exec step s₁ [.round,.probe false] = some s₂ ∧
    upstreamAt s₂ (1,0) = some u ∧ u.healthy = false ∧
    (∀ back s₃, exec step s₂ back = some s₃ →
      Recovered (ofUpstream (1,0)) u.address s₂.history s₃.history ∨ ¬ Selects (s₃.balancers 1) 0) ∧
    ∀ back s₃, exec step s₂ back = some s₃ → (∀ e ∈ back, e ≠ .reloadRuntime) →
      Recovered (toAddress u.address) u.address s₂.history s₃.history ∨
        ∀ lb ∈ s₃.router.allLbs, ¬ SelectsAddress (s₃.balancers lb) u.address := by
  have hshown : (exec step (start oneBackend) downThenReloaded).bind (fun s₀ =>
      (step s₀ .reloadRuntime).bind fun s₁ => (exec step s₁ [.round,.probe false]).map fun s₂ =>
        (s₂.router.allLbs,(s₂.balancers 1).upstreams)) =
      some ([1],[⟨"http://10.0.0.1:80",1,false,0⟩]) := by
    decide +kernel
  obtain ⟨s₀,hrun,hnext⟩ := Option.bind_eq_some_iff.mp hshown
  obtain ⟨s₁,hreload,hnext⟩ := Option.bind_eq_some_iff.mp hnext
  obtain ⟨s₂,hfront,hpair⟩ := Option.map_eq_some_iff.mp hnext
  simp only [Prod.mk.injEq] at hpair
  obtain ⟨hrouter,hpool⟩ := hpair
  have hu : upstreamAt s₂ (1,0) = some ⟨"http://10.0.0.1:80",1,false,0⟩ := by simp [upstreamAt,hpool]
  have hmarked : ∀ t u, t.1 ∈ s₂.router.allLbs → upstreamAt s₂ t = some u → u.address = "http://10.0.0.1:80" →
      u.healthy = false := by
    intro t u ht hat _
    have hlb : t.1 = 1 := by simpa [hrouter] using ht
    have hmem : u ∈ (s₂.balancers t.1).upstreams := List.mem_of_getElem? hat
    rw [hlb,hpool] at hmem
    cases List.mem_singleton.mp hmem
    rfl
  obtain ⟨-,hupstream,haddress⟩ := health_across_reloads hrun hreload
  exact ⟨s₀,s₁,s₂,_,hrun,hreload,hfront,hu,rfl,fun back s₃ hback => hupstream _ back s₂ s₃ (1,0) _ hfront hback hu rfl,
    fun back s₃ hback hkeeps => haddress _ back s₂ s₃ _ hfront hback hkeeps hmarked⟩

end Health
end OxiGate
