import OxiGate.Accounting
import OxiGate.Guards
import OxiGate.Metrics
import OxiGate.RateLimit

/-! All requests in flight, over everything they share: the balancers, the request limits, the rate
limiters, the metrics and the clock. Only what upstreams answer is left to the world. A request holds
its permit until it ends or is dropped. -/
namespace OxiGate
namespace Requests

open Net Http Lb RateLimit Gcra Interaction Runs Tasks Guards Proxy Accounting Metrics

variable {F : Type} [F64 F]

structure World (F : Type) where
  balancers : Balancers
  free : ℕ → ℕ
  limiters : ℕ → RateLimiter F
  clock : ℕ
  metrics : Registry

/-- The answer and effect of a call. -/
def respond (w : World F) : (op : Op) → op.Ans → op.Ans × World F
  | .now, _ => (w.clock,w)
  | .tryAcquire k, _ =>
    if w.free k = 0 then (false,w) else (true,{ w with free := Function.update w.free k (w.free k-1) })
  | .check k ip, _ =>
    let r := (w.limiters k).check ip w.clock
    (r.1,{ w with limiters := Function.update w.limiters k r.2 })
  | .metric m, _ => ((),{ w with metrics := w.metrics.record m })
  | op, a =>
    let r := Accounting.respond w.balancers op a
    (r.1,{ w with balancers := r.2 })

/-- What comes from elsewhere: a health check with its gauge, time, the cleanup of a limiter, and connections
that are shed, opened and closed. -/
inductive Change
  | health (c : HealthCheck)
  | elapse (duration : ℕ)
  | cleanup (limiter maxIdle : ℕ)
  | shed
  | opened
  | closed

def Change.apply : Change → World F → World F
  | .health c, w =>
    { w with
      balancers := c.apply w.balancers
      metrics :=
        match (w.balancers c.lb).upstreams[c.place]? with
        | some u => w.metrics.setHealth u.address c.healthy
        | none => w.metrics }
  | .elapse duration, w => { w with clock := w.clock+duration }
  | .cleanup k maxIdle, w =>
    { w with limiters := Function.update w.limiters k ((w.limiters k).cleanup maxIdle w.clock) }
  | .shed, w => { w with metrics := w.metrics.recordShed }
  | .opened, w => { w with metrics := w.metrics.connectionOpened }
  | .closed, w => { w with metrics := w.metrics.connectionClosed }

/-- What a request has between its calls: its permits, the upstreams whose gauge it has raised,
whether the rate limiter let it in, and how many attempts it has made. -/
structure Held where
  permits : List ℕ
  gauged : List String
  admitted : Bool
  attempts : ℕ
  deriving DecidableEq

def after : (op : Op) → op.Ans → Held → Held
  | .tryAcquire k, granted, held => if granted = true then { held with permits := k::held.permits } else held
  | .check _ _, allowed, held => { held with admitted := allowed }
  | .request _ _ _, _, held => { held with attempts := held.attempts+1 }
  | .metric (.upstreamConnectionsInc a), _, held => { held with gauged := a::held.gauged }
  | .metric (.upstreamConnectionsDec a), _, held => { held with gauged := held.gauged.erase a }
  | _, _, held => held

/-- A dropped permit goes back to its request limit; a gauge stays as it is. -/
def release (held : Held) (w : World F) : World F := { w with free := fun k => w.free k+held.permits.count k }

def requests [HttpCrate] : Guarded Op.Ans (World F) Response Arrival Change Held where
  program r := proxyRequest r.ctx r.req r.remoteAddr
  respond := respond
  awaits := awaits
  change := Change.apply
  initial := ⟨[],[],false,0⟩
  after := after
  release := release

abbrev RequestState (F : Type) := State Op.Ans (World F) Response Arrival Held

abbrev Event := Label Op.Ans Arrival Change

structure Ready (r : Arrival) (held : Held) : Prop where
  permits : held.permits = r.ctx.requestLimit.toList
  admitted : r.ctx.rateLimiter ≠ none → held.admitted = true

/-- The upstreams whose gauge is raised while the answer of one is awaited. -/
def gaugedFor [HttpCrate] (r : Arrival) (u : UpstreamRef) : List String :=
  if isUpgradeRequest r.req.parts then [] else [u.address]

def may [HttpCrate] (r : Arrival) : Op → Held → Prop
  | .tryAcquire k, held => r.ctx.requestLimit = some k ∧ held.permits = []
  | .check k ip, held => r.ctx.rateLimiter = some k ∧ r.remoteAddr.ip = ip ∧ held.attempts = 0
  | .collectBody, held => Ready r held ∧ held.gauged = []
  | .request u _ _, held => Ready r held ∧ held.gauged = gaugedFor r u ∧ held.attempts ≤ r.ctx.retries
  | .metric (.upstreamConnectionsInc _), held => held.gauged = []
  | .metric (.upstreamConnectionsDec a), held => held.gauged = [a]
  | _, _ => True

section Program

variable [HttpCrate] {r : Arrival} {held : Held}

def Steady (r : Arrival) (held : Held) {β : Type} (p : Handler β) : Prop :=
  Follows after (may r) p held fun _ held' => held' = held

theorem Steady.bind {β γ : Type} {p : Handler β} {f : β → Handler γ} {Q : γ → Held → Prop}
    (hp : Steady r held p) (hf : ∀ b, Follows after (may r) (f b) held Q) :
    Follows after (may r) (p >>= f) held Q := by
  refine Follows.bind hp ?_
  rintro b held' rfl
  exact hf b

theorem Steady.ends {β : Type} {p : Handler β} {Q : β → Held → Prop} (hp : Steady r held p)
    (hQ : ∀ b, Q b held) : Follows after (may r) p held Q := by
  refine Follows.mono hp ?_
  rintro b held' rfl
  exact hQ b

theorem steady_pure {β : Type} (b : β) : Steady r held (pure b) := rfl

theorem steady_perform {op : Op} (hmay : may r op held) (hafter : ∀ a, after op a held = held) :
    Steady r held (perform op) := ⟨hmay,hafter⟩

theorem steady_now : Steady r held (perform .now) := steady_perform trivial fun _ => rfl

theorem steady_log (e : LogEntry) : Steady r held (perform (.log e)) := steady_perform trivial fun _ => rfl

theorem reject_steady (method : String) (status : ℕ) (msg : String) :
    Steady r held (reject method status msg) :=
  Steady.bind (steady_perform trivial fun _ => rfl) fun _ => steady_pure _

theorem countAnswer_steady (method : String) (status : ℕ) (address : String) (start : ℕ) :
    Steady r held (countAnswer method status address start) :=
  steady_now.bind fun _ => Steady.bind (steady_perform trivial fun _ => rfl) fun _ =>
    Steady.bind (steady_perform trivial fun _ => rfl) fun _ => steady_pure _

theorem allAttemptsFailed_steady (fw : Forwarding) (lastError : Option String) :
    Steady r held (allAttemptsFailed fw lastError) :=
  (steady_log _).bind fun _ => reject_steady ..

theorem succeed_steady (fw : Forwarding) (attempt : ℕ) (u : UpstreamRef) (response : Response) :
    Steady r held (succeed fw attempt u response) := by
  refine (countAnswer_steady ..).bind fun _ => ?_
  by_cases hlog : fw.ctx.accessLog = true
  · simp only [hlog,if_true]
    exact (steady_log _).bind fun _ => steady_pure _
  · simp only [hlog]
    exact steady_pure _

theorem selectUpstream_steady (fw : Forwarding) (attempt : ℕ) (tried : List String) :
    Steady r held (selectUpstream fw attempt tried) := by
  unfold selectUpstream
  split
  · exact steady_perform trivial fun _ => rfl
  · exact Steady.bind (steady_perform trivial fun _ => rfl) fun _ => steady_perform trivial fun _ => rfl

theorem attemptProxy_follows {a : ProxyAttempt} {Q : Except String Response → Held → Prop} (hready : Ready r held)
    (hgauged : held.gauged = gaugedFor r a.upstream) (hattempts : held.attempts ≤ r.ctx.retries)
    (hsent : ∀ b, Q b { held with attempts := held.attempts+1 }) (hunsent : ∀ b, Q b held) :
    Follows after (may r) (attemptProxy a) held Q := by
  unfold attemptProxy
  split
  · exact hunsent _
  · exact ⟨⟨hready,hgauged,hattempts⟩,fun _ => hsent _⟩

/-- Between attempts, with at most so many of them made. -/
structure Quiet (r : Arrival) (n : ℕ) (held : Held) : Prop where
  ready : Ready r held
  gauged : held.gauged = []
  attempts : held.attempts ≤ n

theorem countedAttempt_follows (hplain : isUpgradeRequest r.req.parts = false) (fw : Forwarding) (u : UpstreamRef)
    {n : ℕ} (hn : n ≤ r.ctx.retries) (h : Quiet r n held) :
    Follows after (may r) (countedAttempt fw u) held fun _ held' => Quiet r (n+1) held' := by
  have hraised : u.address::held.gauged = gaugedFor r u := by
    simp [gaugedFor,hplain,h.gauged]
  have hattempt : Follows after (may r) (attemptProxy (proxyAttempt fw.ctx fw.parts fw.remoteAddr fw.body false u))
      { held with gauged := u.address::held.gauged }
      fun _ held' => Ready r held' ∧ held'.gauged = [u.address] ∧ held'.attempts ≤ n+1 := by
    have hready : ∀ m, Ready r { held with gauged := u.address::held.gauged, attempts := m } :=
      fun _ => ⟨h.ready.permits,h.ready.admitted⟩
    have hone : u.address::held.gauged = [u.address] := congrArg (u.address::·) h.gauged
    refine attemptProxy_follows (hready _) hraised (h.attempts.trans hn) ?_ ?_
    · intro b
      exact ⟨hready _,hone,Nat.succ_le_succ h.attempts⟩
    · intro b
      exact ⟨hready _,hone,h.attempts.trans (Nat.le_succ n)⟩
  refine Steady.bind (steady_perform trivial fun _ => rfl) fun _ => ?_
  refine follows_perform_bind.mpr ⟨h.gauged,fun _ => Follows.bind hattempt ?_⟩
  rintro b held' ⟨hready,hgauged,hattempts⟩
  refine Steady.bind (steady_perform trivial fun _ => rfl) fun _ => ⟨hgauged,fun _ => ?_⟩
  refine ⟨⟨hready.permits,hready.admitted⟩,?_,hattempts⟩
  show held'.gauged.erase u.address = []
  rw [hgauged,List.erase_cons_head]

theorem attemptLoop_follows (hplain : isUpgradeRequest r.req.parts = false) (fw : Forwarding)
    (left attempt : ℕ) (tried : List String) (lastError : Option String)
    (hleft : attempt+left ≤ r.ctx.retries+1) (h : Quiet r attempt held) :
    Follows after (may r) (attemptLoop fw left attempt tried lastError) held fun _ held' => held'.gauged = [] := by
  induction left generalizing attempt tried lastError held with
  | zero => exact (allAttemptsFailed_steady fw lastError).ends fun _ => h.gauged
  | succ left ih =>
    refine (selectUpstream_steady fw attempt tried).bind fun selected => ?_
    cases selected with
    | none => exact (allAttemptsFailed_steady fw lastError).ends fun _ => h.gauged
    | some u =>
      refine Follows.bind (countedAttempt_follows hplain fw u (by omega) h) ?_
      intro result held' hquiet
      cases result with
      | ok response => exact (succeed_steady fw attempt u response).ends fun _ => hquiet.gauged
      | error e => exact (steady_log _).bind fun _ => ih (attempt+1) _ _ (by omega) hquiet

omit [HttpCrate] in
theorem maxAttempts_le (ctx : ProxyContext) (method : String) (body : List UInt8) :
    maxAttempts ctx method body ≤ ctx.retries+1 := by
  unfold maxAttempts
  split
  · exact min_le_left _ _
  · omega

theorem proxyPlain_follows (hplain : isUpgradeRequest r.req.parts = false) (lb start : ℕ) (h : Quiet r 0 held) :
    Follows after (may r) (proxyPlain r.ctx r.req r.remoteAddr lb start) held fun _ held' => held'.gauged = [] := by
  refine steady_now.bind fun now => ?_
  refine Steady.bind (steady_perform ⟨h.ready,h.gauged⟩ fun _ => rfl) fun _ => ?_
  split
  · exact attemptLoop_follows hplain _ _ _ _ _ (by rw [zero_add]; exact maxAttempts_le ..) h
  · exact (reject_steady ..).ends fun _ => h.gauged
  · exact (reject_steady ..).ends fun _ => h.gauged
  · exact (steady_log _).bind fun _ => h.gauged

theorem proxyUpgrade_follows (hupgrade : isUpgradeRequest r.req.parts = true) (lb start : ℕ) (h : Quiet r 0 held) :
    Follows after (may r) (proxyUpgrade r.ctx r.req r.remoteAddr lb start) held
      fun _ held' => held'.gauged = [] := by
  refine Steady.bind (steady_perform trivial fun _ => rfl) fun selected => ?_
  cases selected with
  | none => exact h.gauged
  | some u =>
    refine Steady.bind (steady_perform trivial fun _ => rfl) fun _ => ?_
    have hgauged : held.gauged = gaugedFor r u := by
      simp [gaugedFor,hupgrade,h.gauged]
    refine Follows.bind (attemptProxy_follows (Q := fun _ held' => held'.gauged = []) h.ready hgauged
      (h.attempts.trans (Nat.zero_le _)) (fun _ => h.gauged) fun _ => h.gauged) ?_
    intro result held' hgauged'
    refine Steady.bind (steady_perform trivial fun _ => rfl) fun _ => ?_
    cases result with
    | error e => exact hgauged'
    | ok response =>
      refine (countAnswer_steady ..).bind fun _ => ?_
      by_cases hswitch : response.status = 101
      · simp only [hswitch,if_true]
        exact Steady.bind (steady_perform trivial fun _ => rfl) fun _ => hgauged'
      · simp only [hswitch,if_false]
        exact hgauged'

theorem acquirePermit_follows :
    Follows after (may r) (acquirePermit r.ctx) ⟨[],[],false,0⟩ fun permitted held =>
      held = ⟨if permitted then r.ctx.requestLimit.toList else [],[],false,0⟩ := by
  unfold acquirePermit
  cases hlimit : r.ctx.requestLimit with
  | none => rfl
  | some k =>
    refine ⟨⟨hlimit,rfl⟩,fun granted => ?_⟩
    cases granted with
    | false => rfl
    | true => rfl

theorem checkRate_follows {permits : List ℕ} :
    Follows after (may r) (checkRate r.ctx r.remoteAddr.ip) ⟨permits,[],false,0⟩ fun withinRate held =>
      held.gauged = [] ∧ (withinRate = true → held.permits = permits ∧ held.attempts = 0 ∧
        (r.ctx.rateLimiter ≠ none → held.admitted = true)) := by
  unfold checkRate
  cases hlimiter : r.ctx.rateLimiter with
  | none => exact ⟨rfl,fun _ => ⟨rfl,rfl,fun h => absurd rfl h⟩⟩
  | some k =>
    refine ⟨⟨hlimiter,rfl,rfl⟩,fun allowed => ?_⟩
    cases allowed with
    | false => exact ⟨trivial,fun _ => ⟨rfl,fun h => Bool.noConfusion h⟩⟩
    | true => exact ⟨trivial,fun _ => ⟨rfl,fun _ => ⟨rfl,rfl,fun _ => rfl⟩⟩⟩

/-- A request awaits a body or an answer only when its limits have let it in, makes no more attempts
than it may, and lowers every gauge it has raised. -/
theorem proxyRequest_follows (r : Arrival) :
    Follows after (may r) (proxyRequest r.ctx r.req r.remoteAddr) ⟨[],[],false,0⟩
      fun _ held => held.gauged = [] := by
  refine steady_now.bind fun start => ?_
  refine Follows.bind acquirePermit_follows ?_
  rintro permitted held rfl
  cases permitted with
  | false => exact (reject_steady ..).ends fun _ => rfl
  | true =>
    simp only [Bool.not_true,Bool.false_eq_true,if_false,if_true]
    split
    · exact (reject_steady ..).ends fun _ => rfl
    refine Follows.bind checkRate_follows ?_
    rintro withinRate held ⟨hgauged,hwithin⟩
    cases withinRate with
    | false => exact (reject_steady ..).ends fun _ => hgauged
    | true =>
      obtain ⟨hpermits,hattempts,hadmitted⟩ := hwithin rfl
      have hquiet : Quiet r 0 held := ⟨⟨hpermits,hadmitted⟩,hgauged,hattempts.le⟩
      simp only [Bool.not_true,Bool.false_eq_true,if_false]
      split
      · exact (reject_steady ..).ends fun _ => hgauged
      split
      · rename_i hupgrade
        exact proxyUpgrade_follows hupgrade _ start hquiet
      · rename_i hplain
        exact proxyPlain_follows (by simpa using hplain) _ start hquiet

end Program

/-- The balancers are a part of the world that answers its own calls as the whole does. -/
theorem requests_part [HttpCrate] : Part (requests (F := F)) proxySetting World.balancers where
  program _ := rfl
  awaits := rfl
  respond := by
    intro w op a
    cases op with
    | tryAcquire k =>
      simp only [requests,proxySetting,respond,Accounting.respond]
      split <;> rfl
    | _ => rfl
  release _ _ := rfl
  change := by
    intro x w
    cases x with
    | health c => exact Or.inr ⟨c,rfl⟩
    | _ => exact Or.inl rfl

section Samples

def smallWorld : World ℚ := ⟨onePool,fun _ => 1,fun _ => RateLimiter.new twoPerSecond,0,Registry.new⟩

def limitedArrival : Arrival :=
  { getArrival with ctx := { basicContext 0 with requestLimit := some 0, rateLimiter := some 0 } }

/-- A request is dropped while it awaits its answer, half a second later another one awaits its answer, and a
third is refused the permit. -/
def busyRun : List Event :=
  .spawn limitedArrival::List.replicate 9 (.advance 0 bareWorld)++
    .cancel 0::.change (.elapse 500000000)::.spawn limitedArrival::List.replicate 9 (.advance 0 bareWorld)++
    .spawn limitedArrival::List.replicate 3 (.advance 1 bareWorld)++[.retire 1]

end Samples

variable [HttpCrate]

theorem requests_follow (r : Arrival) : Follows (requests (F := F)).after (may r) ((requests (F := F)).program r)
    (requests (F := F)).initial fun _ held => held.gauged = [] :=
  proxyRequest_follows r

section RequestLimit

def permitLedger (k : ℕ) : Ledger (requests (F := F)) may where
  level w := w.free k
  weight held := held.permits.count k
  loss _ := 0
  weight_initial := rfl
  level_respond := by
    intro w r op a held hmay
    cases op with
    | tryAcquire j =>
      by_cases hfree : w.free j = 0
      · simp [requests,respond,after,hfree]
      · by_cases hk : k = j
        · subst hk
          simp [requests,respond,after,hfree]
          omega
        · simp [requests,respond,after,hfree,hk,Ne.symm hk]
    | metric m => cases m <;> rfl
    | _ => rfl
  level_release := by
    intro w held
    simp [requests,release]
  level_change := by
    intro w x
    cases x <;> rfl

def holdsPermit (k : ℕ) (t : Holder Op.Ans Response Arrival Held) : Bool := t.held.permits.contains k

def suspendedUnder (k : ℕ) (t : Holder Op.Ans Response Arrival Held) : Bool :=
  match t.task.rest with
  | .call op _ => awaits op && decide (t.origin.ctx.requestLimit = some k)
  | .pure _ => false

/-- A limit lets in no more requests than it has permits, and turns a request away only when that many
hold one. Whatever became of earlier requests, all permits are there when none is in flight. -/
structure WithinLimits (capacity : ℕ → ℕ) (s : RequestState F) : Prop where
  conserved : ∀ k, s.shared.free k+s.holders.countP (holdsPermit k) = capacity k
  suspended : ∀ k, s.holders.countP (suspendedUnder k) ≤ capacity k
  refused : ∀ k a, (respond s.shared (.tryAcquire k) a).1 = false ↔ s.holders.countP (holdsPermit k) = capacity k
  idle : s.holders = [] → s.shared.free = capacity

variable {w : World F} {events : List Event} {s : RequestState F}

theorem permits_nodup (hrun : exec requests.step ⟨w,[]⟩ events = some s) :
    ∀ t ∈ s.holders, t.held.permits.Nodup := by
  refine held_of_run (P := fun _ held => held.permits.Nodup) requests_follow ?_ ?_ hrun
  · intro r
    exact List.nodup_nil
  · intro r op a held hmay hnodup
    cases op with
    | tryAcquire k =>
      have hnone : held.permits = [] := hmay.2
      simp only [requests,after]
      split
      · simp [hnone]
      · exact hnodup
    | metric m => cases m <;> exact hnodup
    | _ => exact hnodup

theorem holdsPermit_of_suspended (hrun : exec requests.step ⟨w,[]⟩ events = some s) {k : ℕ} :
    ∀ t ∈ s.holders, suspendedUnder k t = true → holdsPermit k t = true := by
  rintro ⟨r,⟨rest,done⟩,held⟩ ht hsuspended
  have horderly := orderly_of_run requests_follow hrun _ ht
  cases rest with
  | pure response => cases hsuspended
  | call op next =>
    obtain ⟨hawaits,hlimit⟩ : awaits op = true ∧ r.ctx.requestLimit = some k := by
      simpa [suspendedUnder] using hsuspended
    have hready : Ready r held := by
      cases op with
      | collectBody => exact horderly.1.1
      | request u out timeout => exact horderly.1.1
      | _ => cases hawaits
    simp [holdsPermit,hready.permits,hlimit]

theorem requestLimit_exact (hrun : exec requests.step ⟨w,[]⟩ events = some s) : WithinLimits w.free s := by
  have hconserved : ∀ k, s.shared.free k+s.holders.countP (holdsPermit k) = w.free k := by
    intro k
    have hbalance : (s.shared.free k : ℤ)+(permitLedger (F := F) k).inHand s = w.free k :=
      (permitLedger k).balance_of_lossless requests_follow (fun _ => rfl) hrun
    have hinHand : (permitLedger (F := F) k).inHand s = s.holders.countP (holdsPermit k) := by
      refine sum_map_eq_countP ?_
      intro t ht
      simpa [holdsPermit,permitLedger] using (permits_nodup hrun t ht).count
    omega
  refine ⟨hconserved,?_,?_,?_⟩
  · intro k
    have hle : s.holders.countP (suspendedUnder k) ≤ s.holders.countP (holdsPermit k) :=
      List.countP_mono_left (holdsPermit_of_suspended hrun)
    have hsum := hconserved k
    omega
  · intro k a
    have hsum := hconserved k
    have hanswer : (respond s.shared (.tryAcquire k) a).1 = false ↔ s.shared.free k = 0 := by
      by_cases hfree : s.shared.free k = 0
      · simp [respond,hfree]
      · simp [respond,hfree]
    rw [hanswer]
    omega
  · intro hidle
    funext k
    have hsum := hconserved k
    simpa [hidle] using hsum

omit [HttpCrate] [F64 F] in
theorem requestLimit_exact_busy :
    ∃ s, exec (@requests ℚ _ visibleAscii).step ⟨smallWorld,[]⟩ busyRun = some s ∧
      s.shared.free 0 = 0 ∧ s.holders.countP (holdsPermit 0) = 1 ∧ s.holders.countP (suspendedUnder 0) = 1 ∧
      s.shared.metrics.requests ("GET","503","none") = 1 ∧ WithinLimits (fun _ => 1) s := by
  have hshown : (exec (@requests ℚ _ visibleAscii).step ⟨smallWorld,[]⟩ busyRun).map (fun s =>
      (s.shared.free 0,s.holders.countP (holdsPermit 0),s.holders.countP (suspendedUnder 0),
        s.shared.metrics.requests ("GET","503","none"))) = some (0,1,1,1) := by decide +kernel
  obtain ⟨s,hs,hpair⟩ := Option.map_eq_some_iff.mp hshown
  simp only [Prod.mk.injEq] at hpair
  obtain ⟨hfree,hholds,hsuspended,hrefused⟩ := hpair
  exact ⟨s,hs,hfree,hholds,hsuspended,hrefused,@requestLimit_exact ℚ _ visibleAscii _ _ _ hs⟩

end RequestLimit

section Gauges

/-- `oxigate_upstream_connections` of an upstream, counted down from what it is. -/
def gaugeLedger (a : String) : Ledger (requests (F := F)) may where
  level w := -w.metrics.connections a
  weight held := held.gauged.count a
  loss held := held.gauged.count a
  weight_initial := rfl
  level_respond := by
    intro w r op b held hmay
    cases op with
    | tryAcquire j =>
      simp only [requests,respond,after]
      by_cases hfree : w.free j = 0
      · simp [hfree]
      · simp [hfree]
    | metric m =>
      cases m with
      | upstreamConnectionsInc u =>
        simp only [requests,respond,after,Registry.record,Registry.connections,Children.value_update]
        by_cases hu : a = u
        · subst hu
          simp only [if_true,List.count_cons_self]
          push_cast
          ring
        · simp [hu,Ne.symm hu]
      | upstreamConnectionsDec u =>
        have hgauged : held.gauged = [u] := hmay
        simp only [requests,respond,after,Registry.record,Registry.connections,Children.value_update,hgauged]
        by_cases hu : a = u
        · subst hu
          simp
          ring
        · simp [hu,Ne.symm hu]
      | _ => rfl
    | _ => rfl
  level_release := by
    intro w held
    rfl
  level_change := by
    intro w x
    cases x with
    | health c =>
      simp only [requests,Change.apply]
      split <;> rfl
    | _ => rfl

def awaitingPlain (t : Holder Op.Ans Response Arrival Held) : Option String :=
  match t.task.rest with
  | .call (.request u _ _) _ => (gaugedFor t.origin u).head?
  | _ => none

def abandoned (a : String) (s : RequestState F) : Event → ℕ
  | .cancel i => (s.holders[i]?.map fun t => if awaitingPlain t = some a then 1 else 0).getD 0
  | _ => 0

variable {w : World F} {events : List Event} {s : RequestState F}

/-- A suspended request has raised the gauge of the upstream whose answer it awaits, and no other. -/
theorem gauged_of_suspended {t : Holder Op.Ans Response Arrival Held}
    (horderly : Orderly (requests (F := F)) may (fun _ held => held.gauged = []) t)
    (hunstarted : t.task.done = [] → t.held = (requests (F := F)).initial)
    (hdrop : (requests (F := F)).canDrop t.task = true) : t.held.gauged = (awaitingPlain t).toList := by
  rcases t with ⟨r,⟨rest,done⟩,held⟩
  by_cases hdone : done = []
  · have hheld : held = ⟨[],[],false,0⟩ := hunstarted hdone
    subst hheld
    cases rest with
    | pure response => rfl
    | call op next =>
      cases op with
      | request u out timeout =>
        have hnone : [] = gaugedFor r u := horderly.1.2.1
        simp [awaitingPlain,← hnone]
      | _ => rfl
  · cases rest with
    | pure response => simp [Setting.canDrop,hdone] at hdrop
    | call op next =>
      have hwait : awaits op = true := by
        simpa [Setting.canDrop,hdone,requests] using hdrop
      cases op with
      | collectBody => exact horderly.1.2
      | request u out timeout =>
        have hgauged : held.gauged = gaugedFor r u := horderly.1.2.1
        simp only [awaitingPlain,hgauged,gaugedFor]
        split <;> rfl
      | _ => cases hwait

/-- While every request is suspended, the gauge shows the plain requests that await the upstream's answer,
and every one that was ever dropped while it did. -/
theorem upstreamConnections_exact (hrun : exec requests.step ⟨w,[]⟩ events = some s)
    (hsuspended : ∀ t ∈ s.holders, (requests (F := F)).canDrop t.task = true) (a : String) :
    s.shared.metrics.connections a = w.metrics.connections a+
      s.holders.countP (fun t => awaitingPlain t = some a)+tally requests.step (abandoned a) ⟨w,[]⟩ events := by
  have hgauged : ∀ {front s' t}, exec requests.step ⟨w,[]⟩ front = some s' → t ∈ s'.holders →
      (requests (F := F)).canDrop t.task = true →
      t.held.gauged.count a = if awaitingPlain t = some a then 1 else 0 := by
    intro front s' t hfront ht hdrop
    rw [gauged_of_suspended (orderly_of_run requests_follow hfront t ht) (held_of_unstarted hfront t ht) hdrop]
    exact count_toList _ a
  have hbalance : -s.shared.metrics.connections a+(gaugeLedger (F := F) a).inHand s+
      tally requests.step (gaugeLedger (F := F) a).lost ⟨w,[]⟩ events = -w.metrics.connections a :=
    (gaugeLedger a).balance requests_follow hrun
  have hinHand : (gaugeLedger (F := F) a).inHand s = s.holders.countP fun t => awaitingPlain t = some a := by
    refine sum_map_eq_countP ?_
    intro t ht
    simpa [gaugeLedger] using hgauged hrun ht (hsuspended t ht)
  have hlost : tally requests.step (gaugeLedger (F := F) a).lost ⟨w,[]⟩ events =
      tally requests.step (abandoned a) ⟨w,[]⟩ events := by
    refine tally_congr ?_ hrun
    intro front l back m _ hfront m' hstep
    cases Guarded.stepped hstep with
    | @retire i r response done held hget =>
      -- a request that ends has lowered every gauge it raised
      have hnone : held.gauged = [] := orderly_of_run requests_follow hfront _ (List.mem_of_getElem? hget)
      simp [Ledger.lost,abandoned,gaugeLedger,hget,hnone]
    | @cancel i t hget hdrop =>
      have hcount := hgauged hfront (List.mem_of_getElem? hget) hdrop
      simp [Ledger.lost,abandoned,gaugeLedger,hget,hcount]
    | _ => rfl
  rw [hlost,hinHand] at hbalance
  omega

omit [HttpCrate] [F64 F] in
theorem busyRun_suspended : ∃ s, exec (@requests ℚ _ visibleAscii).step ⟨smallWorld,[]⟩ busyRun = some s ∧
    (∀ t ∈ s.holders, (@requests ℚ _ visibleAscii).canDrop t.task = true) ∧
    s.holders.countP (fun t => @awaitingPlain visibleAscii t = some "http://10.0.0.1:80") = 1 ∧
    s.holders.countP (fun t => awaiting t.task = some (0,0)) = 1 := by
  have hshown : (exec (@requests ℚ _ visibleAscii).step ⟨smallWorld,[]⟩ busyRun).map (fun s =>
      (s.holders.all fun t => (@requests ℚ _ visibleAscii).canDrop t.task,
        s.holders.countP (fun t => @awaitingPlain visibleAscii t = some "http://10.0.0.1:80"),
        s.holders.countP fun t => awaiting t.task = some (0,0))) = some (true,1,1) := by decide +kernel
  obtain ⟨s,hs,hpair⟩ := Option.map_eq_some_iff.mp hshown
  simp only [Prod.mk.injEq,List.all_eq_true] at hpair
  exact ⟨s,hs,hpair⟩

omit [HttpCrate] [F64 F] in
theorem upstreamConnections_exact_busy :
    ∃ s, exec (@requests ℚ _ visibleAscii).step ⟨smallWorld,[]⟩ busyRun = some s ∧
      s.holders.countP (fun t => @awaitingPlain visibleAscii t = some "http://10.0.0.1:80") = 1 ∧
      tally (@requests ℚ _ visibleAscii).step (@abandoned ℚ visibleAscii "http://10.0.0.1:80") ⟨smallWorld,[]⟩
        busyRun = 1 ∧
      s.shared.metrics.connections "http://10.0.0.1:80" = 0+
        s.holders.countP (fun t => @awaitingPlain visibleAscii t = some "http://10.0.0.1:80")+
        tally (@requests ℚ _ visibleAscii).step (@abandoned ℚ visibleAscii "http://10.0.0.1:80") ⟨smallWorld,[]⟩
          busyRun := by
  obtain ⟨s,hs,hsuspended,hawaiting,-⟩ := busyRun_suspended
  exact ⟨s,hs,hawaiting,by decide +kernel,@upstreamConnections_exact ℚ _ visibleAscii _ _ _ hs hsuspended _⟩

def abandonedAt (k : ℕ × ℕ) (s : RequestState F) : Event → ℕ :=
  dropped (fun t => if awaiting t = some k then 1 else 0) (s.holders.map Holder.task)

/-- So it is with `active_connections`, which also counts the requests that ask for an upgrade. -/
theorem activeConnections_exact (hrun : exec requests.step ⟨w,[]⟩ events = some s)
    (hsuspended : ∀ t ∈ s.holders, (requests (F := F)).canDrop t.task = true) (k : ℕ × ℕ) :
    connections s.shared.balancers k = connections w.balancers k+
      s.holders.countP (fun t => awaiting t.task = some k)+tally requests.step (abandonedAt k) ⟨w,[]⟩ events := by
  let d := discipline fun lb => (w.balancers lb).upstreams.length
  obtain ⟨ls,hls,htally⟩ := requests_part.run (fun t => (d.holding t.done).count k) hrun
  have hstart : d.Disciplined ⟨w.balancers,[]⟩ := start_disciplined w.balancers
  have hleak : connections s.shared.balancers k = connections w.balancers k+
      d.inFlight (s.holders.map Holder.task) k+
      tally requests.step (fun s l => dropped (fun t => (d.holding t.done).count k) (s.holders.map Holder.task) l)
        ⟨w,[]⟩ events := by
    rw [← htally]
    exact hstart.leak arrivals_balanced hls k
  have horderly : ∀ {front : List Event} {m : RequestState F}, exec requests.step ⟨w,[]⟩ front = some m →
      ∀ t ∈ m.holders, d.Orderly t.task := by
    intro front m hfront t ht
    obtain ⟨ls,hls,-⟩ := requests_part.run (fun _ => (0:ℕ)) hfront
    exact (hstart.run arrivals_balanced hls).orderly t.task (List.mem_map_of_mem ht)
  have hopen : ∀ {front : List Event} {m : RequestState F} {t}, exec requests.step ⟨w,[]⟩ front = some m →
      t ∈ m.holders → (requests (F := F)).canDrop t.task = true →
      (d.holding t.task.done).count k = if awaiting t.task = some k then 1 else 0 := by
    intro front m t hfront ht hdrop
    have hopened : d.holding t.task.done = (awaiting t.task).toList :=
      openAttempts_of_suspended (horderly hfront t ht) ((requests_part.canDrop t.task).trans hdrop)
    rw [hopened]
    exact count_toList _ k
  have hinFlight : d.inFlight (s.holders.map Holder.task) k = s.holders.countP fun t => awaiting t.task = some k := by
    rw [Discipline.inFlight,List.map_map]
    refine sum_map_eq_countP ?_
    intro t ht
    simpa using hopen hrun ht (hsuspended t ht)
  have hdropped : tally requests.step
      (fun s l => dropped (fun t => (d.holding t.done).count k) (s.holders.map Holder.task) l) ⟨w,[]⟩ events =
      tally requests.step (abandonedAt k) ⟨w,[]⟩ events := by
    refine tally_congr ?_ hrun
    intro front l back m _ hfront m' hstep
    cases Guarded.stepped hstep with
    | @cancel i t hget hdrop =>
      have hcount := hopen hfront (List.mem_of_getElem? hget) hdrop
      simp [abandonedAt,dropped,hget,hcount]
    | _ => rfl
  rw [hleak,hinFlight,hdropped]

omit [HttpCrate] [F64 F] in
theorem activeConnections_exact_busy :
    ∃ s, exec (@requests ℚ _ visibleAscii).step ⟨smallWorld,[]⟩ busyRun = some s ∧
      s.holders.countP (fun t => awaiting t.task = some (0,0)) = 1 ∧
      tally (@requests ℚ _ visibleAscii).step (abandonedAt (0,0)) ⟨smallWorld,[]⟩ busyRun = 1 ∧
      connections s.shared.balancers (0,0) = connections smallWorld.balancers (0,0)+
        s.holders.countP (fun t => awaiting t.task = some (0,0))+
        tally (@requests ℚ _ visibleAscii).step (abandonedAt (0,0)) ⟨smallWorld,[]⟩ busyRun := by
  obtain ⟨s,hs,hsuspended,-,hawaiting⟩ := busyRun_suspended
  exact ⟨s,hs,hawaiting,by decide +kernel,@activeConnections_exact ℚ _ visibleAscii _ _ _ hs hsuspended _⟩

end Gauges

section Load

variable (k : ℕ) (ip : IpAddr) (N : ℕ)

/-- A request of the address, under the rate limiter, with at most so many retries. -/
def ofClient (r : Arrival) : Prop := r.ctx.rateLimiter = some k ∧ r.remoteAddr.ip = ip ∧ r.ctx.retries ≤ N

instance (r : Arrival) : Decidable (ofClient k ip N r) := inferInstanceAs (Decidable (_ ∧ _ ∧ _))

def admission : (op : Op) → op.Ans → ℕ
  | .check j other, allowed => if j = k ∧ other = ip ∧ allowed = true then 1 else 0
  | _, _ => 0

def sends : Op → Bool
  | .request _ _ _ => true
  | _ => false

omit [HttpCrate] in
theorem after_unchanged {op : Op} (a : op.Ans) (held : Held) (hcheck : ∀ k ip, op ≠ .check k ip)
    (hsends : sends op = false) :
    (after op a held).admitted = held.admitted ∧ (after op a held).attempts = held.attempts := by
  cases op with
  | check k ip => exact absurd rfl (hcheck k ip)
  | request u out timeout => cases hsends
  | tryAcquire k =>
    simp only [after]
    split <;> exact ⟨rfl,rfl⟩
  | metric m => cases m <;> exact ⟨rfl,rfl⟩
  | _ => exact ⟨rfl,rfl⟩

/-- The attempts a request may make once it has been let in. -/
def attemptAllowance : Allowance (requests (F := F)) may where
  weight r held := if ofClient k ip N r ∧ held.admitted = true then N+1-held.attempts else 0
  grant _ op a := (N+1)*admission k ip op a
  spend r op := if ofClient k ip N r ∧ sends op = true then 1 else 0
  weight_initial r := by simp [requests]
  weight_after := by
    intro r op a held hmay
    by_cases hclient : ofClient k ip N r
    · cases op with
      | check j other =>
        obtain ⟨hlimiter,hother,hattempts⟩ := hmay
        have hj : j = k := Option.some.inj (hlimiter.symm.trans hclient.1)
        have hip : other = ip := hother.symm.trans hclient.2.1
        simp [requests,after,sends,admission,hclient,hj,hip,hattempts]
      | request u out timeout =>
        obtain ⟨hready,-,hattempts⟩ := hmay
        have hadmitted : held.admitted = true := hready.admitted (by simp [hclient.1])
        have hretries := hclient.2.2
        simp only [requests,after,sends,hclient,hadmitted,and_self,if_true]
        omega
      | _ =>
        obtain ⟨hadmitted,hattempts⟩ := after_unchanged a held (by simp) rfl
        simp [requests,hadmitted,hattempts,sends]
    · simp [hclient]
  spend_le := by
    intro r op held hmay
    by_cases hsent : ofClient k ip N r ∧ sends op = true
    · obtain ⟨hclient,hsends⟩ := hsent
      cases op with
      | request u out timeout =>
        obtain ⟨hready,-,hattempts⟩ := hmay
        have hadmitted : held.admitted = true := hready.admitted (by simp [hclient.1])
        have hretries := hclient.2.2
        simp only [hclient,hadmitted,hsends,and_self,if_true]
        omega
      | _ => cases hsends
    · rw [if_neg hsent]
      exact Nat.zero_le _

variable {w : World F} {events : List Event} {s : RequestState F}

omit [HttpCrate] in
theorem funded_respond {v : World F} {n : ℕ} (hcfg : (v.limiters k).cfg = (w.limiters k).cfg)
    (h : Funded (w.limiters k).emission (w.limiters k).maxCredit w.clock v.clock n ((v.limiters k).tatOf ip))
    (op : Op) (a : op.Ans) :
    ((respond v op a).2.limiters k).cfg = (w.limiters k).cfg ∧
      Funded (w.limiters k).emission (w.limiters k).maxCredit w.clock (respond v op a).2.clock
        (n+admission k ip op (respond v op a).1) (((respond v op a).2.limiters k).tatOf ip) := by
  cases op with
  | check j other =>
    by_cases hj : j = k
    · subst hj
      have hemission : (v.limiters j).emission = (w.limiters j).emission := by
        rw [(v.limiters j).emission_eq,(w.limiters j).emission_eq,hcfg]
      have hcredit : (v.limiters j).maxCredit = (w.limiters j).maxCredit := by
        simp only [RateLimiter.maxCredit,hemission,hcfg]
      have hcfg' : ((respond v (.check j other) a).2.limiters j).cfg = (w.limiters j).cfg := by
        simp [respond,hcfg]
      refine ⟨hcfg',?_⟩
      by_cases hip : other = ip
      · subst hip
        obtain ⟨hanswer,htat⟩ := (v.limiters j).check_eq_arrive other v.clock
        rw [hemission,hcredit] at hanswer htat
        have harrive := h.arrive
        rw [← hanswer,← htat] at harrive
        simpa [respond,admission] using harrive
      · simpa [respond,admission,hip,(v.limiters j).check_tatOf_ne v.clock (Ne.symm hip)] using h
    · simp [respond,admission,hj,Ne.symm hj]
      exact ⟨hcfg,h⟩
  | tryAcquire j =>
    simp only [respond,admission]
    split <;> exact ⟨hcfg,h⟩
  | _ => exact ⟨hcfg,h⟩

omit [HttpCrate] in
theorem funded_change {v : World F} {n : ℕ} (hwindow : 0 < (w.limiters k).cfg.window)
    (hcfg : (v.limiters k).cfg = (w.limiters k).cfg)
    (h : Funded (w.limiters k).emission (w.limiters k).maxCredit w.clock v.clock n ((v.limiters k).tatOf ip))
    (x : Change) :
    ((x.apply v).limiters k).cfg = (w.limiters k).cfg ∧
      Funded (w.limiters k).emission (w.limiters k).maxCredit w.clock (x.apply v).clock n
        (((x.apply v).limiters k).tatOf ip) := by
  cases x with
  | health c => exact ⟨hcfg,h⟩
  | elapse duration => exact ⟨hcfg,h.later duration⟩
  | cleanup j maxIdle =>
    by_cases hj : j = k
    · subst hj
      simp only [Change.apply,Function.update_self]
      refine ⟨hcfg,?_⟩
      rcases (v.limiters j).cleanup_tatOf maxIdle v.clock ip (hcfg ▸ hwindow) with hkeep | ⟨hzero,hidle⟩
      · rw [hkeep]
        exact h
      · exact h.forget hidle
    · simp only [Change.apply,Function.update_of_ne (Ne.symm hj)]
      exact ⟨hcfg,h⟩
  | _ => exact ⟨hcfg,h⟩

/-- The limiter keeps its account of the address, over all requests and cleanups. -/
theorem funded_of_run (hrun : exec requests.step ⟨w,[]⟩ events = some s)
    (hwindow : 0 < (w.limiters k).cfg.window) :
    Funded (w.limiters k).emission (w.limiters k).maxCredit w.clock s.shared.clock
      (tally requests.step (ofCall requests fun _ op a => admission k ip op a) ⟨w,[]⟩ events)
      ((s.shared.limiters k).tatOf ip) := by
  let P (s : RequestState F) (n : ℕ) : Prop := (s.shared.limiters k).cfg = (w.limiters k).cfg ∧
    Funded (w.limiters k).emission (w.limiters k).maxCredit w.clock s.shared.clock n ((s.shared.limiters k).tatOf ip)
  have hend : P s (0+tally requests.step (ofCall requests fun _ op a => admission k ip op a) ⟨w,[]⟩ events) := by
    refine exec_tally ?_ ⟨rfl,Funded.zero _ _ _ _⟩ hrun
    rintro s n l s' ⟨hcfg,hfunded⟩ h
    cases Guarded.stepped h with
    | advance world hget =>
      rw [ofCall_advance world hget]
      exact funded_respond k ip hcfg hfunded _ _
    | change x => exact funded_change k ip hwindow hcfg hfunded x
    | _ => exact ⟨hcfg,hfunded⟩
  rw [zero_add] at hend
  exact hend.2

/-- However many requests a client sends, and however they are interleaved, retried and dropped, the
upstreams are sent no more for it than its rate and the time that has passed allow. A request counts from when
its answer is awaited, whether it is answered or abandoned. -/
theorem attempts_le_rate (hrun : exec requests.step ⟨w,[]⟩ events = some s)
    (hemission : 0 < (w.limiters k).emission) :
    tally requests.step (comesTo requests fun r op => if ofClient k ip N r ∧ sends op = true then 1 else 0)
        ⟨w,[]⟩ events ≤
      (N+1)*(1+(s.shared.clock-w.clock+(w.limiters k).maxCredit)/(w.limiters k).emission) := by
  have hwindow : 0 < (w.limiters k).cfg.window := by
    rw [(w.limiters k).emission_eq] at hemission
    exact Nat.pos_of_ne_zero fun hzero => by simp [hzero] at hemission
  have hspent := (attemptAllowance k ip N (F := F)).spent_le requests_follow hrun
  have hgranted : tally requests.step (ofCall requests (attemptAllowance k ip N (F := F)).grant) ⟨w,[]⟩ events =
      (N+1)*tally requests.step (ofCall requests fun _ op a => admission k ip op a) ⟨w,[]⟩ events := by
    have hmap := tally_map (AddMonoidHom.mulLeft (N+1)) (requests (F := F)).step
      (ofCall requests fun _ op a => admission k ip op a) ⟨w,[]⟩ events
    refine (tally_congr ?_ hrun).trans hmap
    intro front l back m _ _ m' hstep
    cases Guarded.stepped hstep with
    | advance world hget => rw [ofCall_advance world hget,ofCall_advance world hget]; rfl
    | _ => rfl
  have hcount := (funded_of_run k ip hrun hwindow).count_le hemission
  exact (hspent.trans hgranted.le).trans (Nat.mul_le_mul_left (N+1) hcount)

omit [HttpCrate] [F64 F] in
theorem attempts_le_rate_busy :
    ∃ s, exec (@requests ℚ _ visibleAscii).step ⟨smallWorld,[]⟩ busyRun = some s ∧
      tally (@requests ℚ _ visibleAscii).step (comesTo (@requests ℚ _ visibleAscii) fun r op =>
        if ofClient 0 (.v4 (ipv4 192 0 2 7)) 0 r ∧ sends op = true then 1 else 0) ⟨smallWorld,[]⟩ busyRun = 2 ∧
      tally (@requests ℚ _ visibleAscii).step (comesTo (@requests ℚ _ visibleAscii) fun r op =>
          if ofClient 0 (.v4 (ipv4 192 0 2 7)) 0 r ∧ sends op = true then 1 else 0) ⟨smallWorld,[]⟩ busyRun ≤
        (0+1)*(1+(s.shared.clock-0+(RateLimiter.new twoPerSecond).maxCredit)/500000000) := by
  obtain ⟨s,hs,-⟩ := busyRun_suspended
  have hemission : 0 < (smallWorld.limiters 0).emission := by decide
  exact ⟨s,hs,by decide +kernel,@attempts_le_rate ℚ _ visibleAscii 0 (.v4 (ipv4 192 0 2 7)) 0 _ _ _ hs hemission⟩

end Load

end Requests
end OxiGate
