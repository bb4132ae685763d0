import OxiGate.Gcra
import OxiGate.Net

/-! The per-IP rate limiter. Instants and durations are whole nanoseconds. The
tolerance is computed in `f64`, which is left abstract: nothing below depends on
how that arithmetic rounds. -/
namespace OxiGate
namespace RateLimit

open Net Gcra Runs

/-- The operations of `f64` that the limiter uses, with `Duration::mul_f64`. -/
class F64 (F : Type) extends Mul F, Sub F, Max F where
  ofU32 : ℕ → F
  zero : F
  one : F
  mulDuration : ℕ → F → ℕ

def roundEven (q : ℚ) : ℤ :=
  if q-⌊q⌋ < 1/2 ∨ q-⌊q⌋ = 1/2 ∧ ⌊q⌋ % 2 = 0 then ⌊q⌋ else ⌊q⌋+1

/-- Exact arithmetic, rounding a duration to whole nanoseconds as `Duration::from_secs_f64` does. -/
instance : F64 ℚ where
  ofU32 n := n
  zero := 0
  one := 1
  mulDuration d q := (roundEven (d*q)).toNat

variable {F : Type} [F64 F]

structure RateLimitConfig (F : Type) where
  rate : ℕ
  window : ℕ
  burst : F

structure Bucket where
  tat : ℕ
  deriving DecidableEq

structure RateLimiter (F : Type) where
  cfg : RateLimitConfig F
  buckets : IpAddr → Option Bucket
  emission : ℕ
  rejects : ℕ
  allows : ℕ
  emission_eq : emission = cfg.window/max cfg.rate 1

namespace RateLimiter

def new (cfg : RateLimitConfig F) : RateLimiter F where
  cfg := cfg
  buckets := fun _ => none
  emission := cfg.window/max cfg.rate 1
  rejects := 0
  allows := 0
  emission_eq := rfl

def maxCredit (rl : RateLimiter F) : ℕ :=
  let burstRequests := F64.ofU32 rl.cfg.rate*rl.cfg.burst
  F64.mulDuration rl.emission (max (burstRequests-F64.one) F64.zero)

/-- The part of `check` under the entry lock, for the clock sample `now`. -/
def check (rl : RateLimiter F) (ip : IpAddr) (now : ℕ) : Bool × RateLimiter F :=
  let cost := rl.emission
  let tat := ((rl.buckets ip).getD ⟨now⟩).tat
  if now+rl.maxCredit < tat then
    (false,{ rl with
      buckets := Function.update rl.buckets ip (some ⟨tat⟩)
      rejects := (rl.rejects+1) % 2^64 })
  else
    let newTat := if now < tat then tat+cost else now+cost
    (true,{ rl with
      buckets := Function.update rl.buckets ip (some ⟨newTat⟩)
      allows := (rl.allows+1) % 2^64 })

/-- Drop the buckets idle for `maxIdle` and a window; `duration_since` saturates. -/
def cleanup (rl : RateLimiter F) (maxIdle : ℕ) (now : ℕ) : RateLimiter F :=
  { rl with buckets := fun ip =>
      (rl.buckets ip).filter fun b => now-b.tat < maxIdle+rl.cfg.window }

def tatOf (rl : RateLimiter F) (ip : IpAddr) : ℕ := ((rl.buckets ip).getD ⟨0⟩).tat

/-- `check` is one arrival of the scheduling algorithm at the bucket of its address. -/
theorem check_eq_arrive (rl : RateLimiter F) (ip : IpAddr) (now : ℕ) :
    (rl.check ip now).1 = (arrive rl.emission rl.maxCredit (rl.tatOf ip) now).1 ∧
      (rl.check ip now).2.tatOf ip =
        (arrive rl.emission rl.maxCredit (rl.tatOf ip) now).2 := by
  have htat : (rl.buckets ip = none ∧ rl.tatOf ip = 0 ∧
      ((rl.buckets ip).getD ⟨now⟩).tat = now) ∨
      ((rl.buckets ip).getD ⟨now⟩).tat = rl.tatOf ip := by
    cases h : rl.buckets ip with
    | none => exact Or.inl ⟨rfl,by simp [tatOf,h],rfl⟩
    | some b => exact Or.inr (by simp [tatOf,h])
  rcases htat with ⟨-,hzero,hnow⟩ | hsame
  · rw [hzero,arrive_idle (Nat.zero_le now)]
    simp [check,hnow,tatOf]
  · generalize rl.tatOf ip = tat at hsame ⊢
    by_cases hrej : now+rl.maxCredit < tat
    · rw [arrive_of_rejected hrej]
      simp [check,hsame,if_pos hrej,tatOf]
    · rw [arrive_of_allowed (Nat.le_of_not_lt hrej)]
      simp only [check,hsame,if_neg hrej,true_and,tatOf,Function.update_self,Option.getD_some]
      by_cases hahead : now < tat
      · rw [if_pos hahead,max_eq_left hahead.le]
      · rw [if_neg hahead,max_eq_right (Nat.le_of_not_lt hahead)]

@[simp] theorem check_emission (rl : RateLimiter F) (ip : IpAddr) (now : ℕ) :
    (rl.check ip now).2.emission = rl.emission := by
  simp only [check]
  split <;> rfl

@[simp] theorem check_maxCredit (rl : RateLimiter F) (ip : IpAddr) (now : ℕ) :
    (rl.check ip now).2.maxCredit = rl.maxCredit := by
  simp only [check]
  split <;> rfl

@[simp] theorem check_cfg (rl : RateLimiter F) (ip : IpAddr) (now : ℕ) :
    (rl.check ip now).2.cfg = rl.cfg := by
  simp only [check]
  split <;> rfl

theorem check_tatOf_ne (rl : RateLimiter F) {ip other : IpAddr} (now : ℕ)
    (h : other ≠ ip) : (rl.check ip now).2.tatOf other = rl.tatOf other := by
  simp only [check]
  split <;> simp [tatOf,Function.update_of_ne h]

omit [F64 F] in
theorem cleanup_tatOf (rl : RateLimiter F) (maxIdle now : ℕ) (ip : IpAddr)
    (hwindow : 0 < rl.cfg.window) :
    (rl.cleanup maxIdle now).tatOf ip = rl.tatOf ip ∨
      ((rl.cleanup maxIdle now).tatOf ip = 0 ∧ rl.tatOf ip ≤ now) := by
  cases h : rl.buckets ip with
  | none => exact Or.inl (by simp [tatOf,cleanup,h])
  | some b =>
    by_cases hkeep : now-b.tat < maxIdle+rl.cfg.window
    · exact Or.inl (by simp [tatOf,cleanup,h,Option.filter,hkeep])
    · refine Or.inr ⟨by simp [tatOf,cleanup,h,Option.filter,hkeep],?_⟩
      simp only [tatOf,h,Option.getD_some]
      omega

end RateLimiter

def twoPerSecond : RateLimitConfig ℚ := ⟨2,1000000000,1⟩

section Refinement

/-- At non-decreasing times the limiter decides as a token bucket that starts full. -/
theorem check_refines_tokenBucket (cfg : RateLimitConfig F) (ip : IpAddr) (times : List ℕ)
    (hmono : times.Pairwise (· ≤ ·)) :
    let rl := RateLimiter.new cfg
    let capacity := rl.maxCredit+rl.emission
    answers (fun rl now => rl.check ip now) rl times =
      answers (TokenBucket.spend capacity rl.emission) (TokenBucket.full capacity) times := by
  intro rl capacity
  let R (now : ℕ) (rl' : RateLimiter F) (b : TokenBucket) : Prop :=
    rl'.emission = rl.emission ∧ rl'.maxCredit = rl.maxCredit ∧
      Matches capacity now (rl'.tatOf ip) b
  have hstart : R 0 rl (TokenBucket.full capacity) := by
    refine ⟨rfl,rfl,le_rfl,?_⟩
    simp [TokenBucket.available,TokenBucket.full,RateLimiter.tatOf,rl,RateLimiter.new]
  refine answers_eq_of_simulation (· ≤ ·) R ?_ hstart (List.pairwise_cons.mpr ⟨by simp,hmono⟩)
  rintro now now' rl' b hle ⟨hemission,hcredit,hmatch⟩
  have harrive := rl'.check_eq_arrive ip now'
  rw [hemission,hcredit] at harrive
  obtain ⟨hanswer,hnext⟩ := (hmatch.later hle).step
  refine ⟨harrive.1.trans hanswer,?_,?_,?_⟩
  · rw [RateLimiter.check_emission,hemission]
  · rw [RateLimiter.check_maxCredit,hcredit]
  · rw [harrive.2]
    exact hnext

theorem check_refines_tokenBucket_twoPerSecond :
    let rl := RateLimiter.new twoPerSecond
    let capacity := rl.maxCredit+rl.emission
    answers (fun rl now => rl.check (.v4 (ipv4 1 1 1 1)) now) rl [0,0,0,500000000] =
      answers (TokenBucket.spend capacity rl.emission) (TokenBucket.full capacity)
        [0,0,0,500000000] :=
  check_refines_tokenBucket twoPerSecond _ _ (by decide)

end Refinement

section Isolation

inductive Event
  | check (ip : IpAddr) (now : ℕ)
  | cleanup (maxIdle : ℕ) (now : ℕ)

def Event.time : Event → ℕ
  | .check _ now => now
  | .cleanup _ now => now

def decisionsFor (ip : IpAddr) : RateLimiter F → List Event → List Bool
  | _, [] => []
  | rl, .check other now::events =>
    let r := rl.check other now
    if other = ip then r.1::decisionsFor ip r.2 events else decisionsFor ip r.2 events
  | rl, .cleanup maxIdle now::events => decisionsFor ip (rl.cleanup maxIdle now) events

def ownChecks (ip : IpAddr) : List Event → List ℕ
  | [] => []
  | .check other now::events => if other = ip then now::ownChecks ip events else ownChecks ip events
  | .cleanup _ _::events => ownChecks ip events

/-- No future check of `ip` tells the two limiters apart. -/
structure Alike (ip : IpAddr) (now : ℕ) (rl own : RateLimiter F) : Prop where
  cfg : rl.cfg = own.cfg
  debt : rl.tatOf ip-now = own.tatOf ip-now

variable {ip : IpAddr} {now now' : ℕ} {rl own : RateLimiter F}

omit [F64 F] in
theorem Alike.emission (h : Alike ip now rl own) : rl.emission = own.emission := by
  rw [rl.emission_eq,own.emission_eq,h.cfg]

theorem Alike.maxCredit (h : Alike ip now rl own) : rl.maxCredit = own.maxCredit := by
  simp only [RateLimiter.maxCredit,h.emission,h.cfg]

omit [F64 F] in
theorem Alike.later (h : Alike ip now rl own) (hle : now ≤ now') : Alike ip now' rl own := by
  have hdebt := h.debt
  exact ⟨h.cfg,by omega⟩

theorem Alike.check (h : Alike ip now rl own) :
    (rl.check ip now).1 = (own.check ip now).1 ∧
      Alike ip now (rl.check ip now).2 (own.check ip now).2 := by
  obtain ⟨hanswer,htat⟩ := rl.check_eq_arrive ip now
  obtain ⟨hanswer',htat'⟩ := own.check_eq_arrive ip now
  rw [h.emission,h.maxCredit] at hanswer htat
  obtain ⟨hsame,hdebt⟩ := @arrive_congr own.emission own.maxCredit _ _ _ h.debt
  refine ⟨by rw [hanswer,hanswer',hsame],⟨by simpa using h.cfg,?_⟩⟩
  rw [htat,htat',hdebt]

theorem Alike.check_other {other : IpAddr} (h : Alike ip now rl own) (hne : other ≠ ip) :
    Alike ip now (rl.check other now).2 own :=
  ⟨by simpa using h.cfg,by rw [rl.check_tatOf_ne now hne.symm]; exact h.debt⟩

omit [F64 F] in
theorem Alike.cleanup (h : Alike ip now rl own) (hwindow : 0 < rl.cfg.window) (maxIdle : ℕ) :
    Alike ip now (rl.cleanup maxIdle now) own := by
  refine ⟨h.cfg,?_⟩
  have hdebt := h.debt
  rcases rl.cleanup_tatOf maxIdle now ip hwindow with hkeep | ⟨hzero,hidle⟩
  · rw [hkeep,hdebt]
  · rw [hzero]
    omega

theorem decisionsFor_alike (ip : IpAddr) (events : List Event) {now : ℕ} {rl own : RateLimiter F}
    (h : Alike ip now rl own) (hwindow : 0 < rl.cfg.window)
    (hmono : (now::events.map Event.time).Pairwise (· ≤ ·)) :
    decisionsFor ip rl events =
      answers (fun rl now => rl.check ip now) own (ownChecks ip events) := by
  induction events generalizing now rl own with
  | nil => rfl
  | cons event events ih =>
    have hle : now ≤ event.time := List.rel_of_pairwise_cons hmono (by simp)
    have htail : (event.time::events.map Event.time).Pairwise (· ≤ ·) := hmono.tail
    have hnow := h.later hle
    cases event with
    | check other time =>
      by_cases hip : other = ip
      · subst hip
        obtain ⟨hanswer,hnext⟩ := hnow.check
        have hrest := ih hnext (by simpa using hwindow) htail
        simp only [decisionsFor,ownChecks,if_true,answers]
        exact congrArg₂ List.cons hanswer hrest
      · have hrest := ih (hnow.check_other hip) (by simpa using hwindow) htail
        simp only [decisionsFor,ownChecks,if_neg hip]
        exact hrest
    | cleanup maxIdle time =>
      exact ih (hnow.cleanup hwindow maxIdle) hwindow htail

/-- Neither the traffic of other addresses nor any cleanup gives credit back or
takes it away: an address is decided as if it were alone on a fresh limiter. -/
theorem decisionsFor_eq_alone (cfg : RateLimitConfig F) (hwindow : 0 < cfg.window) (ip : IpAddr)
    (events : List Event) (hmono : (events.map Event.time).Pairwise (· ≤ ·)) :
    decisionsFor ip (RateLimiter.new cfg) events =
      answers (fun rl now => rl.check ip now) (RateLimiter.new cfg) (ownChecks ip events) := by
  have hstart : Alike ip 0 (RateLimiter.new cfg) (RateLimiter.new cfg) := ⟨rfl,rfl⟩
  exact decisionsFor_alike ip events hstart hwindow (List.pairwise_cons.mpr ⟨by simp,hmono⟩)

theorem decisionsFor_eq_alone_cleanup :
    decisionsFor (.v4 (ipv4 1 1 1 1)) (RateLimiter.new twoPerSecond)
        [.check (.v4 (ipv4 1 1 1 1)) 0,.check (.v4 (ipv4 2 2 2 2)) 1,.cleanup 0 3000000000,
          .check (.v4 (ipv4 1 1 1 1)) 3000000000] =
      answers (fun rl now => rl.check (.v4 (ipv4 1 1 1 1)) now) (RateLimiter.new twoPerSecond)
        [0,3000000000] :=
  decisionsFor_eq_alone twoPerSecond (by decide) _ _ (by decide)

end Isolation

section Concurrency

/-- Calls that have sampled the clock and wait for the entry lock, and the
decisions made so far in lock order. -/
structure Shared (F : Type) where
  limiter : RateLimiter F
  clock : ℕ
  waiting : List (IpAddr × ℕ)
  decided : List (IpAddr × ℕ × Bool)

inductive Act
  | tick (elapsed : ℕ)
  | sample (ip : IpAddr)
  | enter (call : ℕ)

def Shared.start (rl : RateLimiter F) (clock : ℕ) : Shared F := ⟨rl,clock,[],[]⟩

/-- One atomic step of one of the callers; any waiting call may enter next. -/
def Shared.step (s : Shared F) : Act → Option (Shared F)
  | .tick elapsed => some { s with clock := s.clock+elapsed }
  | .sample ip => some { s with waiting := s.waiting++[(ip,s.clock)] }
  | .enter call =>
    match s.waiting[call]? with
    | none => none
    | some (ip,now) =>
      let r := s.limiter.check ip now
      some { s with
        limiter := r.2
        waiting := s.waiting.eraseIdx call
        decided := s.decided++[(ip,now,r.1)] }

def allowedIn (decided : List (IpAddr × ℕ × Bool)) (ip : IpAddr) (start length : ℕ) : ℕ :=
  decided.countP fun d => d.1 = ip ∧ start ≤ d.2.1 ∧ d.2.1 ≤ start+length ∧ d.2.2 = true

structure Account (rl : RateLimiter F) (ip : IpAddr) (start length : ℕ) (s : Shared F) : Prop where
  emission : s.limiter.emission = rl.emission
  maxCredit : s.limiter.maxCredit = rl.maxCredit
  paid : Paid rl.emission rl.maxCredit start length (allowedIn s.decided ip start length)
    (s.limiter.tatOf ip)

theorem allowedIn_append (decided : List (IpAddr × ℕ × Bool)) (d : IpAddr × ℕ × Bool)
    (ip : IpAddr) (start length : ℕ) :
    allowedIn (decided++[d]) ip start length = allowedIn decided ip start length +
      if d.1 = ip ∧ start ≤ d.2.1 ∧ d.2.1 ≤ start+length ∧ d.2.2 = true then 1 else 0 := by
  simp only [allowedIn,List.countP_append,List.countP_singleton,decide_eq_true_eq]

variable {rl : RateLimiter F} {ip : IpAddr} {start length : ℕ} {s s' : Shared F}

theorem Account.enter (h : Account rl ip start length s) (other : IpAddr) (now : ℕ) :
    Paid rl.emission rl.maxCredit start length
      (allowedIn (s.decided++[(other,now,(s.limiter.check other now).1)]) ip start length)
      ((s.limiter.check other now).2.tatOf ip) := by
  rw [allowedIn_append]
  by_cases hip : other = ip
  · subst hip
    obtain ⟨hanswer,htat⟩ := s.limiter.check_eq_arrive other now
    rw [h.emission,h.maxCredit] at hanswer htat
    rw [htat]
    split
    · rename_i hin
      exact h.paid.arrive_inside (hanswer ▸ hin.2.2.2) hin.2.1 hin.2.2.1
    · exact h.paid.arrive
  · rw [if_neg (fun hin => hip hin.1),s.limiter.check_tatOf_ne now (Ne.symm hip)]
    exact h.paid

theorem Account.step {act : Act} (h : Account rl ip start length s)
    (hstep : s.step act = some s') : Account rl ip start length s' := by
  cases act with
  | tick elapsed =>
    cases hstep
    exact ⟨h.emission,h.maxCredit,h.paid⟩
  | sample ip =>
    cases hstep
    exact ⟨h.emission,h.maxCredit,h.paid⟩
  | enter call =>
    simp only [Shared.step] at hstep
    cases hw : s.waiting[call]? with
    | none => rw [hw] at hstep; cases hstep
    | some w =>
      rw [hw] at hstep
      cases hstep
      refine ⟨?_,?_,h.enter w.1 w.2⟩
      · simpa using h.emission
      · simpa using h.maxCredit

/-- Over any window of the clock, callers of one address are allowed at most one
call more than the window and the tolerance pay for, in whatever order they get
the lock after sampling the clock. -/
theorem allowed_le_of_run (rl : RateLimiter F) (hrate : 1 ≤ rl.cfg.rate) (clock : ℕ)
    (acts : List Act) (s : Shared F) (hrun : exec Shared.step (Shared.start rl clock) acts = some s)
    (ip : IpAddr) (start length : ℕ) :
    (allowedIn s.decided ip start length-1)*(rl.cfg.window/rl.cfg.rate) ≤
      length+rl.maxCredit := by
  have hstart : Account rl ip start length (Shared.start rl clock) :=
    ⟨rfl,rfl,Paid.zero _ _ _ _ _⟩
  have haccount := exec_invariant (fun _ _ _ h hstep => Account.step h hstep) hstart hrun
  have hbound := haccount.paid.bound
  rwa [rl.emission_eq,max_eq_left hrate] at hbound

/-- The second caller takes the lock first. -/
def overtaking (ip : IpAddr) : List Act := [.sample ip,.tick 7,.sample ip,.enter 1,.enter 0]

theorem allowed_le_of_run_overtaking :
    ∃ s, exec Shared.step (Shared.start (RateLimiter.new twoPerSecond) 0)
        (overtaking (.v4 (ipv4 1 1 1 1))) = some s ∧
      (allowedIn s.decided (.v4 (ipv4 1 1 1 1)) 0 7-1)*(1000000000/2) ≤
        7+(RateLimiter.new twoPerSecond).maxCredit := by
  have hsome : (exec Shared.step (Shared.start (RateLimiter.new twoPerSecond) 0)
      (overtaking (.v4 (ipv4 1 1 1 1)))).isSome = true := rfl
  obtain ⟨s,hs⟩ := Option.isSome_iff_exists.mp hsome
  exact ⟨s,hs,allowed_le_of_run (RateLimiter.new twoPerSecond) (by decide) 0 _ s hs _ 0 7⟩

end Concurrency

end RateLimit
end OxiGate
