import OxiGate.Counting
import OxiGate.Server
import OxiGate.Validator

/-! The arithmetic that can leave its range, from validation to the bodies of requests. Each
function of the proxy that does such arithmetic is given again with its operations checked, and
agrees with its model wherever none of them fails. -/
namespace OxiGate
namespace Checked

open RustText Net Http Lb RateLimit BodyLimit Interaction Proxy Connection

/-- What an operation out of range comes to: an integer overflow, or a panic of the constructor,
of `Duration::mul_f64` or of the addition to an `Instant`. -/
inductive Fault
  | product
  | permits
  | duration
  | instant
  deriving DecidableEq, Repr

def within (limit : ℕ) (fault : Fault) (n : ℕ) : Except Fault ℕ := if n ≤ limit then .ok n else .error fault

theorem within_ok {limit n : ℕ} {fault : Fault} (h : n ≤ limit) : within limit fault n = .ok n := if_pos h

theorem within_error {limit n : ℕ} {fault : Fault} (h : limit < n) :
    within limit fault n = .error fault := if_neg (Nat.not_le.mpr h)

theorem within_eq_ok {limit n m : ℕ} {fault : Fault} (h : within limit fault n = .ok m) : n ≤ limit ∧ m = n := by
  by_cases hle : n ≤ limit
  · rw [within_ok hle] at h
    cases h
    exact ⟨hle,rfl⟩
  · rw [within_error (Nat.not_le.mp hle)] at h
    cases h

/-- A product in `u64` or `usize`. -/
def mul64 (a b : ℕ) : Except Fault ℕ := within (2^64-1) .product (a*b)

/-- `usize::MAX >> 3`. -/
def maxPermits : ℕ := (2^64-1)/8

def semaphoreNew (permits : ℕ) : Except Fault ℕ := within maxPermits .permits permits

/-- Seconds of a `Duration` are `u64`, those of an `Instant` are `i64`. -/
def durationMax : ℕ := (2^64-1)*1000000000+999999999

def instantMax : ℕ := (2^63-1)*1000000000+999999999

def instantAdd (t d : ℕ) : Except Fault ℕ := within instantMax .instant (t+d)

section Config

variable {F : Type} [F64 F] [LE F] [DecidableLE F] [HttpCrate]

open Validator

def validateFront (config : Config F) : Except String Unit := do
  bailIf (config.upstreams.isEmpty && config.routes.isEmpty)
    "configure either top-level `upstreams` or at least one `routes` entry"
  config.upstreams.zipIdx.forM fun u => validateUpstream u.2 u.1
  config.routes.zipIdx.forM fun r => validateRoute r.2 r.1
  bailIf (config.healthCheck.intervalSecs == 0) "health_check.interval_secs must be > 0"
  bailIf (config.healthCheck.timeoutSecs == 0) "health_check.timeout_secs must be > 0"

def validateBack (fileExists : String → Bool) (config : Config F) (tenIntervals : ℕ) : Except String Unit := do
  bailIf (tenIntervals < config.healthCheck.timeoutSecs)
    "health_check.timeout_secs looks unreasonable vs interval"
  bailIf (config.timeouts.connectSecs == 0 || config.timeouts.requestSecs == 0)
    "timeouts.connect_secs and request_secs must be > 0"
  bailIf (config.maxBodyBytes == 0) "max_body_bytes must be > 0"
  config.rateLimit.toList.forM validateRateLimit
  config.tls.toList.forM (validateTls fileExists)
  config.acl.toList.forM fun acl => (acl.allow++acl.deny).forM validateCidr
  config.proxyProtocolTrustedCidrs.forM validateCidr

def validate (fileExists : String → Bool) (config : Config F) : Except Fault (Except String Unit) :=
  match validateFront config with
  | .error e => .ok (.error e)
  | .ok () => do
    let tenIntervals ← mul64 config.healthCheck.intervalSecs 10
    pure (validateBack fileExists config tenIntervals)

theorem validate_parts (fileExists : String → Bool) (config : Config F) :
    Validator.validate fileExists config = validateFront config >>= fun _ =>
      validateBack fileExists config (config.healthCheck.intervalSecs*10 % 2^64) := by
  simp only [Validator.validate,validateFront,validateBack,bind_assoc]

/-- In range, validation says what the model says. -/
theorem validate_eq {fileExists : String → Bool} {config : Config F} (h : config.healthCheck.intervalSecs*10 < 2^64) :
    validate fileExists config = .ok (Validator.validate fileExists config) := by
  have hproduct : mul64 config.healthCheck.intervalSecs 10 = .ok (config.healthCheck.intervalSecs*10) :=
    within_ok (by omega)
  rw [validate_parts,Nat.mod_eq_of_lt h]
  unfold validate
  cases validateFront config with
  | error e => rfl
  | ok u =>
    rw [hproduct]
    rfl

theorem validate_accepted {fileExists : String → Bool} {config : Config F}
    (h : Validator.validate fileExists config = .ok ()) :
    (∃ r, validate fileExists config = .ok r) ↔ config.healthCheck.intervalSecs*10 < 2^64 := by
  refine ⟨?_,fun hlt => ⟨_,validate_eq hlt⟩⟩
  rintro ⟨r,hr⟩
  rw [validate_parts] at h
  obtain ⟨u,hfront,-⟩ := ok_of_bind h
  simp only [validate,hfront] at hr
  obtain ⟨product,hproduct,-⟩ := ok_of_bind hr
  have hle := (within_eq_ok hproduct).1
  omega

omit [F64 F] [LE F] [DecidableLE F] [HttpCrate] in
/-- The semaphore of `Runtime::from_config`. -/
def buildRuntime (config : Config F) : Except Fault Unit := do
  if 0 < config.maxConnections then
    let _ ← semaphoreNew config.maxConnections

omit [F64 F] [LE F] [DecidableLE F] [HttpCrate] in
/-- `main` up to the channel, which counts its slots with a semaphore of its own. -/
def startUp (config : Config F) : Except Fault Unit := do
  buildRuntime config
  let maxConn := Server.maxConn config
  let _ ← semaphoreNew (Server.permits config)
  let _ ← mul64 maxConn 2
  let _ ← semaphoreNew (Server.channelCap config)

omit [F64 F] [LE F] [DecidableLE F] [HttpCrate] in
theorem buildRuntime_ok {config : Config F} (h : Server.maxConn config ≤ maxPermits) :
    buildRuntime config = .ok () := by
  unfold buildRuntime
  split
  · rename_i hpos
    rw [Server.maxConn,if_pos hpos] at h
    rw [semaphoreNew,within_ok h]
    rfl
  · rfl

omit [F64 F] [LE F] [DecidableLE F] [HttpCrate] in
theorem startUp_eq_ok {config : Config F} :
    startUp config = .ok () ↔ Server.maxConn config ≤ maxPermits := by
  constructor
  · intro h
    obtain ⟨_,-,h⟩ := ok_of_bind h
    obtain ⟨_,hconn,-⟩ := ok_of_bind h
    exact (le_max_left _ _).trans (within_eq_ok hconn).1
  · intro h
    have hbuild := buildRuntime_ok h
    have hconn : Server.permits config ≤ maxPermits := max_le h (by decide)
    have hchannel : Server.channelCap config ≤ maxPermits := max_le h (by decide)
    have hproduct : Server.maxConn config*2 ≤ 2^64-1 := by
      unfold maxPermits at h
      omega
    simp only [startUp,hbuild,semaphoreNew,mul64,within_ok hconn,within_ok hchannel,within_ok hproduct]
    rfl

end Config

section Limiter

variable {F : Type} [F64 F]

/-- `check`: the tolerance is a `Duration`, and the clock is added to three times at most. -/
def check (rl : RateLimiter F) (ip : IpAddr) (now : ℕ) : Except Fault (Bool × RateLimiter F) := do
  let cost := rl.emission
  let maxCredit ← within durationMax .duration rl.maxCredit
  let tat := ((rl.buckets ip).getD ⟨now⟩).tat
  let latest ← instantAdd now maxCredit
  if latest < tat then
    pure (false,{ rl with
      buckets := Function.update rl.buckets ip (some ⟨tat⟩)
      rejects := (rl.rejects+1) % 2^64 })
  else
    let newTat ← (if now < tat then instantAdd tat cost else instantAdd now cost : Except Fault ℕ)
    pure (true,{ rl with
      buckets := Function.update rl.buckets ip (some ⟨newTat⟩)
      allows := (rl.allows+1) % 2^64 })

def tatAt (rl : RateLimiter F) (ip : IpAddr) (now : ℕ) : ℕ := ((rl.buckets ip).getD ⟨now⟩).tat

theorem check_agrees {rl : RateLimiter F} {ip : IpAddr} {now : ℕ} {r : Bool × RateLimiter F}
    (h : check rl ip now = .ok r) : r = rl.check ip now := by
  obtain ⟨credit,hcredit,h⟩ := ok_of_bind h
  obtain ⟨-,rfl⟩ := within_eq_ok hcredit
  obtain ⟨latest,hlatest,h⟩ := ok_of_bind h
  obtain ⟨-,rfl⟩ := within_eq_ok hlatest
  unfold RateLimiter.check
  split at h
  · rename_i hlate
    cases h
    simp only [if_pos hlate]
  · rename_i hearly
    obtain ⟨newTat,hnew,h⟩ := ok_of_bind h
    cases h
    simp only [if_neg hearly]
    split at hnew
    · rename_i hahead
      obtain ⟨-,rfl⟩ := within_eq_ok hnew
      simp only [if_pos hahead]
    · rename_i hbehind
      obtain ⟨-,rfl⟩ := within_eq_ok hnew
      simp only [if_neg hbehind]

theorem check_ok {rl : RateLimiter F} {ip : IpAddr} {now : ℕ} (hcredit : rl.maxCredit ≤ durationMax)
    (hlatest : now+rl.maxCredit+rl.emission ≤ instantMax) : check rl ip now = .ok (rl.check ip now) := by
  have hsome : ∃ r, check rl ip now = .ok r := by
    simp only [check,within_ok hcredit,instantAdd,bind,Except.bind]
    rw [within_ok (by omega)]
    dsimp only
    generalize ((rl.buckets ip).getD ⟨now⟩).tat = tat
    by_cases hlate : now+rl.maxCredit < tat
    · rw [if_pos hlate]
      exact ⟨_,rfl⟩
    · have hnew : (if now < tat then within instantMax .instant (tat+rl.emission)
          else within instantMax .instant (now+rl.emission)) =
          .ok (if now < tat then tat+rl.emission else now+rl.emission) := by
        split
        · exact within_ok (by omega)
        · exact within_ok (by omega)
      rw [if_neg hlate,hnew]
      exact ⟨_,rfl⟩
  obtain ⟨r,hr⟩ := hsome
  rw [hr,check_agrees hr]

/-- A check that meets no fault has kept the tolerance, the latest time and the new arrival
time in range. -/
theorem check_range {rl : RateLimiter F} {ip : IpAddr} {now : ℕ} {r : Bool × RateLimiter F}
    (h : check rl ip now = .ok r) : rl.maxCredit ≤ durationMax ∧ now+rl.maxCredit ≤ instantMax ∧
      (tatAt rl ip now ≤ now+rl.maxCredit → max (tatAt rl ip now) now+rl.emission ≤ instantMax) := by
  obtain ⟨credit,hcredit,h⟩ := ok_of_bind h
  obtain ⟨hduration,rfl⟩ := within_eq_ok hcredit
  obtain ⟨latest,hlatest,h⟩ := ok_of_bind h
  obtain ⟨hinstant,rfl⟩ := within_eq_ok hlatest
  refine ⟨hduration,hinstant,fun hallowed => ?_⟩
  unfold tatAt at hallowed ⊢
  split at h
  · rename_i hlate
    exact absurd hallowed (Nat.not_le.mpr hlate)
  · obtain ⟨newTat,hnew,-⟩ := ok_of_bind h
    split at hnew
    · rename_i hahead
      rw [max_eq_left hahead.le]
      exact (within_eq_ok hnew).1
    · rename_i hbehind
      rw [max_eq_right (Nat.not_lt.mp hbehind)]
      exact (within_eq_ok hnew).1

end Limiter

section Bodies

def pollFrame (b : IdleBody) (now : ℕ) : Poll BodyLimitError → Except Fault (Poll BodyLimitError × IdleBody)
  | .frame f => do
    let delay ← instantAdd now b.idle
    pure (.frame f,{ b with delay := delay })
  | inner => pure (b.pollFrame now inner)

def collect (final : Except String Unit) : List (ℕ × Option Frame) → LimitedBody → IdleBody → List UInt8 →
    Except Fault (Except BodyLimitError (List UInt8))
  | [], limited, idle, acc => pure (BodyLimit.collect final [] limited idle acc)
  | (now,frame)::polls, limited, idle, acc => do
    let (inner,limited) := limited.pollFrame (mapErr (frameOr frame))
    match ← pollFrame idle now inner with
    | (.frame f,idle) => collect final polls limited idle (acc++f.dataRef.getD [])
    | (.failed e,_) => pure (.error e)
    | (.ended,_) => pure (.ok acc)
    | (.pending,idle) => collect final polls limited idle acc

/-- `collect_limited`; the first timer saturates. -/
def collectLimited (body : Incoming) (max idle now : ℕ) : Except Fault (Except BodyLimitError (List UInt8)) :=
  collect body.final body.polls (LimitedBody.new max) (IdleBody.new idle now) []

def stream : List (ℕ × Option Frame) → IdleBody → Except Fault Unit
  | [], _ => pure ()
  | (now,frame)::polls, idle => do
    match ← pollFrame idle now (mapErr (frameOr frame)) with
    | (.failed _,_) => pure ()
    | (_,idle) => stream polls idle

theorem pollFrame_ok {b : IdleBody} {now : ℕ} (h : now+b.idle ≤ instantMax) (inner : Poll BodyLimitError) :
    pollFrame b now inner = .ok (b.pollFrame now inner) := by
  cases inner with
  | frame f =>
    simp only [pollFrame,instantAdd,within_ok h]
    rfl
  | _ => rfl

theorem pollFrame_idle (b : IdleBody) (now : ℕ) (inner : Poll BodyLimitError) :
    (b.pollFrame now inner).2.idle = b.idle := by
  cases inner with
  | pending =>
    simp only [IdleBody.pollFrame]
    split <;> rfl
  | _ => rfl

theorem collect_eq {final : Except String Unit} {polls : List (ℕ × Option Frame)} {limited : LimitedBody}
    {idle : IdleBody} {acc : List UInt8} (h : ∀ p ∈ polls, p.1+idle.idle ≤ instantMax) :
    collect final polls limited idle acc = .ok (BodyLimit.collect final polls limited idle acc) := by
  induction polls generalizing limited idle acc with
  | nil => rfl
  | cons poll polls ih =>
    rcases poll with ⟨now,frame⟩
    obtain ⟨hnow,hpolls⟩ := List.forall_mem_cons.mp h
    simp only [collect,BodyLimit.collect,pollFrame_ok hnow,bind,Except.bind]
    have hkept := pollFrame_idle idle now (limited.pollFrame (mapErr (frameOr frame))).1
    rcases hpoll : idle.pollFrame now (limited.pollFrame (mapErr (frameOr frame))).1 with ⟨outer,idle'⟩
    rw [hpoll] at hkept
    have hrest : ∀ p ∈ polls, p.1+idle'.idle ≤ instantMax := by
      rw [show idle'.idle = idle.idle from hkept]
      exact hpolls
    cases outer with
    | frame f => exact ih hrest
    | failed e => rfl
    | ended => rfl
    | pending => exact ih hrest

theorem stream_ok {polls : List (ℕ × Option Frame)} {idle : IdleBody}
    (h : ∀ p ∈ polls, p.1+idle.idle ≤ instantMax) : stream polls idle = .ok () := by
  induction polls generalizing idle with
  | nil => rfl
  | cons poll polls ih =>
    rcases poll with ⟨now,frame⟩
    obtain ⟨hnow,hpolls⟩ := List.forall_mem_cons.mp h
    simp only [stream,pollFrame_ok hnow,bind,Except.bind]
    have hkept := pollFrame_idle idle now (mapErr (frameOr frame))
    rcases hpoll : idle.pollFrame now (mapErr (frameOr frame)) with ⟨outer,idle'⟩
    rw [hpoll] at hkept
    have hrest : ∀ p ∈ polls, p.1+idle'.idle ≤ instantMax := by
      rw [show idle'.idle = idle.idle from hkept]
      exact hpolls
    cases outer with
    | failed e => rfl
    | _ => exact ih hrest

end Bodies

end Checked
end OxiGate
