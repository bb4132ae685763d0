import OxiGate.Handler
import OxiGate.Tasks

/-! Load shedding. Calls share one number, which a call raises before it looks whether there was
room, and lowers again if there was none or when the inner call has completed. Each operation on the
number is one step, and a call's future may be dropped before it is polled or where it is suspended. -/
namespace OxiGate
namespace LoadShed

open Interaction Runs Tasks Proxy

inductive Op (Req : Type)
  | fetchAdd
  | fetchSub
  | call (req : Req)
  /-- `fut.await`, which goes on when the inner call has completed. -/
  | await
  /-- The future of a call that was turned away is polled. -/
  | poll

@[reducible] def Op.Ans (Req Err : Type) : Op Req → Type
  | .fetchAdd => ℕ
  | .fetchSub => ℕ
  | .call _ => Unit
  | .await => Except Err Response
  | .poll => Unit

def serviceUnavailable : Response := ⟨503,.http11,[],.full ""⟩

section Model

variable {Req Err : Type}

/-- `LoadShedMiddleware::call`, and then the future it returns. -/
def call (maxConcurrency : ℕ) (req : Req) : Prog (Op.Ans Req Err) (Except Err Response) := do
  let current ← Prog.perform .fetchAdd
  if maxConcurrency ≤ current then
    let _ ← Prog.perform .fetchSub
    let _ ← Prog.perform .poll
    pure (.ok serviceUnavailable)
  else
    let _ ← Prog.perform (.call req)
    let res ← Prog.perform .await
    let _ ← Prog.perform .fetchSub
    pure res

/-- The operations on `in_flight`. What the inner service does is up to the world. -/
def respond (inFlight : ℕ) : (op : Op Req) → op.Ans Req Err → op.Ans Req Err × ℕ
  | .fetchAdd, _ => (inFlight,inFlight+1)
  | .fetchSub, _ => (inFlight,inFlight-1)
  | .call _, a => (a,inFlight)
  | .await, a => (a,inFlight)
  | .poll, a => (a,inFlight)

def awaits : Op Req → Bool
  | .await => true
  | .poll => true
  | _ => false

/-- The same on a `usize`, which wraps around. -/
def respondUsize (inFlight : ℕ) : (op : Op Req) → op.Ans Req Err → op.Ans Req Err × ℕ
  | .fetchAdd, _ => (inFlight,(inFlight+1) % 2^64)
  | .fetchSub, _ => (inFlight,(inFlight+(2^64-1)) % 2^64)
  | op, a => respond inFlight op a

def middleware (Req Err : Type) (maxConcurrency : ℕ) :
    Setting (Op.Ans Req Err) ℕ (Except Err Response) Req Empty where
  program := call maxConcurrency
  respond := respond
  awaits := awaits
  change x := x.elim

def usizeMiddleware (Req Err : Type) (maxConcurrency : ℕ) :
    Setting (Op.Ans Req Err) ℕ (Except Err Response) Req Empty :=
  { middleware Req Err maxConcurrency with respond := respondUsize }

end Model

abbrev Call (Req Err : Type) := Task (Op.Ans Req Err) (Except Err Response)

abbrev Calls (Req Err : Type) := System (Op.Ans Req Err) ℕ (Except Err Response)

abbrev Event (Req Err : Type) := Label (Op.Ans Req Err) Req Empty

section Stages

variable {Req Err : Type} {maxConcurrency : ℕ}

def running (t : Call Req Err) : Bool :=
  match t.rest with
  | .call .await _ => true
  | _ => false

def admitted (t : Call Req Err) : Bool :=
  match t.rest with
  | .call (.call _) _ => true
  | _ => false

def Op.isAwait : Op Req → Bool
  | .await => true
  | _ => false

/-- The slots a call takes up that there was room for. -/
def occupied (t : Call Req Err) : ℕ :=
  match t.rest with
  | .call (.call _) _ => 1
  | .call .await _ => 1
  | .call .fetchSub _ => if t.done.any Op.isAwait then 1 else 0
  | _ => 0

/-- What a call has added that is being turned away. -/
def surplus (t : Call Req Err) : ℕ :=
  match t.rest with
  | .call .fetchSub _ => if t.done.any Op.isAwait then 0 else 1
  | _ => 0

inductive Stage (maxConcurrency : ℕ) : Call Req Err → Prop
  | fresh (req : Req) : Stage maxConcurrency
      ⟨.call .fetchAdd fun current =>
        if maxConcurrency ≤ current then .call .fetchSub fun _ => .call .poll fun _ => .pure (.ok serviceUnavailable)
        else .call (.call req) fun _ => .call .await fun res => .call .fetchSub fun _ => .pure res,[]⟩
  | entered (req : Req) : Stage maxConcurrency
      ⟨.call (.call req) fun _ => .call .await fun res => .call .fetchSub fun _ => .pure res,[.fetchAdd]⟩
  | suspended (req : Req) : Stage maxConcurrency
      ⟨.call .await fun res => .call .fetchSub fun _ => .pure res,[.fetchAdd,.call req]⟩
  | completed (req : Req) (res : Except Err Response) : Stage maxConcurrency
      ⟨.call .fetchSub fun _ => .pure res,[.fetchAdd,.call req,.await]⟩
  | refused : Stage maxConcurrency
      ⟨.call .fetchSub fun _ => .call .poll fun _ => .pure (.ok serviceUnavailable),[.fetchAdd]⟩
  | unpolled : Stage maxConcurrency
      ⟨.call .poll fun _ => .pure (.ok serviceUnavailable),[.fetchAdd,.fetchSub]⟩
  | done (res : Except Err Response) (ops : List (Op Req)) : Stage maxConcurrency ⟨.pure res,ops⟩

theorem stage_call (req : Req) : Stage maxConcurrency (⟨call maxConcurrency req,[]⟩ : Call Req Err) :=
  .fresh req

theorem Stage.weights_of_canDrop {t : Call Req Err} (h : Stage maxConcurrency t)
    (hdrop : (middleware Req Err maxConcurrency).canDrop t = true) :
    occupied t = (if running t then 1 else 0) ∧ surplus t = 0 := by
  cases h with
  | fresh req => exact ⟨rfl,rfl⟩
  | entered req => cases hdrop
  | suspended req => exact ⟨rfl,rfl⟩
  | completed req res => cases hdrop
  | refused => cases hdrop
  | unpolled => exact ⟨rfl,rfl⟩
  | done res ops => exact ⟨rfl,rfl⟩

theorem occupied_of_running {t : Call Req Err} (h : running t = true) : occupied t = 1 := by
  rcases t with ⟨_ | ⟨op,next⟩,done⟩
  · cases h
  · cases op with
    | await => rfl
    | _ => cases h

theorem countP_running_le (tasks : List (Call Req Err)) : tasks.countP running ≤ (tasks.map occupied).sum := by
  induction tasks with
  | nil => exact le_rfl
  | cons t tasks ih =>
    rw [List.countP_cons,List.map_cons,List.sum_cons]
    split
    · rename_i hruns
      rw [occupied_of_running hruns]
      omega
    · omega

end Stages

section Runs

variable {Req Err : Type} {maxConcurrency : ℕ}

/-- The number is made up of the slots taken, of what calls being turned away have added, and of the
slots lost with dropped futures; taken and lost slots are within the limit. -/
structure Within (maxConcurrency : ℕ) (s : Calls Req Err) (lost : ℕ) : Prop where
  staged : ∀ t ∈ s.tasks, Stage maxConcurrency t
  counted : s.shared = (s.tasks.map occupied).sum+(s.tasks.map surplus).sum+lost
  bounded : (s.tasks.map occupied).sum+lost ≤ maxConcurrency

theorem within_start : Within maxConcurrency (⟨0,[]⟩ : Calls Req Err) 0 :=
  ⟨fun _ ht => absurd ht List.not_mem_nil,rfl,Nat.zero_le _⟩

theorem Within.set {s : Calls Req Err} {lost i n : ℕ} {t t' : Call Req Err} (h : Within maxConcurrency s lost)
    (ht : s.tasks[i]? = some t) (hstage : Stage maxConcurrency t')
    (hcount : n+(occupied t+surplus t) = s.shared+(occupied t'+surplus t'))
    (hroom : occupied t' ≤ occupied t ∨ occupied t' = 1 ∧ s.shared < maxConcurrency) :
    Within maxConcurrency ⟨n,s.tasks.set i t'⟩ lost := by
  have hoccupied := sum_map_set occupied ht t'
  have hsurplus := sum_map_set surplus ht t'
  have hcounted := h.counted
  have hbounded := h.bounded
  refine ⟨?_,?_,?_⟩
  · intro u hu
    rcases List.mem_or_eq_of_mem_set hu with hu | rfl
    · exact h.staged u hu
    · exact hstage
  · show n = ((s.tasks.set i t').map occupied).sum+((s.tasks.set i t').map surplus).sum+lost
    omega
  · show ((s.tasks.set i t').map occupied).sum+lost ≤ maxConcurrency
    omega

theorem Within.le_shared {s : Calls Req Err} {lost i : ℕ} {t : Call Req Err} (h : Within maxConcurrency s lost)
    (ht : s.tasks[i]? = some t) : occupied t+surplus t ≤ s.shared := by
  have hoccupied := sum_map_eraseIdx occupied ht
  have hsurplus := sum_map_eraseIdx surplus ht
  have hcounted := h.counted
  omega

theorem Within.advance {s s' : Calls Req Err} {lost i : ℕ} {world : (op : Op Req) → op.Ans Req Err}
    (h : Within maxConcurrency s lost)
    (hstep : (middleware Req Err maxConcurrency).step s (.advance i world) = some s') :
    Within maxConcurrency s' lost := by
  obtain ⟨op,next,done,ht,rfl⟩ := Setting.step_advance hstep
  have hle := h.le_shared ht
  have hstage := h.staged _ (List.mem_of_getElem? ht)
  cases hstage with
  | fresh req =>
    show Within maxConcurrency ⟨s.shared+1,s.tasks.set i ⟨if maxConcurrency ≤ s.shared then _ else _,[.fetchAdd]⟩⟩ lost
    by_cases hfull : maxConcurrency ≤ s.shared
    · rw [if_pos hfull]
      exact h.set ht .refused rfl (Or.inl le_rfl)
    · rw [if_neg hfull]
      exact h.set ht (.entered req) rfl (Or.inr ⟨rfl,not_le.mp hfull⟩)
  | entered req => exact h.set ht (.suspended req) rfl (Or.inl le_rfl)
  | suspended req => exact h.set ht (.completed req _) rfl (Or.inl le_rfl)
  | completed req res =>
    have hone : 1 ≤ s.shared := hle
    exact h.set ht (.done res _) (Nat.sub_add_cancel hone) (Or.inl (Nat.zero_le _))
  | refused =>
    have hone : 1 ≤ s.shared := hle
    exact h.set ht .unpolled (Nat.sub_add_cancel hone) (Or.inl le_rfl)
  | unpolled => exact h.set ht (.done _ _) rfl (Or.inl le_rfl)

theorem Within.remove {s : Calls Req Err} {lost i : ℕ} {t : Call Req Err} (h : Within maxConcurrency s lost)
    (ht : s.tasks[i]? = some t) (hsurplus : surplus t = 0) :
    Within maxConcurrency { s with tasks := s.tasks.eraseIdx i } (lost+occupied t) := by
  have hoccupied := sum_map_eraseIdx occupied ht
  have hrest := sum_map_eraseIdx surplus ht
  have hcounted := h.counted
  have hbounded := h.bounded
  refine ⟨fun u hu => h.staged u (List.mem_of_mem_eraseIdx hu),?_,?_⟩
  · show s.shared = ((s.tasks.eraseIdx i).map occupied).sum+((s.tasks.eraseIdx i).map surplus).sum+(lost+occupied t)
    omega
  · show ((s.tasks.eraseIdx i).map occupied).sum+(lost+occupied t) ≤ maxConcurrency
    omega

def KeepsRunning (s : Calls Req Err) (e : Event Req Err) : Prop :=
  ∀ i t, e = .cancel i → s.tasks[i]? = some t → running t = false

/-- Every step stays within the limit; the lost slots become more if the future of a running call is
dropped, and in no other case. -/
theorem Within.step {s s' : Calls Req Err} {lost : ℕ} {e : Event Req Err} (h : Within maxConcurrency s lost)
    (hstep : (middleware Req Err maxConcurrency).step s e = some s') :
    ∃ lost', Within maxConcurrency s' lost' ∧ lost ≤ lost' ∧ (lost' = lost ↔ KeepsRunning s e) := by
  have hother : (∀ i, e ≠ .cancel i) → KeepsRunning s e := fun hne i _ heq => absurd heq (hne i)
  cases e with
  | spawn req =>
    cases hstep
    refine ⟨lost,⟨?_,?_,?_⟩,le_rfl,iff_of_true rfl (hother fun i => by simp)⟩
    · intro t ht
      rcases List.mem_append.mp ht with ht | ht
      · exact h.staged t ht
      · cases List.mem_singleton.mp ht
        exact stage_call req
    · rw [List.map_append,List.sum_append,List.map_append,List.sum_append]
      exact h.counted
    · rw [List.map_append,List.sum_append]
      exact h.bounded
  | advance i world => exact ⟨lost,h.advance hstep,le_rfl,iff_of_true rfl (hother fun j => by simp)⟩
  | retire i =>
    obtain ⟨res,done,ht,rfl⟩ := Setting.step_retire hstep
    exact ⟨lost,h.remove ht rfl,le_rfl,iff_of_true rfl (hother fun j => by simp)⟩
  | cancel i =>
    obtain ⟨t,ht,hdrop,rfl⟩ := Setting.step_cancel hstep
    obtain ⟨hoccupied,hsurplus⟩ := (h.staged t (List.mem_of_getElem? ht)).weights_of_canDrop hdrop
    refine ⟨lost+occupied t,h.remove ht hsurplus,Nat.le_add_right _ _,?_⟩
    rw [hoccupied]
    constructor
    · intro hsame j u heq hu
      cases heq
      rw [ht] at hu
      cases hu
      by_contra hruns
      rw [if_pos (Bool.eq_true_of_not_eq_false hruns)] at hsame
      omega
    · intro hkeeps
      simp [hkeeps i t rfl ht]
  | change x => exact x.elim

theorem within_of_run {s : Calls Req Err} {events : List (Event Req Err)}
    (hrun : exec (middleware Req Err maxConcurrency).step ⟨0,[]⟩ events = some s) :
    ∃ lost, Within maxConcurrency s lost ∧
      (lost = 0 ↔ Along (middleware Req Err maxConcurrency).step KeepsRunning ⟨0,[]⟩ events) := by
  obtain ⟨lost,hwithin,-,hiff⟩ := exec_count (fun s n e s' h hstep => h.step hstep) within_start hrun
  exact ⟨lost,hwithin,hiff⟩

theorem Within.shared_le {s : Calls Req Err} {lost : ℕ} (h : Within maxConcurrency s lost) :
    s.shared ≤ maxConcurrency+(s.tasks.map surplus).sum := by
  have hcounted := h.counted
  have hbounded := h.bounded
  omega

theorem sum_surplus_le (tasks : List (Call Req Err)) : (tasks.map surplus).sum ≤ tasks.length := by
  induction tasks with
  | nil => exact le_rfl
  | cons t tasks ih =>
    have hone : surplus t ≤ 1 := by
      unfold surplus
      split
      · split <;> omega
      · omega
    rw [List.map_cons,List.sum_cons,List.length_cons]
    omega

/-- The limit and the calls at the time fit in a `usize`. -/
def Fits (maxConcurrency : ℕ) (s : Calls Req Err) : Prop := maxConcurrency+s.tasks.length < 2^64

theorem Within.step_usize {s : Calls Req Err} {lost : ℕ} (h : Within maxConcurrency s lost)
    (hfits : Fits maxConcurrency s) (e : Event Req Err) :
    (usizeMiddleware Req Err maxConcurrency).step s e = (middleware Req Err maxConcurrency).step s e := by
  have hroom : maxConcurrency+s.tasks.length < 2^64 := hfits
  have hshared := h.shared_le
  have hsurplus := sum_surplus_le s.tasks
  cases e with
  | advance i world =>
    simp only [Setting.step]
    cases ht : s.tasks[i]? with
    | none => rfl
    | some t =>
      have hle := h.le_shared ht
      have herase := sum_map_eraseIdx surplus ht
      have hothers := sum_surplus_le (s.tasks.eraseIdx i)
      have hlength : (s.tasks.eraseIdx i).length+1 = s.tasks.length := by
        obtain ⟨hi,-⟩ := List.getElem?_eq_some_iff.mp ht
        rw [List.length_eraseIdx_of_lt hi]
        omega
      rcases t with ⟨_ | ⟨op,next⟩,done⟩
      · rfl
      · cases op with
        | fetchAdd =>
          have hzero : surplus (⟨.call .fetchAdd next,done⟩ : Call Req Err) = 0 := rfl
          have hfits : (s.shared+1) % 2^64 = s.shared+1 := Nat.mod_eq_of_lt (by omega)
          show some _ = some _
          simp only [usizeMiddleware,middleware,respondUsize,respond,hfits]
        | fetchSub =>
          have hone : occupied (⟨.call .fetchSub next,done⟩ : Call Req Err)+
              surplus ⟨.call .fetchSub next,done⟩ = 1 := by
            simp only [occupied,surplus]
            split <;> rfl
          have hfits : (s.shared+(2^64-1)) % 2^64 = s.shared-1 := by omega
          simp only [usizeMiddleware,middleware,respondUsize,respond,hfits]
        | _ => rfl
  | _ => rfl

/-- As long as they fit, the `usize` does not wrap around. -/
theorem exec_usizeMiddleware {events : List (Event Req Err)}
    (hfits : Throughout (usizeMiddleware Req Err maxConcurrency).step (Fits maxConcurrency) ⟨0,[]⟩ events) :
    exec (usizeMiddleware Req Err maxConcurrency).step ⟨0,[]⟩ events =
      exec (middleware Req Err maxConcurrency).step ⟨0,[]⟩ events := by
  have hboth : Throughout (usizeMiddleware Req Err maxConcurrency).step
      (fun s => (∃ lost, Within maxConcurrency s lost) ∧ Fits maxConcurrency s) ⟨0,[]⟩ events := by
    intro front back s heq hfront
    refine ⟨?_,hfits front back s heq hfront⟩
    have hstart : ∃ lost, Within maxConcurrency (⟨0,[]⟩ : Calls Req Err) lost := ⟨0,within_start⟩
    refine exec_invariant_along (P := fun s => ∃ lost, Within maxConcurrency s lost)
      (C := fun s _ => Fits maxConcurrency s) ?_ hstart ?_ hfront
    · rintro s e s' ⟨lost,hwithin⟩ hroom hstep
      rw [hwithin.step_usize hroom] at hstep
      obtain ⟨lost',hwithin',-⟩ := hwithin.step hstep
      exact ⟨lost',hwithin'⟩
    · intro front' e back' m heq' hfront'
      exact hfits front' (e::back'++back) m (by simp [heq,heq']) hfront'
  refine (exec_congr ?_ hboth).symm
  rintro s e ⟨⟨lost,hwithin⟩,hroom⟩
  exact (hwithin.step_usize hroom e).symm

theorem Within.running_le {s : Calls Req Err} {lost : ℕ} (h : Within maxConcurrency s lost) :
    s.tasks.countP running ≤ maxConcurrency := by
  have hbounded := h.bounded
  have hrunning := countP_running_le s.tasks
  omega

/-- Never more inner calls run than the limit allows, in whatever order calls add, look, subtract,
complete and are dropped. -/
theorem running_le_maxConcurrency {s : Calls Req Err} {events : List (Event Req Err)}
    (hrun : exec (middleware Req Err maxConcurrency).step ⟨0,[]⟩ events = some s) :
    s.tasks.countP running ≤ maxConcurrency := by
  obtain ⟨lost,hwithin,-⟩ := within_of_run hrun
  exact hwithin.running_le

theorem running_le_usize {s : Calls Req Err} {events : List (Event Req Err)}
    (hfits : Throughout (usizeMiddleware Req Err maxConcurrency).step (Fits maxConcurrency) ⟨0,[]⟩ events)
    (hrun : exec (usizeMiddleware Req Err maxConcurrency).step ⟨0,[]⟩ events = some s) :
    s.tasks.countP running ≤ maxConcurrency := by
  rw [exec_usizeMiddleware hfits] at hrun
  obtain ⟨lost,hwithin,-⟩ := within_of_run hrun
  exact hwithin.running_le

def AdmitsNext (clones : Setting (Op.Ans Req Err) ℕ (Except Err Response) Req Empty) (s : Calls Req Err) : Prop :=
  ∀ req world, ∃ s' t, exec clones.step s [.spawn req,.advance 0 world] = some s' ∧
    s'.tasks = [t] ∧ admitted t = true

theorem admitsNext_start (hpos : 0 < maxConcurrency) :
    AdmitsNext (middleware Req Err maxConcurrency) ⟨0,[]⟩ ∧
      AdmitsNext (usizeMiddleware Req Err maxConcurrency) ⟨0,[]⟩ := by
  have hadmitted : ∀ refused entered, admitted (⟨if maxConcurrency ≤ 0 then refused else entered,[.fetchAdd]⟩ :
      Call Req Err) = admitted ⟨entered,[.fetchAdd]⟩ := by
    intro refused entered
    rw [if_neg (by omega)]
  exact ⟨fun req world => ⟨_,_,rfl,rfl,hadmitted _ _⟩,fun req world => ⟨_,_,rfl,rfl,hadmitted _ _⟩⟩

theorem shared_eq_zero_iff {s : Calls Req Err} {events : List (Event Req Err)}
    (hrun : exec (middleware Req Err maxConcurrency).step ⟨0,[]⟩ events = some s) (hidle : s.tasks = []) :
    s.shared = 0 ↔ Along (middleware Req Err maxConcurrency).step KeepsRunning ⟨0,[]⟩ events := by
  obtain ⟨lost,hwithin,hiff⟩ := within_of_run hrun
  have hlost : s.shared = lost := by
    rw [hwithin.counted,hidle]
    exact Nat.zero_add lost
  rw [← hiff,← hlost]

/-- When all futures have completed or been dropped, the number is zero again and the next call is
admitted exactly if no future was dropped while its inner call was running. -/
theorem idle_again_iff {s : Calls Req Err} {events : List (Event Req Err)}
    (hrun : exec (middleware Req Err maxConcurrency).step ⟨0,[]⟩ events = some s) (hidle : s.tasks = []) :
    (s.shared = 0 ∧ (0 < maxConcurrency → AdmitsNext (middleware Req Err maxConcurrency) s)) ↔
      Along (middleware Req Err maxConcurrency).step KeepsRunning ⟨0,[]⟩ events := by
  rw [← shared_eq_zero_iff hrun hidle]
  constructor
  · exact And.left
  · intro hzero
    have hstart : s = ⟨0,[]⟩ := by rw [← hzero,← hidle]
    rw [hstart]
    exact ⟨rfl,fun hpos => (admitsNext_start hpos).1⟩

theorem idle_again_usize {s : Calls Req Err} {events : List (Event Req Err)}
    (hfits : Throughout (usizeMiddleware Req Err maxConcurrency).step (Fits maxConcurrency) ⟨0,[]⟩ events)
    (hrun : exec (usizeMiddleware Req Err maxConcurrency).step ⟨0,[]⟩ events = some s) (hidle : s.tasks = []) :
    (s.shared = 0 ∧ (0 < maxConcurrency → AdmitsNext (usizeMiddleware Req Err maxConcurrency) s)) ↔
      Along (usizeMiddleware Req Err maxConcurrency).step KeepsRunning ⟨0,[]⟩ events := by
  have hsame : ∀ front back, events = front++back →
      exec (usizeMiddleware Req Err maxConcurrency).step ⟨0,[]⟩ front =
        exec (middleware Req Err maxConcurrency).step ⟨0,[]⟩ front := by
    rintro front back rfl
    exact exec_usizeMiddleware hfits.front
  rw [exec_usizeMiddleware hfits] at hrun
  rw [along_congr hsame,← shared_eq_zero_iff hrun hidle]
  constructor
  · exact And.left
  · intro hzero
    have hstart : s = ⟨0,[]⟩ := by rw [← hzero,← hidle]
    rw [hstart]
    exact ⟨rfl,fun hpos => (admitsNext_start hpos).2⟩

end Runs

section Samples

def promptWorld : (op : Op Unit) → op.Ans Unit String
  | .fetchAdd => (0:ℕ)
  | .fetchSub => (0:ℕ)
  | .call _ => ()
  | .await => .ok serviceUnavailable
  | .poll => ()

def steps (place count : ℕ) : List (Event Unit String) := List.replicate count (.advance place promptWorld)

theorem running_le_maxConcurrency_two : ∃ s,
    exec (middleware Unit String 1).step ⟨0,[]⟩ ([.spawn (),.spawn ()]++steps 0 2++steps 1 1) = some s ∧
      s.shared = 2 ∧ s.tasks.countP running = 1 ∧ s.tasks.countP running ≤ 1 := by
  have hshown : (exec (middleware Unit String 1).step ⟨0,[]⟩ ([.spawn (),.spawn ()]++steps 0 2++steps 1 1)).map
      (fun s => (s.shared,s.tasks.countP running)) = some (2,1) := by decide +kernel
  obtain ⟨s,hs,hpair⟩ := Option.map_eq_some_iff.mp hshown
  exact ⟨s,hs,congrArg Prod.fst hpair,congrArg Prod.snd hpair,running_le_maxConcurrency hs⟩

/-- With a limit of one, a future dropped at its inner call takes the slot with it: no call is in
progress, and the next is turned away. -/
theorem dropped_future_keeps_slot :
    let dropped := [.spawn ()]++steps 0 2++[.cancel 0]
    (exec (middleware Unit String 1).step ⟨0,[]⟩ dropped).map (fun s => (s.shared,s.tasks.length)) = some (1,0) ∧
    (exec (middleware Unit String 1).step ⟨0,[]⟩ (dropped++[.spawn ()]++steps 0 1)).map
      (fun s => s.tasks.map admitted) = some [false] := by
  decide +kernel

theorem idle_again_iff_completed : ∃ s,
    exec (middleware Unit String 1).step ⟨0,[]⟩ ([.spawn ()]++steps 0 4++[.retire 0]) = some s ∧
      s.shared = 0 ∧ AdmitsNext (middleware Unit String 1) s := by
  have hshown : (exec (middleware Unit String 1).step ⟨0,[]⟩ ([.spawn ()]++steps 0 4++[.retire 0])).map
      (fun s => s.tasks.length) = some 0 := by decide +kernel
  obtain ⟨s,hs,hlength⟩ := Option.map_eq_some_iff.mp hshown
  have hkeeps : Along (middleware Unit String 1).step KeepsRunning ⟨0,[]⟩
      ([.spawn ()]++steps 0 4++[.retire 0]) := by
    apply along_of_mem
    rintro e hmem m i t rfl ht
    simp [steps] at hmem
  obtain ⟨hzero,hadmits⟩ := (idle_again_iff hs (List.length_eq_zero_iff.mp hlength)).mpr hkeeps
  exact ⟨s,hs,hzero,hadmits Nat.one_pos⟩

end Samples

end LoadShed
end OxiGate
