import OxiGate.Interaction
import OxiGate.Runs

/-! Concurrent tasks over a shared state, any of which may be dropped where it is
suspended. A discipline says which resources a task holds between its calls; where
every program keeps it, the shared counters show what the live tasks hold. -/
namespace OxiGate
namespace Tasks

open Interaction Runs

variable {Op : Type} {Ans : Op → Type} {σ α R X K : Type}

section Sums

variable {β : Type} {l : List β} {i : ℕ} {a : β}

theorem sum_map_eraseIdx (w : β → ℕ) (h : l[i]? = some a) : ((l.eraseIdx i).map w).sum+w a = (l.map w).sum := by
  obtain ⟨hi,rfl⟩ := List.getElem?_eq_some_iff.mp h
  have hperm := (List.getElem_cons_eraseIdx_perm hi).map w
  rw [← hperm.sum_eq,List.map_cons,List.sum_cons,Nat.add_comm]

theorem sum_map_set (w : β → ℕ) (h : l[i]? = some a) (b : β) :
    ((l.set i b).map w).sum+w a = (l.map w).sum+w b := by
  have herase := sum_map_eraseIdx w h
  obtain ⟨hi,rfl⟩ := List.getElem?_eq_some_iff.mp h
  have hperm := (List.set_perm_cons_eraseIdx hi b).map w
  rw [hperm.sum_eq,List.map_cons,List.sum_cons]
  omega

theorem sum_map_eq_countP {w : β → ℕ} {p : β → Bool} (h : ∀ b ∈ l, w b = if p b then 1 else 0) :
    (l.map w).sum = l.countP p := by
  induction l with
  | nil => rfl
  | cons b l ih =>
    obtain ⟨hb,hl⟩ := List.forall_mem_cons.mp h
    rw [List.map_cons,List.sum_cons,ih hl,hb,List.countP_cons,Nat.add_comm]

theorem count_toList [DecidableEq β] [BEq β] [LawfulBEq β] (o : Option β) (b : β) :
    o.toList.count b = if o = some b then 1 else 0 := by
  cases o with
  | none => simp
  | some c => by_cases h : c = b <;> simp [h]

end Sums

structure Setting (Ans : Op → Type) (σ α R X : Type) where
  program : R → Prog Ans α
  /-- The answer to a call and its effect, given what the outside world has to say. -/
  respond : σ → (op : Op) → Ans op → Ans op × σ
  /-- The calls at which a task is suspended. -/
  awaits : Op → Bool
  change : X → σ → σ

/-- What is left of a program, and the calls it has made. -/
structure Task (Ans : Op → Type) (α : Type) where
  rest : Prog Ans α
  done : List Op

structure System (Ans : Op → Type) (σ α : Type) where
  shared : σ
  tasks : List (Task Ans α)

inductive Label (Ans : Op → Type) (R X : Type)
  | spawn (r : R)
  | advance (i : ℕ) (world : (op : Op) → Ans op)
  | retire (i : ℕ)
  | cancel (i : ℕ)
  | change (x : X)

def dropped {M : Type} [Zero M] (worth : Task Ans α → M) (tasks : List (Task Ans α)) : Label Ans R X → M
  | .cancel i => (tasks[i]?.map worth).getD 0
  | _ => 0

namespace Setting

variable (S : Setting Ans σ α R X)

/-- A task can be dropped before its first call or where it is suspended. -/
def canDrop (t : Task Ans α) : Bool :=
  t.done.isEmpty ||
    match t.rest with
    | .call op _ => S.awaits op
    | .pure _ => false

def step (s : System Ans σ α) : Label Ans R X → Option (System Ans σ α)
  | .spawn r => some { s with tasks := s.tasks++[⟨S.program r,[]⟩] }
  | .advance i world =>
    match s.tasks[i]? with
    | some ⟨.call op next,done⟩ =>
      let r := S.respond s.shared op (world op)
      some ⟨r.2,s.tasks.set i ⟨next r.1,done++[op]⟩⟩
    | _ => none
  | .retire i =>
    match s.tasks[i]? with
    | some ⟨.pure _,_⟩ => some { s with tasks := s.tasks.eraseIdx i }
    | _ => none
  | .cancel i =>
    match s.tasks[i]? with
    | some t => if S.canDrop t then some { s with tasks := s.tasks.eraseIdx i } else none
    | none => none
  | .change x => some { s with shared := S.change x s.shared }

variable {S}

theorem step_advance {s s' : System Ans σ α} {i : ℕ} {world : (op : Op) → Ans op}
    (h : S.step s (.advance i world) = some s') :
    ∃ op next done, s.tasks[i]? = some ⟨.call op next,done⟩ ∧
      s' = ⟨(S.respond s.shared op (world op)).2,
        s.tasks.set i ⟨next (S.respond s.shared op (world op)).1,done++[op]⟩⟩ := by
  simp only [step] at h
  split at h
  · rename_i op next done htask
    cases h
    exact ⟨op,next,done,htask,rfl⟩
  · cases h

theorem step_retire {s s' : System Ans σ α} {i : ℕ} (h : S.step s (.retire i) = some s') :
    ∃ a done, s.tasks[i]? = some ⟨.pure a,done⟩ ∧ s' = { s with tasks := s.tasks.eraseIdx i } := by
  simp only [step] at h
  split at h
  · rename_i a done htask
    cases h
    exact ⟨a,done,htask,rfl⟩
  · cases h

theorem step_cancel {s s' : System Ans σ α} {i : ℕ} (h : S.step s (.cancel i) = some s') :
    ∃ t, s.tasks[i]? = some t ∧ S.canDrop t = true ∧
      s' = { s with tasks := s.tasks.eraseIdx i } := by
  simp only [step] at h
  split at h
  · rename_i t htask
    split at h
    · rename_i hdrop
      cases h
      exact ⟨t,htask,hdrop,rfl⟩
    · cases h
  · cases h

end Setting

/-- How calls change what a task holds, and that the counters change with it. -/
structure Discipline (S : Setting Ans σ α R X) (K : Type) [BEq K] where
  level : σ → K → ℕ
  after : Op → List K → List K
  guard : Op → List K → Prop
  sane : σ → Prop
  fits : (op : Op) → Ans op → Prop
  sane_respond : ∀ {s} op a, sane s → sane (S.respond s op a).2
  fits_respond : ∀ {s} op a, sane s → fits op (S.respond s op a).1
  level_respond : ∀ {s} op a {held}, sane s → guard op held → (∀ k, held.count k ≤ level s k) →
    ∀ k, level (S.respond s op a).2 k+held.count k = level s k+(after op held).count k
  sane_change : ∀ {s} x, sane s → sane (S.change x s)
  level_change : ∀ s x k, level (S.change x s) k = level s k

namespace Discipline

variable [BEq K] {S : Setting Ans σ α R X} (d : Discipline S K)

/-- Started with `held`, the program makes every call holding what it must, and ends with
a result and holdings that meet the condition. -/
def Keeps {β : Type} : Prog Ans β → List K → (β → List K → Prop) → Prop
  | .pure b, held, Q => Q b held
  | .call op next, held, Q => d.guard op held ∧ ∀ a, d.fits op a → Keeps (next a) (d.after op held) Q

def holding (done : List Op) : List K := done.foldl (fun held op => d.after op held) []

def inFlight (tasks : List (Task Ans α)) (k : K) : ℕ :=
  (tasks.map fun t => (d.holding t.done).count k).sum

def Accounted (s : System Ans σ α) : Prop := ∀ k, d.level s.shared k = d.inFlight s.tasks k

/-- The task will keep the discipline to its end, where it holds nothing. -/
def Orderly (t : Task Ans α) : Prop := d.Keeps t.rest (d.holding t.done) fun _ held => held = []

structure Disciplined (s : System Ans σ α) : Prop where
  sane : d.sane s.shared
  orderly : ∀ t ∈ s.tasks, d.Orderly t

variable {d}

section Rules

variable {β γ : Type} {held : List K}

@[simp] theorem keeps_perform_bind {op : Op} {f : Ans op → Prog Ans β} {Q : β → List K → Prop} :
    d.Keeps (Prog.perform op >>= f) held Q ↔
      d.guard op held ∧ ∀ a, d.fits op a → d.Keeps (f a) (d.after op held) Q := Iff.rfl

theorem Keeps.bind {p : Prog Ans β} {f : β → Prog Ans γ} {Q : β → List K → Prop}
    {Q' : γ → List K → Prop} (hp : d.Keeps p held Q)
    (hf : ∀ b held', Q b held' → d.Keeps (f b) held' Q') : d.Keeps (p >>= f) held Q' := by
  induction p generalizing held with
  | pure b => exact hf b held hp
  | call op next ih => exact ⟨hp.1,fun a ha => ih a (hp.2 a ha)⟩

end Rules

theorem holding_append (done : List Op) (op : Op) :
    d.holding (done++[op]) = d.after op (d.holding done) := by
  simp [holding]

theorem inFlight_append (tasks : List (Task Ans α)) (t : Task Ans α) (k : K) :
    d.inFlight (tasks++[t]) k = d.inFlight tasks k+(d.holding t.done).count k := by
  simp [inFlight]

theorem inFlight_eraseIdx {tasks : List (Task Ans α)} {i : ℕ} {t : Task Ans α}
    (h : tasks[i]? = some t) (k : K) :
    d.inFlight (tasks.eraseIdx i) k+(d.holding t.done).count k = d.inFlight tasks k :=
  sum_map_eraseIdx (fun t : Task Ans α => (d.holding t.done).count k) h

theorem inFlight_set {tasks : List (Task Ans α)} {i : ℕ} {t : Task Ans α}
    (h : tasks[i]? = some t) (t' : Task Ans α) (k : K) :
    d.inFlight (tasks.set i t') k+(d.holding t.done).count k =
      d.inFlight tasks k+(d.holding t'.done).count k :=
  sum_map_set (fun t : Task Ans α => (d.holding t.done).count k) h t'

theorem count_le_inFlight {tasks : List (Task Ans α)} {i : ℕ} {t : Task Ans α}
    (h : tasks[i]? = some t) (k : K) : (d.holding t.done).count k ≤ d.inFlight tasks k := by
  have herase := inFlight_eraseIdx (d := d) h k
  omega

theorem Disciplined.step (hprogram : ∀ r, d.Keeps (S.program r) [] fun _ held => held = [])
    {s s' : System Ans σ α} {l : Label Ans R X} (hs : d.Disciplined s) (h : S.step s l = some s') :
    d.Disciplined s' := by
  cases l with
  | spawn r =>
    cases h
    refine ⟨hs.sane,?_⟩
    intro t ht
    rcases List.mem_append.mp ht with ht | ht
    · exact hs.orderly t ht
    · cases List.mem_singleton.mp ht
      exact hprogram r
  | advance i world =>
    obtain ⟨op,next,done,htask,rfl⟩ := Setting.step_advance h
    have horderly : d.Orderly ⟨.call op next,done⟩ := hs.orderly _ (List.mem_of_getElem? htask)
    refine ⟨d.sane_respond op _ hs.sane,?_⟩
    intro t ht
    rcases List.mem_or_eq_of_mem_set ht with ht | rfl
    · exact hs.orderly t ht
    · have hnext := horderly.2 _ (d.fits_respond op (world op) hs.sane)
      show d.Keeps _ (d.holding (done++[op])) _
      rw [holding_append]
      exact hnext
  | retire i =>
    obtain ⟨a,done,htask,rfl⟩ := Setting.step_retire h
    exact ⟨hs.sane,fun u hu => hs.orderly u (List.mem_of_mem_eraseIdx hu)⟩
  | cancel i =>
    obtain ⟨t,htask,-,rfl⟩ := Setting.step_cancel h
    exact ⟨hs.sane,fun u hu => hs.orderly u (List.mem_of_mem_eraseIdx hu)⟩
  | change x =>
    cases h
    exact ⟨d.sane_change x hs.sane,hs.orderly⟩

theorem Disciplined.run (hprogram : ∀ r, d.Keeps (S.program r) [] fun _ held => held = [])
    {s s' : System Ans σ α} {labels : List (Label Ans R X)} (hs : d.Disciplined s)
    (hrun : exec S.step s labels = some s') : d.Disciplined s' :=
  exec_invariant (fun _ _ _ h hstep => h.step hprogram hstep) hs hrun

theorem Accounted.advance {s : System Ans σ α} {i : ℕ} {op : Op} {next : Ans op → Prog Ans α}
    {done : List Op} (hacc : d.Accounted s) (hs : d.Disciplined s)
    (htask : s.tasks[i]? = some ⟨.call op next,done⟩) (a : Ans op) :
    d.Accounted ⟨(S.respond s.shared op a).2,
      s.tasks.set i ⟨next (S.respond s.shared op a).1,done++[op]⟩⟩ := by
  have horderly : d.Orderly ⟨.call op next,done⟩ := hs.orderly _ (List.mem_of_getElem? htask)
  have hguard : d.guard op (d.holding done) := horderly.1
  have henough : ∀ k, (d.holding done).count k ≤ d.level s.shared k := by
    intro k
    rw [hacc k]
    exact count_le_inFlight htask k
  intro k
  have hlevel := d.level_respond op a hs.sane hguard henough k
  have hset := inFlight_set (d := d) htask ⟨next (S.respond s.shared op a).1,done++[op]⟩ k
  rw [holding_append] at hset
  have hbefore := hacc k
  show d.level (S.respond s.shared op a).2 k = d.inFlight (s.tasks.set i _) k
  simp only at hset
  omega

theorem Accounted.remove {s : System Ans σ α} {i : ℕ} {t : Task Ans α} (hacc : d.Accounted s)
    (htask : s.tasks[i]? = some t) (hnothing : d.holding t.done = []) :
    d.Accounted { s with tasks := s.tasks.eraseIdx i } := by
  intro k
  have herase := inFlight_eraseIdx (d := d) htask k
  rw [hnothing,List.count_nil,Nat.add_zero] at herase
  rw [herase]
  exact hacc k

/-- Every step keeps the counters right, unless it drops a task that holds something. -/
theorem Accounted.step {s s' : System Ans σ α} {l : Label Ans R X} (hacc : d.Accounted s)
    (hs : d.Disciplined s) (h : S.step s l = some s')
    (hkept : ∀ i t, l = .cancel i → s.tasks[i]? = some t → d.holding t.done = []) :
    d.Accounted s' := by
  cases l with
  | spawn r =>
    cases h
    intro k
    rw [inFlight_append]
    exact hacc k
  | advance i world =>
    obtain ⟨op,next,done,htask,rfl⟩ := Setting.step_advance h
    exact hacc.advance hs htask _
  | retire i =>
    obtain ⟨a,done,htask,rfl⟩ := Setting.step_retire h
    have hdone : d.Orderly ⟨.pure a,done⟩ := hs.orderly _ (List.mem_of_getElem? htask)
    exact hacc.remove htask hdone
  | cancel i =>
    obtain ⟨t,htask,-,rfl⟩ := Setting.step_cancel h
    exact hacc.remove htask (hkept i t rfl htask)
  | change x =>
    cases h
    intro k
    rw [d.level_change]
    exact hacc k

variable (d) in
def DropsNothing (s : System Ans σ α) (labels : List (Label Ans R X)) : Prop :=
  ∀ front i back s' t, labels = front++.cancel i::back → exec S.step s front = some s' →
    s'.tasks[i]? = some t → d.holding t.done = []

/-- Dropping a task that holds something leaves a counter too high for good. -/
theorem not_accounted_of_drop [LawfulBEq K] {s s' : System Ans σ α} {i : ℕ} {t : Task Ans α} (hs : d.Accounted s)
    (h : S.step s (.cancel i) = some s') (htask : s.tasks[i]? = some t)
    (hholds : d.holding t.done ≠ []) : ¬ d.Accounted s' := by
  intro hs'
  obtain ⟨t',htask',-,rfl⟩ := Setting.step_cancel h
  rw [htask] at htask'
  cases htask'
  obtain ⟨k,hk⟩ := List.exists_mem_of_ne_nil _ hholds
  have hpos : 0 < (d.holding t.done).count k := List.count_pos_iff.mpr hk
  have herase := inFlight_eraseIdx (d := d) htask k
  have hbefore := hs k
  have hafter : d.level s.shared k = d.inFlight (s.tasks.eraseIdx i) k := hs' k
  omega

/-- The counters are right all along a run exactly when it drops no task that holds
something. -/
theorem accounted_iff [LawfulBEq K]
    (hprogram : ∀ r, d.Keeps (S.program r) [] fun _ held => held = [])
    {s₀ s : System Ans σ α} {labels : List (Label Ans R X)} (hacc : d.Accounted s₀)
    (hs : d.Disciplined s₀) (hrun : exec S.step s₀ labels = some s) :
    (∀ front back s', labels = front++back → exec S.step s₀ front = some s' → d.Accounted s') ↔
      d.DropsNothing s₀ labels := by
  have hkeep : ∀ s l s', d.Disciplined s ∧ d.Accounted s →
      (∀ i t, l = .cancel i → s.tasks[i]? = some t → d.holding t.done = []) → S.step s l = some s' →
      d.Disciplined s' ∧ d.Accounted s' := by
    intro s l s' h hkept hstep
    exact ⟨h.1.step hprogram hstep,h.2.step h.1 hstep hkept⟩
  have hbreak : ∀ s l s', d.Disciplined s ∧ d.Accounted s →
      (¬ ∀ i t, l = .cancel i → s.tasks[i]? = some t → d.holding t.done = []) → S.step s l = some s' →
      ¬ (d.Disciplined s' ∧ d.Accounted s') := by
    intro s l s' h hdrops hstep h'
    push Not at hdrops
    obtain ⟨i,t,rfl,htask,hholds⟩ := hdrops
    exact not_accounted_of_drop h.2 hstep htask hholds h'.2
  have hiff := throughout_iff hkeep hbreak ⟨hs,hacc⟩ hrun
  constructor
  · intro hall front i back s' t heq hfront htask
    have hthrough : Throughout S.step (fun s => d.Disciplined s ∧ d.Accounted s) s₀ labels :=
      fun front back m heq hfront => ⟨hs.run hprogram hfront,hall front back m heq hfront⟩
    exact hiff.mp hthrough front (.cancel i) back s' heq hfront i t rfl htask
  · intro hkept front back s' heq hfront
    refine (hiff.mpr ?_ front back s' heq hfront).2
    rintro front l back m heq hfront i t rfl htask
    exact hkept front i back m t heq hfront htask

theorem Disciplined.excess {s s' : System Ans σ α} {l : Label Ans R X} {extra : K → ℕ} (hs : d.Disciplined s)
    (hextra : ∀ k, d.level s.shared k = d.inFlight s.tasks k+extra k) (h : S.step s l = some s') (k : K) :
    d.level s'.shared k =
      d.inFlight s'.tasks k+(extra k+dropped (fun t k => (d.holding t.done).count k) s.tasks l k) := by
  cases l with
  | spawn r =>
    cases h
    rw [inFlight_append]
    exact hextra k
  | advance i world =>
    obtain ⟨op,next,done,htask,rfl⟩ := Setting.step_advance h
    have hguard : d.guard op (d.holding done) := (hs.orderly _ (List.mem_of_getElem? htask)).1
    have henough : ∀ k, (d.holding done).count k ≤ d.level s.shared k := by
      intro k
      rw [hextra k]
      exact (count_le_inFlight htask k).trans (Nat.le_add_right _ _)
    have hlevel := d.level_respond op (world op) hs.sane hguard henough k
    have hset := inFlight_set (d := d) htask ⟨next (S.respond s.shared op (world op)).1,done++[op]⟩ k
    rw [holding_append] at hset
    have hbefore := hextra k
    have hnone : dropped (fun t k => (d.holding t.done).count k) s.tasks (.advance i world : Label Ans R X) k = 0 := rfl
    dsimp only at hset ⊢
    omega
  | retire i =>
    obtain ⟨a,done,htask,rfl⟩ := Setting.step_retire h
    have hdone : d.holding done = [] := hs.orderly _ (List.mem_of_getElem? htask)
    have herase := inFlight_eraseIdx (d := d) htask k
    rw [hdone,List.count_nil,Nat.add_zero] at herase
    dsimp only
    rw [herase]
    exact hextra k
  | cancel i =>
    obtain ⟨t,htask,-,rfl⟩ := Setting.step_cancel h
    have herase := inFlight_eraseIdx (d := d) htask k
    have hbefore := hextra k
    simp only [dropped,htask,Option.map_some,Option.getD_some]
    omega
  | change x =>
    cases h
    rw [d.level_change]
    exact hextra k

/-- The counters show what they showed at first, what the live tasks hold, and what the dropped ones held. -/
theorem Disciplined.leak (hprogram : ∀ r, d.Keeps (S.program r) [] fun _ held => held = []) {s₀ : σ}
    {s : System Ans σ α} {labels : List (Label Ans R X)} (hs : d.Disciplined ⟨s₀,[]⟩)
    (hrun : exec S.step ⟨s₀,[]⟩ labels = some s) (k : K) :
    d.level s.shared k = d.level s₀ k+d.inFlight s.tasks k+
      tally S.step (fun s l => dropped (fun t => (d.holding t.done).count k) s.tasks l) ⟨s₀,[]⟩ labels := by
  let P (s : System Ans σ α) (n : K → ℕ) : Prop :=
    d.Disciplined s ∧ ∀ k, d.level s.shared k = d.inFlight s.tasks k+(d.level s₀ k+n k)
  let w (s : System Ans σ α) (l : Label Ans R X) : K → ℕ := dropped (fun t k => (d.holding t.done).count k) s.tasks l
  have hend : P s (0+tally S.step w ⟨s₀,[]⟩ labels) := by
    refine exec_tally ?_ ⟨hs,fun k => (Nat.zero_add _).symm⟩ hrun
    rintro s n l s' ⟨hsane,hcount⟩ h
    refine ⟨hsane.step hprogram h,fun k => ?_⟩
    have hstep := hsane.excess hcount h k
    rw [Nat.add_assoc] at hstep
    exact hstep
  have hat := tally_map (Pi.evalAddMonoidHom (fun _ : K => ℕ) k) S.step w ⟨s₀,[]⟩ labels
  have hw : (fun s l => (Pi.evalAddMonoidHom (fun _ : K => ℕ) k) (w s l)) =
      fun (s : System Ans σ α) (l : Label Ans R X) => dropped (fun t => (d.holding t.done).count k) s.tasks l := by
    funext s l
    cases l with
    | cancel i => cases h : s.tasks[i]? <;> simp [w,dropped,h]
    | _ => rfl
  have hcount := hend.2 k
  rw [zero_add] at hcount
  rw [hw] at hat
  rw [hat,hcount]
  simp only [Pi.evalAddMonoidHom_apply]
  omega

end Discipline

end Tasks
end OxiGate
