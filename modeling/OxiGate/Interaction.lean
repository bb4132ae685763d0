import Mathlib.Tactic

/-! Programs that call on their surroundings and go on with the answer. What the
surroundings are like at a call is a moment; an execution takes one moment for each
call and leaves behind the calls it made, each with its moment. -/
namespace OxiGate
namespace Interaction

variable {Op : Type} {Ans : Op → Type} {M α β : Type}

inductive Prog {Op : Type} (Ans : Op → Type) (α : Type)
  | pure (value : α)
  | call (op : Op) (next : Ans op → Prog Ans α)

namespace Prog

def bind : Prog Ans α → (α → Prog Ans β) → Prog Ans β
  | .pure value, f => f value
  | .call op next, f => .call op fun a => (next a).bind f

instance : Monad (Prog Ans) where
  pure := Prog.pure
  bind := Prog.bind

def perform (op : Op) : Prog Ans (Ans op) := .call op .pure

end Prog

variable (answer : M → (op : Op) → Ans op)

/-- Execute a program, the calls being made at the given moments. -/
def run : Prog Ans α → (ℕ → M) → α × List (Op × M)
  | .pure value, _ => (value,[])
  | .call op next, moments =>
    let r := run (next (answer (moments 0) op)) fun n => moments (n+1)
    (r.1,(op,moments 0)::r.2)

/-- The program returns the value having made exactly the calls of the trace. -/
def Returns : Prog Ans α → List (Op × M) → α → Prop
  | .pure value, tr, b => tr = [] ∧ b = value
  | .call op next, tr, b => ∃ m rest, tr = (op,m)::rest ∧ Returns (next (answer m op)) rest b

theorem returns_run (p : Prog Ans α) (moments : ℕ → M) :
    Returns answer p (run answer p moments).2 (run answer p moments).1 := by
  induction p generalizing moments with
  | pure value => exact ⟨rfl,rfl⟩
  | call op next ih => exact ⟨moments 0,_,rfl,ih _ _⟩

/-- Every complete execution of the program meets the condition. -/
def Sat (p : Prog Ans α) (Q : List (Op × M) → α → Prop) : Prop :=
  ∀ tr b, Returns answer p tr b → Q tr b

variable {answer}

theorem Sat.run {p : Prog Ans α} {Q : List (Op × M) → α → Prop} (h : Sat answer p Q)
    (moments : ℕ → M) : Q (run answer p moments).2 (run answer p moments).1 :=
  h _ _ (returns_run answer p moments)

theorem Sat.mono {p : Prog Ans α} {Q Q' : List (Op × M) → α → Prop} (h : Sat answer p Q)
    (himp : ∀ tr b, Q tr b → Q' tr b) : Sat answer p Q' :=
  fun tr b hret => himp tr b (h tr b hret)

@[simp] theorem sat_pure {value : α} {Q : List (Op × M) → α → Prop} :
    Sat answer (pure value) Q ↔ Q [] value := by
  constructor
  · intro h
    exact h [] value ⟨rfl,rfl⟩
  · rintro h tr b ⟨rfl,rfl⟩
    exact h

theorem sat_call {op : Op} {next : Ans op → Prog Ans α} {Q : List (Op × M) → α → Prop} :
    Sat answer (.call op next) Q ↔
      ∀ m, Sat answer (next (answer m op)) fun tr b => Q ((op,m)::tr) b := by
  constructor
  · intro h m tr b hret
    exact h _ b ⟨m,tr,rfl,hret⟩
  · rintro h tr b ⟨m,rest,rfl,hret⟩
    exact h m rest b hret

@[simp] theorem sat_perform_bind {op : Op} {f : Ans op → Prog Ans α} {Q : List (Op × M) → α → Prop} :
    Sat answer (Prog.perform op >>= f) Q ↔
      ∀ m, Sat answer (f (answer m op)) fun tr b => Q ((op,m)::tr) b :=
  sat_call

@[simp] theorem sat_perform {op : Op} {Q : List (Op × M) → Ans op → Prop} :
    Sat answer (Prog.perform op) Q ↔ ∀ m, Q [(op,m)] (answer m op) := by
  unfold Prog.perform
  rw [sat_call]
  exact forall_congr' fun m => sat_pure

theorem returns_perform_bind {op : Op} {f : Ans op → Prog Ans α} {tr : List (Op × M)} {b : α} :
    Returns answer (Prog.perform op >>= f) tr b ↔
      ∃ m rest, tr = (op,m)::rest ∧ Returns answer (f (answer m op)) rest b := Iff.rfl

theorem returns_bind {p : Prog Ans α} {f : α → Prog Ans β} {tr : List (Op × M)} {b : β} :
    Returns answer (p >>= f) tr b ↔
      ∃ a tr₁ tr₂, tr = tr₁++tr₂ ∧ Returns answer p tr₁ a ∧ Returns answer (f a) tr₂ b := by
  induction p generalizing tr with
  | pure value =>
    constructor
    · intro h
      exact ⟨value,[],tr,rfl,⟨rfl,rfl⟩,h⟩
    · rintro ⟨a,tr₁,tr₂,rfl,⟨rfl,rfl⟩,h⟩
      exact h
  | call op next ih =>
    constructor
    · rintro ⟨m,rest,rfl,h⟩
      obtain ⟨a,tr₁,tr₂,rfl,h₁,h₂⟩ := (ih _).mp h
      exact ⟨a,(op,m)::tr₁,tr₂,rfl,⟨m,tr₁,rfl,h₁⟩,h₂⟩
    · rintro ⟨a,tr₁,tr₂,rfl,⟨m,rest,rfl,h₁⟩,h₂⟩
      exact ⟨m,rest++tr₂,rfl,(ih _).mpr ⟨a,rest,tr₂,rfl,h₁,h₂⟩⟩

theorem sat_bind {p : Prog Ans α} {f : α → Prog Ans β} {Q : List (Op × M) → β → Prop} :
    Sat answer (p >>= f) Q ↔
      Sat answer p fun tr a => Sat answer (f a) fun tr' b => Q (tr++tr') b := by
  constructor
  · intro h tr a hp tr' b hf
    exact h _ b (returns_bind.mpr ⟨a,tr,tr',rfl,hp,hf⟩)
  · intro h tr b hret
    obtain ⟨a,tr₁,tr₂,rfl,hp,hf⟩ := returns_bind.mp hret
    exact h tr₁ a hp tr₂ b hf

section Waiting

variable (answer) (waits : Op → Bool)

/-- The program has made exactly the calls of the trace and waits for the answer to the next. -/
def Waits : Prog Ans α → List (Op × M) → Prop
  | .pure _, _ => False
  | .call op next, tr =>
    (tr = [] ∧ waits op = true) ∨ ∃ m rest, tr = (op,m)::rest ∧ Waits (next (answer m op)) rest

/-- Every execution of the program meets one condition where it waits, and the other when it
is complete. -/
def SatUntil (p : Prog Ans α) (R : List (Op × M) → Prop) (Q : List (Op × M) → α → Prop) : Prop :=
  (∀ tr, Waits answer waits p tr → R tr) ∧ Sat answer p Q

variable {answer waits} {R R' : List (Op × M) → Prop}

theorem SatUntil.mono {p : Prog Ans α} {Q Q' : List (Op × M) → α → Prop}
    (h : SatUntil answer waits p R Q) (hR : ∀ tr, R tr → R' tr) (hQ : ∀ tr b, Q tr b → Q' tr b) :
    SatUntil answer waits p R' Q' :=
  ⟨fun tr hwaits => hR tr (h.1 tr hwaits),h.2.mono hQ⟩

@[simp] theorem satUntil_pure {value : α} {Q : List (Op × M) → α → Prop} :
    SatUntil answer waits (pure value) R Q ↔ Q [] value := by
  have hnever : ∀ tr, ¬ Waits answer waits (pure value : Prog Ans α) tr := fun _ h => h
  simp [SatUntil,hnever]

@[simp] theorem satUntil_perform_bind {op : Op} {f : Ans op → Prog Ans α}
    {Q : List (Op × M) → α → Prop} :
    SatUntil answer waits (Prog.perform op >>= f) R Q ↔ (waits op = true → R []) ∧
      ∀ m, SatUntil answer waits (f (answer m op)) (fun tr => R ((op,m)::tr))
        fun tr b => Q ((op,m)::tr) b := by
  constructor
  · rintro ⟨hR,hQ⟩
    refine ⟨fun hop => hR [] (Or.inl ⟨rfl,hop⟩),fun m => ⟨?_,sat_perform_bind.mp hQ m⟩⟩
    intro tr hwaits
    exact hR _ (Or.inr ⟨m,tr,rfl,hwaits⟩)
  · rintro ⟨hhere,hthen⟩
    refine ⟨?_,sat_perform_bind.mpr fun m => (hthen m).2⟩
    rintro tr (⟨rfl,hop⟩ | ⟨m,rest,rfl,hwaits⟩)
    · exact hhere hop
    · exact (hthen m).1 rest hwaits

@[simp] theorem satUntil_perform {op : Op} {Q : List (Op × M) → Ans op → Prop} :
    SatUntil answer waits (Prog.perform op) R Q ↔
      (waits op = true → R []) ∧ ∀ m, Q [(op,m)] (answer m op) := by
  have hbind : (Prog.perform op >>= pure : Prog Ans (Ans op)) = Prog.perform op := rfl
  rw [← hbind,satUntil_perform_bind]
  simp only [satUntil_pure]

theorem waits_bind {p : Prog Ans α} {f : α → Prog Ans β} {tr : List (Op × M)} :
    Waits answer waits (p >>= f) tr ↔ Waits answer waits p tr ∨
      ∃ a tr₁ tr₂, tr = tr₁++tr₂ ∧ Returns answer p tr₁ a ∧ Waits answer waits (f a) tr₂ := by
  induction p generalizing tr with
  | pure value =>
    constructor
    · intro h
      exact Or.inr ⟨value,[],tr,rfl,⟨rfl,rfl⟩,h⟩
    · rintro (h | ⟨a,tr₁,tr₂,rfl,⟨rfl,rfl⟩,h⟩)
      · exact h.elim
      · exact h
  | call op next ih =>
    constructor
    · rintro (hhere | ⟨m,rest,rfl,h⟩)
      · exact Or.inl (Or.inl hhere)
      · rcases (ih _).mp h with h | ⟨a,tr₁,tr₂,rfl,h₁,h₂⟩
        · exact Or.inl (Or.inr ⟨m,rest,rfl,h⟩)
        · exact Or.inr ⟨a,(op,m)::tr₁,tr₂,rfl,⟨m,tr₁,rfl,h₁⟩,h₂⟩
    · rintro ((hhere | ⟨m,rest,rfl,h⟩) | ⟨a,tr₁,tr₂,rfl,⟨m,rest,rfl,h₁⟩,h₂⟩)
      · exact Or.inl hhere
      · exact Or.inr ⟨m,rest,rfl,(ih _).mpr (Or.inl h)⟩
      · exact Or.inr ⟨m,rest++tr₂,rfl,(ih _).mpr (Or.inr ⟨a,rest,tr₂,rfl,h₁,h₂⟩)⟩

theorem SatUntil.bind {p : Prog Ans α} {f : α → Prog Ans β} {Q : List (Op × M) → β → Prop}
    (h : SatUntil answer waits p R fun tr a =>
      SatUntil answer waits (f a) (fun tr' => R (tr++tr')) fun tr' b => Q (tr++tr') b) :
    SatUntil answer waits (p >>= f) R Q := by
  refine ⟨?_,sat_bind.mpr (h.2.mono fun _ _ hf => hf.2)⟩
  intro tr hwaits
  rcases waits_bind.mp hwaits with hwaits | ⟨a,tr₁,tr₂,rfl,hp,hf⟩
  · exact h.1 tr hwaits
  · exact (h.2 tr₁ a hp).1 tr₂ hf

end Waiting

section Interleaved

/-- Of a log kept by several programs at once, the part of one of them. -/
def partOf {γ : Type} (i : ℕ) (log : List (ℕ × γ)) : List γ :=
  log.filterMap fun c => if c.1 = i then some c.2 else none

theorem partOf_map {γ : Type} (i : ℕ) (calls : List γ) : partOf i (calls.map fun e => (i,e)) = calls := by
  simp [partOf,List.filterMap_map]

theorem sum_countP_partOf {γ : Type} {n : ℕ} {log : List (ℕ × γ)} (h : ∀ c ∈ log, c.1 < n)
    (p : γ → Bool) :
    ∑ i ∈ Finset.range n, (partOf i log).countP p = log.countP fun c => p c.2 := by
  induction log with
  | nil => simp [partOf]
  | cons c log ih =>
    obtain ⟨hc,hlog⟩ := List.forall_mem_cons.mp h
    have hpart : ∀ i, (partOf i (c::log)).countP p =
        (partOf i log).countP p+if c.1 = i then (if p c.2 then 1 else 0) else 0 := by
      intro i
      by_cases hi : c.1 = i
      · simp [partOf,hi,List.countP_cons]
      · simp [partOf,hi]
    simp only [hpart,Finset.sum_add_distrib,ih hlog,Finset.sum_ite_eq,Finset.mem_range,hc,if_true,
      List.countP_cons]

end Interleaved

/-- Every call the program can make is of an allowed kind. -/
def Uses (allowed : Op → Prop) : Prog Ans α → Prop
  | .pure _ => True
  | .call op next => allowed op ∧ ∀ a, Uses allowed (next a)

@[simp] theorem uses_perform {allowed : Op → Prop} {op : Op} :
    Uses allowed (Prog.perform op : Prog Ans (Ans op)) ↔ allowed op := by
  constructor
  · intro h
    exact h.1
  · intro h
    exact ⟨h,fun _ => trivial⟩

theorem Uses.bind {allowed : Op → Prop} {p : Prog Ans α} {f : α → Prog Ans β} (hp : Uses allowed p)
    (hf : ∀ a, Uses allowed (f a)) : Uses allowed (p >>= f) := by
  induction p with
  | pure value => exact hf value
  | call op next ih => exact ⟨hp.1,fun a => ih a (hp.2 a)⟩

theorem Uses.sat {allowed : Op → Prop} {p : Prog Ans α} (h : Uses allowed p) :
    Sat answer p fun tr _ => ∀ e ∈ tr, allowed e.1 := by
  induction p with
  | pure value => exact sat_pure.mpr (by simp)
  | call op next ih =>
    rw [sat_call]
    intro m
    refine Sat.mono (ih _ (h.2 _)) ?_
    intro tr _ hrest
    exact List.forall_mem_cons.mpr ⟨h.1,hrest⟩

theorem mem_run {p : Prog Ans α} {moments : ℕ → M} {e : Op × M} (h : e ∈ (run answer p moments).2) :
    ∃ n, e.2 = moments n := by
  induction p generalizing moments with
  | pure value => cases h
  | call op next ih =>
    rcases List.mem_cons.mp h with rfl | h
    · exact ⟨0,rfl⟩
    · obtain ⟨n,hn⟩ := ih _ h
      exact ⟨n+1,hn⟩

theorem run_of_returns {p : Prog Ans α} {tr : List (Op × M)} {b : α} (h : Returns answer p tr b)
    (filler : M) : run answer p (fun n => (tr[n]?.map Prod.snd).getD filler) = (b,tr) := by
  induction p generalizing tr with
  | pure value =>
    obtain ⟨rfl,rfl⟩ := h
    rfl
  | call op next ih =>
    obtain ⟨m,rest,rfl,hrest⟩ := h
    have htail := ih _ hrest
    simp only [run,List.getElem?_cons_zero,Option.map_some,Option.getD_some,
      List.getElem?_cons_succ,htail]

/-- Some complete execution of the program meets the condition. -/
def May (answer : M → (op : Op) → Ans op) (p : Prog Ans α) (Q : List (Op × M) → α → Prop) : Prop :=
  ∃ tr b, Returns answer p tr b ∧ Q tr b

theorem may_pure {value : α} {Q : List (Op × M) → α → Prop} :
    May answer (pure value) Q ↔ Q [] value := by
  constructor
  · rintro ⟨tr,b,⟨rfl,rfl⟩,h⟩
    exact h
  · intro h
    exact ⟨[],value,⟨rfl,rfl⟩,h⟩

theorem may_perform_bind {op : Op} {f : Ans op → Prog Ans α} {Q : List (Op × M) → α → Prop} :
    May answer (Prog.perform op >>= f) Q ↔
      ∃ m, May answer (f (answer m op)) fun tr b => Q ((op,m)::tr) b := by
  constructor
  · rintro ⟨tr,b,⟨m,rest,rfl,hret⟩,h⟩
    exact ⟨m,rest,b,hret,h⟩
  · rintro ⟨m,rest,b,hret,h⟩
    exact ⟨(op,m)::rest,b,⟨m,rest,rfl,hret⟩,h⟩

theorem may_bind {p : Prog Ans α} {f : α → Prog Ans β} {Q : List (Op × M) → β → Prop} :
    May answer (p >>= f) Q ↔
      May answer p fun tr a => May answer (f a) fun tr' b => Q (tr++tr') b := by
  constructor
  · rintro ⟨tr,b,hret,h⟩
    obtain ⟨a,tr₁,tr₂,rfl,hp,hf⟩ := returns_bind.mp hret
    exact ⟨tr₁,a,hp,tr₂,b,hf,h⟩
  · rintro ⟨tr₁,a,hp,tr₂,b,hf,h⟩
    exact ⟨tr₁++tr₂,b,returns_bind.mpr ⟨a,tr₁,tr₂,rfl,hp,hf⟩,h⟩

theorem may_always (p : Prog Ans α) (m : M) : May answer p fun tr _ => ∀ e ∈ tr, e.2 = m := by
  induction p with
  | pure value => exact ⟨[],value,⟨rfl,rfl⟩,by simp⟩
  | call op next ih =>
    obtain ⟨rest,b,hret,hall⟩ := ih (answer m op)
    refine ⟨(op,m)::rest,b,⟨m,rest,rfl,hret⟩,?_⟩
    simpa using hall

theorem May.mono {p : Prog Ans α} {Q Q' : List (Op × M) → α → Prop} (h : May answer p Q)
    (himp : ∀ tr b, Q tr b → Q' tr b) : May answer p Q' := by
  obtain ⟨tr,b,hret,hq⟩ := h
  exact ⟨tr,b,hret,himp tr b hq⟩

theorem run_always {p : Prog Ans α} {tr : List (Op × M)} {b : α} {m : M} (h : Returns answer p tr b)
    (hall : ∀ e ∈ tr, e.2 = m) : run answer p (fun _ => m) = (b,tr) := by
  have hmoments : (fun n : ℕ => (tr[n]?.map Prod.snd).getD m) = fun _ => m := by
    funext n
    cases hn : tr[n]? with
    | none => rfl
    | some e => exact hall e (List.mem_of_getElem? hn)
  rw [← hmoments]
  exact run_of_returns h m

/-- Two programs that go on alike until they make a call of the given kind. -/
inductive AgreeUntil (stop : Op → Prop) : Prog Ans α → Prog Ans α → Prop
  | pure (value : α) : AgreeUntil stop (.pure value) (.pure value)
  | call {op : Op} {next next' : Ans op → Prog Ans α} (h : ∀ a, AgreeUntil stop (next a) (next' a)) :
      AgreeUntil stop (.call op next) (.call op next')
  | stopped {op op' : Op} {next : Ans op → Prog Ans α} {next' : Ans op' → Prog Ans α} (h : stop op) :
      AgreeUntil stop (.call op next) (.call op' next')

theorem AgreeUntil.refl {stop : Op → Prop} (p : Prog Ans α) : AgreeUntil stop p p := by
  induction p with
  | pure value => exact .pure value
  | call op next ih => exact .call ih

theorem AgreeUntil.bind {stop : Op → Prop} {p q : Prog Ans α} {f g : α → Prog Ans β}
    (h : AgreeUntil stop p q) (hrest : ∀ a, AgreeUntil stop (f a) (g a)) :
    AgreeUntil stop (p >>= f) (q >>= g) := by
  induction h with
  | pure value => exact hrest value
  | call h ih => exact .call ih
  | stopped hstop => exact .stopped hstop

theorem AgreeUntil.run_eq {stop : Op → Prop} {p q : Prog Ans α} (h : AgreeUntil stop p q)
    {moments : ℕ → M} (hquiet : ∀ e ∈ (run answer p moments).2, ¬ stop e.1) :
    run answer q moments = run answer p moments := by
  induction h generalizing moments with
  | pure value => rfl
  | call h ih =>
    have hnext := ih _ fun e he => hquiet e (List.mem_cons_of_mem _ he)
    simp only [run,hnext]
  | stopped hstop => exact absurd hstop (hquiet _ List.mem_cons_self)

/-- Two programs that make the same calls and return related values. -/
inductive SameCalls (R : α → β → Prop) : Prog Ans α → Prog Ans β → Prop
  | pure {a : α} {b : β} (h : R a b) : SameCalls R (.pure a) (.pure b)
  | call {op : Op} {next : Ans op → Prog Ans α} {next' : Ans op → Prog Ans β}
      (h : ∀ ans, SameCalls R (next ans) (next' ans)) : SameCalls R (.call op next) (.call op next')

theorem SameCalls.refl {R : α → α → Prop} (hR : ∀ a, R a a) (p : Prog Ans α) : SameCalls R p p := by
  induction p with
  | pure value => exact .pure (hR value)
  | call op next ih => exact .call ih

theorem SameCalls.bind {γ δ : Type} {R : α → β → Prop} {S : γ → δ → Prop} {p : Prog Ans α} {q : Prog Ans β}
    {f : α → Prog Ans γ} {g : β → Prog Ans δ} (h : SameCalls R p q)
    (hrest : ∀ a b, R a b → SameCalls S (f a) (g b)) : SameCalls S (p >>= f) (q >>= g) := by
  induction h with
  | pure hab => exact hrest _ _ hab
  | call h ih => exact .call ih

theorem SameCalls.after {γ δ : Type} {S : γ → δ → Prop} (p : Prog Ans α) {f : α → Prog Ans γ}
    {g : α → Prog Ans δ} (h : ∀ a, SameCalls S (f a) (g a)) : SameCalls S (p >>= f) (p >>= g) := by
  refine (SameCalls.refl (fun _ => rfl) p : SameCalls Eq p p).bind ?_
  rintro a _ rfl
  exact h a

theorem SameCalls.ite {R : α → β → Prop} {p q : Prog Ans α} {p' q' : Prog Ans β} (c : Prop) [Decidable c]
    (hp : SameCalls R p p') (hq : SameCalls R q q') :
    SameCalls R (if c then p else q) (if c then p' else q') := by
  split
  · exact hp
  · exact hq

theorem SameCalls.run {R : α → β → Prop} {p : Prog Ans α} {q : Prog Ans β} (h : SameCalls R p q)
    (moments : ℕ → M) : (run answer q moments).2 = (run answer p moments).2 ∧
      R (run answer p moments).1 (run answer q moments).1 := by
  induction h generalizing moments with
  | pure hab => exact ⟨rfl,hab⟩
  | call h ih =>
    obtain ⟨htrace,hvalue⟩ := ih (answer (moments 0) _) fun n => moments (n+1)
    exact ⟨congrArg _ htrace,hvalue⟩

end Interaction
end OxiGate
