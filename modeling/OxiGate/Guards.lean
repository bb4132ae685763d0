import OxiGate.Tasks

/-! Tasks that hold something of their own between calls, such as the guard of a permit. What a task
holds is released when it ends, and also when it is dropped. A ledger says what a quantity of the
shared state and the holdings of the live tasks come to together. -/
namespace OxiGate
namespace Guards

open Interaction Runs Tasks

variable {Op : Type} {Ans : Op → Type} {σ α R X H : Type}

structure Guarded (Ans : Op → Type) (σ α R X H : Type) extends Setting Ans σ α R X where
  initial : H
  /-- What it holds after the answer to a call. -/
  after : (op : Op) → Ans op → H → H
  /-- What becomes of the shared state when the holdings are dropped. -/
  release : H → σ → σ

structure Holder (Ans : Op → Type) (α R H : Type) where
  origin : R
  task : Task Ans α
  held : H

structure State (Ans : Op → Type) (σ α R H : Type) where
  shared : σ
  holders : List (Holder Ans α R H)

namespace Guarded

variable (G : Guarded Ans σ α R X H)

def remove (s : State Ans σ α R H) (i : ℕ) (held : H) : State Ans σ α R H :=
  ⟨G.release held s.shared,s.holders.eraseIdx i⟩

def step (s : State Ans σ α R H) : Label Ans R X → Option (State Ans σ α R H)
  | .spawn r => some { s with holders := s.holders++[⟨r,⟨G.program r,[]⟩,G.initial⟩] }
  | .advance i world =>
    match s.holders[i]? with
    | some ⟨r,⟨.call op next,done⟩,held⟩ =>
      let a := G.respond s.shared op (world op)
      some ⟨a.2,s.holders.set i ⟨r,⟨next a.1,done++[op]⟩,G.after op a.1 held⟩⟩
    | _ => none
  | .retire i =>
    match s.holders[i]? with
    | some ⟨_,⟨.pure _,_⟩,held⟩ => some (G.remove s i held)
    | _ => none
  | .cancel i =>
    match s.holders[i]? with
    | some t => if G.canDrop t.task then some (G.remove s i t.held) else none
    | none => none
  | .change x => some { s with shared := G.change x s.shared }

inductive Stepped (s : State Ans σ α R H) : Label Ans R X → State Ans σ α R H → Prop
  | spawn (r : R) : Stepped s (.spawn r) { s with holders := s.holders++[⟨r,⟨G.program r,[]⟩,G.initial⟩] }
  | advance {i : ℕ} {r : R} {op : Op} {next : Ans op → Prog Ans α} {done : List Op} {held : H}
      (world : (op : Op) → Ans op) (ht : s.holders[i]? = some ⟨r,⟨.call op next,done⟩,held⟩) :
      Stepped s (.advance i world) ⟨(G.respond s.shared op (world op)).2,
        s.holders.set i ⟨r,⟨next (G.respond s.shared op (world op)).1,done++[op]⟩,
          G.after op (G.respond s.shared op (world op)).1 held⟩⟩
  | retire {i : ℕ} {r : R} {a : α} {done : List Op} {held : H}
      (ht : s.holders[i]? = some ⟨r,⟨.pure a,done⟩,held⟩) : Stepped s (.retire i) (G.remove s i held)
  | cancel {i : ℕ} {t : Holder Ans α R H} (ht : s.holders[i]? = some t) (hdrop : G.canDrop t.task = true) :
      Stepped s (.cancel i) (G.remove s i t.held)
  | change (x : X) : Stepped s (.change x) { s with shared := G.change x s.shared }

variable {G} {s s' : State Ans σ α R H} {l : Label Ans R X}

theorem stepped (h : G.step s l = some s') : G.Stepped s l s' := by
  cases l with
  | spawn r =>
    cases h
    exact .spawn r
  | advance i world =>
    simp only [step] at h
    split at h
    · rename_i ht
      cases h
      exact .advance world ht
    · cases h
  | retire i =>
    simp only [step] at h
    split at h
    · rename_i ht
      cases h
      exact .retire ht
    · cases h
  | cancel i =>
    simp only [step] at h
    split at h
    · rename_i ht
      obtain ⟨hdrop,h⟩ := Option.ite_none_right_eq_some.mp h
      cases h
      exact .cancel ht hdrop
    · cases h
  | change x =>
    cases h
    exact .change x

end Guarded

section Following

variable (after : (op : Op) → Ans op → H → H) (may : Op → H → Prop) {β γ : Type}

/-- The program makes each call only with holdings that permit it, and ends with a result and
holdings that meet the condition. -/
def Follows : Prog Ans β → H → (β → H → Prop) → Prop
  | .pure b, held, Q => Q b held
  | .call op next, held, Q => may op held ∧ ∀ a, Follows (next a) (after op a held) Q

variable {after may} {held : H}

@[simp] theorem follows_perform_bind {op : Op} {f : Ans op → Prog Ans β} {Q : β → H → Prop} :
    Follows after may (Prog.perform op >>= f) held Q ↔
      may op held ∧ ∀ a, Follows after may (f a) (after op a held) Q := Iff.rfl

theorem Follows.bind {p : Prog Ans β} {f : β → Prog Ans γ} {Q : β → H → Prop} {Q' : γ → H → Prop}
    (hp : Follows after may p held Q) (hf : ∀ b held', Q b held' → Follows after may (f b) held' Q') :
    Follows after may (p >>= f) held Q' := by
  induction p generalizing held with
  | pure b => exact hf b held hp
  | call op next ih => exact ⟨hp.1,fun a => ih a (hp.2 a)⟩

theorem Follows.mono {p : Prog Ans β} {Q Q' : β → H → Prop} (hp : Follows after may p held Q)
    (himp : ∀ b held', Q b held' → Q' b held') : Follows after may p held Q' := by
  induction p generalizing held with
  | pure b => exact himp b held hp
  | call op next ih => exact ⟨hp.1,fun a => ih a (hp.2 a)⟩

end Following

section Runs

variable {G : Guarded Ans σ α R X H} {may : R → Op → H → Prop} {final : R → H → Prop}

def Orderly (G : Guarded Ans σ α R X H) (may : R → Op → H → Prop) (final : R → H → Prop)
    (t : Holder Ans α R H) : Prop :=
  Follows G.after (may t.origin) t.task.rest t.held fun _ held => final t.origin held

theorem orderly_step (hprogram : ∀ r, Follows G.after (may r) (G.program r) G.initial fun _ held => final r held)
    {s s' : State Ans σ α R H} {l : Label Ans R X} (hs : ∀ t ∈ s.holders, Orderly G may final t)
    (h : G.step s l = some s') : ∀ t ∈ s'.holders, Orderly G may final t := by
  intro t ht
  cases Guarded.stepped h with
  | spawn r =>
    rcases List.mem_append.mp ht with ht | ht
    · exact hs t ht
    · cases List.mem_singleton.mp ht
      exact hprogram r
  | advance world hget =>
    rcases List.mem_or_eq_of_mem_set ht with ht | rfl
    · exact hs t ht
    · exact (hs _ (List.mem_of_getElem? hget)).2 _
  | retire hget => exact hs t (List.mem_of_mem_eraseIdx ht)
  | cancel hget hdrop => exact hs t (List.mem_of_mem_eraseIdx ht)
  | change x => exact hs t ht

theorem orderly_of_run (hprogram : ∀ r, Follows G.after (may r) (G.program r) G.initial fun _ held => final r held)
    {s₀ : σ} {s : State Ans σ α R H} {labels : List (Label Ans R X)}
    (hrun : exec G.step ⟨s₀,[]⟩ labels = some s) : ∀ t ∈ s.holders, Orderly G may final t := by
  apply exec_invariant (P := fun s => ∀ t ∈ s.holders, Orderly G may final t) _ _ hrun
  · intro s l s' hs h
    exact orderly_step hprogram hs h
  · intro t ht
    cases ht

theorem held_of_run (hprogram : ∀ r, Follows G.after (may r) (G.program r) G.initial fun _ held => final r held)
    {P : R → H → Prop} (hinitial : ∀ r, P r G.initial)
    (hafter : ∀ r op a held, may r op held → P r held → P r (G.after op a held))
    {s₀ : σ} {s : State Ans σ α R H} {labels : List (Label Ans R X)}
    (hrun : exec G.step ⟨s₀,[]⟩ labels = some s) : ∀ t ∈ s.holders, P t.origin t.held := by
  have hboth : (∀ t ∈ s.holders, Orderly G may final t) ∧ ∀ t ∈ s.holders, P t.origin t.held := by
    apply exec_invariant (P := fun s => (∀ t ∈ s.holders, Orderly G may final t) ∧
      ∀ t ∈ s.holders, P t.origin t.held) _ _ hrun
    · rintro s l s' ⟨horderly,hs⟩ h
      refine ⟨orderly_step hprogram horderly h,?_⟩
      intro t ht
      cases Guarded.stepped h with
      | spawn r =>
        rcases List.mem_append.mp ht with ht | ht
        · exact hs t ht
        · cases List.mem_singleton.mp ht
          exact hinitial r
      | advance world hget =>
        rcases List.mem_or_eq_of_mem_set ht with ht | rfl
        · exact hs t ht
        · have hmem := List.mem_of_getElem? hget
          exact hafter _ _ _ _ (horderly _ hmem).1 (hs _ hmem)
      | retire hget => exact hs t (List.mem_of_mem_eraseIdx ht)
      | cancel hget hdrop => exact hs t (List.mem_of_mem_eraseIdx ht)
      | change x => exact hs t ht
    · exact ⟨fun t ht => absurd ht List.not_mem_nil,fun t ht => absurd ht List.not_mem_nil⟩
  exact hboth.2

theorem held_of_unstarted {s₀ : σ} {s : State Ans σ α R H} {labels : List (Label Ans R X)}
    (hrun : exec G.step ⟨s₀,[]⟩ labels = some s) :
    ∀ t ∈ s.holders, t.task.done = [] → t.held = G.initial := by
  apply exec_invariant (P := fun s => ∀ t ∈ s.holders, t.task.done = [] → t.held = G.initial) _ _ hrun
  · intro s l s' hs h t ht
    cases Guarded.stepped h with
    | spawn r =>
      rcases List.mem_append.mp ht with ht | ht
      · exact hs t ht
      · cases List.mem_singleton.mp ht
        exact fun _ => rfl
    | advance world hget =>
      rcases List.mem_or_eq_of_mem_set ht with ht | rfl
      · exact hs t ht
      · intro hdone
        simp at hdone
    | retire hget => exact hs t (List.mem_of_mem_eraseIdx ht)
    | cancel hget hdrop => exact hs t (List.mem_of_mem_eraseIdx ht)
    | change x => exact hs t ht
  · intro t ht
    cases ht

/-- A quantity of the shared state that changes with what tasks hold, and what is lost of it when
holdings are dropped. -/
structure Ledger (G : Guarded Ans σ α R X H) (may : R → Op → H → Prop) where
  level : σ → ℤ
  weight : H → ℕ
  loss : H → ℕ
  weight_initial : weight G.initial = 0
  level_respond : ∀ s r op a held, may r op held →
    level (G.respond s op a).2+weight (G.after op (G.respond s op a).1 held) = level s+weight held
  level_release : ∀ s held, level (G.release held s)+loss held = level s+weight held
  level_change : ∀ s x, level (G.change x s) = level s

namespace Ledger

variable (L : Ledger G may)

def inHand (s : State Ans σ α R H) : ℕ := (s.holders.map fun t => L.weight t.held).sum

def lost (s : State Ans σ α R H) : Label Ans R X → ℕ
  | .retire i => (s.holders[i]?.map fun t => L.loss t.held).getD 0
  | .cancel i => (s.holders[i]?.map fun t => L.loss t.held).getD 0
  | _ => 0

variable {L}

theorem inHand_remove {s : State Ans σ α R H} {i : ℕ} {t : Holder Ans α R H} (ht : s.holders[i]? = some t) :
    L.level (G.remove s i t.held).shared+L.inHand (G.remove s i t.held)+L.loss t.held =
      L.level s.shared+L.inHand s := by
  have herase := sum_map_eraseIdx (fun t : Holder Ans α R H => L.weight t.held) ht
  have hrelease := L.level_release s.shared t.held
  unfold Guarded.remove inHand
  dsimp only
  omega

theorem step {s s' : State Ans σ α R H} {l : Label Ans R X} (hs : ∀ t ∈ s.holders, Orderly G may final t)
    (h : G.step s l = some s') :
    L.level s'.shared+L.inHand s'+L.lost s l = L.level s.shared+L.inHand s := by
  cases Guarded.stepped h with
  | spawn r => simp [lost,inHand,L.weight_initial]
  | @advance i r op next done held world hget =>
    have hmay : may r op held := (hs _ (List.mem_of_getElem? hget)).1
    have hrespond := L.level_respond s.shared r op (world op) held hmay
    have hset := sum_map_set (fun t : Holder Ans α R H => L.weight t.held) hget
      ⟨r,⟨next (G.respond s.shared op (world op)).1,done++[op]⟩,G.after op (G.respond s.shared op (world op)).1 held⟩
    simp only [lost,inHand]
    dsimp only at hset
    omega
  | retire hget =>
    simp only [lost,hget,Option.map_some,Option.getD_some]
    exact inHand_remove hget
  | cancel hget hdrop =>
    simp only [lost,hget,Option.map_some,Option.getD_some]
    exact inHand_remove hget
  | change x => simp [lost,inHand,L.level_change]

/-- What there was at first is there, in hand, or lost. -/
theorem balance (hprogram : ∀ r, Follows G.after (may r) (G.program r) G.initial fun _ held => final r held)
    {s₀ : σ} {s : State Ans σ α R H} {labels : List (Label Ans R X)}
    (hrun : exec G.step ⟨s₀,[]⟩ labels = some s) :
    L.level s.shared+L.inHand s+tally G.step L.lost ⟨s₀,[]⟩ labels = L.level s₀ := by
  let P (s : State Ans σ α R H) (n : ℕ) : Prop :=
    (∀ t ∈ s.holders, Orderly G may final t) ∧ L.level s.shared+L.inHand s+n = L.level s₀
  have hstart : P ⟨s₀,[]⟩ 0 := ⟨fun t ht => absurd ht List.not_mem_nil,by simp [inHand]⟩
  have hend : P s (0+tally G.step L.lost ⟨s₀,[]⟩ labels) := by
    refine exec_tally ?_ hstart hrun
    rintro s n l s' ⟨horderly,hsum⟩ h
    refine ⟨orderly_step hprogram horderly h,?_⟩
    have hone := L.step horderly h
    push_cast
    omega
  simpa using hend.2

theorem balance_of_lossless
    (hprogram : ∀ r, Follows G.after (may r) (G.program r) G.initial fun _ held => final r held)
    (hloss : ∀ held, L.loss held = 0) {s₀ : σ} {s : State Ans σ α R H} {labels : List (Label Ans R X)}
    (hrun : exec G.step ⟨s₀,[]⟩ labels = some s) : L.level s.shared+L.inHand s = L.level s₀ := by
  have hnone : L.lost = fun _ _ => 0 := by
    funext s l
    cases l with
    | retire i => cases h : s.holders[i]? <;> simp [lost,h,hloss]
    | cancel i => cases h : s.holders[i]? <;> simp [lost,h,hloss]
    | _ => rfl
  have hlost : tally G.step L.lost ⟨s₀,[]⟩ labels = 0 := by
    rw [hnone]
    exact tally_map (0 : ℕ →+ ℕ) G.step (fun _ _ => 0) ⟨s₀,[]⟩ labels
  have hbalance := L.balance hprogram hrun
  rw [hlost] at hbalance
  simpa using hbalance

end Ledger

/-- An allowance that some answers grant and some calls spend. A call is made only with what it spends. -/
structure Allowance (G : Guarded Ans σ α R X H) (may : R → Op → H → Prop) where
  weight : R → H → ℕ
  grant : R → (op : Op) → Ans op → ℕ
  spend : R → Op → ℕ
  weight_initial : ∀ r, weight r G.initial = 0
  weight_after : ∀ r op a held, may r op held →
    weight r (G.after op a held)+spend r op ≤ weight r held+grant r op a
  spend_le : ∀ r op held, may r op held → spend r op ≤ weight r held

def ofCall (G : Guarded Ans σ α R X H) (w : R → (op : Op) → Ans op → ℕ) (s : State Ans σ α R H) :
    Label Ans R X → ℕ
  | .advance i world =>
    match s.holders[i]? with
    | some ⟨r,⟨.call op _,_⟩,_⟩ => w r op (G.respond s.shared op (world op)).1
    | _ => 0
  | _ => 0

theorem ofCall_advance {w : R → (op : Op) → Ans op → ℕ} {s : State Ans σ α R H} {i : ℕ} {r : R} {op : Op}
    {next : Ans op → Prog Ans α} {done : List Op} {held : H} (world : (op : Op) → Ans op)
    (h : s.holders[i]? = some ⟨r,⟨.call op next,done⟩,held⟩) :
    ofCall G w s (.advance i world) = w r op (G.respond s.shared op (world op)).1 := by
  simp [ofCall,h]

def due (w : R → Op → ℕ) (r : R) : Prog Ans α → ℕ
  | .call op _ => w r op
  | .pure _ => 0

/-- What the call is worth that a task comes to with a step, whether or not it is ever answered. -/
def comesTo (G : Guarded Ans σ α R X H) (w : R → Op → ℕ) (s : State Ans σ α R H) : Label Ans R X → ℕ
  | .spawn r => due w r (G.program r)
  | .advance i world =>
    match s.holders[i]? with
    | some ⟨r,⟨.call op next,_⟩,_⟩ => due w r (next (G.respond s.shared op (world op)).1)
    | _ => 0
  | _ => 0

theorem comesTo_advance {w : R → Op → ℕ} {s : State Ans σ α R H} {i : ℕ} {r : R} {op : Op}
    {next : Ans op → Prog Ans α} {done : List Op} {held : H} (world : (op : Op) → Ans op)
    (h : s.holders[i]? = some ⟨r,⟨.call op next,done⟩,held⟩) :
    comesTo G w s (.advance i world) = due w r (next (G.respond s.shared op (world op)).1) := by
  simp [comesTo,h]

namespace Allowance

variable (A : Allowance G may)

def left (s : State Ans σ α R H) : ℕ := (s.holders.map fun t => A.weight t.origin t.held).sum

def owed (s : State Ans σ α R H) : ℕ := (s.holders.map fun t => due A.spend t.origin t.task.rest).sum

variable {A}

theorem due_le {t : Holder Ans α R H} (ht : Orderly G may final t) :
    due A.spend t.origin t.task.rest ≤ A.weight t.origin t.held := by
  rcases t with ⟨r,⟨rest,done⟩,held⟩
  cases rest with
  | pure a => exact Nat.zero_le _
  | call op next => exact A.spend_le r op held ht.1

theorem owed_le {s : State Ans σ α R H} (hs : ∀ t ∈ s.holders, Orderly G may final t) : A.owed s ≤ A.left s :=
  List.sum_le_sum fun t ht => due_le (hs t ht)

theorem step {s s' : State Ans σ α R H} {l : Label Ans R X} (hs : ∀ t ∈ s.holders, Orderly G may final t)
    (h : G.step s l = some s') :
    A.left s'+comesTo G A.spend s l+A.owed s ≤ A.left s+ofCall G A.grant s l+A.owed s' := by
  cases Guarded.stepped h with
  | spawn r =>
    simp only [ofCall,comesTo,left,owed,List.map_append,List.map_cons,List.map_nil,List.sum_append,
      List.sum_singleton,A.weight_initial]
    omega
  | @advance i r op next done held world hget =>
    have hmay : may r op held := (hs _ (List.mem_of_getElem? hget)).1
    have hafter := A.weight_after r op (G.respond s.shared op (world op)).1 held hmay
    have hleft := sum_map_set (fun t : Holder Ans α R H => A.weight t.origin t.held) hget
      ⟨r,⟨next (G.respond s.shared op (world op)).1,done++[op]⟩,G.after op (G.respond s.shared op (world op)).1 held⟩
    have howed := sum_map_set (fun t : Holder Ans α R H => due A.spend t.origin t.task.rest) hget
      ⟨r,⟨next (G.respond s.shared op (world op)).1,done++[op]⟩,G.after op (G.respond s.shared op (world op)).1 held⟩
    rw [ofCall_advance world hget,comesTo_advance world hget]
    dsimp only [left,owed,due] at hleft howed ⊢
    omega
  | @retire i r a done held hget =>
    have hleft := sum_map_eraseIdx (fun t : Holder Ans α R H => A.weight t.origin t.held) hget
    have howed := sum_map_eraseIdx (fun t : Holder Ans α R H => due A.spend t.origin t.task.rest) hget
    dsimp only [left,owed,ofCall,comesTo,Guarded.remove,due] at hleft howed ⊢
    omega
  | @cancel i t hget hdrop =>
    have hle := due_le (A := A) (hs t (List.mem_of_getElem? hget))
    have hleft := sum_map_eraseIdx (fun t : Holder Ans α R H => A.weight t.origin t.held) hget
    have howed := sum_map_eraseIdx (fun t : Holder Ans α R H => due A.spend t.origin t.task.rest) hget
    dsimp only [left,owed,ofCall,comesTo,Guarded.remove] at hleft howed ⊢
    omega
  | change x => simp [ofCall,comesTo,left,owed]

/-- The calls that tasks have come to, answered, awaited or abandoned, spend no more than was granted. -/
theorem spent_le (hprogram : ∀ r, Follows G.after (may r) (G.program r) G.initial fun _ held => final r held)
    {s₀ : σ} {s : State Ans σ α R H} {labels : List (Label Ans R X)}
    (hrun : exec G.step ⟨s₀,[]⟩ labels = some s) :
    tally G.step (comesTo G A.spend) ⟨s₀,[]⟩ labels ≤ tally G.step (ofCall G A.grant) ⟨s₀,[]⟩ labels := by
  let flow (s : State Ans σ α R H) (l : Label Ans R X) : ℕ × ℕ := (comesTo G A.spend s l,ofCall G A.grant s l)
  let P (s : State Ans σ α R H) (n : ℕ × ℕ) : Prop :=
    (∀ t ∈ s.holders, Orderly G may final t) ∧ A.left s+n.1 ≤ n.2+A.owed s
  have hstart : P ⟨s₀,[]⟩ 0 := ⟨fun t ht => absurd ht List.not_mem_nil,by simp [left]⟩
  have hend : P s (0+tally G.step flow ⟨s₀,[]⟩ labels) := by
    refine exec_tally ?_ hstart hrun
    rintro s n l s' ⟨horderly,hsum⟩ h
    refine ⟨orderly_step hprogram horderly h,?_⟩
    have hone := A.step horderly h
    dsimp only [flow,Prod.fst_add,Prod.snd_add] at hone ⊢
    omega
  have hspent := tally_map (AddMonoidHom.fst ℕ ℕ) G.step flow ⟨s₀,[]⟩ labels
  have hgranted := tally_map (AddMonoidHom.snd ℕ ℕ) G.step flow ⟨s₀,[]⟩ labels
  have howed := owed_le (A := A) hend.1
  have hle := hend.2
  rw [zero_add] at hle
  change tally G.step (comesTo G A.spend) ⟨s₀,[]⟩ labels = _ at hspent
  change tally G.step (ofCall G A.grant) ⟨s₀,[]⟩ labels = _ at hgranted
  rw [hspent,hgranted]
  dsimp only [AddMonoidHom.coe_fst,AddMonoidHom.coe_snd]
  omega

end Allowance

end Runs

section Noting

variable {K β γ : Type} (good : (op : Op) → Ans op → Prop) (note : Op → List K) (may : Op → List K → Prop)

/-- As long as the answers are good, the program makes each call only after calls whose notes permit
it, and ends with a result and notes that meet the condition. -/
def Notes : Prog Ans β → List K → (β → List K → Prop) → Prop
  | .pure b, noted, Q => Q b noted
  | .call op next, noted, Q => may op noted ∧ ∀ a, good op a → Notes (next a) (noted++note op) Q

variable {good note may} {noted : List K}

@[simp] theorem notes_perform_bind {op : Op} {f : Ans op → Prog Ans β} {Q : β → List K → Prop} :
    Notes good note may (Prog.perform op >>= f) noted Q ↔
      may op noted ∧ ∀ a, good op a → Notes good note may (f a) (noted++note op) Q := Iff.rfl

theorem Notes.bind {p : Prog Ans β} {f : β → Prog Ans γ} {Q : β → List K → Prop} {Q' : γ → List K → Prop}
    (hp : Notes good note may p noted Q) (hf : ∀ b noted', Q b noted' → Notes good note may (f b) noted' Q') :
    Notes good note may (p >>= f) noted Q' := by
  induction p generalizing noted with
  | pure b => exact hf b noted hp
  | call op next ih => exact ⟨hp.1,fun a ha => ih a (hp.2 a ha)⟩

/-- A sane state gives good answers, and stays sane. -/
structure Dependable (G : Guarded Ans σ α R X H) (good : (op : Op) → Ans op → Prop) (sane : σ → Prop) : Prop where
  good_respond : ∀ {s} op a, sane s → good op (G.respond s op a).1
  sane_respond : ∀ {s} op a, sane s → sane (G.respond s op a).2
  sane_release : ∀ {s} held, sane s → sane (G.release held s)
  sane_change : ∀ {s} x, sane s → sane (G.change x s)

variable {G : Guarded Ans σ α R X H} {sane : σ → Prop} {mayOf : R → Op → List K → Prop}
  {final : R → α → List K → Prop} {admits : R → Prop}

structure Noting (G : Guarded Ans σ α R X H) (good : (op : Op) → Ans op → Prop) (sane : σ → Prop) (note : Op → List K)
    (mayOf : R → Op → List K → Prop) (final : R → α → List K → Prop) (s : State Ans σ α R H) : Prop where
  sane : sane s.shared
  notes : ∀ t ∈ s.holders, Notes good note (mayOf t.origin) t.task.rest (t.task.done.flatMap note) (final t.origin)

theorem Noting.step (hG : Dependable G good sane)
    (hprogram : ∀ r, admits r → Notes good note (mayOf r) (G.program r) [] (final r)) {s s' : State Ans σ α R H}
    {l : Label Ans R X} (hs : Noting G good sane note mayOf final s) (hl : ∀ r, l = .spawn r → admits r)
    (h : G.step s l = some s') : Noting G good sane note mayOf final s' := by
  cases Guarded.stepped h with
  | spawn r =>
    refine ⟨hs.sane,?_⟩
    intro t ht
    rcases List.mem_append.mp ht with ht | ht
    · exact hs.notes t ht
    · cases List.mem_singleton.mp ht
      exact hprogram r (hl r rfl)
  | @advance i r op next done held world hget =>
    refine ⟨hG.sane_respond op _ hs.sane,?_⟩
    intro t ht
    rcases List.mem_or_eq_of_mem_set ht with ht | rfl
    · exact hs.notes t ht
    · have hnext := (hs.notes _ (List.mem_of_getElem? hget)).2 _ (hG.good_respond op (world op) hs.sane)
      simpa using hnext
  | retire hget => exact ⟨hG.sane_release _ hs.sane,fun t ht => hs.notes t (List.mem_of_mem_eraseIdx ht)⟩
  | cancel hget hdrop => exact ⟨hG.sane_release _ hs.sane,fun t ht => hs.notes t (List.mem_of_mem_eraseIdx ht)⟩
  | change x => exact ⟨hG.sane_change x hs.sane,hs.notes⟩

theorem noting_of_run (hG : Dependable G good sane)
    (hprogram : ∀ r, admits r → Notes good note (mayOf r) (G.program r) [] (final r)) {s₀ : σ} (hsane : sane s₀)
    {s : State Ans σ α R H} {labels : List (Label Ans R X)} (hlabels : ∀ r, .spawn r ∈ labels → admits r)
    (hrun : exec G.step ⟨s₀,[]⟩ labels = some s) : Noting G good sane note mayOf final s := by
  have hstart : Noting G good sane note mayOf final ⟨s₀,[]⟩ := ⟨hsane,fun t ht => absurd ht List.not_mem_nil⟩
  refine exec_invariant_along (C := fun _ l => ∀ r, l = .spawn r → admits r) ?_ hstart ?_ hrun
  · intro s l s' hs hl h
    exact hs.step hG hprogram hl h
  · refine along_of_mem ?_
    rintro l hl - r rfl
    exact hlabels r hl

end Noting

section Forgetting

variable {τ Y : Type}

def forget (part : σ → τ) (s : State Ans σ α R H) : System Ans τ α := ⟨part s.shared,s.holders.map Holder.task⟩

/-- A setting over a part of the shared state whose calls are answered as the whole answers them. -/
structure Part (G : Guarded Ans σ α R X H) (S : Setting Ans τ α R Y) (part : σ → τ) : Prop where
  program : ∀ r, S.program r = G.program r
  awaits : S.awaits = G.awaits
  respond : ∀ s op a, S.respond (part s) op (G.respond s op a).1 = ((G.respond s op a).1,part (G.respond s op a).2)
  release : ∀ held s, part (G.release held s) = part s
  change : ∀ x s, part (G.change x s) = part s ∨ ∃ y, S.change y (part s) = part (G.change x s)

variable {G : Guarded Ans σ α R X H} {S : Setting Ans τ α R Y} {part : σ → τ}

theorem Part.canDrop (hpart : Part G S part) (t : Task Ans α) : S.canDrop t = G.canDrop t := by
  simp only [Setting.canDrop,hpart.awaits]

theorem Part.step (hpart : Part G S part) {M : Type} [AddMonoid M] (worth : Task Ans α → M)
    {s s' : State Ans σ α R H} {l : Label Ans R X} (h : G.step s l = some s') :
    ∃ ls, exec S.step (forget part s) ls = some (forget part s') ∧
      tally S.step (fun s l => dropped worth s.tasks l) (forget part s) ls =
        dropped worth (s.holders.map Holder.task) l := by
  have hone : ∀ {l' : Label Ans R Y} {m : System Ans τ α}, S.step (forget part s) l' = some m →
      exec S.step (forget part s) [l'] = some m ∧
        tally S.step (fun s l => dropped worth s.tasks l) (forget part s) [l'] =
          dropped worth (s.holders.map Holder.task) l' := by
    intro l' m hm
    exact ⟨exec_cons.mpr ⟨m,hm,rfl⟩,(tally_cons hm).trans (add_zero _)⟩
  cases Guarded.stepped h with
  | spawn r =>
    refine ⟨[.spawn r],hone ?_⟩
    simp [Setting.step,forget,hpart.program]
  | @advance i r op next done held world hget =>
    -- the answers of the whole are what the world says to the part
    refine ⟨[.advance i fun op => (G.respond s.shared op (world op)).1],hone ?_⟩
    simp [Setting.step,forget,hget,hpart.respond,List.map_set]
  | @retire i r a done held hget =>
    refine ⟨[.retire i],hone ?_⟩
    simp [Setting.step,forget,hget,Guarded.remove,hpart.release,List.eraseIdx_map]
  | @cancel i t hget hdrop =>
    refine ⟨[.cancel i],hone ?_⟩
    simp [Setting.step,forget,hget,Guarded.remove,hpart.release,hpart.canDrop,hdrop,List.eraseIdx_map]
  | change x =>
    rcases hpart.change x s.shared with hsame | ⟨y,hy⟩
    · exact ⟨[],by simp [exec,forget,hsame],rfl⟩
    · refine ⟨[.change y],hone ?_⟩
      simp [Setting.step,forget,hy]

/-- Every run of the whole is a run of the part, in which the same tasks are dropped. -/
theorem Part.run (hpart : Part G S part) {M : Type} [AddMonoid M] (worth : Task Ans α → M)
    {s s' : State Ans σ α R H} {labels : List (Label Ans R X)} (h : exec G.step s labels = some s') :
    ∃ ls, exec S.step (forget part s) ls = some (forget part s') ∧
      tally S.step (fun s l => dropped worth s.tasks l) (forget part s) ls =
        tally G.step (fun s l => dropped worth (s.holders.map Holder.task) l) s labels :=
  exec_simulation (forget part) (fun _ _ _ hstep => hpart.step worth hstep) h

end Forgetting

end Guards
end OxiGate
