import Mathlib.Tactic

/-! Runs of labelled systems and of machines that answer their inputs. -/
namespace OxiGate
namespace Runs

section Labelled

variable {σ ι : Type}

/-- Take the labelled steps in turn; there is no result when one is not enabled. -/
def exec (step : σ → ι → Option σ) : σ → List ι → Option σ
  | s, [] => some s
  | s, i::is => (step s i).bind fun s' => exec step s' is

theorem exec_cons {step : σ → ι → Option σ} {s s' : σ} {i : ι} {is : List ι} :
    exec step s (i::is) = some s' ↔ ∃ m, step s i = some m ∧ exec step m is = some s' := by
  simp [exec,Option.bind_eq_some_iff]

theorem exec_append (step : σ → ι → Option σ) (s : σ) (is js : List ι) :
    exec step s (is++js) = (exec step s is).bind fun m => exec step m js := by
  induction is generalizing s with
  | nil => rfl
  | cons i is ih =>
    cases h : step s i with
    | none => simp [exec,h]
    | some m => simp [exec,h,ih]

def Throughout (step : σ → ι → Option σ) (P : σ → Prop) (s : σ) (is : List ι) : Prop :=
  ∀ front back m, is = front++back → exec step s front = some m → P m

/-- Every step of the run is taken in a state that meets the condition for it. -/
def Along (step : σ → ι → Option σ) (C : σ → ι → Prop) (s : σ) (is : List ι) : Prop :=
  ∀ front i back m, is = front++i::back → exec step s front = some m → C m i

theorem Along.tail {step : σ → ι → Option σ} {C : σ → ι → Prop} {s m : σ} {i : ι} {is : List ι}
    (h : Along step C s (i::is)) (hstep : step s i = some m) : Along step C m is := by
  intro front j back m' heq hfront
  exact h (i::front) j back m' (by simp [heq]) (exec_cons.mpr ⟨m,hstep,hfront⟩)

theorem along_of_mem {step : σ → ι → Option σ} {C : σ → ι → Prop} {s : σ} {is : List ι}
    (h : ∀ i ∈ is, ∀ m, C m i) : Along step C s is := by
  intro front i back m heq _
  exact h i (by simp [heq]) m

theorem along_nil (step : σ → ι → Option σ) (C : σ → ι → Prop) (s : σ) : Along step C s [] :=
  along_of_mem fun _ hi => absurd hi List.not_mem_nil

theorem along_cons {step : σ → ι → Option σ} {C : σ → ι → Prop} {s m : σ} {i : ι} {is : List ι}
    (hstep : step s i = some m) : Along step C s (i::is) ↔ C s i ∧ Along step C m is := by
  constructor
  · intro h
    exact ⟨h [] i is s rfl rfl,h.tail hstep⟩
  · rintro ⟨hfirst,hrest⟩ front j back m' heq hfront
    cases front with
    | nil =>
      cases heq
      cases hfront
      exact hfirst
    | cons k front =>
      cases heq
      obtain ⟨m'',hstep',hfront'⟩ := exec_cons.mp hfront
      rw [hstep] at hstep'
      cases hstep'
      exact hrest front j back m' rfl hfront'

def checkAlong (step : σ → ι → Option σ) (c : σ → ι → Bool) : σ → List ι → Bool
  | _, [] => true
  | s, i::is => c s i && ((step s i).map fun m => checkAlong step c m is).getD true

theorem along_of_check {step : σ → ι → Option σ} {c : σ → ι → Bool} {s : σ} {is : List ι}
    (h : checkAlong step c s is = true) : Along step (fun s i => c s i = true) s is := by
  intro front i back m heq hfront
  induction front generalizing s is with
  | nil =>
    cases heq
    cases hfront
    exact (Bool.and_eq_true_iff.mp h).1
  | cons j front ih =>
    cases heq
    obtain ⟨n,hn,hrest⟩ := exec_cons.mp hfront
    have htail := (Bool.and_eq_true_iff.mp h).2
    rw [hn] at htail
    exact ih htail rfl hrest

theorem Along.front {step : σ → ι → Option σ} {C : σ → ι → Prop} {s : σ} {front back : List ι}
    (h : Along step C s (front++back)) : Along step C s front := by
  intro front' i back' m heq
  exact h front' i (back'++back) m (by simp [heq])

theorem exec_invariant_along {step : σ → ι → Option σ} {P : σ → Prop} {C : σ → ι → Prop}
    (hkeep : ∀ s i s', P s → C s i → step s i = some s' → P s') {s s' : σ} {is : List ι}
    (hs : P s) (halong : Along step C s is) (h : exec step s is = some s') : P s' := by
  induction is generalizing s with
  | nil =>
    have he : s = s' := by simpa [exec] using h
    exact he ▸ hs
  | cons i is ih =>
    obtain ⟨m,hm,htail⟩ := exec_cons.mp h
    exact ih (hkeep s i m hs (halong [] i is s rfl rfl) hm) (halong.tail hm) htail

theorem exec_congr {step step' : σ → ι → Option σ} {P : σ → Prop} (hstep : ∀ s i, P s → step' s i = step s i)
    {s : σ} {is : List ι} (h : Throughout step P s is) : exec step' s is = exec step s is := by
  induction is generalizing s with
  | nil => rfl
  | cons i is ih =>
    have hs : P s := h [] (i::is) s rfl rfl
    rw [exec,exec,hstep s i hs]
    cases hm : step s i with
    | none => rfl
    | some m =>
      apply ih
      intro front back m' heq hfront
      exact h (i::front) back m' (by simp [heq]) (exec_cons.mpr ⟨m,hm,hfront⟩)

theorem along_congr {step step' : σ → ι → Option σ} {C : σ → ι → Prop} {s : σ} {is : List ι}
    (h : ∀ front back, is = front++back → exec step' s front = exec step s front) :
    Along step' C s is ↔ Along step C s is := by
  constructor
  · intro halong front i back m heq hfront
    exact halong front i back m heq ((h front (i::back) heq).trans hfront)
  · intro halong front i back m heq hfront
    exact halong front i back m heq ((h front (i::back) heq).symm.trans hfront)

theorem Throughout.front {step : σ → ι → Option σ} {P : σ → Prop} {s : σ} {front back : List ι}
    (h : Throughout step P s (front++back)) : Throughout step P s front := by
  intro front' back' m heq
  exact h front' (back'++back) m (by simp [heq])

/-- A count that no step lowers, and that is left as it is by the steps that meet a condition and by
no others, is at the end of a run what it was exactly if all steps of the run meet the condition. -/
theorem exec_count {step : σ → ι → Option σ} {P : σ → ℕ → Prop} {C : σ → ι → Prop}
    (hstep : ∀ s n i s', P s n → step s i = some s' → ∃ n', P s' n' ∧ n ≤ n' ∧ (n' = n ↔ C s i))
    {s s' : σ} {n : ℕ} {is : List ι} (hs : P s n) (h : exec step s is = some s') :
    ∃ n', P s' n' ∧ n ≤ n' ∧ (n' = n ↔ Along step C s is) := by
  induction is generalizing s n with
  | nil =>
    cases h
    exact ⟨n,hs,le_rfl,iff_of_true rfl (along_nil step C _)⟩
  | cons i is ih =>
    obtain ⟨m,hm,htail⟩ := exec_cons.mp h
    obtain ⟨n₁,h₁,hle₁,hiff₁⟩ := hstep s n i m hs hm
    obtain ⟨n₂,h₂,hle₂,hiff₂⟩ := ih h₁ htail
    refine ⟨n₂,h₂,hle₁.trans hle₂,?_⟩
    rw [along_cons hm,← hiff₁,← hiff₂]
    omega

section Tallies

variable {M N : Type} [AddMonoid M] [AddMonoid N]

def tally (step : σ → ι → Option σ) (w : σ → ι → M) : σ → List ι → M
  | _, [] => 0
  | s, i::is => w s i+((step s i).map fun s' => tally step w s' is).getD 0

theorem tally_cons {step : σ → ι → Option σ} {w : σ → ι → M} {s m : σ} {i : ι} {is : List ι}
    (h : step s i = some m) : tally step w s (i::is) = w s i+tally step w m is := by
  simp [tally,h]

/-- What the steps that meet a condition keep of a state and the tally so far, every run of such steps keeps. -/
theorem exec_tally_along {step : σ → ι → Option σ} {w : σ → ι → M} {P : σ → M → Prop} {C : σ → ι → Prop}
    (hstep : ∀ s n i s', P s n → C s i → step s i = some s' → P s' (n+w s i)) {s s' : σ} {n : M} {is : List ι}
    (hs : P s n) (halong : Along step C s is) (h : exec step s is = some s') : P s' (n+tally step w s is) := by
  induction is generalizing s n with
  | nil =>
    cases h
    simpa [tally] using hs
  | cons i is ih =>
    obtain ⟨m,hm,htail⟩ := exec_cons.mp h
    obtain ⟨hfirst,hrest⟩ := (along_cons hm).mp halong
    rw [tally_cons hm,← add_assoc]
    exact ih (hstep s n i m hs hfirst hm) hrest htail

theorem exec_tally {step : σ → ι → Option σ} {w : σ → ι → M} {P : σ → M → Prop}
    (hstep : ∀ s n i s', P s n → step s i = some s' → P s' (n+w s i)) {s s' : σ} {n : M} {is : List ι}
    (hs : P s n) (h : exec step s is = some s') : P s' (n+tally step w s is) :=
  exec_tally_along (C := fun _ _ => True) (fun s n i s' hP _ => hstep s n i s' hP) hs
    (along_of_mem fun _ _ _ => trivial) h

/-- Steps that are worth the same wherever a run takes them come to the same in all. -/
theorem tally_congr {step : σ → ι → Option σ} {w w' : σ → ι → M} {s s' : σ} {is : List ι}
    (hsame : Along step (fun m i => ∀ m', step m i = some m' → w m i = w' m i) s is)
    (h : exec step s is = some s') : tally step w s is = tally step w' s is := by
  induction is generalizing s with
  | nil => rfl
  | cons i is ih =>
    obtain ⟨m,hm,htail⟩ := exec_cons.mp h
    obtain ⟨hfirst,hrest⟩ := (along_cons hm).mp hsame
    rw [tally_cons hm,tally_cons hm,hfirst m hm,ih hrest htail]

theorem tally_le {step : σ → ι → Option σ} {w w' : σ → ι → ℕ} {s s' : σ} {is : List ι}
    (hle : Along step (fun m i => ∀ m', step m i = some m' → w m i ≤ w' m i) s is)
    (h : exec step s is = some s') : tally step w s is ≤ tally step w' s is := by
  induction is generalizing s with
  | nil => exact le_rfl
  | cons i is ih =>
    obtain ⟨m,hm,htail⟩ := exec_cons.mp h
    obtain ⟨hfirst,hrest⟩ := (along_cons hm).mp hle
    rw [tally_cons hm,tally_cons hm]
    exact Nat.add_le_add (hfirst m hm) (ih hrest htail)

theorem tally_one {step : σ → ι → Option σ} {s s' : σ} {is : List ι} (h : exec step s is = some s') :
    tally step (fun _ _ => 1) s is = is.length := by
  induction is generalizing s with
  | nil => rfl
  | cons i is ih =>
    obtain ⟨m,hm,htail⟩ := exec_cons.mp h
    rw [tally_cons hm,ih htail,List.length_cons,Nat.add_comm]

theorem tally_add {A : Type} [AddCommMonoid A] {step : σ → ι → Option σ} (w w' : σ → ι → A) (s : σ) (is : List ι) :
    tally step (fun s i => w s i+w' s i) s is = tally step w s is+tally step w' s is := by
  induction is generalizing s with
  | nil => exact (add_zero 0).symm
  | cons i is ih =>
    cases h : step s i with
    | none => simp [tally,h]
    | some m => simp only [tally_cons h,ih m,add_add_add_comm]

theorem tally_append {step : σ → ι → Option σ} {w : σ → ι → M} {s m : σ} {is js : List ι}
    (h : exec step s is = some m) : tally step w s (is++js) = tally step w s is+tally step w m js := by
  induction is generalizing s with
  | nil =>
    cases h
    simp [tally]
  | cons i is ih =>
    obtain ⟨n,hn,htail⟩ := exec_cons.mp h
    rw [List.cons_append,tally_cons hn,tally_cons hn,ih htail,add_assoc]

/-- Where every step of one system is matched by steps of another that come to the same, so is every run. -/
theorem exec_simulation {τ κ : Type} {step : σ → ι → Option σ} {step' : τ → κ → Option τ} (f : σ → τ)
    {w : σ → ι → M} {w' : τ → κ → M}
    (hstep : ∀ s i s', step s i = some s' →
      ∃ js, exec step' (f s) js = some (f s') ∧ tally step' w' (f s) js = w s i)
    {s s' : σ} {is : List ι} (h : exec step s is = some s') :
    ∃ js, exec step' (f s) js = some (f s') ∧ tally step' w' (f s) js = tally step w s is := by
  induction is generalizing s with
  | nil =>
    cases h
    exact ⟨[],rfl,rfl⟩
  | cons i is ih =>
    obtain ⟨m,hm,htail⟩ := exec_cons.mp h
    obtain ⟨js,hjs,hfirst⟩ := hstep s i m hm
    obtain ⟨ks,hks,hrest⟩ := ih htail
    refine ⟨js++ks,?_,?_⟩
    · rw [exec_append,hjs]
      exact hks
    · rw [tally_append hjs,hfirst,hrest,tally_cons hm]

theorem tally_map (f : M →+ N) (step : σ → ι → Option σ) (w : σ → ι → M) (s : σ) (is : List ι) :
    tally step (fun s i => f (w s i)) s is = f (tally step w s is) := by
  induction is generalizing s with
  | nil => exact (map_zero f).symm
  | cons i is ih => cases h : step s i <;> simp [tally,h,ih]

end Tallies

section Transcripts

variable {ω : Type}

def transcript (step : σ → ι → Option σ) (emits : σ → ι → List ω) : σ → List ι → List ω
  | _, [] => []
  | s, i::is => emits s i++((step s i).map fun s' => transcript step emits s' is).getD []

theorem transcript_cons {step : σ → ι → Option σ} {emits : σ → ι → List ω} {s m : σ} {i : ι} {is : List ι}
    (h : step s i = some m) : transcript step emits s (i::is) = emits s i++transcript step emits m is := by
  simp [transcript,h]

/-- Where related steps from related states emit the same and lead to related states, related runs emit the same.
Only the steps of the first run need to meet the condition. -/
theorem transcript_eq_of_lockstep {step : σ → ι → Option σ} {emits : σ → ι → List ω} {R : σ → σ → Prop}
    {S : ι → ι → Prop} {C : σ → ι → Prop}
    (hstep : ∀ s t i j s', R s t → S i j → C s i → step s i = some s' →
      ∃ t', step t j = some t' ∧ R s' t' ∧ emits s i = emits t j)
    {s t s' : σ} {is js : List ι} (hR : R s t) (hS : List.Forall₂ S is js) (halong : Along step C s is)
    (h : exec step s is = some s') :
    ∃ t', exec step t js = some t' ∧ R s' t' ∧ transcript step emits s is = transcript step emits t js := by
  induction hS generalizing s t with
  | nil =>
    cases h
    exact ⟨t,rfl,hR,rfl⟩
  | cons hij _ ih =>
    obtain ⟨m,hm,htail⟩ := exec_cons.mp h
    obtain ⟨hfirst,hrest⟩ := (along_cons hm).mp halong
    obtain ⟨n,hn,hR',hemits⟩ := hstep _ _ _ _ _ hR hij hfirst hm
    obtain ⟨t',ht',hend,hsame⟩ := ih hR' hrest htail
    exact ⟨t',exec_cons.mpr ⟨n,hn,ht'⟩,hend,by rw [transcript_cons hm,transcript_cons hn,hemits,hsame]⟩

end Transcripts

theorem exec_invariant_of {step : σ → ι → Option σ} {P : σ → Prop} {Q : ι → Prop}
    (hstep : ∀ s i s', Q i → P s → step s i = some s' → P s') {s s' : σ} {is : List ι}
    (hQ : ∀ i ∈ is, Q i) (hs : P s) (h : exec step s is = some s') : P s' := by
  have halong : Along step (fun _ i => Q i) s is := along_of_mem fun i hi _ => hQ i hi
  exact exec_invariant_along (fun s i s' hP hQ => hstep s i s' hQ hP) hs halong h

theorem exec_invariant {step : σ → ι → Option σ} {P : σ → Prop}
    (hstep : ∀ s i s', P s → step s i = some s' → P s') {s s' : σ} {is : List ι}
    (hs : P s) (h : exec step s is = some s') : P s' :=
  exec_invariant_of (Q := fun _ => True) (fun s i s' _ => hstep s i s') (fun _ _ => trivial) hs h

/-- Where the steps that meet a condition keep a property and the others break it, the property
holds throughout a run exactly when every step of the run meets the condition. -/
theorem throughout_iff {step : σ → ι → Option σ} {P : σ → Prop} {C : σ → ι → Prop}
    (hkeep : ∀ s i s', P s → C s i → step s i = some s' → P s')
    (hbreak : ∀ s i s', P s → ¬ C s i → step s i = some s' → ¬ P s') {s s' : σ} {is : List ι}
    (hs : P s) (h : exec step s is = some s') : Throughout step P s is ↔ Along step C s is := by
  constructor
  · intro hall front i back m heq hfront
    by_contra hC
    subst heq
    rw [exec_append,hfront] at h
    obtain ⟨m',hstep,-⟩ := exec_cons.mp h
    have hafter : P m' := by
      apply hall (front++[i]) back m' (by simp)
      rw [exec_append,hfront]
      exact exec_cons.mpr ⟨m',hstep,rfl⟩
    exact hbreak m i m' (hall front _ m rfl hfront) hC hstep hafter
  · intro halong front back m heq hfront
    subst heq
    exact exec_invariant_along hkeep hs halong.front hfront

end Labelled

section Answering

variable {σ τ ι ω : Type}

def answers (step : σ → ι → ω × σ) : σ → List ι → List ω
  | _, [] => []
  | s, i::is => (step s i).1::answers step (step s i).2 is

/-- Two machines answer alike from related states, when a step under a relation
that holds so far answers alike and keeps it. The relation may depend on the
last input, which the next one follows. -/
theorem answers_eq_of_simulation {f : σ → ι → ω × σ} {g : τ → ι → ω × τ}
    (follows : ι → ι → Prop) (R : ι → σ → τ → Prop)
    (hstep : ∀ i j s t, follows i j → R i s t →
      (f s j).1 = (g t j).1 ∧ R j (f s j).2 (g t j).2)
    {i : ι} {s : σ} {t : τ} {is : List ι} (hR : R i s t) (his : (i::is).Pairwise follows) :
    answers f s is = answers g t is := by
  induction is generalizing i s t with
  | nil => rfl
  | cons j is ih =>
    have hij : follows i j := List.rel_of_pairwise_cons his (by simp)
    obtain ⟨hanswer,hnext⟩ := hstep i j s t hij hR
    simp only [answers]
    rw [hanswer,ih hnext his.tail]

end Answering

end Runs
end OxiGate
