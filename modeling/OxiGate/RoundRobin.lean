import OxiGate.Cyclic
import OxiGate.LoadBalancer
import OxiGate.Runs

/-! Concurrent callers of one round-robin balancer. A caller first reads which upstreams are
eligible and then takes a number from the shared counter; in between, others may do the same,
and the atomics of the upstreams may change. -/
namespace OxiGate
namespace Lb

open Runs Cyclic

/-- What a caller of `select_excluding` holds when it comes to the counter. -/
def LoadBalancer.candidates (lb : LoadBalancer) (exclude : List String) : List Placed :=
  match lb.algorithm with
  | .weightedRoundRobin => LoadBalancer.expanded (lb.eligible exclude)
  | _ => lb.eligible exclude

def LoadBalancer.isRoundRobin (lb : LoadBalancer) : Prop :=
  lb.algorithm = .roundRobin ∨ lb.algorithm = .weightedRoundRobin

structure Callers where
  lb : LoadBalancer
  /-- The candidates of each caller that has not taken its number yet. -/
  waiting : List (List Placed)
  selected : List ℕ

inductive CallerEvent
  | read (exclude : List String)
  | take (caller : ℕ)
  | store (place : ℕ) (healthy : Bool) (activeConnections : ℕ)

namespace Callers

def step (s : Callers) : CallerEvent → Option Callers
  | .read exclude =>
    let candidates := s.lb.candidates exclude
    if candidates.isEmpty then some s else some { s with waiting := s.waiting++[candidates] }
  | .take caller => do
    let candidates ← s.waiting[caller]?
    let u ← candidates[s.lb.rrCounter % candidates.length]?
    pure ⟨s.lb.advance 1,s.waiting.eraseIdx caller,s.selected++[u.2]⟩
  | .store place healthy activeConnections =>
    some { s with lb := { s.lb with upstreams := s.lb.upstreams.modify place fun u =>
      { u with healthy := healthy, activeConnections := activeConnections } } }

/-- Whenever a caller reads, the eligible upstreams are those at the given places. -/
def Steady (places : List ℕ) : Callers → List CallerEvent → Prop
  | _, [] => True
  | s, e::events =>
    (∀ exclude, e = .read exclude → (s.lb.eligible exclude).map Prod.snd = places) ∧
      ∀ s', s.step e = some s' → Steady places s' events

end Callers

def LoadBalancer.share (lb : LoadBalancer) (place : ℕ) : ℕ :=
  match lb.algorithm with
  | .weightedRoundRobin => max ((lb.upstreams[place]?.map UpstreamRuntime.weight).getD 0) 1
  | _ => 1

def LoadBalancer.slots (lb : LoadBalancer) (places : List ℕ) : List ℕ :=
  places.flatMap fun p => List.replicate (lb.share p) p

section Slots

theorem length_slots (lb : LoadBalancer) (places : List ℕ) :
    (lb.slots places).length = (places.map lb.share).sum := by
  simp [LoadBalancer.slots,List.length_flatMap]

theorem share_pos (lb : LoadBalancer) (p : ℕ) : 0 < lb.share p := by
  unfold LoadBalancer.share
  split
  · exact Nat.lt_of_lt_of_le Nat.zero_lt_one (le_max_right _ _)
  · exact Nat.zero_lt_one

theorem count_slots (lb : LoadBalancer) {places : List ℕ} (hplaces : places.Nodup) {p : ℕ} (hp : p ∈ places) :
    (lb.slots places).count p = lb.share p := by
  unfold LoadBalancer.slots
  induction places with
  | nil => cases hp
  | cons q places ih =>
    obtain ⟨hq,hrest⟩ := List.nodup_cons.mp hplaces
    rw [List.flatMap_cons,List.count_append,List.count_replicate]
    by_cases heq : q = p
    · subst heq
      have hnone : (places.flatMap fun p => List.replicate (lb.share p) p).count q = 0 := by
        refine List.count_eq_zero_of_not_mem fun hmem => ?_
        obtain ⟨p,hp',hmem'⟩ := List.mem_flatMap.mp hmem
        rw [List.eq_of_mem_replicate hmem'] at hq
        exact hq hp'
      simp [hnone]
    · have hmem : p ∈ places := (List.mem_cons.mp hp).resolve_left (Ne.symm heq)
      simp [heq,ih hrest hmem]

theorem eligible_places_nodup (lb : LoadBalancer) (exclude : List String) :
    ((lb.eligible exclude).map Prod.snd).Nodup := by
  have hall : (lb.upstreams.zipIdx.map Prod.snd).Nodup := by
    rw [List.zipIdx_map_snd]
    exact List.nodup_range'
  exact hall.sublist (List.filter_sublist.map Prod.snd)

theorem weight_samePool {lb lb' : LoadBalancer} (h : lb.SamePool lb') (p : ℕ) :
    lb.upstreams[p]?.map UpstreamRuntime.weight = lb'.upstreams[p]?.map UpstreamRuntime.weight := by
  have hat := congrArg (fun l => l[p]?.map Prod.snd) h.1
  simpa [Function.comp_def] using hat

theorem candidates_places {lb lb' : LoadBalancer} (hlb : lb.isRoundRobin) (hsame : lb.SamePool lb')
    {exclude : List String} {places : List ℕ} (hplaces : (lb'.eligible exclude).map Prod.snd = places) :
    (lb'.candidates exclude).map Prod.snd = lb.slots places := by
  unfold LoadBalancer.candidates LoadBalancer.slots LoadBalancer.share
  rw [← hsame.2,← hplaces]
  rcases hlb with halg | halg
  · simp [halg]
  · simp only [halg,LoadBalancer.expanded,List.map_flatMap,List.map_replicate,List.flatMap_map]
    refine List.flatMap_congr fun u hu => ?_
    have hget := (LoadBalancer.mem_eligible.mp hu).1
    rw [weight_samePool hsame,hget]
    rfl

end Slots

/-- The numbers taken so far come from consecutive values of the counter. -/
structure InTurn (lb : LoadBalancer) (places : List ℕ) (s : Callers) : Prop where
  pool : lb.SamePool s.lb
  counter : lb.rrCounter+s.selected.length < 2^64 → s.lb.rrCounter = lb.rrCounter+s.selected.length
  waiting : ∀ candidates ∈ s.waiting, candidates.map Prod.snd = lb.slots places
  distinct : s.waiting ≠ [] ∨ s.selected ≠ [] → places.Nodup
  selected : lb.rrCounter+s.selected.length ≤ 2^64 →
    s.selected.map some = picks (lb.slots places) lb.rrCounter s.selected.length

theorem samePool_store {lb lb' : LoadBalancer} (h : lb.SamePool lb') (place : ℕ) (healthy : Bool)
    (activeConnections : ℕ) : lb.SamePool { lb' with upstreams := lb'.upstreams.modify place fun u =>
      { u with healthy := healthy, activeConnections := activeConnections } } := by
  refine ⟨h.1.trans ?_,h.2⟩
  apply List.ext_getElem?
  intro i
  by_cases hi : place = i
  · subst hi
    simp [Function.comp_def]
  · simp [hi]

theorem InTurn.step {lb : LoadBalancer} (hlb : lb.isRoundRobin) {places : List ℕ} {s s' : Callers}
    {e : CallerEvent} (hs : InTurn lb places s)
    (hsteady : ∀ exclude, e = .read exclude → (s.lb.eligible exclude).map Prod.snd = places)
    (h : s.step e = some s') : InTurn lb places s' := by
  cases e with
  | read exclude =>
    have hplaces := hsteady exclude rfl
    simp only [Callers.step] at h
    split at h
    · cases h
      exact hs
    · cases h
      have hnodup : places.Nodup := hplaces ▸ eligible_places_nodup s.lb exclude
      refine ⟨hs.pool,hs.counter,?_,fun _ => hnodup,hs.selected⟩
      intro candidates hmem
      rcases List.mem_append.mp hmem with hold | hnew
      · exact hs.waiting candidates hold
      · rw [List.mem_singleton.mp hnew]
        exact candidates_places hlb hs.pool hplaces
  | take caller =>
    simp only [Callers.step,Option.bind_eq_bind,Option.bind_eq_some_iff] at h
    obtain ⟨candidates,hwaiting,u,hu,heq⟩ := h
    cases heq
    have hmem := List.mem_of_getElem? hwaiting
    have hslots := hs.waiting candidates hmem
    have hnodup : places.Nodup := hs.distinct (Or.inl (List.ne_nil_of_mem hmem))
    refine ⟨hs.pool,?_,?_,fun _ => hnodup,?_⟩
    · intro hlt
      simp only [List.length_append,List.length_singleton] at hlt ⊢
      have hcounter := hs.counter (by omega)
      simp only [LoadBalancer.advance,hcounter]
      omega
    · intro candidates' hmem'
      exact hs.waiting candidates' (List.mem_of_mem_eraseIdx hmem')
    · intro hle
      simp only [List.length_append,List.length_singleton] at hle ⊢
      have hcounter := hs.counter (by omega)
      have hpick : (lb.slots places)[(lb.rrCounter+s.selected.length) % (lb.slots places).length]? = some u.2 := by
        rw [← hslots,List.length_map,List.getElem?_map,← hcounter,hu]
        rfl
      rw [picks_succ,← hs.selected (by omega),hpick,List.map_append]
      rfl
  | store place healthy activeConnections =>
    cases h
    exact ⟨samePool_store hs.pool _ _ _,hs.counter,hs.waiting,hs.distinct,hs.selected⟩

theorem InTurn.run {lb : LoadBalancer} (hlb : lb.isRoundRobin) {places : List ℕ} {s s' : Callers}
    {events : List CallerEvent} (hs : InTurn lb places s) (hsteady : Callers.Steady places s events)
    (h : exec Callers.step s events = some s') : InTurn lb places s' := by
  induction events generalizing s with
  | nil =>
    have heq : s = s' := by simpa [exec] using h
    exact heq ▸ hs
  | cons e events ih =>
    obtain ⟨m,hm,htail⟩ := exec_cons.mp h
    exact ih (hs.step hlb hsteady.1 hm) (hsteady.2 m hm) htail

theorem inTurn_start (lb : LoadBalancer) (places : List ℕ) : InTurn lb places ⟨lb,[],[]⟩ :=
  ⟨⟨rfl,rfl⟩,fun _ => rfl,by simp,by simp,fun _ => rfl⟩

theorem InTurn.count_window {lb : LoadBalancer} {places : List ℕ} {s : Callers} (hs : InTurn lb places s)
    (hwrap : lb.rrCounter+s.selected.length ≤ 2^64) {before window after : List ℕ} {k : ℕ}
    (hwindow : s.selected = before++window++after) (hlength : window.length = k*(places.map lb.share).sum) {p : ℕ}
    (hp : p ∈ places) : window.count p = k*lb.share p := by
  have hselected := hs.selected hwrap
  rw [hwindow,List.map_append,List.map_append] at hselected
  have hpicks := picks_of_append hselected.symm
  by_cases hempty : s.selected = []
  · have hnone : window = [] := by
      rw [hempty] at hwindow
      simpa using (List.append_eq_nil_iff.mp (List.append_eq_nil_iff.mp hwindow.symm).1).2
    have hround : (places.map lb.share).sum ≠ 0 := by
      intro hzero
      have hshare := List.sum_eq_zero_iff.mp hzero _ (List.mem_map_of_mem hp)
      exact absurd hshare (Nat.ne_of_gt (share_pos lb p))
    have hk : k = 0 := by
      rw [hnone,List.length_nil] at hlength
      exact (Nat.mul_eq_zero.mp hlength.symm).resolve_right hround
    simp [hnone,hk]
  · have hnodup : places.Nodup := hs.distinct (Or.inr hempty)
    have hcount : window.count p = (window.map some).count (some p) :=
      (List.count_map_of_injective window some (Option.some_injective ℕ) p).symm
    rw [hcount,hpicks,List.length_map,List.length_map,hlength,← length_slots,count_laps,count_slots lb hnodup hp]

theorem steady_of_quiet {s : Callers} {exclude : List String} {events : List CallerEvent}
    (hquiet : ∀ e ∈ events, e = .read exclude ∨ ∃ caller, e = .take caller) :
    Callers.Steady ((s.lb.eligible exclude).map Prod.snd) s events := by
  induction events generalizing s with
  | nil => trivial
  | cons e events ih =>
    have hrest : ∀ e' ∈ events, e' = .read exclude ∨ ∃ caller, e' = .take caller :=
      fun e' he' => hquiet e' (List.mem_cons_of_mem _ he')
    have hkept : ∀ s', s.step e = some s' → s'.lb.upstreams = s.lb.upstreams := by
      intro s' h
      rcases hquiet e (by simp) with rfl | ⟨caller,rfl⟩
      · simp only [Callers.step] at h
        split at h
        · cases h
          rfl
        · cases h
          rfl
      · simp only [Callers.step,Option.bind_eq_bind,Option.bind_eq_some_iff] at h
        obtain ⟨candidates,-,u,-,heq⟩ := h
        cases heq
        rfl
    refine ⟨?_,?_⟩
    · intro exclude' he
      rcases hquiet e (by simp) with hread | ⟨caller,htake⟩
      · rw [hread] at he
        cases he
        rfl
      · rw [htake] at he
        cases he
    · intro s' h
      have hsame : (s'.lb.eligible exclude).map Prod.snd = (s.lb.eligible exclude).map Prod.snd := by
        unfold LoadBalancer.eligible
        rw [hkept s' h]
      rw [← hsame]
      exact ih hrest

/-- In whole rounds of consecutive selections, every eligible upstream is selected exactly as
often as its share says. -/
theorem selections_proportional {lb : LoadBalancer} (hlb : lb.isRoundRobin) {places : List ℕ}
    {events : List CallerEvent} {s : Callers} (hrun : exec Callers.step ⟨lb,[],[]⟩ events = some s)
    (hsteady : Callers.Steady places ⟨lb,[],[]⟩ events) (hwrap : lb.rrCounter+s.selected.length ≤ 2^64)
    {before window after : List ℕ} {k : ℕ} (hwindow : s.selected = before++window++after)
    (hlength : window.length = k*(places.map lb.share).sum) {p : ℕ} (hp : p ∈ places) :
    window.count p = k*lb.share p :=
  ((inTurn_start lb places).run hlb hsteady hrun).count_window hwrap hwindow hlength hp

def twoToOne : LoadBalancer := ⟨[⟨"http://a",2,true,0⟩,⟨"http://b",1,true,0⟩],.weightedRoundRobin,5⟩

/-- Two callers read before either takes its number, the later one first. -/
def overlapping : List CallerEvent := [.read [],.read [],.take 1,.take 0,.read [],.take 0]

theorem selections_proportional_overlapping : ∃ s, exec Callers.step ⟨twoToOne,[],[]⟩ overlapping = some s ∧
    s.selected.length = 3 ∧ s.selected.count 0 = 1*twoToOne.share 0 := by
  have hshown : (exec Callers.step ⟨twoToOne,[],[]⟩ overlapping).map Callers.selected = some [1,0,0] := by
    decide +kernel
  obtain ⟨s,hrun,hselected⟩ := Option.map_eq_some_iff.mp hshown
  have hlength : s.selected.length = 3 := by rw [hselected]; rfl
  have hquiet : ∀ e ∈ overlapping, e = .read [] ∨ ∃ caller, e = .take caller := by
    intro e he
    simp only [overlapping,List.mem_cons,List.not_mem_nil,or_false] at he
    rcases he with rfl | rfl | rfl | rfl | rfl | rfl
    · exact Or.inl rfl
    · exact Or.inl rfl
    · exact Or.inr ⟨1,rfl⟩
    · exact Or.inr ⟨0,rfl⟩
    · exact Or.inl rfl
    · exact Or.inr ⟨0,rfl⟩
  have hsteady : Callers.Steady [0,1] ⟨twoToOne,[],[]⟩ overlapping := steady_of_quiet hquiet
  have hwrap : twoToOne.rrCounter+s.selected.length ≤ 2^64 := by
    rw [hlength]
    decide
  have hwhole : s.selected = []++s.selected++[] := by simp
  exact ⟨s,hrun,hlength,selections_proportional (Or.inr rfl) hrun hsteady hwrap hwhole hlength (by simp)⟩

section Alone

variable {lb : LoadBalancer} {exclude : List String}

theorem selectExcluding_eq (hlb : lb.isRoundRobin) (exclude : List String) :
    lb.selectExcluding exclude =
      if (lb.candidates exclude).isEmpty then (none,lb)
      else ((lb.candidates exclude)[lb.rrCounter % (lb.candidates exclude).length]?,lb.advance 1) := by
  unfold LoadBalancer.selectExcluding LoadBalancer.candidates
  rcases hlb with halg | halg
  · simp only [halg]
  · simp only [halg]
    by_cases hempty : lb.eligible exclude = []
    · simp [hempty,LoadBalancer.expanded]
    · simp [hempty]

theorem selectExcluding_advance (hlb : lb.isRoundRobin) (hsome : lb.eligible exclude ≠ []) :
    ∃ u, lb.selectExcluding exclude = (some u,lb.advance 1) := by
  obtain ⟨u,-,hu⟩ := LoadBalancer.selectExcluding_of_ne_nil hsome
  rw [selectExcluding_eq hlb] at hu ⊢
  split at hu
  · cases hu
  · rename_i hcandidates
    exact ⟨u,by rw [if_neg hcandidates]; exact Prod.ext hu rfl⟩

/-- Undisturbed, a selection reads its candidates and takes a number. -/
theorem exec_selectExcluding (hlb : lb.isRoundRobin) {u : Placed} {lb' : LoadBalancer}
    (h : lb.selectExcluding exclude = (some u,lb')) (selected : List ℕ) :
    exec Callers.step ⟨lb,[],selected⟩ [.read exclude,.take 0] = some ⟨lb',[],selected++[u.2]⟩ := by
  rw [selectExcluding_eq hlb] at h
  split at h
  · cases h
  · rename_i hsome
    obtain ⟨hu,rfl⟩ := Prod.mk.inj h
    simp [exec,Callers.step,hsome,hu]

def LoadBalancer.selectEach (exclude : List String) : ℕ → LoadBalancer → List ℕ
  | 0, _ => []
  | n+1, lb =>
    let (u,lb') := lb.selectExcluding exclude
    (u.map Prod.snd).toList++selectEach exclude n lb'

theorem exec_selectEach (hlb : lb.isRoundRobin) (hsome : lb.eligible exclude ≠ []) (n : ℕ) (selected : List ℕ) :
    ∃ lb', exec Callers.step ⟨lb,[],selected⟩ (List.replicate n [.read exclude,.take 0]).flatten =
      some ⟨lb',[],selected++lb.selectEach exclude n⟩ := by
  induction n generalizing lb selected with
  | zero => exact ⟨lb,by simp [exec,LoadBalancer.selectEach]⟩
  | succ n ih =>
    obtain ⟨u,hselect⟩ := selectExcluding_advance hlb hsome
    -- the counter is all that has changed
    have hlb' : (lb.advance 1).isRoundRobin := hlb
    obtain ⟨lb',hrest⟩ := ih hlb' hsome (selected++[u.2])
    refine ⟨lb',?_⟩
    rw [List.replicate_succ,List.flatten_cons,exec_append,exec_selectExcluding hlb hselect,Option.bind_some,hrest,
      LoadBalancer.selectEach,hselect,List.append_assoc]
    rfl

theorem length_selectEach_le (n : ℕ) : (lb.selectEach exclude n).length ≤ n := by
  induction n generalizing lb with
  | zero => exact Nat.le_refl 0
  | succ n ih =>
    have hrest : ((lb.selectExcluding exclude).2.selectEach exclude n).length ≤ n := ih
    rw [LoadBalancer.selectEach,List.length_append]
    cases (lb.selectExcluding exclude).1 with
    | none => exact (Nat.zero_add _).trans_le (hrest.trans (Nat.le_succ n))
    | some u => exact (Nat.add_comm 1 _).trans_le (Nat.succ_le_succ hrest)

/-- Callers that do not overlap are given every eligible upstream in proportion to its share. -/
theorem selectExcluding_proportional (hlb : lb.isRoundRobin) {n : ℕ} (hwrap : lb.rrCounter+n ≤ 2^64)
    {before window after : List ℕ} {k : ℕ} (hwindow : lb.selectEach exclude n = before++window++after)
    (hlength : window.length = k*(((lb.eligible exclude).map Prod.snd).map lb.share).sum) {u : Placed}
    (hu : u ∈ lb.eligible exclude) : window.count u.2 = k*lb.share u.2 := by
  obtain ⟨lb',hrun⟩ := exec_selectEach hlb (List.ne_nil_of_mem hu) n []
  have hquiet : ∀ e ∈ (List.replicate n [CallerEvent.read exclude,.take 0]).flatten,
      e = .read exclude ∨ ∃ caller, e = .take caller := by
    intro e he
    obtain ⟨pair,hpair,hmem⟩ := List.mem_flatten.mp he
    rw [List.eq_of_mem_replicate hpair] at hmem
    rcases List.mem_pair.mp hmem with rfl | rfl
    · exact Or.inl rfl
    · exact Or.inr ⟨0,rfl⟩
  have hs := (inTurn_start lb _).run hlb (steady_of_quiet (s := ⟨lb,[],[]⟩) hquiet) hrun
  refine hs.count_window ?_ hwindow hlength (List.mem_map_of_mem hu)
  exact (Nat.add_le_add_left (length_selectEach_le n) _).trans hwrap

end Alone

end Lb
end OxiGate
