import OxiGate.LoadLevel

/-! Power of two choices on an idle pool. With nothing to choose between the two candidates the
first is taken, and the counter goes round the pool in steps of two. -/
namespace OxiGate
namespace Lb

open Cyclic

namespace LoadBalancer

def Idle (lb : LoadBalancer) : Prop := ∀ i ∈ lb.places, ∀ j ∈ lb.places, lb.load i = lb.load j

/-- The places selected one after the other, each time from an idle pool. Connections may come and
go between two selections, and health does not change. -/
inductive IdleRun : LoadBalancer → List ℕ → Prop
  | done {lb : LoadBalancer} : IdleRun lb []
  | select {lb lb' : LoadBalancer} {u : Placed} {selected : List ℕ} (hidle : lb.Idle)
      (hsel : lb.select.1 = some u) (hflags : SameFlags lb lb')
      (hcounter : lb'.rrCounter = lb.select.2.rrCounter) (hrest : IdleRun lb' selected) :
      IdleRun lb (u.2::selected)

theorem select_idle {lb : LoadBalancer} (halg : lb.algorithm = .powerOfTwoChoices) (hidle : lb.Idle)
    (htwo : 2 ≤ lb.places.length) :
    ∃ u, lb.select = (some u,lb.advance 2) ∧ lb.places[lb.rrCounter % lb.places.length]? = some u.2 := by
  obtain ⟨u,p,q,hsel,hp,hq,hu⟩ := select_powerOfTwoChoices halg htwo
  have hequal := hidle p (List.mem_of_getElem? hp) q (List.mem_of_getElem? hq)
  rw [if_pos hequal.le] at hu
  exact ⟨u,hsel,by rw [hp,hu]⟩

theorem IdleRun.strides {lb : LoadBalancer} {selected : List ℕ} (h : IdleRun lb selected)
    (halg : lb.algorithm = .powerOfTwoChoices) (htwo : 2 ≤ lb.places.length) (hc : lb.rrCounter < 2^64) :
    selected.map some =
      (strides 64 lb.places.length lb.rrCounter selected.length).map fun i => lb.places[i]? := by
  induction h with
  | done => rfl
  | @select lb lb' u selected hidle hsel hflags hcounter hrest ih =>
    obtain ⟨v,hselect,hplace⟩ := select_idle halg hidle htwo
    have hu : v = u := by
      rw [hselect] at hsel
      exact Option.some.inj hsel
    have hnext : lb'.rrCounter = (lb.rrCounter+2) % 2^64 := by
      rw [hcounter,hselect]
      rfl
    have hrun := ih (hflags.algorithm.trans halg) (by rwa [hflags.places])
      (by rw [hnext]; exact Nat.mod_lt _ (Nat.two_pow_pos 64))
    rw [hflags.places,hnext] at hrun
    rw [List.length_cons,strides_succ _ _ _ _ hc,List.map_cons,List.map_cons,hrun,hplace,hu]

theorem IdleRun.single {lb : LoadBalancer} {selected : List ℕ} {only : ℕ} (h : IdleRun lb selected)
    (honly : lb.places = [only]) : selected = List.replicate selected.length only := by
  induction h with
  | done => rfl
  | @select lb lb' u selected hidle hsel hflags hcounter hrest ih =>
    have hmem : u.2 ∈ lb.places := by
      obtain ⟨hget,hhealthy,-⟩ := selectExcluding_sound hsel
      exact mem_places.mpr ⟨u.1,hget,hhealthy⟩
    rw [honly,List.mem_singleton] at hmem
    have hrun := ih (by rw [hflags.places,honly])
    rw [List.length_cons,List.replicate_succ,hmem,← hrun]

theorem exists_idleRun {lb : LoadBalancer} (hne : lb.places ≠ []) (hidle : lb.Idle) (m : ℕ) :
    ∃ selected, IdleRun lb selected ∧ selected.length = m := by
  induction m generalizing lb with
  | zero => exact ⟨[],.done,rfl⟩
  | succ m ih =>
    have heligible : lb.eligible [] ≠ [] := by simpa [places] using hne
    obtain ⟨u,-,hsel⟩ := selectExcluding_of_ne_nil heligible
    obtain ⟨hupstreams,halgorithm⟩ := select_upstreams lb
    have hflags : SameFlags lb lb.select.2 := ⟨by rw [hupstreams],halgorithm⟩
    have hload : lb.select.2.load = lb.load := by
      funext i
      rw [load,load,hupstreams]
    have hidle' : lb.select.2.Idle := by
      unfold Idle
      rw [hflags.places,hload]
      exact hidle
    obtain ⟨selected,hrun,hlength⟩ := ih (by rwa [hflags.places]) hidle'
    exact ⟨u.2::selected,.select hidle hsel hflags rfl hrun,by rw [List.length_cons,hlength]⟩

theorem IdleRun.perm_iff {lb : LoadBalancer} {selected : List ℕ} (h : IdleRun lb selected)
    (halg : lb.algorithm = .powerOfTwoChoices) (hne : lb.places ≠ []) (hc : lb.rrCounter < 2^64)
    (hlength : selected.length = lb.places.length) :
    selected.Perm lb.places ↔ Odd lb.places.length ∧ lb.rrCounter+2*(lb.places.length-1) < 2^64 := by
  have hpos : 0 < lb.places.length := List.length_pos_of_ne_nil hne
  by_cases htwo : 2 ≤ lb.places.length
  · have hrun := h.strides halg htwo hc
    have hall : lb.places.map some = (List.range lb.places.length).map fun i => lb.places[i]? := by
      apply List.ext_getElem?
      intro i
      by_cases hi : i < lb.places.length
      · simp [hi]
      · simp [hi]
    -- a place tells its position, so the positions are a permutation if the places are
    have hposition : ∀ l ⊆ List.range lb.places.length,
        (l.map fun i => lb.places[i]?).map (fun place => lb.places.idxOf (place.getD 0)) = l := by
      intro l hl
      rw [List.map_map]
      conv_rhs => rw [← List.map_id' l]
      apply List.map_congr_left
      intro i hi
      have hlt := List.mem_range.mp (hl hi)
      rw [Function.comp_apply,List.getElem?_eq_getElem hlt,Option.getD_some]
      exact (eligible_places_nodup lb []).idxOf_getElem i hlt
    rw [hlength] at hrun
    rw [← strides_perm_iff (by decide) hpos hc,← List.map_perm_map_iff (Option.some_injective ℕ),hrun,hall]
    constructor
    · intro hperm
      have hpositions := hperm.map fun place => lb.places.idxOf (place.getD 0)
      rwa [hposition _ (strides_subset hpos),hposition _ (List.Subset.refl _)] at hpositions
    · intro hperm
      exact hperm.map _
  · obtain ⟨only,honly⟩ := List.length_eq_one_iff.mp (by omega : lb.places.length = 1)
    rw [h.single honly,hlength,honly]
    simpa using hc

/-- Selections from an idle pool, as many as it has healthy upstreams, take each of them once
exactly if their number is odd and the counter does not wrap around meanwhile. -/
theorem idle_coverage_iff {lb : LoadBalancer} (halg : lb.algorithm = .powerOfTwoChoices)
    (hne : lb.places ≠ []) (hidle : lb.Idle) (hc : lb.rrCounter < 2^64) :
    (∀ selected, IdleRun lb selected → selected.length = lb.places.length → selected.Perm lb.places) ↔
      Odd lb.places.length ∧ lb.rrCounter+2*(lb.places.length-1) < 2^64 := by
  constructor
  · intro h
    obtain ⟨selected,hrun,hlength⟩ := exists_idleRun hne hidle lb.places.length
    exact (hrun.perm_iff halg hne hc hlength).mp (h selected hrun hlength)
  · intro h selected hrun hlength
    exact (hrun.perm_iff halg hne hc hlength).mpr h

def freshPool (addresses : List String) : LoadBalancer :=
  fromUpstreams (addresses.map fun address => ⟨address,1⟩) .powerOfTwoChoices

theorem idle_coverage_iff_three :
    (freshPool ["http://a","http://b","http://c"]).Idle ∧
    ((∀ selected, IdleRun (freshPool ["http://a","http://b","http://c"]) selected →
      selected.length = 3 → selected.Perm [0,1,2]) ↔ Odd 3 ∧ 0+2*(3-1) < 2^64) := by
  have hidle : (freshPool ["http://a","http://b","http://c"]).Idle := by
    unfold Idle
    decide
  exact ⟨hidle,idle_coverage_iff rfl (by decide) hidle (by decide)⟩

/-- Of two upstreams the second is never selected. -/
theorem second_of_two_starves :
    (freshPool ["http://a","http://b"]).places = [0,1] ∧ IdleRun (freshPool ["http://a","http://b"]) [0,0] ∧
    ¬ ([0,0] : List ℕ).Perm [0,1] := by
  have hidle : (freshPool ["http://a","http://b"]).Idle := by
    unfold Idle
    decide
  have hidle' : ((freshPool ["http://a","http://b"]).advance 2).Idle := by
    unfold Idle
    decide
  have hdone : IdleRun ((freshPool ["http://a","http://b"]).advance 4) [] := .done
  have hflags : SameFlags ((freshPool ["http://a","http://b"]).advance 2)
      ((freshPool ["http://a","http://b"]).advance 4) := ⟨rfl,rfl⟩
  have hlater : IdleRun ((freshPool ["http://a","http://b"]).advance 2) [0] := .select hidle' rfl hflags rfl hdone
  have hfirst : SameFlags (freshPool ["http://a","http://b"])
      ((freshPool ["http://a","http://b"]).advance 2) := ⟨rfl,rfl⟩
  exact ⟨by decide,.select hidle rfl hfirst rfl hlater,by decide⟩

end LoadBalancer

end Lb
end OxiGate
