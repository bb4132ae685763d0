import Mathlib.Data.List.Rotate
import Mathlib.Tactic

/-! Going round a list: what an ever growing counter picks from it, and how often; and where a
counter of fixed width comes to in steps of two. -/
namespace OxiGate
namespace Cyclic

variable {α : Type}

/-- What the counter picks at `m` values in a row, from `c` on. -/
def picks (l : List α) (c m : ℕ) : List (Option α) := (List.range' c m).map fun i => l[i % l.length]?

@[simp] theorem picks_zero (l : List α) (c : ℕ) : picks l c 0 = [] := rfl

@[simp] theorem length_picks (l : List α) (c m : ℕ) : (picks l c m).length = m := by simp [picks]

theorem picks_append (l : List α) (c m n : ℕ) : picks l c (m+n) = picks l c m++picks l (c+m) n := by
  unfold picks
  rw [← List.map_append,List.range'_append_1]

theorem picks_succ (l : List α) (c m : ℕ) : picks l c (m+1) = picks l c m++[l[(c+m) % l.length]?] := by
  rw [picks_append]
  rfl

theorem picks_cons (l : List α) (c m : ℕ) : picks l c (m+1) = l[c % l.length]?::picks l (c+1) m := by
  rw [Nat.add_comm,picks_append]
  rfl

theorem picks_of_append {l : List α} {c m : ℕ} {before window after : List (Option α)}
    (h : picks l c m = before++window++after) : window = picks l (c+before.length) window.length := by
  have hlength : m = before.length+(window.length+after.length) := by
    have heq := congrArg List.length h
    simp only [length_picks,List.length_append] at heq
    omega
  rw [hlength,picks_append,picks_append,List.append_assoc] at h
  have htail := (List.append_inj h (by simp)).2
  exact (List.append_inj htail (by simp)).1.symm

theorem picks_lap (l : List α) (c : ℕ) : (picks l c l.length).Perm (l.map some) := by
  have hrotate : picks l c l.length = (l.rotate c).map some := by
    apply List.ext_getElem
    · simp
    · intro i hi _
      have hlt : i < l.length := by simpa using hi
      have hmod : (i+c) % l.length < l.length := Nat.mod_lt _ (by omega)
      simp [picks,List.getElem_rotate,Nat.add_comm c i,hmod]
  rw [hrotate]
  exact (List.rotate_perm l c).map some

theorem count_laps [DecidableEq α] (l : List α) (c k : ℕ) (a : α) :
    (picks l c (k*l.length)).count (some a) = k*l.count a := by
  induction k generalizing c with
  | zero => simp
  | succ k ih =>
    have hlap : (picks l c l.length).count (some a) = l.count a := by
      rw [(picks_lap l c).count_eq]
      exact List.count_map_of_injective l some (Option.some_injective α) a
    rw [Nat.succ_mul,Nat.add_comm,picks_append,List.count_append,hlap,ih]
    ring

/-- Part of a round picks no element more often than a round does. -/
theorem count_partial [DecidableEq α] {l : List α} {m : ℕ} (hm : m ≤ l.length) (c : ℕ) (a : α) :
    (picks l c m).count (some a) ≤ l.count a := by
  have hlap := count_laps l c 1 a
  rw [Nat.one_mul,Nat.one_mul] at hlap
  rw [← hlap,← Nat.add_sub_of_le hm,picks_append,List.count_append]
  exact Nat.le_add_right _ _

theorem picks_split (l : List α) (c m : ℕ) : picks l c m =
    picks l c (m/l.length*l.length)++picks l (c+m/l.length*l.length) (m % l.length) := by
  rw [← picks_append,Nat.div_add_mod']

theorem count_next [DecidableEq α] {l : List α} (hl : l.Nodup) {c m : ℕ} {a : α}
    (h : l[(c+m) % l.length]? = some a) : (picks l c m).count (some a) = m/l.length := by
  have hmem : a ∈ l := List.mem_of_getElem? h
  have hpos : 0 < l.length := List.length_pos_of_mem hmem
  have hone : l.count a = 1 := List.count_eq_one_of_mem hl hmem
  have hindex : c+m/l.length*l.length+m % l.length = c+m := by
    rw [Nat.add_assoc,Nat.div_add_mod']
  have hlap := count_partial (Nat.mod_lt m hpos : m % l.length+1 ≤ l.length) (c+m/l.length*l.length) a
  rw [picks_succ,hindex,h,List.count_append,List.count_singleton_self,hone] at hlap
  rw [picks_split,List.count_append,count_laps,hone]
  omega

theorem count_recent [DecidableEq α] {l : List α} (hl : l.Nodup) {c m j : ℕ} {a : α}
    (hround : m/l.length*l.length ≤ j) (hj : j < m) (h : l[(c+j) % l.length]? = some a) :
    m/l.length+1 ≤ (picks l c m).count (some a) := by
  have hmem : a ∈ l := List.mem_of_getElem? h
  have hone : l.count a = 1 := List.count_eq_one_of_mem hl hmem
  have hsplit := Nat.div_add_mod' m l.length
  have hpicked : some a ∈ picks l (c+m/l.length*l.length) (m % l.length) := by
    refine List.mem_map.mpr ⟨c+j,?_,h⟩
    rw [List.mem_range'_1]
    omega
  have hpos := List.count_pos_iff.mpr hpicked
  rw [picks_split,List.count_append,count_laps,hone]
  omega

/-- Over any number of picks, elements of a list without repetitions are level up to one. -/
theorem count_level [DecidableEq α] {l : List α} (hl : l.Nodup) (c m : ℕ) {a b : α} (hb : b ∈ l) :
    (picks l c m).count (some a) ≤ (picks l c m).count (some b)+1 := by
  have hpos : 0 < l.length := List.length_pos_of_mem hb
  rw [picks_split,List.count_append,List.count_append,count_laps,count_laps]
  have hrest := count_partial (Nat.le_of_lt (Nat.mod_lt m hpos)) (c+m/l.length*l.length) a
  have ha := List.nodup_iff_count_le_one.mp hl a
  rw [List.count_eq_one_of_mem hl hb]
  have hlaps := Nat.mul_le_mul_left (m/l.length) ha
  omega

section Strides

/-- The places that a counter of width `w` comes to, taken modulo `n`, in `m` steps of two. -/
def strides (w n c m : ℕ) : List ℕ := (List.range m).map fun i => (c+2*i) % 2^w % n

theorem strides_succ (w n c m : ℕ) (hc : c < 2^w) :
    strides w n c (m+1) = c % n::strides w n ((c+2) % 2^w) m := by
  unfold strides
  rw [List.range_succ_eq_map,List.map_cons,List.map_map,Nat.mul_zero,Nat.add_zero,Nat.mod_eq_of_lt hc]
  congr 1
  apply List.map_congr_left
  intro i _
  rw [Function.comp_apply,Nat.mod_add_mod,Nat.succ_eq_add_one,show c+2*(i+1) = c+2+2*i by ring]

theorem strides_subset {w n c m : ℕ} (hn : 0 < n) : strides w n c m ⊆ List.range n := by
  intro i hi
  obtain ⟨j,-,rfl⟩ := List.mem_map.mp hi
  exact List.mem_range.mpr (Nat.mod_lt _ hn)

theorem strides_perm {w n c : ℕ} (hodd : Odd n) (hc : c+2*(n-1) < 2^w) : (strides w n c n).Perm (List.range n) := by
  have hpos : 0 < n := hodd.pos
  have hnodup : (strides w n c n).Nodup := by
    refine List.Nodup.map_on ?_ List.nodup_range
    intro i hi j hj heq
    rw [List.mem_range] at hi hj
    rw [Nat.mod_eq_of_lt (by omega : c+2*i < 2^w),Nat.mod_eq_of_lt (by omega : c+2*j < 2^w)] at heq
    have hdouble : 2*i ≡ 2*j [MOD n] := Nat.ModEq.add_left_cancel' c heq
    have hmod : i ≡ j [MOD n] := Nat.ModEq.cancel_left_of_coprime (Nat.coprime_two_right.mpr hodd) hdouble
    exact hmod.eq_of_lt_of_lt hi hj
  exact (hnodup.subperm (strides_subset hpos)).perm_of_length_le (by simp [strides])

theorem not_perm_of_even {w n c : ℕ} (hw : 0 < w) (hn : 0 < n) (heven : Even n) :
    ¬ (strides w n c n).Perm (List.range n) := by
  intro hperm
  have htwo : 2 ∣ n := heven.two_dvd
  have hother : (c+1) % 2 ∈ strides w n c n := hperm.mem_iff.mpr (List.mem_range.mpr (by omega))
  obtain ⟨i,-,hi⟩ := List.mem_map.mp hother
  have hparity : (c+2*i) % 2^w % n % 2 = c % 2 := by
    rw [Nat.mod_mod_of_dvd _ htwo,Nat.mod_mod_of_dvd _ (dvd_pow_self 2 hw.ne')]
    omega
  omega

theorem not_perm_of_wrap {w n c : ℕ} (hw : 0 < w) (hc : c < 2^w) (hodd : Odd n) (hwrap : 2^w ≤ c+2*(n-1)) :
    ¬ (strides w n c n).Perm (List.range n) := by
  intro hperm
  by_cases hlong : 2^w ≤ 2*(n-1)
  · -- the counter itself comes back to where it started
    obtain ⟨half,hhalf⟩ := dvd_pow_self 2 hw.ne'
    have hnodup : (strides w n c n).Nodup := hperm.nodup_iff.mpr List.nodup_range
    have hback : (c+2*half) % 2^w % n = (c+2*0) % 2^w % n := by
      rw [← hhalf,Nat.add_mod_right,Nat.mul_zero,Nat.add_zero]
    have hzero := (List.nodup_map_iff_inj_on List.nodup_range).mp hnodup half (List.mem_range.mpr (by omega)) 0
      (List.mem_range.mpr (by omega)) hback
    have hpow := Nat.two_pow_pos w
    omega
  · -- the places add up to a multiple of `n` only without the wraps
    have hcoprime : Nat.Coprime n 2 := Nat.coprime_two_right.mpr hodd
    have hplaces : ∑ i ∈ Finset.range n, (c+2*i) % 2^w % n = ∑ i ∈ Finset.range n, i := by
      have hlist : ∀ f : ℕ → ℕ, ∑ i ∈ Finset.range n, f i = ((List.range n).map f).sum := fun f => rfl
      rw [hlist,hlist,List.map_id']
      exact hperm.sum_eq
    have hmultiple : n ∣ ∑ i ∈ Finset.range n, i := by
      refine hcoprime.dvd_of_dvd_mul_right ?_
      rw [Finset.sum_range_id_mul_two]
      exact Nat.dvd_mul_right n (n-1)
    have hsteps : n ∣ ∑ i ∈ Finset.range n, (c+2*i) := by
      rw [Finset.sum_add_distrib,← Finset.mul_sum,Finset.sum_const,Finset.card_range,smul_eq_mul]
      exact Nat.dvd_add (Nat.dvd_mul_right n c) (hmultiple.mul_left 2)
    have hcounters : n ∣ ∑ i ∈ Finset.range n, (c+2*i) % 2^w := by
      rw [Nat.dvd_iff_mod_eq_zero,Finset.sum_nat_mod,hplaces]
      exact Nat.mod_eq_zero_of_dvd hmultiple
    have hsplit : ∑ i ∈ Finset.range n, (c+2*i) =
        ∑ i ∈ Finset.range n, (c+2*i) % 2^w+2^w*∑ i ∈ Finset.range n, (c+2*i)/2^w := by
      rw [Finset.mul_sum,← Finset.sum_add_distrib]
      exact Finset.sum_congr rfl fun i _ => (Nat.mod_add_div _ _).symm
    have hwraps : n ∣ ∑ i ∈ Finset.range n, (c+2*i)/2^w := by
      refine (hcoprime.pow_right w).dvd_of_dvd_mul_left ?_
      rw [hsplit] at hsteps
      exact (Nat.dvd_add_right hcounters).mp hsteps
    obtain ⟨m,rfl⟩ : ∃ m, n = m+1 := ⟨n-1,by omega⟩
    have hlast : 1 ≤ (c+2*m)/2^w := (Nat.one_le_div_iff (Nat.two_pow_pos w)).mpr (by omega)
    have hfirst : (c+2*0)/2^w = 0 := Nat.div_eq_of_lt (by omega)
    have hmost : ∑ i ∈ Finset.range m, (c+2*(i+1))/2^w ≤ m := by
      have heach : ∀ i ∈ Finset.range m, (c+2*(i+1))/2^w ≤ 1 := by
        intro i hi
        rw [Finset.mem_range] at hi
        exact Nat.lt_succ_iff.mp (Nat.div_lt_of_lt_mul (by omega))
      simpa using Finset.sum_le_card_nsmul _ _ 1 heach
    have hleast : 1 ≤ ∑ i ∈ Finset.range (m+1), (c+2*i)/2^w := by
      rw [Finset.sum_range_succ]
      omega
    rw [Finset.sum_range_succ',hfirst] at hwraps hleast
    have hle := Nat.le_of_dvd hleast hwraps
    omega

/-- Steps of two come to every place once exactly if their number is odd and the counter does not
wrap around on the way. -/
theorem strides_perm_iff {w n c : ℕ} (hw : 0 < w) (hn : 0 < n) (hc : c < 2^w) :
    (strides w n c n).Perm (List.range n) ↔ Odd n ∧ c+2*(n-1) < 2^w := by
  constructor
  · intro hperm
    have hodd : Odd n := by
      by_contra heven
      exact not_perm_of_even hw hn (Nat.not_odd_iff_even.mp heven) hperm
    by_contra hnot
    exact not_perm_of_wrap hw hc hodd (by simpa [hodd] using hnot) hperm
  · rintro ⟨hodd,hshort⟩
    exact strides_perm hodd hshort

end Strides

end Cyclic
end OxiGate
