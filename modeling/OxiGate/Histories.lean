import Mathlib.Data.List.DropRight
import Mathlib.Tactic

/-! Histories of events: the run a history ends with, and conditions that one event sets
and a later one resets. -/
namespace OxiGate
namespace Histories

variable {α : Type}

/-- The length of the run at the end of the history. -/
def trailing (p : α → Bool) (h : List α) : ℕ := (h.rtakeWhile p).length

theorem trailing_concat (p : α → Bool) (h : List α) (a : α) :
    trailing p (h++[a]) = if p a then trailing p h+1 else 0 := by
  unfold trailing
  rw [List.rtakeWhile_concat]
  split
  · simp
  · rfl

theorem trailing_le_length (p : α → Bool) (h : List α) : trailing p h ≤ h.length :=
  (List.rtakeWhile_suffix p h).length_le

theorem trailing_append_of_all {p : α → Bool} {x : List α} (hx : ∀ a ∈ x, p a = true) (h : List α) :
    trailing p (h++x) = trailing p h+x.length := by
  induction x using List.reverseRecOn with
  | nil => simp
  | append_singleton x a ih =>
    have hall : ∀ b ∈ x, p b = true := fun b hb => hx b (List.mem_append_left _ hb)
    rw [← List.append_assoc,trailing_concat,if_pos (hx a (by simp)),ih hall,List.length_append]
    rfl

theorem trailing_filter_concat (p among : α → Bool) (h : List α) (a : α) :
    trailing p ((h++[a]).filter among) =
      if among a then if p a then trailing p (h.filter among)+1 else 0 else trailing p (h.filter among) := by
  rw [List.filter_append]
  by_cases ha : among a = true
  · simp only [ha,if_true,List.filter_cons,List.filter_nil]
    exact trailing_concat p _ a
  · simp [ha]

/-- The condition was set at some point of the history and not reset after it. -/
def Latched (set reset : List α → Prop) (h : List α) : Prop :=
  ∃ front, front <+: h ∧ set front ∧ ∀ later, later <+: h → front.length < later.length → ¬ reset later

theorem latched_concat (set reset : List α → Prop) (h : List α) (a : α) :
    Latched set reset (h++[a]) ↔
      set (h++[a]) ∨ (Latched set reset h ∧ ¬ reset (h++[a])) := by
  constructor
  · rintro ⟨front,hfront,hset,hkept⟩
    rcases List.prefix_concat_iff.mp hfront with rfl | hbefore
    · exact Or.inl hset
    · refine Or.inr ⟨⟨front,hbefore,hset,?_⟩,?_⟩
      · intro later hlater
        exact hkept later (hlater.trans (List.prefix_append h [a]))
      · apply hkept _ List.prefix_rfl
        have hle := hbefore.length_le
        simp
        omega
  · rintro (hset | ⟨⟨front,hfront,hset,hkept⟩,hreset⟩)
    · refine ⟨h++[a],List.prefix_rfl,hset,?_⟩
      intro later hlater hlt
      exact absurd hlater.length_le (Nat.not_le.mpr hlt)
    · refine ⟨front,hfront.trans (List.prefix_append h [a]),hset,?_⟩
      intro later hlater hlt
      rcases List.prefix_concat_iff.mp hlater with rfl | hbefore
      · exact hreset
      · exact hkept later hbefore hlt

theorem latched_append {set reset : List α → Prop} {h x : List α}
    (hquiet : ∀ y, y <+: x → y ≠ [] → ¬ set (h++y) ∧ ¬ reset (h++y)) :
    Latched set reset (h++x) ↔ Latched set reset h := by
  induction x using List.reverseRecOn with
  | nil => simp
  | append_singleton x a ih =>
    have hbefore := ih fun y hy => hquiet y (hy.trans (List.prefix_append x [a]))
    have hlast := hquiet (x++[a]) List.prefix_rfl (by simp)
    rw [← List.append_assoc] at hlast ⊢
    rw [latched_concat,hbefore]
    simp only [hlast.1,hlast.2,false_or,not_false_eq_true,and_true]

theorem latched_congr {set set' reset reset' : List α → Prop} {h : List α}
    (hset : ∀ front, front <+: h → (set front ↔ set' front))
    (hreset : ∀ front, front <+: h → (reset front ↔ reset' front)) :
    Latched set reset h ↔ Latched set' reset' h := by
  refine exists_congr fun front => and_congr_right fun hfront => ?_
  refine and_congr (hset front hfront) (forall_congr' fun later => ?_)
  exact forall_congr' fun hlater => imp_congr_right fun _ => not_congr (hreset later hlater)

/-- The events of one kind can be told apart by how many came before. -/
theorem exists_nth {among : α → Bool} {h : List α} {j : ℕ} (hj : j < h.countP among) :
    ∃ front a back, h = front++a::back ∧ among a = true ∧ front.countP among = j := by
  induction h generalizing j with
  | nil => simp at hj
  | cons b h ih =>
    by_cases hb : among b = true
    · cases j with
      | zero => exact ⟨[],b,h,rfl,hb,rfl⟩
      | succ j =>
        rw [List.countP_cons_of_pos hb] at hj
        obtain ⟨front,a,back,rfl,ha,hcount⟩ := ih (Nat.lt_of_succ_lt_succ hj)
        exact ⟨b::front,a,back,rfl,ha,by rw [List.countP_cons_of_pos hb,hcount]⟩
    · rw [List.countP_cons_of_neg hb] at hj
      obtain ⟨front,a,back,rfl,ha,hcount⟩ := ih hj
      exact ⟨b::front,a,back,rfl,ha,by rw [List.countP_cons_of_neg hb,hcount]⟩

end Histories
end OxiGate
