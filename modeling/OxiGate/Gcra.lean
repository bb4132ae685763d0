import OxiGate.Runs

/-! The generic cell rate algorithm in its two forms. The virtual-scheduling form
keeps a theoretical arrival time; the credit form is a token bucket that fills by
one unit of credit per unit of time. -/
namespace OxiGate
namespace Gcra

/-- Admit an arrival at `now` unless it is more than `tolerance` ahead of `tat`. -/
def arrive (cost tolerance tat now : ℕ) : Bool × ℕ :=
  if now+tolerance < tat then (false,tat) else (true,max tat now+cost)

theorem arrive_allowed (cost tolerance tat now : ℕ) :
    (arrive cost tolerance tat now).1 = true ↔ tat ≤ now+tolerance := by
  unfold arrive
  split <;> simp <;> omega

theorem arrive_of_allowed {cost tolerance tat now : ℕ} (h : tat ≤ now+tolerance) :
    arrive cost tolerance tat now = (true,max tat now+cost) :=
  if_neg (Nat.not_lt.mpr h)

theorem arrive_of_rejected {cost tolerance tat now : ℕ} (h : now+tolerance < tat) :
    arrive cost tolerance tat now = (false,tat) := if_pos h

theorem le_arrive (cost tolerance tat now : ℕ) : tat ≤ (arrive cost tolerance tat now).2 := by
  unfold arrive
  split
  · exact le_rfl
  · exact (le_max_left tat now).trans (Nat.le_add_right _ _)

theorem arrive_idle {cost tolerance tat now : ℕ} (h : tat ≤ now) :
    arrive cost tolerance tat now = (true,now+cost) := by
  rw [arrive_of_allowed (by omega),max_eq_right h]

theorem arrive_congr {cost tolerance tat tat' now : ℕ} (h : tat-now = tat'-now) :
    (arrive cost tolerance tat now).1 = (arrive cost tolerance tat' now).1 ∧
      (arrive cost tolerance tat now).2-now = (arrive cost tolerance tat' now).2-now := by
  by_cases hle : tat ≤ now+tolerance
  · have hle' : tat' ≤ now+tolerance := by omega
    rw [arrive_of_allowed hle,arrive_of_allowed hle']
    exact ⟨rfl,by simp only; omega⟩
  · have hlt' : now+tolerance < tat' := by omega
    rw [arrive_of_rejected (Nat.lt_of_not_le hle),arrive_of_rejected hlt']
    exact ⟨rfl,h⟩

section WindowBound

/-- Of the arrivals decided so far, `n` were admitted inside `[start,start+length]`:
then `tat` has moved past `start` by `n` costs, and all but one of them were paid
for by the window and the tolerance. -/
structure Paid (cost tolerance start length n tat : ℕ) : Prop where
  ahead : 0 < n → start+n*cost ≤ tat
  bound : (n-1)*cost ≤ length+tolerance

variable {cost tolerance start length n tat now : ℕ}

theorem Paid.zero (cost tolerance start length tat : ℕ) :
    Paid cost tolerance start length 0 tat := ⟨by omega,by simp⟩

theorem Paid.mono {tat' : ℕ} (h : Paid cost tolerance start length n tat) (hle : tat ≤ tat') :
    Paid cost tolerance start length n tat' := ⟨fun hn => (h.ahead hn).trans hle,h.bound⟩

theorem Paid.arrive (h : Paid cost tolerance start length n tat) :
    Paid cost tolerance start length n (arrive cost tolerance tat now).2 :=
  h.mono (le_arrive cost tolerance tat now)

theorem Paid.arrive_inside (h : Paid cost tolerance start length n tat)
    (hallowed : (Gcra.arrive cost tolerance tat now).1 = true)
    (hlow : start ≤ now) (hhigh : now ≤ start+length) :
    Paid cost tolerance start length (n+1) (Gcra.arrive cost tolerance tat now).2 := by
  have hle : tat ≤ now+tolerance := (arrive_allowed cost tolerance tat now).mp hallowed
  rw [arrive_of_allowed hle]
  rcases Nat.eq_zero_or_pos n with hn | hn
  · subst hn
    have hmax := le_max_right tat now
    exact ⟨fun _ => by omega,by simp⟩
  · have hahead := h.ahead hn
    have hmax := le_max_left tat now
    have hsucc : (n+1)*cost = n*cost+cost := Nat.succ_mul n cost
    exact ⟨fun _ => by omega,by simp only [Nat.add_sub_cancel]; omega⟩

/-- The same account for the window from `start` to the present. An arrival time that lies in the
past may be forgotten. -/
structure Funded (cost tolerance start now n tat : ℕ) : Prop where
  started : start ≤ now
  ahead : 0 < n → start+n*cost ≤ max tat now
  bound : (n-1)*cost ≤ now-start+tolerance

theorem Funded.zero (cost tolerance start tat : ℕ) : Funded cost tolerance start start 0 tat :=
  ⟨le_rfl,by omega,by simp⟩

theorem Funded.later (h : Funded cost tolerance start now n tat) (duration : ℕ) :
    Funded cost tolerance start (now+duration) n tat := by
  have hstarted := h.started
  have hbound := h.bound
  exact ⟨by omega,fun hn => (h.ahead hn).trans (max_le_max le_rfl (Nat.le_add_right now duration)),by omega⟩

theorem Funded.forget {tat' : ℕ} (h : Funded cost tolerance start now n tat) (htat : tat ≤ now) :
    Funded cost tolerance start now n tat' := by
  refine ⟨h.started,fun hn => ?_,h.bound⟩
  have hahead := h.ahead hn
  rw [max_eq_right htat] at hahead
  exact hahead.trans (le_max_right _ _)

theorem Funded.arrive (h : Funded cost tolerance start now n tat) :
    Funded cost tolerance start now (n+if (Gcra.arrive cost tolerance tat now).1 = true then 1 else 0)
      (Gcra.arrive cost tolerance tat now).2 := by
  by_cases hallowed : tat ≤ now+tolerance
  · rw [arrive_of_allowed hallowed,if_pos rfl]
    have hstarted := h.started
    have hmax : max tat now ≤ now+tolerance := max_le hallowed (Nat.le_add_right now tolerance)
    have hsucc : (n+1)*cost = n*cost+cost := Nat.succ_mul n cost
    rcases Nat.eq_zero_or_pos n with hn | hn
    · subst hn
      have hnow := le_max_right tat now
      exact ⟨hstarted,fun _ => le_max_of_le_left (by simp only; omega),by simp⟩
    · have hahead := h.ahead hn
      exact ⟨hstarted,fun _ => le_max_of_le_left (by simp only; omega),by simp only [Nat.add_sub_cancel]; omega⟩
  · rw [arrive_of_rejected (Nat.lt_of_not_le hallowed)]
    simpa using h

theorem Funded.count_le (h : Funded cost tolerance start now n tat) (hcost : 0 < cost) :
    n ≤ 1+(now-start+tolerance)/cost := by
  have hle : n-1 ≤ (now-start+tolerance)/cost := (Nat.le_div_iff_mul_le hcost).mpr h.bound
  omega

end WindowBound

section TokenBucket

structure TokenBucket where
  credit : ℕ
  last : ℕ
  deriving DecidableEq, Repr

def TokenBucket.full (capacity : ℕ) : TokenBucket := ⟨capacity,0⟩

def TokenBucket.available (capacity : ℕ) (b : TokenBucket) (now : ℕ) : ℕ :=
  min capacity (b.credit+(now-b.last))

/-- Spend `cost` if it is there; a refused call changes nothing. -/
def TokenBucket.spend (capacity cost : ℕ) (b : TokenBucket) (now : ℕ) : Bool × TokenBucket :=
  if cost ≤ b.available capacity now then (true,⟨b.available capacity now-cost,now⟩) else (false,b)

/-- What `tat` is ahead of the clock by is what the bucket lacks. -/
def Matches (capacity now tat : ℕ) (b : TokenBucket) : Prop :=
  b.last ≤ now ∧ b.available capacity now+(tat-now) = capacity

theorem Matches.later {capacity now now' tat : ℕ} {b : TokenBucket}
    (h : Matches capacity now tat b) (hle : now ≤ now') : Matches capacity now' tat b := by
  obtain ⟨hlast,hsum⟩ := h
  refine ⟨hlast.trans hle,?_⟩
  simp only [TokenBucket.available] at *
  omega

/-- One step of the two forms: the same decision, and the forms still match. -/
theorem Matches.step {cost tolerance now tat : ℕ} {b : TokenBucket}
    (h : Matches (tolerance+cost) now tat b) :
    (arrive cost tolerance tat now).1 = (b.spend (tolerance+cost) cost now).1 ∧
      Matches (tolerance+cost) now (arrive cost tolerance tat now).2
        (b.spend (tolerance+cost) cost now).2 := by
  have hsum := h.2
  by_cases hallowed : tat ≤ now+tolerance
  · have hcredit : cost ≤ b.available (tolerance+cost) now := by omega
    rw [arrive_of_allowed hallowed,TokenBucket.spend,if_pos hcredit]
    refine ⟨rfl,le_rfl,?_⟩
    simp only [TokenBucket.available] at *
    omega
  · have hcredit : ¬cost ≤ b.available (tolerance+cost) now := by omega
    rw [arrive_of_rejected (Nat.lt_of_not_le hallowed),TokenBucket.spend,if_neg hcredit]
    exact ⟨rfl,h⟩

end TokenBucket

end Gcra
end OxiGate
