import Mathlib.Tactic

/-! First-in first-out queues with a bound. A push on a full queue gives the item back. -/
namespace OxiGate

structure BoundedQueue (α : Type) where
  items : List α
  bound : ℕ
  length_le : items.length ≤ bound

namespace BoundedQueue

variable {α : Type}

def new (bound : ℕ) : BoundedQueue α := ⟨[],bound,Nat.zero_le bound⟩

def push (q : BoundedQueue α) (a : α) : Except α Unit × BoundedQueue α :=
  if h : q.items.length < q.bound then (.ok (),⟨q.items++[a],q.bound,by simpa using h⟩) else (.error a,q)

def pop (q : BoundedQueue α) : Option α × BoundedQueue α :=
  (q.items.head?,⟨q.items.tail,q.bound,by
    rw [List.length_tail]
    exact (Nat.sub_le _ _).trans q.length_le⟩)

@[simp] theorem bound_push (q : BoundedQueue α) (a : α) : (q.push a).2.bound = q.bound := by
  unfold push
  split <;> rfl

theorem items_push (q : BoundedQueue α) (a : α) :
    (q.push a).2.items = if q.items.length < q.bound then q.items++[a] else q.items := by
  unfold push
  split <;> rfl

/-- What is in a queue after a push was in it, or is the item pushed if there was room. -/
theorem mem_of_mem_push {q : BoundedQueue α} {a b : α} (h : b ∈ (q.push a).2.items) :
    b ∈ q.items ∨ q.items.length < q.bound ∧ b = a := by
  rw [items_push] at h
  split at h
  · rename_i hroom
    rcases List.mem_append.mp h with h | h
    · exact Or.inl h
    · exact Or.inr ⟨hroom,List.mem_singleton.mp h⟩
  · exact Or.inl h

theorem items_pushes {ι : Type} (a : α) (is : List ι) (q : BoundedQueue α)
    (hroom : q.items.length+is.length ≤ q.bound) :
    (is.foldl (fun q _ => (q.push a).2) q).items = q.items++List.replicate is.length a := by
  induction is generalizing q with
  | nil => simp
  | cons i is ih =>
    rw [List.length_cons] at hroom
    have hitems : (q.push a).2.items = q.items++[a] := by rw [items_push,if_pos (by omega)]
    rw [List.foldl_cons,ih _ (by rw [hitems,bound_push,List.length_append,List.length_singleton]; omega),hitems,
      List.append_assoc,List.length_cons]
    rfl

theorem bound_pushes {ι : Type} (a : α) (is : List ι) (q : BoundedQueue α) :
    (is.foldl (fun q _ => (q.push a).2) q).bound = q.bound := by
  induction is generalizing q with
  | nil => rfl
  | cons i is ih => rw [List.foldl_cons,ih,bound_push]

theorem items_pops (q : BoundedQueue α) (n : ℕ) : ((fun q => (pop q).2)^[n] q).items = q.items.drop n := by
  induction n generalizing q with
  | zero => rfl
  | succ n ih =>
    rw [Function.iterate_succ_apply,ih]
    show q.items.tail.drop n = _
    rw [List.drop_tail]

end BoundedQueue
end OxiGate
