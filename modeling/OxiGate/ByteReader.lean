import Mathlib.Data.Seq.Basic
import Mathlib.Tactic

/-! Sources that deliver a stream in pieces of their own choosing.
A reader may cut its stream anywhere. A client can rely only on the order of the
pieces and on an empty piece meaning the end of the stream. -/
namespace OxiGate
namespace ByteReader

open Stream' (Seq)

structure IoError where
  message : String
  deriving DecidableEq, Repr

/-- One read with room for `n` items, and the reader afterwards. -/
class AsyncRead (α : outParam Type) (S : Type) where
  read : S → ℕ → Except IoError (List α) × S

/-- Reads hand out `rest` in order, at most `n` items at a time, and nothing
only at the end of the stream. -/
class LawfulRead (α : outParam Type) (S : Type) [AsyncRead α S] where
  rest : S → Seq α
  read_spec (s : S) (n : ℕ) : ∃ piece s', AsyncRead.read s n = (.ok piece,s') ∧
    rest s = (Seq.ofList piece).append (rest s') ∧ piece.length ≤ n ∧
    (0 < n → piece = [] → rest s = Seq.nil)

variable {α S : Type}

theorem take_ofList_append (l : List α) (s : Seq α) (n : ℕ) :
    ((Seq.ofList l).append s).take n = l.take n ++ s.take (n-l.length) := by
  induction l generalizing n with
  | nil => simp
  | cons a l ih =>
    cases n with
    | zero => simp
    | succ n => simp [Seq.cons_append,ih]

theorem drop_ofList_append (l : List α) (s : Seq α) (n : ℕ) :
    ((Seq.ofList l).append s).drop n = (Seq.ofList (l.drop n)).append (s.drop (n-l.length)) := by
  induction l generalizing n with
  | nil => simp
  | cons a l ih =>
    cases n with
    | zero => simp
    | succ n => simp [Seq.cons_append,ih]

theorem eq_drop_of_append (l : List α) {s input : Seq α} (h : input = (Seq.ofList l).append s) :
    s = input.drop l.length := by
  rw [h,drop_ofList_append]
  simp

theorem take_append_drop (s : Seq α) (n : ℕ) :
    (Seq.ofList (s.take n)).append (s.drop n) = s := by
  induction n generalizing s with
  | zero => simp
  | succ n ih =>
    cases s using Stream'.Seq.recOn with
    | nil => simp
    | cons a s => simp [Seq.cons_append,ih]

theorem eq_nil_of_take_eq_nil (s : Seq α) (n : ℕ) (h : s.take (n+1) = []) : s = Seq.nil := by
  cases s using Stream'.Seq.recOn with
  | nil => rfl
  | cons a s => simp at h

def readMany [AsyncRead α S] (s : S) : List ℕ → Except IoError (List α) × S
  | [] => (.ok [],s)
  | n::ns =>
    match AsyncRead.read s n with
    | (.error e,s') => (.error e,s')
    | (.ok piece,s') =>
      let r := readMany s' ns
      (r.1.map (piece ++ ·),r.2)

/-- What reads deliver is a prefix of the stream, and the stream in full as soon
as there were more reads with room than items delivered. -/
theorem readMany_spec [AsyncRead α S] [LawfulRead α S] (s : S) (ns : List ℕ) :
    ∃ got s', readMany s ns = (.ok got,s') ∧
      LawfulRead.rest s = (Seq.ofList got).append (LawfulRead.rest s') ∧
      (got.length < ns.countP (0 < ·) → LawfulRead.rest s' = Seq.nil) := by
  induction ns generalizing s with
  | nil => exact ⟨[],s,rfl,by simp,by simp⟩
  | cons n ns ih =>
    obtain ⟨piece,s₁,hread,hrest,hlen,heof⟩ := LawfulRead.read_spec s n
    obtain ⟨got,s₂,hmany,hrest',hdone⟩ := ih s₁
    refine ⟨piece++got,s₂,by simp [readMany,hread,hmany,Except.map],?_,?_⟩
    · rw [hrest,hrest']
      simp [Seq.append_assoc,Seq.ofList_append]
    · intro hlt
      by_cases hp : piece = []
      · by_cases hn : 0 < n
        · have hnil := heof hn hp
          rw [eq_drop_of_append _ hrest',eq_drop_of_append _ hrest,hnil]
          simp
        · apply hdone
          simpa [hp,hn] using hlt
      · apply hdone
        have : 0 < piece.length := List.length_pos_of_ne_nil hp
        by_cases hn : 0 < n <;> simp [hn] at hlt <;> omega

/-- The stream `input` is what reads from `s` deliver, whatever buffer sizes they use. -/
def Delivers [AsyncRead α S] (s : S) (input : Seq α) : Prop :=
  ∀ ns : List ℕ, ∃ got s', readMany s ns = (.ok got,s') ∧ got = input.take got.length ∧
    (got.length < ns.countP (0 < ·) → input = Seq.ofList got)

theorem delivers_rest [AsyncRead α S] [LawfulRead α S] (s : S) :
    Delivers s (LawfulRead.rest s) := by
  intro ns
  obtain ⟨got,s',hmany,hrest,hdone⟩ := readMany_spec s ns
  refine ⟨got,s',hmany,?_,?_⟩
  · rw [hrest,take_ofList_append]
    simp
  · intro hlt
    rw [hrest,hdone hlt]
    simp

structure Scheduled (α : Type) where
  input : Seq α
  offers : Stream' ℕ

namespace Scheduled

def piece (s : Scheduled α) (n : ℕ) : ℕ := min n (max 1 s.offers.head)

instance : AsyncRead α (Scheduled α) where
  read s n := (.ok (s.input.take (s.piece n)),⟨s.input.drop (s.piece n),s.offers.tail⟩)

instance : LawfulRead α (Scheduled α) where
  rest := Scheduled.input
  read_spec s n := by
    refine ⟨_,_,rfl,(take_append_drop _ _).symm,?_,?_⟩
    · exact Seq.length_take_le.trans (Nat.min_le_left _ _)
    · intro hn hnil
      obtain ⟨k,hk⟩ : ∃ k, s.piece n = k+1 :=
        ⟨s.piece n-1,by simp only [piece]; omega⟩
      rw [hk] at hnil
      exact eq_nil_of_take_eq_nil s.input k hnil

end Scheduled

end ByteReader
end OxiGate
