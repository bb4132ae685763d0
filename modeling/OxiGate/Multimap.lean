import Mathlib.Tactic

/-! Association lists that keep every entry of a key, the entries of one key together. -/
namespace OxiGate

abbrev Multimap (K V : Type) := List (K × V)

namespace Multimap

variable {K V : Type} [DecidableEq K]

def values (m : Multimap K V) (k : K) : List V := (m.filter (·.1 = k)).map Prod.snd

def first (m : Multimap K V) (k : K) : Option V := (m.values k).head?

def containsKey (m : Multimap K V) (k : K) : Bool := m.any (·.1 = k)

/-- Add a value beside the others of its key, or at the end if there are none. -/
def append : Multimap K V → K → V → Multimap K V
  | [], k, v => [(k,v)]
  | e::m, k, v => if e.1 = k ∧ containsKey m k = false then e::(k,v)::m else e::append m k v

/-- Replace every value of the key by one in the place of the first. -/
def insert : Multimap K V → K → V → Multimap K V
  | [], k, v => [(k,v)]
  | e::m, k, v => if e.1 = k then (k,v)::m.filter (·.1 ≠ k) else e::insert m k v

variable (m : Multimap K V) {k k' : K} (v : V)

@[simp] theorem values_nil (k : K) : values ([] : Multimap K V) k = [] := rfl

theorem values_cons (e : K × V) (k : K) : values (e::m) k = if e.1 = k then e.2::values m k else values m k := by
  by_cases h : e.1 = k
  · simp [values,h]
  · simp [values,h]

theorem values_concat (m' : Multimap K V) (k : K) : values (m++m') k = values m k++values m' k := by
  simp [values]

theorem values_eq_nil : values m k = [] ↔ containsKey m k = false := by
  simp [values,containsKey]

theorem values_filter_of_keep (p : K → Bool) (h : p k = true) :
    Multimap.values (m.filter fun e => p e.1) k = m.values k := by
  simp only [values,List.filter_filter]
  congr 1
  apply List.filter_congr
  intro e _
  by_cases he : e.1 = k
  · simp [he,h]
  · simp [he]

theorem values_filter_of_drop (p : K → Bool) (h : p k = false) :
    Multimap.values (m.filter fun e => p e.1) k = [] := by
  simp only [values,List.filter_filter,List.map_eq_nil_iff,List.filter_eq_nil_iff]
  intro e _
  by_cases he : e.1 = k
  · simp [he,h]
  · simp [he]

theorem values_foldl {α : Type} {f : Multimap K V → α → Multimap K V} {l : List α}
    (hf : ∀ (m : Multimap K V), ∀ a ∈ l, (f m a).values k = m.values k) (m : Multimap K V) :
    (l.foldl f m).values k = m.values k := by
  induction l generalizing m with
  | nil => rfl
  | cons a l ih =>
    have hrest := ih (fun m b hb => hf m b (List.mem_cons_of_mem _ hb)) (f m a)
    exact hrest.trans (hf m a List.mem_cons_self)

section Append

theorem append_new (h : containsKey m k = false) : append m k v = m++[(k,v)] := by
  induction m with
  | nil => rfl
  | cons e m ih =>
    obtain ⟨hne,hrest⟩ : e.1 ≠ k ∧ containsKey m k = false := by simpa [containsKey] using h
    rw [append,if_neg (fun heq => hne heq.1),ih hrest,List.cons_append]

theorem append_beside (before : Multimap K V) (w : V) (h : containsKey m k = false) :
    append (before++(k,w)::m) k v = before++(k,w)::(k,v)::m := by
  induction before with
  | nil => exact if_pos ⟨rfl,h⟩
  | cons e before ih =>
    have hmore : containsKey (before++(k,w)::m) k = true := by simp [containsKey]
    rw [List.cons_append,append,if_neg (by simp [hmore]),ih,List.cons_append]

/-- Where a key is there, one entry of it is the last. -/
theorem exists_last (h : containsKey m k = true) :
    ∃ before w after, m = before++(k,w)::after ∧ containsKey after k = false := by
  induction m with
  | nil => cases h
  | cons e m ih =>
    cases hm : containsKey m k with
    | true =>
      obtain ⟨before,w,after,rfl,hafter⟩ := ih hm
      exact ⟨e::before,w,after,rfl,hafter⟩
    | false =>
      have he : e.1 = k := by
        simp only [containsKey,List.any_cons,Bool.or_eq_true,decide_eq_true_eq] at h hm
        simpa [hm] using h
      exact ⟨[],e.2,m,by rw [← he]; rfl,hm⟩

theorem values_append (k : K) (v : V) (k' : K) :
    values (append m k v) k' = values m k'++if k = k' then [v] else [] := by
  cases h : containsKey m k with
  | false =>
    rw [append_new m v h,values_concat,values_cons]
    rfl
  | true =>
    obtain ⟨before,w,after,rfl,hafter⟩ := exists_last m h
    rw [append_beside after v before w hafter,values_concat,values_concat,values_cons,values_cons,values_cons]
    by_cases hk : k = k'
    · subst hk
      simp [(values_eq_nil after).mpr hafter]
    · simp [hk]

theorem values_insert (k : K) (v : V) (k' : K) : values (insert m k v) k' = if k = k' then [v] else values m k' := by
  induction m with
  | nil => exact values_cons _ _ _
  | cons e m ih =>
    by_cases he : e.1 = k
    · rw [insert,if_pos he,values_cons,values_cons,he]
      by_cases hk : k = k'
      · have hgone := values_filter_of_drop m (fun x => decide (x ≠ k)) (k := k') (by simp [hk])
        rw [if_pos hk,if_pos hk,hgone]
      · have hkept := values_filter_of_keep m (fun x => decide (x ≠ k)) (k := k') (by simp [Ne.symm hk])
        rw [if_neg hk,if_neg hk,if_neg hk,hkept]
    · rw [insert,if_neg he,values_cons,values_cons,ih]
      by_cases hk : k = k'
      · rw [if_neg (hk ▸ he),if_pos hk,if_pos hk]
      · simp [hk]

theorem sublist_append : m.Sublist (append m k v) := by
  cases h : containsKey m k with
  | false =>
    rw [append_new m v h]
    exact List.sublist_append_left _ _
  | true =>
    obtain ⟨before,w,after,rfl,hafter⟩ := exists_last m h
    rw [append_beside after v before w hafter]
    exact (List.Sublist.refl before).append ((List.sublist_cons_self _ _).cons_cons _)

theorem containsKey_append (hk : k ≠ k') : containsKey (append m k v) k' = containsKey m k' := by
  have hvalues := values_append m k v k'
  rw [if_neg hk,List.append_nil] at hvalues
  rw [Bool.eq_iff_iff,← not_iff_not,Bool.not_eq_true,Bool.not_eq_true,← values_eq_nil,← values_eq_nil,hvalues]

/-- A further value of one key and a value of another may be added in either order. -/
theorem append_comm (hk : k ≠ k') (h : containsKey m k = true) (w : V) :
    append (append m k v) k' w = append (append m k' w) k v := by
  induction m with
  | nil => cases h
  | cons e m ih =>
    by_cases he : e.1 = k
    · have hne : e.1 ≠ k' := fun heq => hk (he.symm.trans heq)
      cases hm : containsKey m k with
      | true => simp [append,hm,hne,ih hm,containsKey_append m w (Ne.symm hk)]
      | false => simp [append,he,hm,hk,containsKey_append m w (Ne.symm hk)]
    · have hm : containsKey m k = true := by simpa [containsKey,he] using h
      by_cases he' : e.1 = k'
      · cases hm' : containsKey m k' with
        | true => simp [append,hm',he',Ne.symm hk,ih hm,containsKey_append m v hk]
        | false => simp [append,hm,hm',he',Ne.symm hk,containsKey_append m v hk]
      · simp [append,he,he',ih hm]

end Append

section AppendAll

def appendAll (m l : Multimap K V) : Multimap K V := l.foldl (fun m e => append m e.1 e.2) m

theorem appendAll_cons (e : K × V) (l : Multimap K V) : appendAll m (e::l) = appendAll (append m e.1 e.2) l := rfl

theorem appendAll_concat (l l' : Multimap K V) : appendAll m (l++l') = appendAll (appendAll m l) l' :=
  List.foldl_append

theorem sublist_appendAll (l : Multimap K V) : m.Sublist (appendAll m l) := by
  induction l generalizing m with
  | nil => exact List.Sublist.refl m
  | cons e l ih => exact (sublist_append m e.2).trans (ih _)

theorem appendAll_comm (h : containsKey m k = true) (l : Multimap K V) (hl : containsKey l k = false) :
    appendAll (append m k v) l = append (appendAll m l) k v := by
  induction l generalizing m with
  | nil => rfl
  | cons e l ih =>
    obtain ⟨hne,hrest⟩ : e.1 ≠ k ∧ containsKey l k = false := by simpa [containsKey] using hl
    have hstill : containsKey (append m e.1 e.2) k = true := (containsKey_append m e.2 hne).trans h
    rw [appendAll_cons,appendAll_cons,append_comm m v (Ne.symm hne) h,ih _ hstill hrest]

theorem containsKey_append_self : containsKey (append m k v) k = true := by
  cases h : containsKey (append m k v) k with
  | true => rfl
  | false =>
    have hvalues := values_append m k v k
    rw [(values_eq_nil _).mpr h,if_pos rfl] at hvalues
    simp at hvalues

theorem appendAll_append : appendAll [] (append m k v) = append (appendAll [] m) k v := by
  cases h : containsKey m k with
  | false => rw [append_new m v h,appendAll_concat]; rfl
  | true =>
    obtain ⟨before,w,after,rfl,hafter⟩ := exists_last m h
    rw [append_beside after v before w hafter,appendAll_concat,appendAll_concat,appendAll_cons,appendAll_cons,
      appendAll_cons,appendAll_comm _ v (containsKey_append_self _ w) after hafter]

/-- A list that was made by adding its entries is made by adding its entries again. -/
theorem appendAll_idem (l : Multimap K V) : appendAll [] (appendAll [] l) = appendAll [] l := by
  induction l using List.reverseRecOn with
  | nil => rfl
  | append_singleton l e ih =>
    rw [appendAll_concat,appendAll_cons]
    show appendAll [] (append _ _ _) = append _ _ _
    rw [appendAll_append,ih]

theorem filter_append (p : K → Bool) (k : K) :
    (append m k v).filter (fun e => p e.1) =
      if p k then append (m.filter fun e => p e.1) k v else m.filter fun e => p e.1 := by
  have hkept : ∀ {l : Multimap K V}, containsKey l k = false → containsKey (l.filter fun e => p e.1) k = false := by
    intro l hl
    simp only [containsKey,List.any_eq_false,decide_eq_true_eq] at hl ⊢
    intro e he
    exact hl e (List.mem_of_mem_filter he)
  cases h : containsKey m k with
  | false =>
    rw [append_new m v h,List.filter_append]
    cases hp : p k with
    | true => rw [if_pos rfl,append_new _ v (hkept h)]; simp [hp]
    | false => simp [hp]
  | true =>
    obtain ⟨before,w,after,rfl,hafter⟩ := exists_last m h
    rw [append_beside after v before w hafter,List.filter_append,List.filter_append]
    cases hp : p k with
    | true =>
      have hbeside := append_beside (after.filter fun e => p e.1) v (before.filter fun e => p e.1) w (hkept hafter)
      simp [hp,hbeside]
    | false => simp [hp]

theorem filter_appendAll (p : K → Bool) (l : Multimap K V) :
    (appendAll m l).filter (fun e => p e.1) = appendAll (m.filter fun e => p e.1) (l.filter fun e => p e.1) := by
  induction l generalizing m with
  | nil => rfl
  | cons e l ih =>
    rw [appendAll_cons,ih,filter_append]
    cases hp : p e.1 with
    | true => simp [hp,appendAll_cons]
    | false => simp [hp]

end AppendAll

end Multimap
end OxiGate
