import OxiGate.RustText

/-! JSON texts with no blanks between their tokens: how values are written, and a reader. Numbers are
integers. In a string only the quote and the backslash are escaped when it is written, so one with
control characters is not read back. -/
namespace OxiGate
namespace Json

open RustText

inductive Value
  | str (s : Text)
  | num (n : ℤ)
  | bool (b : Bool)
  | arr (items : List Value)
  | obj (fields : List (Text × Value))

def escape (c : Char) : Text :=
  if c = '\\' then ['\\','\\'] else if c = '"' then ['\\','"'] else [c]

def quote (s : Text) : Text := '"'::(s.flatMap escape++['"'])

def integer (n : ℤ) : Text := if n < 0 then '-'::Nat.toDigits 10 n.natAbs else Nat.toDigits 10 n.natAbs

mutual

def write : Value → Text
  | .str s => quote s
  | .num n => integer n
  | .bool true => ['t','r','u','e']
  | .bool false => ['f','a','l','s','e']
  | .arr [] => ['[',']']
  | .arr (v::vs) => '['::(write v++(writeItems vs++[']']))
  | .obj [] => ['\x7b','\x7d']
  | .obj ((key,v)::fs) => '\x7b'::(quote key++ ':'::(write v++(writeFields fs++['\x7d'])))

def writeItems : List Value → Text
  | [] => []
  | v::vs => ','::(write v++writeItems vs)

def writeFields : List (Text × Value) → Text
  | [] => []
  | (key,v)::fs => ','::(quote key++ ':'::(write v++writeFields fs))

end

theorem writeItems_eq (vs : List Value) : writeItems vs = (vs.map write).flatMap (','::·) := by
  induction vs with
  | nil => simp [writeItems]
  | cons v vs ih => simp [writeItems,ih]

theorem writeFields_eq (fs : List (Text × Value)) :
    writeFields fs = (fs.map fun f => quote f.1++ ':'::write f.2).flatMap (','::·) := by
  induction fs with
  | nil => simp [writeFields]
  | cons f fs ih => simp [writeFields,ih]

theorem intercalate_comma (part : Text) (parts : List Text) :
    List.intercalate [','] (part::parts) = part++parts.flatMap (','::·) := by
  induction parts generalizing part with
  | nil => simp
  | cons next parts ih =>
    rw [List.intercalate_cons_cons,ih]
    simp

theorem write_arr (items : List Value) :
    write (.arr items) = '['::(List.intercalate [','] (items.map write)++[']']) := by
  cases items with
  | nil => simp [write]
  | cons v vs => rw [List.map_cons,intercalate_comma,write,writeItems_eq,List.append_assoc]

theorem write_obj (fields : List (Text × Value)) : write (.obj fields) =
    '\x7b'::(List.intercalate [','] (fields.map fun f => quote f.1++ ':'::write f.2)++['\x7d']) := by
  cases fields with
  | nil => simp [write]
  | cons f fs =>
    rw [List.map_cons,intercalate_comma,write,writeFields_eq]
    simp

def unescape : Char → Option Char
  | '"' => some '"'
  | '\\' => some '\\'
  | '/' => some '/'
  | 'b' => some '\x08'
  | 'f' => some '\x0c'
  | 'n' => some '\n'
  | 'r' => some '\r'
  | 't' => some '\t'
  | _ => none

def readString : Text → Option (Text × Text)
  | [] => none
  | '"'::rest => some ([],rest)
  | '\\'::c::rest => (unescape c).bind fun d => (readString rest).map fun r => (d::r.1,r.2)
  | c::rest => if c.toNat < 32 then none else (readString rest).map fun r => (c::r.1,r.2)

def readDigits (text : Text) : Option (ℕ × Text) :=
  let digits := text.takeWhile Char.isDigit
  if digits = [] then none else some (Nat.ofDigitChars 10 digits 0,text.dropWhile Char.isDigit)

def readNumber : Text → Option (ℤ × Text)
  | '-'::rest => (readDigits rest).map fun r => (-(r.1:ℤ),r.2)
  | text => (readDigits text).map fun r => ((r.1:ℤ),r.2)

mutual

/-- Read a value off the text, so many tokens deep. -/
def read : ℕ → Text → Option (Value × Text)
  | 0, _ => none
  | _+1, '"'::rest => (readString rest).map fun r => (.str r.1,r.2)
  | _+1, '[':: ']'::rest => some (.arr [],rest)
  | n+1, '['::rest => (readItems n rest).map fun r => (.arr r.1,r.2)
  | _+1, '\x7b':: '\x7d'::rest => some (.obj [],rest)
  | n+1, '\x7b'::rest => (readFields n rest).map fun r => (.obj r.1,r.2)
  | _+1, 't':: 'r':: 'u':: 'e'::rest => some (.bool true,rest)
  | _+1, 'f':: 'a':: 'l':: 's':: 'e'::rest => some (.bool false,rest)
  | _+1, text => (readNumber text).map fun r => (.num r.1,r.2)

def readItems : ℕ → Text → Option (List Value × Text)
  | 0, _ => none
  | n+1, text =>
    match read n text with
    | some (v,','::rest) => (readItems n rest).map fun r => (v::r.1,r.2)
    | some (v,']'::rest) => some ([v],rest)
    | _ => none

def readFields : ℕ → Text → Option (List (Text × Value) × Text)
  | n+1, '"'::text =>
    match readString text with
    | some (key,':'::rest) =>
      match read n rest with
      | some (v,','::rest) => (readFields n rest).map fun r => ((key,v)::r.1,r.2)
      | some (v,'\x7d'::rest) => some ([(key,v)],rest)
      | _ => none
    | _ => none
  | _, _ => none

end

def parse (text : Text) : Option Value :=
  match read (text.length+1) text with
  | some (v,[]) => some v
  | _ => none

def Value.field (key : Text) : Value → Option Value
  | .obj fields => fields.lookup key
  | _ => none

/-- No control characters. -/
def CleanText (s : Text) : Prop := ∀ c ∈ s, 32 ≤ c.toNat

instance (s : Text) : Decidable (CleanText s) := List.decidableBAll (fun c : Char => 32 ≤ c.toNat) s

mutual

def Clean : Value → Prop
  | .str s => CleanText s
  | .num _ => True
  | .bool _ => True
  | .arr items => CleanItems items
  | .obj fields => CleanFields fields

def CleanItems : List Value → Prop
  | [] => True
  | v::vs => Clean v ∧ CleanItems vs

def CleanFields : List (Text × Value) → Prop
  | [] => True
  | (key,v)::fs => CleanText key ∧ Clean v ∧ CleanFields fs

end

theorem cleanItems_iff {items : List Value} : CleanItems items ↔ ∀ v ∈ items, Clean v := by
  induction items with
  | nil => simp [CleanItems]
  | cons v vs ih => simp [CleanItems,ih]

theorem cleanFields_iff {fields : List (Text × Value)} :
    CleanFields fields ↔ ∀ f ∈ fields, CleanText f.1 ∧ Clean f.2 := by
  induction fields with
  | nil => simp [CleanFields]
  | cons f fs ih => simp [CleanFields,ih,and_assoc]

theorem readString_escape {c : Char} (hc : 32 ≤ c.toNat) (text : Text) :
    readString (escape c++text) = (readString text).map fun r => (c::r.1,r.2) := by
  unfold escape
  split
  · rename_i h
    subst h
    rfl
  split
  · rename_i h
    subst h
    rfl
  · rename_i hslash hquote
    rw [List.cons_append,List.nil_append,readString.eq_def]
    split <;> simp_all

theorem readString_quote {s : Text} (hs : CleanText s) (rest : Text) :
    readString (s.flatMap escape++ '"'::rest) = some (s,rest) := by
  induction s with
  | nil => rfl
  | cons c s ih =>
    obtain ⟨hc,htail⟩ := List.forall_mem_cons.mp hs
    rw [List.flatMap_cons,List.append_assoc,readString_escape hc,ih htail]
    rfl

/-- What follows a value does not go on with a digit. -/
def Ends (rest : Text) : Prop := ∀ c, rest.head? = some c → c.isDigit = false

theorem readDigits_toDigits (n : ℕ) {rest : Text} (hrest : Ends rest) :
    readDigits (Nat.toDigits 10 n++rest) = some (n,rest) := by
  have hdigits : ∀ c ∈ Nat.toDigits 10 n, c.isDigit = true :=
    fun c hc => Nat.isDigit_of_mem_toDigits (by omega) (by omega) hc
  have htake : (Nat.toDigits 10 n++rest).takeWhile Char.isDigit = Nat.toDigits 10 n :=
    takeWhile_append_stop hdigits hrest
  have hdrop : (Nat.toDigits 10 n++rest).dropWhile Char.isDigit = rest := by
    have hsplit := List.takeWhile_append_dropWhile (p := Char.isDigit) (l := Nat.toDigits 10 n++rest)
    rw [htake] at hsplit
    exact List.append_cancel_left hsplit
  simp only [readDigits,htake,hdrop,if_neg Nat.toDigits_ne_nil,Nat.ofDigitChars_ten_toDigits]

theorem head_toDigits (n : ℕ) : ∃ c cs, Nat.toDigits 10 n = c::cs ∧ c.isDigit = true := by
  cases h : Nat.toDigits 10 n with
  | nil => exact absurd h Nat.toDigits_ne_nil
  | cons c cs =>
    have hmem : c ∈ Nat.toDigits 10 n := by simp [h]
    exact ⟨c,cs,rfl,Nat.isDigit_of_mem_toDigits (by omega) (by omega) hmem⟩

theorem readNumber_integer (n : ℤ) {rest : Text} (hrest : Ends rest) :
    readNumber (integer n++rest) = some (n,rest) := by
  have hread := readDigits_toDigits n.natAbs hrest
  unfold integer
  split
  · rename_i hneg
    simp only [List.cons_append,readNumber,hread,Option.map_some]
    congr 2
    omega
  · obtain ⟨c,cs,hcs,hdigit⟩ := head_toDigits n.natAbs
    have hminus : c ≠ '-' := by
      rintro rfl
      revert hdigit
      decide
    rw [hcs] at hread ⊢
    have hplain : readNumber (c::cs++rest) = (readDigits (c::cs++rest)).map fun r => ((r.1:ℤ),r.2) := by
      rw [readNumber.eq_def]
      split <;> simp_all
    rw [hplain,hread]
    simp only [Option.map_some]
    congr 2
    omega

theorem read_integer (n : ℤ) (fuel : ℕ) {rest : Text} (hrest : Ends rest) :
    read (fuel+1) (integer n++rest) = some (.num n,rest) := by
  have hhead : ∃ c cs, integer n = c::cs ∧ (c = '-' ∨ c.isDigit = true) := by
    obtain ⟨c,cs,hcs,hdigit⟩ := head_toDigits n.natAbs
    unfold integer
    split
    · exact ⟨'-',_,rfl,Or.inl rfl⟩
    · exact ⟨c,cs,hcs,Or.inr hdigit⟩
  have hnumber := readNumber_integer n hrest
  obtain ⟨c,cs,hcs,hc⟩ := hhead
  rw [hcs] at hnumber ⊢
  have hread : read (fuel+1) (c::cs++rest) = (readNumber (c::cs++rest)).map fun r => (.num r.1,r.2) := by
    rw [read.eq_def]
    split <;> simp_all
  rw [hread,hnumber]
  rfl

theorem ends_cons {c : Char} (h : c.isDigit = false) (rest : Text) : Ends (c::rest) := by
  intro d hd
  cases hd
  exact h

/-- A value begins with no closing bracket. -/
theorem read_arr {fuel : ℕ} {v : Value} {text : Text} (h : ∃ c cs, write v = c::cs ∧ c ≠ ']') :
    read (fuel+1) ('['::(write v++text)) = (readItems fuel (write v++text)).map fun r => (.arr r.1,r.2) := by
  obtain ⟨c,cs,hcs,hc⟩ := h
  rw [hcs,List.cons_append,read.eq_def]
  split <;> simp_all

theorem write_head (v : Value) : ∃ c cs, write v = c::cs ∧ c ≠ ']' := by
  cases v with
  | str s => exact ⟨'"',_,rfl,by decide⟩
  | num n =>
    obtain ⟨c,cs,hcs,hdigit⟩ := head_toDigits n.natAbs
    unfold write integer
    split
    · exact ⟨'-',_,rfl,by decide⟩
    · refine ⟨c,cs,hcs,?_⟩
      rintro rfl
      revert hdigit
      decide
  | bool b =>
    cases b with
    | false => exact ⟨'f',_,by rw [write],by decide⟩
    | true => exact ⟨'t',_,by rw [write],by decide⟩
  | arr items =>
    cases items with
    | nil => exact ⟨'[',_,by rw [write],by decide⟩
    | cons v vs => exact ⟨'[',_,by rw [write],by decide⟩
  | obj fields =>
    cases fields with
    | nil => exact ⟨'\x7b',_,by rw [write],by decide⟩
    | cons f fs => exact ⟨'\x7b',_,by rw [write],by decide⟩

theorem read_obj {fuel : ℕ} {key text : Text} : read (fuel+1) ('\x7b'::(quote key++text)) =
    (readFields fuel (quote key++text)).map fun r => (.obj r.1,r.2) := by
  rfl

theorem readFields_quote {fuel : ℕ} {key : Text} (hkey : CleanText key) (text : Text) :
    readFields (fuel+1) (quote key++ ':'::text) =
      match read fuel text with
      | some (v, ','::rest) => (readFields fuel rest).map fun r => ((key,v)::r.1,r.2)
      | some (v, '\x7d'::rest) => some ([(key,v)],rest)
      | _ => none := by
  simp only [quote,List.cons_append,List.append_assoc,List.nil_append,readFields,readString_quote hkey]

mutual

/-- A value without control characters is read back as it was written. -/
theorem read_write : ∀ (v : Value) {fuel : ℕ} {rest : Text}, Clean v → (write v).length < fuel → Ends rest →
    read fuel (write v++rest) = some (v,rest)
  | .str s, fuel+1, rest, hclean, _, _ => by
    rw [Clean] at hclean
    simp only [write,quote,List.cons_append,List.append_assoc,List.nil_append]
    rw [read,readString_quote hclean]
    rfl
  | .num n, fuel+1, rest, _, _, hrest => by
    rw [write]
    exact read_integer n fuel hrest
  | .bool true, fuel+1, rest, _, _, _ => by simp [write,read]
  | .bool false, fuel+1, rest, _, _, _ => by simp [write,read]
  | .arr [], fuel+1, rest, _, _, _ => by simp [write,read]
  | .arr (v::vs), fuel+1, rest, hclean, hfuel, _ => by
    rw [Clean,CleanItems] at hclean
    have hlength : (write v++writeItems vs).length+1 < fuel := by
      simp only [write,List.length_cons,List.length_append,List.length_nil] at hfuel ⊢
      omega
    have hitems : readItems fuel (write v++(writeItems vs++ ']'::rest)) = some (v::vs,rest) :=
      readItems_write v vs hclean.1 hclean.2 hlength
    simp only [write,List.cons_append,List.append_assoc,List.nil_append]
    rw [read_arr (write_head v),hitems]
    rfl
  | .obj [], fuel+1, rest, _, _, _ => by simp [write,read]
  | .obj ((key,v)::fs), fuel+1, rest, hclean, hfuel, _ => by
    rw [Clean,CleanFields] at hclean
    have hlength : (quote key++ ':'::(write v++writeFields fs)).length+1 < fuel := by
      simp only [write,List.length_cons,List.length_append,List.length_nil] at hfuel ⊢
      omega
    have hfields : readFields fuel (quote key++ ':'::(write v++(writeFields fs++ '\x7d'::rest))) =
        some ((key,v)::fs,rest) :=
      readFields_write key v fs hclean.1 hclean.2.1 hclean.2.2 hlength
    simp only [write,List.cons_append,List.append_assoc,List.nil_append]
    rw [read_obj,hfields]
    rfl

theorem readItems_write : ∀ (v : Value) (vs : List Value) {fuel : ℕ} {rest : Text}, Clean v → CleanItems vs →
    (write v++writeItems vs).length+1 < fuel →
    readItems fuel (write v++(writeItems vs++ ']'::rest)) = some (v::vs,rest)
  | v, [], fuel+1, rest, hv, _, hfuel => by
    have hread : read fuel (write v++ ']'::rest) = some (v, ']'::rest) := by
      refine read_write v hv ?_ (ends_cons (by decide) rest)
      simp only [List.length_append] at hfuel
      omega
    simp only [writeItems,List.nil_append,readItems,hread]
  | v, w::vs, fuel+1, rest, hv, hvs, hfuel => by
    rw [CleanItems] at hvs
    simp only [writeItems,List.length_append,List.length_cons] at hfuel
    have hread : read fuel (write v++ ','::(write w++(writeItems vs++ ']'::rest))) =
        some (v, ','::(write w++(writeItems vs++ ']'::rest))) := by
      refine read_write v hv ?_ (ends_cons (by decide) _)
      omega
    have hitems : readItems fuel (write w++(writeItems vs++ ']'::rest)) = some (w::vs,rest) := by
      refine readItems_write w vs hvs.1 hvs.2 ?_
      simp only [List.length_append]
      omega
    simp only [writeItems,List.cons_append,List.append_assoc,readItems,hread,hitems,Option.map_some]

theorem readFields_write : ∀ (key : Text) (v : Value) (fs : List (Text × Value)) {fuel : ℕ} {rest : Text},
    CleanText key → Clean v → CleanFields fs → (quote key++ ':'::(write v++writeFields fs)).length+1 < fuel →
    readFields fuel (quote key++ ':'::(write v++(writeFields fs++ '\x7d'::rest))) = some ((key,v)::fs,rest)
  | key, v, [], fuel+1, rest, hkey, hv, _, hfuel => by
    simp only [List.length_append,List.length_cons] at hfuel
    have hread : read fuel (write v++ '\x7d'::rest) = some (v, '\x7d'::rest) := by
      refine read_write v hv ?_ (ends_cons (by decide) rest)
      omega
    simp only [writeFields,List.nil_append,readFields_quote hkey,hread]
  | key, v, (key',w)::fs, fuel+1, rest, hkey, hv, hfs, hfuel => by
    rw [CleanFields] at hfs
    simp only [writeFields,List.length_append,List.length_cons] at hfuel
    have hread : read fuel (write v++ ','::(quote key'++ ':'::(write w++(writeFields fs++ '\x7d'::rest)))) =
        some (v, ','::(quote key'++ ':'::(write w++(writeFields fs++ '\x7d'::rest)))) := by
      refine read_write v hv ?_ (ends_cons (by decide) _)
      omega
    have hfields : readFields fuel (quote key'++ ':'::(write w++(writeFields fs++ '\x7d'::rest))) =
        some ((key',w)::fs,rest) := by
      refine readFields_write key' w fs hfs.1 hfs.2.1 hfs.2.2 ?_
      simp only [List.length_append,List.length_cons]
      omega
    simp only [writeFields,List.cons_append,List.append_assoc,readFields_quote hkey,hread,hfields,Option.map_some]

end

theorem parse_write {v : Value} (h : Clean v) : parse (write v) = some v := by
  have hends : Ends [] := by
    intro c hc
    cases hc
  have hread : read ((write v).length+1) (write v++[]) = some (v,[]) :=
    read_write v h (Nat.lt_succ_self _) hends
  rw [List.append_nil] at hread
  simp only [parse,hread]

end Json
end OxiGate
