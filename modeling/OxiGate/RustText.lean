import Mathlib.Data.List.TakeWhile
import Mathlib.Tactic

/-! The operations of Rust's `str` that the proxy uses, on lists of characters, and how
a `Result` comes to be `Ok`. -/
namespace OxiGate
namespace RustText

section Results

variable {ε α β : Type}

theorem ok_of_bind {x : Except ε α} {f : α → Except ε β} {b : β} (h : (x >>= f) = .ok b) :
    ∃ a, x = .ok a ∧ f a = .ok b := by
  cases x with
  | error e => cases h
  | ok a => exact ⟨a,rfl,h⟩

theorem ok_of_map {x : Except ε α} {f : α → β} {b : β} (h : x.map f = .ok b) :
    ∃ a, x = .ok a ∧ f a = b := by
  cases x with
  | error e => cases h
  | ok a => exact ⟨a,rfl,Except.ok.inj h⟩

theorem ok_of_mapError {ε' : Type} {x : Except ε α} {g : ε → ε'} {a : α} (h : x.mapError g = .ok a) :
    x = .ok a := by
  cases x with
  | error e => cases h
  | ok a' =>
    cases h
    rfl

/-- A fold that comes to an end keeps what each of its steps keeps. -/
theorem foldlM_keeps {f : β → α → Except ε β} {P : β → Prop} (hstep : ∀ b a b', P b → f b a = .ok b' → P b')
    {xs : List α} {b b' : β} (hb : P b) (h : xs.foldlM f b = .ok b') : P b' := by
  induction xs generalizing b with
  | nil =>
    cases h
    exact hb
  | cons a xs ih =>
    rw [List.foldlM_cons] at h
    obtain ⟨b₁,hone,hrest⟩ := ok_of_bind h
    exact ih (hstep b a b₁ hb hone) hrest

/-- It does come to an end if under that invariant no step fails. -/
theorem exists_foldlM_ok {f : β → α → Except ε β} {P : β → Prop}
    (hstep : ∀ b a b', P b → f b a = .ok b' → P b') {xs : List α}
    (hok : ∀ a ∈ xs, ∀ b, P b → ∃ b', f b a = .ok b') {b : β} (hb : P b) : ∃ b', xs.foldlM f b = .ok b' := by
  induction xs generalizing b with
  | nil => exact ⟨b,rfl⟩
  | cons a xs ih =>
    obtain ⟨hhead,htail⟩ := List.forall_mem_cons.mp hok
    obtain ⟨b₁,hone⟩ := hhead b hb
    obtain ⟨b',hrest⟩ := ih htail (hstep b a b₁ hb hone)
    exact ⟨b',by rw [List.foldlM_cons,hone]; exact hrest⟩

theorem bind_eq_ok {x : Except ε α} {f : α → Except ε β} {b : β} :
    (x >>= f) = .ok b ↔ ∃ a, x = .ok a ∧ f a = .ok b := by
  constructor
  · exact ok_of_bind
  · rintro ⟨a,rfl,h⟩
    exact h

theorem mapError_eq_ok {ε' : Type} {x : Except ε α} {g : ε → ε'} {a : α} :
    x.mapError g = .ok a ↔ x = .ok a := by
  constructor
  · exact ok_of_mapError
  · rintro rfl
    rfl

theorem seq_eq_ok {x : Except ε PUnit} {y : Except ε β} {b : β} :
    (x >>= fun _ => y) = .ok b ↔ x = .ok () ∧ y = .ok b := by
  rw [bind_eq_ok]
  constructor
  · rintro ⟨⟨⟩,hx,hy⟩
    exact ⟨hx,hy⟩
  · rintro ⟨hx,hy⟩
    exact ⟨(),hx,hy⟩

theorem forM_eq_ok {f : α → Except ε PUnit} {l : List α} : l.forM f = .ok () ↔ ∀ a ∈ l, f a = .ok () := by
  induction l with
  | nil => simp [pure,Except.pure]
  | cons a l ih =>
    rw [List.forall_mem_cons,← ih]
    exact seq_eq_ok

end Results

abbrev Text := List Char

/-- The Unicode `White_Space` property, as `char::is_whitespace` tests it. -/
def isWhitespace (c : Char) : Bool :=
  let n := c.toNat
  (9 ≤ n && n ≤ 13) || n = 0x20 || n = 0x85 || n = 0xA0 || n = 0x1680 ||
    (0x2000 ≤ n && n ≤ 0x200A) || n = 0x2028 || n = 0x2029 || n = 0x202F || n = 0x205F ||
    n = 0x3000

def splitWhitespace (line : Text) : List Text :=
  (line.splitOnP isWhitespace).filter (!·.isEmpty)

/-- `str::trim`. -/
def trim (text : Text) : Text :=
  ((text.dropWhile isWhitespace).reverse.dropWhile isWhitespace).reverse

/-- `str::split_once`: the text before and after the first separator. -/
def splitOnce (sep : Char) : Text → Option (Text × Text)
  | [] => none
  | c::cs => if c = sep then some ([],cs) else (splitOnce sep cs).map fun r => (c::r.1,r.2)

def trimEndMatches (c : Char) (text : Text) : Text := (text.reverse.dropWhile (· = c)).reverse

def stripPrefix (pattern text : Text) : Option Text :=
  if pattern.isPrefixOf text then some (text.drop pattern.length) else none

def toAsciiLowercase (text : Text) : Text := text.map Char.toLower

/-- `str::contains`. -/
def contains (text pattern : Text) : Bool := decide (pattern <:+: text)

/-- `str::len` counts bytes. -/
def byteLen (text : Text) : ℕ := (text.map Char.utf8Size).sum

/-- `str::as_bytes`. -/
def asBytes (text : Text) : List UInt8 := text.flatMap String.utf8EncodeChar

/-- `std::str::from_utf8`, with the characters in place of the string. -/
def fromUtf8 (bytes : List UInt8) : Option Text :=
  (ByteArray.utf8Decode? ⟨bytes.toArray⟩).map Array.toList

/-- `char::to_digit`. -/
def toDigit (radix : ℕ) (c : Char) : Option ℕ :=
  let d :=
    if '0' ≤ c ∧ c ≤ '9' then some (c.toNat - '0'.toNat)
    else if 'a' ≤ c ∧ c ≤ 'z' then some (c.toNat - 'a'.toNat+10)
    else if 'A' ≤ c ∧ c ≤ 'Z' then some (c.toNat - 'A'.toNat+10)
    else none
  d.filter (· < radix)

inductive ParseIntError
  | empty | invalidDigit | posOverflow
  deriving DecidableEq, Repr

def ParseIntError.message : ParseIntError → String
  | .empty => "cannot parse integer from empty string"
  | .invalidDigit => "invalid digit found in string"
  | .posOverflow => "number too large to fit in target type"

def parseDigits (max : ℕ) : ℕ → Text → Except ParseIntError ℕ
  | acc, [] => .ok acc
  | acc, c::cs =>
    match toDigit 10 c with
    | none => .error .invalidDigit
    | some d => if max < acc*10+d then .error .posOverflow else parseDigits max (acc*10+d) cs

/-- `FromStr` of the unsigned integer type whose largest value is `max`.
One leading plus sign is accepted. -/
def parseUint (max : ℕ) : Text → Except ParseIntError ℕ
  | [] => .error .empty
  | ['+'] => .error .invalidDigit
  | '+'::cs => parseDigits max 0 cs
  | cs => parseDigits max 0 cs

theorem asBytes_append (s t : Text) : asBytes (s++t) = asBytes s++asBytes t := List.flatMap_append

theorem fromUtf8_asBytes (text : Text) : fromUtf8 (asBytes text) = some text := by
  have hbytes : (⟨(asBytes text).toArray⟩ : ByteArray) = text.utf8Encode := by
    apply ByteArray.ext
    simp [List.utf8Encode,asBytes]
  rw [fromUtf8,hbytes,List.utf8Decode?_utf8Encode]
  simp

theorem asBytes_injective {s t : Text} (h : asBytes s = asBytes t) : s = t := by
  have hread := congrArg fromUtf8 h
  rw [fromUtf8_asBytes,fromUtf8_asBytes] at hread
  exact Option.some.inj hread

theorem asBytes_of_ascii {text : Text} (h : ∀ c ∈ text, c.toNat ≤ 127) :
    asBytes text = text.map fun c => UInt8.ofNat c.toNat := by
  induction text with
  | nil => rfl
  | cons c cs ih =>
    have hc : c.val.toNat ≤ 127 := h c List.mem_cons_self
    have hrest := ih fun c' hc' => h c' (List.mem_cons_of_mem c hc')
    unfold asBytes at hrest ⊢
    rw [List.flatMap_cons,hrest,String.utf8EncodeChar,if_pos hc]
    rfl

theorem splitOn_cons (sep c : Char) (cs : Text) : ∃ piece pieces, cs.splitOn sep = piece::pieces ∧
    (c::cs).splitOn sep = if c = sep then []::piece::pieces else (c::piece)::pieces := by
  cases hcs : cs.splitOn sep with
  | nil => exact absurd hcs (List.splitOnP_ne_nil _ _)
  | cons piece pieces =>
    refine ⟨piece,pieces,rfl,?_⟩
    unfold List.splitOn at hcs ⊢
    rw [List.splitOnP_cons_eq_if_modifyHead,hcs]
    by_cases hc : c = sep
    · simp [hc]
    · simp [hc]

theorem mem_of_mem_splitOn {sep : Char} {text part : Text} (h : part ∈ text.splitOn sep) {c : Char}
    (hc : c ∈ part) : c ∈ text := by
  induction text generalizing part with
  | nil =>
    have hpart : part = [] := by simpa using h
    simp [hpart] at hc
  | cons d ds ih =>
    obtain ⟨piece,pieces,hds,hd⟩ := splitOn_cons sep d ds
    rw [hds] at ih
    rw [hd] at h
    by_cases hsep : d = sep
    · rw [if_pos hsep] at h
      rcases List.mem_cons.mp h with rfl | hrest
      · cases hc
      · exact List.mem_cons_of_mem _ (ih hrest hc)
    · rw [if_neg hsep] at h
      rcases List.mem_cons.mp h with rfl | hrest
      · rcases List.mem_cons.mp hc with rfl | hpiece
        · exact List.mem_cons_self
        · exact List.mem_cons_of_mem _ (ih List.mem_cons_self hpiece)
      · exact List.mem_cons_of_mem _ (ih (List.mem_cons_of_mem _ hrest) hc)

theorem splitOnce_append {sep : Char} {before : Text} (h : sep ∉ before) (after : Text) :
    splitOnce sep (before++sep::after) = some (before,after) := by
  induction before with
  | nil => simp [splitOnce]
  | cons c before ih =>
    have hc : c ≠ sep := fun hc => h (hc ▸ List.mem_cons_self)
    simp [splitOnce,hc,ih fun hmem => h (List.mem_cons_of_mem c hmem)]

theorem splitOnce_eq_some {sep : Char} {text before after : Text}
    (h : splitOnce sep text = some (before,after)) : text = before++sep::after := by
  induction text generalizing before with
  | nil => cases h
  | cons c cs ih =>
    simp only [splitOnce] at h
    by_cases hc : c = sep
    · rw [if_pos hc] at h
      cases h
      simp [hc]
    · rw [if_neg hc] at h
      obtain ⟨⟨k,v⟩,hrest,heq⟩ := Option.map_eq_some_iff.mp h
      cases heq
      rw [ih hrest]
      rfl

/-- The pieces of one text begin those of another exactly if the other is the same text, or goes
on with a separator. -/
theorem splitOn_isPrefix_iff {sep : Char} {p q : Text} :
    p.splitOn sep <+: q.splitOn sep ↔ q = p ∨ p++[sep] <+: q := by
  induction p generalizing q with
  | nil =>
    cases q with
    | nil => simp
    | cons d ds =>
      obtain ⟨piece,pieces,-,hd⟩ := splitOn_cons sep d ds
      rw [hd]
      by_cases h : d = sep
      · simp [h]
      · simp [h,Ne.symm h]
  | cons c cs ih =>
    obtain ⟨piece,pieces,hcs,hc⟩ := splitOn_cons sep c cs
    cases q with
    | nil =>
      rw [hc]
      by_cases h : c = sep
      · simp [h]
      · simp [h]
    | cons d ds =>
      obtain ⟨piece',pieces',hds,hd⟩ := splitOn_cons sep d ds
      have hih := ih (q := ds)
      rw [hcs,hds] at hih
      rw [hc,hd]
      by_cases h : c = sep
      · by_cases h' : d = sep
        · simpa [h,h'] using hih
        · simp [h,h',Ne.symm h']
      · by_cases h' : d = sep
        · simp [h,h',Ne.symm h]
        · by_cases heq : c = d
          · subst heq
            simpa [h] using hih
          · simp [h,h',heq,Ne.symm heq]

theorem takeWhile_append_stop {p : Char → Bool} {l r : Text} (hl : ∀ c ∈ l, p c = true)
    (hr : ∀ c, r.head? = some c → p c = false) : (l++r).takeWhile p = l := by
  rw [List.takeWhile_append_of_pos hl]
  cases r with
  | nil => simp
  | cons c cs => simp [hr c rfl]

theorem forall_ne_iff {sep : Char} {text : Text} : (∀ c ∈ text, decide (c ≠ sep) = true) ↔ sep ∉ text := by
  simp only [decide_eq_true_eq]
  constructor
  · intro h hmem
    exact h sep hmem rfl
  · rintro h c hc rfl
    exact h hc

theorem takeWhile_ne_stop {sep : Char} {text : Text} (h : sep ∉ text) (rest : Text) :
    (text++sep::rest).takeWhile (· ≠ sep) = text := by
  refine takeWhile_append_stop (forall_ne_iff.mpr h) ?_
  intro c hc
  cases hc
  simp

theorem head?_dropWhile_not {p : Char → Bool} {text : Text} {c : Char}
    (h : (text.dropWhile p).head? = some c) : p c = false := by
  have hnot := List.head?_dropWhile_not p text
  rw [h] at hnot
  exact hnot

theorem stripPrefix_eq_some {pattern text rest : Text} :
    stripPrefix pattern text = some rest ↔ text = pattern++rest := by
  unfold stripPrefix
  constructor
  · intro h
    split at h
    · rename_i hpre
      obtain ⟨r,rfl⟩ := List.isPrefixOf_iff_prefix.mp hpre
      simpa using h
    · cases h
  · rintro rfl
    simp

theorem trimEndMatches_append {c : Char} {l text : Text} (h : ∀ d, l.getLast? = some d → d ≠ c)
    (hl : l ≠ []) : trimEndMatches c (l++text) = l++trimEndMatches c text := by
  unfold trimEndMatches
  rw [List.reverse_append,List.dropWhile_append]
  by_cases hempty : text.reverse.dropWhile (· = c) = []
  · cases hrev : l.reverse with
    | nil => simp at hrev; exact absurd hrev hl
    | cons d ds =>
      have hd : d ≠ c := by
        apply h
        rw [List.getLast?_eq_head?_reverse,hrev]
        rfl
      have hback : l = (d::ds).reverse := by rw [← hrev,List.reverse_reverse]
      simp [hempty,hd,hback]
  · simp [hempty]

theorem trimEndMatches_cut {c d : Char} (h : d ≠ c) (u v : Text) :
    trimEndMatches c (u++d::v) = u++d::trimEndMatches c v := by
  have hlast : ∀ e, (u++[d]).getLast? = some e → e ≠ c := by
    intro e he
    rw [List.getLast?_concat] at he
    cases he
    exact h
  have hcut : trimEndMatches c (u++[d]++v) = u++[d]++trimEndMatches c v :=
    trimEndMatches_append hlast (by simp)
  simpa using hcut

theorem eq_of_trimEndMatches_eq_nil {c d : Char} {text : Text} (h : trimEndMatches c text = [])
    (hd : d ∈ text) : d = c := by
  have hall := List.dropWhile_eq_nil_iff.mp (List.reverse_eq_nil_iff.mp h)
  simpa using hall d (List.mem_reverse.mpr hd)

theorem trimEndMatches_isPrefix (c : Char) (text : Text) : ( trimEndMatches c text) <+: text := by
  have hsuffix := List.dropWhile_suffix (fun d => decide (d = c)) (l := text.reverse)
  have hpre := List.reverse_prefix.mpr hsuffix
  rwa [List.reverse_reverse] at hpre

theorem trimEndMatches_of_ne {c : Char} {text : Text} (h : text.getLast? ≠ some c) :
    trimEndMatches c text = text := by
  unfold trimEndMatches
  rw [List.getLast?_eq_head?_reverse] at h
  cases hrev : text.reverse with
  | nil => simpa using hrev.symm
  | cons d ds =>
    have hd : d ≠ c := by
      rintro rfl
      rw [hrev] at h
      exact h rfl
    rw [List.dropWhile_cons_of_neg (by simpa using hd),← hrev,List.reverse_reverse]

theorem getLast?_trimEndMatches (c : Char) (text : Text) : ( trimEndMatches c text).getLast? ≠ some c := by
  intro h
  unfold trimEndMatches at h
  rw [List.getLast?_reverse] at h
  have hnot := head?_dropWhile_not h
  simp at hnot

end RustText
end OxiGate
