import OxiGate.Handler

/-! The admin token as the dashboard's page sends it and as the server reads it. The page encodes
its query as a form, the server compares the query as it stands. -/
namespace OxiGate
namespace Dashboard

open RustText Http Proxy

def AUTHORIZATION : HeaderName := ⟨"authorization"⟩

def bearer [HttpCrate] (parts : Parts) : Option Text := do
  let value ← parts.headers.first AUTHORIZATION
  let s ← HttpCrate.toStr value
  stripPrefix "Bearer ".toList s

/-- The first parameter of the query that begins with `token=`. -/
def queryToken (query : Text) : Option Text := (query.splitOn '&').findSome? (stripPrefix "token=".toList)

def authorized [HttpCrate] (parts : Parts) (token : String) : Bool :=
  match bearer parts with
  | some rest => rest = token.toList
  | none =>
    match parts.uri.query.bind fun q => queryToken q.toList with
    | some v => v = token.toList
    | none => false

section Page

def isFormPlain (c : Char) : Bool := c.isAlphanum || c = '*' || c = '-' || c = '.' || c = '_'

def hexDigit (n : ℕ) : Char := if n < 10 then Char.ofNat (48+n) else Char.ofNat (55+n)

def percentEncode (b : UInt8) : Text := ['%',hexDigit (b.toNat/16),hexDigit (b.toNat % 16)]

def formEncodeChar (c : Char) : Text :=
  if isFormPlain c then [c] else if c = ' ' then ['+'] else (String.utf8EncodeChar c).flatMap percentEncode

/-- `application/x-www-form-urlencoded`, as `URLSearchParams` writes a value. -/
def formEncode (text : Text) : Text := text.flatMap formEncodeChar

/-- The query of a request of the page, other parameters before and after the token. -/
def pageQuery (before : List Text) (token : String) (after : List Text) : Text :=
  List.intercalate ['&'] (before++("token=".toList++formEncode token.toList)::after)

theorem hexDigit_ne {n : ℕ} (h : n < 16) : hexDigit n ≠ '&' := by
  interval_cases n <;> decide

theorem amp_not_mem_percentEncode (b : UInt8) : '&' ∉ percentEncode b := by
  have hb : b.toNat < 256 := b.toNat_lt
  have hhigh := hexDigit_ne (by omega : b.toNat/16 < 16)
  have hlow := hexDigit_ne (by omega : b.toNat % 16 < 16)
  simp [percentEncode,Ne.symm hhigh,Ne.symm hlow]

theorem amp_not_mem_formEncode (text : Text) : '&' ∉ formEncode text := by
  intro h
  obtain ⟨c,-,hc⟩ := List.mem_flatMap.mp h
  unfold formEncodeChar at hc
  split at hc
  · rename_i hplain
    rw [← List.mem_singleton.mp hc] at hplain
    revert hplain
    decide
  · split at hc
    · revert hc
      decide
    · obtain ⟨b,-,hb⟩ := List.mem_flatMap.mp hc
      exact amp_not_mem_percentEncode b hb

theorem length_formEncodeChar {c : Char} (hplain : isFormPlain c = false) (hspace : c ≠ ' ') :
    3 ≤ (formEncodeChar c).length := by
  have hpos : 0 < (String.utf8EncodeChar c).length := by
    rw [String.length_utf8EncodeChar]
    exact Char.utf8Size_pos c
  have hlength : ∀ bytes : List UInt8, (bytes.flatMap percentEncode).length = 3*bytes.length := by
    intro bytes
    induction bytes with
    | nil => rfl
    | cons b bytes ih =>
      rw [List.flatMap_cons,List.length_append,ih,List.length_cons]
      show 3+3*bytes.length = _
      omega
  rw [formEncodeChar,hplain,if_neg Bool.false_ne_true,if_neg hspace,hlength]
  omega

theorem length_le_formEncode (text : Text) : text.length ≤ (formEncode text).length := by
  induction text with
  | nil => exact Nat.le_refl _
  | cons c cs ih =>
    have hc : 1 ≤ (formEncodeChar c).length := by
      by_cases hplain : isFormPlain c = true
      · simp [formEncodeChar,hplain]
      · by_cases hspace : c = ' '
        · subst hspace
          decide
        · have := length_formEncodeChar (by simpa using hplain) hspace
          omega
    unfold formEncode at ih ⊢
    rw [List.flatMap_cons,List.length_append,List.length_cons]
    omega

theorem formEncode_eq_self_iff {text : Text} : formEncode text = text ↔ ∀ c ∈ text, isFormPlain c = true := by
  induction text with
  | nil => simp [formEncode]
  | cons c cs ih =>
    rw [List.forall_mem_cons,← ih]
    have hcons : formEncode (c::cs) = formEncodeChar c++formEncode cs := List.flatMap_cons
    rw [hcons]
    by_cases hplain : isFormPlain c = true
    · rw [formEncodeChar,if_pos hplain]
      simp [hplain]
    · refine iff_of_false ?_ fun hboth => hplain hboth.1
      intro heq
      by_cases hspace : c = ' '
      · subst hspace
        have hhead := congrArg List.head? heq
        revert hhead
        have hplus : formEncodeChar ' ' = ['+'] := by decide
        rw [hplus]
        simp
      · have hlength := congrArg List.length heq
        have hchar := length_formEncodeChar (by simpa using hplain) hspace
        have hrest := length_le_formEncode cs
        rw [List.length_append,List.length_cons] at hlength
        omega

theorem queryToken_pageQuery {before after : List Text} {token : String}
    (hbefore : ∀ p ∈ before, '&' ∉ p ∧ ¬"token=".toList <+: p) (hafter : ∀ p ∈ after, '&' ∉ p) :
    queryToken (pageQuery before token after) = some (formEncode token.toList) := by
  have hparts : ∀ p ∈ before++("token=".toList++formEncode token.toList)::after, '&' ∉ p := by
    intro p hp
    rcases List.mem_append.mp hp with hp | hp
    · exact (hbefore p hp).1
    · rcases List.mem_cons.mp hp with rfl | hp
      · rw [List.mem_append,not_or]
        exact ⟨by decide,amp_not_mem_formEncode _⟩
      · exact hafter p hp
  have hskip : before.findSome? (stripPrefix "token=".toList) = none := by
    rw [List.findSome?_eq_none_iff]
    intro p hp
    unfold stripPrefix
    rw [if_neg]
    rw [List.isPrefixOf_iff_prefix]
    exact (hbefore p hp).2
  unfold queryToken pageQuery
  rw [List.splitOn_intercalate _ hparts (by simp),List.findSome?_append,hskip,Option.none_or,
    List.findSome?_cons,stripPrefix_eq_some.mpr rfl]

end Page

section Authorized

variable [HttpCrate]

/-- The token of a page's request is accepted exactly if form encoding leaves it alone; a `Bearer`
field is looked at instead of the query. -/
theorem authorized_page_iff {parts : Parts} {token : String} {before after : List Text}
    (hbefore : ∀ p ∈ before, '&' ∉ p ∧ ¬"token=".toList <+: p) (hafter : ∀ p ∈ after, '&' ∉ p)
    (hquery : parts.uri.query = some (String.ofList (pageQuery before token after))) :
    authorized parts token = true ↔
      bearer parts = some token.toList ∨ bearer parts = none ∧ ∀ c ∈ token.toList, isFormPlain c = true := by
  unfold authorized
  cases bearer parts with
  | some rest => simp
  | none =>
    rw [hquery,Option.bind_some,String.toList_ofList,queryToken_pageQuery hbefore hafter,
      ← formEncode_eq_self_iff]
    simp

end Authorized

def pageRequest (token : String) : Parts :=
  ⟨"GET",⟨none,none,"/api/stats",some (String.ofList (pageQuery [] token []))⟩,.http11,[]⟩

/-- A token with a plus sign, or one in base 64, is refused. -/
theorem token_refused :
    pageQuery [] "a+b" [] = "token=a%2Bb".toList ∧ @authorized visibleAscii (pageRequest "a+b") "a+b" = false ∧
    pageQuery [] "x/y=" [] = "token=x%2Fy%3D".toList ∧
      @authorized visibleAscii (pageRequest "x/y=") "x/y=" = false := by
  decide +kernel

theorem authorized_page_iff_plain :
    @authorized visibleAscii (pageRequest "s3cret-token") "s3cret-token" = true :=
  (@authorized_page_iff visibleAscii (pageRequest "s3cret-token") "s3cret-token" [] []
    (fun p hp => absurd hp List.not_mem_nil) (fun p hp => absurd hp List.not_mem_nil) rfl).mpr
    (Or.inr ⟨rfl,List.all_eq_true.mp (by decide +kernel)⟩)

end Dashboard
end OxiGate
