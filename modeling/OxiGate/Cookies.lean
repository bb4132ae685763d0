import OxiGate.Handler

/-! The affinity cookie among a client's other cookies. Cookies are read here octet by octet from
all fields of a request; the proxy reads the first field only, and only as text. -/
namespace OxiGate
namespace Proxy

open RustText Http

def latin1 (bytes : List UInt8) : Text := bytes.map fun b => Char.ofNat b.toNat

def octets (text : String) : Text := latin1 (asBytes text.toList)

def isBlank (c : Char) : Bool := c = ' ' || c = '\t'

def trimBlanks (text : Text) : Text := ((text.dropWhile isBlank).reverse.dropWhile isBlank).reverse

def cookiePair (part : Text) : Option (Text × Text) :=
  (splitOnce '=' (trimBlanks part)).map fun r => (trimBlanks r.1,trimBlanks r.2)

def cookies (field : Text) : List (Text × Text) := (field.splitOn ';').filterMap cookiePair

/-- The cookies of a request, field after field. -/
def allCookies (headers : HeaderMap) : List (Text × Text) :=
  (headers.values COOKIE).flatMap fun value => cookies (latin1 value.bytes)

/-- The octets `HeaderValue::to_str` takes for text. -/
def isTextByte (b : UInt8) : Bool := (decide (32 ≤ b.toNat) && decide (b.toNat < 127)) || b.toNat = 9

def isTextChar (c : Char) : Bool := isVisible c || c = '\t'

/-- `HeaderValue::to_str` as documented. -/
def ReadsText [HttpCrate] : Prop :=
  ∀ value, HttpCrate.toStr value = if value.bytes.all isTextByte then some (latin1 value.bytes) else none

theorem toNat_ofNat_byte (b : UInt8) : (Char.ofNat b.toNat).toNat = b.toNat := by
  have hb : b.toNat < 256 := b.toNat_lt
  have hvalid : b.toNat.isValidChar := Or.inl (by omega)
  rw [Char.ofNat,dif_pos hvalid]
  rfl

theorem isTextChar_ofNat (b : UInt8) : isTextChar (Char.ofNat b.toNat) = isTextByte b := by
  have htab : (Char.ofNat b.toNat = '\t') ↔ b.toNat = 9 := by
    rw [← Char.toNat_inj,toNat_ofNat_byte]
    rfl
  simp only [isTextChar,isTextByte,isVisible,toNat_ofNat_byte,htab]

theorem isTextChar_of_mem_latin1 {bytes : List UInt8} (h : bytes.all isTextByte = true) :
    ∀ c ∈ latin1 bytes, isTextChar c = true := by
  intro c hc
  obtain ⟨b,hb,rfl⟩ := List.mem_map.mp hc
  rw [isTextChar_ofNat]
  exact List.all_eq_true.mp h b hb

theorem toNat_le_of_isTextChar {c : Char} (h : isTextChar c = true) : c.toNat ≤ 127 := by
  simp only [isTextChar,isVisible,Bool.or_eq_true,Bool.and_eq_true,decide_eq_true_eq] at h
  rcases h with ⟨-,hlt⟩ | rfl
  · omega
  · decide

theorem isWhitespace_eq_isBlank {c : Char} (h : isTextChar c = true) : isWhitespace c = isBlank c := by
  have hspace : c = ' ' ↔ c.toNat = 32 := by
    rw [← Char.toNat_inj]
    rfl
  have htab : c = '\t' ↔ c.toNat = 9 := by
    rw [← Char.toNat_inj]
    rfl
  simp only [isTextChar,isVisible,Bool.or_eq_true,Bool.and_eq_true,decide_eq_true_eq,htab] at h
  rw [Bool.eq_iff_iff]
  simp only [isWhitespace,isBlank,Bool.or_eq_true,Bool.and_eq_true,decide_eq_true_eq,hspace,htab]
  omega

theorem dropWhile_congr {p q : Char → Bool} {text : Text} (h : ∀ c ∈ text, p c = q c) :
    text.dropWhile p = text.dropWhile q := by
  induction text with
  | nil => rfl
  | cons c cs ih =>
    rw [List.dropWhile_cons,List.dropWhile_cons,h c List.mem_cons_self,
      ih fun d hd => h d (List.mem_cons_of_mem c hd)]

theorem mem_of_mem_trimBlanks {text : Text} {c : Char} (h : c ∈ trimBlanks text) : c ∈ text := by
  have hdropped := (List.dropWhile_sublist _).subset (List.mem_reverse.mp h)
  exact (List.dropWhile_sublist _).subset (List.mem_reverse.mp hdropped)

/-- On what the crate takes for text, the library's blanks are spaces and tabs. -/
theorem trim_eq_trimBlanks {text : Text} (h : ∀ c ∈ text, isTextChar c = true) : trim text = trimBlanks text := by
  have hstart : text.dropWhile isWhitespace = text.dropWhile isBlank :=
    dropWhile_congr fun c hc => isWhitespace_eq_isBlank (h c hc)
  unfold trim trimBlanks
  rw [hstart]
  congr 1
  apply dropWhile_congr
  intro c hc
  exact isWhitespace_eq_isBlank (h c ((List.dropWhile_sublist _).subset (List.mem_reverse.mp hc)))

theorem mem_of_cookiePair {part key value : Text} (h : cookiePair part = some (key,value)) {c : Char}
    (hc : c ∈ key ∨ c ∈ value) : c ∈ part := by
  obtain ⟨⟨k,v⟩,hsplit,heq⟩ := Option.map_eq_some_iff.mp h
  cases heq
  apply mem_of_mem_trimBlanks
  rw [splitOnce_eq_some hsplit]
  rcases hc with hkey | hvalue
  · exact List.mem_append_left _ (mem_of_mem_trimBlanks hkey)
  · exact List.mem_append_right _ (List.mem_cons_of_mem _ (mem_of_mem_trimBlanks hvalue))

theorem mem_of_mem_cookies {field key value : Text} (h : (key,value) ∈ cookies field) {c : Char}
    (hc : c ∈ key ∨ c ∈ value) : c ∈ field := by
  obtain ⟨part,hpart,hpair⟩ := List.mem_filterMap.mp h
  exact mem_of_mem_splitOn hpart (mem_of_cookiePair hpair hc)

theorem octets_of_isText {text : String} (h : ∀ c ∈ octets text, isTextChar c = true) :
    octets text = text.toList := by
  apply asBytes_injective
  rw [asBytes_of_ascii fun c hc => toNat_le_of_isTextChar (h c hc)]
  unfold octets latin1
  rw [List.map_map]
  conv_rhs => rw [← List.map_id (asBytes text.toList)]
  apply List.map_congr_left
  intro b _
  show UInt8.ofNat (Char.ofNat b.toNat).toNat = b
  rw [toNat_ofNat_byte,UInt8.ofNat_toNat]

theorem octets_of_ascii {text : String} (h : ∀ c ∈ text.toList, isTextChar c = true) :
    octets text = text.toList := by
  unfold octets latin1
  rw [asBytes_of_ascii fun c hc => toNat_le_of_isTextChar (h c hc),List.map_map]
  conv_rhs => rw [← List.map_id text.toList]
  apply List.map_congr_left
  intro c hc
  have hle := toNat_le_of_isTextChar (h c hc)
  show Char.ofNat (UInt8.ofNat c.toNat).toNat = c
  rw [UInt8.toNat_ofNat_of_lt' (hle.trans_lt (by decide)),Char.ofNat_toNat]

theorem cookiePair_of_isText {part : Text} (h : ∀ c ∈ part, isTextChar c = true) :
    cookiePair part = (splitOnce '=' (trim part)).map fun r => (trim r.1,trim r.2) := by
  unfold cookiePair
  rw [trim_eq_trimBlanks h]
  cases hsplit : splitOnce '=' (trimBlanks part) with
  | none => rfl
  | some r =>
    have hpart : ∀ c, c ∈ r.1 ∨ c ∈ r.2 → isTextChar c = true := by
      intro c hc
      apply h c
      apply mem_of_mem_trimBlanks
      rw [splitOnce_eq_some hsplit]
      rcases hc with hc | hc
      · exact List.mem_append_left _ hc
      · exact List.mem_append_right _ (List.mem_cons_of_mem _ hc)
    rw [Option.map_some,Option.map_some,trim_eq_trimBlanks fun c hc => hpart c (Or.inl hc),
      trim_eq_trimBlanks fun c hc => hpart c (Or.inr hc)]

theorem findSome?_parts {parts : List Text} (h : ∀ part ∈ parts, ∀ c ∈ part, isTextChar c = true)
    (name : String) :
    (parts.findSome? fun part =>
      match splitOnce '=' (trim part) with
      | some (k,v) => if trim k = name.toList then some (String.ofList (trim v)) else none
      | none => none) =
    ((parts.filterMap cookiePair).find? (·.1 = name.toList)).map fun r => String.ofList r.2 := by
  induction parts with
  | nil => rfl
  | cons part parts ih =>
    have hrest := ih fun q hq => h q (List.mem_cons_of_mem part hq)
    rw [List.findSome?_cons,List.filterMap_cons,cookiePair_of_isText (h part List.mem_cons_self)]
    cases splitOnce '=' (trim part) with
    | none => exact hrest
    | some r =>
      by_cases hkey : trim r.1 = name.toList
      · simp [hkey]
      · simpa [hkey] using hrest

section Reader

variable [HttpCrate]

/-- The proxy takes the first cookie of the name from the first field, if that is text. -/
theorem extractCookie_eq (hstr : ReadsText) (headers : HeaderMap) (name : String) :
    extractCookie headers name = ((headers.first COOKIE).filter fun value => value.bytes.all isTextByte).bind
      fun value => ((cookies (latin1 value.bytes)).find? (·.1 = name.toList)).map fun r => String.ofList r.2 := by
  unfold extractCookie
  cases headers.first COOKIE with
  | none => rfl
  | some value =>
    simp only [Option.bind_eq_bind,Option.bind_some,Option.filter_some,hstr value]
    by_cases htext : value.bytes.all isTextByte = true
    · rw [if_pos htext,if_pos htext,Option.bind_some,Option.bind_some]
      have hchars := isTextChar_of_mem_latin1 htext
      exact findSome?_parts (fun part hpart c hc => hchars c (mem_of_mem_splitOn hpart hc)) name
    · rw [if_neg htext,if_neg htext]
      rfl

/-- If one cookie of all the fields has the name, the proxy finds it exactly if it stands in the
first field, and that field is text. -/
theorem extractCookie_finds_iff (hstr : ReadsText) {headers : HeaderMap} {name address : String}
    (honce : (allCookies headers).filter (·.1 = octets name) = [(octets name,octets address)]) :
    extractCookie headers name = some address ↔ ∃ value, headers.first COOKIE = some value ∧
      value.bytes.all isTextByte = true ∧ (octets name,octets address) ∈ cookies (latin1 value.bytes) := by
  rw [extractCookie_eq hstr]
  constructor
  · intro h
    obtain ⟨value,hvalue,hfound⟩ := Option.bind_eq_some_iff.mp h
    obtain ⟨hfirst,htext⟩ := Option.filter_eq_some_iff.mp hvalue
    obtain ⟨⟨key,address'⟩,hpair,haddress⟩ := Option.map_eq_some_iff.mp hfound
    have hmem := List.mem_of_find?_eq_some hpair
    have hkey : key = name.toList := by simpa using List.find?_some hpair
    have haddress' : address' = address.toList := by rw [← haddress,String.toList_ofList]
    have hchars := isTextChar_of_mem_latin1 htext
    rw [hkey,haddress'] at hmem
    refine ⟨value,hfirst,htext,?_⟩
    rw [octets_of_ascii fun c hc => hchars c (mem_of_mem_cookies hmem (Or.inl hc)),
      octets_of_ascii fun c hc => hchars c (mem_of_mem_cookies hmem (Or.inr hc))]
    exact hmem
  · rintro ⟨value,hfirst,htext,hmem⟩
    have hchars := isTextChar_of_mem_latin1 htext
    have hname : octets name = name.toList :=
      octets_of_isText fun c hc => hchars c (mem_of_mem_cookies hmem (Or.inl hc))
    have haddress : octets address = address.toList :=
      octets_of_isText fun c hc => hchars c (mem_of_mem_cookies hmem (Or.inr hc))
    -- no other cookie of the first field has the name
    have honly : ∀ r ∈ cookies (latin1 value.bytes), r.1 = name.toList → r = (name.toList,address.toList) := by
      intro r hr hkey
      have hall : r ∈ (allCookies headers).filter (·.1 = octets name) := by
        rw [List.mem_filter,hname]
        exact ⟨List.mem_flatMap.mpr ⟨value,List.mem_of_head? hfirst,hr⟩,by simpa using hkey⟩
      rwa [honce,List.mem_singleton,hname,haddress] at hall
    rw [hfirst,Option.filter_some,if_pos htext,Option.bind_some]
    cases hfind : (cookies (latin1 value.bytes)).find? (·.1 = name.toList) with
    | none =>
      have hnone := List.find?_eq_none.mp hfind _ hmem
      simp [hname] at hnone
    | some r =>
      have hr := honly r (List.mem_of_find?_eq_some hfind) (by simpa using List.find?_some hfind)
      rw [hr,Option.map_some,String.ofList_toList]

end Reader

@[reducible] def textCrate : HttpCrate :=
  { visibleAscii with
    toStr := fun value => if value.bytes.all isTextByte then some (latin1 value.bytes) else none }

def cookieField (text : String) : HeaderName × HeaderValue := (COOKIE,⟨asBytes text.toList⟩)

/-- The cookie is missed in a second field, and beside a cookie that is not ASCII. -/
theorem cookie_missed :
    let name := "OXIGATE"
    let address := "http://a"
    let split := [cookieField "theme=dark",cookieField "OXIGATE=http://a"]
    let beside := [cookieField "town=Köln; OXIGATE=http://a"]
    ((allCookies split).filter (·.1 = octets name) = [(octets name,octets address)] ∧
      @extractCookie textCrate split name = none) ∧
    (allCookies beside).filter (·.1 = octets name) = [(octets name,octets address)] ∧
      @extractCookie textCrate beside name = none := by
  decide +kernel

theorem extractCookie_finds_iff_first :
    let headers : HeaderMap := [cookieField "theme=dark; OXIGATE=http://a",cookieField "town=Köln"]
    let value : HeaderValue := ⟨asBytes "theme=dark; OXIGATE=http://a".toList⟩
    @extractCookie textCrate headers "OXIGATE" = some "http://a" ∧ headers.first COOKIE = some value ∧
      value.bytes.all isTextByte = true := by
  intro headers value
  have hfirst : headers.first COOKIE = some value := by decide +kernel
  have htext : value.bytes.all isTextByte = true := by decide +kernel
  exact ⟨(@extractCookie_finds_iff textCrate (fun _ => rfl) headers "OXIGATE" "http://a"
    (by decide +kernel)).mpr ⟨value,hfirst,htext,by decide +kernel⟩,hfirst,htext⟩

end Proxy
end OxiGate
