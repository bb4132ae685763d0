import OxiGate.Multimap
import OxiGate.RustText

/-! Messages as the `http` crate represents them. Names are kept in lower case.
What the crate itself decides, which texts are names, values or URIs and where a
header map puts a field, is a parameter. -/
namespace OxiGate
namespace Http

open RustText

structure HeaderName where
  asStr : String
  deriving DecidableEq, Repr

structure HeaderValue where
  bytes : List UInt8
  deriving DecidableEq, Repr

/-- The fields a map yields when it is iterated. -/
abbrev HeaderMap := Multimap HeaderName HeaderValue

structure Uri where
  scheme : Option String
  authority : Option String
  path : String
  query : Option String
  deriving DecidableEq, Repr

inductive Version
  | http09 | http10 | http11 | http2 | http3
  deriving DecidableEq, Repr

/-- A name that the crate accepts as it stands, apart from its case. -/
def isPlainName (name : String) : Bool :=
  name.toList ≠ [] && decide (name.toList.length < 65536) &&
    name.toList.all fun c => c.isAlphanum || c = '-'

/-- The checks and the header map of the `http` crate, and what is assumed of them:
names are normalised to lower case, a value holds the bytes of the text it was made
from, `append` adds a value to those of its name, and `insert` replaces them. Where a
map puts a field among those of other names is left open. -/
class HttpCrate where
  headerName : String → Except String HeaderName
  headerValue : Text → Except String HeaderValue
  toStr : HeaderValue → Option Text
  parseUri : Text → Except String Uri
  append : HeaderMap → HeaderName → HeaderValue → HeaderMap
  insert : HeaderMap → HeaderName → HeaderValue → HeaderMap
  headerName_plain : ∀ name, isPlainName name = true →
    headerName name = .ok ⟨String.ofList (toAsciiLowercase name.toList)⟩
  headerValue_bytes : ∀ text value, headerValue text = .ok value → value = ⟨asBytes text⟩
  values_append : ∀ headers name value other,
    (append headers name value).values other = headers.values other++if name = other then [value] else []
  values_insert : ∀ headers name value other,
    (insert headers name value).values other = if name = other then [value] else headers.values other

def CONNECTION : HeaderName := ⟨"connection"⟩
def COOKIE : HeaderName := ⟨"cookie"⟩
def HOST : HeaderName := ⟨"host"⟩
def SET_COOKIE : HeaderName := ⟨"set-cookie"⟩
def UPGRADE : HeaderName := ⟨"upgrade"⟩

/-- The header part of a message builder; after a failure it stays failed. -/
abbrev Builder := Except String HeaderMap

section Fields

variable [HttpCrate]

def Builder.header (b : Builder) (name : Except String HeaderName)
    (value : Except String HeaderValue) : Builder := do
  let headers ← b
  let name ← name
  let value ← value
  pure (HttpCrate.append headers name value)

theorem Builder.header_ok {b : Builder} {name : Except String HeaderName}
    {value : Except String HeaderValue} {headers : HeaderMap} (h : b.header name value = .ok headers) :
    ∃ before n v, b = .ok before ∧ name = .ok n ∧ value = .ok v ∧ headers = HttpCrate.append before n v := by
  cases b with
  | error e => cases h
  | ok before =>
    cases name with
    | error e => cases h
    | ok n =>
      cases value with
      | error e => cases h
      | ok v =>
        refine ⟨before,n,v,rfl,rfl,rfl,?_⟩
        cases h
        rfl

theorem values_append_ne (headers : HeaderMap) {name other : HeaderName} (value : HeaderValue) (h : name ≠ other) :
    (HttpCrate.append headers name value).values other = headers.values other := by
  rw [HttpCrate.values_append,if_neg h,List.append_nil]

def appendAll (headers fields : HeaderMap) : HeaderMap :=
  fields.foldl (fun headers field => HttpCrate.append headers field.1 field.2) headers

def ofFields (fields : HeaderMap) : HeaderMap := appendAll [] fields

theorem appendAll_concat (headers fields fields' : HeaderMap) :
    appendAll headers (fields++fields') = appendAll (appendAll headers fields) fields' := List.foldl_append

theorem values_appendAll (headers fields : HeaderMap) (name : HeaderName) :
    (appendAll headers fields).values name = headers.values name++fields.values name := by
  induction fields generalizing headers with
  | nil => simp [appendAll,Multimap.values]
  | cons field fields ih =>
    have hrest := ih (HttpCrate.append headers field.1 field.2)
    rw [HttpCrate.values_append] at hrest
    rw [Multimap.values_cons]
    refine hrest.trans ?_
    by_cases hname : field.1 = name
    · simp [hname]
    · simp [hname]

theorem values_ofFields (fields : HeaderMap) (name : HeaderName) :
    (ofFields fields).values name = fields.values name := values_appendAll [] fields name

end Fields

def isVisible (c : Char) : Bool := decide (32 ≤ c.toNat) && decide (c.toNat < 127)

/-- Scheme, authority, path and query, without any check of their characters. -/
def splitUri (text : Text) : Except String Uri :=
  match text.dropWhile (· ≠ ':') with
  | ':' :: '/' :: '/' :: rest =>
    let target := rest.dropWhile fun c => c ≠ '/' && c ≠ '?'
    let path := target.takeWhile (· ≠ '?')
    .ok {
      scheme := some (String.ofList (text.takeWhile (· ≠ ':')))
      authority := some (String.ofList (rest.takeWhile fun c => c ≠ '/' && c ≠ '?'))
      path := String.ofList (if path = [] then ['/'] else path)
      query := (splitOnce '?' target).map fun r => String.ofList r.2 }
  | _ => .error "invalid uri"

/-- A crate that meets the assumptions, to run the model with. -/
@[reducible] def visibleAscii : HttpCrate where
  headerName name :=
    if isPlainName name then .ok ⟨String.ofList (toAsciiLowercase name.toList)⟩
    else .error "invalid HTTP header name"
  headerValue text :=
    if text.all isVisible then .ok ⟨asBytes text⟩ else .error "failed to parse header value"
  toStr value := (fromUtf8 value.bytes).filter (·.all isVisible)
  parseUri := splitUri
  append := Multimap.append
  insert := Multimap.insert
  headerName_plain name h := if_pos h
  headerValue_bytes text value h := by
    split at h
    · cases h
      rfl
    · cases h
  values_append := Multimap.values_append
  values_insert := Multimap.values_insert

end Http
end OxiGate
