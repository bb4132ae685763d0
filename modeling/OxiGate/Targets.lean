import OxiGate.Handler
import OxiGate.Validator

/-! Where a request goes: the target is put together as text and read again, and the host is read
from the upstream's address by other means. -/
namespace OxiGate
namespace Proxy

open RustText Http Lb

def inPath (c : Char) : Bool := c ≠ '?' && c ≠ '#'

def inAuthority (c : Char) : Bool := c ≠ '/' && inPath c

/-- A text with its scheme, its authority and what follows it. -/
structure Splits (text scheme authority tail : Text) : Prop where
  text : text = scheme++"://".toList++(authority++tail)
  scheme : ':' ∉ scheme
  nonempty : authority ≠ []
  authority : ∀ c ∈ authority, inAuthority c = true
  tail : ∀ c, tail.head? = some c → inAuthority c = false

def orSlash (path : Text) : Text := if path = [] then ['/'] else path

def queryText (tail : Text) : Option Text := (splitOnce '?' (tail.takeWhile (· ≠ '#'))).map Prod.snd

def schemes : List String := ["http","https"]

/-- `http::Uri` as documented, for the two schemes: the scheme in any case, the authority up to the
first `/`, `?` or `#`, the path up to `?` or `#`, and no fragment. -/
structure ReadsUri [HttpCrate] : Prop where
  splits : ∀ text uri, HttpCrate.parseUri text = .ok uri → ∀ scheme ∈ schemes, uri.scheme = some scheme →
    ∃ s a t, toAsciiLowercase s = scheme.toList ∧ Splits text s a t
  reads : ∀ text uri, HttpCrate.parseUri text = .ok uri → ∀ scheme ∈ schemes, ∀ s a t,
    toAsciiLowercase s = scheme.toList → Splits text s a t →
    uri = ⟨some scheme,some (String.ofList a),String.ofList (orSlash (t.takeWhile inPath)),
      (queryText t).map String.ofList⟩

theorem takeWhile_scheme {scheme : Text} (h : ':' ∉ scheme) (rest : Text) :
    (scheme++"://".toList++rest).takeWhile (· ≠ ':') = scheme := by
  rw [List.append_assoc]
  exact takeWhile_ne_stop h ("//".toList++rest)

theorem Splits.scheme_eq {text s a t scheme rest : Text} (h : Splits text s a t) (hcolon : ':' ∉ scheme)
    (heq : text = scheme++"://".toList++rest) : s = scheme ∧ rest = a++t := by
  have hs : s = scheme := by rw [← takeWhile_scheme h.scheme (a++t),← h.text,heq,takeWhile_scheme hcolon]
  subst hs
  exact ⟨rfl,List.append_cancel_left (heq.symm.trans h.text)⟩

theorem Splits.head_tail {text s a t : Text} (h : Splits text s a t) {c : Char} (hc : t.head? = some c)
    (hin : inPath c = true) : c = '/' := by
  have hstop := h.tail c hc
  rw [inAuthority,hin,Bool.and_true] at hstop
  simpa using hstop

theorem Splits.unique {text s a t s' a' t' : Text} (h : Splits text s a t) (h' : Splits text s' a' t') :
    s' = s ∧ a' = a ∧ t' = t := by
  obtain ⟨rfl,hrest⟩ := h.scheme_eq h'.scheme h'.text
  have ha : a' = a := by
    rw [← takeWhile_append_stop h'.authority h'.tail,hrest,takeWhile_append_stop h.authority h.tail]
  subst ha
  exact ⟨rfl,rfl,List.append_cancel_left hrest⟩

def requestPath (path : String) : Text := if path.toList.isEmpty then ['/'] else path.toList

def queryPart (query : Option String) : Text := query.elim [] fun q => '?'::q.toList

theorem targetText_eq (base path : String) (query : Option String) :
    targetText base path query = trimEndMatches '/' base.toList++(requestPath path++queryPart query) := by
  cases query <;> simp [targetText,requestPath,queryPart]

/-- The paths the server hands over. -/
def DeliverablePath (path : String) : Prop :=
  path = "" ∨ path = "*" ∨ path.toList.head? = some '/' ∧ ∀ c ∈ path.toList, inPath c = true

theorem DeliverablePath.requestPath {path : String} (h : DeliverablePath path) :
    (path = "*" ∨ (requestPath path).head? = some '/') ∧ ∀ c ∈ requestPath path, inPath c = true := by
  rcases h with rfl | rfl | ⟨hhead,hall⟩
  · exact ⟨Or.inr rfl,List.all_eq_true.mp rfl⟩
  · exact ⟨Or.inl rfl,List.all_eq_true.mp rfl⟩
  · have hpath : Proxy.requestPath path = path.toList := by
      unfold Proxy.requestPath
      rw [if_neg]
      intro hnil
      rw [List.isEmpty_iff.mp hnil] at hhead
      cases hhead
    rw [hpath]
    exact ⟨Or.inr hhead,hall⟩

theorem requestPath_ne_nil (path : String) : requestPath path ≠ [] := by
  unfold requestPath
  split
  · simp
  · rename_i h
    simpa using h

theorem head?_queryPart {query : Option String} {c : Char} (h : (queryPart query).head? = some c) : c = '?' := by
  cases query with
  | none => cases h
  | some q =>
    cases h
    rfl

/-- The slashes cut off an address all follow its authority. -/
theorem Splits.trim {text s a t : Text} (h : Splits text s a t) :
    trimEndMatches '/' text = s++"://".toList++(a++trimEndMatches '/' t) := by
  have hlast : ∀ d, (s++"://".toList++a).getLast? = some d → d ≠ '/' := by
    intro d hd
    rw [List.getLast?_append_of_ne_nil _ h.nonempty] at hd
    rintro rfl
    exact absurd (h.authority _ (List.mem_of_getLast? hd)) (by decide)
  rw [h.text,← List.append_assoc,trimEndMatches_append hlast (by simp),List.append_assoc]

theorem Splits.target {address path : String} {query : Option String} {s a t : Text}
    (h : Splits address.toList s a t) (hpath : DeliverablePath path)
    (hstar : path = "*" → trimEndMatches '/' t ≠ []) :
    Splits (targetText address path query) s a (trimEndMatches '/' t++(requestPath path++queryPart query)) where
  text := by
    rw [targetText_eq,h.trim]
    simp only [List.append_assoc]
  scheme := h.scheme
  nonempty := h.nonempty
  authority := h.authority
  tail := by
    intro c hc
    cases htrim : trimEndMatches '/' t with
    | nil =>
      rw [htrim,List.nil_append,List.head?_append_of_ne_nil _ (requestPath_ne_nil path)] at hc
      rcases hpath.requestPath.1 with hp | hp
      · exact absurd htrim (hstar hp)
      · rw [hp] at hc
        cases hc
        rfl
    | cons d ds =>
      obtain ⟨more,hmore⟩ := trimEndMatches_isPrefix '/' t
      rw [htrim] at hc hmore
      rw [List.cons_append,List.head?_cons] at hc
      apply h.tail
      rw [← hmore,List.cons_append,List.head?_cons,hc]

theorem Splits.target_star {address : String} {query : Option String} {s a t : Text}
    (h : Splits address.toList s a t) (hnil : trimEndMatches '/' t = []) :
    Splits (targetText address "*" query) s (a++['*']) (queryPart query) where
  text := by
    rw [targetText_eq,h.trim,hnil]
    simp [requestPath]
  scheme := h.scheme
  nonempty := by simp
  authority := by
    intro c hc
    rcases List.mem_append.mp hc with hc | hc
    · exact h.authority c hc
    · rw [List.mem_singleton.mp hc]
      rfl
  tail := by
    intro c hc
    rw [head?_queryPart hc]
    rfl

theorem Splits.stripPrefix {text s a t scheme : Text} (h : Splits text s a t) (hcolon : ':' ∉ scheme) :
    RustText.stripPrefix (scheme++"://".toList) text = if s = scheme then some (a++t) else none := by
  by_cases hs : s = scheme
  · rw [if_pos hs,stripPrefix_eq_some,← hs]
    exact h.text
  · rw [if_neg hs,Option.eq_none_iff_forall_ne_some]
    intro rest hrest
    exact hs (h.scheme_eq hcolon (stripPrefix_eq_some.mp hrest)).1

/-- The host is found if the scheme is in lower case, and reaches to the next slash. -/
theorem Splits.extractHost {address : String} {s a t : Text} (h : Splits address.toList s a t) :
    Proxy.extractHost address =
      if s = "http".toList ∨ s = "https".toList then some (a++t.takeWhile (· ≠ '/')) else none := by
  have hhost : (a++t).takeWhile (· ≠ '/') = a++t.takeWhile (· ≠ '/') := by
    apply List.takeWhile_append_of_pos
    intro c hc
    have hin := h.authority c hc
    simp only [inAuthority,Bool.and_eq_true] at hin
    exact hin.1
  have hcolon : ':' ∉ "http".toList ∧ ':' ∉ "https".toList := by decide
  have hhttp : RustText.stripPrefix "http://".toList address.toList =
      if s = "http".toList then some (a++t) else none := h.stripPrefix hcolon.1
  have hhttps : RustText.stripPrefix "https://".toList address.toList =
      if s = "https".toList then some (a++t) else none := h.stripPrefix hcolon.2
  unfold Proxy.extractHost
  rw [hhttp,hhttps]
  by_cases h1 : s = "http".toList
  · rw [if_pos h1,if_pos (Or.inl h1),← hhost]
    rfl
  · by_cases h2 : s = "https".toList
    · rw [if_neg h1,if_pos h2,if_pos (Or.inr h2),← hhost]
      rfl
    · rw [if_neg h1,if_neg h2,if_neg (not_or.mpr ⟨h1,h2⟩)]
      rfl

theorem trimEndMatches_orSlash (path : Text) : trimEndMatches '/' (orSlash path) = trimEndMatches '/' path := by
  unfold orSlash
  split
  · rename_i h
    rw [h]
    rfl
  · rfl

theorem queryText_append {l : Text} (h : ∀ c ∈ l, inPath c = true) (r : Text) :
    queryText (l++r) = queryText r := by
  induction l with
  | nil => rfl
  | cons c l ih =>
    have hc := h c List.mem_cons_self
    simp only [inPath,Bool.and_eq_true,decide_eq_true_eq] at hc
    have hrest := ih fun d hd => h d (List.mem_cons_of_mem c hd)
    unfold queryText at hrest ⊢
    rw [← hrest,List.cons_append,List.takeWhile_cons_of_pos (by simpa using hc.2),splitOnce,if_neg hc.1,
      Option.map_map]
    rfl

theorem queryText_question (rest : Text) : queryText ('?'::rest) = some (rest.takeWhile (· ≠ '#')) := by
  simp [queryText,splitOnce]

theorem queryText_hash (rest : Text) : queryText ('#'::rest) = none := by
  simp [queryText,splitOnce]

theorem queryText_queryPart (query : Option String) :
    queryText (queryPart query) = query.map fun q => q.toList.takeWhile (· ≠ '#') := by
  cases query with
  | none => rfl
  | some q => exact queryText_question q.toList

theorem queryText_queryPart_iff {query : Option String} :
    (queryText (queryPart query)).map String.ofList = query ↔ ∀ q, query = some q → '#' ∉ q.toList := by
  rw [queryText_queryPart]
  cases query with
  | none => simp
  | some q =>
    simp only [Option.map_some,Option.some.injEq,forall_eq']
    rw [← String.toList_inj,String.toList_ofList,List.takeWhile_eq_self_iff,forall_ne_iff]

theorem forall_inPath_iff {t : Text} : (∀ c ∈ t, inPath c = true) ↔ '?' ∉ t ∧ '#' ∉ t := by
  rw [← forall_ne_iff,← forall_ne_iff,← forall₂_and]
  simp only [inPath,Bool.and_eq_true]

theorem takeWhile_inPath_cut {u : Text} {d : Char} (hu : ∀ c ∈ u, inPath c = true) (hd : d = '?' ∨ d = '#')
    (v : Text) : (u++d::v).takeWhile inPath = u := by
  apply takeWhile_append_stop hu
  intro c hc
  cases hc
  rcases hd with rfl | rfl <;> rfl

theorem tail_cases (t : Text) : (∀ c ∈ t, inPath c = true) ∨
    ∃ u d v, t = u++d::v ∧ (∀ c ∈ u, inPath c = true) ∧ (d = '?' ∨ d = '#') := by
  cases hrest : t.dropWhile inPath with
  | nil =>
    left
    exact List.dropWhile_eq_nil_iff.mp hrest
  | cons d v =>
    right
    refine ⟨t.takeWhile inPath,d,v,?_,fun c hc => List.mem_takeWhile_imp hc,?_⟩
    · rw [← hrest,List.takeWhile_append_dropWhile]
    · have hd : inPath d = false := head?_dropWhile_not (by rw [hrest]; rfl)
      simp only [inPath,Bool.and_eq_false_iff,decide_eq_false_iff_not,not_not] at hd
      exact hd

/-- The target is the upstream's scheme and authority, its path without the last slashes followed
by the request's, and the request's query; the host sent along is the target's. An empty request
path is `/`. -/
structure Faithful (address path : String) (query : Option String) (up target : Uri) : Prop where
  scheme : target.scheme = up.scheme
  authority : target.authority = up.authority
  path : target.path.toList = trimEndMatches '/' up.path.toList++requestPath path
  query : target.query = query
  host : (extractHost address).map String.ofList = target.authority

/-- An address that ends before any query or fragment, and a request that adds neither a fragment nor
an asterisk to a bare authority. -/
structure PlainJoin (address path : String) (query : Option String) (up : Uri) : Prop where
  question : '?' ∉ address.toList
  fragment : '#' ∉ address.toList
  star : path = "*" → trimEndMatches '/' up.path.toList ≠ []
  requestQuery : ∀ q, query = some q → '#' ∉ q.toList

/-- An address with a fragment, which swallows the request: it was made for the address as it is. -/
def Swallowed (address path : String) (query : Option String) : Prop :=
  ∃ s a t, Splits address.toList s a t ∧ '#' ∈ t ∧
    t.takeWhile inPath = trimEndMatches '/' (t.takeWhile inPath)++requestPath path ∧
    query = (queryText t).map String.ofList

def LowerScheme (address : String) : Prop :=
  "http://".toList <+: address.toList ∨ "https://".toList <+: address.toList

theorem Splits.lowerScheme_iff {address : String} {s a t : Text} (h : Splits address.toList s a t) :
    LowerScheme address ↔ s = "http".toList ∨ s = "https".toList := by
  have hone : ∀ scheme : Text, ':' ∉ scheme → (scheme++"://".toList <+: address.toList ↔ s = scheme) := by
    intro scheme hcolon
    constructor
    · rintro ⟨rest,hrest⟩
      exact (h.scheme_eq hcolon hrest.symm).1
    · rintro rfl
      exact ⟨a++t,h.text.symm⟩
  exact or_congr (hone "http".toList (by decide)) (hone "https".toList (by decide))

theorem not_mem_scheme {scheme : String} (hscheme : scheme ∈ schemes) {s : Text}
    (h : toAsciiLowercase s = scheme.toList) {c : Char} (hc : c = '?' ∨ c = '#') : c ∉ s := by
  intro hmem
  have hlower : c.toLower ∈ scheme.toList := by
    rw [← h]
    exact List.mem_map_of_mem hmem
  simp only [schemes,List.mem_cons,List.not_mem_nil,or_false] at hscheme
  rcases hc with rfl | rfl <;> rcases hscheme with rfl | rfl <;> revert hlower <;> decide

theorem Splits.mem_iff {text s a t : Text} (h : Splits text s a t) {c : Char} (hs : c ∉ s)
    (hc : c = '?' ∨ c = '#') : c ∈ text ↔ c ∈ t := by
  have ha : c ∉ a := by
    intro hmem
    have hin := h.authority c hmem
    rcases hc with rfl | rfl <;> revert hin <;> decide
  have hsep : c ∉ "://".toList := by rcases hc with rfl | rfl <;> decide
  rw [h.text]
  simp only [List.mem_append,hs,ha,hsep,false_or]

theorem takeWhile_slash_eq_nil {t : Text} :
    t.takeWhile (· ≠ '/') = [] ↔ ∀ c, t.head? = some c → c = '/' := by
  cases t with
  | nil => simp
  | cons c cs => by_cases h : c = '/' <;> simp [h]

def uriOf (scheme : String) (a t : Text) : Uri :=
  ⟨some scheme,some (String.ofList a),String.ofList (orSlash (t.takeWhile inPath)),
    (queryText t).map String.ofList⟩

theorem Splits.faithful_iff {address path scheme : String} {query : Option String} {s a t tail : Text}
    (h : Splits address.toList s a t) :
    Faithful address path query (uriOf scheme a t) (uriOf scheme a tail) ↔
      (LowerScheme address ∧ ∀ c, t.head? = some c → c = '/') ∧
      orSlash (tail.takeWhile inPath) = trimEndMatches '/' (t.takeWhile inPath)++requestPath path ∧
      (queryText tail).map String.ofList = query := by
  have hhost : (Proxy.extractHost address).map String.ofList = some (String.ofList a) ↔
      LowerScheme address ∧ ∀ c, t.head? = some c → c = '/' := by
    rw [h.extractHost,h.lowerScheme_iff,← takeWhile_slash_eq_nil]
    by_cases hs : s = "http".toList ∨ s = "https".toList
    · rw [if_pos hs,Option.map_some,Option.some.injEq,String.ofList_inj,List.append_right_eq_self]
      exact (and_iff_right hs).symm
    · rw [if_neg hs]
      exact iff_of_false (by simp) fun hboth => hs hboth.1
  constructor
  · rintro ⟨-,-,hpath,hquery,hh⟩
    simp only [uriOf,String.toList_ofList,trimEndMatches_orSlash] at hpath
    exact ⟨hhost.mp hh,hpath,hquery⟩
  · rintro ⟨hh,hpath,hquery⟩
    refine ⟨rfl,rfl,?_,hquery,hhost.mpr hh⟩
    simpa only [uriOf,String.toList_ofList,trimEndMatches_orSlash] using hpath

section Join

variable {address path : String} {query : Option String} {s a t : Text}

theorem Splits.join_plain {scheme : String} (h : Splits address.toList s a t) (hpath : DeliverablePath path)
    (ht : ∀ c ∈ t, inPath c = true) :
    Faithful address path query (uriOf scheme a t)
      (uriOf scheme a (trimEndMatches '/' t++(requestPath path++queryPart query))) ↔
      LowerScheme address ∧ ∀ q, query = some q → '#' ∉ q.toList := by
  have hfront : ∀ c ∈ trimEndMatches '/' t++requestPath path, inPath c = true := by
    intro c hc
    rcases List.mem_append.mp hc with hc | hc
    · exact ht c ((trimEndMatches_isPrefix '/' t).subset hc)
    · exact hpath.requestPath.2 c hc
  have hslash : ∀ c, t.head? = some c → c = '/' := by
    intro c hc
    exact h.head_tail hc (ht c (List.mem_of_head? hc))
  have htake : t.takeWhile inPath = t := List.takeWhile_eq_self_iff.mpr ht
  have hread : (trimEndMatches '/' t++requestPath path++queryPart query).takeWhile inPath =
      trimEndMatches '/' t++requestPath path := by
    apply takeWhile_append_stop hfront
    intro c hc
    rw [head?_queryPart hc]
    rfl
  rw [h.faithful_iff,← List.append_assoc,hread,htake,queryText_append hfront,
    queryText_queryPart_iff]
  have hne : trimEndMatches '/' t++requestPath path ≠ [] := by simp [requestPath_ne_nil]
  rw [orSlash,if_neg hne]
  constructor
  · rintro ⟨⟨hlower,-⟩,-,hq⟩
    exact ⟨hlower,hq⟩
  · rintro ⟨hlower,hq⟩
    exact ⟨⟨hlower,hslash⟩,rfl,hq⟩

theorem queryText_hash_mem {d : Char} {v rest : Text} (hd : d = '?' ∨ d = '#') (h : '#' ∈ d::v) :
    queryText (d::(trimEndMatches '/' v++rest)) = queryText (d::v) := by
  rcases hd with rfl | rfl
  · obtain ⟨v₁,v₂,rfl,hv₁⟩ : ∃ v₁ v₂, v = v₁++ '#'::v₂ ∧ '#' ∉ v₁ := by
      apply List.eq_append_cons_of_mem
      simpa using h
    rw [trimEndMatches_cut (by decide),queryText_question,queryText_question,List.append_assoc,
      List.cons_append,takeWhile_ne_stop hv₁,takeWhile_ne_stop hv₁]
  · rw [queryText_hash,queryText_hash]

/-- A query of the address and the request after it are no request's query. -/
theorem queryText_ne {v : Text} (hpath : DeliverablePath path) (h : '#' ∉ v) :
    (queryText ('?'::(trimEndMatches '/' v++(requestPath path++queryPart query)))).map String.ofList ≠ query := by
  have hfront : ∀ c ∈ trimEndMatches '/' v++requestPath path, decide (c ≠ '#') = true := by
    rw [forall_ne_iff,List.mem_append,not_or]
    exact ⟨fun hc => h ((trimEndMatches_isPrefix '/' v).subset hc),(forall_inPath_iff.mp hpath.requestPath.2).2⟩
  rw [queryText_question,← List.append_assoc,List.takeWhile_append_of_pos hfront]
  cases query with
  | none => simp
  | some q =>
    intro heq
    have hq : trimEndMatches '/' v++requestPath path++('?'::q.toList).takeWhile (· ≠ '#') = q.toList := by
      simpa [queryPart,← String.toList_inj] using heq
    -- so the request's query has no fragment, and is longer than itself
    have hno : q.toList.takeWhile (· ≠ '#') = q.toList := by
      rw [List.takeWhile_eq_self_iff,← hq]
      intro c hc
      rcases List.mem_append.mp hc with hc | hc
      · exact hfront c hc
      · have hin := List.mem_takeWhile_imp (p := fun d => decide (d ≠ '#')) hc
        exact hin
    rw [List.takeWhile_cons_of_pos (by decide),hno] at hq
    have hlength := congrArg List.length hq
    simp only [List.length_append,List.length_cons] at hlength
    omega

theorem Splits.join_cut {scheme : String} {u v : Text} {d : Char} (h : Splits address.toList s a (u++d::v))
    (hpath : DeliverablePath path) (hu : ∀ c ∈ u, inPath c = true) (hd : d = '?' ∨ d = '#') :
    Faithful address path query (uriOf scheme a (u++d::v))
      (uriOf scheme a (trimEndMatches '/' (u++d::v)++(requestPath path++queryPart query))) ↔
      LowerScheme address ∧ '#' ∈ d::v ∧ u = trimEndMatches '/' u++requestPath path ∧
        query = (queryText (d::v)).map String.ofList := by
  have hslash : d ≠ '/' := by rcases hd with rfl | rfl <;> decide
  rw [h.faithful_iff,trimEndMatches_cut hslash,List.append_assoc,List.cons_append,takeWhile_inPath_cut hu hd,
    takeWhile_inPath_cut hu hd,queryText_append hu]
  cases u with
  | nil =>
    -- the host is read past the authority
    refine iff_of_false ?_ ?_
    · rintro ⟨⟨-,hhead⟩,-⟩
      exact hslash (hhead d rfl)
    · rintro ⟨-,-,hpath,-⟩
      exact requestPath_ne_nil path (List.append_eq_nil_iff.mp hpath.symm).2
  | cons c u =>
    have hhead : ∀ e, ((c::u)++d::v).head? = some e → e = '/' := by
      intro e he
      have hin : inPath e = true := by
        cases he
        exact hu c List.mem_cons_self
      exact h.head_tail he hin
    rw [orSlash,if_neg (List.cons_ne_nil c u)]
    by_cases hhash : '#' ∈ d::v
    · rw [queryText_hash_mem hd hhash]
      constructor
      · rintro ⟨⟨hlower,-⟩,hpath,hquery⟩
        exact ⟨hlower,hhash,hpath,hquery.symm⟩
      · rintro ⟨hlower,-,hpath,hquery⟩
        exact ⟨⟨hlower,hhead⟩,hpath,hquery.symm⟩
    · refine iff_of_false ?_ fun hr => hhash hr.2.1
      rintro ⟨-,-,hquery⟩
      have hd' : d = '?' := hd.resolve_right fun heq => hhash (heq ▸ List.mem_cons_self)
      subst hd'
      exact queryText_ne hpath (fun hmem => hhash (List.mem_cons_of_mem _ hmem)) hquery

theorem Splits.swallowed_iff (h : Splits address.toList s a t) :
    Swallowed address path query ↔ '#' ∈ t ∧
      t.takeWhile inPath = trimEndMatches '/' (t.takeWhile inPath)++requestPath path ∧
      query = (queryText t).map String.ofList := by
  constructor
  · rintro ⟨s',a',t',h',hrest⟩
    obtain ⟨-,-,rfl⟩ := h.unique h'
    exact hrest
  · intro hrest
    exact ⟨s,a,t,h,hrest⟩

theorem Splits.plainJoin_iff {scheme : String} (h : Splits address.toList s a t) (hs : '?' ∉ s ∧ '#' ∉ s) :
    PlainJoin address path query (uriOf scheme a t) ↔ (∀ c ∈ t, inPath c = true) ∧
      (path = "*" → trimEndMatches '/' t ≠ []) ∧ ∀ q, query = some q → '#' ∉ q.toList := by
  have hquestion := h.mem_iff hs.1 (Or.inl rfl)
  have hhash := h.mem_iff hs.2 (Or.inr rfl)
  have hbase : (∀ c ∈ t, inPath c = true) →
      trimEndMatches '/' (uriOf scheme a t).path.toList = trimEndMatches '/' t := by
    intro ht
    rw [uriOf,String.toList_ofList,trimEndMatches_orSlash,List.takeWhile_eq_self_iff.mpr ht]
  constructor
  · rintro ⟨hnoQuestion,hnoHash,hstar,hq⟩
    have ht := forall_inPath_iff.mpr ⟨mt hquestion.mpr hnoQuestion,mt hhash.mpr hnoHash⟩
    rw [hbase ht] at hstar
    exact ⟨ht,hstar,hq⟩
  · rintro ⟨ht,hstar,hq⟩
    rw [← hbase ht] at hstar
    obtain ⟨hnoQuestion,hnoHash⟩ := forall_inPath_iff.mp ht
    exact ⟨mt hquestion.mp hnoQuestion,mt hhash.mp hnoHash,hstar,hq⟩

theorem Splits.join_iff {scheme : String} (h : Splits address.toList s a t) (hs : '?' ∉ s ∧ '#' ∉ s)
    (hpath : DeliverablePath path) (hstar : path = "*" → trimEndMatches '/' t ≠ []) :
    Faithful address path query (uriOf scheme a t)
      (uriOf scheme a (trimEndMatches '/' t++(requestPath path++queryPart query))) ↔
      LowerScheme address ∧ (PlainJoin address path query (uriOf scheme a t) ∨ Swallowed address path query) := by
  rw [h.plainJoin_iff hs,h.swallowed_iff]
  rcases tail_cases t with ht | ⟨u,d,v,rfl,hu,hd⟩
  · rw [h.join_plain hpath ht]
    refine and_congr_right fun _ => ?_
    constructor
    · intro hq
      exact Or.inl ⟨ht,hstar,hq⟩
    · rintro (⟨-,-,hq⟩ | ⟨hmark,-⟩)
      · exact hq
      · exact absurd hmark (forall_inPath_iff.mp ht).2
  · have hmarks : '#' ∈ u++d::v ↔ '#' ∈ d::v := by
      rw [List.mem_append]
      exact or_iff_right (forall_inPath_iff.mp hu).2
    rw [h.join_cut hpath hu hd,takeWhile_inPath_cut hu hd,hmarks,queryText_append hu]
    refine and_congr_right fun _ => ?_
    constructor
    · exact Or.inr
    · rintro (⟨hall,-⟩ | hr)
      · have hin := hall d (List.mem_append_right u List.mem_cons_self)
        rcases hd with rfl | rfl <;> cases hin
      · exact hr

/-- The asterisk becomes part of the authority. -/
theorem Splits.join_star {scheme : String} (h : Splits address.toList s a t) (hs : '?' ∉ s ∧ '#' ∉ s)
    (hnil : trimEndMatches '/' t = []) :
    Faithful address "*" query (uriOf scheme a t) (uriOf scheme (a++['*']) (queryPart query)) ↔
      LowerScheme address ∧ (PlainJoin address "*" query (uriOf scheme a t) ∨ Swallowed address "*" query) := by
  refine iff_of_false ?_ ?_
  · intro hf
    have hauthority := hf.authority
    simp [uriOf] at hauthority
  · rintro ⟨-,hplain | hswallow⟩
    · exact ((h.plainJoin_iff hs).mp hplain).2.1 rfl hnil
    · have hslash := eq_of_trimEndMatches_eq_nil hnil (h.swallowed_iff.mp hswallow).1
      revert hslash
      decide

variable [HttpCrate]

/-- A request goes where its upstream's address and its own path say exactly if the address has its
scheme in lower case and either nothing can be taken for something else where the texts are joined,
or the request is swallowed by a fragment that hides no difference. -/
theorem target_faithful_iff (hreads : ReadsUri) {i : ℕ} {upstream : Upstream} {up target : Uri}
    (hvalid : Validator.validateUpstream i upstream = .ok ())
    (hup : HttpCrate.parseUri upstream.address.toList = .ok up) (hpath : DeliverablePath path)
    (htarget : buildTargetUri upstream.address path query = .ok target) :
    Faithful upstream.address path query up target ↔ LowerScheme upstream.address ∧
      (PlainJoin upstream.address path query up ∨ Swallowed upstream.address path query) := by
  obtain ⟨scheme,hmem,hscheme⟩ : ∃ scheme ∈ schemes, up.scheme = some scheme := by
    obtain ⟨url,hurl,hhttp,-⟩ := (Validator.validateUpstream_eq_ok.mp hvalid).url
    rw [hup] at hurl
    cases hurl
    rcases hhttp with hhttp | hhttp
    · exact ⟨"http",by decide,hhttp⟩
    · exact ⟨"https",by decide,hhttp⟩
  obtain ⟨s,a,t,hs,hsplit⟩ := hreads.splits _ _ hup scheme hmem hscheme
  have hmarks : '?' ∉ s ∧ '#' ∉ s :=
    ⟨not_mem_scheme hmem hs (Or.inl rfl),not_mem_scheme hmem hs (Or.inr rfl)⟩
  have hupEq : up = uriOf scheme a t := hreads.reads _ _ hup scheme hmem s a t hs hsplit
  rw [hupEq]
  by_cases hstar : path = "*" ∧ trimEndMatches '/' t = []
  · obtain ⟨rfl,hnil⟩ := hstar
    have htargetEq : target = uriOf scheme (a++['*']) (queryPart query) :=
      hreads.reads _ _ htarget scheme hmem _ _ _ hs (hsplit.target_star hnil)
    rw [htargetEq]
    exact hsplit.join_star hmarks hnil
  · have hstar' : path = "*" → trimEndMatches '/' t ≠ [] := fun h1 h2 => hstar ⟨h1,h2⟩
    have htargetEq : target = uriOf scheme a (trimEndMatches '/' t++(requestPath path++queryPart query)) :=
      hreads.reads _ _ htarget scheme hmem _ _ _ hs (hsplit.target hpath hstar')
    rw [htargetEq]
    exact hsplit.join_iff hmarks hpath hstar'

end Join

/-- The two schemes read as documented. -/
def readUri (text : Text) : Except String Uri :=
  let s := text.takeWhile (· ≠ ':')
  match stripPrefix (s++"://".toList) text with
  | none => .error "invalid format"
  | some rest =>
    if rest.takeWhile inAuthority = [] then .error "empty authority"
    else if String.ofList (toAsciiLowercase s) ∈ schemes then
      .ok (uriOf (String.ofList (toAsciiLowercase s)) (rest.takeWhile inAuthority) (rest.dropWhile inAuthority))
    else .error "invalid scheme"

@[reducible] def uriCrate : HttpCrate := { visibleAscii with parseUri := readUri }

theorem readUri_ok {text : Text} {uri : Uri} (h : readUri text = .ok uri) :
    ∃ s a t, Splits text s a t ∧ uri = uriOf (String.ofList (toAsciiLowercase s)) a t := by
  simp only [readUri] at h
  cases hstrip : stripPrefix (text.takeWhile (· ≠ ':')++"://".toList) text with
  | none =>
    rw [hstrip] at h
    cases h
  | some rest =>
    rw [hstrip] at h
    simp only at h
    split at h
    · cases h
    · rename_i hne
      split at h
      · cases h
        refine ⟨text.takeWhile (· ≠ ':'),_,_,⟨?_,?_,hne,fun c hc => List.mem_takeWhile_imp hc,
          fun c hc => head?_dropWhile_not hc⟩,rfl⟩
        · rw [List.takeWhile_append_dropWhile]
          exact stripPrefix_eq_some.mp hstrip
        · intro hmem
          have hcolon := List.mem_takeWhile_imp hmem
          simp at hcolon
      · cases h

theorem uriCrate_reads : @ReadsUri uriCrate := by
  let _ := uriCrate
  constructor
  · intro text uri h scheme _ hscheme
    obtain ⟨s,a,t,hsplit,rfl⟩ := readUri_ok h
    have heq : String.ofList (toAsciiLowercase s) = scheme := Option.some.inj hscheme
    exact ⟨s,a,t,by rw [← heq,String.toList_ofList],hsplit⟩
  · intro text uri h scheme _ s a t hs hsplit
    obtain ⟨s',a',t',hsplit',rfl⟩ := readUri_ok h
    obtain ⟨rfl,rfl,rfl⟩ := hsplit.unique hsplit'
    rw [hs,String.ofList_toList]
    rfl

/-- The path of `OPTIONS *` becomes part of the upstream's name, and a query in an address takes in
the path. -/
theorem target_redirected :
    letI := uriCrate
    (Validator.validateUpstream 0 ⟨"http://a",1⟩ = .ok () ∧
      buildTargetUri "http://a" "*" none = .ok ⟨some "http",some "a*","/",none⟩ ∧
      extractHost "http://a" = some "a".toList) ∧
    Validator.validateUpstream 0 ⟨"http://a?k=1",1⟩ = .ok () ∧
      buildTargetUri "http://a?k=1" "/x" none = .ok ⟨some "http",some "a","/",some "k=1/x"⟩ ∧
      extractHost "http://a?k=1" = some "a?k=1".toList := by
  decide +kernel

theorem target_faithful_iff_api :
    @Validator.validateUpstream uriCrate 0 ⟨"http://a/api/",1⟩ = .ok () ∧
    Faithful "http://a/api/" "/x" (some "q=1") ⟨some "http",some "a","/api/",none⟩
      ⟨some "http",some "a","/api/x",some "q=1"⟩ := by
  let _ := uriCrate
  have hvalid : Validator.validateUpstream 0 ⟨"http://a/api/",1⟩ = .ok () := by decide +kernel
  have hup : HttpCrate.parseUri "http://a/api/".toList = .ok ⟨some "http",some "a","/api/",none⟩ := by
    decide +kernel
  have htarget : buildTargetUri "http://a/api/" "/x" (some "q=1") =
      .ok ⟨some "http",some "a","/api/x",some "q=1"⟩ := by decide +kernel
  have hplain : PlainJoin "http://a/api/" "/x" (some "q=1") ⟨some "http",some "a","/api/",none⟩ := by
    refine ⟨by decide,by decide,fun hstar => absurd hstar (by decide),?_⟩
    intro q hq
    cases hq
    decide
  exact ⟨hvalid,(target_faithful_iff uriCrate_reads hvalid hup
    (Or.inr (Or.inr ⟨rfl,List.all_eq_true.mp rfl⟩)) htarget).mpr ⟨Or.inl (by decide),Or.inl hplain⟩⟩

end Proxy
end OxiGate
