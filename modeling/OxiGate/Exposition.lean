import OxiGate.RustText

/-! The text format in which metrics are exposed: a sample with its labels on each line, comments in
between. A scan for a label finds it by its name and the quote that opens its value. Label values that
would have to be escaped are left out. -/
namespace OxiGate
namespace Exposition

open RustText

section Lines

def stripCr (line : Text) : Text := if line.getLast? = some '\r' then line.dropLast else line

def linesFrom (current : Text) : Text → List Text
  | [] => if current = [] then [] else [current.reverse]
  | c::cs => if c = '\n' then stripCr current.reverse::linesFrom [] cs else linesFrom (c::current) cs

/-- `str::lines`. -/
def lines (text : Text) : List Text := linesFrom [] text

theorem linesFrom_append {line : Text} (h : '\n' ∉ line) (current rest : Text) :
    linesFrom current (line++ '\n'::rest) = stripCr (current.reverse++line)::linesFrom [] rest := by
  induction line generalizing current with
  | nil => simp [linesFrom]
  | cons c line ih =>
    have hc : c ≠ '\n' := fun hc => h (hc ▸ List.mem_cons_self)
    rw [List.cons_append,linesFrom,if_neg hc,ih fun hmem => h (List.mem_cons_of_mem c hmem)]
    simp

structure IsLine (line : Text) : Prop where
  newline : '\n' ∉ line
  carriage : line.getLast? ≠ some '\r'

theorem lines_unlines {ls : List Text} (h : ∀ l ∈ ls, IsLine l) : lines (ls.flatMap (·++['\n'])) = ls := by
  induction ls with
  | nil => rfl
  | cons l ls ih =>
    obtain ⟨hl,hls⟩ := List.forall_mem_cons.mp h
    have hrest := ih hls
    unfold lines at hrest ⊢
    rw [List.flatMap_cons,List.append_assoc,List.singleton_append,linesFrom_append hl.newline,hrest]
    simp [stripCr,hl.carriage]

end Lines

section Samples

structure Sample where
  name : Text
  labels : List (Text × Text)
  value : Text

def labelText (l : Text × Text) : Text := l.1++ '=':: '"'::(l.2++['"'])

def Sample.nameLabels (s : Sample) : Text :=
  if s.labels.isEmpty then s.name
  else s.name++ '\x7b'::(List.intercalate [','] (s.labels.map labelText)++['\x7d'])

def Sample.line (s : Sample) : Text := s.nameLabels++ ' '::s.value

/-- A label value that stands in the text as it is. -/
def PlainValue (v : Text) : Prop := ∀ c ∈ v, c ≠ '\\' ∧ c ≠ '\n' ∧ c ≠ '"'

instance (v : Text) : Decidable (PlainValue v) :=
  List.decidableBAll (fun c : Char => c ≠ '\\' ∧ c ≠ '\n' ∧ c ≠ '"') v

/-- `str::rsplit_once`: the text before and after the last separator. -/
def rsplitOnce (sep : Char) (text : Text) : Option (Text × Text) :=
  (splitOnce sep text.reverse).map fun r => (r.2.reverse,r.1.reverse)

theorem rsplitOnce_eq_some {sep : Char} {text before after : Text} (h : rsplitOnce sep text = some (before,after)) :
    text = before++sep::after := by
  obtain ⟨⟨a,b⟩,hsplit,heq⟩ := Option.map_eq_some_iff.mp h
  cases heq
  have hreverse := congrArg List.reverse (splitOnce_eq_some hsplit)
  simpa using hreverse

theorem rsplitOnce_append {sep : Char} {after : Text} (h : sep ∉ after) (before : Text) :
    rsplitOnce sep (before++sep::after) = some (before,after) := by
  have hreverse : (before++sep::after).reverse = after.reverse++sep::before.reverse := by simp
  rw [rsplitOnce,hreverse,splitOnce_append (by simpa using h)]
  simp

end Samples

section Scan

/-- What follows the first place where the pattern is found. -/
def afterFirst (pattern : Text) : Text → Option Text
  | [] => stripPrefix pattern []
  | c::cs => (stripPrefix pattern (c::cs)).or (afterFirst pattern cs)

def needle (key : Text) : Text := key++['=','"']

structure IsKey (key : Text) : Prop where
  nonempty : key ≠ []
  equals : '=' ∉ key
  quote : '"' ∉ key
  comma : ',' ∉ key
  brace : '\x7b' ∉ key
  newline : '\n' ∉ key

variable {key : Text}

theorem stripPrefix_append (pattern rest : Text) : stripPrefix pattern (pattern++rest) = some rest :=
  stripPrefix_eq_some.mpr rfl

theorem stripPrefix_eq_none {pattern text : Text} (h : ¬ pattern <+: text) : stripPrefix pattern text = none := by
  rw [stripPrefix,if_neg]
  simpa using h

/-- Where an equals sign is next, the needle is found exactly if its name stands before the sign. -/
theorem needle_start_iff {u : Text} (rest : Text) (hkey : '=' ∉ key) (hu : '=' ∉ u) :
    needle key <+: u++ '=':: '"'::rest ↔ u = key := by
  induction u generalizing key with
  | nil =>
    cases key with
    | nil => simp [needle]
    | cons k key =>
      have hk : k ≠ '=' := fun hk => hkey (hk ▸ List.mem_cons_self)
      simp [needle,hk]
  | cons c u ih =>
    have hc : c ≠ '=' := fun hc => hu (hc ▸ List.mem_cons_self)
    cases key with
    | nil => simp [needle,Ne.symm hc]
    | cons k key =>
      have hrest := ih (fun hmem => hkey (List.mem_cons_of_mem k hmem)) fun hmem => hu (List.mem_cons_of_mem c hmem)
      simp only [needle,List.cons_append,List.cons_prefix_cons] at hrest ⊢
      rw [hrest]
      simp [eq_comm]

theorem not_needle_start {v : Text} (rest : Text) (hkey : '"' ∉ key) (hv : '=' ∉ v) :
    ¬ needle key <+: v++ '"'::rest := by
  induction v generalizing key with
  | nil =>
    cases key with
    | nil => simp [needle]
    | cons k key =>
      have hk : k ≠ '"' := fun hk => hkey (hk ▸ List.mem_cons_self)
      simp [needle,hk]
  | cons c v ih =>
    have hc : c ≠ '=' := fun hc => hv (hc ▸ List.mem_cons_self)
    cases key with
    | nil => simp [needle,Ne.symm hc]
    | cons k key =>
      have hrest := ih (fun hmem => hkey (List.mem_cons_of_mem k hmem)) fun hmem => hv (List.mem_cons_of_mem c hmem)
      simp only [needle,List.cons_append,List.cons_prefix_cons] at hrest ⊢
      exact fun h => hrest h.2

theorem afterFirst_append {pattern u : Text} (rest : Text)
    (h : ∀ b, b <:+ u → b ≠ [] → ¬ pattern <+: b++rest) : afterFirst pattern (u++rest) = afterFirst pattern rest := by
  induction u with
  | nil => rfl
  | cons c u ih =>
    have hhere : stripPrefix pattern (c::(u++rest)) = none :=
      stripPrefix_eq_none (h (c::u) List.suffix_rfl (by simp))
    rw [List.cons_append,afterFirst,hhere,Option.none_or]
    exact ih fun b hb hne => h b (hb.trans (List.suffix_cons c u)) hne

theorem afterFirst_cons (hkey : IsKey key) {c : Char} (hc : c ∉ key) (rest : Text) :
    afterFirst (needle key) (c::rest) = afterFirst (needle key) rest := by
  have hhere : stripPrefix (needle key) (c::rest) = none := by
    refine stripPrefix_eq_none ?_
    cases key with
    | nil => exact absurd rfl hkey.nonempty
    | cons k key =>
      have hk : k ≠ c := fun hk => hc (hk ▸ List.mem_cons_self)
      simp [needle,hk]
  rw [afterFirst,hhere,Option.none_or]

theorem afterFirst_found (hkey : IsKey key) {u : Text} (hu : '=' ∉ u) (rest : Text) :
    afterFirst (needle key) (u++(needle key++rest)) = some rest := by
  have hassoc : ∀ b : Text, b++(needle key++rest) = (b++key)++ '=':: '"'::rest := by
    intro b
    simp [needle]
  rw [afterFirst_append]
  · have hfound := stripPrefix_append (needle key) rest
    cases hcons : needle key++rest with
    | nil => simp [needle] at hcons
    | cons c cs =>
      rw [hcons] at hfound
      rw [afterFirst,hfound,Option.some_or]
  · intro b hb hne hstarts
    rw [hassoc,needle_start_iff rest hkey.equals] at hstarts
    · exact hne (by simpa using hstarts)
    · simp only [List.mem_append,not_or]
      exact ⟨fun hmem => hu (hb.subset hmem),hkey.equals⟩

/-- Another label is passed over, unless its name ends in the one looked for. -/
theorem afterFirst_other (hkey : IsKey key) {u v : Text} (hu : '=' ∉ u) (hv : '=' ∉ v) (hother : ¬ key <:+ u)
    (rest : Text) :
    afterFirst (needle key) (u++ '=':: '"'::(v++ '"'::rest)) = afterFirst (needle key) rest := by
  rw [afterFirst_append]
  · rw [afterFirst_cons hkey hkey.equals,afterFirst_cons hkey hkey.quote,afterFirst_append,
      afterFirst_cons hkey hkey.quote]
    intro b hb _
    exact not_needle_start rest hkey.quote fun hmem => hv (hb.subset hmem)
  · intro b hb _ hstarts
    rw [needle_start_iff _ hkey.equals fun hmem => hu (hb.subset hmem)] at hstarts
    exact hother (hstarts ▸ hb)

def moreLabels : List (Text × Text) → Text
  | [] => ['\x7d']
  | l::ls => ','::(labelText l++moreLabels ls)

theorem intercalate_labels (l : Text × Text) (ls : List (Text × Text)) :
    List.intercalate [','] ((l::ls).map labelText)++['\x7d'] = labelText l++moreLabels ls := by
  induction ls generalizing l with
  | nil => simp [moreLabels]
  | cons next ls ih =>
    rw [List.map_cons,List.map_cons,List.intercalate_cons_cons,← List.map_cons,List.append_assoc,List.append_assoc,ih]
    simp [moreLabels]

theorem Sample.nameLabels_cons {s : Sample} {l : Text × Text} {ls : List (Text × Text)} (h : s.labels = l::ls) :
    s.nameLabels = s.name++ '\x7b'::(labelText l++moreLabels ls) := by
  rw [nameLabels,h,← intercalate_labels]
  rfl

theorem newline_labelText {l : Text × Text} (hname : '\n' ∉ l.1) (hvalue : '\n' ∉ l.2) : '\n' ∉ labelText l := by
  simp [labelText,hname,hvalue]

theorem newline_nameLabels {s : Sample} (hname : '\n' ∉ s.name) (hlabels : ∀ l ∈ s.labels, '\n' ∉ l.1 ∧ '\n' ∉ l.2) :
    '\n' ∉ s.nameLabels := by
  have hmore : ∀ ls : List (Text × Text), (∀ l ∈ ls, '\n' ∉ l.1 ∧ '\n' ∉ l.2) → '\n' ∉ moreLabels ls := by
    intro ls
    induction ls with
    | nil => simp [moreLabels]
    | cons l ls ih =>
      intro h
      obtain ⟨hl,hls⟩ := List.forall_mem_cons.mp h
      simp [moreLabels,newline_labelText hl.1 hl.2,ih hls]
  cases h : s.labels with
  | nil => simpa [Sample.nameLabels,h] using hname
  | cons l ls =>
    rw [h] at hlabels
    obtain ⟨hl,hls⟩ := List.forall_mem_cons.mp hlabels
    rw [Sample.nameLabels_cons h]
    simp [hname,newline_labelText hl.1 hl.2,hmore ls hls]

theorem suffix_of_suffix_append {u w : Text} {d : Char} (hd : d ∉ key) (h : key <:+ u++d::w) : key <:+ w := by
  rcases List.suffix_or_suffix_of_suffix h (List.suffix_append u (d::w)) with hkey | hkey
  · rcases List.suffix_cons_iff.mp hkey with heq | hw
    · exact absurd (heq ▸ List.mem_cons_self) hd
    · exact hw
  · exact absurd (hkey.subset List.mem_cons_self) hd

/-- A label that stands among others is found by its name. -/
theorem afterFirst_labels (hkey : IsKey key) {pre : List (Text × Text)}
    (hpre : ∀ l ∈ pre, '=' ∉ l.1 ∧ '=' ∉ l.2 ∧ ¬ key <:+ l.1) {u : Text} (hu : '=' ∉ u) {d : Char}
    (hd : d ∉ key) (hequals : d ≠ '=') (v : Text) (post : List (Text × Text)) :
    ∃ l ls rest, pre++(key,v)::post = l::ls ∧
      afterFirst (needle key) (u++d::(labelText l++moreLabels ls)) = some (v++ '"'::rest) := by
  induction pre generalizing u d with
  | nil =>
    refine ⟨(key,v),post,moreLabels post,rfl,?_⟩
    have hassoc : u++d::(labelText (key,v)++moreLabels post) =
        (u++[d])++(needle key++(v++ '"'::moreLabels post)) := by
      simp [labelText,needle]
    rw [hassoc]
    refine afterFirst_found hkey ?_ _
    simp only [List.mem_append,List.mem_singleton,not_or]
    exact ⟨hu,Ne.symm hequals⟩
  | cons first pre ih =>
    obtain ⟨⟨hname,hvalue,hother⟩,hrest⟩ := List.forall_mem_cons.mp hpre
    obtain ⟨l,ls,rest,hlist,hfound⟩ := ih hrest (u := []) (d := ',') List.not_mem_nil hkey.comma (by decide)
    refine ⟨first,pre++(key,v)::post,rest,rfl,?_⟩
    have hassoc : u++d::(labelText first++moreLabels (l::ls)) =
        (u++d::first.1)++ '=':: '"'::(first.2++ '"'::([]++ ','::(labelText l++moreLabels ls))) := by
      simp [labelText,moreLabels]
    rw [hlist,hassoc,afterFirst_other hkey _ hvalue fun h => hother (suffix_of_suffix_append hd h)]
    · exact hfound
    · simp only [List.mem_append,List.mem_cons,not_or]
      exact ⟨hu,Ne.symm hequals,hname⟩

end Scan

section Names

def startsWith (pattern text : Text) : Bool := pattern.isPrefixOf text

theorem startsWith_brace {pattern name : Text} (rest : Text) (hpattern : '\x7b' ∉ pattern) (hname : '\x7b' ∉ name) :
    startsWith (pattern++['\x7b']) (name++ '\x7b'::rest) = decide (name = pattern) := by
  induction name generalizing pattern with
  | nil =>
    cases pattern with
    | nil => simp [startsWith]
    | cons p pattern =>
      have hp : p ≠ '\x7b' := fun hp => hpattern (hp ▸ List.mem_cons_self)
      simp [startsWith,List.isPrefixOf_cons_cons,hp]
  | cons c name ih =>
    have hc : c ≠ '\x7b' := fun hc => hname (hc ▸ List.mem_cons_self)
    cases pattern with
    | nil => simp [startsWith,List.isPrefixOf_cons_cons,Ne.symm hc]
    | cons p pattern =>
      have hrest := ih (fun hmem => hpattern (List.mem_cons_of_mem p hmem))
        fun hmem => hname (List.mem_cons_of_mem c hmem)
      simp only [startsWith,List.cons_append,List.isPrefixOf_cons_cons] at hrest ⊢
      rw [hrest]
      by_cases hpc : p = c
      · simp [hpc]
      · simp [hpc,Ne.symm hpc]

/-- A pattern and a name of which neither begins with the other differ before either ends. -/
theorem startsWith_other {pattern name : Text} (rest : Text) (h : ¬ pattern <+: name) (h' : ¬ name <+: pattern) :
    startsWith pattern (name++rest) = false := by
  rw [startsWith,Bool.eq_false_iff]
  intro hstarts
  have hpattern : pattern <+: name++rest := List.isPrefixOf_iff_prefix.mp hstarts
  rcases List.prefix_or_prefix_of_prefix hpattern (List.prefix_append name rest) with hshorter | hlonger
  · exact h hshorter
  · exact h' hlonger

theorem startsWith_no_brace {pattern text : Text} (h : '\x7b' ∉ text) :
    startsWith (pattern++['\x7b']) text = false := by
  rw [startsWith,Bool.eq_false_iff]
  intro hstarts
  obtain ⟨rest,rfl⟩ := List.isPrefixOf_iff_prefix.mp hstarts
  simp at h

end Names

end Exposition
end OxiGate
