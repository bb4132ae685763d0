import OxiGate.Exposition
import OxiGate.Json
import OxiGate.Metrics

/-! The samples of the metrics, and the statistics the dashboard reads off their text. How the `prometheus`
crate writes the samples is a parameter, and so is `f64`, of which only what it does to integers of at most
53 bits is used. -/
namespace OxiGate
namespace Stats

open RustText Net Metrics Exposition

/-- The operations of `f64` on the way, with the laws they are assumed to have. -/
class MetricNumber (D : Type) where
  ofInt : ℤ → D
  zero : D
  display : D → Text
  parse : Text → Option D
  asU64 : D → ℕ
  asI64 : D → ℤ
  atLeastOne : D → Bool
  display_line : ∀ d, ∀ c ∈ display d, c ≠ ' ' ∧ c ≠ '\n' ∧ c ≠ '\r'
  parse_display : ∀ n : ℤ, n.natAbs ≤ 2^53 → parse (display (ofInt n)) = some (ofInt n)
  asU64_ofInt : ∀ n : ℤ, n.natAbs ≤ 2^53 → asU64 (ofInt n) = n.toNat
  asI64_ofInt : ∀ n : ℤ, n.natAbs ≤ 2^53 → asI64 (ofInt n) = n
  atLeastOne_ofInt : ∀ n : ℤ, n.natAbs ≤ 2^53 → atLeastOne (ofInt n) = decide (1 ≤ n)

open MetricNumber

section Gather

/-- What the registry holds under a name and label values, the histogram apart. -/
inductive Entry
  | requests (labels : String × String × String) (n : ℕ)
  | connections (upstream : String) (n : ℤ)
  | health (upstream : String) (n : ℤ)
  | active (n : ℤ)
  | allows (n : ℕ)
  | rejects (n : ℕ)
  | retries (n : ℕ)

namespace Entry

def name : Entry → Text
  | .requests _ _ => "oxigate_requests_total".toList
  | .connections _ _ => "oxigate_upstream_connections".toList
  | .health _ _ => "oxigate_upstream_health".toList
  | .active _ => "oxigate_active_connections".toList
  | .allows _ => "oxigate_rate_limit_allows_total".toList
  | .rejects _ => "oxigate_rate_limit_rejects_total".toList
  | .retries _ => "oxigate_retries_total".toList

def labels : Entry → List (Text × Text)
  | .requests l _ => [("method".toList,l.1.toList),("status".toList,l.2.1.toList),("upstream".toList,l.2.2.toList)]
  | .connections u _ => [("upstream".toList,u.toList)]
  | .health u _ => [("upstream".toList,u.toList)]
  | _ => []

def value : Entry → ℤ
  | .requests _ n => n
  | .connections _ n => n
  | .health _ n => n
  | .active n => n
  | .allows n => n
  | .rejects n => n
  | .retries n => n

variable (D : Type) [MetricNumber D]

def sample (e : Entry) : Sample := ⟨e.name,e.labels,display (ofInt e.value : D)⟩

def line (e : Entry) : Text := (e.sample D).line

end Entry

def children {K V : Type} (c : Children K V) : List (K × V) := c.entries.map fun e => (e.1,e.2)

def entries (r : Registry) : List Entry :=
  (children r.requestsTotal).map (fun c => .requests c.1 c.2)++
    (children r.upstreamConnections).map (fun c => .connections c.1 c.2)++
    (children r.upstreamHealth).map (fun c => .health c.1 c.2)++
    [.active r.activeConnections,.allows r.rateLimitAllows,.rejects r.rateLimitRejects,.retries r.retriesTotal]

def histogramName : Text := "oxigate_request_duration_seconds".toList

/-- A comment, an empty line, or a line of the histogram. -/
def isAside (line : Text) : Bool := startsWith ['#'] line || line.isEmpty || startsWith histogramName line

/-- What the `prometheus` crate writes for a registry, `Registry::gather` and `TextEncoder::encode` together. It
is assumed that, where no label value has to be escaped, the lines that are not aside are those of the samples,
each once and in some order. -/
class Prometheus (D : Type) [MetricNumber D] where
  encode : Registry → Text
  lines_encode : ∀ r, (∀ e ∈ entries r, ∀ l ∈ e.labels, PlainValue l.2) →
    ∃ es : List Entry, es.Perm (entries r) ∧
      (lines (encode r)).filter (fun line => !isAside line) = es.map (Entry.line D)

def gather (D : Type) [MetricNumber D] [Prometheus D] (r : Registry) : Text := Prometheus.encode D r

end Gather

variable {D : Type} [MetricNumber D]

section Reading

def label (nameLabels key : Text) : Option Text :=
  (afterFirst (needle key) nameLabels).bind fun rest => (splitOnce '"' rest).map Prod.fst

@[ext]
structure UpstreamSnap where
  healthy : Bool
  connections : ℤ
  requests : ℕ
  deriving DecidableEq

def UpstreamSnap.default : UpstreamSnap := ⟨false,0,0⟩

structure Figures where
  requestsTotal : ℕ
  retries : ℕ
  active : ℤ
  byStatus : Children Text ℕ
  byMethod : Children Text ℕ
  upstreams : Children Text UpstreamSnap

def Figures.start : Figures := ⟨0,0,0,∅,∅,∅⟩

def Figures.snap (f : Figures) (upstream : Option Text) (change : UpstreamSnap → UpstreamSnap) : Figures :=
  match upstream with
  | some up => { f with upstreams := f.upstreams.update .default up change }
  | none => f

/-- What the loop of `stats_json` does with a sample. -/
def readEntry (f : Figures) (nameLabels : Text) (valueF : D) : Figures :=
  let valueU := asU64 valueF
  if startsWith ("oxigate_requests_total".toList++['\x7b']) nameLabels then
    let f := { f with requestsTotal := f.requestsTotal+valueU }
    let f :=
      match label nameLabels "status".toList with
      | some status => { f with byStatus := f.byStatus.update 0 status (·+valueU) }
      | none => f
    let f :=
      match label nameLabels "method".toList with
      | some method => { f with byMethod := f.byMethod.update 0 method (·+valueU) }
      | none => f
    f.snap ((label nameLabels "upstream".toList).filter (· ≠ "none".toList)) fun s =>
      { s with requests := s.requests+valueU }
  else if startsWith ("oxigate_upstream_health".toList++['\x7b']) nameLabels then
    f.snap (label nameLabels "upstream".toList) fun s => { s with healthy := atLeastOne valueF }
  else if startsWith ("oxigate_upstream_connections".toList++['\x7b']) nameLabels then
    f.snap (label nameLabels "upstream".toList) fun s => { s with connections := asI64 valueF }
  else if nameLabels = "oxigate_active_connections".toList then { f with active := asI64 valueF }
  else if nameLabels = "oxigate_retries_total".toList then { f with retries := valueU }
  else f

variable (D) in
def readLine (f : Figures) (line : Text) : Figures :=
  if startsWith ['#'] line || line.isEmpty then f
  else
    match rsplitOnce ' ' line with
    | none => f
    | some (nameLabels,valueS) => readEntry f nameLabels ((parse valueS).getD zero : D)

variable (D) in
def readText (text : Text) : Figures := (lines text).foldl (readLine D) Figures.start

end Reading

section Writing

/-- An order in which a hash map is iterated. -/
structure Iteration where
  entries : {V : Type} → Children Text V → List (Text × V)
  perm : ∀ {V : Type} (c : Children Text V), (entries c).Perm (children c)

def Iteration.inserted : Iteration := ⟨children,fun _ => .rfl⟩

def jsonStr (s : Text) : Text :=
  let s := s.flatMap fun c => if c = '\\' then ['\\','\\'] else [c]
  let s := s.flatMap fun c => if c = '"' then ['\\','"'] else [c]
  '"'::(s++['"'])

def mapToJsonObj (m : List (Text × ℕ)) : Text :=
  '\x7b'::(List.intercalate [','] (m.map fun e => jsonStr e.1++ ':'::decimal e.2)++['\x7d'])

def fieldName (key : String) : Text := '"'::(key.toList++['"',':'])

def snapJson (e : Text × UpstreamSnap) : Text :=
  '\x7b'::(fieldName "address"++jsonStr e.1++ ','::fieldName "healthy"++
    (if e.2.healthy then "true" else "false").toList++
    ','::fieldName "connections"++Json.integer e.2.connections++
    ','::fieldName "requests"++decimal e.2.requests++['\x7d'])

/-- What the dashboard has besides the metrics: the counters are those of the rate limiter itself. -/
structure DashboardState where
  metrics : Registry
  limiter : Option (ℕ × ℕ)
  uptime : ℕ
  version : String

variable (D) in
def statsJson [Prometheus D] (it : Iteration) (state : DashboardState) : Text :=
  let counts := state.limiter.getD (0,0)
  let f := readText D (gather D state.metrics)
  let upJson := '['::(List.intercalate [','] ((it.entries f.upstreams).map snapJson)++[']'])
  '\x7b'::(fieldName "version"++jsonStr state.version.toList++ ','::fieldName "uptime_secs"++decimal state.uptime++
    ','::fieldName "requests_total"++decimal f.requestsTotal++
    ','::fieldName "active_connections"++Json.integer f.active++
    ','::fieldName "retries_total"++decimal f.retries++ ','::fieldName "rate_limit_allows"++decimal counts.1++
    ','::fieldName "rate_limit_rejects"++decimal counts.2++
    ','::fieldName "by_status"++mapToJsonObj (it.entries f.byStatus)++
    ','::fieldName "by_method"++mapToJsonObj (it.entries f.byMethod)++ ','::fieldName "upstreams"++upJson++['\x7d'])

end Writing

section Samples

variable {s : Sample}

structure IsName (name : Text) : Prop where
  head : name.head? = some 'o'
  equals : '=' ∉ name
  brace : '\x7b' ∉ name
  newline : '\n' ∉ name

structure IsSample (s : Sample) : Prop where
  name : IsName s.name
  labels : ∀ l ∈ s.labels, IsKey l.1
  value : ∀ c ∈ s.value, c ≠ ' ' ∧ c ≠ '\n' ∧ c ≠ '\r'

theorem nameLabels_head (h : IsSample s) : ∃ rest, s.nameLabels = 'o'::rest := by
  obtain ⟨cs,hcs⟩ := List.head?_eq_some_iff.mp h.name.head
  unfold Sample.nameLabels
  split
  · exact ⟨cs,hcs⟩
  · exact ⟨_,by rw [hcs,List.cons_append]⟩

theorem readLine_line (h : IsSample s) (f : Figures) :
    readLine D f s.line = readEntry f s.nameLabels ((parse s.value).getD zero : D) := by
  obtain ⟨rest,hrest⟩ := nameLabels_head h
  have hspace : ' ' ∉ s.value := fun hmem => (h.value _ hmem).1 rfl
  have hline : s.line = 'o'::(rest++ ' '::s.value) := by rw [Sample.line,hrest,List.cons_append]
  have hcomment : startsWith ['#'] s.line = false := by rw [hline]; rfl
  have hempty : s.line.isEmpty = false := by rw [hline]; rfl
  rw [readLine,hcomment,hempty]
  simp only [Bool.or_self,Bool.false_eq_true,if_false,Sample.line,rsplitOnce_append hspace]

theorem isLine_line (h : IsSample s) (hplain : ∀ l ∈ s.labels, PlainValue l.2) : IsLine s.line := by
  have hlabels : ∀ l ∈ s.labels, '\n' ∉ l.1 ∧ '\n' ∉ l.2 :=
    fun l hl => ⟨(h.labels l hl).newline,fun hmem => (hplain l hl _ hmem).2.1 rfl⟩
  refine ⟨?_,?_⟩
  · simp only [Sample.line,List.mem_append,List.mem_cons,not_or]
    exact ⟨newline_nameLabels h.name.newline hlabels,by decide,fun hmem => (h.value _ hmem).2.1 rfl⟩
  · intro hlast
    rw [Sample.line,List.getLast?_append_cons] at hlast
    rcases List.mem_cons.mp (List.mem_of_getLast? hlast) with hspace | hmem
    · cases hspace
    · exact (h.value _ hmem).2.2 rfl

variable {key v : Text} {post : List (Text × Text)}

/-- The value of a label, where the values before it have no equals sign. -/
theorem label_nameLabels (pre : List (Text × Text)) (hkey : IsKey key) (h : IsSample s)
    (hlabels : s.labels = pre++(key,v)::post) (hpre : ∀ l ∈ pre, '=' ∉ l.1 ∧ '=' ∉ l.2 ∧ ¬ key <:+ l.1)
    (hv : PlainValue v) : label s.nameLabels key = some v := by
  obtain ⟨l,ls,rest,hlist,hfound⟩ := afterFirst_labels hkey hpre h.name.equals hkey.brace (by decide) v post
  have hquote : '"' ∉ v := fun hmem => (hv _ hmem).2.2 rfl
  rw [label,Sample.nameLabels_cons (hlabels.trans hlist),hfound,Option.bind_some,splitOnce_append hquote]
  rfl

theorem startsWith_nameLabels (h : IsSample s) (hlabels : s.labels ≠ []) {name : Text} (hname : '\x7b' ∉ name) :
    startsWith (name++['\x7b']) s.nameLabels = decide (s.name = name) := by
  obtain ⟨l,ls,hcons⟩ := List.exists_cons_of_ne_nil hlabels
  rw [Sample.nameLabels_cons hcons]
  exact startsWith_brace _ hname h.name.brace

theorem nameLabels_ne (hlabels : s.labels ≠ []) {name : Text} (hname : '\x7b' ∉ name) : s.nameLabels ≠ name := by
  obtain ⟨l,ls,hcons⟩ := List.exists_cons_of_ne_nil hlabels
  rw [Sample.nameLabels_cons hcons]
  rintro rfl
  simp at hname

end Samples

section Entries

/-- A label value that is written as it is and can stand in a JSON string. -/
structure PlainLabel (s : String) : Prop where
  clean : Json.CleanText s.toList
  plain : PlainValue s.toList

instance (s : String) : Decidable (PlainLabel s) :=
  decidable_of_iff (Json.CleanText s.toList ∧ PlainValue s.toList) ⟨fun h => ⟨h.1,h.2⟩,fun h => ⟨h.clean,h.plain⟩⟩

structure PlainRequest (l : String × String × String) : Prop where
  method : PlainLabel l.1
  status : PlainLabel l.2.1
  upstream : PlainLabel l.2.2
  methodEquals : '=' ∉ l.1.toList
  statusEquals : '=' ∉ l.2.1.toList

def Entry.Plain : Entry → Prop
  | .requests l _ => PlainRequest l
  | .connections u _ => PlainLabel u
  | .health u _ => PlainLabel u
  | _ => True

theorem Entry.Plain.labels {e : Entry} (h : e.Plain) : ∀ l ∈ e.labels, PlainValue l.2 := by
  cases e with
  | requests l n =>
    exact List.forall_mem_cons.mpr ⟨h.method.plain,List.forall_mem_cons.mpr ⟨h.status.plain,
      List.forall_mem_cons.mpr ⟨h.upstream.plain,List.forall_mem_nil _⟩⟩⟩
  | connections u n => exact List.forall_mem_cons.mpr ⟨PlainLabel.plain h,List.forall_mem_nil _⟩
  | health u n => exact List.forall_mem_cons.mpr ⟨PlainLabel.plain h,List.forall_mem_nil _⟩
  | _ => exact List.forall_mem_nil _

theorem isKey_method : IsKey "method".toList := ⟨by decide,by decide,by decide,by decide,by decide,by decide⟩

theorem isKey_status : IsKey "status".toList := ⟨by decide,by decide,by decide,by decide,by decide,by decide⟩

theorem isKey_upstream : IsKey "upstream".toList := ⟨by decide,by decide,by decide,by decide,by decide,by decide⟩

theorem isName_name (e : Entry) : IsName e.name := by
  cases e <;> dsimp only [Entry.name] <;> exact ⟨by decide,by decide,by decide,by decide⟩

theorem isSample_sample (e : Entry) : IsSample (e.sample D) := by
  refine ⟨isName_name e,?_,display_line _⟩
  have hupstream : ∀ u : Text, ∀ l ∈ [("upstream".toList,u)], IsKey l.1 :=
    fun u => List.forall_mem_cons.mpr ⟨isKey_upstream,List.forall_mem_nil _⟩
  cases e with
  | requests l n =>
    exact List.forall_mem_cons.mpr ⟨isKey_method,List.forall_mem_cons.mpr ⟨isKey_status,hupstream _⟩⟩
  | connections u n => exact hupstream _
  | health u n => exact hupstream _
  | _ => exact List.forall_mem_nil _

theorem name_histogram (e : Entry) : ¬ histogramName <+: e.name ∧ ¬ e.name <+: histogramName := by
  cases e <;> dsimp only [Entry.name] <;> exact ⟨by decide,by decide⟩

theorem isAside_line (e : Entry) : isAside (e.line D) = false := by
  obtain ⟨rest,hrest⟩ := nameLabels_head (isSample_sample (D := D) e)
  have hline : e.line D = 'o'::(rest++ ' '::(e.sample D).value) := by
    rw [Entry.line,Sample.line,hrest,List.cons_append]
  have hhistogram : startsWith histogramName (e.line D) = false := by
    have hname : ∃ after, e.line D = e.name++after := by
      rw [Entry.line,Sample.line,Sample.nameLabels]
      split
      · exact ⟨_,rfl⟩
      · exact ⟨_,List.append_assoc _ _ _⟩
    obtain ⟨after,hafter⟩ := hname
    rw [hafter]
    exact startsWith_other after (name_histogram e).1 (name_histogram e).2
  rw [isAside,hhistogram,hline]
  rfl

theorem lines_samples {es : List Entry} (h : ∀ e ∈ es, ∀ l ∈ e.labels, PlainValue l.2) :
    (lines ((es.map (Entry.line D)).flatMap (·++['\n']))).filter (fun line => !isAside line) =
      es.map (Entry.line D) := by
  have hlines : ∀ line ∈ es.map (Entry.line D), IsLine line ∧ isAside line = false := by
    intro line hline
    obtain ⟨e,he,rfl⟩ := List.mem_map.mp hline
    exact ⟨isLine_line (isSample_sample e) (h e he),isAside_line e⟩
  rw [lines_unlines fun line hline => (hlines line hline).1,List.filter_eq_self]
  intro line hline
  rw [(hlines line hline).2]
  rfl

theorem readEntry_histogram (f : Figures) (rest : Text) (d : D) : readEntry f (histogramName++rest) d = f := by
  have hother : ∀ name ∈ ["oxigate_requests_total","oxigate_upstream_health","oxigate_upstream_connections"],
      startsWith (name.toList++['\x7b']) (histogramName++rest) = false := by
    have hdiffer : ∀ name ∈ ["oxigate_requests_total","oxigate_upstream_health","oxigate_upstream_connections"],
        ¬ name.toList++['\x7b'] <+: histogramName ∧ ¬ histogramName <+: name.toList++['\x7b'] := by decide
    intro name hname
    exact startsWith_other rest (hdiffer name hname).1 (hdiffer name hname).2
  have hequal : ∀ name ∈ ["oxigate_active_connections","oxigate_retries_total"], histogramName++rest ≠ name.toList := by
    have hdiffer : ∀ name ∈ ["oxigate_active_connections","oxigate_retries_total"],
        ¬ histogramName <+: name.toList := by decide
    intro name hname heq
    exact hdiffer name hname ⟨rest,heq⟩
  rw [readEntry,hother _ (by decide),hother _ (by decide),hother _ (by decide)]
  simp only [Bool.false_eq_true,if_false]
  rw [if_neg (hequal _ (by decide)),if_neg (hequal _ (by decide))]

theorem readLine_aside {line : Text} (h : isAside line = true) (f : Figures) : readLine D f line = f := by
  rw [isAside,Bool.or_eq_true] at h
  rw [readLine]
  split
  · rfl
  · rename_i hskipped
    have hstarts : histogramName <+: line := List.isPrefixOf_iff_prefix.mp (h.resolve_left hskipped)
    split
    · rfl
    · rename_i nameLabels valueS hsplit
      have hspace : ' ' ∉ histogramName := by decide
      rw [rsplitOnce_eq_some hsplit] at hstarts
      -- the name has no space, so it ends before the last one
      have hname : histogramName <+: nameLabels := by
        rcases List.prefix_or_prefix_of_prefix hstarts (List.prefix_append nameLabels _) with hin | ⟨more,hmore⟩
        · exact hin
        · cases more with
          | nil => exact ⟨[],by simpa using hmore.symm⟩
          | cons c more =>
            obtain ⟨rest,hrest⟩ := hstarts
            rw [← hmore,List.append_assoc,List.append_cancel_left_eq,List.cons_append] at hrest
            cases (List.cons.inj hrest).1
            exact absurd (hmore ▸ by simp) hspace
      obtain ⟨rest,rfl⟩ := hname
      exact readEntry_histogram f rest _

def Figures.addRequests (f : Figures) (l : String × String × String) (n : ℕ) : Figures where
  requestsTotal := f.requestsTotal+n
  retries := f.retries
  active := f.active
  byStatus := f.byStatus.update 0 l.2.1.toList (·+n)
  byMethod := f.byMethod.update 0 l.1.toList (·+n)
  upstreams :=
    if l.2.2 = "none" then f.upstreams
    else f.upstreams.update .default l.2.2.toList fun s => { s with requests := s.requests+n }

/-- What a sample adds to the figures. -/
def Figures.note (f : Figures) : Entry → Figures
  | .requests l n => f.addRequests l n
  | .connections u n => f.snap (some u.toList) fun snap => { snap with connections := n }
  | .health u n => f.snap (some u.toList) fun snap => { snap with healthy := decide (1 ≤ n) }
  | .active n => { f with active := n }
  | .retries n => { f with retries := n }
  | _ => f

variable {f : Figures}

theorem labels_requests {l : String × String × String} (h : PlainRequest l) (n : ℕ) :
    label ((Entry.requests l n).sample D).nameLabels "method".toList = some l.1.toList ∧
      label ((Entry.requests l n).sample D).nameLabels "status".toList = some l.2.1.toList ∧
        label ((Entry.requests l n).sample D).nameLabels "upstream".toList = some l.2.2.toList := by
  have hsample := isSample_sample (D := D) (.requests l n)
  have hmethod : '=' ∉ "method".toList := isKey_method.equals
  have hstatus : '=' ∉ "status".toList := isKey_status.equals
  have hstatus_method : ¬ "status".toList <:+ "method".toList := by decide
  have hupstream_method : ¬ "upstream".toList <:+ "method".toList := by decide
  have hupstream_status : ¬ "upstream".toList <:+ "status".toList := by decide
  refine ⟨?_,?_,?_⟩
  · exact label_nameLabels [] isKey_method hsample rfl (List.forall_mem_nil _) h.method.plain
  · exact label_nameLabels [("method".toList,l.1.toList)] isKey_status hsample rfl
      (List.forall_mem_cons.mpr ⟨⟨hmethod,h.methodEquals,hstatus_method⟩,List.forall_mem_nil _⟩) h.status.plain
  · exact label_nameLabels [("method".toList,l.1.toList),("status".toList,l.2.1.toList)] isKey_upstream hsample rfl
      (List.forall_mem_cons.mpr ⟨⟨hmethod,h.methodEquals,hupstream_method⟩,
        List.forall_mem_cons.mpr ⟨⟨hstatus,h.statusEquals,hupstream_status⟩,List.forall_mem_nil _⟩⟩) h.upstream.plain

theorem readLine_sample (e : Entry) (hn : e.value.natAbs ≤ 2^53) :
    readLine D f (e.line D) = readEntry f (e.sample D).nameLabels (ofInt e.value : D) := by
  have hvalue : (parse (e.sample D).value).getD zero = (ofInt e.value : D) := by
    rw [Entry.sample,parse_display _ hn]
    rfl
  rw [Entry.line,readLine_line (isSample_sample e),hvalue]

theorem readLine_requests {l : String × String × String} {n : ℕ} (h : PlainRequest l) (hn : n ≤ 2^53) :
    readLine D f ((Entry.requests l n).line D) = f.addRequests l n := by
  have hbound : (Entry.requests l n).value.natAbs ≤ 2^53 := by simpa [Entry.value] using hn
  have hstarts : startsWith ("oxigate_requests_total".toList++['\x7b'])
      ((Entry.requests l n).sample D).nameLabels = true := by
    have hlabels : ((Entry.requests l n).sample D).labels ≠ [] := List.cons_ne_nil _ _
    exact (startsWith_nameLabels (isSample_sample _) hlabels (isName_name (.requests l n)).brace).trans
      (decide_eq_true rfl)
  obtain ⟨hmethod,hstatus,hupstream⟩ := labels_requests (D := D) h n
  have hcount : asU64 (ofInt (Entry.requests l n).value : D) = n := by
    rw [asU64_ofInt _ hbound]
    exact Int.toNat_natCast n
  rw [readLine_sample _ hbound,readEntry]
  simp only [hstarts,if_true,hmethod,hstatus,hupstream,hcount]
  by_cases hnone : l.2.2 = "none"
  · have hfilter : (some l.2.2.toList).filter (· ≠ "none".toList) = none := by
      rw [hnone]
      rfl
    rw [hfilter]
    simp only [Figures.snap,Figures.addRequests,if_pos hnone]
  · have hfilter : (some l.2.2.toList).filter (· ≠ "none".toList) = some l.2.2.toList := by
      rw [Option.filter,if_pos]
      exact decide_eq_true fun heq => hnone (String.toList_inj.mp heq)
    rw [hfilter]
    simp only [Figures.snap,Figures.addRequests,if_neg hnone]

theorem readLine_labelled {e : Entry} (hlabels : e.labels ≠ []) (hname : e.name ≠ "oxigate_requests_total".toList)
    (hn : e.value.natAbs ≤ 2^53) :
    readLine D f (e.line D) =
      if e.name = "oxigate_upstream_health".toList then
        f.snap (label (e.sample D).nameLabels "upstream".toList)
          fun snap => { snap with healthy := decide (1 ≤ e.value) }
      else if e.name = "oxigate_upstream_connections".toList then
        f.snap (label (e.sample D).nameLabels "upstream".toList) fun snap => { snap with connections := e.value }
      else f := by
  have hactive : (e.sample D).nameLabels ≠ "oxigate_active_connections".toList := nameLabels_ne hlabels (by decide)
  have hretries : (e.sample D).nameLabels ≠ "oxigate_retries_total".toList := nameLabels_ne hlabels (by decide)
  have hstarts : ∀ name ∈ ["oxigate_requests_total","oxigate_upstream_health","oxigate_upstream_connections"],
      startsWith (name.toList++['\x7b']) (e.sample D).nameLabels = decide (e.name = name.toList) := by
    have hbrace : ∀ name ∈ ["oxigate_requests_total","oxigate_upstream_health","oxigate_upstream_connections"],
        '\x7b' ∉ name.toList := by decide
    intro name hmem
    exact startsWith_nameLabels (isSample_sample e) hlabels (hbrace name hmem)
  rw [readLine_sample e hn,readEntry,hstarts _ (by decide),hstarts _ (by decide),hstarts _ (by decide)]
  simp only [decide_eq_true_eq,if_neg hname,if_neg hactive,if_neg hretries,atLeastOne_ofInt _ hn,asI64_ofInt _ hn]

theorem readLine_plain {e : Entry} (hlabels : e.labels = []) (hn : e.value.natAbs ≤ 2^53) :
    readLine D f (e.line D) =
      if e.name = "oxigate_active_connections".toList then { f with active := e.value }
      else if e.name = "oxigate_retries_total".toList then { f with retries := e.value.toNat }
      else f := by
  have hnameLabels : (e.sample D).nameLabels = e.name := by
    simp [Sample.nameLabels,Entry.sample,hlabels]
  have hbrace := (isName_name e).brace
  rw [readLine_sample e hn,hnameLabels,readEntry]
  simp only [startsWith_no_brace hbrace,Bool.false_eq_true,if_false,asI64_ofInt _ hn,asU64_ofInt _ hn]

theorem readLine_entry {e : Entry} (h : e.Plain) (hn : e.value.natAbs ≤ 2^53) :
    readLine D f (e.line D) = f.note e := by
  have hupstream : ∀ {e : Entry} {u : String}, e.labels = [("upstream".toList,u.toList)] → PlainLabel u →
      label (e.sample D).nameLabels "upstream".toList = some u.toList :=
    fun hlabels hu => label_nameLabels [] isKey_upstream (isSample_sample _) hlabels (List.forall_mem_nil _) hu.plain
  have hdiffer : ["oxigate_requests_total","oxigate_upstream_connections","oxigate_upstream_health",
      "oxigate_active_connections","oxigate_rate_limit_allows_total","oxigate_rate_limit_rejects_total",
      "oxigate_retries_total"].Pairwise fun name other => name.toList ≠ other.toList := by decide
  simp only [List.pairwise_cons,List.forall_mem_cons] at hdiffer
  obtain ⟨⟨hconnections,hhealth,-⟩,⟨hconnections_health,-⟩,-,⟨hallows,hrejects,hretries,-⟩,⟨-,hallows_retries,-⟩,
    ⟨hrejects_retries,-⟩,-⟩ := hdiffer
  cases e with
  | requests l n => exact readLine_requests h (by simpa [Entry.value] using hn)
  | connections u n =>
    rw [readLine_labelled (e := .connections u n) (List.cons_ne_nil _ _) hconnections.symm hn,hupstream rfl h]
    exact (if_neg hconnections_health).trans (if_pos rfl)
  | health u n =>
    rw [readLine_labelled (e := .health u n) (List.cons_ne_nil _ _) hhealth.symm hn,hupstream rfl h]
    exact if_pos rfl
  | active n =>
    rw [readLine_plain rfl hn]
    exact if_pos rfl
  | allows n =>
    rw [readLine_plain rfl hn]
    exact (if_neg hallows.symm).trans (if_neg hallows_retries)
  | rejects n =>
    rw [readLine_plain rfl hn]
    exact (if_neg hrejects.symm).trans (if_neg hrejects_retries)
  | retries n =>
    rw [readLine_plain rfl hn]
    exact (if_neg hretries.symm).trans (if_pos rfl)

end Entries

section Figuring

/-- A registry whose label values can be read back, with numbers up to a bound. -/
structure Readable (bound : ℕ) (r : Registry) : Prop where
  requests : ∀ l n, r.requestsTotal.lookup l = some n → PlainRequest l ∧ n ≤ bound
  connections : ∀ u n, r.upstreamConnections.lookup u = some n → PlainLabel u ∧ n.natAbs ≤ bound
  health : ∀ u n, r.upstreamHealth.lookup u = some n → PlainLabel u ∧ n.natAbs ≤ bound
  active : r.activeConnections.natAbs ≤ bound
  allows : r.rateLimitAllows ≤ bound
  rejects : r.rateLimitRejects ≤ bound
  retries : r.retriesTotal ≤ bound

theorem mem_children {K V : Type} [DecidableEq K] {c : Children K V} {e : K × V} :
    e ∈ children c ↔ c.lookup e.1 = some e.2 := by
  rw [← Option.mem_def,AList.mem_lookup_iff]
  constructor
  · intro h
    obtain ⟨x,hx,rfl⟩ := List.mem_map.mp h
    exact hx
  · intro h
    exact List.mem_map.mpr ⟨_,h,rfl⟩

theorem Readable.entries {bound : ℕ} {r : Registry} (h : Readable bound r) :
    ∀ e ∈ entries r, e.Plain ∧ e.value.natAbs ≤ bound := by
  intro e he
  simp only [Stats.entries,List.mem_append,List.mem_map,List.mem_cons,List.not_mem_nil,or_false] at he
  rcases he with ((⟨c,hc,rfl⟩ | ⟨c,hc,rfl⟩) | ⟨c,hc,rfl⟩) | rfl | rfl | rfl | rfl
  · obtain ⟨hplain,hn⟩ := h.requests _ _ (mem_children.mp hc)
    exact ⟨hplain,by simpa [Entry.value] using hn⟩
  · exact h.connections _ _ (mem_children.mp hc)
  · exact h.health _ _ (mem_children.mp hc)
  · exact ⟨trivial,h.active⟩
  · exact ⟨trivial,by simpa [Entry.value] using h.allows⟩
  · exact ⟨trivial,by simpa [Entry.value] using h.rejects⟩
  · exact ⟨trivial,by simpa [Entry.value] using h.retries⟩

def figures (es : List Entry) : Figures := es.foldl Figures.note .start

/-- The statistics are figured from the text as from the samples themselves. -/
theorem readText_gather [Prometheus D] {r : Registry} (h : Readable (2^53) r) :
    ∃ es : List Entry, es.Perm (entries r) ∧ readText D (gather D r) = figures es := by
  have hentries := h.entries
  obtain ⟨es,hperm,hlines⟩ := Prometheus.lines_encode (D := D) r fun e he => (hentries e he).1.labels
  refine ⟨es,hperm,?_⟩
  have hasides : ∀ (f : Figures) (line : Text), readLine D f line = if !isAside line then readLine D f line else f := by
    intro f line
    cases haside : isAside line with
    | false => rfl
    | true => exact readLine_aside haside f
  have hread : readText D (gather D r) =
      ((lines (gather D r)).filter fun line => !isAside line).foldl (readLine D) .start := by
    rw [List.foldl_filter,readText]
    exact List.foldl_ext _ _ _ fun f line _ => hasides f line
  rw [hread,gather,hlines,List.foldl_map]
  refine List.foldl_ext _ _ _ ?_
  intro f e he
  obtain ⟨hplain,hn⟩ := hentries e (hperm.subset he)
  exact readLine_entry hplain hn

end Figuring

section Whole

theorem integer_line (n : ℤ) : ∀ c ∈ Json.integer n, c ≠ ' ' ∧ c ≠ '\n' ∧ c ≠ '\r' := by
  have hdigits : ∀ c ∈ Nat.toDigits 10 n.natAbs, c ≠ ' ' ∧ c ≠ '\n' ∧ c ≠ '\r' := by
    intro c hc
    have hdigit : c.isDigit = true := Nat.isDigit_of_mem_toDigits (by omega) (by omega) hc
    refine ⟨?_,?_,?_⟩ <;> (rintro rfl; revert hdigit; decide)
  unfold Json.integer
  split
  · exact List.forall_mem_cons.mpr ⟨by decide,hdigits⟩
  · exact hdigits

/-- Exact numbers, to run the model with. -/
instance : MetricNumber ℤ where
  ofInt n := n
  zero := 0
  display := Json.integer
  parse text := (Json.readNumber text).map Prod.fst
  asU64 := Int.toNat
  asI64 n := n
  atLeastOne n := decide (1 ≤ n)
  display_line := integer_line
  parse_display n _ := by
    have hread : Json.readNumber (Json.integer n++[]) = some (n,[]) :=
      Json.readNumber_integer n fun c hc => by cases hc
    rw [List.append_nil] at hread
    rw [hread]
    rfl
  asU64_ofInt _ _ := rfl
  asI64_ofInt _ _ := rfl
  atLeastOne_ofInt _ _ := rfl

/-- The samples as they come, without comments. -/
instance : Prometheus ℤ where
  encode r := ((entries r).map (Entry.line ℤ)).flatMap (·++['\n'])
  lines_encode r h := ⟨entries r,.rfl,lines_samples h⟩

end Whole

section Growth

open Proxy

def PlainMetric : Metric → Prop
  | .requestsTotal method status upstream => PlainRequest (method,status,upstream)
  | .upstreamConnectionsInc upstream => PlainLabel upstream
  | .upstreamConnectionsDec upstream => PlainLabel upstream
  | _ => True

variable {r : Registry} {n m : ℕ}

theorem readable_new : Readable 0 Registry.new :=
  ⟨fun _ _ h => (nomatch h),fun _ _ h => (nomatch h),fun _ _ h => (nomatch h),le_rfl,le_rfl,le_rfl,le_rfl⟩

theorem Readable.mono (h : Readable n r) (hle : n ≤ m) : Readable m r where
  requests l k hk := (h.requests l k hk).imp_right fun hn => hn.trans hle
  connections u k hk := (h.connections u k hk).imp_right fun hn => hn.trans hle
  health u k hk := (h.health u k hk).imp_right fun hn => hn.trans hle
  active := h.active.trans hle
  allows := h.allows.trans hle
  rejects := h.rejects.trans hle
  retries := h.retries.trans hle

/-- A metric adds one at most. -/
theorem Readable.record (h : Readable n r) {metric : Metric} (hm : PlainMetric metric) :
    Readable (n+1) (r.record metric) := by
  have hlater := h.mono n.le_succ
  have hgauge : ∀ u, (r.upstreamConnections.value 0 u).natAbs ≤ n :=
    Children.value_of_children (P := fun k => k.natAbs ≤ n) (fun u k hk => (h.connections u k hk).2) (Nat.zero_le n)
  have hcount : ∀ l, r.requestsTotal.value 0 l ≤ n :=
    Children.value_of_children (fun l k hk => (h.requests l k hk).2) (Nat.zero_le n)
  cases metric with
  | requestsTotal method status upstream =>
    exact { hlater with requests := Children.lookup_update hlater.requests ⟨hm,Nat.succ_le_succ (hcount _)⟩ }
  | requestDuration upstream duration => exact { hlater with }
  | upstreamConnectionsInc upstream =>
    have hnext := hgauge upstream
    exact { hlater with connections := Children.lookup_update hlater.connections ⟨hm,by omega⟩ }
  | upstreamConnectionsDec upstream =>
    have hnext := hgauge upstream
    exact { hlater with connections := Children.lookup_update hlater.connections ⟨hm,by omega⟩ }
  | rateLimitRejects => exact { hlater with rejects := Nat.succ_le_succ h.rejects }
  | rateLimitAllows => exact { hlater with allows := Nat.succ_le_succ h.allows }
  | retriesTotal => exact { hlater with retries := Nat.succ_le_succ h.retries }

theorem Readable.setHealth (h : Readable n r) {upstream : String} (hu : PlainLabel upstream) (healthy : Bool) :
    Readable (n+1) (r.setHealth upstream healthy) := by
  have hlater := h.mono n.le_succ
  refine { hlater with health := Children.lookup_update hlater.health ⟨hu,?_⟩ }
  cases healthy <;> simp

end Growth

end Stats
end OxiGate
