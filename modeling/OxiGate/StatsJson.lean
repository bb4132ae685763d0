import OxiGate.Stats

/-! What the dashboard is told: the statistics are a JSON text, and read as JSON they show what the
registry has counted, in whatever order the hash maps are iterated. -/
namespace OxiGate
namespace Stats

open RustText Net Metrics Exposition MetricNumber

variable {D : Type} [MetricNumber D]

section Json

open Json

theorem jsonStr_eq (s : Text) : jsonStr s = quote s := by
  have hone : ∀ c : Char, (if c = '\\' then ['\\','\\'] else [c]).flatMap
      (fun c => if c = '"' then ['\\','"'] else [c]) = Json.escape c := by
    intro c
    unfold Json.escape
    split
    · rfl
    · simp
  simp only [jsonStr,quote,List.flatMap_assoc,hone]

def natural (n : ℕ) : Value := .num n

theorem write_natural (n : ℕ) : write (natural n) = decimal n := by
  simp [natural,write,integer,decimal]

def countsValue (m : List (Text × ℕ)) : Value := .obj (m.map fun e => (e.1,natural e.2))

theorem write_countsValue (m : List (Text × ℕ)) : write (countsValue m) = mapToJsonObj m := by
  simp [countsValue,write_obj,mapToJsonObj,jsonStr_eq,write_natural,Function.comp_def]

def snapValue (e : Text × UpstreamSnap) : Value :=
  .obj [("address".toList,.str e.1),("healthy".toList,.bool e.2.healthy),
    ("connections".toList,.num e.2.connections),("requests".toList,natural e.2.requests)]

theorem write_bool (b : Bool) : write (.bool b) = (if b then "true" else "false").toList := by
  cases b with
  | false => rw [write]; decide
  | true => rw [write]; decide

theorem fieldName_eq {key : String}
    (h : key ∈ ["address","healthy","connections","requests","version","uptime_secs","requests_total",
      "active_connections","retries_total","rate_limit_allows","rate_limit_rejects","by_status","by_method",
      "upstreams"]) : fieldName key = quote key.toList++[':'] := by
  have hplain : key.toList.flatMap Json.escape = key.toList := by
    revert key
    decide
  simp [fieldName,quote,hplain]

theorem write_snapValue (e : Text × UpstreamSnap) : write (snapValue e) = snapJson e := by
  have hstr : write (.str e.1) = quote e.1 := by rw [write]
  have hnum : write (.num e.2.connections) = integer e.2.connections := by rw [write]
  rw [snapValue,write,snapJson,fieldName_eq (by decide),fieldName_eq (by decide),fieldName_eq (by decide),
    fieldName_eq (by decide)]
  simp only [writeFields,hstr,hnum,write_natural,write_bool,jsonStr_eq,List.append_assoc,List.cons_append,
    List.nil_append]

/-- The statistics as a value. -/
def statsValue (it : Iteration) (state : DashboardState) (f : Figures) : Value :=
  .obj [("version".toList,.str state.version.toList),("uptime_secs".toList,natural state.uptime),
    ("requests_total".toList,natural f.requestsTotal),("active_connections".toList,.num f.active),
    ("retries_total".toList,natural f.retries),("rate_limit_allows".toList,natural (state.limiter.getD (0,0)).1),
    ("rate_limit_rejects".toList,natural (state.limiter.getD (0,0)).2),
    ("by_status".toList,countsValue (it.entries f.byStatus)),("by_method".toList,countsValue (it.entries f.byMethod)),
    ("upstreams".toList,.arr ((it.entries f.upstreams).map snapValue))]

theorem statsJson_eq [Prometheus D] (it : Iteration) (state : DashboardState) :
    statsJson D it state = write (statsValue it state (readText D (gather D state.metrics))) := by
  have hstr : write (.str state.version.toList) = quote state.version.toList := by rw [write]
  have hnum : ∀ n, write (.num n) = integer n := fun n => by rw [write]
  have hsnaps : (it.entries (readText D (gather D state.metrics)).upstreams).map snapJson =
      ((it.entries (readText D (gather D state.metrics)).upstreams).map snapValue).map write := by
    rw [List.map_map]
    exact List.map_congr_left fun e _ => (write_snapValue e).symm
  rw [statsValue,write,statsJson,fieldName_eq (by decide),fieldName_eq (by decide),fieldName_eq (by decide),
    fieldName_eq (by decide),fieldName_eq (by decide),fieldName_eq (by decide),fieldName_eq (by decide),
    fieldName_eq (by decide),fieldName_eq (by decide),fieldName_eq (by decide)]
  simp only [writeFields,hstr,hnum,hsnaps,write_natural,write_countsValue,write_arr,jsonStr_eq,List.append_assoc,
    List.cons_append,List.nil_append]

end Json

section Figures

variable {r : Registry} {es : List Entry}

namespace Entry

def asRequests : Entry → Option ((String × String × String) × ℕ)
  | .requests l n => some (l,n)
  | _ => none

def asConnections : Entry → Option (String × ℤ)
  | .connections u n => some (u,n)
  | _ => none

def asHealth : Entry → Option (String × ℤ)
  | .health u n => some (u,n)
  | _ => none

def asActive : Entry → Option ℤ
  | .active n => some n
  | _ => none

def asRetries : Entry → Option ℕ
  | .retries n => some n
  | _ => none

def upstream : Entry → Option String
  | .requests l _ => if l.2.2 = "none" then none else some l.2.2
  | .connections u _ => some u
  | .health u _ => some u
  | _ => none

end Entry

theorem filterMap_entries {B : Type} (select : Entry → Option B) :
    (entries r).filterMap select =
      (children r.requestsTotal).filterMap (fun c => select (.requests c.1 c.2))++
        (children r.upstreamConnections).filterMap (fun c => select (.connections c.1 c.2))++
        (children r.upstreamHealth).filterMap (fun c => select (.health c.1 c.2))++
        [.active r.activeConnections,.allows r.rateLimitAllows,.rejects r.rateLimitRejects,
          .retries r.retriesTotal].filterMap select := by
  simp only [entries,List.filterMap_append,List.filterMap_map,Function.comp_def]

section Selected

variable (hes : es.Perm (entries r))
include hes

theorem requests_perm : (es.filterMap Entry.asRequests).Perm (children r.requestsTotal) := by
  have hperm := hes.filterMap Entry.asRequests
  rw [filterMap_entries] at hperm
  simpa [Entry.asRequests,List.filterMap_cons] using hperm

theorem connections_perm : (es.filterMap Entry.asConnections).Perm (children r.upstreamConnections) := by
  have hperm := hes.filterMap Entry.asConnections
  rw [filterMap_entries] at hperm
  simpa [Entry.asConnections,List.filterMap_cons] using hperm

theorem health_perm : (es.filterMap Entry.asHealth).Perm (children r.upstreamHealth) := by
  have hperm := hes.filterMap Entry.asHealth
  rw [filterMap_entries] at hperm
  simpa [Entry.asHealth,List.filterMap_cons] using hperm

theorem active_selected : es.filterMap Entry.asActive = [r.activeConnections] := by
  have hperm := hes.filterMap Entry.asActive
  rw [filterMap_entries] at hperm
  exact List.perm_singleton.mp (by simpa [Entry.asActive,List.filterMap_cons] using hperm)

theorem retries_selected : es.filterMap Entry.asRetries = [r.retriesTotal] := by
  have hperm := hes.filterMap Entry.asRetries
  rw [filterMap_entries] at hperm
  exact List.perm_singleton.mp (by simpa [Entry.asRetries,List.filterMap_cons] using hperm)

end Selected

/-- What the samples do to one part of the figures, where the others leave it alone. -/
theorem foldl_note {A B : Type} (part : Figures → A) (select : Entry → Option B) (act : A → B → A)
    (h : ∀ f e, part (f.note e) = ((select e).map (act (part f))).getD (part f)) (f : Figures) :
    part (es.foldl Figures.note f) = (es.filterMap select).foldl act (part f) := by
  induction es generalizing f with
  | nil => rfl
  | cons e es ih =>
    rw [List.foldl_cons,ih,h,List.filterMap_cons]
    cases select e <;> rfl

theorem foldl_add {α : Type} (w : α → ℕ) (xs : List α) (n : ℕ) :
    xs.foldl (fun n x => n+w x) n = n+(xs.map w).sum := by
  induction xs generalizing n with
  | nil => rfl
  | cons x xs ih => simp [ih,Nat.add_assoc]

/-- What the samples of the request counter come to that have such labels. -/
theorem sum_requests (hes : es.Perm (entries r)) (p : String × String × String → Bool) :
    (((es.filterMap Entry.asRequests).filter fun e => p e.1).map Prod.snd).sum = r.total p := by
  have hperm := ((requests_perm hes).filter fun e => p e.1).map Prod.snd
  rw [hperm.sum_eq,Registry.total,children,List.filter_map,List.map_map]
  rfl

theorem exists_lookup {K V : Type} [DecidableEq K] {c : Children K V} {k : K} (h : k ∈ c) : ∃ v, c.lookup k = some v :=
  Option.isSome_iff_exists.mp (AList.lookup_isSome.mpr h)

theorem exists_children {K V : Type} [DecidableEq K] (c : Children K V) (p : K → Prop) :
    (∃ e ∈ children c, p e.1) ↔ ∃ k ∈ c, p k := by
  constructor
  · rintro ⟨e,he,hp⟩
    exact ⟨e.1,AList.lookup_isSome.mp (Option.isSome_of_eq_some (mem_children.mp he)),hp⟩
  · rintro ⟨k,hk,hp⟩
    obtain ⟨v,hv⟩ := exists_lookup hk
    exact ⟨(k,v),mem_children.mpr hv,hp⟩

theorem requestsTotal_figures (hes : es.Perm (entries r)) : (figures es).requestsTotal = r.total fun _ => true := by
  have hparts : (figures es).requestsTotal = (es.filterMap Entry.asRequests).foldl (fun n e => n+e.2) 0 :=
    foldl_note Figures.requestsTotal _ _ (fun f e => by cases e <;> rfl) _
  rw [hparts,foldl_add,Nat.zero_add,← sum_requests hes fun _ => true,List.filter_true]

theorem active_figures (hes : es.Perm (entries r)) : (figures es).active = r.activeConnections := by
  have hparts : (figures es).active = (es.filterMap Entry.asActive).foldl (fun _ n => n) 0 :=
    foldl_note Figures.active _ _ (fun f e => by cases e <;> rfl) _
  rw [hparts,active_selected hes]
  rfl

theorem retries_figures (hes : es.Perm (entries r)) : (figures es).retries = r.retriesTotal := by
  have hparts : (figures es).retries = (es.filterMap Entry.asRetries).foldl (fun _ n => n) 0 :=
    foldl_note Figures.retries _ _ (fun f e => by cases e <;> rfl) _
  rw [hparts,retries_selected hes]
  rfl

def countsBy (key : String × String × String → String) (es : List Entry) : Children Text ℕ :=
  Children.updates (fun e => (key e.1).toList) (fun e n => n+e.2) 0 ∅ (es.filterMap Entry.asRequests)

theorem byStatus_figures : (figures es).byStatus = countsBy (fun l => l.2.1) es :=
  foldl_note Figures.byStatus _ _ (fun f e => by cases e <;> rfl) _

theorem byMethod_figures : (figures es).byMethod = countsBy (fun l => l.1) es :=
  foldl_note Figures.byMethod _ _ (fun f e => by cases e <;> rfl) _

theorem value_countsBy (hes : es.Perm (entries r)) (key : String × String × String → String) (s : String) :
    (countsBy key es).value 0 s.toList = r.total fun l => key l = s := by
  rw [countsBy,Children.value_updates,foldl_add,← sum_requests hes]
  simp only [String.toList_inj]
  exact Nat.zero_add _

theorem mem_countsBy (hes : es.Perm (entries r)) (key : String × String × String → String) (s : String) :
    s.toList ∈ countsBy key es ↔ ∃ l ∈ r.requestsTotal, key l = s := by
  rw [countsBy,Children.mem_updates]
  simp only [String.toList_inj,AList.notMem_empty,or_false,(requests_perm hes).mem_iff]
  exact exists_children _ fun l => key l = s

def shownSnap (r : Registry) (u : String) : UpstreamSnap where
  healthy := decide (1 ≤ r.upstreamHealth.value 0 u)
  connections := r.upstreamConnections.value 0 u
  requests := if u = "none" then 0 else r.total fun l => l.2.2 = u

/-- An upstream that one of the metrics has a child for. -/
def Known (r : Registry) (u : String) : Prop :=
  u ∈ r.upstreamHealth ∨ u ∈ r.upstreamConnections ∨ u ≠ "none" ∧ ∃ l ∈ r.requestsTotal, l.2.2 = u

theorem filter_entries {K V : Type} [DecidableEq K] {l : List (Sigma fun _ : K => V)} (hl : l.NodupKeys) (k : K) :
    (l.map fun e => (e.1,e.2)).filter (fun e => e.1 = k) = ((l.dlookup k).map fun v => (k,v)).toList := by
  induction l with
  | nil => rfl
  | cons e l ih =>
    rcases e with ⟨k',v⟩
    obtain ⟨hnew,hrest⟩ := List.nodupKeys_cons.mp hl
    have htail := ih hrest
    by_cases hk : k' = k
    · subst hk
      have hnone : l.dlookup k' = none := List.dlookup_eq_none.mpr hnew
      rw [hnone] at htail
      simp only [List.map_cons,List.filter_cons,decide_true,if_true,List.dlookup_cons_eq,htail]
      rfl
    · have hskip : (⟨k',v⟩::l : List (Sigma fun _ : K => V)).dlookup k = l.dlookup k :=
        List.dlookup_cons_ne l _ (Ne.symm hk)
      simp only [List.map_cons,List.filter_cons,hk,decide_false,Bool.false_eq_true,if_false,htail,hskip]

/-- A gauge is read as the value of its one child, wherever its sample stands. -/
theorem foldl_gauge {V W : Type} {c : Children String V} {cs : List (String × V)} (h : cs.Perm (children c))
    (u : String) (shown : V → W) (w : W) :
    (cs.filter fun e => e.1 = u).foldl (fun _ e => shown e.2) w = ((c.lookup u).map shown).getD w := by
  have hperm := h.filter fun e => e.1 = u
  rw [children,filter_entries c.nodupKeys u] at hperm
  change _ = ((c.entries.dlookup u).map shown).getD w
  cases hchild : c.entries.dlookup u with
  | none =>
    rw [hchild] at hperm
    rw [hperm.eq_nil]
    rfl
  | some v =>
    rw [hchild] at hperm
    rw [List.perm_singleton.mp hperm]
    rfl

theorem value_upstreams_note (f : Figures) (e : Entry) (u : String) :
    Children.value .default (f.note e).upstreams u.toList =
      let snap := Children.value .default f.upstreams u.toList
      match e with
      | .requests l n => if l.2.2 = u ∧ u ≠ "none" then { snap with requests := snap.requests+n } else snap
      | .connections v n => if v = u then { snap with connections := n } else snap
      | .health v n => if v = u then { snap with healthy := decide (1 ≤ n) } else snap
      | _ => snap := by
  cases e with
  | requests l n =>
    simp only [Figures.note,Figures.addRequests]
    by_cases hnone : l.2.2 = "none"
    · rw [if_pos hnone,if_neg fun h => h.2 (h.1.symm.trans hnone)]
    · rw [if_neg hnone,Children.value_update]
      by_cases hu : l.2.2 = u
      · rw [if_pos (congrArg String.toList hu.symm),if_pos ⟨hu,fun h => hnone (hu.trans h)⟩,hu]
      · rw [if_neg fun h => hu (String.toList_inj.mp h).symm,if_neg fun h => hu h.1]
  | connections v n =>
    simp only [Figures.note,Figures.snap,Children.value_update,String.toList_inj,eq_comm (a := u)]
    by_cases hu : v = u
    · rw [if_pos hu,if_pos hu,hu]
    · rw [if_neg hu,if_neg hu]
  | health v n =>
    simp only [Figures.note,Figures.snap,Children.value_update,String.toList_inj,eq_comm (a := u)]
    by_cases hu : v = u
    · rw [if_pos hu,if_pos hu,hu]
    · rw [if_neg hu,if_neg hu]
  | _ => rfl

theorem healthy_upstreams (hes : es.Perm (entries r)) (u : String) :
    (Children.value .default (figures es).upstreams u.toList).healthy = decide (1 ≤ r.upstreamHealth.value 0 u) := by
  have hparts : (Children.value .default (figures es).upstreams u.toList).healthy =
      (es.filterMap fun e => e.asHealth.filter fun c => c.1 = u).foldl (fun _ c => decide (1 ≤ c.2)) false := by
    refine foldl_note (fun f => (Children.value .default f.upstreams u.toList).healthy) _ _ ?_ _
    intro f e
    simp only [value_upstreams_note]
    cases e with
    | requests l n => dsimp only; split <;> rfl
    | connections v n => dsimp only; split <;> rfl
    | health v n => by_cases hu : v = u <;> simp [Entry.asHealth,Option.filter,hu]
    | _ => rfl
  rw [hparts,← List.filter_filterMap,foldl_gauge (health_perm hes) u fun n => decide (1 ≤ n)]
  rw [Children.value]
  cases r.upstreamHealth.lookup u <;> rfl

theorem connections_upstreams (hes : es.Perm (entries r)) (u : String) :
    (Children.value .default (figures es).upstreams u.toList).connections = r.upstreamConnections.value 0 u := by
  have hparts : (Children.value .default (figures es).upstreams u.toList).connections =
      (es.filterMap fun e => e.asConnections.filter fun c => c.1 = u).foldl (fun _ c => c.2) 0 := by
    refine foldl_note (fun f => (Children.value .default f.upstreams u.toList).connections) _ _ ?_ _
    intro f e
    simp only [value_upstreams_note]
    cases e with
    | requests l n => dsimp only; split <;> rfl
    | connections v n => by_cases hu : v = u <;> simp [Entry.asConnections,Option.filter,hu]
    | health v n => dsimp only; split <;> rfl
    | _ => rfl
  rw [hparts,← List.filter_filterMap,foldl_gauge (connections_perm hes) u fun n => n]
  rw [Children.value,Option.map_id']

theorem requests_upstreams (hes : es.Perm (entries r)) (u : String) :
    (Children.value .default (figures es).upstreams u.toList).requests =
      if u = "none" then 0 else r.total fun l => l.2.2 = u := by
  have hparts : (Children.value .default (figures es).upstreams u.toList).requests =
      (es.filterMap fun e => e.asRequests.filter fun c => c.1.2.2 = u ∧ u ≠ "none").foldl (fun n c => n+c.2) 0 := by
    refine foldl_note (fun f => (Children.value .default f.upstreams u.toList).requests) _ _ ?_ _
    intro f e
    simp only [value_upstreams_note]
    cases e with
    | requests l n => by_cases hu : l.2.2 = u ∧ u ≠ "none" <;> simp [Entry.asRequests,Option.filter,hu]
    | connections v n => dsimp only; split <;> rfl
    | health v n => dsimp only; split <;> rfl
    | _ => rfl
  rw [hparts,← List.filter_filterMap,foldl_add,Nat.zero_add,
    sum_requests hes fun l => decide (l.2.2 = u ∧ u ≠ "none")]
  by_cases hnone : u = "none"
  · simp [hnone,Registry.total]
  · simp [hnone]

theorem value_upstreams (hes : es.Perm (entries r)) (u : String) :
    Children.value .default (figures es).upstreams u.toList = shownSnap r u :=
  UpstreamSnap.ext (healthy_upstreams hes u) (connections_upstreams hes u) (requests_upstreams hes u)

theorem mem_upstreams_note (f : Figures) (e : Entry) (u : String) :
    u.toList ∈ (f.note e).upstreams ↔ e.upstream = some u ∨ u.toList ∈ f.upstreams := by
  cases e with
  | requests l n =>
    simp only [Figures.note,Figures.addRequests,Entry.upstream]
    by_cases hnone : l.2.2 = "none"
    · simp [hnone]
    · simp [hnone,Children.mem_update,String.toList_inj,eq_comm]
  | connections v n => simp [Figures.note,Figures.snap,Entry.upstream,Children.mem_update,String.toList_inj,eq_comm]
  | health v n => simp [Figures.note,Figures.snap,Entry.upstream,Children.mem_update,String.toList_inj,eq_comm]
  | _ => simp [Figures.note,Entry.upstream]

theorem mem_foldl_note (f : Figures) (u : String) :
    u.toList ∈ (es.foldl Figures.note f).upstreams ↔ (∃ e ∈ es, e.upstream = some u) ∨ u.toList ∈ f.upstreams := by
  induction es generalizing f with
  | nil => simp
  | cons e es ih =>
    rw [List.foldl_cons,ih,mem_upstreams_note]
    simp [or_assoc,or_left_comm]

theorem mem_upstreams (hes : es.Perm (entries r)) (u : String) : u.toList ∈ (figures es).upstreams ↔ Known r u := by
  have hshown : (∃ e ∈ es, e.upstream = some u) ↔
      (∃ c ∈ children r.requestsTotal, c.1.2.2 = u ∧ u ≠ "none") ∨
        (∃ c ∈ children r.upstreamConnections, c.1 = u) ∨ ∃ c ∈ children r.upstreamHealth, c.1 = u := by
    simp only [hes.mem_iff,entries,List.mem_append,List.mem_map,List.mem_cons,List.not_mem_nil,or_false]
    constructor
    · rintro ⟨e,((⟨c,hc,rfl⟩ | ⟨c,hc,rfl⟩) | ⟨c,hc,rfl⟩) | rfl | rfl | rfl | rfl,hu⟩
      · rw [Entry.upstream] at hu
        split at hu
        · cases hu
        · rename_i hnone
          cases hu
          exact .inl ⟨c,hc,rfl,hnone⟩
      · exact .inr (.inl ⟨c,hc,Option.some.inj hu⟩)
      · exact .inr (.inr ⟨c,hc,Option.some.inj hu⟩)
      all_goals cases hu
    · rintro (⟨c,hc,rfl,hnone⟩ | ⟨c,hc,rfl⟩ | ⟨c,hc,rfl⟩)
      · exact ⟨_,.inl (.inl (.inl ⟨c,hc,rfl⟩)),if_neg hnone⟩
      · exact ⟨_,.inl (.inl (.inr ⟨c,hc,rfl⟩)),rfl⟩
      · exact ⟨_,.inl (.inr ⟨c,hc,rfl⟩),rfl⟩
  have hstart : u.toList ∉ Figures.start.upstreams := AList.notMem_empty _
  rw [figures,mem_foldl_note,hshown,exists_children r.requestsTotal fun l => l.2.2 = u ∧ u ≠ "none",
    exists_children r.upstreamConnections fun v => v = u,exists_children r.upstreamHealth fun v => v = u,Known]
  simp only [hstart,or_false,exists_eq_right]
  constructor
  · rintro (⟨l,hl,hu,hnone⟩ | hconnections | hhealth)
    · exact .inr (.inr ⟨hnone,l,hl,hu⟩)
    · exact .inr (.inl hconnections)
    · exact .inl hhealth
  · rintro (hhealth | hconnections | ⟨hnone,l,hl,hu⟩)
    · exact .inr (.inr hhealth)
    · exact .inr (.inl hconnections)
    · exact .inl ⟨l,hl,hu,hnone⟩

end Figures

section Showing

open Json

theorem lookup_of_mem {V : Type} {l : List (Text × V)} (hl : (l.map Prod.fst).Nodup) {k : Text} {v : V} :
    l.lookup k = some v ↔ (k,v) ∈ l := by
  induction l with
  | nil => simp
  | cons e l ih =>
    obtain ⟨key,w⟩ := e
    obtain ⟨hnew,hrest⟩ := List.nodup_cons.mp hl
    by_cases hk : k = key
    · subst hk
      have hnot : (k,v) ∉ l := fun hmem => hnew (List.mem_map.mpr ⟨_,hmem,rfl⟩)
      simp [hnot,eq_comm]
    · have hbeq : (k == key) = false := by simpa using hk
      simp [List.lookup_cons,hbeq,hk,ih hrest]

variable (it : Iteration) {V : Type} (c : Children Text V)

theorem nodup_entries : ((it.entries c).map Prod.fst).Nodup := by
  have hperm := (it.perm c).map Prod.fst
  rw [hperm.nodup_iff,children,List.map_map]
  exact c.nodupKeys

theorem mem_entries {k : Text} {v : V} : (k,v) ∈ it.entries c ↔ c.lookup k = some v := by
  rw [(it.perm c).mem_iff,mem_children]

theorem lookup_eq_value (fresh : V) {k : Text} {v : V} :
    c.lookup k = some v ↔ k ∈ c ∧ v = Children.value fresh c k := by
  rw [← AList.lookup_isSome,Children.value]
  cases c.lookup k with
  | none => simp
  | some w => simp [eq_comm]

theorem field_countsValue (m : Children Text ℕ) {k : Text} {v : Value} :
    (countsValue (it.entries m)).field k = some v ↔ k ∈ m ∧ v = natural (m.value 0 k) := by
  have hnodup : (((it.entries m).map fun e => (e.1,natural e.2)).map Prod.fst).Nodup := by
    rw [List.map_map]
    exact nodup_entries it m
  rw [countsValue,Value.field,lookup_of_mem hnodup]
  constructor
  · intro h
    obtain ⟨e,he,heq⟩ := List.mem_map.mp h
    cases heq
    obtain ⟨hmem,hvalue⟩ := (lookup_eq_value m 0).mp ((mem_entries it m).mp he)
    exact ⟨hmem,by rw [← hvalue]⟩
  · rintro ⟨hmem,rfl⟩
    have hlookup : m.lookup k = some (m.value 0 k) := (lookup_eq_value m 0).mpr ⟨hmem,rfl⟩
    exact List.mem_map.mpr ⟨(k,m.value 0 k),(mem_entries it m).mpr hlookup,rfl⟩

/-- The value shows what the state has: the totals, a field for each status and method that was counted, and
an entry for each upstream that is known. -/
structure Shows (state : DashboardState) (v : Value) : Prop where
  version : v.field "version".toList = some (.str state.version.toList)
  uptime : v.field "uptime_secs".toList = some (natural state.uptime)
  total : v.field "requests_total".toList = some (natural (state.metrics.total fun _ => true))
  active : v.field "active_connections".toList = some (.num state.metrics.activeConnections)
  retries : v.field "retries_total".toList = some (natural state.metrics.retriesTotal)
  allows : v.field "rate_limit_allows".toList = some (natural (state.limiter.getD (0,0)).1)
  rejects : v.field "rate_limit_rejects".toList = some (natural (state.limiter.getD (0,0)).2)
  byStatus : ∃ o, v.field "by_status".toList = some o ∧ ∀ (s : String) (n : Value), o.field s.toList = some n ↔
    (∃ l ∈ state.metrics.requestsTotal, l.2.1 = s) ∧ n = natural (state.metrics.total fun l => l.2.1 = s)
  byMethod : ∃ o, v.field "by_method".toList = some o ∧ ∀ (s : String) (n : Value), o.field s.toList = some n ↔
    (∃ l ∈ state.metrics.requestsTotal, l.1 = s) ∧ n = natural (state.metrics.total fun l => l.1 = s)
  upstreams : ∃ items, v.field "upstreams".toList = some (.arr items) ∧ ∀ item, item ∈ items ↔
    ∃ u, Known state.metrics u ∧ item = snapValue (u.toList,shownSnap state.metrics u)

def statsNames : List String :=
  ["version","uptime_secs","requests_total","active_connections","retries_total","rate_limit_allows",
    "rate_limit_rejects","by_status","by_method","upstreams"]

/-- The `i`-th field is found under its name. -/
theorem field_of_get {fields : List (Text × Value)}
    (hnames : fields.map Prod.fst = statsNames.map String.toList) {k : Text} {v : Value} (i : ℕ)
    (h : fields[i]? = some (k,v)) : (Value.obj fields).field k = some v := by
  have hnodup : (fields.map Prod.fst).Nodup := by
    rw [hnames]
    exact List.Nodup.map (fun _ _ => String.toList_inj.mp) (by decide)
  exact (lookup_of_mem hnodup).mpr (List.mem_of_getElem? h)

theorem shows_statsValue {state : DashboardState} {es : List Entry} (hes : es.Perm (entries state.metrics)) :
    Shows state (statsValue it state (figures es)) where
  version := field_of_get rfl 0 rfl
  uptime := field_of_get rfl 1 rfl
  total := by
    rw [← requestsTotal_figures hes]
    exact field_of_get rfl 2 rfl
  active := by
    rw [← active_figures hes]
    exact field_of_get rfl 3 rfl
  retries := by
    rw [← retries_figures hes]
    exact field_of_get rfl 4 rfl
  allows := field_of_get rfl 5 rfl
  rejects := field_of_get rfl 6 rfl
  byStatus := by
    refine ⟨countsValue (it.entries (figures es).byStatus),field_of_get rfl 7 rfl,?_⟩
    intro s n
    rw [field_countsValue,byStatus_figures,mem_countsBy hes,value_countsBy hes]
  byMethod := by
    refine ⟨countsValue (it.entries (figures es).byMethod),field_of_get rfl 8 rfl,?_⟩
    intro s n
    rw [field_countsValue,byMethod_figures,mem_countsBy hes,value_countsBy hes]
  upstreams := by
    refine ⟨(it.entries (figures es).upstreams).map snapValue,field_of_get rfl 9 rfl,?_⟩
    intro item
    rw [List.mem_map]
    constructor
    · rintro ⟨⟨k,snap⟩,he,rfl⟩
      obtain ⟨hmem,hsnap⟩ := (lookup_eq_value _ _).mp ((mem_entries it _).mp he)
      rw [← String.toList_ofList (l := k)] at hmem hsnap ⊢
      rw [value_upstreams hes] at hsnap
      exact ⟨String.ofList k,(mem_upstreams hes _).mp hmem,by rw [hsnap]⟩
    · rintro ⟨u,hknown,rfl⟩
      refine ⟨(u.toList,shownSnap state.metrics u),(mem_entries it _).mpr ?_,rfl⟩
      rw [← value_upstreams hes]
      exact (lookup_eq_value _ _).mpr ⟨(mem_upstreams hes u).mpr hknown,rfl⟩

theorem clean_countsValue {m : Children Text ℕ} (h : ∀ s : String, s.toList ∈ m → CleanText s.toList) :
    Clean (countsValue (it.entries m)) := by
  rw [countsValue,Clean,cleanFields_iff]
  intro field hfield
  obtain ⟨e,he,rfl⟩ := List.mem_map.mp hfield
  obtain ⟨hmem,_⟩ := (lookup_eq_value m 0).mp ((mem_entries it m).mp he)
  rw [← String.toList_ofList (l := e.1)] at hmem
  have hclean := h _ hmem
  rw [String.toList_ofList] at hclean
  exact ⟨hclean,by simp only [natural,Clean]⟩

theorem clean_snapValue {e : Text × UpstreamSnap} (h : CleanText e.1) : Clean (snapValue e) := by
  have hnames : ∀ name ∈ ["address","healthy","connections","requests"], CleanText name.toList := by decide
  simp only [snapValue,Clean,CleanFields,natural]
  exact ⟨hnames _ (by decide),h,hnames _ (by decide),trivial,hnames _ (by decide),trivial,hnames _ (by decide),
    trivial,trivial⟩

theorem clean_statsValue {state : DashboardState} {es : List Entry} (hes : es.Perm (entries state.metrics))
    (h : Readable (2^53) state.metrics) (hversion : CleanText state.version.toList) :
    Clean (statsValue it state (figures es)) := by
  have hnames : ∀ name ∈ statsNames, CleanText name.toList := by decide
  have hrequest : ∀ l ∈ state.metrics.requestsTotal, PlainRequest l := by
    intro l hl
    obtain ⟨n,hn⟩ := exists_lookup hl
    exact (h.requests l n hn).1
  have hstatus : Clean (countsValue (it.entries (figures es).byStatus)) := by
    refine clean_countsValue it ?_
    intro s hs
    rw [byStatus_figures] at hs
    obtain ⟨l,hl,rfl⟩ := (mem_countsBy hes _ s).mp hs
    exact (hrequest l hl).status.clean
  have hmethod : Clean (countsValue (it.entries (figures es).byMethod)) := by
    refine clean_countsValue it ?_
    intro s hs
    rw [byMethod_figures] at hs
    obtain ⟨l,hl,rfl⟩ := (mem_countsBy hes _ s).mp hs
    exact (hrequest l hl).method.clean
  have hupstream : ∀ u, Known state.metrics u → CleanText u.toList := by
    rintro u (hmem | hmem | ⟨_,l,hl,rfl⟩)
    · obtain ⟨n,hn⟩ := exists_lookup hmem
      exact (h.health u n hn).1.clean
    · obtain ⟨n,hn⟩ := exists_lookup hmem
      exact (h.connections u n hn).1.clean
    · exact (hrequest l hl).upstream.clean
  have hupstreams : CleanItems ((it.entries (figures es).upstreams).map snapValue) := by
    rw [cleanItems_iff]
    intro item hitem
    obtain ⟨e,he,rfl⟩ := List.mem_map.mp hitem
    obtain ⟨hmem,_⟩ := (lookup_eq_value _ UpstreamSnap.default).mp ((mem_entries it _).mp he)
    rw [← String.toList_ofList (l := e.1)] at hmem
    have hclean := hupstream _ ((mem_upstreams hes _).mp hmem)
    rw [String.toList_ofList] at hclean
    exact clean_snapValue hclean
  simp only [statsValue,Clean,CleanFields,natural]
  exact ⟨hnames _ (by decide),hversion,hnames _ (by decide),trivial,hnames _ (by decide),trivial,
    hnames _ (by decide),trivial,hnames _ (by decide),trivial,hnames _ (by decide),trivial,
    hnames _ (by decide),trivial,hnames _ (by decide),hstatus,
    hnames _ (by decide),hmethod,hnames _ (by decide),hupstreams,trivial⟩

/-- Read as JSON, the statistics show what the registry has, if its label values are plain and its numbers
are kept by `f64`. -/
theorem stats_show_registry [Prometheus D] {state : DashboardState} (h : Readable (2^53) state.metrics)
    (hversion : CleanText state.version.toList) :
    ∃ v, parse (statsJson D it state) = some v ∧ Shows state v := by
  obtain ⟨es,hes,hread⟩ := readText_gather (D := D) h
  refine ⟨statsValue it state (figures es),?_,shows_statsValue it hes⟩
  rw [statsJson_eq,hread]
  exact parse_write (clean_statsValue it hes h hversion)

/-- One request has been counted, and another awaits its answer. -/
def busyState : DashboardState where
  metrics := (Registry.new.record (.requestsTotal "GET" "200" "http://10.0.0.1:80")).record
    (.upstreamConnectionsInc "http://10.0.0.1:80")
  limiter := some (2,0)
  uptime := 60
  version := "0.1.0"

theorem stats_show_registry_busy :
    ∃ v, parse (statsJson ℤ Iteration.inserted busyState) = some v ∧ Shows busyState v := by
  have hupstream : PlainLabel "http://10.0.0.1:80" := by decide
  have hcounted : PlainMetric (.requestsTotal "GET" "200" "http://10.0.0.1:80") :=
    ⟨by decide,by decide,hupstream,by decide,by decide⟩
  have hraised : PlainMetric (.upstreamConnectionsInc "http://10.0.0.1:80") := hupstream
  have hmetrics : Readable 2 busyState.metrics := (readable_new.record hcounted).record hraised
  exact stats_show_registry Iteration.inserted (hmetrics.mono (by decide)) (by decide)

end Showing

end Stats
end OxiGate
