import OxiGate.Requests
import OxiGate.StatsJson

/-! What the dashboard says of a run. A request is counted at its end and under the status of its answer,
but for the exits that count nothing; a request that is dropped is not counted. -/
namespace OxiGate
namespace Telemetry

open RustText Net Http Lb Interaction Runs Tasks Guards Proxy Metrics Exposition Stats Requests
open Accounting hiding Event

variable {F : Type} [RateLimit.F64 F]

def plainAnswer : (op : Op) → op.Ans → Prop
  | .selectSticky _ _, a => ∀ u, a = some u → PlainLabel u.address
  | .selectExcluding _ _, a => ∀ u, a = some u → PlainLabel u.address
  | .select _, a => ∀ u, a = some u → PlainLabel u.address
  | _, _ => True

def PlainPools (s : Balancers) : Prop := ∀ lb, ∀ u ∈ (s lb).upstreams, PlainLabel u.address

def note : Op → List (String × String × String)
  | .metric m => Registry.counts m
  | _ => []

/-- Labels can be read back, and nothing is awaited once the request is counted. -/
def mayNote : Op → List (String × String × String) → Prop
  | .metric m, _ => PlainMetric m
  | .collectBody, noted => noted = []
  | .request _ _ _, noted => noted = []
  | _, _ => True

/-- The statuses of the exits that count nothing. -/
def uncountedStatuses : List ℕ := [400,502,503]

/-- The request is counted under the status of the answer, or leaves by an exit that counts nothing. -/
def Settles (response : Response) (noted : List (String × String × String)) : Prop :=
  (∃ method upstream, noted = [(method,toString response.status,upstream)]) ∨
    noted = [] ∧ response.status ∈ uncountedStatuses

structure PlainMethod (method : String) : Prop where
  label : PlainLabel method
  equals : '=' ∉ method.toList

section Program

theorem digit_of_status {n : ℕ} : ∀ c ∈ (toString n).toList, c.isDigit = true := by
  intro c hc
  rw [Nat.toString_eq_repr,Nat.toList_repr] at hc
  exact Nat.isDigit_of_mem_toDigits (by omega) (by omega) hc

theorem status_inj {m n : ℕ} : toString m = toString n ↔ m = n := by
  constructor
  · intro h
    have hdigits : Nat.toDigits 10 m = Nat.toDigits 10 n := by
      rw [← Nat.toList_repr,← Nat.toList_repr,← Nat.toString_eq_repr,← Nat.toString_eq_repr,h]
    rw [← Nat.ofDigitChars_ten_toDigits (n := m),hdigits,Nat.ofDigitChars_ten_toDigits]
  · rintro rfl
    rfl

theorem plainLabel_status (n : ℕ) : PlainLabel (toString n) := by
  refine ⟨?_,?_⟩
  · intro c hc
    have hdigit := digit_of_status c hc
    simp only [Char.isDigit,Bool.and_eq_true,decide_eq_true_eq] at hdigit
    exact (by decide : 32 ≤ 48).trans (UInt32.le_iff_toNat_le.mp hdigit.1)
  · intro c hc
    have hdigit := digit_of_status c hc
    refine ⟨?_,?_,?_⟩ <;> (rintro rfl; revert hdigit; decide)

theorem plainRequest_status {method upstream : String} (hmethod : PlainMethod method) (status : ℕ)
    (hupstream : PlainLabel upstream) : PlainRequest (method,toString status,upstream) := by
  refine ⟨hmethod.label,plainLabel_status status,hupstream,hmethod.equals,?_⟩
  intro hmem
  have hdigit := digit_of_status _ hmem
  revert hdigit
  decide

theorem plainLabel_none : PlainLabel "none" := by decide

variable [HttpCrate] {β γ : Type}

def Silent (p : Handler β) : Prop := Notes plainAnswer note mayNote p [] fun _ noted => noted = []

omit [HttpCrate] in
theorem Silent.bind {p : Handler β} {f : β → Handler γ} {Q : γ → List (String × String × String) → Prop}
    (hp : Silent p) (hf : ∀ b, Notes plainAnswer note mayNote (f b) [] Q) :
    Notes plainAnswer note mayNote (p >>= f) [] Q := by
  refine Notes.bind hp ?_
  rintro b noted rfl
  exact hf b

omit [HttpCrate] in
theorem silent_perform {op : Op} (hmay : mayNote op []) (hnote : note op = []) : Silent (perform op) :=
  ⟨hmay,fun _ _ => by rw [hnote]; rfl⟩

omit [HttpCrate] in
theorem reject_notes {method : String} (hmethod : PlainMethod method) (status : ℕ) (msg : String) :
    Notes plainAnswer note mayNote (reject method status msg) [] Settles :=
  ⟨plainRequest_status hmethod status plainLabel_none,fun _ _ => Or.inl ⟨method,"none",rfl⟩⟩

omit [HttpCrate] in
theorem countAnswer_notes {method address : String} (hmethod : PlainMethod method) (haddress : PlainLabel address)
    (status start : ℕ) :
    Notes plainAnswer note mayNote (countAnswer method status address start) [] fun _ noted =>
      noted = [(method,toString status,address)] :=
  ⟨trivial,fun _ _ => ⟨plainRequest_status hmethod status haddress,fun _ _ => ⟨trivial,fun _ _ => rfl⟩⟩⟩

omit [HttpCrate] in
theorem allAttemptsFailed_notes {fw : Forwarding} (hmethod : PlainMethod fw.parts.method) (lastError : Option String) :
    Notes plainAnswer note mayNote (allAttemptsFailed fw lastError) [] Settles :=
  Silent.bind (silent_perform trivial rfl) fun _ => reject_notes hmethod ..

theorem succeed_notes {fw : Forwarding} (hmethod : PlainMethod fw.parts.method) (attempt : ℕ) {u : UpstreamRef}
    (hu : PlainLabel u.address) (response : Response) :
    Notes plainAnswer note mayNote (succeed fw attempt u response) [] Settles := by
  refine Notes.bind (countAnswer_notes hmethod hu ..) ?_
  rintro duration noted rfl
  have hsettles : Settles (decorate fw.ctx u.address response)
      [(fw.parts.method,toString response.status,u.address)] := Or.inl ⟨_,_,rfl⟩
  by_cases hlog : fw.ctx.accessLog = true
  · simp only [hlog,if_true]
    exact ⟨trivial,fun _ _ => hsettles⟩
  · simp only [hlog]
    exact hsettles

omit [HttpCrate] in
theorem selectUpstream_notes (fw : Forwarding) (attempt : ℕ) (tried : List String) :
    Notes plainAnswer note mayNote (selectUpstream fw attempt tried) [] fun selected noted =>
      noted = [] ∧ ∀ u, selected = some u → PlainLabel u.address := by
  unfold selectUpstream
  split
  · exact ⟨trivial,fun _ ha => ⟨rfl,ha⟩⟩
  · exact Silent.bind (silent_perform trivial rfl) fun _ => ⟨trivial,fun _ ha => ⟨rfl,ha⟩⟩

theorem attemptProxy_silent (a : ProxyAttempt) : Silent (attemptProxy a) := by
  unfold attemptProxy
  split
  · rfl
  · exact ⟨rfl,fun _ _ => rfl⟩

theorem countedAttempt_silent (fw : Forwarding) {u : UpstreamRef} (hu : PlainLabel u.address) :
    Silent (countedAttempt fw u) :=
  Silent.bind (silent_perform trivial rfl) fun _ => Silent.bind (silent_perform hu rfl) fun _ =>
    (attemptProxy_silent _).bind fun _ => Silent.bind (silent_perform trivial rfl) fun _ => ⟨hu,fun _ _ => rfl⟩

theorem attemptLoop_notes {fw : Forwarding} (hmethod : PlainMethod fw.parts.method) (left attempt : ℕ)
    (tried : List String) (lastError : Option String) :
    Notes plainAnswer note mayNote (attemptLoop fw left attempt tried lastError) [] Settles := by
  induction left generalizing attempt tried lastError with
  | zero => exact allAttemptsFailed_notes hmethod lastError
  | succ left ih =>
    refine Notes.bind (selectUpstream_notes fw attempt tried) ?_
    rintro selected noted ⟨rfl,hselected⟩
    cases selected with
    | none => exact allAttemptsFailed_notes hmethod lastError
    | some u =>
      have hu : PlainLabel u.address := hselected u rfl
      refine (countedAttempt_silent fw hu).bind fun result => ?_
      cases result with
      | ok response => exact succeed_notes hmethod attempt hu response
      | error e => exact Silent.bind (silent_perform trivial rfl) fun _ => ih ..

theorem proxyPlain_notes {ctx : ProxyContext} {req : Request} (hmethod : PlainMethod req.parts.method)
    (remoteAddr : SocketAddr) (lb start : ℕ) :
    Notes plainAnswer note mayNote (proxyPlain ctx req remoteAddr lb start) [] Settles := by
  refine Silent.bind (silent_perform trivial rfl) fun now => Silent.bind (silent_perform rfl rfl) fun _ => ?_
  split
  · exact attemptLoop_notes hmethod ..
  · exact reject_notes hmethod ..
  · exact reject_notes hmethod ..
  · exact ⟨trivial,fun _ _ => Or.inr ⟨rfl,by decide⟩⟩

theorem proxyUpgrade_notes {ctx : ProxyContext} {req : Request} (hmethod : PlainMethod req.parts.method)
    (remoteAddr : SocketAddr) (lb start : ℕ) :
    Notes plainAnswer note mayNote (proxyUpgrade ctx req remoteAddr lb start) [] Settles := by
  refine notes_perform_bind.mpr ⟨trivial,fun selected hselected => ?_⟩
  cases selected with
  | none => exact Or.inr ⟨rfl,by decide⟩
  | some u =>
    refine Silent.bind (silent_perform trivial rfl) fun _ => (attemptProxy_silent _).bind fun result => ?_
    refine Silent.bind (silent_perform trivial rfl) fun _ => ?_
    cases result with
    | error e => exact Or.inr ⟨rfl,by decide⟩
    | ok response =>
      refine Notes.bind (countAnswer_notes hmethod (hselected u rfl) ..) ?_
      rintro duration noted rfl
      have hsettles : Settles response [(req.parts.method,toString response.status,u.address)] := Or.inl ⟨_,_,rfl⟩
      by_cases hswitch : response.status = 101
      · simp only [hswitch,if_true] at hsettles ⊢
        exact ⟨trivial,fun _ _ => hsettles⟩
      · simp only [hswitch,if_false]
        exact hsettles

theorem proxyRequest_notes {r : Arrival} (hmethod : PlainMethod r.req.parts.method) :
    Notes plainAnswer note mayNote (proxyRequest r.ctx r.req r.remoteAddr) [] Settles := by
  have hpermit : Silent (acquirePermit r.ctx) := by
    unfold acquirePermit
    split
    · exact silent_perform trivial rfl
    · rfl
  have hrate : Silent (checkRate r.ctx r.remoteAddr.ip) := by
    unfold checkRate
    split
    · refine Silent.bind (silent_perform trivial rfl) fun allowed => ?_
      cases allowed <;> exact ⟨trivial,fun _ _ => rfl⟩
    · rfl
  refine Silent.bind (silent_perform trivial rfl) fun start => hpermit.bind fun permitted => ?_
  split
  · exact reject_notes hmethod ..
  split
  · exact reject_notes hmethod ..
  refine hrate.bind fun withinRate => ?_
  split
  · exact reject_notes hmethod ..
  split
  · exact reject_notes hmethod ..
  split
  · exact proxyUpgrade_notes hmethod ..
  · exact proxyPlain_notes hmethod ..

end Program

section Pools

variable {s : Balancers}

theorem plainPools_modify (h : PlainPools s) (lb place : ℕ) {f : UpstreamRuntime → UpstreamRuntime}
    (hf : ∀ u, (f u).address = u.address) :
    PlainPools (Function.update s lb (modifyUpstream (s lb) place f)) := by
  intro k u hu
  by_cases hk : k = lb
  · subst hk
    rw [Function.update_self] at hu
    obtain ⟨i,hi⟩ := List.getElem?_of_mem hu
    simp only [modifyUpstream,List.getElem?_modify,Option.map_eq_map,Option.map_eq_some_iff] at hi
    obtain ⟨v,hv,rfl⟩ := hi
    have hplain := h k v (List.mem_of_getElem? hv)
    split
    · rwa [hf]
    · exact hplain
  · rw [Function.update_of_ne hk] at hu
    exact h k u hu

theorem plainPools_of_same {s' : Balancers} (h : PlainPools s) (hsame : SameUpstreams s s') : PlainPools s' := by
  intro lb u hu
  rw [hsame lb] at hu
  exact h lb u hu

theorem plain_refer (h : PlainPools s) {lb : ℕ} {selected : Option Placed}
    (hsound : ∀ u, selected = some u → (s lb).upstreams[u.2]? = some u.1) :
    ∀ u, selected.map (refer lb) = some u → PlainLabel u.address := by
  intro u hu
  obtain ⟨v,hv,rfl⟩ := Option.map_eq_some_iff.mp hu
  exact h lb v.1 (List.mem_of_getElem? (hsound v hv))

theorem plain_respond (h : PlainPools s) (op : Op) (a : op.Ans) :
    plainAnswer op (Accounting.respond s op a).1 ∧ PlainPools (Accounting.respond s op a).2 := by
  cases op with
  | selectSticky lb v =>
    exact ⟨plain_refer h fun u hu => (LoadBalancer.selectSticky_sound hu).1,
      plainPools_of_same h (sameUpstreams_update (selectSticky_upstreams _ _))⟩
  | selectExcluding lb ex =>
    exact ⟨plain_refer h fun u hu => (LoadBalancer.selectExcluding_sound hu).1,
      plainPools_of_same h (sameUpstreams_update (selectExcluding_upstreams _ _))⟩
  | select lb =>
    exact ⟨plain_refer h fun u hu => (LoadBalancer.selectExcluding_sound hu).1,
      plainPools_of_same h (sameUpstreams_update (selectExcluding_upstreams _ _))⟩
  | incConnections u => exact ⟨trivial,plainPools_modify h _ _ fun _ => rfl⟩
  | decConnections u => exact ⟨trivial,plainPools_modify h _ _ fun _ => rfl⟩
  | _ => exact ⟨trivial,h⟩

end Pools

section Counting

variable [HttpCrate] {w : World F} {events : List Event} {s : RequestState F}

theorem dependable : Dependable (requests (F := F)) plainAnswer fun w => PlainPools w.balancers where
  good_respond := by
    intro w op a h
    cases op with
    | tryAcquire k => trivial
    | check k ip => trivial
    | _ => exact (plain_respond h _ a).1
  sane_respond := by
    intro w op a h
    cases op with
    | tryAcquire k =>
      simp only [requests,Requests.respond]
      split <;> exact h
    | now => exact h
    | check k ip => exact h
    | metric m => exact h
    | _ => exact (plain_respond h _ a).2
  sane_release _ h := h
  sane_change := by
    intro w x h
    cases x with
    | health c => exact plainPools_modify h _ _ fun _ => rfl
    | _ => exact h

def noted (t : Holder Op.Ans Response Arrival Held) : List (String × String × String) := t.task.done.flatMap note

def removed (p : String × String × String → Bool) (s : RequestState F) : Event → ℕ
  | .retire i => (s.holders[i]?.map fun t => (noted t).countP p).getD 0
  | .cancel i => (s.holders[i]?.map fun t => (noted t).countP p).getD 0
  | .change .shed => if p Registry.shedLabels then 1 else 0
  | _ => 0

omit [HttpCrate] in
theorem total_respond (w : World F) (op : Op) (a : op.Ans) (p : String × String × String → Bool) :
    (Requests.respond w op a).2.metrics.total p = w.metrics.total p+(note op).countP p := by
  cases op with
  | tryAcquire k =>
    simp only [Requests.respond]
    split <;> rfl
  | metric m => exact w.metrics.total_record m p
  | _ => rfl

/-- Every count belongs to a request, live or gone, or to a connection that was shed. -/
theorem total_of_run (hrun : exec requests.step ⟨w,[]⟩ events = some s) (p : String × String × String → Bool) :
    s.shared.metrics.total p = w.metrics.total p+(s.holders.map fun t => (noted t).countP p).sum+
      tally requests.step (removed p) ⟨w,[]⟩ events := by
  let P (s : RequestState F) (n : ℕ) : Prop :=
    s.shared.metrics.total p = w.metrics.total p+(s.holders.map fun t => (noted t).countP p).sum+n
  have hend : P s (0+tally requests.step (removed p) ⟨w,[]⟩ events) := by
    refine exec_tally ?_ (by simp [P]) hrun
    intro s n l s' hP h
    dsimp only [P] at hP ⊢
    cases Guarded.stepped h with
    | spawn r => simpa [removed,noted] using hP
    | @advance i r op next done held world hget =>
      have hset := sum_map_set (fun t : Holder Op.Ans Response Arrival Held => (noted t).countP p) hget
        ⟨r,⟨next ((requests (F := F)).respond s.shared op (world op)).1,done++[op]⟩,
          (requests (F := F)).after op ((requests (F := F)).respond s.shared op (world op)).1 held⟩
      have htotal : ((requests (F := F)).respond s.shared op (world op)).2.metrics.total p =
        s.shared.metrics.total p+(note op).countP p := total_respond ..
      simp only [noted,List.flatMap_append,List.flatMap_singleton,List.countP_append] at hset hP ⊢
      simp only [removed]
      omega
    | @retire i r a done held hget =>
      have herase := sum_map_eraseIdx (fun t : Holder Op.Ans Response Arrival Held => (noted t).countP p) hget
      simp only [removed,hget,Option.map_some,Option.getD_some,Guarded.remove]
      change s.shared.metrics.total p = _
      omega
    | @cancel i t hget hdrop =>
      have herase := sum_map_eraseIdx (fun t : Holder Op.Ans Response Arrival Held => (noted t).countP p) hget
      simp only [removed,hget,Option.map_some,Option.getD_some,Guarded.remove]
      change s.shared.metrics.total p = _
      omega
    | change x =>
      have htotal : ((requests (F := F)).change x s.shared).metrics.total p =
          s.shared.metrics.total p+removed p s (.change x) := by
        cases x with
        | health c =>
          simp only [requests,Change.apply]
          split <;> rfl
        | shed => exact s.shared.metrics.total_recordShed p
        | _ => rfl
      dsimp only
      omega
  rw [zero_add] at hend
  exact hend

/-- The answers given with such a status. -/
def answered (A : ℕ → Bool) (s : RequestState F) : Event → ℕ
  | .retire i =>
    match s.holders[i]? with
    | some ⟨_,⟨.pure response,_⟩,_⟩ => if A response.status then 1 else 0
    | _ => 0
  | _ => 0

def shed (_ : RequestState F) : Event → ℕ
  | .change .shed => 1
  | _ => 0

section Plain

def PlainMethods (events : List Event) : Prop := ∀ r, .spawn r ∈ events → PlainMethod r.req.parts.method

theorem programs_note (r : Arrival) (hmethod : PlainMethod r.req.parts.method) :
    Notes plainAnswer note mayNote ((requests (F := F)).program r) [] Settles := proxyRequest_notes hmethod

omit [HttpCrate] in
theorem indicator_le {a b : Bool} (h : a = true → b = true) : (if a then 1 else 0) ≤ if b then 1 else 0 := by
  cases a with
  | false => exact Nat.zero_le _
  | true => rw [h rfl]

variable (hpools : PlainPools w.balancers) (hmethods : PlainMethods events)

include hpools hmethods

theorem noting (hrun : exec requests.step ⟨w,[]⟩ events = some s) :
    Noting requests plainAnswer (fun w => PlainPools w.balancers) note (fun _ => mayNote) (fun _ => Settles) s :=
  noting_of_run dependable programs_note hpools hmethods hrun

/-- A request that can be dropped has not been counted. -/
theorem noted_of_suspended (hrun : exec requests.step ⟨w,[]⟩ events = some s)
    {t : Holder Op.Ans Response Arrival Held} (ht : t ∈ s.holders)
    (hdrop : (requests (F := F)).canDrop t.task = true) : noted t = [] := by
  have hnotes := (noting hpools hmethods hrun).notes t ht
  rcases t with ⟨r,⟨rest,done⟩,held⟩
  by_cases hdone : done = []
  · rw [noted,hdone]
    rfl
  · cases rest with
    | pure response => simp [Setting.canDrop,hdone] at hdrop
    | call op next =>
      have hwait : awaits op = true := by
        simpa [Setting.canDrop,hdone,requests] using hdrop
      cases op with
      | collectBody => exact hnotes.1
      | request u out timeout => exact hnotes.1
      | _ => cases hwait

/-- What leaves with a step is an answer that was counted, or one of those that need not be. -/
theorem removed_bounds {p : String × String × String → Bool} {A B : ℕ → Bool}
    (hA : ∀ status method upstream, A status = true → p (method,toString status,upstream) = true)
    (hexits : ∀ status ∈ uncountedStatuses, A status = false)
    (hB : ∀ status method upstream, p (method,toString status,upstream) = true → B status = true)
    (hrun : exec requests.step ⟨w,[]⟩ events = some s) {l : Event} {s' : RequestState F}
    (hstep : requests.step s l = some s') :
    answered A s l+(if p Registry.shedLabels then shed s l else 0) ≤ removed p s l ∧
      removed p s l ≤ answered B s l+(if p Registry.shedLabels then shed s l else 0) := by
  cases Guarded.stepped hstep with
  | @retire i r response done held hget =>
    have hsettles : Settles response (noted ⟨r,⟨.pure response,done⟩,held⟩) :=
      (noting hpools hmethods hrun).notes _ (List.mem_of_getElem? hget)
    simp only [answered,removed,shed,hget,Option.map_some,Option.getD_some,ite_self,Nat.add_zero]
    rcases hsettles with ⟨method,upstream,hnoted⟩ | ⟨hnoted,hexit⟩
    · have hcount : (noted ⟨r,⟨.pure response,done⟩,held⟩).countP p =
          if p (method,toString response.status,upstream) then 1 else 0 := by
        rw [hnoted,List.countP_cons,List.countP_nil,Nat.zero_add]
      rw [hcount]
      exact ⟨indicator_le (hA response.status method upstream),indicator_le (hB response.status method upstream)⟩
    · simp [hnoted,hexits _ hexit]
  | @cancel i t hget hdrop =>
    have hnone := noted_of_suspended hpools hmethods hrun (List.mem_of_getElem? hget) hdrop
    simp [answered,removed,shed,hget,hnone]
  | change x =>
    cases x with
    | shed => simp [answered,removed,shed]
    | _ => simp [answered,removed,shed]
  | _ => simp [answered,removed,shed]

/-- While every request is suspended, what was counted lies between the answers that must have been and
those that may have been. -/
theorem total_bounds {p : String × String × String → Bool} {A B : ℕ → Bool}
    (hA : ∀ status method upstream, A status = true → p (method,toString status,upstream) = true)
    (hexits : ∀ status ∈ uncountedStatuses, A status = false)
    (hB : ∀ status method upstream, p (method,toString status,upstream) = true → B status = true)
    (hnew : w.metrics = Registry.new) (hrun : exec requests.step ⟨w,[]⟩ events = some s)
    (hsuspended : ∀ t ∈ s.holders, (requests (F := F)).canDrop t.task = true) :
    tally requests.step (answered A) ⟨w,[]⟩ events+
        (if p Registry.shedLabels then tally requests.step shed ⟨w,[]⟩ events else 0) ≤ s.shared.metrics.total p ∧
      s.shared.metrics.total p ≤ tally requests.step (answered B) ⟨w,[]⟩ events+
        (if p Registry.shedLabels then tally requests.step shed ⟨w,[]⟩ events else 0) := by
  have htotal := total_of_run hrun p
  have hlive : (s.holders.map fun t => (noted t).countP p).sum = 0 := by
    refine List.sum_eq_zero ?_
    intro n hn
    obtain ⟨t,ht,rfl⟩ := List.mem_map.mp hn
    rw [noted_of_suspended hpools hmethods hrun ht (hsuspended t ht)]
    rfl
  have hfresh : w.metrics.total p = 0 := by
    rw [hnew]
    rfl
  have hbounds : ∀ front l back m, events = front++l::back → exec requests.step ⟨w,[]⟩ front = some m →
      ∀ m', requests.step m l = some m' →
        answered A m l+(if p Registry.shedLabels then shed m l else 0) ≤ removed p m l ∧
          removed p m l ≤ answered B m l+(if p Registry.shedLabels then shed m l else 0) := by
    intro front l back m heq hfront m' hstep
    have hfrontMethods : PlainMethods front := fun r hr => hmethods r (by simp [heq,hr])
    exact removed_bounds hpools hfrontMethods hA hexits hB hfront hstep
  have hsplit : ∀ A : ℕ → Bool, tally requests.step
      (fun s l => answered A s l+(if p Registry.shedLabels then shed s l else 0)) ⟨w,[]⟩ events =
      tally requests.step (answered A) ⟨w,[]⟩ events+
        (if p Registry.shedLabels then tally requests.step shed ⟨w,[]⟩ events else 0) := by
    intro A
    rw [tally_add]
    cases p Registry.shedLabels with
    | false => exact congrArg _ (tally_map (0 : ℕ →+ ℕ) (requests (F := F)).step (fun _ _ => 0) ⟨w,[]⟩ events)
    | true => rfl
  rw [htotal,hlive,hfresh,Nat.zero_add,← hsplit A,← hsplit B]
  constructor
  · exact tally_le (fun front l back m heq hfront m' hstep => (hbounds front l back m heq hfront m' hstep).1) hrun
  · exact tally_le (fun front l back m heq hfront m' hstep => (hbounds front l back m heq hfront m' hstep).2) hrun

omit [HttpCrate] hpools hmethods in
theorem readable_respond {n : ℕ} {op : Op} {noted : List (String × String × String)} (hmay : mayNote op noted)
    (a : op.Ans) (h : Readable n w.metrics) : Readable (n+1) (Requests.respond w op a).2.metrics := by
  cases op with
  | tryAcquire k =>
    simp only [Requests.respond]
    split <;> exact h.mono n.le_succ
  | metric m => exact h.record hmay
  | _ => exact h.mono n.le_succ

omit [HttpCrate] [RateLimit.F64 F] hmethods in
theorem readable_change {n : ℕ} (x : Change) (h : Readable n w.metrics) : Readable (n+1) (x.apply w).metrics := by
  cases x with
  | health c =>
    simp only [Change.apply]
    split
    · rename_i u hu
      exact h.setHealth (hpools c.lb u (List.mem_of_getElem? hu)) c.healthy
    · exact h.mono n.le_succ
  | shed =>
    have hlabels : PlainMetric (.requestsTotal "ACCEPT" "503" "none") :=
      plainRequest_status ⟨by decide,by decide⟩ 503 plainLabel_none
    exact h.record hlabels
  | opened =>
    have hactive := h.active
    exact { h.mono n.le_succ with active := by simp only [Change.apply,Registry.connectionOpened]; omega }
  | closed =>
    have hactive := h.active
    exact { h.mono n.le_succ with active := by simp only [Change.apply,Registry.connectionClosed]; omega }
  | _ => exact h.mono n.le_succ

theorem readable_of_run (hnew : w.metrics = Registry.new) (hrun : exec requests.step ⟨w,[]⟩ events = some s) :
    Readable events.length s.shared.metrics := by
  let P (s : RequestState F) (n : ℕ) : Prop :=
    Noting requests plainAnswer (fun w => PlainPools w.balancers) note (fun _ => mayNote) (fun _ => Settles) s ∧
      Readable n s.shared.metrics
  have hstart : P ⟨w,[]⟩ 0 := by
    refine ⟨⟨hpools,fun t ht => absurd ht List.not_mem_nil⟩,?_⟩
    rw [hnew]
    exact readable_new
  have halong : Along requests.step (fun _ l => ∀ r, l = .spawn r → PlainMethod r.req.parts.method) ⟨w,[]⟩ events := by
    refine along_of_mem ?_
    rintro l hl - r rfl
    exact hmethods r hl
  have hend : P s (0+tally requests.step (fun _ _ => 1) ⟨w,[]⟩ events) := by
    refine exec_tally_along ?_ hstart halong hrun
    rintro s n l s' ⟨hnoting,hreadable⟩ hl h
    refine ⟨hnoting.step dependable programs_note hl h,?_⟩
    cases Guarded.stepped h with
    | advance world hget => exact readable_respond (hnoting.notes _ (List.mem_of_getElem? hget)).1 _ hreadable
    | change x => exact readable_change hnoting.sane x hreadable
    | _ => exact hreadable.mono n.le_succ
  rw [zero_add,tally_one hrun] at hend
  exact hend.2

omit hpools hmethods in
theorem counted_of_run (hnew : w.metrics = Registry.new) (hrun : exec requests.step ⟨w,[]⟩ events = some s) :
    s.shared.metrics.Counted := by
  refine exec_invariant (P := fun s : RequestState F => s.shared.metrics.Counted) ?_ ?_ hrun
  · intro s l s' hcounted h
    cases Guarded.stepped h with
    | @advance i r op next done held world hget =>
      cases op with
      | tryAcquire k =>
        simp only [requests,Requests.respond]
        split <;> exact hcounted
      | metric m => exact hcounted.record m
      | _ => exact hcounted
    | change x =>
      cases x with
      | health c =>
        simp only [requests,Change.apply]
        split <;> exact hcounted
      | shed => exact hcounted.record _
      | _ => exact hcounted
    | _ => exact hcounted
  · rw [hnew]
    exact Registry.counted_new

end Plain

section Dashboard

open Json

/-- The numbers of the dashboard against the answers of the run. Every status has its answers; only of the
statuses of the exits that count nothing may answers be missing, and only to 503 are connections added that were
shed. -/
structure TellsAnswers (w : World F) (events : List Event) (v : Value) : Prop where
  byStatus : ∃ o, v.field "by_status".toList = some o ∧
    (∀ status ∉ uncountedStatuses, ∀ x, o.field (toString status).toList = some x ↔
      0 < tally requests.step (answered (· = status)) ⟨w,[]⟩ events ∧
        x = natural (tally requests.step (answered (· = status)) ⟨w,[]⟩ events)) ∧
    ∀ status x, o.field (toString status).toList = some x → ∃ n, x = natural n ∧
      n ≤ tally requests.step (answered (· = status)) ⟨w,[]⟩ events+
        (if status = 503 then tally requests.step shed ⟨w,[]⟩ events else 0)
  total : ∃ n, v.field "requests_total".toList = some (natural n) ∧
    tally requests.step (answered fun status => status ∉ uncountedStatuses) ⟨w,[]⟩ events+
      tally requests.step shed ⟨w,[]⟩ events ≤ n ∧
    n ≤ tally requests.step (answered fun _ => true) ⟨w,[]⟩ events+tally requests.step shed ⟨w,[]⟩ events

omit [HttpCrate] in
theorem shedLabels_status (status : ℕ) : decide (Registry.shedLabels.2.1 = toString status) = decide (status = 503) := by
  have hsame : Registry.shedLabels.2.1 = toString status ↔ status = 503 :=
    eq_comm.trans (status_inj (m := status) (n := 503))
  simp only [hsame]

theorem total_status_le (hrun : exec requests.step ⟨w,[]⟩ events = some s) (hnew : w.metrics = Registry.new)
    (hpools : PlainPools w.balancers) (hmethods : PlainMethods events)
    (hsuspended : ∀ t ∈ s.holders, (requests (F := F)).canDrop t.task = true) (status : ℕ) :
    s.shared.metrics.total (fun l => l.2.1 = toString status) ≤
      tally requests.step (answered (· = status)) ⟨w,[]⟩ events+
        (if status = 503 then tally requests.step shed ⟨w,[]⟩ events else 0) := by
  have hbounds := (total_bounds hpools hmethods (p := fun l => l.2.1 = toString status) (A := fun _ => false)
    (B := (· = status)) (fun _ _ _ h => nomatch h) (fun _ _ => rfl)
    (fun _ _ _ h => decide_eq_true (status_inj.mp (of_decide_eq_true h))) hnew hrun hsuspended).2
  simpa only [shedLabels_status,decide_eq_true_eq] using hbounds

theorem total_status_eq (hrun : exec requests.step ⟨w,[]⟩ events = some s) (hnew : w.metrics = Registry.new)
    (hpools : PlainPools w.balancers) (hmethods : PlainMethods events)
    (hsuspended : ∀ t ∈ s.holders, (requests (F := F)).canDrop t.task = true) {status : ℕ}
    (hstatus : status ∉ uncountedStatuses) : s.shared.metrics.total (fun l => l.2.1 = toString status) =
      tally requests.step (answered (· = status)) ⟨w,[]⟩ events := by
  have hother : status ≠ 503 := by
    rintro rfl
    exact hstatus (by decide)
  have hmost := total_status_le hrun hnew hpools hmethods hsuspended status
  rw [if_neg hother] at hmost
  refine le_antisymm hmost ((Nat.le_add_right _ _).trans (total_bounds hpools hmethods (B := fun _ => true) ?_ ?_
    (fun _ _ _ _ => rfl) hnew hrun hsuspended).1)
  · intro other method upstream h
    exact decide_eq_true (status_inj.mpr (of_decide_eq_true h))
  · intro other hmem
    simp only [decide_eq_false_iff_not]
    rintro rfl
    exact hstatus hmem

variable {D : Type} [MetricNumber D] [Prometheus D]

/-- However requests were interleaved, retried and dropped, the dashboard shows how many were answered with
each status. -/
theorem dashboard_tells_answers (hrun : exec requests.step ⟨w,[]⟩ events = some s) (hnew : w.metrics = Registry.new)
    (hpools : PlainPools w.balancers) (hmethods : PlainMethods events) (hlength : events.length ≤ 2^53)
    (hsuspended : ∀ t ∈ s.holders, (requests (F := F)).canDrop t.task = true) (it : Iteration)
    {state : DashboardState} (hstate : state.metrics = s.shared.metrics) (hversion : CleanText state.version.toList) :
    ∃ v, parse (statsJson D it state) = some v ∧ TellsAnswers w events v := by
  have hreadable : Readable (2^53) state.metrics := by
    rw [hstate]
    exact (readable_of_run hpools hmethods hnew hrun).mono hlength
  obtain ⟨es,hes,hread⟩ := readText_gather (D := D) hreadable
  have hshows := shows_statsValue it hes
  refine ⟨statsValue it state (figures es),?_,?_,?_⟩
  · rw [statsJson_eq,hread]
    exact parse_write (clean_statsValue it hes hreadable hversion)
  · obtain ⟨o,ho,hfields⟩ := hshows.byStatus
    refine ⟨o,ho,?_,?_⟩
    · intro status hstatus x
      have hcounted : state.metrics.Counted := by
        rw [hstate]
        exact counted_of_run hnew hrun
      rw [hfields,← total_status_eq hrun hnew hpools hmethods hsuspended hstatus,← hstate,hcounted.total_pos]
      simp only [decide_eq_true_eq]
    · intro status x hx
      rw [hfields,hstate] at hx
      exact ⟨_,hx.2,total_status_le hrun hnew hpools hmethods hsuspended status⟩
  · refine ⟨_,hshows.total,?_⟩
    rw [hstate]
    refine total_bounds (p := fun _ => true) hpools hmethods (fun _ _ _ _ => rfl) ?_ (fun _ _ _ _ => rfl) hnew hrun
      hsuspended
    intro status hstatus
    simpa using hstatus

/-- One request is answered, another is dropped while it awaits its answer, and a connection is shed. -/
def servedRun : List Event :=
  .spawn getArrival::List.replicate 13 (.advance 0 bareWorld)++
    .retire 0::.spawn getArrival::List.replicate 6 (.advance 0 bareWorld)++[.cancel 0,.change .shed]

omit [HttpCrate] [RateLimit.F64 F] [MetricNumber D] [Prometheus D] in
theorem dashboard_tells_answers_served :
    ∃ s, exec (@requests ℚ _ visibleAscii).step ⟨smallWorld,[]⟩ servedRun = some s ∧
      tally (@requests ℚ _ visibleAscii).step (answered (· = 200)) ⟨smallWorld,[]⟩ servedRun = 1 ∧
      ∃ v, parse (statsJson ℤ Iteration.inserted ⟨s.shared.metrics,none,60,"0.1.0"⟩) = some v ∧
        @TellsAnswers ℚ _ visibleAscii smallWorld servedRun v := by
  have hshown : (exec (@requests ℚ _ visibleAscii).step ⟨smallWorld,[]⟩ servedRun).map
      (fun s => s.holders.length) = some 0 := by decide +kernel
  obtain ⟨s,hs,hlength⟩ := Option.map_eq_some_iff.mp hshown
  have hidle : s.holders = [] := List.length_eq_zero_iff.mp hlength
  have hupstream : PlainLabel "http://10.0.0.1:80" := by decide
  have hmethod : PlainMethod "GET" := ⟨by decide,by decide⟩
  have hpools : PlainPools smallWorld.balancers := by
    intro lb u hu
    cases List.mem_singleton.mp hu
    exact hupstream
  have hmethods : PlainMethods servedRun := by
    intro r hr
    have hget : r = getArrival := by simpa [servedRun] using hr
    subst hget
    exact hmethod
  have hone : tally (@requests ℚ _ visibleAscii).step (answered (· = 200)) ⟨smallWorld,[]⟩ servedRun = 1 := by
    decide +kernel
  have hversion : CleanText "0.1.0".toList := by decide
  refine ⟨s,hs,hone,@dashboard_tells_answers ℚ _ visibleAscii smallWorld servedRun s ℤ _ _ hs rfl hpools hmethods
    (by decide) ?_ Iteration.inserted _ rfl hversion⟩
  intro t ht
  simp [hidle] at ht

end Dashboard

end Counting

end Telemetry
end OxiGate
