import OxiGate.BodyLimit

/-! Bodies over whole schedules of polls: what bounded collection returns, and when the idle
timer of a body blames it. -/
namespace OxiGate
namespace BodyLimit

section Collection

structure Collecting where
  limited : LimitedBody
  idle : IdleBody
  acc : List UInt8

def Collecting.start (max idle now : ℕ) : Collecting := ⟨.new max,.new idle now,[]⟩

def Collecting.poll (s : Collecting) (p : ℕ × Option Frame) : Except BodyLimitError Collecting :=
  let inner := s.limited.pollFrame (mapErr (frameOr p.2))
  match s.idle.pollFrame p.1 inner.1 with
  | (.frame f,idle) => .ok ⟨inner.2,idle,s.acc++f.dataRef.getD []⟩
  | (.failed e,_) => .error e
  | (_,idle) => .ok ⟨inner.2,idle,s.acc⟩

def Collecting.finish (final : Except String Unit) (s : Collecting) : Except BodyLimitError (List UInt8) :=
  match final with
  | .ok () => .ok s.acc
  | .error e => .error (.other e)

def dataOf (polls : List (ℕ × Option Frame)) : List UInt8 :=
  polls.flatMap fun p => (p.2.bind Frame.dataRef).getD []

/-- No poll finds the body still waiting after the idle limit, `last` being the time of the latest
frame. -/
def Timely (idle : ℕ) : ℕ → List (ℕ × Option Frame) → Prop
  | _, [] => True
  | _, (now,some _)::polls => Timely idle now polls
  | last, (now,none)::polls => now < last+idle ∧ Timely idle last polls

@[simp] theorem poll_pending (s : Collecting) (now : ℕ) :
    s.poll (now,none) = if s.idle.delay ≤ now then .error .idleTimeout else .ok s := by
  by_cases h : s.idle.delay ≤ now
  · simp [Collecting.poll,frameOr,mapErr,LimitedBody.pollFrame,IdleBody.pollFrame,h]
  · simp [Collecting.poll,frameOr,mapErr,LimitedBody.pollFrame,IdleBody.pollFrame,h]

@[simp] theorem poll_trailers (s : Collecting) (now : ℕ) (headers : Http.HeaderMap) :
    s.poll (now,some (.trailers headers)) = .ok { s with idle := { s.idle with delay := now+s.idle.idle } } := by
  simp [Collecting.poll,frameOr,mapErr,LimitedBody.pollFrame,Frame.dataRef,IdleBody.pollFrame]

@[simp] theorem poll_data (s : Collecting) (now : ℕ) (d : List UInt8) :
    s.poll (now,some (.data d)) =
      if s.limited.max < s.limited.seen+d.length then .error .tooLarge
      else .ok ⟨⟨s.limited.max,s.limited.seen+d.length⟩,⟨s.idle.idle,now+s.idle.idle⟩,s.acc++d⟩ := by
  by_cases h : s.limited.max < s.limited.seen+d.length
  · simp [Collecting.poll,frameOr,mapErr,LimitedBody.pollFrame,Frame.dataRef,IdleBody.pollFrame,h]
  · simp [Collecting.poll,frameOr,mapErr,LimitedBody.pollFrame,Frame.dataRef,IdleBody.pollFrame,h]

theorem collect_eq_foldlM (final : Except String Unit) (polls : List (ℕ × Option Frame)) (s : Collecting) :
    collect final polls s.limited s.idle s.acc = polls.foldlM Collecting.poll s >>= Collecting.finish final := by
  induction polls generalizing s with
  | nil => cases final <;> rfl
  | cons p polls ih =>
    rw [List.foldlM_cons]
    rcases p with ⟨now,frame⟩
    cases frame with
    | none =>
      rw [poll_pending]
      simp only [collect,frameOr,mapErr,LimitedBody.pollFrame,IdleBody.pollFrame]
      by_cases h : s.idle.delay ≤ now
      · simp [h,bind,Except.bind]
      · simpa [h,bind,Except.bind] using ih s
    | some f =>
      cases f with
      | data d =>
        rw [poll_data]
        simp only [collect,frameOr,mapErr,LimitedBody.pollFrame,IdleBody.pollFrame,Frame.dataRef]
        by_cases h : s.limited.max < s.limited.seen+d.length
        · simp [h,bind,Except.bind]
        · simpa [h,bind,Except.bind] using
            ih ⟨⟨s.limited.max,s.limited.seen+d.length⟩,⟨s.idle.idle,now+s.idle.idle⟩,s.acc++d⟩
      | trailers headers =>
        rw [poll_trailers]
        simp only [collect,frameOr,mapErr,LimitedBody.pollFrame,IdleBody.pollFrame,Frame.dataRef]
        simpa [bind,Except.bind] using ih ⟨s.limited,⟨s.idle.idle,now+s.idle.idle⟩,s.acc⟩

structure Collecting.Bounded (max : ℕ) (s : Collecting) : Prop where
  limit : s.limited.max = max
  seen : s.limited.seen = s.acc.length
  bound : s.acc.length ≤ max

theorem Collecting.Bounded.poll {max : ℕ} {s s' : Collecting} (h : s.Bounded max) {p : ℕ × Option Frame}
    (hpoll : s.poll p = .ok s') : s'.Bounded max := by
  rcases p with ⟨now,_ | d | headers⟩
  · rw [poll_pending] at hpoll
    split at hpoll
    · cases hpoll
    · cases hpoll
      exact h
  · rw [poll_data] at hpoll
    split at hpoll
    · cases hpoll
    · rename_i hle
      cases hpoll
      rw [h.limit,h.seen] at hle
      exact ⟨h.limit,by simp [h.seen],by simpa using hle⟩
  · rw [poll_trailers] at hpoll
    cases hpoll
    exact ⟨h.limit,h.seen,h.bound⟩

theorem Collecting.Bounded.foldlM {max : ℕ} {s s' : Collecting} (h : s.Bounded max)
    {polls : List (ℕ × Option Frame)} (hrun : polls.foldlM Collecting.poll s = .ok s') : s'.Bounded max :=
  RustText.foldlM_keeps (fun _ _ _ hs hpoll => hs.poll hpoll) h hrun

theorem foldlM_timely {polls : List (ℕ × Option Frame)} {max last : ℕ} {s : Collecting} (h : s.Bounded max)
    (hdelay : s.idle.delay = last+s.idle.idle) (htimely : Timely s.idle.idle last polls) :
    if max < s.acc.length+(dataOf polls).length then polls.foldlM Collecting.poll s = .error .tooLarge
    else ∃ s', polls.foldlM Collecting.poll s = .ok s' ∧ s'.acc = s.acc++dataOf polls := by
  induction polls generalizing s last with
  | nil =>
    rw [if_neg (by simpa [dataOf] using h.bound)]
    exact ⟨s,rfl,by simp [dataOf]⟩
  | cons p polls ih =>
    rw [List.foldlM_cons]
    rcases p with ⟨now,_ | d | headers⟩
    · have hearly : ¬s.idle.delay ≤ now := by
        have hlt := htimely.1
        omega
      rw [poll_pending,if_neg hearly]
      exact ih h hdelay htimely.2
    · have hdata : dataOf ((now,some (.data d))::polls) = d++dataOf polls := rfl
      rw [poll_data,h.limit,h.seen,hdata,List.length_append]
      by_cases hlarge : max < s.acc.length+d.length
      · rw [if_pos (by omega),if_pos hlarge]
        rfl
      · rw [if_neg hlarge]
        have hnext : Collecting.Bounded max
            ⟨⟨max,s.acc.length+d.length⟩,⟨s.idle.idle,now+s.idle.idle⟩,s.acc++d⟩ :=
          ⟨rfl,by simp,by simpa using hlarge⟩
        simpa [Nat.add_assoc,bind,Except.bind] using ih hnext rfl htimely
    · have hnext : Collecting.Bounded max ⟨s.limited,⟨s.idle.idle,now+s.idle.idle⟩,s.acc⟩ :=
        ⟨h.limit,h.seen,h.bound⟩
      rw [poll_trailers]
      exact ih hnext rfl htimely

theorem bounded_start (max idle now : ℕ) : (Collecting.start max idle now).Bounded max :=
  ⟨rfl,rfl,Nat.zero_le _⟩

theorem collectLimited_eq (body : Incoming) (max idle now : ℕ) : collectLimited body max idle now =
    body.polls.foldlM Collecting.poll (.start max idle now) >>= Collecting.finish body.final :=
  collect_eq_foldlM body.final body.polls (.start max idle now)

/-- After `k` polls the collection goes on from the state they led to. -/
theorem collectLimited_after (body : Incoming) (max idle now k : ℕ) : collectLimited body max idle now =
    (body.polls.take k).foldlM Collecting.poll (.start max idle now) >>= fun s =>
      collect body.final (body.polls.drop k) s.limited s.idle s.acc := by
  have hpolls : body.polls.foldlM Collecting.poll (.start max idle now) =
      (body.polls.take k).foldlM Collecting.poll (.start max idle now) >>=
        (body.polls.drop k).foldlM Collecting.poll := by
    rw [← List.foldlM_append,List.take_append_drop]
  simp only [collectLimited_eq,hpolls,bind_assoc,collect_eq_foldlM]

theorem length_dataOf_take_le (polls : List (ℕ × Option Frame)) (k : ℕ) :
    (dataOf (polls.take k)).length ≤ (dataOf polls).length := by
  have happend : dataOf polls = dataOf (polls.take k)++dataOf (polls.drop k) := by
    unfold dataOf
    rw [← List.flatMap_append,List.take_append_drop]
  rw [happend,List.length_append]
  exact Nat.le_add_right _ _

theorem collectLimited_value {body : Incoming} {max idle now : ℕ}
    (htimely : Timely (IdleBody.new idle now).idle now body.polls) : collectLimited body max idle now =
      if max < (dataOf body.polls).length then .error .tooLarge
      else (body.final.mapError .other).map fun _ => dataOf body.polls := by
  have hrun := foldlM_timely (bounded_start max idle now) rfl htimely
  rw [show (Collecting.start max idle now).acc = [] from rfl,List.length_nil,Nat.zero_add,List.nil_append] at hrun
  rw [collectLimited_eq]
  by_cases h : max < (dataOf body.polls).length
  · rw [if_pos h] at hrun ⊢
    rw [hrun]
    rfl
  · rw [if_neg h] at hrun ⊢
    obtain ⟨s,hs,hacc⟩ := hrun
    rw [hs,← hacc]
    cases body.final <;> rfl

theorem collecting_moment {body : Incoming} {max idle now k : ℕ} {s : Collecting}
    (h : (body.polls.take k).foldlM Collecting.poll (.start max idle now) = .ok s) :
    s.acc = dataOf (body.polls.take k) ∧ s.acc.length ≤ max := by
  have hcollect : collectLimited ⟨body.polls.take k,.ok ()⟩ max idle now = .ok s.acc := by
    rw [collectLimited_eq,h]
    rfl
  exact ⟨collectLimited_ok hcollect,((bounded_start max idle now).foldlM h).bound⟩

theorem exceeds_iff {polls : List (ℕ × Option Frame)} {max : ℕ} :
    (∃ k, max < (dataOf (polls.take k)).length) ↔ max < (dataOf polls).length := by
  constructor
  · rintro ⟨k,hk⟩
    exact hk.trans_le (length_dataOf_take_le polls k)
  · intro h
    exact ⟨polls.length,by rwa [List.take_length]⟩

/-- Collection is exact: it returns the whole body, `TooLarge` as soon as the data exceed the
limit, or the error that ends the body, and never holds more than the limit. -/
theorem collectLimited_exact (body : Incoming) (max idle now : ℕ)
    (htimely : Timely (IdleBody.new idle now).idle now body.polls) :
    (∀ b, collectLimited body max idle now = .ok b ↔
      body.final = .ok () ∧ (dataOf body.polls).length ≤ max ∧ b = dataOf body.polls) ∧
    (collectLimited body max idle now = .error .tooLarge ↔
      ∃ k, max < (dataOf (body.polls.take k)).length) ∧
    (∀ e, collectLimited body max idle now = .error (.other e) ↔
      body.final = .error e ∧ ∀ k, (dataOf (body.polls.take k)).length ≤ max) ∧
    collectLimited body max idle now ≠ .error .idleTimeout ∧
    (∀ k, collectLimited body max idle now =
      (body.polls.take k).foldlM Collecting.poll (.start max idle now) >>= fun s =>
        collect body.final (body.polls.drop k) s.limited s.idle s.acc) ∧
    ∀ k s, (body.polls.take k).foldlM Collecting.poll (.start max idle now) = .ok s →
      s.acc = dataOf (body.polls.take k) ∧ s.acc.length ≤ max := by
  have hsmall : (∀ k, (dataOf (body.polls.take k)).length ≤ max) ↔ ¬max < (dataOf body.polls).length := by
    rw [← exceeds_iff]
    simp
  have hvalue : collectLimited body max idle now = _ := collectLimited_value htimely
  rw [exceeds_iff]
  simp only [hsmall]
  refine ⟨?_,?_,?_,?_,collectLimited_after body max idle now,fun k s hs => collecting_moment hs⟩
  · intro b
    rw [hvalue]
    by_cases h : max < (dataOf body.polls).length
    · simp [h]
    · cases body.final <;> simp [h,Except.map,Except.mapError,Nat.le_of_not_lt h,eq_comm]
  · rw [hvalue]
    by_cases h : max < (dataOf body.polls).length
    · simp [h]
    · cases body.final <;> simp [h,Except.map,Except.mapError]
  · intro e
    rw [hvalue]
    by_cases h : max < (dataOf body.polls).length
    · simp [h]
    · cases body.final <;> simp [h,Except.map,Except.mapError]
  · rw [hvalue]
    by_cases h : max < (dataOf body.polls).length
    · simp [h]
    · cases body.final <;> simp [h,Except.map,Except.mapError]

def chunkedBody : Incoming where
  polls := [(0,some (.data [1,2])),(10,none),(20,some (.data [])),(30,some (.data [3])),(40,some (.trailers []))]
  final := .ok ()

theorem collectLimited_exact_chunked : Timely (IdleBody.new 100 0).idle 0 chunkedBody.polls ∧
    collectLimited chunkedBody 3 100 0 = .ok [1,2,3] ∧ collectLimited chunkedBody 2 100 0 = .error .tooLarge := by
  have htimely : Timely (IdleBody.new 100 0).idle 0 chunkedBody.polls := ⟨by decide,trivial⟩
  refine ⟨htimely,?_,?_⟩
  · exact ((collectLimited_exact chunkedBody 3 100 0 htimely).1 _).mpr ⟨rfl,by decide,rfl⟩
  · exact (collectLimited_exact chunkedBody 2 100 0 htimely).2.1.mpr ⟨4,by decide⟩

end Collection

section IdleTimer

/-- Each poll of a body has its time and the answer of the body inside. -/
abbrev Schedule := List (ℕ × Poll String)

/-- `idle_wrap` at the time `now`. -/
def idleWrap (idle now : ℕ) : IdleBody := IdleBody.new idle now

def IdleBody.after (b : IdleBody) (polls : Schedule) : IdleBody :=
  polls.foldl (fun b p => (b.pollFrame p.1 (mapErr p.2)).2) b

def IdleBody.answers (b : IdleBody) : Schedule → List (Poll BodyLimitError)
  | [] => []
  | p::polls =>
    let r := b.pollFrame p.1 (mapErr p.2)
    r.1::r.2.answers polls

def lastFrame (last : ℕ) (polls : Schedule) : ℕ :=
  polls.foldl (fun last p => match p.2 with | .frame _ => p.1 | _ => last) last

def Silent (polls : Schedule) (j i : ℕ) : Prop := ∀ l t f, j < l → l < i → polls[l]? ≠ some (t,.frame f)

/-- A timeout comes only when a poll an idle period before was answered `Pending` and the body has
been silent since. -/
def BlamesOnlySilence (idle now : ℕ) (polls : Schedule) : Prop :=
  ∀ i t inner, polls[i]? = some (t,inner) →
    ((idleWrap idle now).answers polls)[i]? = some (.failed .idleTimeout) →
    ∃ j t' inner', j < i ∧ polls[j]? = some (t',inner') ∧
      ((idleWrap idle now).answers polls)[j]? = some .pending ∧ t'+(idleWrap idle now).idle ≤ t ∧ Silent polls j i

/-- Whenever a poll finds the body waiting an idle period after its latest frame, it had been
asked an idle period before. -/
def KeepsAsking (idle now : ℕ) (polls : Schedule) : Prop :=
  ∀ i t, polls[i]? = some (t,.pending) → lastFrame now (polls.take i)+(idleWrap idle now).idle ≤ t →
    ∃ j t', j < i ∧ polls[j]? = some (t',.pending) ∧ t'+(idleWrap idle now).idle ≤ t ∧ Silent polls j i

theorem answers_getElem? (b : IdleBody) (polls : Schedule) (i : ℕ) : (b.answers polls)[i]? =
    polls[i]?.map fun p => ((b.after (polls.take i)).pollFrame p.1 (mapErr p.2)).1 := by
  induction polls generalizing b i with
  | nil => simp [IdleBody.answers]
  | cons p polls ih =>
    cases i with
    | zero => simp [IdleBody.answers,IdleBody.after]
    | succ i => simpa [IdleBody.answers,IdleBody.after] using ih (b.pollFrame p.1 (mapErr p.2)).2 i

/-- The timer is armed by frames, and by nothing else. -/
theorem after_eq (idle last : ℕ) (polls : Schedule) :
    (IdleBody.mk idle (last+idle)).after polls = ⟨idle,lastFrame last polls+idle⟩ := by
  induction polls generalizing last with
  | nil => rfl
  | cons p polls ih =>
    rcases p with ⟨now,f | e | _ | _⟩
    · exact ih now
    · exact ih last
    · exact ih last
    · have hkept : ((IdleBody.mk idle (last+idle)).pollFrame now (mapErr .pending)).2 = ⟨idle,last+idle⟩ := by
        simp only [mapErr,IdleBody.pollFrame]
        split <;> rfl
      show IdleBody.after ((IdleBody.mk idle (last+idle)).pollFrame now (mapErr .pending)).2 polls = _
      rw [hkept]
      exact ih last

theorem answer_at {idle now : ℕ} {polls : Schedule} {i t : ℕ} {inner : Poll String}
    (h : polls[i]? = some (t,inner)) : ((idleWrap idle now).answers polls)[i]? =
      some ((IdleBody.mk (idleWrap idle now).idle
        (lastFrame now (polls.take i)+(idleWrap idle now).idle)).pollFrame t (mapErr inner)).1 := by
  have hafter : (idleWrap idle now).after (polls.take i) = _ := after_eq (max idle 50000000) now (polls.take i)
  rw [answers_getElem?,h,hafter]
  rfl

theorem timeout_iff {idle now : ℕ} {polls : Schedule} {i t : ℕ} {inner : Poll String}
    (h : polls[i]? = some (t,inner)) :
    ((idleWrap idle now).answers polls)[i]? = some (.failed .idleTimeout) ↔
      inner = .pending ∧ lastFrame now (polls.take i)+(idleWrap idle now).idle ≤ t := by
  rw [answer_at h]
  cases inner with
  | frame f => simp [mapErr,IdleBody.pollFrame]
  | failed e => simp [mapErr,IdleBody.pollFrame]
  | ended => simp [mapErr,IdleBody.pollFrame]
  | pending =>
    simp only [mapErr,IdleBody.pollFrame]
    split <;> simp_all

theorem pending_iff {idle now : ℕ} {polls : Schedule} {i t : ℕ} {inner : Poll String}
    (h : polls[i]? = some (t,inner)) : ((idleWrap idle now).answers polls)[i]? = some .pending ↔
      inner = .pending ∧ ¬lastFrame now (polls.take i)+(idleWrap idle now).idle ≤ t := by
  rw [answer_at h]
  cases inner with
  | frame f => simp [mapErr,IdleBody.pollFrame]
  | failed e => simp [mapErr,IdleBody.pollFrame]
  | ended => simp [mapErr,IdleBody.pollFrame]
  | pending =>
    simp only [mapErr,IdleBody.pollFrame]
    split <;> simp_all

theorem Silent.join {polls : Schedule} {k j i t : ℕ} (h : Silent polls k j) (h' : Silent polls j i)
    (hj : polls[j]? = some (t,.pending)) : Silent polls k i := by
  intro l t' f hkl hli
  rcases Nat.lt_trichotomy l j with hlt | rfl | hgt
  · exact h l t' f hkl hlt
  · rw [hj]
    simp
  · exact h' l t' f hgt hli

/-- Timeouts blame only a silent body exactly under the schedules that keep asking it. -/
theorem blamesOnlySilence_iff (idle now : ℕ) (polls : Schedule) :
    BlamesOnlySilence idle now polls ↔ KeepsAsking idle now polls := by
  constructor
  · intro h i t hi hexpired
    obtain ⟨j,t',inner',hji,hj,hpending,hle,hsilent⟩ := h i t .pending hi ((timeout_iff hi).mpr ⟨rfl,hexpired⟩)
    rw [((pending_iff hj).mp hpending).1] at hj
    exact ⟨j,t',hji,hj,hle,hsilent⟩
  · intro h i
    -- a poll found by asking may itself have timed out; then an earlier one had been asked
    induction i using Nat.strong_induction_on with
    | _ i ih =>
      intro t inner hi htimeout
      obtain ⟨rfl,hexpired⟩ := (timeout_iff hi).mp htimeout
      obtain ⟨j,t',hji,hj,hle,hsilent⟩ := h i t hi hexpired
      by_cases hexpired' : lastFrame now (polls.take j)+(idleWrap idle now).idle ≤ t'
      · obtain ⟨k,t'',inner'',hkj,hk,hpending,hle',hsilent'⟩ :=
          ih j hji t' .pending hj ((timeout_iff hj).mpr ⟨rfl,hexpired'⟩)
        exact ⟨k,t'',inner'',by omega,hk,hpending,by omega,hsilent'.join hsilent hj⟩
      · exact ⟨j,t',.pending,hji,hj,(pending_iff hj).mpr ⟨rfl,hexpired'⟩,hle,hsilent⟩

/-- A client takes a frame after one second and asks for the next after forty. -/
def slowClient : Schedule := [(1000000000,.frame (.data [1])),(40000000000,.pending)]

/-- Its upstream is blamed although it was never asked before. -/
theorem slow_client_blamed :
    (idleWrap 30000000000 0).answers slowClient = [.frame (.data [1]),.failed .idleTimeout] ∧
    ¬BlamesOnlySilence 30000000000 0 slowClient := by
  have hanswers : (idleWrap 30000000000 0).answers slowClient = [.frame (.data [1]),.failed .idleTimeout] := by
    decide
  refine ⟨hanswers,fun h => ?_⟩
  obtain ⟨j,t',inner',hj,-,hpending,-⟩ := h 1 40000000000 .pending rfl (by rw [hanswers]; rfl)
  rw [hanswers] at hpending
  interval_cases j
  simp at hpending

end IdleTimer

end BodyLimit
end OxiGate
