import OxiGate.Dashboard
import OxiGate.Runs
import OxiGate.Stats

/-! The admin server: its requests, the sockets that push the statistics, and the token, which a reload
replaces. A socket is checked when it is opened and not again. -/
namespace OxiGate
namespace Admin

open RustText Http Proxy Dashboard Stats Runs

structure AdminResponse where
  status : ℕ
  headers : List (String × Text)
  body : Text
  deriving DecidableEq

/-- What the handlers take from elsewhere: the text of the page, and the accept key of the handshake. -/
structure Assets where
  dashboardHtml : Text
  deriveAcceptKey : List UInt8 → Text

def SEC_WEBSOCKET_KEY : HeaderName := ⟨"sec-websocket-key"⟩

section Handlers

variable [HttpCrate]

/-- There is a token, and the request does not show it. An empty token is none. -/
def refused (token : Option String) (parts : Parts) : Bool :=
  match token with
  | some token => !token.isEmpty && !authorized parts token
  | none => false

omit [HttpCrate] in
def htmlResponse (body : Text) : AdminResponse :=
  ⟨200,[("Content-Type","text/html; charset=utf-8".toList),("Cache-Control","no-cache".toList)],body⟩

omit [HttpCrate] in
def jsonResponse (body : Text) : AdminResponse :=
  ⟨200,[("Content-Type","application/json; charset=utf-8".toList),("Cache-Control","no-cache".toList)],body⟩

omit [HttpCrate] in
def errorResponse (status : ℕ) (message : String) : AdminResponse :=
  ⟨status,[("Content-Type","text/plain; charset=utf-8".toList)],message.toList⟩

omit [HttpCrate] in
def healthzResponse : AdminResponse := ⟨200,[("Content-Type","text/plain".toList)],"ok".toList⟩

omit [HttpCrate] in
def unauthorizedResponse : AdminResponse :=
  ⟨401,[("WWW-Authenticate","Bearer".toList),("Content-Type","application/json".toList)],
    "\x7b\"error\":\"unauthorized\",\"hint\":\"Authorization: Bearer <token> or ?token=\"\x7d".toList⟩

omit [HttpCrate] in
def metricsResponse (body : Text) : AdminResponse :=
  ⟨200,[("Content-Type","text/plain; version=0.0.4; charset=utf-8".toList),("Cache-Control","no-cache".toList)],body⟩

omit [HttpCrate] in
def notFoundResponse : AdminResponse :=
  ⟨404,[("Content-Type","application/json".toList)],"\x7b\"error\":\"not_found\"\x7d".toList⟩

variable (D : Type) [MetricNumber D] [Prometheus D] (it : Iteration) (assets : Assets)

def handleAdmin (token : Option String) (state : DashboardState) (parts : Parts) : AdminResponse :=
  let path := parts.uri.path
  if path = "/healthz" then healthzResponse
  else if refused token parts then unauthorizedResponse
  else if path = "/" ∨ path = "/dashboard" ∨ path = "/dashboard/" then htmlResponse assets.dashboardHtml
  else if path = "/api/stats" then jsonResponse (statsJson D it state)
  else if path = "/metrics" then metricsResponse (gather D state.metrics)
  else notFoundResponse

omit [MetricNumber D] [Prometheus D] in
/-- The response, and whether the connection is taken over by a socket. -/
def handleDashboardWs (token : Option String) (parts : Parts) : AdminResponse × Bool :=
  if refused token parts then (⟨401,[("WWW-Authenticate","Bearer".toList)],"unauthorized".toList⟩,false)
  else
    match parts.headers.first SEC_WEBSOCKET_KEY with
    | none => (errorResponse 400 "missing websocket key",false)
    | some key =>
      (⟨101,[("connection","Upgrade".toList),("upgrade","websocket".toList),
        ("sec-websocket-accept",assets.deriveAcceptKey key.bytes)],[]⟩,true)

def service (token : Option String) (state : DashboardState) (parts : Parts) : AdminResponse × Bool :=
  if parts.uri.path = "/ws" ∧ parts.headers.containsKey UPGRADE then handleDashboardWs assets token parts
  else (handleAdmin D it assets token state parts,false)

end Handlers

/-- A socket waits for its connection to be handed over before it is open. -/
structure Socket where
  client : ℕ
  opened : Bool
  deriving DecidableEq

structure AdminState where
  listening : Bool
  shutdown : Bool
  token : Option String
  dashboard : DashboardState
  connections : List ℕ
  sockets : List Socket

inductive Event
  | connect (client : ℕ)
  | acceptFailed
  | signal
  | shutdownSeen
  | request (i : ℕ) (parts : Parts)
  | disconnect (i : ℕ)
  | upgraded (j : ℕ) (succeeds : Bool)
  | tick (j : ℕ) (sent : Bool)
  | receive (j : ℕ) (ends : Bool)
  | reload (token : Option String)
  /-- The proxy goes on, and with it the figures. -/
  | traffic (state : DashboardState)

inductive Message
  | response (r : AdminResponse)
  | stats (text : Text)
  | close
  deriving DecidableEq

section Samples

def quietState : DashboardState := ⟨Metrics.Registry.new,none,0,"0.1.0"⟩

def laterState : DashboardState := { quietState with uptime := 60 }

def guardedState : AdminState := ⟨true,false,some "s3cret",quietState,[],[]⟩

def noAssets : Assets := ⟨[],fun _ => []⟩

def socketRequest : Parts :=
  ⟨"GET",⟨none,none,"/ws",some "token=s3cret"⟩,.http11,
    [(UPGRADE,⟨asBytes "websocket".toList⟩),(SEC_WEBSOCKET_KEY,⟨asBytes "dGhlIHNhbXBsZSBub25jZQ==".toList⟩)]⟩

def bareRequest : Parts := ⟨"GET",⟨none,none,"/api/stats",none⟩,.http11,[]⟩

/-- One client opens a socket, another one asks without the token, and the token changes. -/
def watchedStart (state : DashboardState) : List Event :=
  [.traffic state,.connect 0,.connect 1,.request 0 socketRequest,.upgraded 0 true,.request 1 bareRequest,
    .reload (some "other")]

def watchedRun (state : DashboardState) : List Event := watchedStart state++[.tick 0 true,.request 1 bareRequest]

end Samples

section Steps

variable [HttpCrate] (D : Type) [MetricNumber D] [Prometheus D] (it : Iteration) (assets : Assets)

/-- The steps of the admin server and its tasks. An error of the listener ends the accept loop for good; tasks
that have been spawned go on. -/
def step (s : AdminState) : Event → Option AdminState
  | .connect client => if s.listening then some { s with connections := s.connections++[client] } else none
  | .acceptFailed => if s.listening then some { s with listening := false } else none
  | .signal => some { s with shutdown := true }
  | .shutdownSeen => if s.listening ∧ s.shutdown then some { s with listening := false } else none
  | .request i parts =>
    match s.connections[i]? with
    | some client =>
      if (service D it assets s.token s.dashboard parts).2 then
        some { s with sockets := s.sockets++[⟨client,false⟩] }
      else some s
    | none => none
  | .disconnect i =>
    if i < s.connections.length then some { s with connections := s.connections.eraseIdx i } else none
  | .upgraded j succeeds =>
    match s.sockets[j]? with
    | some ⟨client,false⟩ =>
      if succeeds then some { s with sockets := s.sockets.set j ⟨client,true⟩ }
      else some { s with sockets := s.sockets.eraseIdx j }
    | _ => none
  | .tick j sent =>
    match s.sockets[j]? with
    | some ⟨_,true⟩ => if sent then some s else some { s with sockets := s.sockets.eraseIdx j }
    | _ => none
  | .receive j ends =>
    match s.sockets[j]? with
    | some ⟨_,true⟩ => if ends then some { s with sockets := s.sockets.eraseIdx j } else some s
    | _ => none
  | .reload token => some { s with token := token }
  | .traffic state => some { s with dashboard := state }

def emits (s : AdminState) : Event → List (ℕ × Message)
  | .request i parts =>
    match s.connections[i]? with
    | some client => [(client,.response (service D it assets s.token s.dashboard parts).1)]
    | none => []
  | .tick j sent =>
    match s.sockets[j]? with
    | some ⟨client,true⟩ => if sent then [(client,.stats (statsJson D it s.dashboard))] else []
    | _ => []
  | .receive j ends =>
    match s.sockets[j]? with
    | some ⟨client,true⟩ => if ends then [(client,.close)] else []
    | _ => []
  | _ => []

theorem refused_of_switches {token : Option String} {state : DashboardState} {parts : Parts}
    (h : (service D it assets token state parts).2 = true) : refused token parts = false := by
  cases hrefused : refused token parts with
  | false => rfl
  | true =>
    simp only [service,handleDashboardWs,hrefused,if_true] at h
    split at h <;> cases h

theorem mem_sockets_step {s s' : AdminState} {e : Event} (h : step D it assets s e = some s') {k : Socket}
    (hk : k ∈ s'.sockets) : (∃ k₀ ∈ s.sockets, k₀.client = k.client) ∨
      ∃ i parts, e = .request i parts ∧ s.connections[i]? = some k.client ∧ refused s.token parts = false := by
  have hkept : k ∈ s.sockets → (∃ k₀ ∈ s.sockets, k₀.client = k.client) ∨
      ∃ i parts, e = .request i parts ∧ s.connections[i]? = some k.client ∧ refused s.token parts = false :=
    fun hmem => Or.inl ⟨k,hmem,rfl⟩
  cases e with
  | request i parts =>
    simp only [step] at h
    split at h
    · rename_i client hget
      split at h
      · rename_i htaken
        cases h
        rcases List.mem_append.mp hk with hk | hk
        · exact hkept hk
        · cases List.mem_singleton.mp hk
          exact Or.inr ⟨i,parts,rfl,hget,refused_of_switches D it assets htaken⟩
      · cases h
        exact hkept hk
    · cases h
  | upgraded j succeeds =>
    simp only [step] at h
    split at h
    · rename_i client hget
      split at h
      · cases h
        rcases List.mem_or_eq_of_mem_set hk with hk | rfl
        · exact hkept hk
        · exact Or.inl ⟨_,List.mem_of_getElem? hget,rfl⟩
      · cases h
        exact hkept (List.mem_of_mem_eraseIdx hk)
    · cases h
  | tick j sent =>
    simp only [step] at h
    split at h
    · split at h
      · cases h
        exact hkept hk
      · cases h
        exact hkept (List.mem_of_mem_eraseIdx hk)
    · cases h
  | receive j ends =>
    simp only [step] at h
    split at h
    · split at h
      · cases h
        exact hkept (List.mem_of_mem_eraseIdx hk)
      · cases h
        exact hkept hk
    · cases h
  | connect client =>
    obtain ⟨-,h⟩ := Option.ite_none_right_eq_some.mp h
    cases h
    exact hkept hk
  | acceptFailed =>
    obtain ⟨-,h⟩ := Option.ite_none_right_eq_some.mp h
    cases h
    exact hkept hk
  | shutdownSeen =>
    obtain ⟨-,h⟩ := Option.ite_none_right_eq_some.mp h
    cases h
    exact hkept hk
  | disconnect i =>
    obtain ⟨-,h⟩ := Option.ite_none_right_eq_some.mp h
    cases h
    exact hkept hk
  | _ =>
    cases h
    exact hkept hk

section Grants

/-- In the run, the client has made a request that the token of the time did not refuse. -/
def Granted (s₀ : AdminState) (events : List Event) (client : ℕ) : Prop :=
  ∃ front i parts back m, events = front++.request i parts::back ∧ exec (step D it assets) s₀ front = some m ∧
    m.connections[i]? = some client ∧ refused m.token parts = false

variable {D it assets}

theorem Granted.append {s₀ : AdminState} {events : List Event} {client : ℕ} (h : Granted D it assets s₀ events client)
    (more : List Event) : Granted D it assets s₀ (events++more) client := by
  obtain ⟨front,i,parts,back,m,rfl,hfront,hget,hgranted⟩ := h
  exact ⟨front,i,parts,back++more,m,by simp,hfront,hget,hgranted⟩

theorem sockets_granted {s₀ s : AdminState} {events : List Event} (hnone : s₀.sockets = [])
    (hrun : exec (step D it assets) s₀ events = some s) :
    ∀ k ∈ s.sockets, Granted D it assets s₀ events k.client := by
  induction events using List.reverseRecOn generalizing s with
  | nil =>
    cases hrun
    simp [hnone]
  | append_singleton events e ih =>
    rw [exec_append] at hrun
    obtain ⟨m,hfront,hlast⟩ := Option.bind_eq_some_iff.mp hrun
    obtain ⟨m',hstep,hend⟩ := exec_cons.mp hlast
    cases hend
    intro k hk
    rcases mem_sockets_step D it assets hstep hk with ⟨k₀,hk₀,hclient⟩ | ⟨i,parts,rfl,hget,hgranted⟩
    · rw [← hclient]
      exact (ih hfront k₀ hk₀).append [e]
    · exact ⟨events,i,parts,[],m,rfl,hfront,hget,hgranted⟩

/-- Figures are pushed only to clients that have, in an earlier step of the run, made a request that the token in
force then did not refuse. -/
theorem pushes_granted {s₀ s : AdminState} {events : List Event} (hnone : s₀.sockets = [])
    (hrun : exec (step D it assets) s₀ events = some s) {e : Event} {client : ℕ} {text : Text}
    (hpushed : (client,.stats text) ∈ emits D it assets s e) : Granted D it assets s₀ events client := by
  have hsocket : ∃ k ∈ s.sockets, k.client = client := by
    cases e with
    | request i parts =>
      simp only [emits] at hpushed
      split at hpushed <;> simp at hpushed
    | tick j sent =>
      simp only [emits] at hpushed
      split at hpushed
      · rename_i other hget
        split at hpushed
        · obtain ⟨rfl,-⟩ : client = other ∧ text = statsJson D it s.dashboard := by simpa using hpushed
          exact ⟨_,List.mem_of_getElem? hget,rfl⟩
        · cases hpushed
      · cases hpushed
    | receive j ends =>
      simp only [emits] at hpushed
      split at hpushed
      · split at hpushed <;> simp at hpushed
      · cases hpushed
    | _ => cases hpushed
  obtain ⟨k,hk,rfl⟩ := hsocket
  exact sockets_granted hnone hrun k hk

omit [HttpCrate] [MetricNumber D] [Prometheus D] in
/-- The token has changed since it was shown. -/
theorem pushes_granted_watched :
    letI := visibleAscii
    ∃ s text, exec (step ℤ .inserted noAssets) guardedState (watchedStart quietState) = some s ∧
      s.token = some "other" ∧ (0,.stats text) ∈ emits ℤ .inserted noAssets s (.tick 0 true) ∧
      Granted ℤ .inserted noAssets guardedState (watchedStart quietState) 0 := by
  let _ := visibleAscii
  have hrun : exec (step ℤ .inserted noAssets) guardedState (watchedStart quietState) =
      some { guardedState with token := some "other", connections := [0,1], sockets := [⟨0,true⟩] } := rfl
  have hpushed := List.mem_singleton_self (0,Message.stats (statsJson ℤ .inserted quietState))
  exact ⟨_,_,hrun,rfl,hpushed,pushes_granted rfl hrun (e := .tick 0 true) hpushed⟩

end Grants

section Secrecy

def withFigures (s : AdminState) (state : DashboardState) : AdminState := { s with dashboard := state }

theorem service_switches (token : Option String) (state state' : DashboardState) (parts : Parts) :
    (service D it assets token state parts).2 = (service D it assets token state' parts).2 := by
  unfold service
  split <;> rfl

theorem step_withFigures (s : AdminState) (state : DashboardState) {e : Event} (he : ∀ figures, e ≠ .traffic figures) :
    step D it assets (withFigures s state) e = (step D it assets s e).map (withFigures · state) := by
  cases e with
  | request i parts =>
    have hswitch := service_switches D it assets s.token state s.dashboard parts
    simp only [step,withFigures,hswitch]
    split
    · split <;> rfl
    · rfl
  | upgraded j succeeds =>
    simp only [step,withFigures]
    split
    · split <;> rfl
    · rfl
  | tick j sent =>
    simp only [step,withFigures]
    split
    · split <;> rfl
    · rfl
  | receive j ends =>
    simp only [step,withFigures]
    split
    · split <;> rfl
    · rfl
  | connect client =>
    simp only [step,apply_ite (Option.map _),Option.map_some,Option.map_none]
    rfl
  | acceptFailed =>
    simp only [step,apply_ite (Option.map _),Option.map_some,Option.map_none]
    rfl
  | shutdownSeen =>
    simp only [step,apply_ite (Option.map _),Option.map_some,Option.map_none]
    rfl
  | disconnect i =>
    simp only [step,apply_ite (Option.map _),Option.map_some,Option.map_none]
    rfl
  | signal => rfl
  | reload token => rfl
  | traffic figures => exact absurd rfl (he figures)

variable (outsider : ℕ → Bool)

/-- The outsiders' requests do not show the token of the time. -/
def unauthorized (s : AdminState) : Event → Bool
  | .request i parts => s.connections[i]?.all fun client => !outsider client || refused s.token parts
  | _ => true

def Outside (s : AdminState) : Prop := ∀ k ∈ s.sockets, outsider k.client = false

def seen (s : AdminState) (e : Event) : List (ℕ × Message) := (emits D it assets s e).filter fun m => outsider m.1

variable {outsider}

theorem refused_of_unauthorized {s : AdminState} {i client : ℕ} {parts : Parts}
    (h : unauthorized outsider s (.request i parts) = true) (hget : s.connections[i]? = some client)
    (hout : outsider client = true) : refused s.token parts = true := by
  simpa [unauthorized,hget,hout] using h

theorem Outside.step {s s' : AdminState} {e : Event} (hs : Outside outsider s)
    (hguard : unauthorized outsider s e = true) (h : step D it assets s e = some s') : Outside outsider s' := by
  intro k hk
  rcases mem_sockets_step D it assets h hk with ⟨k₀,hk₀,hclient⟩ | ⟨i,parts,rfl,hget,hadmitted⟩
  · rw [← hclient]
    exact hs k₀ hk₀
  · cases hout : outsider k.client with
    | false => rfl
    | true =>
      rw [refused_of_unauthorized hguard hget hout] at hadmitted
      cases hadmitted

theorem service_refused {token : Option String} {parts : Parts} (h : refused token parts = true)
    (state state' : DashboardState) :
    service D it assets token state parts = service D it assets token state' parts := by
  unfold service
  split
  · rfl
  · simp only [handleAdmin,h,if_true]

theorem seen_withFigures {s : AdminState} {e : Event} (hs : Outside outsider s)
    (hguard : unauthorized outsider s e = true) (state : DashboardState) :
    seen D it assets outsider (withFigures s state) e = seen D it assets outsider s e := by
  have hsocket : ∀ {j : ℕ} {k : Socket}, s.sockets[j]? = some k → outsider k.client = false :=
    fun hget => hs _ (List.mem_of_getElem? hget)
  cases e with
  | request i parts =>
    simp only [seen,emits,withFigures]
    cases hget : s.connections[i]? with
    | none => rfl
    | some client =>
      cases hout : outsider client with
      | false => simp [hout]
      | true => rw [service_refused D it assets (refused_of_unauthorized hguard hget hout) state s.dashboard]
  | tick j sent =>
    simp only [seen,emits,withFigures]
    split
    · rename_i client hget
      split
      · simp [hsocket hget]
      · rfl
    · rfl
  | receive j ends => rfl
  | _ => rfl

def SameEvent (e e' : Event) : Prop := e = e' ∨ ∃ state state', e = .traffic state ∧ e' = .traffic state'

/-- The same state, but for what the figures are, and no outsider has a socket. -/
structure Alike (outsider : ℕ → Bool) (s t : AdminState) : Prop where
  same : t = withFigures s t.dashboard
  outside : Outside outsider s

theorem Alike.step {s t s' : AdminState} {e e' : Event} (h : Alike outsider s t) (he : SameEvent e e')
    (hguard : unauthorized outsider s e = true) (hstep : step D it assets s e = some s') :
    ∃ t', step D it assets t e' = some t' ∧ Alike outsider s' t' ∧
      seen D it assets outsider s e = seen D it assets outsider t e' := by
  obtain ⟨hsame,houtside⟩ := h
  have houtside' := houtside.step D it assets hguard hstep
  rw [hsame]
  by_cases htraffic : ∃ figures, e = .traffic figures
  · obtain ⟨figures,rfl⟩ := htraffic
    obtain ⟨figures',rfl⟩ : ∃ figures', e' = .traffic figures' := by
      rcases he with rfl | ⟨_,figures',_,rfl⟩
      · exact ⟨_,rfl⟩
      · exact ⟨_,rfl⟩
    cases hstep
    exact ⟨_,rfl,⟨rfl,houtside⟩,rfl⟩
  · obtain rfl : e = e' := by
      rcases he with rfl | ⟨figures,_,rfl,_⟩
      · rfl
      · exact absurd ⟨_,rfl⟩ htraffic
    have hcommutes := step_withFigures D it assets s t.dashboard fun figures heq => htraffic ⟨figures,heq⟩
    rw [hstep] at hcommutes
    exact ⟨_,hcommutes,⟨rfl,houtside'⟩,(seen_withFigures D it assets houtside hguard _).symm⟩

/-- Those who do not have the token learn nothing of the figures, however their requests are interleaved with
others, with sockets, with changes of the token and with the proxy's traffic: whatever the figures were, they
would have been sent the same. -/
theorem outsiders_learn_nothing {s t s' : AdminState} {events events' : List Event}
    (hsame : t = withFigures s t.dashboard) (houtside : Outside outsider s)
    (hevents : List.Forall₂ SameEvent events events')
    (hguard : Along (step D it assets) (fun s e => unauthorized outsider s e = true) s events)
    (hrun : exec (step D it assets) s events = some s') :
    ∃ t', exec (step D it assets) t events' = some t' ∧
      transcript (step D it assets) (seen D it assets outsider) s events =
        transcript (step D it assets) (seen D it assets outsider) t events' := by
  have hstep : ∀ s t e e' s', Alike outsider s t → SameEvent e e' → unauthorized outsider s e = true →
      step D it assets s e = some s' → ∃ t', step D it assets t e' = some t' ∧ Alike outsider s' t' ∧
        seen D it assets outsider s e = seen D it assets outsider t e' :=
    fun s t e e' s' h he hguard hs' => h.step D it assets he hguard hs'
  obtain ⟨t',ht',-,hseen⟩ := transcript_eq_of_lockstep hstep ⟨hsame,houtside⟩ hevents hguard hrun
  exact ⟨t',ht',hseen⟩

omit [HttpCrate] in
theorem watchedRun_same (state state' : DashboardState) :
    List.Forall₂ SameEvent (watchedRun state) (watchedRun state') :=
  .cons (.inr ⟨_,_,rfl,rfl⟩) (List.forall₂_same.mpr fun _ _ => .inl rfl)

omit [HttpCrate] [MetricNumber D] [Prometheus D] in
/-- The figures differ, and are sent to another client meanwhile. -/
theorem outsiders_learn_nothing_watched :
    letI := visibleAscii
    quietState ≠ laterState ∧
      transcript (step ℤ .inserted noAssets) (seen ℤ .inserted noAssets (· = 1)) guardedState (watchedRun quietState) =
        [(1,.response unauthorizedResponse),(1,.response unauthorizedResponse)] ∧
      ∃ t', exec (step ℤ .inserted noAssets) (withFigures guardedState laterState) (watchedRun laterState) = some t' ∧
        transcript (step ℤ .inserted noAssets) (seen ℤ .inserted noAssets (· = 1)) guardedState
            (watchedRun quietState) =
          transcript (step ℤ .inserted noAssets) (seen ℤ .inserted noAssets (· = 1))
            (withFigures guardedState laterState) (watchedRun laterState) := by
  let _ := visibleAscii
  have hrun : (exec (step ℤ .inserted noAssets) guardedState (watchedRun quietState)).isSome = true := by
    decide +kernel
  obtain ⟨s',hs'⟩ := Option.isSome_iff_exists.mp hrun
  have hguard : Along (step ℤ .inserted noAssets) (fun s e => unauthorized (· = 1) s e = true) guardedState
      (watchedRun quietState) := along_of_check (by decide +kernel)
  exact ⟨fun heq => absurd (congrArg DashboardState.uptime heq) (by decide),by decide +kernel,
    outsiders_learn_nothing ℤ .inserted noAssets rfl (by simp [Outside,guardedState]) (watchedRun_same _ _) hguard hs'⟩

end Secrecy

end Steps

end Admin
end OxiGate
