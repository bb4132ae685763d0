import OxiGate.Connection
import OxiGate.Runs

/-! The tasks of the server: the signal task, the accept loop of `main`, the dispatcher behind
its bounded channel, the connection tasks, and the tunnels that upgraded connections go on in.
Any ready task may take the next step, and a select any of its ready branches. -/
namespace OxiGate
namespace Server

open ByteReader Net Http Interaction Proxy Connection Runs

variable {F S : Type}

def maxConn (config : Config F) : ℕ :=
  if 0 < config.maxConnections then config.maxConnections else config.maxConcurrency.getD 10000

def channelCap (config : Config F) : ℕ := max (maxConn config) 256

/-- The permits of `conn_limit`. -/
def permits (config : Config F) : ℕ := max (maxConn config) 64

/-- How long `main` sleeps after the shutdown branch. -/
def drainWait : ℕ := seconds 5

structure AcceptedConn (S : Type) where
  stream : S
  remoteAddr : SocketAddr

/-- `main` is in its accept loop, or in the drain wait since a time, or has returned: after
the wait since then, or from within the loop. -/
inductive MainTask
  | accepting
  | draining (since : ℕ)
  | returned (since : Option ℕ)
  deriving DecidableEq

/-- A connection task, which holds a permit as long as it runs. -/
structure ConnTask (S : Type) where
  id : ℕ
  fate : Fate S

/-- The task of an upgrade, and whether the client's socket has been handed to it. -/
structure Tunnel where
  conn : ℕ
  socket : Bool
  deriving DecidableEq

structure State (F S : Type) where
  clock : ℕ
  runtime : Runtime F
  shutdown : Bool
  main : MainTask
  dispatching : Bool
  channelCap : ℕ
  queue : List (AcceptedConn S)
  connLimit : ℕ
  spawned : ℕ
  connections : List (ConnTask S)
  tunnels : List Tunnel

def start (rt : Runtime F) : State F S where
  clock := 0
  runtime := rt
  shutdown := false
  main := .accepting
  dispatching := true
  channelCap := channelCap rt.config
  queue := []
  connLimit := permits rt.config
  spawned := 0
  connections := []
  tunnels := []

inductive Event (F S : Type)
  | elapse (duration : ℕ)
  | reload (rt : Runtime F)
  | signal
  | shutdownSeen
  | accept (conn : AcceptedConn S)
  | acceptFailed
  | drained
  | dispatcherStops
  | receive
  | serve (i : ℕ) (req : Request) (moments : ℕ → Moment)
  | close (i : ℕ)
  | handOver (i j : ℕ)
  | tunnelEnds (j : ℕ)

/-- `try_send`, and what the accept loop does about its outcome. A channel whose receiver is
gone is closed, also when it is full. -/
def trySend (s : State F S) (conn : AcceptedConn S) : State F S :=
  if !s.dispatching then { s with main := .returned none }
  else if s.queue.length < s.channelCap then { s with queue := s.queue++[conn] }
  else s

/-- The dispatcher starts a connection task when a permit is free, and sheds the connection
otherwise. -/
def dispatch [AsyncRead UInt8 S] (s : State F S) (conn : AcceptedConn S) : State F S :=
  if 0 < s.connLimit then
    { s with
      connLimit := s.connLimit-1
      spawned := s.spawned+1
      connections := s.connections++
        [⟨s.spawned,handleOneConnection s.runtime conn.stream conn.remoteAddr⟩] }
  else s

def startsTunnel : Op → Bool
  | .spawnTunnel _ => true
  | _ => false

/-- The tunnels that a handled request has started. -/
def tunnelsOf (id : ℕ) (tr : Trace) : List Tunnel :=
  (tr.filter fun e => startsTunnel e.1).map fun _ => ⟨id,false⟩

def release (s : State F S) (i : ℕ) : State F S :=
  { s with connections := s.connections.eraseIdx i, connLimit := s.connLimit+1 }

section Tasks

variable [AsyncRead UInt8 S] [HttpCrate]

/-- When `main` has returned, the runtime is gone with all its tasks. -/
def step (s : State F S) (event : Event F S) : Option (State F S) :=
  match s.main with
  | .returned _ => none
  | main =>
    match event with
    | .elapse duration => some { s with clock := s.clock+duration }
    | .reload rt => some { s with runtime := rt }
    | .signal => some { s with shutdown := true }
    | .shutdownSeen =>
      if main = .accepting ∧ s.shutdown then some { s with main := .draining s.clock } else none
    | .accept conn => if main = .accepting then some (trySend s conn) else none
    | .acceptFailed => if main = .accepting then some s else none
    | .drained =>
      match main with
      | .draining since =>
        if since+drainWait ≤ s.clock then some { s with main := .returned (some since) } else none
      | _ => none
    | .dispatcherStops =>
      if s.dispatching ∧ s.shutdown then some { s with dispatching := false, queue := [] } else none
    | .receive =>
      if s.dispatching then
        match s.queue with
        | conn::rest => some (dispatch { s with queue := rest } conn)
        -- The sender is dropped at the start of the drain wait.
        | [] => if main = .accepting then none else some { s with dispatching := false }
      else none
    | .serve i req moments =>
      match s.connections[i]? with
      | some ⟨id,.served clientAddr _ ctx⟩ =>
        let r := run answer (proxyRequest ctx req clientAddr) moments
        some { s with tunnels := s.tunnels++tunnelsOf id r.2 }
      | _ => none
    | .close i => if i < s.connections.length then some (release s i) else none
    -- The server completes the upgrade: the socket goes to the waiting tunnel, and the
    -- connection's future is done.
    | .handOver i j =>
      match s.connections[i]?,s.tunnels[j]? with
      | some c,some t =>
        if t.conn = c.id ∧ t.socket = false then
          some { release s i with tunnels := s.tunnels.set j { t with socket := true } }
        else none
      | _,_ => none
    | .tunnelEnds j =>
      if j < s.tunnels.length then some { s with tunnels := s.tunnels.eraseIdx j } else none

inductive Stepped (s : State F S) : Event F S → State F S → Prop
  | elapse (duration : ℕ) : Stepped s (.elapse duration) { s with clock := s.clock+duration }
  | reload (rt : Runtime F) : Stepped s (.reload rt) { s with runtime := rt }
  | signal : Stepped s .signal { s with shutdown := true }
  | shutdownSeen (hmain : s.main = .accepting) (hflag : s.shutdown = true) :
      Stepped s .shutdownSeen { s with main := .draining s.clock }
  | closed (conn : AcceptedConn S) (hmain : s.main = .accepting) (hgone : s.dispatching = false) :
      Stepped s (.accept conn) { s with main := .returned none }
  | queued (conn : AcceptedConn S) (hmain : s.main = .accepting) (hthere : s.dispatching = true) :
      Stepped s (.accept conn) { s with queue := s.queue++[conn] }
  | full (conn : AcceptedConn S) (hmain : s.main = .accepting) (hthere : s.dispatching = true) :
      Stepped s (.accept conn) s
  | acceptFailed : Stepped s .acceptFailed s
  | drained {since : ℕ} (hmain : s.main = .draining since) (hwait : since+drainWait ≤ s.clock) :
      Stepped s .drained { s with main := .returned (some since) }
  | dispatcherStops : Stepped s .dispatcherStops { s with dispatching := false, queue := [] }
  | dispatched {rest : List (AcceptedConn S)} (task : ConnTask S) (hfree : 0 < s.connLimit) :
      Stepped s .receive { s with
        queue := rest
        connLimit := s.connLimit-1
        spawned := s.spawned+1
        connections := s.connections++[task] }
  | shed {rest : List (AcceptedConn S)} : Stepped s .receive { s with queue := rest }
  | senderGone : Stepped s .receive { s with dispatching := false }
  | served {i id : ℕ} {clientAddr : SocketAddr} {ctx : ProxyContext} (req : Request) (moments : ℕ → Moment) :
      Stepped s (.serve i req moments) { s with
        tunnels := s.tunnels++tunnelsOf id (run answer (proxyRequest ctx req clientAddr) moments).2 }
  | close {i : ℕ} (hi : i < s.connections.length) : Stepped s (.close i) (release s i)
  | handOver {i j : ℕ} {t : Tunnel} (hi : i < s.connections.length) (ht : s.tunnels[j]? = some t) :
      Stepped s (.handOver i j) { release s i with tunnels := s.tunnels.set j { t with socket := true } }
  | tunnelEnds {j : ℕ} : Stepped s (.tunnelEnds j) { s with tunnels := s.tunnels.eraseIdx j }

omit [AsyncRead UInt8 S] in
theorem stepped_accept {s : State F S} (conn : AcceptedConn S) (hmain : s.main = .accepting) :
    Stepped s (.accept conn) (trySend s conn) := by
  cases hthere : s.dispatching with
  | false => simpa [trySend,hthere] using Stepped.closed conn hmain hthere
  | true =>
    by_cases hroom : s.queue.length < s.channelCap
    · simpa [trySend,hthere,hroom] using Stepped.queued conn hmain hthere
    · simpa [trySend,hthere,hroom] using Stepped.full conn hmain hthere

theorem stepped_receive {s : State F S} (conn : AcceptedConn S) (rest : List (AcceptedConn S)) :
    Stepped s .receive (dispatch { s with queue := rest } conn) := by
  by_cases hfree : 0 < s.connLimit
  · simpa [dispatch,hfree] using Stepped.dispatched _ hfree
  · simpa [dispatch,hfree] using Stepped.shed

theorem stepped {s s' : State F S} {event : Event F S} (h : step s event = some s') :
    (∀ since, s.main ≠ .returned since) ∧ Stepped s event s' := by
  unfold step at h
  split at h
  · cases h
  · rename_i main hlive
    refine ⟨hlive,?_⟩
    cases event with
    | elapse duration => cases h; exact .elapse duration
    | reload rt => cases h; exact .reload rt
    | signal => cases h; exact .signal
    | shutdownSeen =>
      obtain ⟨hready,h⟩ := Option.ite_none_right_eq_some.mp h
      cases h
      exact .shutdownSeen hready.1 hready.2
    | accept conn =>
      obtain ⟨hmain,h⟩ := Option.ite_none_right_eq_some.mp h
      cases h
      exact stepped_accept conn hmain
    | acceptFailed =>
      obtain ⟨-,h⟩ := Option.ite_none_right_eq_some.mp h
      cases h
      exact .acceptFailed
    | drained =>
      dsimp only at h
      split at h
      · rename_i since hmain
        obtain ⟨hwait,h⟩ := Option.ite_none_right_eq_some.mp h
        cases h
        exact .drained hmain hwait
      · cases h
    | dispatcherStops =>
      obtain ⟨-,h⟩ := Option.ite_none_right_eq_some.mp h
      cases h
      exact .dispatcherStops
    | receive =>
      obtain ⟨-,h⟩ := Option.ite_none_right_eq_some.mp h
      split at h
      · cases h
        exact stepped_receive _ _
      · obtain ⟨-,h⟩ := Option.ite_none_left_eq_some.mp h
        cases h
        exact .senderGone
    | serve i req moments =>
      dsimp only at h
      split at h
      · cases h
        exact .served req moments
      · cases h
    | close i =>
      obtain ⟨hi,h⟩ := Option.ite_none_right_eq_some.mp h
      cases h
      exact .close hi
    | handOver i j =>
      dsimp only at h
      split at h
      · rename_i c t hc ht
        obtain ⟨-,h⟩ := Option.ite_none_right_eq_some.mp h
        cases h
        exact .handOver (List.getElem?_eq_some_iff.mp hc).1 ht
      · cases h
    | tunnelEnds j =>
      obtain ⟨-,h⟩ := Option.ite_none_right_eq_some.mp h
      cases h
      exact .tunnelEnds

/-! Shutdown. -/

/-- When `main` has returned, it has left the accept loop through the shutdown branch and has
waited since. -/
def Drained (s : State F S) : Prop :=
  ∀ since, s.main = .returned since → ∃ t, since = some t ∧ t+drainWait ≤ s.clock

def Received (s : State F S) : Event F S → Prop
  | .accept _ => s.dispatching = true
  | _ => True

omit [AsyncRead UInt8 S] [HttpCrate] in
theorem drained_of_live {s : State F S} (h : ∀ since, s.main ≠ .returned since) : Drained s :=
  fun since hmain => absurd hmain (h since)

theorem Drained.step {s s' : State F S} {event : Event F S} (hreceived : Received s event)
    (h : step s event = some s') : Drained s' := by
  obtain ⟨hlive,hstep⟩ := stepped h
  cases hstep with
  | closed conn hmain hgone =>
    rw [Received,hgone] at hreceived
    cases hreceived
  | drained hmain hwait =>
    intro since' hreturned
    cases hreturned
    exact ⟨_,rfl,hwait⟩
  | shutdownSeen hmain hflag =>
    intro since' hreturned
    cases hreturned
  | _ => exact drained_of_live hlive

theorem not_drained_of_closed {s s' : State F S} {event : Event F S} (hlost : ¬ Received s event)
    (h : step s event = some s') : ¬ Drained s' := by
  obtain ⟨-,hstep⟩ := stepped h
  cases hstep with
  | closed conn hmain hgone =>
    intro hdrained
    obtain ⟨t,ht,-⟩ := hdrained none rfl
    cases ht
  | queued conn hmain hthere => exact absurd hthere hlost
  | full conn hmain hthere => exact absurd hthere hlost
  | _ => exact absurd trivial hlost

/-- `main` drains before it returns exactly in the runs that accept no connection after the
dispatcher has stopped. -/
theorem drained_iff (rt : Runtime F) {events : List (Event F S)} {s : State F S}
    (hrun : exec step (start rt) events = some s) :
    Throughout step Drained (start rt) events ↔ Along step Received (start rt) events := by
  have hstart : Drained (start rt : State F S) := drained_of_live fun _ hmain => nomatch hmain
  exact throughout_iff (fun s i s' _ hreceived h => Drained.step hreceived h)
    (fun s i s' _ hlost h => not_drained_of_closed hlost h) hstart hrun

/-! The connection limit. -/

/-- The client sockets past the dispatcher: one for each connection task, and those that have
been handed to tunnels. -/
def openSockets (s : State F S) : ℕ := s.connections.length+s.tunnels.countP (·.socket)

theorem permits_step {s s' : State F S} {event : Event F S} (h : step s event = some s') :
    s'.connLimit+s'.connections.length = s.connLimit+s.connections.length := by
  have hrelease : ∀ {i : ℕ}, i < s.connections.length →
      (release s i).connLimit+(release s i).connections.length = s.connLimit+s.connections.length := by
    intro i hi
    simp only [release,List.length_eraseIdx_of_lt hi]
    omega
  cases (stepped h).2 with
  | dispatched task hfree =>
    simp only [List.length_append,List.length_singleton]
    omega
  | close hi => exact hrelease hi
  | handOver hi ht => exact hrelease hi
  | _ => rfl

theorem connections_le_permits (rt : Runtime F) {events : List (Event F S)} {s : State F S}
    (hrun : exec step (start rt) events = some s) : s.connections.length ≤ permits rt.config := by
  have hall : s.connLimit+s.connections.length = permits rt.config := by
    apply exec_invariant (P := fun s : State F S => s.connLimit+s.connections.length = permits rt.config) _ rfl hrun
    intro s event s' hs h
    exact (permits_step h).trans hs
  omega

omit [AsyncRead UInt8 S] [HttpCrate] in
theorem countP_tunnelsOf (id : ℕ) (tr : Trace) : (tunnelsOf id tr).countP (·.socket) = 0 := by
  rw [List.countP_eq_zero]
  intro t ht
  obtain ⟨e,-,rfl⟩ := List.mem_map.mp ht
  simp

theorem tunnelSockets_step {s s' : State F S} {event : Event F S} (h : step s event = some s')
    (hkept : ∀ i j, event ≠ .handOver i j) :
    s'.tunnels.countP (·.socket) ≤ s.tunnels.countP (·.socket) := by
  cases (stepped h).2 with
  | served req moments =>
    rw [List.countP_append,countP_tunnelsOf]
    exact le_rfl
  | handOver hi ht => exact absurd rfl (hkept _ _)
  | tunnelEnds => exact (List.eraseIdx_sublist _ _).countP_le
  | _ => exact le_rfl

/-- Without a hand-over to a tunnel, the permits bound all open sockets. -/
theorem openSockets_le_permits (rt : Runtime F) {events : List (Event F S)} {s : State F S}
    (hrun : exec step (start rt) events = some s) (hkept : ∀ i j, .handOver i j ∉ events) :
    openSockets s ≤ permits rt.config := by
  have htunnels : s.tunnels.countP (·.socket) = 0 := by
    apply exec_invariant_of (P := fun s : State F S => s.tunnels.countP (·.socket) = 0)
      (Q := fun event => ∀ i j, event ≠ .handOver i j) _ _ rfl hrun
    · intro s event s' hevent hs h
      exact Nat.le_zero.mp (hs ▸ tunnelSockets_step h hevent)
    · rintro event hevent i j rfl
      exact hkept i j hevent
  have hconnections := connections_le_permits rt hrun
  unfold openSockets
  omega

omit [AsyncRead UInt8 S] in
theorem proxyRequest_tunnels (ctx : ProxyContext) {req : Request} (clientAddr : SocketAddr)
    (hplain : isUpgradeRequest req.parts = false) :
    Sat answer (proxyRequest ctx req clientAddr) fun tr _ => ∀ e ∈ tr, startsTunnel e.1 = false := by
  have hgated : ∀ {tr : Trace}, Gated clientAddr.ip tr → ∀ e ∈ tr, startsTunnel e.1 = false := by
    rintro tr htr ⟨op,m⟩ he
    have hgate := htr _ he
    cases op with
    | spawnTunnel u => cases hgate
    | _ => rfl
  have hroutine : ∀ op, routine op = true → startsTunnel op = false := by
    intro op hop
    cases op with
    | spawnTunnel u => cases hop
    | _ => rfl
  apply proxyRequest_rule
  · intro tr status msg htr _ _
    exact hgated htr
  · intro tr lb start htr _ _
    rw [hplain]
    refine Sat.mono (proxyPlain_uses hroutine ctx req clientAddr lb start).sat ?_
    intro tr' _ htr' e he
    exact (List.mem_append.mp he).elim (hgated htr e) (htr' e)

theorem handOver_needs_upgrade (rt : Runtime F) {events : List (Event F S)} {s : State F S}
    (hrun : exec step (start rt) events = some s)
    (hplain : ∀ i req moments, .serve i req moments ∈ events → isUpgradeRequest req.parts = false) :
    ∀ i j, .handOver i j ∉ events := by
  intro i j hmem
  obtain ⟨front,back,rfl⟩ := List.append_of_mem hmem
  rw [exec_append] at hrun
  obtain ⟨m,hfront,hrest⟩ := Option.bind_eq_some_iff.mp hrun
  obtain ⟨m',hstep,-⟩ := exec_cons.mp hrest
  have hnone : m.tunnels = [] := by
    apply exec_invariant_of (P := fun s : State F S => s.tunnels = [])
      (Q := fun event => ∀ i req moments, event = .serve i req moments → isUpgradeRequest req.parts = false)
      _ _ rfl hfront
    · intro s event s' hevent hs h
      cases (stepped h).2 with
      | @served i id clientAddr ctx req moments =>
        have hrequest := (proxyRequest_tunnels ctx clientAddr (hevent i req moments rfl)).run moments
        simpa [hs,tunnelsOf] using hrequest
      | handOver hi ht => simp [hs] at ht
      | tunnelEnds => simp [hs]
      | _ => exact hs
    · rintro event hevent i req moments rfl
      exact hplain i req moments (by simp [hevent])
  cases (stepped hstep).2 with
  | handOver hi ht => simp [hnone] at ht

end Tasks

/-! Runs of a server with the fewest permits there can be. -/

def limitedConfig : Config ℚ := { Config.ofPools [⟨"http://a",1⟩] [] with maxConnections := 1 }

def limitedRuntime : Runtime ℚ where
  config := limitedConfig
  router := Router.fromConfig limitedConfig
  rateLimiter := none
  tls := false
  requestLimit := some 0
  proxyTrusted := none

def arriving : AcceptedConn (Scheduled UInt8) := ⟨⟨Stream'.Seq.nil,Stream'.const 16⟩,samplePeer⟩

/-- A connection is being served when the dispatcher sees the shutdown first and another one
arrives: `main` returns at once. -/
theorem returned_without_drain :
    Runtime.fromConfig 0 (.ok ()) limitedConfig = .ok limitedRuntime ∧
      ∃ s, exec (@step ℚ (Scheduled UInt8) _ visibleAscii) (start limitedRuntime)
          [.accept arriving,.receive,.signal,.dispatcherStops,.accept arriving] = some s ∧
        s.shutdown = true ∧ s.connections.length = 1 ∧ ¬ Drained s := by
  refine ⟨rfl,?_⟩
  have hrun : (exec (@step ℚ (Scheduled UInt8) _ visibleAscii) (start limitedRuntime)
      [.accept arriving,.receive,.signal,.dispatcherStops,.accept arriving]).map
        (fun s => (s.shutdown,s.connections.length,s.main)) = some (true,1,.returned none) := by
    decide +kernel
  obtain ⟨s,hs,hend⟩ := Option.map_eq_some_iff.mp hrun
  simp only [Prod.mk.injEq] at hend
  refine ⟨s,hs,hend.1,hend.2.1,?_⟩
  intro hdrained
  obtain ⟨t,ht,-⟩ := hdrained none hend.2.2
  cases ht

theorem drained_iff_quiet :
    let events : List (Event ℚ (Scheduled UInt8)) :=
      [.accept arriving,.receive,.signal,.dispatcherStops,.shutdownSeen,.elapse drainWait,.drained]
    ∃ s, exec (@step ℚ (Scheduled UInt8) _ visibleAscii) (start limitedRuntime) events = some s ∧
      s.main = .returned (some 0) ∧
      (Throughout (@step ℚ (Scheduled UInt8) _ visibleAscii) Drained (start limitedRuntime) events ↔
        Along (@step ℚ (Scheduled UInt8) _ visibleAscii) Received (start limitedRuntime) events) := by
  intro events
  have hrun : (exec (@step ℚ (Scheduled UInt8) _ visibleAscii) (start limitedRuntime) events).map
      (·.main) = some (.returned (some 0)) := by decide +kernel
  obtain ⟨s,hs,hmain⟩ := Option.map_eq_some_iff.mp hrun
  exact ⟨s,hs,hmain,@drained_iff ℚ (Scheduled UInt8) _ visibleAscii limitedRuntime events s hs⟩

/-- All permits are taken and one connection is upgraded: its socket stays open in the tunnel,
and the freed permit admits another. -/
def upgradedRun : List (Event ℚ (Scheduled UInt8)) :=
  (List.replicate 64 [.accept arriving,.receive]).flatten++
    [.serve 0 (basicRequest "GET" [(UPGRADE,⟨RustText.asBytes "websocket".toList⟩)] [])
      (fun _ => steady [⟨"http://a",1⟩] (.ok (bare 101))),
      .handOver 0 0,.accept arriving,.receive]

theorem sockets_exceed_permits :
    permits limitedRuntime.config = 64 ∧
      (exec (@step ℚ (Scheduled UInt8) _ visibleAscii) (start limitedRuntime) upgradedRun).map
        openSockets = some 65 := by
  decide +kernel

theorem openSockets_le_permits_full :
    let events : List (Event ℚ (Scheduled UInt8)) := (List.replicate 65 [.accept arriving,.receive]).flatten
    ∃ s, exec (@step ℚ (Scheduled UInt8) _ visibleAscii) (start limitedRuntime) events = some s ∧
      (∀ i j, .handOver i j ∉ events) ∧ openSockets s ≤ permits limitedRuntime.config := by
  intro events
  have hrun : (exec (@step ℚ (Scheduled UInt8) _ visibleAscii) (start limitedRuntime) events).map
      openSockets = some 64 := by decide +kernel
  obtain ⟨s,hs,-⟩ := Option.map_eq_some_iff.mp hrun
  have hkept : ∀ i j, .handOver i j ∉ events := by simp [events]
  exact ⟨s,hs,hkept,@openSockets_le_permits ℚ (Scheduled UInt8) _ visibleAscii limitedRuntime events s hs hkept⟩

end Server
end OxiGate
