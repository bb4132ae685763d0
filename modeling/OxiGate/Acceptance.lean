import OxiGate.Metrics
import OxiGate.Server

/-! What becomes of the connections the server accepts, and what its metrics say of them. A connection waits
in the channel, is started, is shed because there is no room or no permit, or is discarded because the dispatcher
has stopped. -/
namespace OxiGate
namespace Server

open ByteReader Net Http Interaction Proxy Connection Runs Metrics

variable {F S : Type}

structure Journal (S : Type) where
  accepted : List (AcceptedConn S)
  started : List (AcceptedConn S)
  shed : List (AcceptedConn S)
  discarded : List (AcceptedConn S)

def Journal.empty : Journal S := ⟨[],[],[],[]⟩

structure Observed (F S : Type) where
  server : State F S
  metrics : Registry
  journal : Journal S

def measure (s : State F S) (event : Event F S) (r : Registry) : Registry :=
  match event with
  | .accept _ => if s.dispatching && !decide (s.queue.length < s.channelCap) then r.recordShed else r
  | .receive =>
    match s.queue with
    | _::_ => if 0 < s.connLimit then r.connectionOpened else r.recordShed
    | [] => r
  | .close _ => r.connectionClosed
  | .handOver _ _ => r.connectionClosed
  | _ => r

/-- What a step does to connections that are not being served yet. -/
def Journal.note (j : Journal S) (s : State F S) (event : Event F S) : Journal S :=
  match event with
  | .accept conn =>
    let j := { j with accepted := j.accepted++[conn] }
    if !s.dispatching then { j with discarded := j.discarded++[conn] }
    else if s.queue.length < s.channelCap then j
    else { j with shed := j.shed++[conn] }
  | .receive =>
    match s.queue with
    | conn::_ =>
      if 0 < s.connLimit then { j with started := j.started++[conn] } else { j with shed := j.shed++[conn] }
    | [] => j
  | .dispatcherStops => { j with discarded := j.discarded++s.queue }
  | _ => j

section Tasks

variable [AsyncRead UInt8 S] [HttpCrate]

/-- The server with its metrics, and a journal that nothing reads. -/
def observe (o : Observed F S) (event : Event F S) : Option (Observed F S) :=
  (step o.server event).map fun server => ⟨server,measure o.server event o.metrics,o.journal.note o.server event⟩

def observed (rt : Runtime F) : Observed F S := ⟨start rt,Registry.new,Journal.empty⟩

theorem exec_observe (o : Observed F S) (events : List (Event F S)) :
    (exec observe o events).map Observed.server = exec step o.server events := by
  induction events generalizing o with
  | nil => rfl
  | cons event events ih =>
    cases h : step o.server event with
    | none => simp [exec,observe,h]
    | some server => simp [exec,observe,h,ih]

/-- The connections and the metrics agree: each accepted connection has been started, was shed and counted, was
discarded, or still waits, and the gauge shows the connection tasks. -/
structure Accounted (o : Observed F S) : Prop where
  /-- Connections are started at most once and in the order in which they came. -/
  ordered : (o.journal.started++o.server.queue).Sublist o.journal.accepted
  conserved : o.journal.accepted.length =
    o.journal.started.length+o.server.queue.length+o.journal.shed.length+o.journal.discarded.length
  counted : o.metrics.requests Registry.shedLabels = o.journal.shed.length
  gauge : o.metrics.activeConnections = o.server.connections.length
  room : o.server.queue.length ≤ o.server.channelCap

omit [AsyncRead UInt8 S] [HttpCrate] in
theorem accounted_start (rt : Runtime F) : Accounted (observed rt : Observed F S) :=
  ⟨List.nil_sublist _,rfl,rfl,rfl,Nat.zero_le _⟩

omit [AsyncRead UInt8 S] [HttpCrate] in
theorem Accounted.of_same {o o' : Observed F S} (h : Accounted o) (hqueue : o'.server.queue = o.server.queue)
    (hcap : o'.server.channelCap = o.server.channelCap) (hconnections : o'.server.connections = o.server.connections)
    (hmetrics : o'.metrics = o.metrics) (hjournal : o'.journal = o.journal) : Accounted o' := by
  obtain ⟨hordered,hconserved,hcounted,hgauge,hroom⟩ := h
  constructor
  · rwa [hjournal,hqueue]
  · rwa [hjournal,hqueue]
  · rwa [hmetrics,hjournal]
  · rwa [hmetrics,hconnections]
  · rwa [hqueue,hcap]

theorem step_accept {s s' : State F S} {conn : AcceptedConn S} (h : step s (.accept conn) = some s') :
    s' = trySend s conn := by
  unfold step at h
  split at h
  · cases h
  · obtain ⟨-,h⟩ := Option.ite_none_right_eq_some.mp h
    exact (Option.some.inj h).symm

theorem step_receive {s s' : State F S} (h : step s .receive = some s') :
    (∃ conn rest, s.queue = conn::rest ∧ s' = dispatch { s with queue := rest } conn) ∨
      s.queue = [] ∧ s.main ≠ .accepting ∧ s' = { s with dispatching := false } := by
  unfold step at h
  split at h
  · cases h
  · obtain ⟨-,h⟩ := Option.ite_none_right_eq_some.mp h
    split at h
    · rename_i conn rest hqueue
      exact Or.inl ⟨conn,rest,hqueue,(Option.some.inj h).symm⟩
    · rename_i hqueue
      obtain ⟨hmain,h⟩ := Option.ite_none_left_eq_some.mp h
      exact Or.inr ⟨hqueue,hmain,(Option.some.inj h).symm⟩

theorem step_dispatcherStops {s s' : State F S} (h : step s .dispatcherStops = some s') :
    s.shutdown = true ∧ s' = { s with dispatching := false, queue := [] } := by
  unfold step at h
  split at h
  · cases h
  · obtain ⟨hready,h⟩ := Option.ite_none_right_eq_some.mp h
    exact ⟨hready.2,(Option.some.inj h).symm⟩

omit [AsyncRead UInt8 S] [HttpCrate] in
theorem requests_recordShed (r : Registry) :
    r.recordShed.requests Registry.shedLabels = r.requests Registry.shedLabels+1 := by
  simp [Registry.recordShed,Registry.record,Registry.requests,Registry.shedLabels,Children.value_update]

omit [AsyncRead UInt8 S] [HttpCrate] in
theorem Accounted.accept {o : Observed F S} (h : Accounted o) (conn : AcceptedConn S) :
    Accounted ⟨trySend o.server conn,measure o.server (.accept conn) o.metrics,
      o.journal.note o.server (.accept conn)⟩ := by
  have hlater : (o.journal.started++o.server.queue).Sublist (o.journal.accepted++[conn]) :=
    h.ordered.trans (List.sublist_append_left _ _)
  have hconserved := h.conserved
  cases hthere : o.server.dispatching with
  | false =>
    simp only [trySend,measure,Journal.note,hthere,Bool.not_false,if_true,Bool.false_and,Bool.false_eq_true,if_false]
    refine ⟨hlater,?_,h.counted,h.gauge,h.room⟩
    simp only [List.length_append,List.length_singleton]
    omega
  | true =>
    by_cases hroom : o.server.queue.length < o.server.channelCap
    · simp only [trySend,measure,Journal.note,hthere,hroom,Bool.not_true,Bool.false_eq_true,if_false,if_true,
        decide_true,Bool.and_false]
      refine ⟨?_,?_,h.counted,h.gauge,?_⟩
      · rw [← List.append_assoc]
        exact h.ordered.append (List.Sublist.refl [conn])
      · simp only [List.length_append,List.length_singleton]
        omega
      · simp only [List.length_append,List.length_singleton]
        omega
    · simp only [trySend,measure,Journal.note,hthere,hroom,Bool.not_true,Bool.false_eq_true,if_false,
        decide_false,Bool.not_false,Bool.and_self,if_true]
      refine ⟨hlater,?_,?_,h.gauge,h.room⟩
      · simp only [List.length_append,List.length_singleton]
        omega
      · rw [requests_recordShed,h.counted,List.length_append,List.length_singleton]

omit [HttpCrate] in
theorem Accounted.receive {o : Observed F S} (h : Accounted o) {conn : AcceptedConn S} {rest : List (AcceptedConn S)}
    (hqueue : o.server.queue = conn::rest) :
    Accounted ⟨dispatch { o.server with queue := rest } conn,measure o.server .receive o.metrics,
      o.journal.note o.server .receive⟩ := by
  obtain ⟨hordered,hconserved,hcounted,hgauge,hroom⟩ := h
  rw [hqueue] at hordered hconserved hroom
  rw [List.length_cons] at hconserved hroom
  by_cases hfree : 0 < o.server.connLimit
  · simp only [dispatch,measure,Journal.note,hqueue,hfree,if_true]
    refine ⟨?_,?_,hcounted,?_,Nat.le_of_succ_le hroom⟩
    · rwa [List.append_assoc]
    · simp only [List.length_append,List.length_singleton]
      omega
    · simp only [Registry.connectionOpened,List.length_append,List.length_singleton]
      omega
  · simp only [dispatch,measure,Journal.note,hqueue,hfree,if_false]
    refine ⟨?_,?_,?_,hgauge,Nat.le_of_succ_le hroom⟩
    · exact ((List.Sublist.refl _).append (List.sublist_cons_self conn rest)).trans hordered
    · simp only [List.length_append,List.length_singleton]
      omega
    · rw [requests_recordShed,hcounted,List.length_append,List.length_singleton]

omit [AsyncRead UInt8 S] [HttpCrate] in
theorem Accounted.release {o : Observed F S} (h : Accounted o) {i : ℕ} (hi : i < o.server.connections.length)
    (tunnels : List Tunnel) :
    Accounted ⟨{ release o.server i with tunnels := tunnels },o.metrics.connectionClosed,o.journal⟩ := by
  have hgauge := h.gauge
  refine ⟨h.ordered,h.conserved,h.counted,?_,h.room⟩
  simp only [Registry.connectionClosed,Server.release,List.length_eraseIdx_of_lt hi]
  omega

theorem Accounted.step {o o' : Observed F S} {event : Event F S} (ho : Accounted o) (h : observe o event = some o') :
    Accounted o' := by
  obtain ⟨s',hs',rfl⟩ := Option.map_eq_some_iff.mp h
  cases event with
  | accept conn =>
    rw [step_accept hs']
    exact ho.accept conn
  | receive =>
    rcases step_receive hs' with ⟨conn,rest,hqueue,rfl⟩ | ⟨hqueue,-,rfl⟩
    · exact ho.receive hqueue
    · exact ho.of_same rfl rfl rfl (by simp [measure,hqueue]) (by simp [Journal.note,hqueue])
  | dispatcherStops =>
    obtain ⟨-,rfl⟩ := step_dispatcherStops hs'
    obtain ⟨hordered,hconserved,hcounted,hgauge,-⟩ := ho
    refine ⟨?_,?_,hcounted,hgauge,Nat.zero_le _⟩
    · rw [List.append_nil]
      exact (List.sublist_append_left _ _).trans hordered
    · simp only [Journal.note,List.length_append,List.length_nil]
      omega
  | close i =>
    cases (stepped hs').2 with
    | close hi => exact ho.release hi _
  | handOver i j =>
    cases (stepped hs').2 with
    | handOver hi ht => exact ho.release hi _
  | _ =>
    cases (stepped hs').2
    exact ho.of_same rfl rfl rfl rfl rfl

structure Running (o : Observed F S) : Prop where
  accepting : o.server.main = .accepting
  dispatching : o.server.dispatching = true
  unsignalled : o.server.shutdown = false
  kept : o.journal.discarded = []

theorem Running.step {o o' : Observed F S} {event : Event F S} (ho : Running o) (hevent : event ≠ .signal)
    (h : observe o event = some o') : Running o' := by
  obtain ⟨s',hs',rfl⟩ := Option.map_eq_some_iff.mp h
  obtain ⟨haccepting,hdispatching,hunsignalled,hkept⟩ := ho
  cases event with
  | signal => exact absurd rfl hevent
  | accept conn =>
    rw [step_accept hs']
    by_cases hroom : o.server.queue.length < o.server.channelCap
    · simp only [trySend,Journal.note,hdispatching,hroom,Bool.not_true,Bool.false_eq_true,if_false,if_true]
      exact ⟨haccepting,rfl,hunsignalled,hkept⟩
    · simp only [trySend,Journal.note,hdispatching,hroom,Bool.not_true,Bool.false_eq_true,if_false]
      exact ⟨haccepting,hdispatching,hunsignalled,hkept⟩
  | receive =>
    rcases step_receive hs' with ⟨conn,rest,hqueue,rfl⟩ | ⟨-,hmain,-⟩
    · by_cases hfree : 0 < o.server.connLimit
      · simp only [dispatch,Journal.note,hqueue,hfree,if_true]
        exact ⟨haccepting,hdispatching,hunsignalled,hkept⟩
      · simp only [dispatch,Journal.note,hqueue,hfree,if_false]
        exact ⟨haccepting,hdispatching,hunsignalled,hkept⟩
    · exact absurd haccepting hmain
  | dispatcherStops =>
    obtain ⟨hflag,-⟩ := step_dispatcherStops hs'
    exact absurd hflag (by simp [hunsignalled])
  | shutdownSeen =>
    cases (stepped hs').2 with
    | shutdownSeen hmain hflag => exact absurd hflag (by simp [hunsignalled])
  | drained =>
    cases (stepped hs').2 with
    | drained hmain hwait => exact absurd hmain (by simp [haccepting])
  | _ =>
    cases (stepped hs').2
    exact ⟨haccepting,hdispatching,hunsignalled,hkept⟩

end Tasks

end Server
end OxiGate
