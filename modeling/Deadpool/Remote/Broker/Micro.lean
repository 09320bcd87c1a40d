import Deadpool.Lookup
import Deadpool.Remote.Broker.Step

/-!
# The broker: what a critical section can do

Every step of the broker is a sequence of small changes, each of one kind: a message is enqueued, a
request is accepted, becomes `RUNNING`, ends or is removed, a session is registered or unregistered, a
local future moves on.  `Micro` lists them with what holds where they happen.  Invariants of the broker
are proved over `Micro`, one case for each kind; that the steps consist of such changes is proved once.

A `Scope` limits the changes: to the requests of some sessions, to sessions that may accept, to requests
that may start or end, to connections that may leave.
-/

set_option autoImplicit false

namespace Deadpool.Remote.Broker

open Deadpool.Py Deadpool.Lts

/-! ## Predicates on states -/

/-- The request is in the table of its session. -/
def State.Listed (s : State) (r : Nat) (record : Request) : Prop :=
  ∃ session, s.sessions[record.session]? = some session ∧ (record.requestId, r) ∈ session.requests

/-- A message that may be enqueued on a connection, with the request it is for. -/
inductive State.Says (s : State) (c : Nat) : Entry → Prop
  | plain {m : Message} : m.kind.reports = false → Says s c ⟨none, m⟩
  | accepted {r : Nat} {record : Request} : s.records[r]? = some record → record.connection = c →
      record.state = .acceptedQueued → Says s c ⟨some r, acceptedMessage record.requestId⟩
  | running {r : Nat} {record : Request} {pid : Option Nat} {workerId : Obj} :
      s.records[r]? = some record → record.connection = c → record.state = .running →
      Says s c ⟨some r, runningMessage record.requestId pid workerId⟩
  | terminal {r : Nat} {record : Request} {kind : MessageType} : s.records[r]? = some record →
      record.connection = c → record.state.terminal = true → s.Listed r record →
      record.terminalKind = some kind → Says s c ⟨some r, record.terminalMessage kind⟩

/-- The message goes onto the queue. -/
def Connection.enqueue (conn : Connection) (entry : Entry) : Connection :=
  { conn with outbound := conn.outbound ++ [.message entry.message], log := conn.log ++ [entry] }

/-- A connection changes in nothing that requests and sessions depend on. -/
structure Connection.Quiet (conn conn' : Connection) : Prop where
  session : conn'.session = conn.session
  log : conn'.log = conn.log
  closed : conn.closed = true → conn'.closed = true
  reader : conn'.reader = conn.reader
  cleanClose : conn'.cleanClose = conn.cleanClose

/-- The dispatcher has the future in hand. -/
def Dispatcher.holds (f : Nat) : Dispatcher → Bool
  | .staged _ f' | .submitted _ f' | .full _ f' | .failed _ f' _ | .calling _ f' => f = f'
  | .idle | .exited => false

def LocalFuture.pending (fut : LocalFuture) : Bool :=
  match fut.phase with
  | .pending => true
  | .done _ => false

/-- The callback of the future is still to run. -/
def LocalFuture.watched (fut : LocalFuture) : Bool := fut.attached && (fut.pending || fut.notifying)

/-- The end of the staging of a future has not been processed. -/
def State.unended (s : State) (f : Nat) : Bool :=
  s.dispatcher.holds f || (s.futures[f]?.map LocalFuture.watched).getD false

/-- The record of the future has ended. -/
def State.EndedFor (s : State) (f : Nat) : Prop :=
  ∃ fut record, s.futures[f]? = some fut ∧ s.records[fut.record]? = some record ∧
    record.state.terminal = true

/-- The local future of the request is in the local pool. -/
def State.Submitted (s : State) (record : Request) : Prop :=
  ∃ f fut, record.localFuture = some f ∧ s.futures[f]? = some fut ∧ fut.submitted = true

/-- What `_submit` has checked of a request that it accepts. -/
structure State.Admits (cfg : Config) (s : State) (c i : Nat) (session : Session) (sequence : Int)
    (record : Request) : Prop where
  connected : s.connections[c]?.bind Connection.session = some i
  opened : s.sessions[i]? = some session
  sequenced : requestSequence session.clientId record.requestId = .ok sequence
  watermark : session.watermark < sequence
  unlisted : session.requests.get? record.requestId = none
  status : s.status = .running
  room : s.queueFull cfg session = false
  fresh : ∃ m now registered priority executionTimeout queueTimeout,
    record = newRequest cfg c i session record.requestId m now registered priority executionTimeout
      queueTimeout
  deadline : ∀ d, record.queueDeadline = some d → d ≠ .nan
  encodable : Encodable record.requestId

/-- `_submit` from the watermark to the scheduler. -/
def State.enter (s : State) (i : Nat) (sequence : Int) (record : Request) : State :=
  (s.setSession i fun session => { session with watermark := sequence }).accept record

/-- `_remove_request_locked` of a request whose reservation is held. -/
def State.retire (s : State) (r : Nat) (record : Request) : State :=
  { s with
    records := s.records.modify r fun record =>
      { record with reservationReleased := true, payload := [], terminalPayload := [] }
    sessions := s.sessions.modify record.session fun session =>
      { session with
        reservedOutcomes := session.reservedOutcomes - 1
        reservedOutcomeBytes := session.reservedOutcomeBytes - record.reservedResultBytes
        requests := session.requests.pop record.requestId }
    requests := s.requests.pop record.requestId
    reservedOutcomes := s.reservedOutcomes - 1
    reservedOutcomeBytes := s.reservedOutcomeBytes - record.reservedResultBytes }

/-- Sockets and connections grow only as far as the limits let them. -/
structure State.Rooms (cfg : Config) (s s' : State) : Prop where
  total : s'.total ≤ max s.total cfg.limits.maxConnectionsGlobal
  unauthenticated :
    s'.unauthenticated ≤ max s.unauthenticated cfg.limits.maxUnauthenticatedConnections

/-- What `_complete_local` may find as the payload for a request. -/
inductive State.Returned (s : State) (r : Nat) : Bytes → Prop
  | empty : Returned s r []
  | future {f : Nat} {fut : LocalFuture} {outcome : Outcome} : s.futures[f]? = some fut →
      fut.record = r → fut.phase = .done outcome → Returned s r outcome.payload
  | failed {f : Nat} {outcome : Outcome} : s.dispatcher = .failed r f outcome →
      Returned s r outcome.payload

/-- The arguments of `_terminal_locked` for a request. -/
structure State.Ends (s : State) (r : Nat) (t : Terminal) : Prop extends t.Ends where
  payload : s.Returned r t.payload

/-- Every request in `_requests` has ended. -/
def State.Emptied (s : State) : Prop :=
  ∀ e ∈ s.requests, ∀ record : Request, s.records[e.2]? = some record → record.state.terminal = true

/-- How the state of the server changes. -/
inductive State.Advances (s : State) : ServerState → Prop
  | same : Advances s s.status
  | draining : s.status = .running → Advances s .draining
  | stopping : s.Emptied → Advances s .stopping
  | stopped : s.status = .stopping → Advances s .stopped

/-! ## What a step may touch -/

structure Scope where
  /-- sessions whose requests may change -/
  session : Nat → Prop
  /-- sessions that may accept a request, with its ID -/
  accepts : State → Nat → Str → Prop
  /-- requests that may become `RUNNING` -/
  starts : Nat → Prop
  /-- requests that may end -/
  ends : Nat → Prop
  /-- connections whose reader may leave -/
  leaves : Nat → Prop
  /-- outcomes that the local pool may give a future -/
  returns : State → Nat → Outcome → Prop
  /-- the sets of sockets and connections may change -/
  sockets : Prop
  /-- connections that may register a session -/
  greets : Nat → Prop

def Scope.all : Scope :=
  ⟨fun _ => True, fun _ _ _ => True, fun _ => True, fun _ => True, fun _ => True, fun _ _ _ => True, True,
    fun _ => True⟩

/-! ## Local futures -/

/-- The local futures, the dispatcher and the count of stagings change. -/
def State.worked (s : State) (futures : List LocalFuture) (dispatcher : Dispatcher) (staged : Int) :
    State :=
  { s with futures := futures, dispatcher := dispatcher, staged := staged }

/-- A local future or the dispatcher moves on. -/
inductive WorkStep (scope : Scope) (s : State) : State → Prop
  | submitted {r f : Nat} : s.dispatcher = .staged r f →
      WorkStep scope s (s.worked (s.futures.modify f fun fut => { fut with submitted := true })
        (.submitted r f) s.staged)
  | refused {r f : Nat} {d : Dispatcher} : s.dispatcher = .staged r f →
      (d = .full r f ∨ ∃ text, d = .failed r f (.raised text)) →
      WorkStep scope s (s.worked s.futures d s.staged)
  | attach {r f : Nat} {fut : LocalFuture} : s.dispatcher = .submitted r f →
      s.futures[f]? = some fut → fut.pending = true →
      WorkStep scope s (s.worked (s.futures.modify f fun fut => { fut with attached := true }) .idle
        s.staged)
  | call {r f : Nat} {fut : LocalFuture} : s.dispatcher = .submitted r f →
      s.futures[f]? = some fut → fut.pending = false →
      WorkStep scope s (s.worked s.futures (.calling r f) s.staged)
  | exit : s.dispatcher = .idle → WorkStep scope s (s.worked s.futures .exited s.staged)
  | finish {f : Nat} {fut : LocalFuture} {outcome : Outcome} : s.futures[f]? = some fut →
      fut.pending = true → fut.submitted = true → scope.returns s f outcome →
      WorkStep scope s (s.worked
        (s.futures.modify f fun fut => { fut with phase := .done outcome, notifying := fut.attached })
        s.dispatcher s.staged)
  | cancel {f : Nat} {fut : LocalFuture} : s.futures[f]? = some fut → fut.pending = true →
      fut.attached = false →
      WorkStep scope s
        (s.worked (s.futures.modify f fun fut => { fut with phase := .done cancelledOutcome })
          s.dispatcher s.staged)
  | pid {f pid : Nat} :
      WorkStep scope s (s.worked (s.futures.modify f fun fut => { fut with pid := some pid }) s.dispatcher
        s.staged)
  -- the end of a staging is processed
  | cancelled {f : Nat} {fut : LocalFuture} : s.futures[f]? = some fut → fut.pending = true →
      fut.attached = true → s.EndedFor f →
      WorkStep scope s
        (s.worked (s.futures.modify f fun fut => { fut with phase := .done cancelledOutcome })
          s.dispatcher (s.staged - 1))
  | notified {f : Nat} {fut : LocalFuture} : s.futures[f]? = some fut → fut.notifying = true →
      s.EndedFor f →
      WorkStep scope s (s.worked (s.futures.modify f fun fut => { fut with notifying := false })
        s.dispatcher (s.staged - 1))
  | called {r f : Nat} :
      (s.dispatcher = .calling r f ∨ ∃ outcome, s.dispatcher = .failed r f outcome) → s.EndedFor f →
      WorkStep scope s (s.worked s.futures .idle (s.staged - 1))

/-! ## Changes -/

/-- One change of the broker. -/
inductive Micro (cfg : Config) (scope : Scope) : State → State → Prop
  | flags {s : State} {status : ServerState} {shutdownStarted shutdownCancelFutures : Bool}
      {shutdownDeadline : Option Float64} {killed : List (Nat × Nat)} {flips : List Bool} :
      s.Advances status → Micro cfg scope s
        { s with
          status := status
          shutdownStarted := shutdownStarted
          shutdownCancelFutures := shutdownCancelFutures
          shutdownDeadline := shutdownDeadline
          killed := killed
          flips := flips }
  | sockets {s : State} {rawSockets : Nat} {openConnections : List Nat} : scope.sockets →
      s.Rooms cfg { s with rawSockets, openConnections } →
      Micro cfg scope s { s with rawSockets, openConnections }
  | connect {s : State} {conn : Connection} : conn.session = none → conn.log = [] →
      (conn.reader = .greeting ∨ conn.reader = .gone ∧ conn.closed = true) →
      Micro cfg scope s { s with connections := s.connections ++ [conn] }
  | connection {s : State} {c : Nat} {f : Connection → Connection} :
      (∀ conn : Connection, conn.Quiet (f conn)) → Micro cfg scope s (s.setConnection c f)
  | cleanClose {s : State} {c i : Nat} {session : Session} :
      s.connections[c]?.bind Connection.session = some i → s.sessions[i]? = some session →
      (∀ r ∈ session.requests.values, ∀ record : Request, s.records[r]? = some record →
        record.state.terminal = true) →
      Micro cfg scope s (s.setConnection c fun conn => { conn with cleanClose := true })
  | reader {s : State} {c : Nat} {next : Reader} : next ≠ .greeting → next ≠ .gone →
      (∀ m, next = .answering m → m.kind.reports = false) → Micro cfg scope s (s.setReader c next)
  | gone {s : State} {c : Nat} {conn : Connection} : scope.leaves c → s.connections[c]? = some conn →
      conn.closed = true → Micro cfg scope s (s.setReader c .gone)
  | say {s : State} {c : Nat} {conn : Connection} {entry : Entry} : s.connections[c]? = some conn →
      conn.closed = false → s.Says c entry →
      Micro cfg scope s (s.setConnection c fun conn => conn.enqueue entry)
  | accept {s : State} {c i : Nat} {conn : Connection} {session : Session} {sequence : Int}
      {record : Request} {f : Connection → Connection} : scope.session i →
      scope.accepts s i record.requestId →
      s.Admits cfg c i session sequence record → s.connections[c]? = some conn →
      (conn.Quiet (f conn) ∧ (f conn).closed = true ∨
        conn.closed = false ∧
          f conn = conn.enqueue ⟨some s.records.length, acceptedMessage record.requestId⟩) →
      Micro cfg scope s ((s.enter i sequence record).setConnection c f)
  | watermark {s : State} {i : Nat} {session : Session} {sequence : Int} : scope.session i →
      s.sessions[i]? = some session → session.watermark < sequence →
      Micro cfg scope s (s.setSession i fun session => { session with watermark := sequence })
  | start {s : State} {r : Nat} {record : Request} {now : Clock} : scope.session record.session →
      scope.starts r → s.records[r]? = some record → record.state = .acceptedQueued → record.expired now = false →
      s.Submitted record → Micro cfg scope s (s.setRecord r (Request.start now))
  | claim {s : State} {r pid : Nat} {record : Request} : scope.session record.session →
      s.records[r]? = some record → record.state = .running →
      Micro cfg scope s (s.setRecord r fun record => { record with claims := record.claims ++ [pid] })
  | emptied {s : State} {r : Nat} {record : Request} : scope.session record.session →
      s.records[r]? = some record → s.Submitted record →
      Micro cfg scope s (s.setRecord r fun record => { record with payload := [] })
  | stage {s : State} {r : Nat} {record : Request} {scheduler : FairScheduler Nat} :
      scope.session record.session → s.dispatcher = .idle → s.staged < cfg.limits.maxStagedTasks →
      s.scheduler.pop = some (r, scheduler) → s.records[r]? = some record →
      record.state = .acceptedQueued → Micro cfg scope s (State.stage { s with scheduler } r)
  | requeue {s : State} {r f : Nat} {record : Request} : scope.session record.session →
      s.dispatcher = .full r f → s.records[r]? = some record → Micro cfg scope s (s.requeue r)
  | finish {s : State} {r : Nat} {record : Request} {t : Terminal} : scope.session record.session →
      scope.ends r → s.records[r]? = some record → record.state.terminal = false →
      s.Ends r t →
      Micro cfg scope s
        (State.setRecord { s with scheduler := s.scheduler.remove r } r (Request.finish t))
  | finishStaged {s : State} {r : Nat} {record : Request} {t : Terminal} :
      scope.session record.session → scope.ends r → s.records[r]? = some record →
      record.state.terminal = false → record.localFuture.isSome = true → s.Ends r t →
      Micro cfg scope s (s.setRecord r (Request.finish t))
  | retire {s : State} {r : Nat} {record : Request} : scope.session record.session →
      s.records[r]? = some record → record.state.terminal = true → record.session ∈ s.live →
      s.Listed r record → Micro cfg scope s (s.retire r record)
  | unregister {s : State} {i : Nat} {session : Session} : scope.session i →
      s.sessions[i]? = some session → session.requests = [] → s.closed session.connection = true →
      Micro cfg scope s (s.unregister i)
  | register {s : State} {c : Nat} {conn : Connection} {session : Session} :
      s.connections[c]? = some conn → conn.reader = .greeting → session.connection = c →
      s.clientSessions.get? session.clientId = none →
      s.principalConnections session.principal < cfg.limits.maxConnectionsPerPrincipal →
      session = newSession cfg c session.clientId session.principal session.maxResultBytes →
      scope.greets c → Micro cfg scope s ((s.register c session).setReader c .welcoming)
  | work {s s' : State} : WorkStep scope s s' → Micro cfg scope s s'

/-- A sequence of changes. -/
abbrev Micros (cfg : Config) (scope : Scope) : State → State → Prop :=
  Relation.ReflTransGen (Micro cfg scope)

end Deadpool.Remote.Broker
