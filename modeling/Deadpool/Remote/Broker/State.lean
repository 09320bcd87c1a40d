import Deadpool.Remote.Outcome
import Deadpool.Remote.Scheduler

/-!
# The broker: data and locked operations

`DeadpoolServer` of `deadpool/remote/server.py` between its threads: the tables of sessions and
requests, the connections with their outbound queues, the local futures of staged requests.  Objects
that the source compares by identity are numbers here, indices into lists that only grow.

A connection is closed by its writer thread without the server's lock, so the flag may change between
any two reads of it.  `flips` holds, for the critical section that runs, whether that happens before
each of its reads.

`startedAt` and `claims` of a request, `log` of a connection, and `killed` and `masked` are history:
nothing reads them.
-/

set_option autoImplicit false

namespace Deadpool.Remote.Broker

open Deadpool.Py

inductive DisconnectPolicy where
  | cancelQueued | continue | terminate
  deriving DecidableEq, Repr

inductive ServerState where
  | running | draining | stopping | stopped
  deriving DecidableEq, Repr

/-- What the constructor fixes, and the versions of the interpreter and the serializer. -/
structure Config where
  limits : RemoteLimits
  accepted : limits.Accepted
  policy : DisconnectPolicy
  /-- the names in `task_registry` -/
  registry : List Str
  serializerName : Str
  serializerProtocol : Str
  python : Int × Int
  registryFingerprint : Option Str
  applicationFingerprint : Option Str
  sha256 : Bytes → Hex 64

/-- A reading of `time.monotonic()`. -/
structure Clock where
  reading : Float64
  finite : reading.isFinite = true

/-- `_Request` -/
structure Request where
  requestId : Str
  digest : Str
  principal : Str
  session : Nat
  connection : Nat
  registered : Bool
  operation : Obj
  payload : Bytes
  priority : Int
  executionTimeout : Option Float64
  queueDeadline : Option Float64
  groupId : Obj
  maxResultBytes : Nat
  reservedResultBytes : Nat
  state : RequestState := .acceptedQueued
  localFuture : Option Nat := none
  terminalKind : Option MessageType := none
  terminalPayload : Bytes := []
  terminalControl : List (Str × Str) := []
  reservationReleased : Bool := false
  /-- the clock reading at which it became `RUNNING` -/
  startedAt : Option Float64 := none
  /-- the workers for which `_claim_dispatch` returned true -/
  claims : List Nat := []

/-- `_Session` -/
structure Session where
  clientId : Str
  principal : Str
  connection : Nat
  maxResultBytes : Nat
  watermark : Int := 0
  reservedOutcomes : Int := 0
  reservedOutcomeBytes : Int := 0
  requests : Table Str Nat := []

/-- An item of the outbound queue. -/
inductive OutItem where
  | message (m : Message)
  | barrier
  | stop

/-- An enqueued message and the request it was enqueued for. -/
structure Entry where
  record : Option Nat
  message : Message

/-- A message that `MessageReader.receive` returns: `_validate_json` has encoded its texts. -/
structure Inbound where
  message : Message
  encodable : EncodableItems message.control.items

/-- Where the thread of `_connection_loop` stands. -/
inductive Reader where
  | greeting
  | welcoming
  | reading
  | handling (m : Inbound)
  /-- before a response that is sent without the lock -/
  | answering (m : Message)
  /-- an exception with this text was raised -/
  | failing (text : Str)
  /-- before `_disconnect` -/
  | leaving
  | gone

/-- `_ServerConnection` -/
structure Connection where
  session : Option Nat := none
  closed : Bool := false
  cleanClose : Bool := false
  outbound : List OutItem := []
  reader : Reader := .greeting
  writerAlive : Bool := true
  log : List Entry := []

inductive FuturePhase where
  | pending
  | done (outcome : Outcome)

/-- `_PoolFuture` -/
structure LocalFuture where
  record : Nat
  pid : Option Nat := none
  phase : FuturePhase := .pending
  /-- the job is in the local pool -/
  submitted : Bool := false
  /-- `_pool_done` is among the callbacks -/
  attached : Bool := false
  /-- the thread that ended the future has still to run the callbacks -/
  notifying : Bool := false

/-- Where the thread of `_dispatch_loop` stands. -/
inductive Dispatcher where
  | idle
  /-- before `_submit_future` -/
  | staged (r f : Nat)
  /-- before `add_done_callback` -/
  | submitted (r f : Nat)
  /-- `queue.Full` was raised -/
  | full (r f : Nat)
  /-- another exception was raised -/
  | failed (r f : Nat) (outcome : Outcome)
  /-- `add_done_callback` found the future done -/
  | calling (r f : Nat)
  | exited

structure State where
  status : ServerState := .running
  rawSockets : Nat := 0
  connections : List Connection := []
  /-- `_connections` -/
  openConnections : List Nat := []
  sessions : List Session := []
  /-- `_sessions` -/
  live : List Nat := []
  clientSessions : Table Str Nat := []
  records : List Request := []
  /-- `_requests` -/
  requests : Table Str Nat := []
  reservedOutcomes : Int := 0
  reservedOutcomeBytes : Int := 0
  scheduler : FairScheduler Nat := .empty
  staged : Int := 0
  futures : List LocalFuture := []
  dispatcher : Dispatcher := .idle
  shutdownStarted : Bool := false
  shutdownCancelFutures : Bool := false
  shutdownDeadline : Option Float64 := none
  /-- requests whose worker was killed, with its pid -/
  killed : List (Nat × Nat) := []
  /-- a guard `if self._staged` has skipped a decrement -/
  masked : Bool := false
  flips : List Bool := []

/-! ## Connections -/

section Operations

variable (cfg : Config)

/-- `close` -/
def Connection.close (conn : Connection) : Connection :=
  if conn.closed then conn
  else
    { conn with
      closed := true
      outbound :=
        if conn.outbound.length < cfg.limits.outboundQueueSize then conn.outbound ++ [.stop]
        else conn.outbound }

/-- `put_nowait` of an item; a full queue closes the connection. -/
def Connection.put (conn : Connection) (item : OutItem) (entries : List Entry) : Connection :=
  if conn.closed then conn
  else if conn.outbound.length < cfg.limits.outboundQueueSize then
    { conn with outbound := conn.outbound ++ [item], log := conn.log ++ entries }
  else conn.close cfg

def State.setConnection (s : State) (c : Nat) (f : Connection → Connection) : State :=
  { s with connections := s.connections.modify c f }

def State.setSession (s : State) (i : Nat) (f : Session → Session) : State :=
  { s with sessions := s.sessions.modify i f }

def State.setRecord (s : State) (r : Nat) (f : Request → Request) : State :=
  { s with records := s.records.modify r f }

def State.setFuture (s : State) (f : Nat) (g : LocalFuture → LocalFuture) : State :=
  { s with futures := s.futures.modify f g }

/-- The writer may close the connection before its flag is read. -/
def State.poll (s : State) (c : Nat) : State :=
  match s.flips with
  | [] => s
  | false :: rest => { s with flips := rest }
  | true :: rest => { s with flips := rest }.setConnection c (Connection.close cfg)

/-- `send` -/
def State.send (s : State) (c : Nat) (record : Option Nat) (m : Message) : State :=
  (s.poll cfg c).setConnection c fun conn => conn.put cfg (.message m) [⟨record, m⟩]

/-- `flush`, without the wait -/
def State.flush (s : State) (c : Nat) : State :=
  (s.poll cfg c).setConnection c fun conn => conn.put cfg .barrier []

def State.closed (s : State) (c : Nat) : Bool := (s.connections[c]?.map Connection.closed).getD true

/-! ## Messages -/

def acceptedMessage (requestId : Str) : Message :=
  ⟨.accepted, (requestControl requestId).set (lit "state") (.str (lit RequestState.acceptedQueued.name)), []⟩

def runningMessage (requestId : Str) (pid : Option Nat) (workerId : Obj) : Message :=
  ⟨.running, (requestControl requestId)
    |>.set (lit "pid") (match pid with | none => .none | some pid => .int pid)
    |>.set (lit "worker_id") workerId, []⟩

def rejectedMessage (requestId : Str) (reason : String) : Message :=
  ⟨.rejected, (requestControl requestId).set (lit "reason") (.str (lit reason)), []⟩

/-- A terminal message with the data the record holds. -/
def Request.terminalMessage (record : Request) (kind : MessageType) : Message :=
  ⟨kind, controlOf record.requestId record.terminalControl, record.terminalPayload⟩

/-! ## Ending a request -/

/-- The assignments of `_terminal_locked`. -/
def Request.finish (t : Terminal) (record : Request) : Request :=
  { record with
    state := t.state
    payload := []
    terminalKind := some t.kind
    terminalControl := t.control
    terminalPayload := t.payload }

/-- `_terminal_locked` -/
def State.terminalLocked (s : State) (r : Nat) (t : Terminal) : State :=
  match s.records[r]? with
  | none => s
  | some record =>
    if record.state.terminal then s
    else (s.setRecord r (Request.finish t)).send cfg record.connection (some r) (t.message record.requestId)

/-- `_release_reservation_locked` -/
def State.releaseReservation (s : State) (r : Nat) (record : Request) : State :=
  if record.reservationReleased then s
  else
    let s := s.setRecord r fun record => { record with reservationReleased := true }
    let s := s.setSession record.session fun session =>
      { session with
        reservedOutcomes := session.reservedOutcomes - 1
        reservedOutcomeBytes := session.reservedOutcomeBytes - record.reservedResultBytes }
    { s with
      reservedOutcomes := s.reservedOutcomes - 1
      reservedOutcomeBytes := s.reservedOutcomeBytes - record.reservedResultBytes }

/-- `_remove_request_locked` -/
def State.removeRequest (s : State) (r : Nat) : State :=
  match s.records[r]? with
  | none => s
  | some record =>
    if record.session ∈ s.live then
      let s := s.releaseReservation r record
      let s := s.setRecord r fun record => { record with payload := [], terminalPayload := [] }
      let s := s.setSession record.session fun session =>
        { session with requests := session.requests.pop record.requestId }
      { s with requests := s.requests.pop record.requestId }
    else s

/-- One turn of the loop of `_purge_session_locked`. -/
def State.removeTerminal (s : State) (r : Nat) : State :=
  match s.records[r]? with
  | none => s
  | some record => if record.state.terminal then s.removeRequest r else s

/-- The end of `_purge_session_locked`. -/
def State.unregister (s : State) (i : Nat) : State :=
  match s.sessions[i]? with
  | none => s
  | some session =>
    if session.requests = [] then
      { s with
        live := s.live.filter (· ≠ i)
        clientSessions :=
          if s.clientSessions.get? session.clientId = some i then
            s.clientSessions.pop session.clientId
          else s.clientSessions }
    else s

/-- `_purge_session_locked` -/
def State.purgeSession (s : State) (i : Nat) : State :=
  match s.sessions[i]? with
  | none => s
  | some session => (session.requests.values.foldl State.removeTerminal s).unregister i

/-! ## Local futures -/

/-- The end of `_complete_local`. -/
def State.completed (s : State) (record : Request) : State :=
  let s := if s.staged = 0 then { s with masked := true } else { s with staged := s.staged - 1 }
  let s := s.poll cfg record.connection
  if s.closed record.connection ∧ record.session ∈ s.live then s.purgeSession record.session else s

/-- `_complete_local`.  An exception of the fitting routine leaves everything as it is. -/
def State.completeLocal (s : State) (r : Nat) (outcome : Outcome) : State :=
  match s.records[r]? with
  | none => s
  | some record =>
    if record.state.terminal then s.completed cfg record
    else
      match outcome.terminal cfg.limits record.requestId with
      | .error _ => s
      | .ok t => (s.terminalLocked cfg r t).completed cfg record

/-- `repr(CancelledError())` -/
def cancelledOutcome : Outcome := .raised (lit "CancelledError()")

/-- `cancel` of a local future: a pending one is done, and its callbacks run at once. -/
def State.cancelFuture (s : State) (f : Nat) : State :=
  match s.futures[f]? with
  | none => s
  | some fut =>
    match fut.phase with
    | .done _ => s
    | .pending =>
      let s := s.setFuture f fun fut => { fut with phase := .done cancelledOutcome }
      if fut.attached then s.completeLocal cfg fut.record cancelledOutcome else s

/-- `if record.local_future is not None: record.local_future.cancel()` -/
def State.cancelLocal (s : State) (r : Nat) : State :=
  match s.records[r]? with
  | none => s
  | some record =>
    match record.localFuture with
    | none => s
    | some f => s.cancelFuture cfg f

/-- `if record.local_future is not None: record.local_future.cancel_and_kill_if_running()` -/
def State.killLocal (s : State) (r : Nat) : State :=
  match s.records[r]? with
  | none => s
  | some record =>
    match record.localFuture with
    | none => s
    | some f =>
      let s := s.cancelFuture cfg f
      match s.futures[f]? with
      | none => s
      | some fut =>
        match fut.pid with
        | none => s
        | some pid => { s with killed := s.killed ++ [(r, pid)] }

/-- A queued request leaves the scheduler and ends. -/
def State.endQueued (s : State) (r : Nat) (t : Terminal) : State :=
  let s := { s with scheduler := s.scheduler.remove r }
  (s.terminalLocked cfg r t).cancelLocal cfg r

/-- A running request ends and its worker is killed. -/
def State.endRunning (s : State) (r : Nat) (t : Terminal) : State :=
  (s.terminalLocked cfg r t).killLocal cfg r

def cancelledTerminal (reason : String) : Terminal :=
  ⟨.cancelled, .cancelled, [(lit "reason", lit reason)], []⟩

def queueTimeout : Terminal :=
  ⟨.queueTimedOut, .queueTimedOut, [(lit "reason", lit "queue_timeout")], []⟩

/-- `now >= record.queue_deadline`, for a record with a deadline -/
def Request.expired (record : Request) (now : Clock) : Bool :=
  match record.queueDeadline with
  | none => false
  | some d => Float64.le d now.reading

end Operations

end Deadpool.Remote.Broker
