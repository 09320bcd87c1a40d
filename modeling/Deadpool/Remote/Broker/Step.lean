import Deadpool.Lts
import Deadpool.Remote.Broker.State

/-!
# The broker: messages, threads and steps

The handlers of `_handle_message`, the dispatcher, the callbacks of the local pool, `_disconnect` and
`_finish_shutdown`.  One label is one critical section, or one action outside the lock; it carries what
the environment decides there: clock readings, results of the local pool, answers of the authorizer, and
the moments at which writers close connections.
-/

set_option autoImplicit false

namespace Deadpool.Remote.Broker

open Deadpool.Py Deadpool.Lts

section Handlers

variable (cfg : Config)

/-! ## Submissions -/

/-- The text that `_connection_loop` reports for an exception other than `RemoteProtocolError`. -/
def malformed (text : Str) : Str := lit "malformed peer message: " ++ text

/-- `_finite_nonnegative` -/
def finiteNonnegative (name : String) (v : Value) : Except Str Float64 :=
  let invalid : Except Str Float64 := .error (lit name ++ lit " must be finite and non-negative")
  match v with
  | .int n =>
    if ¬ (Float64.ofInt n).isFinite then
      .error (malformed (lit "int too large to convert to float"))
    else if n < 0 then invalid
    else .ok (.ofInt n)
  | .float x => if ¬ x.isFinite ∨ Float64.lt x .zero then invalid else .ok x
  | _ => invalid

/-- `_optional_finite_nonnegative` -/
def optionalFiniteNonnegative (name : String) : Value → Except Str (Option Float64)
  | .none => .ok none
  | v => (finiteNonnegative name v).map some

/-- `value == text` -/
def isText (text : Str) : Value → Bool
  | .str s => s = text
  | _ => false

/-- `request_id.rsplit(":", 1)[1]` -/
def afterLastColon (requestId : Str) : Str :=
  (requestId.reverse.takeWhile fun c => c.val ≠ 0x3A).reverse

/-- The checks of `_submit` on a request ID, with the sequence number. -/
def requestSequence (clientId requestId : Str) : Except Str Int :=
  if (clientId ++ lit ":").isPrefixOf requestId then
    match int (afterLastColon requestId) with
    | none => .error (lit "invalid request sequence")
    | some sequence => .ok sequence
  else .error (lit "request ID does not belong to the client instance")

/-- What becomes of a submission before admission. -/
inductive Precheck where
  | replay (r : Nat)
  | reused
  | stale
  | fresh

/-- The checks of `_submit` against the session's own requests. -/
def Session.precheck (session : Session) (digestOf : Nat → Option Str) (requestId digest : Str)
    (sequence : Int) : Precheck :=
  match session.requests.get? requestId with
  | some r => if digestOf r = some digest then .replay r else .reused
  | none => if sequence ≤ session.watermark then .stale else .fresh

/-- The admission test of `_submit`. -/
def State.queueFull (s : State) (session : Session) : Bool :=
  let principalRecords := (s.requests.values.filter fun r =>
    (s.records[r]?.map Request.principal) = some session.principal).length
  session.requests.length ≥ cfg.limits.maxPendingPerSession ||
  principalRecords ≥ cfg.limits.maxPendingPerPrincipal ||
  s.requests.length ≥ cfg.limits.maxPendingGlobal ||
  session.reservedOutcomes ≥ cfg.limits.maxRetainedOutcomesPerSession ||
  s.reservedOutcomes ≥ cfg.limits.maxRetainedOutcomesGlobal ||
  session.reservedOutcomeBytes + session.maxResultBytes
    > cfg.limits.maxRetainedOutcomeBytesPerSession ||
  s.reservedOutcomeBytes + session.maxResultBytes > cfg.limits.maxRetainedOutcomeBytesGlobal

/-- A handler's result: the state, and where the reader goes. -/
abbrev Handled : Type := State × Reader

/-- A handler raises `RemoteProtocolError`. -/
def raised (text : String) : Reader := .failing (lit text)

/-- `_send_record` -/
def State.sendRecord (s : State) (r : Nat) : State :=
  match s.records[r]? with
  | none => s
  | some record =>
    match record.state with
    | .acceptedQueued => s.send cfg record.connection (some r) (acceptedMessage record.requestId)
    | .running =>
      s.send cfg record.connection (some r) (runningMessage record.requestId
        (record.localFuture.bind fun f => s.futures[f]?.bind LocalFuture.pid) .none)
    | _ =>
      match record.terminalKind with
      | none => s
      | some kind => s.send cfg record.connection (some r) (record.terminalMessage kind)

/-- The assignments of `_submit` for an accepted request. -/
def State.accept (s : State) (record : Request) : State :=
  let r := s.records.length
  let s := { s with records := s.records ++ [record], requests := s.requests.set record.requestId r }
  let s := s.setSession record.session fun session =>
    { session with
      requests := session.requests.set record.requestId r
      reservedOutcomes := session.reservedOutcomes + 1
      reservedOutcomeBytes := session.reservedOutcomeBytes + record.reservedResultBytes }
  { s with
    reservedOutcomes := s.reservedOutcomes + 1
    reservedOutcomeBytes := s.reservedOutcomeBytes + record.reservedResultBytes
    scheduler := s.scheduler.put r record.priority record.principal }

/-- The record of an accepted submission. -/
def newRequest (c i : Nat) (session : Session) (requestId : Str) (m : Message) (now : Clock)
    (registered : Bool) (priority : Float64) (executionTimeout queueTimeout : Option Float64) :
    Request where
  requestId := requestId
  digest := (cfg.sha256 m.payload).text
  principal := session.principal
  session := i
  connection := c
  registered := registered
  operation := m.control.get (lit "operation")
  payload := m.payload
  priority := priority.trunc
  executionTimeout := executionTimeout
  queueDeadline := queueTimeout.map fun t => Float64.add now.reading t
  groupId := m.control.get (lit "group_id")
  maxResultBytes := session.maxResultBytes
  reservedResultBytes := session.maxResultBytes

inductive Admission where
  | reject (reason : String)
  | raise (text : Str)
  | accept (record : Request)

/-- The authorization and the numbers of a submission. -/
def authorize (c i : Nat) (session : Session) (requestId : Str) (m : Message) (now : Clock)
    (grant : Str → Except Str Bool) (registered : Bool) : Admission :=
  match grant requestId with
  | .error text => .raise text
  | .ok false => .reject "unauthorized"
  | .ok true =>
    let record : Except Str Request := do
      let priority ← finiteNonnegative "priority"
        ((m.control.items.get? (lit "priority")).getD (.int 0))
      let executionTimeout ← optionalFiniteNonnegative "execution_timeout"
        (m.control.items.get (lit "execution_timeout"))
      let queueTimeout ← optionalFiniteNonnegative "queue_timeout"
        (m.control.items.get (lit "queue_timeout"))
      return newRequest cfg c i session requestId m now registered priority executionTimeout
        queueTimeout
    match record with
    | .error text => .raise text
    | .ok record => .accept record

/-- `_submit` from the admission test to the record.  `grant` is the authorizer, an error with the
text that is reported when it raises. -/
def State.admission (s : State) (c i : Nat) (session : Session) (requestId : Str) (m : Message)
    (now : Clock) (grant : Str → Except Str Bool) : Admission :=
  if s.status ≠ .running then .reject "server_draining"
  else if s.queueFull cfg session then .reject "queue_full"
  else if m.payload.length > cfg.limits.maxInvocationBytes then .reject "invocation_too_large"
  else
    match m.control.items.get (lit "mode") with
    | .str mode =>
      if mode = lit "callable" then authorize cfg c i session requestId m now grant false
      else if mode = lit "registered" then
        match m.control.items.get (lit "operation") with
        | .str operation =>
          if operation ∈ cfg.registry then authorize cfg c i session requestId m now grant true
          else .reject "unknown_operation"
        | .list _ => .raise (malformed (lit "unhashable type: 'list'"))
        | .dict _ => .raise (malformed (lit "unhashable type: 'dict'"))
        | _ => .reject "unknown_operation"
      else .reject "invalid_mode"
    | .list _ => .raise (malformed (lit "unhashable type: 'list'"))
    | .dict _ => .raise (malformed (lit "unhashable type: 'dict'"))
    | _ => .reject "invalid_mode"

/-- `_submit` of a fresh request ID. -/
def State.submitFresh (s : State) (c i : Nat) (session : Session) (requestId : Str) (m : Message)
    (now : Clock) (grant : Str → Except Str Bool) : Handled :=
  match s.admission cfg c i session requestId m now grant with
  | .reject reason => (s.send cfg c none (rejectedMessage requestId reason), .reading)
  | .raise text => (s, .failing text)
  | .accept record =>
    ((s.accept record).send cfg c (some s.records.length) (acceptedMessage requestId), .reading)

/-- `_submit` -/
def State.submit (s : State) (c : Nat) (m : Message) (now : Clock) (grant : Str → Except Str Bool) :
    Handled :=
  match s.connections[c]?.bind Connection.session with
  | none => (s, raised "submission before handshake")
  | some i =>
    match s.sessions[i]? with
    | none => (s, raised "submission before handshake")
    | some session =>
      match m.control.items.get (lit "request_id") with
      | .str requestId =>
        match requestSequence session.clientId requestId with
        | .error text => (s, .failing text)
        | .ok sequence =>
          let digest := (cfg.sha256 m.payload).text
          if isText digest (m.control.items.get (lit "digest")) then
            match session.precheck (fun r => s.records[r]?.map Request.digest) requestId digest
              sequence with
            | .replay r => (s.sendRecord cfg r, .reading)
            | .reused => (s, raised "request ID reused with different payload")
            | .stale => (s.send cfg c none (rejectedMessage requestId "stale_request"), .reading)
            | .fresh =>
              let s := s.setSession i fun session => { session with watermark := sequence }
              s.submitFresh cfg c i session requestId m now grant
          else (s, raised "invocation digest mismatch")
      | _ => (s, raised "request ID does not belong to the client instance")

/-! ## The other messages -/

/-- `_owned_request` -/
def State.ownedRequest (s : State) (c : Nat) (requestId : Value) : Option Nat :=
  match (s.connections[c]?.bind Connection.session).bind fun i => s.sessions[i]?, requestId with
  | some session, .str requestId => session.requests.get? requestId
  | _, _ => none

/-- The truth value of `control.get("hard", False)`. -/
def truthy : Value → Bool
  | .none => false
  | .bool b => b
  | .int n => n ≠ 0
  | .float x => !(Float64.le x .zero && Float64.le .zero x)
  | .str s => s ≠ []
  | .list xs => !xs.isEmpty
  | .dict items => !items.isEmpty
  | .other _ => true

/-- What a cancellation finds. -/
inductive Decision where
  | cancelled | running | terminal | unknown
  deriving DecidableEq, Repr

def Decision.name : Decision → String
  | .cancelled => "cancelled"
  | .running => "running"
  | .terminal => "terminal"
  | .unknown => "unknown"

/-- One request of `_cancel` or `_cancel_group`; an error when the authorizer raises. -/
def State.cancelOne (s : State) (r : Nat) (hard : Bool) (grant : Str → Except Str Bool)
    (soft killed : String) : State × Except Str Decision :=
  match s.records[r]? with
  | none => (s, .ok .unknown)
  | some record =>
    match record.state with
    | .acceptedQueued => (s.endQueued cfg r (cancelledTerminal soft), .ok .cancelled)
    | .running =>
      if hard then
        match grant record.requestId with
        | .error text => (s, .error text)
        | .ok true => (s.endRunning cfg r (cancelledTerminal killed), .ok .cancelled)
        | .ok false => (s, .ok .running)
      else (s, .ok .running)
    | _ => (s, .ok .terminal)

/-- What `_cancel` does to the request. -/
def State.cancelOwned (s : State) (c : Nat) (control : Dict) (grant : Str → Except Str Bool) :
    State × Except Str Decision :=
  match s.ownedRequest c (control.items.get (lit "request_id")) with
  | none => (s, .ok .unknown)
  | some r =>
    s.cancelOne cfg r (truthy (control.items.get (lit "hard"))) grant "cancelled" "terminated"

/-- The response of `_cancel`. -/
def cancelResponse (control : Dict) (decision : Decision) : Message :=
  ⟨.cancelResponse, Dict.empty
    |>.set (lit "request_id") (control.get (lit "request_id"))
    |>.set (lit "response") (.str (lit decision.name))
    |>.set (lit "token") (control.get (lit "token")), []⟩

/-- `_cancel` -/
def State.cancel (s : State) (c : Nat) (control : Dict) (grant : Str → Except Str Bool) : Handled :=
  match s.cancelOwned cfg c control grant with
  | (s, .error text) => (s, .failing text)
  | (s, .ok decision) => (s.send cfg c none (cancelResponse control decision), .reading)

/-- The loop of `_cancel_group`. -/
def State.cancelEach (hard : Bool) (grant : Str → Except Str Bool) :
    State → List Nat → List Decision → State × Except Str (List Decision)
  | s, [], found => (s, .ok found)
  | s, r :: rest, found =>
    match s.cancelOne cfg r hard grant "group_cancelled" "group_terminated" with
    | (s, .error text) => (s, .error text)
    | (s, .ok decision) => State.cancelEach hard grant s rest (found ++ [decision])

/-- The requests of a session in a group. -/
def State.inGroup (s : State) (c : Nat) (groupId : Str) : List Nat :=
  match (s.connections[c]?.bind Connection.session).bind fun i => s.sessions[i]? with
  | none => []
  | some session => session.requests.values.filter fun r =>
      match s.records[r]? with
      | none => false
      | some record => isText groupId record.groupId.val

/-- What `_cancel_group` does to the requests. -/
def State.cancelMembers (s : State) (c : Nat) (control : Dict) (grant : Str → Except Str Bool) :
    State × Except Str (List Decision) :=
  match control.items.get (lit "group_id") with
  | .str groupId =>
    match s.inGroup c groupId with
    | [] => (s, .ok [.unknown])
    | records => State.cancelEach cfg (truthy (control.items.get (lit "hard"))) grant s records []
  | _ => (s, .ok [.unknown])

/-- The response of `_cancel_group`. -/
def groupResponse (control : Dict) (found : List Decision) : Message :=
  let count (d : Decision) : Obj := .int (found.countP (· = d))
  ⟨.cancelGroupResponse, Dict.empty
    |>.set (lit "cancelled") (count .cancelled)
    |>.set (lit "running") (count .running)
    |>.set (lit "terminal") (count .terminal)
    |>.set (lit "unknown") (count .unknown)
    |>.set (lit "token") (control.get (lit "token")), []⟩

/-- `_cancel_group` -/
def State.cancelGroup (s : State) (c : Nat) (control : Dict) (grant : Str → Except Str Bool) : Handled :=
  match s.cancelMembers cfg c control grant with
  | (s, .error text) => (s, .failing text)
  | (s, .ok found) => (s, .answering (groupResponse control found))

/-- The response of `_status`. -/
def State.statusResponse (s : State) (c : Nat) (control : Dict) : Message :=
  let requestId := control.get (lit "request_id")
  let name := match (s.ownedRequest c requestId.val).bind fun r => s.records[r]? with
    | none => "UNKNOWN"
    | some record => record.state.name
  ⟨.statusResponse, Dict.empty
    |>.set (lit "request_id") requestId
    |>.set (lit "state") (.str (lit name))
    |>.set (lit "token") (control.get (lit "token")), []⟩

/-- `RESULT_ACK` -/
def State.acknowledge (s : State) (c : Nat) (control : Dict) : State :=
  match s.ownedRequest c (control.items.get (lit "request_id")) with
  | none => s
  | some r => s.removeTerminal r

/-- `CLOSE_SESSION` -/
def State.closeSession (s : State) (c : Nat) (control : Dict) : Handled :=
  match (s.connections[c]?.bind Connection.session).bind fun i => s.sessions[i]? with
  | none => (s, raised "a session may close cleanly only after all requests are terminal")
  | some session =>
    if session.requests.values.any fun r =>
        (s.records[r]?.map fun record => !record.state.terminal).getD false then
      (s, raised "a session may close cleanly only after all requests are terminal")
    else
      (s.setConnection c fun conn => { conn with cleanClose := true },
        .answering ⟨.closeSessionResponse,
          Dict.empty.set (lit "token") (control.get (lit "token")), []⟩)

/-- `_handle_message`.  `statistics` is what `get_statistics` returns, if the request for it is
authorized. -/
def State.handleMessage (s : State) (c : Nat) (m : Message) (now : Clock)
    (grant : Str → Except Str Bool) (statistics : Option Dict) : Handled :=
  match m.kind with
  | .ping =>
    (s, .answering ⟨.pong, Dict.empty.set (lit "nonce") (m.control.get (lit "nonce")), []⟩)
  | .submit => s.submit cfg c m now grant
  | .cancelRequest => s.cancel cfg c m.control grant
  | .cancelGroup => s.cancelGroup cfg c m.control grant
  | .statusRequest => (s, .answering (s.statusResponse c m.control))
  | .statsRequest =>
    let answer := match statistics with
      | some d => Dict.empty.set (lit "statistics") d.obj
      | none => Dict.empty.set (lit "error") (.str (lit "unauthorized"))
    (s, .answering ⟨.statsResponse, answer.set (lit "token") (m.control.get (lit "token")), []⟩)
  | .resultAck => (s.acknowledge c m.control, .reading)
  | .closeSession => s.closeSession c m.control
  | kind => (s, raised ("message " ++ kind.name ++ " is invalid in this state"))

/-! ## Handshake -/

/-- The fields of `HELLO`, of the types that `_validate_hello` requires. -/
structure Hello where
  versions : List (Int × Int)
  clientInstanceId : Str
  serializer : Str
  serializerProtocol : Str
  wire : Str
  wireLimits : Table Str Int
  python : Int × Int
  capabilities : List Str
  maxResultBytes : Int
  registryFingerprint : Option Str := none
  applicationFingerprint : Option Str := none

/-- The values of `_wire_limits`. -/
def wireLimitValues (limits : RemoteLimits) : Table Str Int :=
  [(lit "max_control_bytes", limits.maxControlBytes),
    (lit "max_frame_payload_bytes", limits.maxFramePayloadBytes),
    (lit "max_message_bytes", limits.maxMessageBytes),
    (lit "max_metadata_bytes", limits.maxMetadataBytes),
    (lit "max_chunks", limits.maxChunks)]

/-- `_validate_wire_limits`: the text of the error. -/
def invalidWireLimits (names : List Str) (wireLimits : Table Str Int) : Option Str :=
  if wireLimits.any (·.1 ∉ names) ∨ names.any (fun name => (wireLimits.get? name).isNone) then
    some (lit "wire limits have invalid fields")
  else
    (wireLimits.find? (·.2 ≤ 0)).map fun e =>
      lit "wire limit " ++ e.1 ++ lit " must be a positive integer"

/-- The tests of values in `_validate_hello`: the text of the error. -/
def Hello.invalid (hello : Hello) : Option Str :=
  if hello.clientInstanceId = [] then
    some (lit "HELLO client_instance_id must be a non-empty string")
  else if hello.serializer = [] then some (lit "HELLO serializer must be a non-empty string")
  else if hello.wire = [] then some (lit "HELLO wire must be a non-empty string")
  else if hello.clientInstanceId.length > 128 then
    some (lit "HELLO client instance ID is too long")
  else
    (invalidWireLimits ((wireLimitValues cfg.limits).map Prod.fst) hello.wireLimits).or
      (if hello.maxResultBytes ≤ 0 then
        some (lit "client result limit must be a positive integer")
      else none)

/-- Why `_handshake` rejects a peer before it looks at the sessions: the reason it sends and the error
it raises. -/
def Hello.refusal (hello : Hello) (principal : Option Str) : Option (String × String) :=
  if (wireLimitValues cfg.limits).any fun e => hello.wireLimits.get? e.1 ≠ some e.2 then
    some ("wire_limits", "wire limit compatibility rejected")
  else if (1, 0) ∉ hello.versions then some ("protocol", "no compatible protocol version")
  else if hello.serializer ≠ cfg.serializerName ∨ hello.serializerProtocol ≠ cfg.serializerProtocol then
    some ("serializer", "serializer compatibility rejected")
  else if lit "callable" ∈ hello.capabilities ∧ hello.python ≠ cfg.python then
    some ("python", "callable mode requires matching Python")
  else if cfg.registryFingerprint.isSome ∧ hello.registryFingerprint ≠ cfg.registryFingerprint then
    some ("registry_fingerprint", "task registry compatibility rejected")
  else if cfg.applicationFingerprint.isSome ∧
      hello.applicationFingerprint ≠ cfg.applicationFingerprint then
    some ("application_fingerprint", "application compatibility rejected")
  else if principal.getD [] = [] then some ("authentication", "peer authentication rejected")
  else none

/-- The session that `_handshake` builds. -/
def newSession (c : Nat) (clientId principal : Str) (offered : Nat) : Session where
  clientId := clientId
  principal := principal
  connection := c
  maxResultBytes := min offered (min cfg.limits.maxResultBytes
    (min cfg.limits.maxRetainedOutcomeBytesPerSession cfg.limits.maxRetainedOutcomeBytesGlobal))

/-- `principal_connections` in `_handshake` -/
def State.principalConnections (s : State) (principal : Str) : Nat :=
  (s.live.filter fun i => (s.sessions[i]?.map Session.principal) = some principal).length

/-- The registration of a session. -/
def State.register (s : State) (c : Nat) (session : Session) : State :=
  let i := s.sessions.length
  { s with
    sessions := s.sessions ++ [session]
    live := s.live ++ [i]
    clientSessions := s.clientSessions.set session.clientId i
    connections := s.connections.modify c fun conn => { conn with session := some i } }

/-- `_handshake` up to `WELCOME`.  `principal` is what the authenticator returns, `none` when it
raises. -/
def State.handshake (s : State) (c : Nat) (hello : Hello) (principal : Option Str) : Handled :=
  let reject (reason text : String) : Handled :=
    (s.send cfg c none ⟨.handshakeRejected, Dict.empty.set (lit "reason") (.str (lit reason)), []⟩,
      raised text)
  match hello.invalid cfg with
  | some text => (s, .failing text)
  | none =>
    match hello.refusal cfg principal with
    | some (reason, text) => reject reason text
    | none =>
      let principal := principal.getD []
      if (s.clientSessions.get? hello.clientInstanceId).isSome then
        reject "duplicate_client_instance" "client instance already has a live session"
      else if s.principalConnections principal ≥ cfg.limits.maxConnectionsPerPrincipal then
        reject "connection_limit" "principal connection limit exceeded"
      else
        (s.register c (newSession cfg c hello.clientInstanceId principal hello.maxResultBytes.toNat),
          .welcoming)

/-! ## Dispatch -/

/-- One record of `_expire_queued_locked`. -/
def State.expireOne (now : Clock) (s : State) (r : Nat) : State :=
  match s.records[r]? with
  | none => s
  | some record =>
    if record.state = .acceptedQueued ∧ record.expired now then s.endQueued cfg r queueTimeout else s

/-- `_expire_queued_locked` -/
def State.expireQueued (s : State) (now : Clock) : State :=
  s.requests.values.foldl (State.expireOne cfg now) s

/-- A popped record is staged. -/
def State.stage (s : State) (r : Nat) : State :=
  let f := s.futures.length
  { s.setRecord r fun record => { record with localFuture := some f } with
    futures := s.futures ++ [{ record := r }]
    staged := s.staged + 1
    dispatcher := .staged r f }

/-- One locked turn of `_dispatch_loop`. -/
def State.dispatch (s : State) (now : Clock) : State :=
  let s := s.expireQueued cfg now
  if s.status = .stopping ∨ s.status = .stopped then { s with dispatcher := .exited }
  else if s.scheduler.size = 0 ∨ s.staged ≥ cfg.limits.maxStagedTasks then s
  else
    match s.scheduler.pop with
    | none => s
    | some (r, scheduler) =>
      let s := { s with scheduler }
      match s.records[r]? with
      | none => s
      | some record => if record.state = .acceptedQueued then s.stage r else s

/-- What `_submit_future` does. -/
inductive PoolAnswer where
  | queued
  | full
  | raises (text : Str)

/-- The handler of `queue.Full`. -/
def State.requeue (s : State) (r : Nat) : State :=
  let s := s.setRecord r fun record => { record with localFuture := none }
  let s := { s with staged := s.staged - 1, dispatcher := .idle }
  match s.records[r]? with
  | none => s
  | some record =>
    if record.state = .acceptedQueued then
      { s with scheduler := s.scheduler.putFront r record.priority record.principal }
    else s

/-- A request becomes `RUNNING`. -/
def Request.start (now : Clock) (record : Request) : Request :=
  { record with state := .running, startedAt := some now.reading }

/-- The end of `_claim_dispatch`: publish the worker. -/
def State.publish (s : State) (r pid : Nat) : State :=
  match s.records[r]? with
  | none => s
  | some record =>
    let s := s.setRecord r fun record => { record with claims := record.claims ++ [pid] }
    let s := match record.localFuture with
      | none => s
      | some f => s.setFuture f fun fut => { fut with pid := some pid }
    s.send cfg record.connection (some r) (runningMessage record.requestId (some pid)
      (.str (lit "worker:" ++ natText pid)))

/-- `_claim_dispatch` -/
def State.claimDispatch (s : State) (r pid : Nat) (now : Clock) : State :=
  match s.records[r]? with
  | none => s
  | some record =>
    match record.state with
    | .acceptedQueued =>
      if record.expired now then (s.terminalLocked cfg r queueTimeout).cancelLocal cfg r
      else (s.setRecord r (Request.start now)).publish cfg r pid
    | .running => s.publish cfg r pid
    | _ => s

/-- `_pool_done` -/
def State.poolDone (s : State) (f : Nat) : State :=
  match s.futures[f]? with
  | none => s
  | some fut =>
    match fut.phase with
    | .pending => s
    | .done outcome => s.completeLocal cfg fut.record outcome

/-! ## Disconnect and shutdown -/

/-- One record of `_disconnect`. -/
def State.disconnectOne (s : State) (r : Nat) : State :=
  match s.records[r]? with
  | none => s
  | some record =>
    match record.state with
    | .acceptedQueued => s.endQueued cfg r (cancelledTerminal "disconnected")
    | .running =>
      if cfg.policy = .terminate ∧ record.localFuture.isSome then
        s.endRunning cfg r (cancelledTerminal "disconnected_terminate")
      else s
    | _ => s

/-- `_disconnect` up to the requests of the session. -/
def State.dropConnection (s : State) (c : Nat) : State :=
  { s.setConnection c (Connection.close cfg) with
    openConnections := s.openConnections.filter (· ≠ c) }

/-- `_disconnect`: the requests of the session. -/
def State.leaveSession (s : State) (c : Nat) : State :=
  match s.connections[c]? with
  | none => s
  | some conn =>
    match conn.session with
    | none => s
    | some i =>
      match s.sessions[i]? with
      | none => s
      | some session =>
        if conn.cleanClose ∨ cfg.policy = DisconnectPolicy.continue then s.purgeSession i
        else (session.requests.values.foldl (State.disconnectOne cfg) s).purgeSession i

/-- `_disconnect` -/
def State.disconnect (s : State) (c : Nat) : State :=
  ((s.dropConnection cfg c).leaveSession cfg c).setConnection c fun conn => { conn with reader := .gone }

/-- `shutdown` of a server that serves. -/
def State.shutdown (s : State) (cancelFutures : Bool) (deadline : Option Float64) : State :=
  if s.status = .stopped then s
  else
    { s with
      status := if s.status = .running then .draining else s.status
      shutdownStarted := true
      shutdownCancelFutures := s.shutdownCancelFutures || cancelFutures
      shutdownDeadline := match deadline, s.shutdownDeadline with
        | some d, some d' => if Float64.lt d d' then some d else some d'
        | some d, none => some d
        | none, d' => d' }

/-- One record of the first sweep of `_finish_shutdown`. -/
def State.sweepQueued (reason : String) (s : State) (r : Nat) : State :=
  match s.records[r]? with
  | none => s
  | some record =>
    if record.state = .acceptedQueued then s.endQueued cfg r (cancelledTerminal reason) else s

/-- One record of the sweep at the deadline. -/
def State.sweepActive (s : State) (r : Nat) : State :=
  match s.records[r]? with
  | none => s
  | some record =>
    if record.state = .running ∧ record.localFuture.isSome then
      s.endRunning cfg r (cancelledTerminal "shutdown_deadline")
    else s.sweepQueued cfg "shutdown_deadline" r

def State.active (s : State) : Bool :=
  s.requests.values.any fun r => (s.records[r]?.map fun record => !record.state.terminal).getD false

/-- One locked turn of the loop of `_finish_shutdown`. -/
def State.shutdownTurn (s : State) (now : Clock) : State :=
  if s.active then
    let s :=
      if s.shutdownCancelFutures then
        s.requests.values.foldl (State.sweepQueued cfg "server_shutdown") s
      else s
    match s.shutdownDeadline with
    | none => s
    | some d =>
      if Float64.le d now.reading then
        { s.requests.values.foldl (State.sweepActive cfg) s with status := .stopping }
      else s
  else { s with status := .stopping }

/-! ## The threads -/

/-- How one turn of `_writer_loop` ends. -/
inductive Write where
  | sent
  /-- an exception that the loop catches -/
  | failed
  /-- one that it does not -/
  | died
  deriving DecidableEq, Repr

inductive Action where
  -- accept threads
  | accept
  | prepare (ok : Bool)
  -- the reader of a connection
  | hello (c : Nat) (hello : Hello) (principal : Option Str)
  | welcome (c : Nat)
  | receive (c : Nat) (m : Inbound)
  | handle (c : Nat) (now : Clock) (grant : Str → Except Str Bool) (statistics : Option Dict)
  | answer (c : Nat)
  | endRead (c : Nat)
  | malformed (c : Nat) (text : Str)
  | report (c : Nat)
  | disconnect (c : Nat)
  -- the writer of a connection
  | write (c : Nat) (result : Write)
  -- the dispatcher
  | dispatch (now : Clock)
  | submitLocal (answer : PoolAnswer)
  | requeue
  | completeFailed
  | attach
  | callAttached
  -- the local pool
  | claim (f pid : Nat) (now : Clock)
  | finish (f : Nat) (outcome : Outcome)
  | notify (f : Nat)
  -- shutdown
  | shutdown (cancelFutures : Bool) (deadline : Option Float64)
  | shutdownTurn (now : Clock)
  | flush (c : Nat)
  | goaway (c : Nat)
  | drop (c : Nat)
  | stopped

/-- An action, and when writers close connections meanwhile. -/
structure Label where
  action : Action
  flips : List Bool := []

def State.withReader (s : State) (c : Nat) : Option Reader := s.connections[c]?.map Connection.reader

def State.setReader (s : State) (c : Nat) (reader : Reader) : State :=
  s.setConnection c fun conn => { conn with reader }

/-- The reader goes on after a handler. -/
def State.after (c : Nat) (h : Handled) : State := h.1.setReader c h.2

/-- `total` in `_accept_loop` -/
def State.total (s : State) : Nat := s.rawSockets + s.openConnections.length

/-- `unauthenticated` in `_accept_loop` -/
def State.unauthenticated (s : State) : Nat :=
  s.rawSockets + (s.openConnections.filter fun c =>
    (s.connections[c]?.bind Connection.session).isNone).length

/-- Whether `_accept_loop` keeps one more socket. -/
def State.roomForSocket (s : State) : Bool :=
  s.unauthenticated < cfg.limits.maxUnauthenticatedConnections &&
    s.total < cfg.limits.maxConnectionsGlobal

def State.serving (s : State) : Bool := s.status = .running ∨ s.status = .draining

/-- One turn of the writer: the head of its queue. -/
def Connection.write (conn : Connection) (result : Write) : Connection :=
  match conn.outbound with
  | [] => conn
  | .stop :: rest => { conn with outbound := rest, writerAlive := false }
  | .barrier :: rest => { conn with outbound := rest }
  | .message _ :: rest =>
    match result with
    | .sent => { conn with outbound := rest }
    | .failed => { { conn with outbound := rest }.close cfg with writerAlive := false }
    | .died => { conn with outbound := rest, writerAlive := false }

/-- Steps of the accept threads and of the readers and writers of connections. -/
def connectionStep (s : State) : Action → Option State
  -- the state was read before the socket was accepted
  | .accept => some (if s.roomForSocket cfg then { s with rawSockets := s.rawSockets + 1 } else s)
  | .prepare ok =>
    if s.rawSockets = 0 then none
    else if ok then
      let c := s.connections.length
      if s.serving then
        some { s with
          rawSockets := s.rawSockets - 1
          connections := s.connections ++ [{}]
          openConnections := s.openConnections ++ [c] }
      else
        some { s with
          rawSockets := s.rawSockets - 1
          connections := s.connections ++ [{ Connection.close cfg {} with reader := .gone }] }
    else some { s with rawSockets := s.rawSockets - 1 }
  | .hello c hello principal =>
    match s.withReader c with
    | some .greeting => some (State.after c (s.handshake cfg c hello principal))
    | _ => none
  | .welcome c =>
    match s.withReader c with
    | some .welcoming =>
      some ((s.send cfg c none ⟨.welcome, Dict.empty, []⟩).setReader c .reading)
    | _ => none
  | .receive c m =>
    match s.withReader c with
    | some .reading => if s.closed c then none else some (s.setReader c (.handling m))
    | _ => none
  | .handle c now grant statistics =>
    match s.withReader c with
    | some (.handling m) => some (State.after c (s.handleMessage cfg c m.message now grant statistics))
    | _ => none
  | .answer c =>
    match s.withReader c with
    | some (.answering m) => some ((s.send cfg c none m).setReader c .reading)
    | _ => none
  | .endRead c =>
    match s.withReader c with
    | some .greeting | some .reading => some (s.setReader c .leaving)
    | _ => none
  | .malformed c text =>
    match s.withReader c with
    | some .greeting | some .reading => some (s.setReader c (.failing text))
    | _ => none
  | .report c =>
    match s.withReader c with
    | some (.failing text) =>
      let m : Message :=
        ⟨.protocolError, Dict.empty.set (lit "message") (.str (text.take 1024)), []⟩
      some (((s.send cfg c none m).flush cfg c).setReader c .leaving)
    | _ => none
  | .disconnect c =>
    match s.withReader c with
    | some .leaving => some (s.disconnect cfg c)
    | _ => none
  | .write c result =>
    match s.connections[c]? with
    | some conn =>
      if conn.writerAlive then some (s.setConnection c (Connection.write cfg · result)) else none
    | none => none
  | _ => none

/-- Steps of the dispatcher. -/
def dispatcherStep (s : State) : Action → Option State
  | .dispatch now =>
    match s.dispatcher with
    | .idle => some (s.dispatch cfg now)
    | _ => none
  | .submitLocal answer =>
    match s.dispatcher with
    | .staged r f =>
      match answer with
      | .queued =>
        some { s.setFuture f fun fut => { fut with submitted := true } with
          dispatcher := .submitted r f }
      | .full => some { s with dispatcher := .full r f }
      | .raises text => some { s with dispatcher := .failed r f (.raised text) }
    | _ => none
  | .requeue =>
    match s.dispatcher with
    | .full r _ => some (s.requeue r)
    | _ => none
  | .completeFailed =>
    match s.dispatcher with
    | .failed r _ outcome => some (State.completeLocal cfg { s with dispatcher := .idle } r outcome)
    | _ => none
  | .attach =>
    match s.dispatcher with
    | .submitted r f =>
      let s := s.setRecord r fun record => { record with payload := [] }
      match s.futures[f]? with
      | none => none
      | some fut =>
        match fut.phase with
        | .pending =>
          some { s.setFuture f fun fut => { fut with attached := true } with dispatcher := .idle }
        | .done _ => some { s with dispatcher := .calling r f }
    | _ => none
  | .callAttached =>
    match s.dispatcher with
    | .calling _ f => some (State.poolDone cfg { s with dispatcher := .idle } f)
    | _ => none
  | _ => none

/-- Steps of the local pool and of the shutdown thread. -/
def poolStep (s : State) : Action → Option State
  | .claim f pid now =>
    match s.futures[f]? with
    | some fut => if fut.submitted then some (s.claimDispatch cfg fut.record pid now) else none
    | none => none
  | .finish f outcome =>
    match s.futures[f]? with
    | some fut =>
      match fut.phase with
      | .pending =>
        if fut.submitted then
          some (s.setFuture f fun fut =>
            { fut with phase := .done outcome, notifying := fut.attached })
        else none
      | .done _ => none
    | none => none
  | .notify f =>
    match s.futures[f]? with
    | some fut =>
      if fut.notifying then
        some ((s.setFuture f fun fut => { fut with notifying := false }).poolDone cfg f)
      else none
    | none => none
  | .shutdown cancelFutures deadline => some (s.shutdown cancelFutures deadline)
  | .shutdownTurn now =>
    if s.shutdownStarted ∧ s.serving then some (s.shutdownTurn cfg now) else none
  | .flush c => if s.status = .stopping then some (s.flush cfg c) else none
  | .goaway c =>
    if s.status = .stopping then
      some (s.send cfg c none
        ⟨.goaway, Dict.empty.set (lit "reason") (.str (lit "server_stopped")), []⟩)
    else none
  | .drop c =>
    if s.status = .stopping then some (s.setConnection c (Connection.close cfg)) else none
  | .stopped => if s.status = .stopping then some { s with status := .stopped } else none
  | _ => none

/-- One step: the action, with the closes that happen meanwhile. -/
def step (s : State) (l : Label) : Option State :=
  let s := { s with flips := l.flips }
  let s := (connectionStep cfg s l.action).or
    ((dispatcherStep cfg s l.action).or (poolStep cfg s l.action))
  s.map fun s => { s with flips := [] }

end Handlers

/-- The broker as a transition system. -/
def broker (cfg : Config) : System State Label := ⟨{}, step cfg⟩

/-! ## A small run -/

def sampleConfig (policy : DisconnectPolicy) : Config where
  limits := {}
  accepted := by decide +kernel
  policy := policy
  registry := []
  serializerName := lit "pickle"
  serializerProtocol := lit "5"
  python := (3, 12)
  registryFingerprint := none
  applicationFingerprint := none
  sha256 := fun _ => Hex.zeros 64

def early : Clock := ⟨.ofInt 0, by decide +kernel⟩

def late : Clock := ⟨.ofInt 9, by decide +kernel⟩

def sampleHello (clientId : Str) : Hello where
  versions := [(1, 0)]
  clientInstanceId := clientId
  serializer := lit "pickle"
  serializerProtocol := lit "5"
  wire := lit "json"
  wireLimits := wireLimitValues {}
  python := (3, 12)
  capabilities := []
  maxResultBytes := 1024

/-- A message about a request; a submission has a queue timeout of five seconds. -/
def sampleMessage (kind : MessageType) (requestId : Str) (h : Py.Encodable requestId) : Inbound where
  message := ⟨kind, Dict.empty
    |>.set (lit "request_id") (.str requestId)
    |>.set (lit "mode") (.str (lit "callable"))
    |>.set (lit "queue_timeout") (.int 5)
    |>.set (lit "digest") (.str (Hex.zeros 64).text), [1, 2, 3]⟩
  encodable := by
    have hempty : EncodableItems Dict.empty.items := trivial
    have hdigest : EncodableValue (.str (Hex.zeros 64).text) := by
      unfold EncodableValue
      decide +kernel
    have hmode : EncodableValue (.str (lit "callable")) := by
      unfold EncodableValue
      decide +kernel
    have hid : EncodableValue (.str requestId) := h
    have htimeout : EncodableValue (.int 5) := trivial
    have h₁ := encodableItems_set hempty (by decide +kernel : Py.Encodable (lit "request_id")) hid
    have h₂ := encodableItems_set h₁ (by decide +kernel : Py.Encodable (lit "mode")) hmode
    have h₃ := encodableItems_set h₂ (by decide +kernel : Py.Encodable (lit "queue_timeout")) htimeout
    exact encodableItems_set h₃ (by decide +kernel : Py.Encodable (lit "digest")) hdigest

theorem encodable_a0 : Py.Encodable (lit "a:0") := by decide +kernel

theorem encodable_a1 : Py.Encodable (lit "a:1") := by decide +kernel

theorem encodable_a2 : Py.Encodable (lit "a:2") := by decide +kernel

theorem encodable_b1 : Py.Encodable (lit "b:1") := by decide +kernel

def openSession (c : Nat) (clientId : Str) : List Label :=
  [⟨.accept, []⟩, ⟨.prepare true, []⟩, ⟨.hello c (sampleHello clientId) (some (lit "p")), []⟩,
    ⟨.welcome c, []⟩]

/-- The reader of a connection receives a message and handles it. -/
def deliver (c : Nat) (m : Inbound) : List Label :=
  [⟨.receive c m, []⟩, ⟨.handle c early (fun _ => .ok true) none, []⟩]

/-- A request goes to the local pool. -/
def stageNext : List Label :=
  [⟨.dispatch early, []⟩, ⟨.submitLocal .queued, []⟩, ⟨.attach, []⟩]

end Deadpool.Remote.Broker
