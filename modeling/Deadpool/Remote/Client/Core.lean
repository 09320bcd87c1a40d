import Deadpool.Remote.ClientCalls
import Deadpool.Remote.Client.Errors
import Deadpool.Remote.Client.Rpc

/-!
# The threads of a client

`DeadpoolClient` of `deadpool/remote/client.py` as a transition system: the calls of `_submit` and
`_cancel`, the sender, the receiver, the completion lane, `_connection_lost` in the thread that runs it,
and the shutdown.  A block under the client's lock or a future's lock is one step, and so is every wait.
A label says which thread moves and what the environment decides: what the serializer returned, whether
a queue had room in time, what arrived.

`_futures` holds request IDs and numbers of futures; `slots` are the free slots of
`_completion_slots`, and `work` is the queue of the one thread of `_completion_executor`.  The last
fields are histories: what was sent, which terminal messages the receiver marked before the transport
failed, and which futures `cancel` cancelled on the spot.

The executors are left open at the end of a shutdown: every slot has been taken once by then, so that the
lane is empty, and every future is done.
-/

set_option autoImplicit false

namespace Deadpool.Remote.Client

open Deadpool.Py Deadpool.Lts

/-! ## Control points -/

section Types

variable (V X : Type)

/-- What `_submit` raises. -/
inductive SubmitError where
  /-- `cannot schedule new futures after shutdown` -/
  | shutdown
  | remote (error : RemoteError)
  | client (error : ClientError)
  /-- what `dumps` raised -/
  | raised (x : X)

inductive SubmitStage where
  | serializing
  /-- before the block that registers the future -/
  | serialized (payload : Bytes)
  /-- before `validate_control` -/
  | registered (f : Nat) (m : Message)
  /-- before `_outbound.put` -/
  | checked (f : Nat) (m : Message)
  /-- before the future leaves `_futures` again -/
  | abandoning (f : Nat) (error : SubmitError X)
  | returned (f : Nat)
  | raised (error : SubmitError X)

/-- A call of `submit` or `submit_task`. -/
structure Submission where
  mode : Mode
  options : SubmissionOptions
  stage : SubmitStage X

/-- A future and the sequence number in its request ID. -/
structure Handle where
  number : Nat
  future : RemoteFuture V (Failure X) := {}

/-- An item of `_outbound`. -/
inductive Item where
  | request (m : Message) (future : Option Nat)
  | stop

/-- What `_schedule_completion` is called with. -/
inductive Job where
  | accepted (f : Nat)
  | running (f : Nat) (pid workerId : Obj)
  | complete (f : Nat) (m : Message)
  | reject (f : Nat) (control : Dict)
  /-- `_fail_and_forget` -/
  | fail (f : Nat) (error : RemoteError)

/-- `_sender_loop` -/
inductive Sender where
  | idle
  | taken (m : Message) (future : Option Nat)
  /-- `_set_sent` returned false -/
  | skipping (f : Nat)
  /-- before `_socket` is read -/
  | marked (m : Message) (future : Option Nat)
  /-- in `send_message` -/
  | sending (m : Message) (future : Option Nat)
  /-- before `_connection_lost`, with the text of the error -/
  | failing (text : Str)
  | losing
  | stopped

/-- `_receiver_loop` -/
inductive Receiver where
  /-- before `_socket` is read -/
  | top
  /-- in `reader.receive` -/
  | reading
  | received (m : Message)
  /-- the future has been looked up -/
  | found (m : Message) (future : Option Nat)
  /-- before a slot is acquired -/
  | scheduling (job : Job)
  | holding (job : Job)
  /-- before the event of a control request is set -/
  | signalling
  /-- before `_connection_lost`; the loop goes on afterwards or ends -/
  | failing (text : Str) (again : Bool)
  | losing (again : Bool)
  | stopped

/-- The thread of the completion lane. -/
inductive Lane where
  | idle
  | running (job : Job)
  /-- `_complete`, before `RESULT_ACK` is put on the queue -/
  | acking (f : Nat)
  /-- the queue stayed full: before `_connection_lost` -/
  | refused (f : Nat)
  | losing (f : Nat)
  /-- before `_forget`, in `_complete` or elsewhere -/
  | forgetting (f : Nat) (completing : Bool)
  /-- before the mark is discarded -/
  | discarding (f : Nat)
  /-- before the slot is released -/
  | releasing

inductive Thread where
  | sender | receiver | lane
  deriving DecidableEq, Repr

/-- Where the loop of `_connection_lost` stands. -/
inductive LossStage where
  /-- the events of the control requests are being set -/
  | signals
  | next
  /-- `terminal_received` has been read -/
  | looked (f : Nat) (terminalReceived : Bool)
  /-- before `submission_state` is read -/
  | deciding (f : Nat)
  /-- before a slot is acquired -/
  | scheduling (f : Nat) (error : RemoteError)
  | holding (f : Nat) (error : RemoteError)

/-- `_connection_lost` after its block. -/
structure Failing where
  owner : Thread
  /-- `str(error)` -/
  text : Str
  rest : List Nat
  stage : LossStage

/-- `shutdown` and `_finish_shutdown` -/
inductive Lifecycle where
  | serving
  | waiting (futures : List Nat)
  /-- before `(None, None)` is put on the queue -/
  | closing
  /-- before the socket is taken -/
  | unplugging
  /-- `_drain_semaphore` has taken some slots -/
  | draining (taken : Nat)
  | releasing (taken : Nat)
  | ended

structure State where
  sequence : Nat := 0
  closed : Bool := false
  /-- `_socket`, `_transport_failed` and `_rpc` -/
  rpc : RpcState Str := {}
  handles : List (Handle V X) := []
  /-- `_futures` -/
  futures : Table Str Nat := []
  terminalReceived : List Str := []
  outbound : List Item := []
  submissions : List (Submission X) := []
  sender : Sender := .idle
  receiver : Receiver := .top
  lane : Lane := .idle
  work : List Job := []
  slots : Nat
  loss : Option Failing := none
  lifecycle : Lifecycle := .serving
  sent : List (Message × Option Nat) := []
  recorded : List (Nat × Message) := []
  localCancels : List Nat := []

inductive Label where
  -- callers
  | submit (mode : Mode) (options : SubmissionOptions)
  | serialized (i : Nat) (result : Except (SubmitError X) Bytes)
  | proceed (i : Nat)
  | expire (i : Nat)
  | put (i : Nat) (ok : Bool)
  | cancel (f : Nat)
  | rpc (l : RpcLabel Str)
  -- the threads of the client
  | sender
  | sent (error : Option Str)
  | receive (result : Except Str Message)
  | receiver
  | lane
  | ack (ok : Bool)
  | loss
  -- the end of the client
  | shutdown
  | lifecycle (ok : Bool)

structure Config where
  limits : RemoteLimits
  clientId : Hex 32
  runtime : Runtime V X

end Types

/-! ## Operations -/

section Machine

variable {V X : Type} (cfg : Config V X)

/-- `f"{client_id}:{sequence}"` -/
def Config.requestId (number : Nat) : Str := requestIdText cfg.clientId.text number

namespace State

/-- The request ID of a future. -/
def idOf (s : State V X) (f : Nat) : Str := cfg.requestId ((s.handles[f]?.map Handle.number).getD 0)

/-- An operation on a future. -/
def operate (s : State V X) (f : Nat) (op : Operation V (Failure X)) : State V X :=
  { s with handles := s.handles.modify f fun h => { h with future := (h.future.operate op).1 } }

def futureDone (s : State V X) (f : Nat) : Bool :=
  (s.handles[f]?.map fun h => h.future.done).getD false

/-- `_forget` -/
def forget (s : State V X) (f : Nat) : State V X := { s with futures := s.futures.pop (s.idOf cfg f) }

/-- Whether `_outbound.put` finds room. -/
def room (s : State V X) : Bool := s.outbound.length < cfg.limits.outboundQueueSize

def setSubmit (s : State V X) (i : Nat) (stage : SubmitStage X) : State V X :=
  { s with submissions := s.submissions.modify i fun call => { call with stage } }

/-! ## Submissions -/

/-- The checks at the start of a call. -/
def preflight (s : State V X) (mode : Mode) (options : SubmissionOptions) : SubmitStage X :=
  match checkMode mode with
  | .error e => .raised (.client e)
  | .ok () =>
    if s.closed then .raised .shutdown
    else
      match submissionOptions options with
      | .error e => .raised (.client e)
      | .ok () => .serializing

/-- The message of a submission. -/
def submitMessage (number : Nat) (mode : Mode) (options : SubmissionOptions) (payload : Bytes) : Message :=
  ⟨.submit, submitControl (cfg.requestId number) (cfg.runtime.sha256 payload) mode options, payload⟩

/-- The block of `_submit` that registers the future. -/
def register (s : State V X) (i : Nat) (call : Submission X) (payload : Bytes) : State V X :=
  if s.closed then s.setSubmit i (.raised .shutdown)
  else if s.rpc.transportFailed ∨ ¬ s.rpc.socket then
    s.setSubmit i (.raised (.remote
      (ErrorClass.remoteExecutorUnavailable.error (lit "connection is unavailable") none)))
  else
    let number := s.sequence + 1
    match checkSequence number with
    | .error e => { s with sequence := number }.setSubmit i (.raised (.client e))
    | .ok () =>
      let f := s.handles.length
      let s : State V X := { s with
        sequence := number
        handles := s.handles ++ [⟨number, {}⟩]
        futures := s.futures.set (cfg.requestId number) f }
      s.setSubmit i (.registered f (submitMessage cfg number call.mode call.options payload))

/-- `RemoteSubmissionTimeout` -/
def submissionTimeout (s : State V X) (f : Nat) (text : String) : SubmitError X :=
  .remote (ErrorClass.remoteSubmissionTimeout.error (lit text) (s.idOf cfg f))

/-- A block of `_submit`. -/
def submitStep (s : State V X) (i : Nat) : Option (State V X) :=
  match s.submissions[i]? with
  | none => none
  | some call =>
    match call.stage with
    | .serialized payload => some (s.register cfg i call payload)
    | .registered f m =>
      match validateControl m.control cfg.limits with
      | .error e => some (s.setSubmit i (.abandoning f (.client (.encoding e))))
      | .ok () => some (s.setSubmit i (.checked f m))
    | .abandoning f error => some ((s.forget cfg f).setSubmit i (.raised error))
    | _ => none

/-- The deadline of a submission passes, or its message is put on the queue, or the queue stays full. -/
def putStep (s : State V X) (i : Nat) (result : Option Bool) : Option (State V X) :=
  match (s.submissions[i]?).map Submission.stage with
  | some (.checked f m) =>
    match result with
    | none =>
      some (s.setSubmit i (.abandoning f
        (s.submissionTimeout cfg f "local submission work exceeded its timeout")))
    | some true =>
      if s.room cfg then
        some { s.setSubmit i (.returned f) with outbound := s.outbound ++ [.request m (some f)] }
      else none
    | some false =>
      if s.room cfg then none
      else
        some (s.setSubmit i (.abandoning f (s.submissionTimeout cfg f "client outbound queue is full")))
  | _ => none

/-! ## Control requests -/

/-- The message of a control request. -/
def callMessage (s : State V X) (call : RpcCall Str) : Message :=
  match call.kind with
  | .request kind control =>
    ⟨kind, control.set (lit (if kind = .ping then "nonce" else "token")) (.str call.token), []⟩
  | .cancel f hard =>
    ⟨.cancelRequest, Dict.empty
      |>.set (lit "request_id") (.str (s.idOf cfg f))
      |>.set (lit "hard") (.bool hard)
      |>.set (lit "token") (.str call.token), []⟩

/-- Who calls `_rpc_request` and `_cancel`, and when. -/
def calls (s : State V X) : RpcKind → Bool
  | .request .ping _ | .request .cancelGroup _ | .request .statusRequest _
  | .request .statsRequest _ => true
  | .request .closeSession _ => match s.lifecycle with
    | .closing => true
    | _ => false
  | .request _ _ => false
  -- the future was not done and, for `cancel`, not pending locally
  | .cancel f hard =>
    match s.handles[f]? with
    | none => false
    | some h => hard || h.future.submissionState ≠ .localPending

/-- What `_cancel` does with the decision before it returns. -/
def settle (s : State V X) (call : RpcCall Str) : State V X :=
  match call.kind, call.stage with
  | .cancel f _, .ending (.decided decision) =>
    if Broker.isText (lit "cancelled") decision then s.operate f .setCancelled else s
  | _, _ => s

/-- A step of a control request. -/
def rpcStep (s : State V X) (l : RpcLabel Str) : Option (State V X) :=
  let moves : Option (State V X) := (Client.rpcStep s.rpc l).map fun rpc => { s with rpc }
  match l with
  | .call kind _ => if s.calls kind then moves else none
  | .enqueue i ok =>
    if ok ≠ s.room cfg then none
    else
      match s.rpc.calls[i]? with
      | none => none
      | some call =>
        moves.map fun s =>
          if ok then { s with outbound := s.outbound ++ [.request (s.callMessage cfg call) none] } else s
  | .wake _ | .timeout _ | .read _ => moves
  | .finish i =>
    match s.rpc.calls[i]? with
    | none => none
    | some call => moves.map fun s => s.settle call
  | _ => none

/-! ## Loss of the connection -/

/-- A thread goes on after `_connection_lost`. -/
def afterLoss (s : State V X) : Thread → State V X
  | .sender => { s with sender := .stopped }
  | .receiver =>
    match s.receiver with
    | .failing _ true | .losing true => { s with receiver := .top }
    | _ => { s with receiver := .stopped }
  | .lane =>
    match s.lane with
    | .refused f | .losing f => { s with lane := .forgetting f true }
    | _ => s

/-- A thread is in the loop of `_connection_lost`. -/
def inLoss (s : State V X) : Thread → State V X
  | .sender => { s with sender := .losing }
  | .receiver =>
    match s.receiver with
    | .failing _ again => { s with receiver := .losing again }
    | _ => s
  | .lane =>
    match s.lane with
    | .refused f => { s with lane := .losing f }
    | _ => s

/-- The block of `_connection_lost`. -/
def lose (s : State V X) (owner : Thread) (text : Str) : State V X :=
  if s.rpc.transportFailed then s.afterLoss owner
  else
    { s with rpc := s.rpc.lose text, loss := some ⟨owner, text, s.futures.values, .signals⟩ }.inLoss owner

/-- The rest of `_connection_lost`. -/
def lossStep (s : State V X) (loss : Failing) : Option (State V X) :=
  let goto (stage : LossStage) : Option (State V X) := some { s with loss := some { loss with stage } }
  match loss.stage with
  | .signals =>
    match s.rpc.loss with
    | some ⟨_, _ :: _, false⟩ => (Client.rpcStep s.rpc .mark).map fun rpc => { s with rpc }
    | some ⟨_, _ :: _, true⟩ => (Client.rpcStep s.rpc .wakeLost).map fun rpc => { s with rpc }
    | _ => goto .next
  | .next =>
    match loss.rest with
    | [] => some ({ s with loss := none }.afterLoss loss.owner)
    | f :: rest =>
      some { s with loss := some { loss with
        rest := rest
        stage := .looked f (s.terminalReceived.contains (s.idOf cfg f)) } }
  | .looked f terminalReceived =>
    if s.futureDone f ∨ terminalReceived then goto .next else goto (.deciding f)
  | .deciding f =>
    match s.handles[f]? with
    | none => none
    | some h => goto (.scheduling f (lossError (s.idOf cfg f) loss.text h.future.submissionState))
  | .scheduling f error =>
    if s.slots = 0 then none
    else some { s with slots := s.slots - 1, loss := some { loss with stage := .holding f error } }
  | .holding f error =>
    some { s with work := s.work ++ [.fail f error], loss := some { loss with stage := .next } }

/-! ## Sender, receiver and lane -/

/-- A step of the sender outside of `send_message`. -/
def senderStep (s : State V X) : Option (State V X) :=
  match s.sender with
  | .idle =>
    match s.outbound with
    | [] => none
    | .stop :: rest => some { s with outbound := rest, sender := .stopped }
    | .request m future :: rest => some { s with outbound := rest, sender := .taken m future }
  | .taken m none => some { s with sender := .marked m none }
  | .taken m (some f) =>
    if s.futureDone f then some { s with sender := .skipping f }
    else some { s.operate f .setSent with sender := .marked m (some f) }
  | .skipping f => some { s.forget cfg f with sender := .idle }
  | .marked m future =>
    some (if s.rpc.socket then { s with sender := .sending m future }
      else { s with sender := .failing (lit "connection is closed") })
  | .failing text => some (s.lose .sender text)
  | .sending _ _ | .losing | .stopped => none

/-- `_receive` after the future was looked up. -/
def dispatch (s : State V X) (m : Message) (future : Option Nat) : State V X :=
  let schedule (job : Job) : State V X := { s with receiver := .scheduling job }
  match m.kind, future with
  | .accepted, some f => schedule (.accepted f)
  | .running, some f =>
    schedule (.running f (m.control.get (lit "pid")) (m.control.get (lit "worker_id")))
  | .rejected, some f => schedule (.reject f m.control)
  | .cancelResponse, _ | .cancelGroupResponse, _ | .statusResponse, _ | .statsResponse, _ | .pong, _
  | .closeSessionResponse, _ =>
    let rpc := s.rpc.receive m
    { s with rpc, receiver := if rpc.receiving.isSome then .signalling else .top }
  | .goaway, _ => { s with receiver := .failing (lit "server closed the session") true }
  | .protocolError, _ | .handshakeRejected, _ =>
    { s with receiver := .failing (cfg.runtime.str (.dict m.control.items)) true }
  | kind, some f =>
    if kind.terminal then
      { s with
        terminalReceived := s.terminalReceived ++ [s.idOf cfg f]
        recorded := if s.rpc.transportFailed then s.recorded else s.recorded ++ [(f, m)]
        receiver := .scheduling (.complete f m) }
    else { s with receiver := .top }
  | _, none => { s with receiver := .top }

/-- A step of the receiver outside of `reader.receive`. -/
def receiverStep (s : State V X) : Option (State V X) :=
  match s.receiver with
  | .top => some { s with receiver := if s.rpc.socket then .reading else .stopped }
  | .received m =>
    let future := match m.control.items.get (lit "request_id") with
      | .str requestId => s.futures.get? requestId
      | _ => none
    some { s with receiver := .found m future }
  | .found m future => some (s.dispatch cfg m future)
  | .scheduling job =>
    if s.slots = 0 then none else some { s with slots := s.slots - 1, receiver := .holding job }
  | .holding job => some { s with work := s.work ++ [job], receiver := .top }
  | .signalling => (Client.rpcStep s.rpc .signal).map fun rpc => { s with rpc, receiver := .top }
  | .failing text _ => some (s.lose .receiver text)
  | .reading | .losing _ | .stopped => none

/-- The function of a job, up to `RESULT_ACK` and `_forget`. -/
def execute (s : State V X) : Job → State V X
  | .accepted f => { s.operate f .setAccepted with lane := .releasing }
  | .running f pid workerId => { s.operate f (.setRunning pid workerId) with lane := .releasing }
  | .complete f m =>
    { s.operate f (cfg.runtime.completion (s.idOf cfg f) m) with lane := .acking f }
  | .reject f control =>
    { s.operate f (.setException (.remote (cfg.runtime.rejection (s.idOf cfg f) control)) false) with
      lane := .forgetting f false }
  | .fail f error =>
    { s.operate f (.setException (.remote error) false) with lane := .forgetting f false }

/-- A step of the lane outside of the put of `RESULT_ACK`. -/
def laneStep (s : State V X) : Option (State V X) :=
  match s.lane with
  | .idle =>
    match s.work with
    | [] => none
    | job :: work => some { s with work, lane := .running job }
  | .running job => some (s.execute cfg job)
  | .refused _ => some (s.lose .lane (lit "client outbound control queue is full"))
  | .forgetting f completing =>
    some { s.forget cfg f with lane := if completing then .discarding f else .releasing }
  | .discarding f =>
    some { s with
      terminalReceived := s.terminalReceived.filter (· ≠ s.idOf cfg f)
      lane := .releasing }
  | .releasing => some { s with slots := s.slots + 1, lane := .idle }
  | .acking _ | .losing _ => none

/-- The message `RESULT_ACK` of a future. -/
def ackMessage (s : State V X) (f : Nat) : Message := ⟨.resultAck, requestControl (s.idOf cfg f), []⟩

/-- `_enqueue_control` of `RESULT_ACK`. -/
def ackStep (s : State V X) (ok : Bool) : Option (State V X) :=
  match s.lane with
  | .acking f =>
    if ok ≠ s.room cfg then none
    else if ok then
      some { s with
        outbound := s.outbound ++ [.request (s.ackMessage cfg f) none]
        lane := .forgetting f true }
    else some { s with lane := .refused f }
  | _ => none

/-! ## Shutdown -/

/-- A step of `_finish_shutdown`; the answer is about the queue. -/
def lifecycleStep (s : State V X) (ok : Bool) : Option (State V X) :=
  match s.lifecycle with
  | .serving | .ended => none
  | .waiting futures => if futures.all s.futureDone then some { s with lifecycle := .closing } else none
  | .closing =>
    if ok ≠ s.room cfg then none
    else
      some { s with
        outbound := if ok then s.outbound ++ [.stop] else s.outbound
        lifecycle := .unplugging }
  | .unplugging => some { s with rpc := { s.rpc with socket := false }, lifecycle := .draining 0 }
  | .draining taken =>
    if taken = cfg.limits.inboundQueueSize then some { s with lifecycle := .releasing taken }
    else if s.slots = 0 then none
    else some { s with slots := s.slots - 1, lifecycle := .draining (taken + 1) }
  | .releasing taken =>
    match taken with
    | 0 => some { s with lifecycle := .ended }
    | n + 1 => some { s with slots := s.slots + 1, lifecycle := .releasing n }

/-! ## The system -/

def step (s : State V X) : Label X → Option (State V X)
  | .submit mode options =>
    some { s with submissions := s.submissions ++ [⟨mode, options, s.preflight mode options⟩] }
  | .serialized i result =>
    match (s.submissions[i]?).map Submission.stage with
    | some .serializing =>
      some (s.setSubmit i (match result with
        | .ok payload => .serialized payload
        | .error e => .raised e))
    | _ => none
  | .proceed i => s.submitStep cfg i
  | .expire i => s.putStep cfg i none
  | .put i ok => s.putStep cfg i (some ok)
  | .cancel f =>
    match s.handles[f]? with
    | none => none
    | some h =>
      some (if h.future.cancelsLocally then
        { s.operate f .cancel with localCancels := s.localCancels ++ [f] } else s)
  | .rpc l => s.rpcStep cfg l
  | .sender => s.senderStep cfg
  | .sent error =>
    match s.sender with
    | .sending m future =>
      match error with
      | none => some { s with sent := s.sent ++ [(m, future)], sender := .idle }
      | some text => some { s with sender := .failing text }
    | _ => none
  | .receive result =>
    match s.receiver with
    | .reading =>
      match result with
      | .ok m => some { s with receiver := .received m }
      | .error text => some { s with receiver := .failing text false }
    | _ => none
  | .receiver => s.receiverStep cfg
  | .lane => s.laneStep cfg
  | .ack ok => s.ackStep cfg ok
  | .loss => s.loss.bind (s.lossStep cfg)
  | .shutdown =>
    if s.closed then none
    else some { s with closed := true, lifecycle := .waiting s.futures.values }
  | .lifecycle ok => s.lifecycleStep cfg ok

end State

/-- The client as a transition system. -/
def client : System (State V X) (Label X) := ⟨{ slots := cfg.limits.inboundQueueSize }, State.step cfg⟩

end Machine

end Deadpool.Remote.Client
