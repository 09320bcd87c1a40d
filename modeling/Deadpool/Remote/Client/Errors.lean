import Deadpool.Remote.Broker.Step
import Deadpool.Remote.Client.Future

/-!
# What a client reports

`deadpool/remote/errors.py`: every `RemoteExecutorError` says how certain it is that the request was
accepted and that it was executed.  Then the part of `_complete`, `_reject` and `_connection_lost` of
`deadpool/remote/client.py` that chooses the outcome of a future, as functions of the message or of the
state that decides it.

`V` are the values of Python and `X` the exceptions that tasks raise.
-/

set_option autoImplicit false

namespace Deadpool.Remote.Client

open Deadpool.Py

/-! ## The taxonomy -/

inductive AcceptanceCertainty where
  | notAccepted | accepted | unknown
  deriving DecidableEq, Repr

inductive ExecutionCertainty where
  | notStarted | mayHaveRun | completed
  deriving DecidableEq, Repr

/-- The classes that the client raises. -/
inductive ErrorClass where
  | remoteExecutorError
  | remoteExecutorUnavailable
  | remoteQueueFull
  | remoteSubmissionTimeout
  | submissionOutcomeUnknown
  | remoteQueueTimeout
  | remoteTaskError
  | remoteResultEncodingError
  | remoteResultTooLarge
  | remoteProcessError
  | remoteConnectionLost
  | remoteProtocolError
  deriving DecidableEq, Repr

/-- `default_acceptance` -/
def ErrorClass.defaultAcceptance : ErrorClass → AcceptanceCertainty
  | .remoteExecutorUnavailable | .remoteQueueFull | .remoteSubmissionTimeout => .notAccepted
  | .remoteQueueTimeout | .remoteTaskError | .remoteResultEncodingError | .remoteResultTooLarge
  | .remoteProcessError => .accepted
  | .remoteExecutorError | .submissionOutcomeUnknown | .remoteConnectionLost
  | .remoteProtocolError => .unknown

/-- `default_execution` -/
def ErrorClass.defaultExecution : ErrorClass → ExecutionCertainty
  | .remoteExecutorUnavailable | .remoteQueueFull | .remoteSubmissionTimeout
  | .remoteQueueTimeout => .notStarted
  | .remoteTaskError | .remoteResultEncodingError | .remoteResultTooLarge => .completed
  | .remoteProcessError | .remoteExecutorError | .submissionOutcomeUnknown | .remoteConnectionLost
  | .remoteProtocolError => .mayHaveRun

/-- A `RemoteExecutorError` -/
structure RemoteError where
  kind : ErrorClass
  message : Str
  requestId : Option Str
  acceptance : AcceptanceCertainty
  execution : ExecutionCertainty
  deriving DecidableEq

/-- An error with the certainties of its class. -/
def ErrorClass.error (kind : ErrorClass) (message : Str) (requestId : Option Str) : RemoteError :=
  ⟨kind, message, requestId, kind.defaultAcceptance, kind.defaultExecution⟩

/-! ## What a future may end with -/

/-- The exception of a future. -/
inductive Failure (X : Type) where
  /-- a `RemoteExecutorError` of the client -/
  | remote (error : RemoteError)
  /-- `deadpool.TimeoutError` -/
  | timeout (message : Value)
  /-- the exception object that the task raised -/
  | raised (x : X)

/-- What `loads` of the serializer raises, with its text. -/
inductive LoadError where
  | remote (error : RemoteError)
  | other (text : Str)

/-- What the client uses of the serializer, of `str` and of `hashlib`. -/
structure Runtime (V X : Type) where
  loads : Bytes → Except LoadError V
  /-- the value as an exception object, if it is one -/
  exception : V → Option X
  str : Value → Str
  sha256 : Bytes → Hex 64

section Outcomes

variable {V X : Type} (rt : Runtime V X)

/-- `str(value)` -/
def Runtime.text : Runtime V X → Value → Str
  | _, .str s => s
  | rt, v => rt.str v

/-- `str(message.control.get("message", default))` -/
def Runtime.messageText (m : Message) (default : String) : Str :=
  rt.text ((m.control.items.get? (lit "message")).getD (.str (lit default)))

/-- The error that `_complete` sets for a failed task, unless the payload is an exception object. -/
def Runtime.taskError (requestId : Str) (m : Message) : Failure X :=
  let decoded := if m.payload = [] then none else (rt.loads m.payload).toOption.bind rt.exception
  match decoded with
  | some x => .raised x
  | none => .remote (ErrorClass.remoteTaskError.error (rt.messageText m "remote task failed") requestId)

/-- What `_complete` does to the future, for a message of a terminal kind. -/
def Runtime.completion (requestId : Str) (m : Message) : Operation V (Failure X) :=
  let fails (kind : ErrorClass) (text : Str) : Operation V (Failure X) :=
    .setException (.remote (kind.error text requestId)) false
  match m.kind with
  | .result =>
    match rt.loads m.payload with
    | .ok value => .setResult value
    | .error (.remote error) => .setException (.remote error) false
    | .error (.other text) => fails .remoteProtocolError text
  | .taskError => .setException (rt.taskError requestId m) true
  | .timedOut =>
    .setException (.timeout
      ((m.control.items.get? (lit "message")).getD (.str (lit "remote task timed out")))) false
  | .queueTimedOut => fails .remoteQueueTimeout (lit "remote queue wait expired")
  | .workerLost => fails .remoteProcessError (rt.messageText m "worker lost")
  | .resultEncodingFailed => fails .remoteResultEncodingError (rt.messageText m "result encoding failed")
  | .resultTooLarge => fails .remoteResultTooLarge (rt.messageText m "result too large")
  | _ => .setCancelled

/-- The error that `_reject` sets. -/
def Runtime.rejection (requestId : Str) (control : Dict) : RemoteError :=
  let reason := (control.items.get? (lit "reason")).getD (.str (lit "rejected"))
  if Broker.isText (lit "queue_full") reason then
    ErrorClass.remoteQueueFull.error (lit "server queue is full") requestId
  else if Broker.isText (lit "queue_timeout") reason then
    ErrorClass.remoteQueueTimeout.error (lit "server queue wait expired") requestId
  else
    { ErrorClass.remoteExecutorError.error (lit "remote submission rejected: " ++ rt.text reason)
        requestId with
      acceptance := .notAccepted
      execution := .notStarted }

end Outcomes

/-- The error of `_connection_lost` for a future whose submission is in this state. -/
def lossError (requestId text : Str) : SubmissionState → RemoteError
  | .localPending => ErrorClass.remoteExecutorUnavailable.error text requestId
  | .sentUnacknowledged => ErrorClass.submissionOutcomeUnknown.error text requestId
  | _ =>
    { ErrorClass.remoteConnectionLost.error text requestId with
      acceptance := .accepted
      execution := .mayHaveRun }

end Deadpool.Remote.Client
