import Deadpool.Py.Float

/-!
# `RemoteLimits`

The resource limits of `deadpool/remote/config.py` with their defaults and the validation of
`__post_init__`.  Field values that are not of the annotated type are excluded by the Lean types;
a negative integer is refused by the same check that refuses zero.
-/

set_option autoImplicit false

namespace Deadpool.Remote

open Deadpool.Py

theorem bind_ok {ε α β : Type} {x : Except ε α} {f : α → Except ε β} {b : β} :
    (x >>= f) = .ok b ↔ ∃ a, x = .ok a ∧ f a = .ok b := by
  cases x with
  | error e => simp [bind, Except.bind]
  | ok a => simp [bind, Except.bind]

theorem bind_unit_ok {ε β : Type} {x : Except ε Unit} {f : Unit → Except ε β} {b : β} :
    (x >>= f) = .ok b ↔ x = .ok () ∧ f () = .ok b := by
  rw [bind_ok]
  exact ⟨fun ⟨_, h⟩ => h, fun h => ⟨(), h⟩⟩

structure RemoteLimits where
  maxControlBytes : Nat := 64 * 1024
  maxFramePayloadBytes : Nat := 1024 * 1024
  maxMessageBytes : Nat := 64 * 1024 * 1024
  maxInvocationBytes : Nat := 32 * 1024 * 1024
  maxResultBytes : Nat := 32 * 1024 * 1024
  maxMetadataBytes : Nat := 16 * 1024
  maxChunks : Nat := 256
  maxIncompleteMessages : Nat := 16
  maxUnauthenticatedConnections : Nat := 64
  maxConnectionsGlobal : Nat := 256
  maxConnectionsPerPrincipal : Nat := 64
  maxPendingPerSession : Nat := 1024
  maxPendingPerPrincipal : Nat := 2048
  maxPendingGlobal : Nat := 4096
  maxRetainedOutcomesPerSession : Nat := 64
  maxRetainedOutcomesGlobal : Nat := 1024
  maxRetainedOutcomeBytesPerSession : Nat := 256 * 1024 * 1024
  maxRetainedOutcomeBytesGlobal : Nat := 1024 * 1024 * 1024
  maxStagedTasks : Nat := 128
  outboundQueueSize : Nat := 1024
  inboundQueueSize : Nat := 1024
  callbackQueueSize : Nat := 1024
  completionWorkers : Nat := 4
  controlTimeout : Float64 := .ofInt 5
  handshakeTimeout : Float64 := .ofInt 5
  partialFrameTimeout : Float64 := .ofInt 10

/-- `_positive_int` -/
def positiveInt (value : Nat) (name : String) : Except String Unit :=
  if value = 0 then .error s!"{name} must be greater than zero" else .ok ()

/-- `_positive` -/
def positive (value : Float64) (name : String) : Except String Unit :=
  if Float64.le value .zero ∨ !value.isFinite then
    .error s!"{name} must be finite and greater than zero"
  else .ok ()

/-- A comparison between two fields. -/
def require (holds : Bool) (message : String) : Except String Unit :=
  if holds then .ok () else .error message

/-- `__post_init__`; the error is the text of the `ValueError`. -/
def RemoteLimits.postInit (l : RemoteLimits) : Except String Unit := do
  positiveInt l.maxControlBytes "max_control_bytes"
  positiveInt l.maxFramePayloadBytes "max_frame_payload_bytes"
  positiveInt l.maxMessageBytes "max_message_bytes"
  positiveInt l.maxInvocationBytes "max_invocation_bytes"
  positiveInt l.maxResultBytes "max_result_bytes"
  positiveInt l.maxMetadataBytes "max_metadata_bytes"
  positiveInt l.maxChunks "max_chunks"
  positiveInt l.maxIncompleteMessages "max_incomplete_messages"
  positiveInt l.maxUnauthenticatedConnections "max_unauthenticated_connections"
  positiveInt l.maxConnectionsGlobal "max_connections_global"
  positiveInt l.maxConnectionsPerPrincipal "max_connections_per_principal"
  positiveInt l.maxPendingPerSession "max_pending_per_session"
  positiveInt l.maxPendingPerPrincipal "max_pending_per_principal"
  positiveInt l.maxPendingGlobal "max_pending_global"
  positiveInt l.maxRetainedOutcomesPerSession "max_retained_outcomes_per_session"
  positiveInt l.maxRetainedOutcomesGlobal "max_retained_outcomes_global"
  positiveInt l.maxRetainedOutcomeBytesPerSession "max_retained_outcome_bytes_per_session"
  positiveInt l.maxRetainedOutcomeBytesGlobal "max_retained_outcome_bytes_global"
  positiveInt l.maxStagedTasks "max_staged_tasks"
  positiveInt l.outboundQueueSize "outbound_queue_size"
  positiveInt l.inboundQueueSize "inbound_queue_size"
  positiveInt l.callbackQueueSize "callback_queue_size"
  positiveInt l.completionWorkers "completion_workers"
  positive l.controlTimeout "control_timeout"
  positive l.handshakeTimeout "handshake_timeout"
  positive l.partialFrameTimeout "partial_frame_timeout"
  require (l.maxFramePayloadBytes ≤ l.maxMessageBytes)
    "max_frame_payload_bytes cannot exceed max_message_bytes"
  require (l.maxInvocationBytes ≤ l.maxMessageBytes)
    "max_invocation_bytes cannot exceed max_message_bytes"
  require (l.maxResultBytes ≤ l.maxMessageBytes)
    "max_result_bytes cannot exceed max_message_bytes"
  require (l.maxMessageBytes ≤ l.maxFramePayloadBytes * l.maxChunks)
    "max_chunks cannot represent max_message_bytes"
  require (l.maxConnectionsPerPrincipal ≤ l.maxConnectionsGlobal)
    "max_connections_per_principal cannot exceed max_connections_global"
  require (l.maxPendingPerPrincipal ≤ l.maxPendingGlobal)
    "max_pending_per_principal cannot exceed max_pending_global"
  require (l.maxRetainedOutcomesPerSession ≤ l.maxRetainedOutcomesGlobal)
    "per-session retained outcome count cannot exceed the global count"
  require (l.maxRetainedOutcomeBytesPerSession ≤ l.maxRetainedOutcomeBytesGlobal)
    "per-session retained outcome bytes cannot exceed the global bytes"

/-- Limits that a constructor call returned. -/
def RemoteLimits.Accepted (l : RemoteLimits) : Prop := l.postInit = .ok ()

instance (l : RemoteLimits) : Decidable l.Accepted :=
  match h : l.postInit with
  | .ok () => .isTrue h
  | .error e => .isFalse (by simp [RemoteLimits.Accepted, h])

theorem positiveInt_ok {value : Nat} {name : String} :
    positiveInt value name = .ok () ↔ 0 < value := by
  unfold positiveInt
  split
  · rename_i h
    simp [h]
  · rename_i h
    simp
    omega

theorem require_ok {holds : Bool} {message : String} :
    require holds message = .ok () ↔ holds = true := by
  cases holds <;> simp [require]

/-- What the wire protocol uses of the validation. -/
theorem RemoteLimits.Accepted.wire {l : RemoteLimits} (h : l.Accepted) :
    0 < l.maxControlBytes ∧ 0 < l.maxFramePayloadBytes ∧ 0 < l.maxMessageBytes ∧
      0 < l.maxMetadataBytes ∧ 0 < l.maxChunks ∧ 0 < l.maxIncompleteMessages ∧
      0 < l.outboundQueueSize ∧ l.maxFramePayloadBytes ≤ l.maxMessageBytes ∧
      l.maxMessageBytes ≤ l.maxFramePayloadBytes * l.maxChunks := by
  unfold RemoteLimits.Accepted RemoteLimits.postInit at h
  simp only [bind_unit_ok, positiveInt_ok, require_ok, decide_eq_true_eq] at h
  omega

/-- Every capacity has room for one request. -/
theorem RemoteLimits.Accepted.capacities {l : RemoteLimits} (h : l.Accepted) :
    0 < l.maxPendingPerSession ∧ 0 < l.maxPendingPerPrincipal ∧ 0 < l.maxPendingGlobal ∧
      0 < l.maxRetainedOutcomesPerSession ∧ 0 < l.maxRetainedOutcomesGlobal := by
  unfold RemoteLimits.Accepted RemoteLimits.postInit at h
  simp only [bind_unit_ok, positiveInt_ok, require_ok, decide_eq_true_eq] at h
  omega

/-- The client has a slot and a thread for callbacks. -/
theorem RemoteLimits.Accepted.callbacks {l : RemoteLimits} (h : l.Accepted) :
    0 < l.callbackQueueSize ∧ 0 < l.completionWorkers := by
  unfold RemoteLimits.Accepted RemoteLimits.postInit at h
  simp only [bind_unit_ok, positiveInt_ok, require_ok, decide_eq_true_eq] at h
  omega

end Deadpool.Remote
