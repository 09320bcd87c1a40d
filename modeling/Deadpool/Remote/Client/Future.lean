import Deadpool.Py.Json

/-!
# Remote futures

`RemoteFuture` of `deadpool/remote/_future.py`: the state of a submission beside the standard
`Future` it extends.  Every operation runs under the future's lock and is one function here; it says
also whether `_dispatch_callbacks` follows.  `V` and `E` are the values and the exceptions of Python.

Principal results:

* `Matches.operate` — the two states stay in step;
* `operate_of_done` — a future that is done does not change.
-/

set_option autoImplicit false

namespace Deadpool.Remote.Client

open Deadpool.Py

/-! ## The standard `Future` -/

/-- `_state` of `concurrent.futures.Future` -/
inductive FutureState where
  | pending
  | running
  | cancelled
  | cancelledAndNotified
  | finished
  deriving DecidableEq, Repr

def FutureState.done : FutureState → Bool
  | .cancelled | .cancelledAndNotified | .finished => true
  | .pending | .running => false

section Futures

variable {V E : Type}

structure BaseFuture (V E : Type) where
  state : FutureState := .pending
  result : Option V := none
  exception : Option E := none

namespace BaseFuture

/-- `set_result`; an `InvalidStateError` leaves the future as it is. -/
def setResult (base : BaseFuture V E) (value : V) : BaseFuture V E :=
  if base.state.done then base else { base with state := .finished, result := some value }

/-- `set_exception` -/
def setException (base : BaseFuture V E) (error : E) : BaseFuture V E :=
  if base.state.done then base else { base with state := .finished, exception := some error }

/-- `cancel`, with the value it returns -/
def cancel (base : BaseFuture V E) : BaseFuture V E × Bool :=
  match base.state with
  | .running | .finished => (base, false)
  | .cancelled | .cancelledAndNotified => (base, true)
  | .pending => ({ base with state := .cancelled }, true)

/-- `set_running_or_notify_cancel` of a future that `cancel` accepted. -/
def notifyCancel (base : BaseFuture V E) : BaseFuture V E :=
  match base.state with
  | .cancelled => { base with state := .cancelledAndNotified }
  | .pending => { base with state := .running }
  | _ => base

end BaseFuture

/-! ## Operations -/

inductive SubmissionState where
  | localPending
  | sentUnacknowledged
  | acceptedQueued
  | running
  | succeeded
  | taskFailed
  | cancelled
  | failed
  deriving DecidableEq, Repr

def SubmissionState.terminal : SubmissionState → Bool
  | .succeeded | .taskFailed | .failed | .cancelled => true
  | .localPending | .sentUnacknowledged | .acceptedQueued | .running => false

/-- A callback is the number of its registration: one function may be registered many times. -/
structure RemoteFuture (V E : Type) where
  base : BaseFuture V E := {}
  submissionState : SubmissionState := .localPending
  workerId : Obj := .none
  pid : Obj := .none
  remoteCallbacks : List Nat := []

/-- The operations of a client's threads on a future; `cancel` is the part that stays local. -/
inductive Operation (V E : Type) where
  | cancel
  | setSent
  | setAccepted
  | setRunning (pid workerId : Obj)
  | setResult (value : V)
  | setException (error : E) (task : Bool)
  | setCancelled

namespace RemoteFuture

def done (future : RemoteFuture V E) : Bool := future.base.state.done

/-- `_cancel_and_notify_waiters` -/
def cancelAndNotifyWaiters (future : RemoteFuture V E) : RemoteFuture V E :=
  match future.base.cancel with
  | (base, true) => { future with base := base.notifyCancel }
  | (base, false) => { future with base := base }

/-- `cancel` of a future that is not done: whether it is decided here. -/
def cancelsLocally (future : RemoteFuture V E) : Bool :=
  !future.done && future.submissionState = .localPending

/-- `cancel`, up to the call of the client -/
def cancel (future : RemoteFuture V E) : RemoteFuture V E × Bool :=
  if future.cancelsLocally then
    ({ future with submissionState := .cancelled }.cancelAndNotifyWaiters, true)
  else (future, false)

/-- `_set_sent` -/
def setSent (future : RemoteFuture V E) : RemoteFuture V E × Bool :=
  if future.done then (future, false)
  else ({ future with submissionState := .sentUnacknowledged }, false)

/-- `_set_accepted` -/
def setAccepted (future : RemoteFuture V E) : RemoteFuture V E × Bool :=
  if future.done then (future, false)
  else ({ future with submissionState := .acceptedQueued }, false)

/-- `_set_running` -/
def setRunning (future : RemoteFuture V E) (pid workerId : Obj) : RemoteFuture V E × Bool :=
  if future.done then (future, false)
  else ({ future with pid := pid, workerId := workerId, submissionState := .running }, false)

/-- `_set_result` -/
def setResult (future : RemoteFuture V E) (value : V) : RemoteFuture V E × Bool :=
  if future.done then (future, false)
  else
    ({ future with submissionState := .succeeded, base := future.base.setResult value }, true)

/-- `_set_exception` -/
def setException (future : RemoteFuture V E) (error : E) (task : Bool) : RemoteFuture V E × Bool :=
  if future.done then (future, false)
  else
    ({ future with
        submissionState := if task then .taskFailed else .failed
        base := future.base.setException error }, true)

/-- `_set_cancelled` -/
def setCancelled (future : RemoteFuture V E) : RemoteFuture V E × Bool :=
  if future.done then (future, false)
  else ({ future with submissionState := .cancelled }.cancelAndNotifyWaiters, true)

/-- An operation, and whether `_dispatch_callbacks` follows it. -/
def operate (future : RemoteFuture V E) : Operation V E → RemoteFuture V E × Bool
  | .cancel => future.cancel
  | .setSent => future.setSent
  | .setAccepted => future.setAccepted
  | .setRunning pid workerId => future.setRunning pid workerId
  | .setResult value => future.setResult value
  | .setException error task => future.setException error task
  | .setCancelled => future.setCancelled

/-! ## The two states -/

/-- The standard future that belongs to the state of the submission. -/
def Matches (future : RemoteFuture V E) : Prop :=
  match future.submissionState with
  | .succeeded => ∃ value, future.base = ⟨.finished, some value, none⟩
  | .taskFailed | .failed => ∃ error, future.base = ⟨.finished, none, some error⟩
  | .cancelled => future.base = ⟨.cancelledAndNotified, none, none⟩
  | .localPending | .sentUnacknowledged | .acceptedQueued | .running =>
    future.base = ⟨.pending, none, none⟩

theorem Matches.init : Matches ({} : RemoteFuture V E) := rfl

variable {future : RemoteFuture V E}

theorem Matches.done_iff (h : future.Matches) : future.done = future.submissionState.terminal := by
  unfold Matches at h
  unfold done
  cases hstate : future.submissionState <;> rw [hstate] at h
  case succeeded | taskFailed | failed =>
    obtain ⟨_, h⟩ := h
    rw [h]
    rfl
  all_goals
    rw [h]
    rfl

/-- A future that is not done has nothing in its standard part. -/
theorem Matches.pending (h : future.Matches) (hdone : future.done = false) :
    future.base = ⟨.pending, none, none⟩ := by
  have hterminal := h.done_iff
  rw [hdone] at hterminal
  unfold Matches at h
  cases hstate : future.submissionState <;> rw [hstate] at h hterminal
  case localPending | sentUnacknowledged | acceptedQueued | running => exact h
  all_goals cases hterminal

theorem operate_of_done (hdone : future.done = true) (op : Operation V E) :
    future.operate op = (future, false) := by
  cases op with
  | cancel => simp [operate, cancel, cancelsLocally, hdone]
  | setSent => simp [operate, setSent, hdone]
  | setAccepted => simp [operate, setAccepted, hdone]
  | setRunning => simp [operate, setRunning, hdone]
  | setResult => simp [operate, setResult, hdone]
  | setException => simp [operate, setException, hdone]
  | setCancelled => simp [operate, setCancelled, hdone]

/-- An operation leaves the callbacks alone. -/
theorem operate_remoteCallbacks (op : Operation V E) :
    (future.operate op).1.remoteCallbacks = future.remoteCallbacks := by
  have hcancel : ∀ future' : RemoteFuture V E,
      future'.cancelAndNotifyWaiters.remoteCallbacks = future'.remoteCallbacks := by
    intro future'
    unfold cancelAndNotifyWaiters
    split <;> rfl
  cases op with
  | cancel =>
    simp only [operate, cancel]
    split
    · rw [hcancel]
    · rfl
  | setCancelled =>
    simp only [operate, setCancelled]
    split
    · rfl
    · rw [hcancel]
  | setSent => simp only [operate, setSent]; split <;> rfl
  | setAccepted => simp only [operate, setAccepted]; split <;> rfl
  | setRunning => simp only [operate, setRunning]; split <;> rfl
  | setResult => simp only [operate, setResult]; split <;> rfl
  | setException => simp only [operate, setException]; split <;> rfl

/-- Cancelling a future that is not done. -/
theorem cancelAndNotifyWaiters_pending (hbase : future.base = ⟨.pending, none, none⟩) :
    future.cancelAndNotifyWaiters = { future with base := ⟨.cancelledAndNotified, none, none⟩ } := by
  unfold cancelAndNotifyWaiters
  rw [hbase]
  rfl

/-- The two states stay in step, and callbacks are dispatched by the operation that completes the
future. -/
theorem Matches.operate (h : future.Matches) (op : Operation V E) :
    (future.operate op).1.Matches ∧
      ((future.operate op).2 = true ↔ future.done = false ∧ (future.operate op).1.done = true) := by
  cases hdone : future.done with
  | true =>
    rw [operate_of_done hdone]
    simp [h]
  | false =>
    have hbase := h.pending hdone
    have hcancelled : ({ future with submissionState := .cancelled }.cancelAndNotifyWaiters) =
        { future with
          submissionState := .cancelled
          base := ⟨.cancelledAndNotified, none, none⟩ } := cancelAndNotifyWaiters_pending hbase
    cases op with
    | cancel =>
      simp only [RemoteFuture.operate, RemoteFuture.cancel]
      split
      · rw [hcancelled]
        exact ⟨rfl, by simp [done, FutureState.done]⟩
      · exact ⟨h, by simp [hdone]⟩
    | setSent =>
      simp only [RemoteFuture.operate, RemoteFuture.setSent, hdone, Bool.false_eq_true, if_false]
      exact ⟨hbase, by simp [done, hbase, FutureState.done]⟩
    | setAccepted =>
      simp only [RemoteFuture.operate, RemoteFuture.setAccepted, hdone, Bool.false_eq_true, if_false]
      exact ⟨hbase, by simp [done, hbase, FutureState.done]⟩
    | setRunning pid workerId =>
      simp only [RemoteFuture.operate, RemoteFuture.setRunning, hdone, Bool.false_eq_true, if_false]
      exact ⟨hbase, by simp [done, hbase, FutureState.done]⟩
    | setResult value =>
      simp only [RemoteFuture.operate, RemoteFuture.setResult, hdone, Bool.false_eq_true, if_false,
        hbase, BaseFuture.setResult, FutureState.done]
      exact ⟨⟨value, rfl⟩, by simp [done, FutureState.done]⟩
    | setException error task =>
      simp only [RemoteFuture.operate, RemoteFuture.setException, hdone, Bool.false_eq_true, if_false,
        hbase, BaseFuture.setException, FutureState.done]
      refine ⟨?_, by simp [done, FutureState.done]⟩
      cases task <;> exact ⟨error, rfl⟩
    | setCancelled =>
      simp only [RemoteFuture.operate, RemoteFuture.setCancelled, hdone, Bool.false_eq_true, if_false]
      rw [hcancelled]
      exact ⟨rfl, by simp [done, FutureState.done]⟩

end RemoteFuture

end Futures

end Deadpool.Remote.Client
