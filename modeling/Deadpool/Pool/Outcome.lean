import Mathlib.Data.List.Basic

/-!
# The outcome of a job on the pipe of its worker

`raw_runner2` sends what the job's function returned, or the exception it raised, as one object;
`run_task` tells the two apart by `isinstance(results, BaseException)`.  Both are in
`deadpool/_pool.py`.

Python values are an arbitrary type `V`; `Values` lists what the code asks of them.

* `sendOutcome`, `classify` : the two ends of the pipe;
* `completion`              : what the future of a job is completed with, for a worker that lives;
* `outcome_kept_iff`        : the future tells what the function did exactly when the function did
  not return an exception object.
-/

set_option autoImplicit false

namespace Deadpool.Pool.Outcome

/-- What the code asks of Python values, of `pickle` and of the pipe. -/
structure Values (V : Type) where
  isBaseException : V → Bool
  /-- `isinstance(v, TimeoutError)` for the class of this module -/
  isTimeoutError : V → Bool
  timeoutError_isBaseException : ∀ v, isTimeoutError v = true → isBaseException v = true
  /-- `pickle.dumps(v)` succeeds -/
  dumps : V → Bool
  /-- the `ProcessError` that stands for an exception that does not pickle -/
  wrapped : V → V
  wrapped_isBaseException : ∀ v, isBaseException (wrapped v) = true
  /-- the exception with its traceback in `args[0]`; `none` if formatting it raises -/
  rendered : V → Option V
  rendered_isBaseException : ∀ v w, isBaseException v = true → rendered v = some w →
    isBaseException w = true
  /-- `conn.send(v)` and `recv()` at the other end: `none` if nothing is sent, an error if `recv`
  raises -/
  pipe : V → Option (Except V V)
  /-- `ProcessError(worker.format_death_message())` -/
  deathMessage : V

variable {V : Type}

/-- What the call of the job's function did. -/
inductive JobOutcome (V : Type) where
  | returned (v : V)
  | raised (e : V)
  deriving DecidableEq, Repr

/-- The object `raw_runner2` gives to `conn_send_safe`; `none` if the handler itself raises, which
ends the worker. -/
def sendOutcome (py : Values V) : JobOutcome V → Option V
  | .returned results => some results
  | .raised e => py.rendered (if py.dumps e then e else py.wrapped e)

/-- What `worker.get_results()` does. -/
inductive Received (V : Type) where
  | eof
  | unreadable (e : V)
  | message (results : V)
  deriving DecidableEq, Repr

/-- What `run_task` completes the future with. -/
inductive Completion (V : Type) where
  | result (v : V)
  | exception (e : V)
  deriving DecidableEq, Repr

/-- What `run_task` does about `get_results()`: the completion of the future, if it is not done,
how often `tasks_failed` is incremented, and whether `worker.ok` stays. -/
structure Classified (V : Type) where
  completion : Completion V
  tasksFailed : Nat
  ok : Bool
  deriving DecidableEq, Repr

def classify (py : Values V) : Received V → Classified V
  | .eof => ⟨.exception py.deathMessage, 1, true⟩
  | .unreadable e => ⟨.exception e, 1, true⟩
  | .message results =>
    let first : Completion V × Nat :=
      if py.isBaseException results then (.exception results, 1) else (.result results, 0)
    if py.isTimeoutError results then ⟨first.1, first.2 + 1, false⟩ else ⟨first.1, first.2, true⟩

/-- What the pipe delivers. -/
def receive : Except V V → Received V
  | .ok results => .message results
  | .error e => .unreadable e

/-- The completion of the future of a job that no timer, no cancellation and no death disturbs;
`none` if nothing reaches the parent. -/
def completion (py : Values V) (o : JobOutcome V) : Option (Completion V) :=
  (sendOutcome py o).bind fun sent =>
    (py.pipe sent).map fun delivered => (classify py (receive delivered)).completion

/-- The future tells what the function did: a returned value is its result, and an exception
means that the function raised. -/
def Kept (py : Values V) : JobOutcome V → Prop
  | .returned v => completion py (.returned v) = some (.result v)
  | .raised e => ∀ c, completion py (.raised e) = some c → ∃ e', c = .exception e'

/-! ## The two ends together -/

theorem classify_message (py : Values V) (results : V) :
    (classify py (.message results)).completion =
      if py.isBaseException results then .exception results else .result results := by
  simp only [classify]
  cases py.isBaseException results <;> cases py.isTimeoutError results <;> rfl

/-- What is sent for a raised exception is an exception. -/
theorem sendOutcome_raised (py : Values V) {e sent : V} (he : py.isBaseException e = true)
    (h : sendOutcome py (.raised e) = some sent) : py.isBaseException sent = true := by
  refine py.rendered_isBaseException _ sent ?_ h
  split
  · exact he
  · exact py.wrapped_isBaseException e

/-- An object that pickle round-trips is classified by its own type. -/
theorem completion_of_sent (py : Values V) {o : JobOutcome V} {sent : V}
    (hsent : sendOutcome py o = some sent) (hpickle : py.pipe sent = some (.ok sent)) :
    completion py o =
      some (if py.isBaseException sent then .exception sent else .result sent) := by
  simp only [completion, hsent, Option.bind_some, hpickle, Option.map_some, receive,
    classify_message]

/-- **Returning and raising on one channel.**  For every outcome of a job's function (a raised
object being an exception) that pickle round-trips, the future tells what the function did if and
only if the function did not return an exception object. -/
theorem outcome_kept_iff (py : Values V) (o : JobOutcome V)
    (hraised : ∀ e, o = .raised e → py.isBaseException e = true)
    (hpickle : ∀ sent, sendOutcome py o = some sent → py.pipe sent = some (.ok sent)) :
    Kept py o ↔ ∀ v, o = .returned v → py.isBaseException v = false := by
  cases o with
  | returned v =>
    have hcompletion := completion_of_sent py (o := .returned v) rfl (hpickle v rfl)
    simp only [Kept, hcompletion]
    cases hv : py.isBaseException v with
    | false => simp [hv]
    | true => simp [hv]
  | raised e =>
    refine ⟨fun _ v hv => (by cases hv), fun _ c hc => ?_⟩
    cases hsent : sendOutcome py (.raised e) with
    | none => simp [completion, hsent] at hc
    | some sent =>
      have he := sendOutcome_raised py (hraised e rfl) hsent
      rw [completion_of_sent py hsent (hpickle sent hsent), if_pos he] at hc
      exact ⟨sent, (Option.some.inj hc).symm⟩

/-- Integers and the messages of exceptions; every exception pickles, and its traceback is one
more line. -/
inductive Sample where
  | int (n : Int)
  | valueError (text : String)
  | timeoutError (text : String)
  | processError (text : String)
  deriving DecidableEq, Repr

def Sample.isException : Sample → Bool
  | .int _ => false
  | _ => true

def Sample.isTimeout : Sample → Bool
  | .timeoutError _ => true
  | _ => false

def Sample.withTraceback : Sample → Sample
  | .int n => .int n
  | .valueError text => .valueError (text ++ "\nTraceback")
  | .timeoutError text => .timeoutError (text ++ "\nTraceback")
  | .processError text => .processError (text ++ "\nTraceback")

def samples : Values Sample where
  isBaseException := Sample.isException
  isTimeoutError := Sample.isTimeout
  timeoutError_isBaseException v h := by cases v <;> first | rfl | cases h
  dumps _ := true
  wrapped _ := .processError "An exception occurred but pickling it failed."
  wrapped_isBaseException _ := rfl
  rendered v := some v.withTraceback
  rendered_isBaseException v w h hw := by cases hw; cases v <;> first | rfl | cases h
  pipe v := some (.ok v)
  deathMessage := .processError "Worker process died unexpectedly"

theorem outcome_kept_iff_seven :
    completion samples (.returned (.int 7)) = some (.result (.int 7)) :=
  (outcome_kept_iff samples (.returned (.int 7)) (fun e h => by cases h)
    (fun _ _ => rfl)).mpr (fun v h => by cases h; rfl)

/-- A function that returns an exception object, without raising it, has its future completed
with an exception. -/
theorem returned_exception_raised :
    ¬ Kept samples (.returned (.valueError "collected")) ∧
      completion samples (.returned (.valueError "collected")) =
        some (.exception (.valueError "collected")) := by
  have h : completion samples (.returned (.valueError "collected")) =
      some (.exception (.valueError "collected")) := rfl
  refine ⟨fun hkept => ?_, h⟩
  rw [Kept, h] at hkept
  cases hkept

end Deadpool.Pool.Outcome
