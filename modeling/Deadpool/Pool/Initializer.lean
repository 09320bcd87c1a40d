import Deadpool.Py.Call

/-!
# The initializer of a worker process

`add_worker_to_pool`, the start of `raw_runner2` and `initializer_environ_propagator` of
`deadpool/_pool.py`.  With a non-empty `propagate_environ` the parent builds a
`functools.partial` of the propagator; the child calls whatever initializer it was given with
`*initargs`, and an `Exception` of that call, a binding error included, is only logged.

What a call does is the list of its actions: assignments to `os.environ`, and calls of the
user's initializer.  Which of them raise is decided by a function of the actions so far
(`Raises`), so the user's code is arbitrary.

Principal result: `environ_propagated_iff` — the worker's call has the effect of updating
`os.environ` with the snapshot and then calling the user's initializer with exactly `*initargs`
if and only if `initargs` is empty and the initializer is absent or true.
-/

set_option autoImplicit false

namespace Deadpool.Pool.Initializer

variable {O : Type}

/-! ## Values and effects -/

/-- A Python exception; `isException` says whether `except Exception` catches it. -/
structure PyExc where
  className : String
  isException : Bool
  deriving DecidableEq, Repr

def typeError : PyExc := ⟨"TypeError", true⟩

/-- Python values as far as the initializer's call looks at them; `O` are all other objects. -/
inductive Value (O : Type) where
  | none
  | dict (items : List (O × O))
  | tuple (items : List O)
  | obj (o : O)
  deriving DecidableEq, Repr

/-- What objects answer to `bool(o)`, `*o` and `os.environ.update(o)`. -/
structure Objects (O : Type) where
  bool : O → Bool
  iter : O → Except PyExc (List O)
  items : O → Except PyExc (List (O × O))

def Value.truthy (ob : Objects O) : Value O → Bool
  | .none => false
  | .dict items => !items.isEmpty
  | .tuple items => !items.isEmpty
  | .obj o => ob.bool o

inductive Action (O : Type) where
  /-- `os.environ[key] = value` -/
  | setenv (key value : O)
  /-- the user's initializer with these positional arguments -/
  | call (f : O) (args : List O)
  /-- `logger.exception("Initializer failed")` -/
  | logged (e : PyExc)
  deriving DecidableEq, Repr

/-- What the action raises that comes after the given ones, if anything. -/
abbrev Raises (O : Type) := List (Action O) → Option PyExc

/-- The actions done so far and the exception that ended the code, if one did. -/
abbrev Effect (O : Type) := List (Action O) × Option PyExc

/-- A piece of Python code, run after some actions. -/
abbrev Code (O : Type) := Raises O → List (Action O) → Effect O

def skip : Code O := fun _ done => (done, Option.none)

def raise (e : PyExc) : Code O := fun _ done => (done, some e)

def perform (a : Action O) : Code O := fun raises done => (done ++ [a], raises (done ++ [a]))

/-- One statement after another. -/
def Code.seq (c d : Code O) : Code O := fun raises done =>
  match c raises done with
  | (done, Option.none) => d raises done
  | (done, some e) => (done, some e)

/-- `try: c; except Exception: logger.exception("Initializer failed")`. -/
def Code.logging (c : Code O) : Code O := fun raises done =>
  match c raises done with
  | (done, some e) => if e.isException then (done ++ [.logged e], Option.none) else (done, some e)
  | r => r

/-! ## The code -/

/-- `os.environ.update(items)`: the assignments in order. -/
def updateEnviron : List (O × O) → Code O
  | [] => skip
  | (key, value) :: rest => (perform (.setenv key value)).seq (updateEnviron rest)

/-- `os.environ.update(v)`. -/
def updateWith (ob : Objects O) : Value O → Code O
  | .dict items => updateEnviron items
  | .obj o =>
    match ob.items o with
    | .ok items => updateEnviron items
    | .error e => raise e
  -- neither a mapping nor a sequence of pairs
  | .none => raise typeError
  | .tuple [] => skip
  | .tuple (_ :: _) => raise typeError

/-- `f(*args)` for a value `f` that stands for the user's initializer. -/
def applyTo (ob : Objects O) (f args : Value O) : Code O :=
  let arguments : Except PyExc (List O) :=
    match args with
    | .tuple items => .ok items
    | .dict items => .ok (items.map (·.1))
    | .none => .error typeError
    | .obj o => ob.iter o
  match arguments with
  | .error e => raise e
  | .ok items =>
    match f with
    | .obj o => perform (.call o items)
    | _ => raise typeError

/-- `environ, original_initializer=None, initargs=()`. -/
def propagatorParams : List (Py.Param (Value O)) :=
  [⟨"environ", Option.none⟩, ⟨"original_initializer", some .none⟩, ⟨"initargs", some (.tuple [])⟩]

/-- The body of `initializer_environ_propagator`. -/
def initializerEnvironPropagator (ob : Objects O)
    (environ originalInitializer initargs : Value O) : Code O :=
  let environ := if environ.truthy ob then environ else .dict []
  let initargs := if initargs.truthy ob then initargs else .tuple []
  (updateWith ob environ).seq
    (if originalInitializer.truthy ob then applyTo ob originalInitializer initargs else skip)

/-- `initializer_environ_propagator(*args, **kwargs)`. -/
def callPropagator (ob : Objects O) (args : List (Value O)) (kwargs : List (String × Value O)) :
    Code O :=
  match Py.bindArguments propagatorParams args kwargs with
  | .ok [environ, originalInitializer, initargs] =>
    initializerEnvironPropagator ob environ originalInitializer initargs
  | _ => raise typeError

/-- The initializer a worker process is created with. -/
inductive WorkerInitializer (O : Type) where
  | user (f : Option O)
  | propagating (p : Py.Partial Unit (Value O))

/-- The user's `initializer` as a value. -/
def initializerValue : Option O → Value O
  | some f => .obj f
  | Option.none => .none

/-- The initializer `add_worker_to_pool` gives to the worker; `propagateEnviron` is what the
mapping holds at that moment, `none` for no mapping. -/
def addWorkerToPool (propagateEnviron : Option (List (O × O))) (initializer : Option O) :
    WorkerInitializer O :=
  match propagateEnviron with
  | some (item :: items) =>
    .propagating ⟨(), [.dict (item :: items)],
      [("original_initializer", initializerValue initializer)]⟩
  | _ => .user initializer

/-- `initializer(*initargs)` in `raw_runner2`. -/
def callInitializer (ob : Objects O) (initializer : WorkerInitializer O) (initargs : List O) :
    Code O :=
  match initializer with
  | .user Option.none => skip
  | .user (some f) => if ob.bool f then perform (.call f initargs) else skip
  | .propagating p =>
    let (args, kwargs) := p.call (initargs.map .obj) []
    callPropagator ob args kwargs

/-- The start of `raw_runner2`, before the work loop. -/
def rawRunner2 (ob : Objects O) (initializer : WorkerInitializer O) (initargs : List O) : Code O :=
  (callInitializer ob initializer initargs).logging

/-! ## What the initializer is for -/

/-- Update the environment with the snapshot, then call the user's initializer, if there is one,
with exactly these arguments. -/
def reference (snapshot : List (O × O)) (initializer : Option O) (initargs : List O) : Code O :=
  (updateEnviron snapshot).seq
    (match initializer with
      | some f => perform (.call f initargs)
      | Option.none => skip)

/-- The worker of a pool with this `propagate_environ` starts as the reference does: the same
actions, the same outcome, whatever the user's code and `os.environ` raise. -/
def Propagates (ob : Objects O) (snapshot : List (O × O)) (initializer : Option O)
    (initargs : List O) : Prop :=
  ∀ raises done, rawRunner2 ob (addWorkerToPool (some snapshot) initializer) initargs raises done =
    (reference snapshot initializer initargs).logging raises done

/-! ## The two argument lists -/

section Environ

variable {ob : Objects O} {item : O × O} {items : List (O × O)} {initializer : Option O}

/-- Without arguments the partial's own reach the right parameters. -/
theorem callInitializer_nil :
    callInitializer ob (addWorkerToPool (some (item :: items)) initializer) [] =
      (updateEnviron (item :: items)).seq
        (if (initializerValue initializer).truthy ob then
          applyTo ob (initializerValue initializer) (.tuple []) else skip) := by
  have hbind : Py.bindArguments propagatorParams [Value.dict (item :: items)]
      [("original_initializer", initializerValue initializer)] =
      .ok [.dict (item :: items), initializerValue initializer, .tuple []] := rfl
  simp only [addWorkerToPool, callInitializer, List.map_nil, Py.Partial.call_positional,
    List.append_nil, callPropagator, hbind]
  rfl

/-- With arguments the first of them reaches `original_initializer` by position, which the
partial also passes by keyword: the call fails before the propagator's first statement. -/
theorem callInitializer_cons (a : O) (initargs : List O) :
    callInitializer ob (addWorkerToPool (some (item :: items)) initializer) (a :: initargs) =
      raise typeError := by
  have hbind : Py.bindArguments propagatorParams
      (Value.dict (item :: items) :: (a :: initargs).map Value.obj)
      [("original_initializer", initializerValue initializer)] =
      .error (.multipleValues "original_initializer") := by
    apply Py.bindArguments_multipleValues
    · show _ = some 1
      rfl
    · simp
  simp only [addWorkerToPool, callInitializer, Py.Partial.call_positional, List.singleton_append,
    callPropagator, hbind]

end Environ

/-! ## When the worker starts as the reference does -/

/-- The update when no assignment raises. -/
theorem updateEnviron_quiet (items : List (O × O)) (done : List (Action O)) :
    updateEnviron items (fun _ => Option.none) done =
      (done ++ items.map (fun item => .setenv item.1 item.2), Option.none) := by
  induction items generalizing done with
  | nil => simp [updateEnviron, skip]
  | cons item items ih =>
    simp only [updateEnviron, Code.seq, perform, ih]
    simp

/-- The reference when nothing raises: every assignment, then the call. -/
theorem reference_quiet (snapshot : List (O × O)) (initializer : Option O) (initargs : List O) :
    (reference snapshot initializer initargs).logging (fun _ => Option.none) [] =
      (snapshot.map (fun item => .setenv item.1 item.2) ++
        (initializer.map (Action.call · initargs)).toList, Option.none) := by
  cases initializer <;> simp [reference, Code.logging, Code.seq, updateEnviron_quiet, skip, perform]

/-- With arguments nothing is done but the log record. -/
theorem rawRunner2_cons (ob : Objects O) (item : O × O) (items : List (O × O))
    (initializer : Option O) (a : O) (initargs : List O) (raises : Raises O)
    (done : List (Action O)) :
    rawRunner2 ob (addWorkerToPool (some (item :: items)) initializer) (a :: initargs) raises done =
      (done ++ [.logged typeError], Option.none) := by
  simp only [rawRunner2, callInitializer_cons, Code.logging, raise]
  rfl

/-- **When the environment reaches the worker.**  For every non-empty snapshot of
`propagate_environ`, the worker's call of its initializer has the effect of updating `os.environ`
and then calling the user's initializer with `*initargs` exactly when `initargs` is empty and the
user's initializer, if there is one, is true. -/
theorem environ_propagated_iff (ob : Objects O) (item : O × O) (items : List (O × O))
    (initializer : Option O) (initargs : List O) :
    Propagates ob (item :: items) initializer initargs ↔
      initargs = [] ∧ ∀ f, initializer = some f → ob.bool f = true := by
  constructor
  · intro h
    have hquiet := h (fun _ => Option.none) []
    rw [reference_quiet] at hquiet
    cases initargs with
    | cons a initargs =>
      -- the reference's first action is an assignment, the worker's is the log record
      rw [rawRunner2_cons] at hquiet
      simp at hquiet
    | nil =>
      refine ⟨rfl, fun f hf => ?_⟩
      subst hf
      by_contra hfalse
      have hskip : (if (initializerValue (some f)).truthy ob then
          applyTo ob (initializerValue (some f)) (.tuple []) else skip) = skip := if_neg hfalse
      simp only [rawRunner2, callInitializer_nil, hskip, Code.logging, Code.seq,
        updateEnviron_quiet, skip] at hquiet
      simp at hquiet
  · rintro ⟨rfl, htrue⟩ raises done
    simp only [rawRunner2, callInitializer_nil, reference]
    cases initializer with
    | none => rfl
    | some f => simp [initializerValue, Value.truthy, htrue f rfl, applyTo]

/-- Strings as objects; the empty one is false. -/
def strings : Objects String where
  bool s := !s.isEmpty
  iter _ := .error typeError
  items _ := .error typeError

/-- One argument is enough: the worker starts with the old environment and without having called
the user's initializer. -/
theorem environ_lost_with_initargs :
    ¬ Propagates strings [("LOG_LEVEL", "debug")] (some "setup") ["config.toml"] := by
  intro h
  have hrun := h (fun _ => Option.none) []
  rw [rawRunner2_cons, reference_quiet] at hrun
  simp at hrun

end Deadpool.Pool.Initializer
