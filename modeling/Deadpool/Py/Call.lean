import Mathlib.Data.List.Basic

/-!
# Calls of Python functions

How the arguments of a call reach the parameters of a plain `def` (no `*args`, no
keyword-only parameters), and how `functools.partial` adds its own.

* `bindArguments`        : positional arguments first, then each keyword argument, then the
  arity checks, then the defaults; every failure is a `TypeError` raised before the body runs;
* `bindArguments_multipleValues`  : a keyword whose parameter was reached by position is such a failure;
* `Partial.call`         : the stored arguments precede those of the call.
-/

set_option autoImplicit false

namespace Deadpool.Py

variable {V : Type}

structure Param (V : Type) where
  name : String
  /-- `none` for a required parameter -/
  default : Option V

/-- Why a call does not reach the body of the function. -/
inductive BindError where
  | unexpectedKeyword (name : String)
  | multipleValues (name : String)
  | tooManyPositional (given : Nat)
  | missing (names : List String)
  deriving DecidableEq, Repr

/-- The parameters reached by position. -/
def bindPositional (params : List (Param V)) (args : List V) : List (Option V) :=
  (List.range params.length).map (args[·]?)

/-- One keyword argument. -/
def bindKeyword (params : List (Param V)) (slots : List (Option V)) (kw : String × V) :
    Except BindError (List (Option V)) :=
  match params.findIdx? (·.name == kw.1) with
  | none => .error (.unexpectedKeyword kw.1)
  | some i =>
    match slots[i]? with
    | some (some _) => .error (.multipleValues kw.1)
    | _ => .ok (slots.set i (some kw.2))

/-- Required parameters that received nothing. -/
def missingNames (params : List (Param V)) (slots : List (Option V)) : List String :=
  ((params.zip slots).filter fun p => p.2.isNone && p.1.default.isNone).map (·.1.name)

/-- The value each parameter has when the body starts. -/
def bindArguments (params : List (Param V)) (args : List V) (kwargs : List (String × V)) :
    Except BindError (List V) :=
  match kwargs.foldlM (bindKeyword params) (bindPositional params args) with
  | .error e => .error e
  | .ok slots =>
    if params.length < args.length then .error (.tooManyPositional args.length)
    else
      match missingNames params slots with
      | [] => .ok ((params.zip slots).filterMap fun p => p.2.or p.1.default)
      | names => .error (.missing names)

/-- A parameter reached by position cannot be passed by keyword as well, whatever else the call
passes. -/
theorem bindArguments_multipleValues {params : List (Param V)} {args : List V}
    {kwargs : List (String × V)} {name : String} {v : V} {i : Nat}
    (hname : params.findIdx? (·.name == name) = some i) (hi : i < args.length) :
    bindArguments params args ((name, v) :: kwargs) = .error (.multipleValues name) := by
  have hlt : i < params.length := (List.findIdx?_eq_some_iff_getElem.mp hname).choose
  have hslot : (bindPositional params args)[i]? = some (some args[i]) := by
    simp [bindPositional, hlt, hi]
  have hkw : bindKeyword params (bindPositional params args) (name, v) =
      .error (.multipleValues name) := by
    simp only [bindKeyword, hname, hslot]
  simp only [bindArguments, List.foldlM_cons, hkw]
  rfl

/-- `functools.partial(func, *args, **keywords)`. -/
structure Partial (F V : Type) where
  func : F
  args : List V
  keywords : List (String × V)

/-- The positional and keyword arguments with which a call of the partial calls `func`; the
keywords of the call override the stored ones. -/
def Partial.call {F : Type} (p : Partial F V) (args : List V) (kwargs : List (String × V)) :
    List V × List (String × V) :=
  (p.args ++ args,
    (p.keywords.filter fun kw => !(kwargs.map (·.1)).contains kw.1) ++ kwargs)

@[simp] theorem Partial.call_positional {F : Type} (p : Partial F V) (args : List V) :
    p.call args [] = (p.args ++ args, p.keywords) := by
  have hkeep : (p.keywords.filter fun _ => true) = p.keywords := List.filter_true _
  simp [Partial.call, hkeep]

end Deadpool.Py
