import Deadpool.Remote.Outcome

/-!
# The worker

`execute_opaque` of `deadpool/remote/_worker.py` and the bounded writer of
`deadpool/remote/serializer.py`.  Application code, the pickler and what Python says about an exception
are parameters.

Principal results:

* `executeOpaque_payload_le` — the outcome of a request stays within the limit that `dumps` is given;
* `pickleDumps_le`           — `PickleSerializer` honours that limit.
-/

set_option autoImplicit false

namespace Deadpool.Remote

open Deadpool.Py

/-! ## `PickleSerializer` -/

/-- `_LimitedWriter.write` -/
def limitedWrite (limit : Nat) (buffer chunk : Bytes) : Except Str Bytes :=
  if buffer.length + chunk.length > limit then
    .error (lit s!"serialized payload exceeds the {limit}-byte limit")
  else .ok (buffer ++ chunk)

/-- `PickleSerializer.dumps` on a value for which the pickler writes these chunks. -/
def pickleDumps (chunks : List Bytes) (limit : Nat) : Except Str Bytes :=
  chunks.foldlM (limitedWrite limit) []

theorem limitedWrite_le {limit : Nat} {buffer chunk buffer' : Bytes}
    (h : limitedWrite limit buffer chunk = .ok buffer') : buffer'.length ≤ limit := by
  unfold limitedWrite at h
  split at h
  · cases h
  · rename_i hle
    cases h
    rw [List.length_append]
    omega

/-- **`PickleSerializer` honours its limit**, whatever the pickler writes. -/
theorem pickleDumps_le {chunks : List Bytes} {limit : Nat} {payload : Bytes}
    (h : pickleDumps chunks limit = .ok payload) : payload.length ≤ limit := by
  -- the buffer is within the limit before every chunk
  have hfold : ∀ (chunks : List Bytes) (buffer : Bytes), buffer.length ≤ limit →
      chunks.foldlM (limitedWrite limit) buffer = .ok payload → payload.length ≤ limit := by
    intro chunks
    induction chunks with
    | nil =>
      intro buffer hbuffer h
      cases h
      exact hbuffer
    | cons chunk chunks ih =>
      intro buffer _ h
      rw [List.foldlM_cons] at h
      obtain ⟨buffer', hwrite, hrest⟩ := bind_ok.mp h
      exact ih buffer' (limitedWrite_le hwrite) hrest
  exact hfold chunks [] (Nat.zero_le _) h

/-! ## `execute_opaque` -/

/-- What `execute_opaque` finds in its process; `α` are the results of application code and `ε` the
exceptions. -/
structure Worker (α ε : Type) where
  /-- `serializer.loads` of an invocation, and the call of the function in it -/
  callable : Bytes → Except ε α
  /-- `serializer.loads` of the arguments, and the call of a registered operation -/
  registered : Obj → Option (Bytes → Except ε α)
  /-- the `LookupError` for any other operation -/
  unknown : Obj → ε
  /-- `serializer.dumps` with its limit -/
  dumps : α ⊕ ε → Nat → Except ε Bytes
  /-- `isinstance(error, SerializationLimitError)` -/
  limitError : ε → Bool
  module : ε → Str
  qualname : ε → Str
  /-- `repr`, which may raise -/
  repr : ε → Option Str
  /-- `traceback.format_exception`, joined -/
  traceback : ε → Str

namespace Worker

variable {α ε : Type} (w : Worker α ε)

/-- `_safe_repr` -/
def safeRepr (error : ε) : Str :=
  match w.repr error with
  | some text => text.take 4096
  | none => lit "<" ++ w.module error ++ lit "." ++ w.qualname error ++ lit ">"

/-- `_describe_exception` -/
def describeException (error : ε) : Descriptor :=
  Descriptor.empty
    |>.set .module (w.module error)
    |>.set .type (w.qualname error)
    |>.set .message (w.safeRepr error)
    |>.set .traceback (w.traceback error)

/-- The first `try` of `execute_opaque`. -/
def call (registered : Bool) (invocation : Bytes) (operation : Obj) : Except ε α :=
  if registered then
    match w.registered operation with
    | none => .error (w.unknown operation)
    | some fn => fn invocation
  else w.callable invocation

/-- `execute_opaque`; the mode is one of the two that `_submit` accepts. -/
def executeOpaque (registered : Bool) (invocation : Bytes) (operation : Obj) (maxResultBytes : Nat) :
    Outcome :=
  match w.call registered invocation operation with
  | .error error =>
    match w.dumps (.inr error) maxResultBytes with
    | .ok payload => .worker .taskError payload (w.describeException error)
    | .error e =>
      .worker .taskError [] ((w.describeException error).set .serializationError (w.safeRepr e))
  | .ok result =>
    match w.dumps (.inl result) maxResultBytes with
    | .ok payload => .worker .result payload .empty
    | .error e =>
      if w.limitError e then
        .worker .resultTooLarge [] (Descriptor.empty.set .message (w.safeRepr e))
      else .worker .resultEncodingFailed [] (w.describeException e)

/-- `dumps` never returns more than its limit. -/
def Honours : Prop := ∀ x limit payload, w.dumps x limit = .ok payload → payload.length ≤ limit

/-- **The outcome of a request stays within the limit** that the serializer is given. -/
theorem executeOpaque_payload_le (h : w.Honours) (registered : Bool) (invocation : Bytes)
    (operation : Obj) (maxResultBytes : Nat) :
    (w.executeOpaque registered invocation operation maxResultBytes).payload.length ≤
      maxResultBytes := by
  unfold executeOpaque
  split
  · split
    · rename_i payload hdumps
      exact h _ _ _ hdumps
    · exact Nat.zero_le _
  · split
    · rename_i payload hdumps
      exact h _ _ _ hdumps
    · split
      · exact Nat.zero_le _
      · exact Nat.zero_le _

end Worker

end Deadpool.Remote
