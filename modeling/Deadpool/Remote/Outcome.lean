import Deadpool.Remote.Envelope

/-!
# Terminal messages

How `_complete_local` of `deadpool/remote/server.py` turns what a worker left behind into the terminal
message of a request.  The descriptor of a `WorkerOutcome` is cut until the complete frame fits; the
text of an exception goes onto the wire as it is.

Principal results:

* `fitTerminalDescriptor_fits` — the descriptor that the fitting routine returns fits its frame;
* `terminal_encodes_iff`       — which terminal messages `send_message` can encode.
-/

set_option autoImplicit false

namespace Deadpool.Remote

open Deadpool.Py

inductive RequestState where
  | acceptedQueued | running | succeeded | taskFailed | executionTimedOut | cancelled
  | queueTimedOut | workerLost | resultEncodingFailed | resultTooLarge
  deriving DecidableEq, Repr

/-- `_TERMINAL` -/
def RequestState.terminal : RequestState → Bool
  | .acceptedQueued | .running => false
  | _ => true

def RequestState.name : RequestState → String
  | .acceptedQueued => "ACCEPTED_QUEUED"
  | .running => "RUNNING"
  | .succeeded => "SUCCEEDED"
  | .taskFailed => "TASK_FAILED"
  | .executionTimedOut => "EXECUTION_TIMED_OUT"
  | .cancelled => "CANCELLED"
  | .queueTimedOut => "QUEUE_TIMED_OUT"
  | .workerLost => "WORKER_LOST"
  | .resultEncodingFailed => "RESULT_ENCODING_FAILED"
  | .resultTooLarge => "RESULT_TOO_LARGE"

/-! ## Cutting text -/

/-- `...[truncated]` -/
def truncationMarker : Str := lit "...[truncated]"

/-- `_truncate_utf8` -/
def truncateUtf8 (value : Str) (limit : Nat) : Str :=
  let encoded := encodeUtf8Replace value
  -- what the encoder wrote can be decoded
  if encoded.length ≤ limit then (decodeUtf8 encoded).getD []
  else if limit ≤ truncationMarker.length then truncationMarker.take limit
  else decodeUtf8Ignore (encoded.take (limit - truncationMarker.length)) ++ truncationMarker

theorem encodable_truncateUtf8 (value : Str) (limit : Nat) : Encodable (truncateUtf8 value limit) := by
  have hmarker : Ascii truncationMarker := by decide
  unfold truncateUtf8
  dsimp only
  split
  · rw [encodeUtf8Replace, decodeUtf8_flatMap (encodable_backslashReplace value)]
    exact encodable_backslashReplace value
  split
  · exact fun c hc => hmarker.encodable c (List.mem_of_mem_take hc)
  · exact encodable_append.mpr ⟨decodeUtf8Ignore_noSurrogate _, hmarker.encodable⟩

/-! ## Descriptors -/

/-- The descriptor fields that reach the wire. -/
inductive DescriptorField where
  | module | type | message | serializationError | traceback
  deriving DecidableEq, Repr

def DescriptorField.key : DescriptorField → Str
  | .module => lit "module"
  | .type => lit "type"
  | .message => lit "message"
  | .serializationError => lit "serialization_error"
  | .traceback => lit "traceback"

/-- `fields` of `_fit_terminal_descriptor` -/
def DescriptorField.all : List DescriptorField :=
  [.module, .type, .message, .serializationError, .traceback]

/-- The order in which fields are given up. -/
def DescriptorField.removal : List DescriptorField :=
  [.traceback, .serializationError, .message, .type, .module]

/-- A descriptor: the text of each field that is present. -/
def Descriptor := DescriptorField → Option Str

def Descriptor.empty : Descriptor := fun _ => none

def Descriptor.set (d : Descriptor) (name : DescriptorField) (text : Str) : Descriptor :=
  fun f => if f = name then some text else d f

/-- `{"request_id": request_id}` -/
def requestControl (requestId : Str) : Dict := Dict.empty.set (lit "request_id") (.str requestId)

/-- The present fields as key and text. -/
def Descriptor.fields (d : Descriptor) : List (Str × Str) :=
  DescriptorField.all.filterMap fun f => (d f).map fun text => (f.key, text)

/-- `{"request_id": request_id, **fields}` -/
def controlOf (requestId : Str) (fields : List (Str × Str)) : Dict :=
  fields.foldl (fun control field => control.set field.1 (.str field.2)) (requestControl requestId)

/-- `{"request_id": request_id, **descriptor}` -/
def terminalControl (requestId : Str) (d : Descriptor) : Dict := controlOf requestId d.fields

/-- `_terminal_descriptor_fits`: only a `RemoteProtocolError` is caught. -/
def terminalDescriptorFits (limits : RemoteLimits) (requestId : Str) (payloadSize : Nat)
    (d : Descriptor) : Except Raised Bool :=
  match validateMessageControl (terminalControl requestId d) payloadSize limits with
  | .ok () => .ok true
  | .error (.protocol _) => .ok false
  | .error e => .error e

/-- The binary search of `_fit_terminal_descriptor` between `low` and `high = stop - 1`. -/
def longestFit (fits : Str → Except Raised Bool) (original : Str) (low stop : Nat) (best : Str) :
    Except Raised Str :=
  if _h : low < stop then
    let middle := (low + (stop - 1)) / 2
    let candidate := truncateUtf8 original middle
    match fits candidate with
    | .error e => .error e
    | .ok true => longestFit fits original (middle + 1) stop candidate
    | .ok false => longestFit fits original low middle best
  else .ok best
termination_by stop - low

/-- The loop over the fields to give up. -/
def shrinkDescriptor (fits : Descriptor → Except Raised Bool) :
    List DescriptorField → Descriptor → Except Raised Descriptor
  | [], _ => .ok .empty
  | name :: rest, bounded =>
    match bounded name with
    | none => shrinkDescriptor fits rest bounded
    | some original => do
      if ← fits (bounded.set name []) then
        let best ← longestFit (fun candidate => fits (bounded.set name candidate)) original 0
          ((original.flatMap utf8Char).length + 1) []
        .ok (bounded.set name best)
      else shrinkDescriptor fits rest (bounded.set name [])

/-- `_fit_terminal_descriptor` -/
def fitTerminalDescriptor (limits : RemoteLimits) (requestId : Str) (descriptor : Descriptor)
    (payloadSize : Nat) : Except Raised Descriptor := do
  let bounded : Descriptor := fun f => (descriptor f).map (truncateUtf8 · limits.maxMetadataBytes)
  if ← terminalDescriptorFits limits requestId payloadSize bounded then .ok bounded
  else
    shrinkDescriptor (terminalDescriptorFits limits requestId payloadSize) DescriptorField.removal
      bounded

/-! ## Outcomes -/

/-- The kinds that `execute_opaque` gives a `WorkerOutcome`. -/
inductive WorkerKind where
  | result | taskError | resultEncodingFailed | resultTooLarge
  deriving DecidableEq, Repr

/-- What `_complete_local` receives.  Exceptions are their `str` or `repr`. -/
inductive Outcome where
  | worker (kind : WorkerKind) (payload : Bytes) (descriptor : Descriptor)
  /-- `str` of a `TimeoutError` -/
  | timeout (text : Str)
  /-- `str` of a `ProcessError` or a `PicklingError` -/
  | lost (text : Str)
  /-- `repr` of any other exception -/
  | raised (text : Str)
  /-- any other object -/
  | invalid

def Outcome.payload : Outcome → Bytes
  | .worker _ payload _ => payload
  | _ => []

/-- The state a request ends in. -/
def Outcome.state : Outcome → RequestState
  | .worker .result _ _ => .succeeded
  | .worker .taskError _ _ => .taskFailed
  | .worker .resultEncodingFailed _ _ => .resultEncodingFailed
  | .worker .resultTooLarge _ _ => .resultTooLarge
  | .timeout _ => .executionTimedOut
  | .lost _ | .raised _ | .invalid => .workerLost

def Outcome.kind : Outcome → MessageType
  | .worker .result _ _ => .result
  | .worker .taskError _ _ => .taskError
  | .worker .resultEncodingFailed _ _ => .resultEncodingFailed
  | .worker .resultTooLarge _ _ => .resultTooLarge
  | .timeout _ => .timedOut
  | .lost _ | .raised _ | .invalid => .workerLost

/-- The descriptor that `_complete_local` hands to `_terminal_locked`. -/
def Outcome.descriptor (limits : RemoteLimits) (requestId : Str) : Outcome → Except Raised Descriptor
  | .worker _ payload descriptor =>
    fitTerminalDescriptor limits requestId descriptor payload.length
  | .timeout text | .lost text | .raised text => .ok (Descriptor.empty.set .message text)
  | .invalid => .ok (Descriptor.empty.set .message (lit "invalid worker outcome"))

/-- The arguments of `_terminal_locked`. -/
structure Terminal where
  state : RequestState
  kind : MessageType
  control : List (Str × Str)
  payload : Bytes := []

/-- The message that `_terminal_locked` puts on the connection. -/
def Terminal.message (t : Terminal) (requestId : Str) : Message :=
  ⟨t.kind, controlOf requestId t.control, t.payload⟩

def Outcome.terminal (limits : RemoteLimits) (requestId : Str) (outcome : Outcome) :
    Except Raised Terminal := do
  let d ← outcome.descriptor limits requestId
  .ok ⟨outcome.state, outcome.kind, d.fields, outcome.payload⟩

/-- The state and the kind are terminal. -/
structure Terminal.Ends (t : Terminal) : Prop where
  state : t.state.terminal = true
  kind : t.kind.terminal = true

/-- The terminal message of a request with the given outcome. -/
def Outcome.message (limits : RemoteLimits) (requestId : Str) (outcome : Outcome) :
    Except Raised Message := do
  let t ← outcome.terminal limits requestId
  .ok (t.message requestId)

/-! ## Encodable text raises only protocol errors -/

mutual

/-- Every string in the value can be encoded. -/
def EncodableValue : Value → Prop
  | .str s => Encodable s
  | .list xs => EncodableList xs
  | .dict items => EncodableItems items
  | _ => True

def EncodableList : List Value → Prop
  | [] => True
  | x :: xs => EncodableValue x ∧ EncodableList xs

def EncodableItems : Items → Prop
  | [] => True
  | (k, v) :: rest => (∀ s, k = .str s → Encodable s) ∧ EncodableValue v ∧ EncodableItems rest

end

/-- The only exception is `RemoteProtocolError`. -/
def OnlyProtocol {α : Type} (x : Except Raised α) : Prop :=
  ∀ e, x = .error e → ∃ message, e = .protocol message

section Protocol

variable {limits : RemoteLimits}

theorem onlyProtocol_refuse (p : Prop) [Decidable p] (message : String) :
    OnlyProtocol (refuse p message) := by
  intro e he
  unfold refuse Raised.because at he
  split at he
  · cases he
    exact ⟨_, rfl⟩
  · cases he

theorem onlyProtocol_bind {α β : Type} {x : Except Raised α} {f : α → Except Raised β}
    (hx : OnlyProtocol x) (hf : ∀ a, OnlyProtocol (f a)) : OnlyProtocol (x >>= f) := by
  intro e he
  cases x with
  | error e' =>
    cases he
    exact hx _ rfl
  | ok a => exact hf a e he

theorem onlyProtocol_ok {α : Type} (a : α) : OnlyProtocol (.ok a : Except Raised α) := by
  intro e he
  cases he

theorem onlyProtocol_str {s : Str} (h : Encodable s) : OnlyProtocol (validateStr limits s) := by
  unfold validateStr encodeUtf8
  rw [if_pos h]
  exact onlyProtocol_refuse _ _

theorem onlyProtocol_depth (depth : Nat) : OnlyProtocol (checkDepth depth) :=
  onlyProtocol_refuse _ _

mutual

theorem onlyProtocol_validateJson : ∀ {v : Value} (depth : Nat), EncodableValue v →
    OnlyProtocol (validateJson limits v depth)
  | .none, depth, _ => onlyProtocol_depth depth
  | .bool _, depth, _ => onlyProtocol_depth depth
  | .str _, depth, h => onlyProtocol_bind (onlyProtocol_depth depth) fun _ => onlyProtocol_str h
  | .int _, depth, _ =>
    onlyProtocol_bind (onlyProtocol_depth depth) fun _ => onlyProtocol_refuse _ _
  | .float _, depth, _ =>
    onlyProtocol_bind (onlyProtocol_depth depth) fun _ => onlyProtocol_refuse _ _
  | .list _, depth, h =>
    onlyProtocol_bind (onlyProtocol_depth depth) fun _ =>
      onlyProtocol_bind (onlyProtocol_refuse _ _) fun _ => onlyProtocol_validateList (depth + 1) h
  | .dict _, depth, h =>
    onlyProtocol_bind (onlyProtocol_depth depth) fun _ =>
      onlyProtocol_bind (onlyProtocol_refuse _ _) fun _ => onlyProtocol_validateItems (depth + 1) h
  | .other _, depth, _ =>
    onlyProtocol_bind (onlyProtocol_depth depth) fun _ e he => by
      cases he
      exact ⟨_, rfl⟩

theorem onlyProtocol_validateList : ∀ {xs : List Value} (depth : Nat), EncodableList xs →
    OnlyProtocol (validateList limits xs depth)
  | [], _, _ => onlyProtocol_ok ()
  | _ :: _, depth, h =>
    onlyProtocol_bind (onlyProtocol_validateJson depth h.1) fun _ =>
      onlyProtocol_validateList depth h.2

theorem onlyProtocol_validateItems : ∀ {items : Items} (depth : Nat), EncodableItems items →
    OnlyProtocol (validateItems limits items depth)
  | [], _, _ => onlyProtocol_ok ()
  | (.other _, _) :: _, _, _ => by
    intro e he
    cases he
    exact ⟨_, rfl⟩
  | (.str key, _) :: _, depth, h =>
    onlyProtocol_bind (onlyProtocol_depth depth) fun _ =>
      onlyProtocol_bind (onlyProtocol_str (h.1 key rfl)) fun _ =>
        onlyProtocol_bind (onlyProtocol_validateJson depth h.2.1) fun _ =>
          onlyProtocol_validateItems depth h.2.2

end

theorem onlyProtocol_validateMessageControl {control : Dict} {size : Nat}
    (h : EncodableItems control.items) :
    OnlyProtocol (validateMessageControl control size limits) := by
  have hzeros : ∀ n, Encodable (Hex.zeros n).text := by
    intro n c hc
    rw [List.eq_of_mem_replicate hc]
    rfl
  have hkey : ∀ key : String, Ascii (lit key) → ∀ s, Key.str (lit key) = .str s → Encodable s := by
    intro key hkey s hs
    cases hs
    exact hkey.encodable
  refine onlyProtocol_bind ?_ fun count => onlyProtocol_bind ?_ fun _ => onlyProtocol_ok ()
  · intro e he
    unfold messageChunkCount Raised.because at he
    split at he
    · cases he
      exact ⟨_, rfl⟩
    · dsimp only at he
      split at he
      · cases he
        exact ⟨_, rfl⟩
      · cases he
  · refine onlyProtocol_bind (onlyProtocol_validateJson 0 ?_) fun _ =>
      onlyProtocol_bind (onlyProtocol_refuse _ _) fun _ => onlyProtocol_ok _
    rw [items_frameControl]
    exact ⟨hkey _ (by decide), hzeros 32, hkey _ (by decide), trivial, hkey _ (by decide), trivial,
      hkey _ (by decide), trivial, hkey _ (by decide), hzeros 64, hkey _ (by decide), h, trivial⟩

end Protocol

/-! ## The fitting routine -/

/-- A descriptor whose texts can be encoded. -/
def Descriptor.Clean (d : Descriptor) : Prop := ∀ f text, d f = some text → Encodable text

theorem Descriptor.Clean.set {d : Descriptor} (h : d.Clean) (name : DescriptorField) {text : Str}
    (ht : Encodable text) : (d.set name text).Clean := by
  intro f t hf
  unfold Descriptor.set at hf
  split at hf
  · cases hf
    exact ht
  · exact h f t hf

theorem encodableItems_set {items : Items} (h : EncodableItems items) {key : Str}
    (hkey : Encodable key) {v : Value} (hv : EncodableValue v) :
    EncodableItems (items.set key v) := by
  induction items with
  | nil =>
    refine ⟨?_, hv, trivial⟩
    intro s hs
    cases hs
    exact hkey
  | cons item rest ih =>
    obtain ⟨k, w⟩ := item
    unfold Items.set
    split
    · exact ⟨h.1, hv, h.2.2⟩
    · exact ⟨h.1, h.2.1, ih h.2.2⟩

/-- A text in a message that was received. -/
theorem encodable_get {items : Items} (h : EncodableItems items) {key s : Str}
    (hs : items.get key = .str s) : Encodable s := by
  unfold Items.get at hs
  induction items with
  | nil => cases hs
  | cons item rest ih =>
    obtain ⟨k, v⟩ := item
    obtain ⟨-, hv, hrest⟩ := h
    unfold Items.get? at hs ih
    by_cases hk : k = .str key
    · subst hk
      simp at hs
      subst hs
      exact hv
    · simp [hk] at hs
      exact ih hrest (by simpa using hs)

theorem encodable_terminalControl {requestId : Str} (hid : Encodable requestId) {d : Descriptor}
    (hd : d.Clean) : EncodableItems (terminalControl requestId d).items := by
  have hfields : ∀ field ∈ d.fields, Encodable field.1 ∧ Encodable field.2 := by
    intro field hfield
    obtain ⟨f, -, hf⟩ := List.mem_filterMap.mp hfield
    obtain ⟨text, htext, rfl⟩ := Option.map_eq_some_iff.mp hf
    have hkey : Encodable f.key := by cases f <;> decide
    exact ⟨hkey, hd f text htext⟩
  have hrequest : EncodableItems (requestControl requestId).items := by
    refine ⟨?_, hid, trivial⟩
    intro s hs
    cases hs
    decide
  unfold terminalControl controlOf
  generalize requestControl requestId = control at hrequest ⊢
  generalize d.fields = fields at hfields ⊢
  induction fields generalizing control with
  | nil => exact hrequest
  | cons field fields ih =>
    obtain ⟨hkey, htext⟩ := hfields field List.mem_cons_self
    have hvalue : EncodableValue (.str field.2) := htext
    exact ih _ (encodableItems_set hrequest hkey hvalue)
      fun f hf => hfields f (List.mem_cons_of_mem _ hf)

section Fitting

variable {limits : RemoteLimits} {requestId : Str} {size : Nat}

/-- The test of the fitting routine is `validate_message_control`. -/
theorem terminalDescriptorFits_ok (limits : RemoteLimits) (size : Nat) (hid : Encodable requestId) {d : Descriptor} (hd : d.Clean) :
    ∃ b, terminalDescriptorFits limits requestId size d = .ok b ∧
      (b = true ↔ validateMessageControl (terminalControl requestId d) size limits = .ok ()) := by
  have honly : OnlyProtocol (validateMessageControl (terminalControl requestId d) size limits) :=
    onlyProtocol_validateMessageControl (encodable_terminalControl hid hd)
  unfold terminalDescriptorFits
  cases hv : validateMessageControl (terminalControl requestId d) size limits with
  | ok u => exact ⟨true, rfl, by simp⟩
  | error e =>
    obtain ⟨message, rfl⟩ := honly e hv
    exact ⟨false, rfl, by simp⟩

/-- The search returns a text that fits, if it starts with one. -/
theorem longestFit_ok {fits : Str → Except Raised Bool} {original : Str}
    (htotal : ∀ candidate : Str, Encodable candidate → ∃ b, fits candidate = .ok b) (low stop : Nat)
    {best : Str} (hbest : fits best = .ok true) (henc : Encodable best) :
    ∃ text, longestFit fits original low stop best = .ok text ∧ fits text = .ok true ∧
      Encodable text := by
  fun_induction longestFit fits original low stop best with
  | case1 low stop best hlt middle candidate e he =>
    obtain ⟨b, hb⟩ := htotal candidate (encodable_truncateUtf8 _ _)
    rw [hb] at he
    cases he
  | case2 low stop best hlt middle candidate hfits ih =>
    exact ih hfits (encodable_truncateUtf8 _ _)
  | case3 low stop best hlt middle candidate hfits ih => exact ih hbest henc
  | case4 low stop best hlt => exact ⟨best, rfl, hbest, henc⟩

/-- Giving up fields ends with a descriptor that fits, or with none. -/
theorem shrinkDescriptor_ok {fits : Descriptor → Except Raised Bool}
    (htotal : ∀ d : Descriptor, d.Clean → ∃ b, fits d = .ok b) (fields : List DescriptorField)
    {bounded : Descriptor} (hb : bounded.Clean) :
    ∃ d, shrinkDescriptor fits fields bounded = .ok d ∧ (d = .empty ∨ d.Clean ∧ fits d = .ok true) := by
  induction fields generalizing bounded with
  | nil => exact ⟨.empty, rfl, .inl rfl⟩
  | cons name rest ih =>
    have hnil : Encodable ([] : Str) := by
      intro c hc
      cases hc
    have hblank : (bounded.set name []).Clean := hb.set name hnil
    unfold shrinkDescriptor
    cases hname : bounded name with
    | none => exact ih hb
    | some original =>
      obtain ⟨b, hfits⟩ := htotal _ hblank
      simp only [hfits]
      cases b with
      | false => exact ih hblank
      | true =>
        have hsearch : ∃ text, longestFit (fun candidate => fits (bounded.set name candidate)) original
            0 ((original.flatMap utf8Char).length + 1) [] = .ok text ∧
            fits (bounded.set name text) = .ok true ∧ Encodable text :=
          longestFit_ok (fun candidate hc => htotal _ (hb.set name hc)) 0 _ hfits hnil
        obtain ⟨text, hsearch, htext, henc⟩ := hsearch
        refine ⟨bounded.set name text, ?_, .inr ⟨hb.set name henc, htext⟩⟩
        simp only [bind, Except.bind, if_true, hsearch]

/-- For an encodable request ID the fitting routine returns a descriptor that fits, or an empty one. -/
theorem fitTerminalDescriptor_ok (hid : Encodable requestId) (descriptor : Descriptor) :
    ∃ d, fitTerminalDescriptor limits requestId descriptor size = .ok d ∧
      (d = .empty ∨ validateMessageControl (terminalControl requestId d) size limits = .ok ()) := by
  obtain ⟨bounded, hbounded⟩ : ∃ bounded : Descriptor, bounded = fun f =>
    (descriptor f).map (truncateUtf8 · limits.maxMetadataBytes) := ⟨_, rfl⟩
  have hclean : bounded.Clean := by
    intro f text hf
    rw [hbounded] at hf
    obtain ⟨t, -, rfl⟩ := Option.map_eq_some_iff.mp hf
    exact encodable_truncateUtf8 _ _
  have htotal : ∀ d : Descriptor, d.Clean →
      ∃ b, terminalDescriptorFits limits requestId size d = .ok b := by
    intro d hd
    obtain ⟨b, hb, -⟩ := terminalDescriptorFits_ok limits size hid hd
    exact ⟨b, hb⟩
  obtain ⟨b, hfits, hvalid⟩ := terminalDescriptorFits_ok limits size hid hclean
  unfold fitTerminalDescriptor
  simp only [← hbounded, hfits]
  cases b with
  | true => exact ⟨bounded, rfl, .inr (hvalid.mp rfl)⟩
  | false =>
    obtain ⟨d, hshrink, hd⟩ := shrinkDescriptor_ok htotal DescriptorField.removal hclean
    refine ⟨d, hshrink, ?_⟩
    rcases hd with rfl | ⟨hd, hdfits⟩
    · exact .inl rfl
    · obtain ⟨b, hb, hiff⟩ := terminalDescriptorFits_ok limits size hid hd
      rw [hb] at hdfits
      cases hdfits
      exact .inr (hiff.mp rfl)

/-- **The descriptor fits.**  Whatever texts a worker sends, the fitting routine returns a descriptor
with which the first frame is valid, if the frame with the bare request ID is. -/
theorem fitTerminalDescriptor_fits (hl : limits.Accepted)
    (hreq : validateMessageControl (requestControl requestId) size limits = .ok ())
    (descriptor : Descriptor) :
    ∃ d, fitTerminalDescriptor limits requestId descriptor size = .ok d ∧
      validateMessageControl (terminalControl requestId d) size limits = .ok () := by
  have hid : Encodable requestId := by
    obtain ⟨-, -, hb, -⟩ := (validateMessageControl_ok hl).mp hreq
    exact hb.2.2.1.1
  obtain ⟨d, hfit, hd⟩ := fitTerminalDescriptor_ok hid descriptor
  refine ⟨d, hfit, ?_⟩
  rcases hd with rfl | hvalid
  · exact hreq
  · exact hvalid

/-- Every outcome of a request gives a terminal state and a terminal message. -/
theorem Outcome.terminal_ok (limits : RemoteLimits) (hid : Encodable requestId) (outcome : Outcome) :
    ∃ t, outcome.terminal limits requestId = .ok t ∧ t.state = outcome.state ∧
      t.kind = outcome.kind ∧ t.payload = outcome.payload := by
  have hdescriptor : ∃ d, outcome.descriptor limits requestId = .ok d := by
    cases outcome with
    | worker kind payload descriptor =>
      obtain ⟨d, hd, -⟩ := fitTerminalDescriptor_ok hid descriptor
      exact ⟨d, hd⟩
    | timeout text => exact ⟨_, rfl⟩
    | lost text => exact ⟨_, rfl⟩
    | raised text => exact ⟨_, rfl⟩
    | invalid => exact ⟨_, rfl⟩
  obtain ⟨d, hd⟩ := hdescriptor
  refine ⟨⟨outcome.state, outcome.kind, d.fields, outcome.payload⟩, ?_, rfl, rfl, rfl⟩
  unfold Outcome.terminal
  rw [hd]
  rfl

theorem Outcome.ends (outcome : Outcome) :
    outcome.state.terminal = true ∧ outcome.kind.terminal = true := by
  cases outcome with
  | worker kind => cases kind <;> exact ⟨rfl, rfl⟩
  | timeout => exact ⟨rfl, rfl⟩
  | lost => exact ⟨rfl, rfl⟩
  | raised => exact ⟨rfl, rfl⟩
  | invalid => exact ⟨rfl, rfl⟩

end Fitting

/-! ## What the writer can encode -/

/-- The condition on an outcome under which the writer can encode its terminal message, given that a
frame with the bare request ID is valid. -/
def Outcome.Fits (limits : RemoteLimits) (requestId : Str) : Outcome → Prop
  | .worker _ payload descriptor =>
    min limits.maxFramePayloadBytes payload.length < 2 ^ 32 ∧
      (1 < chunkCount limits payload.length → digits (chunkCount limits payload.length - 1)
        + digits (chunkCount limits payload.length) + digits payload.length + 167 ≤
          min limits.maxControlBytes (2 ^ 32 - 1)) ∧
      (limits.maxControlBytes < 2 ^ 32 ∨
        ∀ d, fitTerminalDescriptor limits requestId descriptor payload.length = .ok d →
          (dumps (.dict (terminalControl requestId d).items)).length
            + digits (chunkCount limits payload.length) + digits payload.length + 164 < 2 ^ 32)
  | .timeout text | .lost text | .raised text => TextFits text
  | .invalid => TextFits (lit "invalid worker outcome")
where
  /-- The text is valid and leaves room for the envelope. -/
  TextFits (text : Str) : Prop :=
    BoundedStr limits text ∧
      (quote requestId).length + (quote text).length + 192 ≤ min limits.maxControlBytes (2 ^ 32 - 1)

section Terminal

variable {sha256 : Bytes → Hex 64} {limits : RemoteLimits} {requestId : Str} {messageId : Hex 32}

theorem encodes_worker (hl : limits.Accepted) {kind : WorkerKind} {payload : Bytes}
    {descriptor : Descriptor}
    (hreq : validateMessageControl (requestControl requestId) payload.length limits = .ok ()) :
    ∃ message, (Outcome.worker kind payload descriptor).message limits requestId = .ok message ∧
      (Encodes sha256 limits message messageId ↔
        (Outcome.worker kind payload descriptor).Fits limits requestId) := by
  obtain ⟨d, hfit, hvalid⟩ := fitTerminalDescriptor_fits hl hreq descriptor
  refine ⟨⟨(Outcome.worker kind payload descriptor).kind, terminalControl requestId d, payload⟩, ?_, ?_⟩
  · simp only [Outcome.message, Outcome.terminal, Outcome.descriptor, hfit]
    rfl
  · rw [encodes_iff_validated sha256 hl]
    obtain ⟨-, -, -, -, -, hlen⟩ := (validateMessageControl_ok hl).mp hvalid
    simp only [hvalid, true_and, Outcome.Fits]
    constructor
    · rintro ⟨hcontrol, hchunk, hlater⟩
      refine ⟨hchunk, hlater, .inr fun d' hd' => ?_⟩
      rw [hfit] at hd'
      cases hd'
      exact hcontrol
    · rintro ⟨hchunk, hlater, hcontrol⟩
      refine ⟨?_, hchunk, hlater⟩
      rcases hcontrol with hsmall | hcontrol
      · exact Nat.lt_of_le_of_lt hlen hsmall
      · exact hcontrol d hfit

theorem encodes_text (hl : limits.Accepted) {kind : MessageType} {text : Str}
    (hreq : validateMessageControl (requestControl requestId) 0 limits = .ok ()) :
    Encodes sha256 limits
        ⟨kind, terminalControl requestId (Descriptor.empty.set .message text), []⟩ messageId ↔
      Outcome.Fits.TextFits limits requestId text := by
  have hitems : (terminalControl requestId (Descriptor.empty.set .message text)).items =
      [(.str (lit "request_id"), .str requestId), (.str (lit "message"), .str text)] := rfl
  have htext : dumps (.dict (terminalControl requestId (Descriptor.empty.set .message text)).items) =
      lit "\x7b\"message\":" ++ (quote text ++ (lit ",\"request_id\":" ++ (quote requestId ++
        lit "\x7d"))) := rfl
  have h₁ : (lit "\x7b\"message\":").length = 11 := rfl
  have h₂ : (lit ",\"request_id\":").length = 14 := rfl
  have h₃ : (lit "\x7d").length = 1 := rfl
  have hkeys : (lit "request_id").length = 10 ∧ (lit "message").length = 7 := ⟨rfl, rfl⟩
  obtain ⟨-, -, hb, -, hd, -⟩ := (validateMessageControl_ok hl).mp hreq
  have hid : BoundedStr limits requestId := hb.2.2.1
  rw [encodes_control hl, htext, hitems, Bounded, boundedItems_cons (by decide),
    boundedItems_cons (by decide)]
  simp only [Bounded, hid, BoundedItems, heightItems, height, List.length_cons, List.length_nil,
    List.length_append, h₁, h₂, h₃, maxJsonDepth, Outcome.Fits.TextFits]
  by_cases ht : BoundedStr limits text
  · simp only [ht, true_and, and_true]
    omega
  · simp only [ht, false_and, and_false]

/-- **What the writer can encode.**  When a frame with the bare request ID is valid for the payload,
every outcome gives a terminal message.  The writer can encode it exactly when the outcome fits: a
`WorkerOutcome` up to lengths that need more than 32 bits, any other outcome only if its text is
encodable, within the metadata limit and short enough for the frame. -/
theorem terminal_encodes_iff (hl : limits.Accepted) (outcome : Outcome)
    (hreq : validateMessageControl (requestControl requestId) outcome.payload.length limits = .ok ())
    (messageId : Hex 32) :
    ∃ message, outcome.message limits requestId = .ok message ∧
      (Encodes sha256 limits message messageId ↔ outcome.Fits limits requestId) := by
  cases outcome with
  | worker kind payload descriptor => exact encodes_worker hl hreq
  | timeout text => exact ⟨_, rfl, encodes_text hl hreq⟩
  | lost text => exact ⟨_, rfl, encodes_text hl hreq⟩
  | raised text => exact ⟨_, rfl, encodes_text hl hreq⟩
  | invalid => exact ⟨_, rfl, encodes_text hl hreq⟩

end Terminal

/-- A task error of three octets with a lone surrogate in its message. -/
def sampleOutcome : Outcome :=
  .worker .taskError [1, 2, 3] (Descriptor.empty.set .message (0xD800 :: lit " went wrong"))

theorem terminal_encodes_iff_sampleOutcome :
    RemoteLimits.Accepted {} ∧
      validateMessageControl (requestControl (lit "a:1")) 3 {} = .ok () ∧
      ∃ message, sampleOutcome.message {} (lit "a:1") = .ok message ∧
        (Encodes sampleDigest {} message (Hex.zeros 32) ↔ sampleOutcome.Fits {} (lit "a:1")) :=
  have haccepted : RemoteLimits.Accepted {} := by decide +kernel
  have hreq : validateMessageControl (requestControl (lit "a:1")) 3 {} = .ok () := by decide +kernel
  ⟨haccepted, hreq, terminal_encodes_iff haccepted sampleOutcome hreq (Hex.zeros 32)⟩

/-- The terminal message of an exception with the given text. -/
def lostMessage (text : Str) : Message :=
  ⟨.workerLost, terminalControl (lit "a:1") (Descriptor.empty.set .message text), []⟩

/-- The bare request ID fits, but the text of a `ProcessError` with a lone surrogate, or one of 16385
characters, breaks the writer. -/
theorem error_text_breaks_writer :
    validateMessageControl (requestControl (lit "a:1")) 0 {} = .ok () ∧
      (Outcome.lost [0xD800]).message {} (lit "a:1") = .ok (lostMessage [0xD800]) ∧
      (sendMessage sampleDigest ⟨[], []⟩ (lostMessage [0xD800]) (Hex.zeros 32) {}).2 =
        .error .unicodeEncode ∧
      (Outcome.lost (List.replicate 16385 0x78)).message {} (lit "a:1") =
        .ok (lostMessage (List.replicate 16385 0x78)) ∧
      ¬ Encodes sampleDigest {} (lostMessage (List.replicate 16385 0x78)) (Hex.zeros 32) := by
  have hreq : validateMessageControl (requestControl (lit "a:1")) 0 {} = .ok () := by decide +kernel
  have hascii : Ascii (List.replicate 16385 0x78) := by
    intro c hc
    rw [List.eq_of_mem_replicate hc]
    decide
  refine ⟨hreq, rfl, by decide +kernel, rfl, ?_⟩
  rw [lostMessage, encodes_text (by decide +kernel) hreq]
  intro hfits
  have hlen := (boundedStr_ascii hascii).mp hfits.1
  rw [List.length_replicate] at hlen
  exact absurd hlen (by decide)

end Deadpool.Remote
