import Deadpool.Py.JsonRoundTrip
import Deadpool.Remote.Config

/-!
# The wire protocol

`deadpool/remote/_protocol.py`: control validation, frame encoding, `send_message`, and
`MessageReader`.

The two ends of a socket are modelled by what they move and by a list of events that says how the
operating system cuts the transfer up: how many octets one `send` or `recv` takes, spurious TLS
wake-ups, expired deadlines.  When the events run out the rest is moved at once.

SHA-256 is any function to 64 hexadecimal digits, and a message ID any 32 of them.
-/

set_option autoImplicit false

namespace Deadpool.Remote

open Deadpool.Py

/-- What the protocol layer raises. -/
inductive Raised where
  /-- `RemoteProtocolError` -/
  | protocol (message : Str)
  /-- `UnicodeEncodeError` -/
  | unicodeEncode
  /-- `struct.error` -/
  | struct
  /-- `TimeoutError` -/
  | timeout (message : Str)
  /-- `EOFError` -/
  | eof (message : Str)
  deriving DecidableEq

/-- `raise RemoteProtocolError(message)` -/
def Raised.because {α : Type} (message : String) : Except Raised α := .error (.protocol (lit message))

/-- `if p: raise RemoteProtocolError(message)` -/
def refuse (p : Prop) [Decidable p] (message : String) : Except Raised Unit :=
  if p then Raised.because message else .ok ()

/-- Hexadecimal text of a fixed length. -/
structure Hex (n : Nat) where
  text : Str
  length : text.length = n
  hex : ∀ c ∈ text, (hexValue c).isSome

/-- `"0" * n` -/
def Hex.zeros (n : Nat) : Hex n where
  text := List.replicate n 0x30
  length := List.length_replicate
  hex := fun c hc => by rw [List.eq_of_mem_replicate hc]; rfl

inductive MessageType where
  | hello | welcome | handshakeRejected | ping | pong | goaway | protocolError
  | submit | accepted | rejected | running
  | result | taskError | timedOut | cancelled | workerLost | resultEncodingFailed | resultTooLarge
  | resultAck | queueTimedOut
  | cancelRequest | cancelResponse | statusRequest | statusResponse | statsRequest | statsResponse
  | cancelGroup | cancelGroupResponse | closeSession | closeSessionResponse
  deriving DecidableEq, Repr

def MessageType.code : MessageType → Nat
  | .hello => 1 | .welcome => 2 | .handshakeRejected => 3 | .ping => 4 | .pong => 5 | .goaway => 6
  | .protocolError => 7 | .submit => 10 | .accepted => 11 | .rejected => 12 | .running => 13
  | .result => 20 | .taskError => 21 | .timedOut => 22 | .cancelled => 23 | .workerLost => 24
  | .resultEncodingFailed => 25 | .resultTooLarge => 26 | .resultAck => 27 | .queueTimedOut => 28
  | .cancelRequest => 30 | .cancelResponse => 31 | .statusRequest => 32 | .statusResponse => 33
  | .statsRequest => 34 | .statsResponse => 35 | .cancelGroup => 36 | .cancelGroupResponse => 37
  | .closeSession => 38 | .closeSessionResponse => 39

/-- `kind.name` -/
def MessageType.name : MessageType → String
  | .hello => "HELLO" | .welcome => "WELCOME" | .handshakeRejected => "HANDSHAKE_REJECTED"
  | .ping => "PING" | .pong => "PONG" | .goaway => "GOAWAY" | .protocolError => "PROTOCOL_ERROR"
  | .submit => "SUBMIT" | .accepted => "ACCEPTED" | .rejected => "REJECTED" | .running => "RUNNING"
  | .result => "RESULT" | .taskError => "TASK_ERROR" | .timedOut => "TIMED_OUT"
  | .cancelled => "CANCELLED" | .workerLost => "WORKER_LOST"
  | .resultEncodingFailed => "RESULT_ENCODING_FAILED" | .resultTooLarge => "RESULT_TOO_LARGE"
  | .resultAck => "RESULT_ACK" | .queueTimedOut => "QUEUE_TIMED_OUT"
  | .cancelRequest => "CANCEL_REQUEST" | .cancelResponse => "CANCEL_RESPONSE"
  | .statusRequest => "STATUS_REQUEST" | .statusResponse => "STATUS_RESPONSE"
  | .statsRequest => "STATS_REQUEST" | .statsResponse => "STATS_RESPONSE"
  | .cancelGroup => "CANCEL_GROUP" | .cancelGroupResponse => "CANCEL_GROUP_RESPONSE"
  | .closeSession => "CLOSE_SESSION" | .closeSessionResponse => "CLOSE_SESSION_RESPONSE"

def MessageType.all : List MessageType :=
  [.hello, .welcome, .handshakeRejected, .ping, .pong, .goaway, .protocolError, .submit, .accepted,
   .rejected, .running, .result, .taskError, .timedOut, .cancelled, .workerLost,
   .resultEncodingFailed, .resultTooLarge, .resultAck, .queueTimedOut, .cancelRequest,
   .cancelResponse, .statusRequest, .statusResponse, .statsRequest, .statsResponse, .cancelGroup,
   .cancelGroupResponse, .closeSession, .closeSessionResponse]

/-- `MessageType(raw_kind)`; `none` is `ValueError`. -/
def MessageType.ofCode (n : Nat) : Option MessageType := MessageType.all.find? fun k => k.code = n

/-- Kinds of messages that report the end of a request. -/
def MessageType.terminal : MessageType → Bool
  | .result | .taskError | .timedOut | .cancelled | .workerLost | .resultEncodingFailed
  | .resultTooLarge | .queueTimedOut => true
  | _ => false

/-- Kinds of messages that report the state of a request. -/
def MessageType.reports : MessageType → Bool
  | .accepted | .running => true
  | kind => kind.terminal

structure Message where
  kind : MessageType
  control : Dict
  payload : Bytes := []

/-- `_wire_limits` -/
def wireLimits (limits : RemoteLimits) : Dict :=
  Dict.empty
    |>.set (lit "max_control_bytes") (.int limits.maxControlBytes)
    |>.set (lit "max_frame_payload_bytes") (.int limits.maxFramePayloadBytes)
    |>.set (lit "max_message_bytes") (.int limits.maxMessageBytes)
    |>.set (lit "max_metadata_bytes") (.int limits.maxMetadataBytes)
    |>.set (lit "max_chunks") (.int limits.maxChunks)

/-! ## Control validation -/

/-- `_MAX_JSON_DEPTH` -/
def maxJsonDepth : Nat := 12

structure Nesting where
  depth : Int := 0
  inString : Bool := false
  escaped : Bool := false
  deriving DecidableEq

/-- One character of `_validate_json_nesting`; `none` is the `RemoteProtocolError`. -/
def Nesting.step (n : Nesting) (c : CodePoint) : Option Nesting :=
  if n.inString then
    if n.escaped then some { n with escaped := false }
    else if c.val = 0x5C then some { n with escaped := true }
    else if c.val = 0x22 then some { n with inString := false }
    else some n
  else if c.val = 0x22 then some { n with inString := true }
  else if c.val = 0x5B ∨ c.val = 0x7B then
    -- lexical depth includes the root container
    if n.depth + 1 > (maxJsonDepth + 1 : Nat) then none else some { n with depth := n.depth + 1 }
  else if c.val = 0x5D ∨ c.val = 0x7D then some { n with depth := n.depth - 1 }
  else some n

def Nesting.run (n : Nesting) : Str → Option Nesting
  | [] => some n
  | c :: rest => (n.step c).bind fun n' => n'.run rest

/-- `_validate_json_nesting` -/
def validateJsonNesting (text : Str) : Except Raised Unit :=
  if (Nesting.run {} text).isSome then .ok ()
  else Raised.because "control JSON is too deeply nested"

def checkDepth (depth : Nat) : Except Raised Unit :=
  refuse (depth > maxJsonDepth) "control JSON is too deeply nested"

def validateStr (limits : RemoteLimits) (s : Str) : Except Raised Unit :=
  match encodeUtf8 s with
  | none => .error .unicodeEncode
  | some data =>
    refuse (data.length > limits.maxMetadataBytes) "control string exceeds metadata limit"

mutual

/-- `_validate_json` -/
def validateJson (limits : RemoteLimits) : Value → Nat → Except Raised Unit
  | .str s, depth => do
    checkDepth depth
    validateStr limits s
  | .none, depth | .bool _, depth => checkDepth depth
  | .int n, depth => do
    checkDepth depth
    refuse (¬ (-(2 ^ 63) ≤ n ∧ n < 2 ^ 63)) "control integer exceeds signed 64-bit range"
  | .float x, depth => do
    checkDepth depth
    refuse (¬ x.isFinite) "control number must be finite"
  | .list xs, depth => do
    checkDepth depth
    refuse (xs.length > 1024) "control list is too large"
    validateList limits xs (depth + 1)
  | .dict items, depth => do
    checkDepth depth
    refuse (items.length > 128) "control object has too many keys"
    validateItems limits items (depth + 1)
  | .other typeName, depth => do
    checkDepth depth
    .error (.protocol (lit "unsupported control value " ++ typeName))

def validateList (limits : RemoteLimits) : List Value → Nat → Except Raised Unit
  | [], _ => .ok ()
  | x :: xs, depth => do
    validateJson limits x depth
    validateList limits xs depth

def validateItems (limits : RemoteLimits) : Items → Nat → Except Raised Unit
  | [], _ => .ok ()
  | (.other _, _) :: _, _ => Raised.because "control object keys must be strings"
  | (.str key, v) :: rest, depth => do
    checkDepth depth
    validateStr limits key
    validateJson limits v depth
    validateItems limits rest depth

end

/-- `_json_dumps` -/
def jsonDumps (value : Dict) (limits : RemoteLimits) : Except Raised Bytes := do
  validateJson limits (.dict value.items) 0
  let payload := encodeAscii (dumps (.dict value.items))
  refuse (payload.length > limits.maxControlBytes) "control header exceeds configured limit"
  .ok payload

def asDict : Obj → Except Raised Dict
  | ⟨.dict items, unique⟩ => .ok ⟨items, unique⟩
  | _ => Raised.because "control header must be a JSON object"

/-- `_json_loads`.  The text of the decoder's own error follows the message in the source. -/
def jsonLoads (data : Bytes) (limits : RemoteLimits) : Except Raised Dict :=
  match decodeUtf8 data with
  | none => Raised.because "invalid control JSON"
  | some text =>
    match validateJsonNesting text with
    | .error e => .error e
    | .ok () =>
      match h : loads text with
      | none => Raised.because "invalid control JSON"
      | some value =>
        match validateJson limits value 0 with
        | .error e => .error e
        | .ok () => asDict ⟨value, loads_unique h⟩

/-- `validate_control` -/
def validateControl (control : Dict) (limits : RemoteLimits) : Except Raised Unit := do
  let _ ← jsonDumps control limits
  .ok ()

/-! ## Frames -/

/-- `_message_chunk_count` -/
def messageChunkCount (payloadSize : Nat) (limits : RemoteLimits) : Except Raised Nat :=
  if payloadSize > limits.maxMessageBytes then
    Raised.because "message payload exceeds configured limit"
  else
    let count := max 1 ((payloadSize + limits.maxFramePayloadBytes - 1) / limits.maxFramePayloadBytes)
    if count > limits.maxChunks then Raised.because "message requires too many chunks"
    else .ok count

/-- The control object of one frame. -/
def frameControl (messageId : Str) (index count total : Nat) (digest : Str) (control : Obj) : Dict :=
  Dict.empty
    |>.set (lit "message_id") (.str messageId)
    |>.set (lit "index") (.int index)
    |>.set (lit "count") (.int count)
    |>.set (lit "total") (.int total)
    |>.set (lit "digest") (.str digest)
    |>.set (lit "control") control

/-- `_encode_frame_control` -/
def encodeFrameControl (messageId : Str) (index count total : Nat) (digest : Str) (control : Obj)
    (limits : RemoteLimits) : Except Raised Bytes :=
  jsonDumps (frameControl messageId index count total digest control) limits

/-- `validate_message_control` -/
def validateMessageControl (control : Dict) (payloadSize : Nat) (limits : RemoteLimits) :
    Except Raised Unit := do
  let count ← messageChunkCount payloadSize limits
  let _ ← encodeFrameControl (Hex.zeros 32).text 0 count payloadSize (Hex.zeros 64).text control.obj
    limits
  .ok ()

/-- A 32-bit length in network order. -/
def packLength (n : Nat) : Bytes :=
  [.ofNat (n / 2 ^ 24), .ofNat (n / 2 ^ 16 % 256), .ofNat (n / 2 ^ 8 % 256), .ofNat (n % 256)]

/-- `MAGIC` -/
def magic : Bytes := [0x44, 0x50, 0x52, 0x31]

/-- `_PREFIX.pack`; a length that needs more than 32 bits is a `struct.error`. -/
def packHeader (kind : MessageType) (flags controlLen payloadLen : Nat) : Except Raised Bytes :=
  if 2 ^ 32 ≤ controlLen ∨ 2 ^ 32 ≤ payloadLen then .error .struct
  else .ok (magic ++ [1, 0, .ofNat kind.code, .ofNat flags] ++ packLength controlLen
    ++ packLength payloadLen)

structure Frame where
  header : Bytes
  control : Bytes
  chunk : Bytes

def Frame.bytes (f : Frame) : Bytes := f.header ++ f.control ++ f.chunk

/-- Frame `index` of a message, before anything of it is written. -/
def encodeFrame (limits : RemoteLimits) (message : Message) (messageId : Hex 32) (digest : Hex 64)
    (count index : Nat) : Except Raised Frame := do
  let frameSize := limits.maxFramePayloadBytes
  let chunk := (message.payload.drop (index * frameSize)).take frameSize
  let control ← encodeFrameControl messageId.text index count message.payload.length digest.text
    (if index = 0 then message.control.obj else .none) limits
  let header ← packHeader message.kind (if count > 1 then 1 else 0) control.length chunk.length
  .ok ⟨header, control, chunk⟩

/-! ## Sending -/

/-- What happens at one turn of the write loop. -/
inductive SendEvent where
  /-- `send` takes at most `n` octets, and at least one -/
  | takes (n : Nat)
  | wantRead
  | wantWrite
  | expired
  | closed
  deriving DecidableEq, Repr

structure Outgoing where
  written : Bytes
  events : List SendEvent

/-- The loop of `_send_exact` on the octets not yet sent. -/
def sendLoop (written : Bytes) : Bytes → List SendEvent → Outgoing × Except Raised Unit
  | [], events => (⟨written, events⟩, .ok ())
  | data, [] => (⟨written ++ data, []⟩, .ok ())
  | data, .takes n :: events =>
    sendLoop (written ++ data.take (max 1 n)) (data.drop (max 1 n)) events
  | data, .wantRead :: events | data, .wantWrite :: events => sendLoop written data events
  | _ :: _, .expired :: events =>
    (⟨written, events⟩, .error (.timeout (lit "remote frame write timed out")))
  | _ :: _, .closed :: events =>
    (⟨written, events⟩, .error (.eof (lit "connection closed during frame write")))

/-- `_send_exact` -/
def sendExact (sock : Outgoing) (data : Bytes) : Outgoing × Except Raised Unit :=
  sendLoop sock.written data sock.events

/-- `_send_exact` of each part in turn. -/
def sendParts : Outgoing → List Bytes → Outgoing × Except Raised Unit
  | sock, [] => (sock, .ok ())
  | sock, part :: parts =>
    match sendExact sock part with
    | (sock, .ok ()) => sendParts sock parts
    | (sock, .error e) => (sock, .error e)

def Frame.parts (f : Frame) : List Bytes :=
  [f.header, f.control] ++ if f.chunk = [] then [] else [f.chunk]

/-- The frames of a message from `index` on. -/
def sendFrames (limits : RemoteLimits) (message : Message) (messageId : Hex 32) (digest : Hex 64)
    (count : Nat) : Outgoing → List Nat → Outgoing × Except Raised Unit
  | sock, [] => (sock, .ok ())
  | sock, index :: rest =>
    match encodeFrame limits message messageId digest count index with
    | .error e => (sock, .error e)
    | .ok frame =>
      match sendParts sock frame.parts with
      | (sock, .ok ()) => sendFrames limits message messageId digest count sock rest
      | (sock, .error e) => (sock, .error e)

section Sha

variable (sha256 : Bytes → Hex 64)

/-- `send_message`, with the message ID that `uuid4` gives. -/
def sendMessage (sock : Outgoing) (message : Message) (messageId : Hex 32) (limits : RemoteLimits) :
    Outgoing × Except Raised Unit :=
  match messageChunkCount message.payload.length limits with
  | .error e => (sock, .error e)
  | .ok count =>
    sendFrames limits message messageId (sha256 message.payload) count sock (List.range count)

/-! ## Receiving -/

inductive RecvEvent where
  /-- `recv` gives at most `n` octets, and at least one -/
  | gives (n : Nat)
  | expired
  deriving DecidableEq, Repr

structure Incoming where
  unread : Bytes
  events : List RecvEvent

/-- The loop of `_recv_exact`: `size` octets are still missing.  Without a first octet an idle
reader has no deadline.  When nothing more arrives the peer has closed. -/
def recvLoop (allowIdle : Bool) (got : Bytes) :
    Nat → Bytes → List RecvEvent → Incoming × Except Raised Bytes
  | 0, unread, events => (⟨unread, events⟩, .ok got)
  | size + 1, unread, [] =>
    if unread.length < size + 1 then
      (⟨[], []⟩, .error (.eof (lit "connection closed during frame")))
    else (⟨unread.drop (size + 1), []⟩, .ok (got ++ unread.take (size + 1)))
  | size + 1, unread, .gives n :: events =>
    let piece := unread.take (min (max 1 n) (size + 1))
    if piece = [] then (⟨[], events⟩, .error (.eof (lit "connection closed during frame")))
    else recvLoop allowIdle (got ++ piece) (size + 1 - piece.length) (unread.drop piece.length) events
  | size + 1, unread, .expired :: events =>
    if allowIdle ∧ got = [] then recvLoop allowIdle got (size + 1) unread events
    else (⟨unread, events⟩, .error (.timeout (lit "partial remote frame timed out")))

/-- `_recv_exact` -/
def recvExact (sock : Incoming) (size : Nat) (allowIdle : Bool) : Incoming × Except Raised Bytes :=
  recvLoop allowIdle [] size sock.unread sock.events

structure Chunks where
  kind : MessageType
  control : Dict
  count : Int
  total : Int
  digest : Str
  nextIndex : Int
  parts : List Bytes
  received : Nat

/-- One more part of a message. -/
def Chunks.add (state : Chunks) (payload : Bytes) : Chunks :=
  { state with
    parts := state.parts ++ [payload]
    received := state.received + payload.length
    nextIndex := state.nextIndex + 1 }

structure MessageReader where
  limits : RemoteLimits
  messages : List (Str × Chunks)
  incompleteBytes : Int

/-- A fresh reader. -/
def MessageReader.new (limits : RemoteLimits) : MessageReader := ⟨limits, [], 0⟩

def MessageReader.setChunks (r : MessageReader) (messageId : Str) (state : Chunks) : MessageReader :=
  { r with messages := r.messages.map fun e => if e.1 = messageId then (messageId, state) else e }

def MessageReader.remove (r : MessageReader) (messageId : Str) : MessageReader :=
  { r with messages := r.messages.filter fun e => e.1 ≠ messageId }

/-- The end of `_accept`: one more chunk of a known message. -/
def MessageReader.append (r : MessageReader) (messageId : Str) (state : Chunks) (index : Int)
    (payload : Bytes) : MessageReader × Except Raised (Option Message) :=
  if index ≠ state.nextIndex then (r, Raised.because "duplicate or out-of-order chunk")
  else if r.incompleteBytes + payload.length > r.limits.maxMessageBytes then
    (r, Raised.because "aggregate incomplete payload is too large")
  else
    let state := state.add payload
    let r := { r.setChunks messageId state with
      incompleteBytes := r.incompleteBytes + payload.length }
    if (state.received : Int) > state.total then
      (r, Raised.because "chunk sequence exceeds declared total")
    else if index + 1 ≠ state.count then (r, .ok none)
    else
      let r := { r.remove messageId with incompleteBytes := r.incompleteBytes - state.received }
      if (state.received : Int) ≠ state.total then
        (r, Raised.because "chunk sequence length does not match declared total")
      else if (sha256 state.parts.flatten).text ≠ state.digest then
        (r, Raised.because "message payload digest mismatch")
      else (r, .ok (some ⟨state.kind, state.control, state.parts.flatten⟩))

/-- The middle of `_accept`: find or start the message of the chunk. -/
def MessageReader.place (r : MessageReader) (kind : MessageType) (messageId : Str)
    (index count total : Int) (digest : Str) (control : Obj) (payload : Bytes) :
    MessageReader × Except Raised (Option Message) :=
  match r.messages.lookup messageId with
  | none =>
    match control with
    | ⟨.dict items, unique⟩ =>
      if index ≠ 0 then (r, Raised.because "chunk sequence must start at index zero")
      else if r.messages.length ≥ r.limits.maxIncompleteMessages then
        (r, Raised.because "too many incomplete messages")
      else
        let state : Chunks := ⟨kind, ⟨items, unique⟩, count, total, digest, 0, [], 0⟩
        { r with messages := r.messages ++ [(messageId, state)] }.append sha256 messageId state index
          payload
    | _ => (r, Raised.because "chunk sequence must start at index zero")
  | some state =>
    match control with
    | ⟨.none, _⟩ =>
      if state.kind ≠ kind ∨ state.count ≠ count ∨ state.total ≠ total ∨ state.digest ≠ digest then
        (r, Raised.because "conflicting chunk metadata")
      else r.append sha256 messageId state index payload
    | _ => (r, Raised.because "conflicting chunk metadata")

def frameFields : List Str :=
  [lit "message_id", lit "index", lit "count", lit "total", lit "digest", lit "control"]

/-- `_accept` -/
def MessageReader.accept (r : MessageReader) (kind : MessageType) (header : Dict) (payload : Bytes) :
    MessageReader × Except Raised (Option Message) :=
  if ¬ (header.items.length = 6 ∧ ∀ f ∈ frameFields, (header.items.get? f).isSome) then
    (r, Raised.because "invalid chunk control fields")
  else
    match (header.get (lit "message_id")).val with
    | .str messageId =>
      if messageId.length > 64 then (r, Raised.because "invalid message ID")
      else
        match (header.get (lit "index")).val, (header.get (lit "count")).val,
          (header.get (lit "total")).val with
        | .int index, .int count, .int total =>
          if count < 1 ∨ count > r.limits.maxChunks ∨ ¬ (0 ≤ index ∧ index < count) then
            (r, Raised.because "invalid chunk index/count")
          else if total < 0 ∨ total > r.limits.maxMessageBytes then
            (r, Raised.because "declared message payload is too large")
          else
            match (header.get (lit "digest")).val with
            | .str digest =>
              if digest.length ≠ 64 then (r, Raised.because "invalid payload digest")
              else
                r.place sha256 kind messageId index count total digest (header.get (lit "control"))
                  payload
            | _ => (r, Raised.because "invalid payload digest")
        | _, _, _ => (r, Raised.because "chunk indices and lengths must be integers")
    | _ => (r, Raised.because "invalid message ID")

/-- `_PREFIX.unpack` and the checks on its fields: kind, control length, payload length. -/
def unpackHeader (limits : RemoteLimits) : Bytes → Except Raised (MessageType × Nat × Nat)
  | [m0, m1, m2, m3, major, minor, rawKind, flags, c0, c1, c2, c3, p0, p1, p2, p3] =>
    let controlLen := c0.toNat * 2 ^ 24 + c1.toNat * 2 ^ 16 + c2.toNat * 2 ^ 8 + c3.toNat
    let payloadLen := p0.toNat * 2 ^ 24 + p1.toNat * 2 ^ 16 + p2.toNat * 2 ^ 8 + p3.toNat
    if [m0, m1, m2, m3] ≠ magic then Raised.because "invalid protocol magic"
    else if major ≠ 1 ∨ minor > 0 then
      .error (.protocol (lit "unsupported protocol version " ++ natText major.toNat ++ lit "."
        ++ natText minor.toNat))
    else if flags > 1 then Raised.because "unknown mandatory frame flags"
    else if controlLen > limits.maxControlBytes then
      Raised.because "declared control header is too large"
    else if payloadLen > limits.maxFramePayloadBytes then
      Raised.because "declared frame payload is too large"
    else
      match MessageType.ofCode rawKind.toNat with
      | none => .error (.protocol (lit "unknown message type " ++ natText rawKind.toNat))
      | some kind => .ok (kind, controlLen, payloadLen)
  | _ => .error .struct

/-- One turn of the loop of `receive`: read a frame and accept it. -/
def MessageReader.receiveFrame (r : MessageReader) (sock : Incoming) :
    MessageReader × Incoming × Except Raised (Option Message) :=
  match recvExact sock 16 true with
  | (sock, .error e) => (r, sock, .error e)
  | (sock, .ok header) =>
    match unpackHeader r.limits header with
    | .error e => (r, sock, .error e)
    | .ok (kind, controlLen, payloadLen) =>
      match recvExact sock controlLen false with
      | (sock, .error e) => (r, sock, .error e)
      | (sock, .ok data) =>
        match jsonLoads data r.limits with
        | .error e => (r, sock, .error e)
        | .ok control =>
          match recvExact sock payloadLen false with
          | (sock, .error e) => (r, sock, .error e)
          | (sock, .ok payload) =>
            let (r, result) := r.accept sha256 kind control payload
            (r, sock, result)

/-- `receive`: frames until one completes a message.  Every frame takes octets off the socket, so
their number bounds the turns. -/
def MessageReader.receiveLoop : Nat → MessageReader → Incoming →
    MessageReader × Incoming × Except Raised Message
  | 0, r, sock => (r, sock, .error (.eof (lit "connection closed during frame")))
  | turns + 1, r, sock =>
    match r.receiveFrame sha256 sock with
    | (r, sock, .error e) => (r, sock, .error e)
    | (r, sock, .ok (some message)) => (r, sock, .ok message)
    | (r, sock, .ok none) => MessageReader.receiveLoop turns r sock

def MessageReader.receive (r : MessageReader) (sock : Incoming) :
    MessageReader × Incoming × Except Raised Message :=
  MessageReader.receiveLoop sha256 (sock.unread.length + 1) r sock

end Sha

end Deadpool.Remote
