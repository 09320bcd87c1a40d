import Deadpool.Remote.Control

/-!
# The reader inverts the writer

`send_message` cuts a payload into frames of at most `max_frame_payload_bytes`, and
`MessageReader.receive` puts them together again.  The reader's state between two frames of one
message is `assembling`, a function of the message and of the number of frames read.

Principal results:

* `recvExact_append`     — however the octets arrive, `_recv_exact` returns the next ones;
* `receiveFrame_encodeFrame` — a frame read is the frame written;
* `append_chunk`         — one frame more of a message, and the last one completes it;
* `receiveAll_sendAll`   — a sequence of messages arrives as it was sent.
-/

set_option autoImplicit false

namespace Deadpool.Remote

open Deadpool.Py

/-! ## Moving octets -/

theorem sendLoop_written {written data : Bytes} {events : List SendEvent} {sock : Outgoing}
    (h : sendLoop written data events = (sock, .ok ())) : sock.written = written ++ data := by
  fun_induction sendLoop written data events with
  | case1 written events =>
    cases h
    rw [List.append_nil]
  | case2 written data hne =>
    cases h
    rfl
  | case3 written data n events hne ih =>
    rw [ih h, List.append_assoc, List.take_append_drop]
  | case4 written data events hne ih => exact ih h
  | case5 written data events hne ih => exact ih h
  | case6 written c data events => cases h
  | case7 written c data events => cases h

theorem sendParts_written {parts : List Bytes} {sock sock' : Outgoing}
    (h : sendParts sock parts = (sock', .ok ())) :
    sock'.written = sock.written ++ parts.flatten := by
  induction parts generalizing sock with
  | nil =>
    cases h
    simp
  | cons part parts ih =>
    unfold sendParts at h
    split at h
    · rename_i next hsend
      rw [ih h, sendLoop_written hsend, List.flatten_cons, List.append_assoc]
    · cases h

theorem Frame.parts_flatten (f : Frame) : f.parts.flatten = f.bytes := by
  unfold Frame.parts Frame.bytes
  split
  · rename_i h
    simp [h]
  · simp

/-- A socket on which no deadline expires. -/
def Quiet (events : List RecvEvent) : Prop := ∀ e ∈ events, e ≠ .expired

theorem recvLoop_append {allowIdle : Bool} (a got b : Bytes) {events : List RecvEvent}
    (h : Quiet events) :
    ∃ events', Quiet events' ∧
      recvLoop allowIdle got a.length (a ++ b) events = (⟨b, events'⟩, .ok (got ++ a)) := by
  induction events generalizing a got with
  | nil =>
    cases a with
    | nil => exact ⟨[], h, by simp [recvLoop]⟩
    | cons c a =>
      refine ⟨[], h, ?_⟩
      have hlong : ¬ ((c :: a) ++ b).length < a.length + 1 := by simp
      have hdrop : ((c :: a) ++ b).drop (a.length + 1) = b := List.drop_left' rfl
      have htake : ((c :: a) ++ b).take (a.length + 1) = c :: a := List.take_left' rfl
      rw [List.length_cons, recvLoop, if_neg hlong, hdrop, htake]
  | cons e events ih =>
    have hrest : Quiet events := fun e he => h e (List.mem_cons_of_mem _ he)
    cases a with
    | nil => exact ⟨_, h, by simp [recvLoop]⟩
    | cons c a =>
      cases e with
      | expired => exact absurd rfl (h _ List.mem_cons_self)
      | gives n =>
        -- the piece that arrives is a first part of what is missing
        have hle : min (max 1 n) (a.length + 1) ≤ (c :: a).length := Nat.min_le_right _ _
        have hpos : 0 < min (max 1 n) (a.length + 1) := by omega
        obtain ⟨k, hk⟩ : ∃ k, k = min (max 1 n) (a.length + 1) := ⟨_, rfl⟩
        rw [← hk] at hle hpos
        have hpiece : ((c :: a) ++ b).take k = (c :: a).take k := List.take_append_of_le_length hle
        have hlen : ((c :: a).take k).length = k := by rw [List.length_take]; omega
        have hne : (c :: a).take k ≠ [] := by
          intro hnil
          rw [hnil] at hlen
          simp at hlen
          omega
        obtain ⟨events', hq, hloop⟩ := ih ((c :: a).drop k) (got ++ (c :: a).take k) hrest
        refine ⟨events', hq, ?_⟩
        rw [List.length_cons, recvLoop, ← hk, hpiece, if_neg hne, hlen, List.drop_append_of_le_length hle]
        rw [List.length_drop, List.length_cons, List.append_assoc, List.take_append_drop] at hloop
        exact hloop

/-- **Fragmentation.**  `_recv_exact` returns the next octets whatever pieces they arrive in. -/
theorem recvExact_append (a b : Bytes) (allowIdle : Bool) {events : List RecvEvent}
    (h : Quiet events) :
    ∃ events', Quiet events' ∧
      recvExact ⟨a ++ b, events⟩ a.length allowIdle = (⟨b, events'⟩, .ok a) :=
  recvLoop_append a [] b h

/-! ## The header of a frame -/

theorem ofCode_code (k : MessageType) :
    MessageType.ofCode (UInt8.ofNat k.code).toNat = some k := by
  cases k <;> rfl

theorem length_packHeader {kind : MessageType} {flags controlLen payloadLen : Nat} {header : Bytes}
    (h : packHeader kind flags controlLen payloadLen = .ok header) : header.length = 16 := by
  unfold packHeader at h
  split at h
  · cases h
  · cases h
    rfl

theorem octets_packLength {n : Nat} (h : n < 2 ^ 32) :
    (UInt8.ofNat (n / 2 ^ 24)).toNat * 2 ^ 24 + (UInt8.ofNat (n / 2 ^ 16 % 256)).toNat * 2 ^ 16
      + (UInt8.ofNat (n / 2 ^ 8 % 256)).toNat * 2 ^ 8 + (UInt8.ofNat (n % 256)).toNat = n := by
  simp only [UInt8.toNat_ofNat']
  omega

theorem unpackHeader_packHeader {limits : RemoteLimits} {kind : MessageType}
    {flags controlLen payloadLen : Nat} {header : Bytes} (hf : flags ≤ 1)
    (hc : controlLen ≤ limits.maxControlBytes) (hp : payloadLen ≤ limits.maxFramePayloadBytes)
    (h : packHeader kind flags controlLen payloadLen = .ok header) :
    unpackHeader limits header = .ok (kind, controlLen, payloadLen) := by
  unfold packHeader at h
  split at h
  · cases h
  rename_i hlen
  rw [not_or, Nat.not_le, Nat.not_le] at hlen
  cases h
  have hflags : ¬ UInt8.ofNat flags > 1 := by
    rcases Nat.le_one_iff_eq_zero_or_eq_one.mp hf with rfl | rfl <;> decide
  have hversion : ¬ ((1 : UInt8) ≠ 1 ∨ (0 : UInt8) > 0) := by decide
  show unpackHeader limits [0x44, 0x50, 0x52, 0x31, 1, 0, _, _, _, _, _, _, _, _, _, _] = _
  unfold unpackHeader
  dsimp only
  rw [octets_packLength hlen.1, octets_packLength hlen.2, if_neg (by decide), if_neg hversion,
    if_neg hflags, if_neg (by omega), if_neg (by omega), ofCode_code]

/-! ## One frame -/

section Frames

variable {l₁ l₂ : RemoteLimits} {message : Message} {messageId : Hex 32} {digest : Hex 64}
  {count index : Nat} {frame : Frame}

/-- Chunk `index` of a payload. -/
def chunkAt (frameSize : Nat) (payload : Bytes) (index : Nat) : Bytes :=
  (payload.drop (index * frameSize)).take frameSize

/-- The control object that a frame carries: the first one has the message's. -/
def frameControlAt (message : Message) (index : Nat) : Obj :=
  if index = 0 then message.control.obj else .none

theorem encodeFrame_ok :
    encodeFrame l₁ message messageId digest count index = .ok frame ↔
      encodeFrameControl messageId.text index count message.payload.length digest.text
          (frameControlAt message index) l₁ = .ok frame.control ∧
        packHeader message.kind (if count > 1 then 1 else 0) frame.control.length
          frame.chunk.length = .ok frame.header ∧
        frame.chunk = chunkAt l₁.maxFramePayloadBytes message.payload index := by
  unfold encodeFrame
  simp only [bind_ok, Except.ok.injEq]
  constructor
  · rintro ⟨control, hc, header, hh, rfl⟩
    exact ⟨hc, hh, rfl⟩
  · rintro ⟨hc, hh, hchunk⟩
    obtain ⟨header, control, chunk⟩ := frame
    cases hchunk
    exact ⟨control, hc, header, hh, rfl⟩

/-- **A frame read is the frame written.** -/
theorem receiveFrame_encodeFrame (sha256 : Bytes → Hex 64)
    (hc : l₁.maxControlBytes = l₂.maxControlBytes)
    (hf : l₁.maxFramePayloadBytes = l₂.maxFramePayloadBytes)
    (hm : l₁.maxMetadataBytes = l₂.maxMetadataBytes)
    (h : encodeFrame l₁ message messageId digest count index = .ok frame)
    {r : MessageReader} (hr : r.limits = l₂) (rest : Bytes) {events : List RecvEvent}
    (hq : Quiet events) :
    ∃ events', Quiet events' ∧
      r.receiveFrame sha256 ⟨frame.bytes ++ rest, events⟩ =
        let control := frameControl messageId.text index count message.payload.length digest.text
          (frameControlAt message index)
        let (r', result) := r.accept sha256 message.kind control.sorted
          (chunkAt l₁.maxFramePayloadBytes message.payload index)
        (r', ⟨rest, events'⟩, result) := by
  obtain ⟨hcontrol, hheader, hchunk⟩ := encodeFrame_ok.mp h
  have hsize : frame.control.length ≤ l₁.maxControlBytes := by
    obtain ⟨-, -, hlen, hdata⟩ := jsonDumps_ok.mp hcontrol
    rw [hdata, encodeAscii, List.length_map]
    exact hlen
  have hchunkSize : frame.chunk.length ≤ l₁.maxFramePayloadBytes := by
    rw [hchunk, chunkAt, List.length_take]
    exact Nat.min_le_left _ _
  obtain ⟨ev₁, hq₁, hrecv₁⟩ := recvExact_append frame.header (frame.control ++ (frame.chunk ++ rest))
    true hq
  obtain ⟨ev₂, hq₂, hrecv₂⟩ := recvExact_append frame.control (frame.chunk ++ rest) false hq₁
  obtain ⟨ev₃, hq₃, hrecv₃⟩ := recvExact_append frame.chunk rest false hq₂
  have hunpack : unpackHeader l₂ frame.header =
      .ok (message.kind, frame.control.length, frame.chunk.length) :=
    unpackHeader_packHeader (by split <;> omega) (hc ▸ hsize) (hf ▸ hchunkSize) hheader
  have hloads := jsonLoads_jsonDumps hm hcontrol
  refine ⟨ev₃, hq₃, ?_⟩
  unfold MessageReader.receiveFrame
  rw [Frame.bytes, List.append_assoc, List.append_assoc, ← length_packHeader hheader, hrecv₁]
  simp only [hr, hunpack, hrecv₂, hloads, hrecv₃]
  rw [hchunk]

theorem sortItems_frameControl {total : Nat} {control : Obj} :
    (frameControl messageId.text index count total digest.text control).sorted.items =
      [(.str (lit "control"), control.val.canon), (.str (lit "count"), .int count),
        (.str (lit "digest"), .str digest.text), (.str (lit "index"), .int index),
        (.str (lit "message_id"), .str messageId.text), (.str (lit "total"), .int total)] := rfl

/-- `_accept` on the header of a frame: every check on the fields passes. -/
theorem accept_frame (sha256 : Bytes → Hex 64) {total : Nat} {control : Obj} {r : MessageReader}
    (hindex : index < count) (hcount : count ≤ r.limits.maxChunks)
    (htotal : total ≤ r.limits.maxMessageBytes) (kind : MessageType) (chunk : Bytes) :
    r.accept sha256 kind
        (frameControl messageId.text index count total digest.text control).sorted chunk =
      r.place sha256 kind messageId.text index count total digest.text
        ⟨control.val.canon, unique_canon control.unique⟩ chunk := by
  have hid : ¬ messageId.text.length > 64 := by
    rw [messageId.length]
    omega
  have hdigest : ¬ digest.text.length ≠ 64 := by
    rw [digest.length]
    omega
  have hfields : ∀ f ∈ frameFields, ((frameControl messageId.text index count total digest.text
      control).sorted.items.get? f).isSome := by
    rw [sortItems_frameControl]
    intro f hf
    simp only [frameFields, List.mem_cons, List.not_mem_nil, or_false] at hf
    rcases hf with rfl | rfl | rfl | rfl | rfl | rfl <;> rfl
  unfold MessageReader.accept
  rw [if_neg (not_not.mpr ⟨rfl, hfields⟩)]
  show (if messageId.text.length > 64 then _ else if (count : Int) < 1 ∨ _ then _ else
    if (total : Int) < 0 ∨ _ then _ else if digest.text.length ≠ 64 then _ else _) = _
  rw [if_neg hid, if_neg (by omega), if_neg (by omega), if_neg hdigest]
  rfl

end Frames

/-! ## Putting a message together -/

/-- The chunks before `index` are the payload up to there. -/
theorem flatten_chunkAt (frameSize : Nat) (payload : Bytes) (index : Nat) :
    ((List.range index).map (chunkAt frameSize payload)).flatten =
      payload.take (index * frameSize) := by
  induction index with
  | zero => simp
  | succ index ih =>
    rw [List.range_succ, List.map_append, List.flatten_append, ih]
    simp only [List.map_cons, List.map_nil, List.flatten_cons, List.flatten_nil, List.append_nil]
    rw [chunkAt, Nat.succ_mul, List.take_add]

section Assembly

variable (limits : RemoteLimits) (messageId : Hex 32) (message : Message) (digest : Hex 64)
  (count : Nat)

/-- What the reader holds of a message after `index` of its frames. -/
def chunksAt (index : Nat) : Chunks where
  kind := message.kind
  control := message.control
  count := count
  total := message.payload.length
  digest := digest.text
  nextIndex := index
  parts := (List.range index).map (chunkAt limits.maxFramePayloadBytes message.payload)
  received := (message.payload.take (index * limits.maxFramePayloadBytes)).length

/-- The reader between frames of a message. -/
def assembling (index : Nat) : MessageReader where
  limits := limits
  messages := [(messageId.text, chunksAt limits message digest count index)]
  incompleteBytes := (message.payload.take (index * limits.maxFramePayloadBytes)).length

variable {limits messageId message digest count}

theorem length_take_succ (frameSize index : Nat) (payload : Bytes) :
    (payload.take (index * frameSize)).length + (chunkAt frameSize payload index).length =
      (payload.take ((index + 1) * frameSize)).length := by
  rw [chunkAt, Nat.succ_mul, List.take_add, List.length_append]

theorem chunksAt_add (index : Nat) :
    (chunksAt limits message digest count index).add
        (chunkAt limits.maxFramePayloadBytes message.payload index) =
      chunksAt limits message digest count (index + 1) := by
  simp only [Chunks.add, chunksAt, length_take_succ, List.range_succ, List.map_append,
    List.map_cons, List.map_nil, Nat.cast_add, Nat.cast_one]

/-- **One frame more.**  The reader goes from `index` to `index + 1` frames; the last frame
completes the message and leaves nothing of it behind. -/
theorem append_chunk (sha256 : Bytes → Hex 64) (hdigest : digest = sha256 message.payload)
    (hsize : message.payload.length ≤ limits.maxMessageBytes)
    (hcount : message.payload.length ≤ count * limits.maxFramePayloadBytes) (index : Nat) :
    (assembling limits messageId message digest count index).append sha256 messageId.text
        (chunksAt limits message digest count index) index
        (chunkAt limits.maxFramePayloadBytes message.payload index) =
      if index + 1 = count then (MessageReader.new limits, .ok (some message))
      else (assembling limits messageId message digest count (index + 1), .ok none) := by
  have hlen := length_take_succ limits.maxFramePayloadBytes index message.payload
  have hle : (message.payload.take ((index + 1) * limits.maxFramePayloadBytes)).length ≤
      message.payload.length := List.length_take_le' _ _
  have hnext : (index : Int) = (chunksAt limits message digest count index).nextIndex := rfl
  have hincomplete : (assembling limits messageId message digest count index).incompleteBytes
      + ((chunkAt limits.maxFramePayloadBytes message.payload index).length : Int) =
      (message.payload.take ((index + 1) * limits.maxFramePayloadBytes)).length := by
    simp only [assembling]
    omega
  unfold MessageReader.append
  rw [if_neg (not_not.mpr hnext), hincomplete, if_neg (by simp only [assembling]; omega)]
  dsimp only
  rw [chunksAt_add, if_neg (by simp only [chunksAt]; omega)]
  by_cases hlast : index + 1 = count
  · have hall : message.payload.take ((index + 1) * limits.maxFramePayloadBytes) =
        message.payload := List.take_of_length_le (by rw [hlast]; exact hcount)
    rw [if_neg (by simp only [chunksAt]; omega), if_neg (by simp only [chunksAt]; rw [hall]; omega),
      if_pos hlast, if_neg]
    · simp [MessageReader.remove, MessageReader.setChunks, assembling, chunksAt, MessageReader.new,
        flatten_chunkAt, hall]
    · simp only [chunksAt, flatten_chunkAt, hall, hdigest]
      exact not_not.mpr rfl
  · rw [if_pos (by simp only [chunksAt]; omega), if_neg hlast]
    simp [MessageReader.setChunks, assembling]

/-- The reader before frame `index`. -/
def readerAt (limits : RemoteLimits) (messageId : Hex 32) (message : Message) (digest : Hex 64)
    (count index : Nat) : MessageReader :=
  if index = 0 then MessageReader.new limits
  else assembling limits messageId message digest count index

/-- The message as the reader returns it. -/
def Message.sorted (m : Message) : Message := { m with control := m.control.sorted }

/-- `_accept` finds the message of a frame, or starts it at the first one. -/
theorem place_frame (sha256 : Bytes → Hex 64) (hincomplete : 0 < limits.maxIncompleteMessages)
    (index : Nat) (chunk : Bytes) :
    (readerAt limits messageId message.sorted digest count index).place sha256 message.kind
        messageId.text index count message.payload.length digest.text
        ⟨(frameControlAt message index).val.canon, unique_canon (frameControlAt message index).unique⟩
        chunk =
      (assembling limits messageId message.sorted digest count index).append sha256 messageId.text
        (chunksAt limits message.sorted digest count index) index chunk := by
  unfold MessageReader.place readerAt
  cases index with
  | zero =>
    have hroom : ¬ (0 : Nat) ≥ limits.maxIncompleteMessages := by omega
    simp [MessageReader.new, frameControlAt, Dict.obj, Value.canon, hroom, assembling, chunksAt,
      Message.sorted, Dict.sorted]
  | succ index =>
    simp [assembling, chunksAt, frameControlAt, Value.canon, Obj.none, Message.sorted]

end Assembly

/-! ## Whole messages -/

/-- Both ends read the same wire limits off their configurations. -/
theorem wireLimits_eq {l₁ l₂ : RemoteLimits} (h : wireLimits l₁ = wireLimits l₂) :
    l₁.maxControlBytes = l₂.maxControlBytes ∧
      l₁.maxFramePayloadBytes = l₂.maxFramePayloadBytes ∧
      l₁.maxMessageBytes = l₂.maxMessageBytes ∧ l₁.maxMetadataBytes = l₂.maxMetadataBytes ∧
      l₁.maxChunks = l₂.maxChunks := by
  have hfields : ∀ l : RemoteLimits, (wireLimits l).items =
      [(.str (lit "max_control_bytes"), .int l.maxControlBytes),
        (.str (lit "max_frame_payload_bytes"), .int l.maxFramePayloadBytes),
        (.str (lit "max_message_bytes"), .int l.maxMessageBytes),
        (.str (lit "max_metadata_bytes"), .int l.maxMetadataBytes),
        (.str (lit "max_chunks"), .int l.maxChunks)] := fun _ => rfl
  have hitems := congrArg Dict.items h
  rw [hfields, hfields] at hitems
  simpa using hitems

section Messages

variable {l₁ l₂ : RemoteLimits} {message : Message} {messageId : Hex 32} {digest : Hex 64}
  {count : Nat}

theorem messageChunkCount_ok {size : Nat} {limits : RemoteLimits} :
    messageChunkCount size limits = .ok count ↔
      size ≤ limits.maxMessageBytes ∧ count ≤ limits.maxChunks ∧
        count = max 1 ((size + limits.maxFramePayloadBytes - 1) / limits.maxFramePayloadBytes) := by
  unfold messageChunkCount
  split
  · simp [Raised.because]
    omega
  · dsimp only
    split
    · simp [Raised.because]
      omega
    · simp
      omega

/-- The frames reach the end of the payload. -/
theorem length_le_count_mul {size frameSize : Nat} (h : 0 < frameSize) :
    size ≤ max 1 ((size + frameSize - 1) / frameSize) * frameSize := by
  have hdiv := Nat.lt_div_mul_add h (a := size + frameSize - 1)
  have hmax : (size + frameSize - 1) / frameSize * frameSize ≤
      max 1 ((size + frameSize - 1) / frameSize) * frameSize :=
    Nat.mul_le_mul_right _ (Nat.le_max_right _ _)
  omega

theorem sendFrames_written {indices : List Nat} {sock sock' : Outgoing}
    (h : sendFrames l₁ message messageId digest count sock indices = (sock', .ok ())) :
    ∃ frames, List.Forall₂ (fun index frame =>
        encodeFrame l₁ message messageId digest count index = .ok frame) indices frames ∧
      sock'.written = sock.written ++ frames.flatMap Frame.bytes := by
  induction indices generalizing sock with
  | nil =>
    cases h
    exact ⟨[], .nil, by simp⟩
  | cons index rest ih =>
    unfold sendFrames at h
    split at h
    · cases h
    · rename_i frame hframe
      split at h
      · rename_i next hsend
        obtain ⟨frames, hall, hwritten⟩ := ih h
        refine ⟨frame :: frames, .cons hframe hall, ?_⟩
        rw [hwritten, sendParts_written hsend, Frame.parts_flatten, List.flatMap_cons,
          List.append_assoc]
      · cases h

/-- One turn of `receive` on a frame of a message. -/
theorem receiveFrame_readerAt (sha256 : Bytes → Hex 64) (h₂ : l₂.Accepted)
    (hw : wireLimits l₁ = wireLimits l₂)
    (hcount : messageChunkCount message.payload.length l₁ = .ok count) {index : Nat} {frame : Frame}
    (hindex : index < count)
    (hframe : encodeFrame l₁ message messageId (sha256 message.payload) count index = .ok frame)
    (rest : Bytes) {events : List RecvEvent} (hq : Quiet events) :
    ∃ events', Quiet events' ∧
      (readerAt l₂ messageId message.sorted (sha256 message.payload) count index).receiveFrame sha256
          ⟨frame.bytes ++ rest, events⟩ =
        if index + 1 = count then (MessageReader.new l₂, ⟨rest, events'⟩, .ok (some message.sorted))
        else (readerAt l₂ messageId message.sorted (sha256 message.payload) count (index + 1),
          ⟨rest, events'⟩, .ok none) := by
  obtain ⟨hc, hf, hm, hmeta, hchunks⟩ := wireLimits_eq hw
  obtain ⟨hsize, hle, hcount⟩ := messageChunkCount_ok.mp hcount
  obtain ⟨-, hpos, -, -, -, hincomplete, -⟩ := h₂.wire
  have hfits : message.sorted.payload.length ≤ l₂.maxMessageBytes := hm ▸ hsize
  have hreach : message.sorted.payload.length ≤ count * l₂.maxFramePayloadBytes := by
    rw [hcount, hf]
    exact length_le_count_mul hpos
  have hlimits : (readerAt l₂ messageId message.sorted (sha256 message.payload) count index).limits =
      l₂ := by
    unfold readerAt
    split <;> rfl
  obtain ⟨events', hq', hread⟩ := receiveFrame_encodeFrame sha256 hc hf hmeta hframe hlimits rest hq
  refine ⟨events', hq', ?_⟩
  rw [hread]
  dsimp only
  rw [accept_frame sha256 hindex (by rw [hlimits]; omega) (by rw [hlimits]; omega),
    place_frame sha256 hincomplete, hf]
  have happend : (assembling l₂ messageId message.sorted (sha256 message.payload) count index).append
      sha256 messageId.text (chunksAt l₂ message.sorted (sha256 message.payload) count index) index
      (chunkAt l₂.maxFramePayloadBytes message.payload index) = _ :=
    append_chunk sha256 rfl hfits hreach index
  rw [happend]
  by_cases hlast : index + 1 = count
  · rw [if_pos hlast, if_pos hlast]
  · rw [if_neg hlast, if_neg hlast, readerAt, if_neg (Nat.succ_ne_zero index)]
    rfl

/-- `receive` reads the frames of a message to its end. -/
theorem receiveLoop_frames (sha256 : Bytes → Hex 64) (h₂ : l₂.Accepted)
    (hw : wireLimits l₁ = wireLimits l₂)
    (hcount : messageChunkCount message.payload.length l₁ = .ok count) (rest : Bytes) (k index : Nat)
    (hk : index + (k + 1) = count) {frames : List Frame}
    (hframes : List.Forall₂ (fun index frame => encodeFrame l₁ message messageId
      (sha256 message.payload) count index = .ok frame) (List.range' index (k + 1)) frames)
    {turns : Nat} (hturns : k < turns) {events : List RecvEvent} (hq : Quiet events) :
    ∃ events', Quiet events' ∧
      MessageReader.receiveLoop sha256 turns
          (readerAt l₂ messageId message.sorted (sha256 message.payload) count index)
          ⟨frames.flatMap Frame.bytes ++ rest, events⟩ =
        (MessageReader.new l₂, ⟨rest, events'⟩, .ok message.sorted) := by
  induction k generalizing index frames turns events with
  | zero =>
    rw [List.range'_succ, List.range'_zero] at hframes
    cases hframes with
    | cons hframe htail =>
      cases htail
      obtain ⟨events', hq', hread⟩ := receiveFrame_readerAt sha256 h₂ hw hcount (by omega) hframe
        rest hq
      refine ⟨events', hq', ?_⟩
      obtain ⟨turns, rfl⟩ : ∃ t, turns = t + 1 := ⟨turns - 1, by omega⟩
      rw [List.flatMap_cons, List.flatMap_nil, List.append_nil, MessageReader.receiveLoop, hread,
        if_pos hk]
  | succ k ih =>
    rw [List.range'_succ] at hframes
    cases hframes with
    | cons hframe htail =>
      obtain ⟨ev₁, hq₁, hread⟩ := receiveFrame_readerAt sha256 h₂ hw hcount (by omega) hframe
        (List.flatMap Frame.bytes _ ++ rest) hq
      obtain ⟨turns, rfl⟩ : ∃ t, turns = t + 1 := ⟨turns - 1, by omega⟩
      obtain ⟨ev₂, hq₂, hloop⟩ := ih (index + 1) (by omega) htail (show k < turns by omega) hq₁
      refine ⟨ev₂, hq₂, ?_⟩
      rw [List.flatMap_cons, List.append_assoc, MessageReader.receiveLoop, hread,
        if_neg (by omega)]
      exact hloop

theorem length_frames_le {indices : List Nat} {frames : List Frame}
    (h : List.Forall₂ (fun index frame =>
      encodeFrame l₁ message messageId digest count index = .ok frame) indices frames) :
    indices.length ≤ (frames.flatMap Frame.bytes).length := by
  induction h with
  | nil => simp
  | @cons index frame indices frames hframe htail ih =>
    have hheader := length_packHeader (encodeFrame_ok.mp hframe).2.1
    simp only [List.length_cons, List.flatMap_cons, List.length_append, Frame.bytes, hheader]
    omega

/-- **One message.**  `receive` returns the message that `send_message` wrote, and the reader is as
before. -/
theorem receive_sendMessage (sha256 : Bytes → Hex 64) (h₂ : l₂.Accepted)
    (hw : wireLimits l₁ = wireLimits l₂) {sock sock' : Outgoing}
    (h : sendMessage sha256 sock message messageId l₁ = (sock', .ok ())) :
    ∃ data, sock'.written = sock.written ++ data ∧
      ∀ (rest : Bytes) (events : List RecvEvent), Quiet events → ∃ events', Quiet events' ∧
        (MessageReader.new l₂).receive sha256 ⟨data ++ rest, events⟩ =
          (MessageReader.new l₂, ⟨rest, events'⟩, .ok message.sorted) := by
  unfold sendMessage at h
  split at h
  · cases h
  · rename_i count hcount
    obtain ⟨frames, hframes, hwritten⟩ := sendFrames_written h
    refine ⟨_, hwritten, fun rest events hq => ?_⟩
    have hlen := length_frames_le hframes
    have hpos : 1 ≤ count := by
      rw [(messageChunkCount_ok.mp hcount).2.2]
      exact Nat.le_max_left _ _
    obtain ⟨k, rfl⟩ : ∃ k, count = k + 1 := ⟨count - 1, by omega⟩
    rw [List.range_eq_range'] at hframes
    rw [List.length_range] at hlen
    exact receiveLoop_frames sha256 h₂ hw hcount rest k 0 (by omega) hframes
      (by simp only [List.length_append]; omega) hq

end Messages

/-! ## Sequences of messages -/

section Sequences

variable (sha256 : Bytes → Hex 64)

/-- `send_message` of each message in turn, each with its message ID. -/
def sendAll (limits : RemoteLimits) : Outgoing → List (Message × Hex 32) →
    Outgoing × Except Raised Unit
  | sock, [] => (sock, .ok ())
  | sock, (message, messageId) :: rest =>
    match sendMessage sha256 sock message messageId limits with
    | (sock, .ok ()) => sendAll limits sock rest
    | (sock, .error e) => (sock, .error e)

/-- `n` successive calls of `receive`. -/
def receiveAll : MessageReader → Incoming → Nat → MessageReader × Incoming × Except Raised (List Message)
  | r, sock, 0 => (r, sock, .ok [])
  | r, sock, n + 1 =>
    match r.receive sha256 sock with
    | (r, sock, .error e) => (r, sock, .error e)
    | (r, sock, .ok message) =>
      match receiveAll r sock n with
      | (r, sock, .error e) => (r, sock, .error e)
      | (r, sock, .ok messages) => (r, sock, .ok (message :: messages))

/-- The same kind, an equal control dictionary, the same payload. -/
def Message.Same (m m' : Message) : Prop :=
  m.kind = m'.kind ∧ (Value.dict m.control.items).Same (.dict m'.control.items) ∧
    m.payload = m'.payload

theorem Message.same_sorted (m : Message) : m.Same m.sorted := ⟨rfl, same_canon _, rfl⟩

theorem receiveAll_written {l₁ l₂ : RemoteLimits} (h₂ : l₂.Accepted)
    (hw : wireLimits l₁ = wireLimits l₂) {sent : List (Message × Hex 32)} {sock sock' : Outgoing}
    (h : sendAll sha256 l₁ sock sent = (sock', .ok ())) :
    ∃ data, sock'.written = sock.written ++ data ∧
      ∀ events : List RecvEvent, Quiet events → ∃ events',
        receiveAll sha256 (MessageReader.new l₂) ⟨data, events⟩ sent.length =
          (MessageReader.new l₂, ⟨[], events'⟩, .ok (sent.map fun m => m.1.sorted)) := by
  induction sent generalizing sock with
  | nil =>
    cases h
    exact ⟨[], by simp, fun events _ => ⟨events, rfl⟩⟩
  | cons m rest ih =>
    unfold sendAll at h
    split at h
    · rename_i next hsend
      obtain ⟨first, hfirst, hreceive⟩ := receive_sendMessage sha256 h₂ hw hsend
      obtain ⟨data, hdata, hrest⟩ := ih h
      refine ⟨first ++ data, by rw [hdata, hfirst, List.append_assoc], fun events hq => ?_⟩
      obtain ⟨ev₁, hq₁, hread⟩ := hreceive data events hq
      obtain ⟨ev₂, hall⟩ := hrest ev₁ hq₁
      refine ⟨ev₂, ?_⟩
      rw [List.length_cons, receiveAll, hread]
      dsimp only
      rw [hall, List.map_cons]
    · cases h

/-- **The reader inverts the writer.**  Messages that were written arrive, under any accepted limits
with the writer's wire limits and however the octets are cut up, as they were sent and in order;
nothing is left on the wire or in the reader. -/
theorem receiveAll_sendAll {l₁ l₂ : RemoteLimits} (h₂ : l₂.Accepted)
    (hw : wireLimits l₁ = wireLimits l₂) (sent : List (Message × Hex 32)) (sends : List SendEvent)
    {wire : Outgoing} (hsent : sendAll sha256 l₁ ⟨[], sends⟩ sent = (wire, .ok ()))
    (recvs : List RecvEvent) (hquiet : Quiet recvs) :
    ∃ received events,
      receiveAll sha256 (MessageReader.new l₂) ⟨wire.written, recvs⟩ sent.length =
          (MessageReader.new l₂, ⟨[], events⟩, .ok received) ∧
        List.Forall₂ Message.Same (sent.map Prod.fst) received := by
  obtain ⟨data, hdata, hreceive⟩ := receiveAll_written sha256 h₂ hw hsent
  obtain ⟨events, hall⟩ := hreceive recvs hquiet
  rw [List.nil_append] at hdata
  refine ⟨_, events, by rw [hdata]; exact hall, ?_⟩
  rw [List.forall₂_map_left_iff, List.forall₂_map_right_iff, List.forall₂_same]
  exact fun m _ => m.1.same_sorted

end Sequences

/-- Limits under which a payload of three octets takes two frames. -/
def smallLimits : RemoteLimits where
  maxControlBytes := 512
  maxFramePayloadBytes := 2
  maxMessageBytes := 8
  maxInvocationBytes := 8
  maxResultBytes := 8
  maxMetadataBytes := 64
  maxChunks := 4

/-- SHA-256 on the payloads of `sampleMessages`. -/
def sampleDigest (data : Bytes) : Hex 64 :=
  if data = [] then
    ⟨lit "e3b0c44298fc1c149afbf4c8996fb92427ae41e4649b934ca495991b7852b855", rfl,
      List.all_eq_true.mp (by decide +kernel)⟩
  else
    ⟨lit "039058c6f2c0cb492c533b0a4d14ef77cc0f78abccced5287d84a1a2011cfb81", rfl,
      List.all_eq_true.mp (by decide +kernel)⟩

def sampleMessages : List (Message × Hex 32) :=
  [(⟨.result, Dict.empty.set (lit "request_id") (.str (lit "a:1")), [1, 2, 3]⟩, Hex.zeros 32),
    (⟨.ping, Dict.empty, []⟩, Hex.zeros 32)]

/-- The octets of `sampleMessages`, written in three pieces. -/
def sampleWire : Outgoing × Except Raised Unit :=
  sendAll sampleDigest smallLimits ⟨[], [.takes 3, .wantRead, .takes 40]⟩ sampleMessages

theorem sampleWire_ok :
    sendAll sampleDigest smallLimits ⟨[], [.takes 3, .wantRead, .takes 40]⟩ sampleMessages =
      (sampleWire.1, .ok ()) := by
  have hok : sampleWire.2 = .ok () := by decide +kernel
  rw [← hok, Prod.mk.eta, sampleWire]

/-- The result is read seven octets at first, then one, then the rest. -/
theorem receiveAll_sendAll_sampleMessages :
    smallLimits.Accepted ∧ Quiet [.gives 7, .gives 1] ∧ ∃ received events,
      receiveAll sampleDigest (MessageReader.new smallLimits)
          ⟨sampleWire.1.written, [.gives 7, .gives 1]⟩ 2 =
        (MessageReader.new smallLimits, ⟨[], events⟩, .ok received) ∧
      List.Forall₂ Message.Same (sampleMessages.map Prod.fst) received :=
  have hquiet : Quiet [.gives 7, .gives 1] := by
    intro e he
    simp only [List.mem_cons, List.not_mem_nil, or_false] at he
    rcases he with rfl | rfl <;> decide
  have haccepted : smallLimits.Accepted := by decide +kernel
  ⟨haccepted, hquiet, receiveAll_sendAll sampleDigest haccepted rfl sampleMessages
    [.takes 3, .wantRead, .takes 40] sampleWire_ok [.gives 7, .gives 1] hquiet⟩

end Deadpool.Remote
