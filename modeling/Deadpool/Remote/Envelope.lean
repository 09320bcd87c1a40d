import Deadpool.Py.JsonLength
import Deadpool.Remote.Framing

/-!
# When `send_message` can encode a message

The frame puts the control object into an envelope: one level of nesting, and 163 octets plus the
digits of three numbers.  `send_message` raises no error on its own account exactly when the control
object fits into the envelope of the first frame, the later envelopes fit, and every length has 32
bits.

Principal results:

* `length_frameControl`  — the length of a frame's control text;
* `encodeFrame_isOk`     — when one frame can be encoded;
* `encodes_iff`          — when a message can be encoded;
* `encodes_iff_validated` — the same against `validate_message_control`.
-/

set_option autoImplicit false

namespace Deadpool.Remote

open Deadpool.Py

/-! ## The length of an envelope -/

theorem hexValue_range {c : CodePoint} (h : (hexValue c).isSome) :
    0x30 ≤ c.val ∧ c.val ≤ 0x66 ∧ c.val ≠ 0x5C := by
  unfold hexValue at h
  dsimp only at h
  split at h
  · omega
  split at h
  · omega
  split at h
  · omega
  · cases h

theorem escapeChar_hex {c : CodePoint} (h : (hexValue c).isSome) : escapeChar c = [c] := by
  have hrange := hexValue_range h
  exact escapeChar_plain (by omega)

theorem Hex.length_quote {n : Nat} (x : Hex n) : (quote x.text).length = n + 2 := by
  have hplain : ∀ s : Str, (∀ c ∈ s, (hexValue c).isSome) → (s.flatMap escapeChar) = s := by
    intro s
    induction s with
    | nil => intro _; rfl
    | cons c s ih =>
      intro h
      rw [List.flatMap_cons, escapeChar_hex (h c List.mem_cons_self),
        ih fun d hd => h d (List.mem_cons_of_mem _ hd)]
      rfl
  simp only [quote, hplain x.text x.hex, List.length_cons, List.length_append, List.length_nil,
    x.length]

/-- Decimal digits of a number. -/
def digits (n : Nat) : Nat := (natText n).length

/-- **The length of a frame's control text.** -/
theorem length_frameControl (messageId : Hex 32) (index count total : Nat) (digest : Hex 64)
    (control : Obj) :
    (dumps (.dict (frameControl messageId.text index count total digest.text control).items)).length =
      (dumps control.val).length + digits count + digits index + digits total + 163 := by
  have htext : dumps (.dict (frameControl messageId.text index count total digest.text
      control).items) =
      lit "\x7b\"control\":" ++ (dumps control.val ++ (lit ",\"count\":" ++ (natText count ++
        (lit ",\"digest\":" ++ (quote digest.text ++ (lit ",\"index\":" ++ (natText index ++
        (lit ",\"message_id\":" ++ (quote messageId.text ++ (lit ",\"total\":" ++ (natText total ++
        lit "\x7d"))))))))))) := rfl
  rw [htext]
  simp only [List.length_append, messageId.length_quote, digest.length_quote, digits]
  have h₁ : (lit "\x7b\"control\":").length = 11 := rfl
  have h₂ : (lit ",\"count\":").length = 9 := rfl
  have h₃ : (lit ",\"digest\":").length = 10 := rfl
  have h₄ : (lit ",\"index\":").length = 9 := rfl
  have h₅ : (lit ",\"message_id\":").length = 14 := rfl
  have h₆ : (lit ",\"total\":").length = 9 := rfl
  have h₇ : (lit "\x7d").length = 1 := rfl
  omega

/-! ## One frame -/

section Frames

variable {limits : RemoteLimits} {messageId : Hex 32} {digest : Hex 64}

theorem boundedStr_ascii {s : Str} (h : Ascii s) :
    BoundedStr limits s ↔ s.length ≤ limits.maxMetadataBytes := by
  unfold BoundedStr
  rw [flatMap_utf8Char_ascii h, encodeAscii, List.length_map]
  exact and_iff_right h.encodable

theorem boundedStr_hex {n : Nat} (x : Hex n) :
    BoundedStr limits x.text ↔ n ≤ limits.maxMetadataBytes := by
  have hascii : Ascii x.text := by
    intro c hc
    have := hexValue_range (x.hex c hc)
    omega
  rw [boundedStr_ascii hascii, x.length]

theorem boundedItems_cons {key : String} {v : Value} {rest : Items} (hkey : Ascii (lit key)) :
    BoundedItems limits ((.str (lit key), v) :: rest) ↔
      (lit key).length ≤ limits.maxMetadataBytes ∧ Bounded limits v ∧ BoundedItems limits rest := by
  simp only [BoundedItems, Key.str.injEq, exists_eq_left', boundedStr_ascii hkey]

theorem bounded_nat {n : Nat} : Bounded limits (.int n) ↔ n < 2 ^ 63 := by
  simp only [Bounded]
  omega

theorem items_frameControl {index count total : Nat} {control : Obj} :
    (frameControl messageId.text index count total digest.text control).items =
      [(.str (lit "message_id"), .str messageId.text), (.str (lit "index"), .int index),
        (.str (lit "count"), .int count), (.str (lit "total"), .int total),
        (.str (lit "digest"), .str digest.text), (.str (lit "control"), control.val)] := rfl

/-- The control object of a frame passes validation when the message's own control object does one
level down and the 64 digits of the digest fit. -/
theorem bounded_frameControl {index count total : Nat} {control : Obj} :
    Bounded limits (.dict (frameControl messageId.text index count total digest.text
        control).items) ∧
      heightItems (frameControl messageId.text index count total digest.text control).items ≤
        maxJsonDepth ↔
      Bounded limits control.val ∧ height control.val < maxJsonDepth ∧
        64 ≤ limits.maxMetadataBytes ∧ index < 2 ^ 63 ∧ count < 2 ^ 63 ∧ total < 2 ^ 63 := by
  have hlen : ∀ k ∈ ["message_id", "index", "count", "total", "digest", "control"],
      (lit k).length ≤ 10 := by decide
  rw [items_frameControl, Bounded, boundedItems_cons (by decide), boundedItems_cons (by decide),
    boundedItems_cons (by decide), boundedItems_cons (by decide), boundedItems_cons (by decide),
    boundedItems_cons (by decide), bounded_nat, bounded_nat, bounded_nat]
  simp only [Bounded, boundedStr_hex, BoundedItems, heightItems, height, List.length_cons,
    List.length_nil, and_true]
  simp only [List.mem_cons, List.not_mem_nil, or_false, forall_eq_or_imp, forall_eq] at hlen
  by_cases hb : Bounded limits control.val
  · simp only [hb, true_and, and_true]
    omega
  · simp only [hb, false_and, and_false]

/-- What one frame needs. -/
structure FrameFits (limits : RemoteLimits) (index count total : Nat) (control : Obj)
    (chunkLen : Nat) : Prop where
  bounded : Bounded limits control.val
  depth : height control.val < maxJsonDepth
  digest : 64 ≤ limits.maxMetadataBytes
  numbers : index < 2 ^ 63 ∧ count < 2 ^ 63 ∧ total < 2 ^ 63
  control : (dumps control.val).length + digits count + digits index + digits total + 163 ≤
    min limits.maxControlBytes (2 ^ 32 - 1)
  chunk : chunkLen < 2 ^ 32

theorem encodeFrame_isOk {message : Message} {count index : Nat} :
    (∃ frame, encodeFrame limits message messageId digest count index = .ok frame) ↔
      FrameFits limits index count message.payload.length (frameControlAt message index)
        (chunkAt limits.maxFramePayloadBytes message.payload index).length := by
  have hheader : ∀ flags controlLen payloadLen : Nat,
      (∃ header, packHeader message.kind flags controlLen payloadLen = .ok header) ↔
        controlLen < 2 ^ 32 ∧ payloadLen < 2 ^ 32 := by
    intro flags controlLen payloadLen
    unfold packHeader
    split
    · simp
      omega
    · simp
      omega
  constructor
  · rintro ⟨frame, h⟩
    obtain ⟨hcontrol, hpack, hchunk⟩ := encodeFrame_ok.mp h
    obtain ⟨hb, hh, hlen, hdata⟩ := jsonDumps_ok.mp hcontrol
    obtain ⟨hbc, hhc, hd, hn⟩ := bounded_frameControl.mp ⟨hb, hh⟩
    have hsize := (hheader _ _ _).mp ⟨_, hpack⟩
    rw [hdata, hchunk, encodeAscii, List.length_map, length_frameControl] at hsize
    rw [length_frameControl] at hlen
    exact ⟨hbc, hhc, hd, hn, by omega, hsize.2⟩
  · rintro ⟨hb, hh, hd, hn, hlen, hchunk⟩
    obtain ⟨hb', hh'⟩ := bounded_frameControl.mpr ⟨hb, hh, hd, hn⟩
    obtain ⟨data, hdata⟩ : ∃ data, data = encodeAscii (dumps (.dict (frameControl messageId.text index
        count message.payload.length digest.text (frameControlAt message index)).items)) := ⟨_, rfl⟩
    have hsize : data.length ≤ min limits.maxControlBytes (2 ^ 32 - 1) := by
      rw [hdata, encodeAscii, List.length_map, length_frameControl]
      exact hlen
    have hcontrol : encodeFrameControl messageId.text index count message.payload.length digest.text
        (frameControlAt message index) limits = .ok data :=
      jsonDumps_ok.mpr ⟨hb', hh', by rw [length_frameControl]; omega, hdata⟩
    obtain ⟨header, hpack⟩ := (hheader (if count > 1 then 1 else 0) data.length
      (chunkAt limits.maxFramePayloadBytes message.payload index).length).mpr
      ⟨by omega, hchunk⟩
    exact ⟨⟨header, data, _⟩, encodeFrame_ok.mpr ⟨hcontrol, hpack, rfl⟩⟩

end Frames

/-! ## One message -/

section Messages

variable {limits : RemoteLimits} {message : Message} {messageId : Hex 32}

theorem sendLoop_nil (written data : Bytes) :
    sendLoop written data [] = (⟨written ++ data, []⟩, .ok ()) := by
  cases data with
  | nil => simp [sendLoop]
  | cons c data => simp [sendLoop]

theorem sendParts_nil (written : Bytes) (parts : List Bytes) :
    sendParts ⟨written, []⟩ parts = (⟨written ++ parts.flatten, []⟩, .ok ()) := by
  induction parts generalizing written with
  | nil => simp [sendParts]
  | cons part parts ih => simp [sendParts, sendExact, sendLoop_nil, ih]

/-- On a socket that takes everything, only the encoding of a frame can fail. -/
theorem sendFrames_nil {digest : Hex 64} {count : Nat} (written : Bytes) (indices : List Nat) :
    (sendFrames limits message messageId digest count ⟨written, []⟩ indices).2 = .ok () ↔
      ∀ index ∈ indices, ∃ frame, encodeFrame limits message messageId digest count index = .ok frame := by
  induction indices generalizing written with
  | nil => simp [sendFrames]
  | cons index rest ih =>
    unfold sendFrames
    cases hframe : encodeFrame limits message messageId digest count index with
    | error e => simp [hframe]
    | ok frame => simp [hframe, sendParts_nil, ih]

/-- `send_message` raises nothing of its own: the socket takes every octet at once. -/
def Encodes (sha256 : Bytes → Hex 64) (limits : RemoteLimits) (message : Message)
    (messageId : Hex 32) : Prop :=
  (sendMessage sha256 ⟨[], []⟩ message messageId limits).2 = .ok ()

/-- Frames of a payload of the given size. -/
def chunkCount (limits : RemoteLimits) (size : Nat) : Nat :=
  max 1 ((size + limits.maxFramePayloadBytes - 1) / limits.maxFramePayloadBytes)

theorem chunkCount_le_maxChunks (h : limits.Accepted) {size : Nat}
    (hsize : size ≤ limits.maxMessageBytes) : chunkCount limits size ≤ limits.maxChunks := by
  obtain ⟨-, hpos, -, -, hchunks, -, -, -, hfit⟩ := h.wire
  refine Nat.max_le.mpr ⟨hchunks, ?_⟩
  rw [Nat.div_le_iff_le_mul_add_pred hpos]
  have := Nat.mul_comm limits.maxFramePayloadBytes limits.maxChunks
  omega

theorem messageChunkCount_eq (h : limits.Accepted) {size count : Nat} :
    messageChunkCount size limits = .ok count ↔
      size ≤ limits.maxMessageBytes ∧ count = chunkCount limits size := by
  rw [messageChunkCount_ok]
  constructor
  · rintro ⟨hsize, -, hcount⟩
    exact ⟨hsize, hcount⟩
  · rintro ⟨hsize, rfl⟩
    exact ⟨hsize, chunkCount_le_maxChunks h hsize, rfl⟩

/-- **When a message can be encoded.** -/
theorem encodes_iff (sha256 : Bytes → Hex 64) (h : limits.Accepted) :
    Encodes sha256 limits message messageId ↔
      message.payload.length ≤ limits.maxMessageBytes ∧
        ∀ index < chunkCount limits message.payload.length,
          FrameFits limits index (chunkCount limits message.payload.length) message.payload.length
            (frameControlAt message index)
            (chunkAt limits.maxFramePayloadBytes message.payload index).length := by
  unfold Encodes sendMessage
  cases hcount : messageChunkCount message.payload.length limits with
  | error e =>
    have hlarge : ¬ message.payload.length ≤ limits.maxMessageBytes := by
      intro hle
      rw [(messageChunkCount_eq h).mpr ⟨hle, rfl⟩] at hcount
      cases hcount
    simp [hlarge]
  | ok count =>
    obtain ⟨hsize, rfl⟩ := (messageChunkCount_eq h).mp hcount
    simp only [sendFrames_nil, encodeFrame_isOk, List.mem_range, hsize, true_and]

theorem digits_mono {m n : Nat} (h : m ≤ n) : digits m ≤ digits n := by
  unfold digits
  by_cases hm : m = 0
  · have hpos := List.length_pos_of_ne_nil (natText_ne_nil n)
    rw [hm]
    exact hpos
  · rw [length_natText, length_natText, natDigits, natDigits, if_neg hm, if_neg (by omega),
      List.length_reverse, List.length_reverse]
    exact Nat.le_length_digits_le 10 m n h

theorem length_chunkAt_le (frameSize : Nat) (payload : Bytes) (index : Nat) :
    (chunkAt frameSize payload index).length ≤ (chunkAt frameSize payload 0).length := by
  simp only [chunkAt, List.length_take, List.length_drop]
  omega

theorem chunkCount_le (limits : RemoteLimits) (size : Nat) : chunkCount limits size ≤ max 1 size := by
  unfold chunkCount
  refine Nat.max_le.mpr ⟨Nat.le_max_left _ _, ?_⟩
  by_cases hf : limits.maxFramePayloadBytes = 0
  · simp [hf]
  · have hle : size + limits.maxFramePayloadBytes - 1 ≤ size * limits.maxFramePayloadBytes
        + (limits.maxFramePayloadBytes - 1) := by
      have := Nat.le_mul_of_pos_right size (Nat.pos_of_ne_zero hf)
      omega
    have hdiv : (size + limits.maxFramePayloadBytes - 1) / limits.maxFramePayloadBytes ≤ size := by
      rw [Nat.div_le_iff_le_mul_add_pred (Nat.pos_of_ne_zero hf), Nat.mul_comm]
      omega
    exact Nat.le_trans hdiv (Nat.le_max_right _ _)

theorem digits_le {n k : Nat} (hk : 1 ≤ k) (h : n < 10 ^ k) : digits n ≤ k := length_natText_le hk h

theorem validateMessageControl_ok (h : limits.Accepted) {control : Dict} {size : Nat} :
    validateMessageControl control size limits = .ok () ↔
      size ≤ limits.maxMessageBytes ∧ size < 2 ^ 63 ∧ Bounded limits (.dict control.items) ∧
        heightItems control.items < maxJsonDepth ∧ 64 ≤ limits.maxMetadataBytes ∧
        (dumps (.dict control.items)).length + digits (chunkCount limits size) + digits size + 164 ≤
          limits.maxControlBytes := by
  have hcount := chunkCount_le limits size
  have hone : digits 0 = 1 := rfl
  have hval : control.obj.val = .dict control.items := rfl
  unfold validateMessageControl
  simp only [bind_ok, messageChunkCount_eq h, encodeFrameControl, jsonDumps_ok, ← and_assoc,
    bounded_frameControl, length_frameControl]
  simp only [hval, height, hone, and_assoc]
  constructor
  · rintro ⟨count, hsize, rfl, data, hb, hh, hd, -, -, hn, hlen, -⟩
    exact ⟨hsize, hn, hb, hh, hd, by omega⟩
  · rintro ⟨hsize, hn, hb, hh, hd, hlen⟩
    exact ⟨_, hsize, rfl, _, hb, hh, hd, by omega, by omega, hn, by omega, rfl, trivial⟩

/-- What `send_message` needs beyond `validate_message_control`: lengths that `_PREFIX` can hold, and
room for the envelopes of the later frames. -/
structure Packs (limits : RemoteLimits) (message : Message) : Prop where
  control : (dumps (.dict message.control.items)).length
    + digits (chunkCount limits message.payload.length) + digits message.payload.length + 164 < 2 ^ 32
  chunk : min limits.maxFramePayloadBytes message.payload.length < 2 ^ 32
  later : 1 < chunkCount limits message.payload.length →
    digits (chunkCount limits message.payload.length - 1)
      + digits (chunkCount limits message.payload.length) + digits message.payload.length + 167 ≤
        min limits.maxControlBytes (2 ^ 32 - 1)

/-- **`validate_message_control` against `send_message`.** -/
theorem encodes_iff_validated (sha256 : Bytes → Hex 64) (h : limits.Accepted) :
    Encodes sha256 limits message messageId ↔
      validateMessageControl message.control message.payload.length limits = .ok () ∧
        Packs limits message := by
  have hzero : (chunkAt limits.maxFramePayloadBytes message.payload 0).length =
      min limits.maxFramePayloadBytes message.payload.length := by
    simp [chunkAt]
  have hone : digits 0 = 1 := rfl
  have hnull : (dumps Value.none).length = 4 := rfl
  have hcount := chunkCount_le limits message.payload.length
  have hpos : 0 < chunkCount limits message.payload.length :=
    Nat.lt_of_lt_of_le Nat.zero_lt_one (Nat.le_max_left _ _)
  rw [encodes_iff sha256 h, validateMessageControl_ok h]
  constructor
  · rintro ⟨hsize, hall⟩
    obtain ⟨hb, hh, hd, hn, hlen, hc⟩ := hall 0 hpos
    rw [hzero] at hc
    simp only [frameControlAt, if_true, Dict.obj, height] at hb hh hlen
    refine ⟨⟨hsize, hn.2.2, hb, hh, hd, by omega⟩, by omega, hc, fun hmany => ?_⟩
    have hlater := (hall (chunkCount limits message.payload.length - 1) (by omega)).control
    rw [frameControlAt, if_neg (by omega)] at hlater
    simp only [Obj.none] at hlater
    omega
  · rintro ⟨⟨hsize, hn, hb, hh, hd, hlen⟩, hcontrol, hchunk, hlater⟩
    refine ⟨hsize, fun index hindex => ?_⟩
    by_cases hindex0 : index = 0
    · rw [hindex0, hzero]
      refine ⟨hb, hh, hd, ⟨by omega, by omega, hn⟩, ?_, hchunk⟩
      simp only [frameControlAt, if_true, Dict.obj]
      omega
    · have hle := length_chunkAt_le limits.maxFramePayloadBytes message.payload index
      have hdigits : digits index ≤ digits (chunkCount limits message.payload.length - 1) :=
        digits_mono (by omega)
      have hlater := hlater (by omega)
      rw [frameControlAt, if_neg hindex0]
      refine ⟨trivial, (by decide), hd, ⟨by omega, by omega, hn⟩, ?_, by omega⟩
      simp only [Obj.none]
      omega

theorem chunkCount_zero (hl : limits.Accepted) : chunkCount limits 0 = 1 := by
  have hpos := hl.wire.2.1
  unfold chunkCount
  rw [Nat.div_eq_of_lt (by omega)]
  rfl

/-- A control message without payload is one frame. -/
theorem encodes_control {sha256 : Bytes → Hex 64} (hl : limits.Accepted) {kind : MessageType}
    {control : Dict} :
    Encodes sha256 limits ⟨kind, control, []⟩ messageId ↔
      Bounded limits (.dict control.items) ∧ heightItems control.items < maxJsonDepth ∧
        64 ≤ limits.maxMetadataBytes ∧
        (dumps (.dict control.items)).length + 166 ≤ min limits.maxControlBytes (2 ^ 32 - 1) := by
  have hdigits : digits 1 = 1 ∧ digits 0 = 1 := ⟨rfl, rfl⟩
  rw [encodes_iff_validated sha256 hl, validateMessageControl_ok hl]
  simp only [List.length_nil, chunkCount_zero hl]
  constructor
  · rintro ⟨⟨-, -, hb, hh, hd, hlen⟩, hpack, -, -⟩
    simp only [List.length_nil, chunkCount_zero hl] at hpack
    exact ⟨hb, hh, hd, by omega⟩
  · rintro ⟨hb, hh, hd, hlen⟩
    refine ⟨⟨by omega, by omega, hb, hh, hd, by omega⟩, ?_, ?_, ?_⟩
    · simp only [List.length_nil, chunkCount_zero hl]
      omega
    · simp only [List.length_nil]
      omega
    · intro hmany
      simp only [List.length_nil, chunkCount_zero hl] at hmany
      omega

end Messages

end Deadpool.Remote
