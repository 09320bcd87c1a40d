import Deadpool.Remote.Framing
import Deadpool.Remote.Reassembly
import Mathlib.Data.List.Perm.Basic

/-!
# Interleaved messages

The frames of several messages may arrive in any order that keeps each message's own.  After a first
part of them the reader holds exactly the messages that have a frame behind and a frame ahead, each
with the chunks that arrived: `Midway`.

Principal results:

* `sendMessage_encodeFrames` — what `send_message` writes are the frames of the message;
* `arrival_encodeFrame`      — what `receive` makes of such a frame;
* `midway_accept`            — one frame more, of any of the messages;
* `acceptAll_interleaving`   — every frame is accepted, and every message is returned at its last one.
-/

set_option autoImplicit false

namespace Deadpool.Remote

open Deadpool.Py

/-! ## The frames of a message -/

/-- The frames of a message, before anything of them is written. -/
def encodeFrames (limits : RemoteLimits) (message : Message) (messageId : Hex 32) (digest : Hex 64)
    (count : Nat) : List Nat → Except Raised (List Frame)
  | [] => .ok []
  | index :: rest => do
    let frame ← encodeFrame limits message messageId digest count index
    let frames ← encodeFrames limits message messageId digest count rest
    .ok (frame :: frames)

theorem encodeFrames_ok {limits : RemoteLimits} {message : Message} {messageId : Hex 32}
    {digest : Hex 64} {count : Nat} {indices : List Nat} {frames : List Frame} :
    encodeFrames limits message messageId digest count indices = .ok frames ↔
      List.Forall₂ (fun index frame => encodeFrame limits message messageId digest count index =
        .ok frame) indices frames := by
  induction indices generalizing frames with
  | nil =>
    rw [List.forall₂_nil_left_iff, encodeFrames, Except.ok.injEq]
    exact eq_comm
  | cons index rest ih =>
    simp only [encodeFrames, bind_ok, Except.ok.injEq, List.forall₂_cons_left_iff, ih]
    constructor
    · rintro ⟨frame, hframe, tail, htail, rfl⟩
      exact ⟨frame, tail, hframe, htail, rfl⟩
    · rintro ⟨frame, tail, hframe, htail, rfl⟩
      exact ⟨frame, hframe, tail, htail, rfl⟩

/-- A message within the limits, and the frames that `send_message` produces for it. -/
structure Outbound (sha256 : Bytes → Hex 64) (limits : RemoteLimits) where
  message : Message
  messageId : Hex 32
  count : Nat
  chunked : messageChunkCount message.payload.length limits = .ok count
  frames : List Frame
  produced : encodeFrames limits message messageId (sha256 message.payload) count
    (List.range count) = .ok frames

/-- **Writing.** What `send_message` puts on the wire are the frames of the message. -/
theorem sendMessage_encodeFrames (sha256 : Bytes → Hex 64) {limits : RemoteLimits} {message : Message}
    {messageId : Hex 32} {sock sock' : Outgoing}
    (h : sendMessage sha256 sock message messageId limits = (sock', .ok ())) :
    ∃ s : Outbound sha256 limits, s.message = message ∧ s.messageId = messageId ∧
      sock'.written = sock.written ++ s.frames.flatMap Frame.bytes := by
  unfold sendMessage at h
  split at h
  · cases h
  · rename_i count hcount
    obtain ⟨frames, hframes, hwritten⟩ := sendFrames_written h
    exact ⟨⟨message, messageId, count, hcount, frames, encodeFrames_ok.mpr hframes⟩, rfl, rfl, hwritten⟩

/-- What `receive` makes of a frame. -/
def Frame.arrival (limits : RemoteLimits) (frame : Frame) : Except Raised Arrival := do
  let (kind, _, _) ← unpackHeader limits frame.header
  let header ← jsonLoads frame.control limits
  .ok ⟨kind, header, frame.chunk⟩

section Frames

variable {l₁ l₂ : RemoteLimits} {message : Message} {messageId : Hex 32} {digest : Hex 64}
  {count index : Nat} {frame : Frame}

/-- The frame of a chunk as it arrives. -/
def arrivalAt (limits : RemoteLimits) (message : Message) (messageId : Hex 32) (digest : Hex 64)
    (count index : Nat) : Arrival where
  kind := message.kind
  header := (frameControl messageId.text index count message.payload.length digest.text
    (frameControlAt message index)).sorted
  payload := chunkAt limits.maxFramePayloadBytes message.payload index

theorem arrival_encodeFrame (hw : wireLimits l₁ = wireLimits l₂)
    (h : encodeFrame l₁ message messageId digest count index = .ok frame) :
    frame.arrival l₂ = .ok (arrivalAt l₂ message messageId digest count index) := by
  obtain ⟨hc, hf, -, hm, -⟩ := wireLimits_eq hw
  obtain ⟨hcontrol, hheader, hchunk⟩ := encodeFrame_ok.mp h
  have hsize : frame.control.length ≤ l₁.maxControlBytes := by
    obtain ⟨-, -, hlen, hdata⟩ := jsonDumps_ok.mp hcontrol
    rw [hdata, encodeAscii, List.length_map]
    exact hlen
  have hchunkSize : frame.chunk.length ≤ l₁.maxFramePayloadBytes := by
    rw [hchunk, chunkAt, List.length_take]
    exact Nat.min_le_left _ _
  have hunpack : unpackHeader l₂ frame.header =
      .ok (message.kind, frame.control.length, frame.chunk.length) :=
    unpackHeader_packHeader (by split <;> omega) (hc ▸ hsize) (hf ▸ hchunkSize) hheader
  have hloads := jsonLoads_jsonDumps hm hcontrol
  unfold Frame.arrival arrivalAt
  rw [← hf, ← hchunk]
  simp only [hunpack, bind, Except.bind]
  rw [hloads]

end Frames

/-! ## Several messages -/

section Several

variable {sha256 : Bytes → Hex 64} {l₁ l₂ : RemoteLimits} {sent : List (Outbound sha256 l₁)}
  {s s' : Outbound sha256 l₁}

def Outbound.key (s : Outbound sha256 l₁) : Str := s.messageId.text

/-- The message IDs of these frames. -/
def keys (trace : List (Str × Frame)) : List Str := trace.map Prod.fst

/-- The frames of one message among these, in order. -/
def Outbound.among (s : Outbound sha256 l₁) (trace : List (Str × Frame)) : List Frame :=
  (trace.filter fun e => e.1 = s.key).map Prod.snd

/-- The octets of one message among these frames. -/
def Outbound.octets (s : Outbound sha256 l₁) (trace : List (Str × Frame)) : Nat :=
  ((s.among trace).map fun f => f.chunk.length).sum

/-- A trace of frames, each with the ID of its message, in which every message has its own frames in
order and there are no others. -/
structure Interleaving (sent : List (Outbound sha256 l₁)) (trace : List (Str × Frame)) : Prop where
  known : ∀ e ∈ trace, ∃ s ∈ sent, e.1 = s.key
  frames : ∀ s ∈ sent, s.among trace = s.frames

/-- The messages that have a frame among the first ones and a frame among the last ones. -/
def openMessages (sent : List (Outbound sha256 l₁)) (first last : List (Str × Frame)) :
    List (Outbound sha256 l₁) :=
  sent.filter fun s => s.key ∈ keys first ∧ s.key ∈ keys last

theorem among_append (s : Outbound sha256 l₁) (first last : List (Str × Frame)) :
    s.among (first ++ last) = s.among first ++ s.among last := by
  simp [Outbound.among]

theorem among_self (s : Outbound sha256 l₁) (f : Frame) (last : List (Str × Frame)) :
    s.among ((s.key, f) :: last) = f :: s.among last := by
  simp [Outbound.among]

theorem among_other {e : Str × Frame} (h : e.1 ≠ s.key) (last : List (Str × Frame)) :
    s.among (e :: last) = s.among last := by
  simp [Outbound.among, h]

theorem among_eq_nil {trace : List (Str × Frame)} : s.among trace = [] ↔ s.key ∉ keys trace := by
  simp only [Outbound.among, keys, List.map_eq_nil_iff, List.filter_eq_nil_iff, decide_eq_true_eq,
    List.mem_map, not_exists, not_and]

theorem mem_keys_append {key : Str} {first last : List (Str × Frame)} :
    key ∈ keys (first ++ last) ↔ key ∈ keys first ∨ key ∈ keys last := by
  simp [keys]

theorem mem_keys_cons {key : Str} {e : Str × Frame} {last : List (Str × Frame)} :
    key ∈ keys (e :: last) ↔ key = e.1 ∨ key ∈ keys last := by
  simp [keys]

/-! ## What the reader holds on the way -/

/-- The message as the reader holds it after `n` of its frames. -/
def Outbound.entry (limits : RemoteLimits) (s : Outbound sha256 l₁) (n : Nat) : Str × Chunks :=
  (s.key, chunksAt limits s.message.sorted (sha256 s.message.payload) s.count n)

/-- The reader between the first frames of a trace and the others. -/
structure Midway (l₂ : RemoteLimits) (sent : List (Outbound sha256 l₁))
    (first last : List (Str × Frame)) (r : MessageReader) : Prop where
  bounds : WithinBounds r
  limits : r.limits = l₂
  messages : r.messages.Perm ((openMessages sent first last).map fun s =>
    s.entry l₂ (s.among first).length)

/-- The messages other than `s`. -/
def others (sent : List (Outbound sha256 l₁)) (s : Outbound sha256 l₁)
    (p : Outbound sha256 l₁ → Bool) : List (Outbound sha256 l₁) :=
  sent.filter fun s' => p s' && decide (s'.key ≠ s.key)

/-- Only `s` itself has its ID. -/
theorem filter_perm (hids : (sent.map Outbound.key).Nodup) (hs : s ∈ sent)
    (p : Outbound sha256 l₁ → Bool) :
    (sent.filter p).Perm ((if p s then [s] else []) ++ others sent s p) := by
  obtain ⟨a, b, rfl⟩ := List.append_of_mem hs
  rw [List.map_append, List.map_cons, List.nodup_middle, List.nodup_cons, List.mem_append, not_or]
    at hids
  have hother : ∀ l : List (Outbound sha256 l₁), s.key ∉ l.map Outbound.key →
      l.filter p = others l s p := by
    intro l hl
    refine List.filter_congr fun s' hs' => ?_
    have hne : s'.key ≠ s.key := fun hkey => hl (hkey ▸ List.mem_map_of_mem hs')
    simp [hne]
  have hself : others [s] s p = [] := by simp [others]
  have hsplit : others (a ++ s :: b) s p = others a s p ++ others b s p := by
    rw [show a ++ s :: b = a ++ ([s] ++ b) from rfl]
    unfold others at hself ⊢
    rw [List.filter_append, List.filter_append, hself, List.nil_append]
  rw [hsplit, ← hother a hids.1.1, ← hother b hids.1.2, List.filter_append, List.filter_cons]
  split
  · exact List.perm_middle
  · exact List.Perm.refl _

theorem others_congr {p q : Outbound sha256 l₁ → Bool} (h : ∀ s', s'.key ≠ s.key → p s' = q s') :
    others sent s p = others sent s q := by
  refine List.filter_congr fun s' _ => ?_
  by_cases hkey : s'.key = s.key
  · simp [hkey]
  · rw [h s' hkey]

theorem key_of_mem_others {p : Outbound sha256 l₁ → Bool} (h : s' ∈ others sent s p) :
    s'.key ≠ s.key := by
  have := (List.mem_filter.mp h).2
  rw [Bool.and_eq_true_iff, decide_eq_true_eq] at this
  exact this.2

/-! ## The next frame -/

section Next

variable {first last : List (Str × Frame)} {f : Frame}

/-- The frames of a message that arrived, the next one, and those to come. -/
theorem frames_split (htrace : Interleaving sent (first ++ (s.key, f) :: last)) (hs : s ∈ sent) :
    s.frames = s.among first ++ f :: s.among last := by
  rw [← htrace.frames s hs, among_append, among_self]

theorem length_frames (s : Outbound sha256 l₁) : s.frames.length = s.count := by
  rw [← (encodeFrames_ok.mp s.produced).length_eq, List.length_range]

/-- The frame at an index is the one encoded for it. -/
theorem encodeFrame_frames {n : Nat} (h : s.frames[n]? = some f) :
    encodeFrame l₁ s.message s.messageId (sha256 s.message.payload) s.count n = .ok f := by
  obtain ⟨hn, rfl⟩ := List.getElem?_eq_some_iff.mp h
  have hframes := (encodeFrames_ok.mp s.produced).get
    (by rw [List.length_range, ← length_frames s]; exact hn) hn
  simpa using hframes

theorem frames_split_next {a b : List Frame} (h : s.frames = a ++ f :: b) :
    encodeFrame l₁ s.message s.messageId (sha256 s.message.payload) s.count a.length = .ok f :=
  encodeFrame_frames (by rw [h]; simp)

theorem frames_split_count {a b : List Frame} (h : s.frames = a ++ f :: b) :
    a.length < s.count ∧ (a.length + 1 = s.count ↔ b = []) := by
  rw [← length_frames s, h, List.length_append, List.length_cons]
  constructor
  · omega
  · rw [← List.length_eq_zero_iff]
    omega

/-- The octets of the first frames of a message. -/
theorem octets_take {a b : List Frame} (h : s.frames = a ++ b) :
    (a.map fun f => f.chunk.length).sum =
      (s.message.payload.take (a.length * l₁.maxFramePayloadBytes)).length := by
  have hchunks : a.map Frame.chunk =
      (List.range a.length).map (chunkAt l₁.maxFramePayloadBytes s.message.payload) := by
    refine List.ext_getElem (by simp) fun n hn hn' => ?_
    rw [List.length_map] at hn
    have hget : s.frames[n]? = some a[n] := by
      rw [h, List.getElem?_append_left hn, List.getElem?_eq_getElem hn]
    rw [List.getElem_map, List.getElem_map, List.getElem_range]
    exact (encodeFrame_ok.mp (encodeFrame_frames hget)).2.2
  rw [← flatten_chunkAt, List.length_flatten, ← hchunks, List.map_map]
  rfl

/-! ## One frame -/

/-- The end of `_accept` on the next frame of a message: the last one completes it. -/
theorem append_entry {r : MessageReader} (hw : wireLimits l₁ = wireLimits l₂) (h₂ : l₂.Accepted)
    (hlimits : r.limits = l₂) (s : Outbound sha256 l₁) (n : Nat)
    (hroom : r.incompleteBytes + (chunkAt l₂.maxFramePayloadBytes s.message.payload n).length ≤
      l₂.maxMessageBytes) :
    r.append sha256 s.key (s.entry l₂ n).2 n
        (chunkAt l₂.maxFramePayloadBytes s.message.payload n) =
      if n + 1 = s.count then
        (r.retire s.key (s.entry l₂ n).2 (chunkAt l₂.maxFramePayloadBytes s.message.payload n),
          .ok (some s.message.sorted))
      else (r.store s.key (s.entry l₂ n).2 (chunkAt l₂.maxFramePayloadBytes s.message.payload n),
          .ok none) := by
  obtain ⟨-, hf, hm, -, -⟩ := wireLimits_eq hw
  obtain ⟨hsize, -, hcount⟩ := messageChunkCount_ok.mp s.chunked
  obtain ⟨-, hpos, -⟩ := h₂.wire
  have hreach : s.message.payload.length ≤ s.count * l₂.maxFramePayloadBytes := by
    rw [hcount, hf]
    exact length_le_count_mul hpos
  have hadd : (s.entry l₂ n).2.add (chunkAt l₂.maxFramePayloadBytes s.message.payload n) =
      (s.entry l₂ (n + 1)).2 := chunksAt_add n
  have hle : (s.message.payload.take ((n + 1) * l₂.maxFramePayloadBytes)).length ≤
      s.message.payload.length := List.length_take_le' _ _
  have hreceived : (s.entry l₂ (n + 1)).2.received =
      (s.message.payload.take ((n + 1) * l₂.maxFramePayloadBytes)).length := rfl
  have htotal : (s.entry l₂ (n + 1)).2.total = s.message.payload.length := rfl
  have hstate : (s.entry l₂ (n + 1)).2.count = s.count := rfl
  have hdigest : (sha256 s.message.payload).text = (s.entry l₂ (n + 1)).2.digest := rfl
  have hnext : (n : Int) = (s.entry l₂ n).2.nextIndex := rfl
  unfold MessageReader.append MessageReader.retire MessageReader.store
  rw [if_neg (not_not.mpr hnext), if_neg (by rw [hlimits]; omega)]
  dsimp only
  rw [hadd, if_neg (by rw [hreceived, htotal]; omega), hstate]
  by_cases hlast : n + 1 = s.count
  · have hall : s.message.payload.take ((n + 1) * l₂.maxFramePayloadBytes) = s.message.payload :=
      List.take_of_length_le (by rw [hlast]; exact hreach)
    have hparts : (s.entry l₂ (n + 1)).2.parts.flatten = s.message.payload := by
      show ((List.range (n + 1)).map (chunkAt l₂.maxFramePayloadBytes s.message.payload)).flatten = _
      rw [flatten_chunkAt, hall]
    rw [if_neg (by omega), if_neg (by rw [hreceived, hall, htotal]; omega), if_pos hlast, hparts,
      if_neg (not_not.mpr hdigest)]
    rfl
  · rw [if_pos (by omega), if_neg hlast]

/-- The reader holds the next message and the rest. -/
structure Holding (l₂ : RemoteLimits) (s : Outbound sha256 l₁) (n : Nat) (rest : List (Str × Chunks))
    (r : MessageReader) : Prop where
  bounds : WithinBounds r
  limits : r.limits = l₂
  messages : r.messages.Perm (s.entry l₂ n :: rest)

variable {r : MessageReader} {n : Nat} {rest : List (Str × Chunks)}

theorem Holding.lookup (h : Holding l₂ s n rest r) :
    r.messages.lookup s.key = some (s.entry l₂ n).2 := by
  have hmem : s.entry l₂ n ∈ r.messages := h.messages.mem_iff.mpr List.mem_cons_self
  obtain ⟨a, b, hr⟩ := List.append_of_mem hmem
  refine List.lookup_eq_some_iff.mpr ⟨a, b, hr, fun e he => ?_⟩
  have hnodup := h.bounds.nodup
  rw [hr, List.map_append, List.map_cons, List.nodup_middle, List.nodup_cons, List.mem_append,
    not_or] at hnodup
  rw [bne_iff_ne]
  intro hkey
  exact hnodup.1.1 (List.mem_map.mpr ⟨e, he, hkey.symm⟩)

theorem Holding.split (h : Holding l₂ s n rest r) : ∃ a b,
    r.messages = a ++ (s.key, (s.entry l₂ n).2) :: b ∧ s.key ∉ a.map Prod.fst ∧ s.key ∉ b.map Prod.fst ∧ (a ++ b).Perm rest := by
  obtain ⟨a, b, hr, ha, hb⟩ := lookup_split h.bounds.nodup h.lookup
  refine ⟨a, b, hr, ha, hb, ?_⟩
  have hperm := h.messages
  rw [hr] at hperm
  exact (List.perm_middle.symm.trans hperm).cons_inv

/-- A frame that is not the last one of its message. -/
theorem Holding.store (h : Holding l₂ s n rest r) {chunk : Bytes}
    (hchunk : chunk = chunkAt l₂.maxFramePayloadBytes s.message.payload n) :
    (r.store s.key (s.entry l₂ n).2 chunk).messages.Perm (s.entry l₂ (n + 1) :: rest) := by
  obtain ⟨a, b, hr, ha, hb, hrest⟩ := h.split
  have hadd : (s.key, (s.entry l₂ n).2.add chunk) = s.entry l₂ (n + 1) := by
    rw [hchunk]
    exact congrArg (Prod.mk s.key) (chunksAt_add n)
  rw [store_messages hr ha hb, hadd]
  exact List.perm_middle.trans (hrest.cons _)

theorem Holding.retire (h : Holding l₂ s n rest r) {chunk : Bytes} :
    (r.retire s.key (s.entry l₂ n).2 chunk).messages.Perm rest := by
  obtain ⟨a, b, hr, ha, hb, hrest⟩ := h.split
  rw [retire_messages hr ha hb]
  exact hrest

/-- `_accept` comes to the end with the message of the frame in the table. -/
theorem accept_holding (hw : wireLimits l₁ = wireLimits l₂) (hlimits : r.limits = l₂)
    (hb : WithinBounds r) (hn : n < s.count)
    (hmessages : r.messages.Perm ((if n = 0 then [] else [s.entry l₂ n]) ++ rest))
    (hrest : ∀ e ∈ rest, e.1 ≠ s.key)
    (hroom : n = 0 → rest.length < l₂.maxIncompleteMessages) :
    ∃ r', Holding l₂ s n rest r' ∧ r'.incompleteBytes = r.incompleteBytes ∧
      r.accept sha256 (arrivalAt l₂ s.message s.messageId (sha256 s.message.payload) s.count n).kind
          (arrivalAt l₂ s.message s.messageId (sha256 s.message.payload) s.count n).header
          (arrivalAt l₂ s.message s.messageId (sha256 s.message.payload) s.count n).payload =
        r'.append sha256 s.key (s.entry l₂ n).2 n
          (chunkAt l₂.maxFramePayloadBytes s.message.payload n) := by
  obtain ⟨-, -, hm, -, hchunks⟩ := wireLimits_eq hw
  obtain ⟨hsize, hle, -⟩ := messageChunkCount_ok.mp s.chunked
  unfold arrivalAt
  dsimp only
  rw [accept_frame sha256 hn (by rw [hlimits]; omega) (by rw [hlimits]; omega)]
  unfold MessageReader.place
  by_cases hzero : n = 0
  · subst hzero
    rw [if_pos rfl, List.nil_append] at hmessages
    have hlookup : r.messages.lookup s.messageId.text = none := by
      refine List.lookup_eq_none_iff.mpr fun e he => ?_
      exact bne_iff_ne.mpr (Ne.symm (hrest e (hmessages.mem_iff.mp he)))
    have hlen : r.messages.length < r.limits.maxIncompleteMessages := by
      rw [hmessages.length_eq, hlimits]
      exact hroom rfl
    refine ⟨r.enter s.key (s.entry l₂ 0).2, ⟨hb.enter hlookup hlen (by simp [Outbound.entry, chunksAt])
      (by simp [Outbound.entry, chunksAt]), hlimits, ?_⟩, rfl, ?_⟩
    · exact (List.perm_append_singleton _ _).trans (hmessages.cons _)
    · rw [hlookup]
      simp [frameControlAt, Dict.obj, Value.canon, Nat.not_le.mpr hlen, MessageReader.enter,
        Outbound.entry, chunksAt, Outbound.key, Message.sorted, Dict.sorted]
  · rw [if_neg hzero] at hmessages
    have hhold : Holding l₂ s n rest r := ⟨hb, hlimits, hmessages⟩
    have hlookup : r.messages.lookup s.messageId.text = some (s.entry l₂ n).2 := hhold.lookup
    refine ⟨r, hhold, rfl, ?_⟩
    rw [hlookup]
    simp only [frameControlAt, if_neg hzero, Obj.none, Value.canon]
    rw [if_neg]
    · rfl
    · simp [Outbound.entry, chunksAt, Message.sorted]

/-! ## The whole trace -/

/-- What the reader holds of the messages other than `s`. -/
def held (l₂ : RemoteLimits) (sent : List (Outbound sha256 l₁)) (s : Outbound sha256 l₁)
    (first last : List (Str × Frame)) : List (Str × Chunks) :=
  (others sent s fun s' => s'.key ∈ keys first ∧ s'.key ∈ keys last).map fun s' =>
    s'.entry l₂ (s'.among first).length

/-- Traces with the same frames of the messages other than `s`. -/
def SameElsewhere (s : Outbound sha256 l₁) (a b : List (Str × Frame)) : Prop :=
  ∀ s' : Outbound sha256 l₁, s'.key ≠ s.key → s'.among a = s'.among b

theorem sameElsewhere_snoc (s : Outbound sha256 l₁) (f : Frame) (first : List (Str × Frame)) :
    SameElsewhere s (first ++ [(s.key, f)]) first := by
  intro s' hne
  rw [among_append, among_other (Ne.symm hne)]
  exact List.append_nil _

theorem sameElsewhere_cons (s : Outbound sha256 l₁) (f : Frame) (last : List (Str × Frame)) :
    SameElsewhere s ((s.key, f) :: last) last :=
  fun _ hne => among_other (Ne.symm hne) last

theorem sameElsewhere_refl (s : Outbound sha256 l₁) (a : List (Str × Frame)) : SameElsewhere s a a :=
  fun _ _ => rfl

theorem SameElsewhere.mem_keys {a b : List (Str × Frame)} (h : SameElsewhere s a b)
    (hne : s'.key ≠ s.key) : s'.key ∈ keys a ↔ s'.key ∈ keys b := by
  rw [← not_iff_not, ← among_eq_nil, ← among_eq_nil, h s' hne]

/-- The open messages are `s`, if it is open, and the others. -/
theorem openMessages_perm (l₂ : RemoteLimits) (hids : (sent.map Outbound.key).Nodup) (hs : s ∈ sent)
    {a b : List (Str × Frame)} (ha : SameElsewhere s a first) (hb : SameElsewhere s b last) :
    ((openMessages sent a b).map fun s' => s'.entry l₂ (s'.among a).length).Perm
      ((if s.key ∈ keys a ∧ s.key ∈ keys b then [s.entry l₂ (s.among a).length] else []) ++
        held l₂ sent s first last) := by
  refine ((filter_perm hids hs _).map _).trans ?_
  have hothers : others sent s (fun s' => s'.key ∈ keys a ∧ s'.key ∈ keys b) =
      others sent s fun s' => s'.key ∈ keys first ∧ s'.key ∈ keys last :=
    others_congr fun s' hne => decide_eq_decide.mpr (and_congr (ha.mem_keys hne) (hb.mem_keys hne))
  have hentries : (others sent s fun s' => s'.key ∈ keys first ∧ s'.key ∈ keys last).map
      (fun s' => s'.entry l₂ (s'.among a).length) = held l₂ sent s first last :=
    List.map_congr_left fun s' hs' => by rw [ha s' (key_of_mem_others hs')]
  rw [List.map_append, hothers, hentries]
  by_cases hopen : s.key ∈ keys a ∧ s.key ∈ keys b
  · rw [if_pos (decide_eq_true hopen), if_pos hopen]
    exact List.Perm.refl _
  · rw [if_neg (fun h => hopen (of_decide_eq_true h)), if_neg hopen]
    exact List.Perm.refl _

theorem key_of_mem_held {e : Str × Chunks} (h : e ∈ held l₂ sent s first last) : e.1 ≠ s.key := by
  obtain ⟨s', hs', rfl⟩ := List.mem_map.mp h
  exact key_of_mem_others hs'

section Step

variable (htrace : Interleaving sent (first ++ (s.key, f) :: last))

include htrace

/-- The octets that the reader counts are those received of the open messages. -/
theorem Midway.incompleteBytes (hw : wireLimits l₁ = wireLimits l₂)
    (h : Midway l₂ sent first ((s.key, f) :: last) r) :
    r.incompleteBytes = (((openMessages sent first ((s.key, f) :: last)).map fun s' =>
      s'.octets first).sum : Nat) := by
  obtain ⟨-, hf, -, -, -⟩ := wireLimits_eq hw
  rw [h.bounds.bytes, MessageReader.held, (h.messages.map _).sum_nat, List.map_map]
  refine congrArg (fun l : List Nat => (l.sum : Int)) (List.map_congr_left fun s' hs' => ?_)
  have hframes := htrace.frames s' (List.mem_filter.mp hs').1
  rw [among_append] at hframes
  have hoctets := octets_take hframes.symm
  rw [hf] at hoctets
  exact hoctets.symm

/-- **One frame more.** The reader accepts the next frame; the last frame of a message returns it. -/
theorem midway_accept (hw : wireLimits l₁ = wireLimits l₂) (h₂ : l₂.Accepted)
    (hids : (sent.map Outbound.key).Nodup) (hs : s ∈ sent)
    (h : Midway l₂ sent first ((s.key, f) :: last) r)
    (hopen : (openMessages sent (first ++ [(s.key, f)]) ((s.key, f) :: last)).length ≤
      l₂.maxIncompleteMessages)
    (hbytes : ((openMessages sent first ((s.key, f) :: last)).map fun s' => s'.octets first).sum +
      f.chunk.length ≤ l₂.maxMessageBytes) :
    ∃ a r', f.arrival l₂ = .ok a ∧
      r.accept sha256 a.kind a.header a.payload =
        (r', .ok (if s.key ∈ keys last then none else some s.message.sorted)) ∧
      Midway l₂ sent (first ++ [(s.key, f)]) last r' := by
  obtain ⟨-, hf, -, -, -⟩ := wireLimits_eq hw
  have hsplit := frames_split htrace hs
  have hnext := frames_split_next hsplit
  obtain ⟨hlt, hlast⟩ := frames_split_count hsplit
  rw [among_eq_nil] at hlast
  have hchunk : f.chunk = chunkAt l₂.maxFramePayloadBytes s.message.payload (s.among first).length := by
    rw [← hf]
    exact (encodeFrame_ok.mp hnext).2.2
  have hself : s.key ∈ keys ((s.key, f) :: last) := mem_keys_cons.mpr (.inl rfl)
  have hmine : s.key ∈ keys (first ++ [(s.key, f)]) :=
    mem_keys_append.mpr (.inr (mem_keys_cons.mpr (.inl rfl)))
  -- apart from the message of the frame, the same messages are open before and after
  have hfirst := sameElsewhere_snoc s f first
  have hlast' := sameElsewhere_cons s f last
  have hmessages : r.messages.Perm ((if (s.among first).length = 0 then [] else
      [s.entry l₂ (s.among first).length]) ++ held l₂ sent s first last) := by
    have hbefore := openMessages_perm l₂ hids hs (sameElsewhere_refl s first) hlast'
    have hzero : (s.among first).length = 0 ↔ ¬ s.key ∈ keys first := by
      rw [List.length_eq_zero_iff, among_eq_nil]
    refine h.messages.trans (hbefore.trans (List.Perm.of_eq ?_))
    by_cases hmem : s.key ∈ keys first
    · rw [if_pos ⟨hmem, hself⟩, if_neg (fun h => hzero.mp h hmem)]
    · rw [if_neg (fun h => hmem h.1), if_pos (hzero.mpr hmem)]
  have hroom : (s.among first).length = 0 →
      (held l₂ sent s first last).length < l₂.maxIncompleteMessages := by
    intro _
    have hlen := (openMessages_perm l₂ hids hs hfirst hlast').length_eq
    rw [if_pos ⟨hmine, hself⟩, List.length_map, List.length_append, List.length_singleton] at hlen
    omega
  obtain ⟨r', hhold, hsame, haccept⟩ := accept_holding hw h.limits h.bounds hlt hmessages
    (fun _ he => key_of_mem_held he) hroom
  have hle : r'.incompleteBytes + (chunkAt l₂.maxFramePayloadBytes s.message.payload
      (s.among first).length).length ≤ l₂.maxMessageBytes := by
    rw [hsame, h.incompleteBytes htrace hw, ← hchunk]
    omega
  rw [append_entry hw h₂ hhold.limits s _ hle] at haccept
  obtain ⟨hb, hlimits⟩ := bounded_accept sha256 h.bounds
    (arrivalAt l₂ s.message s.messageId (sha256 s.message.payload) s.count (s.among first).length)
  rw [haccept] at hb hlimits
  have hafter := openMessages_perm l₂ hids hs hfirst (sameElsewhere_refl s last)
  refine ⟨_, _, arrival_encodeFrame hw hnext, haccept.trans ?_, hb, hlimits.trans h.limits, ?_⟩
  · by_cases hmore : s.key ∈ keys last
    · rw [if_neg (fun h => hlast.mp h hmore), if_pos hmore]
    · rw [if_pos (hlast.mpr hmore), if_neg hmore]
  · by_cases hmore : s.key ∈ keys last
    · rw [if_neg (fun h => hlast.mp h hmore)]
      rw [if_pos ⟨hmine, hmore⟩, among_append, among_self] at hafter
      rw [List.length_append] at hafter
      exact (hhold.store rfl).trans hafter.symm
    · rw [if_pos (hlast.mpr hmore)]
      rw [if_neg (fun h => hmore h.2)] at hafter
      exact hhold.retire.trans hafter.symm

end Step

/-- Before every frame, the messages that are open together with its own are few enough, and so are
the octets received of the open ones together with its own. -/
structure WithinLimits (limits : RemoteLimits) (sent : List (Outbound sha256 l₁))
    (trace : List (Str × Frame)) : Prop where
  incomplete : ∀ first e last, trace = first ++ e :: last →
    (openMessages sent (first ++ [e]) (e :: last)).length ≤ limits.maxIncompleteMessages
  bytes : ∀ first e last, trace = first ++ e :: last →
    ((openMessages sent first (e :: last)).map fun s => s.octets first).sum + e.2.chunk.length ≤
      limits.maxMessageBytes

/-- What the call with this frame is to return: its message, if no frame of it is to come. -/
def Delivers (sent : List (Outbound sha256 l₁)) (key : Str) (last : List (Str × Frame))
    (result : Option Message) : Prop :=
  if key ∈ keys last then result = none
  else ∃ s ∈ sent, s.key = key ∧ ∃ m, result = some m ∧ s.message.Same m

/-- The calls for the rest of a trace. -/
theorem midway_acceptAll (hw : wireLimits l₁ = wireLimits l₂) (h₂ : l₂.Accepted)
    (hids : (sent.map Outbound.key).Nodup) {trace : List (Str × Frame)}
    (htrace : Interleaving sent trace) (hlimits : WithinLimits l₂ sent trace)
    (hsplit : trace = first ++ last) (h : Midway l₂ sent first last r) :
    ∃ (arrivals : List Arrival) (results : List (Option Message)) (r' : MessageReader),
      List.Forall₂ (fun e a => e.2.arrival l₂ = .ok a) last arrivals ∧
      r.acceptAll sha256 arrivals = (r', results.map Except.ok) ∧ Midway l₂ sent trace [] r' ∧
      ∀ a e b, last = a ++ e :: b → ∃ result, results[a.length]? = some result ∧
        Delivers sent e.1 b result := by
  induction last generalizing first r with
  | nil =>
    rw [List.append_nil] at hsplit
    subst hsplit
    refine ⟨[], [], r, .nil, rfl, h, ?_⟩
    intro a e b hab
    exact absurd hab (by simp)
  | cons e last ih =>
    obtain ⟨key, f⟩ := e
    obtain ⟨s, hs, hkey⟩ := htrace.known (key, f) (by rw [hsplit]; simp)
    dsimp only at hkey
    subst hkey
    obtain ⟨a, r₁, harrival, haccept, hnext⟩ := midway_accept (hsplit ▸ htrace) hw h₂ hids hs h
      (hlimits.incomplete _ _ _ hsplit) (hlimits.bytes _ _ _ hsplit)
    obtain ⟨arrivals, results, r', harrivals, hall, hend, hresults⟩ :=
      ih (by rw [hsplit]; simp) hnext
    refine ⟨a :: arrivals, (if s.key ∈ keys last then none else some s.message.sorted) :: results, r',
      .cons harrival harrivals, ?_, hend, ?_⟩
    · simp only [MessageReader.acceptAll, haccept, hall]
      rfl
    · intro before e after heq
      cases before with
      | nil =>
        cases heq
        refine ⟨_, rfl, ?_⟩
        unfold Delivers
        by_cases hmore : s.key ∈ keys last
        · rw [if_pos hmore, if_pos hmore]
        · rw [if_neg hmore, if_neg hmore]
          exact ⟨s, hs, rfl, _, rfl, s.message.same_sorted⟩
      | cons x before =>
        cases heq
        obtain ⟨result, hget, hdelivers⟩ := hresults before e after rfl
        exact ⟨result, hget, hdelivers⟩

/-- The last frame of a message. -/
theorem exists_last {key : Str} {trace : List (Str × Frame)} (h : key ∈ keys trace) :
    ∃ first f last, trace = first ++ (key, f) :: last ∧ key ∉ keys last := by
  induction trace with
  | nil => cases h
  | cons e trace ih =>
    by_cases hmem : key ∈ keys trace
    · obtain ⟨first, f, last, rfl, hlast⟩ := ih hmem
      exact ⟨e :: first, f, last, rfl, hlast⟩
    · obtain ⟨key', f⟩ := e
      rcases mem_keys_cons.mp h with rfl | h
      · exact ⟨[], f, trace, rfl, hmem⟩
      · exact absurd h hmem

theorem midway_new (l₂ : RemoteLimits) (sent : List (Outbound sha256 l₁))
    (trace : List (Str × Frame)) : Midway l₂ sent [] trace (MessageReader.new l₂) := by
  refine ⟨bounded_new l₂, rfl, List.Perm.of_eq ?_⟩
  simp [openMessages, keys, MessageReader.new]

/-- When every frame has arrived nothing is left. -/
theorem Midway.done {trace : List (Str × Frame)} (h : Midway l₂ sent trace [] r) :
    r = MessageReader.new l₂ := by
  have hnil : r.messages = [] := by
    have hperm := h.messages
    simpa [openMessages, keys] using hperm
  have hbytes := h.bounds.bytes
  have hlimits := h.limits
  obtain ⟨limits, messages, incompleteBytes⟩ := r
  dsimp only at hnil hlimits
  subst hnil hlimits
  exact congrArg (MessageReader.mk limits []) hbytes

end Next

end Several

/-- **Interleaved messages.** The frames that `send_message` produces for messages with distinct IDs
arrive in any order that keeps each message's own and stays within the reader's limits.  Then
`_accept` raises for none of them, it returns every message at the call with its last frame and at no
other call, and it holds nothing at the end. -/
theorem acceptAll_interleaving (sha256 : Bytes → Hex 64) {l₁ l₂ : RemoteLimits} (h₂ : l₂.Accepted)
    (hw : wireLimits l₁ = wireLimits l₂) (sent : List (Outbound sha256 l₁))
    (hids : (sent.map Outbound.key).Nodup) (trace : List (Str × Frame))
    (htrace : Interleaving sent trace) (hlimits : WithinLimits l₂ sent trace) :
    ∃ (arrivals : List Arrival) (results : List (Option Message)),
      List.Forall₂ (fun e a => e.2.arrival l₂ = .ok a) trace arrivals ∧
      (MessageReader.new l₂).acceptAll sha256 arrivals =
        (MessageReader.new l₂, results.map Except.ok) ∧
      (∀ first e last, trace = first ++ e :: last → ∃ result, results[first.length]? = some result ∧
        Delivers sent e.1 last result) ∧
      ∀ s ∈ sent, ∃ first f last, trace = first ++ (s.key, f) :: last ∧ s.key ∉ keys last ∧
        ∃ m, results[first.length]? = some (some m) ∧ s.message.Same m := by
  obtain ⟨arrivals, results, r', harrivals, hall, hend, hresults⟩ :=
    midway_acceptAll hw h₂ hids htrace hlimits (List.nil_append trace).symm
      (midway_new l₂ sent trace)
  cases hend.done
  refine ⟨arrivals, results, harrivals, hall, hresults, ?_⟩
  intro s hs
  have hmem : s.key ∈ keys trace := by
    by_contra hnot
    have hnil := htrace.frames s hs
    rw [among_eq_nil.mpr hnot] at hnil
    have hlen := length_frames s
    rw [← hnil, (messageChunkCount_ok.mp s.chunked).2.2, List.length_nil] at hlen
    omega
  obtain ⟨first, f, last, hsplit, hlast⟩ := exists_last hmem
  obtain ⟨result, hget, hdelivers⟩ := hresults first (s.key, f) last hsplit
  unfold Delivers at hdelivers
  rw [if_neg hlast] at hdelivers
  obtain ⟨s', hs', hkey, m, rfl, hsame⟩ := hdelivers
  cases List.inj_on_of_nodup_map hids hs' hs hkey
  exact ⟨first, f, last, hsplit, hlast, m, hget, hsame⟩

/-- A trace within the limits, tested frame by frame. -/
theorem withinLimits_of_forall {sha256 : Bytes → Hex 64} {l₁ limits : RemoteLimits}
    {sent : List (Outbound sha256 l₁)} {trace : List (Str × Frame)}
    (h : ∀ n, n < trace.length → ∀ e ∈ (trace.drop n).head?,
      (openMessages sent (trace.take n ++ [e]) (trace.drop n)).length ≤ limits.maxIncompleteMessages ∧
        ((openMessages sent (trace.take n) (trace.drop n)).map fun s =>
          s.octets (trace.take n)).sum + e.2.chunk.length ≤ limits.maxMessageBytes) :
    WithinLimits limits sent trace := by
  have hsplit : ∀ first e last, trace = first ++ e :: last →
      first.length < trace.length ∧ e ∈ (trace.drop first.length).head? ∧
        trace.take first.length = first ∧ trace.drop first.length = e :: last := by
    rintro first e last rfl
    simp
  constructor
  · intro first e last htrace
    obtain ⟨hlt, he, htake, hdrop⟩ := hsplit first e last htrace
    have := (h first.length hlt e he).1
    rwa [htake, hdrop] at this
  · intro first e last htrace
    obtain ⟨hlt, he, htake, hdrop⟩ := hsplit first e last htrace
    have := (h first.length hlt e he).2
    rwa [htake, hdrop] at this

theorem eq_ok_of_isOk {α : Type} {x : Except Raised (List α)} (h : x.isOk) :
    x = .ok (x.toOption.getD []) := by
  cases x with
  | error e => cases h
  | ok a => rfl

/-- A result in two frames. -/
def longMessage : Outbound sampleDigest smallLimits where
  message := ⟨.result, Dict.empty.set (lit "request_id") (.str (lit "a:1")), [1, 2, 3]⟩
  messageId := Hex.zeros 32
  count := 2
  chunked := rfl
  frames := (encodeFrames smallLimits
    ⟨.result, Dict.empty.set (lit "request_id") (.str (lit "a:1")), [1, 2, 3]⟩ (Hex.zeros 32)
    (sampleDigest [1, 2, 3]) 2 (List.range 2)).toOption.getD []
  produced := eq_ok_of_isOk (by decide +kernel)

/-- A ping in one frame. -/
def shortMessage : Outbound sampleDigest smallLimits where
  message := ⟨.ping, Dict.empty, []⟩
  messageId := ⟨List.replicate 32 0x31, rfl, fun c hc => by rw [List.eq_of_mem_replicate hc]; rfl⟩
  count := 1
  chunked := rfl
  frames := (encodeFrames smallLimits ⟨.ping, Dict.empty, []⟩
    ⟨List.replicate 32 0x31, rfl, fun c hc => by rw [List.eq_of_mem_replicate hc]; rfl⟩
    (sampleDigest []) 1 (List.range 1)).toOption.getD []
  produced := eq_ok_of_isOk (by decide +kernel)

/-- The ping arrives between the frames of the result. -/
def pingInBetween : List (Str × Frame) :=
  (longMessage.frames.take 1).map (fun f => (longMessage.key, f)) ++
    shortMessage.frames.map (fun f => (shortMessage.key, f)) ++
    (longMessage.frames.drop 1).map (fun f => (longMessage.key, f))

theorem interleaving_pingInBetween : Interleaving [longMessage, shortMessage] pingInBetween := by
  have hne : longMessage.key ≠ shortMessage.key := by decide
  have hself : ∀ (s : Outbound sampleDigest smallLimits) (l : List Frame),
      s.among (l.map fun f => (s.key, f)) = l := by
    intro s l
    simp [Outbound.among, List.filter_map, Function.comp_def]
  have hother : ∀ (s s' : Outbound sampleDigest smallLimits) (l : List Frame), s'.key ≠ s.key →
      s.among (l.map fun f => (s'.key, f)) = [] := by
    intro s s' l hkey
    simp [Outbound.among, List.filter_map, Function.comp_def, hkey]
  constructor
  · intro e he
    unfold pingInBetween at he
    rw [List.mem_append, List.mem_append] at he
    rcases he with (he | he) | he
    all_goals
      obtain ⟨f, -, rfl⟩ := List.mem_map.mp he
      simp
  · intro s hs
    rcases List.mem_cons.mp hs with rfl | hs
    · rw [pingInBetween, among_append, among_append, hself, hself, hother _ _ _ hne.symm,
        List.append_nil, List.take_append_drop]
    · cases List.mem_singleton.mp hs
      rw [pingInBetween, among_append, among_append, hself, hother _ _ _ hne, hother _ _ _ hne,
        List.nil_append, List.append_nil]

theorem acceptAll_interleaving_pingInBetween :
    smallLimits.Accepted ∧ Interleaving [longMessage, shortMessage] pingInBetween ∧
      WithinLimits smallLimits [longMessage, shortMessage] pingInBetween ∧
      ∃ (arrivals : List Arrival) (results : List (Option Message)),
        List.Forall₂ (fun e a => e.2.arrival smallLimits = .ok a) pingInBetween arrivals ∧
        (MessageReader.new smallLimits).acceptAll sampleDigest arrivals =
          (MessageReader.new smallLimits, results.map Except.ok) ∧
        ∀ s ∈ [longMessage, shortMessage], ∃ first f last,
          pingInBetween = first ++ (s.key, f) :: last ∧ s.key ∉ keys last ∧
            ∃ m, results[first.length]? = some (some m) ∧ s.message.Same m := by
  have haccepted : smallLimits.Accepted := by decide +kernel
  have hlimits : WithinLimits smallLimits [longMessage, shortMessage] pingInBetween :=
    withinLimits_of_forall (by decide +kernel)
  obtain ⟨arrivals, results, harrivals, hall, -, hreturned⟩ :=
    acceptAll_interleaving sampleDigest haccepted rfl [longMessage, shortMessage] (by decide)
      pingInBetween interleaving_pingInBetween hlimits
  exact ⟨haccepted, interleaving_pingInBetween, hlimits, arrivals, results, harrivals, hall, hreturned⟩

end Deadpool.Remote
