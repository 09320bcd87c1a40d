import Deadpool.Remote.Envelope
import Mathlib.Algebra.Order.BigOperators.Group.List

/-!
# The frames of a validated message

`validate_message_control` encodes one frame, the first, with zeros in the place of the message ID and
the digest.  The later frames hold `null` instead of the control object, and an index with more
digits.  The control object of a request is longer than any index, so the later frames fit as well.

Principal result: `validated_frames` — the frames of a validated message can be encoded, and a message
fails either before anything of it is written or on the connection.
-/

set_option autoImplicit false

namespace Deadpool.Remote

open Deadpool.Py

/-! ## The control object of a request -/

/-- A control object with a request ID has at least 17 characters. -/
theorem length_dumps_request {control : Dict} {requestId : Str}
    (h : control.items.get? (lit "request_id") = some (.str requestId)) :
    17 ≤ (dumps (.dict control.items)).length := by
  obtain ⟨item, hfind, hvalue⟩ := Option.map_eq_some_iff.mp h
  have hmem : item ∈ control.items := List.mem_of_find?_eq_some hfind
  have hkey : item.1 = .str (lit "request_id") := by
    have htest := List.find?_some hfind
    exact of_decide_eq_true htest
  have hmember : memberLength item = (quote requestId).length + 14 := by
    have hquote : (quote (lit "request_id")).length = 12 := rfl
    have htext : (dumps (.str requestId)).length = (quote requestId).length := rfl
    unfold memberLength
    rw [hkey, hvalue, Key.text, hquote, htext]
    omega
  have hsum : memberLength item ≤ (control.items.map memberLength).sum :=
    List.single_le_sum (fun _ _ => Nat.zero_le _) _ (List.mem_map_of_mem hmem)
  rw [length_dumps_dict (List.ne_nil_of_mem hmem)]
  rw [hmember, length_quote] at hsum
  omega

section Frames

variable {limits : RemoteLimits} {message : Message}

/-- A frame of a validated message has room for its control text. -/
theorem frame_room (hl : limits.Accepted) {requestId : Str}
    (hid : message.control.items.get? (lit "request_id") = some (.str requestId))
    (hsize : message.payload.length < 2 ^ 32)
    (hvalid : validateMessageControl message.control message.payload.length limits = .ok ())
    {index : Nat} (hindex : index < chunkCount limits message.payload.length) :
    (dumps (frameControlAt message index).val).length +
        digits (chunkCount limits message.payload.length) + digits index +
          digits message.payload.length + 163 ≤ limits.maxControlBytes := by
  obtain ⟨-, -, -, -, -, hlength⟩ := (validateMessageControl_ok hl).mp hvalid
  have hcontrol := length_dumps_request hid
  have hcount := chunkCount_le limits message.payload.length
  by_cases hfirst : index = 0
  · subst hfirst
    have hone : digits 0 = 1 := rfl
    rw [frameControlAt, if_pos rfl]
    simp only [Dict.obj]
    omega
  · have hnull : (dumps Value.none).length = 4 := rfl
    have hdigits : digits index ≤ 10 := digits_le (by omega) (by omega)
    rw [frameControlAt, if_neg hfirst]
    simp only [Obj.none]
    omega

/-- Every frame control of a validated message can be encoded. -/
theorem encodeFrameControl_validated (hl : limits.Accepted) {requestId : Str}
    (hid : message.control.items.get? (lit "request_id") = some (.str requestId))
    (hsize : message.payload.length < 2 ^ 32)
    (hvalid : validateMessageControl message.control message.payload.length limits = .ok ())
    (messageId : Hex 32) (digest : Hex 64) {index : Nat}
    (hindex : index < chunkCount limits message.payload.length) :
    ∃ data, encodeFrameControl messageId.text index (chunkCount limits message.payload.length)
      message.payload.length digest.text (frameControlAt message index) limits = .ok data := by
  obtain ⟨-, hn, hbounded, hheight, hdigest, -⟩ := (validateMessageControl_ok hl).mp hvalid
  have hroom := frame_room hl hid hsize hvalid hindex
  have hcount := chunkCount_le limits message.payload.length
  have hcontrol : Bounded limits (frameControlAt message index).val ∧
      height (frameControlAt message index).val < maxJsonDepth := by
    unfold frameControlAt
    split
    · exact ⟨hbounded, hheight⟩
    · exact ⟨trivial, by decide⟩
  have hnumbers : index < 2 ^ 63 ∧ chunkCount limits message.payload.length < 2 ^ 63 := by omega
  obtain ⟨hb, hh⟩ := (@bounded_frameControl limits messageId digest _ _ _ _).mpr
    ⟨hcontrol.1, hcontrol.2, hdigest, hnumbers.1, hnumbers.2, hn⟩
  exact ⟨_, jsonDumps_ok.mpr ⟨hb, hh, by rw [length_frameControl]; exact hroom, rfl⟩⟩

/-- The lengths of a later frame are lengths that `_PREFIX` can hold. -/
theorem encodeFrame_later (hl : limits.Accepted) {requestId : Str}
    (hid : message.control.items.get? (lit "request_id") = some (.str requestId))
    (hsize : message.payload.length < 2 ^ 32)
    (hvalid : validateMessageControl message.control message.payload.length limits = .ok ())
    (messageId : Hex 32) (digest : Hex 64) {index : Nat} (hlater : index ≠ 0)
    (hindex : index < chunkCount limits message.payload.length) :
    ∃ frame, encodeFrame limits message messageId digest (chunkCount limits message.payload.length)
      index = .ok frame := by
  obtain ⟨-, hn, -, -, hdigest, -⟩ := (validateMessageControl_ok hl).mp hvalid
  have hroom := frame_room hl hid hsize hvalid hindex
  have hcount := chunkCount_le limits message.payload.length
  have hnull : (dumps Value.none).length = 4 := rfl
  have hdigits : digits index ≤ 10 ∧ digits (chunkCount limits message.payload.length) ≤ 10 ∧
      digits message.payload.length ≤ 10 :=
    ⟨digits_le (by omega) (by omega), digits_le (by omega) (by omega), digits_le (by omega) (by omega)⟩
  rw [frameControlAt, if_neg hlater] at hroom
  rw [encodeFrame_isOk, frameControlAt, if_neg hlater]
  refine ⟨trivial, by decide, hdigest, ⟨by omega, by omega, hn⟩, ?_, ?_⟩
  · simp only [Obj.none] at hroom ⊢
    omega
  · simp only [chunkAt, List.length_take, List.length_drop]
    omega

/-! ## What can go wrong on the way -/

/-- An error of the connection. -/
def Raised.OfConnection (e : Raised) : Prop := (∃ text, e = .timeout text) ∨ ∃ text, e = .eof text

theorem sendLoop_error {written data : Bytes} {events : List SendEvent} {sock : Outgoing} {e : Raised}
    (h : sendLoop written data events = (sock, .error e)) : e.OfConnection := by
  fun_induction sendLoop written data events with
  | case1 => cases h
  | case2 => cases h
  | case3 written data n events hne ih => exact ih h
  | case4 written data events hne ih => exact ih h
  | case5 written data events hne ih => exact ih h
  | case6 =>
    cases h
    exact .inl ⟨_, rfl⟩
  | case7 =>
    cases h
    exact .inr ⟨_, rfl⟩

theorem sendParts_error {parts : List Bytes} {sock sock' : Outgoing} {e : Raised}
    (h : sendParts sock parts = (sock', .error e)) : e.OfConnection := by
  induction parts generalizing sock with
  | nil => cases h
  | cons part parts ih =>
    unfold sendParts at h
    split at h
    · exact ih h
    · rename_i sock₁ e₁ hpart
      cases h
      exact sendLoop_error hpart

/-- Frames that can be encoded fail on the connection only. -/
theorem sendFrames_error {messageId : Hex 32} {digest : Hex 64} {count : Nat} {indices : List Nat}
    (hall : ∀ index ∈ indices, ∃ frame, encodeFrame limits message messageId digest count index = .ok frame)
    {sock sock' : Outgoing} {e : Raised}
    (h : sendFrames limits message messageId digest count sock indices = (sock', .error e)) :
    e.OfConnection := by
  induction indices generalizing sock with
  | nil => cases h
  | cons index rest ih =>
    obtain ⟨frame, hframe⟩ := hall index List.mem_cons_self
    unfold sendFrames at h
    rw [hframe] at h
    dsimp only at h
    split at h
    · exact ih (fun i hi => hall i (List.mem_cons_of_mem _ hi)) h
    · rename_i sock₁ e₁ hparts
      cases h
      exact sendParts_error hparts

/-- A message whose later frames can be encoded fails before it has written anything, or on the
connection. -/
theorem sendMessage_error (hl : limits.Accepted) {sha256 : Bytes → Hex 64} {messageId : Hex 32}
    (hlater : ∀ index, index ≠ 0 → index < chunkCount limits message.payload.length →
      ∃ frame, encodeFrame limits message messageId (sha256 message.payload)
        (chunkCount limits message.payload.length) index = .ok frame)
    {sock sock' : Outgoing} {e : Raised}
    (h : sendMessage sha256 sock message messageId limits = (sock', .error e)) :
    sock' = sock ∨ e.OfConnection := by
  unfold sendMessage at h
  split at h
  · cases h
    exact .inl rfl
  · rename_i count hcount
    obtain ⟨-, rfl⟩ := (messageChunkCount_eq hl).mp hcount
    obtain ⟨later, hrange, hmem⟩ : ∃ later, List.range (chunkCount limits message.payload.length) =
        0 :: later ∧ ∀ index ∈ later, index ≠ 0 ∧ index < chunkCount limits message.payload.length := by
      obtain ⟨n, hn⟩ : ∃ n, chunkCount limits message.payload.length = n + 1 :=
        Nat.exists_eq_succ_of_ne_zero (Nat.ne_of_gt
          (Nat.lt_of_lt_of_le Nat.zero_lt_one (Nat.le_max_left _ _)))
      refine ⟨_, by rw [hn, List.range_succ_eq_map], fun index hindex => ?_⟩
      obtain ⟨i, hi, rfl⟩ := List.mem_map.mp hindex
      have hlt := List.mem_range.mp hi
      omega
    rw [hrange] at h
    unfold sendFrames at h
    split at h
    · cases h
      exact .inl rfl
    · split at h
      · exact .inr (sendFrames_error (fun index hindex =>
          hlater index (hmem index hindex).1 (hmem index hindex).2) h)
      · rename_i sock₁ e₁ hparts
        cases h
        exact .inr (sendParts_error hparts)

end Frames

/-- **A validated message.**  If `validate_message_control` accepts the control object of a request for
a payload below 4 GiB, every frame control that `send_message` builds for it is within the limits,
whatever the message ID and the digest.  So `send_message` fails before it has written anything, or
because of the connection. -/
theorem validated_frames {limits : RemoteLimits} (hl : limits.Accepted) {message : Message}
    {requestId : Str} (hid : message.control.items.get? (lit "request_id") = some (.str requestId))
    (hsize : message.payload.length < 2 ^ 32)
    (hvalid : validateMessageControl message.control message.payload.length limits = .ok ()) :
    (∀ (messageId : Hex 32) (digest : Hex 64) (index : Nat),
      index < chunkCount limits message.payload.length →
        ∃ data, encodeFrameControl messageId.text index (chunkCount limits message.payload.length)
          message.payload.length digest.text (frameControlAt message index) limits = .ok data) ∧
    ∀ (sha256 : Bytes → Hex 64) (messageId : Hex 32) (sock sock' : Outgoing) (e : Raised),
      sendMessage sha256 sock message messageId limits = (sock', .error e) →
        sock' = sock ∨ e.OfConnection :=
  ⟨fun messageId digest _ hindex =>
      encodeFrameControl_validated hl hid hsize hvalid messageId digest hindex,
    fun sha256 messageId _ _ _ h => sendMessage_error hl (fun _ hlater hindex =>
      encodeFrame_later hl hid hsize hvalid messageId (sha256 message.payload) hlater hindex) h⟩

/-- A message of several frames. -/
def slicedMessage : Message :=
  ⟨.result, Dict.empty.set (lit "request_id") (.str (lit "a:1")), [1, 2, 3, 4, 5]⟩

theorem validated_frames_sliced : 1 < chunkCount smallLimits slicedMessage.payload.length ∧
    ∃ data, encodeFrameControl (Hex.zeros 32).text 1
      (chunkCount smallLimits slicedMessage.payload.length) slicedMessage.payload.length
      (Hex.zeros 64).text (frameControlAt slicedMessage 1) smallLimits = .ok data := by
  have hmany : 1 < chunkCount smallLimits slicedMessage.payload.length := by decide +kernel
  exact ⟨hmany, (validated_frames (by decide +kernel) rfl (by decide) (by decide +kernel)).1 (Hex.zeros 32)
    (Hex.zeros 64) 1 hmany⟩

end Deadpool.Remote
