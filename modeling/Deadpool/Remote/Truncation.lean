import Deadpool.Remote.Outcome

/-!
# Cutting a text to a number of octets

`_truncate_utf8` of `deadpool/remote/server.py` cuts the octets of a text and puts a marker at the
end.  Under `ensure_ascii` no character is shorter than its UTF-8 encoding, so a higher limit never
gives a text that is shorter on the wire, also where the marker gives way to the whole text.

Principal result: `truncateUtf8_spec` — what is kept of the text, and how long it is.
-/

set_option autoImplicit false

namespace Deadpool.Remote

open Deadpool.Py

/-! ## The marker -/

theorem length_truncationMarker : truncationMarker.length = 14 := rfl

/-- A part of the marker is as long on the wire as it is. -/
theorem escapedLength_marker {p : Str} (h : ∀ c ∈ p, c ∈ truncationMarker) :
    escapedLength p = p.length := by
  have hmarker : (truncationMarker.all fun c =>
      0x20 ≤ c.val ∧ c.val ≤ 0x7E ∧ c.val ≠ 0x22 ∧ c.val ≠ 0x5C) = true := by
    decide
  have hplain : ∀ c ∈ truncationMarker, escapeChar c = [c] := fun c hc =>
    escapeChar_plain (of_decide_eq_true (List.all_eq_true.mp hmarker c hc))
  induction p with
  | nil => rfl
  | cons c p ih =>
    have hrest := ih fun d hd => h d (List.mem_cons_of_mem _ hd)
    unfold escapedLength at hrest ⊢
    rw [List.flatMap_cons, hplain c (h c List.mem_cons_self), List.length_append,
      hrest, List.length_singleton, List.length_cons, Nat.add_comm]

theorem escapedLength_take_marker (n : Nat) :
    escapedLength (truncationMarker.take n) = min n 14 := by
  rw [escapedLength_marker fun c hc => List.mem_of_mem_take hc, List.length_take,
    length_truncationMarker]

theorem escapedLength_truncationMarker : escapedLength truncationMarker = 14 :=
  escapedLength_marker fun _ hc => hc

/-! ## What is kept -/

section Truncate

variable (value : Str)

/-- The three cases of the cut, in characters. -/
theorem truncateUtf8_eq (limit : Nat) :
    truncateUtf8 value limit =
      if (encodeUtf8Replace value).length ≤ limit then backslashReplace value
      else if limit ≤ 14 then truncationMarker.take limit
      else utf8Prefix (limit - 14) (backslashReplace value) ++ truncationMarker := by
  have hencodable := encodable_backslashReplace value
  unfold truncateUtf8
  dsimp only
  split
  · rw [encodeUtf8Replace, decodeUtf8_flatMap hencodable]
    rfl
  · rw [length_truncationMarker]
    split
    · rfl
    · rw [encodeUtf8Replace, decodeUtf8Ignore_take hencodable]

theorem length_truncateUtf8 (limit : Nat) :
    ((truncateUtf8 value limit).flatMap utf8Char).length ≤ limit := by
  have hmarker : Ascii truncationMarker := by decide
  rw [truncateUtf8_eq]
  split
  · assumption
  · split
    · have htake : Ascii (truncationMarker.take limit) := fun c hc => hmarker c (List.mem_of_mem_take hc)
      rw [flatMap_utf8Char_ascii htake, encodeAscii, List.length_map, List.length_take]
      omega
    · have hprefix := length_utf8Prefix_le (limit - 14) (backslashReplace value)
      rw [List.flatMap_append, List.length_append, flatMap_utf8Char_ascii hmarker, encodeAscii,
        List.length_map, length_truncationMarker]
      omega

/-- What is cut off is longer than the marker that replaces it. -/
theorem escapedLength_cut {limit : Nat} (hlong : limit < (encodeUtf8Replace value).length)
    (hlimit : 14 < limit) :
    escapedLength (utf8Prefix (limit - 14) (backslashReplace value)) + 14 ≤
      escapedLength (backslashReplace value) := by
  have hprefix := length_utf8Prefix_le (limit - 14) (backslashReplace value)
  obtain ⟨rest, hrest⟩ := utf8Prefix_prefix (limit - 14) (backslashReplace value)
  have hbytes : (encodeUtf8Replace value).length =
      ((utf8Prefix (limit - 14) (backslashReplace value)).flatMap utf8Char).length +
        (rest.flatMap utf8Char).length := by
    rw [encodeUtf8Replace, ← List.length_append, ← List.flatMap_append, hrest]
  have hescaped := length_utf8_le rest
  have hsplit := escapedLength_append (utf8Prefix (limit - 14) (backslashReplace value)) rest
  rw [hrest] at hsplit
  omega

/-- More octets never give a text that is shorter on the wire. -/
theorem escapedLength_truncateUtf8_mono {limit limit' : Nat} (h : limit ≤ limit') :
    escapedLength (truncateUtf8 value limit) ≤ escapedLength (truncateUtf8 value limit') := by
  have hwhole : (encodeUtf8Replace value).length ≤ escapedLength (backslashReplace value) :=
    length_utf8_le (backslashReplace value)
  rw [truncateUtf8_eq, truncateUtf8_eq]
  by_cases hfits : (encodeUtf8Replace value).length ≤ limit
  · rw [if_pos hfits, if_pos (Nat.le_trans hfits h)]
  rw [if_neg hfits]
  by_cases hfits' : (encodeUtf8Replace value).length ≤ limit'
  · -- the marker gives way to the whole text
    rw [if_pos hfits']
    split
    · rw [escapedLength_take_marker]
      omega
    · rw [escapedLength_append, escapedLength_truncationMarker]
      exact escapedLength_cut value (by omega) (by omega)
  · rw [if_neg hfits']
    by_cases hshort : limit ≤ 14
    · rw [if_pos hshort, escapedLength_take_marker]
      split
      · rw [escapedLength_take_marker]
        omega
      · rw [escapedLength_append, escapedLength_truncationMarker]
        omega
    · rw [if_neg hshort, if_neg (by omega), escapedLength_append, escapedLength_append]
      have hprefix := escapedLength_prefix
        (utf8Prefix_mono (show limit - 14 ≤ limit' - 14 by omega) (backslashReplace value))
      omega

/-- **Cutting a text.**  The result of `_truncate_utf8` is text of at most `limit` octets: the text
itself if it fits, with escapes for lone surrogates, and else its longest prefix that leaves room for
the marker, or the first characters of the marker.  Its length on the wire grows with the limit. -/
theorem truncateUtf8_spec (limit : Nat) :
    (∃ data, encodeUtf8 (truncateUtf8 value limit) = some data ∧ data.length ≤ limit) ∧
    ((encodeUtf8Replace value).length ≤ limit → truncateUtf8 value limit = backslashReplace value) ∧
    (limit < (encodeUtf8Replace value).length → limit ≤ truncationMarker.length →
      truncateUtf8 value limit <+: truncationMarker) ∧
    (limit < (encodeUtf8Replace value).length → truncationMarker.length < limit →
      ∃ kept, kept <+: backslashReplace value ∧ truncateUtf8 value limit = kept ++ truncationMarker ∧
        ∀ longer, longer <+: backslashReplace value →
          (longer.flatMap utf8Char).length + truncationMarker.length ≤ limit → longer <+: kept) ∧
    ∀ limit', limit ≤ limit' →
      (quote (truncateUtf8 value limit)).length ≤ (quote (truncateUtf8 value limit')).length := by
  have heq := truncateUtf8_eq value limit
  refine ⟨⟨_, if_pos (encodable_truncateUtf8 value limit), length_truncateUtf8 value limit⟩,
    fun hfits => ?_, fun hlong hlimit => ?_, fun hlong hlimit => ?_, fun limit' hle => ?_⟩
  · rw [heq, if_pos hfits]
  · rw [length_truncationMarker] at hlimit
    rw [heq, if_neg (by omega), if_pos hlimit]
    exact List.take_prefix _ _
  · rw [length_truncationMarker] at hlimit
    rw [if_neg (by omega), if_neg (by omega)] at heq
    refine ⟨_, utf8Prefix_prefix _ _, heq, fun longer hprefix hlength => ?_⟩
    rw [length_truncationMarker] at hlength
    exact utf8Prefix_maximal hprefix (by omega)
  · have hmono := escapedLength_truncateUtf8_mono value hle
    rw [length_quote, length_quote]
    omega

end Truncate

end Deadpool.Remote
