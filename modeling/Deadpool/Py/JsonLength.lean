import Deadpool.Py.JsonRoundTrip
import Deadpool.Py.Utf8Prefix
import Mathlib.Algebra.BigOperators.Group.List.Basic

/-!
# How long JSON text is

Lengths of what `json.dumps` writes with `ensure_ascii`, compact separators and sorted keys.  No
character is shorter than its UTF-8 encoding; an object is as long as its members, in any order.

Principal results:

* `length_utf8_le`    — a text is at least as long escaped as in UTF-8;
* `length_dumps_dict` — the length of an object.
-/

set_option autoImplicit false

namespace Deadpool.Py

/-! ## Escaped texts -/

/-- Length of a text under `ensure_ascii`, without its quotation marks. -/
def escapedLength (s : Str) : Nat := (s.flatMap escapeChar).length

theorem length_quote (s : Str) : (quote s).length = escapedLength s + 2 := by
  simp only [quote, escapedLength, List.length_cons, List.length_append, List.length_nil]

@[simp] theorem escapedLength_nil : escapedLength [] = 0 := rfl

theorem escapedLength_append (s t : Str) :
    escapedLength (s ++ t) = escapedLength s + escapedLength t := by
  simp only [escapedLength, List.flatMap_append, List.length_append]

theorem escapeChar_plain {c : CodePoint}
    (h : 0x20 ≤ c.val ∧ c.val ≤ 0x7E ∧ c.val ≠ 0x22 ∧ c.val ≠ 0x5C) : escapeChar c = [c] := by
  unfold escapeChar
  dsimp only
  rw [if_neg (by omega), if_neg (by omega), if_neg (by omega), if_neg (by omega), if_neg (by omega),
    if_neg (by omega), if_neg (by omega), if_pos (by omega)]

theorem length_escapeUnit (n : Nat) : (escapeUnit n).length = 6 := rfl

/-- A character is at least as long escaped as in UTF-8. -/
theorem length_utf8Char_le (c : CodePoint) : (utf8Char c).length ≤ (escapeChar c).length := by
  rw [length_utf8Char]
  unfold escapeChar
  dsimp only
  by_cases hplain : 0x20 ≤ c.val ∧ c.val ≤ 0x7E
  · rw [if_pos (show c.val < 0x80 by omega)]
    split_ifs <;> simp [length_escapeUnit]
  · rw [if_neg hplain]
    split_ifs <;> simp [length_escapeUnit] <;> omega

theorem length_utf8_le (s : Str) : (s.flatMap utf8Char).length ≤ escapedLength s := by
  induction s with
  | nil => exact Nat.le_refl 0
  | cons c s ih =>
    have hc := length_utf8Char_le c
    unfold escapedLength at ih ⊢
    rw [List.flatMap_cons, List.flatMap_cons, List.length_append, List.length_append]
    omega

theorem escapedLength_prefix {s t : Str} (h : s <+: t) : escapedLength s ≤ escapedLength t := by
  obtain ⟨r, rfl⟩ := h
  rw [escapedLength_append]
  omega

/-! ## Objects -/

/-- Length of a member, with its colon and the brace or comma before it. -/
def memberLength (item : Key × Value) : Nat := item.1.text.length + (dumps item.2).length + 2

theorem length_membersText (items : Items) :
    (membersText items).length =
      (items.map fun item => item.1.text.length + item.2.text.length + 2).sum + 1 := by
  induction items with
  | nil => rfl
  | cons item items ih =>
    obtain ⟨k, v⟩ := item
    simp only [membersText, List.length_cons, List.length_append, ih, List.map_cons, List.sum_cons]
    omega

theorem length_text_dict {items : Items} (h : items ≠ []) :
    (Value.text (.dict items)).length =
      (items.map fun item => item.1.text.length + item.2.text.length + 2).sum + 1 := by
  cases items with
  | nil => exact absurd rfl h
  | cons item items =>
    obtain ⟨k, v⟩ := item
    simp only [Value.text, List.length_cons, List.length_append, length_membersText, List.map_cons,
      List.sum_cons]
    omega

/-- **The length of an object.** -/
theorem length_dumps_dict {items : Items} (h : items ≠ []) :
    (dumps (.dict items)).length = (items.map memberLength).sum + 1 := by
  have hperm := sortItems_perm (canonItems items)
  have hne : sortItems (canonItems items) ≠ [] := by
    intro hnil
    rw [hnil, canonItems_eq_map] at hperm
    exact h (List.map_eq_nil_iff.mp (List.nil_perm.mp hperm))
  rw [dumps, Value.canon, length_text_dict hne, (hperm.map _).sum_eq, canonItems_eq_map, List.map_map]
  rfl

end Deadpool.Py
