import Deadpool.Py.Str

/-!
# Cutting UTF-8

Octets of a text, cut anywhere and decoded with `errors="ignore"`: what is left is the longest prefix
of the text whose encoding fits, since the decoder drops the octets of a character that was cut.

Principal results:

* `decodeUtf8Ignore_take` — decoding the first `n` octets gives `utf8Prefix n`;
* `utf8Prefix_mono`       — more octets give a longer prefix.
-/

set_option autoImplicit false

namespace Deadpool.Py

/-! ## The longest prefix -/

/-- The longest prefix of a text whose encoding has at most `n` octets. -/
def utf8Prefix : Nat → Str → Str
  | _, [] => []
  | n, c :: s => if (utf8Char c).length ≤ n then c :: utf8Prefix (n - (utf8Char c).length) s else []

theorem length_utf8Char (c : CodePoint) :
    (utf8Char c).length =
      if c.val < 0x80 then 1 else if c.val < 0x800 then 2 else if c.val < 0x10000 then 3 else 4 := by
  unfold utf8Char
  dsimp only
  split
  · rfl
  · split
    · rfl
    · split <;> rfl

theorem utf8Prefix_prefix (n : Nat) (s : Str) : utf8Prefix n s <+: s := by
  induction s generalizing n with
  | nil => exact List.prefix_rfl
  | cons c s ih =>
    unfold utf8Prefix
    split
    · exact (List.prefix_cons_inj c).mpr (ih _)
    · exact List.nil_prefix

theorem length_utf8Prefix_le (n : Nat) (s : Str) :
    ((utf8Prefix n s).flatMap utf8Char).length ≤ n := by
  induction s generalizing n with
  | nil => exact Nat.zero_le n
  | cons c s ih =>
    unfold utf8Prefix
    split
    · rename_i hc
      rw [List.flatMap_cons, List.length_append]
      have := ih (n - (utf8Char c).length)
      omega
    · exact Nat.zero_le n

theorem utf8Prefix_mono {m n : Nat} (h : m ≤ n) (s : Str) : utf8Prefix m s <+: utf8Prefix n s := by
  induction s generalizing m n with
  | nil => exact List.prefix_rfl
  | cons c s ih =>
    unfold utf8Prefix
    by_cases hc : (utf8Char c).length ≤ m
    · rw [if_pos hc, if_pos (by omega)]
      exact (List.prefix_cons_inj c).mpr (ih (by omega))
    · rw [if_neg hc]
      exact List.nil_prefix

/-- No longer prefix fits. -/
theorem utf8Prefix_maximal {n : Nat} {s p : Str} (hp : p <+: s)
    (hlen : (p.flatMap utf8Char).length ≤ n) : p <+: utf8Prefix n s := by
  induction s generalizing n p with
  | nil => exact hp
  | cons c s ih =>
    cases p with
    | nil => exact List.nil_prefix
    | cons d p =>
      obtain ⟨rfl, hps⟩ := List.cons_prefix_cons.mp hp
      rw [List.flatMap_cons, List.length_append] at hlen
      unfold utf8Prefix
      rw [if_pos (by omega)]
      exact (List.prefix_cons_inj d).mpr (ih hps (by omega))

/-! ## Decoding a cut -/

/-- A character that was cut is dropped, with every octet that is left of it. -/
theorem nextChar_cut {c : CodePoint} (hc : isSurrogate c = false) {a : UInt8} {t : Bytes}
    (h : utf8Char c = a :: t) {k : Nat} (hk : k < t.length) : nextChar a (t.take k) = (none, []) := by
  have hlt := c.isLt
  have hs : c.val < 0xD800 ∨ 0xDFFF < c.val := by
    simp only [isSurrogate, Bool.and_eq_false_iff, decide_eq_false_iff_not] at hc
    omega
  unfold utf8Char at h
  dsimp only at h
  split at h
  · cases h
    exact absurd hk (Nat.not_lt_zero k)
  · split at h
    · cases h
      have ha : (UInt8.ofNat (0xC0 + c.val / 64)).toNat = 0xC0 + c.val / 64 := toNat_ofNat (by omega)
      have hzero : k = 0 := by simpa using hk
      subst hzero
      simp only [nextChar, ha, List.take_zero]
      rw [if_neg (by omega), if_neg (by omega), if_pos (by omega)]
    · split at h
      · cases h
        have ha : (UInt8.ofNat (0xE0 + c.val / 4096)).toNat = 0xE0 + c.val / 4096 :=
          toNat_ofNat (by omega)
        have hb : (UInt8.ofNat (0x80 + c.val / 64 % 64)).toNat = 0x80 + c.val / 64 % 64 :=
          toNat_ofNat (by omega)
        have hsec : second3 (0xE0 + c.val / 4096) (.ofNat (0x80 + c.val / 64 % 64)) = true := by
          simp only [second3, isTail_ofNat, hb, Bool.true_and, Bool.and_eq_true, Bool.or_eq_true,
            bne_iff_ne, ne_eq, decide_eq_true_eq]
          omega
        have hk : k = 0 ∨ k = 1 := by
          simp only [List.length_cons, List.length_nil] at hk
          omega
        rcases hk with rfl | rfl
        · simp only [nextChar, ha, List.take_zero]
          rw [if_neg (by omega), if_neg (by omega), if_neg (by omega), if_pos (by omega)]
        · simp only [nextChar, ha, List.take_succ_cons, List.take_zero, hsec, ↓reduceIte]
          rw [if_neg (by omega), if_neg (by omega), if_neg (by omega), if_pos (by omega)]
      · cases h
        have ha : (UInt8.ofNat (0xF0 + c.val / 262144)).toNat = 0xF0 + c.val / 262144 :=
          toNat_ofNat (by omega)
        have hb : (UInt8.ofNat (0x80 + c.val / 4096 % 64)).toNat = 0x80 + c.val / 4096 % 64 :=
          toNat_ofNat (by omega)
        have hsec : second4 (0xF0 + c.val / 262144) (.ofNat (0x80 + c.val / 4096 % 64)) = true := by
          simp only [second4, isTail_ofNat, hb, Bool.true_and, Bool.and_eq_true, Bool.or_eq_true,
            bne_iff_ne, ne_eq, decide_eq_true_eq]
          omega
        have hk : k = 0 ∨ k = 1 ∨ k = 2 := by
          simp only [List.length_cons, List.length_nil] at hk
          omega
        rcases hk with rfl | rfl | rfl
        · simp only [nextChar, ha, List.take_zero]
          rw [if_neg (by omega), if_neg (by omega), if_neg (by omega), if_neg (by omega),
            if_pos (by omega)]
        · simp only [nextChar, ha, List.take_succ_cons, List.take_zero, hsec, ↓reduceIte]
          rw [if_neg (by omega), if_neg (by omega), if_neg (by omega), if_neg (by omega),
            if_pos (by omega)]
        · simp only [nextChar, ha, List.take_succ_cons, List.take_zero, hsec, isTail_ofNat, ↓reduceIte]
          rw [if_neg (by omega), if_neg (by omega), if_neg (by omega), if_neg (by omega),
            if_pos (by omega)]

theorem decodeIgnoreAux_take {s : Str} (hs : Encodable s) (n : Nat) {fuel : Nat}
    (hfuel : ((s.flatMap utf8Char).take n).length ≤ fuel) :
    decodeIgnoreAux fuel ((s.flatMap utf8Char).take n) = utf8Prefix n s := by
  induction s generalizing n fuel with
  | nil =>
    rw [List.flatMap_nil, List.take_nil]
    cases fuel <;> rfl
  | cons c s ih =>
    have hc : isSurrogate c = false := hs c List.mem_cons_self
    obtain ⟨a, t, heq, hnext⟩ := nextChar_utf8Char hc
    rw [List.flatMap_cons, heq] at hfuel ⊢
    unfold utf8Prefix
    rw [heq]
    cases n with
    | zero =>
      rw [if_neg (by simp), List.take_zero]
      cases fuel <;> rfl
    | succ n =>
      rw [List.cons_append, List.take_succ_cons] at hfuel ⊢
      cases fuel with
      | zero => exact absurd hfuel (by simp)
      | succ fuel =>
        rw [List.length_cons, Nat.add_le_add_iff_right] at hfuel
        by_cases hfits : t.length ≤ n
        · -- the whole character is there
          rw [List.take_append, List.take_of_length_le hfits] at hfuel ⊢
          rw [List.length_append] at hfuel
          have hwidth : (a :: t).length ≤ n + 1 := Nat.succ_le_succ hfits
          have hleft : n + 1 - (a :: t).length = n - t.length := Nat.add_sub_add_right n 1 t.length
          rw [if_pos hwidth, hleft]
          simp only [decodeIgnoreAux, hnext]
          rw [ih (fun d hd => hs d (List.mem_cons_of_mem _ hd)) _ (by omega)]
        · -- the cut falls into the character
          rw [List.take_append_of_le_length (by omega)]
          rw [if_neg (by simpa using hfits)]
          simp only [decodeIgnoreAux, nextChar_cut hc heq (Nat.lt_of_not_le hfits)]

/-- **Decoding a cut.** -/
theorem decodeUtf8Ignore_take {s : Str} (hs : Encodable s) (n : Nat) :
    decodeUtf8Ignore ((s.flatMap utf8Char).take n) = utf8Prefix n s :=
  decodeIgnoreAux_take hs n (Nat.le_refl _)

end Deadpool.Py
