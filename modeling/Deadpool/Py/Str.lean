import Mathlib.Algebra.Ring.Nat
import Mathlib.Data.List.Basic
import Mathlib.Data.List.Infix

/-!
# Python strings and UTF-8

A `str` is a list of code points and may hold lone surrogates; `bytes` is a list of octets.
Encoding to UTF-8 fails on a surrogate, unless the handler is `backslashreplace`; decoding is
either strict or ignores ill-formed sequences, skipping exactly the octets CPython skips.

Principal results:

* `decodeUtf8_flatMap` — strict decoding inverts the encoding of surrogate-free text;
* `decodeUtf8_noSurrogate`, `decodeUtf8Ignore_noSurrogate` — decoded text can be encoded again;
* `decodeUtf8_ascii` — ASCII octets are their own text.
-/

set_option autoImplicit false

namespace Deadpool.Py

abbrev CodePoint := Fin 0x110000

/-- For the numerals of `CodePoint`. -/
instance neZero_codePoints : NeZero 0x110000 := ⟨by decide⟩

abbrev Str := List CodePoint

/-- For membership in lists of texts. -/
instance lawfulBEq_str : LawfulBEq Str := inferInstance

abbrev Bytes := List UInt8

theorem char_toNat_lt (c : Char) : c.toNat < 0x110000 := by
  have h : (c.toNat < 0xD800) ∨ (0xDFFF < c.toNat ∧ c.toNat < 0x110000) := c.valid
  omega

def ofChar (c : Char) : CodePoint := ⟨c.toNat, char_toNat_lt c⟩

/-- A string literal of the source. -/
def lit (s : String) : Str := s.toList.map ofChar

/-- The code point of an ASCII octet or of a computed number. -/
def cp (n : Nat) : CodePoint := Fin.ofNat 0x110000 n

theorem cp_val {n : Nat} (h : n < 0x110000) : (cp n).val = n := by
  simp only [cp, Fin.ofNat]
  omega

@[simp] theorem cp_val_self (c : CodePoint) : cp c.val = c :=
  Fin.ext (cp_val c.isLt)

/-! ## Encoding -/

def isSurrogate (c : CodePoint) : Bool := 0xD800 ≤ c.val && c.val ≤ 0xDFFF

/-- No lone surrogate: the text can be encoded. -/
def Encodable (s : Str) : Prop := ∀ c ∈ s, isSurrogate c = false

instance (s : Str) : Decidable (Encodable s) :=
  List.decidableBAll (fun c => isSurrogate c = false) s

def utf8Char (c : CodePoint) : Bytes :=
  let n := c.val
  if n < 0x80 then [.ofNat n]
  else if n < 0x800 then [.ofNat (0xC0 + n / 64), .ofNat (0x80 + n % 64)]
  else if n < 0x10000 then
    [.ofNat (0xE0 + n / 4096), .ofNat (0x80 + n / 64 % 64), .ofNat (0x80 + n % 64)]
  else
    [.ofNat (0xF0 + n / 262144), .ofNat (0x80 + n / 4096 % 64), .ofNat (0x80 + n / 64 % 64),
     .ofNat (0x80 + n % 64)]

/-- `s.encode("utf-8")`; `none` is `UnicodeEncodeError`. -/
def encodeUtf8 (s : Str) : Option Bytes :=
  if Encodable s then some (s.flatMap utf8Char) else none

def hexDigit (n : Nat) : CodePoint := cp (if n < 10 then 0x30 + n else 0x57 + n)

/-- `\uXXXX` with four lower-case hexadecimal digits. -/
def escapeUnit (n : Nat) : Str :=
  [0x5C, 0x75, hexDigit (n / 4096 % 16), hexDigit (n / 256 % 16), hexDigit (n / 16 % 16),
   hexDigit (n % 16)]

/-- The text that the handler `backslashreplace` encodes. -/
def backslashReplace (s : Str) : Str :=
  s.flatMap fun c => if isSurrogate c then escapeUnit c.val else [c]

/-- `s.encode("utf-8", errors="backslashreplace")`. -/
def encodeUtf8Replace (s : Str) : Bytes := (backslashReplace s).flatMap utf8Char

theorem hexDigit_val {n : Nat} (h : n < 16) :
    (hexDigit n).val = if n < 10 then 0x30 + n else 0x57 + n := by
  unfold hexDigit
  rw [cp_val]
  split <;> omega

theorem isSurrogate_of_lt {c : CodePoint} (h : c.val < 0xD800) : isSurrogate c = false := by
  simp only [isSurrogate, Bool.and_eq_false_iff, decide_eq_false_iff_not]
  omega

theorem hexDigit_val_lt (n : Nat) (h : n < 16) : (hexDigit n).val < 0x80 := by
  rw [hexDigit_val h]
  split <;> omega

theorem escapeUnit_lt (n : Nat) : ∀ c ∈ escapeUnit n, c.val < 0x80 := by
  intro c hc
  simp only [escapeUnit, List.mem_cons, List.not_mem_nil, or_false] at hc
  rcases hc with rfl | rfl | rfl | rfl | rfl | rfl
  · decide
  · decide
  all_goals exact hexDigit_val_lt _ (by omega)

theorem encodable_backslashReplace (s : Str) : Encodable (backslashReplace s) := by
  intro c hc
  simp only [backslashReplace, List.mem_flatMap] at hc
  obtain ⟨d, -, hd⟩ := hc
  split at hd
  · have := escapeUnit_lt d.val c hd
    exact isSurrogate_of_lt (by omega)
  · rename_i hs
    rw [List.mem_singleton.mp hd]
    simpa using hs

theorem encodable_append {s t : Str} : Encodable (s ++ t) ↔ Encodable s ∧ Encodable t := by
  simp only [Encodable, List.mem_append]
  constructor
  · exact fun h => ⟨fun c hc => h c (.inl hc), fun c hc => h c (.inr hc)⟩
  · rintro ⟨hs, ht⟩ c (hc | hc)
    · exact hs c hc
    · exact ht c hc

/-! ## Decoding -/

def isTail (b : UInt8) : Bool := 0x80 ≤ b.toNat && b.toNat ≤ 0xBF

/-- The octets that may follow the lead octet `n` of a three-octet sequence: no overlong forms,
no surrogates. -/
def second3 (n : Nat) (b : UInt8) : Bool :=
  isTail b && (n != 0xE0 || 0xA0 ≤ b.toNat) && (n != 0xED || b.toNat ≤ 0x9F)

/-- The same for four octets: no overlong forms, nothing past `U+10FFFF`. -/
def second4 (n : Nat) (b : UInt8) : Bool :=
  isTail b && (n != 0xF0 || 0x90 ≤ b.toNat) && (n != 0xF4 || b.toNat ≤ 0x8F)

/-- Decode at a lead octet: the character and what follows it, or, for an ill-formed sequence,
what follows the octets that the decoder reports as bad. -/
def nextChar (a : UInt8) (rest : Bytes) : Option CodePoint × Bytes :=
  let n := a.toNat
  if n < 0x80 then (some (cp n), rest)
  else if n < 0xC2 then (none, rest)
  else if n < 0xE0 then
    match rest with
    | [] => (none, [])
    | b :: r => if isTail b then (some (cp ((n - 0xC0) * 64 + (b.toNat - 0x80))), r) else (none, rest)
  else if n < 0xF0 then
    match rest with
    | [] => (none, [])
    | b :: r =>
      if second3 n b then
        match r with
        | [] => (none, [])
        | c :: r' =>
          if isTail c then
            (some (cp ((n - 0xE0) * 4096 + (b.toNat - 0x80) * 64 + (c.toNat - 0x80))), r')
          else (none, r)
      else (none, rest)
  else if n < 0xF5 then
    match rest with
    | [] => (none, [])
    | b :: r =>
      if second4 n b then
        match r with
        | [] => (none, [])
        | c :: r' =>
          if isTail c then
            match r' with
            | [] => (none, [])
            | d :: r'' =>
              if isTail d then
                (some (cp ((n - 0xF0) * 262144 + (b.toNat - 0x80) * 4096 + (c.toNat - 0x80) * 64
                  + (d.toNat - 0x80))), r'')
              else (none, r')
          else (none, r)
      else (none, rest)
  else (none, rest)

def decodeStrictAux : Nat → Bytes → Option Str
  | _, [] => some []
  | 0, _ :: _ => none
  | fuel + 1, a :: rest =>
    match nextChar a rest with
    | (some c, rest') => (decodeStrictAux fuel rest').map (c :: ·)
    | (none, _) => none

/-- `data.decode("utf-8")`; `none` is `UnicodeDecodeError`. -/
def decodeUtf8 (data : Bytes) : Option Str := decodeStrictAux data.length data

def decodeIgnoreAux : Nat → Bytes → Str
  | _, [] => []
  | 0, _ :: _ => []
  | fuel + 1, a :: rest =>
    match nextChar a rest with
    | (some c, rest') => c :: decodeIgnoreAux fuel rest'
    | (none, rest') => decodeIgnoreAux fuel rest'

/-- `data.decode("utf-8", errors="ignore")`. -/
def decodeUtf8Ignore (data : Bytes) : Str := decodeIgnoreAux data.length data

theorem toNat_ofNat {n : Nat} (h : n < 256) : (UInt8.ofNat n).toNat = n := by
  simp only [UInt8.toNat_ofNat']
  omega

theorem isTail_ofNat (n : Nat) : isTail (.ofNat (0x80 + n % 64)) = true := by
  have : (UInt8.ofNat (0x80 + n % 64)).toNat = 0x80 + n % 64 := toNat_ofNat (by omega)
  simp only [isTail, this, Bool.and_eq_true, decide_eq_true_eq]
  omega

/-- Decoding at the start of an encoded character gives the character back. -/
theorem nextChar_utf8Char {c : CodePoint} (hc : isSurrogate c = false) :
    ∃ a t, utf8Char c = a :: t ∧ ∀ rest, nextChar a (t ++ rest) = (some c, rest) := by
  have hlt := c.isLt
  have hs : c.val < 0xD800 ∨ 0xDFFF < c.val := by
    simp only [isSurrogate, Bool.and_eq_false_iff, decide_eq_false_iff_not] at hc
    omega
  unfold utf8Char
  dsimp only
  split
  · rename_i h1
    refine ⟨_, _, rfl, fun rest => ?_⟩
    have ha : (UInt8.ofNat c.val).toNat = c.val := toNat_ofNat (by omega)
    simp [nextChar, ha, h1]
  · split
    · rename_i h1 h2
      refine ⟨_, _, rfl, fun rest => ?_⟩
      have ha : (UInt8.ofNat (0xC0 + c.val / 64)).toNat = 0xC0 + c.val / 64 :=
        toNat_ofNat (by omega)
      have hb : (UInt8.ofNat (0x80 + c.val % 64)).toNat = 0x80 + c.val % 64 :=
        toNat_ofNat (by omega)
      have hv : (0xC0 + c.val / 64 - 0xC0) * 64 + (0x80 + c.val % 64 - 0x80) = c.val := by omega
      simp only [nextChar, ha, List.cons_append, List.nil_append, isTail_ofNat, hb, hv, cp_val_self,
        ↓reduceIte]
      rw [if_neg (by omega), if_neg (by omega), if_pos (by omega)]
    · split
      · rename_i h1 h2 h3
        refine ⟨_, _, rfl, fun rest => ?_⟩
        have ha : (UInt8.ofNat (0xE0 + c.val / 4096)).toNat = 0xE0 + c.val / 4096 :=
          toNat_ofNat (by omega)
        have hb : (UInt8.ofNat (0x80 + c.val / 64 % 64)).toNat = 0x80 + c.val / 64 % 64 :=
          toNat_ofNat (by omega)
        have hd : (UInt8.ofNat (0x80 + c.val % 64)).toNat = 0x80 + c.val % 64 :=
          toNat_ofNat (by omega)
        have hsec : second3 (0xE0 + c.val / 4096) (.ofNat (0x80 + c.val / 64 % 64)) = true := by
          simp only [second3, isTail_ofNat, hb, Bool.true_and, Bool.and_eq_true, Bool.or_eq_true,
            bne_iff_ne, ne_eq, decide_eq_true_eq]
          omega
        have hv : (0xE0 + c.val / 4096 - 0xE0) * 4096 + (0x80 + c.val / 64 % 64 - 0x80) * 64
            + (0x80 + c.val % 64 - 0x80) = c.val := by omega
        simp only [nextChar, ha, List.cons_append, List.nil_append, hsec, isTail_ofNat, hb, hd, hv,
          cp_val_self, ↓reduceIte]
        rw [if_neg (by omega), if_neg (by omega), if_neg (by omega), if_pos (by omega)]
      · rename_i h1 h2 h3
        refine ⟨_, _, rfl, fun rest => ?_⟩
        have ha : (UInt8.ofNat (0xF0 + c.val / 262144)).toNat = 0xF0 + c.val / 262144 :=
          toNat_ofNat (by omega)
        have hb : (UInt8.ofNat (0x80 + c.val / 4096 % 64)).toNat = 0x80 + c.val / 4096 % 64 :=
          toNat_ofNat (by omega)
        have hd : (UInt8.ofNat (0x80 + c.val / 64 % 64)).toNat = 0x80 + c.val / 64 % 64 :=
          toNat_ofNat (by omega)
        have he : (UInt8.ofNat (0x80 + c.val % 64)).toNat = 0x80 + c.val % 64 :=
          toNat_ofNat (by omega)
        have hsec : second4 (0xF0 + c.val / 262144) (.ofNat (0x80 + c.val / 4096 % 64)) = true := by
          simp only [second4, isTail_ofNat, hb, Bool.true_and, Bool.and_eq_true, Bool.or_eq_true,
            bne_iff_ne, ne_eq, decide_eq_true_eq]
          omega
        have hv : (0xF0 + c.val / 262144 - 0xF0) * 262144 + (0x80 + c.val / 4096 % 64 - 0x80) * 4096
            + (0x80 + c.val / 64 % 64 - 0x80) * 64 + (0x80 + c.val % 64 - 0x80) = c.val := by omega
        simp only [nextChar, ha, List.cons_append, List.nil_append, hsec, isTail_ofNat, hb, hd, he,
          hv, cp_val_self, ↓reduceIte]
        rw [if_neg (by omega), if_neg (by omega), if_neg (by omega), if_neg (by omega),
          if_pos (by omega)]

theorem isTail_toNat {b : UInt8} (h : isTail b = true) : 0x80 ≤ b.toNat ∧ b.toNat ≤ 0xBF := by
  simpa [isTail] using h

theorem second3_toNat {n : Nat} {b : UInt8} (h : second3 n b = true) :
    (0x80 ≤ b.toNat ∧ b.toNat ≤ 0xBF) ∧ (n = 0xE0 → 0xA0 ≤ b.toNat) ∧
      (n = 0xED → b.toNat ≤ 0x9F) := by
  simp only [second3, isTail, Bool.and_eq_true, Bool.or_eq_true, bne_iff_ne, decide_eq_true_eq] at h
  omega

theorem second4_toNat {n : Nat} {b : UInt8} (h : second4 n b = true) :
    (0x80 ≤ b.toNat ∧ b.toNat ≤ 0xBF) ∧ (n = 0xF0 → 0x90 ≤ b.toNat) ∧
      (n = 0xF4 → b.toNat ≤ 0x8F) := by
  simp only [second4, isTail, Bool.and_eq_true, Bool.or_eq_true, bne_iff_ne, decide_eq_true_eq] at h
  omega

theorem isSurrogate_cp {n : Nat} (hn : n < 0x110000) (h : n < 0xD800 ∨ 0xDFFF < n) :
    isSurrogate (cp n) = false := by
  simp only [isSurrogate, cp_val hn, Bool.and_eq_false_iff, decide_eq_false_iff_not]
  omega

/-- A decoded character is never a surrogate. -/
theorem nextChar_noSurrogate {a : UInt8} {rest r : Bytes} {c : CodePoint}
    (h : nextChar a rest = (some c, r)) : isSurrogate c = false := by
  have ha := a.toNat_lt
  unfold nextChar at h
  dsimp only at h
  split at h
  · rw [← Option.some.inj (Prod.mk.inj h).1]
    exact isSurrogate_cp (by omega) (by omega)
  split at h
  · cases h
  split at h
  · split at h
    · cases h
    · split at h
      · rename_i b _ hb
        rw [← Option.some.inj (Prod.mk.inj h).1]
        have := isTail_toNat hb
        exact isSurrogate_cp (by omega) (by omega)
      · cases h
  split at h
  · split at h
    · cases h
    · split at h
      · rename_i b _ hb
        split at h
        · cases h
        · split at h
          · rename_i d _ hd
            rw [← Option.some.inj (Prod.mk.inj h).1]
            have h1 := second3_toNat hb
            have h2 := isTail_toNat hd
            refine isSurrogate_cp (by omega) ?_
            by_cases hED : a.toNat = 0xED
            · have := h1.2.2 hED
              omega
            · omega
          · cases h
      · cases h
  split at h
  · split at h
    · cases h
    · split at h
      · rename_i b _ hb
        split at h
        · cases h
        · split at h
          · rename_i d _ hd
            split at h
            · cases h
            · split at h
              · rename_i e _ he
                rw [← Option.some.inj (Prod.mk.inj h).1]
                have h1 := second4_toNat hb
                have h2 := isTail_toNat hd
                have h3 := isTail_toNat he
                refine isSurrogate_cp ?_ ?_
                · by_cases hF4 : a.toNat = 0xF4
                  · have := h1.2.2 hF4
                    omega
                  · omega
                · by_cases hF0 : a.toNat = 0xF0
                  · have := h1.2.1 hF0
                    omega
                  · omega
              · cases h
          · cases h
      · cases h
  · cases h

/-- Strict decoding inverts encoding, character by character, whatever the spare fuel. -/
theorem decodeStrictAux_flatMap :
    ∀ (s : Str) (fuel : Nat), Encodable s → (s.flatMap utf8Char).length ≤ fuel →
      decodeStrictAux fuel (s.flatMap utf8Char) = some s := by
  intro s
  induction s with
  | nil => intro fuel _ _; cases fuel <;> rfl
  | cons c s ih =>
    intro fuel hs hfuel
    obtain ⟨a, t, heq, hnext⟩ := nextChar_utf8Char (hs c List.mem_cons_self)
    rw [List.flatMap_cons, heq] at hfuel ⊢
    cases fuel with
    | zero => simp at hfuel
    | succ fuel =>
      have hrest := ih fuel (fun d hd => hs d (List.mem_cons_of_mem _ hd)) (by
        simp only [List.cons_append, List.length_cons, List.length_append] at hfuel
        omega)
      simp only [List.cons_append, decodeStrictAux, hnext, hrest, Option.map_some]

/-- **Round trip** of surrogate-free text through UTF-8. -/
theorem decodeUtf8_flatMap {s : Str} (h : Encodable s) :
    decodeUtf8 (s.flatMap utf8Char) = some s :=
  decodeStrictAux_flatMap s _ h (Nat.le_refl _)

theorem decodeStrictAux_noSurrogate :
    ∀ (fuel : Nat) (data : Bytes) {s : Str}, decodeStrictAux fuel data = some s → Encodable s := by
  intro fuel
  induction fuel with
  | zero =>
    intro data s h
    cases data with
    | nil => cases h; intro c hc; cases hc
    | cons a rest => cases h
  | succ fuel ih =>
    intro data s h
    cases data with
    | nil => cases h; intro c hc; cases hc
    | cons a rest =>
      simp only [decodeStrictAux] at h
      split at h
      · rename_i c rest' hn
        simp only [Option.map_eq_some_iff] at h
        obtain ⟨s', hs', rfl⟩ := h
        intro d hd
        rcases List.mem_cons.mp hd with rfl | hd
        · exact nextChar_noSurrogate hn
        · exact ih rest' hs' d hd
      · cases h

theorem decodeUtf8_noSurrogate {data : Bytes} {s : Str} (h : decodeUtf8 data = some s) :
    Encodable s :=
  decodeStrictAux_noSurrogate _ _ h

theorem decodeIgnoreAux_noSurrogate :
    ∀ (fuel : Nat) (data : Bytes), Encodable (decodeIgnoreAux fuel data) := by
  intro fuel
  induction fuel with
  | zero => intro data; cases data <;> exact fun c hc => by cases hc
  | succ fuel ih =>
    intro data
    cases data with
    | nil => exact fun c hc => by cases hc
    | cons a rest =>
      simp only [decodeIgnoreAux]
      split
      · rename_i c rest' hn
        intro d hd
        rcases List.mem_cons.mp hd with rfl | hd
        · exact nextChar_noSurrogate hn
        · exact ih rest' d hd
      · exact ih _

theorem decodeUtf8Ignore_noSurrogate (data : Bytes) : Encodable (decodeUtf8Ignore data) :=
  decodeIgnoreAux_noSurrogate _ _

/-! ## ASCII -/

def Ascii (s : Str) : Prop := ∀ c ∈ s, c.val < 0x80

instance (s : Str) : Decidable (Ascii s) :=
  List.decidableBAll (fun c : CodePoint => c.val < 0x80) s

/-- `text.encode("ascii")`, for text that is ASCII. -/
def encodeAscii (s : Str) : Bytes := s.map fun c => .ofNat c.val

theorem Ascii.encodable {s : Str} (h : Ascii s) : Encodable s :=
  fun c hc => isSurrogate_of_lt (by have := h c hc; omega)

theorem Ascii.append {s t : Str} (hs : Ascii s) (ht : Ascii t) : Ascii (s ++ t) := by
  intro c hc
  rcases List.mem_append.mp hc with hc | hc
  · exact hs c hc
  · exact ht c hc

theorem Ascii.cons {c : CodePoint} {s : Str} (hc : c.val < 0x80) (hs : Ascii s) :
    Ascii (c :: s) := by
  intro d hd
  rcases List.mem_cons.mp hd with rfl | hd
  · exact hc
  · exact hs d hd

theorem flatMap_utf8Char_ascii {s : Str} (h : Ascii s) : s.flatMap utf8Char = encodeAscii s := by
  induction s with
  | nil => rfl
  | cons c s ih =>
    have hc : c.val < 0x80 := h c List.mem_cons_self
    have hu : utf8Char c = [.ofNat c.val] := by
      unfold utf8Char
      exact if_pos hc
    rw [List.flatMap_cons, hu, ih fun d hd => h d (List.mem_cons_of_mem _ hd)]
    rfl

theorem decodeUtf8_ascii {s : Str} (h : Ascii s) : decodeUtf8 (encodeAscii s) = some s := by
  rw [← flatMap_utf8Char_ascii h]
  exact decodeUtf8_flatMap h.encodable

end Deadpool.Py
