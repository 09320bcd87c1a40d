import Deadpool.Py.Str
import Mathlib.Data.Nat.Digits.Lemmas

/-!
# Python integers as text

`str(n)` and `int(text)`.  `int` accepts what CPython accepts: surrounding white space, one sign,
single underscores between digits, the decimal digits of every script, at most 4300 digits.

Principal result: `int_natText` — `int(str(n)) = n` whenever `str(n)` exists.
-/

set_option autoImplicit false

namespace Deadpool.Py

/-! ## Decimal digits -/

/-- Decimal digits, most significant first. -/
def natDigits (n : Nat) : List Nat := if n = 0 then [0] else (Nat.digits 10 n).reverse

/-- The number that a digit string denotes. -/
def ofDigits (ds : List Nat) : Nat := ds.foldl (fun v d => v * 10 + d) 0

def digitText (d : Nat) : CodePoint := cp (0x30 + d)

def natText (n : Nat) : Str := (natDigits n).map digitText

def intText : Int → Str
  | .ofNat n => natText n
  | .negSucc n => 0x2D :: natText (n + 1)

/-- `sys.int_info.default_max_str_digits` -/
def maxStrDigits : Nat := 4300

theorem natDigits_lt (n : Nat) : ∀ d ∈ natDigits n, d < 10 := by
  intro d hd
  unfold natDigits at hd
  split at hd
  · rw [List.mem_singleton.mp hd]
    omega
  · exact Nat.digits_lt_base (by omega) (List.mem_reverse.mp hd)

theorem ofDigits_natDigits (n : Nat) : ofDigits (natDigits n) = n := by
  unfold natDigits
  split
  · rename_i h
    rw [h]
    rfl
  · have h : ofDigits (Nat.digits 10 n).reverse = Nat.ofDigits 10 (Nat.digits 10 n) := by
      unfold ofDigits
      rw [List.foldl_reverse, Nat.ofDigits_eq_foldr]
      congr 1
      funext d v
      simp only [Nat.cast_id]
      omega
    rw [h, Nat.ofDigits_digits]

theorem natDigits_ne_nil (n : Nat) : natDigits n ≠ [] := by
  unfold natDigits
  split
  · simp
  · rename_i h
    simpa using Nat.digits_ne_nil_iff_ne_zero.mpr h

/-- No leading zero, except for the number zero itself. -/
theorem natDigits_head {n d : Nat} {ds : List Nat} (h : natDigits n = d :: ds) :
    d ≠ 0 ∨ (n = 0 ∧ ds = []) := by
  unfold natDigits at h
  split at h
  · rename_i hn
    cases h
    exact .inr ⟨hn, rfl⟩
  · rename_i hn
    left
    have hrev : Nat.digits 10 n = ds.reverse ++ [d] := by
      rw [← List.reverse_cons, ← h, List.reverse_reverse]
    have hlast := Nat.getLast_digit_ne_zero 10 hn
    simpa [hrev] using hlast

theorem digitText_val {d : Nat} (h : d < 10) : (digitText d).val = 0x30 + d :=
  cp_val (by omega)

theorem ascii_natText (n : Nat) : Ascii (natText n) := by
  intro c hc
  obtain ⟨d, hd, rfl⟩ := List.mem_map.mp hc
  have := natDigits_lt n d hd
  rw [digitText_val this]
  omega

theorem ascii_intText (n : Int) : Ascii (intText n) := by
  cases n with
  | ofNat n => exact ascii_natText n
  | negSucc n => exact .cons (by decide) (ascii_natText _)

theorem natText_ne_nil (n : Nat) : natText n ≠ [] := by
  simp [natText, natDigits_ne_nil]

theorem length_natText (n : Nat) : (natText n).length = (natDigits n).length := by
  simp [natText]

/-! ## `int(text)` -/

/-- The first code point of each block of decimal digits outside ASCII (Unicode 15). -/
def digitZeros : List Nat :=
  [0x660, 0x6F0, 0x7C0, 0x966, 0x9E6, 0xA66, 0xAE6, 0xB66, 0xBE6, 0xC66, 0xCE6, 0xD66, 0xDE6,
   0xE50, 0xED0, 0xF20, 0x1040, 0x1090, 0x17E0, 0x1810, 0x1946, 0x19D0, 0x1A80, 0x1A90, 0x1B50,
   0x1BB0, 0x1C40, 0x1C50, 0xA620, 0xA8D0, 0xA900, 0xA9D0, 0xA9F0, 0xAA50, 0xABF0, 0xFF10,
   0x104A0, 0x10D30, 0x11066, 0x110F0, 0x11136, 0x111D0, 0x112F0, 0x11450, 0x114D0, 0x11650,
   0x116C0, 0x11730, 0x118E0, 0x11950, 0x11C50, 0x11D50, 0x11DA0, 0x11F50, 0x16A60, 0x16AC0,
   0x16B50, 0x1D7CE, 0x1D7D8, 0x1D7E2, 0x1D7EC, 0x1D7F6, 0x1E140, 0x1E2F0, 0x1E4F0, 0x1E950,
   0x1FBF0]

/-- White space outside ASCII. -/
def wideSpaces : List Nat :=
  [0x85, 0xA0, 0x1680, 0x2000, 0x2001, 0x2002, 0x2003, 0x2004, 0x2005, 0x2006, 0x2007, 0x2008,
   0x2009, 0x200A, 0x2028, 0x2029, 0x202F, 0x205F, 0x3000]

/-- How the integer scanner reads a character. -/
inductive IntChar where
  | digit (d : Nat)
  | space
  | plus
  | minus
  | underscore
  | other
  deriving DecidableEq, Repr

def IntChar.isSpace : IntChar → Bool
  | .space => true
  | _ => false

def intChar (c : CodePoint) : IntChar :=
  let n := c.val
  if 0x30 ≤ n ∧ n ≤ 0x39 then .digit (n - 0x30)
  else if n = 0x20 ∨ (0x09 ≤ n ∧ n ≤ 0x0D) then .space
  else if n = 0x2B then .plus
  else if n = 0x2D then .minus
  else if n = 0x5F then .underscore
  else if n < 0x80 then .other
  else if wideSpaces.contains n then .space
  else
    match digitZeros.find? fun z => z ≤ n && n < z + 10 with
    | some z => .digit (n - z)
    | none => .other

/-- A run of digits, single underscores between them allowed, and what follows it. -/
def scanDigits : List IntChar → List Nat × List IntChar
  | .digit d :: .underscore :: .digit e :: rest =>
    let (ds, r) := scanDigits (.digit e :: rest)
    (d :: ds, r)
  | .digit d :: rest =>
    let (ds, r) := scanDigits rest
    (d :: ds, r)
  | rest => ([], rest)

/-- Digits to the end of the text, white space aside. -/
def intBody (cs : List IntChar) : Option Nat :=
  match scanDigits cs with
  | ([], _) => none
  | (ds, rest) =>
    if rest.all IntChar.isSpace ∧ ds.length ≤ maxStrDigits then some (ofDigits ds) else none

/-- `int(text)`; `none` is `ValueError`. -/
def int (s : Str) : Option Int :=
  match (s.map intChar).dropWhile IntChar.isSpace with
  | .plus :: rest => (intBody rest).map Int.ofNat
  | .minus :: rest => (intBody rest).map fun n => -Int.ofNat n
  | rest => (intBody rest).map Int.ofNat

theorem intChar_digitText {d : Nat} (h : d < 10) : intChar (digitText d) = .digit d := by
  unfold intChar
  rw [digitText_val h]
  dsimp only
  rw [if_pos (by omega)]
  congr 1
  omega

theorem map_intChar_natText (n : Nat) : (natText n).map intChar = (natDigits n).map .digit := by
  unfold natText
  rw [List.map_map]
  refine List.map_congr_left fun d hd => ?_
  exact intChar_digitText (natDigits_lt n d hd)

theorem scanDigits_digits (ds : List Nat) : scanDigits (ds.map .digit) = (ds, []) := by
  induction ds with
  | nil => rfl
  | cons d ds ih =>
    cases ds with
    | nil => rfl
    | cons e es =>
      simp only [List.map_cons] at ih ⊢
      rw [scanDigits, ih]
      simp

/-- **Round trip** of a natural number through its text. -/
theorem int_natText {n : Nat} (h : (natText n).length ≤ maxStrDigits) :
    int (natText n) = some (n : Int) := by
  obtain ⟨d, ds, hds⟩ := List.exists_cons_of_ne_nil (natDigits_ne_nil n)
  have hlen : (d :: ds).length ≤ maxStrDigits := by rw [← hds, ← length_natText]; exact h
  have hbody : intBody ((d :: ds).map .digit) = some (ofDigits (d :: ds)) := by
    unfold intBody
    rw [scanDigits_digits]
    exact if_pos ⟨rfl, hlen⟩
  have hval : ofDigits (d :: ds) = n := by rw [← hds, ofDigits_natDigits]
  unfold int
  rw [map_intChar_natText, hds]
  simp only [List.map_cons, List.dropWhile_cons, IntChar.isSpace] at hbody ⊢
  simp only [Bool.false_eq_true, ↓reduceIte, hbody, hval]
  rfl

example : int (lit " +1_000 ") = some 1000 := by decide
example : int (lit "1__0") = none := by decide

end Deadpool.Py
