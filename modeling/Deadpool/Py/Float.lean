import Deadpool.Py.Number
import Mathlib.Data.Nat.Log
import Mathlib.Tactic.Ring

/-!
# Python floats

IEEE 754 binary64.  A finite float carries the proof that its mantissa and exponent are in the
canonical range; every operation that rounds does so to nearest, ties to even.

Finite floats are compared and added as integers scaled by `2 ^ 1074`.  `parse` is `float(text)` on
the numbers of JSON, correctly rounded; `repr` is the shortest decimal that parses back.

Principal results:

* `round_exact` — rounding is the identity on representable values;
* `trunc_ofInt_iff` — which integers a float keeps;
* `parse_repr` — `float(repr(x)) = x` for every finite `x`.
-/

set_option autoImplicit false

namespace Deadpool.Py

/-- Subnormal, or normal with 53 significant bits. -/
def CanonicalFloat (mant : Nat) (exp : Int) : Prop :=
  (exp = -1074 ∧ mant < 2 ^ 53) ∨ (-1074 < exp ∧ exp ≤ 971 ∧ 2 ^ 52 ≤ mant ∧ mant < 2 ^ 53)

instance (mant : Nat) (exp : Int) : Decidable (CanonicalFloat mant exp) :=
  inferInstanceAs (Decidable (_ ∨ _))

inductive Float64 where
  | nan
  | inf (neg : Bool)
  /-- `(-1) ^ neg * mant * 2 ^ exp` -/
  | finite (neg : Bool) (mant : Nat) (exp : Int) (canonical : CanonicalFloat mant exp)
  deriving DecidableEq

namespace Float64

/-- `math.isfinite` -/
def isFinite : Float64 → Bool
  | .finite .. => true
  | _ => false

def isNan : Float64 → Bool
  | .nan => true
  | _ => false

/-- The value of a finite float times `2 ^ 1074`. -/
def scaled : Float64 → Int
  | .finite neg mant exp _ =>
    let m : Int := (mant * 2 ^ (exp + 1074).toNat : Nat)
    if neg then -m else m
  | _ => 0

/-- A float from a rounded mantissa; past the largest exponent it is an infinity. -/
def pack (neg : Bool) (mant : Nat) (exp : Int) : Float64 :=
  if h : CanonicalFloat mant exp then .finite neg mant exp h else .inf neg

/-- `m / 2 ^ k` rounded to nearest, ties to even. -/
def shiftRound (m k : Nat) : Nat :=
  let q := m / 2 ^ k
  let r := m % 2 ^ k
  if 2 * r < 2 ^ k ∨ (2 * r = 2 ^ k ∧ q % 2 = 0) then q else q + 1

/-- The float nearest to `(-1) ^ neg * m * 2 ^ e`. -/
def round (neg : Bool) (m : Nat) (e : Int) : Float64 :=
  if m = 0 then pack neg 0 (-1074)
  else
    let exp := max (e + (Nat.log2 m + 1) - 53) (-1074)
    let mant := if exp ≤ e then m * 2 ^ (e - exp).toNat else shiftRound m (exp - e).toNat
    -- rounding up may carry into the next power of two
    if mant = 2 ^ 53 then pack neg (2 ^ 52) (exp + 1) else pack neg mant exp

/-- `float(n)`; an infinity stands for `OverflowError`. -/
def ofInt : Int → Float64
  | .ofNat n => round false n 0
  | .negSucc n => round true (n + 1) 0

/-- `int(x)` of a finite float: truncation. -/
def trunc (x : Float64) : Int := x.scaled.tdiv (2 ^ 1074)

def zero : Float64 := pack false 0 (-1074)

/-- `x <= y` -/
def le : Float64 → Float64 → Bool
  | .nan, _ | _, .nan => false
  | .inf true, _ | _, .inf false => true
  | .inf false, _ | _, .inf true => false
  | x, y => x.scaled ≤ y.scaled

/-- `x < y` -/
def lt (x y : Float64) : Bool := !x.isNan && !y.isNan && !le y x

/-- `x + y` -/
def add : Float64 → Float64 → Float64
  | .nan, _ | _, .nan => .nan
  | .inf a, .inf b => if a = b then .inf a else .nan
  | .inf a, _ | _, .inf a => .inf a
  | .finite a m e h, .finite b n f k =>
    let s := (Float64.finite a m e h).scaled + (Float64.finite b n f k).scaled
    if s = 0 then pack (a && b) 0 (-1074) else round (s < 0) s.natAbs (-1074)

theorem pack_ne_nan (neg : Bool) (m : Nat) (e : Int) : pack neg m e ≠ .nan := by
  unfold pack
  split <;> simp

theorem round_ne_nan (neg : Bool) (m : Nat) (e : Int) : round neg m e ≠ .nan := by
  unfold round
  split
  · exact pack_ne_nan _ _ _
  · generalize max (e + (Nat.log2 m + 1) - 53) (-1074) = exp
    dsimp only
    generalize (if exp ≤ e then _ else _ : Nat) = mant
    split <;> exact pack_ne_nan _ _ _

/-- A sum with a finite summand is a number. -/
theorem add_ne_nan {x y : Float64} (hx : x.isFinite = true) (hy : y ≠ .nan) : add x y ≠ .nan := by
  cases x with
  | nan => cases hx
  | inf a => cases hx
  | finite a m e h =>
    cases y with
    | nan => exact absurd rfl hy
    | inf b => simp [add]
    | finite b n f k =>
      simp only [add]
      split
      · exact pack_ne_nan _ _ _
      · exact round_ne_nan _ _ _

/-- For numbers, `<` is the negation of `>=`. -/
theorem lt_of_not_le {x y : Float64} (hx : x ≠ .nan) (hy : y ≠ .nan) (h : le y x = false) :
    lt x y = true := by
  have h1 : x.isNan = false := by cases x <;> first | rfl | exact absurd rfl hx
  have h2 : y.isNan = false := by cases y <;> first | rfl | exact absurd rfl hy
  simp [lt, h1, h2, h]

/-! ## Rounding is exact on representable values -/

theorem pack_canonical (neg : Bool) {mant : Nat} {exp : Int} (h : CanonicalFloat mant exp) :
    pack neg mant exp = .finite neg mant exp h := dif_pos h

theorem shiftRound_mul_two_pow (m k : Nat) : shiftRound (m * 2 ^ k) k = m := by
  have hpos : 0 < 2 ^ k := Nat.pow_pos (by omega)
  simp only [shiftRound, Nat.mul_div_cancel _ hpos, Nat.mul_mod_left]
  rw [if_pos (.inl (by omega))]

theorem log2_mul_two_pow {m : Nat} (hm : m ≠ 0) (k : Nat) :
    Nat.log2 (m * 2 ^ k) = Nat.log2 m + k := by
  induction k with
  | zero => simp
  | succ k ih =>
    have hpos : 0 < m * 2 ^ k := Nat.mul_pos (by omega) (Nat.pow_pos (by omega))
    rw [Nat.pow_succ, ← Nat.mul_assoc, Nat.mul_comm _ 2, Nat.log2_two_mul (by omega), ih]
    omega

theorem round_exact {mant : Nat} {exp : Int} (h : CanonicalFloat mant exp) (neg : Bool) (s : Nat)
    {e : Int} (he : e + s = exp) : round neg (mant * 2 ^ s) e = .finite neg mant exp h := by
  have hpow : 0 < 2 ^ s := Nat.pow_pos (by omega)
  unfold round
  by_cases hm : mant = 0
  · subst hm
    have hexp : exp = -1074 := by
      unfold CanonicalFloat at h
      omega
    subst hexp
    rw [if_pos (by omega), pack_canonical neg h]
  · rw [if_neg (Nat.mul_ne_zero hm (by omega)), log2_mul_two_pow hm s]
    have hlog : Nat.log2 mant < 53 := (Nat.log2_lt hm).mpr (by unfold CanonicalFloat at h; omega)
    have hmax : max (e + (((Nat.log2 mant + s : Nat) : Int) + 1) - 53) (-1074) = exp := by
      rcases h with ⟨h1, -⟩ | ⟨h1, -, h3, -⟩
      · omega
      · have : 52 ≤ Nat.log2 mant := (Nat.le_log2 hm).mpr h3
        omega
    rw [hmax]
    have hmant : (if exp ≤ e then mant * 2 ^ s * 2 ^ (e - exp).toNat
        else shiftRound (mant * 2 ^ s) (exp - e).toNat) = mant := by
      split
      · have h1 : s = 0 := by omega
        have h2 : (e - exp).toNat = 0 := by omega
        simp [h1, h2]
      · rw [show (exp - e).toNat = s by omega, shiftRound_mul_two_pow]
    dsimp only
    rw [hmant, if_neg, pack_canonical neg h]
    unfold CanonicalFloat at h
    omega

/-! ## Integers -/

/-- A natural number with at most 53 significant bits. -/
def Representable (n : Nat) : Prop := ∃ m k : Nat, m < 2 ^ 53 ∧ n = m * 2 ^ k

theorem trunc_finite {mant : Nat} {exp : Int} (h : CanonicalFloat mant exp) :
    (Float64.finite false mant exp h).trunc = ((mant * 2 ^ (exp + 1074).toNat / 2 ^ 1074 : Nat) : Int) := by
  have hpow : (2 : Int) ^ 1074 = ((2 ^ 1074 : Nat) : Int) := by rw [Nat.cast_pow, Nat.cast_ofNat]
  unfold trunc scaled
  dsimp only
  rw [if_neg Bool.false_ne_true, hpow]
  exact (Int.ofNat_tdiv _ _).symm

theorem pack_ne_neg (m : Nat) (e : Int) {mant : Nat} {exp : Int} (h : CanonicalFloat mant exp) :
    pack false m e ≠ .finite true mant exp h := by
  unfold pack
  split <;> simp

/-- A positive number is not rounded to a negative one. -/
theorem round_ne_neg (m : Nat) (e : Int) {mant : Nat} {exp : Int} (h : CanonicalFloat mant exp) :
    round false m e ≠ .finite true mant exp h := by
  unfold round
  split
  · exact pack_ne_neg _ _ h
  · generalize max (e + (Nat.log2 m + 1) - 53) (-1074) = exp'
    dsimp only
    generalize (if exp' ≤ e then _ else _ : Nat) = mant'
    split <;> exact pack_ne_neg _ _ h

/-- What `int` makes of a non-negative float has at most 53 significant bits. -/
theorem representable_of_trunc {x : Float64} {n : Nat} (hpos : ∀ m e h, x ≠ .finite true m e h)
    (hx : x.trunc = n) : Representable n := by
  have hzero : x.scaled = 0 → Representable n := by
    intro h
    unfold trunc at hx
    rw [h, Int.zero_tdiv] at hx
    exact ⟨0, 0, Nat.two_pow_pos 53, by omega⟩
  cases x with
  | nan => exact hzero rfl
  | inf neg => exact hzero rfl
  | finite neg mant exp h =>
    cases neg with
    | true => exact absurd rfl (hpos mant exp h)
    | false =>
      rw [trunc_finite h] at hx
      have hn : n = mant * 2 ^ (exp + 1074).toNat / 2 ^ 1074 := by exact_mod_cast hx.symm
      have hlt : mant < 2 ^ 53 := by
        unfold CanonicalFloat at h
        omega
      by_cases hexp : 0 ≤ exp
      · refine ⟨mant, exp.toNat, hlt, ?_⟩
        rw [hn, show (exp + 1074).toNat = exp.toNat + 1074 by omega, Nat.pow_add, ← Nat.mul_assoc,
          Nat.mul_div_cancel _ (Nat.two_pow_pos 1074)]
      · -- below one bit of the mantissa is cut off
        refine ⟨n, 0, ?_, (Nat.mul_one n).symm⟩
        have hle : mant * 2 ^ (exp + 1074).toNat ≤ mant * 2 ^ 1074 :=
          Nat.mul_le_mul_left _ (Nat.pow_le_pow_right Nat.two_pos (by omega))
        have hdiv : n ≤ mant := by
          rw [hn]
          exact Nat.div_le_of_le_mul (Nat.le_trans hle (Nat.le_of_eq (Nat.mul_comm _ _)))
        omega

theorem ofInt_natCast (n : Nat) : ofInt n = round false n 0 := rfl

/-- A number below `2 ^ 53` is a float. -/
theorem round_small {n : Nat} (hn : n ≠ 0) (h : n < 2 ^ 53) : ∃ (k : Nat) (hc : CanonicalFloat (n * 2 ^ k) (-k)),
    k ≤ 52 ∧ round false n 0 = .finite false (n * 2 ^ k) (-k) hc := by
  have hlog : Nat.log2 n < 53 := (Nat.log2_lt hn).mpr h
  have hself : 2 ^ Nat.log2 n ≤ n := Nat.log2_self_le hn
  have hnext : n < 2 ^ (Nat.log2 n + 1) := Nat.lt_log2_self
  obtain ⟨k, hk⟩ : ∃ k, k = 52 - Nat.log2 n := ⟨_, rfl⟩
  have hlow : 2 ^ 52 ≤ n * 2 ^ k := by
    calc 2 ^ 52 = 2 ^ Nat.log2 n * 2 ^ k := by rw [← Nat.pow_add]; congr 1; omega
      _ ≤ n * 2 ^ k := Nat.mul_le_mul_right _ hself
  have hhigh : n * 2 ^ k < 2 ^ 53 := by
    calc n * 2 ^ k < 2 ^ (Nat.log2 n + 1) * 2 ^ k := Nat.mul_lt_mul_of_pos_right hnext (Nat.two_pow_pos k)
      _ = 2 ^ 53 := by rw [← Nat.pow_add]; congr 1; omega
  have hc : CanonicalFloat (n * 2 ^ k) (-k) := .inr ⟨by omega, by omega, hlow, hhigh⟩
  refine ⟨k, hc, by omega, ?_⟩
  have hexp : max ((0 : Int) + (Nat.log2 n + 1) - 53) (-1074) = -k := by omega
  have hmant : (if -(k : Int) ≤ 0 then n * 2 ^ (0 - -(k : Int)).toNat
      else shiftRound n (-(k : Int) - 0).toNat) = n * 2 ^ k := by
    rw [if_pos (by omega), show (0 - -(k : Int)).toNat = k by omega]
  unfold round
  rw [if_neg hn, hexp]
  dsimp only
  rw [hmant, if_neg (by omega), pack_canonical false hc]

/-- **Which integers a float keeps.** -/
theorem trunc_ofInt_iff {n : Nat} (h : n < 2 ^ 63) : (ofInt n).trunc = n ↔ Representable n := by
  constructor
  · exact representable_of_trunc fun m e hc => round_ne_neg n 0 hc
  · rintro ⟨m, k, hm, rfl⟩
    rw [ofInt_natCast]
    by_cases hzero : m * 2 ^ k = 0
    · rw [hzero]
      decide +kernel
    · by_cases hsmall : m * 2 ^ k < 2 ^ 53
      · obtain ⟨j, hc, hj, hround⟩ := round_small hzero hsmall
        rw [hround, trunc_finite hc, show (-(j : Int) + 1074).toNat = 1074 - j by omega, Nat.mul_assoc,
          ← Nat.pow_add, show j + (1074 - j) = 1074 by omega, Nat.mul_div_cancel _ (Nat.two_pow_pos 1074)]
      · -- at most 53 bits, and more than 53 digits: some zeros at the end
        have hm0 : m ≠ 0 := fun h0 => hzero (by rw [h0, Nat.zero_mul])
        have hlog : Nat.log2 (m * 2 ^ k) = Nat.log2 m + k := log2_mul_two_pow hm0 k
        have hmlog : Nat.log2 m < 53 := (Nat.log2_lt hm0).mpr hm
        have hge : 53 ≤ Nat.log2 (m * 2 ^ k) := (Nat.le_log2 hzero).mpr (by omega)
        have hle : Nat.log2 (m * 2 ^ k) < 63 := (Nat.log2_lt hzero).mpr h
        have hself : 2 ^ Nat.log2 m ≤ m := Nat.log2_self_le hm0
        have hnext : m < 2 ^ (Nat.log2 m + 1) := Nat.lt_log2_self
        obtain ⟨j, hj⟩ : ∃ j, j = 52 - Nat.log2 m := ⟨_, rfl⟩
        obtain ⟨i, hi⟩ : ∃ i, k = j + i := ⟨k - j, by omega⟩
        have hlow : 2 ^ 52 ≤ m * 2 ^ j := by
          calc 2 ^ 52 = 2 ^ Nat.log2 m * 2 ^ j := by rw [← Nat.pow_add]; congr 1; omega
            _ ≤ m * 2 ^ j := Nat.mul_le_mul_right _ hself
        have hhigh : m * 2 ^ j < 2 ^ 53 := by
          calc m * 2 ^ j < 2 ^ (Nat.log2 m + 1) * 2 ^ j :=
                Nat.mul_lt_mul_of_pos_right hnext (Nat.two_pow_pos j)
            _ = 2 ^ 53 := by rw [← Nat.pow_add]; congr 1; omega
        have hc : CanonicalFloat (m * 2 ^ j) i := .inr ⟨by omega, by omega, hlow, hhigh⟩
        have hround : round false (m * 2 ^ k) 0 = .finite false (m * 2 ^ j) i hc := by
          rw [hi, Nat.pow_add, ← Nat.mul_assoc]
          exact round_exact hc false i (Int.zero_add _)
        rw [hround, trunc_finite hc, show ((i : Int) + 1074).toNat = i + 1074 by omega, Nat.pow_add,
          ← Nat.mul_assoc, Nat.mul_div_cancel _ (Nat.two_pow_pos 1074), Nat.mul_assoc, ← Nat.pow_add, ← hi]

/-! ## Text -/

/-- The exponent part of a number: `e`, a sign, digits. -/
structure ExpPart where
  upper : Bool
  /-- `some true` is `-`, `some false` is `+` -/
  sign : Option Bool
  digits : List Nat
  valid : digits ≠ [] ∧ ∀ d ∈ digits, d < 10
  deriving DecidableEq

/-- A number with a fraction or an exponent, as JSON writes it. -/
structure Lexeme where
  neg : Bool
  int : Nat
  frac : List Nat
  exp : Option ExpPart
  digits : ∀ d ∈ frac, d < 10
  real : frac ≠ [] ∨ exp.isSome
  deriving DecidableEq

def signText : Option Bool → Str
  | some true => [0x2D]
  | some false => [0x2B]
  | none => []

def ExpPart.text (e : ExpPart) : Str :=
  (if e.upper then 0x45 else 0x65) :: (signText e.sign ++ e.digits.map digitText)

def expText : Option ExpPart → Str
  | some e => e.text
  | none => []

def fracText (ds : List Nat) : Str := if ds = [] then [] else 0x2E :: ds.map digitText

def ExpPart.value (e : ExpPart) : Int :=
  if e.sign = some true then -(ofDigits e.digits : Int) else ofDigits e.digits

def Lexeme.text (l : Lexeme) : Str :=
  (if l.neg then [0x2D] else []) ++ (natText l.int ++ (fracText l.frac ++ expText l.exp))

/-- The float nearest to `n / d`: two guard bits below the last subnormal bit, then a sticky bit. -/
def ofRatio (neg : Bool) (n d : Nat) : Float64 :=
  let q := n * 2 ^ 1076 / d
  round neg (2 * q + if n * 2 ^ 1076 % d = 0 then 0 else 1) (-1077)

/-- `float(text)` -/
def parse (l : Lexeme) : Float64 :=
  let m := l.frac.foldl (fun v d => v * 10 + d) l.int
  let e : Int := (match l.exp with | some e => e.value | none => 0) - l.frac.length
  if 0 ≤ e then ofRatio l.neg (m * 10 ^ e.toNat) 1 else ofRatio l.neg m (10 ^ (-e).toNat)

/-- The last `k` decimal digits of `n`, most significant first. -/
def fixedDigits : Nat → Nat → List Nat
  | 0, _ => []
  | k + 1, n => fixedDigits k (n / 10) ++ [n % 10]

theorem fixedDigits_lt (k n : Nat) : ∀ d ∈ fixedDigits k n, d < 10 := by
  induction k generalizing n with
  | zero => intro d hd; cases hd
  | succ k ih =>
    intro d hd
    rcases List.mem_append.mp hd with hd | hd
    · exact ih _ d hd
    · rw [List.mem_singleton.mp hd]
      omega

theorem length_fixedDigits (k n : Nat) : (fixedDigits k n).length = k := by
  induction k generalizing n with
  | zero => rfl
  | succ k ih => simp [fixedDigits, ih]

theorem foldl_fixedDigits (k n v : Nat) :
    (fixedDigits k n).foldl (fun v d => v * 10 + d) v = v * 10 ^ k + n % 10 ^ k := by
  induction k generalizing n with
  | zero => simp [fixedDigits, Nat.mod_one]
  | succ k ih =>
    have hmod : n % 10 ^ (k + 1) = n / 10 % 10 ^ k * 10 + n % 10 := by
      rw [Nat.pow_succ, Nat.mul_comm (10 ^ k), Nat.mod_mul]
      omega
    simp only [fixedDigits, List.foldl_append, List.foldl_cons, List.foldl_nil, ih, hmod]
    rw [Nat.pow_succ, ← Nat.mul_assoc]
    omega

def isNeg : Float64 → Bool
  | .inf neg => neg
  | .finite neg _ _ _ => neg
  | .nan => false

/-- All decimals of a finite float. -/
def exactDecimal (x : Float64) : Lexeme where
  neg := x.isNeg
  int := x.scaled.natAbs * 5 ^ 1074 / 10 ^ 1074
  frac := fixedDigits 1074 (x.scaled.natAbs * 5 ^ 1074)
  exp := none
  digits := fixedDigits_lt _ _
  real := .inl (List.ne_nil_of_length_pos (by rw [length_fixedDigits]; omega))

/-- A digit string with the decimal point after `point` digits, zeros filled in. -/
def fixedLexeme (neg : Bool) (ds : List Nat) (point : Int) : Lexeme where
  neg := neg
  int := ofDigits ((ds ++ List.replicate point.toNat 0).take point.toNat)
  frac := fixedDigits (max 1 (ds.length - point).toNat) (ofDigits (ds.drop point.toNat))
  exp := none
  digits := fixedDigits_lt _ _
  real := .inl (List.ne_nil_of_length_pos (by rw [length_fixedDigits]; omega))

/-- `d.ddde±XX` -/
def expLexeme (neg : Bool) (d : Nat) (ds : List Nat) (e : Int) : Lexeme where
  neg := neg
  int := d
  frac := fixedDigits ds.length (ofDigits ds)
  exp := some ⟨false, some (e < 0), fixedDigits (max 2 (natDigits e.natAbs).length) e.natAbs,
    List.ne_nil_of_length_pos (by rw [length_fixedDigits]; omega), fixedDigits_lt _ _⟩
  digits := fixedDigits_lt _ _
  real := .inr rfl

/-- The text form that `repr` gives to the number `d * 10 ^ q`. -/
def decimalLexeme (neg : Bool) (d : Nat) (q : Int) : Lexeme :=
  match ((natDigits d).reverse.dropWhile (· == 0)).reverse with
  | [] => fixedLexeme neg [] 1
  | d' :: ds =>
    let point := (natDigits d).length + q
    if -4 < point ∧ point ≤ 16 then fixedLexeme neg (d' :: ds) point
    else expLexeme neg d' ds (point - 1)

/-- The decimal exponent of `s / 2 ^ 1074`. -/
def decimalExp (s : Nat) : Int :=
  if 2 ^ 1074 ≤ s then Nat.log 10 (s / 2 ^ 1074)
  else -(Nat.clog 10 ((2 ^ 1074 + s - 1) / s) : Int)

/-- The decimals of `p` significant digits next to a float, the nearer one first. -/
def candidates (x : Float64) (p : Nat) : List Lexeme :=
  let s := x.scaled.natAbs
  let q := decimalExp s - p + 1
  let (num, den) := if 0 ≤ q then (s, 2 ^ 1074 * 10 ^ q.toNat) else (s * 10 ^ (-q).toNat, 2 ^ 1074)
  let lo := decimalLexeme x.isNeg (num / den) q
  let hi := decimalLexeme x.isNeg (num / den + 1) q
  if 2 * (num % den) < den ∨ (2 * (num % den) = den ∧ num / den % 2 = 0) then [lo, hi] else [hi, lo]

/-- `repr(x)` of a finite float: the shortest decimal that parses back, the nearest among those.
Seventeen digits always suffice, so the exact expansion is only there for the round trip. -/
def repr (x : Float64) : Lexeme :=
  (((List.range 17).flatMap fun p => candidates x (p + 1)).find? fun l => parse l = x).getD
    (exactDecimal x)

theorem scaled_natAbs (neg : Bool) (mant : Nat) (exp : Int) (h : CanonicalFloat mant exp) :
    (Float64.finite neg mant exp h).scaled.natAbs = mant * 2 ^ (exp + 1074).toNat := by
  unfold scaled
  dsimp only
  split
  · rw [Int.natAbs_neg, Int.natAbs_natCast]
  · rw [Int.natAbs_natCast]

theorem parse_exactDecimal {x : Float64} (hx : x.isFinite = true) : parse (exactDecimal x) = x := by
  cases x with
  | nan => cases hx
  | inf neg => cases hx
  | finite neg mant exp h =>
    have hexp : 0 ≤ exp + 1074 := by unfold CanonicalFloat at h; omega
    have hneg : ¬ (0 : Int) ≤ 0 - (1074 : Nat) := by omega
    have hs := scaled_natAbs neg mant exp h
    have h5 : 0 < 5 ^ 1074 := Nat.pow_pos (show 0 < 5 by decide)
    have h2 : 0 < 2 ^ 1074 := Nat.two_pow_pos 1074
    unfold parse exactDecimal
    dsimp only
    rw [length_fixedDigits, foldl_fixedDigits, if_neg hneg, hs]
    generalize hk : (exp + 1074).toNat = k
    have hsum : ∀ n : Nat, n / 10 ^ 1074 * 10 ^ 1074 + n % 10 ^ 1074 = n := fun n => by
      rw [Nat.mul_comm]; exact Nat.div_add_mod n _
    rw [hsum]
    have hten : 10 ^ (-(0 - ((1074 : Nat) : Int))).toNat = 2 ^ 1074 * 5 ^ 1074 := by
      rw [show (-(0 - ((1074 : Nat) : Int))).toNat = 1074 by omega, ← Nat.mul_pow]
    have hnum : mant * 2 ^ k * 5 ^ 1074 * 2 ^ 1076 = mant * 2 ^ k * 4 * (2 ^ 1074 * 5 ^ 1074) := by
      rw [show (1076 : Nat) = 1074 + 2 from rfl, Nat.pow_add 2 1074 2]
      generalize 2 ^ 1074 = a
      generalize 5 ^ 1074 = b
      generalize mant * 2 ^ k = c
      ring
    unfold ofRatio
    dsimp only
    rw [hten, hnum, Nat.mul_div_cancel _ (Nat.mul_pos h2 h5), Nat.mul_mod_left]
    have hm : 2 * (mant * 2 ^ k * 4) + (if 0 = 0 then 0 else 1) = mant * 2 ^ (k + 3) := by
      rw [if_pos rfl, Nat.pow_add]
      ring
    rw [hm]
    exact round_exact h neg (k + 3) (by omega)

/-- **Round trip** of finite floats through their text. -/
theorem parse_repr {x : Float64} (hx : x.isFinite = true) : parse x.repr = x := by
  unfold repr
  cases hf : ((List.range 17).flatMap fun p => candidates x (p + 1)).find? fun l => parse l = x with
  | none => exact parse_exactDecimal hx
  | some l => simpa using List.find?_some hf

example : (ofInt (2 ^ 53 + 1)).trunc = 2 ^ 53 := by decide +kernel

end Float64

end Deadpool.Py
