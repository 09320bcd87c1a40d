import Deadpool.Py.Json

/-!
# What `json.dumps` writes, `json.loads` reads

`Plain` values are those JSON text can carry: encodable strings, finite floats, integers short
enough for `int`, dictionaries with distinct string keys.

Principal results:

* `scanValue_text` — the decoder reads a plain value back from its text, whatever follows it;
* `loads_dumps`    — `loads(dumps(v))` is `v` with every dictionary sorted by key;
* `ascii_dumps`    — the text is ASCII;
* `loads_unique`   — no dictionary of a decoded value has two equal keys;
* `same_canon`     — sorting the keys gives an equal value.
-/

set_option autoImplicit false

namespace Deadpool.Py

/-! ## Strings -/

theorem hexValue_hexDigit {n : Nat} (h : n < 16) : hexValue (hexDigit n) = some n := by
  unfold hexValue
  rw [hexDigit_val h]
  dsimp only
  split
  · rw [if_pos (by omega)]
    congr 1
    omega
  · rw [if_neg (by omega), if_pos (by omega)]
    congr 1
    omega

theorem scanUnit_escapeUnit {n : Nat} (h : n < 0x10000) (r : Str) :
    scanUnit ((escapeUnit n).drop 2 ++ r) = some (n, r) := by
  simp only [escapeUnit, List.drop_succ_cons, List.drop_zero, List.cons_append, List.nil_append,
    scanUnit, hexValue_hexDigit (show n / 4096 % 16 < 16 by omega),
    hexValue_hexDigit (show n / 256 % 16 < 16 by omega),
    hexValue_hexDigit (show n / 16 % 16 < 16 by omega), hexValue_hexDigit (show n % 16 < 16 by omega),
    Option.bind_eq_bind, Option.bind_some, Option.some.injEq, Prod.mk.injEq, and_true]
  omega

theorem escapeUnit_eq (n : Nat) : escapeUnit n = 0x5C :: 0x75 :: (escapeUnit n).drop 2 := rfl

/-- A character that needs `\uXXXX` is read back, alone or as a pair. -/
theorem scanEscape_unit {n : Nat} (h : n < 0x10000) (hs : n < 0xD800 ∨ 0xDFFF < n) (r : Str) :
    scanEscape (0x75 :: ((escapeUnit n).drop 2 ++ r)) = some (cp n, r) := by
  have hhigh : ¬ (0xD800 ≤ n ∧ n ≤ 0xDBFF) := by omega
  simp only [scanEscape, scanUnit_escapeUnit h, hhigh, if_false]
  rfl

theorem scanLow_escapeUnit {n : Nat} (h : 0xDC00 ≤ n ∧ n ≤ 0xDFFF) (r : Str) :
    scanLow (escapeUnit n ++ r) = some (n, r) := by
  rw [escapeUnit_eq, List.cons_append, List.cons_append]
  unfold scanLow
  dsimp only
  rw [if_pos (by decide), scanUnit_escapeUnit (by omega)]
  simp [h]

theorem scanEscape_pair {n : Nat} (h1 : 0x10000 ≤ n) (h2 : n < 0x110000) (r : Str) :
    scanEscape (0x75 :: ((escapeUnit (0xD800 + (n - 0x10000) / 1024)).drop 2 ++
      (escapeUnit (0xDC00 + (n - 0x10000) % 1024) ++ r))) = some (cp n, r) := by
  have hhi : 0xD800 + (n - 0x10000) / 1024 < 0x10000 := by omega
  have hhigh : 0xD800 ≤ 0xD800 + (n - 0x10000) / 1024 ∧
      0xD800 + (n - 0x10000) / 1024 ≤ 0xDBFF := by omega
  have hval : 0x10000 + (0xD800 + (n - 0x10000) / 1024 - 0xD800) * 1024
      + (0xDC00 + (n - 0x10000) % 1024 - 0xDC00) = n := by omega
  simp only [scanEscape, scanUnit_escapeUnit hhi, if_pos hhigh,
    scanLow_escapeUnit (show 0xDC00 ≤ 0xDC00 + (n - 0x10000) % 1024 ∧
      0xDC00 + (n - 0x10000) % 1024 ≤ 0xDFFF by omega), hval]
  rfl

theorem scanString_escape {fuel : Nat} {rest rest' : Str} {c : CodePoint}
    (h : scanEscape rest = some (c, rest')) :
    scanString (fuel + 1) (0x5C :: rest) = (scanString fuel rest').map fun p => (c :: p.1, p.2) := by
  simp only [scanString, h]
  rfl

/-- One escaped character costs one unit of fuel. -/
theorem scanString_escapeChar {c : CodePoint} (hc : isSurrogate c = false) (fuel : Nat) (r : Str) :
    scanString (fuel + 1) (escapeChar c ++ r) =
      (scanString fuel r).map fun p => (c :: p.1, p.2) := by
  have hlt := c.isLt
  have hs : c.val < 0xD800 ∨ 0xDFFF < c.val := by
    simp only [isSurrogate, Bool.and_eq_false_iff, decide_eq_false_iff_not] at hc
    omega
  have simple : ∀ (e : CodePoint), scanEscape (e :: r) = some (c, r) →
      scanString (fuel + 1) ([0x5C, e] ++ r) =
        (scanString fuel r).map fun p => (c :: p.1, p.2) := by
    intro e he
    exact scanString_escape he
  have val_eq : ∀ n : Nat, c.val = n → c = cp n := fun n h => by rw [← h, cp_val_self]
  unfold escapeChar
  dsimp only
  split
  · rename_i h
    exact simple _ (by rw [val_eq _ h]; rfl)
  split
  · rename_i h
    exact simple _ (by rw [val_eq _ h]; rfl)
  split
  · rename_i h
    exact simple _ (by rw [val_eq _ h]; rfl)
  split
  · rename_i h
    exact simple _ (by rw [val_eq _ h]; rfl)
  split
  · rename_i h
    exact simple _ (by rw [val_eq _ h]; rfl)
  split
  · rename_i h
    exact simple _ (by rw [val_eq _ h]; rfl)
  split
  · rename_i h
    exact simple _ (by rw [val_eq _ h]; rfl)
  split
  · rename_i h1 h2 _ _ _ _ _ h
    rw [List.cons_append, List.nil_append, scanString, if_neg h1, if_neg h2, if_neg (by omega)]
  split
  · rename_i h
    rw [escapeUnit_eq, List.cons_append, List.cons_append]
    have := scanEscape_unit h hs r
    rw [cp_val_self] at this
    exact scanString_escape this
  · rename_i h
    rw [escapeUnit_eq, List.append_assoc, List.cons_append, List.cons_append]
    have := scanEscape_pair (by omega) hlt r
    rw [cp_val_self] at this
    exact scanString_escape this

theorem scanString_body {s : Str} (hs : Encodable s) (r : Str) :
    ∀ fuel, s.length < fuel → scanString fuel (s.flatMap escapeChar ++ 0x22 :: r) = some (s, r) := by
  induction s with
  | nil =>
    intro fuel h
    cases fuel with
    | zero => cases h
    | succ fuel => rfl
  | cons c s ih =>
    intro fuel h
    cases fuel with
    | zero => cases h
    | succ fuel =>
      rw [List.flatMap_cons, List.append_assoc, scanString_escapeChar (hs c List.mem_cons_self),
        ih (fun d hd => hs d (List.mem_cons_of_mem _ hd)) fuel (Nat.lt_of_succ_lt_succ h)]
      rfl

theorem escapeChar_length_pos (c : CodePoint) : 1 ≤ (escapeChar c).length := by
  unfold escapeChar
  dsimp only
  repeat' split
  all_goals simp [escapeUnit]

theorem length_le_flatMap_escapeChar (s : Str) : s.length ≤ (s.flatMap escapeChar).length := by
  induction s with
  | nil => exact Nat.le_refl 0
  | cons c s ih =>
    have := escapeChar_length_pos c
    rw [List.flatMap_cons, List.length_append, List.length_cons]
    omega

/-- A quoted string, after its opening quote. -/
theorem scanString_quote {s : Str} (hs : Encodable s) (r : Str) :
    scanString ((s.flatMap escapeChar ++ 0x22 :: r).length + 1) (s.flatMap escapeChar ++ 0x22 :: r) =
      some (s, r) := by
  refine scanString_body hs r _ ?_
  have := length_le_flatMap_escapeChar s
  rw [List.length_append]
  omega

/-! ## Numbers -/

/-- What follows does not continue a digit run. -/
def NoDigit (r : Str) : Prop := ∀ c t, r = c :: t → digitValue c = none

/-- What follows does not continue a number. -/
def NumEnd (r : Str) : Prop :=
  ∀ c t, r = c :: t → digitValue c = none ∧ c.val ≠ 0x2E ∧ c.val ≠ 0x65 ∧ c.val ≠ 0x45

theorem NumEnd.noDigit {r : Str} (h : NumEnd r) : NoDigit r := fun c t e => (h c t e).1

theorem numEnd_nil : NumEnd [] := by
  intro c t h
  cases h

theorem numEnd_cons {c : CodePoint} (t : Str) (h : digitValue c = none)
    (h1 : c.val ≠ 0x2E) (h2 : c.val ≠ 0x65) (h3 : c.val ≠ 0x45) : NumEnd (c :: t) := by
  intro d t' e
  cases e
  exact ⟨h, h1, h2, h3⟩

theorem digitValue_digitText {d : Nat} (h : d < 10) : digitValue (digitText d) = some d := by
  unfold digitValue
  rw [digitText_val h, if_pos (by omega)]
  congr 1
  omega

theorem takeDigits_append {ds : List Nat} (hds : ∀ d ∈ ds, d < 10) {r : Str} (hr : NoDigit r) :
    takeDigits (ds.map digitText ++ r) = (ds, r) := by
  induction ds with
  | nil =>
    cases r with
    | nil => rfl
    | cons c t => simp [takeDigits, hr c t rfl]
  | cons d ds ih =>
    have hd := digitValue_digitText (hds d List.mem_cons_self)
    simp only [List.map_cons, List.cons_append, takeDigits, hd,
      ih fun e he => hds e (List.mem_cons_of_mem _ he)]

theorem scanNat_natText (n : Nat) {r : Str} (hr : NoDigit r) :
    scanNat (natText n ++ r) = some (natDigits n, r) := by
  unfold natText
  cases h : natDigits n with
  | nil => exact absurd h (natDigits_ne_nil n)
  | cons d ds =>
    have hlt := natDigits_lt n
    rw [h] at hlt
    have hd := digitValue_digitText (hlt d List.mem_cons_self)
    have hds := takeDigits_append (fun e he => hlt e (List.mem_cons_of_mem _ he)) hr
    rw [List.map_cons, List.cons_append]
    unfold scanNat
    dsimp only
    rw [hd]
    rcases natDigits_head h with h0 | ⟨-, rfl⟩
    · cases d with
      | zero => exact absurd rfl h0
      | succ d => simp only [hds]
    · cases d with
      | zero => rfl
      | succ d => simp only [hds]

theorem scanFrac_numEnd {r : Str} (hr : NumEnd r) : scanFrac r = ([], r) := by
  cases r with
  | nil => rfl
  | cons c t => simp [scanFrac, (hr c t rfl).2.1]

theorem scanExp_numEnd {r : Str} (hr : NumEnd r) : scanExp r = (none, r) := by
  cases r with
  | nil => rfl
  | cons c t =>
    have h := hr c t rfl
    simp [scanExp, h.2.2.1, h.2.2.2]

theorem scanUnsigned_int (neg : Bool) {n : Nat} (hn : (natText n).length ≤ maxStrDigits) {r : Str}
    (hr : NumEnd r) :
    scanUnsigned neg (natText n ++ r) = some (.int (if neg then -(n : Int) else n), r) := by
  unfold scanUnsigned
  rw [scanNat_natText n hr.noDigit]
  dsimp only
  rw [dif_neg, if_pos, ofDigits_natDigits]
  · rw [← length_natText]
    exact hn
  · simp [scanFrac_numEnd hr, scanExp_numEnd hr]

theorem natText_head (n : Nat) : ∃ d t, natText n = digitText d :: t ∧ d < 10 := by
  unfold natText
  cases h : natDigits n with
  | nil => exact absurd h (natDigits_ne_nil n)
  | cons d ds => exact ⟨d, _, rfl, natDigits_lt n d (by rw [h]; exact List.mem_cons_self)⟩

theorem scanNumber_natText {n : Nat} {r : Str} :
    scanNumber (natText n ++ r) = scanUnsigned false (natText n ++ r) := by
  obtain ⟨d, t, h, hd⟩ := natText_head n
  have hne : (digitText d).val ≠ 0x2D := by
    rw [digitText_val hd]
    omega
  rw [h, List.cons_append, scanNumber, if_neg hne]

theorem scanNumber_intText {n : Int} (hn : (natText n.natAbs).length ≤ maxStrDigits) {r : Str}
    (hr : NumEnd r) : scanNumber (intText n ++ r) = some (.int n, r) := by
  cases n with
  | ofNat n =>
    have h : (natText n).length ≤ maxStrDigits := hn
    show scanNumber (natText n ++ r) = _
    rw [scanNumber_natText, scanUnsigned_int false h hr]
    rfl
  | negSucc n =>
    have h : (natText (n + 1)).length ≤ maxStrDigits := hn
    show scanNumber (0x2D :: (natText (n + 1) ++ r)) = _
    rw [scanNumber, if_pos (by decide), scanUnsigned_int true h hr]
    rfl

theorem noDigit_dot (t : Str) : NoDigit (0x2E :: t) := by
  intro c t' e
  cases e
  decide

theorem noDigit_exp (e : Float64.ExpPart) (r : Str) : NoDigit (e.text ++ r) := by
  intro c t h
  unfold Float64.ExpPart.text at h
  cases hu : e.upper <;> simp only [hu, List.cons_append] at h <;> cases h <;> decide

theorem scanSign_digits {ds : List Nat} (hne : ds ≠ []) (hds : ∀ d ∈ ds, d < 10) (r : Str) :
    scanSign (ds.map digitText ++ r) = (none, ds.map digitText ++ r) := by
  cases ds with
  | nil => exact absurd rfl hne
  | cons d ds =>
    have hd := digitText_val (hds d List.mem_cons_self)
    have h1 : (digitText d).val ≠ 0x2D := by omega
    have h2 : (digitText d).val ≠ 0x2B := by omega
    simp [scanSign, h1, h2]

theorem scanSign_text (sign : Option Bool) {ds : List Nat} (hne : ds ≠ [])
    (hds : ∀ d ∈ ds, d < 10) (r : Str) :
    scanSign (Float64.signText sign ++ (ds.map digitText ++ r)) = (sign, ds.map digitText ++ r) := by
  rcases sign with _ | _ | _
  · exact scanSign_digits hne hds r
  · rfl
  · rfl

theorem scanExp_text (e : Float64.ExpPart) {r : Str} (hr : NoDigit r) :
    scanExp (e.text ++ r) = (some e, r) := by
  obtain ⟨upper, sign, ds, hne, hds⟩ := e
  have htake := takeDigits_append hds hr
  have hs := scanSign_text sign hne hds r
  have hmark : ∀ c : CodePoint, c.val = 0x65 ∨ c.val = 0x45 → c.val = (if upper then 0x45 else 0x65) →
      scanExp (c :: (Float64.signText sign ++ (ds.map digitText ++ r))) =
        (some ⟨upper, sign, ds, hne, hds⟩, r) := by
    intro c hc hu
    unfold scanExp
    dsimp only
    rw [if_pos hc, dif_neg (by rw [hs, htake]; exact hne)]
    simp only [hs, htake, Prod.mk.injEq, and_true, Option.some.injEq]
    cases upper <;> simp_all
  unfold Float64.ExpPart.text
  dsimp only
  rw [List.cons_append, List.append_assoc]
  cases upper
  · exact hmark 0x65 (by decide) rfl
  · exact hmark 0x45 (by decide) rfl

theorem scanFrac_text {ds : List Nat} (hne : ds ≠ []) (hds : ∀ d ∈ ds, d < 10) {r : Str}
    (hr : NoDigit r) : scanFrac (0x2E :: (ds.map digitText ++ r)) = (ds, r) := by
  unfold scanFrac
  dsimp only
  rw [if_pos (by decide), takeDigits_append hds hr]
  cases ds with
  | nil => exact absurd rfl hne
  | cons d ds => rfl

/-- The exponent part of a lexeme, possibly absent, then the end of the number. -/
theorem scanExp_expText (e : Option Float64.ExpPart) {r : Str} (hr : NumEnd r) :
    scanExp (Float64.expText e ++ r) = (e, r) := by
  cases e with
  | none => exact scanExp_numEnd hr
  | some e => exact scanExp_text e hr.noDigit

theorem noDigit_expText (e : Option Float64.ExpPart) {r : Str} (hr : NumEnd r) :
    NoDigit (Float64.expText e ++ r) := by
  cases e with
  | none => exact hr.noDigit
  | some e => exact noDigit_exp e r

theorem scanFrac_fracText {ds : List Nat} (hds : ∀ d ∈ ds, d < 10) (e : Option Float64.ExpPart)
    {r : Str} (hr : NumEnd r) :
    scanFrac (Float64.fracText ds ++ (Float64.expText e ++ r)) = (ds, Float64.expText e ++ r) := by
  unfold Float64.fracText
  by_cases hne : ds = []
  · subst hne
    rw [if_pos rfl, List.nil_append]
    cases e with
    | none => exact scanFrac_numEnd hr
    | some e =>
      obtain ⟨upper, sign, ds, hv⟩ := e
      cases upper <;> rfl
  · rw [if_neg hne]
    exact scanFrac_text hne hds (noDigit_expText e hr)

theorem noDigit_fracText (ds : List Nat) (e : Option Float64.ExpPart) {r : Str} (hr : NumEnd r) :
    NoDigit (Float64.fracText ds ++ (Float64.expText e ++ r)) := by
  unfold Float64.fracText
  by_cases hne : ds = []
  · rw [if_pos hne, List.nil_append]
    exact noDigit_expText e hr
  · rw [if_neg hne]
    exact noDigit_dot _

theorem scanNumber_lexeme (l : Float64.Lexeme) {r : Str} (hr : NumEnd r) :
    scanNumber (l.text ++ r) = some (.float (Float64.parse l), r) := by
  obtain ⟨neg, int, frac, exp, hd, hreal⟩ := l
  have hun : scanUnsigned neg (natText int ++ (Float64.fracText frac ++ (Float64.expText exp ++ r))) =
      some (.float (Float64.parse ⟨neg, int, frac, exp, hd, hreal⟩), r) := by
    have hf := scanFrac_fracText hd exp hr
    have he := scanExp_expText exp hr
    unfold scanUnsigned
    rw [scanNat_natText int (noDigit_fracText frac exp hr)]
    dsimp only
    rw [dif_pos (by rw [hf]; dsimp only; rw [he]; exact hreal)]
    simp only [hf, he, ofDigits_natDigits]
  unfold Float64.Lexeme.text
  dsimp only
  cases neg with
  | true =>
    simp only [↓reduceIte, List.cons_append, List.nil_append, List.append_assoc]
    rw [scanNumber, if_pos (by decide), hun]
  | false =>
    simp only [Bool.false_eq_true, ↓reduceIte, List.nil_append, List.append_assoc]
    rw [scanNumber_natText, hun]

/-! ## Plain values -/

mutual

/-- What JSON text can carry. -/
def Value.Plain : Value → Prop
  | .none | .bool _ => True
  | .int n => (natText n.natAbs).length ≤ maxStrDigits
  | .float x => x.isFinite = true
  | .str s => Encodable s
  | .list xs => PlainList xs
  | .dict items => (items.map Prod.fst).Nodup ∧ PlainItems items
  | .other _ => False

def PlainList : List Value → Prop
  | [] => True
  | x :: xs => x.Plain ∧ PlainList xs

def PlainItems : Items → Prop
  | [] => True
  | (k, v) :: rest => (∃ s, k = .str s ∧ Encodable s) ∧ v.Plain ∧ PlainItems rest

end

theorem plainItems_iff {items : Items} :
    PlainItems items ↔ ∀ item ∈ items, (∃ s, item.1 = .str s ∧ Encodable s) ∧ item.2.Plain := by
  induction items with
  | nil => simp [PlainItems]
  | cons item rest ih =>
    obtain ⟨k, v⟩ := item
    simp only [PlainItems, ih, List.mem_cons, forall_eq_or_imp]
    tauto

/-! ## The decoder reads the text back -/

theorem skipSpace_cons {c : CodePoint} (t : Str) (h : isJsonSpace c = false) :
    skipSpace (c :: t) = c :: t := by
  simp [skipSpace, h]

/-- How the text of a value may start: neither white space nor a closing bracket. -/
def ValueStart (c : CodePoint) : Prop := isJsonSpace c = false ∧ c.val ≠ 0x5D ∧ c.val ≠ 0x7D

theorem valueStart_digitText {d : Nat} (h : d < 10) : ValueStart (digitText d) := by
  have hv := digitText_val h
  unfold ValueStart isJsonSpace
  simp only [hv, Bool.or_eq_false_iff, decide_eq_false_iff_not]
  omega

theorem lexeme_start (l : Float64.Lexeme) : ∃ c t, l.text = c :: t ∧ ValueStart c ∧
    (c.val = 0x2D ∨ ∃ d, d < 10 ∧ c = digitText d) := by
  obtain ⟨d, t, h, hd⟩ := natText_head l.int
  unfold Float64.Lexeme.text
  cases l.neg with
  | true => exact ⟨0x2D, _, rfl, by unfold ValueStart; decide, .inl rfl⟩
  | false =>
    rw [h]
    exact ⟨_, _, rfl, valueStart_digitText hd, .inr ⟨d, hd, rfl⟩⟩

theorem intText_start (n : Int) : ∃ c t, intText n = c :: t ∧ ValueStart c ∧
    (c.val = 0x2D ∨ ∃ d, d < 10 ∧ c = digitText d) := by
  cases n with
  | ofNat n =>
    obtain ⟨d, t, h, hd⟩ := natText_head n
    exact ⟨_, t, h, valueStart_digitText hd, .inr ⟨d, hd, rfl⟩⟩
  | negSucc n => exact ⟨0x2D, _, rfl, by unfold ValueStart; decide, .inl rfl⟩

theorem text_start {v : Value} (hv : v.Plain) : ∃ c t, v.text = c :: t ∧ ValueStart c := by
  have lits : ∀ c t, ValueStart c → ∃ c' t', (c :: t : Str) = c' :: t' ∧ ValueStart c' :=
    fun c t h => ⟨c, t, rfl, h⟩
  cases v with
  | none => exact lits _ _ (by unfold ValueStart; decide)
  | bool b => cases b <;> exact lits _ _ (by unfold ValueStart; decide)
  | int n =>
    obtain ⟨c, t, h, hs, -⟩ := intText_start n
    exact ⟨c, t, h, hs⟩
  | float x =>
    obtain ⟨c, t, h, hs, -⟩ := lexeme_start x.repr
    exact ⟨c, t, h, hs⟩
  | str s => exact lits _ _ (by unfold ValueStart; decide)
  | list xs => cases xs <;> exact lits _ _ (by unfold ValueStart; decide)
  | dict items => cases items <;> exact lits _ _ (by unfold ValueStart; decide)
  | other _ => exact absurd hv (by simp [Value.Plain])

theorem skipSpace_text {v : Value} (hv : v.Plain) (r : Str) :
    skipSpace (v.text ++ r) = v.text ++ r := by
  obtain ⟨c, t, h, hs, -⟩ := text_start hv
  rw [h, List.cons_append, skipSpace_cons _ hs]

/-- A number is dispatched to the number scanner. -/
theorem scanValue_number {c : CodePoint} {t : Str} (fuel : Nat)
    (hc : c.val = 0x2D ∨ ∃ d, d < 10 ∧ c = digitText d) :
    scanValue (fuel + 1) (c :: t) = scanNumber (c :: t) := by
  have hv : c.val = 0x2D ∨ (0x30 ≤ c.val ∧ c.val ≤ 0x39) := by
    rcases hc with hc | ⟨d, hd, rfl⟩
    · exact .inl hc
    · have := digitText_val hd
      omega
  unfold scanValue
  rw [if_neg (by omega), if_neg (by omega), if_neg (by omega), if_neg (by omega),
    if_neg (by omega), if_neg (by omega)]

theorem numEnd_elements (xs : List Value) (r : Str) : NumEnd (elementsText xs ++ r) := by
  cases xs <;> exact numEnd_cons _ (by decide) (by decide) (by decide) (by decide)

theorem numEnd_members (items : Items) (r : Str) : NumEnd (membersText items ++ r) := by
  cases items with
  | nil => exact numEnd_cons _ (by decide) (by decide) (by decide) (by decide)
  | cons item rest => exact numEnd_cons _ (by decide) (by decide) (by decide) (by decide)

theorem length_pos_of_start {v : Value} (hv : v.Plain) : 1 ≤ v.text.length := by
  obtain ⟨c, t, h, -⟩ := text_start hv
  rw [h]
  simp

/-- The keys of plain items as strings. -/
def strItems : Items → List (Str × Value)
  | [] => []
  | (.str s, v) :: rest => (s, v) :: strItems rest
  | (.other _, _) :: rest => strItems rest

theorem strItems_map {items : Items} (h : PlainItems items) :
    (strItems items).map (fun (k, v) => (Key.str k, v)) = items := by
  induction items with
  | nil => rfl
  | cons item rest ih =>
    obtain ⟨k, v⟩ := item
    obtain ⟨⟨s, rfl, -⟩, -, hrest⟩ := h
    simp [strItems, ih hrest]

theorem uniqueObject_strItems {items : Items} (h : PlainItems items)
    (hn : (items.map Prod.fst).Nodup) : uniqueObject (strItems items) = some items := by
  have hmap := strItems_map h
  have hkeys : items.map Prod.fst = ((strItems items).map Prod.fst).map Key.str := by
    conv_lhs => rw [← hmap]
    rw [List.map_map, List.map_map]
    rfl
  have hnodup : ((strItems items).map Prod.fst).Nodup := (hkeys ▸ hn).of_map _
  unfold uniqueObject
  rw [if_pos hnodup, hmap]

theorem elementsText_length_pos (xs : List Value) : 1 ≤ (elementsText xs).length := by
  cases xs <;> simp [elementsText]

theorem membersText_length_pos (items : Items) : 1 ≤ (membersText items).length := by
  cases items <;> simp [membersText]

theorem exists_succ {n : Nat} (h : 1 ≤ n) : ∃ m, n = m + 1 := ⟨n - 1, by omega⟩

mutual

/-- **The decoder reads a plain value back from its text**, whatever follows it; the length of the
text is enough fuel. -/
theorem scanValue_text : ∀ (v : Value) (fuel : Nat) (r : Str), v.Plain → v.text.length ≤ fuel + 1 →
    NumEnd r → scanValue (fuel + 1) (v.text ++ r) = some (v, r)
  | .none, _, _ => fun _ _ _ => rfl
  | .bool true, _, _ => fun _ _ _ => rfl
  | .bool false, _, _ => fun _ _ _ => rfl
  | .int n, fuel, r => by
    intro hv _ hr
    obtain ⟨c, t, h, -, hc⟩ := intText_start n
    have hnum := scanNumber_intText (n := n) hv hr
    simp only [Value.text]
    rw [h, List.cons_append] at hnum ⊢
    rw [scanValue_number fuel hc, hnum]
  | .float x, fuel, r => by
    intro hv _ hr
    obtain ⟨c, t, h, -, hc⟩ := lexeme_start x.repr
    have hnum := scanNumber_lexeme x.repr hr
    simp only [Value.text]
    rw [h, List.cons_append] at hnum ⊢
    rw [scanValue_number fuel hc, hnum, Float64.parse_repr hv]
  | .str s, fuel, r => by
    intro hv _ _
    have hs := scanString_quote hv r
    simp only [Value.text, quote, List.cons_append, List.append_assoc, List.nil_append]
    rw [scanValue, if_pos (by decide), hs]
    rfl
  | .list [], _, _ => fun _ _ _ => rfl
  | .list (x :: xs), fuel, r => by
    intro hv hf hr
    obtain ⟨hx, hxs⟩ := hv
    have hpos := length_pos_of_start hx
    simp only [Value.text, List.length_cons, List.length_append] at hf
    obtain ⟨fuel, rfl⟩ := exists_succ (show 1 ≤ fuel by omega)
    have helems := scanElements_text x xs fuel r hx hxs (by rw [List.length_append]; omega)
    have hskip := skipSpace_text hx (elementsText xs ++ r)
    obtain ⟨c, t, hc, -, h5D, -⟩ := text_start hx
    simp only [Value.text, List.cons_append, List.append_assoc]
    rw [scanValue, if_neg (by decide), if_neg (by decide), if_pos (by decide), hskip]
    rw [hc, List.cons_append] at helems ⊢
    simp only [h5D, ↓reduceIte, helems, Option.map_some]
  | .dict [], _, _ => fun _ _ _ => rfl
  | .dict ((k, v) :: items), fuel, r => by
    intro hv hf hr
    obtain ⟨hnodup, hitems⟩ := hv
    have hunique := uniqueObject_strItems hitems hnodup
    obtain ⟨⟨s, rfl, hs⟩, hval, hrest⟩ := hitems
    have hpos := length_pos_of_start hval
    simp only [Value.text, Key.text, quote, List.length_cons, List.length_append] at hf
    obtain ⟨fuel, rfl⟩ := exists_succ (show 1 ≤ fuel by omega)
    have hmems := scanMembers_text s v items fuel r hs hval hrest (by rw [List.length_append]; omega)
    simp only [Value.text, Key.text, quote, List.cons_append, List.append_assoc, List.nil_append]
      at hmems ⊢
    rw [scanValue, if_neg (by decide), if_pos (by decide), skipSpace_cons _ (by decide)]
    dsimp only
    rw [if_neg (by decide), hmems]
    simp only [hunique, Option.map_some]
  | .other _, _, _ => fun hv => absurd hv (by simp [Value.Plain])
termination_by _ fuel => fuel

theorem scanElements_text : ∀ (x : Value) (xs : List Value) (fuel : Nat) (r : Str), x.Plain →
    PlainList xs → (x.text ++ elementsText xs).length ≤ fuel + 1 →
    scanElements (fuel + 1) (x.text ++ (elementsText xs ++ r)) = some (x :: xs, r)
  | x, [], fuel, r => by
    intro hx _ hf
    have hpos := length_pos_of_start hx
    simp only [elementsText, List.length_append, List.length_singleton] at hf
    obtain ⟨fuel, rfl⟩ := exists_succ (show 1 ≤ fuel by omega)
    have hval := scanValue_text x fuel (elementsText [] ++ r) hx (by omega) (numEnd_elements [] r)
    rw [scanElements, hval]
    rfl
  | x, y :: ys, fuel, r => by
    intro hx hxs hf
    obtain ⟨hy, hys⟩ := hxs
    have hpos := length_pos_of_start hx
    simp only [elementsText, List.length_append, List.length_cons] at hf
    obtain ⟨fuel, rfl⟩ := exists_succ (show 1 ≤ fuel by omega)
    have hval := scanValue_text x fuel (elementsText (y :: ys) ++ r) hx (by omega)
      (numEnd_elements (y :: ys) r)
    have htail := scanElements_text y ys fuel r hy hys (by rw [List.length_append]; omega)
    have hskip := skipSpace_text hy (elementsText ys ++ r)
    rw [scanElements, hval]
    simp only [elementsText, List.cons_append, List.append_assoc]
    rw [skipSpace_cons _ (by decide)]
    dsimp only
    rw [if_neg (by decide), if_pos (by decide), hskip, htail]
    rfl
termination_by _ _ fuel => fuel

theorem scanMembers_text : ∀ (s : Str) (v : Value) (items : Items) (fuel : Nat) (r : Str),
    Encodable s → v.Plain → PlainItems items → (v.text ++ membersText items).length ≤ fuel + 1 →
    scanMembers (fuel + 1) (quote s ++ 0x3A :: (v.text ++ (membersText items ++ r))) =
      some (strItems ((.str s, v) :: items), r)
  | s, v, [], fuel, r => by
    intro hs hv _ hf
    have hpos := length_pos_of_start hv
    simp only [membersText, List.length_append, List.length_singleton] at hf
    obtain ⟨fuel, rfl⟩ := exists_succ (show 1 ≤ fuel by omega)
    have hkey := scanString_quote hs (0x3A :: (v.text ++ (membersText [] ++ r)))
    have hval := scanValue_text v fuel (membersText [] ++ r) hv (by omega) (numEnd_members [] r)
    simp only [quote, List.cons_append, List.append_assoc, List.nil_append]
    rw [scanMembers, if_pos (by decide), hkey]
    dsimp only
    rw [skipSpace_cons _ (by decide)]
    dsimp only
    rw [if_pos (by decide), skipSpace_text hv, hval]
    rfl
  | s, v, (k, w) :: items, fuel, r => by
    intro hs hv hitems hf
    obtain ⟨⟨t, rfl, ht⟩, hw, hrest⟩ := hitems
    have hpos := length_pos_of_start hv
    simp only [membersText, Key.text, quote, List.length_append, List.length_cons,
      List.length_nil] at hf
    obtain ⟨fuel, rfl⟩ := exists_succ (show 1 ≤ fuel by omega)
    have hkey := scanString_quote hs
      (0x3A :: (v.text ++ (membersText ((.str t, w) :: items) ++ r)))
    have hval := scanValue_text v fuel (membersText ((.str t, w) :: items) ++ r) hv (by omega)
      (numEnd_members _ r)
    have htail := scanMembers_text t w items fuel r ht hw hrest
      (by rw [List.length_append]; omega)
    simp only [quote, List.cons_append, List.append_assoc, List.nil_append] at htail ⊢
    rw [scanMembers, if_pos (by decide), hkey]
    dsimp only
    rw [skipSpace_cons _ (by decide)]
    dsimp only
    rw [if_pos (by decide), skipSpace_text hv, hval]
    simp only [membersText, Key.text, quote, List.cons_append, List.append_assoc, List.nil_append]
    rw [skipSpace_cons _ (by decide)]
    dsimp only
    rw [if_neg (by decide), if_pos (by decide), skipSpace_cons _ (by decide), htail]
    rfl
termination_by _ _ _ fuel => fuel

end

/-! ## Sorting the keys -/

theorem strLe_total (s t : Str) : strLe s t = true ∨ strLe t s = true := by
  induction s generalizing t with
  | nil => exact .inl rfl
  | cons a s ih =>
    cases t with
    | nil => exact .inr rfl
    | cons b t =>
      simp only [strLe, Bool.or_eq_true, Bool.and_eq_true, decide_eq_true_eq]
      rcases Nat.lt_trichotomy a.val b.val with h | h | h
      · exact .inl (.inl h)
      · rcases ih t with h' | h'
        · exact .inl (.inr ⟨h, h'⟩)
        · exact .inr (.inr ⟨h.symm, h'⟩)
      · exact .inr (.inl h)

theorem strLe_trans {s t u : Str} (h1 : strLe s t = true) (h2 : strLe t u = true) :
    strLe s u = true := by
  induction s generalizing t u with
  | nil => rfl
  | cons a s ih =>
    cases t with
    | nil => cases h1
    | cons b t =>
      cases u with
      | nil => cases h2
      | cons c u =>
        simp only [strLe, Bool.or_eq_true, Bool.and_eq_true, decide_eq_true_eq] at h1 h2 ⊢
        rcases h1 with h1 | ⟨h1, h1'⟩
        · rcases h2 with h2 | ⟨h2, -⟩
          · exact .inl (by omega)
          · exact .inl (by omega)
        · rcases h2 with h2 | ⟨h2, h2'⟩
          · exact .inl (by omega)
          · exact .inr ⟨by omega, ih h1' h2'⟩

theorem keyLe_total (a b : Key) : keyLe a b = true ∨ keyLe b a = true := by
  cases a with
  | str s =>
    cases b with
    | str t => exact strLe_total s t
    | other t => exact .inl rfl
  | other s =>
    cases b with
    | str t => exact .inr rfl
    | other t => exact strLe_total s t

theorem keyLe_trans {a b c : Key} (h1 : keyLe a b = true) (h2 : keyLe b c = true) :
    keyLe a c = true := by
  cases a with
  | str s =>
    cases c with
    | other u => rfl
    | str u =>
      cases b with
      | str t => exact strLe_trans h1 h2
      | other t => exact absurd h2 (by simp [keyLe])
  | other s =>
    cases b with
    | str t => exact absurd h1 (by simp [keyLe])
    | other t =>
      cases c with
      | str u => exact absurd h2 (by simp [keyLe])
      | other u => exact strLe_trans h1 h2

instance : Std.Total fun a b : Key × Value => keyLe a.1 b.1 = true :=
  ⟨fun a b => keyLe_total a.1 b.1⟩

instance : IsTrans (Key × Value) fun a b => keyLe a.1 b.1 = true :=
  ⟨fun _ _ _ => keyLe_trans⟩

theorem sortItems_perm (items : Items) : (sortItems items).Perm items :=
  List.perm_insertionSort _ _

theorem canonItems_eq_map (items : Items) :
    canonItems items = items.map fun item => (item.1, item.2.canon) := by
  induction items with
  | nil => rfl
  | cons item rest ih => simp [canonItems, ih]

theorem keys_canonItems (items : Items) :
    (canonItems items).map Prod.fst = items.map Prod.fst := by
  rw [canonItems_eq_map, List.map_map]
  rfl

mutual

theorem plain_canon : ∀ {v : Value}, v.Plain → v.canon.Plain
  | .none, h => h
  | .bool _, h => h
  | .int _, h => h
  | .float _, h => h
  | .str _, h => h
  | .list _, h => plainList_canon h
  | .dict items, h => by
    obtain ⟨hnodup, hitems⟩ := h
    have hperm := sortItems_perm (canonItems items)
    refine ⟨?_, ?_⟩
    · rw [(hperm.map Prod.fst).nodup_iff, keys_canonItems]
      exact hnodup
    · rw [plainItems_iff]
      intro item hmem
      exact plainItems_iff.mp (plainItems_canon hitems) item (hperm.mem_iff.mp hmem)
  | .other _, h => h

theorem plainList_canon : ∀ {xs : List Value}, PlainList xs → PlainList (canonList xs)
  | [], h => h
  | _ :: _, h => ⟨plain_canon h.1, plainList_canon h.2⟩

theorem plainItems_canon : ∀ {items : Items}, PlainItems items → PlainItems (canonItems items)
  | [], h => h
  | (_, _) :: _, h => ⟨h.1, plain_canon h.2.1, plainItems_canon h.2.2⟩

end

/-! ## The text is ASCII -/

theorem ascii_escapeUnit (n : Nat) : Ascii (escapeUnit n) := escapeUnit_lt n

theorem ascii_escapeChar (c : CodePoint) : Ascii (escapeChar c) := by
  unfold escapeChar
  dsimp only
  split
  · decide
  split
  · decide
  split
  · decide
  split
  · decide
  split
  · decide
  split
  · decide
  split
  · decide
  split
  · intro d hd
    rw [List.mem_singleton.mp hd]
    omega
  split
  · exact ascii_escapeUnit _
  · exact (ascii_escapeUnit _).append (ascii_escapeUnit _)

theorem ascii_quote (s : Str) : Ascii (quote s) := by
  refine .cons (by decide) (.append ?_ (by decide))
  intro c hc
  obtain ⟨d, -, hd⟩ := List.mem_flatMap.mp hc
  exact ascii_escapeChar d c hd

theorem ascii_digits {ds : List Nat} (h : ∀ d ∈ ds, d < 10) : Ascii (ds.map digitText) := by
  intro c hc
  obtain ⟨d, hd, rfl⟩ := List.mem_map.mp hc
  have := h d hd
  rw [digitText_val this]
  omega

theorem ascii_lexeme (l : Float64.Lexeme) : Ascii l.text := by
  unfold Float64.Lexeme.text
  refine .append (by cases l.neg <;> decide) (.append (ascii_natText _) (.append ?_ ?_))
  · unfold Float64.fracText
    split
    · decide
    · exact .cons (by decide) (ascii_digits l.digits)
  · cases l.exp with
    | none => exact (by decide : Ascii [])
    | some e =>
      refine .cons (by cases e.upper <;> decide) (.append ?_ (ascii_digits e.valid.2))
      rcases e.sign with _ | _ | _ <;> decide

theorem ascii_key (k : Key) : Ascii k.text := by
  cases k with
  | str s => exact ascii_quote s
  | other _ => exact (by decide : Ascii [])

mutual

theorem ascii_text : ∀ v : Value, Ascii v.text
  | .none => by decide
  | .bool true => by decide
  | .bool false => by decide
  | .int n => ascii_intText n
  | .float x => ascii_lexeme x.repr
  | .str s => ascii_quote s
  | .list [] => by decide
  | .list (x :: xs) => .cons (by decide) ((ascii_text x).append (ascii_elements xs))
  | .dict [] => by decide
  | .dict ((k, v) :: items) => .cons (by decide)
      ((ascii_key k).append (.cons (by decide) ((ascii_text v).append (ascii_members items))))
  | .other _ => by simp [Value.text, Ascii]

theorem ascii_elements : ∀ xs : List Value, Ascii (elementsText xs)
  | [] => by decide
  | x :: xs => .cons (by decide) ((ascii_text x).append (ascii_elements xs))

theorem ascii_members : ∀ items : Items, Ascii (membersText items)
  | [] => by decide
  | (k, v) :: items => .cons (by decide)
      ((ascii_key k).append (.cons (by decide) ((ascii_text v).append (ascii_members items))))

end

theorem ascii_dumps (v : Value) : Ascii (dumps v) := ascii_text v.canon

/-- **Round trip.** -/
theorem loads_dumps {v : Value} (hv : v.Plain) : loads (dumps v) = some v.canon := by
  have hp := plain_canon hv
  have hscan := scanValue_text v.canon (dumps v).length [] hp (Nat.le_succ _) numEnd_nil
  have hskip := skipSpace_text hp []
  rw [List.append_nil] at hscan hskip
  have hbom : (dumps v).head? ≠ some 0xFEFF := by
    obtain ⟨c, t, h, -⟩ := text_start hp
    have hlt := ascii_dumps v c (by unfold dumps; rw [h]; exact List.mem_cons_self)
    unfold dumps
    rw [h, List.head?_cons]
    intro he
    rw [Option.some.inj he] at hlt
    revert hlt
    decide
  unfold loads
  rw [if_neg hbom]
  rw [show skipSpace (dumps v) = v.canon.text from hskip, hscan]
  rfl

/-! ## Decoded dictionaries have distinct keys -/

theorem uniqueItems_of_mem {items : Items} (h : ∀ item ∈ items, item.2.Unique) :
    UniqueItems items := by
  induction items with
  | nil => trivial
  | cons item rest ih =>
    exact ⟨h item List.mem_cons_self, ih fun i hi => h i (List.mem_cons_of_mem _ hi)⟩

theorem uniqueObject_unique {items : List (Str × Value)} {d : Items}
    (h : uniqueObject items = some d) (hv : ∀ item ∈ items, item.2.Unique) :
    (Value.dict d).Unique := by
  unfold uniqueObject at h
  split at h
  · rename_i hnodup
    cases h
    constructor
    · have hkeys := hnodup.map (fun _ _ h => Key.str.inj h : Function.Injective Key.str)
      rw [List.map_map] at hkeys ⊢
      exact hkeys
    · refine uniqueItems_of_mem fun item hitem => ?_
      obtain ⟨p, hp, rfl⟩ := List.mem_map.mp hitem
      exact hv p hp
  · cases h

theorem scanNumber_unique {s r : Str} {v : Value} (h : scanNumber s = some (v, r)) : v.Unique := by
  have hun : ∀ neg t, scanUnsigned neg t = some (v, r) → v.Unique := by
    intro neg t ht
    unfold scanUnsigned at ht
    split at ht
    · cases ht
    · split at ht
      · cases ht; trivial
      · split at ht
        · cases ht; trivial
        · cases ht
  unfold scanNumber at h
  split at h
  · cases h
  · split at h
    · exact hun _ _ h
    · exact hun _ _ h

theorem scanLiteral_unique {l s r : Str} {w v : Value} (hw : w.Unique)
    (h : scanLiteral l w s = some (v, r)) : v.Unique := by
  unfold scanLiteral at h
  split at h
  · cases h; exact hw
  · cases h

/-- By induction on the fuel, for the three scanners at once. -/
theorem scan_unique (fuel : Nat) :
    (∀ s v r, scanValue fuel s = some (v, r) → v.Unique) ∧
      (∀ s xs r, scanElements fuel s = some (xs, r) → UniqueList xs) ∧
      (∀ s items r, scanMembers fuel s = some (items, r) → ∀ p ∈ items, p.2.Unique) := by
  induction fuel with
  | zero =>
    refine ⟨?_, ?_, ?_⟩
    · intro s v r h; simp [scanValue] at h
    · intro s xs r h; simp [scanElements] at h
    · intro s items r h; simp [scanMembers] at h
  | succ fuel ih =>
    obtain ⟨ihv, ihe, ihm⟩ := ih
    refine ⟨?_, ?_, ?_⟩
    · intro s v r h
      cases s with
      | nil => simp [scanValue] at h
      | cons c rest =>
        unfold scanValue at h
        split at h
        · simp only [Option.map_eq_some_iff] at h
          obtain ⟨p, -, hp⟩ := h
          cases hp; trivial
        split at h
        · split at h
          · cases h
          · split at h
            · cases h
              exact ⟨List.nodup_nil, trivial⟩
            · split at h
              · cases h
              · rename_i items r' hm
                simp only [Option.map_eq_some_iff] at h
                obtain ⟨d, hd, hp⟩ := h
                cases hp
                exact uniqueObject_unique hd (ihm _ _ _ hm)
        split at h
        · split at h
          · cases h
          · split at h
            · cases h; trivial
            · simp only [Option.map_eq_some_iff] at h
              obtain ⟨p, hp, hv⟩ := h
              cases hv
              exact ihe _ _ _ hp
        split at h
        · exact scanLiteral_unique (by trivial) h
        split at h
        · exact scanLiteral_unique (by trivial) h
        split at h
        · exact scanLiteral_unique (by trivial) h
        · exact scanNumber_unique h
    · intro s xs r h
      unfold scanElements at h
      split at h
      · cases h
      · rename_i v r' hv
        split at h
        · cases h
        · split at h
          · cases h
            exact ⟨ihv _ _ _ hv, trivial⟩
          · split at h
            · simp only [Option.map_eq_some_iff] at h
              obtain ⟨p, hp, hxs⟩ := h
              cases hxs
              exact ⟨ihv _ _ _ hv, ihe _ _ _ hp⟩
            · cases h
    · intro s items r h
      cases s with
      | nil => simp [scanMembers] at h
      | cons q s =>
        unfold scanMembers at h
        split at h
        · split at h
          · cases h
          · split at h
            · cases h
            · split at h
              · split at h
                · cases h
                · rename_i v r' hv
                  split at h
                  · cases h
                  · split at h
                    · cases h
                      intro p hp
                      rw [List.mem_singleton.mp hp]
                      exact ihv _ _ _ hv
                    · split at h
                      · simp only [Option.map_eq_some_iff] at h
                        obtain ⟨p, hp, hitems⟩ := h
                        cases hitems
                        intro q hq
                        rcases List.mem_cons.mp hq with rfl | hq
                        · exact ihv _ _ _ hv
                        · exact ihm _ _ _ hp q hq
                      · cases h
              · cases h
        · cases h

theorem loads_unique {text : Str} {v : Value} (h : loads text = some v) : v.Unique := by
  unfold loads at h
  split at h
  · cases h
  · split at h
    · cases h
    · rename_i w rest hw
      split at h
      · cases h
        exact (scan_unique _).1 _ _ _ hw
      · cases h

/-! ## Equal values -/

mutual

/-- Python's `==` between values of the same types: the order of a dictionary's keys does not
count. -/
def Value.Same : Value → Value → Prop
  | .list xs, w => ∃ ys, w = .list ys ∧ SameList xs ys
  | .dict items, w => ∃ items', w = .dict items' ∧ items.length = items'.length ∧
      SameItems items items'
  | v, w => v = w

def SameList : List Value → List Value → Prop
  | [], ys => ys = []
  | x :: xs, ys => ∃ y ys', ys = y :: ys' ∧ x.Same y ∧ SameList xs ys'

/-- Every item on the left has its key on the right with an equal value. -/
def SameItems : Items → Items → Prop
  | [], _ => True
  | (k, v) :: rest, items' => (∃ w, (k, w) ∈ items' ∧ v.Same w) ∧ SameItems rest items'

end

mutual

/-- Sorting the keys gives an equal value. -/
theorem same_canon : ∀ v : Value, v.Same v.canon
  | .none => rfl
  | .bool _ => rfl
  | .int _ => rfl
  | .float _ => rfl
  | .str _ => rfl
  | .list xs => ⟨_, rfl, sameList_canon xs⟩
  | .dict items => by
    have hperm := sortItems_perm (canonItems items)
    refine ⟨_, rfl, ?_, ?_⟩
    · rw [hperm.length_eq, canonItems_eq_map, List.length_map]
    · refine sameItems_canon items _ fun item hmem => hperm.mem_iff.mpr ?_
      rw [canonItems_eq_map]
      exact List.mem_map_of_mem hmem
  | .other _ => rfl

theorem sameList_canon : ∀ xs : List Value, SameList xs (canonList xs)
  | [] => rfl
  | x :: xs => ⟨_, _, rfl, same_canon x, sameList_canon xs⟩

theorem sameItems_canon : ∀ (items items' : Items),
    (∀ item ∈ items, (item.1, item.2.canon) ∈ items') → SameItems items items'
  | [], _, _ => trivial
  | (_, v) :: rest, items', h =>
    ⟨⟨_, h _ List.mem_cons_self, same_canon v⟩,
      sameItems_canon rest items' fun item hmem => h item (List.mem_cons_of_mem _ hmem)⟩

end

mutual

theorem unique_canon : ∀ {v : Value}, v.Unique → v.canon.Unique
  | .none, h => h
  | .bool _, h => h
  | .int _, h => h
  | .float _, h => h
  | .str _, h => h
  | .list _, h => uniqueList_canon h
  | .dict items, h => by
    have hperm := sortItems_perm (canonItems items)
    refine ⟨?_, uniqueItems_of_mem fun item hmem => ?_⟩
    · rw [(hperm.map Prod.fst).nodup_iff, keys_canonItems]
      exact h.1
    · exact uniqueItems_mem (uniqueItems_canon h.2) (hperm.mem_iff.mp hmem)
  | .other _, h => h

theorem uniqueList_canon : ∀ {xs : List Value}, UniqueList xs → UniqueList (canonList xs)
  | [], h => h
  | _ :: _, h => ⟨unique_canon h.1, uniqueList_canon h.2⟩

theorem uniqueItems_canon : ∀ {items : Items}, UniqueItems items → UniqueItems (canonItems items)
  | [], h => h
  | (_, _) :: _, h => ⟨unique_canon h.1, uniqueItems_canon h.2⟩

end

/-- The dictionary as it comes back from `json.loads(json.dumps(d, sort_keys=True))`. -/
def Dict.sorted (d : Dict) : Dict := ⟨sortItems (canonItems d.items), unique_canon d.unique⟩

end Deadpool.Py
