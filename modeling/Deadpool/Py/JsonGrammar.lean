import Deadpool.Py.JsonRoundTrip
import Mathlib.Data.List.TakeWhile

/-!
# The grammar of JSON

JSON text as the grammar derives it, with a mark on every bracket that opens or closes a container.
The texts of objects are derived with all their members, also members that have one key.  The grammar
leaves open which number a numeral stands for.

Principal result: `loads_grammar` — what `json.loads` accepts is a JSON text of the value it returns.
-/

set_option autoImplicit false

namespace Deadpool.Py

/-! ## Marked text -/

/-- What a character does to the containers around it. -/
inductive Mark where
  | opens | closes | plain
  deriving DecidableEq, Repr

abbrev Marked := List (CodePoint × Mark)

def Marked.text (l : Marked) : Str := l.map Prod.fst

/-- Text without brackets of containers. -/
def unmarked (s : Str) : Marked := s.map fun c => (c, .plain)

@[simp] theorem text_nil : Marked.text [] = [] := rfl

@[simp] theorem text_cons (x : CodePoint × Mark) (l : Marked) :
    Marked.text (x :: l) = x.1 :: Marked.text l := rfl

@[simp] theorem text_append (l m : Marked) : Marked.text (l ++ m) = Marked.text l ++ Marked.text m :=
  List.map_append

@[simp] theorem text_unmarked (s : Str) : Marked.text (unmarked s) = s := by
  simp only [Marked.text, unmarked, List.map_map]
  exact List.map_id s

@[simp] theorem unmarked_append (s t : Str) : unmarked (s ++ t) = unmarked s ++ unmarked t :=
  List.map_append

/-! ## Spaces, strings and numbers -/

def Spaces (s : Str) : Prop := ∀ c ∈ s, isJsonSpace c = true

theorem spaces_nil : Spaces [] := fun c hc => by cases hc

theorem Spaces.append {s t : Str} (hs : Spaces s) (ht : Spaces t) : Spaces (s ++ t) := fun c hc =>
  (List.mem_append.mp hc).elim (hs c) (ht c)

theorem skipSpace_eq (s : Str) : ∃ w, Spaces w ∧ s = w ++ skipSpace s :=
  ⟨s.takeWhile isJsonSpace, fun _ hc => List.mem_takeWhile_imp hc,
    (List.takeWhile_append_dropWhile).symm⟩

/-- The characters after a backslash, and what they stand for. -/
def escapes : List (CodePoint × CodePoint) :=
  [(0x22, 0x22), (0x5C, 0x5C), (0x2F, 0x2F), (0x62, 0x08), (0x66, 0x0C), (0x6E, 0x0A), (0x72, 0x0D),
    (0x74, 0x09)]

/-- Four hexadecimal digits and their number. -/
def HexUnit (h : Str) (u : Nat) : Prop :=
  ∃ a b c d x y z t, h = [a, b, c, d] ∧ hexValue a = some x ∧ hexValue b = some y ∧
    hexValue c = some z ∧ hexValue d = some t ∧ u = x * 4096 + y * 256 + z * 16 + t

/-- An escape for the second half of a surrogate pair comes next. -/
def LowNext (body : Str) : Prop :=
  ∃ l v rest, body = 0x5C :: 0x75 :: (l ++ rest) ∧ HexUnit l v ∧ 0xDC00 ≤ v ∧ v ≤ 0xDFFF

/-- The text between the quotation marks of a string, with the string. -/
inductive StringBody : Str → Str → Prop
  | nil : StringBody [] []
  | char {c : CodePoint} {body s : Str} : 0x20 ≤ c.val → c.val ≠ 0x22 → c.val ≠ 0x5C →
      StringBody body s → StringBody (c :: body) (c :: s)
  | escape {c d : CodePoint} {body s : Str} : (c, d) ∈ escapes → StringBody body s →
      StringBody (0x5C :: c :: body) (d :: s)
  /-- A unit by itself: not the first half of a pair. -/
  | unit {h body s : Str} {u : Nat} : HexUnit h u →
      (0xD800 ≤ u ∧ u ≤ 0xDBFF → ¬ LowNext body) → StringBody body s →
      StringBody (0x5C :: 0x75 :: (h ++ body)) (cp u :: s)
  | pair {h l body s : Str} {u v : Nat} : HexUnit h u → HexUnit l v → 0xD800 ≤ u ∧ u ≤ 0xDBFF →
      0xDC00 ≤ v ∧ v ≤ 0xDFFF → StringBody body s →
      StringBody (0x5C :: 0x75 :: (h ++ 0x5C :: 0x75 :: (l ++ body)))
        (cp (0x10000 + (u - 0xD800) * 1024 + (v - 0xDC00)) :: s)

def Digits (s : Str) : Prop := s ≠ [] ∧ ∀ c ∈ s, (digitValue c).isSome = true

/-- A numeral: a sign, an integer without leading zeros, a fraction and an exponent. -/
structure Numeral (s : Str) : Prop where
  parts : ∃ sign whole fraction exponent : Str, s = sign ++ (whole ++ (fraction ++ exponent)) ∧
    (sign = [] ∨ sign = [0x2D]) ∧ Digits whole ∧ (whole = [0x30] ∨ whole.head? ≠ some 0x30) ∧
    (fraction = [] ∨ ∃ ds, Digits ds ∧ fraction = 0x2E :: ds) ∧
    (exponent = [] ∨ ∃ e esign ds, (e = 0x65 ∨ e = 0x45) ∧ (esign = [] ∨ esign = [0x2D] ∨ esign = [0x2B]) ∧
      Digits ds ∧ exponent = e :: (esign ++ ds))

def Value.IsNumber : Value → Prop
  | .int _ | .float _ => True
  | _ => False

/-! ## Values -/

/-- What a part of a JSON text stands for. -/
inductive Part where
  | value (v : Value)
  /-- what stands between the brackets of an array that is not empty -/
  | elements (xs : List Value)
  /-- what stands between the braces of an object that is not empty -/
  | members (items : List (Str × Value))

/-- The text of a member up to its value. -/
def MemberHead (head key : Str) : Prop :=
  ∃ w body w₁ w₂, Spaces w ∧ StringBody body key ∧ Spaces w₁ ∧ Spaces w₂ ∧
    head = w ++ (0x22 :: (body ++ 0x22 :: (w₁ ++ 0x3A :: w₂)))

inductive Derives : Marked → Part → Prop
  | string {body s : Str} : StringBody body s →
      Derives (unmarked (0x22 :: (body ++ [0x22]))) (.value (.str s))
  | number {s : Str} {v : Value} : Numeral s → v.IsNumber → Derives (unmarked s) (.value v)
  | null : Derives (unmarked (lit "null")) (.value .none)
  | bool (b : Bool) : Derives (unmarked (lit (if b then "true" else "false"))) (.value (.bool b))
  | emptyList {w : Str} : Spaces w →
      Derives ((0x5B, .opens) :: (unmarked w ++ [(0x5D, .closes)])) (.value (.list []))
  | list {l : Marked} {xs : List Value} : Derives l (.elements xs) →
      Derives ((0x5B, .opens) :: (l ++ [(0x5D, .closes)])) (.value (.list xs))
  | emptyDict {w : Str} : Spaces w →
      Derives ((0x7B, .opens) :: (unmarked w ++ [(0x7D, .closes)])) (.value (.dict []))
  | dict {l : Marked} {items : List (Str × Value)} : Derives l (.members items) →
      Derives ((0x7B, .opens) :: (l ++ [(0x7D, .closes)]))
        (.value (.dict (items.map fun item => (.str item.1, item.2))))
  | element {w w' : Str} {l : Marked} {v : Value} : Spaces w → Derives l (.value v) → Spaces w' →
      Derives (unmarked w ++ (l ++ unmarked w')) (.elements [v])
  | elements {w w' : Str} {l rest : Marked} {v : Value} {xs : List Value} : Spaces w →
      Derives l (.value v) → Spaces w' → Derives rest (.elements xs) →
      Derives (unmarked w ++ (l ++ (unmarked (w' ++ [0x2C]) ++ rest))) (.elements (v :: xs))
  | member {head key w' : Str} {l : Marked} {v : Value} : MemberHead head key →
      Derives l (.value v) → Spaces w' →
      Derives (unmarked head ++ (l ++ unmarked w')) (.members [(key, v)])
  | members {head key w' : Str} {l rest : Marked} {v : Value} {items : List (Str × Value)} :
      MemberHead head key → Derives l (.value v) → Spaces w' → Derives rest (.members items) →
      Derives (unmarked head ++ (l ++ (unmarked (w' ++ [0x2C]) ++ rest))) (.members ((key, v) :: items))

/-- A JSON text of a value. -/
def JsonText (l : Marked) (v : Value) : Prop :=
  ∃ (w w' : Str) (m : Marked), Spaces w ∧ Spaces w' ∧ Derives m (.value v) ∧
    l = unmarked w ++ (m ++ unmarked w')

/-! ## Strings -/

theorem scanUnit_hex {h : Str} {u : Nat} (hu : HexUnit h u) (rest : Str) :
    scanUnit (h ++ rest) = some (u, rest) := by
  obtain ⟨a, b, c, d, x, y, z, t, rfl, ha, hb, hc, hd, rfl⟩ := hu
  simp [scanUnit, ha, hb, hc, hd]

theorem hex_of_scanUnit {s r : Str} {u : Nat} (h : scanUnit s = some (u, r)) :
    ∃ l, HexUnit l u ∧ s = l ++ r := by
  unfold scanUnit at h
  split at h
  · rename_i a b c d rest
    obtain ⟨x, hx, h⟩ := Option.bind_eq_some_iff.mp h
    obtain ⟨y, hy, h⟩ := Option.bind_eq_some_iff.mp h
    obtain ⟨z, hz, h⟩ := Option.bind_eq_some_iff.mp h
    obtain ⟨t, ht, h⟩ := Option.bind_eq_some_iff.mp h
    cases h
    exact ⟨[a, b, c, d], ⟨a, b, c, d, x, y, z, t, rfl, hx, hy, hz, ht, rfl⟩, rfl⟩
  · cases h

theorem eq_of_val {c d : CodePoint} (h : c.val = d.val) : c = d := Fin.ext h

theorem low_of_scanLow {s r : Str} {v : Nat} (h : scanLow s = some (v, r)) :
    ∃ l, HexUnit l v ∧ 0xDC00 ≤ v ∧ v ≤ 0xDFFF ∧ s = 0x5C :: 0x75 :: (l ++ r) := by
  unfold scanLow at h
  split at h
  · rename_i b u rest
    split at h
    · rename_i hbu
      split at h
      · rename_i n r' hn
        split at h
        · rename_i hlow
          cases h
          obtain ⟨l, hl, rfl⟩ := hex_of_scanUnit hn
          refine ⟨l, hl, hlow.1, hlow.2, ?_⟩
          rw [eq_of_val (d := 0x5C) hbu.1, eq_of_val (d := 0x75) hbu.2]
        · cases h
      · cases h
    · cases h
  · cases h

theorem not_lowNext {body q : Str} (h : scanLow (body ++ q) = none) : ¬ LowNext body := by
  rintro ⟨l, v, rest, rfl, hl, hlow⟩
  have hunit : scanUnit (l ++ (rest ++ q)) = some (v, rest ++ q) := scanUnit_hex hl _
  have hscan : scanLow (0x5C :: 0x75 :: (l ++ rest) ++ q) = some (v, rest ++ q) := by
    rw [List.cons_append, List.cons_append, List.append_assoc]
    unfold scanLow
    dsimp only
    rw [if_pos ⟨rfl, rfl⟩, hunit]
    exact if_pos hlow
  rw [hscan] at h
  cases h

/-- The escapes that are one character long. -/
theorem mem_escapes {c d : CodePoint} {rest r : Str} (h : scanEscape (c :: rest) = some (d, r))
    (hu : c.val ≠ 0x75) : (c, d) ∈ escapes ∧ r = rest := by
  unfold scanEscape at h
  dsimp only at h
  split at h
  · rename_i hc
    cases h
    refine ⟨?_, rfl⟩
    rcases hc with hc | hc | hc
    · rw [eq_of_val (d := 0x22) hc]
      decide
    · rw [eq_of_val (d := 0x5C) hc]
      decide
    · rw [eq_of_val (d := 0x2F) hc]
      decide
  split at h
  · rename_i hc
    cases h
    rw [eq_of_val (d := 0x62) hc]
    exact ⟨by decide, rfl⟩
  split at h
  · rename_i hc
    cases h
    rw [eq_of_val (d := 0x66) hc]
    exact ⟨by decide, rfl⟩
  split at h
  · rename_i hc
    cases h
    rw [eq_of_val (d := 0x6E) hc]
    exact ⟨by decide, rfl⟩
  split at h
  · rename_i hc
    cases h
    rw [eq_of_val (d := 0x72) hc]
    exact ⟨by decide, rfl⟩
  split at h
  · rename_i hc
    cases h
    rw [eq_of_val (d := 0x74) hc]
    exact ⟨by decide, rfl⟩
  · cases h

/-- An escape of a unit, or of a pair of them. -/
theorem unit_of_scanEscape {c d : CodePoint} {rest r : Str} (hc : c.val = 0x75)
    (h : scanEscape (c :: rest) = some (d, r)) :
    (∃ x u, HexUnit x u ∧ rest = x ++ r ∧ d = cp u ∧ (0xD800 ≤ u ∧ u ≤ 0xDBFF → scanLow r = none)) ∨
    ∃ x y u v, HexUnit x u ∧ HexUnit y v ∧ (0xD800 ≤ u ∧ u ≤ 0xDBFF) ∧ (0xDC00 ≤ v ∧ v ≤ 0xDFFF) ∧
      rest = x ++ 0x5C :: 0x75 :: (y ++ r) ∧
      d = cp (0x10000 + (u - 0xD800) * 1024 + (v - 0xDC00)) := by
  unfold scanEscape at h
  dsimp only at h
  rw [if_neg (by omega), if_neg (by omega), if_neg (by omega), if_neg (by omega), if_neg (by omega),
    if_neg (by omega), if_pos hc] at h
  split at h
  · cases h
  · rename_i u rest' hunit
    obtain ⟨x, hx, rfl⟩ := hex_of_scanUnit hunit
    split at h
    · rename_i hhigh
      split at h
      · rename_i v rest'' hlow
        rw [Option.some.injEq, Prod.mk.injEq] at h
        obtain ⟨rfl, rfl⟩ := h
        obtain ⟨y, hy, hv, hv', rfl⟩ := low_of_scanLow hlow
        exact .inr ⟨x, y, u, v, hx, hy, hhigh, ⟨hv, hv'⟩, rfl, rfl⟩
      · rename_i hnone
        rw [Option.some.injEq, Prod.mk.injEq] at h
        obtain ⟨rfl, rfl⟩ := h
        exact .inl ⟨x, u, hx, rfl, rfl, fun _ => hnone⟩
    · rename_i hhigh
      rw [Option.some.injEq, Prod.mk.injEq] at h
      obtain ⟨rfl, rfl⟩ := h
      exact .inl ⟨x, u, hx, rfl, rfl, fun hu => absurd hu hhigh⟩

/-- A string that is scanned up to its closing quotation mark. -/
theorem scanString_derives : ∀ (fuel : Nat) (s t r : Str), scanString fuel s = some (t, r) →
    ∃ body, StringBody body t ∧ s = body ++ 0x22 :: r := by
  intro fuel
  induction fuel with
  | zero => intro s t r h; cases h
  | succ fuel ih =>
    intro s t r h
    cases s with
    | nil => cases h
    | cons c rest =>
      unfold scanString at h
      split at h
      · rename_i hc
        cases h
        exact ⟨[], .nil, by rw [eq_of_val (d := 0x22) hc]; rfl⟩
      · rename_i hquote
        split at h
        · rename_i hc
          rw [eq_of_val (d := 0x5C) hc]
          split at h
          · cases h
          · rename_i d rest' hesc
            obtain ⟨⟨t', r'⟩, hscan, ht⟩ := Option.map_eq_some_iff.mp h
            cases ht
            obtain ⟨body, hbody, rfl⟩ := ih _ _ _ hscan
            cases rest with
            | nil => cases hesc
            | cons e rest =>
              by_cases hu : e.val = 0x75
              · rw [eq_of_val (d := 0x75) hu]
                rcases unit_of_scanEscape hu hesc with
                  ⟨x, u, hx, rfl, rfl, hlow⟩ | ⟨x, y, u, v, hx, hy, hu, hv, rfl, rfl⟩
                · exact ⟨0x5C :: 0x75 :: (x ++ body), .unit hx (fun hh => not_lowNext (hlow hh)) hbody,
                    by simp⟩
                · exact ⟨0x5C :: 0x75 :: (x ++ 0x5C :: 0x75 :: (y ++ body)), .pair hx hy hu hv hbody,
                    by simp⟩
              · obtain ⟨hmem, hrest⟩ := mem_escapes hesc hu
                exact ⟨0x5C :: e :: body, .escape hmem hbody, by rw [← hrest]; rfl⟩
        · rename_i hback
          split at h
          · cases h
          · rename_i hctrl
            obtain ⟨⟨t', r'⟩, hscan, ht⟩ := Option.map_eq_some_iff.mp h
            cases ht
            obtain ⟨body, hbody, rfl⟩ := ih _ _ _ hscan
            exact ⟨c :: body, .char (by omega) hquote hback hbody, rfl⟩

/-! ## Numbers -/

theorem takeDigits_digits (s : Str) : ∃ p, s = p ++ (takeDigits s).2 ∧
    (∀ c ∈ p, (digitValue c).isSome = true) ∧ ((takeDigits s).1 ≠ [] → p ≠ []) := by
  induction s with
  | nil => exact ⟨[], rfl, fun c hc => (by cases hc), fun h => absurd rfl h⟩
  | cons c rest ih =>
    obtain ⟨p, hp, hdigits, -⟩ := ih
    unfold takeDigits
    split
    · rename_i d hd
      refine ⟨c :: p, congrArg (c :: ·) hp, fun e he => ?_, fun _ => List.cons_ne_nil c p⟩
      rcases List.mem_cons.mp he with rfl | he
      · rw [hd]
        rfl
      · exact hdigits e he
    · exact ⟨[], rfl, fun e he => (by cases he), fun h => absurd rfl h⟩

theorem digits_cons {c : CodePoint} {p : Str} (hc : (digitValue c).isSome = true)
    (hp : ∀ d ∈ p, (digitValue d).isSome = true) : Digits (c :: p) :=
  ⟨List.cons_ne_nil c p, fun d hd => (List.mem_cons.mp hd).elim (fun h => h ▸ hc) (hp d)⟩

theorem scanNat_digits {s r : Str} {ds : List Nat} (h : scanNat s = some (ds, r)) :
    ∃ p, s = p ++ r ∧ Digits p ∧ (p = [0x30] ∨ p.head? ≠ some 0x30) := by
  cases s with
  | nil => cases h
  | cons c rest =>
    simp only [scanNat] at h
    split at h
    · cases h
    · rename_i hzero
      cases h
      have hc : c = 0x30 := by
        unfold digitValue at hzero
        split at hzero
        · rw [Option.some.injEq] at hzero
          exact eq_of_val (d := 0x30) (show c.val = 0x30 by omega)
        · cases hzero
      exact ⟨[c], rfl, digits_cons (by rw [hzero]; rfl) (fun d hd => by cases hd),
        .inl (by rw [hc])⟩
    · rename_i d hne hd
      obtain ⟨p, hp, hdigits, -⟩ := takeDigits_digits rest
      cases h
      refine ⟨c :: p, congrArg (c :: ·) hp, digits_cons (by rw [hd]; rfl) hdigits, .inr ?_⟩
      rw [List.head?_cons]
      intro hc
      rw [Option.some.inj hc] at hd
      exact hne (Option.some.inj (hd.symm.trans rfl))

theorem scanFrac_derives (s : Str) : ∃ p, s = p ++ (scanFrac s).2 ∧
    (p = [] ∨ ∃ ds, Digits ds ∧ p = 0x2E :: ds) := by
  cases s with
  | nil => exact ⟨[], rfl, .inl rfl⟩
  | cons c rest =>
    simp only [scanFrac]
    split
    · rename_i hc
      obtain ⟨p, hp, hdigits, hne⟩ := takeDigits_digits rest
      split
      · exact ⟨[], rfl, .inl rfl⟩
      · rename_i ds r hnil hds
        rw [hds] at hp hne
        have hnonempty : p ≠ [] := hne fun h => hnil h
        refine ⟨c :: p, congrArg (c :: ·) hp, .inr ⟨p, ⟨hnonempty, hdigits⟩, ?_⟩⟩
        rw [eq_of_val (d := 0x2E) hc]
    · exact ⟨[], rfl, .inl rfl⟩

theorem scanSign_derives (s : Str) : ∃ p, s = p ++ (scanSign s).2 ∧
    (p = [] ∨ p = [0x2D] ∨ p = [0x2B]) := by
  cases s with
  | nil => exact ⟨[], rfl, .inl rfl⟩
  | cons c rest =>
    simp only [scanSign]
    split
    · rename_i hc
      exact ⟨[c], rfl, .inr (.inl (by rw [eq_of_val (d := 0x2D) hc]))⟩
    · split
      · rename_i hc
        exact ⟨[c], rfl, .inr (.inr (by rw [eq_of_val (d := 0x2B) hc]))⟩
      · exact ⟨[], rfl, .inl rfl⟩

theorem scanExp_derives (s : Str) : ∃ p, s = p ++ (scanExp s).2 ∧
    (p = [] ∨ ∃ e esign ds, (e = 0x65 ∨ e = 0x45) ∧ (esign = [] ∨ esign = [0x2D] ∨ esign = [0x2B]) ∧
      Digits ds ∧ p = e :: (esign ++ ds)) := by
  cases s with
  | nil => exact ⟨[], rfl, .inl rfl⟩
  | cons c rest =>
    simp only [scanExp]
    split
    · rename_i hc
      split
      · exact ⟨[], rfl, .inl rfl⟩
      · rename_i hne
        obtain ⟨esign, hsign, hesign⟩ := scanSign_derives rest
        obtain ⟨ds, hds, hdigits, hnonempty⟩ := takeDigits_digits (scanSign rest).2
        refine ⟨c :: (esign ++ ds), ?_, .inr ⟨c, esign, ds, ?_, hesign, ⟨hnonempty hne, hdigits⟩, rfl⟩⟩
        · rw [List.cons_append, List.append_assoc, ← hds, ← hsign]
        · exact hc.imp (eq_of_val (d := 0x65)) (eq_of_val (d := 0x45))
    · exact ⟨[], rfl, .inl rfl⟩

theorem scanUnsigned_derives {neg : Bool} {s r : Str} {v : Value}
    (h : scanUnsigned neg s = some (v, r)) :
    ∃ whole fraction exponent, s = whole ++ (fraction ++ (exponent ++ r)) ∧ Digits whole ∧
      (whole = [0x30] ∨ whole.head? ≠ some 0x30) ∧
      (fraction = [] ∨ ∃ ds, Digits ds ∧ fraction = 0x2E :: ds) ∧
      (exponent = [] ∨ ∃ e esign ds, (e = 0x65 ∨ e = 0x45) ∧
        (esign = [] ∨ esign = [0x2D] ∨ esign = [0x2B]) ∧ Digits ds ∧ exponent = e :: (esign ++ ds)) ∧
      v.IsNumber := by
  unfold scanUnsigned at h
  split at h
  · cases h
  · rename_i ds t hnat
    obtain ⟨whole, rfl, hwhole, hzero⟩ := scanNat_digits hnat
    split at h
    · cases h
      obtain ⟨fraction, hfraction, hfrac⟩ := scanFrac_derives t
      obtain ⟨exponent, hexponent, hexp⟩ := scanExp_derives (scanFrac t).2
      refine ⟨whole, fraction, exponent, ?_, hwhole, hzero, hfrac, hexp, trivial⟩
      rw [← hexponent, ← hfraction]
    · split at h
      · cases h
        exact ⟨whole, [], [], rfl, hwhole, hzero, .inl rfl, .inl rfl, trivial⟩
      · cases h

theorem scanNumber_derives {s r : Str} {v : Value} (h : scanNumber s = some (v, r)) :
    ∃ p, s = p ++ r ∧ Numeral p ∧ v.IsNumber := by
  cases s with
  | nil => cases h
  | cons c rest =>
    simp only [scanNumber] at h
    split at h
    · rename_i hc
      obtain ⟨whole, fraction, exponent, hs, hwhole, hzero, hfrac, hexp, hv⟩ := scanUnsigned_derives h
      refine ⟨[0x2D] ++ (whole ++ (fraction ++ exponent)), ?_,
        ⟨_, _, _, _, rfl, .inr rfl, hwhole, hzero, hfrac, hexp⟩, hv⟩
      rw [hs, eq_of_val (d := 0x2D) hc]
      simp
    · obtain ⟨whole, fraction, exponent, hs, hwhole, hzero, hfrac, hexp, hv⟩ := scanUnsigned_derives h
      refine ⟨[] ++ (whole ++ (fraction ++ exponent)), ?_,
        ⟨_, _, _, _, rfl, .inl rfl, hwhole, hzero, hfrac, hexp⟩, hv⟩
      rw [hs]
      simp

/-! ## Containers -/

/-- Spaces before the elements of an array. -/
theorem Derives.spaces_elements {w : Str} (hw : Spaces w) {l : Marked} {xs : List Value}
    (h : Derives l (.elements xs)) : Derives (unmarked w ++ l) (.elements xs) := by
  cases h with
  | element hw₁ hv hw₂ =>
    rw [← List.append_assoc, ← unmarked_append]
    exact .element (hw.append hw₁) hv hw₂
  | elements hw₁ hv hw₂ hrest =>
    rw [← List.append_assoc, ← unmarked_append]
    exact .elements (hw.append hw₁) hv hw₂ hrest

theorem MemberHead.spaces {w head key : Str} (hw : Spaces w) (h : MemberHead head key) :
    MemberHead (w ++ head) key := by
  obtain ⟨w₁, body, w₂, w₃, hw₁, hbody, hw₂, hw₃, rfl⟩ := h
  exact ⟨w ++ w₁, body, w₂, w₃, hw.append hw₁, hbody, hw₂, hw₃, by rw [List.append_assoc]⟩

/-- Spaces before the members of an object. -/
theorem Derives.spaces_members {w : Str} (hw : Spaces w) {l : Marked} {items : List (Str × Value)}
    (h : Derives l (.members items)) : Derives (unmarked w ++ l) (.members items) := by
  cases h with
  | member hhead hv hw₂ =>
    rw [← List.append_assoc, ← unmarked_append]
    exact .member (hhead.spaces hw) hv hw₂
  | members hhead hv hw₂ hrest =>
    rw [← List.append_assoc, ← unmarked_append]
    exact .members (hhead.spaces hw) hv hw₂ hrest

theorem scanLiteral_text {l s r : Str} {w v : Value} (h : scanLiteral l w s = some (v, r)) :
    v = w ∧ s = l ++ r := by
  unfold scanLiteral at h
  split at h
  · rename_i hprefix
    cases h
    obtain ⟨t, rfl⟩ := List.isPrefixOf_iff_prefix.mp hprefix
    exact ⟨rfl, by rw [List.drop_left]⟩
  · cases h

theorem uniqueObject_eq {items : List (Str × Value)} {d : Items} (h : uniqueObject items = some d) :
    d = items.map fun item => (.str item.1, item.2) := by
  unfold uniqueObject at h
  split at h
  · exact (Option.some.inj h).symm
  · cases h

/-- What the three scanners accept, the grammar derives.  By induction on the fuel. -/
theorem scan_derives (fuel : Nat) :
    (∀ s v r, scanValue fuel s = some (v, r) → ∃ l, s = Marked.text l ++ r ∧ Derives l (.value v)) ∧
    (∀ s xs r, scanElements fuel s = some (xs, r) →
      ∃ l, s = Marked.text l ++ 0x5D :: r ∧ Derives l (.elements xs)) ∧
    (∀ s items r, scanMembers fuel s = some (items, r) →
      ∃ l, s = Marked.text l ++ 0x7D :: r ∧ Derives l (.members items)) := by
  induction fuel with
  | zero =>
    refine ⟨?_, ?_, ?_⟩
    · intro s v r h
      cases h
    · intro s xs r h
      cases h
    · intro s items r h
      cases h
  | succ fuel ih =>
    obtain ⟨ihv, ihe, ihm⟩ := ih
    refine ⟨?_, ?_, ?_⟩
    · intro s v r h
      cases s with
      | nil => cases h
      | cons c rest =>
        unfold scanValue at h
        split at h
        · rename_i hc
          obtain ⟨⟨t, r'⟩, hscan, ht⟩ := Option.map_eq_some_iff.mp h
          cases ht
          obtain ⟨body, hbody, rfl⟩ := scanString_derives _ _ _ _ hscan
          refine ⟨_, ?_, .string hbody⟩
          rw [text_unmarked, eq_of_val (d := 0x22) hc]
          simp
        split at h
        · rename_i hc
          rw [eq_of_val (d := 0x7B) hc]
          obtain ⟨w, hw, hspace⟩ := skipSpace_eq rest
          split at h
          · cases h
          · rename_i d t hskip
            rw [hskip] at hspace
            split at h
            · rename_i hd
              cases h
              refine ⟨_, ?_, .emptyDict hw⟩
              rw [hspace, eq_of_val (d := 0x7D) hd]
              simp
            · split at h
              · cases h
              · rename_i items r' hscan
                obtain ⟨d', hunique, hr⟩ := Option.map_eq_some_iff.mp h
                cases hr
                obtain ⟨l, hl, hderives⟩ := ihm _ _ _ hscan
                rw [uniqueObject_eq hunique]
                refine ⟨_, ?_, .dict (hderives.spaces_members hw)⟩
                rw [hspace, hl]
                simp
        split at h
        · rename_i hc
          rw [eq_of_val (d := 0x5B) hc]
          obtain ⟨w, hw, hspace⟩ := skipSpace_eq rest
          split at h
          · cases h
          · rename_i d t hskip
            rw [hskip] at hspace
            split at h
            · rename_i hd
              cases h
              refine ⟨_, ?_, .emptyList hw⟩
              rw [hspace, eq_of_val (d := 0x5D) hd]
              simp
            · obtain ⟨⟨xs, r'⟩, hscan, hr⟩ := Option.map_eq_some_iff.mp h
              cases hr
              obtain ⟨l, hl, hderives⟩ := ihe _ _ _ hscan
              refine ⟨_, ?_, .list (hderives.spaces_elements hw)⟩
              rw [hspace, hl]
              simp
        split at h
        · obtain ⟨rfl, hs⟩ := scanLiteral_text h
          exact ⟨_, by rw [text_unmarked]; exact hs, .null⟩
        split at h
        · obtain ⟨rfl, hs⟩ := scanLiteral_text h
          exact ⟨_, by rw [text_unmarked]; exact hs, .bool true⟩
        split at h
        · obtain ⟨rfl, hs⟩ := scanLiteral_text h
          exact ⟨_, by rw [text_unmarked]; exact hs, .bool false⟩
        · obtain ⟨p, hs, hp, hv⟩ := scanNumber_derives h
          exact ⟨_, by rw [text_unmarked]; exact hs, .number hp hv⟩
    · intro s xs r h
      unfold scanElements at h
      split at h
      · cases h
      · rename_i v t hv
        obtain ⟨l, rfl, hl⟩ := ihv _ _ _ hv
        obtain ⟨w, hw, hspace⟩ := skipSpace_eq t
        split at h
        · cases h
        · rename_i c t' hskip
          rw [hskip] at hspace
          split at h
          · rename_i hc
            cases h
            refine ⟨_, ?_, .element spaces_nil hl hw⟩
            rw [hspace, eq_of_val (d := 0x5D) hc]
            simp
          · split at h
            · rename_i hc
              obtain ⟨⟨xs', r'⟩, hscan, hr⟩ := Option.map_eq_some_iff.mp h
              cases hr
              obtain ⟨m, hm, hderives⟩ := ihe _ _ _ hscan
              obtain ⟨w', hw', hspace'⟩ := skipSpace_eq t'
              refine ⟨_, ?_, .elements spaces_nil hl hw (hderives.spaces_elements hw')⟩
              rw [hspace, hspace', hm, eq_of_val (d := 0x2C) hc]
              simp
            · cases h
    · intro s items r h
      cases s with
      | nil => cases h
      | cons q s =>
        unfold scanMembers at h
        split at h
        · rename_i hq
          rw [eq_of_val (d := 0x22) hq]
          split at h
          · cases h
          · rename_i k t hkey
            obtain ⟨body, hbody, rfl⟩ := scanString_derives _ _ _ _ hkey
            obtain ⟨w₁, hw₁, hspace₁⟩ := skipSpace_eq t
            split at h
            · cases h
            · rename_i colon t₁ hskip₁
              rw [hskip₁] at hspace₁
              split at h
              · rename_i hcolon
                obtain ⟨w₂, hw₂, hspace₂⟩ := skipSpace_eq t₁
                have hhead : MemberHead ([] ++ (0x22 :: (body ++ 0x22 :: (w₁ ++ 0x3A :: w₂)))) k :=
                  ⟨[], body, w₁, w₂, spaces_nil, hbody, hw₁, hw₂, rfl⟩
                split at h
                · cases h
                · rename_i v t₂ hv
                  obtain ⟨l, hl, hderives⟩ := ihv _ _ _ hv
                  obtain ⟨w₃, hw₃, hspace₃⟩ := skipSpace_eq t₂
                  split at h
                  · cases h
                  · rename_i c t₃ hskip₃
                    rw [hskip₃] at hspace₃
                    split at h
                    · rename_i hc
                      cases h
                      refine ⟨_, ?_, .member hhead hderives hw₃⟩
                      rw [hspace₁, hspace₂, hl, hspace₃, eq_of_val (d := 0x3A) hcolon,
                        eq_of_val (d := 0x7D) hc]
                      simp
                    · split at h
                      · rename_i hc
                        obtain ⟨⟨items', r'⟩, hscan, hr⟩ := Option.map_eq_some_iff.mp h
                        cases hr
                        obtain ⟨m, hm, hmembers⟩ := ihm _ _ _ hscan
                        obtain ⟨w₄, hw₄, hspace₄⟩ := skipSpace_eq t₃
                        refine ⟨_, ?_, .members hhead hderives hw₃ (hmembers.spaces_members hw₄)⟩
                        rw [hspace₁, hspace₂, hl, hspace₃, hspace₄, hm, eq_of_val (d := 0x3A) hcolon,
                          eq_of_val (d := 0x2C) hc]
                        simp
                      · cases h
              · cases h
        · cases h

/-- **What `json.loads` accepts** is a JSON text of the value it returns. -/
theorem loads_grammar {text : Str} {v : Value} (h : loads text = some v) :
    ∃ l, Marked.text l = text ∧ JsonText l v := by
  unfold loads at h
  split at h
  · cases h
  · split at h
    · cases h
    · rename_i v' rest hscan
      split at h
      · rename_i hrest
        cases h
        obtain ⟨l, hl, hderives⟩ := (scan_derives _).1 _ _ _ hscan
        obtain ⟨w, hw, hspace⟩ := skipSpace_eq text
        obtain ⟨w', hw', hspace'⟩ := skipSpace_eq rest
        refine ⟨unmarked w ++ (l ++ unmarked w'), ?_, w, w', l, hw, hw', hderives, rfl⟩
        rw [hrest, List.append_nil] at hspace'
        rw [hl, hspace'] at hspace
        rw [text_append, text_append, text_unmarked, text_unmarked]
        exact hspace.symm
      · cases h

end Deadpool.Py
