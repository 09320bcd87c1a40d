import Deadpool.Remote.Protocol

/-!
# What control validation accepts

`_validate_json` accepts exactly the values within the bounds (`Bounded`) whose nesting fits below
the depth at which it starts.  Such values survive the trip through `json.dumps` and `json.loads`,
and their text passes the lexical nesting check.

Principal results:

* `validateJson_ok`    — validation is `Bounded` plus a bound on the height;
* `nesting_text`       — the lexical check accepts the text of a value of fitting height;
* `jsonLoads_jsonDumps` — the reader decodes what the writer encoded, with the keys sorted.
-/

set_option autoImplicit false

namespace Deadpool.Remote

open Deadpool.Py

/-! ## Bounds and height -/

mutual

/-- Levels below a value; an empty container has none. -/
def height : Value → Nat
  | .list xs => heightList xs
  | .dict items => heightItems items
  | _ => 0

def heightList : List Value → Nat
  | [] => 0
  | x :: xs => max (height x + 1) (heightList xs)

def heightItems : Items → Nat
  | [] => 0
  | (_, v) :: rest => max (height v + 1) (heightItems rest)

end

/-- A string that validation accepts. -/
def BoundedStr (limits : RemoteLimits) (s : Str) : Prop :=
  Encodable s ∧ (s.flatMap utf8Char).length ≤ limits.maxMetadataBytes

mutual

/-- Every bound of `_validate_json` except the depth. -/
def Bounded (limits : RemoteLimits) : Value → Prop
  | .none | .bool _ => True
  | .str s => BoundedStr limits s
  | .int n => -(2 ^ 63) ≤ n ∧ n < 2 ^ 63
  | .float x => x.isFinite = true
  | .list xs => xs.length ≤ 1024 ∧ BoundedList limits xs
  | .dict items => items.length ≤ 128 ∧ BoundedItems limits items
  | .other _ => False

def BoundedList (limits : RemoteLimits) : List Value → Prop
  | [] => True
  | x :: xs => Bounded limits x ∧ BoundedList limits xs

def BoundedItems (limits : RemoteLimits) : Items → Prop
  | [] => True
  | (k, v) :: rest =>
    (∃ s, k = .str s ∧ BoundedStr limits s) ∧ Bounded limits v ∧ BoundedItems limits rest

end

section Validation

variable {limits : RemoteLimits}

theorem refuse_ok {p : Prop} [Decidable p] {message : String} :
    refuse p message = .ok () ↔ ¬ p := by
  unfold refuse
  by_cases h : p <;> simp [h, Raised.because]

theorem checkDepth_ok {depth : Nat} : checkDepth depth = .ok () ↔ depth ≤ maxJsonDepth := by
  unfold checkDepth
  rw [refuse_ok]
  omega

theorem validateStr_ok {s : Str} : validateStr limits s = .ok () ↔ BoundedStr limits s := by
  unfold validateStr encodeUtf8 BoundedStr
  by_cases h : Encodable s
  · simp only [h, if_true, true_and]
    rw [refuse_ok]
    omega
  · simp [h]

theorem heightList_le {xs : List Value} {n : Nat} :
    heightList xs ≤ n ↔ ∀ x ∈ xs, height x + 1 ≤ n := by
  induction xs with
  | nil => simp [heightList]
  | cons x xs ih => simp [heightList, ih]

theorem heightItems_le {items : Items} {n : Nat} :
    heightItems items ≤ n ↔ ∀ item ∈ items, height item.2 + 1 ≤ n := by
  induction items with
  | nil => simp [heightItems]
  | cons item rest ih => simp [heightItems, ih]

mutual

/-- **Validation** is the bounds and the height. -/
theorem validateJson_ok : ∀ (v : Value) (depth : Nat),
    validateJson limits v depth = .ok () ↔ Bounded limits v ∧ depth + height v ≤ maxJsonDepth
  | .none, depth => by simp [validateJson, checkDepth_ok, Bounded, height]
  | .bool _, depth => by simp [validateJson, checkDepth_ok, Bounded, height]
  | .str s, depth => by
    simp only [validateJson, bind_unit_ok, checkDepth_ok, validateStr_ok, Bounded, height, Nat.add_zero]
    exact and_comm
  | .int n, depth => by
    simp only [validateJson, bind_unit_ok, checkDepth_ok, refuse_ok, not_not, Bounded, height, Nat.add_zero]
    exact and_comm
  | .float x, depth => by
    simp only [validateJson, bind_unit_ok, checkDepth_ok, refuse_ok, not_not, Bounded, height, Nat.add_zero]
    exact and_comm
  | .list xs, depth => by
    simp only [validateJson, bind_unit_ok, checkDepth_ok, refuse_ok, validateList_ok xs depth,
      Bounded, height]
    constructor
    · rintro ⟨h1, h2, h3, h4⟩
      refine ⟨⟨by omega, h3⟩, ?_⟩
      rcases h4 with h4 | rfl
      · exact h4
      · exact h1
    · rintro ⟨⟨h1, h2⟩, h3⟩
      exact ⟨by omega, by omega, h2, .inl h3⟩
  | .dict items, depth => by
    simp only [validateJson, bind_unit_ok, checkDepth_ok, refuse_ok, validateItems_ok items depth,
      Bounded, height]
    constructor
    · rintro ⟨h1, h2, h3, h4⟩
      refine ⟨⟨by omega, h3⟩, ?_⟩
      rcases h4 with h4 | rfl
      · exact h4
      · exact h1
    · rintro ⟨⟨h1, h2⟩, h3⟩
      exact ⟨by omega, by omega, h2, .inl h3⟩
  | .other _, depth => by simp [validateJson, bind_unit_ok, Bounded]

theorem validateList_ok : ∀ (xs : List Value) (depth : Nat),
    validateList limits xs (depth + 1) = .ok () ↔
      BoundedList limits xs ∧ (depth + heightList xs ≤ maxJsonDepth ∨ xs = [])
  | [], depth => by simp [validateList, BoundedList]
  | x :: xs, depth => by
    simp only [validateList, bind_unit_ok, validateJson_ok x (depth + 1), validateList_ok xs depth,
      BoundedList, heightList, List.cons_ne_nil, or_false]
    constructor
    · rintro ⟨⟨h1, h2⟩, h3, h4⟩
      refine ⟨⟨h1, h3⟩, ?_⟩
      rcases h4 with h4 | rfl
      · omega
      · simp only [heightList]
        omega
    · rintro ⟨⟨h1, h2⟩, h3⟩
      exact ⟨⟨h1, by omega⟩, h2, .inl (by omega)⟩

theorem validateItems_ok : ∀ (items : Items) (depth : Nat),
    validateItems limits items (depth + 1) = .ok () ↔
      BoundedItems limits items ∧ (depth + heightItems items ≤ maxJsonDepth ∨ items = [])
  | [], depth => by simp [validateItems, BoundedItems]
  | (.other t, v) :: rest, depth => by simp [validateItems, BoundedItems, Raised.because]
  | (.str key, v) :: rest, depth => by
    simp only [validateItems, bind_unit_ok, checkDepth_ok, validateStr_ok, validateJson_ok v (depth + 1),
      validateItems_ok rest depth, BoundedItems, heightItems, List.cons_ne_nil, or_false,
      Key.str.injEq, exists_eq_left']
    constructor
    · rintro ⟨h0, hkey, ⟨h1, h2⟩, h3, h4⟩
      refine ⟨⟨hkey, h1, h3⟩, ?_⟩
      rcases h4 with h4 | rfl
      · omega
      · simp only [heightItems]
        omega
    · rintro ⟨⟨hkey, h1, h2⟩, h3⟩
      exact ⟨by omega, hkey, ⟨h1, by omega⟩, h2, .inl (by omega)⟩

end

end Validation

/-! ## Sorting the keys changes nothing of this -/

section Canon

variable {limits : RemoteLimits}

theorem boundedItems_iff {items : Items} :
    BoundedItems limits items ↔
      ∀ item ∈ items, (∃ s, item.1 = .str s ∧ BoundedStr limits s) ∧ Bounded limits item.2 := by
  induction items with
  | nil => simp [BoundedItems]
  | cons item rest ih =>
    obtain ⟨k, v⟩ := item
    simp only [BoundedItems, ih, List.mem_cons, forall_eq_or_imp, and_assoc]

theorem length_canonItems (items : Items) : (canonItems items).length = items.length := by
  rw [canonItems_eq_map, List.length_map]

theorem length_canonList (xs : List Value) : (canonList xs).length = xs.length := by
  induction xs with
  | nil => rfl
  | cons x xs ih => simp [canonList, ih]

mutual

theorem bounded_canon : ∀ {v : Value}, Bounded limits v → Bounded limits v.canon
  | .none, h => h
  | .bool _, h => h
  | .int _, h => h
  | .float _, h => h
  | .str _, h => h
  | .list xs, h => ⟨by rw [length_canonList]; exact h.1, boundedList_canon h.2⟩
  | .dict items, h => by
    have hperm := sortItems_perm (canonItems items)
    refine ⟨?_, ?_⟩
    · rw [hperm.length_eq, length_canonItems]
      exact h.1
    · rw [boundedItems_iff]
      intro item hmem
      exact boundedItems_iff.mp (boundedItems_canon h.2) item (hperm.mem_iff.mp hmem)
  | .other _, h => h

theorem boundedList_canon : ∀ {xs : List Value}, BoundedList limits xs →
    BoundedList limits (canonList xs)
  | [], h => h
  | _ :: _, h => ⟨bounded_canon h.1, boundedList_canon h.2⟩

theorem boundedItems_canon : ∀ {items : Items}, BoundedItems limits items →
    BoundedItems limits (canonItems items)
  | [], h => h
  | (_, _) :: _, h => ⟨h.1, bounded_canon h.2.1, boundedItems_canon h.2.2⟩

end

theorem heightItems_perm {items items' : Items} (h : items.Perm items') :
    heightItems items = heightItems items' := by
  refine Nat.le_antisymm ?_ ?_
  · rw [heightItems_le]
    exact fun item hi => heightItems_le.mp (Nat.le_refl _) item (h.mem_iff.mp hi)
  · rw [heightItems_le]
    exact fun item hi => heightItems_le.mp (Nat.le_refl _) item (h.mem_iff.mpr hi)

mutual

theorem height_canon : ∀ v : Value, height v.canon = height v
  | .none => rfl
  | .bool _ => rfl
  | .int _ => rfl
  | .float _ => rfl
  | .str _ => rfl
  | .list xs => heightList_canon xs
  | .dict items => by
    simp only [Value.canon, height]
    rw [heightItems_perm (sortItems_perm _), heightItems_canon items]
  | .other _ => rfl

theorem heightList_canon : ∀ xs : List Value, heightList (canonList xs) = heightList xs
  | [] => rfl
  | x :: xs => by simp only [canonList, heightList, height_canon x, heightList_canon xs]

theorem heightItems_canon : ∀ items : Items, heightItems (canonItems items) = heightItems items
  | [] => rfl
  | (k, v) :: rest => by simp only [canonItems, heightItems, height_canon v, heightItems_canon rest]

end

end Canon

/-! ## Accepted values are plain -/

theorem length_natText_le {n k : Nat} (hk : 1 ≤ k) (h : n < 10 ^ k) : (natText n).length ≤ k := by
  rw [length_natText]
  unfold natDigits
  split
  · exact hk
  · rw [List.length_reverse]
    exact (Nat.digits_length_le_iff (by omega) n).mpr h

theorem length_natText_int64 {n : Int} (h : -(2 ^ 63) ≤ n ∧ n < 2 ^ 63) :
    (natText n.natAbs).length ≤ maxStrDigits :=
  Nat.le_trans (length_natText_le (show 1 ≤ 19 by omega) (by omega)) (by decide)

mutual

theorem plain_of_bounded {limits : RemoteLimits} : ∀ {v : Value}, Bounded limits v → v.Unique → v.Plain
  | .none, _, _ => trivial
  | .bool _, _, _ => trivial
  | .int _, h, _ => length_natText_int64 h
  | .float _, h, _ => h
  | .str _, h, _ => h.1
  | .list _, h, hu => plainList_of_bounded h.2 hu
  | .dict _, h, hu => ⟨hu.1, plainItems_of_bounded h.2 hu.2⟩
  | .other _, h, _ => h

theorem plainList_of_bounded {limits : RemoteLimits} : ∀ {xs : List Value}, BoundedList limits xs →
    UniqueList xs → PlainList xs
  | [], _, _ => trivial
  | _ :: _, h, hu => ⟨plain_of_bounded h.1 hu.1, plainList_of_bounded h.2 hu.2⟩

theorem plainItems_of_bounded {limits : RemoteLimits} : ∀ {items : Items}, BoundedItems limits items →
    UniqueItems items → PlainItems items
  | [], _, _ => trivial
  | (_, _) :: _, h, hu =>
    ⟨by obtain ⟨s, hs, hb⟩ := h.1; exact ⟨s, hs, hb.1⟩, plain_of_bounded h.2.1 hu.1,
      plainItems_of_bounded h.2.2 hu.2⟩

end

/-! ## The lexical nesting check -/

/-- Outside strings, a character that the check passes over. -/
def Neutral (c : CodePoint) : Prop :=
  c.val ≠ 0x22 ∧ c.val ≠ 0x5B ∧ c.val ≠ 0x7B ∧ c.val ≠ 0x5D ∧ c.val ≠ 0x7D

instance (c : CodePoint) : Decidable (Neutral c) := inferInstanceAs (Decidable (_ ∧ _))

theorem run_neutral {s : Str} (hs : ∀ c ∈ s, Neutral c) (d : Int) (r : Str) :
    Nesting.run ⟨d, false, false⟩ (s ++ r) = Nesting.run ⟨d, false, false⟩ r := by
  induction s with
  | nil => rfl
  | cons c s ih =>
    obtain ⟨h1, h2, h3, h4, h5⟩ := hs c List.mem_cons_self
    rw [List.cons_append, Nesting.run]
    have hstep : Nesting.step ⟨d, false, false⟩ c = some ⟨d, false, false⟩ := by
      simp [Nesting.step, h1, h2, h3, h4, h5]
    rw [hstep]
    exact ih fun e he => hs e (List.mem_cons_of_mem _ he)

theorem run_string_char {c : CodePoint} (h1 : c.val ≠ 0x5C) (h2 : c.val ≠ 0x22) (d : Int) (r : Str) :
    Nesting.run ⟨d, true, false⟩ (c :: r) = Nesting.run ⟨d, true, false⟩ r := by
  simp [Nesting.run, Nesting.step, h1, h2]

theorem run_string_escape (c : CodePoint) (d : Int) (r : Str) :
    Nesting.run ⟨d, true, false⟩ (0x5C :: c :: r) = Nesting.run ⟨d, true, false⟩ r := by
  simp [Nesting.run, Nesting.step]

theorem hexDigit_ne {n : Nat} (h : n < 16) :
    (hexDigit n).val ≠ 0x5C ∧ (hexDigit n).val ≠ 0x22 := by
  rw [hexDigit_val h]
  split <;> omega

theorem run_string_unit (n : Nat) (d : Int) (r : Str) :
    Nesting.run ⟨d, true, false⟩ (escapeUnit n ++ r) = Nesting.run ⟨d, true, false⟩ r := by
  have h := fun k => hexDigit_ne (show k % 16 < 16 by omega)
  simp only [escapeUnit, List.cons_append, List.nil_append]
  rw [run_string_escape, run_string_char (h _).1 (h _).2, run_string_char (h _).1 (h _).2,
    run_string_char (h _).1 (h _).2, run_string_char (h _).1 (h _).2]

theorem run_string_escapeChar (c : CodePoint) (d : Int) (r : Str) :
    Nesting.run ⟨d, true, false⟩ (escapeChar c ++ r) = Nesting.run ⟨d, true, false⟩ r := by
  unfold escapeChar
  dsimp only
  split
  · exact run_string_escape _ _ _
  split
  · exact run_string_escape _ _ _
  split
  · exact run_string_escape _ _ _
  split
  · exact run_string_escape _ _ _
  split
  · exact run_string_escape _ _ _
  split
  · exact run_string_escape _ _ _
  split
  · exact run_string_escape _ _ _
  split
  · rename_i h1 h2 _ _ _ _ _ _
    exact run_string_char h2 h1 _ _
  split
  · exact run_string_unit _ _ _
  · rw [List.append_assoc, run_string_unit, run_string_unit]

theorem run_quote (s : Str) (d : Int) (r : Str) :
    Nesting.run ⟨d, false, false⟩ (quote s ++ r) = Nesting.run ⟨d, false, false⟩ r := by
  have hbody : ∀ s : Str, Nesting.run ⟨d, true, false⟩ (s.flatMap escapeChar ++ 0x22 :: r) =
      Nesting.run ⟨d, false, false⟩ r := by
    intro s
    induction s with
    | nil => simp [Nesting.run, Nesting.step]
    | cons c s ih => rw [List.flatMap_cons, List.append_assoc, run_string_escapeChar, ih]
  simp only [quote, List.cons_append, List.append_assoc, List.nil_append]
  rw [Nesting.run]
  exact hbody s

theorem neutral_digits {ds : List Nat} (h : ∀ d ∈ ds, d < 10) : ∀ c ∈ ds.map digitText, Neutral c := by
  intro c hc
  obtain ⟨d, hd, rfl⟩ := List.mem_map.mp hc
  have := digitText_val (h d hd)
  have := h d hd
  unfold Neutral
  omega

theorem neutral_cons {c : CodePoint} {s : Str} (hc : Neutral c) (hs : ∀ d ∈ s, Neutral d) :
    ∀ d ∈ c :: s, Neutral d := by
  intro d hd
  rcases List.mem_cons.mp hd with rfl | hd
  · exact hc
  · exact hs d hd

theorem neutral_append {s t : Str} (hs : ∀ c ∈ s, Neutral c) (ht : ∀ c ∈ t, Neutral c) :
    ∀ c ∈ s ++ t, Neutral c := by
  intro c hc
  rcases List.mem_append.mp hc with hc | hc
  · exact hs c hc
  · exact ht c hc

theorem neutral_intText (n : Int) : ∀ c ∈ intText n, Neutral c := by
  cases n with
  | ofNat n => exact neutral_digits (natDigits_lt n)
  | negSucc n => exact neutral_cons (by decide) (neutral_digits (natDigits_lt _))

theorem neutral_nil : ∀ c ∈ ([] : Str), Neutral c := by
  intro c hc
  cases hc

theorem neutral_lexeme (l : Float64.Lexeme) : ∀ c ∈ l.text, Neutral c := by
  unfold Float64.Lexeme.text
  refine neutral_append ?_ (neutral_append (neutral_digits (natDigits_lt _)) (neutral_append ?_ ?_))
  · cases l.neg with
    | true => exact neutral_cons (by decide) neutral_nil
    | false => exact neutral_nil
  · unfold Float64.fracText
    split
    · exact neutral_nil
    · exact neutral_cons (by decide) (neutral_digits l.digits)
  · cases l.exp with
    | none => exact neutral_nil
    | some e =>
      refine neutral_cons (by cases e.upper <;> decide) (neutral_append ?_ (neutral_digits e.valid.2))
      rcases e.sign with _ | _ | _
      · exact neutral_nil
      · exact neutral_cons (by decide) neutral_nil
      · exact neutral_cons (by decide) neutral_nil

theorem run_key (k : Key) (d : Int) (r : Str) :
    Nesting.run ⟨d, false, false⟩ (k.text ++ r) = Nesting.run ⟨d, false, false⟩ r := by
  cases k with
  | str s => exact run_quote s d r
  | other _ => rfl

theorem run_comma (d : Int) (r : Str) :
    Nesting.run ⟨d, false, false⟩ (0x2C :: r) = Nesting.run ⟨d, false, false⟩ r := rfl

theorem run_colon (d : Int) (r : Str) :
    Nesting.run ⟨d, false, false⟩ (0x3A :: r) = Nesting.run ⟨d, false, false⟩ r := rfl

theorem run_open {c : CodePoint} (hc : c = 0x5B ∨ c = 0x7B) {d : Nat} (hd : d ≤ maxJsonDepth)
    (r : Str) : Nesting.run ⟨d, false, false⟩ (c :: r) = Nesting.run ⟨(d + 1 : Nat), false, false⟩ r := by
  have hfit : ¬ maxJsonDepth < d := by omega
  rcases hc with rfl | rfl
  · simp [Nesting.run, Nesting.step, hfit]
  · simp [Nesting.run, Nesting.step, hfit]

theorem run_close {c : CodePoint} (hc : c = 0x5D ∨ c = 0x7D) (d : Nat) (r : Str) :
    Nesting.run ⟨(d + 1 : Nat), false, false⟩ (c :: r) = Nesting.run ⟨d, false, false⟩ r := by
  rcases hc with rfl | rfl
  · simp [Nesting.run, Nesting.step]
  · simp [Nesting.run, Nesting.step]

mutual

/-- **Lexical against structural depth.**  The check passes over the text of a value whose height
fits below the current depth. -/
theorem nesting_text : ∀ (v : Value) (d : Nat) (r : Str), d + height v ≤ maxJsonDepth →
    Nesting.run ⟨d, false, false⟩ (v.text ++ r) = Nesting.run ⟨d, false, false⟩ r
  | .none, _, _ => fun _ => rfl
  | .bool true, _, _ => fun _ => rfl
  | .bool false, _, _ => fun _ => rfl
  | .int n, d, r => fun _ => run_neutral (neutral_intText n) d r
  | .float x, d, r => fun _ => run_neutral (neutral_lexeme x.repr) d r
  | .str s, d, r => fun _ => run_quote s d r
  | .list [], d, r => by
    intro hd
    show Nesting.run ⟨d, false, false⟩ (0x5B :: 0x5D :: r) = _
    rw [run_open (.inl rfl) (by omega), run_close (.inl rfl)]
  | .list (x :: xs), d, r => by
    intro hd
    simp only [height, heightList] at hd
    simp only [Value.text, List.cons_append, List.append_assoc]
    rw [run_open (.inl rfl) (by omega), nesting_text x (d + 1) _ (by omega),
      nesting_elements xs d r (by omega)]
  | .dict [], d, r => by
    intro hd
    show Nesting.run ⟨d, false, false⟩ (0x7B :: 0x7D :: r) = _
    rw [run_open (.inr rfl) (by omega), run_close (.inr rfl)]
  | .dict ((k, v) :: items), d, r => by
    intro hd
    simp only [height, heightItems] at hd
    simp only [Value.text, List.cons_append, List.append_assoc]
    rw [run_open (.inr rfl) (by omega), run_key, run_colon, nesting_text v (d + 1) _ (by omega),
      nesting_members items d r (by omega)]
  | .other _, _, _ => fun _ => rfl

theorem nesting_elements : ∀ (xs : List Value) (d : Nat) (r : Str),
    d + heightList xs ≤ maxJsonDepth →
    Nesting.run ⟨(d + 1 : Nat), false, false⟩ (elementsText xs ++ r) = Nesting.run ⟨d, false, false⟩ r
  | [], d, r => fun _ => run_close (.inl rfl) d r
  | x :: xs, d, r => by
    intro hd
    simp only [heightList] at hd
    simp only [elementsText, List.cons_append, List.append_assoc]
    rw [run_comma, nesting_text x (d + 1) _ (by omega), nesting_elements xs d r (by omega)]

theorem nesting_members : ∀ (items : Items) (d : Nat) (r : Str),
    d + heightItems items ≤ maxJsonDepth →
    Nesting.run ⟨(d + 1 : Nat), false, false⟩ (membersText items ++ r) =
      Nesting.run ⟨d, false, false⟩ r
  | [], d, r => fun _ => run_close (.inr rfl) d r
  | (k, v) :: items, d, r => by
    intro hd
    simp only [heightItems] at hd
    simp only [membersText, List.cons_append, List.append_assoc]
    rw [run_comma, run_key, run_colon, nesting_text v (d + 1) _ (by omega),
      nesting_members items d r (by omega)]

end

/-! ## Encoding and decoding a control object -/

theorem jsonDumps_ok {value : Dict} {limits : RemoteLimits} {data : Bytes} :
    jsonDumps value limits = .ok data ↔
      Bounded limits (.dict value.items) ∧ heightItems value.items ≤ maxJsonDepth ∧
        (dumps (.dict value.items)).length ≤ limits.maxControlBytes ∧
        data = encodeAscii (dumps (.dict value.items)) := by
  unfold jsonDumps
  simp only [bind_unit_ok, validateJson_ok, refuse_ok, height, Nat.zero_add, encodeAscii,
    List.length_map, Except.ok.injEq, and_assoc, not_lt, gt_iff_lt]
  constructor
  · rintro ⟨h1, h2, h3, rfl⟩
    exact ⟨h1, h2, h3, rfl⟩
  · rintro ⟨h1, h2, h3, rfl⟩
    exact ⟨h1, h2, h3, rfl⟩

mutual

theorem bounded_congr {l₁ l₂ : RemoteLimits} (hl : l₁.maxMetadataBytes = l₂.maxMetadataBytes) :
    ∀ {v : Value}, Bounded l₁ v → Bounded l₂ v
  | .none, h => h
  | .bool _, h => h
  | .int _, h => h
  | .float _, h => h
  | .str _, h => ⟨h.1, hl ▸ h.2⟩
  | .list _, h => ⟨h.1, boundedList_congr hl h.2⟩
  | .dict _, h => ⟨h.1, boundedItems_congr hl h.2⟩
  | .other _, h => h

theorem boundedList_congr {l₁ l₂ : RemoteLimits} (hl : l₁.maxMetadataBytes = l₂.maxMetadataBytes) :
    ∀ {xs : List Value}, BoundedList l₁ xs → BoundedList l₂ xs
  | [], h => h
  | _ :: _, h => ⟨bounded_congr hl h.1, boundedList_congr hl h.2⟩

theorem boundedItems_congr {l₁ l₂ : RemoteLimits} (hl : l₁.maxMetadataBytes = l₂.maxMetadataBytes) :
    ∀ {items : Items}, BoundedItems l₁ items → BoundedItems l₂ items
  | [], h => h
  | (_, _) :: _, h =>
    ⟨by obtain ⟨s, hs, hb⟩ := h.1; exact ⟨s, hs, hb.1, hl ▸ hb.2⟩, bounded_congr hl h.2.1,
      boundedItems_congr hl h.2.2⟩

end

/-- **What the writer encodes the reader decodes**, with the keys of every dictionary sorted. -/
theorem jsonLoads_jsonDumps {l₁ l₂ : RemoteLimits} (hl : l₁.maxMetadataBytes = l₂.maxMetadataBytes)
    {value : Dict} {data : Bytes} (h : jsonDumps value l₁ = .ok data) :
    jsonLoads data l₂ = .ok value.sorted := by
  obtain ⟨hb, hh, -, rfl⟩ := jsonDumps_ok.mp h
  have hplain := plain_of_bounded hb value.unique
  have hnest : validateJsonNesting (dumps (.dict value.items)) = .ok () := by
    have hrun := nesting_text (Value.dict value.items).canon 0 [] (by
      rw [height_canon]
      simpa [height] using hh)
    unfold validateJsonNesting
    rw [List.append_nil] at hrun
    rw [if_pos]
    unfold dumps
    rw [show ({} : Nesting) = ⟨((0 : Nat) : Int), false, false⟩ from rfl, hrun]
    rfl
  have hvalid : validateJson l₂ (Value.dict value.items).canon 0 = .ok () := by
    rw [validateJson_ok, height_canon]
    refine ⟨bounded_canon (bounded_congr hl hb), ?_⟩
    simpa [height] using hh
  have hloads := loads_dumps hplain
  unfold jsonLoads
  rw [decodeUtf8_ascii (ascii_dumps _)]
  dsimp only
  rw [hnest]
  dsimp only
  split
  · rename_i hn
    rw [hloads] at hn
    cases hn
  · rename_i v hv
    rw [hloads] at hv
    cases hv
    rw [hvalid]
    rfl

end Deadpool.Remote
