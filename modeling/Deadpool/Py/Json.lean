import Deadpool.Py.Float
import Mathlib.Data.List.Sort

/-!
# `json.dumps` and `json.loads`

`Value` is a Python object as far as the wire protocol looks at it: the JSON types, and `other` for
everything else.  Dictionaries are lists of items; `Unique` says that no dictionary in a value has
two equal keys.  Python guarantees it, and `Obj` and `Dict` carry it.

* `Value.text`  : `json.dumps` with `ensure_ascii=True` and compact separators;
* `Value.canon` : every dictionary sorted by key; `dumps` is `text` after `canon` (`sort_keys=True`);
* `loads`       : the decoder of the standard library, with `_unique_object` as pairs hook and a
  `parse_constant` hook that raises.

The decoder is fuelled; the length of the text is enough fuel.
-/

set_option autoImplicit false

namespace Deadpool.Py

/-- A dictionary key; only strings survive validation. -/
inductive Key where
  | str (s : Str)
  | other (typeName : Str)
  deriving DecidableEq

inductive Value where
  | none
  | bool (b : Bool)
  | int (n : Int)
  | float (x : Float64)
  | str (s : Str)
  | list (xs : List Value)
  | dict (items : List (Key × Value))
  /-- an object of any other type -/
  | other (typeName : Str)

abbrev Items := List (Key × Value)

/-- `d.get(key)`, with `none` for a missing key. -/
def Items.get? (items : Items) (key : Str) : Option Value :=
  (items.find? fun item => item.1 = .str key).map Prod.snd

/-- `d.get(key)` -/
def Items.get (items : Items) (key : Str) : Value := (items.get? key).getD .none

mutual

/-- No dictionary in the value has two equal keys. -/
def Value.Unique : Value → Prop
  | .list xs => UniqueList xs
  | .dict items => (items.map Prod.fst).Nodup ∧ UniqueItems items
  | _ => True

def UniqueList : List Value → Prop
  | [] => True
  | x :: xs => x.Unique ∧ UniqueList xs

def UniqueItems : Items → Prop
  | [] => True
  | (_, v) :: rest => v.Unique ∧ UniqueItems rest

end

structure Obj where
  val : Value
  unique : val.Unique

structure Dict where
  items : Items
  unique : (Value.dict items).Unique

def Dict.empty : Dict := ⟨[], by simp [Value.Unique, UniqueItems]⟩

def Dict.obj (d : Dict) : Obj := ⟨.dict d.items, d.unique⟩

def Obj.none : Obj := ⟨.none, trivial⟩
def Obj.bool (b : Bool) : Obj := ⟨.bool b, trivial⟩
def Obj.int (n : Int) : Obj := ⟨.int n, trivial⟩
def Obj.float (x : Float64) : Obj := ⟨.float x, trivial⟩
def Obj.str (s : Str) : Obj := ⟨.str s, trivial⟩

/-- `items[key] = v` -/
def Items.set : Items → Str → Value → Items
  | [], key, v => [(.str key, v)]
  | (k, w) :: rest, key, v => if k = .str key then (k, v) :: rest else (k, w) :: Items.set rest key v

theorem keys_set (items : Items) (key : Str) (v : Value) :
    (items.set key v).map Prod.fst =
      if Key.str key ∈ items.map Prod.fst then items.map Prod.fst
      else items.map Prod.fst ++ [.str key] := by
  induction items with
  | nil => rfl
  | cons item rest ih =>
    obtain ⟨k, w⟩ := item
    unfold Items.set
    split
    · rename_i h
      simp [h]
    · rename_i h
      simp only [List.map_cons, ih, List.mem_cons, Ne.symm h, false_or]
      split <;> rfl

theorem uniqueItems_set {items : Items} (h : UniqueItems items) (key : Str) {v : Value}
    (hv : v.Unique) : UniqueItems (items.set key v) := by
  induction items with
  | nil => exact ⟨hv, trivial⟩
  | cons item rest ih =>
    obtain ⟨k, w⟩ := item
    unfold Items.set
    split
    · exact ⟨hv, h.2⟩
    · exact ⟨h.1, ih h.2⟩

def Dict.set (d : Dict) (key : Str) (v : Obj) : Dict where
  items := Items.set d.items key v.val
  unique := by
    obtain ⟨hnodup, hitems⟩ := d.unique
    refine ⟨?_, uniqueItems_set hitems key v.unique⟩
    rw [keys_set]
    split
    · exact hnodup
    · rename_i h
      exact List.nodup_append.mpr ⟨hnodup, List.nodup_singleton _, fun a ha b hb hab =>
        h (List.mem_singleton.mp hb ▸ hab ▸ ha)⟩

theorem uniqueItems_mem {items : Items} (h : UniqueItems items) {item : Key × Value}
    (hmem : item ∈ items) : item.2.Unique := by
  induction items with
  | nil => cases hmem
  | cons head rest ih =>
    obtain ⟨k, w⟩ := head
    rcases List.mem_cons.mp hmem with rfl | hmem
    · exact h.1
    · exact ih h.2 hmem

theorem Dict.unique_get? (d : Dict) {key : Str} {v : Value} (h : d.items.get? key = some v) :
    v.Unique := by
  unfold Items.get? at h
  rw [Option.map_eq_some_iff] at h
  obtain ⟨item, hfind, rfl⟩ := h
  exact uniqueItems_mem d.unique.2 (List.mem_of_find?_eq_some hfind)

/-- `d.get(key)` -/
def Dict.get (d : Dict) (key : Str) : Obj where
  val := d.items.get key
  unique := by
    unfold Items.get
    cases h : d.items.get? key with
    | none => trivial
    | some v => exact d.unique_get? h

theorem items_get?_set {items : Items} {key key' : Str} {v : Value} :
    (items.set key v).get? key' = if key = key' then some v else items.get? key' := by
  induction items with
  | nil =>
    by_cases h : key = key'
    · simp [Items.set, Items.get?, h]
    · have hne : Key.str key ≠ .str key' := fun he => h (Key.str.inj he)
      simp [Items.set, Items.get?, h, hne]
  | cons item rest ih =>
    obtain ⟨k, w⟩ := item
    unfold Items.set
    split
    · rename_i hk
      subst hk
      by_cases h : key = key'
      · simp [Items.get?, h]
      · have hne : Key.str key ≠ .str key' := fun he => h (Key.str.inj he)
        simp [Items.get?, h, hne]
    · rename_i hk
      unfold Items.get? at ih ⊢
      by_cases hk' : k = .str key'
      · have hne : key ≠ key' := fun he => hk (he ▸ hk')
        simp [hk', hne]
      · simpa [hk'] using ih

theorem Dict.get_set_ne {d : Dict} {key key' : Str} {v : Obj} (h : key ≠ key') :
    (d.set key v).items.get key' = d.items.get key' := by
  unfold Items.get
  rw [show (d.set key v).items = Items.set d.items key v.val from rfl, items_get?_set, if_neg h]

theorem Dict.get_set_self {d : Dict} {key : Str} {v : Obj} :
    (d.set key v).items.get key = v.val := by
  unfold Items.get
  rw [show (d.set key v).items = Items.set d.items key v.val from rfl, items_get?_set, if_pos rfl]
  rfl

/-! ## Key order -/

/-- Strings are ordered by their code points. -/
def strLe : Str → Str → Bool
  | [], _ => true
  | _ :: _, [] => false
  | a :: s, b :: t => a.val < b.val || (a.val = b.val && strLe s t)

def keyLe : Key → Key → Bool
  | .str s, .str t => strLe s t
  | .str _, .other _ => true
  | .other _, .str _ => false
  | .other s, .other t => strLe s t

def sortItems (items : Items) : Items := items.insertionSort fun a b => keyLe a.1 b.1

mutual

/-- The value with every dictionary sorted by key. -/
def Value.canon : Value → Value
  | .list xs => .list (canonList xs)
  | .dict items => .dict (sortItems (canonItems items))
  | v => v

def canonList : List Value → List Value
  | [] => []
  | x :: xs => x.canon :: canonList xs

def canonItems : Items → Items
  | [] => []
  | (k, v) :: rest => (k, v.canon) :: canonItems rest

end

/-! ## Encoding -/

/-- One character of a string under `ensure_ascii`. -/
def escapeChar (c : CodePoint) : Str :=
  let n := c.val
  if n = 0x22 then [0x5C, 0x22]
  else if n = 0x5C then [0x5C, 0x5C]
  else if n = 0x08 then [0x5C, 0x62]
  else if n = 0x0C then [0x5C, 0x66]
  else if n = 0x0A then [0x5C, 0x6E]
  else if n = 0x0D then [0x5C, 0x72]
  else if n = 0x09 then [0x5C, 0x74]
  else if 0x20 ≤ n ∧ n ≤ 0x7E then [c]
  else if n < 0x10000 then escapeUnit n
  else escapeUnit (0xD800 + (n - 0x10000) / 1024) ++ escapeUnit (0xDC00 + (n - 0x10000) % 1024)

def quote (s : Str) : Str := 0x22 :: (s.flatMap escapeChar ++ [0x22])

def Key.text : Key → Str
  | .str s => quote s
  | .other _ => []

mutual

def Value.text : Value → Str
  | .none => lit "null"
  | .bool true => lit "true"
  | .bool false => lit "false"
  | .int n => intText n
  | .float x => x.repr.text
  | .str s => quote s
  | .list [] => lit "[]"
  | .list (x :: xs) => 0x5B :: (x.text ++ elementsText xs)
  | .dict [] => lit "{}"
  | .dict ((k, v) :: items) => 0x7B :: (k.text ++ 0x3A :: (v.text ++ membersText items))
  -- `json.dumps` raises `TypeError` here; validation comes first
  | .other _ => []

/-- The elements after the first, and the closing bracket. -/
def elementsText : List Value → Str
  | [] => [0x5D]
  | x :: xs => 0x2C :: (x.text ++ elementsText xs)

/-- The members after the first, and the closing brace. -/
def membersText : Items → Str
  | [] => [0x7D]
  | (k, v) :: items => 0x2C :: (k.text ++ 0x3A :: (v.text ++ membersText items))

end

/-- `json.dumps(value, ensure_ascii=True, separators=(",", ":"), sort_keys=True)` -/
def dumps (v : Value) : Str := v.canon.text

/-! ## Decoding -/

def isJsonSpace (c : CodePoint) : Bool :=
  c.val = 0x20 || c.val = 0x09 || c.val = 0x0A || c.val = 0x0D

def skipSpace (s : Str) : Str := s.dropWhile isJsonSpace

def hexValue (c : CodePoint) : Option Nat :=
  let n := c.val
  if 0x30 ≤ n ∧ n ≤ 0x39 then some (n - 0x30)
  else if 0x61 ≤ n ∧ n ≤ 0x66 then some (n - 0x57)
  else if 0x41 ≤ n ∧ n ≤ 0x46 then some (n - 0x37)
  else none

/-- The four hexadecimal digits of `\uXXXX`. -/
def scanUnit : Str → Option (Nat × Str)
  | a :: b :: c :: d :: rest => do
    let a ← hexValue a
    let b ← hexValue b
    let c ← hexValue c
    let d ← hexValue d
    some (a * 4096 + b * 256 + c * 16 + d, rest)
  | _ => none

/-- A low surrogate escape right after a high one. -/
def scanLow : Str → Option (Nat × Str)
  | b :: u :: rest =>
    if b.val = 0x5C ∧ u.val = 0x75 then
      match scanUnit rest with
      | some (n, r) => if 0xDC00 ≤ n ∧ n ≤ 0xDFFF then some (n, r) else none
      | none => none
    else none
  | _ => none

/-- An escape after its backslash. -/
def scanEscape : Str → Option (CodePoint × Str)
  | [] => none
  | c :: rest =>
    let n := c.val
    if n = 0x22 ∨ n = 0x5C ∨ n = 0x2F then some (c, rest)
    else if n = 0x62 then some (0x08, rest)
    else if n = 0x66 then some (0x0C, rest)
    else if n = 0x6E then some (0x0A, rest)
    else if n = 0x72 then some (0x0D, rest)
    else if n = 0x74 then some (0x09, rest)
    else if n = 0x75 then
      match scanUnit rest with
      | none => none
      | some (u, rest') =>
        if 0xD800 ≤ u ∧ u ≤ 0xDBFF then
          match scanLow rest' with
          | some (l, rest'') => some (cp (0x10000 + (u - 0xD800) * 1024 + (l - 0xDC00)), rest'')
          | none => some (cp u, rest')
        else some (cp u, rest')
    else none

/-- A string after its opening quote; control characters are refused (`strict=True`). -/
def scanString : Nat → Str → Option (Str × Str)
  | 0, _ => none
  | _ + 1, [] => none
  | fuel + 1, c :: rest =>
    if c.val = 0x22 then some ([], rest)
    else if c.val = 0x5C then
      match scanEscape rest with
      | none => none
      | some (d, rest') => (scanString fuel rest').map fun (s, r) => (d :: s, r)
    else if c.val < 0x20 then none
    else (scanString fuel rest).map fun (s, r) => (c :: s, r)

def digitValue (c : CodePoint) : Option Nat :=
  if 0x30 ≤ c.val ∧ c.val ≤ 0x39 then some (c.val - 0x30) else none

/-- The longest run of decimal digits. -/
def takeDigits : Str → List Nat × Str
  | [] => ([], [])
  | c :: rest =>
    match digitValue c with
    | some d => let (ds, r) := takeDigits rest; (d :: ds, r)
    | none => ([], c :: rest)

/-- The integer part: a zero, or digits that do not start with one. -/
def scanNat : Str → Option (List Nat × Str)
  | [] => none
  | c :: rest =>
    match digitValue c with
    | none => none
    | some 0 => some ([0], rest)
    | some d => let (ds, r) := takeDigits rest; some (d :: ds, r)

/-- The fraction digits, if a point and a digit come next. -/
def scanFrac : Str → List Nat × Str
  | [] => ([], [])
  | c :: rest =>
    if c.val = 0x2E then
      match takeDigits rest with
      | ([], _) => ([], c :: rest)
      | (ds, r) => (ds, r)
    else ([], c :: rest)

theorem takeDigits_lt : ∀ s : Str, ∀ d ∈ (takeDigits s).1, d < 10 := by
  intro s
  induction s with
  | nil => intro d hd; cases hd
  | cons c rest ih =>
    intro d hd
    unfold takeDigits at hd
    split at hd
    · rename_i e he
      rcases List.mem_cons.mp hd with rfl | hd
      · unfold digitValue at he
        split at he
        · cases he; omega
        · cases he
      · exact ih d hd
    · cases hd

theorem scanFrac_lt (s : Str) : ∀ d ∈ (scanFrac s).1, d < 10 := by
  intro d hd
  unfold scanFrac at hd
  split at hd
  · cases hd
  · rename_i c rest
    split at hd
    · have := takeDigits_lt rest
      split at hd
      · cases hd
      · rename_i h
        rw [h] at this
        exact this d hd
    · cases hd

/-- A sign, if one comes next. -/
def scanSign : Str → Option Bool × Str
  | [] => (none, [])
  | c :: rest =>
    if c.val = 0x2D then (some true, rest)
    else if c.val = 0x2B then (some false, rest)
    else (none, c :: rest)

/-- The exponent, if `e`, an optional sign and a digit come next. -/
def scanExp : Str → Option Float64.ExpPart × Str
  | [] => (none, [])
  | c :: rest =>
    if c.val = 0x65 ∨ c.val = 0x45 then
      if h : (takeDigits (scanSign rest).2).1 = [] then (none, c :: rest)
      else (some ⟨c.val = 0x45, (scanSign rest).1, _, h, takeDigits_lt _⟩,
        (takeDigits (scanSign rest).2).2)
    else (none, c :: rest)

/-- A number after its optional minus sign. -/
def scanUnsigned (neg : Bool) (s : Str) : Option (Value × Str) :=
  match scanNat s with
  | none => none
  | some (ds, s) =>
    if h : (scanFrac s).1 ≠ [] ∨ (scanExp (scanFrac s).2).1.isSome then
      some (.float (Float64.parse ⟨neg, ofDigits ds, (scanFrac s).1, (scanExp (scanFrac s).2).1,
        scanFrac_lt s, h⟩), (scanExp (scanFrac s).2).2)
    -- `int(text)` refuses more than 4300 digits
    else if ds.length ≤ maxStrDigits then
      some (.int (if neg then -(ofDigits ds : Int) else ofDigits ds), s)
    else none

def scanNumber : Str → Option (Value × Str)
  | [] => none
  | c :: rest => if c.val = 0x2D then scanUnsigned true rest else scanUnsigned false (c :: rest)

/-- `_unique_object` -/
def uniqueObject (items : List (Str × Value)) : Option Items :=
  if (items.map Prod.fst).Nodup then some (items.map fun (k, v) => (.str k, v)) else none

/-- `text` without the literal it starts with. -/
def scanLiteral (literal : Str) (v : Value) (text : Str) : Option (Value × Str) :=
  if literal.isPrefixOf text then some (v, text.drop literal.length) else none

mutual

/-- `scan_once`.  `NaN` and the infinities go to the raising `parse_constant` hook. -/
def scanValue : Nat → Str → Option (Value × Str)
  | 0, _ => none
  | _ + 1, [] => none
  | fuel + 1, c :: rest =>
    if c.val = 0x22 then (scanString (rest.length + 1) rest).map fun (s, r) => (.str s, r)
    else if c.val = 0x7B then
      match skipSpace rest with
      | [] => none
      | d :: r =>
        if d.val = 0x7D then some (.dict [], r)
        else
          match scanMembers fuel (d :: r) with
          | none => none
          | some (items, r) => (uniqueObject items).map fun d => (.dict d, r)
    else if c.val = 0x5B then
      match skipSpace rest with
      | [] => none
      | d :: r =>
        if d.val = 0x5D then some (.list [], r)
        else (scanElements fuel (d :: r)).map fun (xs, r) => (.list xs, r)
    else if c.val = 0x6E then scanLiteral (lit "null") .none (c :: rest)
    else if c.val = 0x74 then scanLiteral (lit "true") (.bool true) (c :: rest)
    else if c.val = 0x66 then scanLiteral (lit "false") (.bool false) (c :: rest)
    else scanNumber (c :: rest)

/-- Array elements up to the closing bracket. -/
def scanElements : Nat → Str → Option (List Value × Str)
  | 0, _ => none
  | fuel + 1, s =>
    match scanValue fuel s with
    | none => none
    | some (v, r) =>
      match skipSpace r with
      | [] => none
      | c :: r =>
        if c.val = 0x5D then some ([v], r)
        else if c.val = 0x2C then
          (scanElements fuel (skipSpace r)).map fun (vs, r) => (v :: vs, r)
        else none

/-- Object members up to the closing brace. -/
def scanMembers : Nat → Str → Option (List (Str × Value) × Str)
  | 0, _ => none
  | _ + 1, [] => none
  | fuel + 1, q :: s =>
    if q.val = 0x22 then
      match scanString (s.length + 1) s with
      | none => none
      | some (k, r) =>
        match skipSpace r with
        | [] => none
        | c :: r =>
          if c.val = 0x3A then
            match scanValue fuel (skipSpace r) with
            | none => none
            | some (v, r) =>
              match skipSpace r with
              | [] => none
              | c :: r =>
                if c.val = 0x7D then some ([(k, v)], r)
                else if c.val = 0x2C then
                  (scanMembers fuel (skipSpace r)).map fun (items, r) => ((k, v) :: items, r)
                else none
          else none
    else none

end

/-- `json.loads(text)`; `none` is a `ValueError`. -/
def loads (text : Str) : Option Value :=
  if text.head? = some 0xFEFF then none
  else
    match scanValue (text.length + 1) (skipSpace text) with
    | none => none
    | some (v, rest) => if skipSpace rest = [] then some v else none

end Deadpool.Py
