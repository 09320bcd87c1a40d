import Deadpool.Remote.Nesting
import Deadpool.Remote.Outcome

/-!
# What the JSON functions raise

`_validate_json` is a sequence of checks.  All of them raise a `RemoteProtocolError`, but to measure a
text it is encoded first, and a lone surrogate makes that a `UnicodeEncodeError`.  `_json_loads`
translates the errors of the decoder only, and calls the validation after that.

Principal results:

* `runChecks_onlyProtocol`  — when a sequence of checks raises nothing but `RemoteProtocolError`;
* `json_errors`             — when `_json_loads`, `_json_dumps` and `validate_control` do.
-/

set_option autoImplicit false

namespace Deadpool.Remote

open Deadpool.Py

/-! ## The checks of the validation -/

inductive Check where
  | depth (n : Nat)
  | text (s : Str)
  | integer (n : Int)
  | number (x : Float64)
  | listSize (n : Nat)
  | objectSize (n : Nat)
  /-- a key that is no string -/
  | key
  /-- a value of another type -/
  | kind (typeName : Str)

def Check.run (limits : RemoteLimits) : Check → Except Raised Unit
  | .depth n => checkDepth n
  | .text s => validateStr limits s
  | .integer n => refuse (¬ (-(2 ^ 63) ≤ n ∧ n < 2 ^ 63)) "control integer exceeds signed 64-bit range"
  | .number x => refuse (¬ x.isFinite) "control number must be finite"
  | .listSize n => refuse (n > 1024) "control list is too large"
  | .objectSize n => refuse (n > 128) "control object has too many keys"
  | .key => Raised.because "control object keys must be strings"
  | .kind typeName => .error (.protocol (lit "unsupported control value " ++ typeName))

/-- What a check asks for. -/
def Check.Holds (limits : RemoteLimits) : Check → Prop
  | .depth n => n ≤ maxJsonDepth
  | .text s => BoundedStr limits s
  | .integer n => -(2 ^ 63) ≤ n ∧ n < 2 ^ 63
  | .number x => x.isFinite = true
  | .listSize n => n ≤ 1024
  | .objectSize n => n ≤ 128
  | .key | .kind _ => False

mutual

/-- The checks that a value gets, in order. -/
def checks : Value → Nat → List Check
  | .none, depth | .bool _, depth => [.depth depth]
  | .str s, depth => [.depth depth, .text s]
  | .int n, depth => [.depth depth, .integer n]
  | .float x, depth => [.depth depth, .number x]
  | .list xs, depth => .depth depth :: .listSize xs.length :: listChecks xs (depth + 1)
  | .dict items, depth => .depth depth :: .objectSize items.length :: itemChecks items (depth + 1)
  | .other typeName, depth => [.depth depth, .kind typeName]

def listChecks : List Value → Nat → List Check
  | [], _ => []
  | x :: xs, depth => checks x depth ++ listChecks xs depth

def itemChecks : Items → Nat → List Check
  | [], _ => []
  | (.other _, _) :: _, _ => [.key]
  | (.str key, v) :: rest, depth => .depth depth :: .text key :: (checks v depth ++ itemChecks rest depth)

end

def runChecks (limits : RemoteLimits) : List Check → Except Raised Unit
  | [] => .ok ()
  | c :: cs => c.run limits >>= fun _ => runChecks limits cs

section Checks

variable {limits : RemoteLimits}

theorem runChecks_append (cs ds : List Check) :
    runChecks limits (cs ++ ds) = runChecks limits cs >>= fun _ => runChecks limits ds := by
  induction cs with
  | nil => rfl
  | cons c cs ih =>
    simp only [List.cons_append, runChecks, ih, bind_assoc]

theorem runChecks_single (c : Check) : runChecks limits [c] = c.run limits := by
  rw [runChecks]
  cases c.run limits <;> rfl

theorem runChecks_pair (c d : Check) :
    runChecks limits [c, d] = c.run limits >>= fun _ => d.run limits := by
  rw [runChecks, runChecks_single]

mutual

/-- **The validation is its checks.** -/
theorem validateJson_checks : ∀ (v : Value) (depth : Nat),
    validateJson limits v depth = runChecks limits (checks v depth)
  | .none, depth => (runChecks_single (.depth depth)).symm
  | .bool _, depth => (runChecks_single (.depth depth)).symm
  | .str s, depth => by rw [checks, runChecks_pair, validateJson, Check.run, Check.run]
  | .int n, depth => by rw [checks, runChecks_pair, validateJson, Check.run, Check.run]
  | .float x, depth => by rw [checks, runChecks_pair, validateJson, Check.run, Check.run]
  | .list xs, depth => by
    simp only [validateJson, checks, runChecks, Check.run, validateList_checks xs]
  | .dict items, depth => by
    simp only [validateJson, checks, runChecks, Check.run, validateItems_checks items]
  | .other typeName, depth => by rw [checks, runChecks_pair, validateJson, Check.run, Check.run]

theorem validateList_checks : ∀ (xs : List Value) (depth : Nat),
    validateList limits xs depth = runChecks limits (listChecks xs depth)
  | [], _ => rfl
  | x :: xs, depth => by
    rw [validateList, listChecks, runChecks_append, validateJson_checks x, validateList_checks xs]

theorem validateItems_checks : ∀ (items : Items) (depth : Nat),
    validateItems limits items depth = runChecks limits (itemChecks items depth)
  | [], _ => rfl
  | (.other _, _) :: _, _ => rfl
  | (.str key, v) :: rest, depth => by
    simp only [validateItems, itemChecks, runChecks, Check.run, runChecks_append,
      validateJson_checks v, validateItems_checks rest]

end

/-! ## The first check that fails -/

theorem Check.run_ok {c : Check} : c.run limits = .ok () ↔ c.Holds limits := by
  cases c with
  | depth n => exact checkDepth_ok
  | text s => exact validateStr_ok
  | integer n => exact refuse_ok.trans not_not
  | number x => exact refuse_ok.trans not_not
  | listSize n => exact refuse_ok.trans Nat.not_lt
  | objectSize n => exact refuse_ok.trans Nat.not_lt
  | key => exact ⟨fun h => (by cases h), False.elim⟩
  | kind typeName => exact ⟨fun h => (by cases h), False.elim⟩

/-- A check raises a `RemoteProtocolError`, unless it is about a text that cannot be encoded. -/
theorem Check.onlyProtocol {c : Check} (h : ∀ s, c = .text s → Py.Encodable s) :
    OnlyProtocol (c.run limits) := by
  cases c with
  | depth n => exact onlyProtocol_depth n
  | text s => exact onlyProtocol_str (h s rfl)
  | integer n => exact onlyProtocol_refuse _ _
  | number x => exact onlyProtocol_refuse _ _
  | listSize n => exact onlyProtocol_refuse _ _
  | objectSize n => exact onlyProtocol_refuse _ _
  | key =>
    intro e he
    cases he
    exact ⟨_, rfl⟩
  | kind typeName =>
    intro e he
    cases he
    exact ⟨_, rfl⟩

/-- Before every text with a lone surrogate, another check fails. -/
def Shielded (limits : RemoteLimits) (cs : List Check) : Prop :=
  ∀ before s after, cs = before ++ .text s :: after → Py.Encodable s ∨ ∃ c ∈ before, ¬ c.Holds limits

theorem shielded_cons {c : Check} {cs : List Check} :
    Shielded limits (c :: cs) ↔
      (∀ s, c = .text s → Py.Encodable s) ∧ (c.Holds limits → Shielded limits cs) := by
  constructor
  · intro h
    refine ⟨fun s hc => ?_, fun hholds before s after hcs => ?_⟩
    · rcases h [] s cs (by rw [hc]; rfl) with hs | ⟨d, hd, -⟩
      · exact hs
      · cases hd
    · rcases h (c :: before) s after (by rw [hcs]; rfl) with hs | ⟨d, hd, hfails⟩
      · exact .inl hs
      · rcases List.mem_cons.mp hd with rfl | hd
        · exact absurd hholds hfails
        · exact .inr ⟨d, hd, hfails⟩
  · rintro ⟨hfirst, hrest⟩ before s after hcs
    cases before with
    | nil => exact .inl (hfirst s (List.cons.inj hcs).1)
    | cons d before =>
      obtain ⟨rfl, htail⟩ := List.cons.inj hcs
      by_cases hholds : c.Holds limits
      · refine (hrest hholds before s after htail).imp_right ?_
        rintro ⟨e, he, hfails⟩
        exact ⟨e, List.mem_cons_of_mem _ he, hfails⟩
      · exact .inr ⟨c, List.mem_cons_self, hholds⟩

/-- **The exact condition** for a sequence of checks. -/
theorem runChecks_onlyProtocol {cs : List Check} :
    OnlyProtocol (runChecks limits cs) ↔ Shielded limits cs := by
  induction cs with
  | nil =>
    refine ⟨fun _ before s after h => ?_, fun _ => onlyProtocol_ok ()⟩
    cases before <;> cases h
  | cons c cs ih =>
    rw [shielded_cons, ← ih, runChecks]
    constructor
    · intro h
      refine ⟨fun s hc => ?_, fun hholds => ?_⟩
      · by_contra hs
        have hraises : c.run limits = .error .unicodeEncode := by
          rw [hc]
          show validateStr limits s = .error .unicodeEncode
          unfold validateStr encodeUtf8
          rw [if_neg hs]
        obtain ⟨message, hmessage⟩ := h .unicodeEncode (by rw [hraises]; rfl)
        cases hmessage
      · rw [Check.run_ok.mpr hholds] at h
        exact h
    · rintro ⟨hfirst, hrest⟩
      have honly := @Check.onlyProtocol limits c hfirst
      cases hrun : c.run limits with
      | error e =>
        intro e' he'
        cases he'
        exact honly e hrun
      | ok u => exact hrest (Check.run_ok.mp hrun)

theorem validateJson_onlyProtocol {v : Value} {depth : Nat} :
    OnlyProtocol (validateJson limits v depth) ↔ Shielded limits (checks v depth) := by
  rw [validateJson_checks]
  exact runChecks_onlyProtocol

end Checks

/-! ## The three functions -/

section Functions

variable {limits : RemoteLimits}

theorem jsonDumps_onlyProtocol {control : Dict} :
    OnlyProtocol (jsonDumps control limits) ↔ Shielded limits (checks (.dict control.items) 0) := by
  rw [← validateJson_onlyProtocol]
  unfold jsonDumps
  constructor
  · intro h e he
    refine h e ?_
    rw [he]
    rfl
  · exact fun h => onlyProtocol_bind h fun _ => onlyProtocol_bind (onlyProtocol_refuse _ _) fun _ =>
      onlyProtocol_ok _

theorem validateControl_onlyProtocol {control : Dict} :
    OnlyProtocol (validateControl control limits) ↔ Shielded limits (checks (.dict control.items) 0) := by
  rw [← jsonDumps_onlyProtocol]
  unfold validateControl
  constructor
  · intro h e he
    refine h e ?_
    rw [he]
    rfl
  · exact fun h => onlyProtocol_bind h fun _ => onlyProtocol_ok _

/-- The value that the decoder hands to the validation. -/
def Decodes (data : Bytes) (v : Value) : Prop :=
  ∃ text, decodeUtf8 data = some text ∧ validateJsonNesting text = .ok () ∧ loads text = some v

theorem jsonLoads_decoded (limits : RemoteLimits) {data : Bytes} {v : Value} (h : Decodes data v) :
    ∃ hv : v.Unique, jsonLoads data limits =
      match validateJson limits v 0 with
      | .error e => .error e
      | .ok () => asDict ⟨v, hv⟩ := by
  obtain ⟨text, hdecode, hnesting, hloads⟩ := h
  refine ⟨loads_unique hloads, ?_⟩
  unfold jsonLoads
  simp only [hdecode, hnesting]
  split
  · rename_i hnone
    rw [hloads] at hnone
    cases hnone
  · rename_i v' hsome
    rw [hloads] at hsome
    cases hsome
    rfl

/-- Where nothing gets as far as the validation, the error is a `RemoteProtocolError`. -/
theorem jsonLoads_undecoded (limits : RemoteLimits) {data : Bytes} (h : ∀ v, ¬ Decodes data v) :
    ∃ message, jsonLoads data limits = .error (.protocol message) := by
  unfold jsonLoads
  split
  · exact ⟨_, rfl⟩
  · rename_i text hdecode
    split
    · rename_i e hnesting
      unfold validateJsonNesting Raised.because at hnesting
      split at hnesting
      · cases hnesting
      · cases hnesting
        exact ⟨_, rfl⟩
    · rename_i hnesting
      split
      · exact ⟨_, rfl⟩
      · rename_i v hloads
        exact absurd ⟨text, hdecode, hnesting, hloads⟩ (h v)

theorem asDict_cases (x : Obj) : (∃ items h, x = ⟨.dict items, h⟩ ∧ asDict x = .ok ⟨items, h⟩) ∨
    ∃ message, asDict x = .error (.protocol message) := by
  obtain ⟨v, hv⟩ := x
  cases v with
  | dict items => exact .inl ⟨items, hv, rfl, rfl⟩
  | _ => exact .inr ⟨_, rfl⟩

/-- What a returned dict keeps: the bounds of the validation, and distinct keys in every object, where
the text has as many members as the dict. -/
structure Loaded (limits : RemoteLimits) (data : Bytes) (d : Dict) : Prop where
  bounded : Bounded limits (.dict d.items)
  height_le : height (.dict d.items) ≤ maxJsonDepth
  text : ∃ text l, decodeUtf8 data = some text ∧ Marked.text l = text ∧ JsonText l (.dict d.items)
  unique : (Value.dict d.items).Unique

theorem jsonLoads_loaded {data : Bytes} {d : Dict} (h : jsonLoads data limits = .ok d) :
    Loaded limits data d := by
  by_cases hdecodes : ∃ v, Decodes data v
  · obtain ⟨v, hv⟩ := hdecodes
    obtain ⟨hunique, heq⟩ := jsonLoads_decoded limits hv
    rw [heq] at h
    cases hvalid : validateJson limits v 0 with
    | error e =>
      rw [hvalid] at h
      cases h
    | ok u =>
      rw [hvalid] at h
      obtain ⟨hbounded, hheight⟩ := (validateJson_ok v 0).mp hvalid
      obtain ⟨text, hdecode, -, hloads⟩ := hv
      obtain ⟨l, htext, hjson⟩ := loads_grammar hloads
      rcases asDict_cases ⟨v, hunique⟩ with ⟨items, hitems, hx, hdict⟩ | ⟨message, herror⟩
      · obtain rfl : v = .dict items := congrArg Obj.val hx
        have hd : d = ⟨items, hitems⟩ := (Except.ok.inj (hdict.symm.trans h)).symm
        subst hd
        exact ⟨hbounded, by simpa using hheight, ⟨text, l, hdecode, htext, hjson⟩, hunique⟩
      · exact absurd (herror.symm.trans h) (by simp)
  · obtain ⟨message, herror⟩ := jsonLoads_undecoded limits fun v hv => hdecodes ⟨v, hv⟩
    rw [herror] at h
    cases h

theorem jsonLoads_onlyProtocol {data : Bytes} :
    OnlyProtocol (jsonLoads data limits) ↔ ∀ v, Decodes data v → Shielded limits (checks v 0) := by
  constructor
  · intro h v hv
    obtain ⟨hunique, heq⟩ := jsonLoads_decoded limits hv
    rw [← validateJson_onlyProtocol]
    intro e he
    refine h e ?_
    rw [heq, he]
  · intro h
    by_cases hdecodes : ∃ v, Decodes data v
    · obtain ⟨v, hv⟩ := hdecodes
      obtain ⟨hunique, heq⟩ := jsonLoads_decoded limits hv
      have honly := validateJson_onlyProtocol.mpr (h v hv)
      intro e he
      rw [heq] at he
      cases hvalid : validateJson limits v 0 with
      | error e' =>
        rw [hvalid] at he
        cases he
        exact honly e hvalid
      | ok u =>
        rw [hvalid] at he
        rcases asDict_cases ⟨v, hunique⟩ with ⟨items, hitems, -, hdict⟩ | ⟨message, herror⟩
        · exact absurd (hdict.symm.trans he) (by simp)
        · exact ⟨message, (Except.error.inj (herror.symm.trans he)).symm⟩
    · obtain ⟨message, herror⟩ := jsonLoads_undecoded limits fun v hv => hdecodes ⟨v, hv⟩
      intro e he
      exact ⟨message, (Except.error.inj (herror.symm.trans he)).symm⟩

end Functions

/-- **When the JSON functions raise nothing but `RemoteProtocolError`.**  They do exactly where the
validation meets no text with a lone surrogate before a check that fails; what `_json_loads` returns
there is a dict within every bound. -/
theorem json_errors (limits : RemoteLimits) (data : Bytes) (control : Dict) :
    (((∃ d, jsonLoads data limits = .ok d ∧ Loaded limits data d) ∨
        ∃ message, jsonLoads data limits = .error (.protocol message)) ↔
      ∀ v, Decodes data v → Shielded limits (checks v 0)) ∧
    (OnlyProtocol (jsonDumps control limits) ↔ Shielded limits (checks (.dict control.items) 0)) ∧
    (OnlyProtocol (validateControl control limits) ↔ Shielded limits (checks (.dict control.items) 0)) := by
  refine ⟨?_, jsonDumps_onlyProtocol, validateControl_onlyProtocol⟩
  rw [← jsonLoads_onlyProtocol]
  constructor
  · rintro (⟨d, hd, -⟩ | ⟨message, hmessage⟩) e he
    · exact absurd (hd.symm.trans he) (by simp)
    · exact ⟨message, (Except.error.inj (hmessage.symm.trans he)).symm⟩
  · intro honly
    cases hrun : jsonLoads data limits with
    | error e =>
      obtain ⟨message, rfl⟩ := honly e hrun
      exact .inr ⟨message, rfl⟩
    | ok d => exact .inl ⟨d, rfl, jsonLoads_loaded hrun⟩

/-- The octets of `{"a":"\ud800"}`. -/
def loneSurrogate : Bytes :=
  [0x7B, 0x22, 0x61, 0x22, 0x3A, 0x22, 0x5C, 0x75, 0x64, 0x38, 0x30, 0x30, 0x22, 0x7D]

/-- `{"a": "\ud800"}` -/
def surrogateControl : Dict := ⟨[(.str (lit "a"), .str [0xD800])], by simp [Value.Unique, UniqueItems]⟩

theorem error_of_map {ε α : Type} {x : Except ε α} {e : ε} (h : x.map (fun _ => ()) = .error e) :
    x = .error e := by
  cases x with
  | error e' => exact congrArg Except.error (Except.error.inj h)
  | ok a => cases h

/-- An escaped lone surrogate decodes, and measuring it is no `RemoteProtocolError`; nor is it in a
control object to be sent. -/
theorem json_raises_unicodeEncode :
    jsonLoads loneSurrogate {} = .error .unicodeEncode ∧
    jsonDumps surrogateControl {} = .error .unicodeEncode ∧
    validateControl surrogateControl {} = .error .unicodeEncode := by
  refine ⟨error_of_map ?_, error_of_map ?_, ?_⟩ <;> decide +kernel

end Deadpool.Remote
