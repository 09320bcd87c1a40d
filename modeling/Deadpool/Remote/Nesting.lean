import Deadpool.Py.JsonGrammar
import Deadpool.Remote.Control

/-!
# The nesting check against the grammar

`_validate_json_nesting` counts brackets outside of strings, on any text.  On what can be the start of
a JSON text its count is the number of containers that are open; so it refuses no text of a value that
`_validate_json` accepts, and the decoder never recurses deeper than the count allows.

Principal results:

* `tracks_derives`   — the count follows the grammar;
* `nesting_agrees`   — what the check accepts and what it refuses.
-/

set_option autoImplicit false

namespace Deadpool.Remote

open Deadpool.Py

/-! ## Open containers -/

def markDelta : Mark → Int
  | .opens => 1
  | .closes => -1
  | .plain => 0

/-- Containers that a piece of JSON text opens and does not close. -/
def opened (l : Marked) : Int := (l.map fun x => markDelta x.2).sum

@[simp] theorem opened_nil : opened [] = 0 := rfl

@[simp] theorem opened_cons (x : CodePoint × Mark) (l : Marked) :
    opened (x :: l) = markDelta x.2 + opened l := by
  simp only [opened, List.map_cons, List.sum_cons]

@[simp] theorem opened_append (l m : Marked) : opened (l ++ m) = opened l + opened m := by
  simp only [opened, List.map_append, List.sum_append]

@[simp] theorem opened_unmarked (s : Str) : opened (unmarked s) = 0 := by
  induction s with
  | nil => rfl
  | cons c s ih =>
    have hcons : unmarked (c :: s) = (c, .plain) :: unmarked s := rfl
    rw [hcons, opened_cons, ih]
    rfl

/-! ## The count on a piece of text -/

theorem nesting_run_append (n : Nesting) (s t : Str) :
    n.run (s ++ t) = (n.run s).bind fun n' => n'.run t := by
  induction s generalizing n with
  | nil => rfl
  | cons c s ih =>
    simp only [List.cons_append, Nesting.run, Option.bind_assoc]
    congr 1
    funext n'
    exact ih n'

/-- The count, outside of strings. -/
def counting (d : Int) : Nesting := ⟨d, false, false⟩

/-- On a piece of marked text, the count follows the marks, and refuses nothing but an excess. -/
structure Tracks (l : Marked) : Prop where
  follows : ∀ (d : Int) (p q : Marked) (n : Nesting), l = p ++ q →
    (counting d).run p.text = some n → n.depth = d + opened p
  ends : ∀ (d : Int) (n : Nesting), (counting d).run l.text = some n → n = counting (d + opened l)
  refuses : ∀ d : Int, (counting d).run l.text = none →
    ∃ p q, l = p ++ q ∧ ((maxJsonDepth + 1 : Nat) : Int) < d + opened p

theorem Tracks.nil : Tracks [] where
  follows d p q n h hrun := by
    obtain ⟨rfl, -⟩ := List.append_eq_nil_iff.mp h.symm
    cases hrun
    simp [counting]
  ends d n hrun := by
    cases hrun
    simp
  refuses d hrun := by cases hrun

theorem Tracks.append {l m : Marked} (hl : Tracks l) (hm : Tracks m) : Tracks (l ++ m) where
  follows d p q n h hrun := by
    rcases List.append_eq_append_iff.mp h with ⟨a, rfl, rfl⟩ | ⟨a, rfl, rfl⟩
    · rw [text_append, nesting_run_append] at hrun
      obtain ⟨n₁, hfirst, hsecond⟩ := Option.bind_eq_some_iff.mp hrun
      rw [hl.ends d n₁ hfirst] at hsecond
      rw [hm.follows _ a q n rfl hsecond, opened_append]
      omega
    · exact hl.follows d p a n rfl hrun
  ends d n hrun := by
    rw [text_append, nesting_run_append] at hrun
    obtain ⟨n₁, hfirst, hsecond⟩ := Option.bind_eq_some_iff.mp hrun
    rw [hl.ends d n₁ hfirst] at hsecond
    rw [hm.ends _ n hsecond, opened_append, Int.add_assoc]
  refuses d hrun := by
    rw [text_append, nesting_run_append] at hrun
    cases hfirst : (counting d).run l.text with
    | none =>
      obtain ⟨p, q, rfl, hexcess⟩ := hl.refuses d hfirst
      exact ⟨p, q ++ m, by rw [List.append_assoc], hexcess⟩
    | some n₁ =>
      rw [hfirst, Option.bind_some, hl.ends d n₁ hfirst] at hrun
      obtain ⟨p, q, rfl, hexcess⟩ := hm.refuses _ hrun
      refine ⟨l ++ p, q, by rw [List.append_assoc], ?_⟩
      rw [opened_append]
      omega

/-- A single character. -/
theorem Tracks.single {c : CodePoint} {m : Mark}
    (hsome : ∀ (d : Int) (n : Nesting), (counting d).step c = some n → n = counting (d + markDelta m))
    (hnone : ∀ d : Int, (counting d).step c = none →
      ((maxJsonDepth + 1 : Nat) : Int) < d + markDelta m) : Tracks [(c, m)] where
  follows d p q n h hrun := by
    cases p with
    | nil =>
      cases hrun
      simp [counting]
    | cons x p =>
      obtain ⟨rfl, htail⟩ := List.cons.inj h
      obtain ⟨rfl, -⟩ := List.append_eq_nil_iff.mp htail.symm
      obtain ⟨n', hstep, hn⟩ := Option.bind_eq_some_iff.mp hrun
      cases hn
      rw [hsome d n hstep]
      simp [counting]
  ends d n hrun := by
    obtain ⟨n', hstep, hn⟩ := Option.bind_eq_some_iff.mp hrun
    cases hn
    rw [hsome d n hstep]
    simp
  refuses d hrun := by
    cases hstep : (counting d).step c with
    | none => exact ⟨[(c, m)], [], rfl, by simpa using hnone d hstep⟩
    | some n =>
      rw [text_cons, Nesting.run, hstep] at hrun
      cases hrun

theorem Tracks.neutral {c : CodePoint} (hc : Neutral c) : Tracks [(c, .plain)] := by
  have hstep : ∀ d, (counting d).step c = some (counting d) := by
    intro d
    obtain ⟨h1, h2, h3, h4, h5⟩ := hc
    simp [Nesting.step, counting, h1, h2, h3, h4, h5]
  refine .single (fun d n h => ?_) (fun d h => ?_)
  · rw [hstep] at h
    cases h
    simp [markDelta]
  · rw [hstep] at h
    cases h

theorem Tracks.opening {c : CodePoint} (hc : c.val = 0x5B ∨ c.val = 0x7B) : Tracks [(c, .opens)] := by
  have hquote : c.val ≠ 0x22 := by omega
  have hstep : ∀ d, (counting d).step c =
      if d + 1 > (maxJsonDepth + 1 : Nat) then none else some (counting (d + 1)) := by
    intro d
    simp [Nesting.step, counting, hquote, hc]
  refine .single (fun d n h => ?_) (fun d h => ?_)
  · rw [hstep] at h
    split at h
    · cases h
    · exact (Option.some.inj h).symm
  · rw [hstep] at h
    split at h
    · assumption
    · cases h

theorem Tracks.closing {c : CodePoint} (hc : c.val = 0x5D ∨ c.val = 0x7D) :
    Tracks [(c, .closes)] := by
  have hquote : c.val ≠ 0x22 ∧ ¬ (c.val = 0x5B ∨ c.val = 0x7B) := by omega
  have hstep : ∀ d, (counting d).step c = some (counting (d - 1)) := by
    intro d
    simp [Nesting.step, counting, hquote, hc]
  refine .single (fun d n h => ?_) (fun d h => ?_)
  · rw [hstep] at h
    exact (Option.some.inj h).symm
  · rw [hstep] at h
    cases h

theorem Tracks.plain {s : Str} (hs : ∀ c ∈ s, Neutral c) : Tracks (unmarked s) := by
  induction s with
  | nil => exact .nil
  | cons c s ih =>
    have hrest := ih fun d hd => hs d (List.mem_cons_of_mem _ hd)
    exact (Tracks.neutral (hs c List.mem_cons_self)).append hrest

/-! ## Strings -/

/-- In a string, the count stays as it is. -/
def InString (s : Str) : Prop := ∀ (d : Int) (p q : Str), s = p ++ q →
  ∃ e, Nesting.run ⟨d, true, false⟩ p = some ⟨d, true, e⟩ ∧ (q = [] → e = false)

theorem InString.nil : InString [] := by
  intro d p q h
  obtain ⟨rfl, -⟩ := List.append_eq_nil_iff.mp h.symm
  exact ⟨false, rfl, fun _ => rfl⟩

theorem InString.char {c : CodePoint} (h1 : c.val ≠ 0x5C) (h2 : c.val ≠ 0x22) {s : Str} (hs : InString s) :
    InString (c :: s) := by
  intro d p q h
  cases p with
  | nil => exact ⟨false, rfl, fun _ => rfl⟩
  | cons x p =>
    obtain ⟨rfl, rfl⟩ := List.cons.inj h
    rw [run_string_char h1 h2]
    exact hs d p q rfl

theorem InString.escape (c : CodePoint) {s : Str} (hs : InString s) : InString (0x5C :: c :: s) := by
  intro d p q h
  match p with
  | [] => exact ⟨false, rfl, fun _ => rfl⟩
  | [x] =>
    obtain ⟨rfl, rfl⟩ := List.cons.inj h
    exact ⟨true, rfl, fun hq => by cases hq⟩
  | x :: y :: p =>
    obtain ⟨rfl, htail⟩ := List.cons.inj h
    obtain ⟨rfl, rfl⟩ := List.cons.inj htail
    rw [run_string_escape]
    exact hs d p q rfl

theorem InString.hex {h : Str} {u : Nat} (hu : HexUnit h u) {s : Str} (hs : InString s) : InString (h ++ s) := by
  have hplain : ∀ {c : CodePoint} {x : Nat}, hexValue c = some x → c.val ≠ 0x5C ∧ c.val ≠ 0x22 := by
    intro c x hx
    unfold hexValue at hx
    dsimp only at hx
    split at hx
    · omega
    split at hx
    · omega
    split at hx
    · omega
    · cases hx
  obtain ⟨a, b, c, d, x, y, z, t, rfl, ha, hb, hc, hd, -⟩ := hu
  exact .char (hplain ha).1 (hplain ha).2 (.char (hplain hb).1 (hplain hb).2
    (.char (hplain hc).1 (hplain hc).2 (.char (hplain hd).1 (hplain hd).2 hs)))

/-- **Strings.**  The check and the grammar agree on where a string ends. -/
theorem inString_body {body s : Str} (h : StringBody body s) : InString body := by
  induction h with
  | nil => exact .nil
  | char _ hquote hback _ ih => exact .char hback hquote ih
  | escape _ _ ih => exact .escape _ ih
  | unit hu _ _ ih => exact .escape _ (.hex hu ih)
  | pair hu hv _ _ _ ih => exact .escape _ (.hex hu (.escape _ (.hex hv ih)))

theorem Tracks.string {body s : Str} (h : StringBody body s) :
    Tracks (unmarked (0x22 :: (body ++ [0x22]))) := by
  have hopen : ∀ d t, (counting d).run (0x22 :: t) = Nesting.run ⟨d, true, false⟩ t := fun _ _ => rfl
  have hwhole : ∀ d, (counting d).run (0x22 :: (body ++ [0x22])) = some (counting d) := by
    intro d
    obtain ⟨e, hrun, he⟩ := inString_body h d body [] (by simp)
    rw [hopen, nesting_run_append, hrun, he rfl]
    rfl
  -- every prefix ends in the string, or after it
  have hprefix : ∀ d p q, 0x22 :: (body ++ [0x22]) = p ++ q →
      ∃ n, (counting d).run p = some n ∧ n.depth = d := by
    intro d p q hpq
    cases p with
    | nil => exact ⟨counting d, rfl, rfl⟩
    | cons x p =>
      obtain ⟨rfl, htail⟩ := List.cons.inj hpq
      rcases List.append_eq_append_iff.mp htail with ⟨a, rfl, ha⟩ | ⟨a, hbody, -⟩
      · cases a with
        | nil =>
          obtain ⟨e, hrun, -⟩ := inString_body h d body [] (by simp)
          exact ⟨⟨d, true, e⟩, by rw [hopen, List.append_nil, hrun], rfl⟩
        | cons y a =>
          obtain ⟨rfl, hnil⟩ := List.cons.inj ha
          obtain ⟨rfl, -⟩ := List.append_eq_nil_iff.mp hnil.symm
          exact ⟨counting d, hwhole d, rfl⟩
      · obtain ⟨e, hrun, -⟩ := inString_body h d p a hbody
        exact ⟨⟨d, true, e⟩, by rw [hopen, hrun], rfl⟩
  have hplain : ∀ p q : Marked, unmarked (0x22 :: (body ++ [0x22])) = p ++ q → opened p = 0 := by
    intro p q hpq
    obtain ⟨s₁, s₂, -, rfl, -⟩ := List.map_eq_append_iff.mp hpq
    exact opened_unmarked s₁
  refine ⟨fun d p q n hpq hrun => ?_, fun d n hrun => ?_, fun d hrun => ?_⟩
  · have htext : 0x22 :: (body ++ [0x22]) = p.text ++ q.text := by
      rw [← text_append, ← hpq, text_unmarked]
    obtain ⟨n', hn', hdepth⟩ := hprefix d p.text q.text htext
    rw [hrun, Option.some.injEq] at hn'
    rw [hn', hdepth, hplain p q hpq, Int.add_zero]
  · rw [text_unmarked, hwhole, Option.some.injEq] at hrun
    rw [← hrun, opened_unmarked, Int.add_zero]
  · rw [text_unmarked, hwhole] at hrun
    cases hrun

/-! ## The grammar -/

theorem neutral_spaces {w : Str} (hw : Spaces w) : ∀ c ∈ w, Neutral c := by
  intro c hc
  have hspace := hw c hc
  simp only [isJsonSpace, Bool.or_eq_true, decide_eq_true_eq] at hspace
  unfold Neutral
  omega

theorem neutral_of_digit {c : CodePoint} (h : (digitValue c).isSome = true) : Neutral c := by
  unfold digitValue at h
  split at h
  · unfold Neutral
    omega
  · cases h

theorem neutral_numeral {s : Str} (h : Numeral s) : ∀ c ∈ s, Neutral c := by
  obtain ⟨sign, whole, fraction, exponent, rfl, hsign, hwhole, -, hfraction, hexponent⟩ := h.parts
  have hminus : Neutral 0x2D ∧ Neutral 0x2B ∧ Neutral 0x2E ∧ Neutral 0x65 ∧ Neutral 0x45 := by decide
  have hdigits : ∀ ds, Digits ds → ∀ c ∈ ds, Neutral c := fun ds hds c hc => neutral_of_digit (hds.2 c hc)
  refine neutral_append ?_ (neutral_append (hdigits whole hwhole) (neutral_append ?_ ?_))
  · rcases hsign with rfl | rfl
    · exact neutral_nil
    · exact neutral_cons hminus.1 neutral_nil
  · rcases hfraction with rfl | ⟨ds, hds, rfl⟩
    · exact neutral_nil
    · exact neutral_cons hminus.2.2.1 (hdigits ds hds)
  · rcases hexponent with rfl | ⟨e, esign, ds, he, hesign, hds, rfl⟩
    · exact neutral_nil
    · have hes : ∀ c ∈ esign, Neutral c := by
        rcases hesign with rfl | rfl | rfl
        · exact neutral_nil
        · exact neutral_cons hminus.1 neutral_nil
        · exact neutral_cons hminus.2.1 neutral_nil
      refine neutral_cons ?_ (neutral_append hes (hdigits ds hds))
      rcases he with rfl | rfl
      · exact hminus.2.2.2.1
      · exact hminus.2.2.2.2

theorem tracks_head {head key : Str} (h : MemberHead head key) : Tracks (unmarked head) := by
  obtain ⟨w, body, w₁, w₂, hw, hbody, hw₁, hw₂, rfl⟩ := h
  have hcolon : Neutral 0x3A := by decide
  have hsplit : unmarked (w ++ (0x22 :: (body ++ 0x22 :: (w₁ ++ 0x3A :: w₂)))) =
      unmarked w ++ (unmarked (0x22 :: (body ++ [0x22])) ++ unmarked (w₁ ++ 0x3A :: w₂)) := by
    rw [← unmarked_append, ← unmarked_append]
    simp
  rw [hsplit]
  exact (Tracks.plain (neutral_spaces hw)).append ((Tracks.string hbody).append
    (.plain (neutral_append (neutral_spaces hw₁) (neutral_cons hcolon (neutral_spaces hw₂)))))

/-- **The count follows the grammar**, one case for each rule. -/
theorem tracks_derives {l : Marked} {part : Part} (h : Derives l part) : Tracks l := by
  have hcomma : ∀ {w : Str}, Spaces w → Tracks (unmarked (w ++ [0x2C])) := fun hw =>
    .plain (neutral_append (neutral_spaces hw) (neutral_cons (by decide) neutral_nil))
  have hliteral : ∀ s : String, ((lit s).all fun c => Neutral c) = true → Tracks (unmarked (lit s)) :=
    fun s hs => .plain fun c hc => of_decide_eq_true (List.all_eq_true.mp hs c hc)
  induction h with
  | string hbody => exact .string hbody
  | number hnumeral _ => exact .plain (neutral_numeral hnumeral)
  | null => exact hliteral _ (by decide)
  | bool b =>
    cases b with
    | true => exact hliteral _ (by decide)
    | false => exact hliteral _ (by decide)
  | emptyList hw =>
    exact (Tracks.opening (.inl rfl)).append ((Tracks.plain (neutral_spaces hw)).append (.closing (.inl rfl)))
  | list _ ih => exact (Tracks.opening (.inl rfl)).append (ih.append (.closing (.inl rfl)))
  | emptyDict hw =>
    exact (Tracks.opening (.inr rfl)).append ((Tracks.plain (neutral_spaces hw)).append (.closing (.inr rfl)))
  | dict _ ih => exact (Tracks.opening (.inr rfl)).append (ih.append (.closing (.inr rfl)))
  | element hw _ hw' ih =>
    exact (Tracks.plain (neutral_spaces hw)).append (ih.append (.plain (neutral_spaces hw')))
  | elements hw _ hw' _ ih ihrest =>
    exact (Tracks.plain (neutral_spaces hw)).append (ih.append ((hcomma hw').append ihrest))
  | member hhead _ hw' ih => exact (tracks_head hhead).append (ih.append (.plain (neutral_spaces hw')))
  | members hhead _ hw' _ ih ihrest =>
    exact (tracks_head hhead).append (ih.append ((hcomma hw').append ihrest))

theorem tracks_text {l : Marked} {v : Value} (h : JsonText l v) : Tracks l := by
  obtain ⟨w, w', m, hw, hw', hm, rfl⟩ := h
  exact (Tracks.plain (neutral_spaces hw)).append
    ((tracks_derives hm).append (.plain (neutral_spaces hw')))

/-! ## The height of a value -/

/-- A piece of text closes what it opens, and opens at most `m` containers at once. -/
structure Nests (m : Nat) (l : Marked) : Prop where
  closed : opened l = 0
  most : ∀ p q, l = p ++ q → opened p ≤ m

theorem Nests.append {m : Nat} {l l' : Marked} (h : Nests m l) (h' : Nests m l') : Nests m (l ++ l') := by
  refine ⟨by rw [opened_append, h.closed, h'.closed, Int.add_zero], fun p q hpq => ?_⟩
  rcases List.append_eq_append_iff.mp hpq with ⟨a, rfl, rfl⟩ | ⟨a, rfl, rfl⟩
  · rw [opened_append, h.closed, Int.zero_add]
    exact h'.most a q rfl
  · exact h.most p a rfl

theorem Nests.mono {m m' : Nat} (hle : m ≤ m') {l : Marked} (h : Nests m l) : Nests m' l :=
  ⟨h.closed, fun p q hpq => by have := h.most p q hpq; omega⟩

theorem Nests.plain (m : Nat) (s : Str) : Nests m (unmarked s) := by
  refine ⟨opened_unmarked s, fun p q hpq => ?_⟩
  obtain ⟨s₁, s₂, -, rfl, -⟩ := List.map_eq_append_iff.mp hpq
  have hzero : opened (unmarked s₁) = 0 := opened_unmarked s₁
  have hle : opened (unmarked s₁) ≤ m := by omega
  exact hle

/-- A container around a piece of text. -/
theorem Nests.container {m : Nat} {l : Marked} (h : Nests m l) (a b : CodePoint) :
    Nests (m + 1) ((a, .opens) :: (l ++ [(b, .closes)])) := by
  have hclosed := h.closed
  refine ⟨?_, fun p q hpq => ?_⟩
  · simp [hclosed, markDelta]
  · cases p with
    | nil =>
      rw [opened_nil]
      omega
    | cons x p =>
      obtain ⟨rfl, htail⟩ := List.cons.inj hpq
      rw [opened_cons]
      rcases List.append_eq_append_iff.mp htail with ⟨c, rfl, hc⟩ | ⟨c, rfl, -⟩
      · rw [opened_append, hclosed]
        cases c with
        | nil => simp [markDelta]
        | cons y c =>
          obtain ⟨rfl, hnil⟩ := List.cons.inj hc
          obtain ⟨rfl, -⟩ := List.append_eq_nil_iff.mp hnil.symm
          simp [markDelta]
          omega
      · have hmost := h.most p c rfl
        simp only [markDelta]
        omega

/-- Containers that a part of a text has open at most. -/
def partHeight : Part → Nat
  | .value v => height v + 1
  | .elements xs => heightList xs
  | .members items => heightItems (items.map fun item => (.str item.1, item.2))

/-- A text opens as many containers as its value has levels. -/
theorem nests_derives {l : Marked} {part : Part} (h : Derives l part) : Nests (partHeight part) l := by
  induction h with
  | string _ => exact .plain _ _
  | number _ _ => exact .plain _ _
  | null => exact .plain _ _
  | bool b => exact .plain _ _
  | emptyList _ => exact (Nests.plain 0 _).container _ _
  | list _ ih => exact ih.container _ _
  | emptyDict _ => exact (Nests.plain 0 _).container _ _
  | dict _ ih => exact ih.container _ _
  | element _ _ _ ih =>
    exact (Nests.plain _ _).append ((ih.mono (Nat.le_max_left _ _)).append (.plain _ _))
  | elements _ _ _ _ ih ihrest =>
    exact (Nests.plain _ _).append ((ih.mono (Nat.le_max_left _ _)).append
      ((Nests.plain _ _).append (ihrest.mono (Nat.le_max_right _ _))))
  | member _ _ _ ih =>
    exact (Nests.plain _ _).append ((ih.mono (Nat.le_max_left _ _)).append (.plain _ _))
  | members _ _ _ _ ih ihrest =>
    exact (Nests.plain _ _).append ((ih.mono (Nat.le_max_left _ _)).append
      ((Nests.plain _ _).append (ihrest.mono (Nat.le_max_right _ _))))

theorem nests_text {l : Marked} {v : Value} (h : JsonText l v) : Nests (height v + 1) l := by
  obtain ⟨w, w', m, -, -, hm, rfl⟩ := h
  exact (Nests.plain _ w).append ((nests_derives hm).append (.plain _ w'))

/-! ## The recursion of the decoder -/

mutual

/-- Containers around the innermost call of `scan_once`, on text that need not be valid. -/
def valueDepth : Nat → Str → Nat
  | 0, _ => 0
  | _ + 1, [] => 0
  | fuel + 1, c :: rest =>
    if c.val = 0x7B then
      1 + match skipSpace rest with
        | [] => 0
        | d :: r => if d.val = 0x7D then 0 else membersDepth fuel (d :: r)
    else if c.val = 0x5B then
      1 + match skipSpace rest with
        | [] => 0
        | d :: r => if d.val = 0x5D then 0 else elementsDepth fuel (d :: r)
    else 0

def elementsDepth : Nat → Str → Nat
  | 0, _ => 0
  | fuel + 1, s =>
    max (valueDepth fuel s)
      (match scanValue fuel s with
      | none => 0
      | some (_, r) =>
        match skipSpace r with
        | [] => 0
        | c :: r => if c.val = 0x2C then elementsDepth fuel (skipSpace r) else 0)

def membersDepth : Nat → Str → Nat
  | 0, _ => 0
  | _ + 1, [] => 0
  | fuel + 1, q :: s =>
    if q.val = 0x22 then
      match scanString (s.length + 1) s with
      | none => 0
      | some (_, r) =>
        match skipSpace r with
        | [] => 0
        | c :: r =>
          if c.val = 0x3A then
            max (valueDepth fuel (skipSpace r))
              (match scanValue fuel (skipSpace r) with
              | none => 0
              | some (_, r) =>
                match skipSpace r with
                | [] => 0
                | c :: r => if c.val = 0x2C then membersDepth fuel (skipSpace r) else 0)
          else 0
    else 0

end

/-- How deep `json.loads` recurses. -/
def decodeDepth (text : Str) : Nat := valueDepth (text.length + 1) (skipSpace text)

section Recursion

variable {d : Int}

/-- The check passes the text, with the count `d` before it. -/
def Passes (d : Int) (s : Str) : Prop := ((counting d).run s).isSome = true

theorem passes_spaces {w s : Str} (hw : Spaces w) : Passes d (w ++ s) ↔ Passes d s := by
  unfold Passes counting
  rw [run_neutral (neutral_spaces hw)]

theorem passes_skipSpace {s : Str} : Passes d s ↔ Passes d (skipSpace s) := by
  obtain ⟨w, hw, hs⟩ := skipSpace_eq s
  rw [hs, passes_spaces hw, ← hs]

theorem passes_neutral {c : CodePoint} (hc : Neutral c) {s : Str} : Passes d (c :: s) ↔ Passes d s := by
  unfold Passes counting
  rw [← List.singleton_append, run_neutral (neutral_cons hc neutral_nil)]

/-- After a piece of text that is derived, the count is what it was. -/
theorem passes_derived {l : Marked} (htracks : Tracks l) (hclosed : opened l = 0) {s : Str}
    (h : Passes d (l.text ++ s)) : Passes d s := by
  unfold Passes at h ⊢
  rw [nesting_run_append] at h
  cases hrun : (counting d).run l.text with
  | none =>
    rw [hrun] at h
    cases h
  | some n =>
    rw [hrun, htracks.ends d n hrun, hclosed, Int.add_zero] at h
    exact h

theorem passes_scanned {fuel : Nat} {s r : Str} {v : Value} (hscan : scanValue fuel s = some (v, r))
    (h : Passes d s) : Passes d r := by
  obtain ⟨l, rfl, hl⟩ := (scan_derives fuel).1 _ _ _ hscan
  exact passes_derived (tracks_derives hl) (nests_derives hl).closed h

theorem passes_string {fuel : Nat} {s r t : Str} {q : CodePoint} (hq : q.val = 0x22)
    (hscan : scanString fuel s = some (t, r)) (h : Passes d (q :: s)) : Passes d r := by
  obtain ⟨body, hbody, rfl⟩ := scanString_derives _ _ _ _ hscan
  refine passes_derived (Tracks.string hbody) (opened_unmarked _) ?_
  rw [eq_of_val (d := 0x22) hq] at h
  rw [text_unmarked]
  simpa using h

/-- A bracket that opens a container counts. -/
theorem passes_opening {c : CodePoint} (hc : c.val = 0x5B ∨ c.val = 0x7B) {s : Str}
    (h : Passes d (c :: s)) : d + 1 ≤ (maxJsonDepth + 1 : Nat) ∧ Passes (d + 1) s := by
  have hquote : c.val ≠ 0x22 := by omega
  have hstep : (counting d).step c =
      if d + 1 > (maxJsonDepth + 1 : Nat) then none else some (counting (d + 1)) := by
    simp [Nesting.step, counting, hquote, hc]
  unfold Passes at h
  rw [Nesting.run, hstep] at h
  split at h
  · cases h
  · exact ⟨by omega, h⟩

/-- The decoder recurses no deeper than the count allows.  By induction on the fuel. -/
theorem depth_le (fuel : Nat) :
    (∀ (d : Int) (s : Str), Passes d s → d ≤ (maxJsonDepth + 1 : Nat) →
      d + valueDepth fuel s ≤ (maxJsonDepth + 1 : Nat)) ∧
    (∀ (d : Int) (s : Str), Passes d s → d ≤ (maxJsonDepth + 1 : Nat) →
      d + elementsDepth fuel s ≤ (maxJsonDepth + 1 : Nat)) ∧
    (∀ (d : Int) (s : Str), Passes d s → d ≤ (maxJsonDepth + 1 : Nat) →
      d + membersDepth fuel s ≤ (maxJsonDepth + 1 : Nat)) := by
  induction fuel with
  | zero =>
    refine ⟨?_, ?_, ?_⟩
    · intro d s _ hd
      simpa [valueDepth] using hd
    · intro d s _ hd
      simpa [elementsDepth] using hd
    · intro d s _ hd
      simpa [membersDepth] using hd
  | succ fuel ih =>
    obtain ⟨ihv, ihe, ihm⟩ := ih
    have hzero : ∀ d : Int, d ≤ (maxJsonDepth + 1 : Nat) →
        d + ((0 : Nat) : Int) ≤ (maxJsonDepth + 1 : Nat) := by
      intro d hd
      omega
    refine ⟨?_, ?_, ?_⟩
    · intro d s hs hd
      cases s with
      | nil => exact hzero d hd
      | cons c rest =>
        unfold valueDepth
        split
        · rename_i hc
          obtain ⟨hle, hrest⟩ := passes_opening (.inr hc) hs
          split
          · omega
          · rename_i e r hskip
            rw [passes_skipSpace, hskip] at hrest
            split
            · omega
            · have := ihm (d + 1) _ hrest hle
              omega
        split
        · rename_i hc
          obtain ⟨hle, hrest⟩ := passes_opening (.inl hc) hs
          split
          · omega
          · rename_i e r hskip
            rw [passes_skipSpace, hskip] at hrest
            split
            · omega
            · have := ihe (d + 1) _ hrest hle
              omega
        · exact hzero d hd
    · intro d s hs hd
      unfold elementsDepth
      have hvalue := ihv d s hs hd
      have hrest : d + ((match scanValue fuel s with
          | none => 0
          | some (_, r) =>
            match skipSpace r with
            | [] => 0
            | c :: r => if c.val = 0x2C then elementsDepth fuel (skipSpace r) else 0 : Nat) : Int) ≤
          (maxJsonDepth + 1 : Nat) := by
        split
        · exact hzero d hd
        · rename_i v r hscan
          have hr := passes_scanned hscan hs
          split
          · exact hzero d hd
          · rename_i c r' hskip
            rw [passes_skipSpace, hskip] at hr
            split
            · rename_i hc
              have hcomma : Neutral c := by
                rw [eq_of_val (d := 0x2C) hc]
                decide
              exact ihe d _ (passes_skipSpace.mp ((passes_neutral hcomma).mp hr)) hd
            · exact hzero d hd
      omega
    · intro d s hs hd
      cases s with
      | nil => exact hzero d hd
      | cons q s =>
        unfold membersDepth
        split
        · rename_i hq
          split
          · exact hzero d hd
          · rename_i k r hkey
            have hr := passes_string hq hkey hs
            split
            · exact hzero d hd
            · rename_i c r₁ hskip
              rw [passes_skipSpace, hskip] at hr
              split
              · rename_i hc
                have hcolon : Neutral c := by
                  rw [eq_of_val (d := 0x3A) hc]
                  decide
                have hr₁ := passes_skipSpace.mp ((passes_neutral hcolon).mp hr)
                have hvalue := ihv d _ hr₁ hd
                have hrest : d + ((match scanValue fuel (skipSpace r₁) with
                    | none => 0
                    | some (_, r) =>
                      match skipSpace r with
                      | [] => 0
                      | c :: r => if c.val = 0x2C then membersDepth fuel (skipSpace r) else 0 : Nat) :
                    Int) ≤ (maxJsonDepth + 1 : Nat) := by
                  split
                  · exact hzero d hd
                  · rename_i v r₂ hscan
                    have hr₂ := passes_scanned hscan hr₁
                    split
                    · exact hzero d hd
                    · rename_i c' r₃ hskip'
                      rw [passes_skipSpace, hskip'] at hr₂
                      split
                      · rename_i hc'
                        have hcomma : Neutral c' := by
                          rw [eq_of_val (d := 0x2C) hc']
                          decide
                        exact ihm d _ (passes_skipSpace.mp ((passes_neutral hcomma).mp hr₂)) hd
                      · exact hzero d hd
                omega
              · exact hzero d hd
        · exact hzero d hd

end Recursion

/-! ## The check -/

theorem depth_of_step {n n' : Nesting} {c : CodePoint} (h : n.step c = some n')
    (hd : n.depth ≤ (maxJsonDepth + 1 : Nat)) : n'.depth ≤ (maxJsonDepth + 1 : Nat) := by
  unfold Nesting.step at h
  split at h
  · split at h
    · cases h
      exact hd
    split at h
    · cases h
      exact hd
    split at h
    · cases h
      exact hd
    · cases h
      exact hd
  split at h
  · cases h
    exact hd
  split at h
  · split at h
    · cases h
    · cases h
      dsimp only
      omega
  split at h
  · cases h
    dsimp only
    omega
  · cases h
    exact hd

/-- The count never gets past the limit. -/
theorem depth_of_run {n n' : Nesting} {s : Str} (h : n.run s = some n')
    (hd : n.depth ≤ (maxJsonDepth + 1 : Nat)) : n'.depth ≤ (maxJsonDepth + 1 : Nat) := by
  induction s generalizing n with
  | nil =>
    cases h
    exact hd
  | cons c s ih =>
    obtain ⟨m, hstep, hrun⟩ := Option.bind_eq_some_iff.mp h
    exact ih hrun (depth_of_step hstep hd)

theorem validateJsonNesting_ok {text : Str} : validateJsonNesting text = .ok () ↔ Passes 0 text := by
  have hstart : ({} : Nesting) = counting 0 := rfl
  unfold validateJsonNesting Passes Raised.because
  rw [hstart]
  split
  · simp [*]
  · simp [*]

/-- A value that validation accepts has a text that the check accepts. -/
theorem nesting_of_height {l : Marked} {v : Value} (h : JsonText l v) (hheight : height v ≤ maxJsonDepth) :
    validateJsonNesting l.text = .ok () := by
  rw [validateJsonNesting_ok]
  unfold Passes
  cases hrun : (counting 0).run l.text with
  | some n => rfl
  | none =>
    obtain ⟨p, q, rfl, hexcess⟩ := (tracks_text h).refuses 0 hrun
    have hmost := (nests_text h).most p q rfl
    omega

/-- **The nesting check and the grammar.**  The check accepts every text whose value `_validate_json`
accepts.  In a text that it accepts, no start that is also the start of a JSON text has more than 13
containers open, and the decoder recurses into at most 13 containers, whether the text is valid or not. -/
theorem nesting_agrees (text : Str) :
    (∀ (limits : RemoteLimits) (v : Value), loads text = some v → validateJson limits v 0 = .ok () →
      validateJsonNesting text = .ok ()) ∧
    (validateJsonNesting text = .ok () →
      (∀ (p q : Marked) (v : Value), JsonText (p ++ q) v → p.text <+: text → opened p ≤ 13) ∧
      decodeDepth text ≤ 13) := by
  refine ⟨fun limits v hloads hvalid => ?_, fun haccepted => ⟨fun p q v hjson hprefix => ?_, ?_⟩⟩
  · obtain ⟨l, rfl, hl⟩ := loads_grammar hloads
    obtain ⟨-, hheight⟩ := (validateJson_ok v 0).mp hvalid
    exact nesting_of_height hl (by omega)
  · obtain ⟨rest, rfl⟩ := hprefix
    have hpasses := validateJsonNesting_ok.mp haccepted
    unfold Passes at hpasses
    rw [nesting_run_append] at hpasses
    cases hrun : (counting 0).run p.text with
    | none =>
      rw [hrun] at hpasses
      cases hpasses
    | some n =>
      have hdepth := depth_of_run hrun (by decide)
      rw [(tracks_text hjson).follows 0 p q n rfl hrun, Int.zero_add] at hdepth
      exact hdepth
  · have hpasses := passes_skipSpace.mp (validateJsonNesting_ok.mp haccepted)
    have hdepth := (depth_le (text.length + 1)).1 0 _ hpasses (by decide)
    unfold decodeDepth
    simp only [maxJsonDepth] at hdepth
    omega

end Deadpool.Remote
