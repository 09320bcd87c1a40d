import Mathlib.Algebra.Ring.Int.Defs
import Mathlib.Algebra.Ring.Nat
import Mathlib.Data.List.Basic

/-!
# Lookups in lists that change

Objects that a program compares by identity are indices into a list that only grows; a field
assignment modifies one entry.

* `getElem?_modify_some`, `getElem?_modify_self`, `getElem?_modify_of_ne` — an assignment;
* `getElem?_append_some` — a new object;
* `countP_set_add`, `countP_modify_add`, `countP_range_flip` — the number of objects with a property, when one changes;
* `sum_map_modify`, `sum_map_set`, `count_flatMap_set` — a total over all objects, when one changes.
-/

set_option autoImplicit false

namespace Deadpool

variable {α : Type} {l : List α} {i j : Nat} {f : α → α} {a b : α}

theorem getElem?_modify_some (h : (l.modify i f)[j]? = some b) :
    ∃ a, l[j]? = some a ∧ b = if i = j then f a else a := by
  rw [List.getElem?_modify] at h
  obtain ⟨a, ha, rfl⟩ := Option.map_eq_some_iff.mp h
  exact ⟨a, ha, rfl⟩

theorem getElem?_modify_of_some (h : l[j]? = some a) :
    (l.modify i f)[j]? = some (if i = j then f a else a) := by
  rw [List.getElem?_modify, h]
  rfl

theorem getElem?_modify_self (h : l[i]? = some a) : (l.modify i f)[i]? = some (f a) := by
  rw [getElem?_modify_of_some h, if_pos rfl]

theorem getElem?_modify_of_ne (h : i ≠ j) : (l.modify i f)[j]? = l[j]? := by
  rw [List.getElem?_modify]
  simp [h]

theorem getElem?_append_some (h : (l ++ [a])[j]? = some b) :
    l[j]? = some b ∨ j = l.length ∧ b = a := by
  by_cases hj : j < l.length
  · rw [List.getElem?_append_left hj] at h
    exact .inl h
  · rw [List.getElem?_append_right (by omega)] at h
    by_cases hj' : j = l.length
    · subst hj'
      rw [Nat.sub_self] at h
      exact .inr ⟨rfl, (Option.some.inj h).symm⟩
    · rw [List.getElem?_eq_none (by rw [List.length_singleton]; omega)] at h
      cases h

theorem getElem?_append_of_some (h : l[j]? = some b) : (l ++ [a])[j]? = some b := by
  obtain ⟨hj, rfl⟩ := List.getElem?_eq_some_iff.mp h
  rw [List.getElem?_append_left hj, List.getElem?_eq_getElem hj]

theorem getElem?_append_length : (l ++ [a])[l.length]? = some a := by
  simp

theorem lt_of_getElem? (h : l[j]? = some b) : j < l.length :=
  (List.getElem?_eq_some_iff.mp h).choose

/-! ## Counting -/

/-- One entry changes. -/
theorem sum_map_modify (g : α → Int) (h : l[i]? = some a) :
    ((l.modify i f).map g).sum = (l.map g).sum + (g (f a) - g a) := by
  induction l generalizing i with
  | nil => cases h
  | cons b l ih =>
    cases i with
    | zero =>
      rw [List.getElem?_cons_zero] at h
      cases h
      simp only [List.modify_zero_cons, List.map_cons, List.sum_cons]
      omega
    | succ i =>
      rw [List.getElem?_cons_succ] at h
      simp only [List.modify_succ_cons, List.map_cons, List.sum_cons, ih h]
      omega

/-- One entry changes. -/
theorem sum_map_set (g : α → Nat) (b : α) (h : l[i]? = some a) :
    ((l.set i b).map g).sum + g a = (l.map g).sum + g b := by
  induction l generalizing i with
  | nil => cases h
  | cons c l ih =>
    cases i with
    | zero =>
      cases h
      simp only [List.set_cons_zero, List.map_cons, List.sum_cons]
      omega
    | succ i =>
      have := ih h
      simp only [List.set_cons_succ, List.map_cons, List.sum_cons]
      omega

/-- One entry changes. -/
theorem count_flatMap_set {β : Type} [DecidableEq β] (g : α → List β) (b : α) (h : l[i]? = some a)
    (x : β) : ((l.set i b).flatMap g).count x + (g a).count x =
      (l.flatMap g).count x + (g b).count x := by
  induction l generalizing i with
  | nil => cases h
  | cons c l ih =>
    cases i with
    | zero =>
      cases h
      simp only [List.set_cons_zero, List.flatMap_cons, List.count_append]
      omega
    | succ i =>
      have := ih h
      simp only [List.set_cons_succ, List.flatMap_cons, List.count_append]
      omega

/-- One entry changes. -/
theorem countP_set_add (p : α → Bool) (b : α) (h : l[i]? = some a) :
    (l.set i b).countP p + (if p a then 1 else 0) = l.countP p + (if p b then 1 else 0) := by
  obtain ⟨hi, hget⟩ := List.getElem?_eq_some_iff.mp h
  rw [List.countP_set hi, hget]
  have : (if p a then 1 else 0) ≤ l.countP p := by
    split
    · rename_i hp
      exact List.countP_pos_iff.mpr ⟨a, List.mem_of_getElem? h, hp⟩
    · omega
  omega

theorem countP_head (p : α → Bool) (a : α) (l : List α) :
    (a :: l).countP p = (p a).toNat + l.countP p := by
  rw [List.countP_cons]
  cases p a
  · exact (Nat.zero_add _).symm
  · exact Nat.add_comm _ _

theorem countP_concat (p : α → Bool) (l : List α) (a : α) :
    (l ++ [a]).countP p = l.countP p + (p a).toNat := by
  rw [List.countP_append, countP_head, List.countP_nil, Nat.add_zero]

/-- One entry changes. -/
theorem countP_modify_add (p : α → Bool) (h : l[i]? = some a) :
    (l.modify i f).countP p + (p a).toNat = l.countP p + (p (f a)).toNat := by
  induction l generalizing i with
  | nil => cases h
  | cons b l ih =>
    cases i with
    | zero =>
      cases h
      rw [List.modify_zero_cons, countP_head, countP_head]
      omega
    | succ i =>
      have := ih h
      rw [List.modify_succ_cons, countP_head, countP_head]
      omega

/-- A property of one entry at most. -/
theorem index_unique {p : α → Bool} (h : l.countP p ≤ 1) (hi : l[i]? = some a) (hj : l[j]? = some b)
    (ha : p a = true) (hb : p b = true) : i = j := by
  induction l generalizing i j with
  | nil => cases hi
  | cons x l ih =>
    rw [List.countP_cons] at h
    -- an entry further back counts too
    have hpos : ∀ {k : Nat} {y : α}, l[k]? = some y → p y = true → 0 < l.countP p :=
      fun hk hy => List.countP_pos_iff.mpr ⟨_, List.mem_of_getElem? hk, hy⟩
    cases i with
    | zero =>
      cases hi
      cases j with
      | zero => rfl
      | succ j =>
        have := hpos (k := j) hj hb
        rw [if_pos ha] at h
        omega
    | succ i =>
      cases j with
      | zero =>
        cases hj
        have := hpos (k := i) hi ha
        rw [if_pos hb] at h
        omega
      | succ j => rw [ih (by omega) hi hj]

/-- A property that implies another and misses one entry of it. -/
theorem countP_lt_countP {p q : α → Bool} (hpq : ∀ x ∈ l, p x = true → q x = true)
    (ha : a ∈ l) (hp : p a = false) (hq : q a = true) : l.countP p < l.countP q := by
  obtain ⟨l₁, l₂, rfl⟩ := List.append_of_mem ha
  rw [List.countP_append, List.countP_append, List.countP_cons, List.countP_cons, hp, hq]
  have h₁ : l₁.countP p ≤ l₁.countP q := List.countP_mono_left fun x hx => hpq x (by simp [hx])
  have h₂ : l₂.countP p ≤ l₂.countP q := List.countP_mono_left fun x hx => hpq x (by simp [hx])
  simp only [Bool.false_eq_true, if_false, if_true]
  omega

/-- One index less passes the test. -/
theorem countP_range_flip {p p' : Nat → Bool} {n i : Nat} (hi : i < n) (hp : p i = true)
    (hp' : p' i = false) (hother : ∀ j, j ≠ i → p' j = p j) :
    (List.range n).countP p' + 1 = (List.range n).countP p := by
  induction n with
  | zero => omega
  | succ n ih =>
    rw [List.range_succ, List.countP_append, List.countP_append, List.countP_singleton,
      List.countP_singleton]
    by_cases hn : i = n
    · subst hn
      have hsame : (List.range i).countP p' = (List.range i).countP p := by
        refine List.countP_congr fun j hj => ?_
        rw [hother j (by have := List.mem_range.mp hj; omega)]
      rw [hsame, hp, hp']
      simp
    · have := ih (by omega)
      rw [hother n (Ne.symm hn)]
      omega

theorem countP_range_congr {p p' : Nat → Bool} {n : Nat} (h : ∀ j, j < n → p' j = p j) :
    (List.range n).countP p' = (List.range n).countP p := by
  refine List.countP_congr fun j hj => ?_
  rw [h j (List.mem_range.mp hj)]

end Deadpool
