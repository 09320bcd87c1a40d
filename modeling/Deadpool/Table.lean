import Mathlib.Data.List.Basic
import Mathlib.Data.List.Nodup

/-!
# Insertion-ordered tables

A table is a list of keys with their values in the order of insertion, as a Python `dict` is.
Assignment replaces the value of a present key where it stands and appends an absent one.

* `Table.get?`, `Table.set`, `Table.pop`, `Table.values` — the operations;
* `get?_set`, `get?_pop` — what a lookup finds after an operation;
* `mem_set`, `mem_pop` — which entries are there;
* `NodupKeys` — every key once, kept by both operations;
* `set_of_get?_none`, `perm_pop` — an entry more, an entry less.
-/

set_option autoImplicit false

namespace Deadpool

variable {κ α : Type} [DecidableEq κ]

/-- Keys with their values, in insertion order. -/
abbrev Table (κ α : Type) : Type := List (κ × α)

namespace Table

def get? (t : Table κ α) (k : κ) : Option α := (t.find? fun e => e.1 = k).map Prod.snd

def set : Table κ α → κ → α → Table κ α
  | [], k, v => [(k, v)]
  | e :: t, k, v => if e.1 = k then (k, v) :: t else e :: set t k v

def pop (t : Table κ α) (k : κ) : Table κ α := t.filter fun e => e.1 ≠ k

def values (t : Table κ α) : List α := t.map Prod.snd

/-- Every key occurs once. -/
def NodupKeys (t : Table κ α) : Prop := (t.map Prod.fst).Nodup

variable {t : Table κ α} {k k' : κ} {v : α}

theorem get?_cons {e : κ × α} : get? (e :: t) k = if e.1 = k then some e.2 else get? t k := by
  unfold get?
  by_cases h : e.1 = k <;> simp [h]

theorem mem_of_get? (h : get? t k = some v) : (k, v) ∈ t := by
  obtain ⟨e, he, rfl⟩ := Option.map_eq_some_iff.mp h
  have hk := List.find?_some he
  rw [decide_eq_true_eq] at hk
  subst hk
  exact List.mem_of_find?_eq_some he

theorem get?_of_mem (hk : NodupKeys t) (h : (k, v) ∈ t) : get? t k = some v := by
  induction t with
  | nil => cases h
  | cons e t ih =>
    rw [NodupKeys, List.map_cons, List.nodup_cons] at hk
    rw [get?_cons]
    rcases List.mem_cons.mp h with rfl | h
    · rw [if_pos rfl]
    · rw [if_neg]
      · exact ih hk.2 h
      · intro he
        exact hk.1 (he ▸ List.mem_map_of_mem h)

theorem get?_set : get? (set t k v) k' = if k = k' then some v else get? t k' := by
  induction t with
  | nil => simp [set, get?_cons]
  | cons e t ih =>
    unfold set
    split
    · rename_i he
      simp only [get?_cons, he]
      split <;> rfl
    · rename_i he
      simp only [get?_cons, ih]
      split
      · rename_i hk
        rw [if_neg (fun h => he (hk.trans h.symm))]
      · rfl

theorem get?_pop : get? (pop t k) k' = if k = k' then none else get? t k' := by
  induction t with
  | nil => simp [pop, get?]
  | cons e t ih =>
    by_cases he : e.1 = k
    · have hpop : pop (e :: t) k = pop t k := by simp [pop, he]
      rw [hpop, ih, get?_cons]
      split
      · rfl
      · rename_i hk
        rw [if_neg (fun h => hk (he.symm.trans h))]
    · have hpop : pop (e :: t) k = e :: pop t k := by simp [pop, he]
      rw [hpop, get?_cons, ih, get?_cons]
      split
      · rename_i hk
        rw [if_neg (fun h => he (hk.trans h.symm))]
      · rfl

theorem mem_pop {e : κ × α} : e ∈ pop t k ↔ e ∈ t ∧ e.1 ≠ k := by
  simp [pop]

theorem mem_of_mem_set {e : κ × α} (h : e ∈ set t k v) : e = (k, v) ∨ e ∈ t := by
  induction t with
  | nil => exact .inl (List.mem_singleton.mp h)
  | cons e' t ih =>
    unfold set at h
    split at h
    · rcases List.mem_cons.mp h with rfl | h
      · exact .inl rfl
      · exact .inr (List.mem_cons_of_mem _ h)
    · rcases List.mem_cons.mp h with rfl | h
      · exact .inr List.mem_cons_self
      · rcases ih h with h | h
        · exact .inl h
        · exact .inr (List.mem_cons_of_mem _ h)

theorem keys_set : (set t k v).map Prod.fst =
    if k ∈ t.map Prod.fst then t.map Prod.fst else t.map Prod.fst ++ [k] := by
  induction t with
  | nil => rfl
  | cons e t ih =>
    unfold set
    split
    · rename_i he
      simp [he]
    · rename_i he
      simp only [List.map_cons, ih, List.mem_cons, Ne.symm he, false_or]
      split <;> rfl

theorem keys_pop : (pop t k).map Prod.fst = (t.map Prod.fst).filter (· ≠ k) := by
  rw [pop, List.filter_map]
  rfl

theorem mem_keys_of_get? (h : get? t k = some v) : k ∈ t.map Prod.fst :=
  List.mem_map_of_mem (mem_of_get? h)

theorem get?_eq_none (h : k ∉ t.map Prod.fst) : get? t k = none := by
  cases hv : get? t k with
  | none => rfl
  | some v => exact absurd (mem_keys_of_get? hv) h

theorem NodupKeys.set (h : NodupKeys t) : NodupKeys (set t k v) := by
  unfold NodupKeys
  rw [keys_set]
  split
  · exact h
  · rename_i hk
    exact List.nodup_append.mpr ⟨h, List.nodup_singleton _, fun a ha b hb hab =>
      hk (List.mem_singleton.mp hb ▸ hab ▸ ha)⟩

theorem set_of_get?_none (h : get? t k = none) : set t k v = t ++ [(k, v)] := by
  induction t with
  | nil => rfl
  | cons e t ih =>
    rw [get?_cons] at h
    split at h
    · cases h
    · rename_i he
      unfold set
      rw [if_neg he, ih h]
      rfl

theorem pop_of_notMem (h : k ∉ t.map Prod.fst) : pop t k = t := by
  refine List.filter_eq_self.mpr fun e he => decide_eq_true ?_
  intro hk
  exact h (hk ▸ List.mem_map_of_mem he)

theorem perm_pop (hk : NodupKeys t) (h : (k, v) ∈ t) : t.Perm ((k, v) :: pop t k) := by
  induction t with
  | nil => cases h
  | cons e t ih =>
    rw [NodupKeys, List.map_cons, List.nodup_cons] at hk
    rcases List.mem_cons.mp h with rfl | h
    · have hpop : pop ((k, v) :: t) k = pop t k := by simp [pop]
      rw [hpop, pop_of_notMem hk.1]
    · have hne : e.1 ≠ k := fun he => hk.1 (he ▸ List.mem_map_of_mem h)
      have hpop : pop (e :: t) k = e :: pop t k := by simp [pop, hne]
      rw [hpop]
      exact ((ih hk.2 h).cons e).trans (.swap _ _ _)

theorem NodupKeys.pop (h : NodupKeys t) : NodupKeys (pop t k) :=
  h.sublist (List.filter_sublist.map Prod.fst)

end Table

end Deadpool
