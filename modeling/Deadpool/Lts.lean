import Mathlib.Logic.Relation

/-!
# Labelled transition systems with an executable step function

A concurrent program is modelled by one state and one partial step function: a label names
the thread that moves together with everything the environment decides in that step (a clock
reading, an I/O result, a signal).  A schedule is a list of labels, so quantifying over label
lists quantifies over all interleavings.

* `System.run`        : execute a schedule, `none` as soon as a label is not enabled;
* `System.Reach C`    : the states reached by runs all of whose steps meet `C`;
* `Reach.invariant`   : the induction principle for invariants of such runs;
* `Reach.project`     : a part of a system that takes its own steps is in a state it reaches alone;
* `Reach.of_run`, `Reach.of_runWhile` : a concrete schedule yields a reached state.

The relation `C : S → L → Prop` reads the state before the step and the label.  `fun _ _ =>
True` gives the ordinary reachable states.
-/

set_option autoImplicit false

namespace Deadpool.Lts

variable {S L : Type}

/-- A transition system: an initial state and a partial step function. -/
structure System (S L : Type) where
  init : S
  step : S → L → Option S

namespace System

variable (M : System S L)

/-- Execute a schedule from a state. -/
def run (s : S) : List L → Option S
  | [] => some s
  | l :: ls => (M.step s l).bind fun s' => run s' ls

theorem run_append (s : S) (ls ls' : List L) :
    M.run s (ls ++ ls') = (M.run s ls).bind fun t => M.run t ls' := by
  induction ls generalizing s with
  | nil => rfl
  | cons l ls ih =>
    simp only [List.cons_append, run, Option.bind_assoc]
    congr 1
    funext t
    exact ih t

/-- Execute a schedule, stopping at a step that fails the test `p`. -/
def runWhile (p : S → L → Bool) (s : S) : List L → Option S
  | [] => some s
  | l :: ls => if p s l then (M.step s l).bind fun s' => runWhile p s' ls else none

/-- States reached from the initial one by steps that all meet `C`. -/
inductive Reach (C : S → L → Prop) : S → Prop
  | init : Reach C M.init
  | step {s s' : S} {l : L} : Reach C s → C s l → M.step s l = some s' → Reach C s'

/-- The states of unrestricted runs. -/
abbrev Reachable (s : S) : Prop := M.Reach (fun _ _ => True) s

variable {M} {C : S → L → Prop}

/-- **Invariant rule**: what holds initially and is kept by every step meeting `C` holds in
every state that runs meeting `C` reach.  The step premise may use that the state before the
step is itself reached. -/
theorem Reach.invariant {I : S → Prop} (hinit : I M.init)
    (hstep : ∀ s l s', M.Reach C s → I s → C s l → M.step s l = some s' → I s') :
    ∀ {s}, M.Reach C s → I s := by
  intro s h
  induction h with
  | init => exact hinit
  | step hr hc hs ih => exact hstep _ _ _ hr ih hc hs

theorem Reach.mono {D : S → L → Prop} (hCD : ∀ s l, C s l → D s l) {s : S} (h : M.Reach C s) :
    M.Reach D s := by
  induction h with
  | init => exact .init
  | step _ hc hs ih => exact .step ih (hCD _ _ hc) hs

theorem Reach.reachable {s : S} (h : M.Reach C s) : M.Reachable s :=
  h.mono fun _ _ _ => trivial

/-- **Projection rule**: if every step either leaves a part of the state alone or is a step of the
system that this part forms, the part is always in a state which that system reaches. -/
theorem Reach.project {S' L' : Type} {N : System S' L'} (part : S → S') (hinit : part M.init = N.init)
    (hstep : ∀ s l s', C s l → M.step s l = some s' →
      part s' = part s ∨ ∃ l', N.step (part s) l' = some (part s')) {s : S} (h : M.Reach C s) :
    N.Reachable (part s) := by
  induction h with
  | init =>
    rw [hinit]
    exact .init
  | @step s s' l _ hc hs ih =>
    rcases hstep s l s' hc hs with hsame | ⟨l', hl⟩
    · rw [hsame]
      exact ih
    · exact .step ih trivial hl

/-- A schedule executed from a reached state reaches its last state. -/
theorem Reach.of_run {s t : S} (hs : M.Reachable s) :
    ∀ {ls : List L}, M.run s ls = some t → M.Reachable t := by
  intro ls
  induction ls generalizing s with
  | nil => intro h; cases h; exact hs
  | cons l ls ih =>
    intro h
    simp only [run, Option.bind_eq_some_iff] at h
    obtain ⟨u, hu, ht⟩ := h
    exact ih (.step hs trivial hu) ht

/-- A schedule whose steps all pass a test reaches its last state under that test. -/
theorem Reach.of_runWhile {p : S → L → Bool} {s t : S}
    (hs : M.Reach (fun s l => p s l = true) s) :
    ∀ ls : List L, M.runWhile p s ls = some t → M.Reach (fun s l => p s l = true) t := by
  intro ls
  induction ls generalizing s with
  | nil => intro h; cases h; exact hs
  | cons l ls ih =>
    intro h
    simp only [runWhile] at h
    split at h
    · rename_i hp
      rw [Option.bind_eq_some_iff] at h
      obtain ⟨u, hu, ht⟩ := h
      exact ih (.step hs hp hu) ht
    · cases h

theorem run_of_runWhile {p : S → L → Bool} {s t : S} :
    ∀ ls : List L, M.runWhile p s ls = some t → M.run s ls = some t := by
  intro ls
  induction ls generalizing s with
  | nil => exact id
  | cons l ls ih =>
    intro h
    simp only [runWhile] at h
    split at h
    · obtain ⟨u, hu, ht⟩ := Option.bind_eq_some_iff.mp h
      exact Option.bind_eq_some_iff.mpr ⟨u, hu, ih ht⟩
    · cases h

theorem reachable_of_run {ls : List L} {t : S} (h : M.run M.init ls = some t) : M.Reachable t :=
  Reach.init.of_run h

end System

end Deadpool.Lts
