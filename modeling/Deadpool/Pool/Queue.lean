import Mathlib.Data.List.Perm.Basic

/-!
# The submit queue of a local pool and the futures on it

Embedding of the parts of `queue.PriorityQueue` and `concurrent.futures.Future` that
`deadpool/_pool.py` relies on:

* `PrioritizedItem` — ordered by `(priority, sequence)`; its `item` is a job or the `None`
  sentinel that stops the runner;
* `PriorityQueue`   — a bounded queue (`maxsize ≤ 0` means unbounded) that hands out its least
  item and counts unfinished tasks;
* `Future`          — the state of a future and whether one of its done-callbacks lets an
  exception escape (`concurrent.futures` swallows `Exception` only, not `BaseException`).
-/

set_option autoImplicit false

namespace Deadpool.Pool

/-! ## Futures -/

/-- States of `concurrent.futures.Future`. -/
inductive FutureState where
  | pending
  | running
  | cancelled
  | cancelledAndNotified
  | finished
  deriving DecidableEq, Repr

/-- `Future.done`. -/
def FutureState.done : FutureState → Bool
  | .pending | .running => false
  | .cancelled | .cancelledAndNotified | .finished => true

structure Future where
  state : FutureState
  /-- a registered done-callback raises something that is not an `Exception` -/
  callbackEscapes : Bool
  deriving DecidableEq, Repr

/-- `Future.cancel`: the new future, and the result or `none` if a callback's exception escapes. -/
def Future.cancel (f : Future) : Future × Option Bool :=
  match f.state with
  | .running | .finished => (f, some false)
  | .cancelled | .cancelledAndNotified => (f, some true)
  | .pending => ({ f with state := .cancelled }, if f.callbackEscapes then none else some true)

/-- Cancelling raises exactly when a pending future has an escaping callback. -/
def Future.cancelEscapes (f : Future) : Bool := f.state == .pending && f.callbackEscapes

theorem Future.cancel_none {f : Future} : f.cancel.2 = none ↔ f.cancelEscapes = true := by
  obtain ⟨st, cb⟩ := f
  cases st <;> cases cb <;> decide

theorem Future.cancelEscapes_cancel (f : Future) : f.cancel.1.cancelEscapes = false := by
  obtain ⟨st, cb⟩ := f
  cases st <;> cases cb <;> rfl

/-! ## Items -/

/-- A job as queued by `_submit_future`; the callable and its arguments play no role in the
queue, so a job is known by its future. -/
structure Job where
  fut : Nat
  deriving DecidableEq, Repr

/-- `PrioritizedItem`; `item = none` is the shutdown sentinel. -/
structure PrioritizedItem where
  priority : Int
  item : Option Job
  sequence : Nat
  deriving DecidableEq, Repr

/-- The order of `@dataclass(order=True)` with `item` excluded from comparison. -/
def PrioritizedItem.lt (a b : PrioritizedItem) : Bool :=
  a.priority < b.priority || (a.priority == b.priority && a.sequence < b.sequence)

/-- The least item and the others. -/
def popLeast : List PrioritizedItem → Option (PrioritizedItem × List PrioritizedItem)
  | [] => none
  | x :: xs =>
    match popLeast xs with
    | none => some (x, [])
    | some (y, ys) => if y.lt x then some (y, x :: ys) else some (x, xs)

theorem popLeast_eq_none {l : List PrioritizedItem} : popLeast l = none ↔ l = [] := by
  cases l with
  | nil => simp [popLeast]
  | cons x xs =>
    simp only [popLeast]
    split
    · simp
    · split <;> simp

theorem popLeast_perm :
    ∀ {l rest : List PrioritizedItem} {x : PrioritizedItem}, popLeast l = some (x, rest) →
      l.Perm (x :: rest)
  | [], _, _, h => by cases h
  | a :: as, rest, x, h => by
    simp only [popLeast] at h
    split at h
    · rename_i hn
      cases h
      rw [popLeast_eq_none.mp hn]
    · rename_i y ys hs
      split at h
      · cases h
        exact ((popLeast_perm hs).cons a).trans (.swap ..)
      · cases h
        exact .refl _

theorem PrioritizedItem.lt_trans {a b c : PrioritizedItem} (hab : a.lt b = true)
    (hbc : b.lt c = true) : a.lt c = true := by
  simp only [PrioritizedItem.lt, Bool.or_eq_true, Bool.and_eq_true, decide_eq_true_eq,
    beq_iff_eq] at *
  omega

theorem PrioritizedItem.lt_of_not_lt {a b c : PrioritizedItem} (hba : b.lt a = false)
    (hbc : b.lt c = true) : a.lt c = true := by
  simp only [PrioritizedItem.lt, Bool.or_eq_true, Bool.and_eq_true, decide_eq_true_eq,
    beq_iff_eq, Bool.or_eq_false_iff, Bool.and_eq_false_iff, decide_eq_false_iff_not,
    beq_eq_false_iff_ne] at *
  omega

/-- The popped item is a least one. -/
theorem popLeast_least :
    ∀ {l rest : List PrioritizedItem} {x : PrioritizedItem}, popLeast l = some (x, rest) →
      ∀ y ∈ rest, y.lt x = false
  | [], _, _, h => by cases h
  | a :: as, rest, x, h => by
    simp only [popLeast] at h
    split at h
    · cases h
      simp
    · rename_i m ms hm
      have hleast := popLeast_least hm
      have hperm := popLeast_perm hm
      split at h
      · rename_i hlt
        cases h
        intro y hy
        rcases List.mem_cons.mp hy with rfl | hy
        · rw [← Bool.not_eq_true]
          intro hya
          have := PrioritizedItem.lt_trans hlt hya
          simp [PrioritizedItem.lt] at this
        · exact hleast y hy
      · rename_i hnot
        cases h
        intro y hy
        rw [← Bool.not_eq_true]
        intro hya
        rcases List.mem_cons.mp (hperm.mem_iff.mp hy) with rfl | hy
        · exact hnot hya
        · exact hnot (PrioritizedItem.lt_of_not_lt (hleast y hy) hya)

/-! ## The bounded queue -/

structure PriorityQueue where
  maxsize : Int
  items : List PrioritizedItem
  unfinished : Nat
  /-- how many `None` sentinels were ever put on the queue -/
  sentinels : Nat
  deriving Repr

namespace PriorityQueue

/-- The test `put` makes before it inserts. -/
def full (q : PriorityQueue) : Bool := 0 < q.maxsize && q.maxsize ≤ q.items.length

def push (q : PriorityQueue) (x : PrioritizedItem) : PriorityQueue :=
  { q with
    items := x :: q.items
    unfinished := q.unfinished + 1
    sentinels := if x.item.isNone then q.sentinels + 1 else q.sentinels }

/-- `get_nowait`; `none` is `queue.Empty`. -/
def get (q : PriorityQueue) : Option (PrioritizedItem × PriorityQueue) :=
  (popLeast q.items).map fun p => (p.1, { q with items := p.2 })

def taskDone (q : PriorityQueue) : PriorityQueue := { q with unfinished := q.unfinished - 1 }

@[simp] theorem push_sentinels_none (q : PriorityQueue) (p : Int) (n : Nat) :
    (q.push ⟨p, none, n⟩).sentinels = q.sentinels + 1 := rfl

@[simp] theorem push_sentinels_job (q : PriorityQueue) (p : Int) (j : Job) (n : Nat) :
    (q.push ⟨p, some j, n⟩).sentinels = q.sentinels := rfl

@[simp] theorem taskDone_items (q : PriorityQueue) : q.taskDone.items = q.items := rfl
@[simp] theorem taskDone_maxsize (q : PriorityQueue) : q.taskDone.maxsize = q.maxsize := rfl
@[simp] theorem taskDone_sentinels (q : PriorityQueue) : q.taskDone.sentinels = q.sentinels := rfl

theorem get_spec {q q' : PriorityQueue} {x : PrioritizedItem} (h : q.get = some (x, q')) :
    q.items.Perm (x :: q'.items) ∧ q'.maxsize = q.maxsize ∧ q'.sentinels = q.sentinels := by
  unfold get at h
  cases hp : popLeast q.items with
  | none => rw [hp] at h; cases h
  | some p =>
    rw [hp] at h
    simp only [Option.map_some, Option.some.injEq, Prod.mk.injEq] at h
    obtain ⟨rfl, rfl⟩ := h
    exact ⟨popLeast_perm hp, rfl, rfl⟩

theorem get_unfinished {q q' : PriorityQueue} {x : PrioritizedItem} (h : q.get = some (x, q')) :
    q'.unfinished = q.unfinished := by
  unfold get at h
  obtain ⟨p, -, hp⟩ := Option.map_eq_some_iff.mp h
  cases hp
  rfl

/-- `get` hands out a least item. -/
theorem get_least {q q' : PriorityQueue} {x : PrioritizedItem} (h : q.get = some (x, q')) :
    ∀ y ∈ q'.items, y.lt x = false := by
  unfold get at h
  cases hp : popLeast q.items with
  | none => rw [hp] at h; cases h
  | some p =>
    rw [hp] at h
    simp only [Option.map_some, Option.some.injEq, Prod.mk.injEq] at h
    obtain ⟨rfl, rfl⟩ := h
    exact popLeast_least hp

theorem get_eq_none {q : PriorityQueue} : q.get = none ↔ q.items = [] := by
  simp [get, popLeast_eq_none]

end PriorityQueue

end Deadpool.Pool
