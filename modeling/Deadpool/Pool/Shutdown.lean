import Deadpool.Pool.Queue
import Mathlib.Algebra.Ring.Int.Defs

/-!
# `Deadpool.shutdown`: the closed flag and the sentinel

Embedding of `Deadpool.shutdown` and `cancel_all_futures_on_queue` of `deadpool/_pool.py`.  The
flag `closed` is set first; then the backlog is drained if `cancel_futures`; then the `None`
sentinel is put with a timeout.  `PriorityQueue.put` reports an expired timeout by raising
`queue.Full`, while the handler around it names `TimeoutError`.

The other threads enter through `ShutdownEnv`: what they do to the queue before every check the
waiting `put` makes, and how the part after the put ends.  What they do between two gets of the
drain is the same as doing it before the drain, so it is part of the backlog.

Principal result: `shutdown_marks_or_enqueues_iff` — a call ends with the pool open or the
sentinel enqueued exactly when the sentinel was there before, or no drained future's callback
lets an exception escape and some check of the put finds a free slot.
-/

set_option autoImplicit false

namespace Deadpool.Pool

/-- Exceptions that reach the caller of `shutdown`. -/
inductive Raised where
  | full
  | timeoutError
  | typeError
  | callback
  | other
  deriving DecidableEq, Repr

/-- `except TimeoutError`: `queue.Full` is an `Exception` of its own, not a timeout. -/
def Raised.isTimeoutError : Raised → Bool
  | .timeoutError => true
  | _ => false

inductive Outcome where
  | returned
  | raised (e : Raised)
  deriving DecidableEq, Repr

/-- The parts of a `Deadpool` that `shutdown` reads and writes. -/
structure PoolState where
  closed : Bool
  submittedJobs : PriorityQueue
  futs : Nat → Future
  submissionSequence : Nat

/-- What another thread does to the submit queue: a submitter that passed its closed check
puts a job (if there is room; otherwise it stays blocked), the runner takes an item. -/
inductive QueueOp where
  | put (priority : Int) (job : Job) (sequence : Nat)
  | get
  deriving DecidableEq, Repr

def QueueOp.apply (q : PriorityQueue) : QueueOp → PriorityQueue
  | .put p j n => if q.full then q else q.push ⟨p, some j, n⟩
  | .get => match q.get with
    | some (_, q') => q'
    | none => q

def applyOps (q : PriorityQueue) (ops : List QueueOp) : PriorityQueue := ops.foldl QueueOp.apply q

structure ShutdownEnv where
  /-- operations of other threads before the put's first look at the queue -/
  first : List QueueOp
  /-- operations before each later look; the timeout has passed at the last one -/
  later : List (List QueueOp)
  /-- how the part after the put ends -/
  tail : Outcome

/-- `cancel_all_futures_on_queue`; the bound is the queue length, which every get reduces. -/
def cancelAllFuturesOnQueue : Nat → PoolState → PoolState × Option Raised
  | 0, p => (p, none)
  | n + 1, p =>
    match p.submittedJobs.get with
    | none => (p, none)
    | some (x, q) =>
      let p := { p with submittedJobs := q.taskDone }
      match x.item with
      | none => (p, some .typeError)
      | some job =>
        let c := (p.futs job.fut).cancel
        let p := { p with futs := Function.update p.futs job.fut c.1 }
        match c.2 with
        | none => (p, some .callback)
        | some _ => cancelAllFuturesOnQueue n p

/-- `PriorityQueue.put` with a timeout. -/
def putTimeout (q : PriorityQueue) (x : PrioritizedItem) :
    List (List QueueOp) → PriorityQueue × Option Raised
  | [] => if q.full then (q, some .full) else (q.push x, none)
  | ops :: later =>
    if q.full then putTimeout (applyOps q ops) x later else (q.push x, none)

def sysMaxsize : Int := 2 ^ 63 - 1

/-- The put of the sentinel with its handler, and what follows it. -/
def putSentinel (p : PoolState) (wait : Bool) (env : ShutdownEnv) : PoolState × Outcome :=
  let shutdownPriority := if wait then sysMaxsize else -1
  let r := putTimeout (applyOps p.submittedJobs env.first)
    ⟨shutdownPriority, none, p.submissionSequence⟩ env.later
  let p := { p with submittedJobs := r.1, submissionSequence := p.submissionSequence + 1 }
  match r.2 with
  | some e => if e.isTimeoutError then (p, env.tail) else (p, .raised e)
  | none => (p, env.tail)

/-- `Deadpool.shutdown`. -/
def shutdown (p : PoolState) (wait cancelFutures : Bool) (env : ShutdownEnv) :
    PoolState × Outcome :=
  if p.closed then (p, .returned) else
  let p := { p with closed := true }
  if cancelFutures then
    match cancelAllFuturesOnQueue p.submittedJobs.items.length p with
    | (p, some e) => (p, .raised e)
    | (p, none) => putSentinel p wait env
  else putSentinel p wait env

/-- The pool is not marked closed, or a `None` sentinel was put on `submitted_jobs`. -/
def OpenOrSentinel (p : PoolState) : Prop := p.closed = false ∨ 0 < p.submittedJobs.sentinels

/-! ## The drain -/

/-- An item the drain can cancel without raising. -/
def Drainable (futs : Nat → Future) (x : PrioritizedItem) : Prop :=
  ∃ job, x.item = some job ∧ (futs job.fut).cancelEscapes = false

theorem Drainable.update {futs : Nat → Future} {x : PrioritizedItem} {k : Nat} {f : Future}
    (hk : (futs k).cancelEscapes = false) (hf : f.cancelEscapes = false) :
    Drainable (Function.update futs k f) x ↔ Drainable futs x := by
  unfold Drainable
  constructor <;> rintro ⟨job, hx, h⟩ <;> refine ⟨job, hx, ?_⟩ <;> by_cases he : job.fut = k
  · rw [he]; exact hk
  · rwa [Function.update_of_ne he] at h
  · rw [he, Function.update_self]; exact hf
  · rwa [Function.update_of_ne he]

/-- The drain ends with `queue.Empty` exactly when every item is drainable, and then nothing
is left; it never puts an item or touches `closed`. -/
theorem cancelAllFuturesOnQueue_spec :
    ∀ (n : Nat) (p : PoolState), p.submittedJobs.items.length ≤ n →
      ((cancelAllFuturesOnQueue n p).2 = none ↔
        ∀ x ∈ p.submittedJobs.items, Drainable p.futs x) ∧
      ((cancelAllFuturesOnQueue n p).2 = none →
        (cancelAllFuturesOnQueue n p).1.submittedJobs.items = []) ∧
      (cancelAllFuturesOnQueue n p).1.submittedJobs.sentinels = p.submittedJobs.sentinels ∧
      (cancelAllFuturesOnQueue n p).1.submittedJobs.maxsize = p.submittedJobs.maxsize ∧
      (cancelAllFuturesOnQueue n p).1.closed = p.closed
  | 0, p, h => by
    have : p.submittedJobs.items = [] := List.length_eq_zero_iff.mp (by omega)
    simp [cancelAllFuturesOnQueue, this]
  | n + 1, p, h => by
    simp only [cancelAllFuturesOnQueue]
    split
    · rename_i hg
      simp [PriorityQueue.get_eq_none.mp hg]
    · rename_i x q hg
      obtain ⟨hperm, hmax, hsent⟩ := PriorityQueue.get_spec hg
      have hlen := hperm.length_eq
      have hmem : ∀ {P : PrioritizedItem → Prop},
          (∀ y ∈ p.submittedJobs.items, P y) ↔ P x ∧ ∀ y ∈ q.items, P y := by
        intro P
        simp only [hperm.mem_iff, List.forall_mem_cons]
      simp only [hmem]
      split
      · rename_i hnone
        simp [Drainable, hnone, hmax, hsent]
      · rename_i job hjob
        split
        · rename_i hc
          have := Future.cancel_none.mp hc
          simp [Drainable, hjob, this, hmax, hsent]
        · rename_i b hc
          have hesc : (p.futs job.fut).cancelEscapes = false := by
            rw [← Bool.not_eq_true, ← Future.cancel_none, hc]; simp
          have ih := cancelAllFuturesOnQueue_spec n
            { p with
              submittedJobs := q.taskDone
              futs := Function.update p.futs job.fut (p.futs job.fut).cancel.1 }
            (by simp only [List.length_cons] at hlen; simp; omega)
          simp only [Drainable.update hesc (Future.cancelEscapes_cancel _),
            PriorityQueue.taskDone_items, PriorityQueue.taskDone_sentinels,
            PriorityQueue.taskDone_maxsize] at ih
          obtain ⟨h1, h2, h3, h4, h5⟩ := ih
          refine ⟨?_, h2, h3.trans hsent, h4.trans hmax, h5⟩
          rw [h1]
          exact ⟨fun h => ⟨⟨job, hjob, hesc⟩, h⟩, fun h => h.2⟩

/-! ## The put with a timeout -/

theorem apply_sentinels (q : PriorityQueue) (op : QueueOp) :
    (op.apply q).sentinels = q.sentinels := by
  cases op with
  | put p j n => simp only [QueueOp.apply]; split <;> simp
  | get =>
    simp only [QueueOp.apply]
    split
    · rename_i hg; exact (PriorityQueue.get_spec hg).2.2
    · rfl

theorem applyOps_sentinels (ops : List QueueOp) :
    ∀ q : PriorityQueue, (applyOps q ops).sentinels = q.sentinels := by
  induction ops with
  | nil => intro q; rfl
  | cons op ops ih => intro q; exact (ih _).trans (apply_sentinels q op)

theorem applyOps_append (q : PriorityQueue) (a b : List QueueOp) :
    applyOps q (a ++ b) = applyOps (applyOps q a) b := List.foldl_append ..

/-- The put succeeds exactly when one of its looks at the queue finds a free slot; it then
puts the item once, and otherwise raises `queue.Full` and puts nothing. -/
theorem putTimeout_spec (x : PrioritizedItem) (hx : x.item = none) :
    ∀ (later : List (List QueueOp)) (q : PriorityQueue),
      ((putTimeout q x later).2 = none ↔
        ∃ k ≤ later.length, (applyOps q (later.take k).flatten).full = false) ∧
      ((putTimeout q x later).2 = none →
        (putTimeout q x later).1.sentinels = q.sentinels + 1) ∧
      ((putTimeout q x later).2 ≠ none →
        (putTimeout q x later).2 = some .full ∧ (putTimeout q x later).1.sentinels = q.sentinels) := by
  obtain ⟨pr, _, sq⟩ := x
  subst hx
  intro later
  induction later with
  | nil =>
    intro q
    unfold putTimeout
    split <;> rename_i hf <;> simp [applyOps, hf]
  | cons ops later ih =>
    intro q
    unfold putTimeout
    split
    · rename_i hf
      obtain ⟨h1, h2, h3⟩ := ih (applyOps q ops)
      rw [applyOps_sentinels] at h2 h3
      refine ⟨h1.trans ⟨?_, ?_⟩, h2, h3⟩
      · rintro ⟨k, hk, hfree⟩
        refine ⟨k + 1, by simpa using hk, ?_⟩
        rwa [List.take_succ_cons, List.flatten_cons, applyOps_append]
      · rintro ⟨k, hk, hfree⟩
        cases k with
        | zero => simp [applyOps, hf] at hfree
        | succ k =>
          rw [List.take_succ_cons, List.flatten_cons, applyOps_append] at hfree
          exact ⟨k, by simpa using hk, hfree⟩
    · rename_i hf
      refine ⟨⟨fun _ => ⟨0, by simp, by simpa [applyOps] using hf⟩, fun _ => rfl⟩, ?_, ?_⟩ <;> simp

/-! ## The whole call -/

/-- The backlog the put sees first, apart from what other threads do: drained or untouched. -/
def backlogAtPut (p : PoolState) (cancelFutures : Bool) : PriorityQueue :=
  if cancelFutures then { p.submittedJobs with items := [] } else p.submittedJobs

/-- At one of its looks the put finds a free slot. -/
def SlotFrees (q : PriorityQueue) (env : ShutdownEnv) : Prop :=
  ∃ k ≤ env.later.length, (applyOps q (env.first ++ (env.later.take k).flatten)).full = false

/-- Whether a queue is full depends on its bound and its items only, also after operations. -/
theorem full_congr {q q' : PriorityQueue} (hm : q.maxsize = q'.maxsize)
    (hi : q.items = q'.items) : q.full = q'.full := by
  simp [PriorityQueue.full, hm, hi]

theorem apply_congr {q q' : PriorityQueue} (hm : q.maxsize = q'.maxsize) (hi : q.items = q'.items)
    (op : QueueOp) :
    (op.apply q).maxsize = (op.apply q').maxsize ∧ (op.apply q).items = (op.apply q').items := by
  cases op with
  | put p j n =>
    simp only [QueueOp.apply, full_congr hm hi]
    split <;> simp [PriorityQueue.push, hm, hi]
  | get =>
    simp only [QueueOp.apply, PriorityQueue.get, hi]
    cases popLeast q'.items <;> simp [hm, hi]

theorem applyOps_full_congr (ops : List QueueOp) :
    ∀ {q : PriorityQueue} (r : PriorityQueue), q.maxsize = r.maxsize → q.items = r.items →
      (applyOps q ops).full = (applyOps r ops).full := by
  induction ops with
  | nil => intro q r hm hi; exact full_congr hm hi
  | cons op ops ih =>
    intro q r hm hi
    obtain ⟨h1, h2⟩ := apply_congr hm hi op
    exact ih _ h1 h2

theorem putSentinel_iff (p : PoolState) (wait : Bool) (env : ShutdownEnv)
    (hclosed : p.closed = true) :
    OpenOrSentinel (putSentinel p wait env).1 ↔
      0 < p.submittedJobs.sentinels ∨ SlotFrees p.submittedJobs env := by
  obtain ⟨h1, h2, h3⟩ := putTimeout_spec
    ⟨if wait then sysMaxsize else -1, none, p.submissionSequence⟩ rfl env.later
    (applyOps p.submittedJobs env.first)
  rw [applyOps_sentinels] at h2 h3
  simp only [SlotFrees, applyOps_append, ← h1, putSentinel]
  generalize putTimeout (applyOps p.submittedJobs env.first)
    ⟨if wait then sysMaxsize else -1, none, p.submissionSequence⟩ env.later = r at h2 h3 ⊢
  cases hr : r.2 with
  | none => simp [OpenOrSentinel, hclosed, h2 hr]
  | some e =>
    obtain ⟨hfull, hsent⟩ := h3 (by simp [hr])
    rw [hr] at hfull
    cases hfull
    simp [OpenOrSentinel, hclosed, hsent, Raised.isTimeoutError]

/-- **When a shutdown leaves the pool stoppable.**  For every backlog bound, backlog, flag
combination and behaviour of the other threads, the call ends with the pool open or with a
sentinel on the queue if and only if an earlier call had put one, or the pool was open, the
drain (if asked for) meets no escaping callback, and the waiting put finds a free slot before
its timeout. -/
theorem shutdown_marks_or_enqueues_iff (p : PoolState) (wait cancelFutures : Bool)
    (env : ShutdownEnv) :
    OpenOrSentinel (shutdown p wait cancelFutures env).1 ↔
      0 < p.submittedJobs.sentinels ∨
        (p.closed = false ∧
          (cancelFutures = true → ∀ x ∈ p.submittedJobs.items, Drainable p.futs x) ∧
          SlotFrees (backlogAtPut p cancelFutures) env) := by
  unfold shutdown
  cases hc : p.closed with
  | true => simp [OpenOrSentinel, hc]
  | false =>
    cases cancelFutures with
    | false => simp [putSentinel_iff { p with closed := true } wait env rfl, backlogAtPut]
    | true =>
      obtain ⟨h1, h2, h3, h4, h5⟩ := cancelAllFuturesOnQueue_spec p.submittedJobs.items.length
        { p with closed := true } (Nat.le_refl _)
      simp only [Bool.false_eq_true, ↓reduceIte, true_and, forall_const]
      generalize cancelAllFuturesOnQueue p.submittedJobs.items.length { p with closed := true } = d
        at h1 h2 h3 h4 h5 ⊢
      obtain ⟨p', e⟩ := d
      simp only at h1 h2 h3 h4 h5
      cases e with
      | some e =>
        have hnot : ¬ ∀ x ∈ p.submittedJobs.items, Drainable p.futs x := by
          rw [← h1]; simp
        simp [OpenOrSentinel, h5, h3, hnot]
      | none =>
        have hdrained := h1.mp rfl
        have hslot : SlotFrees p'.submittedJobs env ↔ SlotFrees (backlogAtPut p true) env := by
          simp only [SlotFrees, backlogAtPut, ↓reduceIte]
          refine exists_congr fun k => and_congr_right fun _ => ?_
          rw [applyOps_full_congr _ { p.submittedJobs with items := [] } h4 (h2 rfl)]
        rw [putSentinel_iff p' wait env h5, h3, hslot]
        exact or_congr_right ⟨fun h => ⟨hdrained, h⟩, fun h => h.2⟩

/-- A full backlog of one job, and no other thread that makes room while the put waits. -/
def fullBacklog : PoolState where
  closed := false
  submittedJobs := ⟨1, [⟨0, some ⟨0⟩, 0⟩], 1, 0⟩
  futs := fun _ => ⟨.pending, false⟩
  submissionSequence := 1

/-- **A shutdown that only half happens**: with the queue full for the whole timeout the call
raises `queue.Full`, `closed` is set and no sentinel was put; the next call returns at once. -/
theorem shutdown_full_backlog_closed_without_sentinel :
    let r := shutdown fullBacklog true false ⟨[], [[]], .returned⟩
    r.2 = .raised .full ∧ r.1.closed = true ∧ ¬ OpenOrSentinel r.1 ∧
      ¬ OpenOrSentinel (shutdown r.1 true true ⟨[], [], .returned⟩).1 := by
  simp [OpenOrSentinel, shutdown, putSentinel, putTimeout, applyOps, fullBacklog,
    PriorityQueue.full, Raised.isTimeoutError]

end Deadpool.Pool
