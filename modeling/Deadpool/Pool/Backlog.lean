import Deadpool.Lookup
import Deadpool.Lts
import Deadpool.Pool.Shutdown

/-!
# Submitters, shutdowns and the runner around one queue

`Deadpool.submit`, `_submit_future`, `shutdown` and `runner` of `deadpool/_pool.py` as threads.  Any
number of submit and shutdown calls run at once; each test of `closed`, each queue operation and each
turn of a drain is a step of its own.  The job taken by one turn of `cancel_all_futures_on_queue` is
visible to nobody else before its future is cancelled, so a turn is one step.

Of a `run_task` thread only what it does to its future, to the unfinished count and to its slot of
`running_jobs` matters here.

Principal result: `no_stranded_jobs` — in every run in which no job is put after the runner has left,
no drain meets a sentinel or an escaping callback, and no put of a sentinel times out, the runner never
leaves, nor waits for a sentinel that cannot come, while the queue holds a job with an open future;
every returned future is launched, cancelled, or still on its way to a runner that runs.
-/

set_option autoImplicit false

namespace Deadpool.Pool.Backlog

/-- Where a call of `submit` stands; the second test of `closed` is the one of `_submit_future`. -/
inductive SubmitPc where
  | entered
  | checked
  | admitted
  | putting (sequence : Nat)
  | returned
  | raised
  deriving DecidableEq, Repr

structure Submit where
  priority : Int
  block : Bool
  pc : SubmitPc
  deriving DecidableEq, Repr

inductive ShutdownPc where
  | entered
  /-- `closed` was false, before it is set -/
  | passed
  | draining
  | drained
  | putting (sequence : Nat)
  /-- the sentinel is on the queue -/
  | stopping
  | returned
  | raised (e : Raised)
  deriving DecidableEq, Repr

/-- The call will still put its sentinel. -/
def ShutdownPc.pending : ShutdownPc → Bool
  | .draining | .drained | .putting _ => true
  | _ => false

structure Shutdown where
  wait : Bool
  cancelFutures : Bool
  pc : ShutdownPc
  deriving DecidableEq, Repr

inductive Runner where
  /-- before `running_jobs.put(None)` -/
  | looping
  /-- before `submitted_jobs.get()` -/
  | getting
  /-- before the test `fut.done()` -/
  | holding (job : Job)
  /-- before the thread is started -/
  | starting (job : Job)
  /-- a sentinel was taken -/
  | draining
  | exited (e : Option Raised)
  deriving DecidableEq, Repr

def Runner.gone : Runner → Bool
  | .exited _ => true
  | _ => false

/-- The runner has not taken a sentinel. -/
def Runner.inLoop : Runner → Bool
  | .draining | .exited _ => false
  | _ => true

/-- The job in the runner's hands. -/
def Runner.job : Runner → Option Job
  | .holding j | .starting j => some j
  | _ => none

/-- A thread of `run_task`. -/
structure Task where
  job : Job
  live : Bool
  deriving DecidableEq, Repr

structure State where
  closed : Bool
  submittedJobs : PriorityQueue
  futs : Nat → Future
  submissionSequence : Nat
  runningJobs : Nat
  runner : Runner
  /-- the future of a call is known by the call's number -/
  submits : List Submit
  shutdowns : List Shutdown
  tasks : List Task

inductive Label where
  -- a call of `submit`, or of `_submit_future` by the broker with `block=False`
  | submit (priority : Int) (block : Bool)
  | check (k : Nat)
  | draw (k : Nat)
  | put (k : Nat)
  -- a call of `shutdown`
  | shutdown (wait cancelFutures : Bool)
  | pass (k : Nat)
  | close (k : Nat)
  | drain (k : Nat)
  | drawSentinel (k : Nat)
  | putSentinel (k : Nat)
  | timeOut (k : Nat)
  | stop (k i : Nat)
  | join (k : Nat)
  -- the runner
  | slot
  | get
  | look
  | launch
  | runnerDrain
  -- a thread of `run_task`
  | settle (i : Nat)
  | finish (i : Nat)
  -- the user
  | cancel (f : Nat)
  | addCallback (f : Nat)
  deriving DecidableEq, Repr

/-- `fut.cancel()` -/
def State.cancelFuture (s : State) (f : Nat) : State × Option Bool :=
  let c := (s.futs f).cancel
  ({ s with futs := Function.update s.futs f c.1 }, c.2)

/-- How one turn of `cancel_all_futures_on_queue` ends. -/
inductive Turn where
  | again
  | empty
  | raised (e : Raised)

/-- One turn of `cancel_all_futures_on_queue`. -/
def State.drainTurn (s : State) : State × Turn :=
  match s.submittedJobs.get with
  | none => (s, .empty)
  | some (x, q) =>
    let s := { s with submittedJobs := q.taskDone }
    match x.item with
    | none => (s, .raised .typeError)
    | some job =>
      match s.cancelFuture job.fut with
      | (s, none) => (s, .raised .callback)
      | (s, some _) => (s, .again)

def State.setSubmit (s : State) (k : Nat) (pc : SubmitPc) : State :=
  { s with submits := s.submits.modify k fun c => { c with pc } }

def State.setShutdown (s : State) (k : Nat) (pc : ShutdownPc) : State :=
  { s with shutdowns := s.shutdowns.modify k fun c => { c with pc } }

/-- Steps of the calls of `submit`. -/
def submitStep (s : State) : Label → Option State
  | .submit priority block =>
    some { s with submits := s.submits ++ [⟨priority, block, if block then .entered else .checked⟩] }
  | .check k =>
    match s.submits[k]? with
    | none => none
    | some c =>
      match c.pc with
      | .entered => some (s.setSubmit k (if c.priority < 0 || s.closed then .raised else .checked))
      | .checked => some (s.setSubmit k (if s.closed then .raised else .admitted))
      | _ => none
  | .draw k =>
    match s.submits[k]? with
    | none => none
    | some c =>
      match c.pc with
      | .admitted =>
        some ({ s with submissionSequence := s.submissionSequence + 1 }.setSubmit k
          (.putting s.submissionSequence))
      | _ => none
  | .put k =>
    match s.submits[k]? with
    | none => none
    | some c =>
      match c.pc with
      | .putting n =>
        if s.submittedJobs.full then if c.block then none else some (s.setSubmit k .raised)
        else
          some ({ s with submittedJobs := s.submittedJobs.push ⟨c.priority, some ⟨k⟩, n⟩ }.setSubmit k
            .returned)
      | _ => none
  | _ => none

/-- Steps of the calls of `shutdown`. -/
def shutdownStep (s : State) : Label → Option State
  | .shutdown wait cancelFutures =>
    some { s with shutdowns := s.shutdowns ++ [⟨wait, cancelFutures, .entered⟩] }
  | .pass k =>
    match s.shutdowns[k]? with
    | some ⟨_, _, .entered⟩ => some (s.setShutdown k (if s.closed then .returned else .passed))
    | _ => none
  | .close k =>
    match s.shutdowns[k]? with
    | some ⟨_, cancelFutures, .passed⟩ =>
      some ({ s with closed := true }.setShutdown k (if cancelFutures then .draining else .drained))
    | _ => none
  | .drain k =>
    match s.shutdowns[k]? with
    | some ⟨_, _, .draining⟩ =>
      match s.drainTurn with
      | (s, .again) => some s
      | (s, .empty) => some (s.setShutdown k .drained)
      | (s, .raised e) => some (s.setShutdown k (.raised e))
    | _ => none
  | .drawSentinel k =>
    match s.shutdowns[k]? with
    | some ⟨_, _, .drained⟩ =>
      some ({ s with submissionSequence := s.submissionSequence + 1 }.setShutdown k
        (.putting s.submissionSequence))
    | _ => none
  | .putSentinel k =>
    match s.shutdowns[k]? with
    | some ⟨wait, _, .putting n⟩ =>
      if s.submittedJobs.full then none
      else
        let shutdownPriority := if wait then sysMaxsize else -1
        some ({ s with submittedJobs := s.submittedJobs.push ⟨shutdownPriority, none, n⟩ }.setShutdown k
          .stopping)
    | _ => none
  -- `queue.Full`, which the handler does not name
  | .timeOut k =>
    match s.shutdowns[k]? with
    | some ⟨_, _, .putting _⟩ =>
      if s.submittedJobs.full then some (s.setShutdown k (.raised .full)) else none
    | _ => none
  -- `cancel_and_kill_if_running` of a running future
  | .stop k i =>
    match s.shutdowns[k]?, s.tasks[i]? with
    | some ⟨false, true, .stopping⟩, some task =>
      match s.cancelFuture task.job.fut with
      | (s, none) => some (s.setShutdown k (.raised .callback))
      | (s, some _) => some s
    | _, _ => none
  | .join k =>
    match s.shutdowns[k]? with
    | some ⟨_, _, .stopping⟩ =>
      if s.submittedJobs.unfinished = 0 then some (s.setShutdown k .returned) else none
    | _ => none
  | _ => none

/-- Steps of the runner, of `run_task` and of the user. -/
def runnerStep (poolSize : Nat) (s : State) : Label → Option State
  | .slot =>
    match s.runner with
    | .looping =>
      if s.runningJobs < poolSize then
        some { s with runner := .getting, runningJobs := s.runningJobs + 1 }
      else none
    | _ => none
  | .get =>
    match s.runner, s.submittedJobs.get with
    | .getting, some (x, q) =>
      match x.item with
      | none =>
        some { s with
          submittedJobs := q.taskDone, runner := .draining, runningJobs := s.runningJobs - 1 }
      | some job => some { s with submittedJobs := q, runner := .holding job }
    | _, _ => none
  | .look =>
    match s.runner with
    | .holding job =>
      if (s.futs job.fut).state.done then
        some { s with
          submittedJobs := s.submittedJobs.taskDone
          runner := .looping
          runningJobs := s.runningJobs - 1 }
      else some { s with runner := .starting job }
    | _ => none
  | .launch =>
    match s.runner with
    | .starting job => some { s with runner := .looping, tasks := s.tasks ++ [⟨job, true⟩] }
    | _ => none
  | .runnerDrain =>
    match s.runner with
    | .draining =>
      match s.drainTurn with
      | (s, .again) => some s
      | (s, .empty) => some { s with runner := .exited none }
      | (s, .raised e) => some { s with runner := .exited (some e) }
    | _ => none
  | .settle i =>
    match s.tasks[i]? with
    | some ⟨job, true⟩ =>
      if (s.futs job.fut).state.done then none
      else
        some { s with
          futs := Function.update s.futs job.fut { s.futs job.fut with state := .finished } }
    | _ => none
  | .finish i =>
    match s.tasks[i]? with
    | some ⟨job, true⟩ =>
      if (s.futs job.fut).state.done then
        some { s with
          submittedJobs := s.submittedJobs.taskDone
          runningJobs := s.runningJobs - 1
          tasks := s.tasks.set i ⟨job, false⟩ }
      else none
    | _ => none
  | .cancel f => some (s.cancelFuture f).1
  | .addCallback f =>
    some { s with futs := Function.update s.futs f { s.futs f with callbackEscapes := true } }
  | _ => none

def step (poolSize : Nat) (s : State) (l : Label) : Option State :=
  (submitStep s l).or ((shutdownStep s l).or (runnerStep poolSize s l))

/-- A pool as its constructor leaves it. -/
def init (maxBacklog : Int) : State where
  closed := false
  submittedJobs := ⟨maxBacklog, [], 0, 0⟩
  futs := fun _ => ⟨.pending, false⟩
  submissionSequence := 0
  runningJobs := 0
  runner := .looping
  submits := []
  shutdowns := []
  tasks := []

def system (maxBacklog : Int) (poolSize : Nat) : Lts.System State Label :=
  ⟨init maxBacklog, step poolSize⟩

/-! ## What must not happen -/

/-- A job of future `f` is on the queue. -/
def State.Queued (s : State) (f : Nat) : Prop := ∃ x ∈ s.submittedJobs.items, x.item = some ⟨f⟩

def State.HoldsSentinel (s : State) : Prop := ∃ x ∈ s.submittedJobs.items, x.item = none

/-- Some call will still put a sentinel. -/
def State.Stopping (s : State) : Prop := ∃ c ∈ s.shutdowns, c.pc.pending = true

/-- A runner that loops can still receive a sentinel. -/
def State.Stoppable (s : State) : Prop := s.closed = false ∨ s.HoldsSentinel ∨ s.Stopping

/-- The queue holds an open future that no runner will take up or cancel. -/
def State.Stranded (s : State) : Prop :=
  (∃ f, s.Queued f ∧ (s.futs f).state.done = false) ∧
    (s.runner.gone = true ∨ (s.runner.inLoop = true ∧ ¬ s.Stoppable))

/-- `submit` returned the future `f`. -/
def State.Returned (s : State) (f : Nat) : Prop :=
  ∃ c, s.submits[f]? = some c ∧ c.pc = .returned

/-- A thread of `run_task` was started for the future. -/
def State.Launched (s : State) (f : Nat) : Prop := ∃ task ∈ s.tasks, task.job.fut = f

def State.Cancelled (s : State) (f : Nat) : Prop := (s.futs f).state = .cancelled

/-- The next turn of a drain finds a job whose cancellation raises nothing, or nothing. -/
def State.drains (s : State) : Bool :=
  match s.submittedJobs.get with
  | none => true
  | some (x, _) =>
    match x.item with
    | none => false
    | some job => !(s.futs job.fut).cancelEscapes

/-- The races are not run: a job is put only before the runner has left, a drain meets neither a
sentinel nor an escaping callback, and the put of a sentinel finds room in time. -/
def Orderly (s : State) : Label → Bool
  | .put _ => !s.runner.gone
  | .drain _ | .runnerDrain => s.drains
  | .timeOut _ => false
  | _ => true

/-! ## The invariant -/

structure Inv (s : State) : Prop where
  drained : s.runner.gone = true → ∀ x ∈ s.submittedJobs.items, x.item = none
  stoppable : s.runner.inLoop = true → s.Stoppable
  traced : ∀ f, s.Returned f →
    s.Launched f ∨ s.Cancelled f ∨ s.Queued f ∨ s.runner.job = some ⟨f⟩
  unset : ∀ f, s.Launched f ∨ (s.futs f).state = .pending ∨ s.Cancelled f

theorem inv_init (maxBacklog : Int) : Inv (init maxBacklog) where
  drained := by simp [init]
  stoppable := fun _ => .inl rfl
  traced := by simp [init, State.Returned]
  unset := fun f => .inr (.inl rfl)

section Parts

variable {s : State}

theorem returned_setSubmit {k f : Nat} {pc : SubmitPc} (h : (s.setSubmit k pc).Returned f) :
    s.Returned f ∨ (f = k ∧ pc = .returned) := by
  obtain ⟨c, hc, hpc⟩ := h
  obtain ⟨d, hd, rfl⟩ := getElem?_modify_some hc
  split at hpc
  · rename_i hk
    exact .inr ⟨hk.symm, hpc⟩
  · exact .inl ⟨d, hd, hpc⟩

/-- A call that goes on without returning changes nothing the invariant reads. -/
theorem Inv.setSubmit (h : Inv s) (k : Nat) {pc : SubmitPc} (hpc : pc ≠ .returned) :
    Inv (s.setSubmit k pc) where
  drained := h.drained
  stoppable := h.stoppable
  traced := by
    intro f hf
    rcases returned_setSubmit hf with hf | ⟨-, hf⟩
    · exact h.traced f hf
    · exact absurd hf hpc
  unset := h.unset

/-- A new call, or a new sequence number. -/
theorem Inv.enter (h : Inv s) (c : Submit) (hc : c.pc ≠ .returned) :
    Inv { s with submits := s.submits ++ [c] } where
  drained := h.drained
  stoppable := h.stoppable
  traced := by
    rintro f ⟨d, hd, hpc⟩
    apply h.traced f
    rcases getElem?_append_some hd with hd | ⟨-, rfl⟩
    · exact ⟨d, hd, hpc⟩
    · exact absurd hpc hc
  unset := h.unset

theorem Inv.sequence (h : Inv s) (n : Nat) : Inv { s with submissionSequence := n } :=
  ⟨h.drained, h.stoppable, h.traced, h.unset⟩

/-- Futures change only from pending to cancelled, or when they are launched. -/
theorem Inv.futures (h : Inv s) {futs : Nat → Future}
    (hkeep : ∀ f, s.Cancelled f → (futs f).state = .cancelled)
    (hunset : ∀ f, s.Launched f ∨ (futs f).state = .pending ∨ (futs f).state = .cancelled) :
    Inv { s with futs := futs } where
  drained := h.drained
  stoppable := h.stoppable
  traced := by
    intro f hf
    rcases h.traced f hf with hl | hc | hq
    · exact .inl hl
    · exact .inr (.inl (hkeep f hc))
    · exact .inr (.inr hq)
  unset := hunset

theorem cancelFuture_state (s : State) (k f : Nat) :
    ((s.cancelFuture k).1.futs f).state = (s.futs f).state ∨
      ((s.futs f).state = .pending ∧ ((s.cancelFuture k).1.futs f).state = .cancelled) := by
  unfold State.cancelFuture
  by_cases hf : f = k
  · subst hf
    simp only [Function.update_self]
    unfold Future.cancel
    split
    · exact .inl rfl
    · exact .inl rfl
    · exact .inl rfl
    · exact .inl rfl
    · rename_i hp
      exact .inr ⟨hp, rfl⟩
  · simp only [Function.update_of_ne hf]
    exact .inl trivial

theorem Inv.cancelFuture (h : Inv s) (k : Nat) : Inv (s.cancelFuture k).1 := by
  apply h.futures
  · intro f hf
    rcases cancelFuture_state s k f with he | ⟨-, he⟩
    · exact he.trans hf
    · exact he
  · intro f
    rcases cancelFuture_state s k f with he | ⟨-, he⟩
    · have hold := h.unset f
      unfold State.Cancelled at hold
      rw [← he] at hold
      exact hold
    · exact .inr (.inr he)

/-- A cancellation that raises nothing leaves the future done. -/
theorem cancelFuture_done {k : Nat} (h : Inv s) (hl : ¬ s.Launched k) :
    (s.cancelFuture k).1.Cancelled k := by
  rcases cancelFuture_state s k k with he | ⟨-, he⟩
  · rcases h.unset k with hk | hk | hk
    · exact absurd hk hl
    · unfold State.cancelFuture Future.cancel State.Cancelled
      simp [hk]
    · exact he.trans hk
  · exact he

/-! ### Shutdown calls -/

theorem stopping_setShutdown {k : Nat} {pc : ShutdownPc} {c : Shutdown}
    (hc : s.shutdowns[k]? = some c) (hpc : pc.pending = true) : (s.setShutdown k pc).Stopping := by
  exact ⟨{ c with pc }, List.mem_of_getElem? (getElem?_modify_self hc), hpc⟩

/-- A call that is not about to put its sentinel goes on. -/
theorem stopping_setShutdown_of {k : Nat} {pc : ShutdownPc} {c : Shutdown}
    (hc : s.shutdowns[k]? = some c) (hpc : c.pc.pending = true → pc.pending = true)
    (h : s.Stopping) : (s.setShutdown k pc).Stopping := by
  obtain ⟨d, hd, hp⟩ := h
  obtain ⟨j, hj⟩ := List.getElem?_of_mem hd
  by_cases hk : j = k
  · subst hk
    rw [hc] at hj
    cases hj
    exact stopping_setShutdown hc (hpc hp)
  · refine ⟨d, List.mem_of_getElem? (i := j) ?_, hp⟩
    exact (getElem?_modify_of_ne (Ne.symm hk)).trans hj

/-- A call goes on and is not one that gives up its sentinel. -/
theorem Inv.setShutdown (h : Inv s) {k : Nat} {c : Shutdown} (hc : s.shutdowns[k]? = some c)
    {pc : ShutdownPc} (hpc : c.pc.pending = true → pc.pending = true) :
    Inv (s.setShutdown k pc) where
  drained := h.drained
  stoppable := by
    intro hr
    rcases h.stoppable hr with ho | hs | hp
    · exact .inl ho
    · exact .inr (.inl hs)
    · exact .inr (.inr (stopping_setShutdown_of hc hpc hp))
  traced := h.traced
  unset := h.unset

/-! ### The queue -/

theorem mem_push {q : PriorityQueue} {x y : PrioritizedItem} :
    y ∈ (q.push x).items ↔ y = x ∨ y ∈ q.items := List.mem_cons

theorem mem_get {q q' : PriorityQueue} {x y : PrioritizedItem} (h : q.get = some (x, q')) :
    y ∈ q.items ↔ y = x ∨ y ∈ q'.items := by
  rw [(PriorityQueue.get_spec h).1.mem_iff, List.mem_cons]

/-- A submitter puts its job. -/
theorem Inv.put (h : Inv s) {k : Nat} {x : PrioritizedItem} (hx : x.item = some ⟨k⟩)
    (hr : s.runner.gone = false) :
    Inv ({ s with submittedJobs := s.submittedJobs.push x }.setSubmit k .returned) where
  drained := by
    intro hg
    exact absurd (show s.runner.gone = true from hg) (by simp [hr])
  stoppable := by
    intro hl
    rcases h.stoppable hl with ho | ⟨y, hy, hn⟩ | hp
    · exact .inl ho
    · exact .inr (.inl ⟨y, mem_push.mpr (.inr hy), hn⟩)
    · exact .inr (.inr hp)
  traced := by
    intro f hf
    rcases returned_setSubmit hf with hf | ⟨rfl, -⟩
    · rcases h.traced f hf with hl | hc | ⟨y, hy, hi⟩ | hj
      · exact .inl hl
      · exact .inr (.inl hc)
      · exact .inr (.inr (.inl ⟨y, mem_push.mpr (.inr hy), hi⟩))
      · exact .inr (.inr (.inr hj))
    · exact .inr (.inr (.inl ⟨x, mem_push.mpr (.inl rfl), hx⟩))
  unset := h.unset

/-- A shutdown puts its sentinel. -/
theorem Inv.putSentinel (h : Inv s) {k : Nat} {x : PrioritizedItem} (hx : x.item = none) :
    Inv ({ s with submittedJobs := s.submittedJobs.push x }.setShutdown k .stopping) where
  drained := by
    intro hg y hy
    rcases mem_push.mp hy with rfl | hy
    · exact hx
    · exact h.drained hg y hy
  stoppable := fun _ => .inr (.inl ⟨x, mem_push.mpr (.inl rfl), hx⟩)
  traced := by
    intro f hf
    rcases h.traced f hf with hl | hc | ⟨y, hy, hi⟩ | hj
    · exact .inl hl
    · exact .inr (.inl hc)
    · exact .inr (.inr (.inl ⟨y, mem_push.mpr (.inr hy), hi⟩))
    · exact .inr (.inr (.inr hj))
  unset := h.unset

/-- One turn of a drain that meets a job: the job leaves the queue and its future is cancelled. -/
theorem Inv.drainJob (h : Inv s) {x : PrioritizedItem} {q : PriorityQueue} {job : Job}
    (hg : s.submittedJobs.get = some (x, q)) (hx : x.item = some job) :
    Inv ({ s with submittedJobs := q.taskDone }.cancelFuture job.fut).1 := by
  have hstate := cancelFuture_state { s with submittedJobs := q.taskDone } job.fut
  refine ⟨?_, ?_, ?_, ?_⟩
  · intro hr y hy
    exact h.drained hr y ((mem_get hg).mpr (.inr hy))
  · intro hl
    rcases h.stoppable hl with ho | ⟨y, hy, hn⟩ | hp
    · exact .inl ho
    · rcases (mem_get hg).mp hy with rfl | hy
      · rw [hx] at hn
        cases hn
      · exact .inr (.inl ⟨y, hy, hn⟩)
    · exact .inr (.inr hp)
  · intro f hf
    rcases h.traced f hf with hl | hc | ⟨y, hy, hi⟩ | hj
    · exact .inl hl
    · rcases hstate f with he | ⟨-, he⟩
      · exact .inr (.inl (he.trans hc))
      · exact .inr (.inl he)
    · rcases (mem_get hg).mp hy with rfl | hy
      · rw [hx] at hi
        cases hi
        rcases h.unset f with hl | hp | hc
        · exact .inl hl
        · refine .inr (.inl ?_)
          simp [State.Cancelled, State.cancelFuture, Future.cancel, hp]
        · rcases hstate f with he | ⟨-, he⟩
          · exact .inr (.inl (he.trans hc))
          · exact .inr (.inl he)
      · exact .inr (.inr (.inl ⟨y, hy, hi⟩))
    · exact .inr (.inr (.inr hj))
  · intro f
    rcases hstate f with he | ⟨-, he⟩
    · rcases h.unset f with hl | hp | hc
      · exact .inl hl
      · exact .inr (.inl (he.trans hp))
      · exact .inr (.inr (he.trans hc))
    · exact .inr (.inr he)

/-- What a turn of a drain finds when it meets neither a sentinel nor an escaping callback. -/
theorem drainTurn_cases (hd : s.drains = true) :
    (s.drainTurn = (s, .empty) ∧ s.submittedJobs.items = []) ∨
      ∃ x q job, s.submittedJobs.get = some (x, q) ∧ x.item = some job ∧
        s.drainTurn = (({ s with submittedJobs := q.taskDone }.cancelFuture job.fut).1, .again) := by
  unfold State.drains at hd
  unfold State.drainTurn
  cases hg : s.submittedJobs.get with
  | none => exact .inl ⟨rfl, PriorityQueue.get_eq_none.mp hg⟩
  | some p =>
    obtain ⟨x, q⟩ := p
    rw [hg] at hd
    cases hx : x.item with
    | none =>
      simp only [hx] at hd
      cases hd
    | some job =>
      simp only [hx] at hd
      refine .inr ⟨x, q, job, rfl, hx, ?_⟩
      have hesc : (s.futs job.fut).cancelEscapes = false := by simpa using hd
      have hsome : (s.futs job.fut).cancel.2 ≠ none := by
        rw [Ne, Future.cancel_none, hesc]
        exact Bool.false_ne_true
      obtain ⟨b, hb⟩ := Option.ne_none_iff_exists'.mp hsome
      simp [State.cancelFuture, hx, hb]

end Parts

/-! ## Steps and runs -/

section Steps

variable {poolSize : Nat} {s s' : State} {l : Label}

theorem inv_submitStep (h : Inv s) (ho : Orderly s l = true) (hs : submitStep s l = some s') :
    Inv s' := by
  unfold submitStep at hs
  split at hs
  · cases hs
    apply h.enter
    split <;> simp
  · split at hs
    · cases hs
    · split at hs
      · cases hs
        apply h.setSubmit
        split <;> simp
      · cases hs
        apply h.setSubmit
        split <;> simp
      · cases hs
  · split at hs
    · cases hs
    · split at hs
      · cases hs
        exact (h.sequence _).setSubmit _ (by simp)
      · cases hs
  · split at hs
    · cases hs
    · split at hs
      · split at hs
        · split at hs
          · cases hs
          · cases hs
            exact h.setSubmit _ (by simp)
        · cases hs
          exact h.put rfl (by simpa [Orderly] using ho)
      · cases hs
  · cases hs

theorem inv_shutdownStep (h : Inv s) (ho : Orderly s l = true) (hs : shutdownStep s l = some s') :
    Inv s' := by
  unfold shutdownStep at hs
  split at hs
  · cases hs
    refine ⟨h.drained, fun hl => ?_, h.traced, h.unset⟩
    rcases h.stoppable hl with hc | hq | ⟨c, hc, hp⟩
    · exact .inl hc
    · exact .inr (.inl hq)
    · exact .inr (.inr ⟨c, List.mem_append_left _ hc, hp⟩)
  -- the first test of `closed`
  · split at hs
    · rename_i hc
      cases hs
      exact h.setShutdown hc (by simp [ShutdownPc.pending])
    · cases hs
  -- `closed` is set: this call now owes a sentinel
  · split at hs
    · rename_i hc
      cases hs
      refine ⟨h.drained, fun _ => .inr (.inr ?_), h.traced, h.unset⟩
      apply stopping_setShutdown (s := { s with closed := true }) hc
      split <;> rfl
    · cases hs
  · split at hs
    · rename_i hc
      rcases drainTurn_cases ho with ⟨he, -⟩ | ⟨x, q, job, hg, hx, he⟩
      · rw [he] at hs
        cases hs
        exact h.setShutdown hc (fun _ => rfl)
      · rw [he] at hs
        cases hs
        exact h.drainJob hg hx
    · cases hs
  · split at hs
    · rename_i hc
      cases hs
      exact (h.sequence (s.submissionSequence + 1)).setShutdown hc (fun _ => rfl)
    · cases hs
  · split at hs
    · split at hs
      · cases hs
      · cases hs
        exact h.putSentinel rfl
    · cases hs
  · cases ho
  · split at hs
    · rename_i task hc hi
      have hcancel := h.cancelFuture task.job.fut
      split at hs
      · rename_i t ht
        cases hs
        rw [ht] at hcancel
        have hshut : t.shutdowns = s.shutdowns := congrArg (fun p => p.1.shutdowns) ht.symm
        exact hcancel.setShutdown (hshut ▸ hc) (by simp [ShutdownPc.pending])
      · rename_i t b ht
        cases hs
        rw [ht] at hcancel
        exact hcancel
    · cases hs
  · split at hs
    · rename_i hc
      split at hs
      · cases hs
        exact h.setShutdown hc (by simp [ShutdownPc.pending])
      · cases hs
    · cases hs
  · cases hs

/-- The runner goes on with the job it holds, if any; it leaves only with an empty queue. -/
theorem Inv.move (h : Inv s) {r : Runner} (n : Nat) (hjob : s.runner.job = r.job)
    (hloop : r.inLoop = true → s.runner.inLoop = true)
    (hgone : r.gone = true → s.submittedJobs.items = []) :
    Inv { s with runner := r, runningJobs := n } where
  drained := by
    intro hr x hx
    rw [show s.submittedJobs.items = [] from hgone hr] at hx
    cases hx
  stoppable := fun hr => h.stoppable (hloop hr)
  traced := by
    intro f hf
    have hold := h.traced f hf
    rw [hjob] at hold
    exact hold
  unset := h.unset

/-- The runner takes an item from the queue. -/
theorem inv_get {x : PrioritizedItem} {q : PriorityQueue} (h : Inv s) (hr : s.runner = .getting)
    (hg : s.submittedJobs.get = some (x, q)) :
    (x.item = none → Inv { s with
      submittedJobs := q.taskDone, runner := .draining, runningJobs := s.runningJobs - 1 }) ∧
    (∀ job, x.item = some job → Inv { s with submittedJobs := q, runner := .holding job }) := by
  constructor
  · intro hx
    refine ⟨(fun hr => by cases hr), (fun hl => by cases hl), fun f hf => ?_, h.unset⟩
    rcases h.traced f hf with hl | hc | ⟨y, hy, hi⟩ | hj
    · exact .inl hl
    · exact .inr (.inl hc)
    · rcases (mem_get hg).mp hy with rfl | hy
      · rw [hx] at hi
        cases hi
      · exact .inr (.inr (.inl ⟨y, hy, hi⟩))
    · rw [hr] at hj
      cases hj
  · intro job hx
    refine ⟨(fun hr => by cases hr), fun _ => ?_, fun f hf => ?_, h.unset⟩
    · rcases h.stoppable (by rw [hr]; rfl) with ho | ⟨y, hy, hn⟩ | hp
      · exact .inl ho
      · rcases (mem_get hg).mp hy with rfl | hy
        · rw [hx] at hn
          cases hn
        · exact .inr (.inl ⟨y, hy, hn⟩)
      · exact .inr (.inr hp)
    · rcases h.traced f hf with hl | hc | ⟨y, hy, hi⟩ | hj
      · exact .inl hl
      · exact .inr (.inl hc)
      · rcases (mem_get hg).mp hy with rfl | hy
        · rw [hx] at hi
          cases hi
          exact .inr (.inr (.inr rfl))
        · exact .inr (.inr (.inl ⟨y, hy, hi⟩))
      · rw [hr] at hj
        cases hj

/-- The runner looks at the future of the job it holds: a done one was cancelled or launched. -/
theorem inv_look {job : Job} (h : Inv s) (hr : s.runner = .holding job)
    (hd : (s.futs job.fut).state.done = true) (q : PriorityQueue)
    (hq : q.items = s.submittedJobs.items) (n : Nat) :
    Inv { s with submittedJobs := q, runner := .looping, runningJobs := n } := by
  refine ⟨(fun hr => by cases hr), fun _ => ?_, fun f hf => ?_, h.unset⟩
  · rcases h.stoppable (by rw [hr]; rfl) with ho | ⟨y, hy, hn⟩ | hp
    · exact .inl ho
    · exact .inr (.inl ⟨y, hq ▸ hy, hn⟩)
    · exact .inr (.inr hp)
  · rcases h.traced f hf with hl | hc | ⟨y, hy, hi⟩ | hj
    · exact .inl hl
    · exact .inr (.inl hc)
    · exact .inr (.inr (.inl ⟨y, hq ▸ hy, hi⟩))
    · rw [hr] at hj
      cases hj
      rcases h.unset f with hl | hp | hc
      · exact .inl hl
      · rw [hp] at hd
        cases hd
      · exact .inr (.inl hc)

/-- The runner starts the thread of the job it holds. -/
theorem inv_launch {job : Job} (h : Inv s) (hr : s.runner = .starting job) :
    Inv { s with runner := .looping, tasks := s.tasks ++ [⟨job, true⟩] } := by
  have hmono : ∀ f, s.Launched f →
      State.Launched { s with runner := .looping, tasks := s.tasks ++ [⟨job, true⟩] } f := by
    rintro f ⟨task, ht, hf⟩
    exact ⟨task, List.mem_append_left _ ht, hf⟩
  refine ⟨(fun hr => by cases hr), fun _ => h.stoppable (by rw [hr]; rfl), fun f hf => ?_,
    fun f => ?_⟩
  · rcases h.traced f hf with hl | hc | hq | hj
    · exact .inl (hmono f hl)
    · exact .inr (.inl hc)
    · exact .inr (.inr (.inl hq))
    · rw [hr] at hj
      cases hj
      exact .inl ⟨⟨⟨f⟩, true⟩, List.mem_append_right _ (List.mem_singleton_self _), rfl⟩
  · rcases h.unset f with hl | hp
    · exact .inl (hmono f hl)
    · exact .inr hp

/-- A thread of `run_task` sets the outcome of its future. -/
theorem inv_settle {job : Job} (h : Inv s) (hl : s.Launched job.fut)
    (hd : (s.futs job.fut).state.done = false) :
    Inv { s with futs := Function.update s.futs job.fut { s.futs job.fut with state := .finished } } := by
  apply h.futures
  · intro f hf
    by_cases hk : f = job.fut
    · subst hk
      rw [show (s.futs job.fut).state = .cancelled from hf] at hd
      cases hd
    · rw [Function.update_of_ne hk]
      exact hf
  · intro f
    by_cases hk : f = job.fut
    · subst hk
      exact .inl hl
    · rw [Function.update_of_ne hk]
      exact h.unset f

/-- A thread that ends was launched all the same. -/
theorem launched_finish {i f : Nat} {job : Job} (hi : s.tasks[i]? = some ⟨job, true⟩)
    (h : s.Launched f) : ∃ task ∈ s.tasks.set i ⟨job, false⟩, task.job.fut = f := by
  obtain ⟨task, ht, hf⟩ := h
  obtain ⟨j, hj⟩ := List.getElem?_of_mem ht
  by_cases hk : i = j
  · subst hk
    rw [hi] at hj
    cases hj
    refine ⟨⟨job, false⟩, List.mem_of_getElem? (i := i) ?_, hf⟩
    simp [lt_of_getElem? hi]
  · refine ⟨task, List.mem_of_getElem? (i := j) ?_, hf⟩
    simpa [List.getElem?_set, hk] using hj

/-- A thread of `run_task` ends. -/
theorem inv_finish {i : Nat} {job : Job} (h : Inv s) (hi : s.tasks[i]? = some ⟨job, true⟩)
    (n : Nat) :
    Inv { s with
      submittedJobs := s.submittedJobs.taskDone
      runningJobs := n
      tasks := s.tasks.set i ⟨job, false⟩ } := by
  refine ⟨h.drained, h.stoppable, fun f hf => ?_, fun f => ?_⟩
  · rcases h.traced f hf with hl | hrest
    · exact .inl (launched_finish hi hl)
    · exact .inr hrest
  · rcases h.unset f with hl | hrest
    · exact .inl (launched_finish hi hl)
    · exact .inr hrest

theorem inv_addCallback (h : Inv s) (k : Nat) :
    Inv { s with futs := Function.update s.futs k { s.futs k with callbackEscapes := true } } := by
  have hstate : ∀ f, (Function.update s.futs k { s.futs k with callbackEscapes := true } f).state =
      (s.futs f).state := by
    intro f
    by_cases hk : f = k
    · subst hk
      rw [Function.update_self]
    · rw [Function.update_of_ne hk]
  apply h.futures
  · intro f hf
    exact (hstate f).trans hf
  · intro f
    rw [hstate f]
    exact h.unset f

theorem inv_runnerStep (h : Inv s) (ho : Orderly s l = true)
    (hs : runnerStep poolSize s l = some s') : Inv s' := by
  unfold runnerStep at hs
  split at hs
  · split at hs
    · rename_i hr
      split at hs
      · cases hs
        apply h.move <;> simp [hr, Runner.job, Runner.inLoop, Runner.gone]
      · cases hs
    · cases hs
  · split at hs
    · rename_i hr hg
      obtain ⟨hnone, hsome⟩ := inv_get h hr hg
      split at hs
      · rename_i hx
        cases hs
        exact hnone hx
      · rename_i job hx
        cases hs
        exact hsome job hx
    · cases hs
  · split at hs
    · rename_i job hr
      split at hs
      · rename_i hd
        cases hs
        exact inv_look h hr hd s.submittedJobs.taskDone rfl _
      · cases hs
        apply h.move <;> simp [hr, Runner.job, Runner.inLoop, Runner.gone]
    · cases hs
  · split at hs
    · rename_i job hr
      cases hs
      exact inv_launch h hr
    · cases hs
  -- the drain of the runner: it leaves only with an empty queue
  · split at hs
    · rename_i hr
      rcases drainTurn_cases ho with ⟨he, hnil⟩ | ⟨x, q, job, hg, hx, he⟩
      · rw [he] at hs
        cases hs
        apply h.move <;> simp [hr, Runner.job, Runner.inLoop, hnil]
      · rw [he] at hs
        cases hs
        exact h.drainJob hg hx
    · cases hs
  · split at hs
    · rename_i job hi
      split at hs
      · cases hs
      · rename_i hd
        cases hs
        exact inv_settle h ⟨_, List.mem_of_getElem? hi, rfl⟩ (by simpa using hd)
    · cases hs
  · split at hs
    · rename_i job hi
      split at hs
      · cases hs
        exact inv_finish h hi _
      · cases hs
    · cases hs
  · cases hs
    exact h.cancelFuture _
  · cases hs
    exact inv_addCallback h _
  · cases hs

theorem inv_step (h : Inv s) (ho : Orderly s l = true) (hs : step poolSize s l = some s') :
    Inv s' := by
  unfold step at hs
  rcases Option.or_eq_some_iff.mp hs with hs | ⟨-, hs⟩
  · exact inv_submitStep h ho hs
  rcases Option.or_eq_some_iff.mp hs with hs | ⟨-, hs⟩
  · exact inv_shutdownStep h ho hs
  · exact inv_runnerStep h ho hs

theorem inv_run {maxBacklog : Int}
    (h : (system maxBacklog poolSize).Reach (fun s l => Orderly s l = true) s) : Inv s :=
  h.invariant (I := Inv) (inv_init maxBacklog) fun _ _ _ _ hi ho hs => inv_step hi ho hs

end Steps

/-- **No job is left behind.**  For every bound of the backlog, any number of submit and shutdown
calls and every interleaving of them with the runner, the `run_task` threads and the user: in runs in
which no job is put after the runner has left, no drain meets a sentinel or an escaping callback and no
put of a sentinel times out, no state is stranded; and every future that `submit` returned is launched
or cancelled, or is on its way to a runner that has not left. -/
theorem no_stranded_jobs (maxBacklog : Int) (poolSize : Nat) {s : State}
    (h : (system maxBacklog poolSize).Reach (fun s l => Orderly s l = true) s) :
    ¬ s.Stranded ∧
      ∀ f, s.Returned f → s.Launched f ∨ s.Cancelled f ∨
        (s.runner.gone = false ∧ (s.Queued f ∨ s.runner.job = some ⟨f⟩)) := by
  have hinv := inv_run h
  constructor
  · rintro ⟨⟨f, ⟨x, hx, hi⟩, -⟩, hgone | ⟨hloop, hnot⟩⟩
    · rw [hinv.drained hgone x hx] at hi
      cases hi
    · exact hnot (hinv.stoppable hloop)
  · intro f hf
    rcases hinv.traced f hf with hl | hc | ⟨x, hx, hi⟩ | hj
    · exact .inl hl
    · exact .inr (.inl hc)
    · refine .inr (.inr ⟨?_, .inl ⟨x, hx, hi⟩⟩)
      rw [← Bool.not_eq_true]
      intro hgone
      rw [hinv.drained hgone x hx] at hi
      cases hi
    · refine .inr (.inr ⟨?_, .inr hj⟩)
      cases hr : s.runner with
      | exited e =>
        rw [hr] at hj
        cases hj
      | _ => rfl

/-- One job is submitted and launched, a second one is on the queue when a shutdown drains it. -/
def orderlyShutdown : List Label :=
  [.submit 0 true, .check 0, .check 0, .draw 0, .put 0, .slot, .get, .look, .launch,
    .submit 3 true, .check 1, .check 1, .draw 1, .put 1,
    .shutdown false true, .pass 0, .close 0, .drain 0, .drain 0, .drawSentinel 0, .putSentinel 0,
    .slot, .get, .runnerDrain]

theorem no_stranded_jobs_orderlyShutdown :
    ∃ s, (system 1000 4).Reach (fun s l => Orderly s l = true) s ∧ s.runner.gone = true ∧
      s.Returned 1 ∧ (s.Launched 1 ∨ s.Cancelled 1 ∨
        (s.runner.gone = false ∧ (s.Queued 1 ∨ s.runner.job = some ⟨1⟩))) := by
  have hview : (((system 1000 4).runWhile Orderly (system 1000 4).init orderlyShutdown).map
      fun s => (s.runner.gone, s.submits[1]?)) = some (true, some ⟨3, true, .returned⟩) := by
    decide +kernel
  obtain ⟨s, hs, hview⟩ := Option.map_eq_some_iff.mp hview
  simp only [Prod.mk.injEq] at hview
  have hr := Lts.System.Reach.of_runWhile .init _ hs
  have hret : s.Returned 1 := ⟨_, hview.2, rfl⟩
  exact ⟨s, hr, hview.1, hret, (no_stranded_jobs 1000 4 hr).2 1 hret⟩

/-- A submitter that has passed both tests of `closed` puts its job after the runner has left. -/
def lateSubmit : List Label :=
  [.submit 0 true, .check 0, .check 0, .draw 0, .shutdown true false, .pass 0, .close 0,
    .drawSentinel 0, .putSentinel 0, .slot, .get, .runnerDrain, .put 0]

/-- **A job submitted during a shutdown can be stranded**: its future stays pending on a queue that
nobody reads any more. -/
theorem late_submit_stranded : ∃ s, (system 1000 4).Reachable s ∧ s.Stranded := by
  have hview : (((system 1000 4).run (system 1000 4).init lateSubmit).map
      fun s => (s.runner.gone, s.submittedJobs.items, (s.futs 0).state)) =
        some (true, [⟨0, some ⟨0⟩, 0⟩], .pending) := by
    decide +kernel
  obtain ⟨s, hs, hview⟩ := Option.map_eq_some_iff.mp hview
  simp only [Prod.mk.injEq] at hview
  obtain ⟨hgone, hitems, hfut⟩ := hview
  refine ⟨s, Lts.System.reachable_of_run hs, ⟨0, ⟨⟨0, some ⟨0⟩, 0⟩, ?_, rfl⟩, ?_⟩, .inl hgone⟩
  · rw [hitems]
    exact List.mem_singleton_self _
  · rw [hfut]
    rfl

end Deadpool.Pool.Backlog
