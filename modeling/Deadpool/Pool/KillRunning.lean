import Deadpool.Pool.RunTask
import Deadpool.Pool.ShutdownFlags

/-!
# `shutdown(wait=False, cancel_futures=True)` and the tasks that have started

The part of `shutdown` after the sentinel is put: it copies `running_futs` under the lock, and then
cancels and kills one future after the other.  It runs beside the threads of `run_task`, whose control
points are those of `RunTask`: a job has left the queue long before `run_task` adds its future to
`running_futs`, and an outcome may be set at any time.  The queue, the runner, the futures and the rest
of `shutdown` are those of `Backlog`, and every step of them here is a step there.

A future of a thread of `run_task` is known by the number of the thread.  Which worker `get_process`
returns is left open; `running_futs` is a weak set, which forgets futures of threads that have ended.

* `base_reachable`       : a run here is a run of `Backlog`;
* `started_tasks_killed` : the tasks that were started and open when `shutdown` looked, in runs in which
  their futures were all in `running_futs` then and got no outcome before the loop reached them.
-/

set_option autoImplicit false

namespace Deadpool.Pool.KillRunning

open RunTask (Pc PyExc Poll)

/-- A thread of `run_task`, and the pid of its future. -/
structure Call where
  pc : Pc
  pid : Option Nat
  deriving DecidableEq, Repr

/-- Where the loop over the copy of `running_futs` stands. -/
inductive Stop where
  | before
  /-- before `fut.cancel()` of the first future -/
  | cancelling (rest : List Nat)
  /-- `fut.cancel()` has returned, before the kill -/
  | killing (i : Nat) (rest : List Nat)
  | past
  deriving DecidableEq, Repr

structure State where
  base : Backlog.State
  calls : List Call
  runningFuts : List Nat
  /-- by the number of the `shutdown` call -/
  stops : Nat → Stop
  /-- pids that were sent the signal -/
  killed : List Nat
  /-- history: the futures that were open when `shutdown` looked, of jobs taken from the queue -/
  looked : Nat → Option (List Nat)

/-- What the environment decides in one step of `run_task`. -/
inductive Event where
  | grow
  | take (worker : Nat)
  | beforeSubmit (accept : Bool)
  | submitJob (raised : Option PyExc)
  | doneWithProcess
  | kill
  | setPid
  | add
  | poll (p : Poll)
  | advance
  /-- an exception that `run_task` does not handle -/
  | raises
  deriving DecidableEq, Repr

inductive Label where
  | base (l : Backlog.Label)
  | call (i : Nat) (e : Event)
  /-- `running_futs = list(self.running_futs)` -/
  | look (k : Nat)
  | cancel (k : Nat)
  | kill (k : Nat)
  | leave (k : Nat)
  /-- the weak set forgets a future -/
  | collect (i : Nat)
  deriving DecidableEq, Repr

variable (poolSize : Nat)

def State.goto (s : State) (i : Nat) (c : Call) : State := { s with calls := s.calls.set i c }

/-- `if not fut.done(): fut.set_exception(…)`, and `set_result`. -/
def State.settle (s : State) (i : Nat) : State :=
  match Backlog.step poolSize s.base (.settle i) with
  | some base => { s with base }
  | none => s

/-- One step of `run_task` in thread `i`.  The `finally` block is the setting of an outcome, if there is
none, and then the rest of it. -/
def callStep (s : State) (i : Nat) (job : Job) (c : Call) : Event → Option State
  | .grow =>
    match c.pc with
    | .loop (n + 1) => some (s.goto i { c with pc := .awaiting n })
    | _ => none
  | .take w =>
    match c.pc with
    | .awaiting n => some (s.goto i { c with pc := .acquired n w })
    | _ => none
  | .beforeSubmit accept =>
    match c.pc with
    | .acquired n w => some (s.goto i { c with pc := if accept then .claimed n w else .refused w })
    | _ => none
  | .submitJob raised =>
    match c.pc with
    | .claimed n w =>
      match raised with
      | none => some (s.goto i { c with pc := .submitted w })
      | some .picklingError | some .attributeError => some (s.goto i { c with pc := .pickleFailed w })
      | some .brokenPipeError => some (s.goto i { c with pc := .brokenPipe n w })
      | some (.other _) => some (s.goto i { c with pc := .finalize })
    | _ => none
  | .doneWithProcess =>
    match c.pc with
    | .refused _ | .pickleReported _ | .handBack _ => some (s.goto i { c with pc := .finalize })
    | .brokenPipe n _ => some (s.goto i { c with pc := .killing n })
    | _ => none
  | .kill =>
    match c.pc with
    | .killing n => some (s.goto i { c with pc := .loop n })
    | _ => none
  | .setPid =>
    match c.pc with
    | .submitted w => some (s.goto i { c with pid := some w })
    | _ => none
  | .add =>
    match c.pc with
    | .submitted w =>
      if c.pid = some w then
        some { s.goto i { c with pc := .polling w } with runningFuts := s.runningFuts ++ [i] }
      else none
    | _ => none
  | .poll p =>
    match c.pc with
    | .polling w =>
      if p = .nothing then some s
      else some ((s.settle poolSize i).goto i { c with pc := .handBack w })
    | _ => none
  | .advance =>
    match c.pc with
    | .loop 0 => some (s.goto i { c with pc := .gaveUp })
    | .gaveUp => some ((s.settle poolSize i).goto i { c with pc := .finalize })
    | .pickleFailed w =>
      if (s.base.futs job.fut).state.done then some (s.goto i { c with pc := .finalize })
      else some ((s.settle poolSize i).goto i { c with pc := .pickleReported w })
    | .finalize =>
      if (s.base.futs job.fut).state.done then
        (Backlog.step poolSize s.base (.finish i)).map fun base =>
          { s with base }.goto i { c with pc := .ended }
      else some (s.settle poolSize i)
    | _ => none
  | .raises =>
    match c.pc with
    | .finalize | .ended => none
    | _ => some (s.goto i { c with pc := .finalize })

/-- The call is a `shutdown(wait=False, cancel_futures=True)` whose sentinel is on the queue. -/
def State.kills (s : State) (k : Nat) : Bool := s.base.shutdowns[k]? == some ⟨false, true, .stopping⟩

/-- The futures without an outcome, of jobs that were taken from the queue. -/
def State.started (s : State) : List Nat :=
  ((s.base.runner.job.toList ++ s.base.tasks.map Backlog.Task.job).map Job.fut).filter fun f =>
    !(s.base.futs f).state.done

/-- Steps of the loop of `shutdown`. -/
def stopStep (s : State) : Label → Option State
  | .look k =>
    match s.stops k with
    | .before =>
      some { s with
        stops := Function.update s.stops k (.cancelling s.runningFuts)
        looked := Function.update s.looked k (some s.started) }
    | _ => none
  | .cancel k =>
    match s.stops k with
    | .cancelling (i :: rest) =>
      (Backlog.step poolSize s.base (.stop k i)).map fun base =>
        { s with base, stops := Function.update s.stops k (.killing i rest) }
    | _ => none
  | .kill k =>
    match s.stops k with
    | .killing i rest =>
      some { s with
        stops := Function.update s.stops k (.cancelling rest)
        killed := s.killed ++ (s.calls[i]?.bind Call.pid).toList }
    | _ => none
  | .leave k =>
    match s.stops k with
    | .cancelling [] => some { s with stops := Function.update s.stops k .past }
    | _ => none
  | _ => none

/-- Steps of the queue, the runner and the other parts of `shutdown`. -/
def baseStep (s : State) (l : Backlog.Label) : Option State :=
  match l with
  | .settle _ | .finish _ | .stop _ _ => none
  | .launch =>
    (Backlog.step poolSize s.base .launch).map fun base =>
      { s with base, calls := s.calls ++ [⟨.loop 10, none⟩] }
  | .join k =>
    if s.kills k ∧ s.stops k ≠ .past then none
    else (Backlog.step poolSize s.base (.join k)).map fun base => { s with base }
  | l => (Backlog.step poolSize s.base l).map fun base => { s with base }

def step (s : State) (l : Label) : Option State :=
  match l with
  | .base l => baseStep poolSize s l
  | .call i e =>
    match s.base.tasks[i]?, s.calls[i]? with
    | some ⟨job, true⟩, some c => callStep poolSize s i job c e
    | _, _ => none
  | .look k | .cancel k | .kill k | .leave k => if s.kills k then stopStep poolSize s l else none
  | .collect i =>
    match s.base.tasks[i]? with
    | some ⟨_, false⟩ => some { s with runningFuts := s.runningFuts.filter (· ≠ i) }
    | _ => none

def init (maxBacklog : Int) : State where
  base := Backlog.init maxBacklog
  calls := []
  runningFuts := []
  stops := fun _ => .before
  killed := []
  looked := fun _ => none

def system (maxBacklog : Int) : Lts.System State Label := ⟨init maxBacklog, step poolSize⟩

/-! ## Steps of `Backlog` -/

section Base

variable {poolSize : Nat} {s t : Backlog.State} {l : Backlog.Label}

/-- Tasks stay, with their jobs. -/
theorem change_tasks (hc : Backlog.Change poolSize s l t) {i : Nat} {task : Backlog.Task}
    (hi : s.tasks[i]? = some task) :
    ∃ task' : Backlog.Task, t.tasks[i]? = some task' ∧ task'.job = task.job := by
  cases hc with
  | drain k w cf hk t ht =>
    have htasks := (Backlog.drainTurn_frame s).2.1
    refine ⟨task, ?_, rfl⟩
    rcases ht with ⟨rfl, -⟩ | ⟨rfl, -⟩ | ⟨e, rfl, -⟩ <;> exact htasks ▸ hi
  | runnerDrain hr t ht =>
    have htasks := (Backlog.drainTurn_frame s).2.1
    refine ⟨task, ?_, rfl⟩
    rcases ht with ⟨rfl, -⟩ | ⟨rfl, -⟩ | ⟨e, rfl, -⟩ <;> exact htasks ▸ hi
  | stop k j task' hj hk t ht =>
    refine ⟨task, ?_, rfl⟩
    rcases ht with rfl | rfl <;> exact hi
  | launch job hr => exact ⟨task, getElem?_append_of_some hi, rfl⟩
  | finish j job hj =>
    by_cases he : j = i
    · subst he
      rw [hj] at hi
      cases hi
      exact ⟨⟨job, false⟩, List.getElem?_set_self (lt_of_getElem? hj), rfl⟩
    · refine ⟨task, ?_, rfl⟩
      show (s.tasks.set j _)[i]? = some task
      rw [List.getElem?_set_ne he]
      exact hi
  | _ => exact ⟨task, hi, rfl⟩

theorem change_length (hc : Backlog.Change poolSize s l t) (hl : l ≠ .launch) :
    t.tasks.length = s.tasks.length := by
  cases hc with
  | drain k w cf hk t ht =>
    have htasks := (Backlog.drainTurn_frame s).2.1
    rcases ht with ⟨rfl, -⟩ | ⟨rfl, -⟩ | ⟨e, rfl, -⟩ <;> exact congrArg List.length htasks
  | runnerDrain hr t ht =>
    have htasks := (Backlog.drainTurn_frame s).2.1
    rcases ht with ⟨rfl, -⟩ | ⟨rfl, -⟩ | ⟨e, rfl, -⟩ <;> exact congrArg List.length htasks
  | stop k j task' hj hk t ht => rcases ht with rfl | rfl <;> rfl
  | launch job hr => exact absurd rfl hl
  | finish j job hj => exact List.length_set
  | _ => rfl

theorem drainTurn_state (s : Backlog.State) (f : Nat) :
    (s.drainTurn.1.futs f).state = (s.futs f).state ∨
      ((s.futs f).state = .pending ∧ (s.drainTurn.1.futs f).state = .cancelled) := by
  unfold Backlog.State.drainTurn
  split
  · exact .inl rfl
  · rename_i x q hg
    dsimp only
    split
    · exact .inl rfl
    · rename_i job hx
      split
      · rename_i u hu
        have hu' : u = _ := congrArg Prod.fst hu.symm
        subst hu'
        exact Backlog.cancelFuture_state { s with submittedJobs := q.taskDone } job.fut f
      · rename_i u b hu
        have hu' : u = _ := congrArg Prod.fst hu.symm
        subst hu'
        exact Backlog.cancelFuture_state { s with submittedJobs := q.taskDone } job.fut f

/-- Only `run_task` sets an outcome; everything else cancels at most. -/
theorem change_state (hc : Backlog.Change poolSize s l t) (hl : ∀ i, l ≠ .settle i) (f : Nat) :
    (t.futs f).state = (s.futs f).state ∨
      ((s.futs f).state = .pending ∧ (t.futs f).state = .cancelled) := by
  cases hc with
  | drain k w cf hk t ht =>
    have hstate := drainTurn_state s f
    rcases ht with ⟨rfl, -⟩ | ⟨rfl, -⟩ | ⟨e, rfl, -⟩ <;> exact hstate
  | runnerDrain hr t ht =>
    have hstate := drainTurn_state s f
    rcases ht with ⟨rfl, -⟩ | ⟨rfl, -⟩ | ⟨e, rfl, -⟩ <;> exact hstate
  | stop k j task' hj hk t ht =>
    have hstate := Backlog.cancelFuture_state s task'.job.fut f
    rcases ht with rfl | rfl <;> exact hstate
  | cancel g => exact Backlog.cancelFuture_state s g f
  | addCallback g => exact .inl (Backlog.addCallback_state s g f)
  | settle i job hi => exact absurd rfl (hl i)
  | _ => exact .inl rfl

/-- A call that waits in `join`, or that stops running tasks, goes on only by its own steps. -/
theorem change_stopping (hc : Backlog.Change poolSize s l t) {k : Nat}
    (hk : s.shutdowns[k]? = some ⟨false, true, .stopping⟩) (hjoin : l ≠ .join k)
    (hstop : ∀ i, l ≠ .stop k i) : t.shutdowns[k]? = some ⟨false, true, .stopping⟩ := by
  -- an assignment to another call
  have hset : ∀ (u : Backlog.State) (k' : Nat) (pc : Backlog.ShutdownPc), u.shutdowns = s.shutdowns →
      k' ≠ k → (u.setShutdown k' pc).shutdowns[k]? = some ⟨false, true, .stopping⟩ := by
    intro u k' pc hu hne
    show (u.shutdowns.modify k' _)[k]? = _
    rw [getElem?_modify_of_ne hne, hu]
    exact hk
  have hother : ∀ {k' : Nat} {w cf : Bool} {pc : Backlog.ShutdownPc},
      s.shutdowns[k']? = some ⟨w, cf, pc⟩ → pc ≠ .stopping → k' ≠ k := by
    intro k' w cf pc hk' hpc he
    subst he
    rw [hk] at hk'
    cases hk'
    exact hpc rfl
  cases hc with
  | begin w cf => exact getElem?_append_of_some hk
  | pass k' w cf hk' => exact hset _ _ _ rfl (hother hk' (by decide))
  | close k' w cf hk' => exact hset _ _ _ rfl (hother hk' (by decide))
  | drawSentinel k' w cf hk' => exact hset _ _ _ rfl (hother hk' (by decide))
  | putSentinel k' n w cf hk' => exact hset _ _ _ rfl (hother hk' (fun h => by cases h))
  | timeOut k' n w cf hk' => exact hset _ _ _ rfl (hother hk' (fun h => by cases h))
  | join k' w cf hk' h => exact hset _ _ _ rfl (fun he => hjoin (he ▸ rfl))
  | drain k' w cf hk' t ht =>
    have hshut := (Backlog.drainTurn_frame s).2.2.2.1
    have hne := hother hk' (by decide)
    rcases ht with ⟨rfl, -⟩ | ⟨rfl, -⟩ | ⟨e, rfl, -⟩
    · rw [hshut]
      exact hk
    · exact hset _ _ _ hshut hne
    · exact hset _ _ _ hshut hne
  | stop k' i task hi hk' t ht =>
    rcases ht with rfl | rfl
    · exact hk
    · exact hset _ _ _ rfl fun he => hstop i (he ▸ rfl)
  | runnerDrain hr t ht =>
    have hshut := (Backlog.drainTurn_frame s).2.2.2.1
    rcases ht with ⟨rfl, -⟩ | ⟨rfl, -⟩ | ⟨e, rfl, -⟩ <;> exact hshut ▸ hk
  | _ => exact hk

end Base

/-! ## Steps of `run_task` -/

/-- The step sets an outcome on a future that has none. -/
def settles : Pc → Event → Bool
  | .polling _, .poll p => p ≠ .nothing
  | .gaveUp, .advance | .pickleFailed _, .advance | .finalize, .advance => true
  | _, _ => false

/-- The future has its pid and was added to `running_futs`. -/
def addedAt (w : Nat) : Pc → Bool
  | .polling w' | .handBack w' => w' = w
  | .finalize | .ended => true
  | _ => false

/-- What one step of `run_task` in thread `i` can do. -/
structure CallMove (poolSize : Nat) (s : State) (i : Nat) (c : Call) (e : Event) (c' : Call) (s' : State) :
    Prop where
  calls : s'.calls = s.calls.set i c'
  stops : s'.stops = s.stops
  killed : s'.killed = s.killed
  looked : s'.looked = s.looked
  pid : c'.pid = c.pid ∨ ∃ w, c.pc = .submitted w
  added : ∀ w, addedAt w c.pc = true → addedAt w c'.pc = true
  running : s'.runningFuts = s.runningFuts ∨ s'.runningFuts = s.runningFuts ++ [i] ∧
    ∃ w, c'.pid = some w ∧ addedAt w c'.pc = true
  base : s'.base = s.base ∨ Backlog.step poolSize s.base (.finish i) = some s'.base ∨
    settles c.pc e = true ∧ Backlog.step poolSize s.base (.settle i) = some s'.base

section Calls

variable {poolSize : Nat} {s s' : State} {i : Nat} {job : Job} {c c' : Call} {e : Event}

/-- The thread goes on to another control point. -/
theorem CallMove.goto (hadded : ∀ w, addedAt w c.pc = true → addedAt w c'.pc = true)
    (hpid : c'.pid = c.pid) : CallMove poolSize s i c e c' (s.goto i c') :=
  ⟨rfl, rfl, rfl, rfl, .inl hpid, hadded, .inl rfl, .inl rfl⟩

/-- It sets an outcome before. -/
theorem CallMove.settle (hadded : ∀ w, addedAt w c.pc = true → addedAt w c'.pc = true)
    (hpid : c'.pid = c.pid) (hsettles : settles c.pc e = true) :
    CallMove poolSize s i c e c' ((s.settle poolSize i).goto i c') := by
  unfold State.settle
  split
  · rename_i base hbase
    exact ⟨rfl, rfl, rfl, rfl, .inl hpid, hadded, .inl rfl, .inr (.inr ⟨hsettles, hbase⟩)⟩
  · exact .goto hadded hpid

/-- It stays where it is. -/
theorem CallMove.stay (hc : s.calls[i]? = some c) : CallMove poolSize s i c e c s := by
  refine ⟨?_, rfl, rfl, rfl, .inl rfl, fun _ h => h, .inl rfl, .inl rfl⟩
  obtain ⟨hi, hget⟩ := List.getElem?_eq_some_iff.mp hc
  rw [← hget, List.set_getElem_self]

theorem callStep_move (hc : s.calls[i]? = some c) (h : callStep poolSize s i job c e = some s') :
    ∃ c', CallMove poolSize s i c e c' s' := by
  cases e with
  | grow =>
    simp only [callStep] at h
    split at h
    · rename_i hpc
      cases h
      exact ⟨_, .goto (by rw [hpc]; exact fun _ h => nomatch h) rfl⟩
    · cases h
  | take w =>
    simp only [callStep] at h
    split at h
    · rename_i hpc
      cases h
      exact ⟨_, .goto (by rw [hpc]; exact fun _ h => nomatch h) rfl⟩
    · cases h
  | beforeSubmit accept =>
    simp only [callStep] at h
    split at h
    · rename_i hpc
      cases h
      exact ⟨_, .goto (by rw [hpc]; exact fun _ h => nomatch h) rfl⟩
    · cases h
  | submitJob raised =>
    simp only [callStep] at h
    split at h
    · rename_i hpc
      split at h <;> cases h <;> exact ⟨_, .goto (by rw [hpc]; exact fun _ h => nomatch h) rfl⟩
    · cases h
  | doneWithProcess =>
    simp only [callStep] at h
    split at h
    · cases h
      exact ⟨_, .goto (fun _ _ => rfl) rfl⟩
    · cases h
      exact ⟨_, .goto (fun _ _ => rfl) rfl⟩
    · cases h
      exact ⟨_, .goto (fun _ _ => rfl) rfl⟩
    · rename_i hpc
      cases h
      exact ⟨_, .goto (by rw [hpc]; exact fun _ h => nomatch h) rfl⟩
    · cases h
  | kill =>
    simp only [callStep] at h
    split at h
    · rename_i hpc
      cases h
      exact ⟨_, .goto (by rw [hpc]; exact fun _ h => nomatch h) rfl⟩
    · cases h
  | setPid =>
    simp only [callStep] at h
    split at h
    · rename_i w hpc
      cases h
      exact ⟨_, rfl, rfl, rfl, rfl, .inr ⟨w, hpc⟩, fun _ h => h, .inl rfl, .inl rfl⟩
    · cases h
  | add =>
    simp only [callStep] at h
    split at h
    · rename_i w hpc
      split at h
      · rename_i hpid
        cases h
        refine ⟨{ c with pc := .polling w }, rfl, rfl, rfl, rfl, .inl rfl, ?_, ?_, .inl rfl⟩
        · rw [hpc]
          exact fun _ h => nomatch h
        · exact .inr ⟨rfl, w, hpid, decide_eq_true rfl⟩
      · cases h
    · cases h
  | poll p =>
    simp only [callStep] at h
    split at h
    · rename_i w hpc
      split at h
      · cases h
        exact ⟨c, .stay hc⟩
      · rename_i hp
        cases h
        exact ⟨_, .settle (by rw [hpc]; exact fun _ h => h) rfl (by rw [hpc]; simpa [settles] using hp)⟩
    · cases h
  | advance =>
    simp only [callStep] at h
    split at h
    · rename_i hpc
      cases h
      exact ⟨_, .goto (by rw [hpc]; exact fun _ h => nomatch h) rfl⟩
    · rename_i hpc
      cases h
      exact ⟨_, .settle (by rw [hpc]; exact fun _ h => nomatch h) rfl (by rw [hpc]; rfl)⟩
    · rename_i w hpc
      split at h
      · cases h
        exact ⟨_, .goto (by rw [hpc]; exact fun _ h => nomatch h) rfl⟩
      · cases h
        exact ⟨_, .settle (by rw [hpc]; exact fun _ h => nomatch h) rfl (by rw [hpc]; rfl)⟩
    · rename_i hpc
      split at h
      · obtain ⟨base, hbase, rfl⟩ := Option.map_eq_some_iff.mp h
        exact ⟨_, rfl, rfl, rfl, rfl, .inl rfl, fun _ _ => rfl, .inl rfl, .inr (.inl hbase)⟩
      · cases h
        have hstay : CallMove poolSize s i c .advance c s := .stay hc
        refine ⟨c, ?_⟩
        unfold State.settle
        split
        · rename_i base hbase
          exact ⟨hstay.calls, rfl, rfl, rfl, .inl rfl, fun _ h => h, .inl rfl,
            .inr (.inr ⟨by rw [hpc]; rfl, hbase⟩)⟩
        · exact hstay
    · cases h
  | raises =>
    simp only [callStep] at h
    split at h
    · cases h
    · cases h
    · cases h
      exact ⟨_, .goto (fun _ _ => rfl) rfl⟩

end Calls

/-! ## What a step can do -/

inductive Move (poolSize : Nat) (s : State) : Label → State → Prop
  | base {l : Backlog.Label} {s' : State} : baseStep poolSize s l = some s' → Move poolSize s (.base l) s'
  | call {i : Nat} {e : Event} {job : Job} {c c' : Call} {s' : State} :
      s.base.tasks[i]? = some ⟨job, true⟩ → s.calls[i]? = some c → CallMove poolSize s i c e c' s' →
      Move poolSize s (.call i e) s'
  | look {k : Nat} : s.kills k = true → s.stops k = .before → Move poolSize s (.look k)
      { s with
        stops := Function.update s.stops k (.cancelling s.runningFuts)
        looked := Function.update s.looked k (some s.started) }
  | cancel {k i : Nat} {rest : List Nat} {base : Backlog.State} : s.kills k = true →
      s.stops k = .cancelling (i :: rest) → Backlog.step poolSize s.base (.stop k i) = some base →
      Move poolSize s (.cancel k)
        { s with base, stops := Function.update s.stops k (.killing i rest) }
  | kill {k i : Nat} {rest : List Nat} : s.kills k = true → s.stops k = .killing i rest →
      Move poolSize s (.kill k)
        { s with
          stops := Function.update s.stops k (.cancelling rest)
          killed := s.killed ++ (s.calls[i]?.bind Call.pid).toList }
  | leave {k : Nat} : s.kills k = true → s.stops k = .cancelling [] →
      Move poolSize s (.leave k) { s with stops := Function.update s.stops k .past }
  | collect {i : Nat} :
      Move poolSize s (.collect i) { s with runningFuts := s.runningFuts.filter (· ≠ i) }

theorem step_move {poolSize : Nat} {s s' : State} {l : Label} (h : step poolSize s l = some s') :
    Move poolSize s l s' := by
  cases l with
  | base l => exact .base h
  | call i e =>
    simp only [step] at h
    split at h
    · rename_i job c hi hc
      obtain ⟨c', hm⟩ := callStep_move hc h
      exact .call hi hc hm
    · cases h
  | look k =>
    simp only [step, stopStep] at h
    split at h
    · rename_i hkills
      split at h
      · rename_i hstop
        cases h
        exact .look hkills hstop
      · cases h
    · cases h
  | cancel k =>
    simp only [step, stopStep] at h
    split at h
    · rename_i hkills
      split at h
      · rename_i i rest hstop
        obtain ⟨base, hb, rfl⟩ := Option.map_eq_some_iff.mp h
        exact .cancel hkills hstop hb
      · cases h
    · cases h
  | kill k =>
    simp only [step, stopStep] at h
    split at h
    · rename_i hkills
      split at h
      · rename_i i rest hstop
        cases h
        exact .kill hkills hstop
      · cases h
    · cases h
  | leave k =>
    simp only [step, stopStep] at h
    split at h
    · rename_i hkills
      split at h
      · rename_i hstop
        cases h
        exact .leave hkills hstop
      · cases h
    · cases h
  | collect i =>
    simp only [step] at h
    split at h
    · cases h
      exact .collect
    · cases h

/-! ## The condition -/

def State.outcome (s : State) (f : Nat) : FutureState := (s.base.futs f).state

/-- The future of a task is in `running_futs`. -/
def State.inRunningFuts (s : State) (f : Nat) : Bool :=
  s.runningFuts.any fun i => (s.base.tasks[i]?.map fun task => task.job.fut) == some f

/-- The futures that the loop has still to cancel. -/
def Stop.rest : Stop → List Nat
  | .cancelling rest | .killing _ rest => rest
  | _ => []

/-- Some loop has still to cancel the future of task `i`. -/
def State.awaited (s : State) (i : Nat) : Bool :=
  (List.range s.base.shutdowns.length).any fun k => decide (i ∈ (s.stops k).rest)

/-- `shutdown` looks when every started task is in `running_futs`, no outcome is set on a future that a
loop has still to cancel, and no callback of a future that a loop cancels lets an exception escape. -/
def Swept (s : State) : Label → Bool
  | .look _ => s.started.all s.inRunningFuts
  | .call i e =>
    match s.base.tasks[i]?, s.calls[i]? with
    | some task, some c => !(settles c.pc e && s.awaited i && !(s.outcome task.job.fut).done)
    | _, _ => true
  | .cancel k =>
    match s.stops k with
    | .cancelling (i :: _) =>
      (s.base.tasks[i]?.map fun task => !(s.base.futs task.job.fut).cancelEscapes).getD true
    | _ => true
  | _ => true

/-! ## The invariant -/

/-- The future of thread `i` got the pid `w` and was added to `running_futs`. -/
def State.AddedWith (s : State) (i w : Nat) : Prop :=
  ∃ c, s.calls[i]? = some c ∧ c.pid = some w ∧ addedAt w c.pc = true

/-- The future `f` of thread `i` is cancelled and its worker was sent the signal. -/
def State.Dead (s : State) (i f : Nat) : Prop :=
  s.outcome f = .cancelled ∧ ∃ w, s.AddedWith i w ∧ w ∈ s.killed

/-- The loop is about to do so, or has done so. -/
def State.Due (s : State) (k i f : Nat) : Prop :=
  s.Dead i f ∨ i ∈ (s.stops k).rest ∧ (s.outcome f = .pending ∨ s.outcome f = .cancelled) ∨
    ∃ rest, s.stops k = .killing i rest ∧ s.outcome f = .cancelled

/-- The futures that the loop still deals with. -/
def Stop.open : Stop → List Nat
  | .cancelling rest => rest
  | .killing i rest => i :: rest
  | _ => []

def Stop.active : Stop → Bool
  | .cancelling _ | .killing _ _ => true
  | _ => false

structure Inv (s : State) : Prop where
  length : s.calls.length = s.base.tasks.length
  unset : ∀ f, s.outcome f = .pending ∨ s.outcome f = .cancelled ∨ s.outcome f = .finished
  running : ∀ i ∈ s.runningFuts, ∃ w, s.AddedWith i w
  opened : ∀ k, ∀ i ∈ (s.stops k).open, ∃ w, s.AddedWith i w
  kills : ∀ k, (s.stops k).active = true → s.base.shutdowns[k]? = some ⟨false, true, .stopping⟩
  began : ∀ k owed, s.looked k = some owed → s.stops k ≠ .before
  owed : ∀ k owed, s.looked k = some owed → ∀ f ∈ owed, ∃ i task, s.base.tasks[i]? = some task ∧
    task.job.fut = f ∧ s.Due k i f

theorem inv_init (maxBacklog : Int) : Inv (init maxBacklog) where
  length := rfl
  unset := fun _ => .inl rfl
  running := by simp [init]
  opened := by simp [init, Stop.open]
  kills := by simp [init, Stop.active]
  began := by simp [init]
  owed := by simp [init]

section Invariant

variable {poolSize : Nat} {s s' : State}

theorem Stop.active_of_rest {p : Stop} {i : Nat} (h : i ∈ p.rest) : p.active = true := by
  cases p with
  | cancelling | killing => rfl
  | before | past => cases h

theorem Stop.open_of_rest {p : Stop} {i : Nat} (h : i ∈ p.rest) : i ∈ p.open := by
  cases p with
  | cancelling => exact h
  | killing => exact List.mem_cons_of_mem _ h
  | before | past => cases h

theorem Inv.awaited (h : Inv s) {k i : Nat} (hi : i ∈ (s.stops k).rest) : s.awaited i = true := by
  have hk := lt_of_getElem? (h.kills k (Stop.active_of_rest hi))
  exact List.any_eq_true.mpr ⟨k, List.mem_range.mpr hk, decide_eq_true hi⟩

/-- A step outside the loop. -/
theorem Inv.frame (h : Inv s) (hlength : s'.calls.length = s'.base.tasks.length)
    (hunset : ∀ f, s'.outcome f = .pending ∨ s'.outcome f = .cancelled ∨ s'.outcome f = .finished)
    (htasks : ∀ (i : Nat) (task : Backlog.Task), s.base.tasks[i]? = some task →
      ∃ task' : Backlog.Task, s'.base.tasks[i]? = some task' ∧ task'.job = task.job)
    (hadded : ∀ i w, s.AddedWith i w → s'.AddedWith i w)
    (hrunning : ∀ i ∈ s'.runningFuts, ∃ w, s'.AddedWith i w) (hstops : s'.stops = s.stops)
    (hlooked : s'.looked = s.looked) (hkilled : s'.killed = s.killed)
    (hkills : ∀ k, (s.stops k).active = true → s'.base.shutdowns[k]? = some ⟨false, true, .stopping⟩)
    (hcancelled : ∀ f, s.outcome f = .cancelled → s'.outcome f = .cancelled)
    (hpending : ∀ (i : Nat) (task : Backlog.Task), s.base.tasks[i]? = some task → s.awaited i = true →
      s.outcome task.job.fut = .pending →
      s'.outcome task.job.fut = .pending ∨ s'.outcome task.job.fut = .cancelled) : Inv s' where
  length := hlength
  unset := hunset
  running := hrunning
  opened := by
    intro k i hi
    rw [hstops] at hi
    obtain ⟨w, hw⟩ := h.opened k i hi
    exact ⟨w, hadded i w hw⟩
  kills := by
    rw [hstops]
    exact hkills
  began := by
    rw [hstops, hlooked]
    exact h.began
  owed := by
    intro k owed hk f hf
    rw [hlooked] at hk
    obtain ⟨i, task, hi, hfut, hdue⟩ := h.owed k owed hk f hf
    obtain ⟨task', hi', hjob⟩ := htasks i task hi
    refine ⟨i, task', hi', by rw [hjob]; exact hfut, ?_⟩
    rcases hdue with ⟨hout, w, hw, hmem⟩ | ⟨hrest, hp | hout⟩ | ⟨rest, hkilling, hout⟩
    · exact .inl ⟨hcancelled f hout, w, hadded i w hw, hkilled ▸ hmem⟩
    · refine .inr (.inl ⟨hstops ▸ hrest, ?_⟩)
      subst hfut
      exact hpending i task hi (h.awaited hrest) hp
    · exact .inr (.inl ⟨hstops ▸ hrest, .inr (hcancelled f hout)⟩)
    · exact .inr (.inr ⟨rest, hstops ▸ hkilling, hcancelled f hout⟩)

theorem unset_of_change {l : Backlog.Label} {t : Backlog.State} (h : Inv s)
    (hc : Backlog.Change poolSize s.base l t) (hl : ∀ i, l ≠ .settle i) (f : Nat) :
    (t.futs f).state = .pending ∨ (t.futs f).state = .cancelled ∨ (t.futs f).state = .finished := by
  rcases change_state hc hl f with heq | ⟨-, heq⟩
  · rw [heq]
    exact h.unset f
  · exact .inr (.inl heq)

theorem cancelled_of_change {l : Backlog.Label} {t : Backlog.State}
    (hc : Backlog.Change poolSize s.base l t) (hl : ∀ i, l ≠ .settle i) {f : Nat}
    (h : s.outcome f = .cancelled) : (t.futs f).state = .cancelled := by
  rcases change_state hc hl f with heq | ⟨-, heq⟩
  · exact heq.trans h
  · exact heq

theorem pending_of_change {l : Backlog.Label} {t : Backlog.State}
    (hc : Backlog.Change poolSize s.base l t) (hl : ∀ i, l ≠ .settle i) {f : Nat}
    (h : s.outcome f = .pending) : (t.futs f).state = .pending ∨ (t.futs f).state = .cancelled := by
  rcases change_state hc hl f with heq | ⟨-, heq⟩
  · exact .inl (heq.trans h)
  · exact .inr heq

/-- A step of the queue, the runner or another part of `shutdown`. -/
theorem Inv.base {l : Backlog.Label} {base : Backlog.State} (h : Inv s)
    (hb : Backlog.step poolSize s.base l = some base) (hlaunch : l ≠ .launch)
    (hsettle : ∀ i, l ≠ .settle i) (hstop : ∀ k i, l ≠ .stop k i)
    (hjoin : ∀ k, l = .join k → (s.stops k).active = false) : Inv { s with base } := by
  have hc := Backlog.step_change hb
  refine h.frame (h.length.trans (change_length hc hlaunch).symm) (unset_of_change h hc hsettle)
    (fun i task => change_tasks hc) (fun _ _ hadded => hadded) h.running rfl rfl rfl ?_
    (fun f => cancelled_of_change hc hsettle) fun i task _ _ => pending_of_change hc hsettle
  intro k hactive
  refine change_stopping hc (h.kills k hactive) (fun hl => ?_) (hstop k)
  rw [hjoin k hl] at hactive
  cases hactive

theorem Inv.launch {base : Backlog.State} (h : Inv s)
    (hb : Backlog.step poolSize s.base .launch = some base) :
    Inv { s with base, calls := s.calls ++ [⟨.loop 10, none⟩] } := by
  have hc := Backlog.step_change hb
  have hsettle : ∀ i, Backlog.Label.launch ≠ .settle i := fun _ hl => by cases hl
  have hadded : ∀ i w, s.AddedWith i w →
      State.AddedWith { s with base, calls := s.calls ++ [⟨.loop 10, none⟩] } i w := by
    rintro i w ⟨c, hi, hpid, hat⟩
    exact ⟨c, getElem?_append_of_some hi, hpid, hat⟩
  have hlength : (s.calls ++ [(⟨.loop 10, none⟩ : Call)]).length = base.tasks.length := by
    cases hc with
    | launch job hr =>
      show (s.calls ++ _).length = (s.base.tasks ++ _).length
      rw [List.length_append, List.length_append, h.length]
      rfl
  refine h.frame hlength (unset_of_change h hc hsettle) (fun i task => change_tasks hc) hadded
    (fun i hi => ?_) rfl rfl rfl ?_ (fun f => cancelled_of_change hc hsettle)
    fun i task _ _ => pending_of_change hc hsettle
  · obtain ⟨w, hw⟩ := h.running i hi
    exact ⟨w, hadded i w hw⟩
  · intro k hactive
    exact change_stopping hc (h.kills k hactive) (fun hl => by cases hl) fun i hl => by cases hl

theorem inv_base {l : Backlog.Label} (h : Inv s) (hs : baseStep poolSize s l = some s') : Inv s' := by
  cases l with
  | settle i => cases hs
  | finish i => cases hs
  | stop k i => cases hs
  | launch =>
    obtain ⟨base, hb, rfl⟩ := Option.map_eq_some_iff.mp hs
    exact h.launch hb
  | join k =>
    simp only [baseStep] at hs
    split at hs
    · cases hs
    · rename_i hpast
      obtain ⟨base, hb, rfl⟩ := Option.map_eq_some_iff.mp hs
      refine h.base hb (fun hl => by cases hl) (fun i hl => by cases hl) (fun k i hl => by cases hl) ?_
      rintro k' ⟨⟩
      rw [← Bool.not_eq_true]
      intro hactive
      refine hpast ⟨?_, ?_⟩
      · exact beq_iff_eq.mpr (h.kills k hactive)
      · intro hp
        rw [hp] at hactive
        cases hactive
  | _ =>
    simp only [baseStep] at hs
    obtain ⟨base, hb, rfl⟩ := Option.map_eq_some_iff.mp hs
    exact h.base hb (fun hl => by cases hl) (fun i hl => by cases hl) (fun k i hl => by cases hl)
      fun k hl => by cases hl

/-! ### Threads of `run_task` -/

theorem step_settle {t b : Backlog.State} {i : Nat} {job : Job} (hi : t.tasks[i]? = some ⟨job, true⟩)
    (hb : Backlog.step poolSize t (.settle i) = some b) :
    (t.futs job.fut).state.done = false ∧ b = { t with
      futs := Function.update t.futs job.fut { t.futs job.fut with state := .finished } } := by
  simp only [Backlog.step, Backlog.submitStep, Backlog.shutdownStep, Backlog.runnerStep, hi,
    Option.none_or] at hb
  split at hb
  · cases hb
  · rename_i hopen
    cases hb
    exact ⟨Bool.eq_false_iff.mpr hopen, rfl⟩

theorem CallMove.addedWith {i : Nat} {c c' : Call} {e : Event} (hm : CallMove poolSize s i c e c' s')
    (hc : s.calls[i]? = some c) {j w : Nat} (h : s.AddedWith j w) : s'.AddedWith j w := by
  obtain ⟨d, hd, hpid, hat⟩ := h
  unfold State.AddedWith
  rw [hm.calls]
  by_cases hij : i = j
  · subst hij
    rw [hc] at hd
    cases hd
    refine ⟨c', List.getElem?_set_self (lt_of_getElem? hc), ?_, hm.added w hat⟩
    rcases hm.pid with heq | ⟨w', hpc⟩
    · exact heq.trans hpid
    · rw [hpc] at hat
      cases hat
  · exact ⟨d, by rw [List.getElem?_set_ne hij]; exact hd, hpid, hat⟩

/-- Two threads do not share a future. -/
theorem task_unique {maxBacklog : Int} {t : Backlog.State}
    (ht : (Backlog.system maxBacklog poolSize).Reachable t) {i j : Nat} {a b : Backlog.Task}
    (hi : t.tasks[i]? = some a) (hj : t.tasks[j]? = some b) (hjob : a.job = b.job) : i = j := by
  have hcopies := (Backlog.tally_reachable ht).copies a.job.fut
  have hone : t.tasks.countP (fun task => task.job == ⟨a.job.fut⟩) ≤ 1 := by
    have := Bool.toNat_le (t.hasReturned a.job.fut)
    unfold Backlog.State.copies at hcopies
    omega
  exact index_unique hone hi hj (beq_self_eq_true _) (by rw [← hjob]; exact beq_self_eq_true _)

/-- A step of `run_task`. -/
theorem inv_call {maxBacklog : Int} (h : Inv s)
    (hbase : (Backlog.system maxBacklog poolSize).Reachable s.base) {i : Nat} {job : Job} {c : Call}
    {e : Event} {c' : Call} (hi : s.base.tasks[i]? = some ⟨job, true⟩) (hc : s.calls[i]? = some c)
    (hswept : Swept s (.call i e) = true) (hm : CallMove poolSize s i c e c' s') : Inv s' := by
  have hadded : ∀ j w, s.AddedWith j w → s'.AddedWith j w := fun j w => hm.addedWith hc
  have hlength : s'.calls.length = s.calls.length := by
    rw [hm.calls]
    exact List.length_set
  have hrunning : ∀ j ∈ s'.runningFuts, ∃ w, s'.AddedWith j w := by
    intro j hj
    rcases hm.running with heq | ⟨heq, w, hpid, hat⟩
    · rw [heq] at hj
      obtain ⟨w, hw⟩ := h.running j hj
      exact ⟨w, hadded j w hw⟩
    · rw [heq] at hj
      rcases List.mem_append.mp hj with hj | hj
      · obtain ⟨w, hw⟩ := h.running j hj
        exact ⟨w, hadded j w hw⟩
      · rw [List.mem_singleton.mp hj]
        refine ⟨w, c', ?_, hpid, hat⟩
        rw [hm.calls]
        exact List.getElem?_set_self (lt_of_getElem? hc)
  rcases hm.base with heq | hfinish | ⟨hsettles, hsettle⟩
  · have houtcome : ∀ f, s'.outcome f = s.outcome f := fun f => by rw [State.outcome, heq]; rfl
    refine h.frame (by rw [hlength, heq]; exact h.length) (fun f => by rw [houtcome]; exact h.unset f)
      (fun j task hj => ⟨task, by rw [heq]; exact hj, rfl⟩) hadded hrunning hm.stops hm.looked
      hm.killed (fun k hk => by rw [heq]; exact h.kills k hk)
      (fun f hf => by rw [houtcome]; exact hf) fun j task _ _ hp => .inl (by rw [houtcome]; exact hp)
  · have hchange := Backlog.step_change hfinish
    have hl : ∀ j, Backlog.Label.finish i ≠ .settle j := fun _ hl => by cases hl
    refine h.frame ?_ (unset_of_change h hchange hl) (fun j task => change_tasks hchange) hadded
      hrunning hm.stops hm.looked hm.killed ?_ (fun f => cancelled_of_change hchange hl)
      fun j task _ _ => pending_of_change hchange hl
    · rw [hlength, change_length hchange (fun hl => by cases hl)]
      exact h.length
    · intro k hk
      exact change_stopping hchange (h.kills k hk) (fun hl => by cases hl) fun j hl => by cases hl
  · obtain ⟨hopen, heq⟩ := step_settle hi hsettle
    -- no loop has still to cancel the future
    have hawaited : s.awaited i = false := by
      simp only [Swept, hi, hc, hsettles, State.outcome, hopen] at hswept
      simpa using hswept
    have hother : ∀ f, f ≠ job.fut → s'.outcome f = s.outcome f := by
      intro f hf
      rw [State.outcome, heq]
      exact congrArg Future.state (Function.update_of_ne hf _ _)
    have hself : s'.outcome job.fut = .finished := by
      rw [State.outcome, heq]
      show (Function.update s.base.futs job.fut _ job.fut).state = _
      rw [Function.update_self]
    refine h.frame (by rw [hlength, heq]; exact h.length) (fun f => ?_)
      (fun j task hj => ⟨task, by rw [heq]; exact hj, rfl⟩) hadded hrunning hm.stops hm.looked
      hm.killed (fun k hk => by rw [heq]; exact h.kills k hk) (fun f hf => ?_) fun j task hj haw hp => ?_
    · by_cases hf : f = job.fut
      · subst hf
        exact .inr (.inr hself)
      · rw [hother f hf]
        exact h.unset f
    · rw [hother f]
      · exact hf
      · rintro rfl
        rw [State.outcome] at hf
        rw [hf] at hopen
        cases hopen
    · rw [hother task.job.fut]
      · exact .inl hp
      · intro hfut
        have hjob : task.job = job := by
          obtain ⟨⟨f⟩, live⟩ := task
          obtain ⟨g⟩ := job
          exact congrArg Job.mk hfut
        have hij := task_unique hbase hj hi hjob
        rw [hij, hawaited] at haw
        cases haw

/-! ### The loop of `shutdown` -/

theorem mem_started {f : Nat} (hf : f ∈ s.started) : s.outcome f = .pending ∨
    s.outcome f = .running := by
  have hopen := (List.mem_filter.mp hf).2
  unfold State.outcome
  cases hs : (s.base.futs f).state with
  | pending => exact .inl rfl
  | running => exact .inr rfl
  | _ =>
    rw [hs] at hopen
    cases hopen

/-- A step of the loop of call `k`. -/
theorem Inv.restop (h : Inv s) {k : Nat} {p : Stop} {killed : List Nat}
    {looked : Nat → Option (List Nat)} (hkills : s.kills k = true) (hbegan : p ≠ .before)
    (hopened : ∀ i ∈ p.open, ∃ w, s.AddedWith i w) (hkilled : ∀ w ∈ s.killed, w ∈ killed)
    (hlooked : ∀ k', k' ≠ k → looked k' = s.looked k')
    (howed : ∀ owed, looked k = some owed → ∀ f ∈ owed, ∃ i task, s.base.tasks[i]? = some task ∧
      task.job.fut = f ∧
        State.Due { s with stops := Function.update s.stops k p, killed, looked } k i f) :
    Inv { s with stops := Function.update s.stops k p, killed, looked } where
  length := h.length
  unset := h.unset
  running := h.running
  opened := by
    intro k' i hi
    dsimp only at hi
    by_cases hk : k' = k
    · subst hk
      rw [Function.update_self] at hi
      exact hopened i hi
    · rw [Function.update_of_ne hk] at hi
      exact h.opened k' i hi
  kills := by
    intro k' hactive
    dsimp only at hactive
    by_cases hk : k' = k
    · subst hk
      exact beq_iff_eq.mp hkills
    · rw [Function.update_of_ne hk] at hactive
      exact h.kills k' hactive
  began := by
    intro k' owed hl
    dsimp only at hl ⊢
    by_cases hk : k' = k
    · subst hk
      rw [Function.update_self]
      exact hbegan
    · rw [hlooked k' hk] at hl
      rw [Function.update_of_ne hk]
      exact h.began k' owed hl
  owed := by
    intro k' owed hl f hf
    by_cases hk : k' = k
    · subst hk
      exact howed owed hl f hf
    · dsimp only at hl
      rw [hlooked k' hk] at hl
      obtain ⟨i, task, htask, hfut, hdue⟩ := h.owed k' owed hl f hf
      have hsame : (Function.update s.stops k p) k' = s.stops k' := Function.update_of_ne hk _ _
      refine ⟨i, task, htask, hfut, ?_⟩
      rcases hdue with ⟨hout, w, hw, hmem⟩ | ⟨hrest, hout⟩ | ⟨rest, hkilling, hout⟩
      · exact .inl ⟨hout, w, hw, hkilled w hmem⟩
      · refine .inr (.inl ⟨?_, hout⟩)
        show i ∈ (Function.update s.stops k p k').rest
        rw [hsame]
        exact hrest
      · exact .inr (.inr ⟨rest, hsame.trans hkilling, hout⟩)

/-- The copy of `running_futs`. -/
theorem Inv.look (h : Inv s) {k : Nat} (hkills : s.kills k = true)
    (hswept : Swept s (.look k) = true) :
    Inv { s with
      stops := Function.update s.stops k (.cancelling s.runningFuts)
      looked := Function.update s.looked k (some s.started) } := by
  refine h.restop hkills (fun hp => by cases hp) h.running (fun _ hw => hw)
    (fun k' hk => Function.update_of_ne hk _ _) ?_
  intro owed hl f hf
  rw [Function.update_self] at hl
  cases hl
  obtain ⟨i, hi, heq⟩ := List.any_eq_true.mp (List.all_eq_true.mp hswept f hf)
  obtain ⟨task, htask, hfut⟩ := Option.map_eq_some_iff.mp (beq_iff_eq.mp heq)
  refine ⟨i, task, htask, hfut, .inr (.inl ⟨?_, ?_⟩)⟩
  · show i ∈ (Function.update s.stops k (.cancelling s.runningFuts) k).rest
    rw [Function.update_self]
    exact hi
  · rcases mem_started hf with hp | hr
    · exact .inl hp
    · rcases h.unset f with hu | hu | hu <;> rw [hu] at hr <;> cases hr

/-- `kill_proc_tree` -/
theorem Inv.kill (h : Inv s) {k i : Nat} {rest : List Nat} (hkills : s.kills k = true)
    (hstop : s.stops k = .killing i rest) :
    Inv { s with
      stops := Function.update s.stops k (.cancelling rest)
      killed := s.killed ++ (s.calls[i]?.bind Call.pid).toList } := by
  have hkilled : ∀ w ∈ s.killed, w ∈ s.killed ++ (s.calls[i]?.bind Call.pid).toList :=
    fun w hw => List.mem_append_left _ hw
  refine h.restop hkills (fun hp => by cases hp) (fun j hj => ?_) hkilled (fun _ _ => rfl) ?_
  · refine h.opened k j ?_
    rw [hstop]
    exact List.mem_cons_of_mem _ hj
  · intro owed hl f hf
    obtain ⟨j, task, htask, hfut, hdue⟩ := h.owed k owed hl f hf
    refine ⟨j, task, htask, hfut, ?_⟩
    rw [State.Due, hstop] at hdue
    rcases hdue with ⟨hout, w, hw, hmem⟩ | ⟨hrest, hout⟩ | ⟨rest', hkilling, hout⟩
    · exact .inl ⟨hout, w, hw, hkilled w hmem⟩
    · refine .inr (.inl ⟨?_, hout⟩)
      show j ∈ (Function.update s.stops k (.cancelling rest) k).rest
      rw [Function.update_self]
      exact hrest
    · -- the future that the signal is for
      cases hkilling
      obtain ⟨w, c, hc, hpid, hat⟩ := h.opened k i (by rw [hstop]; exact List.mem_cons_self)
      refine .inl ⟨hout, w, ⟨c, hc, hpid, hat⟩, List.mem_append_right _ ?_⟩
      rw [hc, Option.bind_some, hpid]
      exact List.mem_singleton_self w

theorem Inv.leave (h : Inv s) {k : Nat} (hkills : s.kills k = true)
    (hstop : s.stops k = .cancelling []) :
    Inv { s with stops := Function.update s.stops k .past } := by
  refine h.restop hkills (fun hp => by cases hp) (fun i hi => by cases hi) (fun _ hw => hw)
    (fun _ _ => rfl) ?_
  intro owed hl f hf
  obtain ⟨j, task, htask, hfut, hdue⟩ := h.owed k owed hl f hf
  refine ⟨j, task, htask, hfut, ?_⟩
  rw [State.Due, hstop] at hdue
  rcases hdue with hdead | ⟨hrest, -⟩ | ⟨rest', hkilling, -⟩
  · exact .inl hdead
  · cases hrest
  · cases hkilling

/-- `fut.cancel()` -/
theorem Inv.cancel (h : Inv s) {k i : Nat} {rest : List Nat} {base : Backlog.State}
    (hkills : s.kills k = true) (hstop : s.stops k = .cancelling (i :: rest))
    (hswept : Swept s (.cancel k) = true) (hb : Backlog.step poolSize s.base (.stop k i) = some base) :
    Inv { s with base, stops := Function.update s.stops k (.killing i rest) } := by
  have hk : s.base.shutdowns[k]? = some ⟨false, true, .stopping⟩ := beq_iff_eq.mp hkills
  obtain ⟨w, c, hc, hpid, hat⟩ := h.opened k i (by rw [hstop]; exact List.mem_cons_self)
  obtain ⟨task, htask⟩ : ∃ task, s.base.tasks[i]? = some task := by
    have hi := lt_of_getElem? hc
    rw [h.length] at hi
    exact ⟨_, List.getElem?_eq_getElem hi⟩
  have hquiet : (s.base.futs task.job.fut).cancelEscapes = false := by
    simpa [Swept, hstop, htask] using hswept
  -- the cancellation does not raise
  have hbase : base = (s.base.cancelFuture task.job.fut).1 := by
    simp only [Backlog.step, Backlog.submitStep, Backlog.shutdownStep, hk, htask, Option.none_or] at hb
    split at hb
    · rename_i t ht
      have hnone : (s.base.futs task.job.fut).cancel.2 = none := congrArg Prod.snd ht
      rw [Future.cancel_none, hquiet] at hnone
      cases hnone
    · rename_i t b ht
      cases hb
      exact (congrArg Prod.fst ht).symm
  have hstate := Backlog.cancelFuture_state s.base task.job.fut
  rw [← hbase] at hstate
  have htasks : base.tasks = s.base.tasks := by rw [hbase]; rfl
  have hshut : base.shutdowns = s.base.shutdowns := by rw [hbase]; rfl
  have hinv : Inv { s with base } := by
    refine h.frame (h.length.trans (congrArg List.length htasks.symm)) (fun f => ?_)
      (fun j task hj => ⟨task, by rw [htasks]; exact hj, rfl⟩) (fun _ _ hw => hw) h.running rfl rfl
      rfl (fun k' hk' => by rw [hshut]; exact h.kills k' hk') (fun f hf => ?_) fun j task _ _ hp => ?_
    · rcases hstate f with heq | ⟨-, heq⟩
      · rw [State.outcome, heq]
        exact h.unset f
      · exact .inr (.inl heq)
    · rcases hstate f with heq | ⟨-, heq⟩
      · exact heq.trans hf
      · exact heq
    · rcases hstate task.job.fut with heq | ⟨-, heq⟩
      · exact .inl (heq.trans hp)
      · exact .inr heq
  have hkills' : State.kills { s with base } k = true := by
    unfold State.kills
    rw [hshut]
    exact hkills
  refine hinv.restop hkills' (fun hp => by cases hp) (fun j hj => ?_) (fun _ hw => hw) (fun _ _ => rfl) ?_
  · refine h.opened k j ?_
    rw [hstop]
    exact hj
  · intro owed hl f hf
    obtain ⟨j, task', htask', hfut, hdue⟩ := hinv.owed k owed hl f hf
    refine ⟨j, task', htask', hfut, ?_⟩
    have hupdate : Function.update s.stops k (.killing i rest) k = .killing i rest :=
      Function.update_self _ _ _
    rcases hdue with hdead | ⟨hrest, hout⟩ | ⟨rest', hkilling, -⟩
    · exact .inl hdead
    · have hmem : j ∈ i :: rest := by
        have hrest' : j ∈ (s.stops k).rest := hrest
        rw [hstop] at hrest'
        exact hrest'
      by_cases hj : j = i
      · -- the future that is cancelled
        subst hj
        have htask'' : base.tasks[j]? = some task' := htask'
        rw [htasks, htask] at htask''
        cases htask''
        refine .inr (.inr ⟨rest, hupdate, ?_⟩)
        rcases hout with hp | hcancelled
        · have hold : (s.base.futs f).state = .pending := by
            rcases hstate f with heq | ⟨hp', -⟩
            · exact heq ▸ hp
            · exact hp'
          have hnew : (base.futs f).state = .cancelled := by
            rw [hbase, ← hfut]
            show ((Function.update s.base.futs task.job.fut _) task.job.fut).state = _
            rw [Function.update_self]
            unfold Future.cancel
            rw [hfut, hold]
          exact hnew
        · exact hcancelled
      · refine .inr (.inl ⟨?_, hout⟩)
        show j ∈ (Function.update s.stops k (.killing i rest) k).rest
        rw [hupdate]
        rcases List.mem_cons.mp hmem with he | hr
        · exact absurd he hj
        · exact hr
    · have hkilling' : s.stops k = .killing j rest' := hkilling
      rw [hstop] at hkilling'
      cases hkilling'

theorem Inv.collect (h : Inv s) (i : Nat) :
    Inv { s with runningFuts := s.runningFuts.filter (· ≠ i) } :=
  h.frame h.length h.unset (fun _ task hj => ⟨task, hj, rfl⟩) (fun _ _ hw => hw)
    (fun j hj => h.running j (List.mem_of_mem_filter hj)) rfl rfl rfl h.kills (fun _ hf => hf)
    fun _ _ _ _ hp => .inl hp

/-- **One step** that meets the condition. -/
theorem inv_step {maxBacklog : Int} {l : Label} (h : Inv s)
    (hbase : (Backlog.system maxBacklog poolSize).Reachable s.base) (hswept : Swept s l = true)
    (hs : step poolSize s l = some s') : Inv s' := by
  cases step_move hs with
  | base hb => exact inv_base h hb
  | call hi hc hm => exact inv_call h hbase hi hc hswept hm
  | look hkills => exact h.look hkills hswept
  | cancel hkills hstop hb => exact h.cancel hkills hstop hswept hb
  | kill hkills hstop => exact h.kill hkills hstop
  | leave hkills hstop => exact h.leave hkills hstop
  | collect => exact h.collect _

end Invariant

/-! ## Runs -/

section Runs

variable {poolSize : Nat} {s s' : State}

theorem baseStep_base {l : Backlog.Label} (hs : baseStep poolSize s l = some s') :
    Backlog.step poolSize s.base l = some s'.base ∧ s'.stops = s.stops := by
  cases l with
  | settle i => cases hs
  | finish i => cases hs
  | stop k i => cases hs
  | join k =>
    simp only [baseStep] at hs
    split at hs
    · cases hs
    · obtain ⟨base, hb, rfl⟩ := Option.map_eq_some_iff.mp hs
      exact ⟨hb, rfl⟩
  | _ =>
    simp only [baseStep] at hs
    obtain ⟨base, hb, rfl⟩ := Option.map_eq_some_iff.mp hs
    exact ⟨hb, rfl⟩

/-- A step here is a step of `Backlog`, or none of it. -/
theorem step_base {l : Label} (hs : step poolSize s l = some s') :
    s'.base = s.base ∨ ∃ l', Backlog.step poolSize s.base l' = some s'.base := by
  cases step_move hs with
  | base hb => exact .inr ⟨_, (baseStep_base hb).1⟩
  | call hi hc hm =>
    rcases hm.base with heq | hfinish | ⟨-, hsettle⟩
    · exact .inl heq
    · exact .inr ⟨_, hfinish⟩
    · exact .inr ⟨_, hsettle⟩
  | cancel hkills hstop hb => exact .inr ⟨_, hb⟩
  | look | kill | leave | collect => exact .inl rfl

/-- **A run here is a run of `Backlog`**, with its queue, its runner and its futures. -/
theorem base_reachable {maxBacklog : Int} {C : State → Label → Prop}
    (h : (system poolSize maxBacklog).Reach C s) :
    (Backlog.system maxBacklog poolSize).Reachable s.base := by
  refine h.invariant (I := fun s => (Backlog.system maxBacklog poolSize).Reachable s.base) .init ?_
  intro s l s' _ hbase _ hs
  rcases step_base hs with heq | ⟨l', hb⟩
  · rw [heq]
    exact hbase
  · exact .step hbase trivial hb

theorem reach_inv {maxBacklog : Int}
    (h : (system poolSize maxBacklog).Reach (fun s l => Swept s l = true) s) : Inv s :=
  h.invariant (I := Inv) (inv_init maxBacklog) fun _ _ _ hreach hi hswept hs =>
    inv_step hi (base_reachable hreach) hswept hs

/-- What the loop has still to do. -/
def Stop.remaining : Stop → Nat
  | .before | .past => 0
  | .cancelling rest => 2 * rest.length + 1
  | .killing _ rest => 2 * rest.length + 2

/-- Only the loop's own steps change what it has still to do, and they make it less. -/
theorem remaining_le {l : Label} {k : Nat} (hk : s.stops k ≠ .before)
    (hs : step poolSize s l = some s') : (s'.stops k).remaining ≤ (s.stops k).remaining := by
  -- an assignment to the loop of one call
  have hset : ∀ {k' : Nat} {p : Stop}, p.remaining ≤ (s.stops k').remaining →
      (Function.update s.stops k' p k).remaining ≤ (s.stops k).remaining := by
    intro k' p hle
    by_cases he : k = k'
    · subst he
      rw [Function.update_self]
      exact hle
    · rw [Function.update_of_ne he]
  cases step_move hs with
  | base hb => rw [(baseStep_base hb).2]
  | call hi hc hm => rw [hm.stops]
  | @look k' hkills hstop =>
    by_cases he : k = k'
    · exact absurd (he ▸ hstop) hk
    · show (Function.update s.stops k' _ k).remaining ≤ _
      rw [Function.update_of_ne he]
  | cancel hkills hstop hb =>
    refine hset ?_
    rw [hstop]
    simp only [Stop.remaining, List.length_cons]
    omega
  | kill hkills hstop =>
    refine hset ?_
    rw [hstop]
    simp only [Stop.remaining]
    omega
  | leave hkills hstop => exact hset (Nat.zero_le _)
  | collect => exact Nat.le_refl _

/-- The loop can always go on. -/
theorem Inv.progress (h : Inv s) {k : Nat} (hactive : (s.stops k).active = true) :
    ∃ l s', step poolSize s l = some s' ∧ (s'.stops k).remaining < (s.stops k).remaining := by
  have hk := h.kills k hactive
  have hkills : s.kills k = true := beq_iff_eq.mpr hk
  cases hstop : s.stops k with
  | before => rw [hstop] at hactive; cases hactive
  | past => rw [hstop] at hactive; cases hactive
  | killing i rest =>
    refine ⟨.kill k, { s with
      stops := Function.update s.stops k (.cancelling rest)
      killed := s.killed ++ (s.calls[i]?.bind Call.pid).toList },
      by simp only [step, stopStep, hkills, hstop, if_true], ?_⟩
    simp only [Function.update_self, Stop.remaining]
    omega
  | cancelling rest =>
    cases rest with
    | nil =>
      refine ⟨.leave k, { s with stops := Function.update s.stops k .past },
        by simp only [step, stopStep, hkills, hstop, if_true], ?_⟩
      simp only [Function.update_self, Stop.remaining]
      omega
    | cons i rest =>
      obtain ⟨w, c, hc, -⟩ := h.opened k i (by rw [hstop]; exact List.mem_cons_self)
      obtain ⟨task, htask⟩ : ∃ task, s.base.tasks[i]? = some task := by
        have hi := lt_of_getElem? hc
        rw [h.length] at hi
        exact ⟨_, List.getElem?_eq_getElem hi⟩
      obtain ⟨base, hb⟩ : ∃ base, Backlog.step poolSize s.base (.stop k i) = some base := by
        simp only [Backlog.step, Backlog.submitStep, Backlog.shutdownStep, hk, htask, Option.none_or]
        split
        · exact ⟨_, rfl⟩
        · exact ⟨_, rfl⟩
      refine ⟨.cancel k, { s with base, stops := Function.update s.stops k (.killing i rest) },
        by simp only [step, stopStep, hkills, hstop, if_true, hb, Option.map_some], ?_⟩
      simp only [Function.update_self, Stop.remaining, List.length_cons]
      omega

/-- A cancelled future stays cancelled. -/
theorem cancelled_step {l : Label} {f : Nat} (h : s.base.Cancelled f)
    (hs : step poolSize s l = some s') : s'.base.Cancelled f := by
  rcases step_base hs with heq | ⟨l', hb⟩
  · rw [heq]
    exact h
  · by_cases hl : ∃ i, l' = .settle i
    · obtain ⟨i, rfl⟩ := hl
      have hc := Backlog.step_change hb
      generalize s'.base = base at hb hc ⊢
      cases hc with
      | settle i job hi =>
        obtain ⟨hopen, -⟩ := step_settle hi hb
        have hne : f ≠ job.fut := by
          rintro rfl
          rw [show (s.base.futs job.fut).state = .cancelled from h] at hopen
          cases hopen
        show (Function.update s.base.futs job.fut _ f).state = _
        rw [Function.update_of_ne hne]
        exact h
    · exact cancelled_of_change (Backlog.step_change hb) (fun i he => hl ⟨i, he⟩) h

end Runs

/-- **Started tasks are cancelled and killed.** In every run in which `shutdown` looks at
`running_futs` when every started task with an open future is there, no outcome is set on a future that
the loop has still to cancel, and no callback of such a future lets an exception escape: once the loop
is past, every future that was open when `shutdown` looked, of a job taken from the queue, is cancelled
for good and the worker of its task was sent the signal.  The loop gets past: until then it has a step
that leaves less to do, and no other step leaves more. -/
theorem started_tasks_killed (maxBacklog : Int) (poolSize : Nat) {s : State}
    (h : (system poolSize maxBacklog).Reach (fun s l => Swept s l = true) s) {k : Nat}
    {owed : List Nat} (hlooked : s.looked k = some owed) :
    (s.stops k = .past → ∀ f ∈ owed,
      (s.base.Cancelled f ∧ ∀ l t, (system poolSize maxBacklog).step s l = some t →
        t.base.Cancelled f) ∧
      ∃ (i w : Nat) (task : Backlog.Task), s.base.tasks[i]? = some task ∧ task.job.fut = f ∧
        s.AddedWith i w ∧ w ∈ s.killed) ∧
    (s.stops k ≠ .past → ∃ l t, (system poolSize maxBacklog).step s l = some t ∧
      (t.stops k).remaining < (s.stops k).remaining) ∧
    ∀ l t, (system poolSize maxBacklog).step s l = some t →
      (t.stops k).remaining ≤ (s.stops k).remaining := by
  have hinv := reach_inv h
  have hbegan := hinv.began k owed hlooked
  refine ⟨fun hpast f hf => ?_, fun hpast => hinv.progress ?_, fun l t => remaining_le hbegan⟩
  · obtain ⟨i, task, htask, hfut, hdue⟩ := hinv.owed k owed hlooked f hf
    rw [State.Due, hpast] at hdue
    rcases hdue with ⟨hout, w, hw, hmem⟩ | ⟨hrest, -⟩ | ⟨rest, hkilling, -⟩
    · exact ⟨⟨hout, fun l t => cancelled_step hout⟩, i, w, task, htask, hfut, hw, hmem⟩
    · cases hrest
    · cases hkilling
  · cases hstop : s.stops k with
    | before => exact absurd hstop hbegan
    | past => exact absurd hstop hpast
    | cancelling | killing => rfl

/-- One job is submitted, taken by the runner, and gets a thread. -/
def launchOne : List Label :=
  [.base (.submit 0 true), .base (.check 0), .base (.check 0), .base (.draw 0), .base (.put 0),
    .base .slot, .base .get, .base .look, .base .launch]

/-- The thread hands the job to worker 7. -/
def handOver : List Label :=
  [.call 0 .grow, .call 0 (.take 7), .call 0 (.beforeSubmit true), .call 0 (.submitJob none)]

/-- The future gets its pid and is added to `running_futs`. -/
def register : List Label := [.call 0 .setPid, .call 0 .add]

/-- `shutdown(wait=False, cancel_futures=True)` up to its look at `running_futs`. -/
def shutdownLooks : List Label :=
  [.base (.shutdown false true), .base (.pass 0), .base (.close 0), .base (.drain 0),
    .base (.drawSentinel 0), .base (.putSentinel 0), .look 0]

theorem started_tasks_killed_running : ∃ s,
    (system 4 1000).runWhile Swept (init 1000)
        (launchOne ++ handOver ++ register ++ shutdownLooks ++ [.cancel 0, .kill 0, .leave 0]) =
      some s ∧
    s.looked 0 = some [0] ∧ s.killed = [7] ∧ ∀ f ∈ [0], s.base.Cancelled f := by
  have hrun : (((system 4 1000).runWhile Swept (init 1000)
      (launchOne ++ handOver ++ register ++ shutdownLooks ++ [.cancel 0, .kill 0, .leave 0])).map
        fun s => (s.looked 0, s.stops 0, s.killed)) = some (some [0], .past, [7]) := by
    decide +kernel
  obtain ⟨s, hrun, hfacts⟩ := Option.map_eq_some_iff.mp hrun
  obtain ⟨hlooked, hfacts⟩ := Prod.mk.inj hfacts
  obtain ⟨hpast, hkilled⟩ := Prod.mk.inj hfacts
  refine ⟨s, hrun, hlooked, hkilled, fun f hf => ?_⟩
  exact ((started_tasks_killed 1000 4 (.of_runWhile .init _ hrun) hlooked).1 hpast f hf).1.1

/-- **A task that survives**: its thread waits for a worker while `shutdown` looks.  `shutdown` finds
nothing to stop, and the task runs to completion after that. -/
theorem unregistered_task_survives : ∃ s, (system 4 1000).Reachable s ∧
    s.looked 0 = some [0] ∧ s.stops 0 = .past ∧ s.killed = [] ∧ s.outcome 0 = .finished := by
  have hrun : (((system 4 1000).run (init 1000)
      (launchOne ++ shutdownLooks ++ [.leave 0] ++ handOver ++ register ++ [.call 0 (.poll .result)])).map
        fun s => (s.looked 0, s.stops 0, s.killed, s.outcome 0)) =
      some (some [0], .past, [], .finished) := by
    decide +kernel
  obtain ⟨s, hrun, hfacts⟩ := Option.map_eq_some_iff.mp hrun
  obtain ⟨hlooked, hfacts⟩ := Prod.mk.inj hfacts
  obtain ⟨hpast, hfacts⟩ := Prod.mk.inj hfacts
  obtain ⟨hkilled, hout⟩ := Prod.mk.inj hfacts
  exact ⟨s, Lts.System.reachable_of_run hrun, hlooked, hpast, hkilled, hout⟩

end Deadpool.Pool.KillRunning
