import Deadpool.Pool.Backlog

/-!
# What the flags of `shutdown` mean for the backlog

One `shutdown` call on a pool with an arbitrary backlog, beside the runner, the `run_task` threads and
users who cancel futures, and with no `submit` call after it has begun.  The meaning of the flags rests
on where the sentinel stands in the queue: behind every job, since `sys.maxsize` is taken to be the
largest priority, or before every job, since `submit` admits no negative one.

* `unfinished_eq`  : every item taken from the queue is matched by one `task_done`;
* `copies_le`      : a job is in one place at a time, so a launched job is not on the queue;
* `shutdown_flags` : the table of flags, for runs in which no open job has a priority above
  `sys.maxsize` and no drained future has a callback that lets an exception escape.
-/

set_option autoImplicit false

namespace Deadpool.Pool.Backlog

/-! ## What a step can do -/

/-- The effect of one step, by the part of the state it changes. -/
inductive Change (poolSize : Nat) (s : State) : Label → State → Prop
  | enter (p : Int) (block : Bool) (c : Submit) (hc : c.priority = p)
      (hpc : c.pc = if block then .entered else .checked) :
      Change poolSize s (.submit p block) { s with submits := s.submits ++ [c] }
  | check (k : Nat) (c : Submit) (pc : SubmitPc) (hk : s.submits[k]? = some c)
      (hc : c.pc = .entered ∨ c.pc = .checked)
      (hpc : pc = .raised ∨ pc = .checked ∧ 0 ≤ c.priority ∨ pc = .admitted ∧ c.pc = .checked) :
      Change poolSize s (.check k) (s.setSubmit k pc)
  | draw (k : Nat) (c : Submit) (hk : s.submits[k]? = some c) (hc : c.pc = .admitted) :
      Change poolSize s (.draw k)
        ({ s with submissionSequence := s.submissionSequence + 1 }.setSubmit k
          (.putting s.submissionSequence))
  | giveUp (k n : Nat) (c : Submit) (hk : s.submits[k]? = some c) (hc : c.pc = .putting n) :
      Change poolSize s (.put k) (s.setSubmit k .raised)
  | put (k n : Nat) (c : Submit) (hk : s.submits[k]? = some c) (hc : c.pc = .putting n) :
      Change poolSize s (.put k)
        ({ s with submittedJobs := s.submittedJobs.push ⟨c.priority, some ⟨k⟩, n⟩ }.setSubmit k
          .returned)
  | begin (wait cancelFutures : Bool) : Change poolSize s (.shutdown wait cancelFutures)
      { s with shutdowns := s.shutdowns ++ [⟨wait, cancelFutures, .entered⟩] }
  | pass (k : Nat) (w cf : Bool) (hk : s.shutdowns[k]? = some ⟨w, cf, .entered⟩) :
      Change poolSize s (.pass k) (s.setShutdown k (if s.closed then .returned else .passed))
  | close (k : Nat) (w cf : Bool) (hk : s.shutdowns[k]? = some ⟨w, cf, .passed⟩) :
      Change poolSize s (.close k)
        ({ s with closed := true }.setShutdown k (if cf then .draining else .drained))
  | drain (k : Nat) (w cf : Bool) (hk : s.shutdowns[k]? = some ⟨w, cf, .draining⟩) (t : State)
      (ht : t = s.drainTurn.1 ∧ s.drainTurn.2 = .again ∨
        t = s.drainTurn.1.setShutdown k .drained ∧ s.drainTurn.2 = .empty ∨
        ∃ e, t = s.drainTurn.1.setShutdown k (.raised e) ∧ s.drainTurn.2 = .raised e) :
      Change poolSize s (.drain k) t
  | drawSentinel (k : Nat) (w cf : Bool) (hk : s.shutdowns[k]? = some ⟨w, cf, .drained⟩) :
      Change poolSize s (.drawSentinel k)
        ({ s with submissionSequence := s.submissionSequence + 1 }.setShutdown k
          (.putting s.submissionSequence))
  | putSentinel (k n : Nat) (w cf : Bool) (hk : s.shutdowns[k]? = some ⟨w, cf, .putting n⟩) :
      Change poolSize s (.putSentinel k)
        ({ s with
          submittedJobs := s.submittedJobs.push ⟨if w then sysMaxsize else -1, none, n⟩ }.setShutdown k
          .stopping)
  | timeOut (k n : Nat) (w cf : Bool) (hk : s.shutdowns[k]? = some ⟨w, cf, .putting n⟩) :
      Change poolSize s (.timeOut k) (s.setShutdown k (.raised .full))
  | stop (k i : Nat) (task : Task) (hi : s.tasks[i]? = some task)
      (hk : s.shutdowns[k]? = some ⟨false, true, .stopping⟩) (t : State)
      (ht : t = (s.cancelFuture task.job.fut).1 ∨
        t = (s.cancelFuture task.job.fut).1.setShutdown k (.raised .callback)) :
      Change poolSize s (.stop k i) t
  | join (k : Nat) (w cf : Bool) (hk : s.shutdowns[k]? = some ⟨w, cf, .stopping⟩)
      (h : s.submittedJobs.unfinished = 0) : Change poolSize s (.join k) (s.setShutdown k .returned)
  | slot (hr : s.runner = .looping) : Change poolSize s .slot
      { s with runner := .getting, runningJobs := s.runningJobs + 1 }
  | getSentinel (x : PrioritizedItem) (q : PriorityQueue) (hr : s.runner = .getting)
      (hg : s.submittedJobs.get = some (x, q)) (hx : x.item = none) : Change poolSize s .get
      { s with submittedJobs := q.taskDone, runner := .draining, runningJobs := s.runningJobs - 1 }
  | getJob (x : PrioritizedItem) (q : PriorityQueue) (job : Job) (hr : s.runner = .getting)
      (hg : s.submittedJobs.get = some (x, q)) (hx : x.item = some job) :
      Change poolSize s .get { s with submittedJobs := q, runner := .holding job }
  | skip (job : Job) (hr : s.runner = .holding job) (hd : (s.futs job.fut).state.done = true) :
      Change poolSize s .look
        { s with
          submittedJobs := s.submittedJobs.taskDone
          runner := .looping
          runningJobs := s.runningJobs - 1 }
  | pick (job : Job) (hr : s.runner = .holding job) :
      Change poolSize s .look { s with runner := .starting job }
  | launch (job : Job) (hr : s.runner = .starting job) : Change poolSize s .launch
      { s with runner := .looping, tasks := s.tasks ++ [⟨job, true⟩] }
  | runnerDrain (hr : s.runner = .draining) (t : State)
      (ht : t = s.drainTurn.1 ∧ s.drainTurn.2 = .again ∨
        t = { s.drainTurn.1 with runner := .exited none } ∧ s.drainTurn.2 = .empty ∨
        ∃ e, t = { s.drainTurn.1 with runner := .exited (some e) } ∧ s.drainTurn.2 = .raised e) :
      Change poolSize s .runnerDrain t
  | settle (i : Nat) (job : Job) (hi : s.tasks[i]? = some ⟨job, true⟩) : Change poolSize s (.settle i)
      { s with futs := Function.update s.futs job.fut { s.futs job.fut with state := .finished } }
  | finish (i : Nat) (job : Job) (hi : s.tasks[i]? = some ⟨job, true⟩) : Change poolSize s (.finish i)
      { s with
        submittedJobs := s.submittedJobs.taskDone
        runningJobs := s.runningJobs - 1
        tasks := s.tasks.set i ⟨job, false⟩ }
  | cancel (f : Nat) : Change poolSize s (.cancel f) (s.cancelFuture f).1
  | addCallback (f : Nat) : Change poolSize s (.addCallback f)
      { s with futs := Function.update s.futs f { s.futs f with callbackEscapes := true } }

theorem submitStep_change {poolSize : Nat} {s s' : State} {l : Label}
    (h : submitStep s l = some s') : Change poolSize s l s' := by
  unfold submitStep at h
  split at h
  · cases h
    exact .enter _ _ _ rfl rfl
  · split at h
    · cases h
    · rename_i c hk
      split at h
      · rename_i hc
        cases h
        refine .check _ c _ hk (.inl hc) ?_
        split
        · exact .inl rfl
        · rename_i hn
          exact .inr (.inl ⟨rfl, by simp at hn; omega⟩)
      · rename_i hc
        cases h
        refine .check _ c _ hk (.inr hc) ?_
        split
        · exact .inl rfl
        · exact .inr (.inr ⟨rfl, hc⟩)
      · cases h
  · split at h
    · cases h
    · rename_i c hk
      split at h
      · rename_i hc
        cases h
        exact .draw _ c hk hc
      · cases h
  · split at h
    · cases h
    · rename_i c hk
      split at h
      · rename_i n hc
        split at h
        · split at h
          · cases h
          · cases h
            exact .giveUp _ n c hk hc
        · cases h
          exact .put _ n c hk hc
      · cases h
  · cases h

theorem shutdownStep_change {poolSize : Nat} {s s' : State} {l : Label}
    (h : shutdownStep s l = some s') : Change poolSize s l s' := by
  unfold shutdownStep at h
  split at h
  · cases h
    exact .begin _ _
  · split at h
    · rename_i hk
      cases h
      exact .pass _ _ _ hk
    · cases h
  · split at h
    · rename_i hk
      cases h
      exact .close _ _ _ hk
    · cases h
  · split at h
    · rename_i hk
      refine .drain _ _ _ hk _ ?_
      split at h
      · rename_i t ht
        cases h
        exact .inl ⟨by rw [ht], by rw [ht]⟩
      · rename_i t ht
        cases h
        exact .inr (.inl ⟨by rw [ht], by rw [ht]⟩)
      · rename_i t e ht
        cases h
        exact .inr (.inr ⟨e, by rw [ht], by rw [ht]⟩)
    · cases h
  · split at h
    · rename_i hk
      cases h
      exact .drawSentinel _ _ _ hk
    · cases h
  · split at h
    · rename_i hk
      split at h
      · cases h
      · cases h
        exact .putSentinel _ _ _ _ hk
    · cases h
  · split at h
    · rename_i hk
      split at h
      · cases h
        exact .timeOut _ _ _ _ hk
      · cases h
    · cases h
  · split at h
    · rename_i hk hi
      refine .stop _ _ _ hi hk _ ?_
      split at h
      · rename_i t ht
        cases h
        exact .inr (by rw [ht])
      · rename_i t b ht
        cases h
        exact .inl (by rw [ht])
    · cases h
  · split at h
    · rename_i hk
      split at h
      · rename_i hz
        cases h
        exact .join _ _ _ hk hz
      · cases h
    · cases h
  · cases h

theorem runnerStep_change {poolSize : Nat} {s s' : State} {l : Label}
    (h : runnerStep poolSize s l = some s') : Change poolSize s l s' := by
  unfold runnerStep at h
  split at h
  · split at h
    · rename_i hr
      split at h
      · cases h
        exact .slot hr
      · cases h
    · cases h
  · split at h
    · rename_i hr hg
      split at h
      · rename_i hx
        cases h
        exact .getSentinel _ _ hr hg hx
      · rename_i hx
        cases h
        exact .getJob _ _ _ hr hg hx
    · cases h
  · split at h
    · rename_i hr
      split at h
      · rename_i hd
        cases h
        exact .skip _ hr hd
      · cases h
        exact .pick _ hr
    · cases h
  · split at h
    · rename_i hr
      cases h
      exact .launch _ hr
    · cases h
  · split at h
    · rename_i hr
      refine .runnerDrain hr _ ?_
      split at h
      · rename_i t ht
        cases h
        exact .inl ⟨by rw [ht], by rw [ht]⟩
      · rename_i t ht
        cases h
        exact .inr (.inl ⟨by rw [ht], by rw [ht]⟩)
      · rename_i t e ht
        cases h
        exact .inr (.inr ⟨e, by rw [ht], by rw [ht]⟩)
    · cases h
  · split at h
    · rename_i hi
      split at h
      · cases h
      · cases h
        exact .settle _ _ hi
    · cases h
  · split at h
    · rename_i hi
      split at h
      · cases h
        exact .finish _ _ hi
      · cases h
    · cases h
  · cases h
    exact .cancel _
  · cases h
    exact .addCallback _
  · cases h

theorem step_change {poolSize : Nat} {s s' : State} {l : Label} (h : step poolSize s l = some s') :
    Change poolSize s l s' := by
  unfold step at h
  rcases Option.or_eq_some_iff.mp h with h | ⟨-, h⟩
  · exact submitStep_change h
  rcases Option.or_eq_some_iff.mp h with h | ⟨-, h⟩
  · exact shutdownStep_change h
  · exact runnerStep_change h

/-! ## Places of a job -/

/-- How often a job is on the queue, in the runner's hands or launched. -/
def State.copies (s : State) (f : Nat) : Nat :=
  s.submittedJobs.items.countP (fun x => x.item == some ⟨f⟩) +
    (s.runner.job == some ⟨f⟩).toNat + s.tasks.countP (fun task => task.job == ⟨f⟩)

/-- Items that are not matched by a `task_done` yet. -/
def State.unmatched (s : State) : Nat :=
  s.submittedJobs.items.length + s.runner.job.isSome.toNat +
    s.tasks.countP (fun task => task.live)

def State.hasReturned (s : State) (f : Nat) : Bool := s.submits[f]?.map Submit.pc == some .returned

/-- A job exists once it is put, and is in at most one place; `unfinished` counts what is open. -/
structure Tally (s : State) : Prop where
  copies : ∀ f, s.copies f ≤ (s.hasReturned f).toNat
  unfinished : s.submittedJobs.unfinished = s.unmatched

theorem tally_init (maxBacklog : Int) : Tally (init maxBacklog) where
  copies := by simp [State.copies, init, Runner.job]
  unfinished := rfl

section Tallies

variable {s t : State}

/-- What one turn of a drain leaves alone, and what it takes. -/
theorem drainTurn_frame (s : State) :
    s.drainTurn.1.runner = s.runner ∧ s.drainTurn.1.tasks = s.tasks ∧
      s.drainTurn.1.submits = s.submits ∧ s.drainTurn.1.shutdowns = s.shutdowns ∧
      s.drainTurn.1.submissionSequence = s.submissionSequence ∧ s.drainTurn.1.closed = s.closed ∧
      (s.drainTurn.1.submittedJobs = s.submittedJobs ∨
        ∃ x q, s.submittedJobs.get = some (x, q) ∧ s.drainTurn.1.submittedJobs = q.taskDone) := by
  unfold State.drainTurn
  split
  · exact ⟨rfl, rfl, rfl, rfl, rfl, rfl, .inl rfl⟩
  · rename_i x q hg
    dsimp only
    split
    · exact ⟨rfl, rfl, rfl, rfl, rfl, rfl, .inr ⟨x, q, hg, rfl⟩⟩
    · split
      · rename_i t ht
        have htt : t = _ := congrArg Prod.fst ht.symm
        subst htt
        exact ⟨rfl, rfl, rfl, rfl, rfl, rfl, .inr ⟨x, q, hg, rfl⟩⟩
      · rename_i t b ht
        have htt : t = _ := congrArg Prod.fst ht.symm
        subst htt
        exact ⟨rfl, rfl, rfl, rfl, rfl, rfl, .inr ⟨x, q, hg, rfl⟩⟩

theorem countP_get {x : PrioritizedItem} {q q' : PriorityQueue} (h : q.get = some (x, q'))
    (p : PrioritizedItem → Bool) :
    q.items.countP p = (if p x then 1 else 0) + q'.items.countP p := by
  rw [(PriorityQueue.get_spec h).1.countP_eq, List.countP_cons]
  omega

theorem length_get {x : PrioritizedItem} {q q' : PriorityQueue} (h : q.get = some (x, q')) :
    q.items.length = q'.items.length + 1 := by
  rw [(PriorityQueue.get_spec h).1.length_eq, List.length_cons]

/-- A step that puts no job: no job gets a further place, and `task_done` is called for what leaves. -/
structure Accounts (s t : State) : Prop where
  copies : ∀ f, t.copies f ≤ s.copies f
  balance : s.submittedJobs.unfinished = s.unmatched → t.submittedJobs.unfinished = t.unmatched

/-- An item leaves the queue with its `task_done`. -/
theorem Accounts.take {x : PrioritizedItem} {q : PriorityQueue}
    (hg : s.submittedJobs.get = some (x, q)) (hq : t.submittedJobs = q.taskDone)
    (hr : t.runner.job = s.runner.job) (ht : t.tasks = s.tasks) : Accounts s t := by
  constructor
  · intro f
    have hcount := countP_get hg (fun x => x.item == some ⟨f⟩)
    unfold State.copies
    rw [hq, hr, ht, PriorityQueue.taskDone_items]
    omega
  · intro hold
    have hlen := length_get hg
    have hun := PriorityQueue.get_unfinished hg
    unfold State.unmatched at hold ⊢
    rw [hq, hr, ht, PriorityQueue.taskDone_items]
    change q.unfinished - 1 = _
    omega

/-- Steps that change neither the queue nor the places of jobs. -/
theorem Accounts.frame (hq : t.submittedJobs = s.submittedJobs)
    (hr : t.runner.job = s.runner.job) (ht : t.tasks = s.tasks) : Accounts s t := by
  constructor
  · intro f
    unfold State.copies
    exact Nat.le_of_eq (by rw [hq, hr, ht])
  · intro hold
    unfold State.unmatched at hold ⊢
    rw [hq, hr, ht]
    exact hold

theorem Accounts.drainTurn (hr : t.runner.job = s.runner.job)
    (hq : t.submittedJobs = s.drainTurn.1.submittedJobs) (ht : t.tasks = s.tasks) :
    Accounts s t := by
  rcases (drainTurn_frame s).2.2.2.2.2.2 with he | ⟨x, q, hg, he⟩
  · exact .frame (hq.trans he) hr ht
  · exact .take hg (hq.trans he) hr ht

/-- A sentinel is no job. -/
theorem Accounts.sentinel (p : Int) (k n : Nat) (pc : ShutdownPc) :
    Accounts s ({ s with submittedJobs := s.submittedJobs.push ⟨p, none, n⟩ }.setShutdown k pc) := by
  constructor
  · intro f
    simp [State.copies, State.setShutdown, PriorityQueue.push]
  · intro hold
    simp only [State.unmatched, State.setShutdown, PriorityQueue.push, List.length_cons] at hold ⊢
    omega

/-- The runner takes a job into its hands. -/
theorem Accounts.getJob {x : PrioritizedItem} {q : PriorityQueue} {job : Job}
    (hr : s.runner = .getting) (hg : s.submittedJobs.get = some (x, q)) (hx : x.item = some job) :
    Accounts s { s with submittedJobs := q, runner := .holding job } := by
  constructor
  · intro f
    have hcount := countP_get hg (fun x => x.item == some ⟨f⟩)
    rw [hx] at hcount
    simp only [State.copies, hr, Runner.job]
    by_cases hf : job = ⟨f⟩
    · subst hf
      simp at hcount ⊢
      omega
    · have hne : (job == (⟨f⟩ : Job)) = false := by simpa using hf
      simp [hne] at hcount ⊢
      omega
  · intro hold
    have hlen := length_get hg
    have hun := PriorityQueue.get_unfinished hg
    simp only [State.unmatched, hr, Runner.job] at hold ⊢
    simp at hold ⊢
    omega

/-- The runner launches the job in its hands. -/
theorem Accounts.launch {job : Job} (hr : s.runner = .starting job) :
    Accounts s { s with runner := .looping, tasks := s.tasks ++ [⟨job, true⟩] } := by
  constructor
  · intro f
    simp only [State.copies, hr, Runner.job]
    rw [List.countP_append, List.countP_singleton]
    by_cases hf : job = ⟨f⟩
    · subst hf
      simp
      omega
    · simp [hf]
  · intro hold
    simp only [State.unmatched, hr, Runner.job] at hold ⊢
    rw [List.countP_append, List.countP_singleton]
    simp at hold ⊢
    omega

/-- The runner lets go of a job whose future is done. -/
theorem Accounts.skip {job : Job} (hr : s.runner = .holding job) (n : Nat) :
    Accounts s { s with
      submittedJobs := s.submittedJobs.taskDone, runner := .looping, runningJobs := n } := by
  constructor
  · intro f
    simp only [State.copies, hr, Runner.job]
    rw [PriorityQueue.taskDone_items]
    have hnone : ((none : Option Job) == some ⟨f⟩) = false := rfl
    rw [hnone, Bool.toNat_false]
    omega
  · intro hold
    simp only [State.unmatched, hr, Runner.job, PriorityQueue.taskDone] at hold ⊢
    simp at hold ⊢
    omega

/-- A thread of `run_task` ends with its `task_done`. -/
theorem Accounts.finish {i : Nat} {job : Job} (hi : s.tasks[i]? = some ⟨job, true⟩) (n : Nat) :
    Accounts s { s with
      submittedJobs := s.submittedJobs.taskDone
      runningJobs := n
      tasks := s.tasks.set i ⟨job, false⟩ } := by
  constructor
  · intro f
    have hset := countP_set_add (fun task : Task => task.job == ⟨f⟩) ⟨job, false⟩ hi
    dsimp only at hset
    simp only [State.copies]
    rw [PriorityQueue.taskDone_items]
    omega
  · intro hold
    have hset := countP_set_add (fun task : Task => task.live) ⟨job, false⟩ hi
    simp only [State.unmatched, PriorityQueue.taskDone] at hold hset ⊢
    simp at hset
    omega

theorem Change.accounts {poolSize : Nat} {l : Label} (hc : Change poolSize s l t)
    (hl : ∀ k, l ≠ .put k) : Accounts s t := by
  cases hc with
  | giveUp k n c hk hc | put k n c hk hc => exact absurd rfl (hl k)
  | drain k w cf hk t ht =>
    obtain ⟨hr, htasks, -⟩ := drainTurn_frame s
    rcases ht with ⟨rfl, -⟩ | ⟨rfl, -⟩ | ⟨e, rfl, -⟩
    · exact .drainTurn (by rw [hr]) rfl htasks
    · exact .drainTurn (by rw [State.setShutdown, hr]) rfl htasks
    · exact .drainTurn (by rw [State.setShutdown, hr]) rfl htasks
  | putSentinel k n w cf hk => exact .sentinel _ k n _
  | stop k i task hi hk t ht => rcases ht with rfl | rfl <;> exact .frame rfl rfl rfl
  | slot hr => exact .frame rfl (by rw [hr]; rfl) rfl
  | getSentinel x q hr hg hx => exact .take hg rfl (by rw [hr]; rfl) rfl
  | getJob x q job hr hg hx => exact .getJob hr hg hx
  | skip job hr hd => exact .skip hr _
  | pick job hr => exact .frame rfl (by rw [hr]; rfl) rfl
  | launch job hr => exact .launch hr
  | runnerDrain hr t ht =>
    obtain ⟨hrun, htasks, -⟩ := drainTurn_frame s
    rcases ht with ⟨rfl, -⟩ | ⟨rfl, -⟩ | ⟨e, rfl, -⟩
    · exact .drainTurn (by rw [hrun]) rfl htasks
    · exact .drainTurn (by rw [hr]; rfl) rfl htasks
    · exact .drainTurn (by rw [hr]; rfl) rfl htasks
  | finish i job hi => exact .finish hi _
  | _ => exact .frame rfl rfl rfl

/-- A call that is not past its put has not returned. -/
theorem hasReturned_setSubmit {k f : Nat} {c : Submit} {pc : SubmitPc}
    (hk : s.submits[k]? = some c) (hc : c.pc ≠ .returned) (hf : s.hasReturned f = true) :
    (s.setSubmit k pc).hasReturned f = true := by
  unfold State.hasReturned State.setSubmit at *
  by_cases hkf : k = f
  · subst hkf
    rw [hk] at hf
    exact absurd (by simpa using hf) hc
  · rw [getElem?_modify_of_ne hkf]
    exact hf

/-- What `submit` has returned stays returned. -/
theorem Change.hasReturned {poolSize : Nat} {l : Label} {f : Nat} (hc : Change poolSize s l t)
    (hf : s.hasReturned f = true) : t.hasReturned f = true := by
  cases hc with
  | enter p block c hcp hpc =>
    unfold State.hasReturned at hf ⊢
    obtain ⟨d, hd, hdpc⟩ := Option.map_eq_some_iff.mp (beq_iff_eq.mp hf)
    rw [getElem?_append_of_some hd, Option.map_some, hdpc]
    rfl
  | check k c pc hk hc hpc =>
    exact hasReturned_setSubmit hk (by rcases hc with hc | hc <;> simp [hc]) hf
  | draw k c hk hc =>
    exact hasReturned_setSubmit (s := { s with submissionSequence := s.submissionSequence + 1 }) hk
      (by simp [hc]) hf
  | giveUp k n c hk hc => exact hasReturned_setSubmit hk (by simp [hc]) hf
  | put k n c hk hc =>
    exact hasReturned_setSubmit (s := { s with
      submittedJobs := s.submittedJobs.push ⟨c.priority, some ⟨k⟩, n⟩ }) hk (by simp [hc]) hf
  | drain k w cf hk t ht =>
    have hsub := (drainTurn_frame s).2.2.1
    unfold State.hasReturned at hf ⊢
    rcases ht with ⟨rfl, -⟩ | ⟨rfl, -⟩ | ⟨e, rfl, -⟩ <;> simpa only [State.setShutdown, hsub] using hf
  | stop k i task hi hk t ht => rcases ht with rfl | rfl <;> exact hf
  | runnerDrain hr t ht =>
    have hsub := (drainTurn_frame s).2.2.1
    unfold State.hasReturned at hf ⊢
    rcases ht with ⟨rfl, -⟩ | ⟨rfl, -⟩ | ⟨e, rfl, -⟩ <;> simpa only [hsub] using hf
  | _ => exact hf

/-- A job is put for the first time. -/
theorem Tally.put (h : Tally s) {k n : Nat} {c : Submit} (hk : s.submits[k]? = some c)
    (hc : c.pc = .putting n) (p : Int) :
    Tally ({ s with submittedJobs := s.submittedJobs.push ⟨p, some ⟨k⟩, n⟩ }.setSubmit k
      .returned) := by
  have hnot : s.hasReturned k = false := by simp [State.hasReturned, hk, hc]
  constructor
  · intro f
    have hold := h.copies f
    by_cases hf : f = k
    · subst hf
      have hnow : (({ s with submittedJobs := s.submittedJobs.push ⟨p, some ⟨f⟩, n⟩ }.setSubmit f
          .returned).hasReturned f) = true := by
        unfold State.hasReturned State.setSubmit
        rw [getElem?_modify_self hk]
        rfl
      rw [hnot] at hold
      rw [hnow]
      simp only [State.copies, State.setSubmit, PriorityQueue.push, List.countP_cons,
        Bool.toNat_true, Bool.toNat_false, beq_self_eq_true, if_true] at hold ⊢
      omega
    · have hsame : (({ s with submittedJobs := s.submittedJobs.push ⟨p, some ⟨k⟩, n⟩ }.setSubmit k
          .returned).hasReturned f) = s.hasReturned f := by
        unfold State.hasReturned State.setSubmit
        rw [getElem?_modify_of_ne (Ne.symm hf)]
      have hne : ((some (⟨k⟩ : Job)) == some ⟨f⟩) = false := by simpa using Ne.symm hf
      rw [hsame]
      simp only [State.copies, State.setSubmit, PriorityQueue.push, List.countP_cons, hne,
        Bool.false_eq_true, if_false] at hold ⊢
      exact hold
  · have hold := h.unfinished
    simp only [State.unmatched, State.setSubmit, PriorityQueue.push, List.length_cons] at hold ⊢
    omega

theorem Tally.change {poolSize : Nat} {l : Label} (h : Tally s) (hc : Change poolSize s l t) :
    Tally t := by
  have hmono : ∀ f, (s.hasReturned f).toNat ≤ (t.hasReturned f).toNat := by
    intro f
    by_cases hf : s.hasReturned f = true
    · exact Nat.le_of_eq (by rw [hf, hc.hasReturned hf])
    · rw [Bool.not_eq_true] at hf
      rw [hf]
      exact Nat.zero_le _
  have hstep : Accounts s t → Tally t := fun ha =>
    ⟨fun f => Nat.le_trans (ha.copies f) (Nat.le_trans (h.copies f) (hmono f)), ha.balance h.unfinished⟩
  by_cases hput : ∃ k, l = .put k
  · obtain ⟨k, rfl⟩ := hput
    cases hc with
    | giveUp k n c hk hc => exact hstep (.frame rfl rfl rfl)
    | put k n c hk hc => exact h.put hk hc _
  · exact hstep (hc.accounts fun k hk => hput ⟨k, hk⟩)

end Tallies

theorem tally_reachable {maxBacklog : Int} {poolSize : Nat} {s : State}
    (h : (system maxBacklog poolSize).Reachable s) : Tally s :=
  h.invariant (I := Tally) (tally_init maxBacklog) fun _ _ _ _ hi _ hs => hi.change (step_change hs)

/-! ## One shutdown -/

/-- One `shutdown` call that puts its sentinel, and no `submit` beside it; jobs have priorities that
`submit` accepts. -/
def Alone (s : State) : Label → Bool
  | .submit p block => s.shutdowns.isEmpty && (block || decide (0 ≤ p))
  | .check _ | .draw _ | .put _ | .shutdown _ _ => s.shutdowns.isEmpty
  | .timeOut _ => false
  | _ => true

/-- Every open job on the queue has at most the priority of the sentinel that is to pop last. -/
def State.belowSentinel (s : State) : Bool :=
  s.submittedJobs.items.all fun x =>
    match x.item with
    | none => true
    | some job => (s.futs job.fut).state.done || decide (x.priority ≤ sysMaxsize)

/-- No callback of the future that the next turn of a drain cancels lets an exception escape. -/
def State.quiet (s : State) : Bool :=
  match s.submittedJobs.get with
  | some (⟨_, some job, _⟩, _) => !(s.futs job.fut).cancelEscapes
  | _ => true

/-- The sentinel of a waiting shutdown stands behind every open job, and drained futures are quiet. -/
def Legible (s : State) : Label → Bool
  | .shutdown true false => s.belowSentinel
  | .drain _ | .runnerDrain => s.quiet
  | _ => true

/-- Jobs that are open have at most the priority of a sentinel that is to pop last. -/
def Below (s : State) : Prop :=
  ∀ x ∈ s.submittedJobs.items, ∀ job, x.item = some job →
    (s.futs job.fut).state.done = true ∨ x.priority ≤ sysMaxsize

/-- No sentinel was put yet. -/
structure Pending (c : Shutdown) (s : State) : Prop where
  inLoop : s.runner.inLoop = true
  jobs : ∀ x ∈ s.submittedJobs.items, x.item ≠ none
  below : c.wait = true → c.cancelFutures = false → Below s

/-- The sentinel is on the queue. -/
structure Armed (c : Shutdown) (s : State) : Prop where
  inLoop : s.runner.inLoop = true
  once : s.submittedJobs.items.countP (fun x => x.item.isNone) = 1
  sentinel : ∀ x ∈ s.submittedJobs.items, x.item = none →
    x.priority = (if c.wait then sysMaxsize else -1) ∧
      ∀ y ∈ s.submittedJobs.items, y.item ≠ none → y.sequence < x.sequence
  drained : c.cancelFutures = true → ∀ x ∈ s.submittedJobs.items, x.item = none
  below : c.wait = true → c.cancelFutures = false → Below s

/-- The runner has taken the sentinel. -/
structure Reached (c : Shutdown) (s : State) : Prop where
  outOfLoop : s.runner.inLoop = false
  jobs : ∀ x ∈ s.submittedJobs.items, x.item ≠ none
  settled : c.wait = true → c.cancelFutures = false →
    ∀ x ∈ s.submittedJobs.items, ∀ job, x.item = some job → (s.futs job.fut).state.done = true
  gone : s.runner.gone = true → s.submittedJobs.items = []

/-- What holds at each point of the one call. -/
def PhaseOf (s : State) (c : Shutdown) : Prop :=
  match c.pc with
  | .entered | .passed => Pending c s ∧ s.closed = false
  | .draining => Pending c s ∧ c.cancelFutures = true
  | .drained => Pending c s ∧ (c.cancelFutures = true → s.submittedJobs.items = [])
  | .putting n => Pending c s ∧ (c.cancelFutures = true → s.submittedJobs.items = []) ∧
      (∀ x ∈ s.submittedJobs.items, x.sequence < n) ∧ n < s.submissionSequence
  | .stopping | .returned | .raised .callback => Armed c s ∨ Reached c s
  | .raised _ => False

structure Phase (s : State) : Prop where
  sequences : ∀ x ∈ s.submittedJobs.items, x.sequence < s.submissionSequence
  drawn : ∀ c ∈ s.submits, ∀ n, c.pc = .putting n → n < s.submissionSequence
  priorities : ∀ x ∈ s.submittedJobs.items, x.item ≠ none → 0 ≤ x.priority
  accepted : ∀ c ∈ s.submits, c.pc ≠ .entered → c.pc ≠ .raised → 0 ≤ c.priority
  before : s.shutdowns = [] →
    s.runner.inLoop = true ∧ (∀ x ∈ s.submittedJobs.items, x.item ≠ none) ∧ s.closed = false
  call : ∀ c ∈ s.shutdowns, s.shutdowns = [c] ∧ PhaseOf s c

/-- Between two states jobs leave the queue, futures are settled, and the runner stays on its side of
the sentinel. -/
structure Shrinks (s t : State) : Prop where
  sub : ∀ x ∈ t.submittedJobs.items, x ∈ s.submittedJobs.items
  sentinels : t.submittedJobs.items.countP (fun x => x.item.isNone) =
    s.submittedJobs.items.countP (fun x => x.item.isNone)
  done : ∀ f, (s.futs f).state.done = true → (t.futs f).state.done = true
  inLoop : t.runner.inLoop = s.runner.inLoop
  gone : t.runner.gone = true → s.runner.gone = true ∨ t.submittedJobs.items = []

section Phases

variable {s t : State} {c : Shutdown}

theorem Shrinks.empty (h : Shrinks s t) (hs : s.submittedJobs.items = []) :
    t.submittedJobs.items = [] := by
  rw [List.eq_nil_iff_forall_not_mem]
  intro x hx
  have := h.sub x hx
  rw [hs] at this
  cases this

theorem Below.shrink (h : Below s) (hs : Shrinks s t) : Below t := by
  intro x hx job hj
  rcases h x (hs.sub x hx) job hj with hd | hp
  · exact .inl (hs.done _ hd)
  · exact .inr hp

theorem Pending.shrink (h : Pending c s) (hs : Shrinks s t) : Pending c t where
  inLoop := hs.inLoop.trans h.inLoop
  jobs := fun x hx => h.jobs x (hs.sub x hx)
  below := fun hw hc => (h.below hw hc).shrink hs

theorem Armed.shrink (h : Armed c s) (hs : Shrinks s t) : Armed c t where
  inLoop := hs.inLoop.trans h.inLoop
  once := hs.sentinels.trans h.once
  sentinel := by
    intro x hx hn
    obtain ⟨hp, hseq⟩ := h.sentinel x (hs.sub x hx) hn
    exact ⟨hp, fun y hy => hseq y (hs.sub y hy)⟩
  drained := fun hc x hx => h.drained hc x (hs.sub x hx)
  below := fun hw hc => (h.below hw hc).shrink hs

theorem Reached.shrink (h : Reached c s) (hs : Shrinks s t) : Reached c t where
  outOfLoop := hs.inLoop.trans h.outOfLoop
  jobs := fun x hx => h.jobs x (hs.sub x hx)
  settled := fun hw hc x hx job hj => hs.done _ (h.settled hw hc x (hs.sub x hx) job hj)
  gone := by
    intro hg
    rcases hs.gone hg with hg | hnil
    · exact hs.empty (h.gone hg)
    · exact hnil

theorem PhaseOf.shrink (h : PhaseOf s c) (hs : Shrinks s t) (hclosed : t.closed = s.closed)
    (hseq : t.submissionSequence = s.submissionSequence) : PhaseOf t c := by
  unfold PhaseOf at h ⊢
  split at h
  · exact ⟨h.1.shrink hs, hclosed.trans h.2⟩
  · exact ⟨h.1.shrink hs, hclosed.trans h.2⟩
  · exact ⟨h.1.shrink hs, h.2⟩
  · exact ⟨h.1.shrink hs, fun hc => hs.empty (h.2 hc)⟩
  · exact ⟨h.1.shrink hs, fun hc => hs.empty (h.2.1 hc), fun x hx => h.2.2.1 x (hs.sub x hx),
      hseq ▸ h.2.2.2⟩
  · exact h.imp (·.shrink hs) (·.shrink hs)
  · exact h.imp (·.shrink hs) (·.shrink hs)
  · exact h.imp (·.shrink hs) (·.shrink hs)
  · exact h

/-- Where the call stands does not matter once the sentinel is put. -/
theorem Armed.flags {c' : Shutdown} (h : Armed c s) (hw : c'.wait = c.wait)
    (hcf : c'.cancelFutures = c.cancelFutures) (hq : t.submittedJobs = s.submittedJobs)
    (hf : t.futs = s.futs) (hr : t.runner = s.runner) : Armed c' t := by
  obtain ⟨h₁, h₂, h₃, h₄, h₅⟩ := h
  refine ⟨?_, ?_, ?_, ?_, ?_⟩ <;> simp only [hw, hcf, hq, hr, Below, hf] <;> assumption

theorem Reached.flags {c' : Shutdown} (h : Reached c s) (hw : c'.wait = c.wait)
    (hcf : c'.cancelFutures = c.cancelFutures) (hq : t.submittedJobs = s.submittedJobs)
    (hf : t.futs = s.futs) (hr : t.runner = s.runner) : Reached c' t := by
  obtain ⟨h₁, h₂, h₃, h₄⟩ := h
  refine ⟨?_, ?_, ?_, ?_⟩ <;> simp only [hw, hcf, hq, hr, hf] <;> assumption

/-- A step that leaves the calls alone and takes nothing but jobs. -/
theorem Phase.shrink (h : Phase s) (hs : Shrinks s t) (hclosed : t.closed = s.closed)
    (hseq : t.submissionSequence = s.submissionSequence) (hsub : t.submits = s.submits)
    (hshut : t.shutdowns = s.shutdowns) : Phase t where
  sequences := by
    rw [hseq]
    exact fun x hx => h.sequences x (hs.sub x hx)
  drawn := by
    rw [hseq, hsub]
    exact h.drawn
  priorities := fun x hx => h.priorities x (hs.sub x hx)
  accepted := by
    rw [hsub]
    exact h.accepted
  before := by
    intro hnil
    obtain ⟨hl, hj, hc⟩ := h.before (hshut.symm.trans hnil)
    exact ⟨hs.inLoop.trans hl, fun x hx => hj x (hs.sub x hx), hclosed.trans hc⟩
  call := by
    rw [hshut]
    exact fun c hc => ⟨(h.call c hc).1, (h.call c hc).2.shrink hs hclosed hseq⟩

/-! ### The queue shrinks -/

theorem Shrinks.same (hq : t.submittedJobs.items = s.submittedJobs.items)
    (hdone : ∀ f, (s.futs f).state.done = true → (t.futs f).state.done = true)
    (hloop : t.runner.inLoop = s.runner.inLoop) (hgone : t.runner.gone = s.runner.gone) :
    Shrinks s t :=
  ⟨fun x hx => hq ▸ hx, by rw [hq], hdone, hloop, fun h => .inl (hgone.symm.trans h)⟩

theorem Shrinks.job {x : PrioritizedItem} {q : PriorityQueue} {job : Job}
    (hg : s.submittedJobs.get = some (x, q)) (hx : x.item = some job)
    (hq : t.submittedJobs.items = q.items)
    (hdone : ∀ f, (s.futs f).state.done = true → (t.futs f).state.done = true)
    (hloop : t.runner.inLoop = s.runner.inLoop) (hgone : t.runner.gone = s.runner.gone) :
    Shrinks s t := by
  refine ⟨fun y hy => ?_, ?_, hdone, hloop, fun h => .inl (hgone.symm.trans h)⟩
  · rw [hq] at hy
    exact (mem_get hg).mpr (.inr hy)
  · have hcount := countP_get hg (fun x => x.item.isNone)
    simp [hx] at hcount
    rw [hq, hcount]

theorem cancelFuture_mono (s : State) (k : Nat) :
    ∀ f, (s.futs f).state.done = true → ((s.cancelFuture k).1.futs f).state.done = true := by
  intro f hf
  rcases cancelFuture_state s k f with he | ⟨hp, -⟩
  · rw [he]
    exact hf
  · rw [hp] at hf
    cases hf

theorem drains_of_quiet (hq : s.quiet = true) (hj : ∀ x ∈ s.submittedJobs.items, x.item ≠ none) :
    s.drains = true := by
  unfold State.drains
  unfold State.quiet at hq
  cases hg : s.submittedJobs.get with
  | none => rfl
  | some p =>
    obtain ⟨⟨pr, item, sq⟩, q⟩ := p
    rw [hg] at hq
    cases item with
    | none => exact absurd rfl (hj _ ((mem_get hg).mpr (.inl rfl)))
    | some job => exact hq

/-- One turn of a drain that raises nothing: it takes a job or finds the queue empty. -/
theorem drainTurn_quiet (hq : s.quiet = true) (hj : ∀ x ∈ s.submittedJobs.items, x.item ≠ none) :
    (s.drainTurn = (s, .empty) ∧ s.submittedJobs.items = []) ∨
      (s.drainTurn.2 = .again ∧ Shrinks s s.drainTurn.1 ∧
        ∃ x q job, s.submittedJobs.get = some (x, q) ∧ x.item = some job ∧
          s.drainTurn.1 = ({ s with submittedJobs := q.taskDone }.cancelFuture job.fut).1) := by
  rcases drainTurn_cases (drains_of_quiet hq hj) with he | ⟨x, q, job, hg, hx, he⟩
  · exact .inl he
  · refine .inr ⟨by rw [he], ?_, x, q, job, hg, hx, by rw [he]⟩
    rw [he]
    refine Shrinks.job hg hx rfl ?_ rfl rfl
    exact cancelFuture_mono { s with submittedJobs := q.taskDone } job.fut

/-! ### Steps of the call -/

/-- The call goes on. -/
theorem Phase.advance (c' : Shutdown) (h : Phase s)
    (hitems : t.submittedJobs.items = s.submittedJobs.items)
    (hseq : s.submissionSequence ≤ t.submissionSequence) (hsub : t.submits = s.submits)
    (hcall : t.shutdowns = [c']) (hphase : PhaseOf t c') : Phase t where
  sequences := by
    rw [hitems]
    exact fun x hx => Nat.lt_of_lt_of_le (h.sequences x hx) hseq
  drawn := by
    rw [hsub]
    exact fun c hc n hn => Nat.lt_of_lt_of_le (h.drawn c hc n hn) hseq
  priorities := by
    rw [hitems]
    exact h.priorities
  accepted := by
    rw [hsub]
    exact h.accepted
  before := by
    intro hnil
    rw [hcall] at hnil
    cases hnil
  call := by
    intro d hd
    rw [hcall] at hd
    cases List.mem_singleton.mp hd
    exact ⟨hcall, hphase⟩

/-- The call that moves is the only one. -/
theorem Phase.single {k : Nat} (h : Phase s) (hk : s.shutdowns[k]? = some c) :
    PhaseOf s c ∧ ∀ pc, (s.setShutdown k pc).shutdowns = [{ c with pc }] := by
  obtain ⟨honly, hphase⟩ := h.call c (List.mem_of_getElem? hk)
  refine ⟨hphase, fun pc => ?_⟩
  rw [honly] at hk
  cases k with
  | zero => simp [State.setShutdown, honly]
  | succ k => simp at hk

/-- Submitters move only before the call begins. -/
theorem Phase.submitters (h : Phase s) (hnil : s.shutdowns = []) (hshut : t.shutdowns = s.shutdowns)
    (hrunner : t.runner = s.runner) (hclosed : t.closed = s.closed)
    (hjobs : ∀ x ∈ t.submittedJobs.items, x ∈ s.submittedJobs.items ∨
      (x.item ≠ none ∧ 0 ≤ x.priority ∧ x.sequence < t.submissionSequence))
    (hseq : s.submissionSequence ≤ t.submissionSequence)
    (hsub : ∀ c ∈ t.submits, (∀ n, c.pc = .putting n → n < t.submissionSequence) ∧
      (c.pc ≠ .entered → c.pc ≠ .raised → 0 ≤ c.priority)) : Phase t where
  sequences := by
    intro x hx
    rcases hjobs x hx with hx | ⟨-, -, hlt⟩
    · exact Nat.lt_of_lt_of_le (h.sequences x hx) hseq
    · exact hlt
  drawn := fun c hc => (hsub c hc).1
  priorities := by
    intro x hx hn
    rcases hjobs x hx with hx | ⟨-, hp, -⟩
    · exact h.priorities x hx hn
    · exact hp
  accepted := fun c hc => (hsub c hc).2
  before := by
    intro _
    obtain ⟨hl, hj, hc⟩ := h.before hnil
    refine ⟨by rw [hrunner]; exact hl, fun x hx => ?_, hclosed.trans hc⟩
    rcases hjobs x hx with hx | ⟨hn, -, -⟩
    · exact hj x hx
    · exact hn
  call := by
    intro c hc
    rw [hshut, hnil] at hc
    cases hc

/-- The entries of the list of calls after one of them moved. -/
theorem mem_setSubmit {k : Nat} {d e : Submit} {pc : SubmitPc} (hk : s.submits[k]? = some d)
    (he : e ∈ (s.setSubmit k pc).submits) : e ∈ s.submits ∨ e = { d with pc } := by
  obtain ⟨j, hj⟩ := List.getElem?_of_mem he
  obtain ⟨a, ha, rfl⟩ := getElem?_modify_some hj
  split
  · rename_i hkj
    subst hkj
    rw [hk] at ha
    cases ha
    exact .inr rfl
  · exact .inl (List.mem_of_getElem? ha)

/-- Once the sentinel is put the call has no further say. -/
def AfterPut (c : Shutdown) : Prop := ∀ t : State, Armed c t ∨ Reached c t → PhaseOf t c

/-- The call is in one of the two halves of its life. -/
theorem PhaseOf.halves (h : PhaseOf s c) :
    Pending c s ∨ (Armed c s ∨ Reached c s) ∧ AfterPut c := by
  have hpc := h
  unfold PhaseOf at hpc
  unfold AfterPut PhaseOf
  split at hpc
  · exact .inl hpc.1
  · exact .inl hpc.1
  · exact .inl hpc.1
  · exact .inl hpc.1
  · exact .inl hpc.1
  · exact .inr ⟨hpc, fun t ht => ht⟩
  · exact .inr ⟨hpc, fun t ht => ht⟩
  · exact .inr ⟨hpc, fun t ht => ht⟩
  · exact hpc.elim

/-- A sentinel on the queue is the one of the call. -/
theorem Phase.armed (h : Phase s) {x : PrioritizedItem} (hx : x ∈ s.submittedJobs.items)
    (hn : x.item = none) : ∃ c, s.shutdowns = [c] ∧ Armed c s ∧ AfterPut c := by
  cases hs : s.shutdowns with
  | nil => exact absurd hn ((h.before hs).2.1 x hx)
  | cons c rest =>
    obtain ⟨honly, hphase⟩ := h.call c (by rw [hs]; exact List.mem_cons_self)
    rcases hphase.halves with hp | ⟨ha | hr, hafter⟩
    · exact absurd hn (hp.jobs x hx)
    · exact ⟨c, hs.symm.trans honly, ha, hafter⟩
    · exact absurd hn (hr.jobs x hx)

/-- A runner out of its loop has taken the sentinel of the call. -/
theorem Phase.reached (h : Phase s) (hloop : s.runner.inLoop = false) :
    ∃ c, s.shutdowns = [c] ∧ Reached c s ∧ AfterPut c := by
  cases hs : s.shutdowns with
  | nil =>
    have := (h.before hs).1
    rw [hloop] at this
    cases this
  | cons c rest =>
    obtain ⟨honly, hphase⟩ := h.call c (by rw [hs]; exact List.mem_cons_self)
    rcases hphase.halves with hp | ⟨ha | hr, hafter⟩
    · exact absurd hp.inLoop (by rw [hloop]; exact Bool.false_ne_true)
    · exact absurd ha.inLoop (by rw [hloop]; exact Bool.false_ne_true)
    · exact ⟨c, hs.symm.trans honly, hr, hafter⟩

/-- The runner takes the sentinel: behind a waiting shutdown only settled jobs are left. -/
theorem Armed.take {x : PrioritizedItem} {q : PriorityQueue} (h : Armed c s)
    (hg : s.submittedJobs.get = some (x, q)) (hn : x.item = none)
    (hq : t.submittedJobs.items = q.items) (hf : t.futs = s.futs) (hr : t.runner = .draining) :
    Reached c t where
  outOfLoop := by rw [hr]; rfl
  jobs := by
    rw [hq]
    intro y hy hny
    have hcount := countP_get hg (fun x => x.item.isNone)
    rw [h.once] at hcount
    simp [hn] at hcount
    have := hcount y hy
    simp [hny] at this
  settled := by
    rw [hq, hf]
    intro hw hc y hy job hj
    rcases h.below hw hc y ((mem_get hg).mpr (.inr hy)) job hj with hd | hp
    · exact hd
    -- an open job with such a priority would have been taken first
    · obtain ⟨hprio, hseq⟩ := h.sentinel x ((mem_get hg).mpr (.inl rfl)) hn
      have hlt := hseq y ((mem_get hg).mpr (.inr hy)) (by simp [hj])
      have hleast := PriorityQueue.get_least hg y hy
      rw [hw, if_pos rfl] at hprio
      simp only [PrioritizedItem.lt, Bool.or_eq_false_iff, Bool.and_eq_false_iff,
        decide_eq_false_iff_not, beq_eq_false_iff_ne] at hleast
      omega
  gone := by
    rw [hr]
    intro hg
    cases hg

theorem phase_init (maxBacklog : Int) : Phase (init maxBacklog) := by
  refine ⟨?_, ?_, ?_, ?_, fun _ => ⟨rfl, ?_, rfl⟩, ?_⟩ <;> simp [init]

theorem settle_done {job : Job} (s : State) :
    ∀ f, (s.futs f).state.done = true →
      (Function.update s.futs job.fut { s.futs job.fut with state := .finished } f).state.done =
        true := by
  intro f hf
  by_cases hk : f = job.fut
  · subst hk
    rw [Function.update_self]
    rfl
  · rw [Function.update_of_ne hk]
    exact hf

theorem addCallback_state (s : State) (k f : Nat) :
    (Function.update s.futs k { s.futs k with callbackEscapes := true } f).state =
      (s.futs f).state := by
  by_cases hk : f = k
  · subst hk
    rw [Function.update_self]
  · rw [Function.update_of_ne hk]

/-- The sentinel is put. -/
theorem Phase.arm {k n : Nat} {w cf : Bool} {pc : ShutdownPc} (h : Phase s)
    (hp : Pending ⟨w, cf, pc⟩ s) (hempty : cf = true → s.submittedJobs.items = [])
    (hlast : ∀ x ∈ s.submittedJobs.items, x.sequence < n) (hn : n < s.submissionSequence)
    (hcall : (s.setShutdown k .stopping).shutdowns = [⟨w, cf, .stopping⟩]) :
    Phase ({ s with
      submittedJobs := s.submittedJobs.push ⟨if w then sysMaxsize else -1, none, n⟩ }.setShutdown k
      .stopping) := by
  have hzero : s.submittedJobs.items.countP (fun x => x.item.isNone) = 0 := by
    rw [List.countP_eq_zero]
    intro x hx
    simpa using hp.jobs x hx
  refine ⟨?_, h.drawn, ?_, h.accepted, ?_, ?_⟩
  · intro x hx
    rcases mem_push.mp hx with rfl | hx
    · exact hn
    · exact h.sequences x hx
  · intro x hx hne
    rcases mem_push.mp hx with rfl | hx
    · exact absurd rfl hne
    · exact h.priorities x hx hne
  · intro hnil
    exact absurd (hcall.symm.trans hnil) (List.cons_ne_nil _ _)
  · intro c hc
    have hc : c ∈ (s.setShutdown k .stopping).shutdowns := hc
    rw [hcall] at hc
    cases List.mem_singleton.mp hc
    refine ⟨hcall, .inl ⟨hp.inLoop, ?_, ?_, ?_, ?_⟩⟩
    · change (s.submittedJobs.push _).items.countP _ = 1
      rw [PriorityQueue.push, List.countP_cons, hzero]
      rfl
    · intro x hx hxn
      rcases mem_push.mp hx with rfl | hx
      · refine ⟨rfl, fun y hy hyn => ?_⟩
        rcases mem_push.mp hy with rfl | hy
        · exact absurd rfl hyn
        · exact hlast y hy
      · exact absurd hxn (hp.jobs x hx)
    · intro hcf x hx
      rcases mem_push.mp hx with rfl | hx
      · rfl
      · rw [hempty hcf] at hx
        cases hx
    · intro hw hcf x hx job hj
      rcases mem_push.mp hx with rfl | hx
      · cases hj
      · exact hp.below hw hcf x hx job hj

/-- Steps of submitters. -/
theorem Phase.submit {poolSize : Nat} {l : Label} (h : Phase s) (hc : Change poolSize s l t)
    (halone : Alone s l = true)
    (hl : (∃ p b, l = .submit p b) ∨ ∃ k, l = .check k ∨ l = .draw k ∨ l = .put k) : Phase t := by
  have hnil : s.shutdowns = [] := by
    rcases hl with ⟨p, b, rfl⟩ | ⟨k, rfl | rfl | rfl⟩
    · simp only [Alone, Bool.and_eq_true, List.isEmpty_iff] at halone
      exact halone.1
    all_goals simpa [Alone] using halone
  have hkeep : ∀ c ∈ s.submits, ∀ {n : Nat}, s.submissionSequence ≤ n →
      (∀ m, c.pc = .putting m → m < n) ∧ (c.pc ≠ .entered → c.pc ≠ .raised → 0 ≤ c.priority) :=
    fun c hc n hn => ⟨fun m hm => Nat.lt_of_lt_of_le (h.drawn c hc m hm) hn, h.accepted c hc⟩
  cases hc with
  | enter p block c hcp hpc =>
    refine h.submitters hnil rfl rfl rfl (fun x hx => .inl hx) (Nat.le_refl _) fun d hd => ?_
    rcases List.mem_append.mp hd with hd | hd
    · exact hkeep d hd (Nat.le_refl _)
    · cases List.mem_singleton.mp hd
      refine ⟨fun n hn => ?_, fun hne _ => ?_⟩
      · rw [hpc] at hn
        split at hn <;> cases hn
      · rw [hcp]
        simp only [Alone, Bool.and_eq_true, Bool.or_eq_true, decide_eq_true_eq] at halone
        rcases halone.2 with hb | hp
        · rw [hpc, if_pos hb] at hne
          exact absurd rfl hne
        · exact hp
  | check k c pc hk hcpc hpc =>
    refine h.submitters hnil rfl rfl rfl (fun x hx => .inl hx) (Nat.le_refl _) fun d hd => ?_
    rcases mem_setSubmit hk hd with hd | rfl
    · exact hkeep d hd (Nat.le_refl _)
    · refine ⟨fun n hn => ?_, fun _ hne => ?_⟩
      · rcases hpc with rfl | ⟨rfl, -⟩ | ⟨rfl, -⟩ <;> cases hn
      · rcases hpc with rfl | ⟨rfl, hp⟩ | ⟨rfl, hcc⟩
        · exact absurd rfl hne
        · exact hp
        · exact h.accepted c (List.mem_of_getElem? hk) (by simp [hcc]) (by simp [hcc])
  | draw k c hk hcc =>
    refine h.submitters hnil rfl rfl rfl (fun x hx => .inl hx) (Nat.le_succ _) fun d hd => ?_
    rcases mem_setSubmit (s := { s with submissionSequence := s.submissionSequence + 1 }) hk hd
      with hd | rfl
    · exact hkeep d hd (Nat.le_succ _)
    · refine ⟨fun n hn => ?_, fun _ _ => ?_⟩
      · cases hn
        exact Nat.lt_succ_self _
      · exact h.accepted c (List.mem_of_getElem? hk) (by simp [hcc]) (by simp [hcc])
  | giveUp k n c hk hcc =>
    refine h.submitters hnil rfl rfl rfl (fun x hx => .inl hx) (Nat.le_refl _) fun d hd => ?_
    rcases mem_setSubmit hk hd with hd | rfl
    · exact hkeep d hd (Nat.le_refl _)
    · exact ⟨fun n hn => (by cases hn), fun _ hne => absurd rfl hne⟩
  | put k n c hk hcc =>
    have hmem := List.mem_of_getElem? hk
    refine h.submitters hnil rfl rfl rfl (fun x hx => ?_) (Nat.le_refl _) fun d hd => ?_
    · rcases mem_push.mp hx with rfl | hx
      · exact .inr ⟨by simp, h.accepted c hmem (by simp [hcc]) (by simp [hcc]), h.drawn c hmem n hcc⟩
      · exact .inl hx
    · rcases mem_setSubmit (s := { s with
        submittedJobs := s.submittedJobs.push ⟨c.priority, some ⟨k⟩, n⟩ }) hk hd with hd | rfl
      · exact hkeep d hd (Nat.le_refl _)
      · exact ⟨fun m hm => (by cases hm),
          fun _ _ => h.accepted c hmem (by simp [hcc]) (by simp [hcc])⟩
  | _ => rcases hl with ⟨p, b, hl⟩ | ⟨k, hl | hl | hl⟩ <;> cases hl

/-- Steps of the call. -/
theorem Phase.shutdown {poolSize : Nat} {l : Label} (h : Phase s) (hc : Change poolSize s l t)
    (halone : Alone s l = true) (hlegible : Legible s l = true)
    (hl : (∃ w cf, l = .shutdown w cf) ∨ (∃ k, l = .pass k ∨ l = .close k ∨ l = .drain k ∨
      l = .drawSentinel k ∨ l = .putSentinel k ∨ l = .join k) ∨ ∃ k i, l = .stop k i) : Phase t := by
  cases hc with
  | begin w cf =>
    have hnil : s.shutdowns = [] := by simpa [Alone] using halone
    obtain ⟨hloop, hjobs, hclosed⟩ := h.before hnil
    refine h.advance ⟨w, cf, .entered⟩ rfl (Nat.le_refl _) rfl (by simp [hnil]) ?_
    refine ⟨⟨hloop, hjobs, fun hw hcf => ?_⟩, hclosed⟩
    cases hw
    cases hcf
    intro x hx job hj
    have hall := List.all_eq_true.mp (show s.belowSentinel = true from hlegible) x hx
    simpa [hj] using hall
  | pass k w cf hk =>
    obtain ⟨⟨hp, hclosed⟩, hcall⟩ := h.single hk
    refine h.advance _ rfl (Nat.le_refl _) rfl (hcall _) ?_
    rw [hclosed]
    exact ⟨⟨hp.inLoop, hp.jobs, hp.below⟩, hclosed⟩
  | close k w cf hk =>
    obtain ⟨⟨hp, hclosed⟩, hcall⟩ := h.single hk
    refine h.advance _ rfl (Nat.le_refl _) rfl (hcall _) ?_
    cases cf with
    | true => exact ⟨⟨hp.inLoop, hp.jobs, hp.below⟩, rfl⟩
    | false => exact ⟨⟨hp.inLoop, hp.jobs, hp.below⟩, fun hcf => by cases hcf⟩
  | drain k w cf hk t ht =>
    obtain ⟨⟨hp, hcf⟩, hcall⟩ := h.single hk
    obtain ⟨hrun, htasks, hsub, hshut, hseq, hclosed, -⟩ := drainTurn_frame s
    rcases drainTurn_quiet hlegible hp.jobs with ⟨he, hnil⟩ | ⟨hagain, hshrink, -⟩
    · rw [he] at ht
      rcases ht with ⟨-, hbad⟩ | ⟨rfl, -⟩ | ⟨e, -, hbad⟩
      · cases hbad
      · exact h.advance _ rfl (Nat.le_refl _) rfl (hcall _)
          ⟨⟨hp.inLoop, hp.jobs, hp.below⟩, fun _ => hnil⟩
      · cases hbad
    · rw [hagain] at ht
      rcases ht with ⟨rfl, -⟩ | ⟨-, hbad⟩ | ⟨e, -, hbad⟩
      · exact h.shrink hshrink hclosed hseq hsub hshut
      · cases hbad
      · cases hbad
  | drawSentinel k w cf hk =>
    obtain ⟨⟨hp, hempty⟩, hcall⟩ := h.single hk
    exact h.advance _ rfl (Nat.le_succ _) rfl (hcall _)
      ⟨⟨hp.inLoop, hp.jobs, hp.below⟩, hempty, h.sequences, Nat.lt_succ_self _⟩
  | putSentinel k n w cf hk =>
    obtain ⟨⟨hp, hempty, hlast, hn⟩, hcall⟩ := h.single hk
    exact h.arm hp hempty hlast hn (hcall .stopping)
  | stop k i task hi hk t ht =>
    obtain ⟨hphase, hcall⟩ := h.single hk
    have hshrink : Shrinks s (s.cancelFuture task.job.fut).1 :=
      .same rfl (cancelFuture_mono s _) rfl rfl
    have hphase : Armed ⟨false, true, .stopping⟩ s ∨ Reached ⟨false, true, .stopping⟩ s := hphase
    rcases ht with rfl | rfl
    · exact h.shrink hshrink rfl rfl rfl rfl
    · refine h.advance _ rfl (Nat.le_refl _) rfl (hcall (.raised .callback)) ?_
      exact hphase.imp (fun ha => (ha.shrink hshrink).flags rfl rfl rfl rfl rfl)
        (fun hr => (hr.shrink hshrink).flags rfl rfl rfl rfl rfl)
  | join k w cf hk hz =>
    obtain ⟨hphase, hcall⟩ := h.single hk
    have hphase : Armed ⟨w, cf, .stopping⟩ s ∨ Reached ⟨w, cf, .stopping⟩ s := hphase
    refine h.advance _ rfl (Nat.le_refl _) rfl (hcall .returned) ?_
    exact hphase.imp (fun ha => ha.flags rfl rfl rfl rfl rfl) (fun hr => hr.flags rfl rfl rfl rfl rfl)
  | _ =>
    rcases hl with ⟨w, cf, hl⟩ | ⟨k, hl | hl | hl | hl | hl | hl⟩ | ⟨k, i, hl⟩ <;> cases hl

theorem Phase.change {poolSize : Nat} {l : Label} (h : Phase s) (hc : Change poolSize s l t)
    (halone : Alone s l = true) (hlegible : Legible s l = true) : Phase t := by
  have hc' := hc
  cases hc with
  | enter | check | draw | giveUp | put => exact h.submit hc' halone (by simp)
  | begin | pass | close | drain | drawSentinel | putSentinel | stop | join =>
    exact h.shutdown hc' halone hlegible (by simp)
  | timeOut k => cases halone
  | slot hr =>
    exact h.shrink (.same rfl (fun _ hf => hf) (by rw [hr]; rfl) (by rw [hr]; rfl)) rfl rfl rfl rfl
  | getSentinel x q hr hg hx =>
    obtain ⟨c, hcall, harmed, hafter⟩ := h.armed ((mem_get hg).mpr (.inl rfl)) hx
    have hsub : ∀ y ∈ q.items, y ∈ s.submittedJobs.items := fun y hy => (mem_get hg).mpr (.inr hy)
    refine ⟨fun y hy => h.sequences y (hsub y hy), h.drawn, fun y hy => h.priorities y (hsub y hy),
      h.accepted, fun hnil => ?_, fun d hd => ?_⟩
    · exact absurd (hcall.symm.trans hnil) (List.cons_ne_nil _ _)
    · have hd : d ∈ s.shutdowns := hd
      rw [hcall] at hd
      cases List.mem_singleton.mp hd
      exact ⟨hcall, hafter _ (.inr (harmed.take hg hx rfl rfl rfl))⟩
  | getJob x q job hr hg hx =>
    exact h.shrink (.job hg hx rfl (fun _ hf => hf) (by rw [hr]; rfl) (by rw [hr]; rfl)) rfl rfl rfl rfl
  | skip job hr hd =>
    exact h.shrink (.same rfl (fun _ hf => hf) (by rw [hr]; rfl) (by rw [hr]; rfl)) rfl rfl rfl rfl
  | pick job hr =>
    exact h.shrink (.same rfl (fun _ hf => hf) (by rw [hr]; rfl) (by rw [hr]; rfl)) rfl rfl rfl rfl
  | launch job hr =>
    exact h.shrink (.same rfl (fun _ hf => hf) (by rw [hr]; rfl) (by rw [hr]; rfl)) rfl rfl rfl rfl
  | runnerDrain hr t ht =>
    obtain ⟨hrun, htasks, hsub, hshut, hseq, hclosed, -⟩ := drainTurn_frame s
    obtain ⟨c, hcall, hreached, hafter⟩ := h.reached (by rw [hr]; rfl)
    rcases drainTurn_quiet hlegible hreached.jobs with ⟨he, hnil⟩ | ⟨hagain, hshrink, -⟩
    · rw [he] at ht
      rcases ht with ⟨-, hbad⟩ | ⟨rfl, -⟩ | ⟨e, -, hbad⟩
      · cases hbad
      · exact h.shrink ⟨fun _ hx => hx, rfl, fun _ hf => hf, by rw [hr]; rfl, fun _ => .inr hnil⟩
          rfl rfl rfl rfl
      · cases hbad
    · rw [hagain] at ht
      rcases ht with ⟨rfl, -⟩ | ⟨-, hbad⟩ | ⟨e, -, hbad⟩
      · exact h.shrink hshrink hclosed hseq hsub hshut
      · cases hbad
      · cases hbad
  | settle i job hi => exact h.shrink (.same rfl (settle_done s) rfl rfl) rfl rfl rfl rfl
  | finish i job hi => exact h.shrink (.same rfl (fun _ hf => hf) rfl rfl) rfl rfl rfl rfl
  | cancel f => exact h.shrink (.same rfl (cancelFuture_mono s f) rfl rfl) rfl rfl rfl rfl
  | addCallback f =>
    exact h.shrink (.same rfl (fun g hg => by rw [addCallback_state]; exact hg) rfl rfl) rfl rfl rfl rfl

end Phases

/-! ## Runs with one shutdown -/

/-- The steps the flags are about. -/
def Solo (s : State) (l : Label) : Bool := Alone s l && Legible s l

section Runs

variable {maxBacklog : Int} {poolSize : Nat} {s t : State} {c : Shutdown}

theorem phase_step {l : Label} (h : Phase s) (hsolo : Solo s l = true)
    (hs : step poolSize s l = some t) : Phase t := by
  obtain ⟨halone, hlegible⟩ := Bool.and_eq_true_iff.mp hsolo
  exact h.change (step_change hs) halone hlegible

/-- Such steps are orderly: nothing is put late, and drains meet no sentinel. -/
theorem Phase.orderly {l : Label} (h : Phase s) (hsolo : Solo s l = true)
    (hs : step poolSize s l = some t) : Orderly s l = true := by
  obtain ⟨halone, hlegible⟩ := Bool.and_eq_true_iff.mp hsolo
  have hc := step_change hs
  cases hc with
  | giveUp k n d hk hcc | put k n d hk hcc =>
    have hloop := (h.before (by simpa [Alone] using halone)).1
    have hgone : s.runner.gone = false := by
      cases hr : s.runner with
      | exited e =>
        rw [hr] at hloop
        cases hloop
      | _ => rfl
    simp [Orderly, hgone]
  | drain k w cf hk t ht =>
    obtain ⟨⟨hp, -⟩, -⟩ := h.single hk
    exact drains_of_quiet hlegible hp.jobs
  | runnerDrain hr t ht =>
    obtain ⟨c, -, hreached, -⟩ := h.reached (by rw [hr]; rfl)
    exact drains_of_quiet hlegible hreached.jobs
  | timeOut k => cases halone
  | _ => rfl

/-- What holds at every state of such a run. -/
structure Ready (s : State) : Prop where
  phase : Phase s
  inv : Inv s
  tally : Tally s

theorem Ready.step {l : Label} (h : Ready s) (hsolo : Solo s l = true)
    (hs : Backlog.step poolSize s l = some t) : Ready t :=
  ⟨phase_step h.phase hsolo hs, inv_step h.inv (h.phase.orderly hsolo hs) hs,
    h.tally.change (step_change hs)⟩

theorem ready_run (h : (system maxBacklog poolSize).Reach (fun s l => Solo s l = true) s) :
    Ready s :=
  h.invariant (I := Ready) ⟨phase_init maxBacklog, inv_init maxBacklog, tally_init maxBacklog⟩
    fun _ _ _ _ hi hc hs => hi.step hc hs

/-- Induction over the rest of a run, with the steps' labels at hand. -/
theorem Ready.runWhile {P : State → Prop} {p : Label → Prop}
    (hstep : ∀ u l v, Ready u → P u → p l → Solo u l = true → Backlog.step poolSize u l = some v →
      P v) :
    ∀ {ls : List Label} {s : State}, Ready s → P s → (∀ l ∈ ls, p l) →
      (system maxBacklog poolSize).runWhile Solo s ls = some t → Ready t ∧ P t := by
  intro ls
  induction ls with
  | nil =>
    intro s hr hp _ h
    cases h
    exact ⟨hr, hp⟩
  | cons l ls ih =>
    intro s hr hp hok h
    simp only [Lts.System.runWhile] at h
    split at h
    · rename_i hsolo
      obtain ⟨u, hu, h⟩ := Option.bind_eq_some_iff.mp h
      have hl := hok l List.mem_cons_self
      exact ih (hr.step hsolo hu) (hstep s l u hr hp hl hsolo hu)
        (fun m hm => hok m (List.mem_cons_of_mem _ hm)) h
    · cases h

/-- The flags of the call do not change. -/
def Flags (w cf : Bool) (s : State) : Prop := ∃ pc, s.shutdowns = [⟨w, cf, pc⟩]

theorem Flags.change {w cf : Bool} {l : Label} (h : Flags w cf s) (halone : Alone s l = true)
    (hc : Change poolSize s l t) : Flags w cf t := by
  obtain ⟨pc, hpc⟩ := h
  have hset : ∀ (u : State) (k : Nat) (pc' : ShutdownPc), u.shutdowns = s.shutdowns →
      Flags w cf (u.setShutdown k pc') := by
    intro u k pc' hu
    rw [hpc] at hu
    cases k with
    | zero => exact ⟨pc', by simp [State.setShutdown, hu]⟩
    | succ k => exact ⟨pc, by simp [State.setShutdown, hu]⟩
  cases hc with
  | begin w' cf' =>
    simp [Alone, hpc] at halone
  | pass | close | drawSentinel | putSentinel | timeOut | join => exact hset _ _ _ rfl
  | drain k w' cf' hk t ht =>
    have hshut := (drainTurn_frame s).2.2.2.1
    rcases ht with ⟨rfl, -⟩ | ⟨rfl, -⟩ | ⟨e, rfl, -⟩
    · exact ⟨pc, hshut.trans hpc⟩
    · exact hset _ _ _ hshut
    · exact hset _ _ _ hshut
  | stop k i task hi hk t ht =>
    rcases ht with rfl | rfl
    · exact ⟨pc, hpc⟩
    · exact hset _ _ _ rfl
  | runnerDrain hr t ht =>
    have hshut := (drainTurn_frame s).2.2.2.1
    rcases ht with ⟨rfl, -⟩ | ⟨rfl, -⟩ | ⟨e, rfl, -⟩ <;> exact ⟨pc, hshut.trans hpc⟩
  | _ => exact ⟨pc, hpc⟩

theorem Flags.nonempty {w cf : Bool} (h : Flags w cf s) : s.shutdowns.isEmpty = false := by
  obtain ⟨pc, hpc⟩ := h
  simp [hpc]

theorem Flags.of_getElem? {w cf w' cf' : Bool} {k : Nat} {pc : ShutdownPc} (h : Flags w cf s)
    (hk : s.shutdowns[k]? = some ⟨w', cf', pc⟩) : w' = w ∧ cf' = cf := by
  obtain ⟨pc', hpc⟩ := h
  have hmem := List.mem_of_getElem? hk
  rw [hpc] at hmem
  cases List.mem_singleton.mp hmem
  exact ⟨rfl, rfl⟩

/-! ### A waiting shutdown -/

/-- The job is launched, or open and on its way to the runner. -/
def Awaited (f : Nat) (s : State) : Prop :=
  s.Launched f ∨ ((s.futs f).state = .pending ∧ (s.Queued f ∨ s.runner.job = some ⟨f⟩))

/-- Under `wait=True, cancel_futures=False` only its user can keep an open job from the runner. -/
theorem Awaited.change {f : Nat} {l : Label} (h : Awaited f s) (hready : Ready s)
    (hflags : Flags true false s) (hl : l ≠ .cancel f) (hsolo : Solo s l = true)
    (hc : Change poolSize s l t) : Awaited f t := by
  obtain ⟨halone, -⟩ := Bool.and_eq_true_iff.mp hsolo
  have hopen := hflags.nonempty
  cases hc with
  | enter | check | draw | giveUp | put | begin =>
    simp [Alone, hopen] at halone
  | drain k w cf hk t ht =>
    obtain ⟨⟨-, hcf⟩, -⟩ := hready.phase.single hk
    have := (hflags.of_getElem? hk).2
    exact absurd (hcf.symm.trans this) (by decide)
  | putSentinel k n w cf hk =>
    rcases h with hlaunched | ⟨hp, ⟨x, hx, hi⟩ | hj⟩
    · exact .inl hlaunched
    · exact .inr ⟨hp, .inl ⟨x, mem_push.mpr (.inr hx), hi⟩⟩
    · exact .inr ⟨hp, .inr hj⟩
  | stop k i task hi hk t ht => exact absurd (hflags.of_getElem? hk).1 (by decide)
  | slot hr =>
    rcases h with hlaunched | ⟨hp, hq | hj⟩
    · exact .inl hlaunched
    · exact .inr ⟨hp, .inl hq⟩
    · rw [hr] at hj
      cases hj
  | getSentinel x q hr hg hx =>
    rcases h with hlaunched | ⟨hp, ⟨y, hy, hi⟩ | hj⟩
    · exact .inl hlaunched
    -- the sentinel stands behind every open job
    · obtain ⟨c, hcall, harmed, -⟩ := hready.phase.armed ((mem_get hg).mpr (.inl rfl)) hx
      obtain ⟨pc, hpc⟩ := hflags
      rw [hpc] at hcall
      cases hcall
      have hreached := harmed.take (t := { s with submittedJobs := q.taskDone, runner := .draining })
        hg hx rfl rfl rfl
      rcases (mem_get hg).mp hy with rfl | hy
      · rw [hx] at hi
        cases hi
      · have hdone := hreached.settled rfl rfl y hy ⟨f⟩ hi
        change (s.futs f).state.done = true at hdone
        rw [hp] at hdone
        cases hdone
    · rw [hr] at hj
      cases hj
  | getJob x q job hr hg hx =>
    rcases h with hlaunched | ⟨hp, ⟨y, hy, hi⟩ | hj⟩
    · exact .inl hlaunched
    · rcases (mem_get hg).mp hy with rfl | hy
      · rw [hx] at hi
        cases hi
        exact .inr ⟨hp, .inr rfl⟩
      · exact .inr ⟨hp, .inl ⟨y, hy, hi⟩⟩
    · rw [hr] at hj
      cases hj
  | skip job hr hd =>
    rcases h with hlaunched | ⟨hp, hq | hj⟩
    · exact .inl hlaunched
    · exact .inr ⟨hp, .inl hq⟩
    · rw [hr] at hj
      cases hj
      rw [hp] at hd
      cases hd
  | pick job hr =>
    rcases h with hlaunched | ⟨hp, hq | hj⟩
    · exact .inl hlaunched
    · exact .inr ⟨hp, .inl hq⟩
    · rw [hr] at hj
      exact .inr ⟨hp, .inr hj⟩
  | launch job hr =>
    rcases h with ⟨task, htask, hf⟩ | ⟨hp, hq | hj⟩
    · exact .inl ⟨task, List.mem_append_left _ htask, hf⟩
    · exact .inr ⟨hp, .inl hq⟩
    · rw [hr] at hj
      cases hj
      exact .inl ⟨⟨⟨f⟩, true⟩, List.mem_append_right _ (List.mem_singleton_self _), rfl⟩
  | runnerDrain hr t ht =>
    obtain ⟨c, hcall, hreached, -⟩ := hready.phase.reached (by rw [hr]; rfl)
    obtain ⟨pc, hpc⟩ := hflags
    rw [hpc] at hcall
    cases hcall
    have htasks := (drainTurn_frame s).2.1
    rcases h with hlaunched | ⟨hp, ⟨y, hy, hi⟩ | hj⟩
    · rcases ht with ⟨rfl, -⟩ | ⟨rfl, -⟩ | ⟨e, rfl, -⟩ <;>
        (obtain ⟨task, htask, hf⟩ := hlaunched; exact .inl ⟨task, htasks ▸ htask, hf⟩)
    · have hdone := hreached.settled rfl rfl y hy ⟨f⟩ hi
      change (s.futs f).state.done = true at hdone
      rw [hp] at hdone
      cases hdone
    · rw [hr] at hj
      cases hj
  | settle i job hi =>
    rcases h with hlaunched | ⟨hp, hrest⟩
    · exact .inl hlaunched
    · by_cases hf : f = job.fut
      · exact .inl ⟨_, List.mem_of_getElem? hi, hf.symm⟩
      · refine .inr ⟨?_, hrest⟩
        change (Function.update s.futs job.fut _ f).state = .pending
        rw [Function.update_of_ne hf]
        exact hp
  | finish i job hi =>
    rcases h with hlaunched | hrest
    · exact .inl (launched_finish hi hlaunched)
    · exact .inr hrest
  | cancel g =>
    rcases h with hlaunched | ⟨hp, hrest⟩
    · exact .inl hlaunched
    · refine .inr ⟨?_, hrest⟩
      have hne : f ≠ g := fun he => hl (he ▸ rfl)
      change (Function.update s.futs g _ f).state = .pending
      rw [Function.update_of_ne hne]
      exact hp
  | addCallback g =>
    rcases h with hlaunched | ⟨hp, hrest⟩
    · exact .inl hlaunched
    · exact .inr ⟨(addCallback_state s g f).trans hp, hrest⟩
  | _ => exact h

/-! ### A shutdown that cancels -/

/-- The job is out of the runner's reach: the runner has taken the sentinel or will take it next. -/
structure Doomed (f : Nat) (s : State) : Prop where
  unlaunched : ¬ s.Launched f
  unheld : s.runner.job ≠ some ⟨f⟩
  last : s.runner.inLoop = false ∨ s.HoldsSentinel

/-- A sentinel that is to pop first, or a drained queue, leaves no job for the runner. -/
theorem Armed.no_job {x : PrioritizedItem} {q : PriorityQueue} {job : Job} (h : Armed c s)
    (hphase : Phase s) (hwcf : c.wait = false ∨ c.cancelFutures = true)
    (hg : s.submittedJobs.get = some (x, q)) (hx : x.item = some job) : False := by
  have hmem := (mem_get hg).mpr (.inl rfl)
  rcases hwcf with hw | hcf
  · have hpos : 0 < s.submittedJobs.items.countP (fun x => x.item.isNone) := by
      rw [h.once]
      exact Nat.one_pos
    obtain ⟨y, hy, hn⟩ := List.countP_pos_iff.mp hpos
    have hn : y.item = none := by simpa using hn
    obtain ⟨hprio, -⟩ := h.sentinel y hy hn
    have hjob := hphase.priorities x hmem (by simp [hx])
    rcases (mem_get hg).mp hy with rfl | hyq
    · rw [hx] at hn
      cases hn
    · have hleast := PriorityQueue.get_least hg y hyq
      rw [hw] at hprio
      simp only [Bool.false_eq_true, if_false] at hprio
      simp only [PrioritizedItem.lt, Bool.or_eq_false_iff, decide_eq_false_iff_not] at hleast
      omega
  · have := h.drained hcf x hmem
    rw [hx] at this
    cases this

/-- Once the sentinel is put, a shutdown with other flags launches no further job. -/
theorem Doomed.change {f : Nat} {w cf : Bool} {l : Label} (h : Doomed f s) (hready : Ready s)
    (hflags : Flags w cf s) (hwcf : w = false ∨ cf = true) (hsolo : Solo s l = true)
    (hc : Change poolSize s l t) : Doomed f t := by
  obtain ⟨halone, -⟩ := Bool.and_eq_true_iff.mp hsolo
  have hopen := hflags.nonempty
  cases hc with
  | enter | check | draw | giveUp | put | begin =>
    simp [Alone, hopen] at halone
  | drain k w' cf' hk t ht =>
    obtain ⟨⟨hp, -⟩, -⟩ := hready.phase.single hk
    rcases h.last with hloop | ⟨x, hx, hn⟩
    · exact absurd hp.inLoop (by rw [hloop]; exact Bool.false_ne_true)
    · exact absurd hn (hp.jobs x hx)
  | putSentinel k n w' cf' hk =>
    exact ⟨h.unlaunched, h.unheld, .inr ⟨_, mem_push.mpr (.inl rfl), rfl⟩⟩
  | stop k i task hi hk t ht =>
    rcases ht with rfl | rfl <;> exact ⟨h.unlaunched, h.unheld, h.last⟩
  | slot hr =>
    refine ⟨h.unlaunched, by simp [Runner.job], ?_⟩
    rcases h.last with hloop | hs
    · rw [hr] at hloop
      cases hloop
    · exact .inr hs
  | getSentinel x q hr hg hx => exact ⟨h.unlaunched, by simp [Runner.job], .inl rfl⟩
  | getJob x q job hr hg hx =>
    rcases h.last with hloop | ⟨y, hy, hn⟩
    · rw [hr] at hloop
      cases hloop
    · obtain ⟨c, hcall, harmed, -⟩ := hready.phase.armed hy hn
      obtain ⟨pc, hpc⟩ := hflags
      rw [hpc] at hcall
      cases hcall
      exact (harmed.no_job hready.phase hwcf hg hx).elim
  | skip job hr hd =>
    refine ⟨h.unlaunched, by simp [Runner.job], ?_⟩
    rcases h.last with hloop | hs
    · rw [hr] at hloop
      cases hloop
    · exact .inr hs
  | pick job hr =>
    have hheld := h.unheld
    rw [hr] at hheld
    refine ⟨h.unlaunched, hheld, ?_⟩
    rcases h.last with hloop | hs
    · rw [hr] at hloop
      cases hloop
    · exact .inr hs
  | launch job hr =>
    have hheld := h.unheld
    rw [hr] at hheld
    refine ⟨?_, by simp [Runner.job], ?_⟩
    · rintro ⟨task, htask, hf⟩
      rcases List.mem_append.mp htask with htask | htask
      · exact h.unlaunched ⟨task, htask, hf⟩
      · cases List.mem_singleton.mp htask
        obtain ⟨g⟩ := job
        cases hf
        exact hheld rfl
    · rcases h.last with hloop | hs
      · rw [hr] at hloop
        cases hloop
      · exact .inr hs
  | runnerDrain hr t ht =>
    obtain ⟨hrun, htasks, -⟩ := drainTurn_frame s
    rcases ht with ⟨rfl, -⟩ | ⟨rfl, -⟩ | ⟨e, rfl, -⟩
    · refine ⟨?_, by rw [hrun]; exact h.unheld, .inl (by rw [hrun, hr]; rfl)⟩
      rintro ⟨task, htask, hf⟩
      exact h.unlaunched ⟨task, htasks ▸ htask, hf⟩
    · refine ⟨?_, by simp [Runner.job], .inl rfl⟩
      rintro ⟨task, htask, hf⟩
      exact h.unlaunched ⟨task, htasks ▸ htask, hf⟩
    · refine ⟨?_, by simp [Runner.job], .inl rfl⟩
      rintro ⟨task, htask, hf⟩
      exact h.unlaunched ⟨task, htasks ▸ htask, hf⟩
  | finish i job hi =>
    refine ⟨?_, h.unheld, h.last⟩
    rintro ⟨task, htask, hf⟩
    rcases List.mem_or_eq_of_mem_set htask with htask | rfl
    · exact h.unlaunched ⟨task, htask, hf⟩
    · exact h.unlaunched ⟨_, List.mem_of_getElem? hi, hf⟩
  | _ => exact ⟨h.unlaunched, h.unheld, h.last⟩

/-- A job on the queue is in no other place. -/
theorem Tally.queued {f : Nat} (h : Tally s) (hq : s.Queued f) :
    ¬ s.Launched f ∧ s.runner.job ≠ some ⟨f⟩ := by
  obtain ⟨x, hx, hi⟩ := hq
  have hcopies := h.copies f
  have hle := Bool.toNat_le (s.hasReturned f)
  have hpos : 0 < s.submittedJobs.items.countP (fun x => x.item == some ⟨f⟩) :=
    List.countP_pos_iff.mpr ⟨x, hx, by simp [hi]⟩
  unfold State.copies at hcopies
  constructor
  · rintro ⟨task, htask, hf⟩
    have : 0 < s.tasks.countP (fun task => task.job == ⟨f⟩) := by
      refine List.countP_pos_iff.mpr ⟨task, htask, ?_⟩
      obtain ⟨⟨g⟩, b⟩ := task
      cases hf
      simp
    omega
  · intro hj
    rw [hj, beq_self_eq_true, Bool.toNat_true] at hcopies
    omega

/-- What a turn of the call's drain takes is cancelled, and is nowhere any more. -/
theorem drained_cancelled {k f : Nat} {u : State} (h : Ready s)
    (hsolo : Solo s (.drain k) = true) (hs : step poolSize s (.drain k) = some u)
    (hq : s.Queued f) (hnot : ¬ u.Queued f) : u.Cancelled f ∧ u.copies f = 0 := by
  obtain ⟨-, hlegible⟩ := Bool.and_eq_true_iff.mp hsolo
  have hready := h.step hsolo hs
  obtain ⟨hun, hheld⟩ := h.tally.queued hq
  cases step_change hs with
  | drain k w cf hk t ht =>
    obtain ⟨⟨hp, -⟩, -⟩ := h.phase.single hk
    obtain ⟨hrun, htasks, -⟩ := drainTurn_frame s
    rcases drainTurn_quiet hlegible hp.jobs with ⟨-, hnil⟩ | ⟨hagain, -, x, q, job, hg, hx, he⟩
    · obtain ⟨y, hy, -⟩ := hq
      rw [hnil] at hy
      cases hy
    · rw [hagain] at ht
      rcases ht with ⟨rfl, -⟩ | ⟨-, hbad⟩ | ⟨e, -, hbad⟩
      · obtain ⟨y, hy, hi⟩ := hq
        have hgone : y = x := by
          rcases (mem_get hg).mp hy with hyx | hyq
          · exact hyx
          · exact absurd ⟨y, by rw [he]; exact hyq, hi⟩ hnot
        subst hgone
        rw [hx] at hi
        cases hi
        have hlaunched : ¬ s.drainTurn.1.Launched f := by
          rintro ⟨task, htask, hf⟩
          exact hun ⟨task, htasks ▸ htask, hf⟩
        constructor
        · rw [he]
          rcases h.inv.unset f with hl | hpend | hcan
          · exact absurd hl hun
          · simp [State.Cancelled, State.cancelFuture, Future.cancel, hpend]
          · rcases cancelFuture_state { s with submittedJobs := q.taskDone } f f with hst | ⟨-, hst⟩
            · exact hst.trans hcan
            · exact hst
        · unfold State.copies
          have hitems : s.drainTurn.1.submittedJobs.items.countP (fun x => x.item == some ⟨f⟩) = 0 := by
            rw [List.countP_eq_zero]
            intro z hz hzf
            exact hnot ⟨z, hz, by simpa using hzf⟩
          have htask : s.drainTurn.1.tasks.countP (fun task => task.job == ⟨f⟩) = 0 := by
            rw [List.countP_eq_zero]
            intro z hz hzf
            have hzf : z.job = ⟨f⟩ := by simpa using hzf
            exact hlaunched ⟨z, hz, by rw [hzf]⟩
          have hjob : (s.drainTurn.1.runner.job == some ⟨f⟩) = false := by
            rw [hrun]
            simpa using hheld
          rw [hitems, htask, hjob]
          rfl
      · cases hbad
      · cases hbad

/-- A job that is nowhere stays nowhere, since nothing is put beside the call. -/
theorem copies_zero {f : Nat} {l : Label} {w cf : Bool} (h : s.copies f = 0)
    (hsolo : Solo s l = true) (hflags : Flags w cf s) (hc : Change poolSize s l t) :
    t.copies f = 0 := by
  obtain ⟨halone, -⟩ := Bool.and_eq_true_iff.mp hsolo
  have hl : ∀ k, l ≠ .put k := by
    rintro k rfl
    simp [Alone, hflags.nonempty] at halone
  have := (hc.accounts hl).copies f
  omega

/-- A queued job was returned by `submit`. -/
theorem Tally.returned {f : Nat} (h : Tally s) (hq : s.Queued f) : s.hasReturned f = true := by
  obtain ⟨x, hx, hi⟩ := hq
  have hcopies := h.copies f
  have hpos : 0 < s.submittedJobs.items.countP (fun x => x.item == some ⟨f⟩) :=
    List.countP_pos_iff.mpr ⟨x, hx, by simp [hi]⟩
  unfold State.copies at hcopies
  cases hr : s.hasReturned f with
  | true => rfl
  | false =>
    rw [hr, Bool.toNat_false] at hcopies
    omega

theorem returned_of_hasReturned {f : Nat} (h : s.hasReturned f = true) : s.Returned f := by
  unfold State.hasReturned at h
  obtain ⟨c, hc, hpc⟩ := Option.map_eq_some_iff.mp (beq_iff_eq.mp h)
  exact ⟨c, hc, hpc⟩

/-- A runner that has left holds nothing and has emptied the queue. -/
theorem Ready.gone (h : Ready s) (hgone : s.runner.gone = true) :
    s.submittedJobs.items = [] ∧ s.runner.job = none := by
  have hloop : s.runner.inLoop = false ∧ s.runner.job = none := by
    cases hr : s.runner with
    | exited e => exact ⟨rfl, rfl⟩
    | _ =>
      rw [hr] at hgone
      cases hgone
  obtain ⟨c, -, hreached, -⟩ := h.phase.reached hloop.1
  exact ⟨hreached.gone hgone, hloop.2⟩

theorem Ready.launched {f : Nat} {ls : List Label} (h : Ready s) (hflags : Flags true false s)
    (hq : s.Queued f) (hopen : (s.futs f).state.done = false) (hcancel : Label.cancel f ∉ ls)
    (hrun : (system maxBacklog poolSize).runWhile Solo s ls = some t)
    (hgone : t.runner.gone = true) : t.Launched f := by
  have hpending : (s.futs f).state = .pending := by
    rcases h.inv.unset f with hl | hp | hc
    · exact absurd hl (h.tally.queued hq).1
    · exact hp
    · rw [show (s.futs f).state = .cancelled from hc] at hopen
      cases hopen
  obtain ⟨hready, -, hawaited⟩ := Ready.runWhile
    (P := fun u => Flags true false u ∧ Awaited f u) (p := fun l => l ≠ .cancel f)
    (fun u l v hu hp hl hsolo hv => by
      have hc := step_change hv
      exact ⟨hp.1.change (Bool.and_eq_true_iff.mp hsolo).1 hc, hp.2.change hu hp.1 hl hsolo hc⟩)
    h ⟨hflags, .inr ⟨hpending, .inl hq⟩⟩ (fun l hl he => hcancel (he ▸ hl)) hrun
  obtain ⟨hnil, hjob⟩ := hready.gone hgone
  rcases hawaited with hl | ⟨-, ⟨x, hx, -⟩ | hj⟩
  · exact hl
  · rw [hnil] at hx
    cases hx
  · rw [hjob] at hj
    cases hj

theorem Ready.cancelled {f : Nat} {w cf : Bool} {ls : List Label} (h : Ready s)
    (hflags : Flags w cf s) (hwcf : w = false ∨ cf = true)
    (hlast : s.runner.inLoop = false ∨ s.HoldsSentinel) (hq : s.Queued f)
    (hrun : (system maxBacklog poolSize).runWhile Solo s ls = some t)
    (hgone : t.runner.gone = true) : t.Cancelled f ∧ ¬ t.Launched f := by
  obtain ⟨hun, hheld⟩ := h.tally.queued hq
  obtain ⟨hready, -, hdoomed, hret⟩ := Ready.runWhile
    (P := fun u => Flags w cf u ∧ Doomed f u ∧ u.hasReturned f = true) (p := fun _ => True)
    (fun u l v hu hp _ hsolo hv => by
      have hc := step_change hv
      exact ⟨hp.1.change (Bool.and_eq_true_iff.mp hsolo).1 hc,
        hp.2.1.change hu hp.1 hwcf hsolo hc, hc.hasReturned hp.2.2⟩)
    h ⟨hflags, ⟨hun, hheld, hlast⟩, h.tally.returned hq⟩ (fun _ _ => trivial) hrun
  refine ⟨?_, hdoomed.unlaunched⟩
  obtain ⟨hnil, hjob⟩ := hready.gone hgone
  rcases hready.inv.traced f (returned_of_hasReturned hret) with hl | hc | ⟨x, hx, -⟩ | hj
  · exact absurd hl hdoomed.unlaunched
  · exact hc
  · rw [hnil] at hx
    cases hx
  · rw [hjob] at hj
    cases hj

theorem copies_launched {f : Nat} (h : s.copies f = 0) : ¬ s.Launched f := by
  rintro ⟨task, htask, hf⟩
  have : 0 < s.tasks.countP (fun task => task.job == ⟨f⟩) := by
    refine List.countP_pos_iff.mpr ⟨task, htask, ?_⟩
    obtain ⟨⟨g⟩, b⟩ := task
    cases hf
    simp
  unfold State.copies at h
  omega

end Runs

/-- **The table of shutdown flags.**  Let `s` be any state from the start of the one shutdown call on,
and let the run go on to a state `t` in which the runner has left.

* Under `wait=True, cancel_futures=False` every job that is open and on the queue in `s`, and that its
  user does not cancel, was launched.
* Under the other flags a job that is on the queue when the sentinel is there or has been reached ends
  cancelled and is never launched.
* A job that a turn of the call's own drain takes is cancelled at once and never launched.
* `unfinished` counts, in both states, the items that are on the queue, in the runner's hands or with a
  live `run_task` thread; so when the threads have ended, `submitted_jobs.join()` returns. -/
theorem shutdown_flags (maxBacklog : Int) (poolSize : Nat) {s t : State} {ls : List Label} {w cf : Bool}
    (hs : (system maxBacklog poolSize).Reach (fun s l => Solo s l = true) s) (hflags : Flags w cf s)
    (hrun : (system maxBacklog poolSize).runWhile Solo s ls = some t) (hgone : t.runner.gone = true) :
    (w = true → cf = false → ∀ f, s.Queued f → (s.futs f).state.done = false → .cancel f ∉ ls →
        t.Launched f) ∧
      (w = false ∨ cf = true → s.HoldsSentinel ∨ s.runner.inLoop = false → ∀ f, s.Queued f →
        t.Cancelled f ∧ ¬ t.Launched f) ∧
      (∀ k u f rest, ls = .drain k :: rest → step poolSize s (.drain k) = some u → s.Queued f →
        ¬ u.Queued f → u.Cancelled f ∧ ¬ t.Launched f) ∧
      s.submittedJobs.unfinished = s.unmatched ∧ t.submittedJobs.unfinished = t.unmatched ∧
      ((∀ task ∈ t.tasks, task.live = false) → t.submittedJobs.unfinished = 0) := by
  have hready := ready_run hs
  obtain ⟨hready', -⟩ := Ready.runWhile (P := fun _ => True) (p := fun _ => True)
    (fun _ _ _ _ _ _ _ _ => trivial) hready trivial (fun _ _ => trivial) hrun
  refine ⟨?_, ?_, ?_, hready.tally.unfinished, hready'.tally.unfinished, ?_⟩
  · intro hw hcf f hq hopen hcancel
    subst hw hcf
    exact hready.launched hflags hq hopen hcancel hrun hgone
  · intro hwcf hlast f hq
    exact hready.cancelled hflags hwcf hlast.symm hq hrun hgone
  · intro k u f rest hls hu hq hnot
    subst hls
    simp only [Lts.System.runWhile] at hrun
    split at hrun
    · rename_i hsolo
      obtain ⟨v, hv, hrest⟩ := Option.bind_eq_some_iff.mp hrun
      cases hu.symm.trans hv
      obtain ⟨hcancelled, hzero⟩ := drained_cancelled hready hsolo hu hq hnot
      have hflags' := hflags.change (Bool.and_eq_true_iff.mp hsolo).1 (step_change hu)
      obtain ⟨-, -, hzero'⟩ := Ready.runWhile
        (P := fun u => Flags w cf u ∧ u.copies f = 0) (p := fun _ => True)
        (fun u l v _ hp _ hsolo hv => by
          have hc := step_change hv
          exact ⟨hp.1.change (Bool.and_eq_true_iff.mp hsolo).1 hc, copies_zero hp.2 hsolo hp.1 hc⟩)
        (hready.step hsolo hu) ⟨hflags', hzero⟩ (fun _ _ => trivial) hrest
      exact ⟨hcancelled, copies_launched hzero'⟩
    · cases hrun
  · intro hended
    obtain ⟨hnil, hjob⟩ := hready'.gone hgone
    have hlive : t.tasks.countP (fun task => task.live) = 0 := by
      rw [List.countP_eq_zero]
      intro task htask
      simp [hended task htask]
    rw [hready'.tally.unfinished]
    unfold State.unmatched
    rw [hnil, hjob, hlive]
    rfl

/-- One job is launched, two more are on the queue, and a waiting shutdown begins. -/
def backlogOfTwo : List Label :=
  [.submit 0 true, .check 0, .check 0, .draw 0, .put 0, .slot, .get, .look, .launch,
    .submit 7 true, .check 1, .check 1, .draw 1, .put 1,
    .submit 3 true, .check 2, .check 2, .draw 2, .put 2, .shutdown true false]

/-- The shutdown puts its sentinel, and the runner launches both jobs before it leaves. -/
def waitForAll : List Label :=
  [.pass 0, .close 0, .drawSentinel 0, .putSentinel 0, .slot, .get, .look, .launch, .slot, .get, .look,
    .launch, .slot, .get, .runnerDrain]

theorem shutdown_flags_waitForAll :
    ∃ s t, (system 1000 4).Reach (fun s l => Solo s l = true) s ∧ Flags true false s ∧
      (system 1000 4).runWhile Solo s waitForAll = some t ∧ t.runner.gone = true ∧ t.Launched 1 := by
  have hview : (((system 1000 4).runWhile Solo (system 1000 4).init backlogOfTwo).bind
      fun s => ((system 1000 4).runWhile Solo s waitForAll).map fun t =>
        (t.runner.gone, s.shutdowns, s.submittedJobs.items, (s.futs 1).state)) =
      some (true, [⟨true, false, .entered⟩], [⟨3, some ⟨2⟩, 2⟩, ⟨7, some ⟨1⟩, 1⟩], .pending) := by
    decide +kernel
  obtain ⟨s, hs, hview⟩ := Option.bind_eq_some_iff.mp hview
  obtain ⟨t, ht, hview⟩ := Option.map_eq_some_iff.mp hview
  simp only [Prod.mk.injEq] at hview
  obtain ⟨hgone, hshut, hitems, hfut⟩ := hview
  have hr := Lts.System.Reach.of_runWhile .init _ hs
  have hflags : Flags true false s := ⟨.entered, hshut⟩
  have hq : s.Queued 1 := by
    refine ⟨⟨7, some ⟨1⟩, 1⟩, ?_, rfl⟩
    rw [hitems]
    exact List.mem_cons_of_mem _ (List.mem_singleton_self _)
  have hopen : (s.futs 1).state.done = false := by
    rw [hfut]
    rfl
  exact ⟨s, t, hr, hflags, ht, hgone,
    (shutdown_flags 1000 4 hr hflags ht hgone).1 rfl rfl 1 hq hopen (by decide)⟩

/-- A job with a priority above `sys.maxsize` is on the queue when a waiting shutdown begins. -/
def hugePriority : List Label :=
  [.submit (2 ^ 63) true, .check 0, .check 0, .draw 0, .put 0, .shutdown true false]

/-- The sentinel pops before that job. -/
def cutOff : List Label :=
  [.pass 0, .close 0, .drawSentinel 0, .putSentinel 0, .slot, .get, .runnerDrain, .runnerDrain]

/-- **A waiting shutdown cancels a job of a huge priority** that nobody has cancelled: the sentinel is
not the last item. -/
theorem huge_priority_cancelled :
    ∃ s t, (system 1000 4).Reach (fun s l => Alone s l = true) s ∧ Flags true false s ∧
      (system 1000 4).runWhile Alone s cutOff = some t ∧ t.runner.gone = true ∧ s.Queued 0 ∧
      (s.futs 0).state.done = false ∧ ¬ t.Launched 0 ∧ t.Cancelled 0 := by
  have hview : (((system 1000 4).runWhile Alone (system 1000 4).init hugePriority).bind
      fun s => ((system 1000 4).runWhile Alone s cutOff).map fun t =>
        (t.runner.gone, s.shutdowns, s.submittedJobs.items, (s.futs 0).state, t.tasks.isEmpty,
          (t.futs 0).state)) =
      some (true, [⟨true, false, .entered⟩], [⟨2 ^ 63, some ⟨0⟩, 0⟩], .pending, true, .cancelled) := by
    decide +kernel
  obtain ⟨s, hs, hview⟩ := Option.bind_eq_some_iff.mp hview
  obtain ⟨t, ht, hview⟩ := Option.map_eq_some_iff.mp hview
  simp only [Prod.mk.injEq] at hview
  obtain ⟨hgone, hshut, hitems, hfut, htasks, hcan⟩ := hview
  refine ⟨s, t, Lts.System.Reach.of_runWhile .init _ hs, ⟨.entered, hshut⟩, ht, hgone,
    ⟨⟨2 ^ 63, some ⟨0⟩, 0⟩, ?_, rfl⟩, ?_, ?_, hcan⟩
  · rw [hitems]
    exact List.mem_singleton_self _
  · rw [hfut]
    rfl
  · rintro ⟨task, htask, -⟩
    rw [List.isEmpty_iff.mp htasks] at htask
    cases htask

end Deadpool.Pool.Backlog
