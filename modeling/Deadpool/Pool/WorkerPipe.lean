import Deadpool.Lts
import Deadpool.Pool.Workers

/-!
# One worker process, its timers and its two pipes

`raw_runner2` of `deadpool/_pool.py` against the parent's `run_task` / `done_with_process`.  The
messages on the outcome pipe carry no job identity; in the model every message records, as a
ghost, the job that produced it, and `consumed` records for which job the parent took it.

* The main loop receives a job, starts its timer, runs it, sends the outcome, cancels the timer.
* A `threading.Timer` first passes the check of its `finished` event (`expired`), after which
  `cancel` has no effect; then `timed_out` sends a `TimeoutError` and kills the process.
* The parent takes one message per job, or sees the end of the pipe or the death of the process,
  and hands the worker to `done_with_process`, which reuses it only if it is alive and `ok`.

`outcome_of_own_job` — in every run in which no timer passes its check after its job's outcome was
sent, and no outcome is sent by a main loop whose timer has already passed it, every message is
consumed for the job that produced it.
-/

set_option autoImplicit false

namespace Deadpool.Pool.WorkerPipe

/-- A job as sent to the worker; `timeout` is the truth value of its timeout. -/
structure Job where
  id : Nat
  timeout : Bool
  deriving DecidableEq, Repr

/-- A message on the outcome pipe. -/
structure Msg where
  job : Nat
  /-- sent by `timed_out`, not by the main loop -/
  timer : Bool
  /-- `isinstance(results, TimeoutError)` -/
  isTimeout : Bool
  deriving DecidableEq, Repr

/-- The main loop of the worker. -/
inductive Main where
  | recv
  | received (j : Job)
  | running (j : Nat)
  | sending (j : Nat) (isTimeout : Bool)
  | sent (j : Nat)
  | exited
  deriving DecidableEq, Repr

/-- The job whose outcome the main loop has not sent yet. -/
def Main.working : Main → Option Nat
  | .received j => some j.id
  | .running j | .sending j _ => some j
  | _ => none

inductive Timer where
  | absent
  | armed
  | cancelled
  /-- past the check of `finished`, before the send -/
  | expired
  /-- after the send, before the kill -/
  | reported
  deriving DecidableEq, Repr

/-- Where the parent has the worker. -/
inductive Parent where
  | idle
  | held
  | waiting (j : Nat)
  /-- before `done_with_process`; `sawDead` if `is_alive()` already said no -/
  | returning (sawDead : Bool)
  | retired
  deriving DecidableEq, Repr

structure State where
  parent : Parent
  ok : Bool
  nextJob : Nat
  toWorker : List Job
  fromWorker : List Msg
  main : Main
  timers : Nat → Timer
  alive : Bool
  /-- jobs whose outcome the main loop has put on the pipe -/
  answered : List Nat
  /-- the job the parent was waiting for and the message it took -/
  consumed : List (Nat × Msg)

inductive Label where
  -- the parent
  | acquire
  | submit (timeout : Bool)
  | submitFails
  | submitBroken
  | receive
  | eof
  | seeDead
  | done (r : Reading)
  -- the main loop
  | recv
  | startTimer
  | finish (isTimeout : Bool)
  | crash
  | send
  | sendFails
  | cancelTimer
  -- the timers
  | expire (j : Nat)
  | report (j : Nat)
  | reportFails (j : Nat)
  | killSelf (j : Nat)
  -- anyone else
  | killed
  deriving DecidableEq, Repr

def State.setTimer (s : State) (j : Nat) (t : Timer) : State :=
  { s with timers := fun k => if k = j then t else s.timers k }

/-- Steps of the parent. -/
def parentStep (cfg : PoolConfig) (s : State) : Label → Option State
  | .acquire => if s.parent = .idle then some { s with parent := .held } else none
  | .submit timeout =>
    if s.parent = .held ∧ s.alive then
      some { s with
        parent := .waiting s.nextJob
        nextJob := s.nextJob + 1
        toWorker := s.toWorker ++ [⟨s.nextJob, timeout⟩] }
    else none
  -- the job cannot be pickled, or `_before_submit` refuses: nothing was written
  | .submitFails => if s.parent = .held then some { s with parent := .returning false } else none
  | .submitBroken =>
    if s.parent = .held ∧ !s.alive then
      some { s with ok := false, parent := .returning false } else none
  | .receive =>
    match s.parent, s.fromWorker with
    | .waiting j, m :: rest =>
      some { s with
        parent := .returning false
        fromWorker := rest
        ok := if m.isTimeout then false else s.ok
        consumed := s.consumed ++ [(j, m)] }
    | _, _ => none
  | .eof =>
    match s.parent, s.fromWorker with
    | .waiting _, [] => if s.alive then none else some { s with parent := .returning false }
    | _, _ => none
  | .seeDead =>
    match s.parent with
    | .waiting _ => if s.alive then none else some { s with parent := .returning true }
    | _ => none
  | .done r =>
    match s.parent with
    | .returning sawDead =>
      -- `is_alive()` may lag behind the death of the process, but never the other way round
      if r.ok = s.ok ∧ (s.alive → r.alive) ∧ (sawDead → r.alive = false) then
        some { s with parent := if disposition cfg r = .requeue then .idle else .retired }
      else none
    | _ => none
  | _ => none

/-- Steps inside the worker process. -/
def workerStep (s : State) : Label → Option State
  | .recv =>
    match s.main, s.toWorker with
    | .recv, j :: rest => some { s with main := .received j, toWorker := rest }
    | _, _ => none
  | .startTimer =>
    match s.main with
    | .received j =>
      let s := if j.timeout then s.setTimer j.id .armed else s
      some { s with main := .running j.id }
    | _ => none
  | .finish isTimeout =>
    match s.main with
    | .running j => some { s with main := .sending j isTimeout }
    | _ => none
  -- an exception leaves the handler: the `finally` block cancels the timer, the loop is over
  | .crash =>
    match s.main.working with
    | some j =>
      let s := if s.timers j = .armed then s.setTimer j .cancelled else s
      some { s with main := .exited }
    | none => none
  | .send =>
    match s.main with
    | .sending j isTimeout =>
      some { s with
        main := .sent j
        fromWorker := s.fromWorker ++ [⟨j, false, isTimeout⟩]
        answered := j :: s.answered }
    | _ => none
  | .sendFails =>
    match s.main with
    | .sending j _ => some { s with main := .sent j }
    | _ => none
  | .cancelTimer =>
    match s.main with
    | .sent j =>
      let s := if s.timers j = .armed then s.setTimer j .cancelled else s
      some { s with main := .recv }
    | _ => none
  | .expire j => if s.timers j = .armed then some (s.setTimer j .expired) else none
  | .report j =>
    if s.timers j = .expired then
      some { s.setTimer j .reported with fromWorker := s.fromWorker ++ [⟨j, true, true⟩] }
    else none
  | .reportFails j => if s.timers j = .expired then some (s.setTimer j .reported) else none
  | .killSelf j => if s.timers j = .reported then some { s with alive := false } else none
  | .killed => some { s with alive := false }
  | _ => none

def step (cfg : PoolConfig) (s : State) (l : Label) : Option State :=
  match parentStep cfg s l with
  | some s' => some s'
  | none => if s.alive then workerStep s l else none

def init : State where
  parent := .idle
  ok := true
  nextJob := 0
  toWorker := []
  fromWorker := []
  main := .recv
  timers := fun _ => .absent
  alive := true
  answered := []
  consumed := []

def system (cfg : PoolConfig) : Lts.System State Label := ⟨init, step cfg⟩

/-- The race is not run: a timer passes its check only while its job is unanswered, and an
outcome is sent only while its job's timer has not passed its check without reporting. -/
def TimerInTime (s : State) : Label → Bool
  | .expire j => !s.answered.contains j
  | .send =>
    match s.main with
    | .sending j _ => s.timers j != .expired
    | _ => true
  | _ => true

/-! ## The invariant -/

/-- No job is in the worker and no timer can still report. -/
structure Quiet (s : State) : Prop where
  pipe : s.toWorker = []
  main : s.main.working = none
  timer : ∀ k, s.timers k ≠ .expired ∧ (s.timers k = .armed → k ∈ s.answered)

/-- The worker as the parent's wait for job `j` finds it. -/
structure Expecting (s : State) (j : Nat) : Prop where
  others : ∀ k, k ≠ j → s.timers k ≠ .expired ∧ (s.timers k = .armed → k ∈ s.answered)
  pipe : s.toWorker = [] ∨
    ∃ b, s.toWorker = [⟨j, b⟩] ∧ s.main.working = none ∧ j ∉ s.answered ∧ s.timers j = .absent
  main : ∀ k, s.main.working = some k → k = j ∧ j ∉ s.answered
  received : ∀ x, s.main = .received x → s.timers x.id = .absent
  answered : j ∈ s.answered → s.timers j ≠ .expired
  own : ∀ m ∈ s.fromWorker, m.job = j ∧ (m.timer = false → j ∈ s.answered)
  timeout : ∀ m ∈ s.fromWorker, m.timer = true → m.isTimeout = true
  last : ∀ m rest, s.fromWorker = m :: rest → m.timer = false → rest = []
  unsent : j ∉ s.answered → ∀ m ∈ s.fromWorker, m.timer = true

/-- Nothing is left to read, and nothing more will be written for an earlier job. -/
def Settled (s : State) : Prop := s.fromWorker = [] ∧ (s.alive = true → Quiet s)

def ParentInv (s : State) : Prop :=
  match s.parent with
  | .idle | .held => Settled s
  | .waiting j => Expecting s j
  | .returning sawDead => s.ok = true → sawDead = false → Settled s
  | .retired => True

structure Inv (s : State) : Prop where
  parent : ParentInv s
  fresh : ∀ k, s.nextJob ≤ k → s.timers k = .absent ∧ k ∉ s.answered
  queued : ∀ x ∈ s.toWorker, x.id < s.nextJob
  current : ∀ k, s.main.working = some k → k < s.nextJob
  own : ∀ p ∈ s.consumed, p.2.job = p.1

theorem inv_init : Inv init where
  parent := ⟨rfl, fun _ => ⟨rfl, rfl, fun k => by simp [init]⟩⟩
  fresh := by simp [init]
  queued := by simp [init]
  current := by simp [init, Main.working]
  own := by simp [init]

theorem step_cases {cfg : PoolConfig} {s s' : State} {l : Label} (h : step cfg s l = some s') :
    parentStep cfg s l = some s' ∨ (s.alive = true ∧ workerStep s l = some s') := by
  unfold step at h
  split at h
  · rename_i t ht
    cases h
    exact .inl ht
  · split at h
    · rename_i ha
      exact .inr ⟨ha, h⟩
    · cases h

/-! ## Steps inside the worker -/

theorem setTimer_timers (s : State) (j : Nat) (t : Timer) (k : Nat) :
    (s.setTimer j t).timers k = if k = j then t else s.timers k := rfl

/-- The worker touches neither the parent's control point nor what the parent has read. -/
theorem workerStep_frame {s s' : State} {l : Label} (h : workerStep s l = some s') :
    s'.parent = s.parent ∧ s'.ok = s.ok ∧ s'.nextJob = s.nextJob ∧ s'.consumed = s.consumed := by
  unfold workerStep at h
  split at h
  all_goals
    first
    | (split at h <;> cases h <;> (try split) <;> exact ⟨rfl, rfl, rfl, rfl⟩)
    | (cases h; exact ⟨rfl, rfl, rfl, rfl⟩)
    | cases h

/-- Job identities in the worker stay below the next one to be given out. -/
theorem workerStep_bounds {s s' : State} {l : Label} (h : Inv s) (hs : workerStep s l = some s') :
    (∀ k, s'.nextJob ≤ k → s'.timers k = .absent ∧ k ∉ s'.answered) ∧
      (∀ x ∈ s'.toWorker, x.id < s'.nextJob) ∧
      (∀ k, s'.main.working = some k → k < s'.nextJob) := by
  have htimer : ∀ j t, (s.timers j ≠ .absent ∨ j < s.nextJob) → ∀ k, s.nextJob ≤ k →
      (s.setTimer j t).timers k = .absent ∧ k ∉ s.answered := by
    intro j t hj k hk
    obtain ⟨habs, hans⟩ := h.fresh k hk
    have hne : k ≠ j := by
      rintro rfl
      rcases hj with hj | hj
      · exact hj habs
      · omega
    rw [setTimer_timers, if_neg hne]
    exact ⟨habs, hans⟩
  cases l <;> simp only [workerStep] at hs
  case recv =>
    split at hs
    · rename_i j rest hm hq
      cases hs
      have hq' := h.queued
      rw [hq] at hq'
      refine ⟨h.fresh, fun x hx => hq' x (List.mem_cons_of_mem _ hx), ?_⟩
      intro k hk
      cases hk
      exact hq' j List.mem_cons_self
    · cases hs
  case startTimer =>
    split at hs
    · rename_i j hm
      cases hs
      have hj : j.id < s.nextJob := h.current j.id (by rw [hm]; rfl)
      cases j.timeout with
      | true =>
        refine ⟨htimer j.id .armed (.inr hj), h.queued, ?_⟩
        intro k hk
        cases hk
        exact hj
      | false =>
        refine ⟨h.fresh, h.queued, ?_⟩
        intro k hk
        cases hk
        exact hj
    · cases hs
  case finish =>
    split at hs
    · rename_i j hm
      cases hs
      refine ⟨h.fresh, h.queued, ?_⟩
      intro k hk
      cases hk
      exact h.current j (by rw [hm]; rfl)
    · cases hs
  case crash =>
    split at hs
    · rename_i j hm
      cases hs
      by_cases ha : s.timers j = .armed
      · simp only [ha, ↓reduceIte]
        exact ⟨htimer j .cancelled (.inl (by simp [ha])), h.queued, by intro k hk; cases hk⟩
      · simp only [ha, ↓reduceIte]
        exact ⟨h.fresh, h.queued, by intro k hk; cases hk⟩
    · cases hs
  case send =>
    split at hs
    · rename_i j b hm
      cases hs
      have hj : j < s.nextJob := h.current j (by rw [hm]; rfl)
      refine ⟨?_, h.queued, by intro k hk; cases hk⟩
      intro k hk
      obtain ⟨habs, hans⟩ := h.fresh k hk
      refine ⟨habs, ?_⟩
      have hk' : s.nextJob ≤ k := hk
      simp only [List.mem_cons, not_or]
      exact ⟨by omega, hans⟩
    · cases hs
  case sendFails =>
    split at hs
    · cases hs
      exact ⟨h.fresh, h.queued, by intro k hk; cases hk⟩
    · cases hs
  case cancelTimer =>
    split at hs
    · rename_i j hm
      cases hs
      by_cases ha : s.timers j = .armed
      · simp only [ha, ↓reduceIte]
        exact ⟨htimer j .cancelled (.inl (by simp [ha])), h.queued, by intro k hk; cases hk⟩
      · simp only [ha, ↓reduceIte]
        exact ⟨h.fresh, h.queued, by intro k hk; cases hk⟩
    · cases hs
  case expire j =>
    split at hs
    · rename_i ha
      cases hs
      exact ⟨htimer j .expired (.inl (by simp [ha])), h.queued, h.current⟩
    · cases hs
  case report j =>
    split at hs
    · rename_i ha
      cases hs
      exact ⟨htimer j .reported (.inl (by simp [ha])), h.queued, h.current⟩
    · cases hs
  case reportFails j =>
    split at hs
    · rename_i ha
      cases hs
      exact ⟨htimer j .reported (.inl (by simp [ha])), h.queued, h.current⟩
    · cases hs
  case killSelf j =>
    split at hs
    · cases hs
      exact ⟨h.fresh, h.queued, h.current⟩
    · cases hs
  case killed =>
    cases hs
    exact ⟨h.fresh, h.queued, h.current⟩
  all_goals cases hs

/-- A quiet worker stays quiet and sends nothing. -/
theorem settled_workerStep {s s' : State} {l : Label} (h : Settled s) (ha : s.alive = true)
    (hc : TimerInTime s l = true) (hs : workerStep s l = some s') : Settled s' := by
  obtain ⟨hempty, hquiet⟩ := h
  have hq := hquiet ha
  cases l <;> simp only [workerStep] at hs
  case recv =>
    rw [hq.pipe] at hs
    cases hm : s.main <;> simp [hm] at hs
  case cancelTimer =>
    split at hs
    · rename_i j hm
      cases hs
      by_cases harm : s.timers j = .armed
      · simp only [harm, ↓reduceIte]
        refine ⟨hempty, fun _ => ⟨hq.pipe, rfl, fun k => ?_⟩⟩
        show (s.setTimer j .cancelled).timers k ≠ .expired ∧
          ((s.setTimer j .cancelled).timers k = .armed → k ∈ s.answered)
        rw [setTimer_timers]
        split
        · exact ⟨by simp, by simp⟩
        · exact hq.timer k
      · simp only [harm, ↓reduceIte]
        exact ⟨hempty, fun _ => ⟨hq.pipe, rfl, hq.timer⟩⟩
    · cases hs
  case expire j =>
    split at hs
    · rename_i harm
      have hin := (hq.timer j).2 harm
      simp [TimerInTime, hin] at hc
    · cases hs
  case report j => rw [if_neg (hq.timer j).1] at hs; cases hs
  case reportFails j => rw [if_neg (hq.timer j).1] at hs; cases hs
  case killSelf j =>
    split at hs
    · cases hs
      exact ⟨hempty, by simp⟩
    · cases hs
  case killed =>
    cases hs
    exact ⟨hempty, by simp⟩
  -- the remaining steps of the main loop need a job in the worker
  case crash => rw [hq.main] at hs; cases hs
  all_goals
    have hw := hq.main
    cases hm : s.main <;> simp [hm, Main.working] at hs hw

section Waiting

variable {s : State} {j : Nat}

theorem Expecting.pipe_of_working (h : Expecting s j) {k : Nat} (hw : s.main.working = some k) :
    s.toWorker = [] := by
  rcases h.pipe with hp | ⟨b, -, hn, -, -⟩
  · exact hp
  · rw [hn] at hw; cases hw

/-- Once its timer exists, the expected job has left the pipe and passed the start. -/
theorem Expecting.started (h : Expecting s j) (ht : s.timers j ≠ .absent) :
    s.toWorker = [] ∧ ∀ y, s.main ≠ .received y := by
  constructor
  · rcases h.pipe with hp | ⟨b, -, -, -, habs⟩
    · exact hp
    · exact absurd habs ht
  · intro y hy
    have hyj := (h.main y.id (by rw [hy]; rfl)).1
    exact ht (hyj ▸ h.received y hy)

theorem Expecting.of_armed (h : Expecting s j) {x : Nat} (ht : s.timers x = .armed)
    (hans : x ∉ s.answered) : x = j := by
  by_cases hne : x = j
  · exact hne
  · exact absurd ((h.others x hne).2 ht) hans

theorem Expecting.of_expired (h : Expecting s j) {x : Nat} (ht : s.timers x = .expired) :
    x = j ∧ j ∉ s.answered := by
  by_cases hne : x = j
  · subst hne
    exact ⟨rfl, fun ha => h.answered ha ht⟩
  · exact absurd ht (h.others x hne).1

/-- The timer of the expected job moves on; nothing is sent. -/
theorem Expecting.setTimer (h : Expecting s j) (t : Timer) (ht : s.timers j ≠ .absent)
    (hans : j ∉ s.answered) : Expecting (s.setTimer j t) j := by
  obtain ⟨hp, hr⟩ := h.started ht
  refine ⟨?_, .inl hp, h.main, fun y hy => absurd hy (hr y), fun ha => absurd ha hans, h.own,
    h.timeout, h.last, h.unsent⟩
  intro k hk
  rw [setTimer_timers, if_neg hk]
  exact h.others k hk

/-- The main loop moves on without sending. -/
theorem Expecting.setMain (h : Expecting s j) (m : Main)
    (hpipe : s.toWorker = []) (hr : ∀ y, m ≠ .received y)
    (hm : ∀ k, m.working = some k → s.main.working = some k) :
    Expecting { s with main := m } j :=
  ⟨h.others, .inl hpipe, fun k hk => h.main k (hm k hk), fun y hy => absurd hy (hr y), h.answered,
    h.own, h.timeout, h.last, h.unsent⟩

end Waiting

/-- The worker of a waiting parent produces only messages of the expected job. -/
theorem expecting_workerStep {s s' : State} {j : Nat} {l : Label} (h : Expecting s j)
    (hc : TimerInTime s l = true) (hs : workerStep s l = some s') : Expecting s' j := by
  cases l <;> simp only [workerStep] at hs
  case recv =>
    split at hs
    · rename_i x rest hm hq
      cases hs
      rcases h.pipe with hp | ⟨b, hp, -, hans, habs⟩
      · rw [hq] at hp; cases hp
      · rw [hq] at hp
        cases hp
        refine ⟨h.others, .inl rfl, ?_, ?_, h.answered, h.own, h.timeout, h.last, h.unsent⟩
        · intro k hk
          cases hk
          exact ⟨rfl, hans⟩
        · intro y hy
          cases hy
          exact habs
    · cases hs
  case startTimer =>
    split at hs
    · rename_i x hm
      cases hs
      obtain ⟨hx, hans⟩ := h.main x.id (by rw [hm]; rfl)
      have hp : s.toWorker = [] := h.pipe_of_working (by rw [hm]; rfl)
      cases x.timeout with
      | true =>
        refine ⟨?_, .inl hp, ?_, (by intro y hy; cases hy), fun ha => absurd ha hans, h.own,
          h.timeout, h.last, h.unsent⟩
        · intro k hk
          show (s.setTimer x.id .armed).timers k ≠ .expired ∧
            ((s.setTimer x.id .armed).timers k = .armed → k ∈ s.answered)
          rw [setTimer_timers, if_neg (by rw [hx]; exact hk)]
          exact h.others k hk
        · intro k hk
          cases hk
          exact ⟨hx, hans⟩
      | false =>
        refine ⟨h.others, .inl hp, ?_, (by intro y hy; cases hy), h.answered, h.own, h.timeout,
          h.last, h.unsent⟩
        intro k hk
        cases hk
        exact ⟨hx, hans⟩
    · cases hs
  case finish b =>
    split at hs
    · rename_i x hm
      cases hs
      have hw : s.main.working = some x := by rw [hm]; rfl
      exact h.setMain _ (h.pipe_of_working hw) (by simp) (fun k hk => hk ▸ hw)
    · cases hs
  case crash =>
    split at hs
    · rename_i x hw
      cases hs
      have hp := h.pipe_of_working hw
      obtain ⟨rfl, hans⟩ := h.main x hw
      by_cases ha : s.timers x = .armed
      · simp only [ha, ↓reduceIte]
        exact (h.setTimer .cancelled (by simp [ha]) hans).setMain .exited hp (by simp)
          (by simp [Main.working])
      · simp only [ha, ↓reduceIte]
        exact h.setMain .exited hp (by simp) (by simp [Main.working])
    · cases hs
  case send =>
    split at hs
    · rename_i x b hm
      cases hs
      obtain ⟨rfl, hans⟩ := h.main x (by rw [hm]; rfl)
      have hexp : s.timers x ≠ .expired := by simpa [TimerInTime, hm] using hc
      have hp : s.toWorker = [] := h.pipe_of_working (by rw [hm]; rfl)
      refine ⟨?_, .inl hp, (by intro k hk; cases hk), (by intro y hy; cases hy), fun _ => hexp, ?_, ?_,
        ?_, ?_⟩
      · intro k hk
        exact ⟨(h.others k hk).1, fun ha => List.mem_cons_of_mem _ ((h.others k hk).2 ha)⟩
      · intro m hmem
        rcases List.mem_append.mp hmem with hmem | hmem
        · exact ⟨(h.own m hmem).1, fun _ => List.mem_cons_self⟩
        · rw [List.mem_singleton.mp hmem]
          exact ⟨rfl, fun _ => List.mem_cons_self⟩
      · intro m hmem ht
        rcases List.mem_append.mp hmem with hmem | hmem
        · exact h.timeout m hmem ht
        · rw [List.mem_singleton.mp hmem] at ht
          cases ht
      · intro m rest hlist ht
        -- whatever was on the pipe before the outcome came from the timer
        cases hf : s.fromWorker with
        | nil =>
          simp only [hf, List.nil_append, List.cons.injEq] at hlist
          exact hlist.2.symm
        | cons m' rest' =>
          simp only [hf, List.cons_append, List.cons.injEq] at hlist
          have := h.unsent hans m' (by rw [hf]; exact List.mem_cons_self)
          rw [hlist.1, ht] at this
          cases this
      · intro hn
        exact absurd List.mem_cons_self hn
    · cases hs
  case sendFails =>
    split at hs
    · rename_i x b hm
      cases hs
      have hw : s.main.working = some x := by rw [hm]; rfl
      exact h.setMain _ (h.pipe_of_working hw) (by simp) (by simp [Main.working])
    · cases hs
  case cancelTimer =>
    split at hs
    · rename_i x hm
      cases hs
      by_cases harm : s.timers x = .armed
      · simp only [harm, ↓reduceIte]
        have htm : ∀ k, ((s.setTimer x .cancelled).timers k = .expired → s.timers k = .expired) ∧
            ((s.setTimer x .cancelled).timers k = .armed → s.timers k = .armed) := by
          intro k
          rw [setTimer_timers]
          split
          · exact ⟨by simp, by simp⟩
          · exact ⟨id, id⟩
        refine ⟨?_, ?_, (by intro k hk; cases hk), (by intro y hy; cases hy), ?_, h.own, h.timeout,
          h.last, h.unsent⟩
        · intro k hk
          exact ⟨fun he => (h.others k hk).1 ((htm k).1 he),
            fun ha => (h.others k hk).2 ((htm k).2 ha)⟩
        · rcases h.pipe with hp | ⟨b, hp, -, hans, habs⟩
          · exact .inl hp
          · refine .inr ⟨b, hp, rfl, hans, ?_⟩
            show (s.setTimer x .cancelled).timers j = .absent
            have hne : j ≠ x := by
              rintro rfl
              rw [habs] at harm
              cases harm
            rw [setTimer_timers, if_neg hne]
            exact habs
        · exact fun ha he => h.answered ha ((htm j).1 he)
      · simp only [harm, ↓reduceIte]
        refine ⟨h.others, ?_, (by intro k hk; cases hk), (by intro y hy; cases hy), h.answered, h.own,
          h.timeout, h.last, h.unsent⟩
        rcases h.pipe with hp | ⟨b, hp, -, hans, habs⟩
        · exact .inl hp
        · exact .inr ⟨b, hp, rfl, hans, habs⟩
    · cases hs
  case expire x =>
    split at hs
    · rename_i harm
      cases hs
      have hans : x ∉ s.answered := by simpa [TimerInTime] using hc
      obtain rfl := h.of_armed harm hans
      exact h.setTimer .expired (by simp [harm]) hans
    · cases hs
  case report x =>
    split at hs
    · rename_i hexp
      cases hs
      obtain ⟨rfl, hans⟩ := h.of_expired hexp
      have h' := h.setTimer .reported (by simp [hexp]) hans
      refine ⟨h'.others, h'.pipe, h'.main, h'.received, fun ha => absurd ha hans, ?_, ?_, ?_, ?_⟩
      · intro m hmem
        rcases List.mem_append.mp hmem with hmem | hmem
        · exact h.own m hmem
        · rw [List.mem_singleton.mp hmem]
          exact ⟨rfl, by simp⟩
      · intro m hmem ht
        rcases List.mem_append.mp hmem with hmem | hmem
        · exact h.timeout m hmem ht
        · rw [List.mem_singleton.mp hmem]
      · intro m rest hlist ht
        have hmem : m ∈ s.fromWorker ++ [⟨x, true, true⟩] := by
          have hlist' : s.fromWorker ++ [⟨x, true, true⟩] = m :: rest := hlist
          rw [hlist']
          exact List.mem_cons_self
        rcases List.mem_append.mp hmem with hmem | hmem
        · exact absurd ((h.own m hmem).2 ht) hans
        · rw [List.mem_singleton.mp hmem] at ht
          cases ht
      · intro _ m hmem
        rcases List.mem_append.mp hmem with hmem | hmem
        · exact h.unsent hans m hmem
        · rw [List.mem_singleton.mp hmem]
    · cases hs
  case reportFails x =>
    split at hs
    · rename_i hexp
      cases hs
      obtain ⟨rfl, hans⟩ := h.of_expired hexp
      exact h.setTimer .reported (by simp [hexp]) hans
    · cases hs
  case killSelf x =>
    split at hs
    · cases hs
      exact ⟨h.others, h.pipe, h.main, h.received, h.answered, h.own, h.timeout, h.last, h.unsent⟩
    · cases hs
  case killed =>
    cases hs
    exact ⟨h.others, h.pipe, h.main, h.received, h.answered, h.own, h.timeout, h.last, h.unsent⟩
  all_goals cases hs

/-! ## Steps of the parent -/

/-- The wait for a fresh job begins. -/
theorem Inv.submit {s : State} (h : Inv s) (hset : Settled s) (ha : s.alive = true)
    (timeout : Bool) :
    Inv { s with
      parent := .waiting s.nextJob
      nextJob := s.nextJob + 1
      toWorker := s.toWorker ++ [⟨s.nextJob, timeout⟩] } := by
  obtain ⟨hempty, hquiet⟩ := hset
  have hq := hquiet ha
  obtain ⟨habs, hans⟩ := h.fresh s.nextJob (Nat.le_refl _)
  refine ⟨⟨fun k _ => hq.timer k, .inr ⟨timeout, ?_, hq.main, hans, habs⟩, ?_, ?_, ?_, ?_, ?_, ?_,
    ?_⟩, ?_, ?_, ?_, h.own⟩
  · simp [hq.pipe]
  · intro k hk
    have := hq.main
    rw [hk] at this
    cases this
  · intro x hx
    have := hq.main
    rw [show s.main = .received x from hx] at this
    cases this
  · exact fun hin => absurd hin hans
  · intro m hm; rw [hempty] at hm; cases hm
  · intro m hm; rw [hempty] at hm; cases hm
  · intro m rest hm; rw [hempty] at hm; cases hm
  · intro _ m hm; rw [hempty] at hm; cases hm
  · exact fun k hk => h.fresh k (Nat.le_of_succ_le hk)
  · intro x hx
    rw [hq.pipe] at hx
    simp only [List.nil_append, List.mem_singleton] at hx
    rw [hx]
    exact Nat.lt_succ_self _
  · exact fun k hk => Nat.lt_succ_of_lt (h.current k hk)

/-- An outcome that is not a timeout leaves a quiet worker. -/
theorem Expecting.settled {s : State} {j : Nat} {m : Msg} {rest : List Msg} (h : Expecting s j)
    (hf : s.fromWorker = m :: rest) (hm : m.isTimeout = false) :
    rest = [] ∧ Quiet s := by
  have hmem : m ∈ s.fromWorker := by rw [hf]; exact List.mem_cons_self
  have ht : m.timer = false := by
    cases htm : m.timer with
    | false => rfl
    | true => rw [h.timeout m hmem htm] at hm; cases hm
  have hans := (h.own m hmem).2 ht
  refine ⟨h.last m rest hf ht, ?_, ?_, ?_⟩
  · rcases h.pipe with hp | ⟨b, -, -, hn, -⟩
    · exact hp
    · exact absurd hans hn
  · cases hw : s.main.working with
    | none => rfl
    | some k => exact absurd hans (h.main k hw).2
  · intro k
    by_cases hk : k = j
    · subst hk
      exact ⟨h.answered hans, fun _ => hans⟩
    · exact h.others k hk

theorem inv_receive {s : State} {j : Nat} {m : Msg} {rest : List Msg} (h : Inv s)
    (hp : s.parent = .waiting j) (hf : s.fromWorker = m :: rest) :
    Inv { s with
      parent := .returning false
      fromWorker := rest
      ok := if m.isTimeout then false else s.ok
      consumed := s.consumed ++ [(j, m)] } := by
  have hexp : Expecting s j := by simpa [ParentInv, hp] using h.parent
  refine ⟨?_, h.fresh, h.queued, h.current, ?_⟩
  · intro hok _
    have hm : m.isTimeout = false := by
      cases hm : m.isTimeout with
      | false => rfl
      | true => simp [hm] at hok
    obtain ⟨hrest, hq⟩ := hexp.settled hf hm
    exact ⟨hrest, fun _ => ⟨hq.pipe, hq.main, hq.timer⟩⟩
  · intro p hmem
    rcases List.mem_append.mp hmem with hmem | hmem
    · exact h.own p hmem
    · rw [List.mem_singleton.mp hmem]
      exact (hexp.own m (by rw [hf]; exact List.mem_cons_self)).1

/-- A worker goes back to the idle queue only when it was left settled. -/
theorem inv_done {cfg : PoolConfig} {s s' : State} {r : Reading} (h : Inv s)
    (hs : parentStep cfg s (.done r) = some s') : Inv s' := by
  simp only [parentStep] at hs
  split at hs
  · rename_i sawDead hp
    have hret : s.ok = true → sawDead = false → Settled s := by
      simpa [ParentInv, hp] using h.parent
    split at hs
    · rename_i hr
      cases hs
      obtain ⟨hok, -, hdead⟩ := hr
      by_cases hd : disposition cfg r = .requeue
      · obtain ⟨halive, hrok⟩ := disposition_requeue hd
        have hsd : sawDead = false := by
          cases sawDead with
          | false => rfl
          | true => rw [hdead rfl] at halive; cases halive
        obtain ⟨hempty, hquiet⟩ := hret (hok ▸ hrok) hsd
        refine ⟨?_, h.fresh, h.queued, h.current, h.own⟩
        simp only [hd, ↓reduceIte]
        exact ⟨hempty, fun ha => ⟨(hquiet ha).pipe, (hquiet ha).main, (hquiet ha).timer⟩⟩
      · refine ⟨?_, h.fresh, h.queued, h.current, h.own⟩
        simp only [hd, ↓reduceIte]
        trivial
    · cases hs
  · cases hs

theorem inv_parentStep {cfg : PoolConfig} {s s' : State} {l : Label} (h : Inv s)
    (hs : parentStep cfg s l = some s') : Inv s' := by
  have hpar := h.parent
  -- a settled worker stays settled when only the parent's fields change
  have keep : ∀ (p : Parent) (ok : Bool), Settled s → Settled { s with parent := p, ok := ok } :=
    fun _ _ hset => ⟨hset.1, fun ha => ⟨(hset.2 ha).pipe, (hset.2 ha).main, (hset.2 ha).timer⟩⟩
  cases l
  case acquire =>
    simp only [parentStep] at hs
    split at hs
    · rename_i hp
      cases hs
      rw [ParentInv, hp] at hpar
      exact ⟨keep .held s.ok hpar, h.fresh, h.queued, h.current, h.own⟩
    · cases hs
  case submit timeout =>
    simp only [parentStep] at hs
    split at hs
    · rename_i hp
      cases hs
      rw [ParentInv, hp.1] at hpar
      exact h.submit hpar hp.2 timeout
    · cases hs
  case submitFails =>
    simp only [parentStep] at hs
    split at hs
    · rename_i hp
      cases hs
      rw [ParentInv, hp] at hpar
      exact ⟨fun _ _ => keep _ s.ok hpar, h.fresh, h.queued, h.current, h.own⟩
    · cases hs
  case submitBroken =>
    simp only [parentStep] at hs
    split at hs
    · cases hs
      exact ⟨fun hok => (nomatch hok), h.fresh, h.queued, h.current, h.own⟩
    · cases hs
  case receive =>
    simp only [parentStep] at hs
    split at hs
    · rename_i j m rest hp hf
      cases hs
      exact inv_receive h hp hf
    · cases hs
  case eof =>
    simp only [parentStep] at hs
    split at hs
    · rename_i j hp hf
      split at hs
      · cases hs
      · rename_i ha
        cases hs
        exact ⟨fun _ _ => ⟨hf, fun ha' => absurd ha' ha⟩, h.fresh, h.queued, h.current, h.own⟩
    · cases hs
  case seeDead =>
    simp only [parentStep] at hs
    split at hs
    · split at hs
      · cases hs
      · cases hs
        exact ⟨fun _ hd => (nomatch hd), h.fresh, h.queued, h.current, h.own⟩
    · cases hs
  case done r => exact inv_done h hs
  all_goals cases hs

/-- **One step** keeps the invariant, unless a timer wins the race against its job's outcome. -/
theorem inv_step {cfg : PoolConfig} {s s' : State} {l : Label} (h : Inv s)
    (hc : TimerInTime s l = true) (hs : step cfg s l = some s') : Inv s' := by
  rcases step_cases hs with hs | ⟨ha, hs⟩
  · exact inv_parentStep h hs
  · obtain ⟨hfresh, hqueued, hcurrent⟩ := workerStep_bounds h hs
    obtain ⟨hp, hok, hnext, hcons⟩ := workerStep_frame hs
    refine ⟨?_, hfresh, hqueued, hcurrent, hcons ▸ h.own⟩
    have hpar := h.parent
    unfold ParentInv at hpar ⊢
    rw [hp, hok]
    cases hpp : s.parent <;> simp only [hpp] at hpar ⊢
    case idle => exact settled_workerStep hpar ha hc hs
    case held => exact settled_workerStep hpar ha hc hs
    case waiting j => exact expecting_workerStep hpar hc hs
    case returning sawDead =>
      exact fun hok' hd => settled_workerStep (hpar hok' hd) ha hc hs

/-! ## Whole runs -/

/-- **Outcomes belong to their jobs.**  In every run in which no timer passes its check after its
job's outcome was sent, nor an outcome is sent past an expired and silent timer, every message the
parent takes as the outcome of a job was produced by that job. -/
theorem outcome_of_own_job (cfg : PoolConfig) {s : State}
    (h : (system cfg).Reach (fun s l => TimerInTime s l = true) s) :
    ∀ p ∈ s.consumed, p.2.job = p.1 := by
  have hinv : Inv s := by
    refine Lts.System.Reach.invariant inv_init ?_ h
    intro s l s' _ hi hc hs
    exact inv_step hi hc hs
  exact hinv.own

/-- A reading of a pool with nothing to shrink. -/
def reuse : Reading := ⟨0, 0, 0, true, true, 1, 0⟩

def reuseConfig : PoolConfig := ⟨1, 1, none, none⟩

/-- A job that answers in time, then one that is timed out. -/
def twoJobs : List Label :=
  [.acquire, .submit true, .recv, .startTimer, .finish false, .send, .cancelTimer, .receive,
   .done reuse, .acquire, .submit true, .recv, .startTimer, .expire 1, .report 1, .receive]

theorem outcome_of_own_job_twoJobs :
    ∃ s, (system reuseConfig).runWhile TimerInTime init twoJobs = some s ∧
      s.consumed = [(0, ⟨0, false, false⟩), (1, ⟨1, true, true⟩)] ∧
      ∀ p ∈ s.consumed, p.2.job = p.1 :=
  ⟨_, rfl, by decide, outcome_of_own_job reuseConfig (.of_runWhile .init twoJobs rfl)⟩

/-- **A foreign timeout**: the timer of job 0 passes its check after the result was sent and before
it is cancelled; the worker is reused, and job 1 is given job 0's `TimeoutError`. -/
theorem late_timer_answers_next_job :
    ∃ s, (system reuseConfig).run init
        [.acquire, .submit true, .recv, .startTimer, .finish false, .send, .expire 0, .receive,
         .done reuse, .acquire, .submit false, .report 0, .receive] = some s ∧
      (1, ⟨0, true, true⟩) ∈ s.consumed :=
  ⟨_, rfl, by decide⟩

end Deadpool.Pool.WorkerPipe
