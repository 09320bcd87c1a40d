import Deadpool.Lookup
import Deadpool.Pool.RunTask
import Deadpool.Pool.Outcome

/-!
# `tasks_failed`

The counter of failed tasks beside the `run_task` calls of `RunTask`.  A poll that finds a message
names who sent it (the job's function by returning or raising, or the timer of the worker), and
`Outcome.classify` says how often the counter is incremented.  As a history, the state keeps the
fate of every launched task: what happened to it, read off the steps and not off the counter.

A job whose `_before_submit` hook refuses it was withdrawn by its submitter; that is not a failure.

Principal result: `tasks_failed_counts` — in every run in which every job is handed to a worker, no
message is a `TimeoutError`, and what a function returned arrives as a readable object that is no
exception, `tasks_failed` is the number of launched tasks that failed, and every call that has ended
has a fate.
-/

set_option autoImplicit false

namespace Deadpool.Pool.Failures

open Outcome (Values JobOutcome Received classify)

variable {V : Type}

/-- Who put a message on the pipe: the main loop of the worker, or the timer of the job. -/
inductive Sender (V : Type) where
  | main (o : JobOutcome V)
  | timer
  deriving DecidableEq, Repr

/-- What happened to a launched task. -/
inductive Fate where
  | returned
  | raised
  | timedOut
  | workerDied
  | notHandedOver
  | withdrawn
  deriving DecidableEq, Repr

def Fate.failed : Fate → Bool
  | .returned | .withdrawn => false
  | .raised | .timedOut | .workerDied | .notHandedOver => true

def Sender.fate : Sender V → Fate
  | .main (.returned _) => .returned
  | .main (.raised _) => .raised
  | .timer => .timedOut

structure State where
  pool : RunTask.State
  tasksFailed : Nat
  /-- history: by call, what happened to the task -/
  fates : List (Option Fate)

inductive Label (V : Type) where
  /-- any step of the pool that reads nothing from a worker -/
  | pool (l : RunTask.Label)
  /-- `get_results()` raises `EOFError` -/
  | eof (call : Nat)
  /-- `worker.is_alive()` says no -/
  | dead (call : Nat)
  /-- `get_results()` returns an object, or raises because it cannot be read -/
  | receive (call : Nat) (sender : Sender V) (delivered : Except V V)

/-- What the result loop of `RunTask` sees. -/
def pollOf (py : Values V) : Received V → RunTask.Poll
  | .eof => .eof
  | .unreadable _ => .unreadable
  | .message results =>
    if py.isTimeoutError results then .timedOut
    else if py.isBaseException results then .raised else .result

/-- The step of the pool; a poll that finds something is not left to `pool`. -/
def Label.onPool (py : Values V) : Label V → Option RunTask.Label
  | .pool (.step i (.poll p)) => if p = .nothing then some (.step i (.poll p)) else none
  | .pool l => some l
  | .eof i => some (.step i (.poll (pollOf py .eof)))
  | .dead i => some (.step i (.poll .dead))
  | .receive i _ delivered => some (.step i (.poll (pollOf py (Outcome.receive delivered))))

/-- Increments of `tasks_failed` in a step. -/
def Label.increments (py : Values V) : Label V → Nat
  | .pool _ => 0
  | .eof _ => (classify py .eof).tasksFailed
  | .dead _ => 1
  | .receive _ _ delivered => (classify py (Outcome.receive delivered)).tasksFailed

/-- The fate a step of `run_task` seals that reads nothing; `pc` is where the call was. -/
def fateOfEvent (pc : RunTask.Pc) : RunTask.Event → Option Fate
  | .getProcessRaises => some .notHandedOver
  | .submitJob (some .brokenPipeError) => none
  | .submitJob (some _) => some .notHandedOver
  | .kill true => some .notHandedOver
  | .beforeSubmit false => some .withdrawn
  | .advance => if pc = .loop 0 then some .notHandedOver else none
  | _ => none

/-- The call and the fate it meets in a step. -/
def Label.fate (pool : RunTask.State) : Label V → Option (Nat × Fate)
  | .pool (.step i e) =>
    (pool.calls[i]?).bind fun c => (fateOfEvent c.pc e).map fun f => (i, f)
  | .pool _ => none
  | .eof i => some (i, .workerDied)
  | .dead i => some (i, .workerDied)
  | .receive i sender _ => some (i, sender.fate)

/-- The history after a step. -/
def State.record (s : State) (l : Label V) : List (Option Fate) :=
  match l with
  | .pool .launch => s.fates ++ [none]
  | _ =>
    match l.fate s.pool with
    | some (i, f) => s.fates.set i (some f)
    | none => s.fates

def step (py : Values V) (cfg : PoolConfig) (s : State) (l : Label V) : Option State :=
  (l.onPool py).bind fun l' => (RunTask.step cfg s.pool l').map fun pool =>
    { pool, tasksFailed := s.tasksFailed + l.increments py, fates := s.record l }

def init (cfg : PoolConfig) : State := ⟨RunTask.init cfg, 0, []⟩

def system (py : Values V) (cfg : PoolConfig) : Lts.System State (Label V) :=
  ⟨init cfg, step py cfg⟩

/-- Launched tasks that failed. -/
def State.failed (s : State) : Nat := s.fates.countP fun f => f.any Fate.failed

/-! ## The condition -/

/-- The job of a call at `pc` is not given up in this step: `get_process` and the kill after a
broken pipe do not raise, `submit_job` raises nothing but `BrokenPipeError`, and not all ten
attempts end so. -/
def handsOver (pc : RunTask.Pc) : RunTask.Event → Bool
  | .getProcessRaises => false
  | .submitJob (some e) => e = .brokenPipeError
  | .kill raises => !raises
  | .advance => pc ≠ .loop 0
  | _ => true

/-- What a function returned arrives as an object that is no exception; what it raised arrives as
an exception other than `TimeoutError`, or cannot be read; the timer sends nothing that is read. -/
def arrives (py : Values V) : Sender V → Except V V → Bool
  | .main (.returned _), .ok results => !py.isBaseException results
  | .main (.returned _), .error _ => false
  | .main (.raised _), .ok results => py.isBaseException results && !py.isTimeoutError results
  | .main (.raised _), .error _ => true
  | .timer, _ => false

/-- The steps whose increments are right. -/
def CountedOnce (py : Values V) (s : State) : Label V → Bool
  | .pool (.step i e) => (s.pool.calls[i]?).all fun c => handsOver c.pc e
  | .receive _ sender delivered => arrives py sender delivered
  | _ => true

/-! ## A call is undecided until its fate is sealed -/

/-- The result loop has not ended, nor has the attempt to get there. -/
def undecided : RunTask.Pc → Bool
  | .loop _ | .awaiting _ | .acquired _ _ | .claimed _ _ | .brokenPipe _ _ | .killing _
  | .submitted _ | .polling _ => true
  | _ => false

/-- A step from `pc` to `pc'` that seals the given fate, or none. -/
def Seals (pc pc' : RunTask.Pc) : Option Fate → Prop
  | some _ => undecided pc = true ∧ undecided pc' = false
  | none => undecided pc' = undecided pc

/-- The fate sealed by a poll depends on what it finds. -/
def pollSeals : RunTask.Poll → Bool
  | .nothing => false
  | _ => true

theorem doneWithProcess_calls (cfg : PoolConfig) (s : RunTask.State) (w idle backlog : Nat)
    (alive : Bool) (rss : Nat) :
    (s.doneWithProcess cfg w idle backlog alive rss).calls = s.calls := by
  unfold RunTask.State.doneWithProcess
  dsimp only
  split <;> rfl

section Call

variable {cfg : PoolConfig} {s s' : RunTask.State} {i : Nat} {c : RunTask.Call}

/-- A poll that finds something ends the result loop. -/
theorem callStep_poll {p : RunTask.Poll} (hc : s.calls[i]? = some c)
    (h : RunTask.callStep cfg s i c (.poll p) = some s') :
    ∃ c', s'.calls = s.calls.set i c' ∧ undecided c.pc = true ∧
      undecided c'.pc = !pollSeals p := by
  simp only [RunTask.callStep] at h
  split at h
  · rename_i w hpc
    have hund : undecided c.pc = true := by rw [hpc]; rfl
    cases p with
    | nothing =>
      cases h
      refine ⟨c, ?_, hund, hund⟩
      obtain ⟨hi, hget⟩ := List.getElem?_eq_some_iff.mp hc
      rw [← hget, List.set_getElem_self hi]
    | timedOut => cases h; exact ⟨_, rfl, hund, rfl⟩
    | eof | unreadable | result | raised | dead => cases h; exact ⟨_, rfl, hund, rfl⟩
  · cases h

/-- Any other step of a call seals the fate that its event names. -/
theorem callStep_seals {e : RunTask.Event} (hpoll : ∀ p, e ≠ .poll p)
    (h : RunTask.callStep cfg s i c e = some s') :
    ∃ c', s'.calls = s.calls.set i c' ∧ Seals c.pc c'.pc (fateOfEvent c.pc e) := by
  cases e with
  | poll p => exact absurd rfl (hpoll p)
  | grow qsize =>
    simp only [RunTask.callStep] at h
    split at h
    · rename_i n hpc
      refine ⟨{ c with pc := .awaiting n }, ?_, by rw [hpc]; rfl⟩
      cases h
      split <;> rfl
    · cases h
  | getProcessRaises =>
    simp only [RunTask.callStep] at h
    split at h
    · rename_i n hpc
      cases h
      exact ⟨_, rfl, by rw [hpc]; exact ⟨rfl, rfl⟩⟩
    · cases h
  | take =>
    simp only [RunTask.callStep] at h
    split at h
    · rename_i n w rest hpc hidle
      cases h
      exact ⟨_, rfl, by rw [hpc]; rfl⟩
    · cases h
  | beforeSubmit accept =>
    simp only [RunTask.callStep] at h
    split at h
    · rename_i n w hpc
      cases h
      cases accept with
      | false => exact ⟨_, rfl, by rw [hpc]; exact ⟨rfl, rfl⟩⟩
      | true => exact ⟨_, rfl, by rw [hpc]; rfl⟩
    · cases h
  | submitJob raised =>
    simp only [RunTask.callStep] at h
    split at h
    · rename_i n w hpc
      rw [hpc]
      rcases raised with _ | _ | _ | _ | className
      · cases h; exact ⟨_, rfl, rfl⟩
      · cases h; exact ⟨_, rfl, rfl, rfl⟩
      · cases h; exact ⟨_, rfl, rfl, rfl⟩
      · cases h; exact ⟨_, rfl, rfl⟩
      · cases h; exact ⟨_, rfl, rfl, rfl⟩
    · cases h
  | doneWithProcess idle backlog alive rss =>
    have hcalls : ∀ w d, ((s.doneWithProcess cfg w idle backlog alive rss).set i d).calls =
        s.calls.set i d := by
      intro w d
      simp only [RunTask.State.set, doneWithProcess_calls]
    simp only [RunTask.callStep] at h
    split at h
    all_goals
      first
      | (rename_i hpc; cases h; exact ⟨_, hcalls _ _, by rw [hpc]; rfl⟩)
      | cases h
  | kill raises =>
    simp only [RunTask.callStep] at h
    split at h
    · rename_i n hpc
      cases h
      cases raises with
      | false => exact ⟨_, rfl, by rw [hpc]; rfl⟩
      | true => exact ⟨_, rfl, by rw [hpc]; exact ⟨rfl, rfl⟩⟩
    · cases h
  | advance =>
    simp only [RunTask.callStep] at h
    split at h
    · rename_i hpc
      cases h
      exact ⟨_, rfl, by rw [hpc]; exact ⟨rfl, rfl⟩⟩
    · rename_i hpc
      cases h
      exact ⟨_, rfl, by rw [hpc]; rfl⟩
    · rename_i w hpc
      split at h <;> cases h <;> exact ⟨_, rfl, by rw [hpc]; rfl⟩
    · rename_i w hpc
      cases h
      exact ⟨_, rfl, by rw [hpc]; rfl⟩
    · rename_i hpc
      cases h
      exact ⟨_, rfl, by rw [hpc]; rfl⟩
    · rename_i hpc
      cases h
      refine ⟨_, rfl, ?_⟩
      rw [hpc]
      show undecided (if _ then _ else _) = false
      split <;> rfl
    · rename_i hpc
      split at h <;> cases h <;> exact ⟨_, rfl, by rw [hpc]; rfl⟩
    · rename_i hpc
      split at h <;> cases h <;> exact ⟨_, rfl, by rw [hpc]; rfl⟩
    · cases h

end Call

/-! ## The invariant -/

/-- Exactly the undecided calls have no fate, and the counter counts the bad ones. -/
structure Inv (s : State) : Prop where
  length : s.fates.length = s.pool.calls.length
  fate : ∀ (i : Nat) c, s.pool.calls[i]? = some c →
    ∃ f, s.fates[i]? = some f ∧ f.isNone = undecided c.pc
  count : s.tasksFailed = s.failed

theorem inv_init (cfg : PoolConfig) : Inv (init cfg) where
  length := rfl
  fate := by simp [init, RunTask.init]
  count := rfl

/-- The history with the fate that a step of call `i` seals. -/
def withFate (fates : List (Option Fate)) (i : Nat) : Option Fate → List (Option Fate)
  | some f => fates.set i (some f)
  | none => fates

/-- **One step of a call.**  It seals a fate or leaves the call as undecided as it was, and the
counter grows by one exactly for a bad fate. -/
theorem Inv.call {s : State} {pool : RunTask.State} {i : Nat} {c d : RunTask.Call}
    {o : Option Fate} {n : Nat} (h : Inv s) (hc : s.pool.calls[i]? = some c)
    (hcalls : pool.calls = s.pool.calls.set i d) (hseal : Seals c.pc d.pc o)
    (hn : n = if o.any Fate.failed then 1 else 0) :
    Inv ⟨pool, s.tasksFailed + n, withFate s.fates i o⟩ := by
  obtain ⟨hi, -⟩ := List.getElem?_eq_some_iff.mp hc
  obtain ⟨old, hold, hnone⟩ := h.fate i c hc
  have hlen : i < s.fates.length := h.length ▸ hi
  have hlength : (withFate s.fates i o).length = s.fates.length := by
    cases o <;> simp [withFate]
  refine ⟨?_, ?_, ?_⟩
  · show (withFate s.fates i o).length = pool.calls.length
    rw [hlength, hcalls, List.length_set, h.length]
  · intro j x hd
    rw [hcalls, List.getElem?_set] at hd
    by_cases hj : i = j
    · subst hj
      rw [if_pos rfl, if_pos hi] at hd
      cases hd
      cases o with
      | none => exact ⟨old, hold, hnone.trans hseal.symm⟩
      | some f => exact ⟨some f, by simp [withFate, hlen], hseal.2.symm⟩
    · rw [if_neg hj] at hd
      obtain ⟨f, hf, hd⟩ := h.fate j x hd
      refine ⟨f, ?_, hd⟩
      cases o with
      | none => exact hf
      | some g => simp [withFate, hj, hf]
  · show s.tasksFailed + n = (withFate s.fates i o).countP _
    cases o with
    | none =>
      rw [hn, h.count]
      rfl
    | some f =>
      -- the entry was still open, so it did not count before
      rw [hseal.1] at hnone
      have hopen : old = none := by simpa using hnone
      have hcount := countP_set_add (fun f : Option Fate => f.any Fate.failed) (some f) hold
      rw [hopen] at hcount
      rw [hn, h.count]
      simpa [State.failed, withFate] using hcount.symm

/-- A launch adds an undecided call without a fate. -/
theorem Inv.launch {s : State} {pool : RunTask.State} (h : Inv s)
    (hcalls : pool.calls = s.pool.calls ++ [RunTask.Call.start .pending]) :
    Inv ⟨pool, s.tasksFailed, s.fates ++ [none]⟩ := by
  refine ⟨by simp [hcalls, h.length], fun j d hd => ?_, ?_⟩
  · rw [hcalls] at hd
    rcases getElem?_append_some hd with hd | ⟨rfl, rfl⟩
    · obtain ⟨f, hf, hd⟩ := h.fate j d hd
      exact ⟨f, getElem?_append_of_some hf, hd⟩
    · refine ⟨none, ?_, rfl⟩
      rw [← h.length]
      exact getElem?_append_length
  · simp [h.count, State.failed]

/-! ## Every step -/

section Step

variable {py : Values V} {cfg : PoolConfig} {s s' : State}

/-- What an event that hands the job over seals is no failure. -/
theorem fateOfEvent_of_handsOver {pc : RunTask.Pc} {e : RunTask.Event}
    (h : handsOver pc e = true) : (fateOfEvent pc e).any Fate.failed = false := by
  cases e with
  | getProcessRaises => cases h
  | submitJob raised =>
    rcases raised with _ | _ | _ | _ | className <;> first | rfl | simp [handsOver] at h
  | kill raises => cases raises <;> first | rfl | cases h
  | beforeSubmit accept => cases accept <;> rfl
  | advance =>
    have hpc : pc ≠ .loop 0 := by simpa [handsOver] using h
    simp [fateOfEvent, hpc]
  | grow | take | doneWithProcess | poll => rfl

/-- What arrives as it should is counted as its sender's fate is. -/
theorem increments_of_arrives {sender : Sender V} {delivered : Except V V}
    (h : arrives py sender delivered = true) :
    (classify py (Outcome.receive delivered)).tasksFailed =
      if (some sender.fate).any Fate.failed then 1 else 0 := by
  rcases sender with (v | e) | _
  · cases delivered with
    | error => cases h
    | ok results =>
      have hval : py.isBaseException results = false := by simpa [arrives] using h
      have htimeout : py.isTimeoutError results = false := by
        by_contra ht
        have := py.timeoutError_isBaseException results (by simpa using ht)
        simp [hval] at this
      simp [classify, Outcome.receive, hval, htimeout, Sender.fate, Fate.failed]
  · cases delivered with
    | error => rfl
    | ok results =>
      obtain ⟨hexc, htimeout⟩ : py.isBaseException results = true ∧
          py.isTimeoutError results = false := by simpa [arrives] using h
      simp [classify, Outcome.receive, hexc, htimeout, Sender.fate, Fate.failed]
  · cases h

/-- A poll that finds something, with the fate it seals. -/
theorem Inv.poll {pool : RunTask.State} {i : Nat} {p : RunTask.Poll} {f : Fate} {n : Nat}
    (h : Inv s) (hp : pollSeals p = true) (hn : n = if (some f).any Fate.failed then 1 else 0)
    (hs : RunTask.step cfg s.pool (.step i (.poll p)) = some pool) :
    Inv ⟨pool, s.tasksFailed + n, s.fates.set i (some f)⟩ := by
  obtain ⟨c, hc, hcall⟩ := Option.bind_eq_some_iff.mp hs
  obtain ⟨c', hcalls, hund, hsealed⟩ := callStep_poll hc hcall
  rw [hp] at hsealed
  exact h.call (o := some f) hc hcalls ⟨hund, hsealed⟩ hn

theorem pollSeals_pollOf (r : Received V) : pollSeals (pollOf py r) = true := by
  cases r with
  | message results =>
    simp only [pollOf]
    split
    · rfl
    · split <;> rfl
  | eof | unreadable => rfl

theorem inv_step {l : Label V} (h : Inv s) (hcond : CountedOnce py s l = true)
    (hs : step py cfg s l = some s') : Inv s' := by
  obtain ⟨l', hl', hs⟩ := Option.bind_eq_some_iff.mp hs
  obtain ⟨pool, hpool, rfl⟩ := Option.map_eq_some_iff.mp hs
  cases l with
  | eof i =>
    cases hl'
    exact h.poll (pollSeals_pollOf .eof) rfl hpool
  | dead i =>
    cases hl'
    exact h.poll rfl rfl hpool
  | receive i sender delivered =>
    cases hl'
    exact h.poll (pollSeals_pollOf _) (increments_of_arrives hcond) hpool
  | pool l =>
    cases l with
    | submit =>
      cases hl'
      cases hpool
      exact ⟨h.length, h.fate, h.count⟩
    | launch =>
      cases hl'
      simp only [RunTask.step] at hpool
      split at hpool
      · cases hpool
        exact h.launch rfl
      · cases hpool
    | cancel i =>
      cases hl'
      obtain ⟨c, hc, rfl⟩ := Option.map_eq_some_iff.mp hpool
      exact h.call (o := none) hc (d := { c with fut := RunTask.cancelFuture c.fut }) rfl rfl rfl
    | step i e =>
      by_cases hpoll : ∃ p, e = .poll p
      · obtain ⟨p, rfl⟩ := hpoll
        simp only [Label.onPool] at hl'
        split at hl'
        · rename_i hp
          subst hp
          cases hl'
          obtain ⟨c, hc, hcall⟩ := Option.bind_eq_some_iff.mp hpool
          obtain ⟨c', hcalls, hund, hsealed⟩ := callStep_poll hc hcall
          have hstill : Seals c.pc c'.pc none := hsealed.trans hund.symm
          have hrecord : s.record (.pool (.step i (.poll .nothing)) : Label V) = s.fates := by
            simp [State.record, Label.fate, hc, fateOfEvent]
          rw [hrecord]
          exact h.call hc hcalls hstill rfl
        · cases hl'
      · have hl : l' = .step i e := by
          cases e <;> first | (cases hl'; rfl) | exact absurd ⟨_, rfl⟩ hpoll
        subst hl
        obtain ⟨c, hc, hcall⟩ := Option.bind_eq_some_iff.mp hpool
        obtain ⟨c', hcalls, hseal⟩ := callStep_seals (fun p hp => hpoll ⟨p, hp⟩) hcall
        have hover : handsOver c.pc e = true := by simpa [CountedOnce, hc] using hcond
        have hrecord : s.record (.pool (.step i e) : Label V) =
            withFate s.fates i (fateOfEvent c.pc e) := by
          simp only [State.record, Label.fate, hc, Option.bind_some]
          cases fateOfEvent c.pc e <;> rfl
        rw [hrecord]
        refine h.call hc hcalls hseal ?_
        rw [fateOfEvent_of_handsOver hover]
        rfl

end Step

/-- **Failures are counted once.**  In every run in which every job is handed to a worker in the
end, what a function returned arrives as an object that is no exception, what it raised arrives as
an exception other than `TimeoutError` or cannot be read, and no message of a timer is read, the
counter is at every moment the number of launched tasks that failed; and every call that has ended
has met one fate. -/
theorem tasks_failed_counts (py : Values V) (cfg : PoolConfig) {s : State}
    (h : (system py cfg).Reach (fun s l => CountedOnce py s l = true) s) :
    s.tasksFailed = s.failed ∧
      ∀ (i : Nat) c, s.pool.calls[i]? = some c → c.pc = .ended →
        ∃ f, s.fates[i]? = some (some f) := by
  have hinv : Inv s :=
    h.invariant (inv_init cfg) fun _ _ _ _ hi hc hs => inv_step hi hc hs
  refine ⟨hinv.count, fun i c hc hended => ?_⟩
  obtain ⟨f, hf, hnone⟩ := hinv.fate i c hc
  rw [hended] at hnone
  cases f with
  | none => cases hnone
  | some f => exact ⟨f, hf⟩

/-! ## Runs -/

open Outcome (Sample samples)

/-- A call goes from its launch to the result loop. -/
def untilPolling (i : Nat) : List (Label Sample) :=
  [.pool .submit, .pool .launch, .pool (.step i (.grow 1)), .pool (.step i .take),
   .pool (.step i (.beforeSubmit true)), .pool (.step i (.submitJob none)),
   .pool (.step i .advance)]

/-- The `finally` block of a call whose future is done. -/
def untilEnded (i : Nat) : List (Label Sample) :=
  [.pool (.step i .advance), .pool (.step i .advance), .pool (.step i .advance)]

/-- A call that hands its worker back and ends. -/
def handBack (i : Nat) : List (Label Sample) :=
  .pool (.step i (.doneWithProcess 0 0 true 0)) :: untilEnded i

/-- One task raises, the worker of the next dies, and the third returns. -/
def mixedRun : List (Label Sample) :=
  untilPolling 0 ++
    [.receive 0 (.main (.raised (.valueError "no"))) (.ok (.valueError "no"))] ++ handBack 0 ++
  untilPolling 1 ++ [.dead 1, .pool (.step 1 (.doneWithProcess 0 0 false 0))] ++ untilEnded 1 ++
  untilPolling 2 ++ [.receive 2 (.main (.returned (.int 7))) (.ok (.int 7))] ++ handBack 2

theorem tasks_failed_counts_mixedRun :
    ∃ s, (system samples RunTask.oneWorker).runWhile (CountedOnce samples)
        (init RunTask.oneWorker) mixedRun = some s ∧ s.tasksFailed = 2 ∧ s.failed = 2 := by
  obtain ⟨s, hs, hcount⟩ := Option.map_eq_some_iff.mp
    (show ((system samples RunTask.oneWorker).runWhile (CountedOnce samples)
      (init RunTask.oneWorker) mixedRun).map (fun s => s.tasksFailed) = some 2 by decide +kernel)
  have hexact := (tasks_failed_counts samples RunTask.oneWorker
    (Lts.System.Reach.of_runWhile .init mixedRun hs)).1
  exact ⟨s, hs, hcount, by omega⟩

/-- One task times out and one cannot be pickled: both have failed, and the counter says two only
because the first was counted twice; the second alone leaves it at zero. -/
theorem tasks_failed_miscounts :
    (((system samples RunTask.oneWorker).run (init RunTask.oneWorker)
      (untilPolling 0 ++ [.receive 0 .timer (.ok (.timeoutError "timed out"))] ++ handBack 0)).map
        fun s => (s.tasksFailed, s.failed)) = some (2, 1) ∧
    (((system samples RunTask.oneWorker).run (init RunTask.oneWorker)
      ([.pool .submit, .pool .launch, .pool (.step 0 (.grow 1)), .pool (.step 0 .take),
        .pool (.step 0 (.beforeSubmit true)),
        .pool (.step 0 (.submitJob (some .picklingError))), .pool (.step 0 .advance)] ++
        handBack 0)).map
        fun s => (s.tasksFailed, s.failed)) = some (0, 1) := by
  constructor <;> decide +kernel

end Deadpool.Pool.Failures
