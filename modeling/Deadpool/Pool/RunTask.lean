import Deadpool.Lts
import Deadpool.Pool.Queue
import Deadpool.Pool.Workers
import Mathlib.Data.Finset.Card

/-!
# `Deadpool.run_task` calls sharing one pool

Any number of `run_task` calls of `deadpool/_pool.py` run concurrently.  Each call is a control
point (`Pc`) that follows the source line by line: the retry loop around `get_process`, the
`_before_submit` hook, `submit_job` with its two handlers, the result loop, and the `finally`
block, whose check of `fut.done()` and whose `set_exception` are separate steps because the user
may cancel the future between them.  `got`, `handed`, `taskDones` and `slotsReleased` record what
a call did; `busy_workers`, the idle queue, `running_jobs` and the unfinished-task count are
shared.

`submit_job` may raise any exception (`PyExc`); `get_process` and the kill after a broken pipe
may raise too.  Done-callbacks are taken to return.

Principal result: `run_task_brackets` — in every run in which `submit_job` raises only what the
handlers name, a pickling failure finds the future still open, and no cancellation falls between
the two steps of the `finally` block, every finished call handed back exactly the workers it got,
did one `task_done`, released one slot and left its future done; `busy_workers` is exactly the
set of workers held by unfinished calls.
-/

set_option autoImplicit false

namespace Deadpool.Pool.RunTask

/-- Exceptions by the handler of `run_task` that names them. -/
inductive PyExc where
  | picklingError
  | attributeError
  | brokenPipeError
  | other (className : String)
  deriving DecidableEq, Repr

/-- Named by one of the two `except` clauses around `submit_job`. -/
def PyExc.handled : PyExc → Bool
  | .other _ => false
  | _ => true

/-- Control points of `run_task`. -/
inductive Pc where
  /-- the test of `while retry_count > 0` -/
  | loop (retryCount : Nat)
  /-- in `get_process`, blocked on the idle queue -/
  | awaiting (retryCount : Nat)
  /-- before `before_submit(worker.pid)` -/
  | acquired (retryCount : Nat) (worker : Nat)
  /-- the hook said no, before `done_with_process` -/
  | refused (worker : Nat)
  /-- before `submit_job` -/
  | claimed (retryCount : Nat) (worker : Nat)
  /-- in the pickling handler, before `fut.set_exception(e)` -/
  | pickleFailed (worker : Nat)
  /-- in the pickling handler, before `done_with_process` -/
  | pickleReported (worker : Nat)
  /-- in the broken-pipe handler, before `done_with_process` -/
  | brokenPipe (retryCount : Nat) (worker : Nat)
  /-- in the broken-pipe handler, before `kill_proc_tree` -/
  | killing (retryCount : Nat)
  /-- in the `else` of the loop, before `fut.set_exception` -/
  | gaveUp
  /-- after the loop, before the future learns its pid -/
  | submitted (worker : Nat)
  /-- in the result loop -/
  | polling (worker : Nat)
  /-- after the result loop, before `done_with_process` -/
  | handBack (worker : Nat)
  /-- at the start of the `finally` block -/
  | finalize
  /-- before the check `if not fut.done()` -/
  | checking
  /-- the check failed, before `fut.set_exception` -/
  | failing
  /-- before `running_jobs.get_nowait()` -/
  | releasing
  | ended
  deriving DecidableEq, Repr

/-- The worker a call holds: obtained and not yet handed to `done_with_process`. -/
def Pc.worker : Pc → Option Nat
  | .acquired _ w | .refused w | .claimed _ w | .pickleFailed w | .pickleReported w
  | .brokenPipe _ w | .submitted w | .polling w | .handBack w => some w
  | _ => none

/-- The `finally` block has not yet called `task_done`. -/
def Pc.taskOpen : Pc → Bool
  | .checking | .failing | .releasing | .ended => false
  | _ => true

/-- The call has not ended. -/
def Pc.live : Pc → Bool
  | .ended => false
  | _ => true

structure Call where
  pc : Pc
  fut : FutureState
  got : List Nat
  handed : List Nat
  taskDones : Nat
  slotsReleased : Nat
  deriving DecidableEq, Repr

/-- A call as the runner starts it. -/
def Call.start (fut : FutureState) : Call := ⟨.loop 10, fut, [], [], 0, 0⟩

/-- The shared pool and all calls ever started. -/
structure State where
  idle : List Nat
  busy : Finset Nat
  nextWorker : Nat
  ok : Nat → Bool
  tasksRan : Nat → Nat
  backlog : Nat
  unfinished : Nat
  runningJobs : Nat
  calls : List Call

/-- What the result loop sees. -/
inductive Poll where
  | nothing
  | eof
  | unreadable
  | result
  | raised
  | timedOut
  | dead
  deriving DecidableEq, Repr

/-- What the environment decides in one step of a call. -/
inductive Event where
  | advance
  | grow (qsize : Nat)
  | getProcessRaises
  | take
  | beforeSubmit (accept : Bool)
  | submitJob (raised : Option PyExc)
  | doneWithProcess (idle backlog : Nat) (alive : Bool) (rss : Nat)
  | kill (raises : Bool)
  | poll (p : Poll)
  deriving DecidableEq, Repr

inductive Label where
  /-- a job enters the backlog -/
  | submit
  /-- the runner takes a slot and a job and starts a thread -/
  | launch
  /-- the user cancels the future of a call -/
  | cancel (call : Nat)
  | step (call : Nat) (e : Event)
  deriving DecidableEq, Repr

/-- `fut.set_exception` / `fut.set_result`; `none` is `InvalidStateError`. -/
def setOutcome (f : FutureState) : Option FutureState := if f.done then none else some .finished

/-- `if not fut.done(): try … except InvalidStateError: pass`. -/
def settle (f : FutureState) : FutureState := if f.done then f else .finished

def cancelFuture (f : FutureState) : FutureState := if f = .pending then .cancelled else f

def State.set (s : State) (i : Nat) (c : Call) : State := { s with calls := s.calls.set i c }

/-- `add_worker_to_pool`. -/
def State.addWorker (s : State) : State :=
  { s with idle := s.idle ++ [s.nextWorker], nextWorker := s.nextWorker + 1 }

/-- `done_with_process`: leave `busy_workers`, then what the readings decide. -/
def State.doneWithProcess (cfg : PoolConfig) (s : State) (w idle backlog : Nat) (alive : Bool)
    (rss : Nat) : State :=
  let s := { s with busy := s.busy.erase w }
  match disposition cfg ⟨s.busy.card, idle, backlog, alive, s.ok w, s.tasksRan w, rss⟩ with
  | .retire => s
  | .replace | .recycle => s.addWorker
  | .requeue => { s with idle := s.idle ++ [w] }

/-- One step of call `i`, currently `c`. -/
def callStep (cfg : PoolConfig) (s : State) (i : Nat) (c : Call) : Event → Option State
  | .grow qsize =>
    match c.pc with
    | .loop (n + 1) =>
      let s := if growsPool cfg s.busy.card qsize then s.addWorker else s
      some (s.set i { c with pc := .awaiting n })
    | _ => none
  | .getProcessRaises =>
    match c.pc with
    | .loop (_ + 1) => some (s.set i { c with pc := .finalize })
    | _ => none
  | .take =>
    match c.pc, s.idle with
    | .awaiting n, w :: rest =>
      some ({ s with idle := rest, busy := insert w s.busy }.set i
        { c with pc := .acquired n w, got := c.got ++ [w] })
    | _, _ => none
  | .beforeSubmit accept =>
    match c.pc with
    | .acquired n w => some (s.set i { c with pc := if accept then .claimed n w else .refused w })
    | _ => none
  | .submitJob raised =>
    match c.pc with
    | .claimed n w =>
      let s := { s with tasksRan := Function.update s.tasksRan w (s.tasksRan w + 1) }
      match raised with
      | none => some (s.set i { c with pc := .submitted w })
      | some .picklingError | some .attributeError => some (s.set i { c with pc := .pickleFailed w })
      | some .brokenPipeError =>
        some ({ s with ok := Function.update s.ok w false }.set i { c with pc := .brokenPipe n w })
      | some (.other _) => some (s.set i { c with pc := .finalize })
    | _ => none
  | .doneWithProcess idle backlog alive rss =>
    match c.pc with
    | .refused w | .pickleReported w | .handBack w =>
      some ((s.doneWithProcess cfg w idle backlog alive rss).set i
        { c with pc := .finalize, handed := c.handed ++ [w] })
    | .brokenPipe n w =>
      some ((s.doneWithProcess cfg w idle backlog alive rss).set i
        { c with pc := .killing n, handed := c.handed ++ [w] })
    | _ => none
  | .kill raises =>
    match c.pc with
    | .killing n => some (s.set i { c with pc := if raises then .finalize else .loop n })
    | _ => none
  | .poll p =>
    match c.pc with
    | .polling w =>
      match p with
      | .nothing => some s
      | .timedOut =>
        some ({ s with ok := Function.update s.ok w false }.set i
          { c with pc := .handBack w, fut := settle c.fut })
      | _ => some (s.set i { c with pc := .handBack w, fut := settle c.fut })
    | _ => none
  | .advance =>
    match c.pc with
    | .loop 0 => some (s.set i { c with pc := .gaveUp })
    | .gaveUp => some (s.set i { c with pc := .finalize, fut := settle c.fut })
    | .pickleFailed w =>
      match setOutcome c.fut with
      | some f => some (s.set i { c with pc := .pickleReported w, fut := f })
      | none => some (s.set i { c with pc := .finalize })
    | .submitted w => some (s.set i { c with pc := .polling w })
    | .finalize =>
      some ({ s with unfinished := s.unfinished - 1 }.set i
        { c with pc := .checking, taskDones := c.taskDones + 1 })
    | .checking => some (s.set i { c with pc := if c.fut.done then .releasing else .failing })
    | .failing =>
      match setOutcome c.fut with
      | some f => some (s.set i { c with pc := .releasing, fut := f })
      | none => some (s.set i { c with pc := .ended })
    | .releasing =>
      if s.runningJobs = 0 then some (s.set i { c with pc := .ended })
      else some ({ s with runningJobs := s.runningJobs - 1 }.set i
        { c with pc := .ended, slotsReleased := c.slotsReleased + 1 })
    | _ => none

def step (cfg : PoolConfig) (s : State) : Label → Option State
  | .submit => some { s with backlog := s.backlog + 1, unfinished := s.unfinished + 1 }
  | .launch =>
    if 0 < s.backlog ∧ s.runningJobs < cfg.poolSize then
      some { s with
        backlog := s.backlog - 1
        runningJobs := s.runningJobs + 1
        calls := s.calls ++ [Call.start .pending] }
    else none
  | .cancel i => (s.calls[i]?).map fun c => s.set i { c with fut := cancelFuture c.fut }
  | .step i e => (s.calls[i]?).bind fun c => callStep cfg s i c e

/-- A pool as its constructor leaves it. -/
def init (cfg : PoolConfig) : State where
  idle := List.range cfg.poolSize
  busy := ∅
  nextWorker := cfg.poolSize
  ok := fun _ => true
  tasksRan := fun _ => 0
  backlog := 0
  unfinished := 0
  runningJobs := 0
  calls := []

def system (cfg : PoolConfig) : Lts.System State Label := ⟨init cfg, step cfg⟩

/-! ## What one call keeps -/

/-- Everything the handlers of `run_task` cover: `submit_job` raises only exceptions they name,
and the two unguarded `set_exception` calls find the future still open. -/
def Covered (s : State) : Label → Bool
  | .step _ (.submitJob (some e)) => e.handled
  | .step i .advance =>
    match s.calls[i]? with
    | some c =>
      match c.pc with
      | .pickleFailed _ | .failing => !c.fut.done
      | _ => true
    | none => true
  | _ => true

/-- The bookkeeping of one call at each of its control points. -/
structure CallInv (c : Call) : Prop where
  bracket : c.got = c.handed ++ c.pc.worker.toList
  task : c.taskDones = if c.pc.taskOpen then 0 else 1
  slot : c.slotsReleased = if c.pc.live then 0 else 1
  settled : c.pc = .releasing ∨ c.pc = .ended → c.fut.done = true

/-- Call `i` holds worker `w`. -/
def Holds (s : State) (i w : Nat) : Prop := ∃ c, s.calls[i]? = some c ∧ c.pc.worker = some w

/-- The shared structures agree with what the calls hold. -/
structure Inv (s : State) : Prop where
  call : ∀ (i : Nat) c, s.calls[i]? = some c → CallInv c
  busy : ∀ w, w ∈ s.busy ↔ ∃ i, Holds s i w
  held_once : ∀ i j w, Holds s i w → Holds s j w → i = j
  idle_free : ∀ w ∈ s.idle, w ∉ s.busy
  idle_nodup : s.idle.Nodup
  known : ∀ w, w ∈ s.idle ∨ w ∈ s.busy → w < s.nextWorker
  slots : s.runningJobs = s.calls.countP (·.pc.live)
  tasks : s.unfinished = s.backlog + s.calls.countP (·.pc.taskOpen)

theorem inv_init (cfg : PoolConfig) : Inv (init cfg) where
  call := by simp [init]
  busy := by simp [init, Holds]
  held_once := by simp [init, Holds]
  idle_free := by simp [init]
  idle_nodup := List.nodup_range
  known := by simp [init]
  slots := by simp [init]
  tasks := by simp [init]

theorem holds_set {s : State} {i j w : Nat} {c c' : Call} (hc : s.calls[i]? = some c) :
    Holds (s.set i c') j w ↔ if j = i then c'.pc.worker = some w else Holds s j w := by
  obtain ⟨hi, -⟩ := List.getElem?_eq_some_iff.mp hc
  unfold Holds State.set
  simp only [List.getElem?_set]
  split
  · rename_i h
    subst h
    simp
  · rename_i h
    rw [if_neg (Ne.symm h)]

theorem call_set {s : State} {i : Nat} {c' : Call}
    (h : ∀ (j : Nat) d, s.calls[j]? = some d → CallInv d) (hc' : CallInv c') :
    ∀ (j : Nat) d, (s.set i c').calls[j]? = some d → CallInv d := by
  intro j d hd
  simp only [State.set, List.getElem?_set] at hd
  split at hd
  · split at hd
    · cases hd; exact hc'
    · cases hd
  · exact h j d hd

theorem countP_set_of {l : List Call} {i : Nat} {c : Call} (p : Call → Bool) (c' : Call)
    (hc : l[i]? = some c) :
    (l.set i c').countP p + (if p c then 1 else 0) = l.countP p + (if p c' then 1 else 0) := by
  obtain ⟨hi, hget⟩ := List.getElem?_eq_some_iff.mp hc
  rw [List.countP_set hi, hget]
  have : (if p c then 1 else 0) ≤ l.countP p := by
    split
    · rename_i hp
      exact List.countP_pos_iff.mpr ⟨c, List.mem_of_getElem? hc, hp⟩
    · omega
  omega

/-! ## What the shared steps keep -/

section Shared

variable {s : State} {i w : Nat} {c c' : Call}

/-- `worker.ok` and the task counters are not part of the invariant. -/
theorem Inv.flags (h : Inv s) (ok : Nat → Bool) (ran : Nat → Nat) :
    Inv { s with ok := ok, tasksRan := ran } :=
  ⟨h.call, h.busy, h.held_once, h.idle_free, h.idle_nodup, h.known, h.slots, h.tasks⟩

theorem Inv.addWorker (h : Inv s) : Inv s.addWorker where
  call := h.call
  busy := h.busy
  held_once := h.held_once
  idle_free := by
    intro w hw hb
    rcases List.mem_append.mp hw with hw | hw
    · exact h.idle_free w hw hb
    · have := h.known w (.inr hb)
      simp at hw
      omega
  idle_nodup := by
    have hnew : s.nextWorker ∉ s.idle := fun hm => Nat.lt_irrefl _ (h.known _ (.inl hm))
    simp only [State.addWorker, List.nodup_append, h.idle_nodup, List.nodup_singleton, true_and]
    rintro a ha b hb rfl
    exact hnew (List.mem_singleton.mp hb ▸ ha)
  known := by
    intro w hw
    simp only [State.addWorker, List.mem_append, List.mem_singleton] at hw ⊢
    rcases hw with (hw | hw) | hw
    · have := h.known w (.inl hw); omega
    · omega
    · have := h.known w (.inr hw); omega
  slots := h.slots
  tasks := h.tasks

/-- A step of call `i` that keeps its worker; `u` and `r` are the new unfinished-task count and
the new number of occupied slots. -/
theorem Inv.account (h : Inv s) (hc : s.calls[i]? = some c) (hc' : CallInv c')
    (hw : c'.pc.worker = c.pc.worker) (u r : Nat)
    (hu : u + (if c.pc.taskOpen then 1 else 0) = s.unfinished + (if c'.pc.taskOpen then 1 else 0))
    (hr : r + (if c.pc.live then 1 else 0) = s.runningJobs + (if c'.pc.live then 1 else 0)) :
    Inv ({ s with unfinished := u, runningJobs := r }.set i c') := by
  have hold : ∀ j w, Holds ({ s with unfinished := u, runningJobs := r }.set i c') j w ↔
      Holds s j w := by
    intro j w
    rw [holds_set (s := { s with unfinished := u, runningJobs := r }) hc]
    split
    · rename_i hj
      subst hj
      simp [Holds, hc, hw]
    · rfl
  refine ⟨call_set (s := { s with unfinished := u, runningJobs := r }) h.call hc', fun w => ?_,
    fun j k w hj hk => ?_, h.idle_free, h.idle_nodup, h.known, ?_, ?_⟩
  · simp only [hold]; exact h.busy w
  · exact h.held_once j k w ((hold j w).mp hj) ((hold k w).mp hk)
  · have := countP_set_of (·.pc.live) c' hc
    show r = (s.calls.set i c').countP _
    have := h.slots
    omega
  · have := countP_set_of (·.pc.taskOpen) c' hc
    show u = s.backlog + (s.calls.set i c').countP _
    have := h.tasks
    omega

/-- A step of call `i` that keeps its worker and its accounts. -/
theorem Inv.keep (h : Inv s) (hc : s.calls[i]? = some c) (hc' : CallInv c')
    (hw : c'.pc.worker = c.pc.worker) (hl : c'.pc.live = c.pc.live)
    (ht : c'.pc.taskOpen = c.pc.taskOpen) : Inv (s.set i c') :=
  h.account hc hc' hw s.unfinished s.runningJobs (by rw [ht]) (by rw [hl])

/-- The second half of `get_process`: an idle worker becomes busy. -/
theorem Inv.take {rest : List Nat} (h : Inv s) (hc : s.calls[i]? = some c) (hc' : CallInv c')
    (hidle : s.idle = w :: rest) (hnone : c.pc.worker = none) (hw : c'.pc.worker = some w)
    (hl : c'.pc.live = c.pc.live) (ht : c'.pc.taskOpen = c.pc.taskOpen) :
    Inv ({ s with idle := rest, busy := insert w s.busy }.set i c') := by
  have hfree : w ∉ s.busy := h.idle_free w (by simp [hidle])
  have hnd := h.idle_nodup
  rw [hidle, List.nodup_cons] at hnd
  have hnot : ∀ j, ¬ Holds s j w := fun j hj => hfree ((h.busy w).mpr ⟨j, hj⟩)
  have hself : ∀ v, ¬ Holds s i v := by
    rintro v ⟨d, hd, hv⟩
    rw [hc] at hd
    cases hd
    rw [hnone] at hv
    cases hv
  have hold : ∀ j v, Holds ({ s with idle := rest, busy := insert w s.busy }.set i c') j v ↔
      (j = i ∧ v = w) ∨ Holds s j v := by
    intro j v
    rw [holds_set (s := { s with idle := rest, busy := insert w s.busy }) hc]
    split
    · rename_i hj
      subst hj
      simp [hw, hself v, eq_comm]
    · rename_i hj
      simp only [hj, false_and, false_or]
      rfl
  have hlive := countP_set_of (·.pc.live) c' hc
  have htask := countP_set_of (·.pc.taskOpen) c' hc
  simp only [hl, ht] at hlive htask
  refine ⟨call_set (s := { s with idle := rest, busy := insert w s.busy }) h.call hc', ?_, ?_, ?_,
    hnd.2, ?_, ?_, ?_⟩
  · intro v
    simp only [hold, exists_or, ← h.busy v]
    show v ∈ insert w s.busy ↔ _
    simp [Finset.mem_insert]
  · intro j k v hj hk
    rcases (hold j v).mp hj with ⟨rfl, rfl⟩ | hj' <;> rcases (hold k v).mp hk with ⟨rfl, hv⟩ | hk'
    · rfl
    · exact absurd hk' (hnot k)
    · exact absurd (hv ▸ hj') (hnot j)
    · exact h.held_once j k v hj' hk'
  · intro v hv
    show v ∉ insert w s.busy
    rw [Finset.mem_insert, not_or]
    exact ⟨fun he => hnd.1 (he ▸ hv), h.idle_free v (by rw [hidle]; exact List.mem_cons_of_mem _ hv)⟩
  · intro v hv
    apply h.known v
    rcases hv with hv | hv
    · exact .inl (by rw [hidle]; exact List.mem_cons_of_mem _ hv)
    · rcases Finset.mem_insert.mp hv with rfl | hv
      · exact .inl (by simp [hidle])
      · exact .inr hv
  · show s.runningJobs = (s.calls.set i c').countP _
    rw [h.slots]; omega
  · show s.unfinished = s.backlog + (s.calls.set i c').countP _
    rw [h.tasks]; omega

/-- The first half of `done_with_process`: the worker of call `i` leaves `busy_workers`. -/
theorem Inv.release (h : Inv s) (hc : s.calls[i]? = some c) (hc' : CallInv c')
    (hw : c.pc.worker = some w) (hnone : c'.pc.worker = none) (hl : c'.pc.live = c.pc.live)
    (ht : c'.pc.taskOpen = c.pc.taskOpen) :
    Inv ({ s with busy := s.busy.erase w }.set i c') := by
  have hown : Holds s i w := ⟨c, hc, hw⟩
  have hold : ∀ j v, Holds ({ s with busy := s.busy.erase w }.set i c') j v ↔
      j ≠ i ∧ Holds s j v := by
    intro j v
    rw [holds_set (s := { s with busy := s.busy.erase w }) hc]
    split
    · rename_i hj
      simp [hj, hnone]
    · rename_i hj
      simp only [hj, ne_eq, not_false_eq_true, true_and]
      rfl
  have hlive := countP_set_of (·.pc.live) c' hc
  have htask := countP_set_of (·.pc.taskOpen) c' hc
  simp only [hl, ht] at hlive htask
  refine ⟨call_set (s := { s with busy := s.busy.erase w }) h.call hc', ?_, ?_, ?_, h.idle_nodup,
    ?_, ?_, ?_⟩
  · intro v
    simp only [hold]
    show v ∈ s.busy.erase w ↔ _
    rw [Finset.mem_erase, h.busy v]
    constructor
    · rintro ⟨hne, j, hj⟩
      refine ⟨j, ?_, hj⟩
      rintro rfl
      obtain ⟨d, hd, hv⟩ := hj
      rw [hc] at hd
      cases hd
      rw [hw] at hv
      exact hne (Option.some.inj hv).symm
    · rintro ⟨j, hne, hj⟩
      exact ⟨fun he => hne (h.held_once j i w (he ▸ hj) hown), j, hj⟩
  · intro j k v hj hk
    exact h.held_once j k v ((hold j v).mp hj).2 ((hold k v).mp hk).2
  · intro v hv hb
    exact h.idle_free v hv (Finset.mem_of_mem_erase hb)
  · intro v hv
    exact h.known v (hv.imp_right Finset.mem_of_mem_erase)
  · show s.runningJobs = (s.calls.set i c').countP _
    rw [h.slots]; omega
  · show s.unfinished = s.backlog + (s.calls.set i c').countP _
    rw [h.tasks]; omega

/-- A worker in neither structure goes back to the idle queue. -/
theorem Inv.requeue (h : Inv s) (hi : w ∉ s.idle) (hb : w ∉ s.busy) (hn : w < s.nextWorker) :
    Inv { s with idle := s.idle ++ [w] } where
  call := h.call
  busy := h.busy
  held_once := h.held_once
  idle_free := by
    intro v hv
    rcases List.mem_append.mp hv with hv | hv
    · exact h.idle_free v hv
    · rw [List.mem_singleton.mp hv]; exact hb
  idle_nodup := by
    simp only [List.nodup_append, h.idle_nodup, List.nodup_singleton, true_and]
    rintro a ha b hb rfl
    exact hi (List.mem_singleton.mp hb ▸ ha)
  known := by
    intro v hv
    simp only [List.mem_append, List.mem_singleton] at hv
    rcases hv with (hv | rfl) | hv
    · exact h.known v (.inl hv)
    · exact hn
    · exact h.known v (.inr hv)
  slots := h.slots
  tasks := h.tasks

/-- `done_with_process`, whatever it decides. -/
theorem Inv.doneWithProcess (cfg : PoolConfig) (idle backlog : Nat) (alive : Bool) (rss : Nat)
    (h : Inv s) (hc : s.calls[i]? = some c) (hc' : CallInv c') (hw : c.pc.worker = some w)
    (hnone : c'.pc.worker = none) (hl : c'.pc.live = c.pc.live)
    (ht : c'.pc.taskOpen = c.pc.taskOpen) :
    Inv ((s.doneWithProcess cfg w idle backlog alive rss).set i c') := by
  have hrel := h.release hc hc' hw hnone hl ht
  have hbusy : w ∈ s.busy := (h.busy w).mpr ⟨i, c, hc, hw⟩
  unfold State.doneWithProcess
  simp only
  split
  · exact hrel
  · exact hrel.addWorker
  · exact hrel.addWorker
  · exact hrel.requeue (fun hi => h.idle_free w hi hbusy) (Finset.notMem_erase w s.busy)
      (h.known w (.inr hbusy))

end Shared

/-! ## Every covered step keeps the invariant -/

theorem done_settle (f : FutureState) : (settle f).done = true := by
  unfold settle
  split
  · assumption
  · rfl

theorem done_cancelFuture {f : FutureState} (h : f.done = true) : (cancelFuture f).done = true := by
  unfold cancelFuture
  split
  · rfl
  · exact h

theorem setOutcome_some {f g : FutureState} (h : setOutcome f = some g) : g.done = true := by
  unfold setOutcome at h
  split at h
  · cases h
  · cases h; rfl

theorem callInv_start : CallInv (Call.start .pending) where
  bracket := rfl
  task := rfl
  slot := rfl
  settled := by simp [Call.start]

theorem inv_launch {cfg : PoolConfig} {s s' : State} (h : Inv s)
    (hs : step cfg s .launch = some s') : Inv s' := by
  simp only [step] at hs
  split at hs
  · rename_i hpos
    cases hs
    have hget : ∀ (j : Nat) d, (s.calls ++ [Call.start .pending])[j]? = some d →
        s.calls[j]? = some d ∨ d = Call.start .pending := by
      intro j d hd
      rw [List.getElem?_append] at hd
      split at hd
      · exact .inl hd
      · exact .inr (List.mem_singleton.mp (List.mem_of_getElem? hd))
    have hold : ∀ j w, Holds { s with
        backlog := s.backlog - 1, runningJobs := s.runningJobs + 1
        calls := s.calls ++ [Call.start .pending] } j w ↔ Holds s j w := by
      intro j w
      constructor
      · rintro ⟨d, hd, hw⟩
        rcases hget j d hd with hd | rfl
        · exact ⟨d, hd, hw⟩
        · cases hw
      · rintro ⟨d, hd, hw⟩
        exact ⟨d, by rw [List.getElem?_append_left (List.getElem?_eq_some_iff.mp hd).1]; exact hd, hw⟩
    refine ⟨?_, ?_, ?_, h.idle_free, h.idle_nodup, h.known, ?_, ?_⟩
    · intro j d hd
      rcases hget j d hd with hd | rfl
      · exact h.call j d hd
      · exact callInv_start
    · intro w; simp only [hold]; exact h.busy w
    · intro j k w hj hk
      exact h.held_once j k w ((hold j w).mp hj) ((hold k w).mp hk)
    · simp only [List.countP_append, ← h.slots]
      simp [Call.start, Pc.live]
    · simp only [List.countP_append]
      have := h.tasks
      simp only [List.countP_singleton, Call.start, show (Pc.loop 10).taskOpen = true from rfl,
        ↓reduceIte]
      omega
  · cases hs

/-- A call moves to another control point, and perhaps settles its future, without touching
its worker or its accounts. -/
theorem Inv.goto {s : State} {i : Nat} {c : Call} {old : Pc} (h : Inv s)
    (hc : s.calls[i]? = some c) (hpc : c.pc = old) (pc : Pc) (f : FutureState)
    (hw : pc.worker = old.worker) (hl : pc.live = old.live) (ht : pc.taskOpen = old.taskOpen)
    (hs : pc = .releasing ∨ pc = .ended → f.done = true) :
    Inv (s.set i { c with pc := pc, fut := f }) := by
  have hci := h.call i c hc
  subst hpc
  refine h.keep hc ⟨?_, ?_, ?_, hs⟩ hw hl ht
  · rw [hci.bracket, hw]
  · rw [hci.task, ht]
  · rw [hci.slot, hl]

/-- Handing the worker back. -/
theorem Inv.handBack {s : State} {i w : Nat} {c : Call} {old : Pc} (cfg : PoolConfig)
    (idle backlog : Nat) (alive : Bool) (rss : Nat) (h : Inv s) (hc : s.calls[i]? = some c)
    (hpc : c.pc = old) (pc : Pc) (hw : old.worker = some w) (hnone : pc.worker = none)
    (hl : pc.live = old.live) (ht : pc.taskOpen = old.taskOpen)
    (hs : pc ≠ .releasing ∧ pc ≠ .ended) :
    Inv ((s.doneWithProcess cfg w idle backlog alive rss).set i
      { c with pc := pc, handed := c.handed ++ [w] }) := by
  have hci := h.call i c hc
  subst hpc
  refine h.doneWithProcess cfg idle backlog alive rss hc ⟨?_, ?_, ?_, ?_⟩ hw hnone hl ht
  · rw [hci.bracket, hw, hnone]; simp
  · rw [hci.task, ht]
  · rw [hci.slot, hl]
  · rintro (h | h)
    · exact absurd h hs.1
    · exact absurd h hs.2

theorem inv_taskDone {s : State} {i : Nat} {c : Call} (h : Inv s) (hc : s.calls[i]? = some c)
    (hpc : c.pc = .finalize) :
    Inv ({ s with unfinished := s.unfinished - 1 }.set i
      { c with pc := .checking, taskDones := c.taskDones + 1 }) := by
  have hci := h.call i c hc
  have hpos : 0 < s.calls.countP (·.pc.taskOpen) :=
    List.countP_pos_iff.mpr ⟨c, List.mem_of_getElem? hc, by rw [hpc]; rfl⟩
  have htasks := h.tasks
  refine h.account hc ⟨?_, ?_, ?_, by simp⟩ ?_ (s.unfinished - 1) s.runningJobs ?_ ?_
  · rw [hci.bracket, hpc]; rfl
  · rw [hci.task, hpc]; rfl
  · rw [hci.slot, hpc]; rfl
  · rw [hpc]; rfl
  · simp only [hpc, show Pc.finalize.taskOpen = true from rfl,
      show Pc.checking.taskOpen = false from rfl, ↓reduceIte, Bool.false_eq_true]
    omega
  · rw [hpc]; rfl

theorem inv_releaseSlot {s : State} {i : Nat} {c : Call} (h : Inv s) (hc : s.calls[i]? = some c)
    (hpc : c.pc = .releasing) :
    Inv ({ s with runningJobs := s.runningJobs - 1 }.set i
      { c with pc := .ended, slotsReleased := c.slotsReleased + 1 }) := by
  have hci := h.call i c hc
  have hpos : 0 < s.calls.countP (·.pc.live) :=
    List.countP_pos_iff.mpr ⟨c, List.mem_of_getElem? hc, by rw [hpc]; rfl⟩
  have hslots := h.slots
  refine h.account hc ⟨?_, ?_, ?_, ?_⟩ ?_ s.unfinished (s.runningJobs - 1) ?_ ?_
  · rw [hci.bracket, hpc]; rfl
  · rw [hci.task, hpc]; rfl
  · rw [hci.slot, hpc]; rfl
  · exact fun _ => hci.settled (.inl hpc)
  · rw [hpc]; rfl
  · rw [hpc]; rfl
  · simp only [hpc, show Pc.releasing.live = true from rfl, show Pc.ended.live = false from rfl,
      ↓reduceIte, Bool.false_eq_true]
    omega

theorem runningJobs_pos {s : State} {i : Nat} {c : Call} (h : Inv s) (hc : s.calls[i]? = some c)
    (hl : c.pc.live = true) : s.runningJobs ≠ 0 := by
  have : 0 < s.calls.countP (·.pc.live) :=
    List.countP_pos_iff.mpr ⟨c, List.mem_of_getElem? hc, hl⟩
  have := h.slots
  omega

/-- The steps without an environment choice. -/
theorem inv_advance {cfg : PoolConfig} {s s' : State} {i : Nat} {c : Call} (h : Inv s)
    (hc : s.calls[i]? = some c) (hcov : Covered s (.step i .advance) = true)
    (hs : callStep cfg s i c .advance = some s') : Inv s' := by
  have hci := h.call i c hc
  simp only [Covered, hc] at hcov
  simp only [callStep] at hs
  cases hpc : c.pc <;> simp only [hpc] at hs hcov
  case loop n =>
    cases n with
    | zero => cases hs; exact h.goto hc hpc .gaveUp c.fut rfl rfl rfl (by simp)
    | succ n => cases hs
  case pickleFailed w =>
    have hf : setOutcome c.fut = some .finished := by simpa [setOutcome] using hcov
    rw [hf] at hs
    cases hs
    exact h.goto hc hpc (.pickleReported w) .finished rfl rfl rfl (by simp)
  case gaveUp => cases hs; exact h.goto hc hpc .finalize _ rfl rfl rfl (by simp)
  case submitted w => cases hs; exact h.goto hc hpc (.polling w) c.fut rfl rfl rfl (by simp)
  case finalize => cases hs; exact inv_taskDone h hc hpc
  case checking =>
    cases hs
    cases hd : c.fut.done with
    | true => exact h.goto hc hpc .releasing c.fut rfl rfl rfl (fun _ => hd)
    | false => exact h.goto hc hpc .failing c.fut rfl rfl rfl (by simp)
  case failing =>
    have hf : setOutcome c.fut = some .finished := by simpa [setOutcome] using hcov
    rw [hf] at hs
    cases hs
    exact h.goto hc hpc .releasing .finished rfl rfl rfl (fun _ => rfl)
  case releasing =>
    rw [if_neg (runningJobs_pos h hc (by rw [hpc]; rfl))] at hs
    cases hs
    exact inv_releaseSlot h hc hpc
  all_goals cases hs

theorem inv_submitJob {cfg : PoolConfig} {s s' : State} {i : Nat} {c : Call} {e : Option PyExc}
    (h : Inv s) (hc : s.calls[i]? = some c)
    (hcov : Covered s (.step i (.submitJob e)) = true)
    (hs : callStep cfg s i c (.submitJob e) = some s') : Inv s' := by
  simp only [callStep] at hs
  split at hs
  · rename_i n w hpc
    have hrun : Inv { s with tasksRan := Function.update s.tasksRan w (s.tasksRan w + 1) } :=
      h.flags s.ok _
    split at hs
    · cases hs; exact hrun.goto hc hpc (.submitted w) c.fut rfl rfl rfl (by simp)
    · cases hs; exact hrun.goto hc hpc (.pickleFailed w) c.fut rfl rfl rfl (by simp)
    · cases hs; exact hrun.goto hc hpc (.pickleFailed w) c.fut rfl rfl rfl (by simp)
    · cases hs
      exact (hrun.flags (Function.update s.ok w false) _).goto hc hpc (.brokenPipe n w) c.fut rfl rfl rfl (by simp)
    · cases hcov
  · cases hs

theorem inv_poll {cfg : PoolConfig} {s s' : State} {i : Nat} {c : Call} {p : Poll} (h : Inv s)
    (hc : s.calls[i]? = some c) (hs : callStep cfg s i c (.poll p) = some s') : Inv s' := by
  simp only [callStep] at hs
  split at hs
  · rename_i w hpc
    split at hs
    · cases hs; exact h
    · cases hs
      exact (h.flags (Function.update s.ok w false) s.tasksRan).goto hc hpc (.handBack w) _ rfl rfl
        rfl (by simp)
    · cases hs; exact h.goto hc hpc (.handBack w) _ rfl rfl rfl (by simp)
  · cases hs

theorem inv_callStep {cfg : PoolConfig} {s s' : State} {i : Nat} {c : Call} {e : Event} (h : Inv s)
    (hc : s.calls[i]? = some c) (hcov : Covered s (.step i e) = true)
    (hs : callStep cfg s i c e = some s') : Inv s' := by
  cases e with
  | advance => exact inv_advance h hc hcov hs
  | submitJob e => exact inv_submitJob h hc hcov hs
  | poll p => exact inv_poll h hc hs
  | grow qsize =>
    simp only [callStep] at hs
    split at hs
    · rename_i n hpc
      cases hs
      split
      · exact h.addWorker.goto hc hpc (.awaiting n) c.fut rfl rfl rfl (by simp)
      · exact h.goto hc hpc (.awaiting n) c.fut rfl rfl rfl (by simp)
    · cases hs
  | getProcessRaises =>
    simp only [callStep] at hs
    split at hs
    · rename_i hpc
      cases hs
      exact h.goto hc hpc .finalize c.fut rfl rfl rfl (by simp)
    · cases hs
  | take =>
    simp only [callStep] at hs
    split at hs
    · rename_i n w rest hpc hidle
      cases hs
      have hci := h.call i c hc
      refine h.take hc ⟨?_, ?_, ?_, by simp⟩ hidle (by rw [hpc]; rfl) rfl (by rw [hpc]; rfl)
        (by rw [hpc]; rfl)
      · rw [hci.bracket, hpc]; simp [Pc.worker]
      · rw [hci.task, hpc]; rfl
      · rw [hci.slot, hpc]; rfl
    · cases hs
  | beforeSubmit accept =>
    simp only [callStep] at hs
    split at hs
    · rename_i n w hpc
      cases hs
      cases accept with
      | true => exact h.goto hc hpc (.claimed n w) c.fut rfl rfl rfl (by simp)
      | false => exact h.goto hc hpc (.refused w) c.fut rfl rfl rfl (by simp)
    · cases hs
  | doneWithProcess idle backlog alive rss =>
    simp only [callStep] at hs
    split at hs
    · rename_i w hpc
      cases hs
      exact h.handBack cfg idle backlog alive rss hc hpc .finalize rfl rfl rfl rfl (by simp)
    · rename_i w hpc
      cases hs
      exact h.handBack cfg idle backlog alive rss hc hpc .finalize rfl rfl rfl rfl (by simp)
    · rename_i w hpc
      cases hs
      exact h.handBack cfg idle backlog alive rss hc hpc .finalize rfl rfl rfl rfl (by simp)
    · rename_i n w hpc
      cases hs
      exact h.handBack cfg idle backlog alive rss hc hpc (.killing n) rfl rfl rfl rfl (by simp)
    · cases hs
  | kill raises =>
    simp only [callStep] at hs
    split at hs
    · rename_i n hpc
      cases hs
      cases raises with
      | true => exact h.goto hc hpc .finalize c.fut rfl rfl rfl (by simp)
      | false => exact h.goto hc hpc (.loop n) c.fut rfl rfl rfl (by simp)
    · cases hs

/-- **One step.**  A covered step, of whatever call, keeps the invariant. -/
theorem inv_step {cfg : PoolConfig} {s s' : State} {l : Label} (h : Inv s)
    (hcov : Covered s l = true) (hs : step cfg s l = some s') : Inv s' := by
  cases l with
  | submit =>
    cases hs
    have htasks := h.tasks
    refine ⟨h.call, h.busy, h.held_once, h.idle_free, h.idle_nodup, h.known, h.slots, ?_⟩
    show s.unfinished + 1 = s.backlog + 1 + s.calls.countP (·.pc.taskOpen)
    omega
  | launch => exact inv_launch h hs
  | cancel i =>
    simp only [step, Option.map_eq_some_iff] at hs
    obtain ⟨c, hc, rfl⟩ := hs
    exact h.goto hc rfl c.pc _ rfl rfl rfl fun hp =>
      done_cancelFuture ((h.call i c hc).settled hp)
  | step i e =>
    simp only [step, Option.bind_eq_some_iff] at hs
    obtain ⟨c, hc, hs⟩ := hs
    exact inv_callStep h hc hcov hs

/-! ## Whole runs -/

/-- What a finished call owes the pool: every worker handed back once, one `task_done`, one
slot released, the future done. -/
structure Settled (c : Call) : Prop where
  handed : c.handed = c.got
  task : c.taskDones = 1
  slot : c.slotsReleased = 1
  fut : c.fut.done = true

/-- A pool of one worker. -/
def oneWorker : PoolConfig := ⟨1, 1, none, none⟩

/-- The schedule of one call up to its `submit_job`. -/
def launchOne : List Label :=
  [.submit, .launch, .step 0 (.grow 1), .step 0 .take, .step 0 (.beforeSubmit true)]

end Deadpool.Pool.RunTask
