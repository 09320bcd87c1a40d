import Deadpool.Lts
import Deadpool.Lookup
import Deadpool.Pool.Workers

/-!
# How the pool grows and shrinks

`get_process`, `done_with_process`, `add_worker_to_pool` and `clear_workers` of `deadpool/_pool.py`,
one label for one lock section or one queue operation.  A caller counts the busy workers, then the idle
ones, and acts on the two numbers later; a worker between the queue and a caller's hands is in neither
set.  At most `pool_size` callers are between `get_process` and the end of `done_with_process`, which is
what the slots of `running_jobs` enforce.

`clear_workers` tests the queue and then takes from it, possibly after a wait; since what it takes is
shut down, taking is the step that retires the worker.

Principal result: `workers_accounted` — every worker is idle, held by one caller or retired, and stays
retired; idle and held workers together never exceed `pool_size`; and with `max_tasks_per_child = n` an
idle worker was given fewer than `n` jobs.
-/

set_option autoImplicit false

namespace Deadpool.Pool.Scaling

/-- Where a caller stands. -/
inductive Pc where
  /-- before the count of the busy workers -/
  | entered
  /-- before the idle workers are counted -/
  | readBusy (busy : Nat)
  /-- before a new worker is created -/
  | growing
  /-- before the new worker is put on the queue -/
  | grown (w : Nat)
  /-- in `workers.get()` -/
  | waiting
  /-- before the worker enters `busy_workers` -/
  | taken (w : Nat)
  /-- `get_process` has returned -/
  | holding (w : Nat) (given : Bool)
  /-- out of `busy_workers`, which then held `counted`; before the idle workers are counted -/
  | left (w stamp : Nat) (counted : List Nat)
  /-- both numbers are known -/
  | measured (w stamp busy idle : Nat)
  /-- scaled down, before `wp.shutdown` -/
  | retiring (w : Nat)
  /-- before `workers.put(wp)` -/
  | requeueing (w : Nat)
  /-- `old` is dropped, before its replacement is created -/
  | replacing (old : Nat)
  /-- before the replacement is put on the queue -/
  | replaced (old w : Nat)
  | ended
  deriving DecidableEq, Repr

/-- The worker in the caller's hands. -/
def Pc.worker : Pc → Option Nat
  | .grown w | .taken w | .holding w _ | .left w _ _ | .measured w _ _ _ | .retiring w
  | .requeueing w | .replaced _ w => some w
  | _ => none

/-- The caller is about to create a worker. -/
def Pc.adding : Pc → Bool
  | .growing | .replacing _ => true
  | _ => false

/-- The caller holds a worker or is about to create one. -/
def Pc.supplies (pc : Pc) : Bool := pc.worker.isSome || pc.adding

def Pc.live : Pc → Bool
  | .ended => false
  | _ => true

/-- The worker of the caller is in `busy_workers`. -/
def Pc.busy : Pc → Option Nat
  | .holding w _ => some w
  | _ => none

structure State where
  /-- `workers` -/
  idle : List Nat
  /-- `busy_workers` -/
  busy : List Nat
  nextWorker : Nat
  /-- workers shut down, dead or dropped -/
  retired : List Nat
  tasksRan : Nat → Nat
  /-- how many callers have left `busy_workers` -/
  leavers : Nat
  callers : List Pc

/-- A step of one caller, with what the environment decides. -/
inductive Act where
  | countBusy
  | countIdle
  | create
  | putNew
  | take
  | register
  | give
  | leave
  | measure
  | decide (backlog : Nat) (alive ok : Bool) (rss : Nat)
  /-- the process is gone when its memory is read -/
  | rssFails
  | retire
  | requeue
  deriving DecidableEq, Repr

inductive Label where
  | enter
  | act (i : Nat) (a : Act)
  | clear
  deriving DecidableEq, Repr

def State.set (s : State) (i : Nat) (pc : Pc) : State := { s with callers := s.callers.set i pc }

/-- The branches of `done_with_process`. -/
def State.dispose (s : State) (w : Nat) : Disposition → State × Pc
  | .retire => (s, .retiring w)
  | .replace | .recycle => ({ s with retired := w :: s.retired }, .replacing w)
  | .requeue => (s, .requeueing w)

/-- A step of a caller: the shared state and where the caller goes. -/
def act (cfg : PoolConfig) (s : State) (pc : Pc) : Act → Option (State × Pc)
  | .countBusy =>
    match pc with
    | .entered => some (s, .readBusy s.busy.length)
    | _ => none
  | .countIdle =>
    match pc with
    | .readBusy b => some (s, if growsPool cfg b s.idle.length then .growing else .waiting)
    | _ => none
  | .create =>
    match pc with
    | .growing => some ({ s with nextWorker := s.nextWorker + 1 }, .grown s.nextWorker)
    | .replacing old => some ({ s with nextWorker := s.nextWorker + 1 }, .replaced old s.nextWorker)
    | _ => none
  | .putNew =>
    match pc with
    | .grown w => some ({ s with idle := s.idle ++ [w] }, .waiting)
    | .replaced _ w => some ({ s with idle := s.idle ++ [w] }, .ended)
    | _ => none
  | .take =>
    match pc, s.idle with
    | .waiting, w :: rest => some ({ s with idle := rest }, .taken w)
    | _, _ => none
  | .register =>
    match pc with
    | .taken w => some ({ s with busy := w :: s.busy }, .holding w false)
    | _ => none
  | .give =>
    match pc with
    | .holding w false =>
      some ({ s with tasksRan := Function.update s.tasksRan w (s.tasksRan w + 1) }, .holding w true)
    | _ => none
  | .leave =>
    match pc with
    | .holding w _ =>
      some ({ s with busy := s.busy.erase w, leavers := s.leavers + 1 },
        .left w s.leavers (s.busy.erase w))
    | _ => none
  | .measure =>
    match pc with
    | .left w n counted => some (s, .measured w n counted.length s.idle.length)
    | _ => none
  | .decide backlog alive ok rss =>
    match pc with
    | .measured w _ b q =>
      some (s.dispose w (disposition cfg ⟨b, q, backlog, alive, ok, s.tasksRan w, rss⟩))
    | _ => none
  | .rssFails =>
    match pc with
    | .measured w _ _ _ => some ({ s with retired := w :: s.retired }, .ended)
    | _ => none
  | .retire =>
    match pc with
    | .retiring w => some ({ s with retired := w :: s.retired }, .ended)
    | _ => none
  | .requeue =>
    match pc with
    | .requeueing w => some ({ s with idle := s.idle ++ [w] }, .ended)
    | _ => none

def step (cfg : PoolConfig) (s : State) : Label → Option State
  | .enter =>
    if s.callers.countP Pc.live < cfg.poolSize then
      some { s with callers := s.callers ++ [.entered] }
    else none
  | .act i a => (s.callers[i]?).bind fun pc => (act cfg s pc a).map fun r => r.1.set i r.2
  | .clear =>
    match s.idle with
    | w :: rest => some { s with idle := rest, retired := w :: s.retired }
    | [] => none

/-- A pool as its constructor leaves it. -/
def init (cfg : PoolConfig) : State where
  idle := List.range cfg.poolSize
  busy := []
  nextWorker := cfg.poolSize
  retired := []
  tasksRan := fun _ => 0
  leavers := 0
  callers := []

def system (cfg : PoolConfig) : Lts.System State Label := ⟨init cfg, step cfg⟩

/-! ## What a caller can do -/

/-- One move of one caller: everything `act` can do, except that the reasons for a disposition are
kept only as far as they matter later. -/
inductive Move (cfg : PoolConfig) (s : State) : Pc → Act → State → Pc → Prop
  | countBusy : Move cfg s .entered .countBusy s (.readBusy s.busy.length)
  | grow (b : Nat) (h : growsPool cfg b s.idle.length = true) :
      Move cfg s (.readBusy b) .countIdle s .growing
  | wait (b : Nat) (h : growsPool cfg b s.idle.length = false) :
      Move cfg s (.readBusy b) .countIdle s .waiting
  | create : Move cfg s .growing .create { s with nextWorker := s.nextWorker + 1 } (.grown s.nextWorker)
  | recreate (old : Nat) : Move cfg s (.replacing old) .create
      { s with nextWorker := s.nextWorker + 1 } (.replaced old s.nextWorker)
  | putGrown (w : Nat) : Move cfg s (.grown w) .putNew { s with idle := s.idle ++ [w] } .waiting
  | putReplaced (old w : Nat) :
      Move cfg s (.replaced old w) .putNew { s with idle := s.idle ++ [w] } .ended
  | take (w : Nat) (rest : List Nat) (h : s.idle = w :: rest) :
      Move cfg s .waiting .take { s with idle := rest } (.taken w)
  | register (w : Nat) :
      Move cfg s (.taken w) .register { s with busy := w :: s.busy } (.holding w false)
  | give (w : Nat) : Move cfg s (.holding w false) .give
      { s with tasksRan := Function.update s.tasksRan w (s.tasksRan w + 1) } (.holding w true)
  | leave (w : Nat) (given : Bool) : Move cfg s (.holding w given) .leave
      { s with busy := s.busy.erase w, leavers := s.leavers + 1 }
      (.left w s.leavers (s.busy.erase w))
  | measure (w n : Nat) (counted : List Nat) : Move cfg s (.left w n counted) .measure s
      (.measured w n counted.length s.idle.length)
  | scaleDown (w n b q backlog : Nat) (alive ok : Bool) (rss : Nat)
      (h : cfg.minWorkers < b + q + 1) :
      Move cfg s (.measured w n b q) (.decide backlog alive ok rss) s (.retiring w)
  | drop (w n b q backlog : Nat) (alive ok : Bool) (rss : Nat) :
      Move cfg s (.measured w n b q) (.decide backlog alive ok rss)
        { s with retired := w :: s.retired } (.replacing w)
  | keep (w n b q backlog : Nat) (alive ok : Bool) (rss : Nat)
      (h : reaches (s.tasksRan w) cfg.maxTasksPerChild = false) :
      Move cfg s (.measured w n b q) (.decide backlog alive ok rss) s (.requeueing w)
  | rssFails (w n b q : Nat) : Move cfg s (.measured w n b q) .rssFails
      { s with retired := w :: s.retired } .ended
  | retire (w : Nat) : Move cfg s (.retiring w) .retire { s with retired := w :: s.retired } .ended
  | requeue (w : Nat) : Move cfg s (.requeueing w) .requeue { s with idle := s.idle ++ [w] } .ended

/-- What a disposition says about the readings. -/
theorem disposition_spec (cfg : PoolConfig) (r : Reading) :
    (disposition cfg r = .retire → cfg.minWorkers < r.busy + r.idle + 1) ∧
      (disposition cfg r = .requeue → reaches r.tasksRan cfg.maxTasksPerChild = false) := by
  unfold disposition
  dsimp only
  split
  · rename_i h
    refine ⟨fun _ => ?_, by simp⟩
    exact_mod_cast h.1
  split
  · simp
  split
  · simp
  split
  · simp
  rename_i hn
  split
  · simp
  · refine ⟨by simp, fun _ => ?_⟩
    simpa using hn

theorem act_move {cfg : PoolConfig} {s s' : State} {pc pc' : Pc} {a : Act}
    (h : act cfg s pc a = some (s', pc')) : Move cfg s pc a s' pc' := by
  unfold act at h
  split at h
  · split at h
    · cases h; exact .countBusy
    · cases h
  · split at h
    · rename_i b
      cases h
      split
      · rename_i hg
        exact .grow b hg
      · rename_i hg
        exact .wait b (by simpa using hg)
    · cases h
  · split at h
    · cases h; exact .create
    · cases h; exact .recreate _
    · cases h
  · split at h
    · cases h; exact .putGrown _
    · cases h; exact .putReplaced _ _
    · cases h
  · split at h
    · rename_i hi
      cases h; exact .take _ _ hi
    · cases h
  · split at h
    · cases h; exact .register _
    · cases h
  · split at h
    · cases h; exact .give _
    · cases h
  · split at h
    · cases h; exact .leave _ _
    · cases h
  · split at h
    · cases h; exact .measure _ _ _
    · cases h
  · rename_i backlog alive ok rss
    split at h
    · rename_i w n b q
      obtain ⟨hretire, hkeep⟩ :=
        disposition_spec cfg ⟨b, q, backlog, alive, ok, s.tasksRan w, rss⟩
      cases hd : disposition cfg ⟨b, q, backlog, alive, ok, s.tasksRan w, rss⟩ with
      | retire =>
        rw [hd] at h
        cases h
        exact .scaleDown w n b q backlog alive ok rss (hretire hd)
      | replace =>
        rw [hd] at h
        cases h
        exact .drop w n b q backlog alive ok rss
      | recycle =>
        rw [hd] at h
        cases h
        exact .drop w n b q backlog alive ok rss
      | requeue =>
        rw [hd] at h
        cases h
        exact .keep w n b q backlog alive ok rss (hkeep hd)
    · cases h
  · split at h
    · cases h; exact .rssFails _ _ _ _
    · cases h
  · split at h
    · cases h; exact .retire _
    · cases h
  · split at h
    · cases h; exact .requeue _
    · cases h

/-- What a step can do. -/
theorem step_cases {cfg : PoolConfig} {s s' : State} {l : Label} (h : step cfg s l = some s') :
    (l = .enter ∧ s.callers.countP Pc.live < cfg.poolSize ∧
        s' = { s with callers := s.callers ++ [.entered] }) ∨
      (∃ i a pc pc' t, l = .act i a ∧ s.callers[i]? = some pc ∧ Move cfg s pc a t pc' ∧
        s' = t.set i pc') ∨
      (l = .clear ∧ ∃ w rest, s.idle = w :: rest ∧
        s' = { s with idle := rest, retired := w :: s.retired }) := by
  cases l with
  | enter =>
    simp only [step] at h
    split at h
    · rename_i hc
      cases h
      exact .inl ⟨rfl, hc, rfl⟩
    · cases h
  | act i a =>
    simp only [step, Option.bind_eq_some_iff, Option.map_eq_some_iff] at h
    obtain ⟨pc, hpc, ⟨t, pc'⟩, hact, rfl⟩ := h
    exact .inr (.inl ⟨i, a, pc, pc', t, rfl, hpc, act_move hact, rfl⟩)
  | clear =>
    simp only [step] at h
    split at h
    · rename_i w rest hi
      cases h
      exact .inr (.inr ⟨rfl, w, rest, hi, rfl⟩)
    · cases h

/-! ## The invariant -/

/-- How often a worker occurs in the idle queue, in the callers' hands and among the retired. -/
def State.places (s : State) (w : Nat) : Nat :=
  s.idle.count w + s.callers.countP (fun pc => pc.worker == some w) + s.retired.count w

/-- Idle workers, held ones, and those about to be created. -/
def State.supply (s : State) : Nat := s.idle.length + s.callers.countP Pc.supplies

/-- How many jobs a worker may have been given where it is. -/
def Pc.jobBound (n : Nat) : Pc → Nat
  | .grown _ | .taken _ | .holding _ false | .requeueing _ | .replaced _ _ => n - 1
  | _ => n

/-- No worker was given more jobs than `max_tasks_per_child`. -/
structure Rationed (n : Nat) (s : State) : Prop where
  idle : ∀ w ∈ s.idle, s.tasksRan w < n
  held : ∀ pc ∈ s.callers, ∀ w, pc.worker = some w → s.tasksRan w ≤ pc.jobBound n
  all : ∀ w, s.tasksRan w ≤ n
  new : ∀ w, s.nextWorker ≤ w → s.tasksRan w = 0

structure Inv (cfg : PoolConfig) (s : State) : Prop where
  places : ∀ w, s.places w = if w < s.nextWorker then 1 else 0
  busy : s.busy.length = s.callers.countP (fun pc => pc.busy.isSome)
  busyOf : ∀ w, s.busy.count w = s.callers.countP (fun pc => pc.busy == some w)
  live : s.callers.countP Pc.live ≤ cfg.poolSize
  supply : s.supply ≤ cfg.poolSize
  rationed : ∀ n : Nat, 1 ≤ n → cfg.maxTasksPerChild = some (n : Int) → Rationed n s

theorem inv_init (cfg : PoolConfig) : Inv cfg (init cfg) where
  places := by
    intro w
    by_cases hw : w < cfg.poolSize <;> simp [State.places, init, List.nodup_range.count, hw]
  busy := by simp [init]
  busyOf := by simp [init]
  live := by simp [init]
  supply := by simp [State.supply, init]
  rationed := fun n hn _ => ⟨by simp [init]; omega, by simp [init], by simp [init], by simp [init]⟩

section Moves

variable {cfg : PoolConfig} {s t : State} {pc pc' : Pc} {a : Act} {i : Nat}

/-- A move keeps the list of callers. -/
theorem Move.callers (hm : Move cfg s pc a t pc') : t.callers = s.callers := by
  cases hm <;> rfl

/-- A move takes a worker from one place to another, or creates one in the caller's hands. -/
theorem Move.place (hm : Move cfg s pc a t pc') (w : Nat) :
    t.idle.count w + (if pc'.worker == some w then 1 else 0) + t.retired.count w +
        (if w < s.nextWorker then 1 else 0) =
      s.idle.count w + (if pc.worker == some w then 1 else 0) + s.retired.count w +
        (if w < t.nextWorker then 1 else 0) := by
  cases hm with
  | take v rest hi => simp [Pc.worker, hi, List.count_cons]
  | create => simp [Pc.worker]; grind
  | recreate => simp [Pc.worker]; grind
  | _ => simp [Pc.worker, List.count_append, List.count_cons] <;> omega

/-- Only a decision to grow adds to the supply. -/
theorem Move.supply_le (hm : Move cfg s pc a t pc') :
    t.idle.length + (if pc'.supplies then 1 else 0) ≤
      s.idle.length + (if pc.supplies then 1 else 0) + (if pc' = .growing then 1 else 0) := by
  cases hm with
  | take v rest hi => simp [Pc.supplies, Pc.worker, Pc.adding, hi]
  | _ => simp [Pc.supplies, Pc.worker, Pc.adding]

/-- `busy_workers` follows the callers that hold a worker. -/
theorem Move.busy_length (hm : Move cfg s pc a t pc')
    (hmem : ∀ w, pc.busy = some w → w ∈ s.busy) :
    t.busy.length + (if pc.busy.isSome then 1 else 0) =
      s.busy.length + (if pc'.busy.isSome then 1 else 0) := by
  cases hm with
  | leave w given =>
    have hw := hmem w rfl
    have hpos := List.length_pos_of_mem hw
    simp [Pc.busy, List.length_erase_of_mem hw]
    omega
  | _ => simp [Pc.busy]

theorem Move.busy_count (hm : Move cfg s pc a t pc') (w : Nat)
    (hmem : ∀ w, pc.busy = some w → w ∈ s.busy) :
    t.busy.count w + (if pc.busy == some w then 1 else 0) =
      s.busy.count w + (if pc'.busy == some w then 1 else 0) := by
  cases hm with
  | leave v given =>
    have hpos := List.count_pos_iff.mpr (hmem v rfl)
    by_cases hv : v = w
    · subst hv
      simp [Pc.busy]
      omega
    · simp [Pc.busy, List.count_erase, hv]
  | register v => simp [Pc.busy, List.count_cons]
  | _ => simp [Pc.busy]

/-- A caller that goes on to grow found the queue empty. -/
theorem Move.growing (hm : Move cfg s pc a t .growing) :
    s.idle = [] ∧ t = s ∧ ∃ b, pc = .readBusy b := by
  cases hm with
  | grow b hg =>
    refine ⟨?_, rfl, b, rfl⟩
    simpa [growsPool] using (Bool.and_eq_true_iff.mp hg).2

/-- The bound on the jobs of a worker that changes hands. -/
theorem Move.jobBound {n : Nat} (hn : 1 ≤ n) (hcfg : cfg.maxTasksPerChild = some (n : Int))
    (hm : Move cfg s pc a t pc') (h : Rationed n s) (hpc : pc ∈ s.callers) (w : Nat)
    (hw : pc'.worker = some w) : t.tasksRan w ≤ pc'.jobBound n := by
  have hheld := h.held pc hpc
  cases hm with
  | create | recreate =>
    cases hw
    simp [Pc.jobBound, h.new]
  | take v rest hi =>
    cases hw
    have := h.idle w (by simp [hi])
    simp only [Pc.jobBound]
    omega
  | give v =>
    cases hw
    have := hheld w rfl
    simp only [Pc.jobBound, Function.update_self] at this ⊢
    omega
  | keep v k b q backlog alive ok rss hr =>
    cases hw
    simp [reaches, hcfg] at hr
    simp only [Pc.jobBound]
    omega
  | register v | measure v k counted | scaleDown v k b q backlog alive ok rss hr =>
    cases hw
    exact hheld w rfl
  | leave v given => exact h.all w
  | _ => cases hw

/-- A move rations jobs: only a worker in the caller's own hands is given one. -/
theorem Move.rationed {n : Nat} (hn : 1 ≤ n) (hcfg : cfg.maxTasksPerChild = some (n : Int))
    (hm : Move cfg s pc a t pc') (h : Rationed n s) (hi : s.callers[i]? = some pc)
    (hknown : ∀ w, pc.worker = some w → w < s.nextWorker)
    (honce : ∀ w j q, pc.worker = some w → j ≠ i → s.callers[j]? = some q → q.worker ≠ some w)
    (hidle : ∀ w, pc.worker = some w → w ∉ s.idle) :
    Rationed n (t.set i pc') := by
  have hpc := List.mem_of_getElem? hi
  have hbound := hm.jobBound hn hcfg h hpc
  -- what happens to the counters of all workers but the caller's
  have hsame : ∀ w, pc.worker ≠ some w → t.tasksRan w = s.tasksRan w := by
    intro w hw
    cases hm with
    | give v =>
      have hv : w ≠ v := fun he => hw (congrArg some he.symm)
      exact Function.update_of_ne hv _ _
    | _ => rfl
  have hall : ∀ w, t.tasksRan w ≤ n := by
    intro w
    by_cases hw : pc.worker = some w
    · cases hm with
      | give v =>
        cases hw
        have := hbound w rfl
        simpa [Pc.jobBound] using this
      | _ => exact h.all w
    · rw [hsame w hw]
      exact h.all w
  refine ⟨?_, ?_, hall, ?_⟩
  · intro w hw
    cases hm with
    | putGrown v | putReplaced old v | requeue v =>
      rcases List.mem_append.mp hw with hw | hw
      · exact h.idle w hw
      · cases List.mem_singleton.mp hw
        have := h.held _ hpc w rfl
        simp only [Pc.jobBound] at this
        change s.tasksRan w < n
        omega
    | take v rest hv => exact h.idle w (by rw [hv]; exact List.mem_cons_of_mem _ hw)
    | give v =>
      have hv : w ≠ v := fun he => hidle v rfl (he ▸ hw)
      change Function.update s.tasksRan v (s.tasksRan v + 1) w < n
      rw [Function.update_of_ne hv]
      exact h.idle w hw
    | _ => exact h.idle w hw
  · intro q hq w hw
    obtain ⟨j, hj⟩ := List.getElem?_of_mem hq
    rw [State.set, hm.callers, List.getElem?_set] at hj
    split at hj
    · split at hj
      · cases hj
        exact hbound w hw
      · cases hj
    · rename_i hne
      have hold := h.held q (List.mem_of_getElem? hj) w hw
      by_cases hwpc : pc.worker = some w
      · exact absurd hw (honce w j q hwpc (Ne.symm hne) hj)
      · rw [← hsame w hwpc] at hold
        exact hold
  · intro w hw
    have hlt : s.nextWorker ≤ t.nextWorker := by cases hm <;> simp
    have hge : s.nextWorker ≤ w := Nat.le_trans hlt hw
    have hne : pc.worker ≠ some w := fun he => by have := hknown w he; omega
    exact (hsame w hne).trans (h.new w hge)

/-- Two callers never hold the same worker. -/
theorem Inv.held_once {j w : Nat} {q : Pc} (h : Inv cfg s) (hi : s.callers[i]? = some pc)
    (hj : s.callers[j]? = some q) (hw : pc.worker = some w) (hq : q.worker = some w) : i = j := by
  by_contra hne
  have hset := countP_set_add (fun pc : Pc => pc.worker == some w) .ended hi
  have hpos : 1 ≤ (s.callers.set i .ended).countP (fun pc => pc.worker == some w) := by
    refine List.countP_pos_iff.mpr ⟨q, List.mem_of_getElem? (i := j) ?_, by simp [hq]⟩
    rw [List.getElem?_set_ne hne]
    exact hj
  have hold := h.places w
  have hended : (Pc.ended.worker == some w) = false := rfl
  rw [hw, hended, if_pos (beq_self_eq_true _), if_neg Bool.false_ne_true] at hset
  unfold State.places at hold
  split at hold <;> omega

theorem Inv.move (h : Inv cfg s) (hi : s.callers[i]? = some pc) (hm : Move cfg s pc a t pc') :
    Inv cfg (t.set i pc') := by
  have hcount : ∀ p : Pc → Bool, (t.set i pc').callers.countP p + (if p pc then 1 else 0) =
      s.callers.countP p + (if p pc' then 1 else 0) := by
    intro p
    rw [State.set, hm.callers]
    exact countP_set_add p pc' hi
  have hmem : ∀ w, pc.busy = some w → w ∈ s.busy := by
    intro w hw
    rw [← List.count_pos_iff, h.busyOf w]
    exact List.countP_pos_iff.mpr ⟨pc, List.mem_of_getElem? hi, by simp [hw]⟩
  refine ⟨?_, ?_, ?_, ?_, ?_, ?_⟩
  · intro w
    have hplace := hm.place w
    have hold := h.places w
    have hset := hcount (fun pc => pc.worker == some w)
    simp only [State.places] at hold
    change t.idle.count w + (t.set i pc').callers.countP (fun pc => pc.worker == some w) +
      t.retired.count w = if w < t.nextWorker then 1 else 0
    omega
  · have hlen := hm.busy_length hmem
    have hold := h.busy
    have hset := hcount (fun pc => pc.busy.isSome)
    simp only [State.set] at hset ⊢
    omega
  · intro w
    have hlen := hm.busy_count w hmem
    have hold := h.busyOf w
    have hset := hcount (fun pc => pc.busy == some w)
    simp only [State.set] at hset ⊢
    omega
  · have hset := hcount Pc.live
    have hold := h.live
    have hlive : pc.live = true := by cases hm <;> rfl
    rw [hlive] at hset
    simp only [if_true] at hset
    split at hset <;> omega
  · have hset := hcount Pc.supplies
    have hsupply := hm.supply_le
    have hold := h.supply
    simp only [State.supply] at hold ⊢
    simp only [State.set] at hset ⊢
    by_cases hg : pc' = .growing
    · subst hg
      -- the queue is empty, and this caller is live without supplying anything
      obtain ⟨hnil, rfl, b, rfl⟩ := hm.growing
      have hlt : t.callers.countP Pc.supplies < t.callers.countP Pc.live := by
        refine countP_lt_countP (fun q _ hq => ?_) (List.mem_of_getElem? hi) rfl rfl
        cases q <;> first | rfl | cases hq
      have hlive := h.live
      simp [hnil, Pc.supplies, Pc.worker, Pc.adding] at hset ⊢
      omega
    · rw [if_neg hg] at hsupply
      omega
  · intro n hn hcfg
    have hplace : ∀ w, pc.worker = some w → s.places w = 1 ∧ w < s.nextWorker ∧
        1 ≤ s.callers.countP (fun pc => pc.worker == some w) := by
      intro w hw
      have hpos : 1 ≤ s.callers.countP (fun pc => pc.worker == some w) :=
        List.countP_pos_iff.mpr ⟨pc, List.mem_of_getElem? hi, by simp [hw]⟩
      have hold := h.places w
      by_cases hlt : w < s.nextWorker
      · rw [if_pos hlt] at hold
        exact ⟨hold, hlt, hpos⟩
      · rw [if_neg hlt] at hold
        simp only [State.places] at hold
        omega
    refine hm.rationed hn hcfg (h.rationed n hn hcfg) hi (fun w hw => (hplace w hw).2.1) ?_ ?_
    · intro w j q hw hj hq hqw
      obtain ⟨hone, -, -⟩ := hplace w hw
      have htwo := h.held_once hi hq hw hqw
      exact hj htwo.symm
    · intro w hw hidle
      obtain ⟨hone, -, hpos⟩ := hplace w hw
      have := List.count_pos_iff.mpr hidle
      simp only [State.places] at hone
      omega

theorem Inv.enter (h : Inv cfg s) (hroom : s.callers.countP Pc.live < cfg.poolSize) :
    Inv cfg { s with callers := s.callers ++ [.entered] } where
  places := by
    intro w
    have hold := h.places w
    unfold State.places at hold ⊢
    simpa [Pc.worker] using hold
  busy := by simpa [Pc.busy] using h.busy
  busyOf := by simpa [Pc.busy] using h.busyOf
  live := by
    simp [Pc.live]
    omega
  supply := by simpa [State.supply, Pc.supplies, Pc.worker, Pc.adding] using h.supply
  rationed := by
    intro n hn hcfg
    obtain ⟨hidle, hheld, hall, hnew⟩ := h.rationed n hn hcfg
    refine ⟨hidle, fun pc hpc w hw => ?_, hall, hnew⟩
    rcases List.mem_append.mp hpc with hpc | hpc
    · exact hheld pc hpc w hw
    · cases List.mem_singleton.mp hpc
      cases hw

theorem Inv.clear {w : Nat} {rest : List Nat} (h : Inv cfg s) (hi : s.idle = w :: rest) :
    Inv cfg { s with idle := rest, retired := w :: s.retired } where
  places := by
    intro v
    have hold := h.places v
    unfold State.places at hold ⊢
    rw [hi, List.count_cons] at hold
    rw [List.count_cons]
    dsimp only
    omega
  busy := h.busy
  busyOf := h.busyOf
  live := h.live
  supply := by
    have hold := h.supply
    unfold State.supply at hold ⊢
    rw [hi, List.length_cons] at hold
    dsimp only
    omega
  rationed := by
    intro n hn hcfg
    obtain ⟨hidle, hheld, hall, hnew⟩ := h.rationed n hn hcfg
    exact ⟨fun v hv => hidle v (by rw [hi]; exact List.mem_cons_of_mem _ hv), hheld, hall, hnew⟩

end Moves

theorem inv_step {cfg : PoolConfig} {s s' : State} {l : Label} (h : Inv cfg s)
    (hs : step cfg s l = some s') : Inv cfg s' := by
  rcases step_cases hs with ⟨-, hroom, rfl⟩ | ⟨i, a, pc, pc', t, -, hi, hm, rfl⟩ |
    ⟨-, w, rest, hi, rfl⟩
  · exact h.enter hroom
  · exact h.move hi hm
  · exact h.clear hi

theorem inv_reachable {cfg : PoolConfig} {s : State} (h : (system cfg).Reachable s) : Inv cfg s :=
  h.invariant (I := Inv cfg) (inv_init cfg) fun _ _ _ _ hi _ hs => inv_step hi hs

/-! ## Results -/

/-- Worker `w` is in the hands of caller `i`. -/
def State.Holds (s : State) (i w : Nat) : Prop := ∃ pc, s.callers[i]? = some pc ∧ pc.worker = some w

/-- The number of workers in the hands of callers. -/
def State.held (s : State) : Nat := s.callers.countP fun pc => pc.worker.isSome

/-- Where a worker is: exactly one of the three. -/
inductive State.Located (s : State) (w : Nat) : Prop
  | idle (h : w ∈ s.idle) (hnot : ∀ i, ¬ s.Holds i w) (hret : w ∉ s.retired)
  | held (i : Nat) (h : s.Holds i w) (honly : ∀ j, s.Holds j w → j = i) (hidle : w ∉ s.idle)
      (hret : w ∉ s.retired)
  | retired (h : w ∈ s.retired) (hidle : w ∉ s.idle) (hnot : ∀ i, ¬ s.Holds i w)

theorem Inv.located {cfg : PoolConfig} {s : State} (h : Inv cfg s) {w : Nat}
    (hw : w < s.nextWorker) : s.Located w := by
  have hone := h.places w
  rw [if_pos hw] at hone
  unfold State.places at hone
  have hheld : ∀ i, s.Holds i w → 1 ≤ s.callers.countP (fun pc => pc.worker == some w) := by
    rintro i ⟨pc, hpc, hpw⟩
    exact List.countP_pos_iff.mpr ⟨pc, List.mem_of_getElem? hpc, by simp [hpw]⟩
  have hidle : w ∈ s.idle → 1 ≤ s.idle.count w := fun hm => List.count_pos_iff.mpr hm
  have hret : w ∈ s.retired → 1 ≤ s.retired.count w := fun hm => List.count_pos_iff.mpr hm
  by_cases hmi : w ∈ s.idle
  · have := hidle hmi
    refine .idle hmi (fun i hi => ?_) (fun hr => ?_)
    · have := hheld i hi
      omega
    · have := hret hr
      omega
  · by_cases hmr : w ∈ s.retired
    · have := hret hmr
      refine .retired hmr hmi (fun i hi => ?_)
      have := hheld i hi
      omega
    · have hpos : 0 < s.callers.countP (fun pc => pc.worker == some w) := by
        rw [List.count_eq_zero.mpr hmi, List.count_eq_zero.mpr hmr] at hone
        omega
      obtain ⟨pc, hpc, hpw⟩ := List.countP_pos_iff.mp hpos
      obtain ⟨i, hi⟩ := List.getElem?_of_mem hpc
      have hpw : pc.worker = some w := by simpa using hpw
      refine .held i ⟨pc, hi, hpw⟩ (fun j hj => ?_) hmi hmr
      obtain ⟨q, hq, hqw⟩ := hj
      exact h.held_once hq hi hqw hpw

/-- A retired worker stays retired. -/
theorem retired_step {cfg : PoolConfig} {s s' : State} {l : Label} {w : Nat}
    (hs : step cfg s l = some s') (hw : w ∈ s.retired) : w ∈ s'.retired := by
  rcases step_cases hs with ⟨-, -, rfl⟩ | ⟨i, a, pc, pc', t, -, -, hm, rfl⟩ | ⟨-, v, rest, -, rfl⟩
  · exact hw
  · cases hm <;> first | exact hw | exact List.mem_cons_of_mem _ hw
  · exact List.mem_cons_of_mem _ hw

theorem retired_run {cfg : PoolConfig} {w : Nat} :
    ∀ {ls : List Label} {s s' : State}, (system cfg).run s ls = some s' → w ∈ s.retired →
      w ∈ s'.retired := by
  intro ls
  induction ls with
  | nil =>
    intro s s' h hw
    cases h
    exact hw
  | cons l ls ih =>
    intro s s' h hw
    simp only [Lts.System.run, Option.bind_eq_some_iff] at h
    obtain ⟨u, hu, h⟩ := h
    exact ih h (retired_step hu hw)

/-- **The pool accounts for its workers.**  In every interleaving of at most `pool_size` callers of
`get_process` and `done_with_process` and any number of `clear_workers` calls: every worker ever created
is idle, held by exactly one caller or retired, and nothing else; a retired one is retired in every later
state; idle and held workers together never exceed `pool_size`; and with `max_tasks_per_child = n ≥ 1`
an idle worker was given fewer than `n` jobs, and no worker more than `n`. -/
theorem workers_accounted (cfg : PoolConfig) (s : State) (h : (system cfg).Reachable s) :
    (∀ w < s.nextWorker, s.Located w) ∧
      (∀ w ls s', w ∈ s.retired → (system cfg).run s ls = some s' → w ∈ s'.retired) ∧
      s.idle.length + s.held ≤ cfg.poolSize ∧
      (∀ n : Nat, 1 ≤ n → cfg.maxTasksPerChild = some (n : Int) →
        (∀ w ∈ s.idle, s.tasksRan w < n) ∧ ∀ w, s.tasksRan w ≤ n) := by
  have hinv := inv_reachable h
  refine ⟨fun w hw => hinv.located hw, fun w ls s' hw hr => retired_run hr hw, ?_, ?_⟩
  · have hle : s.held ≤ s.callers.countP Pc.supplies := by
      refine List.countP_mono_left fun pc _ hpc => ?_
      simp [Pc.supplies, hpc]
    have := hinv.supply
    unfold State.supply at this
    omega
  · intro n hn hcfg
    obtain ⟨hidle, -, hall, -⟩ := hinv.rationed n hn hcfg
    exact ⟨hidle, hall⟩

/-- Two workers of which each is to be given one job at most. -/
def oneShot : PoolConfig := ⟨2, 0, some 1, none⟩

/-- A caller gives a job, and its worker is recycled; meanwhile the queue is cleared. -/
def recycleRun : List Label :=
  [.enter, .act 0 .countBusy, .act 0 .countIdle, .act 0 .take, .act 0 .register, .act 0 .give, .clear,
    .act 0 .leave, .act 0 .measure, .act 0 (.decide 1 true true 0), .act 0 .create, .act 0 .putNew]

theorem workers_accounted_recycleRun :
    ∃ s, (system oneShot).Reachable s ∧ s.idle = [2] ∧ s.retired = [0, 1] ∧
      s.idle.length + s.held ≤ 2 ∧ ∀ w ∈ s.idle, s.tasksRan w < 1 := by
  have hview : (((system oneShot).run (system oneShot).init recycleRun).map
      fun s => (s.idle, s.retired)) = some ([2], [0, 1]) := by
    decide +kernel
  obtain ⟨s, hs, hview⟩ := Option.map_eq_some_iff.mp hview
  simp only [Prod.mk.injEq] at hview
  have hr := Lts.System.reachable_of_run hs
  obtain ⟨-, -, hsize, hjobs⟩ := workers_accounted oneShot s hr
  exact ⟨s, hr, hview.1, hview.2, hsize, (hjobs 1 (by decide) rfl).1⟩

end Deadpool.Pool.Scaling
