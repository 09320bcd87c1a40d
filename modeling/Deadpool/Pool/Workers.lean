/-!
# Worker bookkeeping decisions

The pure parts of `Deadpool.get_process` and `Deadpool.done_with_process` of
`deadpool/_pool.py`: what each decides from the numbers it read.  The reads themselves happen at
different moments of a concurrent run (the busy count under `_workers_lock`, the queue sizes
outside it), so the decisions take the values read as arguments.
-/

set_option autoImplicit false

namespace Deadpool.Pool

/-- The constructor arguments that the worker bookkeeping reads. -/
structure PoolConfig where
  poolSize : Nat
  minWorkers : Int
  maxTasksPerChild : Option Int
  maxWorkerMemoryBytes : Option Int
  deriving Repr

/-- `total_workers < mw and qs == 0` in `get_process`. -/
def growsPool (cfg : PoolConfig) (busy idle : Nat) : Bool :=
  decide (busy + idle < cfg.poolSize) && idle == 0

/-- What `done_with_process` does with a worker. -/
inductive Disposition where
  /-- shut it down, the pool is above `min_workers` and has no backlog -/
  | retire
  /-- the process is dead or broken: add a new worker -/
  | replace
  /-- shut it down and add a new worker -/
  | recycle
  /-- put it back on the idle queue -/
  | requeue
  deriving DecidableEq, Repr

/-- The values `done_with_process` reads about the pool and the worker. -/
structure Reading where
  busy : Nat
  idle : Nat
  backlog : Nat
  alive : Bool
  ok : Bool
  tasksRan : Nat
  rss : Nat
  deriving DecidableEq, Repr

/-- `counter >= bound` for an optional bound. -/
def reaches (n : Nat) : Option Int → Bool
  | none => false
  | some b => decide (b ≤ n)

/-- The branches of `done_with_process`, in order. -/
def disposition (cfg : PoolConfig) (r : Reading) : Disposition :=
  let totalWorkers := r.busy + r.idle + 1
  if cfg.minWorkers < totalWorkers ∧ r.backlog = 0 then .retire
  else if !r.alive then .replace
  else if !r.ok then .replace
  else if reaches r.tasksRan cfg.maxTasksPerChild then .recycle
  else if reaches r.rss cfg.maxWorkerMemoryBytes then .recycle
  else .requeue

/-- Only a living, healthy worker goes back to the idle queue. -/
theorem disposition_requeue {cfg : PoolConfig} {r : Reading} (h : disposition cfg r = .requeue) :
    r.alive = true ∧ r.ok = true := by
  unfold disposition at h
  simp only at h
  split at h
  · cases h
  split at h
  · cases h
  rename_i ha
  split at h
  · cases h
  rename_i hok
  exact ⟨by simpa using ha, by simpa using hok⟩

end Deadpool.Pool
