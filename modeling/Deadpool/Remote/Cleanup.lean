import Deadpool.Remote.Startup

/-!
# How a server ends when parts of its cleanup fail

`serve_forever` with `_initialize` and `_discard_startup_resources`, and `_finish_shutdown` with
`_close_bound`, of `deadpool/remote/server.py`, statement by statement, when any of the operations
they call may raise (`Faults`).  The interleavings of these routines with other calls are in
`Startup`; here one thread runs through, and what matters is which statements an exception skips.

The server records which listeners it tried to close and whether it tried to shut the pool down.

Principal result: `cleanup_complete_iff` — for every list of listeners and every set of failing
operations, the server ends with every bound listener and the pool attended to, in state `STOPPED`
and with both events set, if and only if it never published its pool, or it did and all its threads
started, no listener's `close` raised and neither did the pool's `shutdown`.
-/

set_option autoImplicit false

namespace Deadpool.Remote.Cleanup

open Startup (ServerState Listener)

/-- Which operations raise; listeners are known by their position.  `stopsFirst` and `stopsSecond`
say whether a `shutdown` call comes before the first and the second check of `_initialize`. -/
structure Faults where
  poolFactory : Bool
  bind : Nat → Bool
  close : Nat → Bool
  poolShutdown : Bool
  brokerThread : Bool
  acceptThread : Nat → Bool
  stopsFirst : Bool
  stopsSecond : Bool

structure Server where
  state : ServerState
  ready : Bool
  stopped : Bool
  /-- `_bound` -/
  bound : List Nat
  /-- history: `pool_factory` returned a pool -/
  poolMade : Bool
  /-- history: the listeners that were bound -/
  opened : List Nat
  /-- history: the listeners whose `close()` was called -/
  closed : List Nat
  /-- history: `pool.shutdown` was called -/
  poolShutdown : Bool
  deriving DecidableEq, Repr

/-- A server as `_initialize` finds it. -/
def Server.fresh : Server := ⟨.starting, false, false, [], false, [], [], false⟩

/-- The block that both ends share. -/
def Server.stop (s : Server) : Server := { s with state := .stopped, ready := true, stopped := true }

/-! ## The routines -/

/-- The loop of `_discard_startup_resources` and its `pool.shutdown`: every failure is logged. -/
def discardStartupResources (bound : List Nat) (s : Server) : Server :=
  { s with closed := s.closed ++ bound, poolShutdown := true }

/-- The loop of `_close_bound` over the listeners, which ends at the first `close()` that raises;
`false` if one did. -/
def closeEach (f : Faults) : List Nat → Server → Bool × Server
  | [], s => (true, s)
  | i :: rest, s =>
    let s := { s with closed := s.closed ++ [i] }
    if f.close i then (false, s) else closeEach f rest s

/-- `_close_bound`; the raw sockets' errors are caught. -/
def closeBound (f : Faults) (s : Server) : Bool × Server :=
  match closeEach f s.bound s with
  | (true, s) => (true, { s with bound := [] })
  | (false, s) => (false, s)

/-- The handler of `serve_forever`. -/
def failStartup (f : Faults) (s : Server) : Server :=
  match closeBound f { s with state := .stopped } with
  | (true, s) => { s with ready := true, stopped := true }
  | (false, s) => s

/-- The loop that binds the listeners; `false` if a listener that is not optional failed. -/
def bindEach (f : Faults) : Nat → List Listener → List Nat → Bool × List Nat
  | _, [], bound => (true, bound)
  | i, l :: rest, bound =>
    if !f.bind i then bindEach f (i + 1) rest (bound ++ [i])
    else if l.optional then bindEach f (i + 1) rest bound
    else (false, bound)

/-- The broker and the accept threads all start. -/
def threadsStart (f : Faults) (bound : List Nat) : Bool :=
  !f.brokerThread && bound.all fun i => !f.acceptThread i

/-- `serve_forever` from the call of `_initialize`; a server left in `RUNNING` waits. -/
def serveForever (f : Faults) (listeners : List Listener) : Server :=
  if f.stopsFirst then Server.fresh.stop
  else if f.poolFactory then failStartup f Server.fresh
  else
    let (ok, bound) := bindEach f 0 listeners []
    let s := { Server.fresh with poolMade := true, opened := bound }
    -- `no listeners could be bound` is raised in the same `try`
    if !ok || bound.isEmpty then failStartup f (discardStartupResources bound s)
    else if f.stopsSecond then (discardStartupResources bound s).stop
    else
      let s := { s with bound := bound, state := .running }
      if threadsStart f bound then { s with ready := true } else failStartup f s

/-- `_finish_shutdown` after its drain loop; an exception ends its thread. -/
def finishShutdown (f : Faults) (s : Server) : Server :=
  match closeBound f { s with state := .stopping } with
  | (false, s) => s
  | (true, s) =>
    let s := { s with poolShutdown := true }
    if f.poolShutdown then s else { s with state := .stopped, stopped := true }

/-- The whole life: a server that runs is shut down in the end. -/
def serverEnd (f : Faults) (listeners : List Listener) : Server :=
  let s := serveForever f listeners
  if s.state = .running then finishShutdown f { s with state := .draining } else s

/-! ## What a server owes at its end -/

/-- Every bound listener and the pool were attended to, and nobody stays blocked. -/
structure Complete (s : Server) : Prop where
  closed : ∀ i ∈ s.opened, i ∈ s.closed
  pool : s.poolMade = true → s.poolShutdown = true
  state : s.state = .stopped
  ready : s.ready = true
  stopped : s.stopped = true

/-- The listeners that can be bound. -/
def bindable (f : Faults) (listeners : List Listener) : List Nat :=
  (listeners.zipIdx.filter fun p => !f.bind p.2).map (·.2)

/-- The pool is published: no shutdown comes in between, the pool is made, and of the listeners those
that are not optional and at least one can be bound. -/
def publishes (f : Faults) (listeners : List Listener) : Bool :=
  !f.stopsFirst && !f.poolFactory &&
    (listeners.zipIdx.all fun p => p.1.optional || !f.bind p.2) &&
    !(bindable f listeners).isEmpty && !f.stopsSecond

/-- No operation on the published resources fails. -/
def faultless (f : Faults) (bound : List Nat) : Bool :=
  threadsStart f bound && (bound.all fun i => !f.close i) && !f.poolShutdown

/-! ## The loops -/

section Loops

variable {f : Faults}

theorem closeEach_ok {bound : List Nat} (h : bound.all (fun i => !f.close i) = true) (s : Server) :
    closeEach f bound s = (true, { s with closed := s.closed ++ bound }) := by
  induction bound generalizing s with
  | nil => simp [closeEach]
  | cons i rest ih =>
    simp only [List.all_cons, Bool.and_eq_true, Bool.not_eq_true'] at h
    unfold closeEach
    rw [h.1]
    simp [ih (by simpa using h.2)]

/-- The loop ends at the first `close()` that raises. -/
theorem closeEach_raises {bound : List Nat} (h : bound.all (fun i => !f.close i) = false)
    (s : Server) :
    ∃ tried, closeEach f bound s = (false, { s with closed := s.closed ++ tried }) := by
  induction bound generalizing s with
  | nil => cases h
  | cons i rest ih =>
    unfold closeEach
    cases hi : f.close i with
    | true => exact ⟨[i], rfl⟩
    | false =>
      have hrest : rest.all (fun i => !f.close i) = false := by simpa [hi] using h
      obtain ⟨tried, htried⟩ := ih hrest { s with closed := s.closed ++ [i] }
      exact ⟨i :: tried, by simp [htried]⟩

theorem closeBound_ok {s : Server} (h : s.bound.all (fun i => !f.close i) = true) :
    closeBound f s = (true, { s with closed := s.closed ++ s.bound, bound := [] }) := by
  simp only [closeBound, closeEach_ok h]

theorem closeBound_raises {s : Server} (h : s.bound.all (fun i => !f.close i) = false) :
    ∃ tried, closeBound f s = (false, { s with closed := s.closed ++ tried }) := by
  obtain ⟨tried, htried⟩ := closeEach_raises h s
  exact ⟨tried, by simp only [closeBound, htried]⟩

/-- The binding loop from position `k` on. -/
theorem bindEach_eq (k : Nat) (listeners : List Listener) (bound : List Nat) :
    (bindEach f k listeners bound).1 =
        ((listeners.zipIdx k).all fun p => p.1.optional || !f.bind p.2) ∧
      ((bindEach f k listeners bound).1 = true →
        (bindEach f k listeners bound).2 =
          bound ++ ((listeners.zipIdx k).filter fun p => !f.bind p.2).map (·.2)) := by
  induction listeners generalizing k bound with
  | nil => simp [bindEach]
  | cons l rest ih =>
    unfold bindEach
    cases hbind : f.bind k with
    | false =>
      obtain ⟨hall, hbound⟩ := ih (k + 1) (bound ++ [k])
      refine ⟨by simpa [hbind] using hall, fun hok => ?_⟩
      simpa [hbind] using hbound (by simpa using hok)
    | true =>
      cases hopt : l.optional with
      | true =>
        obtain ⟨hall, hbound⟩ := ih (k + 1) bound
        refine ⟨by simpa [hbind, hopt] using hall, fun hok => ?_⟩
        simpa [hbind] using hbound (by simpa using hok)
      | false => simp [hbind, hopt]

end Loops

/-! ## The two ends -/

section Ends

variable {f : Faults}

/-- Before anything is published the handler of `serve_forever` has nothing to close. -/
theorem failStartup_unpublished {s : Server} (h : s.bound = []) : failStartup f s = s.stop := by
  have hclose : closeBound f { s with state := .stopped } = (true, { s with state := .stopped }) := by
    rw [closeBound_ok (by simp [h])]
    simp [h]
  simp only [failStartup, hclose, Server.stop]

/-- What was discarded is attended to. -/
theorem complete_discarded {s : Server} (bound : List Nat) (hopened : s.opened = bound) :
    Complete (discardStartupResources bound s).stop where
  closed _ hi := List.mem_append_right _ (hopened ▸ hi)
  pool _ := rfl
  state := rfl
  ready := rfl
  stopped := rfl

/-- The handler of `serve_forever` never shuts a pool down. -/
theorem not_complete_failStartup {s : Server} (hmade : s.poolMade = true)
    (hpool : s.poolShutdown = false) : ¬ Complete (failStartup f s) := by
  intro h
  have hkept : (failStartup f s).poolMade = true ∧ (failStartup f s).poolShutdown = false := by
    cases hall : s.bound.all (fun i => !f.close i) with
    | true =>
      rw [failStartup, closeBound_ok (by exact hall)]
      exact ⟨hmade, hpool⟩
    | false =>
      obtain ⟨tried, htried⟩ := closeBound_raises (f := f) (s := { s with state := .stopped }) hall
      rw [failStartup, htried]
      exact ⟨hmade, hpool⟩
  have hshut := h.pool hkept.1
  rw [hkept.2] at hshut
  cases hshut

/-- **The shutdown thread** attends to everything exactly when nothing it calls raises. -/
theorem complete_finishShutdown_iff {s : Server} (hready : s.ready = true)
    (hopened : s.opened = s.bound) :
    Complete (finishShutdown f s) ↔
      s.bound.all (fun i => !f.close i) = true ∧ f.poolShutdown = false := by
  cases hall : s.bound.all (fun i => !f.close i) with
  | false =>
    obtain ⟨tried, htried⟩ := closeBound_raises (f := f) (s := { s with state := .stopping }) hall
    have hstate : (finishShutdown f s).state = .stopping := by simp [finishShutdown, htried]
    refine ⟨fun h => ?_, fun h => (by cases h.1)⟩
    have := h.state
    rw [hstate] at this
    cases this
  | true =>
    have hclose := closeBound_ok (f := f) (s := { s with state := .stopping }) hall
    cases hpool : f.poolShutdown with
    | true =>
      have hstate : (finishShutdown f s).state = .stopping := by
        simp [finishShutdown, hclose, hpool]
      refine ⟨fun h => ?_, fun h => (by cases h.2)⟩
      have := h.state
      rw [hstate] at this
      cases this
    | false =>
      refine ⟨fun _ => ⟨rfl, rfl⟩, fun _ => ?_⟩
      simp only [finishShutdown, hclose, hpool]
      exact ⟨fun i hi => List.mem_append_right _ (hopened ▸ hi), fun _ => rfl, rfl, hready, rfl⟩

/-- A server whose startup publishes nothing ends by itself, with everything attended to. -/
theorem complete_unpublished {listeners : List Listener} (h : publishes f listeners = false) :
    Complete (serveForever f listeners) := by
  unfold serveForever
  split
  · exact ⟨by simp [Server.stop, Server.fresh], by simp [Server.stop, Server.fresh], rfl, rfl, rfl⟩
  · rename_i hfirst
    split
    · rw [failStartup_unpublished rfl]
      exact ⟨by simp [Server.stop, Server.fresh], by simp [Server.stop, Server.fresh], rfl, rfl,
        rfl⟩
    · rename_i hfactory
      dsimp only
      split
      · rw [failStartup_unpublished rfl]
        exact complete_discarded _ rfl
      · rename_i hbind
        split
        · exact complete_discarded _ rfl
        · rename_i hsecond
          obtain ⟨hall, hbound⟩ := bindEach_eq (f := f) 0 listeners []
          simp only [Bool.or_eq_true, Bool.not_eq_true', not_or, Bool.not_eq_false] at hbind
          rw [hbind.1] at hall hbound
          have hsome : (bindable f listeners).isEmpty = false := by
            have hlist : (bindEach f 0 listeners []).2 = bindable f listeners := hbound rfl
            rw [← hlist]
            exact Bool.eq_false_iff.mpr hbind.2
          simp [publishes, hfirst, hfactory, ← hall, hsome, hsecond] at h

/-- The server at the moment of publication. -/
def Server.published (bound : List Nat) : Server :=
  { Server.fresh with poolMade := true, opened := bound, bound := bound, state := .running }

/-- A startup that publishes runs, unless a thread does not start. -/
theorem serveForever_published {listeners : List Listener} (h : publishes f listeners = true) :
    serveForever f listeners =
      if threadsStart f (bindable f listeners) then
        { Server.published (bindable f listeners) with ready := true }
      else failStartup f (Server.published (bindable f listeners)) := by
  simp only [publishes, Bool.and_eq_true, Bool.not_eq_true'] at h
  obtain ⟨⟨⟨⟨hfirst, hfactory⟩, hok⟩, hsome⟩, hsecond⟩ := h
  obtain ⟨hall, hbound⟩ := bindEach_eq (f := f) 0 listeners []
  rw [hok] at hall
  have hlist : (bindEach f 0 listeners []).2 = bindable f listeners := hbound hall
  simp only [serveForever, hfirst, hfactory, hall, hlist, hsome, hsecond, Bool.not_true,
    Bool.or_self, Bool.false_eq_true, if_false]
  rfl

end Ends

/-- **The end of a server.**  For every list of listeners and every set of failing operations, both
ways in which the server ends attend to every bound listener and to the pool, and leave it `STOPPED`
with `ready` and `_stopped` set, if and only if the pool was not published, or all threads started
and no `close` of a bound listener and no `pool.shutdown` raised. -/
theorem cleanup_complete_iff (f : Faults) (listeners : List Listener) :
    Complete (serverEnd f listeners) ↔
      (publishes f listeners = true → faultless f (bindable f listeners) = true) := by
  unfold serverEnd
  cases hpub : publishes f listeners with
  | false =>
    have hcomplete := complete_unpublished hpub
    dsimp only
    rw [if_neg (by rw [hcomplete.state]; decide)]
    exact ⟨fun _ h => (by cases h), fun _ => hcomplete⟩
  | true =>
    rw [serveForever_published hpub]
    generalize bindable f listeners = bound
    cases hthreads : threadsStart f bound with
    | false =>
      -- the pool has been published and is left running
      have hnot := not_complete_failStartup (f := f) (s := Server.published bound) rfl rfl
      have hstate : (failStartup f (Server.published bound)).state ≠ .running := by
        unfold failStartup
        cases hall : (Server.published bound).bound.all (fun i => !f.close i) with
        | true => rw [closeBound_ok (by exact hall)]; simp
        | false =>
          obtain ⟨tried, htried⟩ :=
            closeBound_raises (f := f) (s := { Server.published bound with state := .stopped }) hall
          rw [htried]
          simp
      simp only [Bool.false_eq_true, if_false, if_neg hstate]
      refine ⟨fun h => absurd h hnot, fun h => ?_⟩
      simp [faultless, hthreads] at h
    | true =>
      simp only [if_true]
      have hfinish := complete_finishShutdown_iff (f := f)
        (s := { Server.published bound with ready := true, state := .draining }) rfl rfl
      refine hfinish.trans ?_
      simp [faultless, hthreads, Server.published]

/-- Nothing raises, and no shutdown comes early. -/
def quiet : Faults where
  poolFactory := false
  bind _ := false
  close _ := false
  poolShutdown := false
  brokerThread := false
  acceptThread _ := false
  stopsFirst := false
  stopsSecond := false

/-- The first of two listeners raises on `close`: the second stays open, the pool is not shut down,
and the server stays in `STOPPING`.  An accept thread that does not start leaves the pool behind. -/
theorem cleanup_incomplete :
    ¬ Complete (serverEnd { quiet with close := fun i => i = 0 } [⟨false⟩, ⟨false⟩]) ∧
      (serverEnd { quiet with close := fun i => i = 0 } [⟨false⟩, ⟨false⟩]).closed = [0] ∧
      ¬ Complete (serverEnd { quiet with acceptThread := fun i => i = 1 } [⟨false⟩, ⟨false⟩]) := by
  refine ⟨fun h => ?_, by decide, fun h => ?_⟩
  · have := h.state
    revert this
    decide
  · have := h.pool (by decide)
    revert this
    decide

end Deadpool.Remote.Cleanup
