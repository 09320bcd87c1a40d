import Deadpool.Lts
import Mathlib.Data.List.Perm.Basic
import Mathlib.Data.List.Nodup

/-!
# Starting and stopping a server

`start`, `serve_forever` with `_initialize` and its two checks of the state, and `shutdown` of
`deadpool/remote/server.py`, called from any threads.  A block under the server's lock is one step;
`pool_factory`, each `bind_listener`, `_discard_startup_resources` and the last statements of the
failure path of `serve_forever` are steps outside of it, so `shutdown` may fall between any two of
them.  `pool_factory` is code of the user, which returns a pool or raises.

Only one thread gets past the first block of `serve_forever` (it is `_serve_thread`), so there is
one control point for the startup; that thread may call `serve_forever` again when its call has
ended, also after an interrupted wait.  Threads may fail to start.

As a history, every pool and every bound listener gets a number when it is made; `published` and
`discarded` list those that became the server's and those passed to `_discard_startup_resources`.

Principal result: `startup_lifecycle` — in every run in which all threads start, the state only
moves forward, `pool_factory` is called at most once, what startup made is published with the move
to `RUNNING` or discarded, once and never both, and `ready` is set when no startup step is left.
-/

set_option autoImplicit false

namespace Deadpool.Remote.Startup

/-! ## The server -/

inductive ServerState where
  | created
  | starting
  | running
  | draining
  | stopping
  | stopped
  deriving DecidableEq, Repr

/-- The order in which a server passes through its states. -/
def ServerState.rank : ServerState → Nat
  | .created => 0
  | .starting => 1
  | .running => 2
  | .draining => 3
  | .stopping => 4
  | .stopped => 5

/-- A listener's configuration, as far as startup reads it. -/
structure Listener where
  optional : Bool
  deriving DecidableEq, Repr

/-- What startup fails with. -/
inductive StartupError where
  | poolFactory
  | bindListener
  /-- `no listeners could be bound` -/
  | noListeners
  | threadStart
  deriving DecidableEq, Repr

inductive Thread where
  | user (t : Nat)
  /-- the one `start` creates -/
  | background
  deriving DecidableEq, Repr

/-- Control points of `serve_forever` in the serving thread; `pool` and `bound` are what startup has
made so far. -/
inductive Pc where
  | idle
  /-- the thread of `start`, before the first block -/
  | entering
  /-- before the first check of the state in `_initialize` -/
  | initCheck
  | factory
  | binding (pool : Nat) (bound : List Nat) (rest : List Listener)
  /-- before the second check -/
  | publish (pool : Nat) (bound : List Nat)
  /-- a listener could not be bound: before the discard and the `raise` -/
  | discardFailed (pool : Nat) (bound : List Nat) (e : StartupError)
  /-- the second check failed: before the discard -/
  | discardCancelled (pool : Nat) (bound : List Nat)
  /-- before the last block of `_initialize` -/
  | cancelled
  /-- `_initialize` raised: before the block of the handler -/
  | failed (e : StartupError)
  /-- before `_close_bound()` of the handler -/
  | failClose
  /-- before `ready.set()` of the handler -/
  | failReady
  /-- before `_stopped.set()` of the handler -/
  | failStopped
  /-- in `_stopped.wait()` -/
  | waitStopped
  | ended
  deriving DecidableEq, Repr

/-- The thread of `_finish_shutdown`. -/
inductive Finish where
  | absent
  /-- the thread object exists, but its `start()` raised -/
  | unstarted
  | draining
  | closing
  | poolShutdown
  | flushing
  | ended
  /-- an exception left `_finish_shutdown` -/
  | crashed
  deriving DecidableEq, Repr

/-- What a `start` call raised. -/
inductive StartError where
  | startup (e : StartupError)
  /-- `a stopped remote server cannot be started` -/
  | notCreated
  /-- `remote server stopped before becoming ready` -/
  | neverReady
  deriving DecidableEq, Repr

/-- A call of `start`; `outcome` is `none` while it waits. -/
structure StartCall where
  /-- history: the state when the call began -/
  began : ServerState
  outcome : Option (Except StartError Unit)

structure State where
  phase : ServerState
  ready : Bool
  stopped : Bool
  serveThread : Option Thread
  startupError : Option StartupError
  pool : Option Nat
  bound : List Nat
  startup : Pc
  finish : Finish
  starts : List StartCall
  factoryCalls : Nat
  next : Nat
  published : List Nat
  discarded : List Nat

inductive Label where
  | start (threadStarts : Bool)
  /-- the `i`-th `start` call is through `ready.wait()` -/
  | startReturns (i : Nat)
  | serveForever (t : Nat)
  /-- the next step of the startup -/
  | advance
  | poolFactory (ok : Bool)
  | bindListener (ok : Bool)
  | publish (threadsStart : Bool)
  | closeBound (ok : Bool)
  | interrupt
  | shutdown (threadStarts : Bool)
  /-- the next step of `_finish_shutdown` -/
  | finish (ok : Bool)
  deriving DecidableEq, Repr

/-! ## The blocks -/

/-- The state, both events set: every way in which a server stops. -/
def State.stop (s : State) : State := { s with phase := .stopped, ready := true, stopped := true }

/-- `start`, up to the wait. -/
def State.start (s : State) (threadStarts : Bool) : State :=
  match s.serveThread with
  | some _ => { s with starts := s.starts ++ [⟨s.phase, none⟩] }
  | none =>
    if s.phase ≠ .created then
      { s with starts := s.starts ++ [⟨s.phase, some (.error .notCreated)⟩] }
    else if threadStarts then
      { s with
        phase := .starting
        serveThread := some .background
        startup := .entering
        starts := s.starts ++ [⟨s.phase, none⟩] }
    else
      { s.stop with
        serveThread := some .background
        startupError := some .threadStart
        starts := s.starts ++ [⟨s.phase, some (.error (.startup .threadStart))⟩] }

/-- `wait_ready` after the wait, and what `start` makes of it. -/
def State.waitReady (s : State) : Except StartError Unit :=
  match s.startupError with
  | some e => .error (.startup e)
  | none => if s.pool.isSome then .ok () else .error .neverReady

/-- The first block of `serve_forever` in a thread of the user; a call that raises changes
nothing. -/
def State.serveForever (s : State) (t : Nat) : Option State :=
  match s.serveThread with
  | none =>
    if s.phase = .created then
      some { s with serveThread := some (.user t), phase := .starting, startup := .initCheck }
    else some s
  | some u =>
    if u = .user t then
      -- a thread makes one call at a time
      if s.startup = .ended then some { s with startup := .initCheck } else none
    else some s

/-- The first check in `_initialize`. -/
def State.initCheck (s : State) : State :=
  if s.phase ≠ .starting then
    let s := if s.phase = .stopping then s.stop else s
    { s with startup := .waitStopped }
  else { s with startup := .factory }

/-- The second check in `_initialize`, and what follows it under the lock. -/
def State.publish (s : State) (pool : Nat) (bound : List Nat) (threadsStart : Bool) : State :=
  if s.phase ≠ .starting then { s with startup := .discardCancelled pool bound }
  else
    let s := { s with
      pool := some pool
      bound := bound
      phase := .running
      published := s.published ++ pool :: bound }
    if threadsStart then { s with ready := true, startup := .waitStopped }
    else { s with startup := .failed .threadStart }

/-- `_discard_startup_resources`, which lets no exception out. -/
def State.discardStartupResources (s : State) (pool : Nat) (bound : List Nat) : State :=
  { s with discarded := s.discarded ++ pool :: bound }

/-- The block of `shutdown`. -/
def State.shutdown (s : State) (threadStarts : Bool) : State :=
  match s.phase with
  | .stopped => s
  | .created => s.stop
  | .starting => { s with phase := .stopping }
  | phase =>
    if phase = .stopping ∧ !s.ready then s
    else
      let s := if phase = .running then { s with phase := .draining } else s
      if s.finish = .absent then
        { s with finish := if threadStarts then .draining else .unstarted }
      else s

/-! ## The steps -/

/-- Steps of the startup that nobody decides. -/
def advance (s : State) : Option State :=
  match s.startup with
  | .entering => some { s with startup := .initCheck }
  | .initCheck => some s.initCheck
  | .binding pool bound [] =>
    some { s with startup :=
      if bound = [] then .discardFailed pool bound .noListeners else .publish pool bound }
  | .discardFailed pool bound e =>
    some { s.discardStartupResources pool bound with startup := .failed e }
  | .discardCancelled pool bound =>
    some { s.discardStartupResources pool bound with startup := .cancelled }
  | .cancelled => some { s.stop with startup := .waitStopped }
  | .failed e => some { s with startupError := some e, phase := .stopped, startup := .failClose }
  | .failReady => some { s with ready := true, startup := .failStopped }
  | .failStopped => some { s with stopped := true, startup := .ended }
  | .waitStopped => if s.stopped then some { s with startup := .ended } else none
  | _ => none

/-- `_finish_shutdown` after its drain loop; a step that may raise ends the thread if it does. -/
def finishStep (s : State) (ok : Bool) : Option State :=
  match s.finish with
  | .draining => some { s with phase := .stopping, finish := .closing }
  | .closing =>
    some (if ok then { s with bound := [], finish := .poolShutdown } else { s with finish := .crashed })
  | .poolShutdown => some { s with finish := if ok then .flushing else .crashed }
  | .flushing => some { s with phase := .stopped, stopped := true, finish := .ended }
  | _ => none

def step (listeners : List Listener) (s : State) : Label → Option State
  | .start threadStarts => some (s.start threadStarts)
  | .startReturns i =>
    (s.starts[i]?).bind fun c =>
      if c.outcome.isNone ∧ s.ready then
        some { s with starts := s.starts.set i { c with outcome := some s.waitReady } }
      else none
  | .serveForever t => s.serveForever t
  | .advance => advance s
  | .poolFactory ok =>
    match s.startup with
    | .factory =>
      let s := { s with factoryCalls := s.factoryCalls + 1 }
      if ok then some { s with startup := .binding s.next [] listeners, next := s.next + 1 }
      else some { s with startup := .failed .poolFactory }
    | _ => none
  | .bindListener ok =>
    match s.startup with
    | .binding pool bound (l :: rest) =>
      if ok then
        some { s with startup := .binding pool (bound ++ [s.next]) rest, next := s.next + 1 }
      else if l.optional then some { s with startup := .binding pool bound rest }
      else some { s with startup := .discardFailed pool bound .bindListener }
    | _ => none
  | .publish threadsStart =>
    match s.startup with
    | .publish pool bound => some (s.publish pool bound threadsStart)
    | _ => none
  | .closeBound ok =>
    match s.startup with
    | .failClose =>
      if ok then some { s with bound := [], startup := .failReady }
      -- a listener's `close()` raised out of the handler
      else if s.bound ≠ [] then some { s with startup := .ended } else none
    | _ => none
  | .interrupt => if s.startup = .waitStopped then some { s with startup := .ended } else none
  | .shutdown threadStarts => some (s.shutdown threadStarts)
  | .finish ok => finishStep s ok

def init : State where
  phase := .created
  ready := false
  stopped := false
  serveThread := none
  startupError := none
  pool := none
  bound := []
  startup := .idle
  finish := .absent
  starts := []
  factoryCalls := 0
  next := 0
  published := []
  discarded := []

def system (listeners : List Listener) : Lts.System State Label := ⟨init, step listeners⟩

/-- Every thread starts. -/
def ThreadsStart (_ : State) : Label → Bool
  | .start ok | .publish ok | .shutdown ok => ok
  | _ => true

/-! ## What startup has made and holds -/

/-- The resources at a control point of the startup. -/
def Pc.held : Pc → List Nat
  | .binding pool bound _ | .publish pool bound | .discardFailed pool bound _
  | .discardCancelled pool bound => pool :: bound
  | _ => []

/-- No startup step is left to run. -/
def Pc.over : Pc → Bool
  | .idle | .failStopped | .waitStopped | .ended => true
  | _ => false

/-! ## The invariant -/

/-- Startup has not decided yet: no shutdown thread, nothing published, nobody released. -/
structure Pending (s : State) : Prop where
  phase : s.phase = .starting ∨ s.phase = .stopping
  ready : s.ready = false
  finish : s.finish = .absent
  bound : s.bound = []

/-- Startup has decided; how far the server has come then depends on the shutdown thread alone. -/
structure Decided (s : State) : Prop where
  ready : s.ready = true
  phase :
    match s.finish with
    | .absent => s.phase = .running ∨ s.phase = .stopped
    | .unstarted => False
    | .draining => s.phase = .draining
    | _ => s.phase = .stopping ∨ s.phase = .stopped

/-- What holds at each control point of the startup. -/
def Fits (s : State) : Prop :=
  match s.startup with
  | .idle =>
    s.factoryCalls = 0 ∧ s.finish = .absent ∧
      (s.phase = .created ∧ s.ready = false ∧ s.bound = [] ∨ s.phase = .stopped ∧ s.ready = true)
  | .entering | .factory => Pending s ∧ s.factoryCalls = 0
  | .initCheck => Pending s ∧ s.factoryCalls = 0 ∨ Decided s
  | .binding _ _ _ | .publish _ _ | .discardFailed _ _ _ | .failed _ => Pending s
  | .discardCancelled _ _ | .cancelled => Pending s ∧ s.phase = .stopping
  | .failClose | .failReady =>
    s.phase = .stopped ∧ s.ready = false ∧ s.finish = .absent ∧ s.bound = []
  | .failStopped => s.phase = .stopped ∧ s.ready = true ∧ s.finish = .absent
  | .waitStopped | .ended => Decided s

structure Inv (s : State) : Prop where
  fits : Fits s
  factory : s.factoryCalls ≤ 1
  resources : (s.startup.held ++ s.published ++ s.discarded).Perm (List.range s.next)

theorem inv_init : Inv init where
  fits := ⟨rfl, rfl, .inl ⟨rfl, rfl, rfl⟩⟩
  factory := Nat.zero_le 1
  resources := .refl _

/-! ## What the blocks keep -/

section Blocks

variable {s : State}

/-- A decided server that the caller stops. -/
theorem Decided.stop_of_stopping (h : Decided s) (hphase : s.phase = .stopping) :
    Decided s.stop := by
  refine ⟨rfl, ?_⟩
  have hp := h.phase
  show (match s.finish with | .absent => _ | .unstarted => _ | .draining => _ | _ => _)
  revert hp
  cases s.finish <;> simp [hphase, State.stop]

theorem Pending.decided_stop (h : Pending s) : Decided s.stop := by
  refine ⟨rfl, ?_⟩
  have hf : s.stop.finish = .absent := h.finish
  rw [hf]
  exact .inr rfl

/-- The fields that only the startup writes. -/
structure SameStartup (s s' : State) : Prop where
  startup : s'.startup = s.startup
  factory : s'.factoryCalls = s.factoryCalls
  next : s'.next = s.next
  published : s'.published = s.published
  discarded : s'.discarded = s.discarded

theorem Inv.same {s' : State} (h : Inv s) (hsame : SameStartup s s') (hfits : Fits s') : Inv s' where
  fits := hfits
  factory := hsame.factory ▸ h.factory
  resources := by
    rw [hsame.startup, hsame.published, hsame.discarded, hsame.next]
    exact h.resources

/-- `shutdown` while startup has not decided. -/
theorem Pending.shutdown (h : Pending s) (ok : Bool) :
    s.shutdown ok = { s with phase := .stopping } := by
  unfold State.shutdown
  rcases h.phase with hp | hp
  · rw [hp]
  · rw [hp]
    simp only [h.ready, Bool.not_false, and_self, if_true]
    rw [← hp, ← h.ready]

/-- `shutdown` of a server that has decided. -/
theorem Decided.shutdown (h : Decided s) : Decided (s.shutdown true) := by
  have hp := h.phase
  unfold State.shutdown
  cases hphase : s.phase with
  | stopped => exact h
  | created => cases hf : s.finish <;> simp [hf, hphase] at hp
  | starting => cases hf : s.finish <;> simp [hf, hphase] at hp
  | running =>
    cases hf : s.finish <;> simp [hf, hphase] at hp
    refine ⟨?_, ?_⟩
    · simp [h.ready]
    · simp
  | draining =>
    cases hf : s.finish <;> simp [hf, hphase] at hp
    simpa [hf] using h
  | stopping =>
    cases hf : s.finish <;> simp [hf, hphase] at hp <;> simpa [h.ready, hf] using h

theorem sameStartup_shutdown (ok : Bool) : SameStartup s (s.shutdown ok) := by
  unfold State.shutdown
  split
  · exact ⟨rfl, rfl, rfl, rfl, rfl⟩
  · exact ⟨rfl, rfl, rfl, rfl, rfl⟩
  · exact ⟨rfl, rfl, rfl, rfl, rfl⟩
  · split
    · exact ⟨rfl, rfl, rfl, rfl, rfl⟩
    · dsimp only
      split <;> split <;> exact ⟨rfl, rfl, rfl, rfl, rfl⟩

/-- `shutdown` at every control point of the startup. -/
theorem fits_shutdown (h : Fits s) : Fits (s.shutdown true) := by
  have hsame := (sameStartup_shutdown (s := s) true).startup
  have hfactory := (sameStartup_shutdown (s := s) true).factory
  unfold Fits at h ⊢
  rw [hsame, hfactory]
  -- what `shutdown` does to a startup that has not decided
  have hpending : Pending s → Pending (s.shutdown true) ∧ (s.shutdown true).phase = .stopping := by
    intro hp
    rw [hp.shutdown]
    exact ⟨⟨.inr rfl, hp.ready, hp.finish, hp.bound⟩, rfl⟩
  have hstopped : s.phase = .stopped → s.shutdown true = s := by
    intro hp
    simp [State.shutdown, hp]
  cases hpc : s.startup with
  | idle =>
    rw [hpc] at h
    obtain ⟨hcalls, hfinish, ⟨hphase, -⟩ | ⟨hphase, hready⟩⟩ := h
    · refine ⟨hcalls, ?_, .inr ?_⟩ <;> simp [State.shutdown, hphase, State.stop, hfinish]
    · rw [hstopped hphase]
      exact ⟨hcalls, hfinish, .inr ⟨hphase, hready⟩⟩
  | entering | factory =>
    rw [hpc] at h
    exact ⟨(hpending h.1).1, h.2⟩
  | initCheck =>
    rw [hpc] at h
    rcases h with h | h
    · exact .inl ⟨(hpending h.1).1, h.2⟩
    · exact .inr h.shutdown
  | binding | publish | discardFailed | failed =>
    rw [hpc] at h
    exact (hpending h).1
  | discardCancelled | cancelled =>
    rw [hpc] at h
    exact hpending h.1
  | failClose | failReady | failStopped =>
    rw [hpc] at h
    rw [hstopped h.1]
    exact h
  | waitStopped | ended =>
    rw [hpc] at h
    exact h.shutdown

/-- A server that is still to be started. -/
theorem fits_of_created (h : Fits s) (hphase : s.phase = .created) :
    s.startup = .idle ∧ s.factoryCalls = 0 ∧ s.finish = .absent ∧ s.ready = false ∧
      s.bound = [] := by
  have hpending : ¬ Pending s := fun hp => by rcases hp.phase with hp | hp <;> simp [hphase] at hp
  have hdecided : ¬ Decided s := fun hd => by
    have hp := hd.phase
    cases hf : s.finish <;> simp [hf, hphase] at hp
  unfold Fits at h
  cases hpc : s.startup <;> simp [hpc, hphase, hpending, hdecided] at h
  exact ⟨rfl, h.1, h.2.1, h.2.2⟩

/-- The shutdown thread exists only when startup has decided, at a control point that asks for no
more. -/
theorem decided_of_finish (h : Fits s) (hfinish : s.finish ≠ .absent) :
    Decided s ∧ (s.startup = .initCheck ∨ s.startup = .waitStopped ∨ s.startup = .ended) := by
  have hpending : ¬ Pending s := fun hp => hfinish hp.finish
  unfold Fits at h
  cases hpc : s.startup <;> simp [hpc, hpending, hfinish] at h <;> exact ⟨h, by simp⟩

theorem fits_of_decided (h : Decided s)
    (hpc : s.startup = .initCheck ∨ s.startup = .waitStopped ∨ s.startup = .ended) : Fits s := by
  unfold Fits
  rcases hpc with hpc | hpc | hpc <;> rw [hpc]
  · exact .inr h
  · exact h
  · exact h

end Blocks

/-! ## Every step -/

section Steps

variable {listeners : List Listener} {s s' : State}

/-- The first block of `start` or `serve_forever` on a fresh server. -/
theorem Inv.begin (h : Inv s) (hphase : s.phase = .created) {pc : Pc} (th : Thread)
    (starts : List StartCall) (hpc : pc = .entering ∨ pc = .initCheck) :
    Inv { s with phase := .starting, serveThread := some th, startup := pc, starts := starts } := by
  obtain ⟨hidle, hcalls, hfinish, hready, hbound⟩ := fits_of_created h.fits hphase
  have hpending : Pending { s with
      phase := .starting, serveThread := some th, startup := pc, starts := starts } :=
    ⟨.inl rfl, hready, hfinish, hbound⟩
  have hres := h.resources
  rw [hidle] at hres
  refine ⟨?_, h.factory, ?_⟩
  · unfold Fits
    rcases hpc with rfl | rfl
    · exact ⟨hpending, hcalls⟩
    · exact .inl ⟨hpending, hcalls⟩
  · rcases hpc with rfl | rfl <;> exact hres

/-- The fields that the invariant reads of the server. -/
theorem fits_congr {t : State} (h : Fits s) (hpc : t.startup = s.startup)
    (hcalls : t.factoryCalls = s.factoryCalls) (hphase : t.phase = s.phase)
    (hready : t.ready = s.ready) (hfinish : t.finish = s.finish) (hbound : t.bound = s.bound) :
    Fits t := by
  have hpending : Pending s → Pending t := fun hp =>
    ⟨hphase ▸ hp.phase, hready ▸ hp.ready, hfinish ▸ hp.finish, hbound ▸ hp.bound⟩
  have hdecided : Decided s → Decided t := fun hd =>
    ⟨hready ▸ hd.ready, by rw [hfinish, hphase]; exact hd.phase⟩
  unfold Fits at h ⊢
  rw [hpc, hcalls, hphase, hready, hfinish, hbound]
  cases hs : s.startup with
  | idle | failClose | failReady | failStopped => rw [hs] at h; exact h
  | entering | factory | discardCancelled | cancelled =>
    rw [hs] at h
    exact ⟨hpending h.1, h.2⟩
  | initCheck =>
    rw [hs] at h
    exact h.imp (fun hp => ⟨hpending hp.1, hp.2⟩) hdecided
  | binding | publish | discardFailed | failed => rw [hs] at h; exact hpending h
  | waitStopped | ended => rw [hs] at h; exact hdecided h

/-- The `start` calls that wait are not part of the invariant. -/
theorem Inv.waiters (h : Inv s) (starts : List StartCall) : Inv { s with starts := starts } :=
  h.same ⟨rfl, rfl, rfl, rfl, rfl⟩ (fits_congr h.fits rfl rfl rfl rfl rfl rfl)

theorem inv_start (h : Inv s) : Inv (s.start true) := by
  unfold State.start
  split
  · exact h.waiters _
  · split
    · exact h.waiters _
    · rename_i hphase
      rw [not_not] at hphase
      exact h.begin hphase .background _ (.inl rfl)

theorem inv_serveForever {t : Nat} (h : Inv s) (hs : s.serveForever t = some s') : Inv s' := by
  unfold State.serveForever at hs
  split at hs
  · split at hs
    · rename_i hphase
      cases hs
      exact h.begin hphase (.user t) _ (.inr rfl)
    · cases hs
      exact h
  · split at hs
    · split at hs
      · rename_i hended
        cases hs
        have hdecided : Decided s := by
          have hfits := h.fits
          rw [Fits, hended] at hfits
          exact hfits
        refine ⟨.inr ⟨hdecided.ready, hdecided.phase⟩, h.factory, ?_⟩
        have hres := h.resources
        rw [hended] at hres
        exact hres
      · cases hs
    · cases hs
      exact h

theorem inv_finishStep {ok : Bool} (h : Inv s) (hs : finishStep s ok = some s') : Inv s' := by
  unfold finishStep at hs
  have hstarted : s.finish ≠ .absent := by
    intro hf
    simp [hf] at hs
  obtain ⟨hdecided, hpc⟩ := decided_of_finish h.fits hstarted
  have hphase := hdecided.phase
  split at hs
  · cases hs
    exact h.same ⟨rfl, rfl, rfl, rfl, rfl⟩ (fits_of_decided ⟨hdecided.ready, .inl rfl⟩ hpc)
  · rename_i hf
    rw [hf] at hphase
    cases hs
    split
    · exact h.same ⟨rfl, rfl, rfl, rfl, rfl⟩ (fits_of_decided ⟨hdecided.ready, hphase⟩ hpc)
    · exact h.same ⟨rfl, rfl, rfl, rfl, rfl⟩ (fits_of_decided ⟨hdecided.ready, hphase⟩ hpc)
  · rename_i hf
    rw [hf] at hphase
    cases hs
    cases ok
    · exact h.same ⟨rfl, rfl, rfl, rfl, rfl⟩ (fits_of_decided ⟨hdecided.ready, hphase⟩ hpc)
    · exact h.same ⟨rfl, rfl, rfl, rfl, rfl⟩ (fits_of_decided ⟨hdecided.ready, hphase⟩ hpc)
  · cases hs
    exact h.same ⟨rfl, rfl, rfl, rfl, rfl⟩ (fits_of_decided ⟨hdecided.ready, .inr rfl⟩ hpc)
  · cases hs

/-- A step of the startup that keeps what it holds. -/
theorem Inv.goto (h : Inv s) {pc : Pc} (hheld : pc.held = s.startup.held)
    (hfits : Fits { s with startup := pc }) : Inv { s with startup := pc } where
  fits := hfits
  factory := h.factory
  resources := by
    show (pc.held ++ s.published ++ s.discarded).Perm (List.range s.next)
    rw [hheld]
    exact h.resources

/-- The same when only `Pending` is asked for. -/
theorem Inv.pending (h : Inv s) {pc : Pc} (hp : Pending s) (hheld : pc.held = s.startup.held)
    (hpc : ∀ t : State, t.startup = pc → Pending t → Fits t) : Inv { s with startup := pc } :=
  h.goto hheld (hpc _ rfl ⟨hp.phase, hp.ready, hp.finish, hp.bound⟩)

theorem inv_initCheck (h : Inv s) (hpc : s.startup = .initCheck) : Inv s.initCheck := by
  have hres := h.resources
  have hfits := h.fits
  rw [Fits, hpc] at hfits
  rw [hpc] at hres
  unfold State.initCheck
  split
  · rename_i hphase
    dsimp only
    split
    · -- a shutdown came first
      rename_i hstopping
      refine ⟨?_, h.factory, hres⟩
      rcases hfits with ⟨hp, -⟩ | hd
      · exact ⟨rfl, hp.decided_stop.phase⟩
      · exact ⟨rfl, (hd.stop_of_stopping hstopping).phase⟩
    · -- the server has been running already
      rename_i hstopping
      refine ⟨?_, h.factory, hres⟩
      rcases hfits with ⟨hp, -⟩ | hd
      · exact absurd (hp.phase.resolve_left hphase) hstopping
      · exact ⟨hd.ready, hd.phase⟩
  · rename_i hphase
    rw [not_not] at hphase
    refine ⟨?_, h.factory, hres⟩
    rcases hfits with ⟨hp, hcalls⟩ | hd
    · exact ⟨⟨hp.phase, hp.ready, hp.finish, hp.bound⟩, hcalls⟩
    · have hd := hd.phase
      cases hf : s.finish <;> simp [hf, hphase] at hd

theorem inv_discard (h : Inv s) {pool : Nat} {bound : List Nat} {pc : Pc}
    (hheld : s.startup.held = pool :: bound) (hpc : pc.held = [])
    (hfits : Fits { s.discardStartupResources pool bound with startup := pc }) :
    Inv { s.discardStartupResources pool bound with startup := pc } where
  fits := hfits
  factory := h.factory
  resources := by
    have hres := h.resources
    rw [hheld] at hres
    show (pc.held ++ s.published ++ (s.discarded ++ pool :: bound)).Perm (List.range s.next)
    rw [hpc]
    refine List.Perm.trans ?_ hres
    rw [List.nil_append, ← List.append_assoc, List.append_assoc (pool :: bound)]
    exact List.perm_append_comm

theorem inv_advance (h : Inv s) (hs : advance s = some s') : Inv s' := by
  have hfits := h.fits
  unfold advance at hs
  split at hs
  · rename_i hpc
    rw [Fits, hpc] at hfits
    cases hs
    refine h.goto (by rw [hpc]; rfl) (.inl ⟨?_, hfits.2⟩)
    exact ⟨hfits.1.phase, hfits.1.ready, hfits.1.finish, hfits.1.bound⟩
  · rename_i hpc
    cases hs
    exact inv_initCheck h hpc
  · rename_i pool bound hpc
    rw [Fits, hpc] at hfits
    cases hs
    split
    · exact h.pending hfits (by rw [hpc]; rfl) fun t ht hp => by rw [Fits, ht]; exact hp
    · exact h.pending hfits (by rw [hpc]; rfl) fun t ht hp => by rw [Fits, ht]; exact hp
  · rename_i pool bound e hpc
    rw [Fits, hpc] at hfits
    cases hs
    exact inv_discard h (by rw [hpc]; rfl) rfl
      ⟨hfits.phase, hfits.ready, hfits.finish, hfits.bound⟩
  · rename_i pool bound hpc
    rw [Fits, hpc] at hfits
    cases hs
    exact inv_discard h (by rw [hpc]; rfl) rfl
      ⟨⟨hfits.1.phase, hfits.1.ready, hfits.1.finish, hfits.1.bound⟩, hfits.2⟩
  · rename_i hpc
    rw [Fits, hpc] at hfits
    cases hs
    refine ⟨⟨rfl, hfits.1.decided_stop.phase⟩, h.factory, ?_⟩
    have hres := h.resources
    rw [hpc] at hres
    exact hres
  · rename_i e hpc
    rw [Fits, hpc] at hfits
    cases hs
    refine ⟨⟨rfl, hfits.ready, hfits.finish, hfits.bound⟩, h.factory, ?_⟩
    have hres := h.resources
    rw [hpc] at hres
    exact hres
  · rename_i hpc
    rw [Fits, hpc] at hfits
    cases hs
    refine ⟨⟨hfits.1, rfl, hfits.2.2.1⟩, h.factory, ?_⟩
    have hres := h.resources
    rw [hpc] at hres
    exact hres
  · rename_i hpc
    rw [Fits, hpc] at hfits
    cases hs
    refine ⟨⟨hfits.2.1, ?_⟩, h.factory, ?_⟩
    · have hfinish := hfits.2.2
      dsimp only
      rw [hfinish]
      exact .inr hfits.1
    · have hres := h.resources
      rw [hpc] at hres
      exact hres
  · rename_i hpc
    rw [Fits, hpc] at hfits
    split at hs
    · cases hs
      exact h.goto (by rw [hpc]; rfl) ⟨hfits.ready, hfits.phase⟩
    · cases hs
  · cases hs

/-- A resource is made: it gets the next number, and startup holds it. -/
theorem perm_made {held held' published discarded : List Nat} {n : Nat}
    (h : (held ++ published ++ discarded).Perm (List.range n)) (hheld : held'.Perm (n :: held)) :
    (held' ++ published ++ discarded).Perm (List.range (n + 1)) := by
  rw [List.range_succ, List.append_assoc]
  rw [List.append_assoc] at h
  refine List.Perm.trans (List.Perm.append_right _ hheld) ?_
  refine List.Perm.trans (List.Perm.cons n h) ?_
  exact (List.perm_append_singleton n _).symm

theorem inv_poolFactory {ok : Bool} (h : Inv s)
    (hs : step listeners s (.poolFactory ok) = some s') : Inv s' := by
  simp only [step] at hs
  split at hs
  · rename_i hpc
    have hfits := h.fits
    have hres := h.resources
    rw [Fits, hpc] at hfits
    rw [hpc] at hres
    obtain ⟨hp, hcalls⟩ := hfits
    have hpending : ∀ t : State, t.phase = s.phase → t.ready = s.ready → t.finish = s.finish →
        t.bound = s.bound → Pending t := fun t h₁ h₂ h₃ h₄ =>
      ⟨h₁ ▸ hp.phase, h₂ ▸ hp.ready, h₃ ▸ hp.finish, h₄ ▸ hp.bound⟩
    split at hs
    · cases hs
      exact ⟨hpending _ rfl rfl rfl rfl, by simp [hcalls], perm_made hres (.refl _)⟩
    · cases hs
      exact ⟨hpending _ rfl rfl rfl rfl, by simp [hcalls], hres⟩
  · cases hs

theorem inv_bindListener {ok : Bool} (h : Inv s)
    (hs : step listeners s (.bindListener ok) = some s') : Inv s' := by
  simp only [step] at hs
  split at hs
  · rename_i pool bound l rest hpc
    have hp := h.fits
    have hres := h.resources
    rw [Fits, hpc] at hp
    rw [hpc] at hres
    split at hs
    · cases hs
      refine ⟨⟨hp.phase, hp.ready, hp.finish, hp.bound⟩, h.factory, perm_made hres ?_⟩
      show (pool :: (bound ++ [s.next])).Perm (s.next :: pool :: bound)
      exact List.perm_append_singleton s.next (pool :: bound)
    · split at hs
      · cases hs
        exact ⟨⟨hp.phase, hp.ready, hp.finish, hp.bound⟩, h.factory, hres⟩
      · cases hs
        exact ⟨⟨hp.phase, hp.ready, hp.finish, hp.bound⟩, h.factory, hres⟩
  · cases hs

theorem inv_publish {pool : Nat} {bound : List Nat} (h : Inv s)
    (hpc : s.startup = .publish pool bound) : Inv (s.publish pool bound true) := by
  have hp := h.fits
  have hres := h.resources
  rw [Fits, hpc] at hp
  rw [hpc] at hres
  unfold State.publish
  split
  · rename_i hphase
    have hstopping := hp.phase.resolve_left hphase
    exact ⟨⟨⟨hp.phase, hp.ready, hp.finish, hp.bound⟩, hstopping⟩, h.factory, hres⟩
  · refine ⟨⟨rfl, ?_⟩, h.factory, ?_⟩
    · have hfinish := hp.finish
      dsimp only
      rw [hfinish]
      exact .inl rfl
    · show ([] ++ (s.published ++ pool :: bound) ++ s.discarded).Perm (List.range s.next)
      refine List.Perm.trans ?_ hres
      rw [List.nil_append]
      exact List.Perm.append_right _ List.perm_append_comm

/-- **One step.**  With all threads starting, every step keeps the invariant. -/
theorem inv_step {l : Label} (h : Inv s) (hcond : ThreadsStart s l = true)
    (hs : step listeners s l = some s') : Inv s' := by
  cases l with
  | start ok =>
    cases hs
    rw [show ok = true from hcond]
    exact inv_start h
  | startReturns i =>
    obtain ⟨c, -, hs⟩ := Option.bind_eq_some_iff.mp hs
    split at hs
    · cases hs
      exact h.waiters _
    · cases hs
  | serveForever t => exact inv_serveForever h hs
  | advance => exact inv_advance h hs
  | poolFactory ok => exact inv_poolFactory h hs
  | bindListener ok => exact inv_bindListener h hs
  | publish ok =>
    simp only [step] at hs
    split at hs
    · rename_i pool bound hpc
      cases hs
      rw [show ok = true from hcond]
      exact inv_publish h hpc
    · cases hs
  | closeBound ok =>
    simp only [step] at hs
    split at hs
    · rename_i hpc
      have hfits := h.fits
      have hres := h.resources
      rw [Fits, hpc] at hfits
      rw [hpc] at hres
      split at hs
      · cases hs
        exact ⟨⟨hfits.1, hfits.2.1, hfits.2.2.1, rfl⟩, h.factory, hres⟩
      · rw [if_neg (not_not.mpr hfits.2.2.2)] at hs
        cases hs
    · cases hs
  | interrupt =>
    simp only [step] at hs
    split at hs
    · rename_i hpc
      have hfits := h.fits
      rw [Fits, hpc] at hfits
      cases hs
      exact h.goto (by rw [hpc]; rfl) ⟨hfits.ready, hfits.phase⟩
    · cases hs
  | shutdown ok =>
    cases hs
    rw [show ok = true from hcond]
    exact h.same (sameStartup_shutdown true) (fits_shutdown h.fits)
  | finish ok => exact inv_finishStep h hs

/-! ## The direction of the state -/

/-- What one step does to the state and to what is published. -/
structure Forward (s s' : State) : Prop where
  phase : s.phase.rank ≤ s'.phase.rank
  published : s'.published ≠ s.published ↔ s.phase ≠ .running ∧ s'.phase = .running

theorem forward_of_same (hphase : s'.phase = s.phase) (hpub : s'.published = s.published) :
    Forward s s' := by
  refine ⟨Nat.le_of_eq (by rw [hphase]), ?_⟩
  rw [hphase, hpub]
  simp

/-- A step to a later state other than `RUNNING`, with nothing published. -/
theorem forward_to (hrank : s.phase.rank ≤ s'.phase.rank) (hnot : s'.phase ≠ .running)
    (hpub : s'.published = s.published) : Forward s s' := by
  refine ⟨hrank, ?_⟩
  rw [hpub]
  simp [hnot]

theorem rank_le_stopped (p : ServerState) : p.rank ≤ ServerState.stopped.rank := by
  cases p <;> decide

/-- Where `shutdown` takes each state. -/
def ServerState.afterShutdown : ServerState → ServerState
  | .created => .stopped
  | .starting => .stopping
  | .running => .draining
  | p => p

theorem shutdown_phase (ok : Bool) : (s.shutdown ok).phase = s.phase.afterShutdown := by
  unfold State.shutdown
  cases hphase : s.phase with
  | stopped => exact hphase
  | created => rfl
  | starting => rfl
  | running => simp only [reduceCtorEq, false_and, if_false, if_true]; split <;> rfl
  | draining =>
    simp only [reduceCtorEq, false_and, if_false]
    split <;> exact hphase
  | stopping =>
    simp only [reduceCtorEq, true_and, if_false]
    split
    · exact hphase
    · split <;> exact hphase

theorem forward_shutdown (ok : Bool) : Forward s (s.shutdown ok) := by
  refine forward_to ?_ ?_ (sameStartup_shutdown ok).published
  · rw [shutdown_phase]
    cases s.phase <;> decide
  · rw [shutdown_phase]
    cases s.phase <;> decide

theorem forward_start (ok : Bool) : Forward s (s.start ok) := by
  unfold State.start
  split
  · exact forward_of_same rfl rfl
  · split
    · exact forward_of_same rfl rfl
    · rename_i hphase
      rw [not_not] at hphase
      split
      · exact forward_to (by rw [hphase]; simp [ServerState.rank]) (by simp) rfl
      · exact forward_to (rank_le_stopped _) (by simp [State.stop]) rfl

theorem forward_serveForever {t : Nat} (hs : s.serveForever t = some s') : Forward s s' := by
  unfold State.serveForever at hs
  split at hs
  · split at hs
    · rename_i hphase
      cases hs
      exact forward_to (by rw [hphase]; simp [ServerState.rank]) (by simp) rfl
    · cases hs
      exact forward_of_same rfl rfl
  · split at hs
    · split at hs
      · cases hs
        exact forward_of_same rfl rfl
      · cases hs
    · cases hs
      exact forward_of_same rfl rfl

theorem forward_initCheck : Forward s s.initCheck := by
  unfold State.initCheck
  split
  · dsimp only
    split
    · exact forward_to (rank_le_stopped _) (by simp [State.stop]) rfl
    · exact forward_of_same rfl rfl
  · exact forward_of_same rfl rfl

theorem forward_advance (hs : advance s = some s') : Forward s s' := by
  unfold advance at hs
  split at hs
  · cases hs
    exact forward_of_same rfl rfl
  · cases hs
    exact forward_initCheck
  · cases hs
    exact forward_of_same rfl rfl
  · cases hs
    exact forward_of_same rfl rfl
  · cases hs
    exact forward_of_same rfl rfl
  · cases hs
    exact forward_to (rank_le_stopped _) (by simp [State.stop]) rfl
  · cases hs
    exact forward_to (rank_le_stopped _) (by simp) rfl
  · cases hs
    exact forward_of_same rfl rfl
  · cases hs
    exact forward_of_same rfl rfl
  · split at hs
    · cases hs
      exact forward_of_same rfl rfl
    · cases hs
  · cases hs

theorem forward_publish (pool : Nat) (bound : List Nat) (ok : Bool) :
    Forward s (s.publish pool bound ok) := by
  unfold State.publish
  split
  · exact forward_of_same rfl rfl
  · rename_i hphase
    rw [not_not] at hphase
    dsimp only
    split
    · refine ⟨by rw [hphase]; simp [ServerState.rank], ?_⟩
      simp [hphase]
    · refine ⟨by rw [hphase]; simp [ServerState.rank], ?_⟩
      simp [hphase]

/-- The shutdown thread leaves `DRAINING` only from there. -/
theorem forward_finishStep {ok : Bool} (h : Inv s) (hs : finishStep s ok = some s') :
    Forward s s' := by
  unfold finishStep at hs
  split at hs
  · rename_i hf
    obtain ⟨hdecided, -⟩ := decided_of_finish h.fits (by rw [hf]; simp)
    have hphase := hdecided.phase
    rw [hf] at hphase
    cases hs
    exact forward_to (by rw [hphase]; simp [ServerState.rank]) (by simp) rfl
  · cases hs
    split
    · exact forward_of_same rfl rfl
    · exact forward_of_same rfl rfl
  · cases hs
    exact forward_of_same rfl rfl
  · cases hs
    exact forward_to (rank_le_stopped _) (by simp) rfl
  · cases hs

theorem forward_step {l : Label} (h : Inv s) (hs : step listeners s l = some s') :
    Forward s s' := by
  cases l with
  | start ok =>
    cases hs
    exact forward_start ok
  | startReturns i =>
    obtain ⟨c, -, hs⟩ := Option.bind_eq_some_iff.mp hs
    split at hs
    · cases hs
      exact forward_of_same rfl rfl
    · cases hs
  | serveForever t => exact forward_serveForever hs
  | advance => exact forward_advance hs
  | poolFactory ok =>
    simp only [step] at hs
    split at hs
    · split at hs <;> cases hs <;> exact forward_of_same rfl rfl
    · cases hs
  | bindListener ok =>
    simp only [step] at hs
    split at hs
    · split at hs
      · cases hs
        exact forward_of_same rfl rfl
      · split at hs <;> cases hs <;> exact forward_of_same rfl rfl
    · cases hs
  | publish ok =>
    simp only [step] at hs
    split at hs
    · cases hs
      exact forward_publish _ _ ok
    · cases hs
  | closeBound ok =>
    simp only [step] at hs
    split at hs
    · split at hs
      · cases hs
        exact forward_of_same rfl rfl
      · split at hs <;> cases hs
        exact forward_of_same rfl rfl
    · cases hs
  | interrupt =>
    simp only [step] at hs
    split at hs <;> cases hs
    exact forward_of_same rfl rfl
  | shutdown ok =>
    cases hs
    exact forward_shutdown ok
  | finish ok => exact forward_finishStep h hs

end Steps

/-! ## The theorem -/

/-- When startup is over, everybody who waits for it is released. -/
theorem ready_of_over {s : State} (h : Inv s) (hover : s.startup.over = true)
    (hphase : s.phase ≠ .created) : s.ready = true := by
  have hfits := h.fits
  unfold Fits at hfits
  cases hpc : s.startup <;> rw [hpc] at hover hfits <;> try cases hover
  · exact (hfits.2.2.resolve_left fun hc => hphase hc.1).2
  · exact hfits.2.1
  · exact hfits.ready
  · exact hfits.ready

/-- **The startup of a server.**  In every run of `start`, `serve_forever` and `shutdown` calls from
any threads in which all threads start:
* `pool_factory` is called at most once;
* every pool and listener that startup made is published or passed to the discard, at most once in
  all, and exactly once when startup does not hold it any more;
* when no startup step is left, `ready` is set;
* every step moves the state forward, and publishes exactly when it moves it to `RUNNING`. -/
theorem startup_lifecycle (listeners : List Listener) {s : State}
    (h : (system listeners).Reach (fun s l => ThreadsStart s l = true) s) :
    s.factoryCalls ≤ 1 ∧
    (∀ r < s.next, s.published.count r + s.discarded.count r ≤ 1 ∧
      (r ∉ s.startup.held → s.published.count r + s.discarded.count r = 1)) ∧
    (s.startup.over = true → s.phase ≠ .created → s.ready = true) ∧
    ∀ l s', ThreadsStart s l = true → step listeners s l = some s' →
      s.phase.rank ≤ s'.phase.rank ∧
        (s'.published ≠ s.published ↔ s.phase ≠ .running ∧ s'.phase = .running) := by
  have hinv : Inv s := h.invariant inv_init fun _ _ _ _ hi hc hs => inv_step hi hc hs
  refine ⟨hinv.factory, fun r hr => ?_, ready_of_over hinv, fun l s' _ hs => ?_⟩
  · have hcount := hinv.resources.count_eq r
    rw [List.count_append, List.count_append,
      List.count_eq_one_of_mem List.nodup_range (List.mem_range.mpr hr)] at hcount
    refine ⟨by omega, fun hnot => ?_⟩
    rw [List.count_eq_zero_of_not_mem hnot] at hcount
    omega
  · have hforward := forward_step hinv hs
    exact ⟨hforward.phase, hforward.published⟩

/-- A shutdown falls between the two checks: the pool and the listener are discarded. -/
def stoppedWhileStarting : List Label :=
  [.start true, .advance, .advance, .poolFactory true, .bindListener true, .advance,
   .shutdown true, .publish true, .advance, .advance, .advance, .startReturns 0]

theorem startup_lifecycle_stoppedWhileStarting :
    ∃ s, (system [⟨false⟩]).runWhile ThreadsStart init stoppedWhileStarting = some s ∧
      s.phase = .stopped ∧ s.ready = true ∧ s.published.count 0 + s.discarded.count 0 = 1 := by
  obtain ⟨s, hs, hfields⟩ := Option.map_eq_some_iff.mp
    (show ((system [⟨false⟩]).runWhile ThreadsStart init stoppedWhileStarting).map
      (fun s => (s.phase, s.startup, s.next)) = some (.stopped, .ended, 2) by decide +kernel)
  simp only [Prod.mk.injEq] at hfields
  obtain ⟨hphase, hpc, hnext⟩ := hfields
  obtain ⟨-, hres, hready, -⟩ :=
    startup_lifecycle [⟨false⟩] (Lts.System.Reach.of_runWhile .init _ hs)
  refine ⟨s, hs, hphase, hready (by rw [hpc]; rfl) (by rw [hphase]; decide), ?_⟩
  exact (hres 0 (by omega)).2 (by rw [hpc]; simp [Pc.held])

end Deadpool.Remote.Startup
