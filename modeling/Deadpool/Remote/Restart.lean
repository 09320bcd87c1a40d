import Deadpool.Remote.Startup
import Mathlib.Data.List.Induction

/-!
# Starting a server that has stopped

`start` tests the state only when nobody serves yet; every later call goes straight to
`wait_ready`.  `ready`, `_startup_error` and `_pool` keep their values when the server stops.

Principal results:

* `start_after_stop`   — what a `start` call gives, when none begins after a server that ran has stopped;
* `start_ready_again`  — what it gives when one does.
-/

set_option autoImplicit false

namespace Deadpool.Remote.Startup

open Deadpool.Lts

/-! ## The steps, once more -/

/-- What every step leaves alone, whether threads start or not. -/
structure Passes (s s' : State) : Prop where
  phase : s.phase ≠ .created → s.phase ≠ .starting → s'.phase ≠ .created ∧ s'.phase ≠ .starting
  pool : s.phase ≠ .starting → s'.pool = s.pool
  ran : s'.pool ≠ none → s.pool ≠ none ∨ s'.phase = .running
  error : s.startupError ≠ none → s'.startupError ≠ none
  created : s'.phase = .created → s.phase = .created

section Steps

variable {listeners : List Listener} {s s' : State}

/-- A step that assigns neither the state nor the pool. -/
theorem Passes.same (hphase : s'.phase = s.phase) (hpool : s'.pool = s.pool)
    (herror : s'.startupError = s.startupError) : Passes s s' :=
  ⟨fun hc hs => by rw [hphase]; exact ⟨hc, hs⟩, fun _ => hpool, fun h => .inl (hpool ▸ h),
    fun h => herror ▸ h, fun h => hphase ▸ h⟩

/-- A step to a state in which the server does not start any more. -/
theorem Passes.to (hcreated : s'.phase ≠ .created) (hstarting : s'.phase ≠ .starting)
    (hpool : s'.pool = s.pool) (herror : s.startupError ≠ none → s'.startupError ≠ none) :
    Passes s s' :=
  ⟨fun _ _ => ⟨hcreated, hstarting⟩, fun _ => hpool, fun h => .inl (hpool ▸ h), herror,
    fun h => absurd h hcreated⟩

/-- The step that begins to start the server. -/
theorem Passes.begin (hphase : s.phase = .created) (hpool : s'.pool = s.pool)
    (herror : s'.startupError = s.startupError) : Passes s s' :=
  ⟨fun hc => absurd hphase hc, fun _ => hpool, fun h => .inl (hpool ▸ h), fun h => herror ▸ h,
    fun _ => hphase⟩

theorem passes_start (ok : Bool) : Passes s (s.start ok) := by
  unfold State.start
  split
  · exact .same rfl rfl rfl
  · split
    · exact .same rfl rfl rfl
    · rename_i hphase
      rw [not_not] at hphase
      split
      · exact .begin hphase rfl rfl
      · exact .to (by simp [State.stop]) (by simp [State.stop]) rfl (by simp)

theorem passes_serveForever {t : Nat} (hs : s.serveForever t = some s') : Passes s s' := by
  unfold State.serveForever at hs
  split at hs
  · split at hs
    · rename_i hphase
      cases hs
      exact .begin hphase rfl rfl
    · cases hs
      exact .same rfl rfl rfl
  · split at hs
    · split at hs
      · cases hs
        exact .same rfl rfl rfl
      · cases hs
    · cases hs
      exact .same rfl rfl rfl

theorem passes_advance (hs : advance s = some s') : Passes s s' := by
  unfold advance at hs
  split at hs
  case h_2 =>
    cases hs
    unfold State.initCheck
    split
    · dsimp only
      split
      · exact .to (by simp [State.stop]) (by simp [State.stop]) rfl id
      · exact .same rfl rfl rfl
    · exact .same rfl rfl rfl
  case h_6 =>
    cases hs
    exact .to (by simp [State.stop]) (by simp [State.stop]) rfl id
  case h_7 =>
    cases hs
    exact .to (by simp) (by simp) rfl (by simp)
  case h_10 =>
    split at hs
    · cases hs
      exact .same rfl rfl rfl
    · cases hs
  case h_11 => cases hs
  all_goals
    cases hs
    exact .same rfl rfl rfl

theorem passes_publish (pool : Nat) (bound : List Nat) (ok : Bool) :
    Passes s (s.publish pool bound ok) := by
  unfold State.publish
  split
  · exact .same rfl rfl rfl
  · rename_i hphase
    rw [not_not] at hphase
    dsimp only
    split
    · exact ⟨fun _ hs => absurd hphase hs, fun hs => absurd hphase hs, fun _ => .inr rfl, id,
        fun h => by cases h⟩
    · exact ⟨fun _ hs => absurd hphase hs, fun hs => absurd hphase hs, fun _ => .inr rfl, id,
        fun h => by cases h⟩

/-- What a shutdown does not touch. -/
structure Stands (s s' : State) : Prop where
  thread : s'.serveThread = s.serveThread
  startup : s'.startup = s.startup
  starts : s'.starts = s.starts
  error : s'.startupError = s.startupError
  pool : s'.pool = s.pool

theorem stands_shutdown (ok : Bool) : Stands s (s.shutdown ok) := by
  unfold State.shutdown
  split
  · exact ⟨rfl, rfl, rfl, rfl, rfl⟩
  · exact ⟨rfl, rfl, rfl, rfl, rfl⟩
  · exact ⟨rfl, rfl, rfl, rfl, rfl⟩
  · split
    · exact ⟨rfl, rfl, rfl, rfl, rfl⟩
    · dsimp only
      split <;> split <;> exact ⟨rfl, rfl, rfl, rfl, rfl⟩

theorem stands_finishStep {ok : Bool} (hs : finishStep s ok = some s') : Stands s s' := by
  unfold finishStep at hs
  split at hs
  · cases hs
    exact ⟨rfl, rfl, rfl, rfl, rfl⟩
  · cases hs
    split <;> exact ⟨rfl, rfl, rfl, rfl, rfl⟩
  · cases hs
    exact ⟨rfl, rfl, rfl, rfl, rfl⟩
  · cases hs
    exact ⟨rfl, rfl, rfl, rfl, rfl⟩
  · cases hs

theorem passes_shutdown (ok : Bool) : Passes s (s.shutdown ok) := by
  have hstands : Stands s (s.shutdown ok) := stands_shutdown ok
  refine .to ?_ ?_ hstands.pool fun h => hstands.error ▸ h
  · rw [shutdown_phase]
    cases s.phase <;> decide
  · rw [shutdown_phase]
    cases s.phase <;> decide

theorem passes_finishStep {ok : Bool} (hs : finishStep s ok = some s') : Passes s s' := by
  unfold finishStep at hs
  split at hs
  · cases hs
    exact .to (by simp) (by simp) rfl id
  · cases hs
    split <;> exact .same rfl rfl rfl
  · cases hs
    exact .same rfl rfl rfl
  · cases hs
    exact .to (by simp) (by simp) rfl id
  · cases hs

theorem passes_step {l : Label} (hs : step listeners s l = some s') : Passes s s' := by
  cases l with
  | start ok =>
    cases hs
    exact passes_start ok
  | startReturns i =>
    obtain ⟨c, -, hs⟩ := Option.bind_eq_some_iff.mp hs
    split at hs
    · cases hs
      exact .same rfl rfl rfl
    · cases hs
  | serveForever t => exact passes_serveForever hs
  | advance => exact passes_advance hs
  | poolFactory ok =>
    simp only [step] at hs
    split at hs
    · split at hs <;> cases hs <;> exact .same rfl rfl rfl
    · cases hs
  | bindListener ok =>
    simp only [step] at hs
    split at hs
    · split at hs
      · cases hs
        exact .same rfl rfl rfl
      · split at hs <;> cases hs <;> exact .same rfl rfl rfl
    · cases hs
  | publish ok =>
    simp only [step] at hs
    split at hs
    · cases hs
      exact passes_publish _ _ ok
    · cases hs
  | closeBound ok =>
    simp only [step] at hs
    split at hs
    · split at hs
      · cases hs
        exact .same rfl rfl rfl
      · split at hs <;> cases hs
        exact .same rfl rfl rfl
    · cases hs
  | interrupt =>
    simp only [step] at hs
    split at hs <;> cases hs
    exact .same rfl rfl rfl
  | shutdown ok =>
    cases hs
    exact passes_shutdown ok
  | finish ok => exact passes_finishStep hs

end Steps

/-! ## Who serves -/

/-- Until a thread serves, nothing has been started, and no `start` call waits. -/
structure Served (s : State) : Prop where
  created : s.phase = .created → s.serveThread = none
  startup : s.serveThread = none → s.startup = .idle
  error : s.serveThread = none → s.startupError = none
  pool : s.serveThread = none → s.pool = none
  starts : s.serveThread = none → ∀ c ∈ s.starts, c.outcome ≠ none

theorem served_init : Served init :=
  ⟨fun _ => rfl, fun _ => rfl, fun _ => rfl, fun _ => rfl, fun _ c hc => by cases hc⟩

section Serving

variable {listeners : List Listener} {s s' : State}

/-- Where a thread serves, no step undoes it. -/
theorem Served.of_some (hthread : s'.serveThread ≠ none) (hphase : s'.phase ≠ .created) : Served s' :=
  ⟨fun h => absurd h hphase, fun h => absurd h hthread, fun h => absurd h hthread,
    fun h => absurd h hthread, fun h => absurd h hthread⟩

theorem Served.busy (h : Served s) (hbusy : s.startup ≠ .idle) (hthread : s'.serveThread = s.serveThread)
    (hpasses : Passes s s') : Served s' := by
  have hserved : s.serveThread ≠ none := fun hnone => hbusy (h.startup hnone)
  refine .of_some (hthread ▸ hserved) fun hcreated => ?_
  exact hserved (h.created (hpasses.created hcreated))

theorem served_start (h : Served s) (ok : Bool) : Served (s.start ok) := by
  unfold State.start
  split
  · rename_i t ht
    refine .of_some (by simp [ht]) fun hphase => ?_
    have hnone := h.created hphase
    rw [ht] at hnone
    cases hnone
  · rename_i ht
    split
    · rename_i hphase
      refine ⟨fun _ => ht, h.startup, h.error, h.pool, fun _ c hc => ?_⟩
      rcases List.mem_append.mp hc with hc | hc
      · exact h.starts ht c hc
      · rw [List.mem_singleton.mp hc]
        simp
    · split
      · exact .of_some (by simp) (by simp)
      · exact .of_some (by simp) (by simp [State.stop])

theorem served_serveForever (h : Served s) {t : Nat} (hs : s.serveForever t = some s') : Served s' := by
  unfold State.serveForever at hs
  split at hs
  · split at hs
    · cases hs
      exact .of_some (by simp) (by simp)
    · cases hs
      exact h
  · rename_i u hu
    have hphase : s.phase ≠ .created := fun hphase => by
      have hnone := h.created hphase
      rw [hu] at hnone
      cases hnone
    split at hs
    · split at hs
      · cases hs
        exact .of_some (by simp [hu]) hphase
      · cases hs
    · cases hs
      exact h

theorem thread_advance (hs : advance s = some s') :
    s.startup ≠ .idle ∧ s'.serveThread = s.serveThread := by
  unfold advance at hs
  split at hs
  case h_2 hpc =>
    cases hs
    refine ⟨by simp [hpc], ?_⟩
    unfold State.initCheck
    split
    · dsimp only
      split <;> rfl
    · rfl
  case h_10 hpc =>
    split at hs
    · cases hs
      exact ⟨by simp [hpc], rfl⟩
    · cases hs
  case h_11 => cases hs
  all_goals
    rename_i hpc
    cases hs
    exact ⟨by simp [hpc], rfl⟩

theorem Served.stands (h : Served s) (hstands : Stands s s') (hpasses : Passes s s') : Served s' := by
  refine ⟨fun hphase => ?_, ?_, ?_, ?_, ?_⟩
  · rw [hstands.thread]
    exact h.created (hpasses.created hphase)
  · rw [hstands.thread, hstands.startup]
    exact h.startup
  · rw [hstands.thread, hstands.error]
    exact h.error
  · rw [hstands.thread, hstands.pool]
    exact h.pool
  · rw [hstands.thread, hstands.starts]
    exact h.starts

theorem served_step {l : Label} (h : Served s) (hs : step listeners s l = some s') : Served s' := by
  have hpasses := passes_step hs
  cases l with
  | start ok =>
    cases hs
    exact served_start h ok
  | startReturns i =>
    obtain ⟨c, -, hs⟩ := Option.bind_eq_some_iff.mp hs
    split at hs
    · cases hs
      refine ⟨h.created, h.startup, h.error, h.pool, fun hnone c' hc' => ?_⟩
      rcases List.mem_or_eq_of_mem_set hc' with hold | rfl
      · exact h.starts hnone c' hold
      · simp
    · cases hs
  | serveForever t => exact served_serveForever h hs
  | advance => exact h.busy (thread_advance hs).1 (thread_advance hs).2 hpasses
  | poolFactory ok =>
    simp only [step] at hs
    split at hs
    · rename_i hpc
      split at hs <;> cases hs <;> exact h.busy (by simp [hpc]) rfl hpasses
    · cases hs
  | bindListener ok =>
    simp only [step] at hs
    split at hs
    · rename_i hpc
      split at hs
      · cases hs
        exact h.busy (by simp [hpc]) rfl hpasses
      · split at hs <;> cases hs <;> exact h.busy (by simp [hpc]) rfl hpasses
    · cases hs
  | publish ok =>
    simp only [step] at hs
    split at hs
    · rename_i hpc
      cases hs
      refine h.busy (by simp [hpc]) ?_ hpasses
      unfold State.publish
      split
      · rfl
      · dsimp only
        split <;> rfl
    · cases hs
  | closeBound ok =>
    simp only [step] at hs
    split at hs
    · rename_i hpc
      split at hs
      · cases hs
        exact h.busy (by simp [hpc]) rfl hpasses
      · split at hs <;> cases hs
        exact h.busy (by simp [hpc]) rfl hpasses
    · cases hs
  | interrupt =>
    simp only [step] at hs
    split at hs <;> cases hs
    rename_i hpc
    exact h.busy (by simp [hpc]) rfl hpasses
  | shutdown ok =>
    cases hs
    exact h.stands (stands_shutdown ok) hpasses
  | finish ok => exact h.stands (stands_finishStep hs) hpasses

theorem reachable_served {C : State → Label → Prop} (h : (system listeners).Reach C s) : Served s :=
  h.invariant (I := Served) served_init fun _ _ _ _ hi _ hs => served_step hi hs

end Serving

/-! ## The calls of `start` -/

/-- The call `i`, which began in the state `began`, returns in this step. -/
def Returns (s s' : State) (i : Nat) (began : ServerState) (o : Except StartError Unit) : Prop :=
  (∀ c, s.starts[i]? = some c → c.outcome = none) ∧ s'.starts[i]? = some ⟨began, some o⟩

/-- `start` raises: the startup error if there is one, else a `RuntimeError`. -/
def State.Refuses (s : State) : Except StartError Unit → Prop
  | .error (.startup e) => s.startupError = some e
  | .error .notCreated => s.startupError = none
  | .error .neverReady => s.startupError = none
  | .ok () => False

/-- No call of `start` begins after a server that had a pool has stopped. -/
def startInTime (s : State) : Label → Bool
  | .start _ => decide (s.phase ≠ .stopped) || s.pool.isNone || s.startupError.isSome
  | _ => true

/-- What holds while a call is recorded that began after the server had stopped. -/
structure TooLate (s : State) : Prop where
  created : s.phase ≠ .created
  starting : s.phase ≠ .starting
  refused : s.pool = none ∨ s.startupError ≠ none

def Late (s : State) : Prop := ∀ c ∈ s.starts, c.began = .stopped → TooLate s

section Calls

variable {listeners : List Listener} {s s' : State}

theorem TooLate.passes (h : TooLate s) (hpasses : Passes s s') : TooLate s' := by
  obtain ⟨hcreated, hstarting⟩ := hpasses.phase h.created h.starting
  refine ⟨hcreated, hstarting, ?_⟩
  rw [hpasses.pool h.starting]
  exact h.refused.imp_right hpasses.error

/-- The new calls and outcomes of a step. -/
theorem starts_step {l : Label} (hs : step listeners s l = some s') :
    s'.starts = s.starts ∨
      (∃ ok o, l = .start ok ∧ s'.starts = s.starts ++ [⟨s.phase, o⟩] ∧
        ∀ x, o = some x → ∃ e, x = .error e ∧
          (e = .notCreated ∧ s.serveThread = none ∧ s'.startupError = s.startupError ∨
            e = .startup .threadStart ∧ s.phase = .created ∧ s'.startupError = some .threadStart)) ∨
      ∃ i c, s.starts[i]? = some c ∧ c.outcome = none ∧ s'.startupError = s.startupError ∧
        s'.starts = s.starts.set i { c with outcome := some s.waitReady } := by
  cases l with
  | start ok =>
    cases hs
    refine .inr (.inl ⟨ok, ?_⟩)
    unfold State.start
    split
    · exact ⟨none, rfl, rfl, fun x hx => by cases hx⟩
    · rename_i hthread
      split
      · exact ⟨_, rfl, rfl, fun x hx => ⟨.notCreated, (Option.some.inj hx).symm, .inl ⟨rfl, hthread, rfl⟩⟩⟩
      · rename_i hphase
        rw [not_not] at hphase
        split
        · exact ⟨none, rfl, rfl, fun x hx => by cases hx⟩
        · exact ⟨_, rfl, rfl, fun x hx =>
            ⟨.startup .threadStart, (Option.some.inj hx).symm, .inr ⟨rfl, hphase, rfl⟩⟩⟩
  | startReturns i =>
    obtain ⟨c, hc, hs⟩ := Option.bind_eq_some_iff.mp hs
    split at hs
    · rename_i hwaits
      cases hs
      exact .inr (.inr ⟨i, c, hc, Option.isNone_iff_eq_none.mp hwaits.1, rfl, rfl⟩)
    · cases hs
  | serveForever t =>
    left
    simp only [step] at hs
    unfold State.serveForever at hs
    split at hs
    · split at hs <;> cases hs <;> rfl
    · split at hs
      · split at hs <;> cases hs
        rfl
      · cases hs
        rfl
  | advance =>
    left
    simp only [step] at hs
    unfold advance at hs
    split at hs
    case h_2 =>
      cases hs
      unfold State.initCheck
      split
      · dsimp only
        split <;> rfl
      · rfl
    case h_10 =>
      split at hs <;> cases hs
      rfl
    case h_11 => cases hs
    all_goals
      cases hs
      rfl
  | poolFactory ok =>
    left
    simp only [step] at hs
    split at hs
    · split at hs <;> cases hs <;> rfl
    · cases hs
  | bindListener ok =>
    left
    simp only [step] at hs
    split at hs
    · split at hs
      · cases hs
        rfl
      · split at hs <;> cases hs <;> rfl
    · cases hs
  | publish ok =>
    left
    simp only [step] at hs
    split at hs
    · cases hs
      unfold State.publish
      split
      · rfl
      · dsimp only
        split <;> rfl
    · cases hs
  | closeBound ok =>
    left
    simp only [step] at hs
    split at hs
    · split at hs
      · cases hs
        rfl
      · split at hs <;> cases hs
        rfl
    · cases hs
  | interrupt =>
    left
    simp only [step] at hs
    split at hs <;> cases hs
    rfl
  | shutdown ok =>
    cases hs
    exact .inl (stands_shutdown ok).starts
  | finish ok => exact .inl (stands_finishStep hs).starts

theorem late_step {l : Label} (h : Late s) (hcond : startInTime s l = true)
    (hs : step listeners s l = some s') : Late s' := by
  have hpasses := passes_step hs
  intro c hc hbegan
  rcases starts_step hs with hsame | ⟨ok, o, rfl, hadded, -⟩ | ⟨i, c₀, hc₀, -, -, hset⟩
  · exact (h c (hsame ▸ hc) hbegan).passes hpasses
  · rw [hadded] at hc
    rcases List.mem_append.mp hc with hold | hnew
    · exact (h c hold hbegan).passes hpasses
    · have hphase : s.phase = .stopped := by
        rw [List.mem_singleton.mp hnew] at hbegan
        exact hbegan
      refine TooLate.passes ⟨by simp [hphase], by simp [hphase], ?_⟩ hpasses
      simpa [startInTime, hphase, Option.isSome_iff_ne_none] using hcond
  · rw [hset] at hc
    rcases List.mem_or_eq_of_mem_set hc with hold | rfl
    · exact (h c hold hbegan).passes hpasses
    · exact (h c₀ (List.mem_of_getElem? hc₀) hbegan).passes hpasses

/-- A server with a pool has been `RUNNING` in its run. -/
theorem ran_of_pool (listeners : List Listener) {ls : List Label}
    (h : (system listeners).run init ls = some s) (hpool : s.pool ≠ none) :
    ∃ ls₁ u, ls₁ <+: ls ∧ (system listeners).run init ls₁ = some u ∧ u.phase = .running := by
  induction ls using List.reverseRecOn generalizing s with
  | nil =>
    cases h
    exact absurd rfl hpool
  | append_singleton ls l ih =>
    have hrun := h
    rw [System.run_append] at h
    obtain ⟨u, hu, hlast⟩ := Option.bind_eq_some_iff.mp h
    obtain ⟨u', hstep, hu'⟩ := Option.bind_eq_some_iff.mp hlast
    cases hu'
    rcases (passes_step hstep).ran hpool with hbefore | hrunning
    · obtain ⟨ls₁, v, hprefix, hv, hphase⟩ := ih hu hbefore
      exact ⟨ls₁, v, hprefix.trans (List.prefix_append _ _), hv, hphase⟩
    · exact ⟨ls ++ [l], s, List.prefix_rfl, hrun, hrunning⟩

/-- What a call of `start` gives in one step. -/
theorem refuses_step {l : Label} (hserved : Served s) (hlate : Late s) (hcond : startInTime s l = true)
    (hs : step listeners s l = some s') {i : Nat} {began : ServerState} {o : Except StartError Unit}
    (hreturns : Returns s s' i began o) :
    (began = .stopped → s'.Refuses o) ∧ (o = .ok () → began ≠ .stopped ∧ s.pool ≠ none) := by
  obtain ⟨hwaiting, hreturned⟩ := hreturns
  have hmem : (⟨began, some o⟩ : StartCall) ∈ s'.starts := List.mem_of_getElem? hreturned
  have hlate' := late_step hlate hcond hs
  rcases starts_step hs with hsame | ⟨ok, x, rfl, hadded, herror⟩ | ⟨j, c, hc, hnone, hsameError, hset⟩
  · rw [hsame] at hreturned
    cases hwaiting _ hreturned
  · -- the call returns at once, and raises
    have hlast : (⟨began, some o⟩ : StartCall) = ⟨s.phase, x⟩ := by
      rw [hadded] at hreturned
      by_cases hlt : i < s.starts.length
      · rw [List.getElem?_append_left hlt] at hreturned
        cases hwaiting _ hreturned
      · rw [List.getElem?_append_right (by omega)] at hreturned
        exact List.mem_singleton.mp (List.mem_of_getElem? hreturned)
    cases hlast
    obtain ⟨e, rfl, hcase⟩ := herror o rfl
    refine ⟨fun hstopped => ?_, fun hok => by cases hok⟩
    rcases hcase with ⟨rfl, hthread, hsameError⟩ | ⟨rfl, hcreated, hstart⟩
    · exact hsameError.trans (hserved.error hthread)
    · exact hstart
  · -- the call was waiting
    have hcall : (⟨began, some o⟩ : StartCall) = { c with outcome := some s.waitReady } := by
      rw [hset] at hreturned
      by_cases hij : j = i
      · subst hij
        rw [List.getElem?_set_self (List.getElem?_eq_some_iff.mp hc).1] at hreturned
        exact (Option.some.inj hreturned).symm
      · rw [List.getElem?_set_ne hij] at hreturned
        cases hwaiting _ hreturned
    cases hcall
    have hbefore : c.began = .stopped → TooLate s := hlate c (List.mem_of_getElem? hc)
    unfold State.waitReady
    cases herror : s.startupError with
    | some e =>
      refine ⟨fun _ => hsameError.trans herror, fun hok => ?_⟩
      cases hok
    | none =>
      cases hpool : s.pool with
      | none => exact ⟨fun _ => hsameError.trans herror, fun hok => by cases hok⟩
      | some pool =>
        have hnot : c.began ≠ .stopped := fun hbegan => by
          rcases (hbefore hbegan).refused with hpool' | herror'
          · rw [hpool] at hpool'
            cases hpool'
          · exact herror' herror
        exact ⟨fun hbegan => absurd hbegan hnot, fun _ => ⟨hnot, by simp⟩⟩

/-- A call that waits can return as soon as `ready` is set, which it is when startup is over. -/
theorem start_not_stuck (h : (system listeners).Reach (fun s l => ThreadsStart s l = true) s)
    (hover : s.startup.over = true) {i : Nat} {c : StartCall} (hc : s.starts[i]? = some c)
    (hwaits : c.outcome = none) : ∃ s', step listeners s (.startReturns i) = some s' := by
  have hinv : Inv s := h.invariant inv_init fun _ _ _ _ hi hcond hs => inv_step hi hcond hs
  have hserved : Served s := reachable_served h
  have hphase : s.phase ≠ .created := fun hcreated =>
    hserved.starts (hserved.created hcreated) c (List.mem_of_getElem? hc) hwaits
  refine ⟨_, Option.bind_eq_some_iff.mpr ⟨c, hc, if_pos ⟨?_, ready_of_over hinv hover hphase⟩⟩⟩
  rw [hwaits]
  rfl

end Calls

/-- **Starting a stopped server.**  In every history in which no call of `start` begins after a server
that had its pool has stopped: a call that begins when the state is `STOPPED` raises the startup error,
or a `RuntimeError` if there is none, and a call that returns began before that, and the server has
been `RUNNING`.  Where all threads start, no call waits longer than the startup lasts. -/
theorem start_after_stop (listeners : List Listener) {ls : List Label} {s : State}
    (h : (system listeners).runWhile startInTime init ls = some s) :
    (∀ l s' i began o, startInTime s l = true → step listeners s l = some s' → Returns s s' i began o →
      (began = .stopped → s'.Refuses o) ∧
      (o = .ok () → began ≠ .stopped ∧ ∃ ls₁ u, ls₁ <+: ls ∧
        (system listeners).run init ls₁ = some u ∧ u.phase = .running)) ∧
    ((system listeners).Reach (fun s l => ThreadsStart s l = true) s → s.startup.over = true →
      ∀ i c, s.starts[i]? = some c → c.outcome = none →
        ∃ s', step listeners s (.startReturns i) = some s') := by
  have hreach : (system listeners).Reach (fun s l => startInTime s l = true) s :=
    System.Reach.of_runWhile .init ls h
  have hserved : Served s := reachable_served hreach
  have hlate : Late s := hreach.invariant (fun _ hc => by cases hc)
    fun _ _ _ _ hi hcond hs => late_step hi hcond hs
  refine ⟨fun l s' i began o hcond hs hreturns => ?_, fun hthreads hover i c hc hwaits =>
    start_not_stuck hthreads hover hc hwaits⟩
  obtain ⟨hraises, hok⟩ := refuses_step hserved hlate hcond hs hreturns
  refine ⟨hraises, fun ho => ⟨(hok ho).1, ?_⟩⟩
  exact ran_of_pool listeners (System.run_of_runWhile ls h) (hok ho).2

/-- What a call of `start` raised. -/
def StartCall.raised (c : StartCall) : Option StartError :=
  match c.outcome with
  | some (.error e) => some e
  | _ => none

/-- A server whose listener cannot be bound, started once more. -/
def failedTwice : List Label :=
  [.start true, .advance, .advance, .poolFactory true, .bindListener false, .advance, .advance,
   .closeBound true, .advance, .startReturns 0, .start true]

theorem start_after_stop_failedTwice : ∃ s s' : State, s.phase = .stopped ∧
    step [⟨false⟩] s (.startReturns 1) = some s' ∧
      s'.Refuses (.error (.startup .bindListener)) := by
  have hfacts : ((system [⟨false⟩]).runWhile startInTime init failedTwice).bind (fun s =>
      (step [⟨false⟩] s (.startReturns 1)).map fun s' =>
        (s.phase, (s.starts[1]?).map fun c => c.outcome.isNone,
          (s'.starts[1]?).map fun c => (c.began, c.raised))) =
      some (.stopped, some true, some (.stopped, some (.startup .bindListener))) := by
    decide +kernel
  obtain ⟨s, hrun, hfacts⟩ := Option.bind_eq_some_iff.mp hfacts
  obtain ⟨s', hstep, hfacts⟩ := Option.map_eq_some_iff.mp hfacts
  simp only [Prod.mk.injEq] at hfacts
  obtain ⟨hphase, hwaiting, hreturned⟩ := hfacts
  refine ⟨s, s', hphase, hstep, ?_⟩
  have hreturns : Returns s s' 1 .stopped (.error (.startup .bindListener)) := by
    constructor
    · intro c hc
      rw [hc] at hwaiting
      exact Option.isNone_iff_eq_none.mp (Option.some.inj hwaiting)
    · obtain ⟨c, hc, hpair⟩ := Option.map_eq_some_iff.mp hreturned
      rw [hc]
      obtain ⟨hbegan, hraised⟩ := Prod.mk.inj hpair
      cases c with
      | mk began outcome =>
        unfold StartCall.raised at hraised
        split at hraised
        · rename_i e he
          cases hraised
          cases hbegan
          exact congrArg (fun x => some (StartCall.mk .stopped x)) he
        · cases hraised
  exact ((start_after_stop [⟨false⟩] hrun).1 _ s' 1 _ _ rfl hstep hreturns).1 rfl

/-- **The other calls.**  A call of `start` that begins after a server with a pool has stopped returns,
as if the server were up. -/
theorem start_ready_again {listeners : List Listener} {s : State}
    (h : (system listeners).Reachable s) (hphase : s.phase = .stopped) (hready : s.ready = true)
    (hpool : s.pool.isSome = true) (herror : s.startupError = none) (ok : Bool) :
    ∃ s₁ s' i, step listeners s (.start ok) = some s₁ ∧
      step listeners s₁ (.startReturns i) = some s' ∧ Returns s₁ s' i .stopped (.ok ()) := by
  have hserved : s.serveThread ≠ none := fun hnone => by
    rw [(reachable_served h).pool hnone] at hpool
    cases hpool
  obtain ⟨t, ht⟩ := Option.ne_none_iff_exists'.mp hserved
  have hstart : s.start ok = { s with starts := s.starts ++ [⟨.stopped, none⟩] } := by
    unfold State.start
    rw [ht, ← hphase]
  have hlast : (s.start ok).starts[s.starts.length]? = some ⟨.stopped, none⟩ := by
    rw [hstart]
    exact List.getElem?_concat_length
  have hwait : (s.start ok).waitReady = .ok () := by
    rw [hstart]
    unfold State.waitReady
    simp only [herror, hpool, if_true]
  have hset : (s.start ok).ready = true := by
    rw [hstart]
    exact hready
  refine ⟨s.start ok, _, s.starts.length, rfl, Option.bind_eq_some_iff.mpr ⟨_, hlast, if_pos ⟨rfl, hset⟩⟩,
    ?_, ?_⟩
  · intro c hc
    rw [hlast] at hc
    cases hc
    rfl
  · rw [hwait]
    exact List.getElem?_set_self (List.getElem?_eq_some_iff.mp hlast).1

/-- A server that runs and is shut down. -/
def ranOnce : List Label :=
  [.start true, .advance, .advance, .poolFactory true, .bindListener true, .advance, .publish true,
   .startReturns 0, .shutdown true, .finish true, .finish true, .finish true, .finish true]

theorem start_after_stop_returns : ¬ ∀ (listeners : List Listener) (s s' : State) (l : Label) (i : Nat)
    (began : ServerState) (o : Except StartError Unit), (system listeners).Reachable s →
      step listeners s l = some s' → Returns s s' i began o → began = .stopped → s'.Refuses o := by
  intro h
  have hfacts : ((system [⟨false⟩]).run init ranOnce).map (fun s =>
      (s.phase, s.ready, s.pool.isSome, s.startupError)) = some (.stopped, true, true, none) := by
    decide +kernel
  obtain ⟨s, hrun, hfacts⟩ := Option.map_eq_some_iff.mp hfacts
  simp only [Prod.mk.injEq] at hfacts
  obtain ⟨hphase, hready, hpool, herror⟩ := hfacts
  have hreach : (system [⟨false⟩]).Reachable s := System.reachable_of_run hrun
  obtain ⟨s₁, s', i, hstart, hreturn, hreturns⟩ :=
    start_ready_again hreach hphase hready hpool herror true
  have hreach₁ : (system [⟨false⟩]).Reachable s₁ := .step (l := .start true) hreach trivial hstart
  exact h [⟨false⟩] s₁ s' _ i .stopped _ hreach₁ hreturn hreturns rfl

end Deadpool.Remote.Startup
