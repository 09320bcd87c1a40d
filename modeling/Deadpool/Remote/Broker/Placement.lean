import Deadpool.Remote.Broker.Wellformed
import Deadpool.Remote.Plan

/-!
# The broker: where a request waits

An accepted request that has not ended waits in the scheduler, or it is staged: its local future is in
the pool, or in the hands of the dispatcher.  `State.Placed` says so of every request at once, with the
number of stagings whose end has not been processed.

Principal results: `Placed.micro` — every change keeps it.
-/

set_option autoImplicit false

namespace Deadpool.Remote.Broker

open Deadpool.Py

/-- The request has not ended and is not staged. -/
def Request.Waiting (record : Request) : Prop :=
  record.state.terminal = false ∧ record.localFuture = none

/-- The dispatcher has not put the future into the pool. -/
def Dispatcher.before : Dispatcher → Option (Nat × Nat)
  | .staged r f | .full r f | .failed r f _ => some (r, f)
  | _ => none

/-- The dispatcher has put the future into the pool and not attached the callback. -/
def Dispatcher.after : Dispatcher → Option (Nat × Nat)
  | .submitted r f | .calling r f => some (r, f)
  | _ => none

theorem Dispatcher.holds_iff {d : Dispatcher} {f : Nat} :
    d.holds f = true ↔ ∃ r, d.before = some (r, f) ∨ d.after = some (r, f) := by
  cases d <;> simp [Dispatcher.holds, Dispatcher.before, Dispatcher.after, eq_comm]

theorem LocalFuture.watched_of_pending {fut : LocalFuture} (h : fut.pending = true) :
    fut.watched = fut.attached := by
  unfold LocalFuture.watched
  rw [h, Bool.true_or, Bool.and_true]

/-- The number of stagings whose end has not been processed. -/
def State.unendedCount (s : State) : Nat := (List.range s.futures.length).countP s.unended

/-- The scheduler holds the waiting requests, each at its place. -/
def State.Schedules (s : State) (plan : Plan Nat) : Prop :=
  ∀ r p q, plan.Queued r p q ↔ ∃ record : Request, s.records[r]? = some record ∧ record.Waiting ∧
    p = record.priority ∧ q = record.principal

/-- The staging of a request is undone. -/
def State.unstage (s : State) (r : Nat) (scheduler : FairScheduler Nat) : State :=
  { s with
    records := s.records.modify r fun record => { record with localFuture := none }
    scheduler := scheduler
    staged := s.staged - 1
    dispatcher := .idle }

theorem requeue_eq {s : State} {r : Nat} {record : Request} (hr : s.records[r]? = some record) :
    s.requeue r = s.unstage r (if record.state = .acceptedQueued then
      s.scheduler.putFront r record.priority record.principal else s.scheduler) := by
  have hr' : (s.setRecord r fun record => { record with localFuture := none }).records[r]? =
      some { record with localFuture := none } := getElem?_modify_self hr
  unfold State.requeue
  dsimp only
  rw [hr']
  dsimp only
  split <;> rfl

structure State.Placed (cfg : Config) (s : State) : Prop where
  scheduled : ∃ plan, Represents s.scheduler plan ∧ plan.Distinct ∧ s.Schedules plan
  /-- a request that is not in the pool is queued and has its payload -/
  intact : ∀ (r : Nat) (record : Request), s.records[r]? = some record →
    record.state.terminal = false → ¬ s.Submitted record →
    record.state = .acceptedQueued ∧ record.digest = (cfg.sha256 record.payload).text
  before : ∀ r f, s.dispatcher.before = some (r, f) → ∃ (fut : LocalFuture) (record : Request),
    s.futures[f]? = some fut ∧ s.records[r]? = some record ∧ record.localFuture = some f ∧
      fut.submitted = false
  after : ∀ r f, s.dispatcher.after = some (r, f) → ∃ (fut : LocalFuture) (record : Request),
    s.futures[f]? = some fut ∧ s.records[r]? = some record ∧ record.localFuture = some f ∧
      fut.submitted = true ∧ fut.attached = false
  attached : ∀ (f : Nat) (fut : LocalFuture), s.futures[f]? = some fut → fut.attached = true →
    fut.submitted = true ∧ s.dispatcher.holds f = false
  submitted : ∀ (f : Nat) (fut : LocalFuture), s.futures[f]? = some fut → fut.submitted = true →
    ∃ record : Request, s.records[fut.record]? = some record ∧ record.localFuture = some f
  notifying : ∀ (f : Nat) (fut : LocalFuture), s.futures[f]? = some fut → fut.notifying = true →
    fut.attached = true ∧ fut.pending = false
  calling : ∀ (r f : Nat) (fut : LocalFuture), s.dispatcher = .calling r f →
    s.futures[f]? = some fut → fut.pending = false
  staged : ∀ (r : Nat) (record : Request) (f : Nat), s.records[r]? = some record →
    record.state.terminal = false → record.localFuture = some f → s.unended f = true
  count : s.staged = s.unendedCount
  bound : s.staged ≤ cfg.limits.maxStagedTasks

namespace State.Placed

variable {cfg : Config} {s s' : State}

theorem init : State.Placed cfg {} where
  scheduled := ⟨.empty, .empty, .empty, fun r p q =>
    ⟨fun h => absurd h (Plan.not_queued_empty r p q), fun ⟨_, h, _⟩ => nomatch h⟩⟩
  intact := fun _ _ h => nomatch h
  before := fun _ _ h => nomatch h
  after := fun _ _ h => nomatch h
  attached := fun _ _ h => nomatch h
  submitted := fun _ _ h => nomatch h
  notifying := fun _ _ h => nomatch h
  calling := fun _ _ _ h => nomatch h
  staged := fun _ _ _ h => nomatch h
  count := rfl
  bound := Int.natCast_nonneg _

/-! ## Assignments to a request -/

/-- An assignment that keeps a request in its place as long as it has not ended. -/
structure Stays (s : State) (record record' : Request) : Prop where
  priority : record'.priority = record.priority
  principal : record'.principal = record.principal
  localFuture : record'.localFuture = record.localFuture
  alive : record'.state.terminal = false → record.state.terminal = false
  intact : record'.state.terminal = false → ¬ s.Submitted record →
    record'.state = record.state ∧ record'.payload = record.payload ∧ record'.digest = record.digest

theorem Stays.refl {record : Request} : Stays s record record :=
  ⟨rfl, rfl, rfl, id, fun _ _ => ⟨rfl, rfl, rfl⟩⟩

/-- An assignment to a request, with a change of the scheduler. -/
theorem reassign (h : s.Placed cfg) {scheduler : FairScheduler Nat} {r : Nat} {g : Request → Request}
    (hg : ∀ record : Request, s.records[r]? = some record → Stays s record (g record))
    (hs : ∃ plan, Represents scheduler plan ∧ plan.Distinct ∧
      (State.setRecord { s with scheduler } r g).Schedules plan) :
    (State.setRecord { s with scheduler } r g).Placed cfg := by
  have hback : ∀ (r' : Nat) (record' : Request), (s.setRecord r g).records[r']? = some record' →
      ∃ record : Request, s.records[r']? = some record ∧ Stays s record record' := by
    intro r' record' hr
    obtain ⟨record, hrec, rfl⟩ := getElem?_modify_some hr
    refine ⟨record, hrec, ?_⟩
    split
    · rename_i he
      subst he
      exact hg record hrec
    · exact .refl
  have hforth : ∀ (r' : Nat) (record : Request), s.records[r']? = some record →
      ∃ record' : Request, (s.setRecord r g).records[r']? = some record' ∧ Stays s record record' := by
    intro r' record hrec
    refine ⟨_, getElem?_modify_of_some hrec, ?_⟩
    split
    · rename_i he
      subst he
      exact hg record hrec
    · exact .refl
  refine ⟨hs, ?_, ?_, ?_, h.attached, ?_, h.notifying, h.calling, ?_, h.count, h.bound⟩
  · intro r' record' hr halive hnot
    obtain ⟨record, hrec, hk⟩ := hback r' record' hr
    have hnot' : ¬ s.Submitted record := by
      rintro ⟨f, fut, hf, hfut, hsub⟩
      exact hnot ⟨f, fut, hk.localFuture.trans hf, hfut, hsub⟩
    obtain ⟨hstate, hpayload, hdigest⟩ := hk.intact halive hnot'
    rw [hstate, hpayload, hdigest]
    exact h.intact r' record hrec (hk.alive halive) hnot'
  · intro r' f hd
    obtain ⟨fut, record, hfut, hrec, hf, hsub⟩ := h.before r' f hd
    obtain ⟨record', hrec', hk⟩ := hforth r' record hrec
    exact ⟨fut, record', hfut, hrec', hk.localFuture.trans hf, hsub⟩
  · intro r' f hd
    obtain ⟨fut, record, hfut, hrec, hf, hsub⟩ := h.after r' f hd
    obtain ⟨record', hrec', hk⟩ := hforth r' record hrec
    exact ⟨fut, record', hfut, hrec', hk.localFuture.trans hf, hsub⟩
  · intro f fut hfut hsub
    obtain ⟨record, hrec, hf⟩ := h.submitted f fut hfut hsub
    obtain ⟨record', hrec', hk⟩ := hforth _ record hrec
    exact ⟨record', hrec', hk.localFuture.trans hf⟩
  · intro r' record' f hr halive hf
    obtain ⟨record, hrec, hk⟩ := hback r' record' hr
    exact h.staged r' record f hrec (hk.alive halive) (hk.localFuture.symm.trans hf)

/-- An assignment that does not end a waiting request. -/
theorem setRecord (h : s.Placed cfg) {r : Nat} {g : Request → Request}
    (hg : ∀ record : Request, s.records[r]? = some record → Stays s record (g record))
    (hended : ∀ record : Request, s.records[r]? = some record → record.Waiting →
      (g record).state.terminal = false) :
    (s.setRecord r g).Placed cfg := by
  have hwaiting : ∀ record : Request, s.records[r]? = some record →
      ((g record).Waiting ↔ record.Waiting) := by
    intro record hrec
    have hk := hg record hrec
    constructor
    · rintro ⟨halive, hlocal⟩
      exact ⟨hk.alive halive, hk.localFuture.symm.trans hlocal⟩
    · intro hw
      exact ⟨hended record hrec hw, hk.localFuture.trans hw.2⟩
  obtain ⟨plan, hrep, hd, hs⟩ := h.scheduled
  refine h.reassign hg ⟨plan, hrep, hd, ?_⟩
  intro r' p q
  rw [hs r' p q]
  by_cases he : r = r'
  · subst he
    constructor
    · rintro ⟨record, hrec, hw, hp, hq⟩
      have hk := hg record hrec
      exact ⟨g record, getElem?_modify_self hrec, (hwaiting record hrec).mpr hw,
        hp.trans hk.priority.symm, hq.trans hk.principal.symm⟩
    · rintro ⟨record', hrec', hw, hp, hq⟩
      obtain ⟨record, hrec, rfl⟩ := getElem?_modify_some hrec'
      rw [if_pos rfl] at hw hp hq
      have hk := hg record hrec
      exact ⟨record, hrec, (hwaiting record hrec).mp hw, hp.trans hk.priority, hq.trans hk.principal⟩
  · have hsame : (s.setRecord r g).records[r']? = s.records[r']? := getElem?_modify_of_ne he
    constructor
    · rintro ⟨record, hrec, hw⟩
      exact ⟨record, hsame.trans hrec, hw⟩
    · rintro ⟨record, hrec, hw⟩
      exact ⟨record, hsame.symm.trans hrec, hw⟩

/-- A request ends and leaves the scheduler. -/
theorem finish (h : s.Placed cfg) {r : Nat} {t : Terminal} (ht : t.state.terminal = true) :
    (State.setRecord { s with scheduler := s.scheduler.remove r } r (Request.finish t)).Placed cfg := by
  obtain ⟨plan, hrep, hd, hs⟩ := h.scheduled
  refine h.reassign ?_ ⟨plan.remove r, hrep.remove hd r, hd.remove, ?_⟩
  · intro record _
    have hnot : (Request.finish t record).state.terminal ≠ false := by
      intro halive
      exact absurd (ht.symm.trans halive) (by decide)
    exact ⟨rfl, rfl, rfl, fun halive => absurd halive hnot, fun halive => absurd halive hnot⟩
  · intro r' p q
    rw [Plan.queued_remove hd, hs r' p q]
    constructor
    · rintro ⟨⟨record, hrec, hw⟩, hne⟩
      exact ⟨record, (getElem?_modify_of_ne (Ne.symm hne)).trans hrec, hw⟩
    · rintro ⟨record', hrec', hw, hp, hq⟩
      have hne : r' ≠ r := by
        rintro rfl
        obtain ⟨record, -, rfl⟩ := getElem?_modify_some hrec'
        rw [if_pos rfl] at hw
        exact absurd (ht.symm.trans hw.1) (by decide)
      have hrec := (getElem?_modify_of_ne (Ne.symm hne)).symm.trans hrec'
      exact ⟨⟨record', hrec, hw, hp, hq⟩, hne⟩

/-- A new request goes into the scheduler. -/
theorem append (h : s.Placed cfg) {record : Request} (hstate : record.state = .acceptedQueued)
    (hlocal : record.localFuture = none) (hdigest : record.digest = (cfg.sha256 record.payload).text) :
    State.Placed cfg { s with
      records := s.records ++ [record]
      scheduler := s.scheduler.put s.records.length record.priority record.principal } := by
  have hforth : ∀ (r : Nat) (record' : Request), s.records[r]? = some record' →
      (s.records ++ [record])[r]? = some record' := fun _ _ => getElem?_append_of_some
  obtain ⟨plan, hrep, hd, hs⟩ := h.scheduled
  have hnew : ∀ p q, ¬ plan.Queued s.records.length p q := by
    intro p q hq
    obtain ⟨_, hrec, -⟩ := (hs _ p q).mp hq
    exact absurd (lt_of_getElem? hrec) (lt_irrefl _)
  refine ⟨⟨plan.put s.records.length record.priority record.principal false,
      hrep.putAt _ _ _ false, hd.put hrep.valid hnew false, ?_⟩,
    ?_, ?_, ?_, h.attached, ?_, h.notifying, h.calling, ?_, h.count, h.bound⟩
  · intro r p q
    rw [Plan.queued_put hrep.valid, hs r p q]
    constructor
    · rintro (⟨record', hrec', hw⟩ | ⟨rfl, rfl, rfl⟩)
      · exact ⟨record', hforth r record' hrec', hw⟩
      · exact ⟨record, getElem?_append_length, ⟨by rw [hstate]; rfl, hlocal⟩, rfl, rfl⟩
    · rintro ⟨record', hrec', hw, hp, hq⟩
      rcases getElem?_append_some hrec' with hold | ⟨rfl, rfl⟩
      · exact .inl ⟨record', hold, hw, hp, hq⟩
      · exact .inr ⟨rfl, hp, hq⟩
  · intro r record' hr halive hnot
    rcases getElem?_append_some hr with hold | ⟨-, rfl⟩
    · exact h.intact r record' hold halive hnot
    · exact ⟨hstate, hdigest⟩
  · intro r f hd
    obtain ⟨fut, record', hfut, hrec, hf, hsub⟩ := h.before r f hd
    exact ⟨fut, record', hfut, hforth r record' hrec, hf, hsub⟩
  · intro r f hd
    obtain ⟨fut, record', hfut, hrec, hf, hsub⟩ := h.after r f hd
    exact ⟨fut, record', hfut, hforth r record' hrec, hf, hsub⟩
  · intro f fut hfut hsub
    obtain ⟨record', hrec, hf⟩ := h.submitted f fut hfut hsub
    exact ⟨record', hforth _ record' hrec, hf⟩
  · intro r record' f hr halive hf
    rcases getElem?_append_some hr with hold | ⟨-, rfl⟩
    · exact h.staged r record' f hold halive hf
    · rw [hlocal] at hf
      cases hf

/-- Nothing that places depend on changes. -/
theorem congr (h : s.Placed cfg) (hrecords : s'.records = s.records)
    (hscheduler : s'.scheduler = s.scheduler) (hfutures : s'.futures = s.futures)
    (hdispatcher : s'.dispatcher = s.dispatcher) (hstaged : s'.staged = s.staged) :
    s'.Placed cfg := by
  obtain ⟨status, raw, connections, open', sessions, live, clients, records, requests, ro, rb, scheduler,
    staged, futures, dispatcher, started, cancel, deadline, killed, masked, flips⟩ := s'
  dsimp only at hrecords hscheduler hfutures hdispatcher hstaged
  subst hrecords hscheduler hfutures hdispatcher hstaged
  exact ⟨h.scheduled, h.intact, h.before, h.after, h.attached, h.submitted, h.notifying,
    h.calling, h.staged, h.count, h.bound⟩

/-! ## Local futures -/

/-- What a change of the local futures and the dispatcher keeps. -/
structure Works (s : State) (futures : List LocalFuture) (d : Dispatcher) : Prop where
  length : futures.length = s.futures.length
  holds : ∀ f, d.holds f = true → s.dispatcher.holds f = true
  back : ∀ (f : Nat) (fut' : LocalFuture), futures[f]? = some fut' → ∃ fut : LocalFuture,
    s.futures[f]? = some fut ∧ fut'.record = fut.record ∧
      (fut.submitted = true → fut'.submitted = true) ∧
      (fut'.submitted = true → fut.submitted = true ∨ s.dispatcher.before = some (fut.record, f)) ∧
      (fut'.attached = true → fut'.submitted = true ∧ d.holds f = false) ∧
      (fut'.notifying = true → fut'.attached = true ∧ fut'.pending = false)
  before : ∀ r f, d.before = some (r, f) → s.dispatcher.before = some (r, f) ∧
    ∀ fut fut' : LocalFuture, s.futures[f]? = some fut → futures[f]? = some fut' →
      fut'.submitted = fut.submitted
  after : ∀ r f, d.after = some (r, f) → ∃ (fut : LocalFuture) (record : Request),
    futures[f]? = some fut ∧ s.records[r]? = some record ∧ record.localFuture = some f ∧
      fut.submitted = true ∧ fut.attached = false
  calling : ∀ (r f : Nat) (fut : LocalFuture), d = .calling r f → futures[f]? = some fut →
    fut.pending = false

theorem worked (h : s.Placed cfg) {futures : List LocalFuture} {d : Dispatcher} {n : Int}
    (hw : Works s futures d)
    (hstaged : ∀ (r : Nat) (record : Request) (f : Nat), s.records[r]? = some record →
      record.state.terminal = false → record.localFuture = some f → s.unended f = true →
      (s.worked futures d n).unended f = true)
    (hcount : n = (s.worked futures d n).unendedCount) (hn : n ≤ s.staged) :
    (s.worked futures d n).Placed cfg := by
  refine ⟨h.scheduled, ?_, ?_, hw.after, ?_, ?_, ?_, hw.calling, ?_, hcount, le_trans hn h.bound⟩
  · intro r record hr halive hnot
    refine h.intact r record hr halive ?_
    rintro ⟨f, fut, hf, hfut, hsub⟩
    have hlt : f < futures.length := by
      rw [hw.length]
      exact lt_of_getElem? hfut
    obtain ⟨fut₀, hfut₀, -, hmono, -⟩ := hw.back f _ (List.getElem?_eq_getElem hlt)
    rw [hfut] at hfut₀
    cases hfut₀
    exact hnot ⟨f, _, hf, List.getElem?_eq_getElem hlt, hmono hsub⟩
  · intro r f hd
    obtain ⟨hd, hsame⟩ := hw.before r f hd
    obtain ⟨fut, record, hfut, hr, hf, hsub⟩ := h.before r f hd
    have hlt : f < futures.length := by
      rw [hw.length]
      exact lt_of_getElem? hfut
    have hfut' := List.getElem?_eq_getElem hlt
    exact ⟨_, record, hfut', hr, hf, (hsame fut _ hfut hfut').trans hsub⟩
  · intro f fut' hfut'
    obtain ⟨fut, -, -, -, -, hatt, -⟩ := hw.back f fut' hfut'
    exact hatt
  · intro f fut' hfut' hsub
    obtain ⟨fut, hfut, hrec, -, hnew, -⟩ := hw.back f fut' hfut'
    rw [hrec]
    rcases hnew hsub with hold | hd
    · exact h.submitted f fut hfut hold
    · obtain ⟨-, record, -, hr, hf, -⟩ := h.before _ f hd
      exact ⟨record, hr, hf⟩
  · intro f fut' hfut'
    obtain ⟨fut, -, -, -, -, -, hnot⟩ := hw.back f fut' hfut'
    exact hnot
  · intro r record f hr halive hf
    exact hstaged r record f hr halive hf (h.staged r record f hr halive hf)

/-- A staging goes on. -/
theorem worked_on (h : s.Placed cfg) {futures : List LocalFuture} {d : Dispatcher}
    (hw : Works s futures d) (hsame : ∀ f, (s.worked futures d s.staged).unended f = s.unended f) :
    (s.worked futures d s.staged).Placed cfg := by
  have hcount : (s.worked futures d s.staged).unendedCount = s.unendedCount := by
    unfold State.unendedCount
    rw [show (s.worked futures d s.staged).futures.length = s.futures.length from hw.length]
    exact countP_range_congr fun f _ => hsame f
  refine h.worked hw (fun _ _ f _ _ _ hu => (hsame f).trans hu) ?_ (le_refl _)
  exact h.count.trans (congrArg Nat.cast hcount.symm)

/-- The end of a staging is processed. -/
theorem worked_end (h : s.Placed cfg) (hwf : s.WF) {futures : List LocalFuture} {d : Dispatcher}
    {f : Nat} (hw : Works s futures d) (hended : s.EndedFor f) (hopen : s.unended f = true)
    (hclosed : (s.worked futures d (s.staged - 1)).unended f = false)
    (hsame : ∀ f', f' ≠ f → (s.worked futures d (s.staged - 1)).unended f' = s.unended f') :
    (s.worked futures d (s.staged - 1)).Placed cfg := by
  obtain ⟨fut, record, hfut, hrec, hterm⟩ := hended
  have hlt : f < s.futures.length := lt_of_getElem? hfut
  have hflip := countP_range_flip hlt hopen hclosed hsame
  have hcount := h.count
  unfold State.unendedCount at hcount
  refine h.worked hw ?_ ?_ (by omega)
  · intro r record' f' hr halive hf hu
    rw [hsame f', hu]
    rintro rfl
    obtain ⟨fut', hfut', hr'⟩ := hwf.localFuture r record' f' hr hf
    rw [hfut] at hfut'
    cases hfut'
    rw [hr', hr] at hrec
    cases hrec
    rw [hterm] at halive
    cases halive
  · unfold State.unendedCount
    rw [show (s.worked futures d _).futures.length = s.futures.length from hw.length]
    omega

/-- The dispatcher moves, the futures stay. -/
theorem works_same (h : s.Placed cfg) {d : Dispatcher}
    (hholds : ∀ f, d.holds f = true → s.dispatcher.holds f = true)
    (hbefore : ∀ r f, d.before = some (r, f) → s.dispatcher.before = some (r, f))
    (hafter : ∀ r f, d.after = some (r, f) → s.dispatcher.after = some (r, f))
    (hcalling : ∀ (r f : Nat) (fut : LocalFuture), d = .calling r f → s.futures[f]? = some fut →
      fut.pending = false) : Works s s.futures d := by
  refine ⟨rfl, hholds, ?_, ?_, fun r f hd => h.after r f (hafter r f hd), hcalling⟩
  · intro f fut hfut
    refine ⟨fut, hfut, rfl, id, .inl, fun hatt => ?_, h.notifying f fut hfut⟩
    obtain ⟨hsub, hnot⟩ := h.attached f fut hfut hatt
    refine ⟨hsub, ?_⟩
    cases hd : d.holds f with
    | false => rfl
    | true => rw [hholds f hd] at hnot; cases hnot
  · intro r f hd
    refine ⟨hbefore r f hd, fun fut fut' hfut hfut' => ?_⟩
    rw [hfut] at hfut'
    cases hfut'
    rfl

/-- One future changes. -/
theorem works_modify (h : s.Placed cfg) {d : Dispatcher} {f : Nat} {g : LocalFuture → LocalFuture}
    (hholds : ∀ f, d.holds f = true → s.dispatcher.holds f = true)
    (hg : ∀ fut : LocalFuture, s.futures[f]? = some fut → (g fut).record = fut.record ∧
      (fut.submitted = true → (g fut).submitted = true) ∧
      ((g fut).submitted = true → fut.submitted = true ∨ s.dispatcher.before = some (fut.record, f)) ∧
      ((g fut).attached = true → (g fut).submitted = true ∧ d.holds f = false) ∧
      ((g fut).notifying = true → (g fut).attached = true ∧ (g fut).pending = false))
    (hbefore : ∀ r f', d.before = some (r, f') → s.dispatcher.before = some (r, f') ∧
      (f' = f → ∀ fut, (g fut).submitted = fut.submitted))
    (hafter : ∀ r f', d.after = some (r, f') → ∃ (fut : LocalFuture) (record : Request),
      (s.futures.modify f g)[f']? = some fut ∧ s.records[r]? = some record ∧
        record.localFuture = some f' ∧ fut.submitted = true ∧ fut.attached = false)
    (hcalling : ∀ r f', d = .calling r f' → s.dispatcher = .calling r f' ∧
      ∀ fut : LocalFuture, fut.pending = false → (g fut).pending = false) :
    Works s (s.futures.modify f g) d := by
  refine ⟨List.length_modify _ _ _, hholds, ?_, ?_, hafter, ?_⟩
  · intro f' fut' hfut'
    obtain ⟨fut, hfut, rfl⟩ := getElem?_modify_some hfut'
    refine ⟨fut, hfut, ?_⟩
    by_cases he : f = f'
    · subst he
      rw [if_pos rfl]
      exact hg fut hfut
    · rw [if_neg he]
      refine ⟨rfl, id, .inl, fun hatt => ?_, h.notifying f' fut hfut⟩
      obtain ⟨hsub, hnot⟩ := h.attached f' fut hfut hatt
      refine ⟨hsub, ?_⟩
      cases hd : d.holds f' with
      | false => rfl
      | true => rw [hholds f' hd] at hnot; cases hnot
  · intro r f' hd
    obtain ⟨hd, hkeep⟩ := hbefore r f' hd
    refine ⟨hd, fun fut fut' hfut hfut' => ?_⟩
    by_cases he : f' = f
    · subst he
      rw [getElem?_modify_self hfut] at hfut'
      cases hfut'
      exact hkeep rfl fut
    · rw [getElem?_modify_of_ne (Ne.symm he), hfut] at hfut'
      cases hfut'
      rfl
  · intro r f' fut' hd hfut'
    obtain ⟨hd, hkeep⟩ := hcalling r f' hd
    obtain ⟨fut, hfut, rfl⟩ := getElem?_modify_some hfut'
    have hdone := h.calling r f' fut hd hfut
    split
    · exact hkeep fut hdone
    · exact hdone

/-- The dispatcher stays, and the change keeps what it relies on. -/
theorem after_modify (h : s.Placed cfg) {f : Nat} {g : LocalFuture → LocalFuture}
    (hg : ∀ fut : LocalFuture, (g fut).submitted = fut.submitted ∧ (g fut).attached = fut.attached)
    (r f' : Nat) (ha : s.dispatcher.after = some (r, f')) : ∃ (fut : LocalFuture) (record : Request),
      (s.futures.modify f g)[f']? = some fut ∧ s.records[r]? = some record ∧
        record.localFuture = some f' ∧ fut.submitted = true ∧ fut.attached = false := by
  obtain ⟨fut, record, hfut, hrec, hlocal, hsub, hatt⟩ := h.after r f' ha
  by_cases he : f = f'
  · subst he
    exact ⟨_, record, getElem?_modify_self hfut, hrec, hlocal, (hg fut).1.trans hsub,
      (hg fut).2.trans hatt⟩
  · exact ⟨fut, record, (getElem?_modify_of_ne he).trans hfut, hrec, hlocal, hsub, hatt⟩

/-- Whether the staging of another future has ended does not depend on a change of one. -/
theorem unended_modify_of_ne {f f' : Nat} {g : LocalFuture → LocalFuture} {d : Dispatcher} {n : Int}
    (hne : f' ≠ f) (hd : d.holds f' = s.dispatcher.holds f') :
    (s.worked (s.futures.modify f g) d n).unended f' = s.unended f' := by
  unfold State.unended State.worked
  dsimp only
  rw [getElem?_modify_of_ne (Ne.symm hne), hd]

theorem unended_modify {f : Nat} {fut : LocalFuture} {g : LocalFuture → LocalFuture} {d : Dispatcher}
    {n : Int} (hf : s.futures[f]? = some fut) :
    (s.worked (s.futures.modify f g) d n).unended f = (d.holds f || (g fut).watched) := by
  unfold State.unended State.worked
  dsimp only
  rw [getElem?_modify_self hf]
  rfl

theorem unended_of_some {f : Nat} {fut : LocalFuture} (hf : s.futures[f]? = some fut) :
    s.unended f = (s.dispatcher.holds f || fut.watched) := by
  unfold State.unended
  rw [hf]
  rfl

/-- A change of one future that does not touch whether its callback is to run. -/
theorem unended_modify_same {f : Nat} {g : LocalFuture → LocalFuture} {d : Dispatcher} {n : Int}
    (hd : ∀ f', d.holds f' = s.dispatcher.holds f')
    (hg : ∀ fut : LocalFuture, s.futures[f]? = some fut → (g fut).watched = fut.watched) (f' : Nat) :
    (s.worked (s.futures.modify f g) d n).unended f' = s.unended f' := by
  by_cases he : f' = f
  · subst he
    cases hf : s.futures[f']? with
    | none =>
      unfold State.unended State.worked
      dsimp only
      rw [List.getElem?_modify, hf, hd]
      rfl
    | some fut => rw [unended_modify hf, unended_of_some hf, hd, hg fut hf]
  · exact unended_modify_of_ne he (hd f')

/-- Nobody runs the callbacks of a pending future. -/
theorem quiet_of_pending (h : s.Placed cfg) {f : Nat} {fut : LocalFuture}
    (hf : s.futures[f]? = some fut) (hp : fut.pending = true) : fut.notifying = false := by
  cases hn : fut.notifying with
  | false => rfl
  | true =>
    rw [(h.notifying f fut hf hn).2] at hp
    cases hp

theorem unattached_of_holds (h : s.Placed cfg) {f : Nat} {fut : LocalFuture}
    (hf : s.futures[f]? = some fut) (hd : s.dispatcher.holds f = true) : fut.attached = false := by
  cases hatt : fut.attached with
  | false => rfl
  | true =>
    rw [(h.attached f fut hf hatt).2] at hd
    cases hd

/-- Every move of a future or of the dispatcher. -/
theorem work (h : s.Placed cfg) (hwf : s.WF) {scope : Scope}
    (hw : WorkStep scope s s') : s'.Placed cfg := by
  cases hw with
  | @submitted r f hd =>
    have hbefore : s.dispatcher.before = some (r, f) := by rw [hd]; rfl
    obtain ⟨fut₀, record, hfut₀, hrec, hlocal, hsub₀⟩ := h.before r f hbefore
    obtain ⟨fut₁, hfut₁, hr⟩ := hwf.localFuture r record f hrec hlocal
    have hatt₀ : fut₀.attached = false := by
      cases hatt : fut₀.attached with
      | false => rfl
      | true => rw [(h.attached f fut₀ hfut₀ hatt).1] at hsub₀; cases hsub₀
    rw [hfut₀] at hfut₁
    cases hfut₁
    have hholds : ∀ f', (Dispatcher.submitted r f).holds f' = s.dispatcher.holds f' := by
      rw [hd]
      exact fun _ => rfl
    refine h.worked_on (h.works_modify (fun f' hf' => (hholds f').symm.trans hf') ?_ ?_ ?_
      (fun _ _ hc => nomatch hc)) (unended_modify_same hholds fun _ _ => rfl)
    · intro fut hfut
      rw [hfut₀] at hfut
      cases hfut
      refine ⟨rfl, fun _ => rfl, fun _ => .inr (hr ▸ hbefore), fun hatt => ?_, fun hn => ?_⟩
      · rw [hatt₀] at hatt
        cases hatt
      · rw [(h.notifying f _ hfut₀ hn).1] at hatt₀
        cases hatt₀
    · intro r' f' hd'
      cases hd'
    · intro r' f' hd'
      cases hd'
      exact ⟨_, record, getElem?_modify_self hfut₀, hrec, hlocal, rfl, hatt₀⟩
  | @refused r f d hd hd' =>
    have hholds : ∀ f', d.holds f' = s.dispatcher.holds f' := by
      rw [hd]
      rcases hd' with rfl | ⟨_, rfl⟩ <;> exact fun _ => rfl
    have hbefore : d.before = s.dispatcher.before := by
      rw [hd]
      rcases hd' with rfl | ⟨_, rfl⟩ <;> rfl
    have hafter : d.after = s.dispatcher.after := by
      rw [hd]
      rcases hd' with rfl | ⟨_, rfl⟩ <;> rfl
    refine h.worked_on (h.works_same (fun f' hf' => (hholds f').symm.trans hf') ?_ ?_ ?_) ?_
    · exact fun _ _ hb => hbefore.symm.trans hb
    · exact fun _ _ ha => hafter.symm.trans ha
    · intro r' f' fut' hc
      rcases hd' with rfl | ⟨_, rfl⟩ <;> cases hc
    · intro f'
      unfold State.unended State.worked
      dsimp only
      rw [hholds]
  | @attach r f fut hd hf hp =>
    have hafter : s.dispatcher.after = some (r, f) := by rw [hd]; rfl
    obtain ⟨fut₀, record, hfut₀, hrec, hlocal, hsub₀, hatt₀⟩ := h.after r f hafter
    rw [hf] at hfut₀
    cases hfut₀
    have hidle : ∀ f', Dispatcher.idle.holds f' = true → s.dispatcher.holds f' = true :=
      fun _ hf' => nomatch hf'
    refine h.worked_on (h.works_modify hidle ?_ ?_ ?_ (fun _ _ hc => nomatch hc)) ?_
    · intro fut' hfut'
      rw [hf] at hfut'
      cases hfut'
      refine ⟨rfl, id, .inl, fun _ => ⟨hsub₀, rfl⟩, fun hn => ?_⟩
      rw [(h.notifying f _ hf hn).1] at hatt₀
      cases hatt₀
    · exact fun _ _ hb => nomatch hb
    · exact fun _ _ ha => nomatch ha
    · intro f'
      by_cases he : f' = f
      · subst he
        rw [unended_modify hf, unended_of_some hf, hd]
        simp [Dispatcher.holds, LocalFuture.watched, LocalFuture.pending] at hp ⊢
        rw [hp]
        exact .inl rfl
      · refine unended_modify_of_ne he ?_
        rw [hd]
        simp [Dispatcher.holds, he]
  | @call r f fut hd hf hp =>
    have hholds : ∀ f', (Dispatcher.calling r f).holds f' = s.dispatcher.holds f' := by
      rw [hd]
      exact fun _ => rfl
    refine h.worked_on (h.works_same (fun f' hf' => (hholds f').symm.trans hf') ?_ ?_ ?_) ?_
    · exact fun _ _ hb => nomatch hb
    · intro r' f' ha
      rw [hd]
      exact ha
    · intro r' f' fut' hc hfut'
      cases hc
      rw [hf] at hfut'
      cases hfut'
      exact hp
    · intro f'
      unfold State.unended State.worked
      dsimp only
      rw [hholds]
  | exit hd =>
    refine h.worked_on (h.works_same (fun _ hf' => nomatch hf') ?_ ?_ ?_) ?_
    · exact fun _ _ hb => nomatch hb
    · exact fun _ _ ha => nomatch ha
    · exact fun _ _ _ hc => nomatch hc
    · intro f'
      unfold State.unended State.worked
      dsimp only
      rw [hd]
      rfl
  | @finish f fut outcome hf hp hsub =>
    refine h.worked_on (h.works_modify (fun _ => id) ?_ ?_ ?_ ?_) (unended_modify_same (fun _ => rfl) ?_)
    · exact fun fut' hfut' => ⟨rfl, id, .inl, h.attached f fut' hfut', fun hn => ⟨hn, rfl⟩⟩
    · exact fun _ _ hb => ⟨hb, fun _ _ => rfl⟩
    · exact h.after_modify fun _ => ⟨rfl, rfl⟩
    · exact fun _ _ hc => ⟨hc, fun _ _ => rfl⟩
    · intro fut' hfut'
      rw [hf] at hfut'
      cases hfut'
      rw [LocalFuture.watched_of_pending hp]
      unfold LocalFuture.watched LocalFuture.pending
      cases fut.attached <;> rfl
  | @cancel f fut hf hp hatt =>
    have hquiet : fut.notifying = false := h.quiet_of_pending hf hp
    refine h.worked_on (h.works_modify (fun _ => id) ?_ ?_ ?_ ?_) (unended_modify_same (fun _ => rfl) ?_)
    · intro fut' hfut'
      exact ⟨rfl, id, .inl, h.attached f fut' hfut', fun hn => ⟨(h.notifying f fut' hfut' hn).1, rfl⟩⟩
    · exact fun _ _ hb => ⟨hb, fun _ _ => rfl⟩
    · exact h.after_modify fun _ => ⟨rfl, rfl⟩
    · exact fun _ _ hc => ⟨hc, fun _ _ => rfl⟩
    · intro fut' hfut'
      rw [hf] at hfut'
      cases hfut'
      unfold LocalFuture.watched
      rw [hatt]
      rfl
  | @pid f pid =>
    refine h.worked_on (h.works_modify (fun _ => id) ?_ ?_ ?_ ?_) (unended_modify_same (fun _ => rfl) ?_)
    · exact fun fut' hfut' => ⟨rfl, id, .inl, h.attached f fut' hfut', h.notifying f fut' hfut'⟩
    · exact fun _ _ hb => ⟨hb, fun _ _ => rfl⟩
    · exact h.after_modify fun _ => ⟨rfl, rfl⟩
    · exact fun _ _ hc => ⟨hc, fun _ hp => hp⟩
    · exact fun _ _ => rfl
  | @cancelled f fut hf hp hatt hended =>
    have hfree := (h.attached f fut hf hatt).2
    refine h.worked_end hwf (h.works_modify (fun _ => id) ?_ ?_ ?_ ?_) hended ?_ ?_ ?_
    · intro fut' hfut'
      exact ⟨rfl, id, .inl, h.attached f fut' hfut', fun hn => ⟨(h.notifying f fut' hfut' hn).1, rfl⟩⟩
    · exact fun _ _ hb => ⟨hb, fun _ _ => rfl⟩
    · exact h.after_modify fun _ => ⟨rfl, rfl⟩
    · exact fun _ _ hc => ⟨hc, fun _ _ => rfl⟩
    · rw [unended_of_some hf, LocalFuture.watched_of_pending hp, hatt, Bool.or_true]
    · rw [unended_modify hf, hfree]
      have := h.quiet_of_pending hf hp
      simp [LocalFuture.watched, LocalFuture.pending, this]
    · exact fun f' hne => unended_modify_of_ne hne rfl
  | @notified f fut hf hn hended =>
    obtain ⟨hatt, hdone⟩ := h.notifying f fut hf hn
    have hfree := (h.attached f fut hf hatt).2
    refine h.worked_end hwf (h.works_modify (fun _ => id) ?_ ?_ ?_ ?_) hended ?_ ?_ ?_
    · exact fun fut' hfut' => ⟨rfl, id, .inl, h.attached f fut' hfut', fun hn => nomatch hn⟩
    · exact fun _ _ hb => ⟨hb, fun _ _ => rfl⟩
    · exact h.after_modify fun _ => ⟨rfl, rfl⟩
    · exact fun _ _ hc => ⟨hc, fun _ hp => hp⟩
    · rw [unended_of_some hf]
      simp [LocalFuture.watched, hatt, hn]
    · rw [unended_modify hf, hfree]
      simp [LocalFuture.watched, LocalFuture.pending] at hdone ⊢
      rw [hdone]
      simp
    · exact fun f' hne => unended_modify_of_ne hne rfl
  | @called r f hd hended =>
    have hholds : ∀ f', s.dispatcher.holds f' = decide (f' = f) := by
      rcases hd with hd | ⟨_, hd⟩ <;> rw [hd] <;> exact fun _ => rfl
    obtain ⟨fut, -, hfut, -, -⟩ := id hended
    refine h.worked_end (f := f) hwf (h.works_same (fun _ hf' => nomatch hf') ?_ ?_ ?_) hended ?_ ?_ ?_
    · exact fun _ _ hb => nomatch hb
    · exact fun _ _ ha => nomatch ha
    · exact fun _ _ _ hc => nomatch hc
    · rw [unended_of_some hfut, hholds, decide_eq_true rfl, Bool.true_or]
    · have hatt : fut.attached = false := h.unattached_of_holds hfut ((hholds f).trans (decide_eq_true rfl))
      unfold State.unended State.worked
      dsimp only
      rw [hfut]
      simp [Dispatcher.holds, LocalFuture.watched, hatt]
    · intro f' hne
      unfold State.unended State.worked
      dsimp only
      rw [hholds, decide_eq_false hne]
      rfl

/-! ## Staging -/

/-- A popped request was waiting. -/
theorem popped (h : s.Placed cfg) {r : Nat} {scheduler : FairScheduler Nat}
    (hpop : s.scheduler.pop = some (r, scheduler)) :
    ∃ record : Request, s.records[r]? = some record ∧ record.Waiting ∧
      ∃ plan, Represents scheduler plan ∧ plan.Distinct ∧
        ∀ r' p q, plan.Queued r' p q ↔ r' ≠ r ∧ ∃ record : Request, s.records[r']? = some record ∧
          record.Waiting ∧ p = record.priority ∧ q = record.principal := by
  obtain ⟨plan, hrep, hd, hs⟩ := h.scheduled
  rcases hrep.pop_eq with ⟨hnone, -⟩ | ⟨p, q, item, rest, others, sch, hp, hsome, -, hrep', -⟩
  · rw [hnone] at hpop
    cases hpop
  · rw [hsome] at hpop
    cases hpop
    have hfirst : plan.Queued r p q := ⟨r :: rest, hp ▸ List.mem_cons_self, List.mem_cons_self⟩
    obtain ⟨record, hr, hw, -⟩ := (hs r p q).mp hfirst
    refine ⟨record, hr, hw, plan.next p, hrep', hd.next hrep.valid hp, ?_⟩
    intro r' p' q'
    rw [Plan.queued_next hrep.valid hd hp, hs r' p' q', and_comm]

/-- Only the newest staging is in the dispatcher's hands. -/
theorem unended_stage (hd : s.dispatcher = .idle) (r f : Nat) (hf : f < s.futures.length) :
    (s.stage r).unended f = s.unended f := by
  have hne : (Dispatcher.staged r s.futures.length).holds f = false := by
    simp [Dispatcher.holds]
    omega
  unfold State.unended State.stage
  dsimp only
  rw [hne, hd, List.getElem?_append_left hf]
  rfl

theorem lt_of_unended (hd : s.dispatcher = .idle) {f : Nat} (h : s.unended f = true) :
    f < s.futures.length := by
  cases hf : s.futures[f]? with
  | none =>
    unfold State.unended at h
    rw [hd, hf] at h
    cases h
  | some fut => exact lt_of_getElem? hf

theorem unendedCount_stage (hd : s.dispatcher = .idle) (r : Nat) :
    (s.stage r).unendedCount = s.unendedCount + 1 := by
  have hlen : (s.stage r).futures.length = s.futures.length + 1 := List.length_append
  have hlast : (s.stage r).unended s.futures.length = true := by
    simp [State.unended, State.stage, Dispatcher.holds]
  unfold State.unendedCount
  rw [hlen, List.range_succ, List.countP_append, List.countP_singleton, if_pos hlast]
  congr 1
  exact countP_range_congr fun f hf => unended_stage hd r f hf

theorem stage (h : s.Placed cfg) {r : Nat} {record : Request} {scheduler : FairScheduler Nat}
    (hidle : s.dispatcher = .idle) (hroom : s.staged < cfg.limits.maxStagedTasks)
    (hpop : s.scheduler.pop = some (r, scheduler)) (hr : s.records[r]? = some record) :
    (State.stage { s with scheduler } r).Placed cfg := by
  obtain ⟨record', hr', hw, plan, hrep, hdist, hs⟩ := h.popped hpop
  rw [hr] at hr'
  cases hr'
  have hback : ∀ (r' : Nat) (record' : Request),
      (State.stage { s with scheduler } r).records[r']? = some record' →
        r' ≠ r ∧ s.records[r']? = some record' ∨
          r' = r ∧ record' = { record with localFuture := some s.futures.length } := by
    intro r' record' hrec'
    obtain ⟨record₀, hrec, rfl⟩ := getElem?_modify_some hrec'
    by_cases he : r = r'
    · subst he
      rw [hr] at hrec
      cases hrec
      exact .inr ⟨rfl, if_pos rfl⟩
    · rw [if_neg he]
      exact .inl ⟨Ne.symm he, hrec⟩
  have hforth : ∀ (r' : Nat) (record' : Request), r' ≠ r → s.records[r']? = some record' →
      (State.stage { s with scheduler } r).records[r']? = some record' :=
    fun r' record' hne hrec => (getElem?_modify_of_ne (Ne.symm hne)).trans hrec
  have hself : (State.stage { s with scheduler } r).records[r]? =
      some { record with localFuture := some s.futures.length } := getElem?_modify_self hr
  refine ⟨⟨plan, hrep, hdist, ?_⟩, ?_, ?_, (fun _ _ ha => nomatch ha), ?_, ?_, ?_,
    (fun _ _ _ hc => nomatch hc), ?_, ?_, ?_⟩
  · intro r' p q
    rw [hs r' p q]
    constructor
    · rintro ⟨hne, record', hrec, hplace⟩
      exact ⟨record', hforth r' record' hne hrec, hplace⟩
    · rintro ⟨record', hrec, hw', hplace⟩
      rcases hback r' record' hrec with ⟨hne, hold⟩ | ⟨-, rfl⟩
      · exact ⟨hne, record', hold, hw', hplace⟩
      · cases hw'.2
  · intro r' record' hrec halive hnot
    rcases hback r' record' hrec with ⟨-, hold⟩ | ⟨-, rfl⟩
    · refine h.intact r' record' hold halive ?_
      rintro ⟨f, fut, hf, hfut, hsub⟩
      exact hnot ⟨f, fut, hf, getElem?_append_of_some hfut, hsub⟩
    · refine h.intact r record hr hw.1 ?_
      rintro ⟨f, fut, hf, -⟩
      rw [hw.2] at hf
      cases hf
  · intro r' f hb
    cases hb
    exact ⟨_, _, getElem?_append_length, hself, rfl, rfl⟩
  · intro f fut hfut hatt
    rcases getElem?_append_some hfut with hold | ⟨-, rfl⟩
    · refine ⟨(h.attached f fut hold hatt).1, ?_⟩
      have hlt : f < s.futures.length := lt_of_getElem? hold
      exact decide_eq_false (Nat.ne_of_lt hlt)
    · cases hatt
  · intro f fut hfut hsub
    rcases getElem?_append_some hfut with hold | ⟨-, rfl⟩
    · obtain ⟨record', hrec, hf⟩ := h.submitted f fut hold hsub
      refine ⟨record', hforth _ record' ?_ hrec, hf⟩
      intro he
      rw [he, hr] at hrec
      cases hrec
      rw [hw.2] at hf
      cases hf
    · cases hsub
  · intro f fut hfut hn
    rcases getElem?_append_some hfut with hold | ⟨-, rfl⟩
    · exact h.notifying f fut hold hn
    · cases hn
  · intro r' record' f hrec halive hf
    rcases hback r' record' hrec with ⟨-, hold⟩ | ⟨-, rfl⟩
    · have hu := h.staged r' record' f hold halive hf
      have hlt : f < s.futures.length := lt_of_unended hidle hu
      exact (unended_stage (s := { s with scheduler }) hidle r f hlt).trans hu
    · cases hf
      simp [State.unended, State.stage, Dispatcher.holds]
  · have hcount := h.count
    have hstage := unendedCount_stage (s := { s with scheduler }) hidle r
    rw [hstage]
    change s.staged + 1 = ((s.unendedCount + 1 : Nat) : Int)
    omega
  · change s.staged + 1 ≤ _
    omega

/-- The pool's queue was full: the request waits again, unless it has ended meanwhile. -/
theorem requeue (h : s.Placed cfg) (hwf : s.WF) {r f : Nat} (hfull : s.dispatcher = .full r f) :
    (s.requeue r).Placed cfg := by
  have hbefore : s.dispatcher.before = some (r, f) := by rw [hfull]; rfl
  obtain ⟨fut, record, hfut, hr, hlocal, hsub⟩ := h.before r f hbefore
  have hholds : ∀ f', s.dispatcher.holds f' = decide (f' = f) := by
    rw [hfull]
    exact fun _ => rfl
  have hatt : fut.attached = false :=
    h.unattached_of_holds hfut ((hholds f).trans (decide_eq_true rfl))
  have hnot : ¬ s.Submitted record := by
    rintro ⟨f', fut', hf', hfut', hsub'⟩
    rw [hlocal] at hf'
    cases hf'
    rw [hfut] at hfut'
    cases hfut'
    rw [hsub] at hsub'
    cases hsub'
  rw [requeue_eq hr]
  generalize hscheduler : (if record.state = .acceptedQueued then
    s.scheduler.putFront r record.priority record.principal else s.scheduler) = scheduler
  have hback : ∀ (r' : Nat) (record' : Request),
      (s.unstage r scheduler).records[r']? = some record' →
        r' ≠ r ∧ s.records[r']? = some record' ∨
          r' = r ∧ record' = { record with localFuture := none } := by
    intro r' record' hrec'
    obtain ⟨record₀, hrec, rfl⟩ := getElem?_modify_some hrec'
    by_cases he : r = r'
    · subst he
      rw [hr] at hrec
      cases hrec
      exact .inr ⟨rfl, if_pos rfl⟩
    · rw [if_neg he]
      exact .inl ⟨Ne.symm he, hrec⟩
  have hforth : ∀ (r' : Nat) (record' : Request), r' ≠ r → s.records[r']? = some record' →
      (s.unstage r scheduler).records[r']? = some record' :=
    fun r' record' hne hrec => (getElem?_modify_of_ne (Ne.symm hne)).trans hrec
  have hself : (s.unstage r scheduler).records[r]? =
      some { record with localFuture := none } := getElem?_modify_self hr
  -- nobody else has this future
  have hother : ∀ (r' : Nat) (record' : Request) (f' : Nat), r' ≠ r → s.records[r']? = some record' →
      record'.localFuture = some f' → f' ≠ f := by
    rintro r' record' f' hne hrec hf' rfl
    obtain ⟨fut₁, hfut₁, hrec₁⟩ := hwf.localFuture r' record' f' hrec hf'
    obtain ⟨fut₂, hfut₂, hrec₂⟩ := hwf.localFuture r record f' hr hlocal
    rw [hfut₁] at hfut₂
    cases hfut₂
    exact hne (hrec₁.symm.trans hrec₂)
  obtain ⟨plan, hrep, hd, hs⟩ := h.scheduled
  have hnew : ∀ p q, ¬ plan.Queued r p q := by
    intro p q hq
    obtain ⟨record', hr', hw, -⟩ := (hs r p q).mp hq
    rw [hr] at hr'
    cases hr'
    have hnone := hw.2
    rw [hlocal] at hnone
    cases hnone
  have hrest : ∀ r' p q, plan.Queued r' p q ↔ r' ≠ r ∧ ∃ record : Request,
      (s.unstage r scheduler).records[r']? = some record ∧
        record.Waiting ∧ p = record.priority ∧ q = record.principal := by
    intro r' p q
    constructor
    · intro hq
      obtain ⟨record', hrec', hplace⟩ := (hs r' p q).mp hq
      have hne : r' ≠ r := by
        rintro rfl
        exact hnew p q hq
      exact ⟨hne, record', hforth r' record' hne hrec', hplace⟩
    · rintro ⟨hne, record', hrec', hplace⟩
      rcases hback r' record' hrec' with ⟨-, hold⟩ | ⟨he, -⟩
      · exact (hs r' p q).mpr ⟨record', hold, hplace⟩
      · exact absurd he hne
  have hunended : ∀ f', f' ≠ f → (s.unstage r scheduler).unended f' = s.unended f' := by
    intro f' hne
    unfold State.unended State.unstage
    dsimp only
    rw [hholds, decide_eq_false hne]
    rfl
  refine ⟨?_, ?_, (fun _ _ hb => nomatch hb), (fun _ _ ha => nomatch ha), ?_, ?_, h.notifying,
    (fun _ _ _ hc => nomatch hc), ?_, ?_, ?_⟩
  · -- a request that has not ended is queued again
    by_cases hstate : record.state = .acceptedQueued
    · rw [if_pos hstate] at hscheduler
      refine ⟨plan.put r record.priority record.principal true, hscheduler ▸ hrep.putAt _ _ _ true,
        hd.put hrep.valid hnew true, ?_⟩
      intro r' p q
      rw [Plan.queued_put hrep.valid, hrest r' p q]
      constructor
      · rintro (⟨-, hplace⟩ | ⟨rfl, rfl, rfl⟩)
        · exact hplace
        · exact ⟨_, hself, ⟨congrArg RequestState.terminal hstate, rfl⟩, rfl, rfl⟩
      · rintro ⟨record', hrec', hw, hp, hq⟩
        by_cases he : r' = r
        · subst he
          rw [hself] at hrec'
          cases hrec'
          exact .inr ⟨rfl, hp, hq⟩
        · exact .inl ⟨he, record', hrec', hw, hp, hq⟩
    · rw [if_neg hstate] at hscheduler
      refine ⟨plan, hscheduler ▸ hrep, hd, ?_⟩
      intro r' p q
      rw [hrest r' p q]
      constructor
      · exact fun hplace => hplace.2
      · rintro ⟨record', hrec', hw, hp, hq⟩
        refine ⟨?_, record', hrec', hw, hp, hq⟩
        rintro rfl
        rw [hself] at hrec'
        cases hrec'
        exact hstate (h.intact r' record hr hw.1 hnot).1
  · intro r' record' hrec' halive hnot'
    rcases hback r' record' hrec' with ⟨-, hold⟩ | ⟨-, rfl⟩
    · exact h.intact r' record' hold halive hnot'
    · exact h.intact r record hr halive hnot
  · exact fun f' fut' hfut' hatt' => ⟨(h.attached f' fut' hfut' hatt').1, rfl⟩
  · intro f' fut' hfut' hsub'
    obtain ⟨record', hrec', hf'⟩ := h.submitted f' fut' hfut' hsub'
    refine ⟨record', hforth _ record' ?_ hrec', hf'⟩
    intro he
    rw [he, hr] at hrec'
    cases hrec'
    exact hnot ⟨f', fut', hf', hfut', hsub'⟩
  · intro r' record' f' hrec' halive hf'
    rcases hback r' record' hrec' with ⟨hne, hold⟩ | ⟨-, rfl⟩
    · rw [hunended f' (hother r' record' f' hne hold hf')]
      exact h.staged r' record' f' hold halive hf'
    · cases hf'
  · have hclosed : (s.unstage r scheduler).unended f = false := by
      unfold State.unended State.unstage
      dsimp only
      rw [hfut]
      simp [Dispatcher.holds, LocalFuture.watched, hatt]
    have hopen : s.unended f = true := by
      rw [unended_of_some hfut, hholds, decide_eq_true rfl, Bool.true_or]
    have hflip := countP_range_flip (lt_of_getElem? hfut) hopen hclosed hunended
    have hcount := h.count
    unfold State.unendedCount at hcount ⊢
    change s.staged - 1 = ((List.range s.futures.length).countP _ : Nat)
    omega
  · have hbound := h.bound
    change s.staged - 1 ≤ _
    omega

/-! ## Consequences -/

/-- A waiting request is queued and has its payload. -/
theorem waiting (h : s.Placed cfg) {r : Nat} {record : Request} (hr : s.records[r]? = some record)
    (hw : record.Waiting) :
    record.state = .acceptedQueued ∧ record.digest = (cfg.sha256 record.payload).text := by
  refine h.intact r record hr hw.1 ?_
  rintro ⟨f, fut, hf, -⟩
  rw [hw.2] at hf
  cases hf

/-- A running request has a local future. -/
theorem running (h : s.Placed cfg) {r : Nat} {record : Request} (hr : s.records[r]? = some record)
    (hstate : record.state = .running) : s.Submitted record := by
  by_cases hsub : s.Submitted record
  · exact hsub
  · have hqueued := (h.intact r record hr (congrArg RequestState.terminal hstate) hsub).1
    rw [hstate] at hqueued
    cases hqueued

/-- While a staging has not ended it is counted. -/
theorem staged_pos (h : s.Placed cfg) {f : Nat} (hf : f < s.futures.length)
    (hu : s.unended f = true) : 0 < s.staged := by
  have hpos : 0 < s.unendedCount := List.countP_pos_iff.mpr ⟨f, List.mem_range.mpr hf, hu⟩
  have hcount := h.count
  omega

/-! ## All changes -/

theorem Stays.of_terminal {record record' : Request} (hpriority : record'.priority = record.priority)
    (hprincipal : record'.principal = record.principal)
    (hlocal : record'.localFuture = record.localFuture) (hterm : record'.state.terminal = true) :
    Stays s record record' := by
  have hnot : record'.state.terminal ≠ false := fun halive => absurd (hterm.symm.trans halive) (by decide)
  exact ⟨hpriority, hprincipal, hlocal, fun halive => absurd halive hnot, fun halive => absurd halive hnot⟩

theorem micro {scope : Scope} (h : s.Placed cfg) (hwf : s.WF) (hm : Micro cfg scope s s') :
    s'.Placed cfg := by
  cases hm with
  | flags => exact h.congr rfl rfl rfl rfl rfl
  | sockets => exact h.congr rfl rfl rfl rfl rfl
  | connect => exact h.congr rfl rfl rfl rfl rfl
  | connection => exact h.congr rfl rfl rfl rfl rfl
  | cleanClose => exact h.congr rfl rfl rfl rfl rfl
  | reader => exact h.congr rfl rfl rfl rfl rfl
  | gone => exact h.congr rfl rfl rfl rfl rfl
  | say => exact h.congr rfl rfl rfl rfl rfl
  | @accept c i conn session sequence record f _ _ ha _ _ =>
    obtain ⟨m, now, registered, priority, executionTimeout, queueTimeout, hrecord⟩ := ha.fresh
    have hstate : record.state = .acceptedQueued := by rw [hrecord]; rfl
    have hlocal : record.localFuture = none := by rw [hrecord]; rfl
    have hdigest : record.digest = (cfg.sha256 record.payload).text := by rw [hrecord]; rfl
    have happend := h.append hstate hlocal hdigest
    exact happend.congr rfl rfl rfl rfl rfl
  | watermark => exact h.congr rfl rfl rfl rfl rfl
  | @start r record now _ _ hr hstate hexp hsub =>
    refine h.setRecord (fun record' hr' => ?_) fun _ _ _ => rfl
    rw [hr] at hr'
    cases hr'
    exact ⟨rfl, rfl, rfl, fun _ => congrArg RequestState.terminal hstate, fun _ hnot => absurd hsub hnot⟩
  | claim => exact h.setRecord (fun _ _ => ⟨rfl, rfl, rfl, id, fun _ _ => ⟨rfl, rfl, rfl⟩⟩) fun _ _ hw => hw.1
  | @emptied r record _ hr hsub =>
    refine h.setRecord (fun record' hr' => ?_) fun _ _ hw => hw.1
    rw [hr] at hr'
    cases hr'
    exact ⟨rfl, rfl, rfl, id, fun _ hnot => absurd hsub hnot⟩
  | stage _ hidle hroom hpop hr hstate => exact h.stage hidle hroom hpop hr
  | requeue _ hfull hr => exact h.requeue hwf hfull
  | finish _ _ hr halive ht => exact h.finish ht.state
  | @finishStaged r record t _ _ hr halive hlocal ht =>
    refine h.setRecord (fun _ _ => .of_terminal rfl rfl rfl ht.state) fun record' hr' hw => ?_
    rw [hr] at hr'
    cases hr'
    rw [hw.2] at hlocal
    cases hlocal
  | @retire r record _ hr hterm hlive hl =>
    have hset : State.Placed cfg (s.setRecord r fun record =>
        { record with reservationReleased := true, payload := [], terminalPayload := [] }) := by
      refine h.setRecord (fun record' hr' => ?_) fun _ _ hw => hw.1
      rw [hr] at hr'
      cases hr'
      exact .of_terminal rfl rfl rfl hterm
    exact hset.congr rfl rfl rfl rfl rfl
  | @unregister i session _ hs hempty _ =>
    have hcongr : (s.unregister i).Placed cfg := by
      unfold State.unregister
      rw [hs]
      dsimp only
      split <;> exact h.congr rfl rfl rfl rfl rfl
    exact hcongr
  | register => exact h.congr rfl rfl rfl rfl rfl
  | work hw => exact h.work hwf hw

end State.Placed

end Deadpool.Remote.Broker
