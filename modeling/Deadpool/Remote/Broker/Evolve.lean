import Deadpool.Remote.Broker.Micro

/-!
# The broker: how a request changes

`Request.Evolves` relates two moments in the life of one request: what names it stays, its state only
moves from `ACCEPTED_QUEUED` to `RUNNING` to a terminal one, and what it ended with stays.

Principal results: `Micro.requests` — what one change of the broker does to its requests.
`Micros.evolves` — the changes of a request are of this kind.
-/

set_option autoImplicit false

namespace Deadpool.Remote

/-- The moves of a request: `ACCEPTED_QUEUED`, `RUNNING`, terminal, in this order. -/
inductive RequestState.Moves : RequestState → RequestState → Prop
  | stay {a : RequestState} : Moves a a
  | queued {b : RequestState} : Moves .acceptedQueued b
  | running {b : RequestState} : b.terminal = true → Moves .running b

theorem RequestState.Moves.trans {a b c : RequestState} (hab : a.Moves b) (hbc : b.Moves c) :
    a.Moves c := by
  cases hab with
  | stay => exact hbc
  | queued => exact .queued
  | running hb =>
    cases hbc with
    | stay => exact .running hb
    | queued => cases hb
    | running hc => cases hb

theorem RequestState.Moves.left_queue {a b : RequestState} (hab : a.Moves b)
    (ha : a ≠ .acceptedQueued) : b ≠ .acceptedQueued := by
  rintro rfl
  cases hab with
  | stay => exact ha rfl
  | queued => exact ha rfl
  | running hb => cases hb

namespace Broker

open Deadpool.Py

structure Request.Evolves (record record' : Request) : Prop where
  requestId : record'.requestId = record.requestId
  session : record'.session = record.session
  connection : record'.connection = record.connection
  principal : record'.principal = record.principal
  digest : record'.digest = record.digest
  priority : record'.priority = record.priority
  queueDeadline : record'.queueDeadline = record.queueDeadline
  groupId : record'.groupId = record.groupId
  reserved : record'.reservedResultBytes = record.reservedResultBytes
  moves : record.state.Moves record'.state
  frozen : record.state.terminal = true → record'.state = record.state ∧
    record'.terminalKind = record.terminalKind ∧ record'.terminalControl = record.terminalControl ∧
    record'.claims = record.claims
  payload : record.state.terminal = true → record'.reservationReleased = false →
    record'.terminalPayload = record.terminalPayload
  released : record.reservationReleased = true → record'.reservationReleased = true
  started : record.state ≠ .acceptedQueued → record'.startedAt = record.startedAt
  claims : record.claims <+: record'.claims

namespace Request.Evolves

variable {a b c : Request}

theorem refl (a : Request) : a.Evolves a :=
  ⟨rfl, rfl, rfl, rfl, rfl, rfl, rfl, rfl, rfl, .stay, fun _ => ⟨rfl, rfl, rfl, rfl⟩, fun _ _ => rfl, id,
    fun _ => rfl, List.prefix_refl _⟩

theorem terminal (h : a.Evolves b) (ha : a.state.terminal = true) : b.state.terminal = true := by
  rw [(h.frozen ha).1, ha]

theorem alive (h : a.Evolves b) (hb : b.state.terminal = false) : a.state.terminal = false := by
  cases ha : a.state.terminal with
  | false => rfl
  | true =>
    rw [h.terminal ha] at hb
    cases hb

theorem queued (h : a.Evolves b) (hb : b.state = .acceptedQueued) : a.state = .acceptedQueued := by
  by_cases ha : a.state = .acceptedQueued
  · exact ha
  · exact absurd hb (h.moves.left_queue ha)

theorem trans (hab : a.Evolves b) (hbc : b.Evolves c) : a.Evolves c where
  requestId := hbc.requestId.trans hab.requestId
  session := hbc.session.trans hab.session
  connection := hbc.connection.trans hab.connection
  principal := hbc.principal.trans hab.principal
  digest := hbc.digest.trans hab.digest
  priority := hbc.priority.trans hab.priority
  queueDeadline := hbc.queueDeadline.trans hab.queueDeadline
  groupId := hbc.groupId.trans hab.groupId
  reserved := hbc.reserved.trans hab.reserved
  moves := hab.moves.trans hbc.moves
  frozen := by
    intro ha
    obtain ⟨hs, hk, hc, hl⟩ := hab.frozen ha
    obtain ⟨hs', hk', hc', hl'⟩ := hbc.frozen (hab.terminal ha)
    exact ⟨hs'.trans hs, hk'.trans hk, hc'.trans hc, hl'.trans hl⟩
  payload := by
    intro ha hc
    have hb : b.reservationReleased = false := by
      cases hb : b.reservationReleased with
      | false => rfl
      | true =>
        rw [hbc.released hb] at hc
        cases hc
    exact (hbc.payload (hab.terminal ha) hc).trans (hab.payload ha hb)
  released := fun ha => hbc.released (hab.released ha)
  started := fun ha => (hbc.started (hab.moves.left_queue ha)).trans (hab.started ha)
  claims := hab.claims.trans hbc.claims

end Request.Evolves

/-- Every request of a state is in the next one, further on in its life. -/
def State.Evolves (s s' : State) : Prop :=
  ∀ (r : Nat) (record : Request), s.records[r]? = some record →
    ∃ record' : Request, s'.records[r]? = some record' ∧ record.Evolves record'

namespace State.Evolves

variable {s s' s'' : State}

theorem refl (s : State) : s.Evolves s := fun _ record hr => ⟨record, hr, .refl record⟩

theorem trans (h : s.Evolves s') (h' : s'.Evolves s'') : s.Evolves s'' := by
  intro r record hr
  obtain ⟨record', hr', he⟩ := h r record hr
  obtain ⟨record'', hr'', he'⟩ := h' r record' hr'
  exact ⟨record'', hr'', he.trans he'⟩

/-- What the record of a later state was. -/
theorem back (h : s.Evolves s') {r : Nat} {record record' : Request} (hr : s.records[r]? = some record)
    (hr' : s'.records[r]? = some record') : record.Evolves record' := by
  obtain ⟨record₁, hr₁, he⟩ := h r record hr
  rw [hr'] at hr₁
  cases hr₁
  exact he

end State.Evolves

/-- What one change of the broker does to a request. -/
inductive Request.Change (scope : Scope) (r : Nat) : Request → Request → Prop
  | same {record : Request} : Change scope r record record
  | start {record : Request} {now : Clock} : scope.starts r → record.state = .acceptedQueued →
      record.expired now = false → Change scope r record (Request.start now record)
  | claim {record : Request} {pid : Nat} : record.state = .running →
      Change scope r record { record with claims := record.claims ++ [pid] }
  | plain {record : Request} {payload : Bytes} {localFuture : Option Nat} :
      Change scope r record { record with payload, localFuture }
  | finish {record : Request} {t : Terminal} : scope.ends r → record.state.terminal = false → t.Ends →
      Change scope r record (Request.finish t record)
  | retire {record : Request} : record.state.terminal = true → Change scope r record
      { record with reservationReleased := true, payload := [], terminalPayload := [] }

theorem Request.Change.evolves {scope : Scope} {r : Nat} {record record' : Request}
    (h : Request.Change scope r record record') : record.Evolves record' := by
  cases h with
  | same => exact .refl record
  | @start now _ hqueued =>
    have hnot : ¬ record.state.terminal = true := by rw [hqueued]; exact fun h => nomatch h
    have hmoves : record.state.Moves (Request.start now record).state := by rw [hqueued]; exact .queued
    exact ⟨rfl, rfl, rfl, rfl, rfl, rfl, rfl, rfl, rfl, hmoves, fun h => absurd h hnot,
      fun h => absurd h hnot, id, fun h => absurd hqueued h, List.prefix_refl _⟩
  | claim hrunning =>
    have hnot : ¬ record.state.terminal = true := by rw [hrunning]; exact fun h => nomatch h
    exact ⟨rfl, rfl, rfl, rfl, rfl, rfl, rfl, rfl, rfl, .stay, fun h => absurd h hnot,
      fun _ _ => rfl, id, fun _ => rfl, List.prefix_append _ _⟩
  | plain =>
    exact ⟨rfl, rfl, rfl, rfl, rfl, rfl, rfl, rfl, rfl, .stay, fun _ => ⟨rfl, rfl, rfl, rfl⟩,
      fun _ _ => rfl, id, fun _ => rfl, List.prefix_refl _⟩
  | @finish t _ halive ht =>
    have hnot : ¬ record.state.terminal = true := by rw [halive]; exact fun h => nomatch h
    have hmoves : record.state.Moves t.state := by
      cases hs : record.state with
      | acceptedQueued => exact .queued
      | running => exact .running ht.state
      | _ => rw [hs] at halive; cases halive
    exact ⟨rfl, rfl, rfl, rfl, rfl, rfl, rfl, rfl, rfl, hmoves, fun h => absurd h hnot,
      fun h => absurd h hnot, id, fun _ => rfl, List.prefix_refl _⟩
  | retire =>
    exact ⟨rfl, rfl, rfl, rfl, rfl, rfl, rfl, rfl, rfl, .stay, fun _ => ⟨rfl, rfl, rfl, rfl⟩,
      (fun _ h => nomatch h), fun _ => rfl, fun _ => rfl, List.prefix_refl _⟩

section Changes

variable {cfg : Config} {scope : Scope} {s s' : State}

theorem records_requeue (r : Nat) : (s.requeue r).records =
    s.records.modify r fun record => { record with localFuture := none } := by
  unfold State.requeue
  dsimp only
  split
  · rfl
  · split <;> rfl

theorem records_unregister (i : Nat) : (s.unregister i).records = s.records := by
  unfold State.unregister
  split
  · rfl
  · split <;> rfl

/-- The record of an accepted submission. -/
def State.Enters (cfg : Config) (scope : Scope) (s : State) (r : Nat) (record : Request) : Prop :=
  r = s.records.length ∧ ∃ c i session sequence, s.Admits cfg c i session sequence record ∧
    scope.session i ∧ scope.accepts s i record.requestId

/-- The requests after a change: those before it, and an accepted one. -/
structure Requests (cfg : Config) (scope : Scope) (s s' : State) : Prop where
  forth : ∀ (r : Nat) (record : Request), s.records[r]? = some record → ∃ record' : Request,
    s'.records[r]? = some record' ∧ Request.Change scope r record record'
  back : ∀ (r : Nat) (record' : Request), s'.records[r]? = some record' →
    (∃ record : Request, s.records[r]? = some record ∧ Request.Change scope r record record') ∨
      s.Enters cfg scope r record'

theorem Requests.of_eq (h : s'.records = s.records) : Requests cfg scope s s' := by
  constructor
  · intro r record hr
    exact ⟨record, by rw [h]; exact hr, .same⟩
  · intro r record' hr
    rw [h] at hr
    exact .inl ⟨record', hr, .same⟩

theorem Requests.modify {r : Nat} {g : Request → Request} (h : s'.records = s.records.modify r g)
    (hg : ∀ record : Request, s.records[r]? = some record →
      Request.Change scope r record (g record)) : Requests cfg scope s s' := by
  have hchange : ∀ (r' : Nat) (record : Request), s.records[r']? = some record →
      Request.Change scope r' record (if r = r' then g record else record) := by
    intro r' record hr
    split
    · rename_i he
      subst he
      exact hg record hr
    · exact .same
  constructor
  · intro r' record hr
    rw [h]
    exact ⟨_, getElem?_modify_of_some hr, hchange r' record hr⟩
  · intro r' record' hr
    rw [h] at hr
    obtain ⟨record, hrec, rfl⟩ := getElem?_modify_some hr
    exact .inl ⟨record, hrec, hchange r' record hrec⟩

/-- An assignment to a request whose record is known. -/
theorem Requests.assign {r : Nat} {record : Request} {g : Request → Request}
    (hr : s.records[r]? = some record) (hg : Request.Change scope r record (g record))
    (h : s'.records = s.records.modify r g) : Requests cfg scope s s' := by
  refine .modify h fun record' hr' => ?_
  rw [hr] at hr'
  cases hr'
  exact hg

theorem Micro.requests (hm : Micro cfg scope s s') : Requests cfg scope s s' := by
  cases hm with
  | flags => exact .of_eq rfl
  | sockets => exact .of_eq rfl
  | connect => exact .of_eq rfl
  | connection => exact .of_eq rfl
  | cleanClose => exact .of_eq rfl
  | reader => exact .of_eq rfl
  | gone => exact .of_eq rfl
  | say => exact .of_eq rfl
  | @accept c i conn session sequence record _ hsession haccepts ha =>
    constructor
    · exact fun r record hr => ⟨record, getElem?_append_of_some hr, .same⟩
    · intro r record' hr
      rcases getElem?_append_some hr with hold | ⟨rfl, rfl⟩
      · exact .inl ⟨record', hold, .same⟩
      · exact .inr ⟨rfl, c, i, session, sequence, ha, hsession, haccepts⟩
  | watermark => exact .of_eq rfl
  | start _ hstarts hr hstate hexp _ => exact .assign hr (.start hstarts hstate hexp) rfl
  | claim _ hr hstate => exact .assign hr (.claim hstate) rfl
  | emptied => exact .modify rfl fun _ _ => .plain
  | stage => exact .modify rfl fun _ _ => .plain
  | requeue => exact .modify (records_requeue _) fun _ _ => .plain
  | finish _ hends hr halive ht => exact .assign hr (.finish hends halive ht.toEnds) rfl
  | finishStaged _ hends hr halive _ ht => exact .assign hr (.finish hends halive ht.toEnds) rfl
  | retire _ hr hterm => exact .assign hr (.retire hterm) rfl
  | unregister => exact .of_eq (records_unregister _)
  | register => exact .of_eq rfl
  | work hw => cases hw <;> exact .of_eq rfl

/-- A session keeps its client and its connection, and its watermark only rises. -/
structure Session.Grows (session session' : Session) : Prop where
  clientId : session'.clientId = session.clientId
  connection : session'.connection = session.connection
  watermark : session.watermark ≤ session'.watermark

theorem Session.Grows.refl (session : Session) : session.Grows session := ⟨rfl, rfl, le_refl _⟩

theorem Session.Grows.trans {a b c : Session} (h : a.Grows b) (h' : b.Grows c) : a.Grows c :=
  ⟨h'.clientId.trans h.clientId, h'.connection.trans h.connection, h.watermark.trans h'.watermark⟩

theorem sessions_requeue (r : Nat) : (s.requeue r).sessions = s.sessions := by
  unfold State.requeue
  dsimp only
  split
  · rfl
  · split <;> rfl

theorem sessions_unregister (i : Nat) : (s.unregister i).sessions = s.sessions := by
  unfold State.unregister
  split
  · rfl
  · split <;> rfl

/-- Every session of a state is in the next one. -/
theorem Micro.sessions (hm : Micro cfg scope s s') {i : Nat} {session : Session}
    (hs : s.sessions[i]? = some session) :
    ∃ session' : Session, s'.sessions[i]? = some session' ∧ session.Grows session' := by
  have hsame : s'.sessions = s.sessions →
      ∃ session' : Session, s'.sessions[i]? = some session' ∧ session.Grows session' :=
    fun h => ⟨session, h ▸ hs, .refl session⟩
  cases hm with
  | @accept c j conn session₀ sequence record f _ _ ha _ _ =>
    obtain ⟨m, now, registered, priority, executionTimeout, queueTimeout, hrecord⟩ := ha.fresh
    have hj : record.session = j := by
      rw [hrecord]
      rfl
    refine ⟨_, getElem?_modify_of_some (getElem?_modify_of_some hs), ?_⟩
    by_cases he : j = i
    · subst he
      have hopened := ha.opened
      rw [hs] at hopened
      cases hopened
      rw [hj, if_pos rfl, if_pos rfl]
      exact ⟨rfl, rfl, le_of_lt ha.watermark⟩
    · rw [hj, if_neg he, if_neg he]
      exact .refl session
  | @watermark j session₀ sequence _ hs₀ hlt =>
    refine ⟨_, getElem?_modify_of_some hs, ?_⟩
    split
    · rename_i he
      subst he
      rw [hs] at hs₀
      cases hs₀
      exact ⟨rfl, rfl, le_of_lt hlt⟩
    · exact .refl session
  | retire =>
    refine ⟨_, getElem?_modify_of_some hs, ?_⟩
    split
    · exact ⟨rfl, rfl, le_refl _⟩
    · exact .refl session
  | register => exact ⟨session, getElem?_append_of_some hs, .refl session⟩
  | requeue => exact hsame (sessions_requeue _)
  | unregister => exact hsame (sessions_unregister _)
  | work hw => exact hsame (by cases hw <;> rfl)
  | _ => exact hsame rfl

theorem Micros.sessions (hm : Micros cfg scope s s') {i : Nat} {session : Session}
    (hs : s.sessions[i]? = some session) :
    ∃ session' : Session, s'.sessions[i]? = some session' ∧ session.Grows session' := by
  induction hm with
  | refl => exact ⟨session, hs, .refl session⟩
  | tail _ hstep ih =>
    obtain ⟨session', hs', hgrows⟩ := ih
    obtain ⟨session'', hs'', hgrows'⟩ := hstep.sessions hs'
    exact ⟨session'', hs'', hgrows.trans hgrows'⟩

theorem Micro.evolves (hm : Micro cfg scope s s') : s.Evolves s' := by
  intro r record hr
  obtain ⟨record', hr', hchange⟩ := hm.requests.forth r record hr
  exact ⟨record', hr', hchange.evolves⟩

theorem Micros.evolves (hm : Micros cfg scope s s') : s.Evolves s' := by
  induction hm with
  | refl => exact .refl s
  | tail _ hstep ih => exact ih.trans hstep.evolves

theorem Micros.length_le (hm : Micros cfg scope s s') : s.records.length ≤ s'.records.length := by
  by_contra hlt
  have hr : s.records[s'.records.length]? = some s.records[s'.records.length] :=
    List.getElem?_eq_getElem (by omega)
  obtain ⟨record', hr', -⟩ := hm.evolves _ _ hr
  exact absurd (lt_of_getElem? hr') (Nat.lt_irrefl _)

end Changes

end Broker

end Deadpool.Remote
