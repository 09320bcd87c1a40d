import Deadpool.Remote.Broker.CleanClose
import Deadpool.Remote.Broker.Reservation

/-!
# The broker: what a disconnected session leaves behind

After `_disconnect` the requests of a session that have ended are to be removed, at once or when they
end, and their reservations released.  `_complete_local` does so.  Two paths do not: a submission that
is accepted on a session which is no longer registered, for `_remove_request_locked` passes it by; and
the expiry of a queued request, or a sweep of `_finish_shutdown`, whose cancellation of the local future
runs no `_complete_local`.

* `releases`             : a step takes neither path;
* `TidyBut.micro`        : requests that have ended on a connection that has left, but for exceptions;
* `State.Tidy.step`      : one step;
* `disconnected_requests_released` : runs of such steps leave nothing behind.
-/

set_option autoImplicit false

namespace Deadpool.Remote.Broker

open Deadpool.Py Deadpool.Lts

/-! ## Steps that leave nothing behind -/

/-- `_disconnect` has run. -/
def Connection.left (conn : Connection) : Bool :=
  match conn.reader with
  | .gone => true
  | _ => false

def State.left (s : State) (c : Nat) : Bool := (s.connections[c]?.map Connection.left).getD false

/-- To cancel the local future of the request runs `_complete_local`. -/
def State.watches (s : State) (record : Request) : Bool :=
  ((record.localFuture.bind fun f => s.futures[f]?).map fun fut =>
    fut.attached && fut.pending).getD false

/-- The connection of the request has left, and to cancel its local future does not remove it. -/
def State.stranded (s : State) (record : Request) : Bool :=
  s.left record.connection && !s.watches record

/-- What a turn of the shutdown thread ends. -/
def State.sweeps (s : State) (now : Clock) (record : Request) : Bool :=
  let late := (s.shutdownDeadline.map fun d => Float64.le d now.reading).getD false
  match record.state with
  | .acceptedQueued => s.shutdownCancelFutures || late
  | .running => late
  | _ => false

/-- No submission is accepted on a session that is not registered, and no stranded request ends outside
of `_complete_local`. -/
def releases (cfg : Config) (s : State) (l : Label) : Bool :=
  match l.action with
  | .handle c now grant _ =>
    match s.connections[c]? with
    | some conn =>
      match conn.reader, conn.session with
      | .handling m, some i =>
        !(decide (m.message.kind = .submit) && s.accepts cfg c m.message now grant) || decide (i ∈ s.live)
      | _, _ => true
    | none => true
  | .dispatch now => s.requests.values.all fun r => (s.records[r]?.map fun record =>
      !(decide (record.state = .acceptedQueued) && record.expired now && s.stranded record)).getD true
  | .claim f _ now => ((s.futures[f]?.bind fun fut => s.records[fut.record]?).map fun record =>
      !(decide (record.state = .acceptedQueued) && record.expired now && s.stranded record)).getD true
  | .shutdownTurn now => s.requests.values.all fun r => (s.records[r]?.map fun record =>
      !(s.sweeps now record && s.stranded record)).getD true
  | _ => true

/-! ## Connections that have left -/

section Changes

variable {cfg : Config} {scope : Scope} {s s' : State}

theorem left_of_some {c : Nat} {conn : Connection} (hc : s.connections[c]? = some conn) :
    s.left c = conn.left := by
  unfold State.left
  rw [hc]
  rfl

theorem left_eq_true {c : Nat} (h : s.left c = true) :
    ∃ conn : Connection, s.connections[c]? = some conn ∧ conn.reader = .gone := by
  unfold State.left at h
  cases hc : s.connections[c]? with
  | none =>
    rw [hc] at h
    cases h
  | some conn =>
    rw [hc] at h
    refine ⟨conn, rfl, ?_⟩
    have hleft : conn.left = true := h
    unfold Connection.left at hleft
    split at hleft
    · assumption
    · cases hleft

/-- No connection leaves by a change in a scope that lets none leave. -/
theorem Micro.left (hm : Micro cfg scope s s') (hleaves : ∀ c, ¬ scope.leaves c) {c : Nat}
    {conn : Connection} (hc : s.connections[c]? = some conn) (hleft : s'.left c = true) :
    s.left c = true := by
  -- an assignment to one connection
  have hset : ∀ {c' : Nat} {f : Connection → Connection},
      s'.connections = s.connections.modify c' f →
      (∀ conn : Connection, s.connections[c']? = some conn → (f conn).left = true →
        conn.left = true) → s.left c = true := by
    intro c' f heq hf
    obtain ⟨conn', hc', hgone⟩ := left_eq_true hleft
    rw [heq] at hc'
    obtain ⟨conn₀, hc₀, rfl⟩ := getElem?_modify_some hc'
    rw [left_of_some hc₀]
    split at hgone
    · rename_i he
      subst he
      refine hf conn₀ hc₀ ?_
      unfold Connection.left
      rw [hgone]
    · unfold Connection.left
      rw [hgone]
  have hsame : s'.connections = s.connections → s.left c = true := by
    intro heq
    unfold State.left at hleft ⊢
    rw [← heq]
    exact hleft
  have hquiet : ∀ {conn conn' : Connection}, conn'.reader = conn.reader → conn'.left = true →
      conn.left = true := by
    intro conn conn' hreader h
    unfold Connection.left at h ⊢
    rw [← hreader]
    exact h
  cases hm with
  | connect =>
    unfold State.left at hleft ⊢
    rw [getElem?_append_of_some hc] at hleft
    rw [hc]
    exact hleft
  | connection hf => exact hset rfl fun conn _ => hquiet (hf conn).reader
  | cleanClose => exact hset rfl fun _ _ h => h
  | reader _ hnext =>
    refine hset rfl fun conn _ h => ?_
    unfold Connection.left at h
    dsimp only at h
    split at h
    · exact absurd rfl hnext
    · cases h
  | gone hl => exact absurd hl (hleaves _)
  | say => exact hset rfl fun _ _ h => h
  | @accept c' _ conn' _ _ _ f _ _ _ hc' hf =>
    refine hset (show s.connections.modify c' f = _ from rfl) fun conn'' hc'' => ?_
    rw [hc'] at hc''
    cases hc''
    rcases hf with ⟨hq, -⟩ | ⟨-, heq⟩
    · exact hquiet hq.reader
    · rw [heq]
      exact hquiet rfl
  | requeue => exact hsame (connections_requeue _)
  | unregister => exact hsame (connections_unregister _)
  | @register c' _ session =>
    have hcombined : ((s.register c' session).setReader c' .welcoming).connections =
        s.connections.modify c' fun conn =>
          { conn with session := some s.sessions.length, reader := .welcoming } :=
      List.modify_modify_eq _ _ _ _
    exact hset hcombined fun _ _ h => nomatch h
  | work hw => exact hsame (by cases hw <;> rfl)
  | flags | sockets | watermark | start | claim | emptied | stage | finish | finishStaged | retire =>
    exact hsame rfl

/-! ## Requests that have ended -/

/-- The requests that have ended on a connection that has left are removed, but for some. -/
def State.TidyBut (X : Nat → Prop) (s : State) : Prop :=
  ∀ (r : Nat) (record : Request), s.records[r]? = some record → record.state.terminal = true →
    record.reservationReleased = false → s.left record.connection = true → X r

theorem State.TidyBut.micro {X : Nat → Prop} (h : s.TidyBut X) (hwf : s.WF)
    (hends : ∀ r, scope.ends r → X r) (hleaves : ∀ c, ¬ scope.leaves c) (hm : Micro cfg scope s s') :
    s'.TidyBut X := by
  intro r record' hr' hterm hheld hleft
  rcases hm.requests.back r record' hr' with ⟨record, hr, hchange⟩ | ⟨-, _, _, _, _, ha, -⟩
  · have he := hchange.evolves
    obtain ⟨conn, hc, -⟩ := hwf.connected hr
    have hleft' : s.left record.connection = true := by
      rw [he.connection] at hleft
      exact hm.left hleaves hc hleft
    have hheld' : record.reservationReleased = false := by
      rw [← Bool.not_eq_true] at hheld ⊢
      exact fun hreleased => hheld (he.released hreleased)
    cases halive : record.state.terminal with
    | true => exact h r record hr halive hheld' hleft'
    | false =>
      cases hchange with
      | finish hr => exact hends r hr
      | start => cases hterm
      | retire hended => rw [halive] at hended; cases hended
      | same | claim | plain => rw [halive] at hterm; cases hterm
  · obtain ⟨m, now, registered, priority, executionTimeout, queueTimeout, hrecord⟩ := ha.fresh
    rw [hrecord] at hterm
    cases hterm

theorem State.TidyBut.micros {X : Nat → Prop} (h : s.TidyBut X) (hinv : s.Inv cfg)
    (hends : ∀ r, scope.ends r → X r) (hleaves : ∀ c, ¬ scope.leaves c)
    (hm : Micros cfg scope s s') : s'.TidyBut X := by
  induction hm with
  | refl => exact h
  | tail hprev hstep ih => exact ih.micro (hinv.micros hprev).wf hends hleaves hstep

/-- The connection of a request has not left in the meantime. -/
theorem Micros.left (hm : Micros cfg scope s s') (hinv : s.Inv cfg) (hleaves : ∀ c, ¬ scope.leaves c)
    {r : Nat} {record : Request} (hr : s.records[r]? = some record)
    (hleft : s'.left record.connection = true) : s.left record.connection = true := by
  induction hm with
  | refl => exact hleft
  | tail hprev hstep ih =>
    obtain ⟨record', hr', he⟩ := Micros.evolves hprev r record hr
    obtain ⟨conn, hc, -⟩ := (hinv.micros hprev).wf.connected hr'
    rw [he.connection] at hc
    exact ih (hstep.left hleaves hc hleft)

/-! ## Sessions that are registered -/

/-- A request that holds a reservation belongs to a registered session. -/
def State.Kept (s : State) : Prop :=
  ∀ (r : Nat) (record : Request), s.records[r]? = some record → record.reservationReleased = false →
    record.session ∈ s.live

theorem Micro.live (hm : Micro cfg scope s s') {i : Nat} (hi : i ∈ s.live) :
    i ∈ s'.live ∨ ∃ session : Session, s.sessions[i]? = some session ∧ session.requests = [] := by
  cases hm with
  | @unregister i' session _ hs hempty _ =>
    by_cases he : i = i'
    · subst he
      exact .inr ⟨session, hs, hempty⟩
    · left
      unfold State.unregister
      rw [hs]
      dsimp only
      rw [if_pos hempty]
      exact List.mem_filter.mpr ⟨hi, decide_eq_true he⟩
  | register => exact .inl (List.mem_append_left _ hi)
  | requeue _ _ hr =>
    rw [requeue_eq hr]
    exact .inl hi
  | work hw => exact .inl (by cases hw <;> exact hi)
  | _ => exact .inl hi

theorem State.Kept.micro (h : s.Kept) (hwf : s.WF) (hm : Micro cfg scope s s')
    (hnew : ∀ (r : Nat) (record : Request), s'.records[r]? = some record → s.Enters cfg scope r record →
      record.session ∈ s.live) : s'.Kept := by
  intro r record' hr' hheld
  -- a session with a request in its table stays
  have hstays : ∀ i, i ∈ s.live →
      (∀ session : Session, s.sessions[i]? = some session → session.requests ≠ []) → i ∈ s'.live := by
    intro i hi hsome
    rcases hm.live hi with hlive | ⟨session, hs, hempty⟩
    · exact hlive
    · exact absurd hempty (hsome session hs)
  rcases hm.requests.back r record' hr' with ⟨record, hr, hchange⟩ | henters
  · have he := hchange.evolves
    have hheld' : record.reservationReleased = false := by
      rw [← Bool.not_eq_true] at hheld ⊢
      exact fun hreleased => hheld (he.released hreleased)
    rw [he.session]
    refine hstays _ (h r record hr hheld') fun session hs hempty => ?_
    obtain ⟨session', hs', hmem⟩ := hwf.listed r record hr hheld'
    rw [hs] at hs'
    cases hs'
    rw [hempty] at hmem
    cases hmem
  · have hi := hnew r record' hr' henters
    -- a change that accepts a request leaves the registered sessions
    obtain ⟨hlen, -⟩ := henters
    have hgrown : s'.records.length ≠ s.records.length := by
      have := lt_of_getElem? hr'
      omega
    cases hm with
    | accept => exact hi
    | unregister => exact absurd (congrArg List.length (records_unregister _)) hgrown
    | requeue => exact absurd (by rw [records_requeue, List.length_modify]) hgrown
    | register => exact absurd rfl hgrown
    | work hw => exact absurd (by cases hw <;> rfl) hgrown
    | _ => exact hi

theorem State.Kept.micros (h : s.Kept) (hinv : s.Inv cfg)
    (haccepts : ∀ s i k, scope.accepts s i k → i ∈ s.live) (hm : Micros cfg scope s s') : s'.Kept := by
  induction hm with
  | refl => exact h
  | tail hprev hstep ih =>
    refine ih.micro (hinv.micros hprev).wf hstep fun r record _ henters => ?_
    obtain ⟨-, c, i, session, sequence, ha, -, hi⟩ := henters
    obtain ⟨m, now, registered, priority, executionTimeout, queueTimeout, hrecord⟩ := ha.fresh
    have hsession : record.session = i := by
      rw [hrecord]
      rfl
    rw [hsession]
    exact haccepts _ i _ hi

/-- Nothing is accepted. -/
theorem State.Kept.micros_of_length (h : s.Kept) (hinv : s.Inv cfg) (hm : Micros cfg scope s s')
    (hlen : s'.records.length = s.records.length) : s'.Kept := by
  induction hm with
  | refl => exact h
  | @tail u v hprev hstep ih =>
    have hfirst := Micros.length_le hprev
    have hlast := Micros.length_le (.single hstep)
    refine (ih (by omega)).micro (hinv.micros hprev).wf hstep fun r record hr henters => ?_
    have := lt_of_getElem? hr
    rw [henters.1] at this
    omega

/-! ## Removal -/

theorem releaseReservation_eq {r : Nat} {record : Request} : ∃ sessions outcomes bytes,
    s.releaseReservation r record = { s with
      records := if record.reservationReleased then s.records
        else s.records.modify r fun record => { record with reservationReleased := true }
      sessions := sessions, reservedOutcomes := outcomes, reservedOutcomeBytes := bytes } := by
  unfold State.releaseReservation
  split
  · exact ⟨s.sessions, s.reservedOutcomes, s.reservedOutcomeBytes, rfl⟩
  · exact ⟨_, _, _, rfl⟩

theorem removeRequest_eq_of_live {r : Nat} {record : Request} (hr : s.records[r]? = some record)
    (hlive : record.session ∈ s.live) : ∃ sessions requests outcomes bytes,
      s.removeRequest r = { s with
        records := (if record.reservationReleased then s.records
          else s.records.modify r fun record => { record with reservationReleased := true }).modify r
            fun record => { record with payload := [], terminalPayload := [] }
        sessions := sessions, requests := requests, reservedOutcomes := outcomes
        reservedOutcomeBytes := bytes } := by
  obtain ⟨sessions, outcomes, bytes, heq⟩ := @releaseReservation_eq s r record
  unfold State.removeRequest
  rw [hr]
  dsimp only
  rw [if_pos hlive, heq]
  exact ⟨_, _, _, _, rfl⟩

/-- What `_purge_session_locked` leaves of a request, for one that it looks at. -/
structure Request.Looked (record record' : Request) : Prop where
  state : record'.state = record.state
  session : record'.session = record.session
  released : record.reservationReleased = true → record'.reservationReleased = true

theorem removeTerminal_looked {r r' : Nat} {record : Request} (hr : s.records[r']? = some record) :
    (s.removeTerminal r).live = s.live ∧ ∃ record' : Request,
      (s.removeTerminal r).records[r']? = some record' ∧ record.Looked record' ∧
        (r' = r → record.state.terminal = true → record.session ∈ s.live →
          record'.reservationReleased = true) := by
  have hstay : record.Looked record := ⟨rfl, rfl, id⟩
  unfold State.removeTerminal
  cases hr₀ : s.records[r]? with
  | none =>
    refine ⟨rfl, record, hr, hstay, fun he => ?_⟩
    rw [he, hr₀] at hr
    cases hr
  | some record₀ =>
    dsimp only
    by_cases hends : record₀.state.terminal = true ∧ record₀.session ∈ s.live
    · obtain ⟨sessions, requests, outcomes, bytes, heq⟩ := removeRequest_eq_of_live hr₀ hends.2
      rw [if_pos hends.1, heq]
      refine ⟨rfl, ?_⟩
      dsimp only
      by_cases he : r' = r
      · subst he
        rw [hr₀] at hr
        cases hr
        split
        · rename_i hreleased
          exact ⟨_, getElem?_modify_self hr₀, ⟨rfl, rfl, id⟩, fun _ _ _ => hreleased⟩
        · exact ⟨_, getElem?_modify_self (getElem?_modify_self hr₀), ⟨rfl, rfl, fun _ => rfl⟩,
            fun _ _ _ => rfl⟩
      · refine ⟨record, ?_, hstay, fun h => absurd h he⟩
        rw [getElem?_modify_of_ne (Ne.symm he)]
        split
        · exact hr
        · exact (getElem?_modify_of_ne (Ne.symm he)).trans hr
    · have hsame : (if record₀.state.terminal = true then s.removeRequest r else s) = s := by
        split
        · rename_i hterm
          unfold State.removeRequest
          rw [hr₀]
          exact if_neg fun hlive => hends ⟨hterm, hlive⟩
        · rfl
      rw [hsame]
      refine ⟨rfl, record, hr, hstay, fun he hterm hlive => ?_⟩
      rw [he, hr₀] at hr
      cases hr
      exact absurd ⟨hterm, hlive⟩ hends

/-- The loop of `_purge_session_locked`. -/
theorem removeAll_released {r : Nat} (rs : List Nat) : ∀ {s : State} {record : Request},
    s.records[r]? = some record → record.state.terminal = true → record.session ∈ s.live →
    (r ∈ rs ∨ record.reservationReleased = true) → ∃ record' : Request,
      (rs.foldl State.removeTerminal s).records[r]? = some record' ∧
        record'.reservationReleased = true := by
  induction rs with
  | nil =>
    intro s record hr _ _ h
    rcases h with h | h
    · cases h
    · exact ⟨record, hr, h⟩
  | cons r₀ rs ih =>
    intro s record hr hterm hlive h
    obtain ⟨hlive', record', hr', hlooked, hself⟩ := removeTerminal_looked (r := r₀) hr
    refine ih hr' (hlooked.state ▸ hterm) (by rw [hlive', hlooked.session]; exact hlive) ?_
    rcases h with h | h
    · rcases List.mem_cons.mp h with he | hmem
      · exact .inr (hself he hterm hlive)
      · exact .inl hmem
    · exact .inr (hlooked.released h)

/-- A request in the table of a registered session, on a closed connection. -/
structure State.Enrolled (s : State) (r : Nat) (record : Request) : Prop where
  recorded : s.records[r]? = some record
  live : record.session ∈ s.live
  listed : ∃ session : Session, s.sessions[record.session]? = some session ∧
    r ∈ session.requests.values
  closed : s.closed record.connection = true

/-- One that has ended. -/
structure State.Removable (s : State) (r : Nat) (record : Request) : Prop
    extends s.Enrolled r record where
  ended : record.state.terminal = true

theorem State.Kept.enrolled (h : s.Kept) (hwf : s.WF) {r : Nat} {record : Request}
    (hr : s.records[r]? = some record) (hheld : record.reservationReleased = false)
    (hclosed : s.closed record.connection = true) : s.Enrolled r record := by
  obtain ⟨session, hs, hmem⟩ := hwf.listed r record hr hheld
  exact ⟨hr, h r record hr hheld, ⟨session, hs, List.mem_map_of_mem hmem⟩, hclosed⟩

/-- The reservation of the request is released. -/
def State.Released (s : State) (r : Nat) : Prop :=
  ∃ record : Request, s.records[r]? = some record ∧ record.reservationReleased = true

theorem State.Released.evolves {r : Nat} (h : s.Released r) (he : s.Evolves s') : s'.Released r := by
  obtain ⟨record, hr, hreleased⟩ := h
  obtain ⟨record', hr', hev⟩ := he r record hr
  exact ⟨record', hr', hev.released hreleased⟩

theorem purgeSession_released {r : Nat} {record : Request} (h : s.Removable r record) :
    (s.purgeSession record.session).Released r := by
  obtain ⟨session, hs, hmem⟩ := h.listed
  unfold State.purgeSession State.Released
  rw [hs]
  dsimp only
  rw [records_unregister]
  exact removeAll_released _ h.recorded h.ended h.live (.inl hmem)

theorem closed_setConnection {c c' : Nat} {f : Connection → Connection} (h : s.closed c = true)
    (hf : ∀ conn : Connection, conn.closed = true → (f conn).closed = true) :
    (s.setConnection c' f).closed c = true := by
  unfold State.closed at h ⊢
  unfold State.setConnection
  dsimp only
  rw [List.getElem?_modify]
  cases hc : s.connections[c]? with
  | none => rfl
  | some conn =>
    rw [hc] at h
    have hclosed : conn.closed = true := h
    show (if c' = c then f conn else conn).closed = true
    split
    · exact hf conn hclosed
    · exact hclosed

theorem closed_poll (cfg : Config) (c' : Nat) {c : Nat} (h : s.closed c = true) :
    (s.poll cfg c').closed c = true := by
  unfold State.poll
  split
  · exact h
  · exact h
  · exact closed_setConnection h fun conn _ => Connection.closed_close conn

/-- The end of `_complete_local` for a request on a closed connection. -/
theorem completed_released {r : Nat} {record : Request} (h : s.Removable r record) :
    (s.completed cfg record).Released r := by
  obtain ⟨x, hx⟩ : ∃ x : State, x = if s.staged = 0 then { s with masked := true }
      else { s with staged := s.staged - 1 } := ⟨_, rfl⟩
  have hstart : x.Removable r record := by
    rw [hx]
    split
    · exact ⟨⟨h.recorded, h.live, h.listed, h.closed⟩, h.ended⟩
    · exact ⟨⟨h.recorded, h.live, h.listed, h.closed⟩, h.ended⟩
  have hclosed := closed_poll cfg record.connection hstart.closed
  obtain ⟨connections, flips, heq⟩ := poll_eq cfg x record.connection
  have hremovable : (x.poll cfg record.connection).Removable r record := by
    refine ⟨⟨?_, ?_, ?_, hclosed⟩, h.ended⟩
    · rw [heq]
      exact hstart.recorded
    · rw [heq]
      exact hstart.live
    · rw [heq]
      exact hstart.listed
  unfold State.completed
  dsimp only
  rw [← hx, if_pos ⟨hclosed, hremovable.live⟩]
  exact purgeSession_released hremovable

/-- `_terminal_locked` leaves the request in its table and its connection closed. -/
theorem terminalLocked_removable (cfg : Config) {r : Nat} {record : Request} {t : Terminal}
    (h : s.Enrolled r record) (halive : record.state.terminal = false)
    (ht : t.state.terminal = true) :
    (s.terminalLocked cfg r t).Removable r (Request.finish t record) ∧
      (s.terminalLocked cfg r t).futures = s.futures := by
  rw [terminalLocked_eq h.recorded halive]
  obtain ⟨x, hx⟩ : ∃ x, x = s.setRecord r (Request.finish t) := ⟨_, rfl⟩
  have hxr : x.records[r]? = some (Request.finish t record) := by
    rw [hx]
    exact getElem?_modify_self h.recorded
  have hsame : x.live = s.live ∧ x.sessions = s.sessions ∧ x.futures = s.futures ∧
      x.closed record.connection = true := by
    rw [hx]
    exact ⟨rfl, rfl, rfl, h.closed⟩
  obtain ⟨hlive, hsessions, hfutures, hclosed⟩ := hsame
  rw [← hx]
  have hsent : (x.send cfg record.connection (some r) (t.message record.requestId)).closed
      record.connection = true := by
    refine closed_setConnection (closed_poll cfg record.connection hclosed) fun conn h => ?_
    unfold Connection.put
    rw [if_pos h]
    exact h
  obtain ⟨connections, flips, heq⟩ := send_eq cfg x record.connection (some r)
    (t.message record.requestId)
  refine ⟨⟨⟨?_, ?_, ?_, hsent⟩, ht⟩, ?_⟩
  · rw [heq]
    exact hxr
  · rw [heq]
    exact hlive ▸ h.live
  · rw [heq]
    exact hsessions ▸ h.listed
  · rw [heq]
    exact hfutures

/-- `_complete_local` removes the request if its connection is closed. -/
theorem completeLocal_released (cfg : Config) {r : Nat} {record : Request} (outcome : Outcome)
    (h : s.Enrolled r record) (henc : Encodable record.requestId) :
    (s.completeLocal cfg r outcome).Released r := by
  unfold State.completeLocal
  rw [h.recorded]
  dsimp only
  split
  · rename_i hterm
    exact completed_released ⟨h, hterm⟩
  · rename_i hterm
    have halive : record.state.terminal = false := Bool.eq_false_iff.mpr hterm
    obtain ⟨t, ht, hstate, -⟩ := outcome.terminal_ok cfg.limits henc
    rw [ht]
    have hremovable := (terminalLocked_removable cfg h halive (hstate ▸ outcome.ends.1)).1
    have hreleased : ((s.terminalLocked cfg r t).completed cfg (Request.finish t record)).Released r :=
      completed_released hremovable
    exact hreleased

/-- To cancel the local future of a request that has ended processes the end of its staging. -/
theorem cancelFuture_released {f : Nat} {fut : LocalFuture} {record : Request}
    (hfut : s.futures[f]? = some fut) (hwatched : (fut.attached && fut.pending) = true)
    (h : s.Removable fut.record record) : (s.cancelFuture cfg f).Released fut.record := by
  rw [Bool.and_eq_true] at hwatched
  unfold State.cancelFuture
  rw [hfut]
  dsimp only
  split
  · rename_i outcome hphase
    have hpending := hwatched.2
    unfold LocalFuture.pending at hpending
    rw [hphase] at hpending
    cases hpending
  · rw [if_pos hwatched.1]
    unfold State.completeLocal
    have hr : (s.setFuture f fun fut => { fut with phase := .done cancelledOutcome }).records[fut.record]? =
      some record := h.recorded
    rw [hr]
    dsimp only
    rw [if_pos h.ended]
    exact completed_released (s := s.setFuture f fun fut => { fut with phase := .done cancelledOutcome })
      ⟨⟨h.recorded, h.live, h.listed, h.closed⟩, h.ended⟩

/-- The local future of the request is watched, and so is the end of its staging. -/
theorem watches_eq_true {record : Request} (h : s.watches record = true) :
    ∃ (f : Nat) (fut : LocalFuture), record.localFuture = some f ∧ s.futures[f]? = some fut ∧
      (fut.attached && fut.pending) = true := by
  unfold State.watches at h
  cases hb : record.localFuture.bind fun f => s.futures[f]? with
  | none =>
    rw [hb] at h
    cases h
  | some fut =>
    rw [hb] at h
    obtain ⟨f, hf, hfut⟩ := Option.bind_eq_some_iff.mp hb
    exact ⟨f, fut, hf, hfut, h⟩

theorem watches_of_some {record : Request} {f : Nat} {fut : LocalFuture}
    (hf : record.localFuture = some f) (hfut : s.futures[f]? = some fut) :
    s.watches record = (fut.attached && fut.pending) := by
  unfold State.watches
  rw [hf, Option.bind_some, hfut]
  rfl

section Ending

variable {r : Nat} {record : Request} {t : Terminal} (hwf : s.WF) (hkept : s.Kept)
  (hr : s.records[r]? = some record) (halive : record.state.terminal = false)
  (hclosed : s.closed record.connection = true) (hwatched : s.watches record = true)
  (ht : t.state.terminal = true)

include hwf hkept hr halive hclosed hwatched ht

variable (cfg) in
/-- A request whose local future is watched ends, and the local future is cancelled. -/
theorem ended_removable : ∃ (f : Nat) (fut : LocalFuture),
    (Request.finish t record).localFuture = some f ∧ fut.record = r ∧
    (s.terminalLocked cfg r t).futures[f]? = some fut ∧ (fut.attached && fut.pending) = true ∧
    (s.terminalLocked cfg r t).Removable r (Request.finish t record) := by
  obtain ⟨f, fut, hf, hfut, hboth⟩ := watches_eq_true hwatched
  obtain ⟨fut', hfut', hrecord⟩ := hwf.localFuture r record f hr hf
  rw [hfut] at hfut'
  cases hfut'
  have henrolled := hkept.enrolled hwf hr (hwf.reserved r record hr halive) hclosed
  obtain ⟨hremovable, hfutures⟩ := terminalLocked_removable cfg henrolled halive ht
  exact ⟨f, fut, hf, hrecord, by rw [hfutures]; exact hfut, hboth, hremovable⟩

theorem cancelLocal_released : ((s.terminalLocked cfg r t).cancelLocal cfg r).Released r := by
  obtain ⟨f, fut, hf, rfl, hfut, hboth, hremovable⟩ :=
    ended_removable cfg hwf hkept hr halive hclosed hwatched ht
  unfold State.cancelLocal
  rw [hremovable.recorded]
  dsimp only
  rw [hf]
  exact cancelFuture_released hfut hboth hremovable

theorem killLocal_released : ((s.terminalLocked cfg r t).killLocal cfg r).Released r := by
  obtain ⟨f, fut, hf, rfl, hfut, hboth, hremovable⟩ :=
    ended_removable cfg hwf hkept hr halive hclosed hwatched ht
  have hreleased : ((s.terminalLocked cfg fut.record t).cancelFuture cfg f).Released fut.record :=
    cancelFuture_released hfut hboth hremovable
  unfold State.killLocal
  rw [hremovable.recorded]
  dsimp only
  rw [hf]
  dsimp only
  split
  · exact hreleased
  · split
    · exact hreleased
    · exact hreleased

theorem endQueued_released : (s.endQueued cfg r t).Released r :=
  cancelLocal_released (s := { s with scheduler := s.scheduler.remove r })
    (hwf.congr rfl rfl rfl rfl rfl) hkept hr halive hclosed hwatched ht

end Ending

/-! ## Passes over requests -/

/-- A scope in which one request may end, and nothing is accepted, starts or returns. -/
def ending (r : Nat) : Scope :=
  ⟨fun _ => True, fun _ _ _ => False, fun _ => False, (· = r), fun _ => False, fun _ _ _ => False, False,
    fun _ => False⟩

theorem futures_unregister (i : Nat) : (s.unregister i).futures = s.futures := by
  unfold State.unregister
  split
  · rfl
  · split <;> rfl

/-- The end of one request leaves the local future of another. -/
theorem Micro.watches {r₀ : Nat} (hm : Micro cfg (ending r₀) s s') (hinv : s.Inv cfg) {r : Nat}
    {record : Request} (hne : r ≠ r₀) (hr : s.records[r]? = some record)
    (halive : record.state.terminal = false) (hwatched : s.watches record = true) :
    ∃ record' : Request, s'.records[r]? = some record' ∧ record'.state = record.state ∧
      s'.watches record' = true := by
  obtain ⟨f, fut, hf, hfut, hboth⟩ := watches_eq_true hwatched
  have hattached : fut.attached = true := (Bool.and_eq_true _ _ ▸ hboth).1
  have hsubmitted := (hinv.placed.attached f fut hfut hattached).1
  obtain ⟨fut', hfut', hrecord⟩ := hinv.wf.localFuture r record f hr hf
  rw [hfut] at hfut'
  cases hfut'
  -- an assignment to one request, while the local future stays
  have hset : ∀ {r' : Nat} {g : Request → Request}, s'.records = s.records.modify r' g →
      s'.futures[f]? = some fut →
      (r' = r → (g record).state = record.state ∧ (g record).localFuture = record.localFuture) →
      ∃ record' : Request, s'.records[r]? = some record' ∧ record'.state = record.state ∧
        s'.watches record' = true := by
    intro r' g hrecords hfutures hg
    rw [hrecords]
    refine ⟨_, getElem?_modify_of_some hr, ?_⟩
    split
    · rename_i he
      obtain ⟨hstate, hlocal⟩ := hg he
      exact ⟨hstate, (watches_of_some (hlocal.trans hf) hfutures).trans hboth⟩
    · exact ⟨rfl, (watches_of_some hf hfutures).trans hboth⟩
  have hsame : s'.records = s.records → s'.futures[f]? = some fut →
      ∃ record' : Request, s'.records[r]? = some record' ∧ record'.state = record.state ∧
        s'.watches record' = true := by
    intro hrecords hfutures
    rw [hrecords]
    exact ⟨record, hr, rfl, (watches_of_some hf hfutures).trans hboth⟩
  -- an assignment to one local future
  have hwork : ∀ {f' : Nat} {g : LocalFuture → LocalFuture}, s'.records = s.records →
      s'.futures = s.futures.modify f' g →
      (f' = f → ((g fut).attached && (g fut).pending) = true) →
      ∃ record' : Request, s'.records[r]? = some record' ∧ record'.state = record.state ∧
        s'.watches record' = true := by
    intro f' g hrecords hfutures hg
    rw [hrecords]
    refine ⟨record, hr, rfl, ?_⟩
    have hlookup := getElem?_modify_of_some (i := f') (f := g) hfut
    rw [← hfutures] at hlookup
    rw [watches_of_some hf hlookup]
    split
    · rename_i he
      exact hg he
    · exact hboth
  cases hm with
  | accept _ haccepts => exact haccepts.elim
  | start _ hstarts => exact hstarts.elim
  | claim => exact hset rfl hfut fun _ => ⟨rfl, rfl⟩
  | emptied => exact hset rfl hfut fun _ => ⟨rfl, rfl⟩
  | @stage r' record' scheduler _ _ _ hpop hr' =>
    refine hset rfl (getElem?_append_of_some hfut) fun he => ?_
    subst he
    obtain ⟨record'', hr'', hw, -⟩ := hinv.placed.popped hpop
    rw [hr] at hr''
    cases hr''
    rw [hw.2] at hf
    cases hf
  | @requeue r' f' record' _ hfull hr' =>
    rw [requeue_eq hr'] at hset ⊢
    refine hset rfl hfut fun he => ?_
    subst he
    obtain ⟨fut', record'', hfut', hr'', hf', hnot⟩ :=
      hinv.placed.before r' f' (by rw [hfull]; rfl)
    rw [hr] at hr''
    cases hr''
    rw [hf] at hf'
    cases hf'
    rw [hfut] at hfut'
    cases hfut'
    rw [hsubmitted] at hnot
    cases hnot
  | finish _ hends => exact hset rfl hfut fun he => absurd (he.symm.trans hends) hne
  | finishStaged _ hends => exact hset rfl hfut fun he => absurd (he.symm.trans hends) hne
  | @retire r' record' _ hr' hterm =>
    refine hset rfl hfut fun he => ?_
    subst he
    rw [hr] at hr'
    cases hr'
    rw [halive] at hterm
    cases hterm
  | unregister => exact hsame (records_unregister _) (by rw [futures_unregister]; exact hfut)
  | work hw =>
    cases hw with
    | refused | call | exit | called => exact hsame rfl hfut
    | submitted => exact hwork rfl rfl fun _ => hboth
    | attach => exact hwork rfl rfl fun _ => (Bool.and_eq_true _ _).symm ▸ ⟨rfl, (Bool.and_eq_true _ _ ▸ hboth).2⟩
    | finish _ _ _ hreturns => exact hreturns.elim
    | cancel hf' _ hatt =>
      refine hwork rfl rfl fun he => ?_
      subst he
      rw [hfut] at hf'
      cases hf'
      rw [hattached] at hatt
      cases hatt
    | pid => exact hwork rfl rfl fun _ => hboth
    | cancelled hf' _ _ hended =>
      refine hwork rfl rfl fun he => ?_
      subst he
      obtain ⟨fut'', record'', hfut'', hr'', hterm⟩ := hended
      rw [hfut] at hfut''
      cases hfut''
      rw [hrecord, hr] at hr''
      cases hr''
      rw [halive] at hterm
      cases hterm
    | notified => exact hwork rfl rfl fun _ => hboth
  | _ => exact hsame rfl hfut

theorem Micros.watches {r₀ : Nat} (hm : Micros cfg (ending r₀) s s') (hinv : s.Inv cfg) {r : Nat}
    {record : Request} (hne : r ≠ r₀) (hr : s.records[r]? = some record)
    (halive : record.state.terminal = false) (hwatched : s.watches record = true) :
    ∃ record' : Request, s'.records[r]? = some record' ∧ record'.state = record.state ∧
      s'.watches record' = true := by
  induction hm with
  | refl => exact ⟨record, hr, rfl, hwatched⟩
  | tail hprev hstep ih =>
    obtain ⟨record₁, hr₁, hstate₁, hwatched₁⟩ := ih
    obtain ⟨record₂, hr₂, hstate₂, hwatched₂⟩ :=
      hstep.watches (hinv.micros hprev) hne hr₁ (by rw [hstate₁]; exact halive) hwatched₁
    exact ⟨record₂, hr₂, hstate₂.trans hstate₁, hwatched₂⟩

theorem closed_of_some {c : Nat} {conn : Connection} (hc : s.connections[c]? = some conn) :
    s.closed c = conn.closed := by
  unfold State.closed
  rw [hc]
  rfl

/-- The connection of a request stays closed. -/
theorem Micros.closed_record (hm : Micros cfg scope s s') (hinv : s.Inv cfg) {r : Nat} {record : Request}
    (hr : s.records[r]? = some record) (hclosed : s.closed record.connection = true) :
    s'.closed record.connection = true := by
  obtain ⟨conn, hc, -⟩ := hinv.wf.connected hr
  rw [closed_of_some hc] at hclosed
  obtain ⟨conn', hc', hclosed'⟩ := hm.closed hc hclosed
  rw [closed_of_some hc']
  exact hclosed'

/-- A request that a pass ends, on a closed connection and with a watched local future. -/
structure State.Due (ends : Request → Prop) (s : State) (r : Nat) (record : Request) : Prop where
  recorded : s.records[r]? = some record
  ends : ends record
  closed : s.closed record.connection = true
  watched : s.watches record = true

/-- **A pass releases** what it ends of the requests whose local futures are watched. -/
theorem foldl_released {op : State → Nat → State} {ends : Request → Prop}
    (halive : ∀ record : Request, ends record → record.state.terminal = false)
    (hstays : ∀ record record' : Request, record.Evolves record' → record'.state = record.state →
      ends record → ends record')
    (hop : ∀ (s : State) (r : Nat) (record : Request), s.Inv cfg → s.records[r]? = some record →
      Locked cfg (ending r) s (op s r))
    (hreleased : ∀ (s : State) (r : Nat) (record : Request), s.Inv cfg → s.Kept →
      s.Due ends r record → (op s r).Released r) {r : Nat} (rs : List Nat) :
    ∀ {s : State} {record : Request}, s.Inv cfg → s.Kept →
      (∀ r ∈ rs, ∃ record : Request, s.records[r]? = some record) → r ∈ rs →
      s.Due ends r record → (rs.foldl op s).Released r := by
  -- the rest of the pass keeps what is released
  have hkeeps : ∀ (rs : List Nat) (s : State), s.Inv cfg →
      (∀ r ∈ rs, ∃ record : Request, s.records[r]? = some record) → s.Evolves (rs.foldl op s) := by
    intro rs
    induction rs with
    | nil => exact fun s _ _ => .refl s
    | cons r₀ rs ih =>
      intro s hinv hrs
      obtain ⟨record₀, hr₀⟩ := hrs r₀ List.mem_cons_self
      have hlocked := hop s r₀ record₀ hinv hr₀
      refine hlocked.micros.evolves.trans (ih _ (hlocked.inv hinv) fun r' hr' => ?_)
      obtain ⟨record', hrec⟩ := hrs r' (List.mem_cons_of_mem _ hr')
      obtain ⟨record'', hrec', -⟩ := hlocked.micros.evolves r' record' hrec
      exact ⟨record'', hrec'⟩
  induction rs with
  | nil => exact fun _ _ _ hmem => nomatch hmem
  | cons r₀ rs ih =>
    intro s record hinv hkept hrs hmem hdue
    obtain ⟨record₀, hr₀⟩ := hrs r₀ List.mem_cons_self
    have hlocked := hop s r₀ record₀ hinv hr₀
    have hinv' := hlocked.inv hinv
    have hrs' : ∀ r ∈ rs, ∃ record : Request, (op s r₀).records[r]? = some record := by
      intro r' hr'
      obtain ⟨record', hrec⟩ := hrs r' (List.mem_cons_of_mem _ hr')
      obtain ⟨record'', hrec', -⟩ := hlocked.micros.evolves r' record' hrec
      exact ⟨record'', hrec'⟩
    rw [List.foldl_cons]
    by_cases he : r = r₀
    · subst he
      exact (hreleased s r record hinv hkept hdue).evolves (hkeeps rs _ hinv' hrs')
    · obtain ⟨record', hr', hstate, hwatched⟩ := Micros.watches hlocked.micros hinv he hdue.recorded
        (halive _ hdue.ends) hdue.watched
      have hclosed := Micros.closed_record hlocked.micros hinv hdue.recorded hdue.closed
      have hev := hlocked.micros.evolves.back hdue.recorded hr'
      refine ih hinv' (hkept.micros hinv (fun _ _ _ => False.elim) hlocked.micros) hrs' ?_
        ⟨hr', hstays _ _ hev hstate hdue.ends, by rw [hev.connection]; exact hclosed, hwatched⟩
      rcases List.mem_cons.mp hmem with h | h
      · exact absurd h he
      · exact h

/-- What `_expire_queued_locked` ends. -/
def Request.Expires (now : Clock) (record : Request) : Prop :=
  record.state = .acceptedQueued ∧ record.expired now = true

theorem Request.Expires.stays {now : Clock} (record record' : Request) (he : record.Evolves record')
    (hstate : record'.state = record.state) (h : record.Expires now) : record'.Expires now := by
  refine ⟨hstate.trans h.1, ?_⟩
  have hexpired := h.2
  unfold Request.expired at hexpired ⊢
  rw [he.queueDeadline]
  exact hexpired

theorem alive_of_queued {record : Request} (h : record.state = .acceptedQueued) :
    record.state.terminal = false := congrArg RequestState.terminal h

/-- The requests of `_requests` exist. -/
theorem expireQueued_released {now : Clock} (hinv : s.Inv cfg) (hkept : s.Kept) {r : Nat}
    {record : Request} (hmem : r ∈ s.requests.values)
    (hdue : s.Due (Request.Expires now) r record) : (s.expireQueued cfg now).Released r := by
  refine foldl_released (fun _ h => alive_of_queued h.1) Request.Expires.stays
    (fun s r record hinv hr => locked_expireOne hinv hr trivial fun _ => rfl) ?_ _ hinv hkept
    hinv.recorded hmem hdue
  intro s r record hinv hkept hdue
  unfold State.expireOne
  rw [hdue.recorded]
  dsimp only
  rw [if_pos ⟨hdue.ends.1, hdue.ends.2⟩]
  exact endQueued_released hinv.wf hkept hdue.recorded (alive_of_queued hdue.ends.1) hdue.closed
    hdue.watched rfl

theorem sweepQueued_released {reason : String} (hinv : s.Inv cfg) (hkept : s.Kept) {r : Nat}
    {record : Request} (hdue : s.Due (fun record => record.state = .acceptedQueued) r record) :
    (s.sweepQueued cfg reason r).Released r := by
  unfold State.sweepQueued
  rw [hdue.recorded]
  dsimp only
  rw [if_pos hdue.ends]
  exact endQueued_released hinv.wf hkept hdue.recorded (alive_of_queued hdue.ends) hdue.closed
    hdue.watched rfl

theorem sweepActive_released (hinv : s.Inv cfg) (hkept : s.Kept) {r : Nat}
    {record : Request} (hdue : s.Due (fun record => record.state.terminal = false) r record) :
    (s.sweepActive cfg r).Released r := by
  have hwatched := hdue.watched
  obtain ⟨f, fut, hf, -⟩ := watches_eq_true hwatched
  unfold State.sweepActive
  rw [hdue.recorded]
  dsimp only
  split
  · exact killLocal_released hinv.wf hkept hdue.recorded hdue.ends hdue.closed hwatched rfl
  · rename_i hnot
    refine sweepQueued_released hinv hkept ⟨hdue.recorded, ?_, hdue.closed, hwatched⟩
    have halive := hdue.ends
    cases hstate : record.state with
    | acceptedQueued => rfl
    | running => exact absurd ⟨hstate, by rw [hf]; rfl⟩ hnot
    | _ =>
      rw [hstate] at halive
      cases halive

/-- A request that may not end has not. -/
theorem Micros.alive (hm : Micros cfg scope s s') {r : Nat} (hends : ¬ scope.ends r) {record : Request}
    (hr : s.records[r]? = some record) (halive : record.state.terminal = false) {record' : Request}
    (hr' : s'.records[r]? = some record') : record'.state.terminal = false := by
  induction hm generalizing record' with
  | refl =>
    rw [hr] at hr'
    cases hr'
    exact halive
  | tail hprev hstep ih =>
    obtain ⟨record₁, hr₁, -⟩ := Micros.evolves hprev r record hr
    obtain ⟨record₂, hr₂, hchange⟩ := hstep.requests.forth r record₁ hr₁
    rw [hr'] at hr₂
    cases hr₂
    have hstill := ih hr₁
    cases hchange with
    | finish h => exact absurd h hends
    | start => rfl
    | same | claim | plain | retire => exact hstill

/-- The first sweep leaves a running request and its local future. -/
theorem sweepQueued_due {reason : String} {r : Nat} {ends : Request → Prop}
    (halive : ∀ record : Request, ends record → record.state.terminal = false)
    (hstays : ∀ record record' : Request, record.Evolves record' → record'.state = record.state →
      ends record → ends record') (rs : List Nat) : ∀ {s : State} {record : Request}, s.Inv cfg →
    s.Kept → (∀ r ∈ rs, ∃ record : Request, s.records[r]? = some record) → s.Due ends r record →
    record.state ≠ .acceptedQueued →
    (rs.foldl (State.sweepQueued cfg reason) s).Kept ∧
      ∃ record', (rs.foldl (State.sweepQueued cfg reason) s).Due ends r record' := by
  induction rs with
  | nil => exact fun _ hkept _ hdue _ => ⟨hkept, _, hdue⟩
  | cons r₀ rs ih =>
    intro s record hinv hkept hrs hdue hnot
    obtain ⟨record₀, hr₀⟩ := hrs r₀ List.mem_cons_self
    rw [List.foldl_cons]
    have hlocked : Locked cfg (ending r₀) s (s.sweepQueued cfg reason r₀) :=
      locked_sweepQueued hinv hr₀ trivial fun _ => rfl
    have hrs' : ∀ r ∈ rs, ∃ record : Request, (s.sweepQueued cfg reason r₀).records[r]? = some record := by
      intro r' hr'
      obtain ⟨record', hrec⟩ := hrs r' (List.mem_cons_of_mem _ hr')
      obtain ⟨record'', hrec', -⟩ := hlocked.micros.evolves r' record' hrec
      exact ⟨record'', hrec'⟩
    have hkept' := hkept.micros hinv (fun _ _ _ => False.elim) hlocked.micros
    by_cases he : r = r₀
    · subst he
      have hsame : s.sweepQueued cfg reason r = s := by
        unfold State.sweepQueued
        rw [hdue.recorded]
        exact if_neg hnot
      rw [hsame] at hrs' ⊢
      exact ih hinv hkept hrs' hdue hnot
    · obtain ⟨record', hr', hstate, hwatched⟩ := Micros.watches hlocked.micros hinv he hdue.recorded
        (halive _ hdue.ends) hdue.watched
      have hclosed := Micros.closed_record hlocked.micros hinv hdue.recorded hdue.closed
      have hev := hlocked.micros.evolves.back hdue.recorded hr'
      exact ih (hlocked.inv hinv) hkept' hrs'
        ⟨hr', hstays _ _ hev hstate hdue.ends, by rw [hev.connection]; exact hclosed, hwatched⟩
        (by rw [hstate]; exact hnot)

/-- The second sweep. -/
theorem sweepActive_ended {r : Nat} {record record' : Request} (hinv : s.Inv cfg) (hkept : s.Kept)
    (hdue : s.Due (fun record => record.state.terminal = false) r record)
    (hr' : (s.requests.values.foldl (State.sweepActive cfg) s).records[r]? = some record')
    (hended : record'.state.terminal = true) :
    (s.requests.values.foldl (State.sweepActive cfg) s).Released r := by
  by_cases hmem : r ∈ s.requests.values
  · exact foldl_released (fun _ h => h) (fun _ _ _ hstate h => by rw [hstate]; exact h)
      (fun s r record hinv hr => locked_sweepActive hinv hr trivial fun _ => rfl)
      (fun s r record hinv hkept hdue => sweepActive_released hinv hkept hdue) _ hinv hkept
      hinv.recorded hmem hdue
  · have hlocked : Locked cfg { Scope.all with ends := (· ∈ s.requests.values) } s
        (s.requests.values.foldl (State.sweepActive cfg) s) :=
      locked_foldl alive_of_evolves
        (fun _ _ _ hinv hr hsession hends => locked_sweepActive hinv hr hsession hends) _ hinv
        (passes_of_requests hinv (fun _ => trivial) fun _ hmem _ _ _ => hmem)
    rw [Micros.alive hlocked.micros hmem hdue.recorded hdue.ends hr'] at hended
    cases hended

/-- Both sweeps of a turn of the shutdown thread. -/
theorem shutdownTurn_released {now : Clock} (hinv : s.Inv cfg) (hkept : s.Kept) {r : Nat}
    {record record' : Request} (hmem : r ∈ s.requests.values) (hswept : s.Swept now record)
    (hdue : s.Due (fun record => record.state.terminal = false) r record)
    (hr' : (s.shutdownTurn cfg now).records[r]? = some record')
    (hended : record'.state.terminal = true) : (s.shutdownTurn cfg now).Released r := by
  have hactive : s.active = true := by
    refine List.any_eq_true.mpr ⟨r, hmem, ?_⟩
    rw [hdue.recorded]
    simp [hdue.ends]
  obtain ⟨x, hx⟩ : ∃ x : State, x = if s.shutdownCancelFutures then
      s.requests.values.foldl (State.sweepQueued cfg "server_shutdown") s else s := ⟨_, rfl⟩
  unfold State.shutdownTurn at hr' ⊢
  rw [if_pos hactive] at hr' ⊢
  dsimp only at hr' ⊢
  rw [← hx] at hr' ⊢
  have hsweep : Locked cfg .all s x := by
    rw [hx]
    split
    · exact locked_foldl queued_of_evolves
        (fun _ _ _ hinv hr hsession hends => locked_sweepQueued hinv hr hsession hends) _ hinv
        (passes_of_requests hinv (fun _ => trivial) fun _ _ _ _ _ => trivial)
    · exact .refl
  have hxinv := hsweep.inv hinv
  by_cases hfirst : s.shutdownCancelFutures = true ∧ record.state = .acceptedQueued
  · -- the first sweep ends it
    have hreleased : x.Released r := by
      rw [hx, if_pos hfirst.1]
      exact foldl_released (fun _ h => alive_of_queued h) (fun _ _ _ hstate h => hstate.trans h)
        (fun s r record hinv hr => locked_sweepQueued hinv hr trivial fun _ => rfl)
        (fun s r record hinv hkept hdue => sweepQueued_released hinv hkept hdue) _ hinv hkept
        hinv.recorded hmem ⟨hdue.recorded, hfirst.2, hdue.closed, hdue.watched⟩
    split
    · exact hreleased
    · split
      · have hlast : Locked cfg .all x (x.requests.values.foldl (State.sweepActive cfg) x) :=
          locked_foldl alive_of_evolves
            (fun _ _ _ hinv hr hsession hends => locked_sweepActive hinv hr hsession hends) _ hxinv
            (passes_of_requests hxinv (fun _ => trivial) fun _ _ _ _ _ => trivial)
        exact hreleased.evolves hlast.micros.evolves
      · exact hreleased
  · -- the second one does
    obtain ⟨d, hd, hle⟩ : ∃ d, s.shutdownDeadline = some d ∧ Float64.le d now.reading = true := by
      rcases hswept with h | h
      · exact absurd h hfirst
      · exact h.1
    obtain ⟨hxkept, record₁, hxdue⟩ : x.Kept ∧
        ∃ record₁, x.Due (fun record => record.state.terminal = false) r record₁ := by
      rw [hx]
      split
      · rename_i hcancel
        exact sweepQueued_due (fun _ h => h) (fun _ _ _ hstate h => by rw [hstate]; exact h) _ hinv
          hkept hinv.recorded hdue fun h => hfirst ⟨hcancel, h⟩
      · exact ⟨hkept, record, hdue⟩
    rw [hsweep.shutdownDeadline.trans hd] at hr' ⊢
    dsimp only at hr' ⊢
    rw [if_pos hle] at hr' ⊢
    exact sweepActive_ended hxinv hxkept hxdue hr' hended

/-! ## Steps -/

/-- The requests that have ended on connections that have left are removed. -/
def State.Tidy (s : State) : Prop := s.TidyBut fun _ => False

/-- A scope in which some requests may end, and no connection leaves. -/
def staying (ends : Nat → Prop) : Scope := { Scope.all with ends, leaves := fun _ => False }

/-- A step after which what it ended on connections that have left is removed. -/
theorem State.Tidy.of_released {ends : Nat → Prop} (h : s.Tidy) (hinv : s.Inv cfg)
    (hm : Micros cfg (staying ends) s s')
    (hreleased : ∀ r, ends r → ∃ record : Request, s.records[r]? = some record ∧
      (record.reservationReleased = false → s.left record.connection = true →
        ∀ record' : Request, s'.records[r]? = some record' → record'.state.terminal = true →
          s'.Released r)) : s'.Tidy := by
  intro r record' hr' hterm hheld hleft
  have hbut : s.TidyBut ends := fun r record hr hterm hheld hleft =>
    (h r record hr hterm hheld hleft).elim
  have hends : ends r := hbut.micros hinv (fun _ h => h) (fun _ h => h) hm r record' hr' hterm hheld hleft
  obtain ⟨record, hr, hdone⟩ := hreleased r hends
  have he := hm.evolves.back hr hr'
  have hheld' : record.reservationReleased = false := by
    rw [← Bool.not_eq_true] at hheld ⊢
    exact fun hreleased => hheld (he.released hreleased)
  rw [he.connection] at hleft
  obtain ⟨record'', hr'', hreleased'⟩ := hdone hheld' (hm.left hinv (fun _ h => h) hr hleft) record' hr' hterm
  rw [hr'] at hr''
  cases hr''
  rw [hheld] at hreleased'
  cases hreleased'

theorem closed_of_left (hinv : s.Inv cfg) {c : Nat} (h : s.left c = true) : s.closed c = true := by
  obtain ⟨conn, hc, hgone⟩ := left_eq_true h
  rw [closed_of_some hc]
  exact hinv.wf.closed c conn hc hgone

/-- The requests of the session of a connection are those of the connection. -/
theorem State.WF.connection_eq (hwf : s.WF) {c i r : Nat} {record : Request}
    (hc : s.connections[c]?.bind Connection.session = some i) (hr : s.records[r]? = some record)
    (hi : record.session = i) : record.connection = c := by
  obtain ⟨conn, hconn, hci⟩ := Option.bind_eq_some_iff.mp hc
  obtain ⟨session, hs, hown⟩ := hwf.link c conn i hconn hci
  obtain ⟨session', hs', hown', -⟩ := hwf.owner r record hr
  rw [hi, hs] at hs'
  cases hs'
  exact hown'.symm.trans hown

theorem not_left_of_reader {c : Nat} {reader : Reader} (h : s.withReader c = some reader)
    (hne : reader ≠ .gone) : s.left c ≠ true := by
  intro hleft
  obtain ⟨conn, hc, hgone⟩ := left_eq_true hleft
  unfold State.withReader at h
  rw [hc] at h
  exact hne ((Option.some.inj h).symm.trans hgone)

theorem State.Inv.flips (hinv : s.Inv cfg) (flips : List Bool) : ({ s with flips } : State).Inv cfg :=
  hinv.micros (show Locked cfg .all s { s with flips } from locked_flips flips).micros

/-- A step of the readers, or of the other threads when they end no request. -/
theorem tidy_stays {a : Action} (hinv : s.Inv cfg) (htidy : s.Tidy) {flips : List Bool}
    (hs : step cfg s ⟨a, flips⟩ = some s') (h : (staying fun _ => False).Allows s a) : s'.Tidy :=
  htidy.of_released hinv (step_micros hinv h hs) fun _ h => h.elim

/-- After `_purge_session_locked` of the session what has ended on its connection is removed. -/
theorem purgeSession_tidies (hinv : s.Inv cfg) (hkept : s.Kept) {c i : Nat} {conn : Connection}
    (hc : s.connections[c]? = some conn) (hi : conn.session = some i) (hclosed : conn.closed = true)
    {r : Nat} {record : Request} (hr : (s.purgeSession i).records[r]? = some record)
    (hterm : record.state.terminal = true) (hconnection : record.connection = c) :
    record.reservationReleased = true := by
  have hleft : s.Left i :=
    left_of_closed hinv.wf hc hi (by rw [closed_of_some hc]; exact hclosed)
  have hpurge : Locked cfg { refusing with ends := fun _ => False } s (s.purgeSession i) :=
    locked_purge hinv trivial hleft
  have hback : Locked cfg refusing s (s.purgeSession i) := locked_purge hinv trivial hleft
  obtain ⟨record₀, hr₀, he⟩ := Micros.back hback.micros hr
  have hterm₀ : record₀.state.terminal = true := by
    by_contra halive
    rw [Bool.not_eq_true] at halive
    rw [Micros.alive hpurge.micros (fun h => h) hr₀ halive hr] at hterm
    cases hterm
  cases hheld : record₀.reservationReleased with
  | true => exact he.released hheld
  | false =>
    have hconnection₀ : record₀.connection = c := he.connection.symm.trans hconnection
    have hsession : record₀.session = i := by
      obtain ⟨conn', hc', hs'⟩ := hinv.wf.connected hr₀
      rw [hconnection₀, hc] at hc'
      cases hc'
      rw [hi] at hs'
      exact (Option.some.inj hs').symm
    have hclosed₀ : s.closed record₀.connection = true := by
      rw [hconnection₀, closed_of_some hc]
      exact hclosed
    have hreleased := purgeSession_released
      ⟨hkept.enrolled hinv.wf hr₀ hheld hclosed₀, hterm₀⟩
    rw [hsession] at hreleased
    obtain ⟨record', hr', hdone⟩ := hreleased
    rw [hr] at hr'
    cases hr'
    exact hdone

/-- The requests in `_disconnect`: what has ended on the connection is removed. -/
theorem leaveSession_tidies (hinv : s.Inv cfg) (hkept : s.Kept) {c : Nat} {conn : Connection}
    (hc : s.connections[c]? = some conn) (hclosed : conn.closed = true) {r : Nat} {record : Request}
    (hr : (s.leaveSession cfg c).records[r]? = some record) (hterm : record.state.terminal = true)
    (hconnection : record.connection = c) : record.reservationReleased = true := by
  have hserves : refusing.Serves s c := ⟨fun _ _ => trivial, fun _ _ _ _ _ _ => trivial⟩
  have hleave : Locked cfg refusing s (s.leaveSession cfg c) :=
    locked_leaveSession hinv hserves (by rw [closed_of_some hc]; exact hclosed)
  obtain ⟨record₀, hr₀, he⟩ := Micros.back hleave.micros hr
  obtain ⟨conn', hc', hi⟩ := hinv.wf.connected hr₀
  rw [he.connection.symm.trans hconnection, hc] at hc'
  cases hc'
  obtain ⟨session, hs, -⟩ := hinv.wf.link c conn _ hc hi
  unfold State.leaveSession at hr
  rw [hc] at hr
  dsimp only at hr
  rw [hi] at hr
  dsimp only at hr
  rw [hs] at hr
  dsimp only at hr
  split at hr
  · exact purgeSession_tidies hinv hkept hc hi hclosed hr hterm hconnection
  · have hfold : Locked cfg refusing s (session.requests.values.foldl (State.disconnectOne cfg) s) :=
      locked_foldl alive_of_evolves
        (fun _ _ _ hinv hr hsession hends => locked_disconnectOne hinv hr hsession hends) _ hinv
        fun r hr => passes_of_values hinv hserves (by rw [hc]; exact hi) hs hr
    obtain ⟨conn', hc', hclosed'⟩ := hfold.micros.closed hc hclosed
    have hinv' := hfold.inv hinv
    obtain ⟨record₁, hr₁, he₁⟩ := hfold.micros.evolves r record₀ hr₀
    obtain ⟨conn'', hc'', hi'⟩ := hinv'.wf.connected hr₁
    rw [he₁.connection, he.connection.symm.trans hconnection, hc'] at hc''
    cases hc''
    rw [he₁.session] at hi'
    exact purgeSession_tidies hinv' (hkept.micros hinv (fun _ _ _ => False.elim) hfold.micros) hc' hi'
      hclosed' hr hterm hconnection

section Actions

variable (hinv : s.Inv cfg) (hkept : s.Kept) (htidy : s.Tidy) {flips : List Bool}

include hinv htidy

theorem tidy_handle {c : Nat} {now : Clock} {grant : Str → Except Str Bool} {statistics : Option Dict}
    (hs : step cfg s ⟨.handle c now grant statistics, flips⟩ = some s') : s'.Tidy := by
  have hallows : (staying fun r => ∃ record : Request, s.records[r]? = some record ∧
      record.connection = c).Allows s (.handle c now grant statistics) := by
    refine ⟨⟨fun _ _ => trivial, fun i r record hc hr hi => ?_⟩, fun _ _ _ _ _ _ _ _ => trivial⟩
    exact ⟨record, hr, hinv.wf.connection_eq hc hr hi⟩
  refine htidy.of_released hinv (step_micros hinv hallows hs) ?_
  rintro r ⟨record, hr, rfl⟩
  refine ⟨record, hr, fun _ hleft => ?_⟩
  have hnot : s.left record.connection ≠ true := by
    unfold step at hs
    obtain ⟨x, hx, rfl⟩ := Option.map_eq_some_iff.mp hs
    simp only [connectionStep, dispatcherStep, poolStep, Option.or_none] at hx
    split at hx
    · rename_i m hreader
      exact not_left_of_reader (s := s) hreader fun h => (by cases h)
    · cases hx
  exact absurd hleft hnot

include hkept

theorem tidy_dispatch {now : Clock} (hcond : releases cfg s ⟨.dispatch now, flips⟩ = true)
    (hs : step cfg s ⟨.dispatch now, flips⟩ = some s') : s'.Tidy := by
  have hallows : (staying fun r => r ∈ s.requests.values ∧ ∃ record : Request,
      s.records[r]? = some record ∧ record.Expires now).Allows s (.dispatch now) :=
    ⟨fun _ => trivial, fun r hmem record hr hexp => ⟨hmem, record, hr, hexp⟩⟩
  refine htidy.of_released hinv (step_micros hinv hallows hs) ?_
  rintro r ⟨hmem, record, hr, hexp⟩
  refine ⟨record, hr, fun _ hleft _ _ _ => ?_⟩
  have hwatched : s.watches record = true := by
    have hall := List.all_eq_true.mp hcond r hmem
    rw [hr] at hall
    simpa [hexp.1, hexp.2, State.stranded, hleft] using hall
  unfold step at hs
  obtain ⟨x, hx, rfl⟩ := Option.map_eq_some_iff.mp hs
  simp only [connectionStep, dispatcherStep, poolStep, Option.none_or, Option.or_none] at hx
  split at hx
  · rename_i hidle
    cases hx
    have hopen := hinv.flips flips
    have hexpire : Locked cfg .all { s with flips } (State.expireQueued cfg { s with flips } now) :=
      locked_expireQueued hopen (fun _ => trivial) fun _ _ _ _ _ => trivial
    have hreleased : (State.expireQueued cfg { s with flips } now).Released r :=
      expireQueued_released hopen hkept hmem ⟨hr, hexp, closed_of_left hinv hleft, hwatched⟩
    have hrest : Micros cfg .all (State.expireQueued cfg { s with flips } now) _ :=
      micros_dispatchNext (hexpire.inv hopen) (hexpire.dispatcher.trans hidle) fun _ => trivial
    exact hreleased.evolves hrest.evolves
  · cases hx

theorem tidy_claim {f pid : Nat} {now : Clock}
    (hcond : releases cfg s ⟨.claim f pid now, flips⟩ = true)
    (hs : step cfg s ⟨.claim f pid now, flips⟩ = some s') : s'.Tidy := by
  have hallows : (staying fun r => ∃ (fut : LocalFuture) (record : Request), s.futures[f]? = some fut ∧
      fut.record = r ∧ s.records[r]? = some record ∧ record.Expires now).Allows s
        (.claim f pid now) :=
    ⟨fun _ => trivial, fun fut record hfut hr =>
      ⟨fun hexp => ⟨fut, record, hfut, rfl, hr, hexp⟩, fun _ _ => trivial⟩⟩
  refine htidy.of_released hinv (step_micros hinv hallows hs) ?_
  rintro r ⟨fut, record, hfut, rfl, hr, hexp⟩
  refine ⟨record, hr, fun _ hleft _ _ _ => ?_⟩
  have hwatched : s.watches record = true := by
    unfold releases at hcond
    dsimp only at hcond
    rw [hfut, Option.bind_some, hr] at hcond
    simpa [hexp.1, hexp.2, State.stranded, hleft] using hcond
  unfold step at hs
  obtain ⟨x, hx, rfl⟩ := Option.map_eq_some_iff.mp hs
  simp only [connectionStep, dispatcherStep, poolStep, Option.none_or, hfut] at hx
  split at hx
  · cases hx
    unfold State.claimDispatch
    rw [show ({ s with flips } : State).records[fut.record]? = some record from hr]
    dsimp only
    rw [hexp.1]
    dsimp only
    rw [if_pos hexp.2]
    have hopen := hinv.flips flips
    exact cancelLocal_released hopen.wf hkept hr (alive_of_queued hexp.1) (closed_of_left hinv hleft)
      hwatched rfl
  · cases hx

theorem tidy_shutdownTurn {now : Clock} (hcond : releases cfg s ⟨.shutdownTurn now, flips⟩ = true)
    (hs : step cfg s ⟨.shutdownTurn now, flips⟩ = some s') : s'.Tidy := by
  have hallows : (staying fun r => r ∈ s.requests.values ∧ ∃ record : Request,
      s.records[r]? = some record ∧ s.Swept now record).Allows s (.shutdownTurn now) := by
    refine ⟨fun _ => trivial, fun r hmem h => ⟨hmem, ?_⟩⟩
    obtain ⟨record, hr⟩ := hinv.recorded r hmem
    exact ⟨record, hr, h record hr⟩
  refine htidy.of_released hinv (step_micros hinv hallows hs) ?_
  rintro r ⟨hmem, record, hr, hswept⟩
  refine ⟨record, hr, fun hheld hleft record' hr' hended => ?_⟩
  have halive : record.state.terminal = false := by
    rcases hswept with ⟨-, h⟩ | ⟨-, h⟩
    · exact alive_of_queued h
    · exact h
  have hsweeps : s.sweeps now record = true := by
    unfold State.sweeps
    dsimp only
    rcases hswept with ⟨hcancel, hstate⟩ | ⟨⟨d, hd, hle⟩, -⟩
    · rw [hstate, hcancel]
      rfl
    · rw [hd]
      cases hstate : record.state with
      | acceptedQueued => simp [hle]
      | running => exact hle
      | _ =>
        rw [hstate] at halive
        cases halive
  have hwatched : s.watches record = true := by
    have hall := List.all_eq_true.mp hcond r hmem
    rw [hr] at hall
    simpa [hsweeps, State.stranded, hleft] using hall
  unfold step at hs
  obtain ⟨x, hx, rfl⟩ := Option.map_eq_some_iff.mp hs
  simp only [connectionStep, dispatcherStep, poolStep, Option.none_or] at hx
  split at hx
  · cases hx
    have hopen := hinv.flips flips
    exact shutdownTurn_released hopen hkept hmem hswept
      ⟨hr, halive, closed_of_left hinv hleft, hwatched⟩ hr' hended
  · cases hx

/-- The end of a staging is processed by `_complete_local`, for the request of the future. -/
theorem tidy_complete {a : Action} {r : Nat} {record : Request} {outcome : Outcome} {x y : State}
    (hr : s.records[r]? = some record) (hallows : (staying (· = r)).Allows s a)
    (heq : y = x.completeLocal cfg r outcome) (hs : step cfg s ⟨a, flips⟩ = some s')
    (hlast : s' = { y with flips := [] }) (hrecords : x.records = s.records)
    (hlive : x.live = s.live) (hsessions : x.sessions = s.sessions)
    (hconnections : x.connections = s.connections) : s'.Tidy := by
  refine htidy.of_released hinv (step_micros hinv hallows hs) ?_
  intro r' he
  rw [show r' = r from he]
  refine ⟨record, hr, fun hheld hleft _ _ _ => ?_⟩
  have henrolled := hkept.enrolled hinv.wf hr hheld (closed_of_left hinv hleft)
  rw [hlast, heq]
  have hreleased : (x.completeLocal cfg r outcome).Released r := by
    refine completeLocal_released cfg outcome ⟨?_, ?_, ?_, ?_⟩ (hinv.wf.encodable r record hr)
    · rw [hrecords]
      exact hr
    · rw [hlive]
      exact henrolled.live
    · rw [hsessions]
      exact henrolled.listed
    · unfold State.closed
      rw [hconnections]
      exact henrolled.closed
  exact hreleased

theorem tidy_completeFailed (hs : step cfg s ⟨.completeFailed, flips⟩ = some s') : s'.Tidy := by
  have hstep := hs
  unfold step at hs
  obtain ⟨x, hx, rfl⟩ := Option.map_eq_some_iff.mp hs
  simp only [connectionStep, dispatcherStep, poolStep, Option.none_or, Option.or_none] at hx
  split at hx
  · rename_i r f outcome hd
    cases hx
    obtain ⟨-, record, -, hr, -⟩ := hinv.placed.before r f (by rw [show s.dispatcher = _ from hd]; rfl)
    have hallows : (staying (· = r)).Allows s .completeFailed := by
      refine ⟨fun _ => trivial, fun r' f' outcome' hd' => ?_⟩
      have hboth := hd'.symm.trans (show s.dispatcher = _ from hd)
      cases hboth
      rfl
    exact tidy_complete hinv hkept htidy hr hallows rfl hstep rfl rfl rfl rfl rfl
  · cases hx

theorem tidy_callAttached (hs : step cfg s ⟨.callAttached, flips⟩ = some s') : s'.Tidy := by
  have hstep := hs
  unfold step at hs
  obtain ⟨x, hx, rfl⟩ := Option.map_eq_some_iff.mp hs
  simp only [connectionStep, dispatcherStep, poolStep, Option.none_or, Option.or_none] at hx
  split at hx
  · rename_i r f hd
    cases hx
    have hd' : s.dispatcher = .calling r f := hd
    obtain ⟨fut, record, hfut, hr, hlocal, -, -⟩ := hinv.placed.after r f (by rw [hd']; rfl)
    obtain ⟨fut', hfut', rfl⟩ := hinv.wf.localFuture r record f hr hlocal
    rw [hfut] at hfut'
    cases hfut'
    have hdone := hinv.placed.calling _ f fut hd' hfut
    cases hphase : fut.phase with
    | pending =>
      unfold LocalFuture.pending at hdone
      rw [hphase] at hdone
      cases hdone
    | done outcome =>
      have hallows : (staying (· = fut.record)).Allows s .callAttached := by
        refine ⟨fun _ => trivial, fun r' f' hcall => ?_⟩
        have hboth := hcall.symm.trans hd'
        cases hboth
        rfl
      have heq : State.poolDone cfg { s with flips, dispatcher := .idle } f =
          State.completeLocal cfg { s with flips, dispatcher := .idle } fut.record outcome := by
        unfold State.poolDone
        rw [show ({ s with flips, dispatcher := .idle } : State).futures[f]? = some fut from hfut]
        dsimp only
        rw [hphase]
      exact tidy_complete hinv hkept htidy hr hallows heq hstep rfl rfl rfl rfl rfl
  · cases hx

theorem tidy_notify {f : Nat} (hs : step cfg s ⟨.notify f, flips⟩ = some s') : s'.Tidy := by
  have hstep := hs
  unfold step at hs
  obtain ⟨x, hx, rfl⟩ := Option.map_eq_some_iff.mp hs
  simp only [connectionStep, dispatcherStep, poolStep, Option.none_or] at hx
  split at hx
  · rename_i fut hfut
    split at hx
    · rename_i hn
      cases hx
      have hfut' : s.futures[f]? = some fut := hfut
      obtain ⟨hatt, hdone⟩ := hinv.placed.notifying f fut hfut' hn
      obtain ⟨record, hr, -⟩ :=
        hinv.placed.submitted f fut hfut' (hinv.placed.attached f fut hfut' hatt).1
      cases hphase : fut.phase with
      | pending =>
        unfold LocalFuture.pending at hdone
        rw [hphase] at hdone
        cases hdone
      | done outcome =>
        have hallows : (staying (· = fut.record)).Allows s (.notify f) := by
          refine ⟨fun _ => trivial, fun fut'' hfut'' => ?_⟩
          rw [hfut'] at hfut''
          cases hfut''
          rfl
        obtain ⟨x, hx⟩ : ∃ x, x = State.setFuture { s with flips } f fun fut =>
          { fut with notifying := false } := ⟨_, rfl⟩
        have heq : x.poolDone cfg f = x.completeLocal cfg fut.record outcome := by
          have hlook : x.futures[f]? = some { fut with notifying := false } := by
            rw [hx]
            exact getElem?_modify_self hfut'
          unfold State.poolDone
          rw [hlook]
          dsimp only
          rw [hphase]
        rw [← hx] at hstep ⊢
        exact tidy_complete hinv hkept htidy hr hallows heq hstep rfl (by rw [hx]; rfl)
          (by rw [hx]; rfl) (by rw [hx]; rfl) (by rw [hx]; rfl)
    · cases hx
  · cases hx

/-- `_disconnect` removes what has ended before the connection has left. -/
theorem tidy_disconnect {c : Nat} (hs : step cfg s ⟨.disconnect c, flips⟩ = some s') : s'.Tidy := by
  unfold step at hs
  obtain ⟨x, hx, rfl⟩ := Option.map_eq_some_iff.mp hs
  simp only [connectionStep, dispatcherStep, poolStep, Option.or_none] at hx
  split at hx
  · rename_i hreader
    cases hx
    obtain ⟨conn, hc, -⟩ := Option.map_eq_some_iff.mp hreader
    obtain ⟨E, hE⟩ : ∃ E : Nat → Prop, E = fun r => ∃ record : Request, s.records[r]? = some record ∧
      record.connection = c := ⟨_, rfl⟩
    obtain ⟨d, hd⟩ : ∃ d, d = State.dropConnection cfg { s with flips } c := ⟨_, rfl⟩
    have hclose : Locked cfg (staying E) { s with flips }
        (State.setConnection { s with flips } c (Connection.close cfg)) := locked_quiet .close
    have hflips : Locked cfg (staying E) s { s with flips } := locked_flips flips
    have hdrop : Locked cfg (staying E) s d := by
      rw [hd]
      exact (hflips.trans hclose).trans (.single (.sockets trivial (rooms_drop _ c)) rfl)
    have hdc : d.connections[c]? = some (conn.close cfg) := by
      rw [hd]
      exact getElem?_modify_self hc
    have hdinv := hdrop.inv hinv
    have hdkept : d.Kept := by
      rw [hd]
      exact hkept
    have hserves : (staying E).Serves d c := by
      refine ⟨fun _ _ => trivial, fun i r record hci hr hi => ?_⟩
      have hconnection := hdinv.wf.connection_eq hci hr hi
      rw [hd] at hr
      show E r
      rw [hE]
      exact ⟨record, hr, hconnection⟩
    have hleave : Locked cfg (staying E) d (d.leaveSession cfg c) :=
      locked_leaveSession hdinv hserves (by rw [closed_of_some hdc]; exact Connection.closed_close conn)
    have hbut : (d.leaveSession cfg c).TidyBut E := by
      refine State.TidyBut.micros (fun r record hr hterm hheld hleft => ?_) hinv (fun _ h => h)
        (fun _ h => h) (hdrop.trans hleave).micros
      exact (htidy r record hr hterm hheld hleft).elim
    unfold State.disconnect
    rw [← hd]
    intro r record hr hterm hheld hleft
    have hr' : (d.leaveSession cfg c).records[r]? = some record := hr
    by_cases hmine : record.connection = c
    · rw [leaveSession_tidies hdinv hdkept hdc (Connection.closed_close conn) hr' hterm hmine] at hheld
      cases hheld
    · have hleft' : (d.leaveSession cfg c).left record.connection = true := by
        have hlook : (State.setConnection (d.leaveSession cfg c) c fun conn =>
            { conn with reader := .gone }).connections[record.connection]? =
            (d.leaveSession cfg c).connections[record.connection]? :=
          getElem?_modify_of_ne (Ne.symm hmine)
        unfold State.left at hleft ⊢
        rw [← hlook]
        exact hleft
      have hends := hbut r record hr' hterm hheld hleft'
      rw [hE] at hends
      obtain ⟨record₀, hr₀, hc₀⟩ := hends
      exact hmine (((hdrop.trans hleave).micros.evolves.back hr₀ hr').connection.trans hc₀)
  · cases hx

end Actions

/-- **One step** that takes neither of the two paths. -/
theorem State.Tidy.step {l : Label} (htidy : s.Tidy) (hinv : s.Inv cfg) (hkept : s.Kept)
    (hcond : releases cfg s l = true) (hs : step cfg s l = some s') : s'.Tidy := by
  obtain ⟨a, flips⟩ := l
  cases a with
  | handle => exact tidy_handle hinv htidy hs
  | disconnect => exact tidy_disconnect hinv hkept htidy hs
  | dispatch => exact tidy_dispatch hinv hkept htidy hcond hs
  | completeFailed => exact tidy_completeFailed hinv hkept htidy hs
  | callAttached => exact tidy_callAttached hinv hkept htidy hs
  | claim => exact tidy_claim hinv hkept htidy hcond hs
  | notify => exact tidy_notify hinv hkept htidy hs
  | shutdownTurn => exact tidy_shutdownTurn hinv hkept htidy hcond hs
  | requeue => exact tidy_stays hinv htidy hs (fun _ => trivial)
  | attach => exact tidy_stays hinv htidy hs (fun _ => trivial)
  | finish => exact tidy_stays hinv htidy hs (fun _ => trivial)
  | accept => exact tidy_stays hinv htidy hs trivial
  | prepare => exact tidy_stays hinv htidy hs trivial
  | _ => exact tidy_stays hinv htidy hs trivial

/-- A scope in which requests are accepted on registered sessions only. -/
def registered : Scope := { Scope.all with accepts := fun s i _ => i ∈ s.live }

/-- One step that accepts requests on registered sessions only. -/
theorem State.Kept.step {l : Label} (hkept : s.Kept) (hinv : s.Inv cfg)
    (hcond : releases cfg s l = true) (hs : step cfg s l = some s') : s'.Kept := by
  by_cases hlate : ∃ (c : Nat) (now : Clock) (grant : Str → Except Str Bool)
      (statistics : Option Dict) (conn : Connection) (m : Inbound) (i : Nat),
      l.action = .handle c now grant statistics ∧ s.connections[c]? = some conn ∧
      conn.reader = .handling m ∧ m.message.kind = .submit ∧ conn.session = some i ∧ i ∉ s.live
  · obtain ⟨c, now, grant, statistics, conn, m, i, hl, hc, hreader, hkind, hi, hdead⟩ := hlate
    have hrefused : s.accepts cfg c m.message now grant = false := by
      unfold releases at hcond
      rw [hl] at hcond
      dsimp only at hcond
      rw [hc] at hcond
      dsimp only at hcond
      rw [hreader, hi] at hcond
      simpa [hkind, hdead] using hcond
    have hrecords := records_refused hl hc hreader hkind hrefused hs
    exact hkept.micros_of_length hinv (step_micros hinv (Scope.allows_all s l.action) hs)
      (congrArg List.length hrecords)
  · have hallows : registered.Allows s l.action := by
      refine .of_submits (fun _ => trivial) (fun _ => trivial) (fun _ => trivial) (fun _ => trivial)
        (fun _ _ _ => trivial) trivial (fun _ => trivial) ?_
      intro c now grant statistics hl m hreader hkind i requestId hi _ flips
      obtain ⟨conn, hc, hci⟩ := Option.bind_eq_some_iff.mp hi
      have hhandling : conn.reader = .handling m := by
        unfold State.withReader at hreader
        rw [hc] at hreader
        exact Option.some.inj hreader
      by_contra hdead
      exact hlate ⟨c, now, grant, statistics, conn, m, i, hl, hc, hhandling, hkind, hci, hdead⟩
    exact hkept.micros hinv (fun _ _ _ h => h) (step_micros hinv hallows hs)

end Changes

theorem reach_tidy {cfg : Config} {s : State}
    (h : (broker cfg).Reach (fun s l => releases cfg s l = true) s) : s.Kept ∧ s.Tidy := by
  refine h.invariant (I := fun s => s.Kept ∧ s.Tidy) ⟨(fun _ _ h => nomatch h), fun _ _ h => nomatch h⟩
    fun s l s' hreach hs hcond hstep => ?_
  have hinv := reachable_inv hreach
  exact ⟨hs.1.step hinv hcond hstep, hs.2.step hinv hs.1 hcond hstep⟩

/-! ## Counters -/

/-- No session was granted more than the retained bytes allow. -/
def State.Granted (cfg : Config) (s : State) : Prop :=
  ∀ (i : Nat) (session : Session), s.sessions[i]? = some session →
    session.maxResultBytes ≤ cfg.limits.maxRetainedOutcomeBytesPerSession ∧
      session.maxResultBytes ≤ cfg.limits.maxRetainedOutcomeBytesGlobal

section Counters

variable {cfg : Config} {scope : Scope} {s s' : State}

theorem State.Granted.micro (h : s.Granted cfg) (hm : Micro cfg scope s s') : s'.Granted cfg := by
  have hset : ∀ {i : Nat} {g : Session → Session}, s'.sessions = s.sessions.modify i g →
      (∀ session, (g session).maxResultBytes = session.maxResultBytes) → s'.Granted cfg := by
    intro i g heq hg j session' hs'
    rw [heq] at hs'
    obtain ⟨session, hs, rfl⟩ := getElem?_modify_some hs'
    split
    · rw [hg]
      exact h j session hs
    · exact h j session hs
  cases hm with
  | @accept c i conn session sequence record f _ _ ha =>
    obtain ⟨m, now, registered, priority, executionTimeout, queueTimeout, hrecord⟩ := ha.fresh
    have hi : record.session = i := by
      rw [hrecord]
      rfl
    exact hset (State.WF.sessions_enter hi) fun _ => rfl
  | watermark => exact hset rfl fun _ => rfl
  | retire => exact hset rfl fun _ => rfl
  | requeue _ _ hr =>
    rw [requeue_eq hr]
    exact h
  | @unregister i =>
    obtain ⟨live, clientSessions, heq⟩ := unregister_eq s i
    rw [heq]
    exact h
  | @register c conn session _ _ _ _ _ hnew =>
    intro i session' hs'
    rcases getElem?_append_some hs' with hold | ⟨-, rfl⟩
    · exact h i session' hold
    · have hmin := congrArg Session.maxResultBytes hnew
      simp only [newSession] at hmin
      omega
  | work hw => cases hw <;> exact h
  | _ => exact h

/-- The counters of the server and of its sessions. -/
structure State.Audited (cfg : Config) (s : State) : Prop where
  inv : s.Inv cfg
  balanced : s.Balanced cfg
  tallied : s.Tallied
  granted : s.Granted cfg

theorem State.Audited.init (cfg : Config) : State.Audited cfg {} :=
  ⟨.init cfg, .init cfg, ⟨rfl, rfl⟩, fun _ _ h => by cases h⟩

theorem State.Audited.micros (h : s.Audited cfg) (hm : Micros cfg scope s s') : s'.Audited cfg := by
  induction hm with
  | refl => exact h
  | tail _ hstep ih =>
    have hwf := ih.inv.wf
    exact ⟨ih.inv.micros (.single hstep), ih.balanced.micro hwf hstep, ih.tallied.micro hwf hstep,
      ih.granted.micro hstep⟩

theorem reachable_audited {C : State → Label → Prop} (h : (broker cfg).Reach C s) : s.Audited cfg := by
  refine h.invariant (I := State.Audited cfg) (.init cfg) fun s l s' _ haudited _ hstep => ?_
  exact haudited.micros (step_micros haudited.inv (Scope.allows_all s l.action) hstep)

/-- A total over requests that are all released. -/
theorem held_of_released (weight : Nat → Int)
    (h : ∀ (r : Nat) (record : Request), s.records[r]? = some record →
      record.reservationReleased = true) : s.held weight = 0 := by
  refine List.sum_eq_zero fun n hn => ?_
  obtain ⟨record, hmem, rfl⟩ := List.mem_map.mp hn
  obtain ⟨r, hr⟩ := List.mem_iff_getElem?.mp hmem
  rw [h r record hr, if_pos rfl]

/-- When every reservation is released the tables are empty and there is room. -/
theorem room_of_released (h : s.Audited cfg)
    (hreleased : ∀ (r : Nat) (record : Request), s.records[r]? = some record →
      record.reservationReleased = true) :
    s.reservedOutcomes = 0 ∧ s.reservedOutcomeBytes = 0 ∧ s.requests = [] ∧
      ∀ (i : Nat) (session : Session), s.sessions[i]? = some session →
        s.queueFull cfg session = false := by
  have hwf := h.inv.wf
  have hcounts : s.reservedOutcomes = 0 ∧ s.reservedOutcomeBytes = 0 :=
    ⟨h.tallied.1.trans (held_of_released _ hreleased), h.tallied.2.trans (held_of_released _ hreleased)⟩
  have hempty : ∀ (i : Nat) (session : Session), s.sessions[i]? = some session →
      session.requests = [] := by
    intro i session hs
    refine List.eq_nil_iff_forall_not_mem.mpr fun e he => ?_
    obtain ⟨record, hr, -, -, hheld⟩ := hwf.entry i session e.1 e.2 hs he
    rw [hreleased e.2 record hr] at hheld
    cases hheld
  have hrequests : s.requests = [] := by
    refine List.eq_nil_iff_forall_not_mem.mpr fun e he => ?_
    obtain ⟨record, hr, -, session, hs, hmem⟩ := hwf.global e.1 e.2 he
    rw [hempty _ session hs] at hmem
    cases hmem
  refine ⟨hcounts.1, hcounts.2, hrequests, fun i session hs => ?_⟩
  obtain ⟨hsession, hprincipal, hglobal, hretained, hretainedGlobal⟩ := cfg.accepted.capacities
  obtain ⟨hbytes, hbytesGlobal⟩ := h.granted i session hs
  have hledger := h.balanced.session i session hs
  have houtcomes : session.reservedOutcomes = session.requests.length := hledger.outcomes
  have hcharge : session.reservedOutcomeBytes = s.charge session.requests := hledger.bytes
  rw [hempty i session hs] at houtcomes hcharge
  have houtcomes' : session.reservedOutcomes = 0 := houtcomes
  have hcharge' : session.reservedOutcomeBytes = 0 := hcharge
  unfold State.queueFull
  rw [hempty i session hs, hrequests, hcounts.1, hcounts.2, houtcomes', hcharge']
  simp only [Table.values, List.map_nil, List.filter_nil, List.length_nil, Bool.or_eq_false_iff,
    decide_eq_false_iff_not]
  omega

end Counters

/-- **A disconnected session leaves nothing behind**, in every run in which no submission is accepted on
a session that is not registered, and no request ends outside of `_complete_local` after its connection
has left, unless the cancellation of its local future runs `_complete_local`: once `_disconnect` has run
for a connection, each request of its session that has ended is out of `_requests` and its reservation is
released.  The counters of the server are the sums over the requests that are not released; so when every
request has ended and its connection has left, both are zero, and no session is told that the queue is
full. -/
theorem disconnected_requests_released (cfg : Config) {s : State}
    (h : (broker cfg).Reach (fun s l => releases cfg s l = true) s) :
    (∀ (c : Nat) (conn : Connection) (i : Nat), s.connections[c]? = some conn → conn.left = true →
      conn.session = some i → ∀ (r : Nat) (record : Request), s.records[r]? = some record →
      record.session = i → record.state.terminal = true →
      r ∉ s.requests.values ∧ record.reservationReleased = true) ∧
    (s.reservedOutcomes = s.held (fun _ => 1) ∧ s.reservedOutcomeBytes = s.held (fun n => n)) ∧
    ((∀ (r : Nat) (record : Request), s.records[r]? = some record →
        record.state.terminal = true ∧ s.left record.connection = true) →
      s.reservedOutcomes = 0 ∧ s.reservedOutcomeBytes = 0 ∧ s.requests = [] ∧
        ∀ (i : Nat) (session : Session), s.sessions[i]? = some session →
          s.queueFull cfg session = false) := by
  obtain ⟨hkept, htidy⟩ := reach_tidy h
  have haudited := reachable_audited h
  have hwf := haudited.inv.wf
  -- a request that has ended on a connection that has left
  have hreleased : ∀ (r : Nat) (record : Request), s.records[r]? = some record →
      record.state.terminal = true → s.left record.connection = true →
      record.reservationReleased = true := by
    intro r record hr hterm hleft
    by_contra hheld
    exact htidy r record hr hterm (Bool.eq_false_iff.mpr hheld) hleft
  refine ⟨?_, haudited.tallied, fun hall => ?_⟩
  · intro c conn i hc hleft hi r record hr hsession hterm
    have hconnection : record.connection = c :=
      hwf.connection_eq (by rw [hc]; exact hi) hr hsession
    have hdone : record.reservationReleased = true := by
      refine hreleased r record hr hterm ?_
      rw [hconnection, left_of_some hc]
      exact hleft
    refine ⟨fun hmem => ?_, hdone⟩
    obtain ⟨⟨k, r'⟩, he, rfl⟩ := List.mem_map.mp hmem
    obtain ⟨record', hr', -, session, hs, hlisted⟩ := hwf.global k r' he
    obtain ⟨record'', hr'', -, -, hheld⟩ := hwf.entry _ session _ r' hs hlisted
    rw [hr] at hr''
    cases hr''
    rw [hdone] at hheld
    cases hheld
  · exact room_of_released haudited fun r record hr => hreleased r record hr (hall r record hr).1 (hall r record hr).2

/-- A client submits a request and goes away; the request is cancelled and removed. -/
theorem disconnected_requests_released_submitAndLeave : ∃ s,
    (broker (sampleConfig .cancelQueued)).runWhile (releases (sampleConfig .cancelQueued)) {}
        (submitAndLeave ++ [⟨.disconnect 0, []⟩]) = some s ∧
      (s.records.map fun record => (record.session, record.state)) = [(0, .cancelled)] ∧
      0 ∉ s.requests.values := by
  have hrun : (((broker (sampleConfig .cancelQueued)).runWhile
      (releases (sampleConfig .cancelQueued)) {} (submitAndLeave ++ [⟨.disconnect 0, []⟩])).map fun s =>
        (s.records.map fun record => (record.session, record.state),
          s.connections.map fun conn => (conn.left, conn.session))) =
      some ([(0, .cancelled)], [(true, some 0)]) := by decide +kernel
  obtain ⟨s, hrun, hfacts⟩ := Option.map_eq_some_iff.mp hrun
  obtain ⟨hrecords, hconnections⟩ := Prod.mk.inj hfacts
  refine ⟨s, hrun, hrecords, ?_⟩
  obtain ⟨record, hlist, hrecord⟩ := List.map_eq_singleton_iff.mp hrecords
  obtain ⟨conn, hconns, hconn⟩ := List.map_eq_singleton_iff.mp hconnections
  obtain ⟨hsession, hstate⟩ := Prod.mk.inj hrecord
  obtain ⟨hleft, hi⟩ := Prod.mk.inj hconn
  have hreach := System.Reach.of_runWhile .init (submitAndLeave ++ [⟨.disconnect 0, []⟩]) hrun
  exact ((disconnected_requests_released _ hreach).1 0 conn 0 (by rw [hconns]; rfl) hleft hi 0 record
    (by rw [hlist]; rfl) hsession (by rw [hstate]; rfl)).1

/-- A worker returns while the writer of the connection has failed and the reader has a submission in
hand; the session is unregistered, and then the submission is accepted. -/
def submitOnDeadSession : List Label :=
  openSession 0 (lit "a") ++ deliver 0 (sampleMessage .submit (lit "a:1") encodable_a1) ++
    stageNext ++ [⟨.claim 0 77 early, []⟩, ⟨.finish 0 (.raised (lit "x")), []⟩,
      ⟨.receive 0 (sampleMessage .submit (lit "a:2") encodable_a2), []⟩,
      ⟨.write 0 .failed, []⟩, ⟨.notify 0, []⟩,
      ⟨.handle 0 early (fun _ => .ok true) none, []⟩, ⟨.endRead 0, []⟩, ⟨.disconnect 0, []⟩]

/-- **A request that stays.** `_disconnect` has run, both requests of the session have ended, and the
second one is still in `_requests` and counted. -/
theorem submit_on_dead_session : ∃ s, (broker (sampleConfig .cancelQueued)).Reachable s ∧
    (s.connections.map fun conn => (conn.left, conn.session)) = [(true, some 0)] ∧
    (s.records.map fun record => (record.session, record.state.terminal)) = [(0, true), (0, true)] ∧
    s.requests.values = [1] ∧ s.reservedOutcomes = 1 ∧ s.reservedOutcomeBytes = 1024 := by
  have hrun : (((broker (sampleConfig .cancelQueued)).run {} submitOnDeadSession).map fun s =>
      (s.connections.map fun conn => (conn.left, conn.session),
        s.records.map fun record => (record.session, record.state.terminal),
        s.requests.values, [s.reservedOutcomes, s.reservedOutcomeBytes])) =
      some ([(true, some 0)], [(0, true), (0, true)], [1], [1, 1024]) := by decide +kernel
  obtain ⟨s, hrun, hfacts⟩ := Option.map_eq_some_iff.mp hrun
  obtain ⟨hconnections, hfacts⟩ := Prod.mk.inj hfacts
  obtain ⟨hrecords, hfacts⟩ := Prod.mk.inj hfacts
  obtain ⟨hrequests, hcounts⟩ := Prod.mk.inj hfacts
  obtain ⟨houtcomes, hbytes⟩ := List.cons.inj hcounts
  exact ⟨s, System.reachable_of_run hrun, hconnections, hrecords, hrequests, houtcomes,
    (List.cons.inj hbytes).1⟩

end Deadpool.Remote.Broker
