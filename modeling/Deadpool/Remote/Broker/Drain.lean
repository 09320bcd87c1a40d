import Deadpool.Remote.Broker.Isolation
import Deadpool.Remote.Broker.Told

/-!
# The broker: the graceful stop

`shutdown` moves the server to `DRAINING`; its thread waits until every request in `_requests` has
ended, or ends them at the deadline, before the state becomes `STOPPING` and `GOAWAY` is sent.

Principal results: `graceful_stop` — a server that has left `RUNNING` accepts nothing more, is stopping
only once every request in `_requests` has ended, and says `GOAWAY` after the end of every request of the
connection; `answers_ordered` — so do rejections and decisions about cancellations; `accepted_once` — a
session never accepts an ID twice.
-/

set_option autoImplicit false

namespace Deadpool.Remote.Broker

open Deadpool.Py Deadpool.Lts

/-! ## The state of the server -/

def ServerState.halted : ServerState → Bool
  | .stopping | .stopped => true
  | .running | .draining => false

section Changes

variable {cfg : Config} {scope : Scope} {s s' : State}

theorem status_requeue (r : Nat) : (s.requeue r).status = s.status := by
  unfold State.requeue
  dsimp only
  split
  · rfl
  · split <;> rfl

theorem status_unregister (i : Nat) : (s.unregister i).status = s.status := by
  unfold State.unregister
  split
  · rfl
  · split <;> rfl

/-- The state of the server stays, or it advances and nothing else changes that matters here. -/
theorem Micro.status (hm : Micro cfg scope s s') : s'.status = s.status ∨
    s.Advances s'.status ∧ s'.requests = s.requests ∧ s'.records = s.records := by
  cases hm with
  | flags hadvances => exact .inr ⟨hadvances, rfl, rfl⟩
  | requeue => exact .inl (status_requeue _)
  | unregister => exact .inl (status_unregister _)
  | work hw => exact .inl (by cases hw <;> rfl)
  | _ => exact .inl rfl

/-- What has left `RUNNING` does not come back, and accepts nothing. -/
theorem Micro.drains (hm : Micro cfg scope s s') (h : s.status ≠ .running) :
    s'.status ≠ .running ∧ s'.records.length = s.records.length := by
  constructor
  · rcases hm.status with hsame | ⟨hadvances, -⟩
    · rw [hsame]
      exact h
    · intro hrunning
      rw [hrunning] at hadvances
      generalize hnext : ServerState.running = next at hadvances
      cases hadvances with
      | same => exact h hnext.symm
      | draining | stopping | stopped => cases hnext
  · have hle : s.records.length ≤ s'.records.length := Micros.length_le (.single hm)
    by_contra hne
    have hnew : s'.records[s.records.length]? = some s'.records[s.records.length] :=
      List.getElem?_eq_getElem (by omega)
    rcases hm.accepted with hback | ⟨c, i, session, sequence, record, f, ha, -⟩
    · obtain ⟨record, hr, -⟩ := hback _ _ hnew
      exact absurd (lt_of_getElem? hr) (lt_irrefl _)
    · exact h ha.status

theorem Micros.drains (hm : Micros cfg scope s s') (h : s.status ≠ .running) :
    s'.status ≠ .running ∧ s'.records.length = s.records.length := by
  induction hm with
  | refl => exact ⟨h, rfl⟩
  | tail _ hstep ih =>
    obtain ⟨hstatus, hlen⟩ := hstep.drains ih.1
    exact ⟨hstatus, hlen.trans ih.2⟩

theorem Micro.halted (hm : Micro cfg scope s s') (h : s.status.halted = true) :
    s'.status.halted = true := by
  rcases hm.status with hsame | ⟨hadvances, -⟩
  · rw [hsame]
    exact h
  · generalize s'.status = next at hadvances
    cases hadvances with
    | same => exact h
    | draining hrunning =>
      rw [hrunning] at h
      cases h
    | stopping | stopped => rfl

theorem Micros.halted (hm : Micros cfg scope s s') (h : s.status.halted = true) :
    s'.status.halted = true := by
  induction hm with
  | refl => exact h
  | tail _ hstep ih => exact hstep.halted ih

/-- A server that is stopping has ended what is in `_requests`. -/
def State.Drained (s : State) : Prop := s.status.halted = true → s.Emptied

theorem State.Drained.micro (h : s.Drained) (hwf : s.WF) (hm : Micro cfg scope s s') : s'.Drained := by
  intro hhalted e he record' hr'
  rcases hm.status with hsame | ⟨hadvances, hrequests, hrecords⟩
  · have hhalted' : s.status.halted = true := hsame ▸ hhalted
    have hold : e ∈ s.requests := by
      rcases hm.entry he with hold | ⟨_, _, _, _, _, ha, -⟩
      · exact hold
      · rw [ha.status] at hhalted'
        cases hhalted'
    obtain ⟨record, hr, -⟩ := hwf.global e.1 e.2 hold
    exact (hm.evolves.back hr hr').terminal (h hhalted' e hold record hr)
  · rw [hrequests] at he
    rw [hrecords] at hr'
    generalize hnext : s'.status = next at hadvances hhalted
    cases hadvances with
    | same => exact h hhalted e he record' hr'
    | draining => cases hhalted
    | stopping hemptied => exact hemptied e he record' hr'
    | stopped hstopping => exact h (by rw [hstopping]; rfl) e he record' hr'

theorem State.Drained.micros (h : s.Drained) (hinv : s.Inv cfg) (hm : Micros cfg scope s s') :
    s'.Drained := by
  induction hm with
  | refl => exact h
  | tail hprev hstep ih => exact ih.micro (hinv.micros hprev).wf hstep

end Changes

section Runs

variable {cfg : Config} {s s' : State}

theorem reachable_drained {C : State → Label → Prop} (h : (broker cfg).Reach C s) : s.Drained := by
  refine h.invariant (fun h => nomatch h) fun s l s' hreach hdrained _ hstep => ?_
  have hinv := reachable_inv hreach
  exact hdrained.micros hinv (step_micros hinv (Scope.allows_all s l.action) hstep)

theorem step_drains {l : Label} (hinv : s.Inv cfg) (hs : step cfg s l = some s')
    (h : s.status ≠ .running) : s'.status ≠ .running ∧ s'.records.length = s.records.length :=
  (step_micros hinv (Scope.allows_all s l.action) hs).drains h

/-- A server that has left `RUNNING` accepts nothing more. -/
theorem run_drains (hreach : (broker cfg).Reachable s) (h : s.status ≠ .running) :
    ∀ (ls : List Label) {s' : State}, (broker cfg).run s ls = some s' →
      s'.status ≠ .running ∧ s'.records.length = s.records.length := by
  intro ls
  induction ls generalizing s with
  | nil =>
    intro s' hrun
    cases hrun
    exact ⟨h, rfl⟩
  | cons l ls ih =>
    intro s' hrun
    obtain ⟨x, hx, hrun⟩ := Option.bind_eq_some_iff.mp hrun
    obtain ⟨hstatus, hlen⟩ := step_drains (reachable_inv hreach) hx h
    obtain ⟨hstatus', hlen'⟩ := ih (.step hreach trivial hx) hstatus hrun
    exact ⟨hstatus', hlen'.trans hlen⟩

/-! ## GOAWAY -/

/-- `GOAWAY` stands after the end of every request of the connection. -/
def State.Farewell (s : State) : Prop :=
  ∀ (c : Nat) (conn : Connection) (before : List Entry) (entry : Entry) (after : List Entry),
    s.connections[c]? = some conn → conn.log = before ++ entry :: after →
    entry.message.kind = .goaway → s.status.halted = true ∧
      ∀ (r : Nat) (record : Request), s.records[r]? = some record → record.connection = c →
        record.state.terminal = true ∧ Heard before r record

/-- A request of an open connection is in `_requests` until it has ended. -/
theorem indexed_of_open (hwf : s.WF) (hattended : s.Attended) (hisolated : s.Isolated) {r : Nat}
    {record : Request} {conn : Connection} (hr : s.records[r]? = some record)
    (hc : s.connections[record.connection]? = some conn) (hopen : conn.closed = false)
    (halive : record.state.terminal = false) : (record.requestId, r) ∈ s.requests := by
  obtain ⟨session, hs, hm⟩ := hwf.listed r record hr (hwf.reserved r record hr halive)
  have hlive : record.session ∈ s.live := by
    by_contra hgone
    have hclosed := hattended record.session session hs hgone
    obtain ⟨session', hs', hconn, -⟩ := hwf.owner r record hr
    rw [hs] at hs'
    cases hs'
    unfold State.closed at hclosed
    rw [hconn, hc] at hclosed
    rw [show conn.closed = true from hclosed] at hopen
    cases hopen
  exact Table.mem_of_get? (hisolated.indexed record.session session record.requestId r hlive hs hm)

theorem State.Farewell.step {l : Label} (h : s.Farewell) (htelling : s.Telling cfg)
    (hdrained : s'.Drained) (hisolated : s'.Isolated) (hs : Broker.step cfg s l = some s') :
    s'.Farewell := by
  have hinv := htelling.lived.inv
  have hmicros := step_micros hinv (Scope.allows_all s l.action) hs
  have htelling' := htelling.step hs
  have hwf' := htelling'.lived.inv.wf
  intro c conn' before entry after hc' hlog hkind
  rcases (step_turn htelling hs).connections c conn' hc' with ⟨conn, hc, hspeaks⟩ | ⟨-, hempty, -⟩
  · obtain ⟨entries, hentries, hfit⟩ := hspeaks.log
    rw [hentries] at hlog
    rcases split_append hlog with ⟨rest, hold⟩ | ⟨mid, hbefore, hnew⟩
    · -- the message was there, and nothing has been accepted since
      obtain ⟨hhalted, hheard⟩ := h c conn before entry rest hc hold hkind
      have hstatus : s.status ≠ .running := by
        intro hrunning
        rw [hrunning] at hhalted
        cases hhalted
      have hhalted' := Micros.halted hmicros hhalted
      refine ⟨hhalted', fun r record' hr' hconn => ?_⟩
      have hlt := lt_of_getElem? hr'
      rw [(hmicros.drains hstatus).2] at hlt
      have hr : s.records[r]? = some s.records[r] := List.getElem?_eq_getElem hlt
      have he := hmicros.evolves.back hr hr'
      obtain ⟨hterm, hsaid⟩ := hheard r _ hr (he.connection.symm.trans hconn)
      exact ⟨he.terminal hterm, hsaid.evolves hterm he⟩
    · -- the message is new
      rcases hfit mid entry after hnew with hplain | ⟨hopen, hfit⟩
      · rw [hkind] at hplain
        cases hplain
      · obtain ⟨hstopping, hheard⟩ := hfit.goaway hkind
        have hhalted : s'.status.halted = true := by
          rw [hstopping]
          rfl
        refine ⟨hhalted, fun r record' hr' hconn => ?_⟩
        have hterm : record'.state.terminal = true := by
          by_contra halive
          rw [Bool.not_eq_true] at halive
          have hmem := indexed_of_open hwf' htelling'.ordered.attended hisolated hr'
            (hconn ▸ hc') hopen halive
          rw [hdrained hhalted _ hmem record' hr'] at halive
          cases halive
        rw [hbefore]
        exact ⟨hterm, hheard r record' hr' hconn hterm⟩
  · rw [hempty] at hlog
    cases before <;> cases hlog

theorem reach_farewell (h : (broker cfg).Reach (fun s l => soleOwnerStep s l = true) s) :
    s.Farewell := by
  refine h.invariant (fun _ _ _ _ _ h => nomatch h) fun s l s' hreach hfarewell hsole hstep => ?_
  have hreach' : (broker cfg).Reach (fun s l => soleOwnerStep s l = true) s' := .step hreach hsole hstep
  exact hfarewell.step (reachable_telling hreach) (reachable_drained hreach') (reach_isolated hreach')
    hstep

/-- A run is a sequence of changes. -/
theorem run_micros (hreach : (broker cfg).Reachable s) :
    ∀ (ls : List Label) {s' : State}, (broker cfg).run s ls = some s' → Micros cfg .all s s' := by
  intro ls
  induction ls generalizing s with
  | nil =>
    intro s' hrun
    cases hrun
    exact .refl
  | cons l ls ih =>
    intro s' hrun
    obtain ⟨x, hx, hrun⟩ := Option.bind_eq_some_iff.mp hrun
    have hstep := step_micros (reachable_inv hreach) (Scope.allows_all s l.action) hx
    exact hstep.trans (ih (.step hreach trivial hx) hrun)

end Runs

/-! ## What clients may rely on -/

/-- **A request ID is accepted once.**  Two requests of a session with one ID are one request.  The
number of an accepted request is let through, and in every continuation of a run a session accepts
nothing more under an ID whose number it has let through: not while its request waits or runs, and not
after its outcome was acknowledged and its record removed. -/
theorem accepted_once (cfg : Config) {s : State} (h : (broker cfg).Reachable s) :
    (∀ (r r' : Nat) (record record' : Request), s.records[r]? = some record →
      s.records[r']? = some record' → record.session = record'.session →
      record.requestId = record'.requestId → r = r') ∧
    (∀ (r : Nat) (record : Request) (session : Session), s.records[r]? = some record →
      s.sessions[record.session]? = some session → session.Passed record.requestId) ∧
    ∀ (i : Nat) (session : Session) (requestId : Str), s.sessions[i]? = some session →
      session.Passed requestId → ∀ (ls : List Label) (s' : State), (broker cfg).run s ls = some s' →
      ∀ (r : Nat) (record' : Request), s'.records[r]? = some record' → record'.session = i →
        record'.requestId = requestId → ∃ record : Request, s.records[r]? = some record ∧
          record.Evolves record' := by
  have hnumbered := (reachable_ordered h).numbered
  refine ⟨hnumbered.unique, hnumbered.passed, ?_⟩
  intro i session requestId hs hpassed ls s' hrun r record' hr' hi hid
  rcases (run_micros h ls hrun).fresh hr' with hold | hnot
  · exact hold
  · exact absurd (hid ▸ hpassed) (hnot session (hi ▸ hs))

/-- A request that was let through, ran, was acknowledged and is submitted once more. -/
def submitAgain : List Label :=
  deliver 0 (sampleMessage .resultAck (lit "a:1") encodable_a1) ++
    deliver 0 (sampleMessage .submit (lit "a:1") encodable_a1)

theorem accepted_once_submitAgain : ∃ s s', (broker (sampleConfig .cancelQueued)).run {} reportedRun = some s ∧
    (broker (sampleConfig .cancelQueued)).run s submitAgain = some s' ∧
    (s'.sessions.map fun session => session.requests.map Prod.fst) = [[lit "a:2"]] ∧
    ∀ (r : Nat) (record' : Request), s'.records[r]? = some record' → record'.session = 0 →
      record'.requestId = lit "a:1" → ∃ record : Request, s.records[r]? = some record ∧
        record.Evolves record' := by
  have hrun : (((broker (sampleConfig .cancelQueued)).run {} reportedRun).bind fun s =>
      ((broker (sampleConfig .cancelQueued)).run s submitAgain).map fun s' =>
        (s.sessions.map fun session => (session.clientId, session.watermark),
          s'.sessions.map fun session => session.requests.map Prod.fst)) =
      some ([(lit "a", 2)], [[lit "a:2"]]) := by decide +kernel
  obtain ⟨s, hrun, hrest⟩ := Option.bind_eq_some_iff.mp hrun
  obtain ⟨s', hrun', hfacts⟩ := Option.map_eq_some_iff.mp hrest
  obtain ⟨hsessions, hkeys⟩ := Prod.mk.inj hfacts
  obtain ⟨session, hs, hclient⟩ := List.map_eq_singleton_iff.mp hsessions
  obtain ⟨hclient, hwatermark⟩ := Prod.mk.inj hclient
  have hget : s.sessions[0]? = some session := by rw [hs]; rfl
  have hpassed : session.Passed (lit "a:1") := by
    refine ⟨1, ?_, by omega⟩
    rw [hclient]
    decide +kernel
  exact ⟨s, s', hrun, hrun', hkeys, (accepted_once _ (System.reachable_of_run hrun)).2.2 0 session _ hget
    hpassed _ _ hrun'⟩

/-- **Rejections and decisions come last.**  What the log of a connection says of a request ID when a
rejection of it is enqueued: the session has let its number through, and every request that the
connection ever has under it has ended, and its end stands earlier in the log.  A decision `cancelled`
stands after the `CANCELLED` of the request it names, which is how that request ended. -/
theorem answers_ordered (cfg : Config) {s : State} (h : (broker cfg).Reachable s) {c : Nat}
    {conn : Connection} {before after : List Entry} {entry : Entry} (hc : s.connections[c]? = some conn)
    (hlog : conn.log = before ++ entry :: after) :
    (entry.message.kind = .rejected → ∃ (requestId : Str) (i : Nat) (session : Session),
      entry.message.control.items.get (lit "request_id") = .str requestId ∧
        s.sessions[i]? = some session ∧ session.connection = c ∧ session.Passed requestId ∧
        ∀ (r : Nat) (record : Request), s.records[r]? = some record → record.connection = c →
          record.requestId = requestId → record.state.terminal = true ∧ Heard before r record) ∧
    (entry.message.kind = .cancelResponse →
      entry.message.control.items.get (lit "response") = .str (lit Decision.cancelled.name) →
      ∃ (r : Nat) (record : Request), s.records[r]? = some record ∧ record.connection = c ∧
        entry.message.control.items.get (lit "request_id") = .str record.requestId ∧
        record.state.terminal = true ∧ record.terminalKind = some .cancelled ∧ Heard before r record) :=
  have htold := reachable_told h c conn before entry after hc hlog
  ⟨htold.rejected, htold.decided⟩

/-- The second request is cancelled, acknowledged and submitted once more. -/
def rejectLast : List Label :=
  sampleRun ++ deliver 0 (sampleMessage .cancelRequest (lit "a:2") encodable_a2) ++
    deliver 0 (sampleMessage .resultAck (lit "a:2") encodable_a2) ++
    deliver 0 (sampleMessage .submit (lit "a:2") encodable_a2)

theorem answers_ordered_rejectLast : ∃ s conn before entry,
    (broker (sampleConfig .cancelQueued)).run {} rejectLast = some s ∧
      s.connections[0]? = some conn ∧ conn.log = before ++ [entry] ∧
      before.map (fun e => e.message.kind.name) =
        ["WELCOME", "ACCEPTED", "ACCEPTED", "RUNNING", "CANCELLED", "CANCEL_RESPONSE"] ∧
      entry.message.kind = .rejected ∧ ∃ (requestId : Str),
        entry.message.control.items.get (lit "request_id") = .str requestId ∧
        ∀ (r : Nat) (record : Request), s.records[r]? = some record → record.connection = 0 →
          record.requestId = requestId → record.state.terminal = true ∧ Heard before r record := by
  have hrun : (((broker (sampleConfig .cancelQueued)).run {} rejectLast).bind fun s =>
      s.connections[0]?.map fun conn => conn.log.map fun e => e.message.kind.name) =
      some (["WELCOME", "ACCEPTED", "ACCEPTED", "RUNNING", "CANCELLED", "CANCEL_RESPONSE"] ++
        ["REJECTED"]) := by decide +kernel
  obtain ⟨s, hrun, hconn⟩ := Option.bind_eq_some_iff.mp hrun
  obtain ⟨conn, hc, hnames⟩ := Option.map_eq_some_iff.mp hconn
  obtain ⟨before, rest, hlog, hbefore, hrest⟩ := List.map_eq_append_iff.mp hnames
  obtain ⟨entry, rfl, hname⟩ := List.map_eq_singleton_iff.mp hrest
  have hkind : entry.message.kind = .rejected := by
    cases hk : entry.message.kind with
    | rejected => rfl
    | _ =>
      rw [hk] at hname
      exact absurd hname (by decide)
  obtain ⟨requestId, i, session, hid, -, -, -, hheard⟩ :=
    (answers_ordered _ (System.reachable_of_run hrun) hc hlog).1 hkind
  exact ⟨s, conn, before, entry, hrun, hc, hlog, hbefore, hkind, requestId, hid, hheard⟩

/-- **A graceful stop loses nothing.**  Once the server has left `RUNNING` it accepts nothing more,
whatever happens; it reaches `STOPPING` only when every request in `_requests` has ended; and where
`GOAWAY` stands in the log of a connection, every request of that connection has ended and its end
stands before, in every run in which each request ID belongs to one live session. -/
theorem graceful_stop (cfg : Config) {s : State}
    (h : (broker cfg).Reach (fun s l => soleOwnerStep s l = true) s) :
    (s.status ≠ .running → ∀ (ls : List Label) (s' : State), (broker cfg).run s ls = some s' →
      s'.status ≠ .running ∧ s'.records.length = s.records.length) ∧
    (s.status.halted = true → ∀ (requestId : Str) (r : Nat) (record : Request),
      (requestId, r) ∈ s.requests → s.records[r]? = some record → record.state.terminal = true) ∧
    ∀ (c : Nat) (conn : Connection) (before : List Entry) (entry : Entry) (after : List Entry),
      s.connections[c]? = some conn → conn.log = before ++ entry :: after →
      entry.message.kind = .goaway → s.status.halted = true ∧
        ∀ (r : Nat) (record : Request), s.records[r]? = some record → record.connection = c →
          record.state.terminal = true ∧ Heard before r record := by
  refine ⟨fun hstatus ls s' hrun => run_drains h.reachable hstatus ls hrun, ?_, reach_farewell h⟩
  exact fun hhalted requestId r record he hr => reachable_drained h hhalted (requestId, r) he record hr

/-- The server stops while one request runs and another is queued. -/
def stopWhileBusy : List Label :=
  sampleRun ++ [⟨.shutdown true none, []⟩, ⟨.shutdownTurn early, []⟩,
    ⟨.finish 0 (.worker .result [7] .empty), []⟩, ⟨.notify 0, []⟩, ⟨.shutdownTurn early, []⟩,
    ⟨.goaway 0, []⟩]

theorem graceful_stop_stopWhileBusy : ∃ s conn before entry,
    (broker (sampleConfig .cancelQueued)).runWhile soleOwnerStep {} stopWhileBusy = some s ∧
      s.connections[0]? = some conn ∧ conn.log = before ++ [entry] ∧
      before.map (fun e => e.message.kind.name) =
        ["WELCOME", "ACCEPTED", "ACCEPTED", "RUNNING", "CANCELLED", "RESULT"] ∧
      entry.message.kind = .goaway ∧
      ∀ (r : Nat) (record : Request), s.records[r]? = some record → record.connection = 0 →
        record.state.terminal = true ∧ Heard before r record := by
  have hrun : (((broker (sampleConfig .cancelQueued)).runWhile soleOwnerStep {} stopWhileBusy).bind
      fun s => s.connections[0]?.map fun conn => conn.log.map fun e => e.message.kind.name) =
      some (["WELCOME", "ACCEPTED", "ACCEPTED", "RUNNING", "CANCELLED", "RESULT"] ++ ["GOAWAY"]) := by
    decide +kernel
  obtain ⟨s, hrun, hconn⟩ := Option.bind_eq_some_iff.mp hrun
  obtain ⟨conn, hc, hnames⟩ := Option.map_eq_some_iff.mp hconn
  obtain ⟨before, rest, hlog, hbefore, hrest⟩ := List.map_eq_append_iff.mp hnames
  obtain ⟨entry, rfl, hname⟩ := List.map_eq_singleton_iff.mp hrest
  have hkind : entry.message.kind = .goaway := by
    cases hk : entry.message.kind with
    | goaway => rfl
    | _ =>
      rw [hk] at hname
      exact absurd hname (by decide)
  have hlast := (graceful_stop _ (System.Reach.of_runWhile .init stopWhileBusy hrun)).2.2 0 conn before
    entry [] hc hlog hkind
  exact ⟨s, conn, before, entry, hrun, hc, hlog, hbefore, hkind, hlast.2⟩

end Deadpool.Remote.Broker
