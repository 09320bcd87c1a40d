import Deadpool.Remote.Broker.Inbox

/-!
# The broker: whom a report is about

Every `ACCEPTED`, every `RUNNING` and every terminal message that is enqueued on a connection is about a
request of that connection and names it, and a terminal message says how the request ended.  A request
that expired was never started.

Principal results: `reports_attributed`, `expired_unstarted`.
-/

set_option autoImplicit false

namespace Deadpool.Remote.Broker

open Deadpool.Py Deadpool.Lts

section Reports

variable {cfg : Config} {scope : Scope} {s s' x : State} {c : Nat}

/-! ## Expiry -/

/-- Only a request that has ended has an end. -/
def State.Undecided (s : State) : Prop :=
  ∀ (r : Nat) (record : Request), s.records[r]? = some record → record.state.terminal = false →
    record.terminalKind = none

theorem State.Undecided.micro (h : s.Undecided) (hm : Micro cfg scope s s') : s'.Undecided := by
  intro r record' hr' halive
  rcases hm.requests.back r record' hr' with ⟨record, hr, hchange⟩ | ⟨-, c, i, session, sequence, ha, -⟩
  · have hbefore := h r record hr (hchange.evolves.alive halive)
    cases hchange with
    | @finish t _ _ ht =>
      have hterm := ht.state
      rw [show t.state.terminal = false from halive] at hterm
      cases hterm
    | _ => exact hbefore
  · obtain ⟨m, now, registered, priority, executionTimeout, queueTimeout, hrecord⟩ := ha.fresh
    rw [hrecord]
    rfl

theorem State.Undecided.micros (h : s.Undecided) (hm : Micros cfg scope s s') : s'.Undecided := by
  induction hm with
  | refl => exact h
  | tail _ hm ih => exact ih.micro hm

/-- A request that expired has not started. -/
def State.Punctual (s : State) : Prop :=
  ∀ (r : Nat) (record : Request), s.records[r]? = some record →
    record.terminalKind = some .queueTimedOut → record.startedAt = none

/-- What is left of a step ends no request. -/
theorem Rest.records {a : Action} (h : Rest cfg a s s') : s'.records = s.records := by
  cases h with
  | same _ _ hrecords => exact hrecords
  | reader => rfl
  | connect _ _ _ _ hrecords => exact hrecords
  | register => rfl
  | goaway => exact records_send_eq

/-- The request may expire. -/
def State.Expired (s : State) (r : Nat) : Prop := ∃ record : Request, s.records[r]? = some record ∧
  (record.terminalKind = some .queueTimedOut ∨ record.state = .acceptedQueued)

theorem Frame.expired (hf : Frame s s') {r : Nat} {record' : Request} (hr' : s'.records[r]? = some record')
    (hkind : record'.terminalKind = some .queueTimedOut) : s.Expired r := by
  obtain ⟨record, hr, hwaits⟩ := hf.requests r record' hr'
  exact ⟨record, hr, hwaits.expires hkind⟩

theorem Handling.expired {m : Message} (h : Handling cfg s c m x) {r : Nat} {record' : Request}
    (hr' : x.records[r]? = some record') (hkind : record'.terminalKind = some .queueTimedOut) :
    s.Expired r := by
  cases h with
  | quiet hsec => exact hsec.frame.expired hr' hkind
  | stale =>
    rw [records_send_eq] at hr'
    exact ⟨record', hr', .inl hkind⟩
  | passed => exact ⟨record', hr', .inl hkind⟩
  | rejected =>
    rw [records_send_eq] at hr'
    exact ⟨record', hr', .inl hkind⟩
  | @accepted i session sequence record _ _ _ hnone =>
    rw [records_send_eq] at hr'
    rcases getElem?_append_some
        (show (s.records ++ [record])[r]? = some record' from hr') with hold | ⟨-, rfl⟩
    · exact ⟨record', hold, .inl hkind⟩
    · rw [hnone] at hkind
      cases hkind
  | decided _ hsec =>
    rw [records_send_eq] at hr'
    exact hsec.frame.expired hr' hkind

/-- A request expires in the queue. -/
theorem Doing.expired {l : Label} (h : Doing cfg s l s') {r : Nat} {record' : Request}
    (hr' : s'.records[r]? = some record') (hkind : record'.terminalKind = some .queueTimedOut) :
    s.Expired r := by
  cases h with
  | @rest x y hx hrest hy =>
    obtain ⟨record₂, hr₂, hwaits₂⟩ := hy.frame.requests r record' hr'
    rw [hrest.records] at hr₂
    obtain ⟨record, hr, hwaits⟩ := hx.frame.requests r record₂ hr₂
    exact ⟨record, hr, (hwaits.trans hwaits₂).expires hkind⟩
  | handled _ _ hx _ hs' =>
    subst hs'
    exact hx.expired hr' hkind

theorem State.Punctual.step {l : Label} (h : s.Punctual) (ht : s.Telling cfg) (hu : s.Undecided)
    (hs : Broker.step cfg s l = some s') : s'.Punctual := by
  have hmicros := step_micros ht.lived.inv (Scope.allows_all s l.action) hs
  intro r record' hr' hkind
  have hterm : record'.state.terminal = true := by
    cases halive : record'.state.terminal with
    | true => rfl
    | false =>
      rw [hu.micros hmicros r record' hr' halive] at hkind
      cases hkind
  obtain ⟨record, hr, hbefore | hqueued⟩ := (step_doing ht hs).expired hr' hkind
  · have hnot : record.state ≠ .acceptedQueued := by
      intro hq
      rw [hu r record hr (by rw [hq]; rfl)] at hbefore
      cases hbefore
    rw [(hmicros.evolves.back hr hr').started hnot]
    exact h r record hr hbefore
  · exact step_unstarted ht.lived hs hr hqueued hr' hterm

theorem reachable_undecided (h : (broker cfg).Reachable s) : s.Undecided := by
  refine h.invariant (fun _ _ h => by cases h) fun s l s' hreach hu _ hstep => ?_
  exact hu.micros (step_micros (reachable_inv hreach) (Scope.allows_all s l.action) hstep)

theorem reachable_punctual (h : (broker cfg).Reachable s) : s.Punctual :=
  h.invariant (fun _ _ h => by cases h) fun _ _ _ hreach hp _ hstep =>
    hp.step (reachable_telling hreach) (reachable_undecided hreach) hstep

/-! ## Attribution -/

/-- Every report is about a request of its connection. -/
structure State.Attributed (s : State) : Prop where
  clean : s.Clean
  log : ∀ (c : Nat), ∀ entry ∈ s.logOf c, entry.message.kind.reports = true → s.Vouches c entry

theorem Frame.attributed (h : Frame s s') (hs : s.Attributed) : s'.Attributed where
  clean := h.clean hs.clean
  log c entry hentry hkind := by
    rcases h.log hs.clean c entry hentry with hold | hnew
    · exact h.vouches (hs.log c entry hold hkind)
    · exact hnew hkind

theorem State.Attributed.congr (h : s.Attributed) (hrecords : s'.records = s.records)
    (hlog : ∀ c, s'.logOf c = s.logOf c) : s'.Attributed where
  clean r record hr := h.clean r record (hrecords ▸ hr)
  log c entry hentry hkind := by
    obtain ⟨r, record, hrecord, hr, hrest⟩ := h.log c entry (hlog c ▸ hentry) hkind
    exact ⟨r, record, hrecord, hrecords ▸ hr, hrest⟩

theorem Rest.attributed {a : Action} (h : Rest cfg a s s') (hs : s.Attributed) : s'.Attributed := by
  cases h with
  | same hconnections _ hrecords => exact hs.congr hrecords (logOf_of_eq hconnections)
  | reader => exact hs.congr rfl fun _ => logOf_setReader _
  | @connect _ conn hlog _ hconnections _ hrecords =>
    exact hs.congr hrecords (logOf_connect hlog hconnections)
  | @register c' session =>
    refine hs.congr rfl fun c => ?_
    rw [logOf_setReader]
    refine logOf_setConnection ?_ c
    exact fun _ => rfl
  | goaway hm =>
    refine (frame_sendPlain ?_).attributed hs
    rw [hm]
    rfl

theorem Handling.attributed {m : Message} (h : Handling cfg s c m x) (hs : s.Attributed) :
    x.Attributed := by
  cases h with
  | quiet hsec => exact hsec.frame.attributed hs
  | stale => exact (frame_sendPlain rfl).attributed hs
  | passed => exact hs.congr rfl fun _ => rfl
  | @rejected i session requestId sequence =>
    have hpass : (s.pass i sequence).Attributed := hs.congr rfl fun _ => rfl
    exact (frame_sendPlain rfl).attributed hpass
  | @accepted i session sequence record _ _ _ _ _ hcon hcontrol =>
    have hget : ((s.pass i sequence).accept record).records[s.records.length]? = some record :=
      List.getElem?_concat_length
    have haccept : ((s.pass i sequence).accept record).Attributed := by
      refine ⟨fun r record' hr' => ?_, fun c' entry hentry hkind => ?_⟩
      · rcases getElem?_append_some
            (show (s.records ++ [record])[r]? = some record' from hr') with hold | ⟨-, rfl⟩
        · exact hs.clean r record' hold
        · rw [hcontrol]
          exact fun _ h => by cases h
      · obtain ⟨r, record', hrecord, hr, hrest⟩ := hs.log c' entry hentry hkind
        have hr' : ((s.pass i sequence).accept record).records[r]? = some record' :=
          (List.getElem?_append_left (lt_of_getElem? hr)).trans hr
        exact ⟨r, record', hrecord, hr', hrest⟩
    refine (frame_send fun _ _ => ?_).attributed haccept
    have hvouches := vouches_accepted hget
    rw [hcon] at hvouches
    exact hvouches
  | decided _ hsec => exact (frame_sendPlain rfl).attributed (hsec.frame.attributed hs)

theorem State.Attributed.step {l : Label} (h : s.Attributed) (ht : s.Telling cfg)
    (hs : Broker.step cfg s l = some s') : s'.Attributed := by
  cases step_doing ht hs with
  | rest hx hrest hy => exact hy.frame.attributed (hrest.attributed (hx.frame.attributed h))
  | @handled c now grant statistics m x next _ _ hx _ hs' =>
    subst hs'
    have hflips : State.Attributed { s with flips := l.flips } := h.congr rfl fun _ => rfl
    have hread : (x.setReader c next).Attributed :=
      (hx.attributed hflips).congr rfl fun _ => logOf_setReader _
    exact hread.congr rfl fun _ => rfl

theorem reachable_attributed (h : (broker cfg).Reachable s) : s.Attributed :=
  h.invariant ⟨(fun _ _ h => by cases h), fun _ _ h => by cases h⟩ fun _ _ _ hreach hattributed _ hstep =>
    hattributed.step (reachable_telling hreach) hstep

/-! ## Rejections -/

/-- A rejection gives one of the reasons of `_submit`. -/
def Refuses (m : Message) : Prop := m.kind = .rejected → ∃ (requestId : Str) (reason : String),
  m = rejectedMessage requestId reason ∧ (reason = "stale_request" ∨ reason ∈ refusals)

theorem refuses_of_ne {m : Message} (h : m.kind ≠ .rejected) : Refuses m := fun hkind => absurd hkind h

/-- Messages are added to the log of the connection. -/
def State.Extends (s s' : State) (c : Nat) : Prop := ∃ entries, s'.logOf c = s.logOf c ++ entries ∧
  ∀ entry ∈ entries, Refuses entry.message

theorem State.Extends.of_eq (h : s'.logOf c = s.logOf c) : s.Extends s' c :=
  ⟨[], by rw [h, List.append_nil], fun _ h => by cases h⟩

theorem State.Extends.trans {s'' : State} (h : s.Extends s' c) (h' : s'.Extends s'' c) :
    s.Extends s'' c := by
  obtain ⟨entries, hlog, hrefuses⟩ := h
  obtain ⟨entries', hlog', hrefuses'⟩ := h'
  refine ⟨entries ++ entries', by rw [hlog', hlog, List.append_assoc], fun entry hentry => ?_⟩
  exact (List.mem_append.mp hentry).elim (hrefuses entry) (hrefuses' entry)

theorem State.Mute.extends (h : s.Mute s' c) : s.Extends s' c := by
  obtain ⟨entries, hlog, hmute⟩ := h.log
  exact ⟨entries, hlog, fun entry hentry => refuses_of_ne (hmute entry hentry).1⟩

theorem extends_send {c' : Nat} {record : Option Nat} {m : Message} (h : Refuses m) :
    s.Extends (s.send cfg c' record m) c := by
  rcases @logOf_send cfg s c' record m c with hlog | ⟨-, hlog⟩
  · exact .of_eq hlog
  · refine ⟨_, hlog, fun entry hentry => ?_⟩
    rw [List.mem_singleton.mp hentry]
    exact h

theorem Handling.extends (hwf : s.WF) {m : Message} {c' : Nat} (h : Handling cfg s c' m x) :
    s.Extends x c := by
  by_cases hc : c = c'
  · cases h with
    | quiet hsec => exact (hsec.mute c).extends
    | stale => exact extends_send fun _ => ⟨_, _, rfl, .inl rfl⟩
    | @passed i _ _ sequence =>
      have hlog : (s.pass i sequence).logOf c = s.logOf c := rfl
      exact .of_eq hlog
    | @rejected i _ _ sequence reason _ _ hreason =>
      have hlog : (s.pass i sequence).logOf c = s.logOf c := rfl
      exact (State.Extends.of_eq hlog).trans (extends_send fun _ => ⟨_, _, rfl, .inr hreason⟩)
    | @accepted i _ sequence record =>
      have hlog : ((s.pass i sequence).accept record).logOf c = s.logOf c := rfl
      exact (State.Extends.of_eq hlog).trans (extends_send (refuses_of_ne (fun h => by cases h)))
    | decided _ hsec =>
      exact (hsec.mute c).extends.trans (extends_send (refuses_of_ne (fun h => by cases h)))
  · exact (h.mute hwf hc).extends

/-- A step adds to the log of a connection. -/
theorem step_extends {l : Label} (ht : s.Telling cfg) (hs : Broker.step cfg s l = some s') (c : Nat) :
    s.Extends s' c := by
  cases step_doing ht hs with
  | rest hx hrest hy => exact (((hx.mute c).trans (hrest.mute c)).trans (hy.mute c)).extends
  | @handled c' now grant statistics m x next _ _ hx _ hs' =>
    subst hs'
    have hwf : State.WF { s with flips := l.flips } :=
      ((show Locked cfg .all s _ from locked_flips l.flips).inv ht.lived.inv).wf
    have hflips : State.Extends { s with flips := l.flips } x c := hx.extends hwf
    have hread : x.Extends { x.setReader c' next with flips := [] } c := .of_eq (logOf_setReader c)
    exact State.Extends.trans hflips hread

theorem reachable_refuses (h : (broker cfg).Reachable s) (c : Nat) :
    ∀ entry ∈ s.logOf c, Refuses entry.message := by
  refine h.invariant (I := fun s => ∀ entry ∈ s.logOf c, Refuses entry.message)
    (fun _ h => by cases h) ?_
  intro s l s' hreach hrefuses _ hstep entry hentry
  obtain ⟨entries, hlog, hnew⟩ := step_extends (reachable_telling hreach) hstep c
  rw [hlog] at hentry
  exact (List.mem_append.mp hentry).elim (hrefuses entry) (hnew entry)

end Reports

/-! ## What the reports of a connection say -/

/-- **Reports are about the connection's own requests.**  Every `ACCEPTED`, `RUNNING` and terminal message
in the log of a connection is about a request of the session of that connection and names it; a terminal
message says how that request has ended. -/
theorem reports_attributed (cfg : Config) {s : State} (h : (broker cfg).Reachable s) {c : Nat}
    {entry : Entry} (hentry : entry ∈ s.logOf c) (hkind : entry.message.kind.reports = true) :
    ∃ (r : Nat) (record : Request), s.records[r]? = some record ∧ record.connection = c ∧
      s.connections[c]?.bind Connection.session = some record.session ∧
      entry.message.control.items.get (lit "request_id") = .str record.requestId ∧
      (entry.message.kind.terminal = true →
        record.state.terminal = true ∧ record.terminalKind = some entry.message.kind) := by
  obtain ⟨r, record, -, hr, hcon, hid, hterm⟩ := (reachable_attributed h).log c entry hentry hkind
  obtain ⟨conn, hc, hsession⟩ := (reachable_inv h).wf.connected hr
  refine ⟨r, record, hr, hcon, ?_, hid, hterm⟩
  rw [← hcon, hc]
  exact hsession

/-- **An expired request has not started.**  What is reported with `QUEUE_TIMED_OUT` has not become
`RUNNING` and was claimed by no worker, now and in every continuation of the run. -/
theorem expired_unstarted (cfg : Config) {s : State} (h : (broker cfg).Reachable s) {c : Nat}
    {entry : Entry} (hentry : entry ∈ s.logOf c) (hkind : entry.message.kind = .queueTimedOut) :
    ∃ (r : Nat) (record : Request), s.records[r]? = some record ∧ record.connection = c ∧
      entry.message.control.items.get (lit "request_id") = .str record.requestId ∧
      record.startedAt = none ∧ ∀ (ls : List Label) (s' : State), (broker cfg).run s ls = some s' →
        ∃ record' : Request, s'.records[r]? = some record' ∧ record'.claims = [] := by
  have hreports : entry.message.kind.reports = true := by
    rw [hkind]
    rfl
  obtain ⟨r, record, -, hr, hcon, hid, hterm⟩ := (reachable_attributed h).log c entry hentry hreports
  obtain ⟨hended, hhow⟩ := hterm (by rw [hkind]; rfl)
  have hnone : record.startedAt = none := reachable_punctual h r record hr (by rw [hhow, hkind])
  refine ⟨r, record, hr, hcon, hid, hnone, fun ls s' hrun => ?_⟩
  obtain ⟨record', hr', he⟩ := run_evolves h ls hrun r record hr
  refine ⟨record', hr', ?_⟩
  rw [(he.frozen hended).2.2.2]
  exact ((reachable_lived h).timely r record hr).claims hnone

/-- The second request waits past its deadline. -/
def expireSecond : List Label := sampleRun ++ [⟨.dispatch late, []⟩]

theorem expireSecond_log :
    (((broker (sampleConfig .cancelQueued)).run {} expireSecond).map fun s =>
      (s.logOf 0).map fun entry => entry.message.kind) =
    some [.welcome, .accepted, .accepted, .running, .queueTimedOut] := by
  decide +kernel

theorem reports_attributed_expireSecond : ∃ s entry,
    (broker (sampleConfig .cancelQueued)).run {} expireSecond = some s ∧ entry ∈ s.logOf 0 ∧
      entry.message.kind = .running ∧ ∃ (r : Nat) (record : Request), s.records[r]? = some record ∧
        record.connection = 0 ∧
        entry.message.control.items.get (lit "request_id") = .str record.requestId := by
  obtain ⟨s, hrun, hlog⟩ := Option.map_eq_some_iff.mp expireSecond_log
  obtain ⟨entry, hentry, hkind⟩ :=
    List.mem_map.mp (hlog ▸ (by decide : MessageType.running ∈ [MessageType.welcome, .accepted,
      .accepted, .running, .queueTimedOut]))
  have hreports : entry.message.kind.reports = true := by
    rw [hkind]
    rfl
  obtain ⟨r, record, hr, hcon, -, hid, -⟩ :=
    reports_attributed (sampleConfig .cancelQueued) (System.reachable_of_run hrun) hentry hreports
  exact ⟨s, entry, hrun, hentry, hkind, r, record, hr, hcon, hid⟩

theorem expired_unstarted_expireSecond : ∃ s entry,
    (broker (sampleConfig .cancelQueued)).run {} expireSecond = some s ∧ entry ∈ s.logOf 0 ∧
      entry.message.kind = .queueTimedOut ∧ ∃ (r : Nat) (record : Request),
        s.records[r]? = some record ∧ record.connection = 0 ∧ record.startedAt = none := by
  obtain ⟨s, hrun, hlog⟩ := Option.map_eq_some_iff.mp expireSecond_log
  obtain ⟨entry, hentry, hkind⟩ :=
    List.mem_map.mp (hlog ▸ (by decide : MessageType.queueTimedOut ∈ [MessageType.welcome, .accepted,
      .accepted, .running, .queueTimedOut]))
  obtain ⟨r, record, hr, hcon, -, hnone, -⟩ :=
    expired_unstarted (sampleConfig .cancelQueued) (System.reachable_of_run hrun) hentry hkind
  exact ⟨s, entry, hrun, hentry, hkind, r, record, hr, hcon, hnone⟩

end Deadpool.Remote.Broker
