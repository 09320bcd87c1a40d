import Deadpool.Remote.Broker.Chain

/-!
# The broker: the life of a request

A request becomes `RUNNING` before its deadline or not at all, what it ended with stays, and the
messages enqueued for it are reports of its life in order: `ACCEPTED`, then `RUNNING`, then its terminal
message, each possibly several times.

Principal results: `request_lifecycle`.
-/

set_option autoImplicit false

namespace Deadpool.Remote.Broker

open Deadpool.Py Deadpool.Lts

/-! ## Starts and claims -/

/-- Only a started request is claimed, and it starts before its deadline. -/
structure Request.Timely (record : Request) : Prop where
  queued : record.state = .acceptedQueued → record.startedAt = none
  running : record.state = .running → record.startedAt.isSome = true
  claims : record.startedAt = none → record.claims = []
  deadline : ∀ t d, record.startedAt = some t → record.queueDeadline = some d → Float64.lt t d = true

theorem Request.Timely.change {scope : Scope} {r : Nat} {record record' : Request}
    (h : record.Timely) (hdeadline : ∀ d, record.queueDeadline = some d → d ≠ .nan)
    (hc : Request.Change scope r record record') : record'.Timely := by
  cases hc with
  | same => exact h
  | @start now _ hqueued hexp =>
    refine ⟨(fun h => nomatch h), fun _ => rfl, (fun h => nomatch h), fun t d ht hd => ?_⟩
    cases ht
    have hd' : record.queueDeadline = some d := hd
    unfold Request.expired at hexp
    rw [hd'] at hexp
    refine Float64.lt_of_not_le ?_ (hdeadline d hd') hexp
    intro hnan
    have hfinite := now.finite
    rw [hnan] at hfinite
    cases hfinite
  | claim hrunning =>
    refine ⟨h.queued, h.running, fun hnone => ?_, h.deadline⟩
    have hstarted := h.running hrunning
    rw [show record.startedAt = none from hnone] at hstarted
    cases hstarted
  | plain => exact ⟨h.queued, h.running, h.claims, h.deadline⟩
  | @finish t _ _ ht =>
    refine ⟨fun hq => ?_, fun hq => ?_, h.claims, h.deadline⟩
    · have hterm := ht.state
      rw [show t.state = _ from hq] at hterm
      cases hterm
    · have hterm := ht.state
      rw [show t.state = _ from hq] at hterm
      cases hterm
  | retire => exact ⟨h.queued, h.running, h.claims, h.deadline⟩

theorem Request.Timely.enters {cfg : Config} {scope : Scope} {s : State} {r : Nat} {record : Request}
    (h : s.Enters cfg scope r record) : record.Timely := by
  obtain ⟨-, c, i, session, sequence, ha, -⟩ := h
  obtain ⟨m, now, registered, priority, executionTimeout, queueTimeout, hrecord⟩ := ha.fresh
  rw [hrecord]
  exact ⟨fun _ => rfl, (fun h => nomatch h), fun _ => rfl, fun _ _ h => nomatch h⟩

/-- Every request is timely. -/
def State.Timely (s : State) : Prop :=
  ∀ (r : Nat) (record : Request), s.records[r]? = some record → record.Timely

theorem State.Timely.micro {cfg : Config} {scope : Scope} {s s' : State} (h : s.Timely) (hwf : s.WF)
    (hm : Micro cfg scope s s') : s'.Timely := by
  intro r record' hr'
  rcases hm.requests.back r record' hr' with ⟨record, hr, hchange⟩ | henters
  · exact (h r record hr).change (hwf.deadline r record · hr) hchange
  · exact .enters henters

/-! ## Reports -/

/-- The messages enqueued for a request on a connection. -/
def Connection.reports (conn : Connection) (r : Nat) : List Message :=
  (conn.log.filter fun entry => entry.record = some r).map Entry.message

theorem Connection.reports_enqueue (conn : Connection) (r : Nat) (entry : Entry) :
    (conn.enqueue entry).reports r =
      conn.reports r ++ if entry.record = some r then [entry.message] else [] := by
  unfold Connection.reports Connection.enqueue
  dsimp only
  rw [List.filter_append, List.map_append]
  congr 1
  by_cases h : entry.record = some r <;> simp [h]

/-- Messages about a request in the order of its life. -/
structure Reports (requestId : Str) (accepted running ended : List Message) : Prop where
  eachAccepted : ∀ m ∈ accepted, m = acceptedMessage requestId
  eachRunning : ∀ m ∈ running, ∃ pid workerId, m = runningMessage requestId pid workerId
  eachEnded : ∀ m ∈ ended, m.kind.terminal = true ∧ ∀ m' ∈ ended, m' = m
  opening : accepted = [] → running = [] ∧ ended = []

/-- The messages of a request fit the state it is in. -/
structure Request.Reported (record : Request) (closed : Bool) (accepted running ended : List Message) :
    Prop where
  reports : Reports record.requestId accepted running ended
  spoken : closed = false → accepted ≠ []
  queued : record.state = .acceptedQueued → running = []
  alive : record.state.terminal = false → ended = []
  terminal : record.reservationReleased = false → ∀ m ∈ ended, ∀ kind,
    record.terminalKind = some kind → m = record.terminalMessage kind

structure State.Reported (s : State) : Prop where
  words : ∀ (r : Nat) (record : Request) (conn : Connection), s.records[r]? = some record →
    s.connections[record.connection]? = some conn → ∃ accepted running ended,
      conn.reports r = accepted ++ running ++ ended ∧
        record.Reported conn.closed accepted running ended
  addressed : ∀ (c : Nat) (conn : Connection) (entry : Entry) (r : Nat),
    s.connections[c]? = some conn → entry ∈ conn.log → entry.record = some r →
      ∃ record : Request, s.records[r]? = some record ∧ record.connection = c
  kinds : ∀ (r : Nat) (record : Request), s.records[r]? = some record → record.state.terminal = true →
    ∃ kind, record.terminalKind = some kind ∧ kind.terminal = true

/-- The messages of a request whose record changes. -/
theorem Request.Reported.change {scope : Scope} {r : Nat} {record record' : Request} {closed : Bool}
    {accepted running ended : List Message} (h : record.Reported closed accepted running ended)
    (hc : Request.Change scope r record record') : record'.Reported closed accepted running ended := by
  have hid := hc.evolves.requestId
  refine ⟨hid ▸ h.reports, h.spoken, fun hq => h.queued (hc.evolves.queued hq),
    fun ha => h.alive (hc.evolves.alive ha), fun hreleased m hm kind hkind => ?_⟩
  -- a request with terminal messages has ended
  have hterm : record.state.terminal = true := by
    cases ht : record.state.terminal with
    | true => rfl
    | false =>
      rw [h.alive ht] at hm
      cases hm
  have hold : record.reservationReleased = false := by
    cases hrel : record.reservationReleased with
    | false => rfl
    | true =>
      rw [hc.evolves.released hrel] at hreleased
      cases hreleased
  obtain ⟨-, hkind', hcontrol, -⟩ := hc.evolves.frozen hterm
  rw [h.terminal hold m hm kind (hkind'.symm.trans hkind)]
  unfold Request.terminalMessage
  rw [hid, hcontrol, hc.evolves.payload hterm hreleased]

theorem Request.Reported.close {record : Request} {closed closed' : Bool}
    {accepted running ended : List Message} (h : record.Reported closed accepted running ended)
    (hclosed : closed' = false → closed = false) : record.Reported closed' accepted running ended :=
  ⟨h.reports, fun hc => h.spoken (hclosed hc), h.queued, h.alive, h.terminal⟩

/-- No connection says anything. -/
structure State.Silent (s s' : State) : Prop where
  connections : ∀ (c : Nat) (conn' : Connection), s'.connections[c]? = some conn' →
    (∃ conn : Connection, s.connections[c]? = some conn ∧ conn'.log = conn.log ∧
      (conn'.closed = false → conn.closed = false)) ∨ s.connections[c]? = none ∧ conn'.log = []
  /-- the connection of a new request is closed -/
  fresh : ∀ (r : Nat) (record : Request), s'.records[r]? = some record → s.records[r]? = none →
    ∃ conn conn' : Connection, s.connections[record.connection]? = some conn ∧
      s'.connections[record.connection]? = some conn' ∧ conn'.closed = true

/-- One connection says one thing. -/
structure State.Speaks (s s' : State) (c : Nat) (conn : Connection) (entry : Entry) : Prop where
  before : s.connections[c]? = some conn
  opened : conn.closed = false
  after : s'.connections[c]? = some (conn.enqueue entry)
  others : ∀ c', c' ≠ c → s'.connections[c']? = s.connections[c']?
  spoken : s'.Says c entry
  records : ∀ (r : Nat) (record : Request), s.records[r]? = some record →
    s'.records[r]? = some record
  /-- a new request is the one that is spoken of -/
  fresh : ∀ (r : Nat) (record : Request), s'.records[r]? = some record → s.records[r]? = none →
    entry = ⟨some r, acceptedMessage record.requestId⟩ ∧ record.connection = c

section Speech

variable {cfg : Config} {scope : Scope} {s s' : State}

theorem State.Silent.of_length (hlen : s'.records.length = s.records.length)
    (h : ∀ (c : Nat) (conn' : Connection), s'.connections[c]? = some conn' →
      (∃ conn : Connection, s.connections[c]? = some conn ∧ conn'.log = conn.log ∧
        (conn'.closed = false → conn.closed = false)) ∨ s.connections[c]? = none ∧ conn'.log = []) :
    s.Silent s' := by
  refine ⟨h, fun r record hr hnone => ?_⟩
  have hlt := lt_of_getElem? hr
  rw [hlen] at hlt
  rw [List.getElem?_eq_getElem hlt] at hnone
  cases hnone

theorem State.Silent.of_eq (hlen : s'.records.length = s.records.length)
    (h : s'.connections = s.connections) : s.Silent s' := by
  refine .of_length hlen fun c conn' hc => ?_
  rw [h] at hc
  exact .inl ⟨conn', hc, rfl, id⟩

theorem silent_modify {c : Nat} {f : Connection → Connection}
    (h : s'.connections = s.connections.modify c f)
    (hf : ∀ conn : Connection, s.connections[c]? = some conn → (f conn).log = conn.log ∧
      ((f conn).closed = false → conn.closed = false)) (c' : Nat) (conn' : Connection)
    (hc : s'.connections[c']? = some conn') :
    (∃ conn : Connection, s.connections[c']? = some conn ∧ conn'.log = conn.log ∧
      (conn'.closed = false → conn.closed = false)) ∨ s.connections[c']? = none ∧ conn'.log = [] := by
  rw [h] at hc
  obtain ⟨conn, hconn, rfl⟩ := getElem?_modify_some hc
  refine .inl ⟨conn, hconn, ?_⟩
  split
  · rename_i he
    subst he
    exact hf conn hconn
  · exact ⟨rfl, id⟩

theorem Connection.Quiet.silent {conn conn' : Connection} (h : conn.Quiet conn') :
    conn'.log = conn.log ∧ (conn'.closed = false → conn.closed = false) := by
  refine ⟨h.log, fun hopen => ?_⟩
  cases hc : conn.closed with
  | false => rfl
  | true =>
    rw [h.closed hc] at hopen
    cases hopen

theorem Micro.speech (hm : Micro cfg scope s s') :
    s.Silent s' ∨ ∃ c conn entry, s.Speaks s' c conn entry := by
  cases hm with
  | flags => exact .inl (.of_eq rfl rfl)
  | sockets => exact .inl (.of_eq rfl rfl)
  | connect _ hlog =>
    refine .inl (.of_length rfl fun c conn' hc => ?_)
    rcases getElem?_append_some hc with hold | ⟨rfl, rfl⟩
    · exact .inl ⟨conn', hold, rfl, id⟩
    · exact .inr ⟨List.getElem?_eq_none (le_refl _), hlog⟩
  | connection hf => exact .inl (.of_length rfl (silent_modify rfl fun conn _ => (hf conn).silent))
  | cleanClose => exact .inl (.of_length rfl (silent_modify rfl fun _ _ => ⟨rfl, id⟩))
  | reader => exact .inl (.of_length rfl (silent_modify rfl fun _ _ => ⟨rfl, id⟩))
  | gone => exact .inl (.of_length rfl (silent_modify rfl fun _ _ => ⟨rfl, id⟩))
  | @say c conn entry hc hopen hspeech =>
    right
    refine ⟨c, conn, entry, hc, hopen, getElem?_modify_self hc, ?_, hspeech.congr rfl rfl, fun _ _ h => h, ?_⟩
    · exact fun c' hne => getElem?_modify_of_ne (Ne.symm hne)
    · intro r record hr hnone
      rw [show s.records[r]? = some record from hr] at hnone
      cases hnone
  | @accept c i conn session sequence record f hsession haccepts ha hc hf =>
    obtain ⟨m, now, registered, priority, executionTimeout, queueTimeout, hrecord⟩ := ha.fresh
    have hcon : record.connection = c := by rw [hrecord]; rfl
    have hstate : record.state = .acceptedQueued := by rw [hrecord]; rfl
    have hfresh : ∀ (r : Nat) (record' : Request), (s.records ++ [record])[r]? = some record' →
        s.records[r]? = none → r = s.records.length ∧ record' = record := by
      intro r record' hr hnone
      rcases getElem?_append_some hr with hold | hnew
      · rw [hold] at hnone
        cases hnone
      · exact hnew
    rcases hf with ⟨hquiet, hclosed⟩ | ⟨hopen, hf⟩
    · left
      constructor
      · refine silent_modify (c := c) (f := f) rfl fun conn' hc' => ?_
        rw [hc] at hc'
        cases hc'
        exact hquiet.silent
      · intro r record' hr hnone
        obtain ⟨-, rfl⟩ := hfresh r record' hr hnone
        rw [hcon]
        exact ⟨conn, f conn, hc, getElem?_modify_self hc, hclosed⟩
    · right
      refine ⟨c, conn, _, hc, hopen, (getElem?_modify_self hc).trans (congrArg some hf), ?_, ?_, ?_, ?_⟩
      · exact fun c' hne => getElem?_modify_of_ne (Ne.symm hne)
      · exact .accepted (r := s.records.length) getElem?_append_length hcon hstate
      · exact fun r record' hr => getElem?_append_of_some hr
      · intro r record' hr hnone
        obtain ⟨rfl, rfl⟩ := hfresh r record' hr hnone
        exact ⟨rfl, hcon⟩
  | watermark => exact .inl (.of_eq rfl rfl)
  | start => exact .inl (.of_eq (List.length_modify _ _ _) rfl)
  | claim => exact .inl (.of_eq (List.length_modify _ _ _) rfl)
  | emptied => exact .inl (.of_eq (List.length_modify _ _ _) rfl)
  | stage => exact .inl (.of_eq (List.length_modify _ _ _) rfl)
  | requeue =>
    refine .inl (.of_eq ?_ (connections_requeue _))
    rw [records_requeue]
    exact List.length_modify _ _ _
  | finish => exact .inl (.of_eq (List.length_modify _ _ _) rfl)
  | finishStaged => exact .inl (.of_eq (List.length_modify _ _ _) rfl)
  | retire => exact .inl (.of_eq (List.length_modify _ _ _) rfl)
  | unregister =>
    exact .inl (.of_eq (congrArg List.length (records_unregister _)) (connections_unregister _))
  | @register c conn session =>
    have hcombined : ((s.register c session).setReader c .welcoming).connections =
        s.connections.modify c fun conn =>
          { conn with session := some s.sessions.length, reader := .welcoming } :=
      List.modify_modify_eq _ _ _ _
    exact .inl (.of_length rfl (silent_modify hcombined fun _ _ => ⟨rfl, id⟩))
  | work hw => cases hw <;> exact .inl (.of_eq rfl rfl)

/-- Nobody has spoken of a request that is not there. -/
theorem State.Reported.unspoken (h : s.Reported) {c r : Nat} {conn : Connection}
    (hc : s.connections[c]? = some conn) (hnone : s.records[r]? = none) : conn.reports r = [] := by
  unfold Connection.reports
  rw [List.map_eq_nil_iff, List.filter_eq_nil_iff]
  intro entry hentry hrecord
  obtain ⟨record, hr, -⟩ := h.addressed c conn entry r hc hentry (of_decide_eq_true hrecord)
  rw [hnone] at hr
  cases hr

/-- A new request. -/
theorem Request.Reported.fresh {record : Request} {accepted : List Message}
    (hall : ∀ m ∈ accepted, m = acceptedMessage record.requestId) {closed : Bool}
    (hclosed : closed = false → accepted ≠ []) : record.Reported closed accepted [] [] := by
  refine ⟨⟨hall, ?_, ?_, fun _ => ⟨rfl, rfl⟩⟩, hclosed, fun _ => rfl, fun _ => rfl, ?_⟩
  · exact fun m hm => nomatch hm
  · exact fun m hm => nomatch hm
  · exact fun _ m hm => nomatch hm

theorem State.Reported.silent (h : s.Reported) (hwf : s.WF) (hm : Micro cfg scope s s')
    (hsilent : s.Silent s') (hkinds : ∀ (r : Nat) (record : Request), s'.records[r]? = some record →
      record.state.terminal = true → ∃ kind, record.terminalKind = some kind ∧ kind.terminal = true) :
    s'.Reported := by
  refine ⟨?_, ?_, hkinds⟩
  · intro r record' conn' hr' hc'
    cases hr : s.records[r]? with
    | some record =>
      obtain ⟨record₁, hr₁, hchange⟩ := hm.requests.forth r record hr
      rw [hr'] at hr₁
      cases hr₁
      obtain ⟨conn₀, hconn₀, -⟩ := hwf.connected hr
      rcases hsilent.connections _ conn' hc' with ⟨conn, hconn, hlog, hclosed⟩ | ⟨hnone, -⟩
      · rw [hchange.evolves.connection] at hconn
        obtain ⟨accepted, running, ended, hword, hrep⟩ := h.words r record conn hr hconn
        refine ⟨accepted, running, ended, ?_, (hrep.change hchange).close hclosed⟩
        rw [← hword]
        unfold Connection.reports
        rw [hlog]
      · rw [hchange.evolves.connection, hconn₀] at hnone
        cases hnone
    | none =>
      obtain ⟨conn, conn₁, hconn, hc₁, hclosed⟩ := hsilent.fresh r record' hr' hr
      rw [hc'] at hc₁
      cases hc₁
      have hword : conn'.reports r = [] := by
        rcases hsilent.connections _ conn' hc' with ⟨conn₂, hconn₂, hlog, -⟩ | ⟨-, hlog⟩
        · have hunspoken := h.unspoken hconn₂ hr
          unfold Connection.reports at hunspoken ⊢
          rw [hlog]
          exact hunspoken
        · unfold Connection.reports
          rw [hlog]
          rfl
      refine ⟨[], [], [], hword, .fresh ?_ fun hopen => ?_⟩
      · exact fun m hm => nomatch hm
      · rw [hclosed] at hopen
        cases hopen
  · intro c conn' entry r hc hentry hrecord
    rcases hsilent.connections c conn' hc with ⟨conn, hconn, hlog, -⟩ | ⟨-, hlog⟩
    · rw [hlog] at hentry
      obtain ⟨record, hr, hcon⟩ := h.addressed c conn entry r hconn hentry hrecord
      obtain ⟨record', hr', hchange⟩ := hm.requests.forth r record hr
      exact ⟨record', hr', hchange.evolves.connection.trans hcon⟩
    · rw [hlog] at hentry
      cases hentry

/-- One more message about a request. -/
theorem Request.Reported.speak {r : Nat} {record : Request} {m : Message}
    {accepted running ended : List Message} (hwf : s.WF) (hr : s.records[r]? = some record)
    (hkind : record.state.terminal = true → ∃ kind, record.terminalKind = some kind ∧
      kind.terminal = true)
    (h : record.Reported false accepted running ended) (hspeech : s.Says record.connection ⟨some r, m⟩) :
    ∃ accepted' running' ended', accepted ++ running ++ ended ++ [m] = accepted' ++ running' ++ ended' ∧
      record.Reported false accepted' running' ended' := by
  have hspoken := h.spoken rfl
  cases hspeech with
  | accepted hr' _ hstate =>
    rw [hr] at hr'
    cases hr'
    have hrunning := h.queued hstate
    have hended := h.alive (congrArg RequestState.terminal hstate)
    subst hrunning hended
    refine ⟨accepted ++ [acceptedMessage record.requestId], [], [], by simp, .fresh ?_ fun _ => by simp⟩
    intro m hm
    rcases List.mem_append.mp hm with hm | hm
    · exact h.reports.eachAccepted m hm
    · exact List.mem_singleton.mp hm
  | @running _ _ pid workerId hr' _ hstate =>
    rw [hr] at hr'
    cases hr'
    have halive : record.state.terminal = false := congrArg RequestState.terminal hstate
    have hended := h.alive halive
    subst hended
    refine ⟨accepted, running ++ [runningMessage record.requestId pid workerId], [], by simp,
      ⟨⟨h.reports.eachAccepted, ?_, ?_, ?_⟩, h.spoken, ?_, fun _ => rfl, ?_⟩⟩
    · intro m hm
      rcases List.mem_append.mp hm with hm | hm
      · exact h.reports.eachRunning m hm
      · exact ⟨_, _, List.mem_singleton.mp hm⟩
    · exact fun m hm => nomatch hm
    · exact fun hnil => absurd hnil hspoken
    · intro hqueued
      rw [hstate] at hqueued
      cases hqueued
    · exact fun _ m hm => nomatch hm
  | @terminal _ record' kind hr' _ hterm hl hkind' =>
    rw [hr] at hr'
    cases hr'
    obtain ⟨session, hs, hm⟩ := hl
    obtain ⟨record₁, hr₁, -, -, hreleased⟩ := hwf.entry _ _ _ _ hs hm
    rw [hr] at hr₁
    cases hr₁
    obtain ⟨kind₁, hkind₁, hterminal⟩ := hkind hterm
    rw [hkind'] at hkind₁
    cases hkind₁
    have hsame : ∀ m ∈ ended ++ [record.terminalMessage kind], m = record.terminalMessage kind := by
      intro m hm
      rcases List.mem_append.mp hm with hm | hm
      · exact h.terminal hreleased m hm kind hkind'
      · exact List.mem_singleton.mp hm
    have hnot : ∀ {p : Prop}, record.state.terminal = false → p := by
      intro p halive
      rw [hterm] at halive
      cases halive
    refine ⟨accepted, running, ended ++ [record.terminalMessage kind], by simp,
      ⟨⟨h.reports.eachAccepted, h.reports.eachRunning, ?_, fun hnil => absurd hnil hspoken⟩, h.spoken,
        h.queued, fun halive => hnot halive, ?_⟩⟩
    · intro m hm
      refine ⟨?_, fun m' hm' => ?_⟩
      · rw [hsame m hm]
        exact hterminal
      · rw [hsame m hm, hsame m' hm']
    · intro _ m hm kind₂ hkind₂
      rw [hkind'] at hkind₂
      cases hkind₂
      exact hsame m hm

theorem State.Reported.speaks {c : Nat} {conn : Connection} {entry : Entry} (h : s.Reported)
    (hwf' : s'.WF) (hspeaks : s.Speaks s' c conn entry)
    (hkinds : ∀ (r : Nat) (record : Request), s'.records[r]? = some record →
      record.state.terminal = true → ∃ kind, record.terminalKind = some kind ∧ kind.terminal = true) :
    s'.Reported := by
  -- the message is about a request of this connection
  have hsubject : ∀ (r : Nat), entry.record = some r → ∃ record : Request,
      s'.records[r]? = some record ∧ record.connection = c := by
    intro r he
    have hspeech := hspeaks.spoken
    cases hspeech with
    | plain => cases he
    | accepted hr hcon => cases he; exact ⟨_, hr, hcon⟩
    | running hr hcon => cases he; exact ⟨_, hr, hcon⟩
    | terminal hr hcon => cases he; exact ⟨_, hr, hcon⟩
  refine ⟨?_, ?_, hkinds⟩
  · intro r record conn' hr' hc'
    by_cases hcon : record.connection = c
    · rw [hcon, hspeaks.after] at hc'
      cases hc'
      rw [Connection.reports_enqueue]
      cases hr : s.records[r]? with
      | some record₀ =>
        have hr₀ := hspeaks.records r record₀ hr
        rw [hr'] at hr₀
        cases hr₀
        obtain ⟨accepted, running, ended, hword, hrep⟩ := h.words r record conn hr (hcon ▸ hspeaks.before)
        rw [hword]
        split
        · rename_i he
          rw [hspeaks.opened] at hrep
          change ∃ accepted' running' ended', _ ∧ record.Reported conn.closed accepted' running' ended'
          rw [hspeaks.opened]
          refine hrep.speak hwf' hr' (hkinds r record hr') ?_
          rw [hcon, ← he]
          exact hspeaks.spoken
        · rw [List.append_nil]
          exact ⟨accepted, running, ended, rfl, hrep⟩
      | none =>
        obtain ⟨rfl, -⟩ := hspeaks.fresh r record hr' hr
        rw [h.unspoken hspeaks.before hr, if_pos rfl]
        refine ⟨[acceptedMessage record.requestId], [], [], rfl, .fresh ?_ fun _ => by simp⟩
        exact fun m hm => List.mem_singleton.mp hm
    · rw [hspeaks.others _ hcon] at hc'
      cases hr : s.records[r]? with
      | some record₀ =>
        have hr₀ := hspeaks.records r record₀ hr
        rw [hr'] at hr₀
        cases hr₀
        exact h.words r record conn' hr hc'
      | none => exact absurd (hspeaks.fresh r record hr' hr).2 hcon
  · intro c' conn' entry' r hc' hentry hrecord
    -- an older message
    have hold : ∀ conn₀ : Connection, s.connections[c']? = some conn₀ → entry' ∈ conn₀.log →
        ∃ record : Request, s'.records[r]? = some record ∧ record.connection = c' := by
      intro conn₀ hc₀ hm
      obtain ⟨record, hr, hcon⟩ := h.addressed c' conn₀ entry' r hc₀ hm hrecord
      exact ⟨record, hspeaks.records r record hr, hcon⟩
    by_cases he : c' = c
    · subst he
      rw [hspeaks.after] at hc'
      cases hc'
      rcases List.mem_append.mp hentry with hm | hm
      · exact hold conn hspeaks.before hm
      · rw [List.mem_singleton.mp hm] at hrecord
        exact hsubject r hrecord
    · rw [hspeaks.others c' he] at hc'
      exact hold conn' hc' hentry

theorem State.Reported.micro (h : s.Reported) (hwf : s.WF) (hm : Micro cfg scope s s') :
    s'.Reported := by
  have hkinds : ∀ (r : Nat) (record : Request), s'.records[r]? = some record →
      record.state.terminal = true → ∃ kind, record.terminalKind = some kind ∧ kind.terminal = true := by
    intro r record' hr' hterm
    rcases hm.requests.back r record' hr' with ⟨record, hr, hchange⟩ | henters
    · cases hchange with
      | same => exact h.kinds r _ hr hterm
      | start => cases hterm
      | claim => exact h.kinds r record hr hterm
      | plain => exact h.kinds r record hr hterm
      | @finish t _ _ ht => exact ⟨t.kind, rfl, ht.kind⟩
      | retire => exact h.kinds r record hr hterm
    · obtain ⟨-, c, i, session, sequence, ha, -⟩ := henters
      obtain ⟨m, now, registered, priority, executionTimeout, queueTimeout, hrecord⟩ := ha.fresh
      rw [hrecord] at hterm
      cases hterm
  rcases hm.speech with hsilent | ⟨c, conn, entry, hspeaks⟩
  · exact h.silent hwf hm hsilent hkinds
  · exact h.speaks (hwf.micro hm) hspeaks hkinds

end Speech

/-! ## Runs -/

/-- What reachable states keep about the lives of requests. -/
structure State.Lived (cfg : Config) (s : State) : Prop where
  inv : s.Inv cfg
  timely : s.Timely
  reported : s.Reported

theorem State.Lived.init (cfg : Config) : State.Lived cfg {} where
  inv := .init cfg
  timely := fun _ _ h => nomatch h
  reported :=
    ⟨(fun _ _ _ h => nomatch h), (fun _ _ _ _ h => nomatch h), fun _ _ h => nomatch h⟩

theorem State.Lived.micros {cfg : Config} {scope : Scope} {s s' : State} (h : s.Lived cfg)
    (hm : Micros cfg scope s s') : s'.Lived cfg := by
  induction hm with
  | refl => exact h
  | tail _ hstep ih =>
    exact ⟨⟨ih.inv.wf.micro hstep, ih.inv.placed.micro ih.inv.wf hstep⟩,
      ih.timely.micro ih.inv.wf hstep, ih.reported.micro ih.inv.wf hstep⟩

theorem reachable_lived {cfg : Config} {s : State} (h : (broker cfg).Reachable s) : s.Lived cfg := by
  refine h.invariant (I := State.Lived cfg) (.init cfg) fun s l s' _ hlived _ hstep => ?_
  exact hlived.micros (step_micros hlived.inv (Scope.allows_all s l.action) hstep)

theorem run_evolves {cfg : Config} {s : State} (h : (broker cfg).Reachable s) :
    ∀ (ls : List Label) {s' : State}, (broker cfg).run s ls = some s' → s.Evolves s' := by
  intro ls
  induction ls generalizing s with
  | nil =>
    intro s' hrun
    cases hrun
    exact .refl s
  | cons l ls ih =>
    intro s' hrun
    obtain ⟨x, hx, hrun⟩ := Option.bind_eq_some_iff.mp hrun
    have hstep := (step_micros (reachable_inv h) (Scope.allows_all s l.action) hx).evolves
    exact hstep.trans (ih (.step h trivial hx) hrun)

/-- A step that does not let a request become `RUNNING` leaves its start alone. -/
theorem Micros.startedAt {cfg : Config} {scope : Scope} {s s' : State} {r : Nat}
    (hr : ¬ scope.starts r) (hm : Micros cfg scope s s') {record record' : Request}
    (h : s.records[r]? = some record) (h' : s'.records[r]? = some record') :
    record'.startedAt = record.startedAt := by
  induction hm generalizing record' with
  | refl =>
    rw [h] at h'
    cases h'
    rfl
  | @tail x y hx hstep ih =>
    obtain ⟨record₁, hr₁, -⟩ := (Micros.evolves hx) r record h
    obtain ⟨record₂, hr₂, hchange⟩ := hstep.requests.forth r record₁ hr₁
    rw [h'] at hr₂
    cases hr₂
    refine Eq.trans ?_ (ih hr₁)
    cases hchange with
    | start hstarts => exact absurd hstarts hr
    | _ => rfl

theorem records_publish {cfg : Config} {s : State} {r : Nat} (pid : Nat) {record : Request}
    (hr : s.records[r]? = some record) : (s.publish cfg r pid).records =
      s.records.modify r fun record => { record with claims := record.claims ++ [pid] } := by
  unfold State.publish
  rw [hr]
  dsimp only
  cases record.localFuture with
  | none =>
    obtain ⟨connections, flips, heq⟩ := send_eq cfg
      (s.setRecord r fun record => { record with claims := record.claims ++ [pid] }) record.connection
      (some r) (runningMessage record.requestId (some pid) (.str (lit "worker:" ++ natText pid)))
    rw [heq]
    rfl
  | some f =>
    obtain ⟨connections, flips, heq⟩ := send_eq cfg
      ((s.setRecord r fun record => { record with claims := record.claims ++ [pid] }).setFuture f
        fun fut => { fut with pid := some pid }) record.connection
      (some r) (runningMessage record.requestId (some pid) (.str (lit "worker:" ++ natText pid)))
    rw [heq]
    rfl

/-- `_claim_dispatch` leaves a request that it starts in `RUNNING`. -/
theorem claimDispatch_running {cfg : Config} {s : State} {r : Nat} (pid : Nat) {now : Clock}
    {record : Request} (hr : s.records[r]? = some record) (hstate : record.state = .acceptedQueued)
    (hexp : record.expired now = false) : ∃ record' : Request,
      (s.claimDispatch cfg r pid now).records[r]? = some record' ∧ record'.state = .running := by
  have hr' : (s.setRecord r (Request.start now)).records[r]? = some (Request.start now record) :=
    getElem?_modify_self hr
  unfold State.claimDispatch
  rw [hr]
  dsimp only
  rw [hstate]
  dsimp only
  rw [if_neg (by rw [hexp]; exact Bool.false_ne_true), records_publish pid hr']
  exact ⟨_, getElem?_modify_self hr', rfl⟩

/-- A request that a step takes from `ACCEPTED_QUEUED` to a terminal state has not started. -/
theorem step_unstarted {cfg : Config} {s s' : State} {l : Label} (hlived : s.Lived cfg)
    (hstep : step cfg s l = some s') {r : Nat} {record record' : Request}
    (hr : s.records[r]? = some record) (hqueued : record.state = .acceptedQueued)
    (hr' : s'.records[r]? = some record') (hterm : record'.state.terminal = true) :
    record'.startedAt = none := by
  by_cases hclaim : ∃ f fut pid now, l.action = .claim f pid now ∧ s.futures[f]? = some fut ∧
      fut.record = r ∧ record.expired now = false
  · -- the step of a worker that starts it
    obtain ⟨f, fut, pid, now, hl, hfut, hrecord, hexp⟩ := hclaim
    obtain ⟨x, hx, rfl⟩ := Option.map_eq_some_iff.mp hstep
    rw [hl] at hx
    simp only [connectionStep, dispatcherStep, poolStep, Option.none_or] at hx
    rw [hfut] at hx
    dsimp only at hx
    split at hx
    · cases hx
      obtain ⟨record₁, hr₁, hrunning⟩ := claimDispatch_running (s := { s with flips := l.flips }) pid
        (hrecord ▸ hr) hqueued hexp
      rw [hrecord] at hr₁
      have hsame : some record' = some record₁ := by
        rw [← hr₁, ← hr', hrecord]
      cases hsame
      rw [hrunning] at hterm
      cases hterm
    · cases hx
  · -- any other step
    have hallows : Scope.Allows { Scope.all with starts := (· ≠ r) } s l.action := by
      have hall := Scope.allows_all s l.action
      cases ha : l.action with
      | claim f pid now =>
        rw [ha] at hall
        refine ⟨fun _ => trivial, fun fut record₁ hfut hr₁ => ⟨fun _ => trivial, fun _ hexp => ?_⟩⟩
        intro he
        refine hclaim ⟨f, fut, pid, now, ha, hfut, he, ?_⟩
        rw [he, hr] at hr₁
        cases hr₁
        exact hexp
      | handle => rw [ha] at hall; exact ⟨⟨hall.1.session, hall.1.ends⟩, hall.2⟩
      | disconnect => rw [ha] at hall; exact ⟨⟨hall.1.session, hall.1.ends⟩, hall.2⟩
      | _ => rw [ha] at hall; exact hall
    have hmicros := step_micros hlived.inv hallows hstep
    have hnot : ¬ Scope.starts { Scope.all with starts := (· ≠ r) } r := fun h => h rfl
    rw [hmicros.startedAt hnot hr hr']
    exact (hlived.timely r record hr).queued hqueued

/-- **The life of a request.**  In every run of the broker and for every request: it becomes `RUNNING` at
a reading of the clock before its queue deadline, and it is claimed only once it is `RUNNING`; the
messages enqueued for it are on its connection, and they are some `ACCEPTED`, then some `RUNNING`, then
copies of one terminal message; its state only moves forward, and what it ended with stays; a request
that a step takes from the queue to a terminal state is never claimed. -/
theorem request_lifecycle (cfg : Config) {s : State} (h : (broker cfg).Reachable s) {r : Nat}
    {record : Request} (hr : s.records[r]? = some record) :
    (record.state = .running → record.startedAt.isSome = true) ∧
    (∀ t d, record.startedAt = some t → record.queueDeadline = some d → Float64.lt t d = true) ∧
    (record.startedAt = none → record.claims = []) ∧
    (∀ (c : Nat) (conn : Connection), s.connections[c]? = some conn →
      (c ≠ record.connection → conn.reports r = []) ∧
      (c = record.connection → ∃ accepted running ended,
        conn.reports r = accepted ++ running ++ ended ∧
          Reports record.requestId accepted running ended)) ∧
    (∀ (ls : List Label) (s' : State), (broker cfg).run s ls = some s' → ∃ record' : Request,
      s'.records[r]? = some record' ∧ record.state.Moves record'.state ∧
        (record.state.terminal = true → record'.state = record.state ∧
          record'.terminalKind = record.terminalKind ∧
          record'.terminalControl = record.terminalControl)) ∧
    (∀ (l : Label) (s' : State) (record' : Request), (broker cfg).step s l = some s' →
      record.state = .acceptedQueued → s'.records[r]? = some record' →
      record'.state.terminal = true → ∀ (ls : List Label) (s'' : State) (record'' : Request),
        (broker cfg).run s' ls = some s'' → s''.records[r]? = some record'' → record''.claims = []) := by
  have hlived := reachable_lived h
  have htimely := hlived.timely r record hr
  refine ⟨htimely.running, htimely.deadline, htimely.claims, fun c conn hc => ⟨fun hne => ?_, fun he => ?_⟩,
    fun ls s' hrun => ?_, fun l s' record' hstep hqueued hr' hterm ls s'' record'' hrun hr'' => ?_⟩
  · unfold Connection.reports
    rw [List.map_eq_nil_iff, List.filter_eq_nil_iff]
    intro entry hentry hrecord
    obtain ⟨record₁, hr₁, hcon⟩ :=
      hlived.reported.addressed c conn entry r hc hentry (of_decide_eq_true hrecord)
    rw [hr] at hr₁
    cases hr₁
    exact hne hcon.symm
  · obtain ⟨accepted, running, ended, hword, hrep⟩ :=
      hlived.reported.words r record conn hr (he ▸ hc)
    exact ⟨accepted, running, ended, hword, hrep.reports⟩
  · obtain ⟨record', hr', he⟩ := run_evolves h ls hrun r record hr
    refine ⟨record', hr', he.moves, fun hterm => ?_⟩
    obtain ⟨hstate, hkind, hcontrol, -⟩ := he.frozen hterm
    exact ⟨hstate, hkind, hcontrol⟩
  · have hreach' : (broker cfg).Reachable s' := .step h trivial hstep
    have hnone := step_unstarted hlived hstep hr hqueued hr' hterm
    have he := (run_evolves hreach' ls hrun).back hr' hr''
    rw [(he.frozen hterm).2.2.2]
    exact ((reachable_lived hreach').timely r record' hr').claims hnone

/-- The kinds of the messages enqueued for a request on a connection. -/
def State.reportKinds (s : State) (c r : Nat) : List String :=
  match s.connections[c]? with
  | none => []
  | some conn => (conn.reports r).map fun m => m.kind.name

/-- The first request of the small run is submitted again, finishes, and is submitted once more. -/
def reportedRun : List Label :=
  sampleRun ++ deliver 0 (sampleMessage .submit (lit "a:1") encodable_a1) ++
    [⟨.finish 0 (.worker .result [7] .empty), []⟩, ⟨.notify 0, []⟩] ++
    deliver 0 (sampleMessage .submit (lit "a:1") encodable_a1)

theorem request_lifecycle_reportedRun : ∃ s record,
    (broker (sampleConfig .cancelQueued)).run {} reportedRun = some s ∧
      s.records[0]? = some record ∧ record.state = .succeeded ∧
      s.reportKinds 0 0 = ["ACCEPTED", "RUNNING", "RUNNING", "RESULT", "RESULT"] ∧
      (∀ t d, record.startedAt = some t → record.queueDeadline = some d → Float64.lt t d = true) := by
  have hrun : (((broker (sampleConfig .cancelQueued)).run {} reportedRun).bind fun s =>
      s.records[0]?.map fun record => (record.state, s.reportKinds 0 0)) =
        some (.succeeded, ["ACCEPTED", "RUNNING", "RUNNING", "RESULT", "RESULT"]) := by
    decide +kernel
  obtain ⟨s, hrun, hrecord⟩ := Option.bind_eq_some_iff.mp hrun
  obtain ⟨record, hr, hfacts⟩ := Option.map_eq_some_iff.mp hrecord
  obtain ⟨hstate, hkinds⟩ := Prod.mk.inj hfacts
  exact ⟨s, record, hrun, hr, hstate, hkinds,
    (request_lifecycle _ (System.reachable_of_run hrun) hr).2.1⟩

end Deadpool.Remote.Broker
