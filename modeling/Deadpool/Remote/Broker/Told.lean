import Deadpool.Remote.Broker.Speech

/-!
# The broker: the order of its messages

What the earlier messages of a connection say when a rejection, the decision about a cancellation or
`GOAWAY` is enqueued.  A submission is rejected only if its number was never let through before, or if
its request has ended and has been reported; `CANCELLED` is enqueued before the response that says so.

Principal result: `step_turn` — what one step adds to the queues.
-/

set_option autoImplicit false

namespace Deadpool.Remote.Broker

open Deadpool.Py Deadpool.Lts

/-! ## What a message is enqueued after -/

/-- What stays known of a message, and of those enqueued before it on the connection. -/
structure State.Lasts (s : State) (c : Nat) (before : List Entry) (entry : Entry) : Prop where
  rejected : entry.message.kind = .rejected → ∃ (k : Str) (i : Nat) (session : Session),
    entry.message.control.items.get (lit "request_id") = .str k ∧ s.sessions[i]? = some session ∧
      session.connection = c ∧ session.Passed k ∧
      ∀ (r : Nat) (record : Request), s.records[r]? = some record → record.connection = c →
        record.requestId = k → record.state.terminal = true ∧ Heard before r record
  decided : entry.message.kind = .cancelResponse →
    entry.message.control.items.get (lit "response") = .str (lit Decision.cancelled.name) →
    ∃ (r : Nat) (record : Request), s.records[r]? = some record ∧ record.connection = c ∧
      entry.message.control.items.get (lit "request_id") = .str record.requestId ∧
      record.state.terminal = true ∧ record.terminalKind = some .cancelled ∧ Heard before r record

/-- What is known of a message when it is enqueued. -/
structure State.Fit (s : State) (c : Nat) (before : List Entry) (entry : Entry) : Prop
    extends s.Lasts c before entry where
  goaway : entry.message.kind = .goaway → s.status = .stopping ∧
    ∀ (r : Nat) (record : Request), s.records[r]? = some record → record.connection = c →
      record.state.terminal = true → Heard before r record

theorem State.Fit.congr {s s' : State} {c : Nat} {before : List Entry} {entry : Entry}
    (h : s.Fit c before entry) (hrecords : s'.records = s.records)
    (hsessions : s'.sessions = s.sessions) (hstatus : s'.status = s.status) :
    s'.Fit c before entry := by
  refine ⟨⟨?_, ?_⟩, ?_⟩
  · rw [hrecords, hsessions]
    exact h.rejected
  · rw [hrecords]
    exact h.decided
  · rw [hrecords, hstatus]
    exact h.goaway

/-- A connection says something more: plain messages, and others of which something is known. -/
structure Connection.Says (P : List Entry → Entry → Prop) (conn conn' : Connection) : Prop where
  closed : conn.closed = true → conn'.closed = true
  log : ∃ entries, conn'.log = conn.log ++ entries ∧ ∀ before entry after,
    entries = before ++ entry :: after →
      entry.message.kind.plain = true ∨ conn'.closed = false ∧ P (conn.log ++ before) entry
  answering : ∀ m, conn'.reader = .answering m → conn.reader = .answering m ∨ m.kind.plain = true

theorem Connection.Plain.speaks {conn conn' : Connection} {P : List Entry → Entry → Prop}
    (h : conn.Plain conn') : conn.Says P conn' := by
  obtain ⟨entries, hlog, hplain⟩ := h.log
  refine ⟨h.closed, ⟨entries, hlog, fun before entry after he => .inl (hplain entry ?_)⟩,
    fun m hm => .inl (h.answering m hm)⟩
  rw [he]
  exact List.mem_append_right _ List.mem_cons_self

theorem Connection.Plain.trans_speaks {a b c : Connection} {P : List Entry → Entry → Prop}
    (h : a.Plain b) (h' : b.Says P c) : a.Says P c := by
  obtain ⟨es, hlog, hplain⟩ := h.log
  obtain ⟨es', hlog', hspeaks⟩ := h'.log
  refine ⟨fun ha => h'.closed (h.closed ha), ⟨es ++ es', ?_, fun before entry after he => ?_⟩, ?_⟩
  · rw [hlog', hlog, List.append_assoc]
  · rcases List.append_eq_append_iff.mp he with ⟨mid, rfl, hes'⟩ | ⟨mid, hes, hrest⟩
    · rw [← List.append_assoc, ← hlog]
      exact hspeaks mid entry after hes'
    · cases mid with
      | nil =>
        rw [List.append_nil] at hes
        rw [← hes, ← hlog]
        simpa using hspeaks [] entry after hrest.symm
      | cons e mid =>
        injection hrest with he _
        refine .inl (hplain entry ?_)
        rw [hes, he]
        exact List.mem_append_right _ List.mem_cons_self
  · intro m hm
    rcases h'.answering m hm with hb | hplain
    · exact .inl (h.answering m hb)
    · exact .inr hplain

/-- What one step does. -/
structure Turn (s s' : State) : Prop where
  spoken : s'.Spoken
  connections : ∀ (c : Nat) (conn' : Connection), s'.connections[c]? = some conn' →
    (∃ conn : Connection, s.connections[c]? = some conn ∧ conn.Says (s'.Fit c) conn') ∨
      s.connections[c]? = none ∧ conn'.log = [] ∧
        ∀ m, conn'.reader = .answering m → m.kind.plain = true

namespace Turn

variable {cfg : Config} {s x s' s'' : State} {c : Nat}

/-- A plain section, whatever it does to the rest. -/
theorem of_plain (h : Plain s x) (hs : s.Spoken) (hrecords : s'.records = x.records)
    (hconnections : s'.connections = x.connections) : Turn s s' := by
  constructor
  · intro r record conn hr hterm hc hopen
    rw [hrecords] at hr
    rw [hconnections] at hc
    exact h.spoken hs r record conn hr hterm hc hopen
  · intro c conn' hc
    rw [hconnections] at hc
    obtain ⟨conn, hconn, hplain⟩ := h.connections c conn' hc
    exact .inl ⟨conn, hconn, hplain.speaks⟩

theorem congr (h : Turn s s') (hrecords : s''.records = s'.records)
    (hconnections : s''.connections = s'.connections) (hsessions : s''.sessions = s'.sessions)
    (hstatus : s''.status = s'.status) : Turn s s'' := by
  constructor
  · intro r record conn hr hterm hc hopen
    rw [hrecords] at hr
    rw [hconnections] at hc
    exact h.spoken r record conn hr hterm hc hopen
  · intro c conn' hc
    rw [hconnections] at hc
    rcases h.connections c conn' hc with ⟨conn, hconn, hspeaks⟩ | hnew
    · refine .inl ⟨conn, hconn, hspeaks.closed, ?_, hspeaks.answering⟩
      obtain ⟨entries, hlog, hfit⟩ := hspeaks.log
      refine ⟨entries, hlog, fun before entry after he => ?_⟩
      rcases hfit before entry after he with hplain | ⟨hopen, hfit⟩
      · exact .inl hplain
      · exact .inr ⟨hopen, hfit.congr hrecords hsessions hstatus⟩
    · exact .inr hnew

/-- The reader goes on. -/
theorem setReader (h : Turn s s') {next : Reader}
    (hnext : ∀ m, next = .answering m → m.kind.plain = true) : Turn s (s'.setReader c next) := by
  -- a connection before its reader is set
  have hback : ∀ (c' : Nat) (conn'' : Connection), (s'.setReader c next).connections[c']? = some conn'' →
      ∃ conn' : Connection, s'.connections[c']? = some conn' ∧ conn''.closed = conn'.closed ∧
        conn''.log = conn'.log ∧ (conn''.reader = conn'.reader ∨ conn''.reader = next) := by
    intro c' conn'' hc
    obtain ⟨conn', hc', rfl⟩ := getElem?_modify_some hc
    refine ⟨conn', hc', ?_⟩
    split
    · exact ⟨rfl, rfl, .inr rfl⟩
    · exact ⟨rfl, rfl, .inl rfl⟩
  have hanswers : ∀ (reader : Reader) (m : Message), reader = next → reader = .answering m →
      m.kind.plain = true := fun reader m he hm => hnext m (he ▸ hm)
  constructor
  · intro r record conn'' hr hterm hc hopen
    obtain ⟨conn', hc', hclosed, hlog, -⟩ := hback _ conn'' hc
    rw [hlog]
    exact h.spoken r record conn' hr hterm hc' (hclosed ▸ hopen)
  · intro c' conn'' hc
    obtain ⟨conn', hc', hclosed, hlog, hreader⟩ := hback c' conn'' hc
    rcases h.connections c' conn' hc' with ⟨conn, hconn, hspeaks⟩ | ⟨hnone, hempty, hquiet⟩
    · refine .inl ⟨conn, hconn, fun hcl => hclosed ▸ hspeaks.closed hcl, ?_, fun m hm => ?_⟩
      · rw [hlog, hclosed]
        obtain ⟨entries, hentries, hfit⟩ := hspeaks.log
        refine ⟨entries, hentries, fun before entry after he => ?_⟩
        rcases hfit before entry after he with hplain | ⟨hopen, hfit⟩
        · exact .inl hplain
        · exact .inr ⟨hopen, hfit.congr rfl rfl rfl⟩
      · rcases hreader with hsame | hset
        · exact hspeaks.answering m (hsame ▸ hm)
        · exact .inr (hanswers _ m hset hm)
    · refine .inr ⟨hnone, hlog.trans hempty, fun m hm => ?_⟩
      rcases hreader with hsame | hset
      · exact hquiet m (hsame ▸ hm)
      · exact hanswers _ m hset hm

/-- A plain section, and then a message of which something is known. -/
theorem of_send (h : Plain s x) (hs : s.Spoken) {m : Message}
    (hfit : ∀ conn : Connection, (x.poll cfg c).connections[c]? = some conn → conn.closed = false →
      x.Fit c conn.log ⟨none, m⟩) : Turn s (x.send cfg c none m) := by
  obtain ⟨connections, flips, heq⟩ := send_eq cfg x c none m
  have hrecords : (x.send cfg c none m).records = x.records := by rw [heq]
  have hsessions : (x.send cfg c none m).sessions = x.sessions := by rw [heq]
  have hstatus : (x.send cfg c none m).status = x.status := by rw [heq]
  have hpoll : Plain s (x.poll cfg c) := h.trans plain_poll
  -- the queue of the connection, and the message if it found room
  have hput : ∀ conn : Connection, (x.poll cfg c).connections[c]? = some conn →
      ∃ entries, (conn.put cfg (.message m) [⟨none, m⟩]).log = conn.log ++ entries ∧
        (conn.closed = true → (conn.put cfg (.message m) [⟨none, m⟩]).closed = true) ∧
        (conn.put cfg (.message m) [⟨none, m⟩]).reader = conn.reader ∧
        (entries = [] ∨ entries = [⟨none, m⟩] ∧
          (conn.put cfg (.message m) [⟨none, m⟩]).closed = false ∧ x.Fit c conn.log ⟨none, m⟩) := by
    intro conn hc
    unfold Connection.put
    split
    · exact ⟨[], (List.append_nil _).symm, id, rfl, .inl rfl⟩
    · rename_i hclosed
      rw [Bool.not_eq_true] at hclosed
      split
      · exact ⟨[⟨none, m⟩], rfl, id, rfl, .inr ⟨rfl, hclosed, hfit conn hc hclosed⟩⟩
      · have hquiet : conn.Quiet (conn.close cfg) := .close conn
        exact ⟨[], by rw [hquiet.log, List.append_nil], hquiet.closed, hquiet.reader, .inl rfl⟩
  have hback : ∀ (c' : Nat) (conn' : Connection), (x.send cfg c none m).connections[c']? = some conn' →
      ∃ conn : Connection, (x.poll cfg c).connections[c']? = some conn ∧
        conn.Says ((x.send cfg c none m).Fit c') conn' := by
    intro c' conn' hc'
    obtain ⟨conn, hc, rfl⟩ := getElem?_modify_some hc'
    refine ⟨conn, hc, ?_⟩
    split
    · rename_i he
      subst he
      obtain ⟨entries, hlog, hclosed, hreader, hcases⟩ := hput conn hc
      refine ⟨hclosed, ⟨entries, hlog, fun before entry after hsplit => ?_⟩,
        fun m hm => .inl (hreader ▸ hm)⟩
      rcases hcases with rfl | ⟨rfl, hopen, hfit⟩
      · simp at hsplit
      · cases before with
        | nil =>
          cases hsplit
          exact .inr ⟨hopen, by simpa using hfit.congr hrecords hsessions hstatus⟩
        | cons _ before => simp at hsplit
    · exact (Connection.Plain.refl conn).speaks
  constructor
  · intro r record conn' hr hterm hc' hopen'
    rw [hrecords] at hr
    obtain ⟨conn, hc, hspeaks⟩ := hback _ conn' hc'
    obtain ⟨entries, hlog, -⟩ := hspeaks.log
    have hrecord : (x.poll cfg c).records[r]? = some record := by
      obtain ⟨_, _, hpolled⟩ := poll_eq cfg x c
      rw [hpolled]
      exact hr
    have hopen : conn.closed = false := by
      cases hclosed : conn.closed with
      | false => rfl
      | true =>
        rw [hspeaks.closed hclosed] at hopen'
        cases hopen'
    obtain ⟨entry, hentry, hfacts⟩ := hpoll.spoken hs r record conn hrecord hterm hc hopen
    exact ⟨entry, by rw [hlog]; exact List.mem_append_left _ hentry, hfacts⟩
  · intro c' conn'' hc''
    obtain ⟨conn', hc', hspeaks⟩ := hback c' conn'' hc''
    obtain ⟨conn, hc, hplain⟩ := hpoll.connections c' conn' hc'
    exact .inl ⟨conn, hc, hplain.trans_speaks hspeaks⟩

end Turn

/-! ## The handlers -/

/-- What a handler says, and what is left to answer. -/
structure HandlerTurn (s : State) (h : Handled) : Prop where
  turn : Turn s h.1
  answering : ∀ m, h.2 = .answering m → m.kind.plain = true

section Handlers

variable {cfg : Config} {s : State} {c : Nat} {m : Message} {now : Clock}
  {grant : Str → Except Str Bool}

theorem HandlerTurn.after {h : Handled} (hh : HandlerTurn s h) : Turn s (State.after c h) :=
  hh.turn.setReader hh.answering

theorem HandlerTurn.of_plain {x : State} {next : Reader} (h : Plain s x) (hs : s.Spoken)
    (hnext : ∀ m, next = .answering m → m.kind.plain = true) : HandlerTurn s (x, next) :=
  ⟨.of_plain h hs rfl rfl, hnext⟩

theorem get_rejected (requestId : Str) (reason : String) :
    (rejectedMessage requestId reason).control.items.get (lit "request_id") = .str requestId := by
  simp only [rejectedMessage, requestControl]
  rw [Dict.get_set_ne (by decide), Dict.get_set_self]
  rfl

/-- `_submit` of an ID whose number was let through before. -/
theorem turn_stale (hinv : s.Inv cfg) (hspoken : s.Spoken) {i : Nat} {session : Session}
    {requestId : Str} {sequence : Int} (hi : s.connections[c]?.bind Connection.session = some i)
    (hs : s.sessions[i]? = some session)
    (hseq : requestSequence session.clientId requestId = .ok sequence)
    (hstale : session.requests.get? requestId = none) (hle : sequence ≤ session.watermark) :
    Turn s (s.send cfg c none (rejectedMessage requestId "stale_request")) := by
  obtain ⟨conn₀, hc₀, hi₀⟩ := Option.bind_eq_some_iff.mp hi
  obtain ⟨session', hs', hconn⟩ := hinv.wf.link c conn₀ i hc₀ hi₀
  rw [hs] at hs'
  cases hs'
  refine .of_send (.refl s) hspoken fun conn hc hopen => ⟨⟨fun _ => ?_, fun h => nomatch h⟩,
    fun h => nomatch h⟩
  refine ⟨requestId, i, session, get_rejected _ _, hs, hconn, ⟨sequence, hseq, hle⟩, ?_⟩
  intro r record hr hconnection hid
  -- a request that is not in the table of the session has ended
  have hsession : record.session = i := by
    obtain ⟨conn, hc, hci⟩ := hinv.wf.connected hr
    rw [hconnection, hc₀] at hc
    cases hc
    rw [hi₀] at hci
    exact (Option.some.inj hci).symm
  have hterm : record.state.terminal = true := by
    by_contra halive
    rw [Bool.not_eq_true] at halive
    obtain ⟨session', hs', hm⟩ := hinv.wf.listed r record hr (hinv.wf.reserved r record hr halive)
    rw [hsession, hs] at hs'
    cases hs'
    rw [Table.get?_of_mem (hinv.wf.keys i session hs) (hid ▸ hm)] at hstale
    cases hstale
  have hpoll : Plain s (s.poll cfg c) := plain_poll
  refine ⟨hterm, hpoll.spoken hspoken r record conn ?_ hterm (hconnection ▸ hc) hopen⟩
  obtain ⟨_, _, heq⟩ := poll_eq cfg s c
  rw [heq]
  exact hr

/-- `_submit` of an ID with a number above the watermark. -/
theorem turn_fresh (hinv : s.Inv cfg) (hnumbered : s.Numbered) (hspoken : s.Spoken) {i : Nat}
    {session : Session} {requestId : Str} {sequence : Int}
    (hi : s.connections[c]?.bind Connection.session = some i) (hs : s.sessions[i]? = some session)
    (hseq : requestSequence session.clientId requestId = .ok sequence)
    (hnew : session.watermark < sequence) :
    HandlerTurn s ((s.setSession i fun session => { session with watermark := sequence }).submitFresh
      cfg c i session requestId m now grant) := by
  obtain ⟨conn₀, hc₀, hi₀⟩ := Option.bind_eq_some_iff.mp hi
  obtain ⟨session', hs', hconn⟩ := hinv.wf.link c conn₀ i hc₀ hi₀
  rw [hs] at hs'
  cases hs'
  obtain ⟨x, hx⟩ : ∃ x, x = s.setSession i fun session => { session with watermark := sequence } :=
    ⟨_, rfl⟩
  have hplain : Plain s x := by
    rw [hx]
    exact .of_eq rfl rfl rfl
  have hxs : x.sessions[i]? = some { session with watermark := sequence } := by
    rw [hx]
    exact getElem?_modify_self hs
  rw [← hx]
  unfold State.submitFresh
  split
  · rename_i reason _
    refine ⟨.of_send hplain hspoken fun conn hc hopen => ⟨⟨fun _ => ?_, fun h => nomatch h⟩,
      fun h => nomatch h⟩, fun _ h => (by cases h)⟩
    refine ⟨requestId, i, _, get_rejected _ _, hxs, hconn, ⟨sequence, hseq, le_refl _⟩, ?_⟩
    intro r record hr hconnection hid
    rw [hx] at hr
    -- no request of the session has this number
    have hsession : record.session = i := by
      obtain ⟨conn, hc, hci⟩ := hinv.wf.connected hr
      rw [hconnection, hc₀] at hc
      cases hc
      rw [hi₀] at hci
      exact (Option.some.inj hci).symm
    obtain ⟨sequence', hseq', hle⟩ := hnumbered.passed r record session hr (by rw [hsession]; exact hs)
    rw [hid, hseq] at hseq'
    cases hseq'
    exact absurd hnew (not_lt.mpr hle)
  · exact .of_plain hplain hspoken fun _ h => (by cases h)
  · rename_i record hadm
    obtain ⟨-, -, registered, hauth⟩ := admission_accept hadm
    obtain ⟨priority, executionTimeout, queueTimeout, rfl, -⟩ := authorize_accept hauth
    refine .of_plain ?_ hspoken fun _ h => (by cases h)
    exact (hplain.trans (plain_accept rfl)).trans (plain_send rfl)

/-- `_submit` -/
theorem turn_submit (hlived : s.Lived cfg) (hnumbered : s.Numbered) (hspoken : s.Spoken) :
    HandlerTurn s (s.submit cfg c m now grant) := by
  have hinv := hlived.inv
  have hraise : ∀ text, HandlerTurn s (s, .failing text) :=
    fun text => .of_plain (.refl s) hspoken fun _ h => (by cases h)
  unfold State.submit
  split
  · exact hraise _
  · rename_i i hi
    split
    · exact hraise _
    · rename_i session hs
      split
      · rename_i requestId hid
        split
        · exact hraise _
        · rename_i sequence hseq
          dsimp only
          split
          · split
            · exact .of_plain (plain_sendRecord hlived.reported.kinds) hspoken fun _ h => (by cases h)
            · exact hraise _
            · rename_i hpre
              have hstale : session.requests.get? requestId = none ∧ sequence ≤ session.watermark := by
                unfold Session.precheck at hpre
                split at hpre
                · split at hpre <;> cases hpre
                · rename_i hnone
                  split at hpre
                  · rename_i hle
                    exact ⟨hnone, hle⟩
                  · cases hpre
              exact ⟨turn_stale hinv hspoken hi hs hseq hstale.1 hstale.2, fun _ h => (by cases h)⟩
            · rename_i hpre
              have hnew : session.watermark < sequence := by
                unfold Session.precheck at hpre
                split at hpre
                · split at hpre <;> cases hpre
                · split at hpre
                  · cases hpre
                  · omega
              exact turn_fresh hinv hnumbered hspoken hi hs hseq hnew
          · exact hraise _
      · exact hraise _

theorem get_cancelResponse (control : Dict) (decision : Decision) :
    (cancelResponse control decision).control.items.get (lit "request_id") =
        control.items.get (lit "request_id") ∧
      (cancelResponse control decision).control.items.get (lit "response") =
        .str (lit decision.name) := by
  simp only [cancelResponse]
  constructor
  · rw [Dict.get_set_ne (by decide), Dict.get_set_ne (by decide), Dict.get_set_self]
    rfl
  · rw [Dict.get_set_ne (by decide), Dict.get_set_self]
    rfl

theorem Decision.eq_cancelled {decision : Decision}
    (h : lit decision.name = lit Decision.cancelled.name) : decision = .cancelled := by
  cases decision with
  | cancelled => rfl
  | running | terminal | unknown => exact absurd h (by decide)

/-- A request that ended with `CANCELLED`. -/
def Request.Cancels (record record' : Request) : Prop :=
  record.Evolves record' ∧ record'.state.terminal = true ∧ record'.terminalKind = some .cancelled

theorem Request.Cancels.of_finish {record record' : Request} {reason : String}
    (halive : record.state.terminal = false)
    (he : (Request.finish (cancelledTerminal reason) record).Evolves record') :
    record.Cancels record' := by
  have hchange : Request.Change .all 0 record (Request.finish (cancelledTerminal reason) record) :=
    .finish trivial halive ⟨rfl, rfl⟩
  obtain ⟨hstate, hkind, -⟩ := he.frozen rfl
  exact ⟨hchange.evolves.trans he, by rw [hstate]; rfl, by rw [hkind]; rfl⟩

/-- A cancellation that says so has ended the request. -/
theorem cancelOne_cancelled (hinv : s.Inv cfg) {r : Nat} {record : Request} {hard : Bool}
    {soft killed : String} (hr : s.records[r]? = some record)
    (h : (s.cancelOne cfg r hard grant soft killed).2 = .ok .cancelled) :
    ∃ record' : Request, (s.cancelOne cfg r hard grant soft killed).1.records[r]? = some record' ∧
      record.Cancels record' := by
  unfold State.cancelOne at h ⊢
  rw [hr] at h ⊢
  dsimp only at h ⊢
  split
  · rename_i hstate
    have halive : record.state.terminal = false := congrArg RequestState.terminal hstate
    obtain ⟨record', hr', he⟩ :=
      endQueued_record (t := cancelledTerminal soft) hinv hr ⟨⟨rfl, rfl⟩, .empty⟩ hstate
    exact ⟨record', hr', .of_finish halive he⟩
  · rename_i hstate
    have halive : record.state.terminal = false := congrArg RequestState.terminal hstate
    rw [hstate] at h
    dsimp only at h
    split
    · rename_i hhard
      rw [if_pos hhard] at h
      split
      · rename_i text hgrant
        rw [hgrant] at h
        cases h
      · obtain ⟨record', hr', he⟩ :=
          endRunning_record (t := cancelledTerminal killed) hinv hr ⟨⟨rfl, rfl⟩, .empty⟩ hstate
        exact ⟨record', hr', .of_finish halive he⟩
      · rename_i hgrant
        rw [hgrant] at h
        cases h
    · rename_i hsoft
      rw [if_neg hsoft] at h
      cases h
  · rename_i hqueued hrunning
    cases hs : record.state with
    | acceptedQueued => exact absurd hs hqueued
    | running => exact absurd hs hrunning
    | _ =>
      rw [hs] at h
      cases h

/-- `_owned_request` finds the request of the session with the ID. -/
theorem ownedRequest_record (hwf : s.WF) {r : Nat} {requestId : Value}
    (h : s.ownedRequest c requestId = some r) : ∃ record : Request, s.records[r]? = some record ∧
      record.connection = c ∧ requestId = .str record.requestId := by
  unfold State.ownedRequest at h
  split at h
  · rename_i session requestId hsession
    obtain ⟨i, hi, hs⟩ := Option.bind_eq_some_iff.mp hsession
    obtain ⟨conn, hc, hci⟩ := Option.bind_eq_some_iff.mp hi
    obtain ⟨record, hr, hid, hrecord, -⟩ := hwf.entry i session requestId r hs (Table.mem_of_get? h)
    refine ⟨record, hr, ?_, by rw [hid]⟩
    obtain ⟨session', hs', hconn, -⟩ := hwf.owner r record hr
    obtain ⟨session'', hs'', hconn'⟩ := hwf.link c conn i hc hci
    rw [hrecord, hs''] at hs'
    cases hs'
    rw [← hconn, hconn']
  · cases h

/-- `_cancel` -/
theorem turn_cancel (hinv : s.Inv cfg) (hspoken : s.Spoken) :
    HandlerTurn s (s.cancel cfg c m.control grant) := by
  unfold State.cancel
  have hplain : Plain s (s.cancelOwned cfg c m.control grant).1 := plain_cancelOwned
  split
  · rename_i x text heq
    rw [heq] at hplain
    exact .of_plain hplain hspoken fun _ h => (by cases h)
  · rename_i x decision heq
    rw [heq] at hplain
    obtain ⟨hid, hresponse⟩ := get_cancelResponse m.control decision
    refine ⟨.of_send hplain hspoken fun conn hc hopen => ⟨⟨(fun h => nomatch h), fun _ hspeaks => ?_⟩,
      fun h => nomatch h⟩, fun _ h => (by cases h)⟩
    rw [hresponse] at hspeaks
    have hdecision := Decision.eq_cancelled (Value.str.inj hspeaks)
    subst hdecision
    rw [hid]
    -- the request that the cancellation found
    unfold State.cancelOwned at heq
    split at heq
    · cases heq
    · rename_i r howned
      obtain ⟨record, hr, hconnection, hrequest⟩ := ownedRequest_record hinv.wf howned
      have hcancelled : ∃ record' : Request, (s.cancelOne cfg r
          (truthy (m.control.items.get (lit "hard"))) grant "cancelled" "terminated").1.records[r]? =
            some record' ∧ record.Cancels record' := cancelOne_cancelled hinv hr (by rw [heq])
      rw [heq] at hcancelled
      obtain ⟨record', hr', he, hterm, hkind⟩ := hcancelled
      have hpoll : Plain s (x.poll cfg c) := hplain.trans plain_poll
      refine ⟨r, record', hr', he.connection.trans hconnection, ?_, hterm, hkind, ?_⟩
      · rw [hrequest, he.requestId]
      · refine hpoll.spoken hspoken r record' conn ?_ hterm ?_ hopen
        · obtain ⟨_, _, hpolled⟩ := poll_eq cfg x c
          rw [hpolled]
          exact hr'
        · rw [he.connection, hconnection]
          exact hc

/-- `_handle_message` -/
theorem turn_message {statistics : Option Dict} (hlived : s.Lived cfg) (hnumbered : s.Numbered)
    (hspoken : s.Spoken) : HandlerTurn s (s.handleMessage cfg c m now grant statistics) := by
  have hreply : ∀ reply : Message, reply.kind.plain = true → HandlerTurn s (s, .answering reply) :=
    fun reply h => .of_plain (.refl s) hspoken fun m hm => by cases hm; exact h
  unfold State.handleMessage
  split
  · exact hreply _ rfl
  · exact turn_submit hlived hnumbered hspoken
  · exact turn_cancel hlived.inv hspoken
  · unfold State.cancelGroup
    have hplain : Plain s (s.cancelMembers cfg c m.control grant).1 := plain_cancelMembers
    split
    · rename_i x text heq
      rw [heq] at hplain
      exact .of_plain hplain hspoken fun _ h => (by cases h)
    · rename_i x found heq
      rw [heq] at hplain
      exact .of_plain hplain hspoken fun _ h => by cases h; rfl
  · exact hreply _ rfl
  · exact hreply _ rfl
  · exact .of_plain plain_acknowledge hspoken fun _ h => (by cases h)
  · unfold State.closeSession
    split
    · exact .of_plain (.refl s) hspoken fun _ h => (by cases h)
    · split
      · exact .of_plain (.refl s) hspoken fun _ h => (by cases h)
      · refine .of_plain (.setConnection fun conn _ => ?_) hspoken fun _ h => by cases h; rfl
        exact ⟨id, ⟨[], (List.append_nil _).symm, fun _ h => (by cases h)⟩, fun _ => id⟩
  · exact .of_plain (.refl s) hspoken fun _ h => (by cases h)

end Handlers

/-! ## Steps -/

/-- What the next step needs to know. -/
structure State.Telling (cfg : Config) (s : State) : Prop where
  lived : s.Lived cfg
  ordered : s.Ordered
  spoken : s.Spoken
  answers : ∀ (c : Nat) (conn : Connection) (m : Message), s.connections[c]? = some conn →
    conn.reader = .answering m → m.kind.plain = true

section Steps

variable {cfg : Config} {s s' : State}

/-- A connection is opened. -/
theorem Turn.connect (h : s.Telling cfg) {conn : Connection} (hlog : conn.log = [])
    (hreader : ∀ m, conn.reader ≠ .answering m) (hrecords : s'.records = s.records)
    (hconnections : s'.connections = s.connections ++ [conn]) : Turn s s' := by
  constructor
  · intro r record conn' hr hterm hc hopen
    rw [hrecords] at hr
    obtain ⟨conn₀, hc₀, -⟩ := h.lived.inv.wf.connected hr
    rw [hconnections, getElem?_append_of_some hc₀] at hc
    cases hc
    exact h.spoken r record _ hr hterm hc₀ hopen
  · intro c conn' hc
    rw [hconnections] at hc
    rcases getElem?_append_some hc with hold | ⟨rfl, rfl⟩
    · exact .inl ⟨conn', hold, (Connection.Plain.refl conn').speaks⟩
    · exact .inr ⟨List.getElem?_eq_none (le_refl _), hlog, fun m hm => absurd hm (hreader m)⟩

/-- A turn that is plain but for its reader. -/
theorem Turn.read {x : State} {c : Nat} {next : Reader} (h : Plain s x) (hspoken : s.Spoken)
    (hnext : ∀ m, next ≠ .answering m) : Turn s (x.setReader c next) :=
  Turn.setReader (.of_plain h hspoken rfl rfl) fun m hm => absurd hm (hnext m)

theorem turn_connectionStep {a : Action} (h : s.Telling cfg) (hs : connectionStep cfg s a = some s') :
    Turn s s' := by
  have hspoken := h.spoken
  cases a with
  | accept =>
    simp only [connectionStep] at hs
    cases hs
    split <;> exact .of_plain (.refl s) hspoken rfl rfl
  | prepare ok =>
    simp only [connectionStep] at hs
    split at hs
    · cases hs
    · split at hs
      · split at hs
        · cases hs
          exact @Turn.connect cfg s _ h {} rfl (fun _ h => (by cases h)) rfl rfl
        · cases hs
          refine .connect h ?_ ?_ rfl rfl
          · exact (@Connection.Quiet.close cfg {}).log
          · exact fun _ h => by cases h
      · cases hs
        exact .of_plain (.refl s) hspoken rfl rfl
  | hello c hello principal =>
    simp only [connectionStep] at hs
    split at hs
    · cases hs
      have hplain : Plain s (s.handshake cfg c hello principal).1 ∧
          ∀ m, (s.handshake cfg c hello principal).2 ≠ .answering m := plain_handshake
      exact HandlerTurn.after (.of_plain hplain.1 hspoken fun m hm => absurd hm (hplain.2 m))
    · cases hs
  | welcome c =>
    simp only [connectionStep] at hs
    split at hs
    · cases hs
      exact .read (plain_send rfl) hspoken fun _ h => (by cases h)
    · cases hs
  | receive c m =>
    simp only [connectionStep] at hs
    split at hs
    · split at hs
      · cases hs
      · cases hs
        exact .read (.refl s) hspoken fun _ h => (by cases h)
    · cases hs
  | handle c now grant statistics =>
    simp only [connectionStep] at hs
    split at hs
    · cases hs
      exact (turn_message h.lived h.ordered.numbered hspoken).after
    · cases hs
  | answer c =>
    simp only [connectionStep] at hs
    split at hs
    · rename_i m hreader
      cases hs
      obtain ⟨conn, hc, hans⟩ := Option.map_eq_some_iff.mp hreader
      exact .read (plain_send (h.answers c conn m hc hans)) hspoken fun _ h => (by cases h)
    · cases hs
  | endRead c =>
    simp only [connectionStep] at hs
    split at hs
    · cases hs
      exact .read (.refl s) hspoken fun _ h => (by cases h)
    · cases hs
      exact .read (.refl s) hspoken fun _ h => (by cases h)
    · cases hs
  | malformed c text =>
    simp only [connectionStep] at hs
    split at hs
    · cases hs
      exact .read (.refl s) hspoken fun _ h => (by cases h)
    · cases hs
      exact .read (.refl s) hspoken fun _ h => (by cases h)
    · cases hs
  | report c =>
    simp only [connectionStep] at hs
    split at hs
    · rename_i text _
      cases hs
      have hsend : Plain s (s.send cfg c none
          ⟨.protocolError, Dict.empty.set (lit "message") (.str (text.take 1024)), []⟩) := plain_send rfl
      exact .read (hsend.trans plain_flush) hspoken fun _ h => (by cases h)
    · cases hs
  | disconnect c =>
    simp only [connectionStep] at hs
    split at hs
    · cases hs
      exact .of_plain plain_disconnect hspoken rfl rfl
    · cases hs
  | write c result =>
    simp only [connectionStep] at hs
    split at hs
    · split at hs
      · cases hs
        refine .of_plain (.setConnection (c := c) fun conn _ => ?_) hspoken rfl rfl
        have hquiet : conn.Quiet (conn.write cfg result) := by
          unfold Connection.write
          split
          · exact .refl conn
          · exact ⟨rfl, rfl, id, rfl, rfl⟩
          · exact ⟨rfl, rfl, id, rfl, rfl⟩
          · split
            · exact ⟨rfl, rfl, id, rfl, rfl⟩
            · rename_i rest _ _
              have hq := @Connection.Quiet.close cfg { conn with outbound := rest }
              exact ⟨hq.session, hq.log, hq.closed, hq.reader, hq.cleanClose⟩
            · exact ⟨rfl, rfl, id, rfl, rfl⟩
        exact hquiet.plain
      · cases hs
    · cases hs
  | _ => cases hs

theorem turn_dispatcherStep {a : Action} (hspoken : s.Spoken) (hs : dispatcherStep cfg s a = some s') :
    Turn s s' := by
  cases a with
  | dispatch now =>
    simp only [dispatcherStep] at hs
    split at hs
    · cases hs
      exact .of_plain plain_dispatch hspoken rfl rfl
    · cases hs
  | submitLocal answer =>
    simp only [dispatcherStep] at hs
    split at hs
    · cases answer with
      | queued =>
        cases hs
        exact .of_plain (.refl s) hspoken rfl rfl
      | full =>
        cases hs
        exact .of_plain (.refl s) hspoken rfl rfl
      | raises text =>
        cases hs
        exact .of_plain (.refl s) hspoken rfl rfl
    · cases hs
  | requeue =>
    simp only [dispatcherStep] at hs
    split at hs
    · cases hs
      exact .of_plain plain_requeue hspoken rfl rfl
    · cases hs
  | completeFailed =>
    simp only [dispatcherStep] at hs
    split at hs
    · cases hs
      have hidle : Plain s { s with dispatcher := .idle } := .of_eq rfl rfl rfl
      exact .of_plain (hidle.trans plain_completeLocal) hspoken rfl rfl
    · cases hs
  | attach =>
    simp only [dispatcherStep] at hs
    split at hs
    · rename_i r f _
      have hempty : Plain s (s.setRecord r fun record => { record with payload := [] }) :=
        .setRecord fun _ h => ⟨h, rfl, rfl⟩
      split at hs
      · cases hs
      · split at hs
        · cases hs
          exact .of_plain hempty hspoken rfl rfl
        · cases hs
          exact .of_plain hempty hspoken rfl rfl
    · cases hs
  | callAttached =>
    simp only [dispatcherStep] at hs
    split at hs
    · cases hs
      have hidle : Plain s { s with dispatcher := .idle } := .of_eq rfl rfl rfl
      exact .of_plain (hidle.trans plain_poolDone) hspoken rfl rfl
    · cases hs
  | _ => cases hs

/-- One locked turn of the loop of `_finish_shutdown` is plain but for the state of the server. -/
theorem plain_shutdownTurn {now : Clock} : ∃ x, Plain s x ∧
    (s.shutdownTurn cfg now).records = x.records ∧
    (s.shutdownTurn cfg now).connections = x.connections := by
  unfold State.shutdownTurn
  split
  · have hsweep : Plain s (if s.shutdownCancelFutures then
        s.requests.values.foldl (State.sweepQueued cfg "server_shutdown") s else s) := by
      split
      · exact Plain.foldl (fun _ _ => plain_sweepQueued) _ s
      · exact .refl s
    dsimp only
    split
    · exact ⟨_, hsweep, rfl, rfl⟩
    · split
      · exact ⟨_, hsweep.trans (Plain.foldl (fun _ _ => plain_sweepActive) _ _), rfl, rfl⟩
      · exact ⟨_, hsweep, rfl, rfl⟩
  · exact ⟨s, .refl s, rfl, rfl⟩

theorem turn_poolStep {a : Action} (h : s.Telling cfg) (hs : poolStep cfg s a = some s') :
    Turn s s' := by
  have hspoken := h.spoken
  cases a with
  | claim f pid now =>
    simp only [poolStep] at hs
    split at hs
    · split at hs
      · cases hs
        exact .of_plain plain_claimDispatch hspoken rfl rfl
      · cases hs
    · cases hs
  | finish f outcome =>
    simp only [poolStep] at hs
    split at hs
    · split at hs
      · split at hs
        · cases hs
          exact .of_plain (.refl s) hspoken rfl rfl
        · cases hs
      · cases hs
    · cases hs
  | notify f =>
    simp only [poolStep] at hs
    split at hs
    · split at hs
      · cases hs
        have hset : Plain s (s.setFuture f fun fut => { fut with notifying := false }) :=
          .of_eq rfl rfl rfl
        exact .of_plain (hset.trans plain_poolDone) hspoken rfl rfl
      · cases hs
    · cases hs
  | shutdown cancelFutures deadline =>
    simp only [poolStep] at hs
    cases hs
    unfold State.shutdown
    split <;> exact .of_plain (.refl s) hspoken rfl rfl
  | shutdownTurn now =>
    simp only [poolStep] at hs
    split at hs
    · cases hs
      have hturn : ∃ x, Plain s x ∧ (s.shutdownTurn cfg now).records = x.records ∧
          (s.shutdownTurn cfg now).connections = x.connections := plain_shutdownTurn
      obtain ⟨x, hplain, hrecords, hconnections⟩ := hturn
      exact .of_plain hplain hspoken hrecords hconnections
    · cases hs
  | flush c =>
    simp only [poolStep] at hs
    split at hs
    · cases hs
      exact .of_plain plain_flush hspoken rfl rfl
    · cases hs
  | goaway c =>
    simp only [poolStep] at hs
    split at hs
    · rename_i hstatus
      cases hs
      refine .of_send (.refl s) hspoken fun conn hc hopen => ⟨⟨fun h => (by cases h),
        fun h => (by cases h)⟩, fun _ => ⟨hstatus, fun r record hr hconnection hterm => ?_⟩⟩
      have hpoll : Plain s (s.poll cfg c) := plain_poll
      refine hpoll.spoken hspoken r record conn ?_ hterm (hconnection ▸ hc) hopen
      obtain ⟨_, _, heq⟩ := poll_eq cfg s c
      rw [heq]
      exact hr
    · cases hs
  | drop c =>
    simp only [poolStep] at hs
    split at hs
    · cases hs
      exact .of_plain plain_close hspoken rfl rfl
    · cases hs
  | stopped =>
    simp only [poolStep] at hs
    split at hs
    · cases hs
      exact .of_plain (.refl s) hspoken rfl rfl
    · cases hs
  | _ => cases hs

/-- **What one step says.** -/
theorem step_turn {l : Label} (h : s.Telling cfg) (hs : step cfg s l = some s') : Turn s s' := by
  have hflips : State.Telling cfg { s with flips := l.flips } :=
    ⟨h.lived.micros (show Locked cfg .all s { s with flips := l.flips } from locked_flips _).micros,
      h.ordered.micros h.lived.inv
        (show Locked cfg .all s { s with flips := l.flips } from locked_flips _).micros,
      h.spoken, h.answers⟩
  obtain ⟨x, hx, rfl⟩ := Option.map_eq_some_iff.mp hs
  have hturn : Turn { s with flips := l.flips } x := by
    rcases Option.or_eq_some_iff.mp hx with hx | ⟨-, hx⟩
    · exact turn_connectionStep hflips hx
    · rcases Option.or_eq_some_iff.mp hx with hx | ⟨-, hx⟩
      · exact turn_dispatcherStep hflips.spoken hx
      · exact turn_poolStep hflips hx
  have hclean : Turn { s with flips := l.flips } { x with flips := [] } := hturn.congr rfl rfl rfl rfl
  exact ⟨hclean.spoken, hclean.connections⟩

theorem State.Telling.init (cfg : Config) : State.Telling cfg {} :=
  ⟨.init cfg, ⟨.init, .init⟩, (fun _ _ _ h => nomatch h), fun _ _ _ h => nomatch h⟩

theorem State.Telling.step {l : Label} (h : s.Telling cfg) (hs : step cfg s l = some s') :
    s'.Telling cfg := by
  have hmicros := step_micros h.lived.inv (Scope.allows_all s l.action) hs
  have hturn := step_turn h hs
  refine ⟨h.lived.micros hmicros, h.ordered.micros h.lived.inv hmicros, hturn.spoken, ?_⟩
  intro c conn' m hc hm
  rcases hturn.connections c conn' hc with ⟨conn, hconn, hspeaks⟩ | ⟨-, -, hplain⟩
  · rcases hspeaks.answering m hm with hold | hplain
    · exact h.answers c conn m hconn hold
    · exact hplain
  · exact hplain m hm

end Steps

theorem reachable_telling {cfg : Config} {C : State → Label → Prop} {s : State}
    (h : (broker cfg).Reach C s) : s.Telling cfg :=
  h.invariant (.init cfg) fun _ _ _ _ htelling _ hstep => htelling.step hstep

/-! ## The order of messages -/

/-- What was heard of a request stays heard. -/
theorem Heard.evolves {log : List Entry} {r : Nat} {record record' : Request} (h : Heard log r record)
    (hterm : record.state.terminal = true) (he : record.Evolves record') : Heard log r record' := by
  obtain ⟨entry, hentry, hrecord, hkind⟩ := h
  exact ⟨entry, hentry, hrecord, (he.frozen hterm).2.1.trans hkind⟩

/-- A message of a log that has grown was there before, or stands among the new ones. -/
theorem split_append {before after old new : List Entry} {entry : Entry}
    (h : old ++ new = before ++ entry :: after) :
    (∃ rest, old = before ++ entry :: rest) ∨ ∃ mid, before = old ++ mid ∧ new = mid ++ entry :: after := by
  rcases List.append_eq_append_iff.mp h with ⟨mid, hbefore, hnew⟩ | ⟨mid, hold, hrest⟩
  · exact .inr ⟨mid, hbefore, hnew⟩
  · cases mid with
    | nil => exact .inr ⟨[], by rw [hold, List.append_nil, List.append_nil], hrest.symm⟩
    | cons e mid =>
      injection hrest with he _
      exact .inl ⟨mid, by rw [hold, he]⟩

section Order

variable {cfg : Config} {scope : Scope} {s s' : State}

theorem State.Lasts.micros {c : Nat} {before : List Entry} {entry : Entry}
    (h : s.Lasts c before entry) (hinv : s.Inv cfg) (hm : Micros cfg scope s s') :
    s'.Lasts c before entry := by
  constructor
  · intro hkind
    obtain ⟨k, i, session, hid, hs, hconn, hpassed, hheard⟩ := h.rejected hkind
    obtain ⟨session', hs', hgrows⟩ := hm.sessions hs
    refine ⟨k, i, session', hid, hs', hgrows.connection.trans hconn, hpassed.grows hgrows, ?_⟩
    intro r record' hr' hconnection hrequest
    rcases hm.fresh hr' with ⟨record, hr, he⟩ | hnot
    · obtain ⟨hterm, hsaid⟩ := hheard r record hr (he.connection.symm.trans hconnection)
        (he.requestId.symm.trans hrequest)
      exact ⟨he.terminal hterm, hsaid.evolves hterm he⟩
    · -- the number was let through, so the request is not new
      have hi : record'.session = i := by
        obtain ⟨conn, hc, hci⟩ := (hinv.micros hm).wf.connected hr'
        obtain ⟨conn', hc', hci'⟩ := (hinv.micros hm).wf.linked i session' hs'
        rw [hgrows.connection, hconn, ← hconnection, hc] at hc'
        cases hc'
        rw [hci] at hci'
        exact Option.some.inj hci'
      exact absurd (hrequest ▸ hpassed) (hnot session (hi ▸ hs))
  · intro hkind hresponse
    obtain ⟨r, record, hr, hconnection, hid, hterm, hcancelled, hheard⟩ := h.decided hkind hresponse
    obtain ⟨record', hr', he⟩ := hm.evolves r record hr
    refine ⟨r, record', hr', he.connection.trans hconnection, ?_, he.terminal hterm, ?_,
      hheard.evolves hterm he⟩
    · rw [he.requestId]
      exact hid
    · exact (he.frozen hterm).2.1.trans hcancelled

/-- What is known of every message that was enqueued. -/
def State.Told (s : State) : Prop :=
  ∀ (c : Nat) (conn : Connection) (before : List Entry) (entry : Entry) (after : List Entry),
    s.connections[c]? = some conn → conn.log = before ++ entry :: after → s.Lasts c before entry

theorem State.Told.step {l : Label} (h : s.Told) (htelling : s.Telling cfg)
    (hs : Broker.step cfg s l = some s') : s'.Told := by
  have hinv := htelling.lived.inv
  have hmicros := step_micros hinv (Scope.allows_all s l.action) hs
  intro c conn' before entry after hc' hlog
  rcases (step_turn htelling hs).connections c conn' hc' with ⟨conn, hc, hspeaks⟩ | ⟨-, hempty, -⟩
  · obtain ⟨entries, hentries, hfit⟩ := hspeaks.log
    rw [hentries] at hlog
    rcases split_append hlog with ⟨rest, hold⟩ | ⟨mid, hbefore, hnew⟩
    · exact (h c conn before entry rest hc hold).micros hinv hmicros
    · rcases hfit mid entry after hnew with hplain | ⟨-, hfit⟩
      · constructor
        · intro hkind
          rw [hkind] at hplain
          cases hplain
        · intro hkind
          rw [hkind] at hplain
          cases hplain
      · rw [hbefore]
        exact hfit.toLasts
  · rw [hempty] at hlog
    cases before <;> cases hlog

theorem reachable_told {C : State → Label → Prop} (h : (broker cfg).Reach C s) : s.Told :=
  h.invariant (fun _ _ _ _ _ h => nomatch h) fun _ _ _ hreach htold _ hstep =>
    htold.step (reachable_telling hreach) hstep

end Order

end Deadpool.Remote.Broker
