import Deadpool.Remote.Broker.Micro

/-!
# The broker: its tables fit together

Requests, sessions, connections and local futures refer to each other by identity.  `State.WF` says how:
a request is in the table of its session exactly while its reservation is held, an entry of `_requests`
is in the table of its session too, a session and its connection name each other, a local future and its
request too.

Principal results: `WF.micro` — every change keeps this.
-/

set_option autoImplicit false

namespace Deadpool.Remote.Broker

open Deadpool.Py

structure State.WF (s : State) : Prop where
  owner : ∀ (r : Nat) (record : Request), s.records[r]? = some record → ∃ session : Session,
    s.sessions[record.session]? = some session ∧ session.connection = record.connection ∧
      session.principal = record.principal
  entry : ∀ (i : Nat) (session : Session) (k : Str) (r : Nat), s.sessions[i]? = some session → (k, r) ∈ session.requests →
    ∃ record : Request, s.records[r]? = some record ∧ record.requestId = k ∧ record.session = i ∧
      record.reservationReleased = false
  keys : ∀ (i : Nat) (session : Session), s.sessions[i]? = some session → session.requests.NodupKeys
  listed : ∀ (r : Nat) (record : Request), s.records[r]? = some record → record.reservationReleased = false →
    s.Listed r record
  reserved : ∀ (r : Nat) (record : Request), s.records[r]? = some record → record.state.terminal = false →
    record.reservationReleased = false
  global : ∀ (k : Str) (r : Nat), (k, r) ∈ s.requests → ∃ record : Request, s.records[r]? = some record ∧
    record.requestId = k ∧ s.Listed r record
  globalKeys : s.requests.NodupKeys
  linked : ∀ (i : Nat) (session : Session), s.sessions[i]? = some session → ∃ conn : Connection,
    s.connections[session.connection]? = some conn ∧ conn.session = some i
  link : ∀ (c : Nat) (conn : Connection) (i : Nat), s.connections[c]? = some conn → conn.session = some i → ∃ session : Session,
    s.sessions[i]? = some session ∧ session.connection = c
  greeting : ∀ (c : Nat) (conn : Connection), s.connections[c]? = some conn → conn.reader = .greeting → conn.session = none
  answering : ∀ (c : Nat) (conn : Connection) (m : Message), s.connections[c]? = some conn → conn.reader = .answering m →
    m.kind.reports = false
  closed : ∀ (c : Nat) (conn : Connection), s.connections[c]? = some conn → conn.reader = .gone → conn.closed = true
  encodable : ∀ (r : Nat) (record : Request), s.records[r]? = some record → Encodable record.requestId
  deadline : ∀ (r : Nat) (record : Request) (d : Float64), s.records[r]? = some record → record.queueDeadline = some d → d ≠ .nan
  future : ∀ (f : Nat) (fut : LocalFuture), s.futures[f]? = some fut → ∃ record : Request, s.records[fut.record]? = some record
  localFuture : ∀ (r : Nat) (record : Request) (f : Nat), s.records[r]? = some record → record.localFuture = some f →
    ∃ fut : LocalFuture, s.futures[f]? = some fut ∧ fut.record = r

theorem State.WF.init : State.WF {} where
  owner := fun _ _ h => nomatch h
  entry := fun _ _ _ _ h => nomatch h
  keys := fun _ _ h => nomatch h
  listed := fun _ _ h => nomatch h
  reserved := fun _ _ h => nomatch h
  global := fun _ _ h => nomatch h
  globalKeys := List.nodup_nil
  linked := fun _ _ h => nomatch h
  link := fun _ _ _ h => nomatch h
  greeting := fun _ _ h => nomatch h
  answering := fun _ _ _ h => nomatch h
  closed := fun _ _ h => nomatch h
  encodable := fun _ _ h => nomatch h
  deadline := fun _ _ _ h => nomatch h
  future := fun _ _ h => nomatch h
  localFuture := fun _ _ _ h => nomatch h

namespace State.WF

variable {s s' : State}

/-! ## Parts that change -/

/-- An assignment to fields that other objects do not depend on. -/
structure Keeps (s : State) (r : Nat) (record record' : Request) : Prop where
  requestId : record'.requestId = record.requestId
  session : record'.session = record.session
  connection : record'.connection = record.connection
  principal : record'.principal = record.principal
  released : record'.reservationReleased = record.reservationReleased
  deadline : record'.queueDeadline = record.queueDeadline
  terminal : record.state.terminal = true → record'.state.terminal = true
  localFuture : ∀ f, record'.localFuture = some f →
    record.localFuture = some f ∨ ∃ fut : LocalFuture, s.futures[f]? = some fut ∧ fut.record = r

theorem Keeps.refl {r : Nat} {record : Request} : Keeps s r record record :=
  ⟨rfl, rfl, rfl, rfl, rfl, rfl, id, fun _ => .inl⟩

theorem listed_of_keeps {x : State} {r r' : Nat} {record record' : Request}
    (h : Keeps s r record record') (hl : x.Listed r' record) : x.Listed r' record' := by
  unfold State.Listed at hl ⊢
  rw [h.session, h.requestId]
  exact hl

theorem setRecord (h : s.WF) {r : Nat} {g : Request → Request}
    (hg : ∀ record : Request, s.records[r]? = some record → Keeps s r record (g record)) :
    (s.setRecord r g).WF := by
  have hback : ∀ (r' : Nat) (record' : Request), (s.setRecord r g).records[r']? = some record' →
      ∃ record : Request, s.records[r']? = some record ∧ Keeps s r' record record' := by
    intro r' record' hr
    obtain ⟨record, hrec, rfl⟩ := getElem?_modify_some hr
    refine ⟨record, hrec, ?_⟩
    split
    · rename_i he
      subst he
      exact hg record hrec
    · exact .refl
  have hforth : ∀ (r' : Nat) (record : Request), s.records[r']? = some record → ∃ record' : Request,
      (s.setRecord r g).records[r']? = some record' ∧ Keeps s r' record record' := by
    intro r' record hrec
    refine ⟨_, getElem?_modify_of_some hrec, ?_⟩
    split
    · rename_i he
      subst he
      exact hg record hrec
    · exact .refl
  constructor
  · intro r' record' hr
    obtain ⟨record, hrec, hk⟩ := hback r' record' hr
    rw [hk.session, hk.connection, hk.principal]
    exact h.owner r' record hrec
  · intro i session k r' hs hm
    obtain ⟨record, hrec, hid, hses, hrel⟩ := h.entry i session k r' hs hm
    obtain ⟨record', hrec', hk⟩ := hforth r' record hrec
    exact ⟨record', hrec', hk.requestId.trans hid, hk.session.trans hses, hk.released.trans hrel⟩
  · exact h.keys
  · intro r' record' hr hrel
    obtain ⟨record, hrec, hk⟩ := hback r' record' hr
    exact listed_of_keeps hk (h.listed r' record hrec (hk.released.symm.trans hrel))
  · intro r' record' hr hterm
    obtain ⟨record, hrec, hk⟩ := hback r' record' hr
    rw [hk.released]
    refine h.reserved r' record hrec ?_
    cases ht : record.state.terminal with
    | false => rfl
    | true => rw [hk.terminal ht] at hterm; cases hterm
  · intro k r' hm
    obtain ⟨record, hrec, hid, hl⟩ := h.global k r' hm
    obtain ⟨record', hrec', hk⟩ := hforth r' record hrec
    exact ⟨record', hrec', hk.requestId.trans hid, listed_of_keeps hk hl⟩
  · exact h.globalKeys
  · exact h.linked
  · exact h.link
  · exact h.greeting
  · exact h.answering
  · exact h.closed
  · intro r' record' hr
    obtain ⟨record, hrec, hk⟩ := hback r' record' hr
    rw [hk.requestId]
    exact h.encodable r' record hrec
  · intro r' record' d hr hd
    obtain ⟨record, hrec, hk⟩ := hback r' record' hr
    exact h.deadline r' record d hrec (hk.deadline.symm.trans hd)
  · intro f fut hf
    obtain ⟨record, hrec⟩ := h.future f fut hf
    obtain ⟨record', hrec', -⟩ := hforth _ record hrec
    exact ⟨record', hrec'⟩
  · intro r' record' f hr hf
    obtain ⟨record, hrec, hk⟩ := hback r' record' hr
    rcases hk.localFuture f hf with hf | hf
    · exact h.localFuture r' record f hrec hf
    · exact hf

/-- A connection changes, its session does not. -/
theorem setConnection (h : s.WF) {c : Nat} {g : Connection → Connection}
    (hg : ∀ conn : Connection, s.connections[c]? = some conn → (g conn).session = conn.session ∧
      ((g conn).reader = .greeting → conn.reader = .greeting) ∧
      (∀ m, (g conn).reader = .answering m → m.kind.reports = false) ∧
      ((g conn).reader = .gone → (g conn).closed = true)) : (s.setConnection c g).WF := by
  have hback : ∀ (c' : Nat) (conn' : Connection), (s.setConnection c g).connections[c']? = some conn' →
      ∃ conn : Connection, s.connections[c']? = some conn ∧ conn'.session = conn.session ∧
        (conn'.reader = .greeting → conn.reader = .greeting) ∧
        (∀ m, conn'.reader = .answering m → m.kind.reports = false) ∧
        (conn'.reader = .gone → conn'.closed = true) := by
    intro c' conn' hc
    obtain ⟨conn, hconn, rfl⟩ := getElem?_modify_some hc
    refine ⟨conn, hconn, ?_⟩
    split
    · rename_i he
      subst he
      exact hg conn hconn
    · exact ⟨rfl, id, fun m => h.answering c' conn m hconn, h.closed c' conn hconn⟩
  refine ⟨h.owner, h.entry, h.keys, h.listed, h.reserved, h.global, h.globalKeys, ?_, ?_, ?_, ?_, ?_,
    h.encodable, h.deadline, h.future, h.localFuture⟩
  · intro i session hs
    obtain ⟨conn, hconn, hi⟩ := h.linked i session hs
    refine ⟨_, getElem?_modify_of_some hconn, ?_⟩
    split
    · rename_i he
      exact ((hg conn (he ▸ hconn)).1).trans hi
    · exact hi
  · intro c' conn' i hc hi
    obtain ⟨conn, hconn, hses, -⟩ := hback c' conn' hc
    exact h.link c' conn i hconn (hses.symm.trans hi)
  · intro c' conn' hc hgreet
    obtain ⟨conn, hconn, hses, hback, -⟩ := hback c' conn' hc
    exact hses.trans (h.greeting c' conn hconn (hback hgreet))
  · intro c' conn' m hc
    obtain ⟨conn, -, -, -, hans, -⟩ := hback c' conn' hc
    exact hans m
  · intro c' conn' hc
    obtain ⟨conn, -, -, -, -, hgone⟩ := hback c' conn' hc
    exact hgone

theorem setConnection_quiet (h : s.WF) {c : Nat} {g : Connection → Connection}
    (hg : ∀ conn : Connection, conn.Quiet (g conn)) : (s.setConnection c g).WF := by
  refine h.setConnection fun conn hc => ⟨(hg conn).session, ?_, ?_, ?_⟩
  · exact fun hr => (hg conn).reader.symm.trans hr
  · exact fun m hr => h.answering c conn m hc ((hg conn).reader.symm.trans hr)
  · exact fun hr => (hg conn).closed (h.closed c conn hc ((hg conn).reader.symm.trans hr))

/-- Nothing that the tables depend on changes. -/
theorem congr (h : s.WF) (hrecords : s'.records = s.records) (hsessions : s'.sessions = s.sessions)
    (hrequests : s'.requests = s.requests) (hconnections : s'.connections = s.connections)
    (hfutures : s'.futures = s.futures) : s'.WF := by
  obtain ⟨status, raw, connections, open', sessions, live, clients, records, requests, ro, rb, scheduler,
    staged, futures, dispatcher, started, cancel, deadline, killed, masked, flips⟩ := s'
  dsimp only at hrecords hsessions hrequests hconnections hfutures
  subst hrecords hsessions hrequests hconnections hfutures
  exact ⟨h.owner, h.entry, h.keys, h.listed, h.reserved, h.global, h.globalKeys, h.linked, h.link,
    h.greeting, h.answering, h.closed, h.encodable, h.deadline, h.future, h.localFuture⟩

theorem worked (h : s.WF) {f : Nat} {g : LocalFuture → LocalFuture}
    (hg : ∀ fut : LocalFuture, (g fut).record = fut.record) (d : Dispatcher) (n : Int) :
    (s.worked (s.futures.modify f g) d n).WF := by
  refine ⟨h.owner, h.entry, h.keys, h.listed, h.reserved, h.global, h.globalKeys, h.linked, h.link,
    h.greeting, h.answering, h.closed, h.encodable, h.deadline, ?_, ?_⟩
  · intro f' fut' hf
    obtain ⟨fut, hfut, rfl⟩ := getElem?_modify_some hf
    have hrec : (if f = f' then g fut else fut).record = fut.record := by
      split
      · exact hg fut
      · rfl
    rw [hrec]
    exact h.future f' fut hfut
  · intro r record f' hr hf
    obtain ⟨fut, hfut, hrec⟩ := h.localFuture r record f' hr hf
    refine ⟨_, getElem?_modify_of_some hfut, ?_⟩
    split
    · rw [hg fut]
      exact hrec
    · exact hrec

theorem work (h : s.WF) {scope : Scope} (hw : WorkStep scope s s') : s'.WF := by
  cases hw with
  | submitted | attach | finish | cancel | pid | cancelled | notified =>
    refine h.worked ?_ _ _
    exact fun _ => rfl
  | refused | call | exit | called => exact h.congr rfl rfl rfl rfl rfl

/-! ## Acceptance, removal, registration -/

theorem sessions_enter {i : Nat} {sequence : Int} {record : Request} (hi : record.session = i) :
    (s.enter i sequence record).sessions = s.sessions.modify i fun session =>
      { session with
        watermark := sequence
        requests := session.requests.set record.requestId s.records.length
        reservedOutcomes := session.reservedOutcomes + 1
        reservedOutcomeBytes := session.reservedOutcomeBytes + record.reservedResultBytes } := by
  unfold State.enter State.accept State.setSession
  rw [hi]
  exact List.modify_modify_eq _ _ _ _

theorem enter (h : s.WF) {cfg : Config} {c i : Nat} {session : Session} {sequence : Int}
    {record : Request} (ha : s.Admits cfg c i session sequence record) :
    (s.enter i sequence record).WF := by
  obtain ⟨m, now, registered, priority, executionTimeout, queueTimeout, hrecord⟩ := ha.fresh
  have hi : record.session = i := by rw [hrecord]; rfl
  have hc : record.connection = c := by rw [hrecord]; rfl
  have hreleased : record.reservationReleased = false := by rw [hrecord]; rfl
  have hlocal : record.localFuture = none := by rw [hrecord]; rfl
  have hprincipal : record.principal = session.principal := by rw [hrecord]; rfl
  obtain ⟨conn, hconn, hci⟩ := Option.bind_eq_some_iff.mp ha.connected
  have hsc : session.connection = c := by
    obtain ⟨session', hs', hc'⟩ := h.link c conn i hconn hci
    rw [ha.opened] at hs'
    cases hs'
    exact hc'
  -- the table of the session, and those of the others
  have hsessions : (s.enter i sequence record).sessions = _ := sessions_enter hi
  have hold : ∀ (r : Nat) (record' : Request), s.Listed r record' → s.records[r]? = some record' →
      (s.enter i sequence record).Listed r record' := by
    rintro r record' ⟨session', hs', hm⟩ hr
    unfold State.Listed
    rw [hsessions]
    refine ⟨_, getElem?_modify_of_some hs', ?_⟩
    split
    · rename_i he
      rw [← he, ha.opened] at hs'
      cases hs'
      refine Table.mem_of_get? ?_
      rw [Table.get?_set, if_neg]
      · exact Table.get?_of_mem (h.keys i session ha.opened) hm
      · intro heq
        have := ha.unlisted
        rw [heq, Table.get?_of_mem (h.keys i session ha.opened) hm] at this
        cases this
    · exact hm
  have hnew : (s.enter i sequence record).Listed s.records.length record := by
    unfold State.Listed
    rw [hsessions, hi]
    refine ⟨_, getElem?_modify_self ha.opened, ?_⟩
    exact Table.mem_of_get? (Table.get?_set.trans (if_pos rfl))
  have hback : ∀ (r : Nat) (record' : Request),
      (s.enter i sequence record).records[r]? = some record' →
      s.records[r]? = some record' ∨ r = s.records.length ∧ record' = record :=
    fun r record' hr => getElem?_append_some hr
  refine ⟨?_, ?_, ?_, ?_, ?_, ?_, h.globalKeys.set, ?_, ?_, h.greeting, h.answering, h.closed, ?_, ?_,
    ?_, ?_⟩
  · intro r record' hr
    rw [hsessions]
    rcases hback r record' hr with hr | ⟨-, rfl⟩
    · obtain ⟨session', hs', hown⟩ := h.owner r record' hr
      refine ⟨_, getElem?_modify_of_some hs', ?_⟩
      split
      · exact hown
      · exact hown
    · rw [hi]
      exact ⟨_, getElem?_modify_self ha.opened, hsc.trans hc.symm, hprincipal.symm⟩
  · intro i' session' k r hs hm
    rw [hsessions] at hs
    obtain ⟨session₀, hs₀, rfl⟩ := getElem?_modify_some hs
    by_cases he : i = i'
    · subst he
      rw [ha.opened] at hs₀
      cases hs₀
      rw [if_pos rfl] at hm
      rcases Table.mem_of_mem_set hm with he | hm
      · cases he
        exact ⟨record, getElem?_append_length, rfl, hi, hreleased⟩
      · obtain ⟨record', hr', hrest⟩ := h.entry i session k r ha.opened hm
        exact ⟨record', getElem?_append_of_some hr', hrest⟩
    · rw [if_neg he] at hm
      obtain ⟨record', hr', hrest⟩ := h.entry i' session₀ k r hs₀ hm
      exact ⟨record', getElem?_append_of_some hr', hrest⟩
  · intro i' session' hs
    rw [hsessions] at hs
    obtain ⟨session₀, hs₀, rfl⟩ := getElem?_modify_some hs
    split
    · exact (h.keys i' session₀ hs₀).set
    · exact h.keys i' session₀ hs₀
  · intro r record' hr hrel
    rcases hback r record' hr with hr | ⟨rfl, rfl⟩
    · exact hold r record' (h.listed r record' hr hrel) hr
    · exact hnew
  · intro r record' hr hterm
    rcases hback r record' hr with hr | ⟨-, rfl⟩
    · exact h.reserved r record' hr hterm
    · exact hreleased
  · intro k r hm
    rcases Table.mem_of_mem_set hm with he | hm
    · cases he
      exact ⟨record, getElem?_append_length, rfl, hnew⟩
    · obtain ⟨record', hr', hid, hl⟩ := h.global k r hm
      exact ⟨record', getElem?_append_of_some hr', hid, hold r record' hl hr'⟩
  · intro i' session' hs
    rw [hsessions] at hs
    obtain ⟨session₀, hs₀, rfl⟩ := getElem?_modify_some hs
    obtain ⟨conn', hconn', hi'⟩ := h.linked i' session₀ hs₀
    refine ⟨conn', ?_, hi'⟩
    split
    · exact hconn'
    · exact hconn'
  · intro c' conn' i' hc' hi'
    obtain ⟨session', hs', hcon⟩ := h.link c' conn' i' hc' hi'
    rw [hsessions]
    refine ⟨_, getElem?_modify_of_some hs', ?_⟩
    split
    · exact hcon
    · exact hcon
  · intro r record' hr
    rcases hback r record' hr with hr | ⟨-, rfl⟩
    · exact h.encodable r record' hr
    · exact ha.encodable
  · intro r record' d hr hd
    rcases hback r record' hr with hr | ⟨-, rfl⟩
    · exact h.deadline r record' d hr hd
    · exact ha.deadline d hd
  · intro f fut hf
    obtain ⟨record', hr'⟩ := h.future f fut hf
    exact ⟨record', getElem?_append_of_some hr'⟩
  · intro r record' f hr hf
    rcases hback r record' hr with hr | ⟨-, rfl⟩
    · exact h.localFuture r record' f hr hf
    · rw [hlocal] at hf
      cases hf

/-- A request that is in the table of its session leaves both tables. -/
theorem retire (h : s.WF) {r : Nat} {record : Request} (hr : s.records[r]? = some record)
    (hterm : record.state.terminal = true) (hl : s.Listed r record) : (s.retire r record).WF := by
  obtain ⟨session, hs, hm⟩ := hl
  -- the entry with this key is this request
  have hkey : ∀ r', (record.requestId, r') ∈ session.requests → r' = r := by
    intro r' hm'
    have hget := Table.get?_of_mem (h.keys _ session hs) hm
    rw [Table.get?_of_mem (h.keys _ session hs) hm'] at hget
    exact Option.some.inj hget
  have hback : ∀ (r' : Nat) (record' : Request), (s.retire r record).records[r']? = some record' →
      ∃ record₀, s.records[r']? = some record₀ ∧ record'.requestId = record₀.requestId ∧
        record'.session = record₀.session ∧ record'.connection = record₀.connection ∧
        record'.principal = record₀.principal ∧ record'.state = record₀.state ∧
        record'.queueDeadline = record₀.queueDeadline ∧ record'.localFuture = record₀.localFuture ∧
        (r' ≠ r → record' = record₀) ∧ (r' = r → record'.reservationReleased = true) := by
    intro r' record' hr'
    obtain ⟨record₀, hr₀, rfl⟩ := getElem?_modify_some hr'
    refine ⟨record₀, hr₀, ?_⟩
    by_cases he : r = r'
    · rw [if_pos he]
      exact ⟨rfl, rfl, rfl, rfl, rfl, rfl, rfl, fun hne => absurd he.symm hne, fun _ => rfl⟩
    · rw [if_neg he]
      exact ⟨rfl, rfl, rfl, rfl, rfl, rfl, rfl, fun _ => rfl, fun heq => absurd heq.symm he⟩
  have hforth : ∀ (r' : Nat) (record₀ : Request), s.records[r']? = some record₀ → r' ≠ r →
      (s.retire r record).records[r']? = some record₀ := by
    intro r' record₀ hr₀ hne
    exact (getElem?_modify_of_ne (Ne.symm hne)).trans hr₀
  have hother : ∀ (r' : Nat) (record₀ : Request), s.records[r']? = some record₀ → r' ≠ r →
      s.Listed r' record₀ → (s.retire r record).Listed r' record₀ := by
    rintro r' record₀ hr₀ hne ⟨session', hs', hm'⟩
    refine ⟨_, getElem?_modify_of_some hs', ?_⟩
    split
    · rename_i he
      refine Table.mem_pop.mpr ⟨hm', fun hid => hne ?_⟩
      rw [he, hs'] at hs
      cases hs
      exact hkey r' (hid ▸ hm')
    · exact hm'
  refine ⟨?_, ?_, ?_, ?_, ?_, ?_, h.globalKeys.pop, ?_, ?_, h.greeting, h.answering, h.closed, ?_, ?_,
    ?_, ?_⟩
  · intro r' record' hr'
    obtain ⟨record₀, hr₀, -, hses, hcon, hpri, -⟩ := hback r' record' hr'
    obtain ⟨session', hs', hown⟩ := h.owner r' record₀ hr₀
    rw [hses, hcon, hpri]
    refine ⟨_, getElem?_modify_of_some hs', ?_⟩
    split
    · exact hown
    · exact hown
  · intro i session' k r' hs' hm'
    obtain ⟨session₀, hs₀, rfl⟩ := getElem?_modify_some hs'
    have hin : (k, r') ∈ session₀.requests ∧ r' ≠ r := by
      split at hm'
      · rename_i he
        obtain ⟨hin, hk⟩ := Table.mem_pop.mp hm'
        refine ⟨hin, fun hrr => hk ?_⟩
        obtain ⟨record₀, hr₀, hid, -⟩ := h.entry i session₀ k r' hs₀ hin
        rw [hrr, hr] at hr₀
        cases hr₀
        exact hid.symm
      · rename_i he
        refine ⟨hm', fun hrr => he ?_⟩
        obtain ⟨record₀, hr₀, -, hses, -⟩ := h.entry i session₀ k r' hs₀ hm'
        rw [hrr, hr] at hr₀
        cases hr₀
        exact hses
    obtain ⟨record₀, hr₀, hrest⟩ := h.entry i session₀ k r' hs₀ hin.1
    exact ⟨record₀, hforth r' record₀ hr₀ hin.2, hrest⟩
  · intro i session' hs'
    obtain ⟨session₀, hs₀, rfl⟩ := getElem?_modify_some hs'
    split
    · exact (h.keys i session₀ hs₀).pop
    · exact h.keys i session₀ hs₀
  · intro r' record' hr' hrel
    obtain ⟨record₀, hr₀, -, -, -, -, -, -, -, hsame, hgone⟩ := hback r' record' hr'
    have hne : r' ≠ r := by
      intro he
      rw [hgone he] at hrel
      cases hrel
    rw [hsame hne] at hrel ⊢
    exact hother r' record₀ hr₀ hne (h.listed r' record₀ hr₀ hrel)
  · intro r' record' hr' hnon
    obtain ⟨record₀, hr₀, -, -, -, -, hstate, -, -, hsame, hgone⟩ := hback r' record' hr'
    by_cases he : r' = r
    · rw [he, hr] at hr₀
      cases hr₀
      rw [hstate, hterm] at hnon
      cases hnon
    · rw [hsame he] at hnon ⊢
      exact h.reserved r' record₀ hr₀ hnon
  · intro k r' hm'
    obtain ⟨hm₀, hk⟩ := Table.mem_pop.mp hm'
    obtain ⟨record₀, hr₀, hid, hl₀⟩ := h.global k r' hm₀
    have hne : r' ≠ r := by
      intro he
      rw [he, hr] at hr₀
      cases hr₀
      exact hk hid.symm
    exact ⟨record₀, hforth r' record₀ hr₀ hne, hid, hother r' record₀ hr₀ hne hl₀⟩
  · intro i session' hs'
    obtain ⟨session₀, hs₀, rfl⟩ := getElem?_modify_some hs'
    obtain ⟨conn, hconn, hi⟩ := h.linked i session₀ hs₀
    refine ⟨conn, ?_, hi⟩
    split
    · exact hconn
    · exact hconn
  · intro c conn i hc hi
    obtain ⟨session', hs', hcon⟩ := h.link c conn i hc hi
    refine ⟨_, getElem?_modify_of_some hs', ?_⟩
    split
    · exact hcon
    · exact hcon
  · intro r' record' hr'
    obtain ⟨record₀, hr₀, hid, -⟩ := hback r' record' hr'
    rw [hid]
    exact h.encodable r' record₀ hr₀
  · intro r' record' d hr' hd
    obtain ⟨record₀, hr₀, -, -, -, -, -, hdl, -⟩ := hback r' record' hr'
    exact h.deadline r' record₀ d hr₀ (hdl.symm.trans hd)
  · intro f fut hf
    obtain ⟨record₀, hr₀⟩ := h.future f fut hf
    exact ⟨_, getElem?_modify_of_some hr₀⟩
  · intro r' record' f hr' hf
    obtain ⟨record₀, hr₀, -, -, -, -, -, -, hloc, -⟩ := hback r' record' hr'
    exact h.localFuture r' record₀ f hr₀ (hloc.symm.trans hf)

/-- A handshake registers a session without requests. -/
theorem register (h : s.WF) {c : Nat} {conn : Connection} {session : Session}
    (hc : s.connections[c]? = some conn) (hgreet : conn.reader = .greeting)
    (hconn : session.connection = c) (hrequests : session.requests = []) :
    ((s.register c session).setReader c .welcoming).WF := by
  have hnone := h.greeting c conn hc hgreet
  have hconnections : ((s.register c session).setReader c .welcoming).connections =
      s.connections.modify c fun conn =>
        { conn with session := some s.sessions.length, reader := .welcoming } :=
    List.modify_modify_eq _ _ _ _
  have hold : ∀ (r : Nat) (record : Request), s.Listed r record →
      ((s.register c session).setReader c .welcoming).Listed r record := by
    rintro r record ⟨session', hs', hm⟩
    exact ⟨session', getElem?_append_of_some hs', hm⟩
  have hback : ∀ (c' : Nat) (conn' : Connection),
      ((s.register c session).setReader c .welcoming).connections[c']? = some conn' →
      (c' = c ∧ conn'.session = some s.sessions.length ∧ conn'.reader = .welcoming) ∨
        c' ≠ c ∧ s.connections[c']? = some conn' := by
    intro c' conn' hc'
    rw [hconnections] at hc'
    obtain ⟨conn₀, hc₀, rfl⟩ := getElem?_modify_some hc'
    by_cases he : c = c'
    · rw [if_pos he]
      exact .inl ⟨he.symm, rfl, rfl⟩
    · rw [if_neg he]
      exact .inr ⟨Ne.symm he, hc₀⟩
  refine ⟨?_, ?_, ?_, ?_, h.reserved, ?_, h.globalKeys, ?_, ?_, ?_, ?_, ?_, h.encodable, h.deadline,
    h.future, h.localFuture⟩
  · intro r record hr
    obtain ⟨session', hs', hown⟩ := h.owner r record hr
    exact ⟨session', getElem?_append_of_some hs', hown⟩
  · intro i session' k r hs' hm
    rcases getElem?_append_some hs' with hs' | ⟨-, rfl⟩
    · exact h.entry i session' k r hs' hm
    · rw [hrequests] at hm
      cases hm
  · intro i session' hs'
    rcases getElem?_append_some hs' with hs' | ⟨-, rfl⟩
    · exact h.keys i session' hs'
    · rw [hrequests]
      exact List.nodup_nil
  · intro r record hr hrel
    exact hold r record (h.listed r record hr hrel)
  · intro k r hm
    obtain ⟨record, hr, hid, hl⟩ := h.global k r hm
    exact ⟨record, hr, hid, hold r record hl⟩
  · intro i session' hs'
    rcases getElem?_append_some hs' with hs' | ⟨rfl, rfl⟩
    · obtain ⟨conn', hconn', hi⟩ := h.linked i session' hs'
      have hne : c ≠ session'.connection := by
        intro he
        rw [← he, hc] at hconn'
        cases hconn'
        rw [hnone] at hi
        cases hi
      rw [hconnections]
      exact ⟨conn', (getElem?_modify_of_ne hne).trans hconn', hi⟩
    · rw [hconn, hconnections]
      exact ⟨_, getElem?_modify_self hc, rfl⟩
  · intro c' conn' i hc' hi
    rcases hback c' conn' hc' with ⟨rfl, hself, -⟩ | ⟨-, hc'⟩
    · rw [hself] at hi
      cases hi
      exact ⟨session, getElem?_append_length, hconn⟩
    · obtain ⟨session', hs', hcon⟩ := h.link c' conn' i hc' hi
      exact ⟨session', getElem?_append_of_some hs', hcon⟩
  · intro c' conn' hc' hr
    rcases hback c' conn' hc' with ⟨-, -, hw⟩ | ⟨-, hc'⟩
    · rw [hw] at hr
      cases hr
    · exact h.greeting c' conn' hc' hr
  · intro c' conn' m hc' hr
    rcases hback c' conn' hc' with ⟨-, -, hw⟩ | ⟨-, hc'⟩
    · rw [hw] at hr
      cases hr
    · exact h.answering c' conn' m hc' hr
  · intro c' conn' hc' hr
    rcases hback c' conn' hc' with ⟨-, -, hw⟩ | ⟨-, hc'⟩
    · rw [hw] at hr
      cases hr
    · exact h.closed c' conn' hc' hr

/-! ## All changes -/

theorem finish {r : Nat} {t : Terminal} (ht : t.state.terminal = true) (record : Request) :
    Keeps s r record (Request.finish t record) :=
  ⟨rfl, rfl, rfl, rfl, rfl, rfl, fun _ => ht, fun _ => .inl⟩

theorem stage (h : s.WF) {r : Nat} {record : Request} (hr : s.records[r]? = some record) :
    (s.stage r).WF := by
  have hfutures : State.WF { s with futures := s.futures ++ [{ record := r }] } := by
    refine ⟨h.owner, h.entry, h.keys, h.listed, h.reserved, h.global, h.globalKeys, h.linked, h.link,
      h.greeting, h.answering, h.closed, h.encodable, h.deadline, ?_, ?_⟩
    · intro f fut hf
      rcases getElem?_append_some hf with hf | ⟨-, rfl⟩
      · exact h.future f fut hf
      · exact ⟨record, hr⟩
    · intro r' record' f hr' hf
      obtain ⟨fut, hfut, hrec⟩ := h.localFuture r' record' f hr' hf
      exact ⟨fut, getElem?_append_of_some hfut, hrec⟩
  have hkeeps : ∀ record : Request, Keeps { s with futures := s.futures ++ [{ record := r }] } r record
      { record with localFuture := some s.futures.length } := by
    intro record
    refine ⟨rfl, rfl, rfl, rfl, rfl, rfl, id, fun f hf => .inr ?_⟩
    cases hf
    exact ⟨_, getElem?_append_length, rfl⟩
  have hrecord := hfutures.setRecord fun record (_ : s.records[r]? = some record) => hkeeps record
  exact hrecord.congr rfl rfl rfl rfl rfl

theorem requeue (h : s.WF) (r : Nat) : (s.requeue r).WF := by
  have hrecord : (s.setRecord r fun record => { record with localFuture := none }).WF :=
    h.setRecord fun record _ => ⟨rfl, rfl, rfl, rfl, rfl, rfl, id, fun _ hf => nomatch hf⟩
  unfold State.requeue
  dsimp only
  split
  · exact hrecord.congr rfl rfl rfl rfl rfl
  · split
    · exact hrecord.congr rfl rfl rfl rfl rfl
    · exact hrecord.congr rfl rfl rfl rfl rfl

theorem setSession_watermark (h : s.WF) {i : Nat} {sequence : Int} :
    (s.setSession i fun session => { session with watermark := sequence }).WF := by
  have hback : ∀ (i' : Nat) (session' : Session),
      (s.setSession i fun session => { session with watermark := sequence }).sessions[i']? =
        some session' → ∃ session, s.sessions[i']? = some session ∧
        session'.requests = session.requests ∧ session'.connection = session.connection := by
    intro i' session' hs
    obtain ⟨session, hsession, rfl⟩ := getElem?_modify_some hs
    refine ⟨session, hsession, ?_⟩
    split
    · exact ⟨rfl, rfl⟩
    · exact ⟨rfl, rfl⟩
  have hforth : ∀ (i' : Nat) (session : Session), s.sessions[i']? = some session → ∃ session',
      (s.setSession i fun session => { session with watermark := sequence }).sessions[i']? =
        some session' ∧ session'.requests = session.requests ∧
        session'.connection = session.connection ∧ session'.principal = session.principal := by
    intro i' session hs
    refine ⟨_, getElem?_modify_of_some hs, ?_⟩
    split
    · exact ⟨rfl, rfl, rfl⟩
    · exact ⟨rfl, rfl, rfl⟩
  have hlisted : ∀ (r : Nat) (record : Request), s.Listed r record →
      (s.setSession i fun session => { session with watermark := sequence }).Listed r record := by
    rintro r record ⟨session, hs, hm⟩
    obtain ⟨session', hs', hreq, -⟩ := hforth _ session hs
    exact ⟨session', hs', hreq ▸ hm⟩
  refine ⟨?_, ?_, ?_, ?_, h.reserved, ?_, h.globalKeys, ?_, ?_, h.greeting, h.answering, h.closed,
    h.encodable, h.deadline, h.future, h.localFuture⟩
  · intro r record hr
    obtain ⟨session, hs, hcon, hpri⟩ := h.owner r record hr
    obtain ⟨session', hs', -, hcon', hpri'⟩ := hforth _ session hs
    exact ⟨session', hs', hcon'.trans hcon, hpri'.trans hpri⟩
  · intro i' session' k r hs' hm
    obtain ⟨session, hs, hreq, -⟩ := hback i' session' hs'
    exact h.entry i' session k r hs (hreq ▸ hm)
  · intro i' session' hs'
    obtain ⟨session, hs, hreq, -⟩ := hback i' session' hs'
    rw [hreq]
    exact h.keys i' session hs
  · intro r record hr hrel
    exact hlisted r record (h.listed r record hr hrel)
  · intro k r hm
    obtain ⟨record, hr, hid, hl⟩ := h.global k r hm
    exact ⟨record, hr, hid, hlisted r record hl⟩
  · intro i' session' hs'
    obtain ⟨session, hs, -, hcon⟩ := hback i' session' hs'
    rw [hcon]
    exact h.linked i' session hs
  · intro c conn i' hc hi
    obtain ⟨session, hs, hcon⟩ := h.link c conn i' hc hi
    obtain ⟨session', hs', -, hcon', -⟩ := hforth _ session hs
    exact ⟨session', hs', hcon'.trans hcon⟩

theorem connect (h : s.WF) {conn : Connection} (hsession : conn.session = none)
    (hreader : conn.reader = .greeting ∨ conn.reader = .gone ∧ conn.closed = true) :
    State.WF { s with connections := s.connections ++ [conn] } := by
  refine ⟨h.owner, h.entry, h.keys, h.listed, h.reserved, h.global, h.globalKeys, ?_, ?_, ?_, ?_, ?_,
    h.encodable, h.deadline, h.future, h.localFuture⟩
  · intro i session hs
    obtain ⟨conn', hc, hi⟩ := h.linked i session hs
    exact ⟨conn', getElem?_append_of_some hc, hi⟩
  · intro c conn' i hc hi
    rcases getElem?_append_some hc with hc | ⟨-, rfl⟩
    · exact h.link c conn' i hc hi
    · rw [hsession] at hi
      cases hi
  · intro c conn' hc hr
    rcases getElem?_append_some hc with hc | ⟨-, rfl⟩
    · exact h.greeting c conn' hc hr
    · exact hsession
  · intro c conn' m hc hr
    rcases getElem?_append_some hc with hc | ⟨-, rfl⟩
    · exact h.answering c conn' m hc hr
    · rcases hreader with he | ⟨he, -⟩ <;> rw [he] at hr <;> cases hr
  · intro c conn' hc hr
    rcases getElem?_append_some hc with hc | ⟨-, rfl⟩
    · exact h.closed c conn' hc hr
    · rcases hreader with he | ⟨-, he⟩
      · rw [he] at hr
        cases hr
      · exact he

/-- The connection of a request exists. -/
theorem connected (hwf : s.WF) {r : Nat} {record : Request} (hr : s.records[r]? = some record) :
    ∃ conn : Connection, s.connections[record.connection]? = some conn ∧
      conn.session = some record.session := by
  obtain ⟨session, hs, hconnection, -⟩ := hwf.owner r record hr
  obtain ⟨conn, hc, hi⟩ := hwf.linked _ session hs
  rw [hconnection] at hc
  exact ⟨conn, hc, hi⟩

/-- Every change keeps the tables together. -/
theorem micro {cfg : Config} {scope : Scope} (h : s.WF) (hm : Micro cfg scope s s') : s'.WF := by
  cases hm with
  | flags => exact h.congr rfl rfl rfl rfl rfl
  | sockets => exact h.congr rfl rfl rfl rfl rfl
  | connect hsession _ hreader => exact h.connect hsession hreader
  | connection hf => exact h.setConnection_quiet hf
  | cleanClose =>
    exact h.setConnection fun conn hc => ⟨rfl, id, fun m => h.answering _ conn m hc, h.closed _ conn hc⟩
  | reader hgreet hgone hans =>
    refine h.setConnection fun conn _ => ⟨rfl, fun he => absurd he hgreet, fun m he => hans m he, ?_⟩
    exact fun he => absurd he hgone
  | gone _ hc hclosed =>
    refine h.setConnection fun conn hc' => ⟨rfl, ?_, ?_, ?_⟩
    · intro he
      cases he
    · intro m he
      cases he
    · rw [hc] at hc'
      cases hc'
      exact fun _ => hclosed
  | say hc _ _ =>
    exact h.setConnection fun conn hc' => ⟨rfl, id, fun m => h.answering _ conn m hc', h.closed _ conn hc'⟩
  | accept _ _ ha hc hf =>
    refine (h.enter ha).setConnection fun conn hc' => ?_
    have hsame : s.connections[_]? = some conn := hc'
    rw [hc] at hsame
    cases hsame
    rcases hf with ⟨hquiet, -⟩ | ⟨-, heq⟩
    · refine ⟨hquiet.session, fun he => hquiet.reader.symm.trans he, fun m he => ?_, fun he => ?_⟩
      · exact h.answering _ _ m hc (hquiet.reader.symm.trans he)
      · exact hquiet.closed (h.closed _ _ hc (hquiet.reader.symm.trans he))
    · have hclosed := h.closed _ _ hc
      rw [heq]
      exact ⟨rfl, id, fun m he => h.answering _ _ m hc he, hclosed⟩
  | watermark => exact h.setSession_watermark
  | start _ _ hr hqueued =>
    refine h.setRecord fun record hr' => ⟨rfl, rfl, rfl, rfl, rfl, rfl, fun ht => ?_, fun _ => .inl⟩
    rw [hr] at hr'
    cases hr'
    rw [hqueued] at ht
    cases ht
  | claim => exact h.setRecord fun record _ => ⟨rfl, rfl, rfl, rfl, rfl, rfl, id, fun _ => .inl⟩
  | emptied => exact h.setRecord fun record _ => ⟨rfl, rfl, rfl, rfl, rfl, rfl, id, fun _ => .inl⟩
  | @stage r record scheduler _ _ _ _ hr =>
    have hpopped : State.WF { s with scheduler := scheduler } := h.congr rfl rfl rfl rfl rfl
    exact hpopped.stage hr
  | requeue => exact h.requeue _
  | @finish r _ _ _ _ _ _ ht =>
    have hremoved : State.WF { s with scheduler := s.scheduler.remove r } :=
      h.congr rfl rfl rfl rfl rfl
    exact hremoved.setRecord fun record _ => finish ht.state record
  | finishStaged _ _ _ _ _ ht => exact h.setRecord fun record _ => finish ht.state record
  | retire _ hr hterm _ hl => exact h.retire hr hterm hl
  | unregister _ hs hempty _ =>
    unfold State.unregister
    rw [hs]
    dsimp only
    rw [if_pos hempty]
    exact h.congr rfl rfl rfl rfl rfl
  | register hc hgreet hconn _ _ hnew =>
    refine h.register hc hgreet hconn ?_
    rw [hnew]
    rfl
  | work hw => exact h.work hw

end State.WF

end Deadpool.Remote.Broker
