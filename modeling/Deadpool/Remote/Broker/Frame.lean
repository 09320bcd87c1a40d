import Deadpool.Remote.Broker.Drain

/-!
# The broker: what a critical section leaves alone

`Frame` relates the states around a critical section that takes no message from a reader and accepts no
request: readers and watermarks stay where they are, and only a request that waits in the queue ends
with `QUEUE_TIMED_OUT`.  Every operation of the broker on its requests is such a section.

Principal result: `step_rest` — every step that handles no message is such a section, up to what readers
and registrations add.
-/

set_option autoImplicit false

namespace Deadpool.Remote.Broker

open Deadpool.Py Deadpool.Lts

/-- The fields leave the request ID alone. -/
def Anonymous (fields : List (Str × Str)) : Prop := ∀ field ∈ fields, field.1 ≠ lit "request_id"

/-- The connection and the ID of a request. -/
def Request.name (record : Request) : Nat × Str := (record.connection, record.requestId)

def State.names (s : State) : List (Nat × Str) := s.records.map Request.name

/-- Who a session is, and its watermark. -/
def Session.key (session : Session) : Str × Nat × Int :=
  (session.clientId, session.connection, session.watermark)

/-- What a section may do to a request: it expires only in the queue, and does not come back there. -/
structure Request.Waits (record record' : Request) : Prop where
  name : record'.name = record.name
  expires : record'.terminalKind = some .queueTimedOut →
    record.terminalKind = some .queueTimedOut ∨ record.state = .acceptedQueued
  queued : record'.state = .acceptedQueued → record.state = .acceptedQueued
  control : Anonymous record.terminalControl → Anonymous record'.terminalControl
  ended : record.state.terminal = true →
    record'.state.terminal = true ∧ record'.terminalKind = record.terminalKind

theorem Request.Waits.refl (record : Request) : record.Waits record :=
  ⟨rfl, .inl, id, id, fun h => ⟨h, rfl⟩⟩

theorem Request.Waits.trans {a b c : Request} (h : a.Waits b) (h' : b.Waits c) : a.Waits c where
  name := h'.name.trans h.name
  expires hc := (h'.expires hc).elim h.expires fun hb => .inr (h.queued hb)
  queued hc := h.queued (h'.queued hc)
  control ha := h'.control (h.control ha)
  ended ht :=
    ⟨(h'.ended (h.ended ht).1).1, (h'.ended (h.ended ht).1).2.trans (h.ended ht).2⟩

theorem names_setRecord {s : State} {r : Nat} {g : Request → Request}
    (hg : ∀ record : Request, s.records[r]? = some record → (g record).name = record.name) :
    (s.setRecord r g).names = s.names := by
  refine List.ext_getElem? fun j => ?_
  show ((s.records.modify r g).map Request.name)[j]? = (s.records.map Request.name)[j]?
  rw [List.getElem?_map, List.getElem?_map, List.getElem?_modify]
  cases hj : s.records[j]? with
  | none => rfl
  | some record =>
    by_cases hr : r = j
    · subst hr
      simp [hg record hj]
    · simp [hr]

/-- What was enqueued on a connection. -/
def State.logOf (s : State) (c : Nat) : List Entry := (s.connections[c]?.map Connection.log).getD []

/-- The message is about a request of the connection, and names it; a terminal one says how it ended. -/
def State.Vouches (s : State) (c : Nat) (entry : Entry) : Prop :=
  ∃ (r : Nat) (record : Request), entry.record = some r ∧ s.records[r]? = some record ∧
    record.connection = c ∧
    entry.message.control.items.get (lit "request_id") = .str record.requestId ∧
    (entry.message.kind.terminal = true →
      record.state.terminal = true ∧ record.terminalKind = some entry.message.kind)

/-- What is said about ended requests leaves their IDs alone. -/
def State.Clean (s : State) : Prop :=
  ∀ (r : Nat) (record : Request), s.records[r]? = some record → Anonymous record.terminalControl

/-- A section between messages. -/
structure Frame (s s' : State) : Prop where
  length : s'.connections.length = s.connections.length
  names : s'.names = s.names
  connections : ∀ (c : Nat) (conn' : Connection), s'.connections[c]? = some conn' →
    ∃ conn : Connection, s.connections[c]? = some conn ∧ conn'.reader = conn.reader ∧
      conn'.session = conn.session
  sessions : ∀ (i : Nat) (session' : Session), s'.sessions[i]? = some session' →
    ∃ session : Session, s.sessions[i]? = some session ∧ session'.key = session.key
  requests : ∀ (r : Nat) (record' : Request), s'.records[r]? = some record' →
    ∃ record : Request, s.records[r]? = some record ∧ record.Waits record'
  log : s.Clean → ∀ (c : Nat), ∀ entry ∈ s'.logOf c,
    entry ∈ s.logOf c ∨ (entry.message.kind.reports = true → s'.Vouches c entry)

theorem logOf_of_eq {s s' : State} (h : s'.connections = s.connections) (c : Nat) :
    s'.logOf c = s.logOf c := by
  unfold State.logOf
  rw [h]

namespace Frame

variable {s s' s'' : State}

theorem of_eq (hconnections : s'.connections = s.connections) (hsessions : s'.sessions = s.sessions)
    (hrecords : s'.records = s.records) : Frame s s' where
  length := by rw [hconnections]
  names := congrArg (List.map Request.name) hrecords
  connections _ conn' hc := ⟨conn', hconnections ▸ hc, rfl, rfl⟩
  sessions _ session' hs := ⟨session', hsessions ▸ hs, rfl⟩
  requests _ record' hr := ⟨record', hrecords ▸ hr, .refl record'⟩
  log _ c entry hentry := .inl (logOf_of_eq hconnections c ▸ hentry)

theorem clean (h : Frame s s') (hs : s.Clean) : s'.Clean := by
  intro r record' hr'
  obtain ⟨record, hr, hwaits⟩ := h.requests r record' hr'
  exact hwaits.control (hs r record hr)

theorem vouches (h : Frame s s') {c : Nat} {entry : Entry} (hv : s.Vouches c entry) :
    s'.Vouches c entry := by
  obtain ⟨r, record, hentry, hr, hcon, hid, hkind⟩ := hv
  have hlt : r < s'.records.length := by
    have hlen := congrArg List.length h.names
    rw [State.names, State.names, List.length_map, List.length_map] at hlen
    rw [hlen]
    exact lt_of_getElem? hr
  obtain ⟨record', hr'⟩ : ∃ record', s'.records[r]? = some record' :=
    ⟨_, List.getElem?_eq_getElem hlt⟩
  obtain ⟨record₀, hr₀, hwaits⟩ := h.requests r record' hr'
  rw [hr] at hr₀
  cases hr₀
  refine ⟨r, record', hentry, hr', (congrArg Prod.fst hwaits.name).trans hcon, ?_, fun hterm => ?_⟩
  · rw [hid, show record'.requestId = record.requestId from congrArg Prod.snd hwaits.name]
  · obtain ⟨hended, heq⟩ := hwaits.ended (hkind hterm).1
    exact ⟨hended, heq.trans (hkind hterm).2⟩

theorem refl (s : State) : Frame s s := of_eq rfl rfl rfl

theorem trans (h : Frame s s') (h' : Frame s' s'') : Frame s s'' where
  length := h'.length.trans h.length
  names := h'.names.trans h.names
  connections c conn'' hc'' := by
    obtain ⟨conn', hc', hreader', hsession'⟩ := h'.connections c conn'' hc''
    obtain ⟨conn, hc, hreader, hsession⟩ := h.connections c conn' hc'
    exact ⟨conn, hc, hreader'.trans hreader, hsession'.trans hsession⟩
  sessions i session'' hs'' := by
    obtain ⟨session', hs', hkey'⟩ := h'.sessions i session'' hs''
    obtain ⟨session, hs, hkey⟩ := h.sessions i session' hs'
    exact ⟨session, hs, hkey'.trans hkey⟩
  requests r record'' hr'' := by
    obtain ⟨record', hr', hwaits'⟩ := h'.requests r record'' hr''
    obtain ⟨record, hr, hwaits⟩ := h.requests r record' hr'
    exact ⟨record, hr, hwaits.trans hwaits'⟩
  log hclean c entry hentry := by
    rcases h'.log (h.clean hclean) c entry hentry with hold | hnew
    · exact (h.log hclean c entry hold).imp_right fun hv hkind => h'.vouches (hv hkind)
    · exact .inr hnew

/-- An assignment to a connection. -/
theorem setConnection {c : Nat} {f : Connection → Connection}
    (hf : ∀ conn : Connection, (f conn).reader = conn.reader ∧ (f conn).session = conn.session)
    (hlog : ∀ conn : Connection, ∀ entry ∈ (f conn).log, entry ∈ conn.log ∨
      (entry.message.kind.reports = true → s.Clean → s.Vouches c entry)) :
    Frame s (s.setConnection c f) where
  length := List.length_modify ..
  names := rfl
  connections c' conn' hc' := by
    obtain ⟨conn, hc, rfl⟩ := getElem?_modify_some hc'
    refine ⟨conn, hc, ?_⟩
    split
    · exact hf conn
    · exact ⟨rfl, rfl⟩
  sessions _ session' hs := ⟨session', hs, rfl⟩
  requests _ record' hr := ⟨record', hr, .refl record'⟩
  log hclean c' entry hentry := by
    unfold State.logOf at hentry ⊢
    cases hc' : (s.setConnection c f).connections[c']? with
    | none =>
      rw [hc'] at hentry
      cases hentry
    | some conn' =>
      obtain ⟨conn, hc, rfl⟩ := getElem?_modify_some hc'
      rw [hc'] at hentry
      rw [hc]
      by_cases he : c = c'
      · subst he
        rw [if_pos rfl] at hentry
        exact (hlog conn entry hentry).imp_right fun hv hkind => hv hkind hclean
      · rw [if_neg he] at hentry
        exact .inl hentry

/-- An assignment to a connection that says nothing. -/
theorem quiet {c : Nat} {f : Connection → Connection} (hf : ∀ conn : Connection, conn.Quiet (f conn)) :
    Frame s (s.setConnection c f) := by
  refine setConnection (fun conn => ⟨(hf conn).reader, (hf conn).session⟩) fun conn entry hentry => ?_
  rw [(hf conn).log] at hentry
  exact .inl hentry

/-- An assignment to a session. -/
theorem setSession {i : Nat} {g : Session → Session}
    (hg : ∀ session : Session, (g session).key = session.key) :
    Frame s (s.setSession i g) where
  length := rfl
  names := rfl
  connections _ conn' hc := ⟨conn', hc, rfl, rfl⟩
  sessions j session' hs := by
    obtain ⟨session, hold, rfl⟩ := getElem?_modify_some hs
    refine ⟨session, hold, ?_⟩
    split
    · exact hg session
    · rfl
  requests _ record' hr := ⟨record', hr, .refl record'⟩
  log _ _ _ hentry := .inl hentry

/-- An assignment to a request. -/
theorem setRecord {r : Nat} {g : Request → Request}
    (hg : ∀ record : Request, s.records[r]? = some record → record.Waits (g record)) :
    Frame s (s.setRecord r g) where
  length := rfl
  names := names_setRecord fun record hr => (hg record hr).name
  connections _ conn' hc := ⟨conn', hc, rfl, rfl⟩
  sessions _ session' hs := ⟨session', hs, rfl⟩
  requests r' record' hr := by
    obtain ⟨record, hrec, rfl⟩ := getElem?_modify_some hr
    refine ⟨record, hrec, ?_⟩
    split
    · rename_i he
      subst he
      exact hg record hrec
    · exact .refl record
  log _ _ _ hentry := .inl hentry

theorem foldl {op : State → Nat → State} (hop : ∀ s r, Frame s (op s r)) (rs : List Nat) :
    ∀ s, Frame s (rs.foldl op s) := by
  induction rs with
  | nil => exact refl
  | cons r rs ih => exact fun s => (hop s r).trans (ih (op s r))

end Frame

/-! ## The operations -/

section Operations

variable {cfg : Config} {s : State} {c r i : Nat}

theorem Connection.put_reader (conn : Connection) (item : OutItem) (entries : List Entry) :
    (conn.put cfg item entries).reader = conn.reader ∧ (conn.put cfg item entries).session = conn.session := by
  have hclose : conn.Quiet (conn.close cfg) := .close conn
  unfold Connection.put
  split
  · exact ⟨rfl, rfl⟩
  · split
    · exact ⟨rfl, rfl⟩
    · exact ⟨hclose.reader, hclose.session⟩

theorem frame_close : Frame s (s.setConnection c (Connection.close cfg)) :=
  .quiet .close

theorem frame_poll : Frame s (s.poll cfg c) := by
  unfold State.poll
  split
  · exact .refl s
  · exact .of_eq rfl rfl rfl
  · rename_i rest _
    have hflips : Frame s { s with flips := rest } := .of_eq rfl rfl rfl
    exact hflips.trans frame_close

theorem Connection.put_log {conn : Connection} {item : OutItem} {entries : List Entry} {entry : Entry}
    (h : entry ∈ (conn.put cfg item entries).log) : entry ∈ conn.log ∨ entry ∈ entries := by
  unfold Connection.put at h
  split at h
  · exact .inl h
  · split at h
    · exact List.mem_append.mp h
    · rw [(Connection.Quiet.close conn).log] at h
      exact .inl h

theorem frame_send {record : Option Nat} {m : Message}
    (h : m.kind.reports = true → s.Clean → s.Vouches c ⟨record, m⟩) : Frame s (s.send cfg c record m) := by
  refine frame_poll.trans (.setConnection (fun conn => conn.put_reader _ _) fun conn entry hentry => ?_)
  refine (Connection.put_log hentry).imp_right fun hnew hkind hclean => ?_
  rw [List.mem_singleton.mp hnew] at hkind ⊢
  obtain ⟨connections, flips, heq⟩ := poll_eq cfg s c
  have hs := h hkind
  rw [heq] at hclean ⊢
  exact hs hclean

theorem frame_sendPlain {record : Option Nat} {m : Message} (h : m.kind.reports = false) :
    Frame s (s.send cfg c record m) :=
  frame_send fun hkind => by rw [h] at hkind; cases hkind

theorem frame_flush : Frame s (s.flush cfg c) :=
  frame_poll.trans (.setConnection (fun conn => conn.put_reader _ _)
    fun _ _ hentry => (Connection.put_log hentry).imp_right fun hnew => by cases hnew)

theorem get_requestControl (requestId : Str) :
    (requestControl requestId).items.get (lit "request_id") = .str requestId := Dict.get_set_self

theorem get_controlOf {requestId : Str} {fields : List (Str × Str)} (h : Anonymous fields) :
    (controlOf requestId fields).items.get (lit "request_id") = .str requestId := by
  unfold controlOf
  have hcontrol := get_requestControl requestId
  generalize requestControl requestId = control at hcontrol ⊢
  induction fields generalizing control with
  | nil => exact hcontrol
  | cons field fields ih =>
    refine ih (fun f hf => h f (List.mem_cons_of_mem _ hf)) _ ?_
    rw [Dict.get_set_ne (h field List.mem_cons_self)]
    exact hcontrol

theorem vouches_accepted {record : Request} (hr : s.records[r]? = some record) :
    s.Vouches record.connection ⟨some r, acceptedMessage record.requestId⟩ := by
  refine ⟨r, record, rfl, hr, rfl, ?_, fun h => Bool.noConfusion h⟩
  unfold acceptedMessage
  rw [Dict.get_set_ne (by decide)]
  exact get_requestControl _

theorem vouches_running {record : Request} {pid : Option Nat} {workerId : Obj}
    (hr : s.records[r]? = some record) :
    s.Vouches record.connection ⟨some r, runningMessage record.requestId pid workerId⟩ := by
  refine ⟨r, record, rfl, hr, rfl, ?_, fun h => Bool.noConfusion h⟩
  unfold runningMessage
  rw [Dict.get_set_ne (by decide), Dict.get_set_ne (by decide)]
  exact get_requestControl _

theorem vouches_terminal {record : Request} {kind : MessageType} (hr : s.records[r]? = some record)
    (hterm : record.state.terminal = true) (hkind : record.terminalKind = some kind) (hclean : s.Clean) :
    s.Vouches record.connection ⟨some r, record.terminalMessage kind⟩ :=
  ⟨r, record, rfl, hr, rfl, get_controlOf (hclean r record hr), fun _ => ⟨hterm, hkind⟩⟩

/-- The terminal ends a request of the queue, or not with `QUEUE_TIMED_OUT`. -/
def State.Expires (s : State) (r : Nat) (t : Terminal) : Prop :=
  t.kind = .queueTimedOut → ∀ record : Request, s.records[r]? = some record → record.state = .acceptedQueued

theorem State.Expires.of_kind {t : Terminal} (h : t.kind ≠ .queueTimedOut) : s.Expires r t :=
  fun hkind => absurd hkind h

/-- The arguments of `_terminal_locked` end a request and leave its ID alone. -/
structure ProperTerminal (t : Terminal) : Prop where
  state : t.state.terminal = true
  control : Anonymous t.control

theorem proper_cancelledTerminal (reason : String) : ProperTerminal (cancelledTerminal reason) where
  state := rfl
  control field hfield := by
    rw [List.mem_singleton.mp hfield]
    show lit "reason" ≠ lit "request_id"
    decide

theorem proper_queueTimeout : ProperTerminal queueTimeout where
  state := rfl
  control field hfield := by
    rw [List.mem_singleton.mp hfield]
    show lit "reason" ≠ lit "request_id"
    decide

/-- `_terminal_locked` -/
theorem frame_terminalLocked {t : Terminal} (ht : ProperTerminal t) (h : s.Expires r t) :
    Frame s (s.terminalLocked cfg r t) := by
  unfold State.terminalLocked
  split
  · exact .refl s
  · rename_i record hr
    split
    · exact .refl s
    · rename_i halive
      have hfinish : Frame s (s.setRecord r (Request.finish t)) := by
        refine .setRecord fun record' hr' => ⟨rfl, fun hkind => .inr (h (Option.some.inj hkind) record' hr'),
          fun hqueued => ?_, fun _ => ht.control, fun hterm => ?_⟩
        · have hterm : t.state.terminal = true := ht.state
          rw [show t.state = .acceptedQueued from hqueued] at hterm
          cases hterm
        · rw [hr] at hr'
          cases hr'
          exact absurd hterm halive
      have hr' : (s.setRecord r (Request.finish t)).records[r]? = some (Request.finish t record) :=
        getElem?_modify_self hr
      exact hfinish.trans (frame_send fun _ _ => ⟨r, _, rfl, hr', rfl, get_controlOf ht.control,
        fun _ => ⟨ht.state, rfl⟩⟩)

theorem frame_releaseReservation {record : Request} : Frame s (s.releaseReservation r record) := by
  unfold State.releaseReservation
  split
  · exact .refl s
  · obtain ⟨x, hx⟩ : ∃ x, x = s.setRecord r fun record => { record with reservationReleased := true } :=
      ⟨_, rfl⟩
    have hrecord : Frame s x := by
      rw [hx]
      exact .setRecord fun _ _ => ⟨rfl, .inl, id, id, fun h => ⟨h, rfl⟩⟩
    have hsession : Frame x (x.setSession record.session fun session =>
        { session with
          reservedOutcomes := session.reservedOutcomes - 1
          reservedOutcomeBytes := session.reservedOutcomeBytes - record.reservedResultBytes }) :=
      .setSession fun _ => rfl
    dsimp only
    rw [← hx]
    exact (hrecord.trans hsession).trans (.of_eq rfl rfl rfl)

theorem frame_removeRequest : Frame s (s.removeRequest r) := by
  unfold State.removeRequest
  split
  · exact .refl s
  · rename_i record _
    split
    · have hrelease : Frame s (s.releaseReservation r record) := frame_releaseReservation
      obtain ⟨x, hx⟩ : ∃ x, x = (s.releaseReservation r record).setRecord r fun record =>
          { record with payload := [], terminalPayload := [] } := ⟨_, rfl⟩
      have hrecord : Frame s x := by
        rw [hx]
        exact hrelease.trans (.setRecord fun _ _ => ⟨rfl, .inl, id, id, fun h => ⟨h, rfl⟩⟩)
      have hsession : Frame x (x.setSession record.session fun session =>
          { session with requests := session.requests.pop record.requestId }) := .setSession fun _ => rfl
      dsimp only
      rw [← hx]
      exact (hrecord.trans hsession).trans (.of_eq rfl rfl rfl)
    · exact .refl s

theorem frame_removeTerminal : Frame s (s.removeTerminal r) := by
  unfold State.removeTerminal
  split
  · exact .refl s
  · split
    · exact frame_removeRequest
    · exact .refl s

theorem frame_unregister : Frame s (s.unregister i) := by
  unfold State.unregister
  split
  · exact .refl s
  · split
    · exact .of_eq rfl rfl rfl
    · exact .refl s

theorem frame_purgeSession : Frame s (s.purgeSession i) := by
  unfold State.purgeSession
  split
  · exact .refl s
  · exact (Frame.foldl (fun _ _ => frame_removeTerminal) _ s).trans frame_unregister

theorem frame_completed {record : Request} : Frame s (s.completed cfg record) := by
  unfold State.completed
  have hcount : Frame s (if s.staged = 0 then { s with masked := true }
      else { s with staged := s.staged - 1 }) := by
    split <;> exact .of_eq rfl rfl rfl
  obtain ⟨x, hx⟩ : ∃ x, x = if s.staged = 0 then { s with masked := true }
      else { s with staged := s.staged - 1 } := ⟨_, rfl⟩
  dsimp only
  rw [← hx] at hcount ⊢
  have hpoll : Frame s (x.poll cfg record.connection) := hcount.trans frame_poll
  split
  · exact hpoll.trans frame_purgeSession
  · exact hpoll

theorem key_ne_requestId (f : DescriptorField) : f.key ≠ lit "request_id" := by
  cases f <;> decide

theorem terminal_unexpired {limits : RemoteLimits} {requestId : Str} {outcome : Outcome} {t : Terminal}
    (h : outcome.terminal limits requestId = .ok t) :
    ProperTerminal t ∧ t.kind ≠ .queueTimedOut := by
  unfold Outcome.terminal at h
  cases hd : outcome.descriptor limits requestId with
  | error e =>
    rw [hd] at h
    cases h
  | ok d =>
    rw [hd] at h
    cases h
    refine ⟨⟨outcome.ends.1, fun field hfield => ?_⟩, ?_⟩
    · obtain ⟨f, -, hf⟩ := List.mem_filterMap.mp hfield
      obtain ⟨text, -, rfl⟩ := Option.map_eq_some_iff.mp hf
      exact key_ne_requestId f
    show outcome.kind ≠ .queueTimedOut
    unfold Outcome.kind
    split <;> exact MessageType.noConfusion

theorem frame_completeLocal {outcome : Outcome} : Frame s (s.completeLocal cfg r outcome) := by
  unfold State.completeLocal
  split
  · exact .refl s
  · split
    · exact frame_completed
    · split
      · exact .refl s
      · rename_i t ht
        obtain ⟨hproper, hkind⟩ := terminal_unexpired ht
        have hterminal : Frame s (s.terminalLocked cfg r t) :=
          frame_terminalLocked hproper (.of_kind hkind)
        exact hterminal.trans frame_completed

theorem frame_cancelFuture {f : Nat} : Frame s (s.cancelFuture cfg f) := by
  unfold State.cancelFuture
  split
  · exact .refl s
  · split
    · exact .refl s
    · have hset : Frame s (s.setFuture f fun fut => { fut with phase := .done cancelledOutcome }) :=
        .of_eq rfl rfl rfl
      dsimp only
      split
      · exact hset.trans frame_completeLocal
      · exact hset

theorem frame_cancelLocal : Frame s (s.cancelLocal cfg r) := by
  unfold State.cancelLocal
  split
  · exact .refl s
  · split
    · exact .refl s
    · exact frame_cancelFuture

theorem frame_killLocal : Frame s (s.killLocal cfg r) := by
  unfold State.killLocal
  split
  · exact .refl s
  · split
    · exact .refl s
    · rename_i f _
      have hcancel : Frame s (s.cancelFuture cfg f) := frame_cancelFuture
      dsimp only
      split
      · exact hcancel
      · split
        · exact hcancel
        · exact hcancel.trans (.of_eq rfl rfl rfl)

theorem frame_endQueued {t : Terminal} (ht : ProperTerminal t) (h : s.Expires r t) :
    Frame s (s.endQueued cfg r t) := by
  have hremove : Frame s { s with scheduler := s.scheduler.remove r } := .of_eq rfl rfl rfl
  have hterminal : Frame s (State.terminalLocked cfg { s with scheduler := s.scheduler.remove r } r t) :=
    hremove.trans (frame_terminalLocked ht h)
  exact hterminal.trans frame_cancelLocal

theorem frame_endRunning {t : Terminal} (ht : ProperTerminal t) (h : s.Expires r t) :
    Frame s (s.endRunning cfg r t) := by
  have hterminal : Frame s (s.terminalLocked cfg r t) := frame_terminalLocked ht h
  exact hterminal.trans frame_killLocal

/-! ## Passes over requests -/

theorem frame_expireOne {now : Clock} : Frame s (State.expireOne cfg now s r) := by
  unfold State.expireOne
  split
  · exact .refl s
  · rename_i record hr
    split
    · rename_i hexpired
      refine frame_endQueued proper_queueTimeout fun _ record' hr' => ?_
      rw [hr] at hr'
      cases hr'
      exact hexpired.1
    · exact .refl s

theorem frame_sweepQueued {reason : String} : Frame s (State.sweepQueued cfg reason s r) := by
  unfold State.sweepQueued
  split
  · exact .refl s
  · split
    · exact frame_endQueued (proper_cancelledTerminal _) (.of_kind fun h => by cases h)
    · exact .refl s

theorem frame_sweepActive : Frame s (State.sweepActive cfg s r) := by
  unfold State.sweepActive
  split
  · exact .refl s
  · split
    · exact frame_endRunning (proper_cancelledTerminal _) (.of_kind fun h => by cases h)
    · exact frame_sweepQueued

theorem frame_disconnectOne : Frame s (State.disconnectOne cfg s r) := by
  unfold State.disconnectOne
  split
  · exact .refl s
  · split
    · exact frame_endQueued (proper_cancelledTerminal _) (.of_kind fun h => by cases h)
    · split
      · exact frame_endRunning (proper_cancelledTerminal _) (.of_kind fun h => by cases h)
      · exact .refl s
    · exact .refl s

theorem frame_cancelOne {hard : Bool} {grant : Str → Except Str Bool} {soft killed : String} :
    Frame s (s.cancelOne cfg r hard grant soft killed).1 := by
  unfold State.cancelOne
  split
  · exact .refl s
  · split
    · exact frame_endQueued (proper_cancelledTerminal _) (.of_kind fun h => by cases h)
    · split
      · split
        · exact .refl s
        · exact frame_endRunning (proper_cancelledTerminal _) (.of_kind fun h => by cases h)
        · exact .refl s
      · exact .refl s
    · exact .refl s

theorem frame_cancelOwned {control : Dict} {grant : Str → Except Str Bool} :
    Frame s (s.cancelOwned cfg c control grant).1 := by
  unfold State.cancelOwned
  split
  · exact .refl s
  · exact frame_cancelOne

theorem frame_cancelEach {hard : Bool} {grant : Str → Except Str Bool} (rs : List Nat) :
    ∀ (s : State) (found : List Decision), Frame s (State.cancelEach cfg hard grant s rs found).1 := by
  induction rs with
  | nil => exact fun s _ => .refl s
  | cons r rs ih =>
    intro s found
    have hone : Frame s (s.cancelOne cfg r hard grant "group_cancelled" "group_terminated").1 :=
      frame_cancelOne
    unfold State.cancelEach
    split
    · rename_i x text heq
      rw [heq] at hone
      exact hone
    · rename_i x decision heq
      rw [heq] at hone
      exact hone.trans (ih x _)

theorem frame_cancelMembers {control : Dict} {grant : Str → Except Str Bool} :
    Frame s (s.cancelMembers cfg c control grant).1 := by
  unfold State.cancelMembers
  split
  · split
    · exact .refl s
    · exact frame_cancelEach _ s []
  · exact .refl s

theorem frame_acknowledge {control : Dict} : Frame s (s.acknowledge c control) := by
  unfold State.acknowledge
  split
  · exact .refl s
  · exact frame_removeTerminal

theorem frame_leaveSession : Frame s (s.leaveSession cfg c) := by
  unfold State.leaveSession
  split
  · exact .refl s
  · split
    · exact .refl s
    · split
      · exact .refl s
      · split
        · exact frame_purgeSession
        · exact (Frame.foldl (fun _ _ => frame_disconnectOne) _ s).trans frame_purgeSession

theorem frame_disconnect : Frame s ((s.dropConnection cfg c).leaveSession cfg c) := by
  have hclose : Frame s (s.setConnection c (Connection.close cfg)) := frame_close
  have hdrop : Frame s (s.dropConnection cfg c) := hclose.trans (.of_eq rfl rfl rfl)
  exact hdrop.trans frame_leaveSession

/-! ## Dispatch -/

theorem frame_requeue : Frame s (s.requeue r) := by
  unfold State.requeue
  have hset : Frame s (s.setRecord r fun record => { record with localFuture := none }) :=
    .setRecord fun _ _ => ⟨rfl, .inl, id, id, fun h => ⟨h, rfl⟩⟩
  dsimp only
  split
  · exact hset.trans (.of_eq rfl rfl rfl)
  · split
    · exact hset.trans (.of_eq rfl rfl rfl)
    · exact hset.trans (.of_eq rfl rfl rfl)

theorem frame_stage : Frame s (s.stage r) := by
  have hset : Frame s (s.setRecord r fun record => { record with localFuture := some s.futures.length }) :=
    .setRecord fun _ _ => ⟨rfl, .inl, id, id, fun h => ⟨h, rfl⟩⟩
  exact hset.trans (.of_eq rfl rfl rfl)

theorem frame_dispatch {now : Clock} : Frame s (s.dispatch cfg now) := by
  unfold State.dispatch
  have hexpire : Frame s (s.expireQueued cfg now) := Frame.foldl (fun _ _ => frame_expireOne) _ s
  obtain ⟨x, hx⟩ : ∃ x, x = s.expireQueued cfg now := ⟨_, rfl⟩
  rw [← hx] at hexpire
  dsimp only
  rw [← hx]
  refine hexpire.trans ?_
  split
  · exact .of_eq rfl rfl rfl
  · split
    · exact .refl x
    · split
      · exact .refl x
      · rename_i r scheduler _
        have hpop : Frame x { x with scheduler } := .of_eq rfl rfl rfl
        split
        · exact hpop
        · split
          · exact hpop.trans frame_stage
          · exact hpop

theorem frame_publish {pid : Nat} : Frame s (s.publish cfg r pid) := by
  unfold State.publish
  split
  · exact .refl s
  · rename_i record hr
    have hclaim : Frame s (s.setRecord r fun record => { record with claims := record.claims ++ [pid] }) :=
      .setRecord fun _ _ => ⟨rfl, .inl, id, id, fun h => ⟨h, rfl⟩⟩
    have hrecord : (s.setRecord r fun record => { record with claims := record.claims ++ [pid] }).records[r]? =
        some { record with claims := record.claims ++ [pid] } := getElem?_modify_self hr
    have hsend : ∀ x : State, x.records[r]? = some { record with claims := record.claims ++ [pid] } →
        Frame x (x.send cfg record.connection (some r)
          (runningMessage record.requestId (some pid) (.str (lit "worker:" ++ natText pid)))) :=
      fun x hx => frame_send fun _ _ =>
        @vouches_running x r { record with claims := record.claims ++ [pid] } (some pid) _ hx
    dsimp only
    split
    · exact hclaim.trans (hsend _ hrecord)
    · rename_i f _
      have hpid : Frame _ (State.setFuture (s.setRecord r fun record =>
          { record with claims := record.claims ++ [pid] }) f fun fut => { fut with pid := some pid }) :=
        hclaim.trans (.of_eq rfl rfl rfl)
      exact hpid.trans (hsend _ hrecord)

theorem frame_claimDispatch {pid : Nat} {now : Clock} : Frame s (s.claimDispatch cfg r pid now) := by
  unfold State.claimDispatch
  split
  · exact .refl s
  · rename_i record hr
    split
    · rename_i hqueued
      split
      · have hterminal : Frame s (s.terminalLocked cfg r queueTimeout) := by
          refine frame_terminalLocked proper_queueTimeout fun _ record' hr' => ?_
          rw [hr] at hr'
          cases hr'
          exact hqueued
        exact hterminal.trans frame_cancelLocal
      · have hstart : Frame s (s.setRecord r (Request.start now)) :=
          .setRecord fun record' hr' => ⟨rfl, .inl, (fun h => by cases h), id, fun h => by
            rw [hr] at hr'
            cases hr'
            rw [hqueued] at h
            cases h⟩
        exact hstart.trans frame_publish
    · exact frame_publish
    · exact .refl s

theorem frame_poolDone {f : Nat} : Frame s (s.poolDone cfg f) := by
  unfold State.poolDone
  split
  · exact .refl s
  · split
    · exact .refl s
    · exact frame_completeLocal


/-- `_send_record` -/
theorem frame_sendRecord : Frame s (s.sendRecord cfg r) := by
  unfold State.sendRecord
  split
  · exact .refl s
  · rename_i record hr
    split
    · exact frame_send fun _ _ => vouches_accepted hr
    · exact frame_send fun _ _ => vouches_running hr
    · rename_i hqueued hrunning
      have hterm : record.state.terminal = true := by
        cases hstate : record.state with
        | acceptedQueued => exact absurd hstate hqueued
        | running => exact absurd hstate hrunning
        | _ => rfl
      split
      · exact .refl s
      · rename_i kind hkind
        exact frame_send fun _ hclean => vouches_terminal hr hterm hkind hclean

/-- One locked turn of the loop of `_finish_shutdown`. -/
theorem frame_shutdownTurn {now : Clock} : Frame s (s.shutdownTurn cfg now) := by
  unfold State.shutdownTurn
  split
  · obtain ⟨x, hx⟩ : ∃ x, x = (if s.shutdownCancelFutures then
        s.requests.values.foldl (State.sweepQueued cfg "server_shutdown") s else s) := ⟨_, rfl⟩
    have hsweep : Frame s x := by
      rw [hx]
      split
      · exact Frame.foldl (fun _ _ => frame_sweepQueued) _ s
      · exact .refl s
    dsimp only
    rw [← hx]
    split
    · exact hsweep
    · split
      · have hactive : Frame x (x.requests.values.foldl (State.sweepActive cfg) x) :=
          Frame.foldl (fun _ _ => frame_sweepActive) _ x
        exact (hsweep.trans hactive).trans (.of_eq rfl rfl rfl)
      · exact hsweep
  · exact .of_eq rfl rfl rfl

end Operations

/-! ## What is left of a step -/

/-- What a step does after its critical section, unless it handles a message. -/
inductive Rest (cfg : Config) (a : Action) (x : State) : State → Prop
  | same {s' : State} : s'.connections = x.connections → s'.sessions = x.sessions →
      s'.records = x.records → Rest cfg a x s'
  | reader {c : Nat} {next : Reader} : (∀ m, next = .handling m → a = .receive c m) →
      Rest cfg a x (x.setReader c next)
  | connect {s' : State} {conn : Connection} : conn.log = [] → (∀ m, conn.reader ≠ .handling m) →
      s'.connections = x.connections ++ [conn] → s'.sessions = x.sessions → s'.records = x.records →
      Rest cfg a x s'
  | register {c : Nat} {session : Session} : session.watermark = 0 →
      Rest cfg a x ((x.register c session).setReader c .welcoming)
  | goaway {c : Nat} {m : Message} : m.kind = .goaway → Rest cfg a x (x.send cfg c none m)

/-- The action handles a message. -/
def Action.handles : Action → Bool
  | .handle _ _ _ _ => true
  | _ => false

section Sections

variable {cfg : Config} {s s' : State}

/-- A critical section that says nothing but reports and ordinary answers. -/
structure Section (s x : State) : Prop where
  plain : Plain s x
  frame : Frame s x

theorem Section.of_eq (hstatus : s'.status = s.status) (hrecords : s'.records = s.records)
    (hconnections : s'.connections = s.connections) (hsessions : s'.sessions = s.sessions) :
    Section s s' := ⟨.of_eq hstatus hrecords hconnections, .of_eq hconnections hsessions hrecords⟩

theorem Section.refl (s : State) : Section s s := ⟨.refl s, .refl s⟩

theorem rest_handshake {c : Nat} {hello : Hello} {principal : Option Str} : ∃ x, Section s x ∧
    Rest cfg (.hello c hello principal) x (State.after c (s.handshake cfg c hello principal)) := by
  have hreject : ∀ (reason text : String), ∃ x, Section s x ∧
      Rest cfg (.hello c hello principal) x (State.after c
        (s.send cfg c none ⟨.handshakeRejected, Dict.empty.set (lit "reason") (.str (lit reason)), []⟩,
          raised text)) := by
    intro reason text
    exact ⟨_, ⟨plain_send rfl, frame_sendPlain rfl⟩, .reader fun _ h => by cases h⟩
  unfold State.handshake
  dsimp only
  split
  · exact ⟨s, .refl s, .reader fun _ h => by cases h⟩
  · split
    · exact hreject _ _
    · split
      · exact hreject _ _
      · split
        · exact hreject _ _
        · exact ⟨s, .refl s, .register rfl⟩

theorem rest_connectionStep {a : Action} (ha : a.handles = false)
    (hanswers : ∀ (c : Nat) (conn : Connection) (m : Message), s.connections[c]? = some conn →
      conn.reader = .answering m → m.kind.plain = true ∧ m.kind.reports = false) (hs : connectionStep cfg s a = some s') :
    ∃ x, Section s x ∧ Rest cfg a x s' := by
  cases a with
  | accept =>
    simp only [connectionStep] at hs
    cases hs
    refine ⟨s, .refl s, ?_⟩
    split <;> exact .same rfl rfl rfl
  | prepare ok =>
    simp only [connectionStep] at hs
    split at hs
    · cases hs
    · split at hs
      · split at hs
        · cases hs
          exact ⟨s, .refl s, @Rest.connect cfg _ s _ {} rfl (fun _ h => by cases h) rfl rfl rfl⟩
        · cases hs
          exact ⟨s, .refl s, @Rest.connect cfg _ s _ { Connection.close cfg {} with reader := .gone }
            (@Connection.Quiet.close cfg {}).log (fun _ h => by cases h) rfl rfl rfl⟩
      · cases hs
        exact ⟨s, .refl s, .same rfl rfl rfl⟩
  | hello c hello principal =>
    simp only [connectionStep] at hs
    split at hs
    · cases hs
      exact rest_handshake
    · cases hs
  | welcome c =>
    simp only [connectionStep] at hs
    split at hs
    · cases hs
      exact ⟨_, ⟨plain_send rfl, frame_sendPlain rfl⟩, .reader fun _ h => by cases h⟩
    · cases hs
  | receive c m =>
    simp only [connectionStep] at hs
    split at hs
    · split at hs
      · cases hs
      · cases hs
        exact ⟨s, .refl s, .reader fun m' h => by cases h; rfl⟩
    · cases hs
  | handle => cases ha
  | answer c =>
    simp only [connectionStep] at hs
    split at hs
    · rename_i m hreader
      cases hs
      obtain ⟨conn, hc, hans⟩ := Option.map_eq_some_iff.mp hreader
      obtain ⟨hplain, hquiet⟩ := hanswers c conn m hc hans
      exact ⟨_, ⟨plain_send hplain, frame_sendPlain hquiet⟩, .reader fun _ h => by cases h⟩
    · cases hs
  | endRead c =>
    simp only [connectionStep] at hs
    split at hs
    · cases hs
      exact ⟨s, .refl s, .reader fun _ h => by cases h⟩
    · cases hs
      exact ⟨s, .refl s, .reader fun _ h => by cases h⟩
    · cases hs
  | malformed c text =>
    simp only [connectionStep] at hs
    split at hs
    · cases hs
      exact ⟨s, .refl s, .reader fun _ h => by cases h⟩
    · cases hs
      exact ⟨s, .refl s, .reader fun _ h => by cases h⟩
    · cases hs
  | report c =>
    simp only [connectionStep] at hs
    split at hs
    · rename_i text _
      cases hs
      have hplain : Plain s (s.send cfg c none
          ⟨.protocolError, Dict.empty.set (lit "message") (.str (text.take 1024)), []⟩) := plain_send rfl
      have hframe : Frame s (s.send cfg c none
          ⟨.protocolError, Dict.empty.set (lit "message") (.str (text.take 1024)), []⟩) :=
        frame_sendPlain rfl
      exact ⟨_, ⟨hplain.trans plain_flush, hframe.trans frame_flush⟩, .reader fun _ h => by cases h⟩
    · cases hs
  | disconnect c =>
    simp only [connectionStep] at hs
    split at hs
    · cases hs
      have hclose : Plain s (s.setConnection c (Connection.close cfg)) := plain_close
      have hdrop : Plain s (s.dropConnection cfg c) := hclose.trans (.of_eq rfl rfl rfl)
      exact ⟨(s.dropConnection cfg c).leaveSession cfg c, ⟨hdrop.trans plain_leaveSession, frame_disconnect⟩,
        .reader fun _ h => by cases h⟩
    · cases hs
  | write c result =>
    simp only [connectionStep] at hs
    split at hs
    · split at hs
      · cases hs
        have hquiet : ∀ conn : Connection, conn.Quiet (conn.write cfg result) := by
          intro conn
          unfold Connection.write
          split
          · exact .refl conn
          · exact ⟨rfl, rfl, id, rfl, rfl⟩
          · exact ⟨rfl, rfl, id, rfl, rfl⟩
          · split
            · exact ⟨rfl, rfl, id, rfl, rfl⟩
            · rename_i rest _ _
              have hq := @Connection.Quiet.close cfg { conn with outbound := rest }
              exact ⟨hq.session, hq.log, hq.closed, hq.reader, hq.cleanClose⟩
            · exact ⟨rfl, rfl, id, rfl, rfl⟩
        exact ⟨_, ⟨.setConnection fun conn _ => (hquiet conn).plain, .quiet hquiet⟩, .same rfl rfl rfl⟩
      · cases hs
    · cases hs
  | _ => cases hs

theorem section_dispatcherStep {a : Action} (hs : dispatcherStep cfg s a = some s') : Section s s' := by
  cases a with
  | dispatch now =>
    simp only [dispatcherStep] at hs
    split at hs
    · cases hs
      exact ⟨plain_dispatch, frame_dispatch⟩
    · cases hs
  | submitLocal answer =>
    simp only [dispatcherStep] at hs
    split at hs
    · cases answer <;> cases hs <;> exact .of_eq rfl rfl rfl rfl
    · cases hs
  | requeue =>
    simp only [dispatcherStep] at hs
    split at hs
    · cases hs
      exact ⟨plain_requeue, frame_requeue⟩
    · cases hs
  | completeFailed =>
    simp only [dispatcherStep] at hs
    split at hs
    · cases hs
      have hidle : Section s { s with dispatcher := .idle } := .of_eq rfl rfl rfl rfl
      exact ⟨hidle.plain.trans plain_completeLocal, hidle.frame.trans frame_completeLocal⟩
    · cases hs
  | attach =>
    simp only [dispatcherStep] at hs
    split at hs
    · rename_i r f _
      have hplain : Plain s (s.setRecord r fun record => { record with payload := [] }) :=
        .setRecord fun _ h => ⟨h, rfl, rfl⟩
      have hframe : Frame s (s.setRecord r fun record => { record with payload := [] }) :=
        .setRecord fun _ _ => ⟨rfl, .inl, id, id, fun h => ⟨h, rfl⟩⟩
      split at hs
      · cases hs
      · split at hs
        · cases hs
          exact ⟨hplain.trans (.of_eq rfl rfl rfl), hframe.trans (.of_eq rfl rfl rfl)⟩
        · cases hs
          exact ⟨hplain.trans (.of_eq rfl rfl rfl), hframe.trans (.of_eq rfl rfl rfl)⟩
    · cases hs
  | callAttached =>
    simp only [dispatcherStep] at hs
    split at hs
    · cases hs
      have hidle : Section s { s with dispatcher := .idle } := .of_eq rfl rfl rfl rfl
      exact ⟨hidle.plain.trans plain_poolDone, hidle.frame.trans frame_poolDone⟩
    · cases hs
  | _ => cases hs

theorem rest_poolStep {a : Action} (hs : poolStep cfg s a = some s') :
    ∃ x, Section s x ∧ Rest cfg a x s' := by
  have hall : Section s s' → ∃ x, Section s x ∧ Rest cfg a x s' :=
    fun h => ⟨s', h, .same rfl rfl rfl⟩
  cases a with
  | claim f pid now =>
    simp only [poolStep] at hs
    split at hs
    · split at hs
      · cases hs
        exact hall ⟨plain_claimDispatch, frame_claimDispatch⟩
      · cases hs
    · cases hs
  | finish f outcome =>
    simp only [poolStep] at hs
    split at hs
    · split at hs
      · split at hs
        · cases hs
          exact hall (.of_eq rfl rfl rfl rfl)
        · cases hs
      · cases hs
    · cases hs
  | notify f =>
    simp only [poolStep] at hs
    split at hs
    · split at hs
      · cases hs
        have hset : Section s (s.setFuture f fun fut => { fut with notifying := false }) :=
          .of_eq rfl rfl rfl rfl
        exact hall ⟨hset.plain.trans plain_poolDone, hset.frame.trans frame_poolDone⟩
      · cases hs
    · cases hs
  | shutdown cancelFutures deadline =>
    simp only [poolStep] at hs
    cases hs
    refine ⟨s, .refl s, ?_⟩
    unfold State.shutdown
    split <;> exact .same rfl rfl rfl
  | shutdownTurn now =>
    simp only [poolStep] at hs
    split at hs
    · cases hs
      have hturn : ∃ x, Plain s x ∧ (s.shutdownTurn cfg now).records = x.records ∧
          (s.shutdownTurn cfg now).connections = x.connections := plain_shutdownTurn
      obtain ⟨x, hplain, hrecords, hconnections⟩ := hturn
      have hframe : Frame s (s.shutdownTurn cfg now) := frame_shutdownTurn
      refine ⟨{ s.shutdownTurn cfg now with status := s.status }, ⟨?_, ?_⟩, .same rfl rfl rfl⟩
      · exact hplain.trans (.of_eq hplain.status.symm hrecords hconnections)
      · exact hframe.trans (.of_eq rfl rfl rfl)
    · cases hs
  | flush c =>
    simp only [poolStep] at hs
    split at hs
    · cases hs
      exact hall ⟨plain_flush, frame_flush⟩
    · cases hs
  | goaway c =>
    simp only [poolStep] at hs
    split at hs
    · cases hs
      exact ⟨s, .refl s, .goaway rfl⟩
    · cases hs
  | drop c =>
    simp only [poolStep] at hs
    split at hs
    · cases hs
      exact hall ⟨plain_close, frame_close⟩
    · cases hs
  | stopped =>
    simp only [poolStep] at hs
    split at hs
    · cases hs
      exact ⟨s, .refl s, .same rfl rfl rfl⟩
    · cases hs
  | _ => cases hs

/-- **A step that handles no message** is a section between messages, and then the little that is left:
a reader goes on, a connection or a session is new, or `GOAWAY` is sent. -/
theorem step_rest {l : Label} (ha : l.action.handles = false)
    (hanswers : ∀ (c : Nat) (conn : Connection) (m : Message), s.connections[c]? = some conn →
      conn.reader = .answering m → m.kind.plain = true ∧ m.kind.reports = false) (hs : step cfg s l = some s') :
    ∃ x y, Section s x ∧ Rest cfg l.action x y ∧ Section y s' := by
  obtain ⟨y, hy, rfl⟩ := Option.map_eq_some_iff.mp hs
  have hflips : Section s { s with flips := l.flips } := .of_eq rfl rfl rfl rfl
  have hclean : Section y { y with flips := [] } := .of_eq rfl rfl rfl rfl
  have hrest : ∃ x, Section { s with flips := l.flips } x ∧ Rest cfg l.action x y := by
    rcases Option.or_eq_some_iff.mp hy with hy | ⟨-, hy⟩
    · exact rest_connectionStep ha hanswers hy
    · rcases Option.or_eq_some_iff.mp hy with hy | ⟨-, hy⟩
      · exact ⟨y, section_dispatcherStep hy, .same rfl rfl rfl⟩
      · exact rest_poolStep hy
  obtain ⟨x, hx, hrest⟩ := hrest
  exact ⟨x, y, ⟨hflips.plain.trans hx.plain, hflips.frame.trans hx.frame⟩, hrest, hclean⟩

end Sections

end Deadpool.Remote.Broker
