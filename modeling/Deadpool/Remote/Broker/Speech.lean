import Deadpool.Remote.Broker.Lifecycle
import Deadpool.Remote.Broker.Sequence

/-!
# The broker: what it says, and when

A request that ends is reported on its connection in the same critical section.  `Plain` relates the
states around a section that sends nothing but reports and ordinary answers; every operation of the
broker is one, apart from the last message of a rejected submission, of a cancellation and of the
shutdown.
-/

set_option autoImplicit false

namespace Deadpool.Remote

/-- Messages that are no `GOAWAY`, no rejection and no decision about a cancellation. -/
def MessageType.plain : MessageType → Bool
  | .goaway | .rejected | .cancelResponse => false
  | _ => true

theorem MessageType.plain_of_terminal {kind : MessageType} (h : kind.terminal = true) :
    kind.plain = true := by
  cases kind <;> first | rfl | cases h

namespace Broker

open Deadpool.Py Deadpool.Lts

/-! ## Plain sections -/

/-- The end of a request is among the messages. -/
def Heard (log : List Entry) (r : Nat) (record : Request) : Prop :=
  ∃ entry ∈ log, entry.record = some r ∧ record.terminalKind = some entry.message.kind

/-- Every request that has ended has been reported, if its connection is open. -/
def State.Spoken (s : State) : Prop :=
  ∀ (r : Nat) (record : Request) (conn : Connection), s.records[r]? = some record →
    record.state.terminal = true → s.connections[record.connection]? = some conn →
    conn.closed = false → Heard conn.log r record

/-- A connection says something more, in plain messages. -/
structure Connection.Plain (conn conn' : Connection) : Prop where
  closed : conn.closed = true → conn'.closed = true
  log : ∃ entries, conn'.log = conn.log ++ entries ∧ ∀ entry ∈ entries, entry.message.kind.plain = true
  answering : ∀ m, conn'.reader = .answering m → conn.reader = .answering m

theorem Connection.Plain.refl (conn : Connection) : conn.Plain conn :=
  ⟨id, ⟨[], (List.append_nil _).symm, fun _ h => (by cases h)⟩, fun _ => id⟩

theorem Connection.Plain.trans {a b c : Connection} (h : a.Plain b) (h' : b.Plain c) : a.Plain c := by
  obtain ⟨es, hes, hplain⟩ := h.log
  obtain ⟨es', hes', hplain'⟩ := h'.log
  refine ⟨fun ha => h'.closed (h.closed ha), ⟨es ++ es', ?_, ?_⟩,
    fun m hm => h.answering m (h'.answering m hm)⟩
  · rw [hes', hes, List.append_assoc]
  · intro entry hentry
    rcases List.mem_append.mp hentry with hentry | hentry
    · exact hplain entry hentry
    · exact hplain' entry hentry

theorem Connection.Plain.heard {conn conn' : Connection} (h : conn.Plain conn') {r : Nat}
    {record : Request} (hr : Heard conn.log r record) : Heard conn'.log r record := by
  obtain ⟨es, hes, -⟩ := h.log
  obtain ⟨entry, hentry, hfacts⟩ := hr
  exact ⟨entry, by rw [hes]; exact List.mem_append_left _ hentry, hfacts⟩

/-- A section that speaks plainly. -/
structure Plain (s s' : State) : Prop where
  status : s'.status = s.status
  /-- what has ended had ended before, or is reported on an open connection -/
  ended : ∀ (r : Nat) (record' : Request), s'.records[r]? = some record' →
    record'.state.terminal = true →
    (∃ record : Request, s.records[r]? = some record ∧ record.state.terminal = true ∧
      record'.connection = record.connection ∧ record'.terminalKind = record.terminalKind) ∨
    ∀ conn' : Connection, s'.connections[record'.connection]? = some conn' → conn'.closed = false →
      Heard conn'.log r record'
  connections : ∀ (c : Nat) (conn' : Connection), s'.connections[c]? = some conn' →
    ∃ conn : Connection, s.connections[c]? = some conn ∧ conn.Plain conn'

namespace Plain

variable {s s' s'' : State}

/-- The requests keep what `Spoken` reads of them. -/
theorem ended_of_eq (h : s'.records = s.records) {r : Nat} {record' : Request}
    (hr : s'.records[r]? = some record') (hterm : record'.state.terminal = true) :
    ∃ record : Request, s.records[r]? = some record ∧ record.state.terminal = true ∧
      record'.connection = record.connection ∧ record'.terminalKind = record.terminalKind := by
  rw [h] at hr
  exact ⟨record', hr, hterm, rfl, rfl⟩

theorem of_eq (hstatus : s'.status = s.status) (hrecords : s'.records = s.records)
    (hconnections : s'.connections = s.connections) : Plain s s' := by
  refine ⟨hstatus, fun r record' hr hterm => .inl (ended_of_eq hrecords hr hterm), ?_⟩
  intro c conn' hc
  rw [hconnections] at hc
  exact ⟨conn', hc, .refl conn'⟩

theorem refl (s : State) : Plain s s := of_eq rfl rfl rfl

theorem trans (h : Plain s s') (h' : Plain s' s'') : Plain s s'' := by
  refine ⟨h'.status.trans h.status, ?_, ?_⟩
  · intro r record'' hr'' hterm''
    rcases h'.ended r record'' hr'' hterm'' with ⟨record', hr', hterm', hconn, hkind⟩ | hsaid
    · rcases h.ended r record' hr' hterm' with ⟨record, hr, hterm, hconn', hkind'⟩ | hsaid
      · exact .inl ⟨record, hr, hterm, hconn.trans hconn', hkind.trans hkind'⟩
      · refine .inr fun conn'' hc'' hopen => ?_
        obtain ⟨conn', hc', hplain⟩ := h'.connections _ conn'' hc''
        have hopen' : conn'.closed = false := by
          cases hclosed : conn'.closed with
          | false => rfl
          | true =>
            rw [hplain.closed hclosed] at hopen
            cases hopen
        obtain ⟨entry, hentry, hrecord, hreport⟩ := hplain.heard (hsaid conn' (hconn ▸ hc') hopen')
        exact ⟨entry, hentry, hrecord, hkind.trans hreport⟩
    · exact .inr hsaid
  · intro c conn'' hc''
    obtain ⟨conn', hc', hplain'⟩ := h'.connections c conn'' hc''
    obtain ⟨conn, hc, hplain⟩ := h.connections c conn' hc'
    exact ⟨conn, hc, hplain.trans hplain'⟩

theorem spoken (h : Plain s s') (hs : s.Spoken) : s'.Spoken := by
  intro r record' conn' hr' hterm' hc' hopen'
  rcases h.ended r record' hr' hterm' with ⟨record, hr, hterm, hconn, hkind⟩ | hsaid
  · obtain ⟨conn, hc, hplain⟩ := h.connections _ conn' hc'
    have hopen : conn.closed = false := by
      cases hclosed : conn.closed with
      | false => rfl
      | true =>
        rw [hplain.closed hclosed] at hopen'
        cases hopen'
    obtain ⟨entry, hentry, hrecord, hreport⟩ :=
      hplain.heard (hs r record conn hr hterm (hconn ▸ hc) hopen)
    exact ⟨entry, hentry, hrecord, hkind.trans hreport⟩
  · exact hsaid conn' hc' hopen'

/-- An assignment to a connection. -/
theorem setConnection {c : Nat} {f : Connection → Connection}
    (hf : ∀ conn : Connection, s.connections[c]? = some conn → conn.Plain (f conn)) :
    Plain s (s.setConnection c f) := by
  refine ⟨rfl, fun r record' hr hterm => .inl (ended_of_eq rfl hr hterm), ?_⟩
  intro c' conn' hc'
  obtain ⟨conn, hc, rfl⟩ := getElem?_modify_some hc'
  refine ⟨conn, hc, ?_⟩
  split
  · rename_i he
    subst he
    exact hf conn hc
  · exact .refl conn

/-- An assignment to a request that leaves what `Spoken` reads of it. -/
theorem setRecord {r : Nat} {g : Request → Request}
    (hg : ∀ record : Request, (g record).state.terminal = true →
      record.state.terminal = true ∧ (g record).connection = record.connection ∧
        (g record).terminalKind = record.terminalKind) : Plain s (s.setRecord r g) := by
  refine ⟨rfl, ?_, fun c conn' hc => ⟨conn', hc, .refl conn'⟩⟩
  intro r' record' hr hterm
  obtain ⟨record, hrec, rfl⟩ := getElem?_modify_some hr
  refine .inl ⟨record, hrec, ?_⟩
  split at hterm
  · rename_i he
    subst he
    rw [if_pos rfl]
    exact hg record hterm
  · rename_i hne
    rw [if_neg hne]
    exact ⟨hterm, rfl, rfl⟩

theorem foldl {op : State → Nat → State} (hop : ∀ s r, Plain s (op s r)) (rs : List Nat) :
    ∀ s, Plain s (rs.foldl op s) := by
  induction rs with
  | nil => exact refl
  | cons r rs ih => exact fun s => (hop s r).trans (ih (op s r))

end Plain

/-! ## The operations -/

section Operations

variable {cfg : Config} {s : State} {c r i : Nat}

theorem Connection.Quiet.plain {conn conn' : Connection} (h : conn.Quiet conn') : conn.Plain conn' where
  closed := h.closed
  log := ⟨[], by rw [h.log, List.append_nil], fun _ h => (by cases h)⟩
  answering := fun m hm => by rw [← hm, h.reader]

theorem plain_close : Plain s (s.setConnection c (Connection.close cfg)) :=
  .setConnection fun conn _ => (Connection.Quiet.close conn).plain

theorem plain_poll : Plain s (s.poll cfg c) := by
  unfold State.poll
  split
  · exact .refl s
  · exact .of_eq rfl rfl rfl
  · rename_i rest _
    have hflips : Plain s { s with flips := rest } := .of_eq rfl rfl rfl
    exact hflips.trans plain_close

theorem plain_put {item : OutItem} {entries : List Entry} (conn : Connection)
    (h : ∀ entry ∈ entries, entry.message.kind.plain = true) :
    conn.Plain (conn.put cfg item entries) := by
  unfold Connection.put
  split
  · exact .refl conn
  · split
    · exact ⟨id, ⟨entries, rfl, h⟩, fun _ => id⟩
    · exact (Connection.Quiet.close conn).plain

theorem plain_send {record : Option Nat} {m : Message} (h : m.kind.plain = true) :
    Plain s (s.send cfg c record m) := by
  refine Plain.trans plain_poll (.setConnection fun conn _ => plain_put conn fun entry hentry => ?_)
  rw [List.mem_singleton.mp hentry]
  exact h

theorem plain_flush : Plain s (s.flush cfg c) :=
  plain_poll.trans (.setConnection fun conn _ => plain_put conn fun _ h => (by cases h))

/-- A connection that is open after a message has the message. -/
theorem send_logged {record : Option Nat} {m : Message} {conn' : Connection}
    (hc : (s.send cfg c record m).connections[c]? = some conn') (hopen : conn'.closed = false) :
    ⟨record, m⟩ ∈ conn'.log := by
  obtain ⟨conn, hconn, rfl⟩ := getElem?_modify_some hc
  rw [if_pos rfl] at hopen ⊢
  unfold Connection.put at hopen ⊢
  split
  · rename_i hclosed
    rw [if_pos hclosed, hclosed] at hopen
    cases hopen
  · rename_i hclosed
    rw [if_neg hclosed] at hopen
    split
    · exact List.mem_append_right _ List.mem_cons_self
    · rename_i hroom
      rw [if_neg hroom, Connection.closed_close] at hopen
      cases hopen

/-- `_terminal_locked`: the request ends, and its connection hears of it. -/
theorem plain_terminalLocked {t : Terminal} (ht : t.kind.terminal = true) :
    Plain s (s.terminalLocked cfg r t) := by
  unfold State.terminalLocked
  split
  · exact .refl s
  · rename_i record hr
    split
    · exact .refl s
    · obtain ⟨x, hx⟩ : ∃ x, x = s.setRecord r (Request.finish t) := ⟨_, rfl⟩
      rw [← hx]
      have hsend : Plain x (x.send cfg record.connection (some r) (t.message record.requestId)) :=
        plain_send (MessageType.plain_of_terminal ht)
      have hrecords : (x.send cfg record.connection (some r) (t.message record.requestId)).records =
          x.records := by
        obtain ⟨connections, flips, heq⟩ := send_eq cfg x record.connection (some r)
          (t.message record.requestId)
        rw [heq]
      refine ⟨hsend.status.trans (by rw [hx]; rfl), fun r' record' hr' hterm => ?_, fun c' conn' hc' => ?_⟩
      · rw [hrecords, hx] at hr'
        by_cases he : r = r'
        · subst he
          have hself : (s.records.modify r (Request.finish t))[r]? = some record' := hr'
          rw [getElem?_modify_self hr] at hself
          cases hself
          exact .inr fun conn' hc' hopen => ⟨_, send_logged hc' hopen, rfl, rfl⟩
        · have hother : (s.records.modify r (Request.finish t))[r']? = some record' := hr'
          rw [getElem?_modify_of_ne he] at hother
          exact .inl ⟨record', hother, hterm, rfl, rfl⟩
      · obtain ⟨conn, hc, hplain⟩ := hsend.connections c' conn' hc'
        rw [hx] at hc
        exact ⟨conn, hc, hplain⟩

theorem plain_releaseReservation {record : Request} : Plain s (s.releaseReservation r record) := by
  unfold State.releaseReservation
  split
  · exact .refl s
  · exact (Plain.setRecord (g := fun record => { record with reservationReleased := true })
      fun _ h => ⟨h, rfl, rfl⟩).trans (.of_eq rfl rfl rfl)

theorem plain_removeRequest : Plain s (s.removeRequest r) := by
  unfold State.removeRequest
  split
  · exact .refl s
  · rename_i record _
    split
    · have hrelease : Plain s (s.releaseReservation r record) := plain_releaseReservation
      refine hrelease.trans ?_
      exact (Plain.setRecord (g := fun record => { record with payload := [], terminalPayload := [] })
        fun _ h => ⟨h, rfl, rfl⟩).trans (.of_eq rfl rfl rfl)
    · exact .refl s

theorem plain_removeTerminal : Plain s (s.removeTerminal r) := by
  unfold State.removeTerminal
  split
  · exact .refl s
  · split
    · exact plain_removeRequest
    · exact .refl s

theorem plain_unregister : Plain s (s.unregister i) := by
  unfold State.unregister
  split
  · exact .refl s
  · split
    · exact .of_eq rfl rfl rfl
    · exact .refl s

theorem plain_purgeSession : Plain s (s.purgeSession i) := by
  unfold State.purgeSession
  split
  · exact .refl s
  · exact (Plain.foldl (fun _ _ => plain_removeTerminal) _ s).trans plain_unregister

theorem plain_completed {record : Request} : Plain s (s.completed cfg record) := by
  unfold State.completed
  have hcount : Plain s (if s.staged = 0 then { s with masked := true }
      else { s with staged := s.staged - 1 }) := by
    split <;> exact .of_eq rfl rfl rfl
  obtain ⟨x, hx⟩ : ∃ x, x = if s.staged = 0 then { s with masked := true }
      else { s with staged := s.staged - 1 } := ⟨_, rfl⟩
  dsimp only
  rw [← hx] at hcount ⊢
  have hpoll : Plain s (x.poll cfg record.connection) := hcount.trans plain_poll
  split
  · exact hpoll.trans plain_purgeSession
  · exact hpoll

theorem terminal_kind {limits : RemoteLimits} {requestId : Str} {outcome : Outcome} {t : Terminal}
    (h : outcome.terminal limits requestId = .ok t) : t.kind.terminal = true := by
  have hkind : t.kind = outcome.kind := by
    unfold Outcome.terminal at h
    cases hd : outcome.descriptor limits requestId with
    | error e =>
      rw [hd] at h
      cases h
    | ok d =>
      rw [hd] at h
      cases h
      rfl
  rw [hkind]
  exact outcome.ends.2

theorem plain_completeLocal {outcome : Outcome} : Plain s (s.completeLocal cfg r outcome) := by
  unfold State.completeLocal
  split
  · exact .refl s
  · split
    · exact plain_completed
    · split
      · exact .refl s
      · rename_i t ht
        have hterminal : Plain s (s.terminalLocked cfg r t) := plain_terminalLocked (terminal_kind ht)
        exact hterminal.trans plain_completed

theorem plain_cancelFuture {f : Nat} : Plain s (s.cancelFuture cfg f) := by
  unfold State.cancelFuture
  split
  · exact .refl s
  · split
    · exact .refl s
    · have hset : Plain s (s.setFuture f fun fut => { fut with phase := .done cancelledOutcome }) :=
        .of_eq rfl rfl rfl
      dsimp only
      split
      · exact hset.trans plain_completeLocal
      · exact hset

theorem plain_cancelLocal : Plain s (s.cancelLocal cfg r) := by
  unfold State.cancelLocal
  split
  · exact .refl s
  · split
    · exact .refl s
    · exact plain_cancelFuture

theorem plain_killLocal : Plain s (s.killLocal cfg r) := by
  unfold State.killLocal
  split
  · exact .refl s
  · split
    · exact .refl s
    · rename_i f _
      have hcancel : Plain s (s.cancelFuture cfg f) := plain_cancelFuture
      dsimp only
      split
      · exact hcancel
      · split
        · exact hcancel
        · exact hcancel.trans (.of_eq rfl rfl rfl)

theorem plain_endQueued {t : Terminal} (ht : t.kind.terminal = true) : Plain s (s.endQueued cfg r t) := by
  have hremove : Plain s { s with scheduler := s.scheduler.remove r } := .of_eq rfl rfl rfl
  have hterminal : Plain s (State.terminalLocked cfg { s with scheduler := s.scheduler.remove r } r t) :=
    hremove.trans (plain_terminalLocked ht)
  exact hterminal.trans plain_cancelLocal

theorem plain_endRunning {t : Terminal} (ht : t.kind.terminal = true) :
    Plain s (s.endRunning cfg r t) := by
  have hterminal : Plain s (s.terminalLocked cfg r t) := plain_terminalLocked ht
  exact hterminal.trans plain_killLocal

/-! ## Passes over requests -/

theorem plain_expireOne {now : Clock} : Plain s (State.expireOne cfg now s r) := by
  unfold State.expireOne
  split
  · exact .refl s
  · split
    · exact plain_endQueued rfl
    · exact .refl s

theorem plain_sweepQueued {reason : String} : Plain s (State.sweepQueued cfg reason s r) := by
  unfold State.sweepQueued
  split
  · exact .refl s
  · split
    · exact plain_endQueued rfl
    · exact .refl s

theorem plain_sweepActive : Plain s (State.sweepActive cfg s r) := by
  unfold State.sweepActive
  split
  · exact .refl s
  · split
    · exact plain_endRunning rfl
    · exact plain_sweepQueued

theorem plain_disconnectOne : Plain s (State.disconnectOne cfg s r) := by
  unfold State.disconnectOne
  split
  · exact .refl s
  · split
    · exact plain_endQueued rfl
    · split
      · exact plain_endRunning rfl
      · exact .refl s
    · exact .refl s

theorem plain_cancelOne {hard : Bool} {grant : Str → Except Str Bool} {soft killed : String} :
    Plain s (s.cancelOne cfg r hard grant soft killed).1 := by
  unfold State.cancelOne
  split
  · exact .refl s
  · split
    · exact plain_endQueued rfl
    · split
      · split
        · exact .refl s
        · exact plain_endRunning rfl
        · exact .refl s
      · exact .refl s
    · exact .refl s

theorem plain_cancelOwned {control : Dict} {grant : Str → Except Str Bool} :
    Plain s (s.cancelOwned cfg c control grant).1 := by
  unfold State.cancelOwned
  split
  · exact .refl s
  · exact plain_cancelOne

theorem plain_cancelEach {hard : Bool} {grant : Str → Except Str Bool} (rs : List Nat) :
    ∀ (s : State) (found : List Decision), Plain s (State.cancelEach cfg hard grant s rs found).1 := by
  induction rs with
  | nil => exact fun s _ => .refl s
  | cons r rs ih =>
    intro s found
    have hone : Plain s (s.cancelOne cfg r hard grant "group_cancelled" "group_terminated").1 :=
      plain_cancelOne
    unfold State.cancelEach
    split
    · rename_i x text heq
      rw [heq] at hone
      exact hone
    · rename_i x decision heq
      rw [heq] at hone
      exact hone.trans (ih x _)

theorem plain_cancelMembers {control : Dict} {grant : Str → Except Str Bool} :
    Plain s (s.cancelMembers cfg c control grant).1 := by
  unfold State.cancelMembers
  split
  · split
    · exact .refl s
    · exact plain_cancelEach _ s []
  · exact .refl s

theorem plain_acknowledge {control : Dict} : Plain s (s.acknowledge c control) := by
  unfold State.acknowledge
  split
  · exact .refl s
  · exact plain_removeTerminal

theorem plain_leaveSession : Plain s (s.leaveSession cfg c) := by
  unfold State.leaveSession
  split
  · exact .refl s
  · split
    · exact .refl s
    · split
      · exact .refl s
      · split
        · exact plain_purgeSession
        · exact (Plain.foldl (fun _ _ => plain_disconnectOne) _ s).trans plain_purgeSession

theorem plain_disconnect : Plain s (s.disconnect cfg c) := by
  have hclose : Plain s (s.setConnection c (Connection.close cfg)) := plain_close
  have hdrop : Plain s (s.dropConnection cfg c) := hclose.trans (.of_eq rfl rfl rfl)
  have hleave : Plain s ((s.dropConnection cfg c).leaveSession cfg c) := hdrop.trans plain_leaveSession
  refine hleave.trans (.setConnection fun conn _ => ?_)
  exact ⟨id, ⟨[], (List.append_nil _).symm, fun _ h => (by cases h)⟩, fun _ h => (by cases h)⟩

/-! ## Dispatch -/

theorem plain_requeue : Plain s (s.requeue r) := by
  unfold State.requeue
  have hset : Plain s (s.setRecord r fun record => { record with localFuture := none }) :=
    .setRecord fun _ h => ⟨h, rfl, rfl⟩
  dsimp only
  split
  · exact hset.trans (.of_eq rfl rfl rfl)
  · split
    · exact hset.trans (.of_eq rfl rfl rfl)
    · exact hset.trans (.of_eq rfl rfl rfl)

theorem plain_stage : Plain s (s.stage r) := by
  have hset : Plain s (s.setRecord r fun record => { record with localFuture := some s.futures.length }) :=
    .setRecord fun _ h => ⟨h, rfl, rfl⟩
  exact hset.trans (.of_eq rfl rfl rfl)

theorem plain_dispatch {now : Clock} : Plain s (s.dispatch cfg now) := by
  unfold State.dispatch
  have hexpire : Plain s (s.expireQueued cfg now) := Plain.foldl (fun _ _ => plain_expireOne) _ s
  obtain ⟨x, hx⟩ : ∃ x, x = s.expireQueued cfg now := ⟨_, rfl⟩
  rw [← hx] at hexpire
  dsimp only
  rw [← hx]
  refine hexpire.trans ?_
  split
  · exact .of_eq rfl rfl rfl
  · split
    · exact .refl x
    · split
      · exact .refl x
      · rename_i r scheduler _
        have hpop : Plain x { x with scheduler } := .of_eq rfl rfl rfl
        split
        · exact hpop
        · split
          · exact hpop.trans plain_stage
          · exact hpop

theorem plain_publish {pid : Nat} : Plain s (s.publish cfg r pid) := by
  unfold State.publish
  split
  · exact .refl s
  · rename_i record _
    have hclaim : Plain s (s.setRecord r fun record => { record with claims := record.claims ++ [pid] }) :=
      .setRecord fun _ h => ⟨h, rfl, rfl⟩
    dsimp only
    split
    · exact hclaim.trans (plain_send rfl)
    · rename_i f _
      have hpid : Plain _ (State.setFuture (s.setRecord r fun record =>
          { record with claims := record.claims ++ [pid] }) f fun fut => { fut with pid := some pid }) :=
        hclaim.trans (.of_eq rfl rfl rfl)
      exact hpid.trans (plain_send rfl)

theorem plain_claimDispatch {pid : Nat} {now : Clock} : Plain s (s.claimDispatch cfg r pid now) := by
  unfold State.claimDispatch
  split
  · exact .refl s
  · rename_i record hr
    split
    · split
      · have hterminal : Plain s (s.terminalLocked cfg r queueTimeout) := plain_terminalLocked rfl
        exact hterminal.trans plain_cancelLocal
      · have hstart : Plain s (s.setRecord r (Request.start now)) := .setRecord fun _ h => (by cases h)
        exact hstart.trans plain_publish
    · exact plain_publish
    · exact .refl s

theorem plain_poolDone {f : Nat} : Plain s (s.poolDone cfg f) := by
  unfold State.poolDone
  split
  · exact .refl s
  · split
    · exact .refl s
    · exact plain_completeLocal

/-! ## Messages of a session -/

/-- `_send_record` -/
theorem plain_sendRecord (hkinds : ∀ (r : Nat) (record : Request), s.records[r]? = some record →
    record.state.terminal = true → ∃ kind, record.terminalKind = some kind ∧ kind.terminal = true) :
    Plain s (s.sendRecord cfg r) := by
  unfold State.sendRecord
  split
  · exact .refl s
  · rename_i record hr
    split
    · exact plain_send rfl
    · exact plain_send rfl
    · rename_i hqueued hrunning
      split
      · exact .refl s
      · rename_i kind hkind
        have hterm : record.state.terminal = true := by
          cases hs : record.state with
          | acceptedQueued => exact absurd hs hqueued
          | running => exact absurd hs hrunning
          | _ => rfl
        obtain ⟨kind', hkind', hterminal⟩ := hkinds r record hr hterm
        rw [hkind] at hkind'
        cases hkind'
        exact plain_send (MessageType.plain_of_terminal hterminal)

/-- The assignments of `_submit`. -/
theorem plain_accept {record : Request} (hstate : record.state.terminal = false) :
    Plain s (s.accept record) := by
  refine ⟨rfl, fun r record' hr hterm => ?_, fun c conn' hc => ⟨conn', hc, .refl conn'⟩⟩
  rcases getElem?_append_some hr with hold | ⟨-, rfl⟩
  · exact .inl ⟨record', hold, hterm, rfl, rfl⟩
  · rw [hstate] at hterm
    cases hterm

theorem plain_handshake {hello : Hello} {principal : Option Str} :
    Plain s (s.handshake cfg c hello principal).1 ∧
      ∀ m, (s.handshake cfg c hello principal).2 ≠ .answering m := by
  unfold State.handshake
  dsimp only
  split
  · exact ⟨.refl s, fun _ h => (by cases h)⟩
  · split
    · exact ⟨plain_send rfl, fun _ h => (by cases h)⟩
    · split
      · exact ⟨plain_send rfl, fun _ h => (by cases h)⟩
      · split
        · exact ⟨plain_send rfl, fun _ h => (by cases h)⟩
        · refine ⟨?_, fun _ h => (by cases h)⟩
          have hset : Plain s (s.setConnection c fun conn =>
              { conn with session := some s.sessions.length }) :=
            .setConnection fun conn _ =>
              ⟨id, ⟨[], (List.append_nil _).symm, fun _ h => (by cases h)⟩, fun _ => id⟩
          exact hset.trans (.of_eq rfl rfl rfl)

end Operations

end Broker

end Deadpool.Remote
