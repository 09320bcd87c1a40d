import Deadpool.Remote.Broker.Chain

/-!
# The broker: clean closes

`CLOSE_SESSION` sets a flag of the connection when every request of its session has ended, and
`_disconnect` leaves the requests of such a connection alone.  The flag stays set, and a later
submission on the connection is accepted like any other.

Principal results: `disconnect_settles` — as long as no submission is accepted on a connection whose flag
is set, a disconnect leaves no request queued, and none running under `terminate`;
`submit_after_clean_close` — the run that keeps a request queued.
-/

set_option autoImplicit false

namespace Deadpool.Remote.Broker

open Deadpool.Py Deadpool.Lts

/-! ## Submissions that are accepted -/

section Accepts

variable (cfg : Config)

/-- The checks of `_submit` come out in favour of the message. -/
def State.accepts (s : State) (c : Nat) (m : Message) (now : Clock) (grant : Str → Except Str Bool) :
    Bool :=
  match s.connections[c]?.bind Connection.session with
  | none => false
  | some i =>
    match s.sessions[i]? with
    | none => false
    | some session =>
      match m.control.items.get (lit "request_id") with
      | .str requestId =>
        match requestSequence session.clientId requestId with
        | .error _ => false
        | .ok sequence =>
          let digest := (cfg.sha256 m.payload).text
          if isText digest (m.control.items.get (lit "digest")) then
            match session.precheck (fun r => s.records[r]?.map Request.digest) requestId digest
              sequence with
            | .fresh =>
              match State.admission cfg (s.setSession i fun session =>
                { session with watermark := sequence }) c i session requestId m now grant with
              | .accept _ => true
              | _ => false
            | _ => false
          else false
      | _ => false

/-- No submission is accepted on a connection that was closed cleanly. -/
def closesLast (s : State) (l : Label) : Bool :=
  match l.action with
  | .handle c now grant _ =>
    match s.connections[c]? with
    | some conn =>
      match conn.reader with
      | .handling m =>
        !(conn.cleanClose && decide (m.message.kind = .submit) && s.accepts cfg c m.message now grant)
      | _ => true
    | none => true
  | _ => true

variable {cfg} {s : State}

theorem records_send {c : Nat} {record : Option Nat} {m : Message} :
    (s.send cfg c record m).records = s.records := by
  obtain ⟨connections, flips, heq⟩ := send_eq cfg s c record m
  rw [heq]

theorem records_sendRecord {r : Nat} : (s.sendRecord cfg r).records = s.records := by
  unfold State.sendRecord
  split
  · rfl
  · split
    · exact records_send
    · exact records_send
    · split
      · rfl
      · exact records_send

/-- Every other submission leaves the requests as they are. -/
theorem records_submit {c : Nat} {m : Message} {now : Clock} {grant : Str → Except Str Bool}
    (h : s.accepts cfg c m now grant = false) :
    (s.submit cfg c m now grant).1.records = s.records := by
  unfold State.accepts at h
  unfold State.submit
  split
  · rfl
  · rename_i i hi
    rw [hi] at h
    dsimp only at h
    split
    · rfl
    · rename_i session hs
      rw [hs] at h
      dsimp only at h
      split
      · rename_i requestId hid
        rw [hid] at h
        dsimp only at h
        split
        · rfl
        · rename_i sequence hseq
          rw [hseq] at h
          dsimp only at h ⊢
          split
          · rename_i hdigest
            rw [if_pos hdigest] at h
            split
            · exact records_sendRecord
            · rfl
            · exact records_send
            · rename_i hfresh
              rw [hfresh] at h
              dsimp only at h
              unfold State.submitFresh
              split
              · exact records_send
              · rfl
              · rename_i record haccept
                rw [haccept] at h
                cases h
          · rfl
      · rfl

end Accepts

/-! ## Connections that were closed cleanly -/

/-- The requests of the session of a cleanly closed connection have ended. -/
def State.Settled (s : State) : Prop :=
  ∀ (c : Nat) (conn : Connection) (i : Nat), s.connections[c]? = some conn → conn.cleanClose = true →
    conn.session = some i → ∀ (r : Nat) (record : Request), s.records[r]? = some record →
    record.session = i → record.state.terminal = true

section Changes

variable {cfg : Config} {scope : Scope} {s s' : State}

/-- A connection is closed cleanly before a change, or the change leaves the requests and those of its
session have ended. -/
theorem Micro.cleanlyClosed (hwf : s.WF) (hm : Micro cfg scope s s') {c i : Nat} {conn' : Connection}
    (hc : s'.connections[c]? = some conn') (hclean : conn'.cleanClose = true)
    (hi : conn'.session = some i) :
    (∃ conn : Connection, s.connections[c]? = some conn ∧ conn.cleanClose = true ∧
        conn.session = some i) ∨
      s'.records = s.records ∧ ∀ (r : Nat) (record : Request), s.records[r]? = some record →
        record.session = i → record.state.terminal = true := by
  -- an assignment to one connection
  have hset : ∀ {c' : Nat} {f : Connection → Connection},
      s'.connections = s.connections.modify c' f →
      (∀ conn : Connection, s.connections[c']? = some conn →
        (f conn).cleanClose = conn.cleanClose ∧ (f conn).session = conn.session) →
      ∃ conn : Connection, s.connections[c]? = some conn ∧ conn.cleanClose = true ∧
        conn.session = some i := by
    intro c' f heq hf
    rw [heq] at hc
    obtain ⟨conn, hconn, rfl⟩ := getElem?_modify_some hc
    refine ⟨conn, hconn, ?_⟩
    split at hclean
    · rename_i he
      subst he
      rw [if_pos rfl] at hi
      exact ⟨(hf conn hconn).1 ▸ hclean, (hf conn hconn).2 ▸ hi⟩
    · rename_i hne
      rw [if_neg hne] at hi
      exact ⟨hclean, hi⟩
  have hsame : s'.connections = s.connections → ∃ conn : Connection, s.connections[c]? = some conn ∧
      conn.cleanClose = true ∧ conn.session = some i := by
    intro heq
    rw [heq] at hc
    exact ⟨conn', hc, hclean, hi⟩
  cases hm with
  | connect hsession =>
    rcases getElem?_append_some hc with hold | ⟨-, rfl⟩
    · exact .inl ⟨conn', hold, hclean, hi⟩
    · rw [hsession] at hi
      cases hi
  | connection hf => exact .inl (hset rfl fun conn _ => ⟨(hf conn).cleanClose, (hf conn).session⟩)
  | @cleanClose c' i' session hconnected hs hended =>
    by_cases he : c' = c
    · subst he
      obtain ⟨conn, hconn, hci⟩ := Option.bind_eq_some_iff.mp hconnected
      have hc'' : (s.connections.modify c' fun conn => { conn with cleanClose := true })[c']? =
          some conn' := hc
      rw [getElem?_modify_self hconn] at hc''
      cases hc''
      rw [hci] at hi
      cases hi
      refine .inr ⟨rfl, fun r record hr hsession => ?_⟩
      by_contra halive
      rw [Bool.not_eq_true] at halive
      obtain ⟨session', hs', hmem⟩ := hwf.listed r record hr (hwf.reserved r record hr halive)
      rw [hsession, hs] at hs'
      cases hs'
      rw [hended r (List.mem_map_of_mem hmem) record hr] at halive
      cases halive
    · have hc'' : (s.connections.modify c' fun conn => { conn with cleanClose := true })[c]? =
          some conn' := hc
      rw [getElem?_modify_of_ne he] at hc''
      exact .inl ⟨conn', hc'', hclean, hi⟩
  | reader => exact .inl (hset rfl fun _ _ => ⟨rfl, rfl⟩)
  | gone => exact .inl (hset rfl fun _ _ => ⟨rfl, rfl⟩)
  | say => exact .inl (hset rfl fun _ _ => ⟨rfl, rfl⟩)
  | @accept c' _ conn _ _ _ f _ _ _ hconn hf =>
    refine .inl (hset (show (s.connections.modify c' f) = _ from rfl) fun conn'' hconn'' => ?_)
    rw [hconn] at hconn''
    cases hconn''
    rcases hf with ⟨hquiet, -⟩ | ⟨-, heq⟩
    · exact ⟨hquiet.cleanClose, hquiet.session⟩
    · rw [heq]
      exact ⟨rfl, rfl⟩
  | requeue => exact .inl (hsame (connections_requeue _))
  | unregister => exact .inl (hsame (connections_unregister _))
  | @register c' conn session hconn =>
    have hcombined : ((s.register c' session).setReader c' .welcoming).connections =
        s.connections.modify c' fun conn =>
          { conn with session := some s.sessions.length, reader := .welcoming } :=
      List.modify_modify_eq _ _ _ _
    by_cases he : c' = c
    · subst he
      rw [hcombined, getElem?_modify_self hconn] at hc
      cases hc
      cases hi
      refine .inr ⟨rfl, fun r record hr hsession => ?_⟩
      obtain ⟨session', hs', -⟩ := hwf.owner r record hr
      have := lt_of_getElem? hs'
      rw [hsession] at this
      exact absurd this (Nat.lt_irrefl _)
    · rw [hcombined, getElem?_modify_of_ne he] at hc
      exact .inl ⟨conn', hc, hclean, hi⟩
  | work hw => exact .inl (hsame (by cases hw <;> rfl))
  | flags | sockets | watermark | start | claim | emptied | stage | finish | finishStaged | retire =>
    exact .inl (hsame rfl)

theorem State.Settled.micro (h : s.Settled) (hwf : s.WF) (hm : Micro cfg scope s s')
    (hnew : ∀ (r : Nat) (record : Request), s'.records[r]? = some record → s.Enters cfg scope r record →
      ∀ (c : Nat) (conn : Connection), s.connections[c]? = some conn →
        conn.session = some record.session → conn.cleanClose = false) : s'.Settled := by
  intro c conn' i hc hclean hi r record' hr hsession
  rcases hm.cleanlyClosed hwf hc hclean hi with ⟨conn, hconn, hclosed, hci⟩ | ⟨hrecords, hended⟩
  · rcases hm.requests.back r record' hr with ⟨record, hrec, hchange⟩ | henters
    · have he := hchange.evolves
      exact he.terminal (h c conn i hconn hclosed hci r record hrec (he.session ▸ hsession))
    · have hopen := hnew r record' hr henters c conn hconn (by rw [hsession]; exact hci)
      rw [hclosed] at hopen
      cases hopen
  · rw [hrecords] at hr
    exact hended r record' hr hsession

/-- Nothing is accepted. -/
theorem State.Settled.micros_of_length (h : s.Settled) (hinv : s.Inv cfg) (hm : Micros cfg scope s s')
    (hlen : s'.records.length = s.records.length) : s'.Settled := by
  induction hm with
  | refl => exact h
  | @tail u v hprev hstep ih =>
    have hfirst := Micros.length_le hprev
    have hlast := Micros.length_le (.single hstep)
    refine (ih (by omega)).micro (hinv.micros hprev).wf hstep fun r record hr henters => ?_
    have := lt_of_getElem? hr
    rw [henters.1] at this
    omega

/-- What is accepted belongs to sessions of connections that were not closed cleanly. -/
def openScope : Scope :=
  { Scope.all with
    accepts := fun s i _ => ∀ (c : Nat) (conn : Connection), s.connections[c]? = some conn →
      conn.session = some i → conn.cleanClose = false }

theorem State.Settled.micros (h : s.Settled) (hinv : s.Inv cfg) (hm : Micros cfg openScope s s') :
    s'.Settled := by
  induction hm with
  | refl => exact h
  | tail hprev hstep ih =>
    refine ih.micro (hinv.micros hprev).wf hstep fun r record _ henters c conn hc hi => ?_
    obtain ⟨-, c', i, session, sequence, hadmits, -, haccepts⟩ := henters
    obtain ⟨m, now, registered, priority, executionTimeout, queueTimeout, hrecord⟩ := hadmits.fresh
    have hsession : record.session = i := by
      rw [hrecord]
      rfl
    exact haccepts c conn hc (hsession ▸ hi)

/-- A submission that is refused on a cleanly closed connection. -/
theorem records_refused {l : Label} {c : Nat} {now : Clock} {grant : Str → Except Str Bool}
    {statistics : Option Dict} {conn : Connection} {m : Inbound}
    (hl : l.action = .handle c now grant statistics) (hc : s.connections[c]? = some conn)
    (hreader : conn.reader = .handling m) (hkind : m.message.kind = .submit)
    (hrefused : s.accepts cfg c m.message now grant = false) (hs : step cfg s l = some s') :
    s'.records = s.records := by
  unfold step at hs
  obtain ⟨x, hx, rfl⟩ := Option.map_eq_some_iff.mp hs
  have hwith : State.withReader { s with flips := l.flips } c = some (.handling m) := by
    unfold State.withReader
    rw [hc]
    exact congrArg some hreader
  have hhandle : connectionStep cfg { s with flips := l.flips } (.handle c now grant statistics) =
      some (State.after c (State.submit cfg { s with flips := l.flips } c m.message now grant)) := by
    simp only [connectionStep, hwith, State.handleMessage, hkind]
  rw [hl, hhandle, Option.some_or] at hx
  cases hx
  exact records_submit hrefused

/-- **One step** in which nothing is accepted on a cleanly closed connection. -/
theorem State.Settled.step {l : Label} (h : s.Settled) (hinv : s.Inv cfg)
    (hcond : closesLast cfg s l = true) (hs : step cfg s l = some s') : s'.Settled := by
  by_cases hlate : ∃ (c : Nat) (now : Clock) (grant : Str → Except Str Bool)
      (statistics : Option Dict) (conn : Connection) (m : Inbound),
      l.action = .handle c now grant statistics ∧ s.connections[c]? = some conn ∧
      conn.reader = .handling m ∧ m.message.kind = .submit ∧ conn.cleanClose = true
  · obtain ⟨c, now, grant, statistics, conn, m, hl, hc, hreader, hkind, hclean⟩ := hlate
    have hrefused : s.accepts cfg c m.message now grant = false := by
      unfold closesLast at hcond
      rw [hl] at hcond
      dsimp only at hcond
      rw [hc] at hcond
      dsimp only at hcond
      rw [hreader] at hcond
      dsimp only at hcond
      rw [hclean, hkind, decide_eq_true rfl, Bool.true_and, Bool.true_and] at hcond
      exact Bool.not_eq_true' _ ▸ hcond
    have hrecords := records_refused hl hc hreader hkind hrefused hs
    exact h.micros_of_length hinv (step_micros hinv (Scope.allows_all s l.action) hs)
      (congrArg List.length hrecords)
  · have hallows : openScope.Allows s l.action := by
      refine .of_submits (fun _ => trivial) (fun _ => trivial) (fun _ => trivial) (fun _ => trivial)
        (fun _ _ _ => trivial) trivial (fun _ => trivial) ?_
      intro c now grant statistics hl m hreader hkind i requestId hi _ flips c' conn' hc' hi'
      obtain ⟨conn, hc, hci⟩ := Option.bind_eq_some_iff.mp hi
      obtain ⟨session, hsession, hown⟩ := hinv.wf.link c conn i hc hci
      obtain ⟨session', hsession', hown'⟩ := hinv.wf.link c' conn' i hc' hi'
      rw [hsession] at hsession'
      cases hsession'
      have he : c' = c := hown'.symm.trans hown
      subst he
      have heq : conn = conn' := Option.some.inj (hc.symm.trans hc')
      subst heq
      have hhandling : conn.reader = .handling m := by
        unfold State.withReader at hreader
        rw [hc] at hreader
        exact Option.some.inj hreader
      rw [← Bool.not_eq_true]
      intro hclean
      exact hlate ⟨c', now, grant, statistics, conn, m, hl, hc, hhandling, hkind, hclean⟩
    exact h.micros hinv (step_micros hinv hallows hs)

/-! ## The disconnect -/

/-- What a disconnect leaves of a request. -/
def Request.Left (cfg : Config) (record : Request) : Prop :=
  record.state ≠ .acceptedQueued ∧ (cfg.policy = .terminate → record.state ≠ .running)

theorem Request.Left.of_terminal {record : Request} (h : record.state.terminal = true) :
    record.Left cfg := by
  constructor
  · intro hstate
    rw [hstate] at h
    cases h
  · intro _ hstate
    rw [hstate] at h
    cases h

theorem Request.Left.evolves {record record' : Request} (h : record.Left cfg)
    (he : record.Evolves record') : record'.Left cfg := by
  refine ⟨fun hstate => h.1 (he.queued hstate), fun hpolicy hstate => ?_⟩
  have halive := he.alive (congrArg RequestState.terminal hstate)
  cases hs : record.state with
  | acceptedQueued => exact h.1 hs
  | running => exact h.2 hpolicy hs
  | _ =>
    rw [hs] at halive
    cases halive

/-- A scope in which nothing is accepted. -/
def refusing : Scope := { Scope.all with accepts := fun _ _ _ => False }

theorem Micros.back (hm : Micros cfg refusing s s') {r : Nat} {record' : Request}
    (hr : s'.records[r]? = some record') :
    ∃ record : Request, s.records[r]? = some record ∧ record.Evolves record' := by
  induction hm generalizing record' with
  | refl => exact ⟨record', hr, .refl record'⟩
  | tail hprev hstep ih =>
    rcases hstep.requests.back r record' hr with ⟨record, hrec, hchange⟩ | henters
    · obtain ⟨record₀, hr₀, he⟩ := ih hrec
      exact ⟨record₀, hr₀, he.trans hchange.evolves⟩
    · obtain ⟨-, -, -, -, -, -, -, ⟨⟩⟩ := henters

/-- One request of `_disconnect`. -/
theorem disconnectOne_left (hinv : s.Inv cfg) {r : Nat} {record : Request}
    (hr : s.records[r]? = some record) :
    Locked cfg refusing s (s.disconnectOne cfg r) ∧
      ∃ record' : Request, (s.disconnectOne cfg r).records[r]? = some record' ∧ record'.Left cfg := by
  have hlocked : Locked cfg refusing s (s.disconnectOne cfg r) :=
    locked_disconnectOne hinv hr trivial fun _ => trivial
  refine ⟨hlocked, ?_⟩
  obtain ⟨record', hr', he⟩ := hlocked.micros.evolves r record hr
  refine ⟨record', hr', ?_⟩
  have hended : ∀ (t : Terminal) (x : State), x.records[r]? = some (Request.finish t record) →
      t.state.terminal = true → Locked cfg refusing x (s.disconnectOne cfg r) → record'.Left cfg := by
    intro t x hx ht hafter
    obtain ⟨record'', hr'', he''⟩ := hafter.micros.evolves r _ hx
    rw [hr'] at hr''
    cases hr''
    exact .of_terminal (he''.terminal ht)
  cases hstate : record.state with
  | acceptedQueued =>
    have halive : record.state.terminal = false := congrArg RequestState.terminal hstate
    have hfinish : Locked cfg refusing s _ :=
      locked_finish hinv hr halive trivial trivial (t := cancelledTerminal "disconnected")
        ⟨⟨rfl, rfl⟩, .empty⟩
    have hx := terminalLocked_record (s := { s with scheduler := s.scheduler.remove r }) cfg
      (cancelledTerminal "disconnected") hr halive
    refine hended _ _ hx rfl ?_
    have heq : s.disconnectOne cfg r = s.endQueued cfg r (cancelledTerminal "disconnected") := by
      unfold State.disconnectOne
      rw [hr]
      dsimp only
      rw [hstate]
    rw [heq]
    exact locked_cancelLocal (hfinish.inv hinv) hx rfl trivial
  | running =>
    refine ⟨fun h => ?_, fun hpolicy => ?_⟩
    · have := he.queued h
      rw [hstate] at this
      cases this
    · have halive : record.state.terminal = false := congrArg RequestState.terminal hstate
      have hlocal : record.localFuture.isSome = true := by
        obtain ⟨f, fut, hf, -⟩ := hinv.placed.running hr hstate
        rw [hf]
        rfl
      have hfinish : Locked cfg refusing s _ := locked_finishStaged hinv hr halive trivial trivial
        (t := cancelledTerminal "disconnected_terminate") ⟨⟨rfl, rfl⟩, .empty⟩ hlocal
      have hx := terminalLocked_record cfg (cancelledTerminal "disconnected_terminate") hr halive
      refine (hended _ _ hx rfl ?_).2 hpolicy
      have heq : s.disconnectOne cfg r =
          s.endRunning cfg r (cancelledTerminal "disconnected_terminate") := by
        unfold State.disconnectOne
        rw [hr]
        dsimp only
        rw [hstate]
        dsimp only
        rw [if_pos ⟨hpolicy, hlocal⟩]
      rw [heq]
      exact locked_killLocal (hfinish.inv hinv) hx rfl trivial
  | _ => exact Request.Left.evolves (.of_terminal (by rw [hstate]; rfl)) he

/-- The loop of `_disconnect`. -/
theorem disconnectAll_left (rs : List Nat) : ∀ {s : State}, s.Inv cfg →
    (∀ r ∈ rs, ∃ record : Request, s.records[r]? = some record) →
    Locked cfg refusing s (rs.foldl (State.disconnectOne cfg) s) ∧
      ∀ r ∈ rs, ∀ record : Request,
        (rs.foldl (State.disconnectOne cfg) s).records[r]? = some record → record.Left cfg := by
  induction rs with
  | nil => exact fun _ _ => ⟨.refl, fun _ hr => nomatch hr⟩
  | cons r rs ih =>
    intro s hinv hrs
    obtain ⟨record, hr⟩ := hrs r List.mem_cons_self
    obtain ⟨hone, record₁, hr₁, hleft⟩ := disconnectOne_left hinv hr
    obtain ⟨hrest, hall⟩ := ih (hone.inv hinv) fun r' hr' => by
      obtain ⟨record', hrec'⟩ := hrs r' (List.mem_cons_of_mem _ hr')
      obtain ⟨record'', hrec'', -⟩ := hone.micros.evolves r' record' hrec'
      exact ⟨record'', hrec''⟩
    refine ⟨hone.trans hrest, fun r' hr' record' hrec' => ?_⟩
    rcases List.mem_cons.mp hr' with rfl | hr'
    · exact hleft.evolves (hrest.micros.evolves.back hr₁ hrec')
    · exact hall r' hr' record' hrec'

/-- `_disconnect` of a connection, whatever its requests. -/
theorem leaveSession_left (hinv : s.Inv cfg) (hpolicy : cfg.policy ≠ .continue) {c i : Nat}
    {conn : Connection} (hc : s.connections[c]? = some conn) (hi : conn.session = some i)
    (hclosed : conn.closed = true)
    (hsettled : conn.cleanClose = true → ∀ (r : Nat) (record : Request),
      s.records[r]? = some record → record.session = i → record.state.terminal = true)
    {r : Nat} {record : Request} (hr : (s.leaveSession cfg c).records[r]? = some record)
    (hsession : record.session = i) : record.Left cfg := by
  have hserves : refusing.Serves s c := ⟨fun _ _ => trivial, fun _ _ _ _ _ _ => trivial⟩
  have hgone : s.closed c = true := by
    unfold State.closed
    rw [hc]
    exact hclosed
  have hlocked : Locked cfg refusing s (s.leaveSession cfg c) := locked_leaveSession hinv hserves hgone
  obtain ⟨record₀, hr₀, he⟩ := Micros.back hlocked.micros hr
  have hsession₀ : record₀.session = i := he.session.symm.trans hsession
  cases halive : record₀.state.terminal with
  | true => exact Request.Left.evolves (.of_terminal halive) he
  | false =>
    obtain ⟨session, hs, hmem⟩ := hinv.wf.listed r record₀ hr₀ (hinv.wf.reserved r record₀ hr₀ halive)
    rw [hsession₀] at hs
    have hdirty : ¬ (conn.cleanClose = true ∨ cfg.policy = DisconnectPolicy.continue) := by
      rintro (hclean | hcont)
      · rw [hsettled hclean r record₀ hr₀ hsession₀] at halive
        cases halive
      · exact hpolicy hcont
    unfold State.leaveSession at hr
    rw [hc] at hr
    dsimp only at hr
    rw [hi] at hr
    dsimp only at hr
    rw [hs] at hr
    dsimp only at hr
    rw [if_neg hdirty] at hr
    obtain ⟨hfold, hall⟩ := disconnectAll_left session.requests.values hinv fun r' hr' => by
      obtain ⟨record', hrec', -⟩ := listedIn_of_values hinv.wf hs r' hr'
      exact ⟨record', hrec'⟩
    have hpurge : Locked cfg refusing (session.requests.values.foldl (State.disconnectOne cfg) s) _ :=
      locked_purge (i := i) (hfold.inv hinv) trivial
        (hfold.left hinv hs (left_of_closed hinv.wf hc hi hgone))
    obtain ⟨record₁, hr₁, he₁⟩ := Micros.back hpurge.micros hr
    exact (hall r (List.mem_map_of_mem hmem) record₁ hr₁).evolves he₁

/-- A step that is a disconnect. -/
theorem step_disconnect {c : Nat} {flips : List Bool}
    (hs : step cfg s ⟨.disconnect c, flips⟩ = some s') :
    s'.records = ((({ s with flips } : State).dropConnection cfg c).leaveSession cfg c).records := by
  unfold step at hs
  obtain ⟨x, hx, rfl⟩ := Option.map_eq_some_iff.mp hs
  simp only [connectionStep] at hx
  split at hx
  · cases hx
    rfl
  · cases hx

end Changes

/-- **A disconnect settles the session.** Under `cancel_queued` or `terminate`, in every run in which no
submission is accepted on a connection after its clean close: right after `_disconnect` no request of the
session is queued, and under `terminate` none is running; and a cleanly closed connection leaves only
requests that have ended. -/
theorem disconnect_settles (cfg : Config) (hpolicy : cfg.policy ≠ .continue) {s t : State}
    (hs : (broker cfg).Reach (fun s l => closesLast cfg s l = true) s) {c : Nat} {flips : List Bool}
    (hstep : (broker cfg).step s ⟨.disconnect c, flips⟩ = some t) {conn : Connection} {i : Nat}
    (hconn : s.connections[c]? = some conn) (hi : conn.session = some i) :
    (∀ (r : Nat) (record : Request), t.records[r]? = some record → record.session = i →
        record.state ≠ .acceptedQueued ∧ (cfg.policy = .terminate → record.state ≠ .running)) ∧
      (conn.cleanClose = true → ∀ (r : Nat) (record : Request), s.records[r]? = some record →
        record.session = i → record.state.terminal = true) := by
  have hinv := reachable_inv hs
  have hsettled : s.Settled := by
    refine hs.invariant (I := State.Settled) (fun _ _ _ hc => by cases hc)
      fun s l s' hreach h hcond hstep => ?_
    exact h.step (reachable_inv hreach) hcond hstep
  have hclean := hsettled c conn i hconn
  refine ⟨fun r record hr hsession => ?_, fun h => hclean h hi⟩
  rw [step_disconnect hstep] at hr
  have hopen : ({ s with flips } : State).Inv cfg :=
    Locked.inv (show Locked cfg .all s { s with flips } from locked_flips flips) hinv
  have hclose : Locked cfg .all { s with flips }
      (State.setConnection { s with flips } c (Connection.close cfg)) := locked_quiet .close
  have hdrop : Locked cfg .all { s with flips } (State.dropConnection cfg { s with flips } c) :=
    hclose.trans (.single (.sockets trivial (rooms_drop _ c)) rfl)
  have hquiet : conn.Quiet (conn.close cfg) := .close conn
  have hclosed : (State.dropConnection cfg { s with flips } c).connections[c]? =
      some (conn.close cfg) := getElem?_modify_self hconn
  refine leaveSession_left (hdrop.inv hopen) hpolicy hclosed (hquiet.session.trans hi)
    (Connection.closed_close conn) (fun h r record hrec => ?_) hr hsession
  exact hclean (hquiet.cleanClose.symm.trans h) hi r record hrec

/-- A client submits a request and goes away. -/
def submitAndLeave : List Label :=
  openSession 0 (lit "a") ++ deliver 0 (sampleMessage .submit (lit "a:1") encodable_a1) ++
    [⟨.endRead 0, []⟩]

/-- Before the disconnect the request is queued. -/
theorem disconnect_settles_submitAndLeave : ∃ s t,
    (broker (sampleConfig .cancelQueued)).runWhile (closesLast (sampleConfig .cancelQueued)) {}
        submitAndLeave = some s ∧
      (broker (sampleConfig .cancelQueued)).step s ⟨.disconnect 0, []⟩ = some t ∧
      (s.records.map Request.state) = [.acceptedQueued] ∧
      ∀ (r : Nat) (record : Request), t.records[r]? = some record → record.session = 0 →
        record.state ≠ .acceptedQueued := by
  have hrun : (((broker (sampleConfig .cancelQueued)).runWhile
      (closesLast (sampleConfig .cancelQueued)) {} submitAndLeave).map fun s =>
        (s.records.map Request.state, s.connections[0]?.bind Connection.session,
          ((broker (sampleConfig .cancelQueued)).step s ⟨.disconnect 0, []⟩).isSome)) =
      some ([.acceptedQueued], some 0, true) := by decide +kernel
  obtain ⟨s, hrun, hfacts⟩ := Option.map_eq_some_iff.mp hrun
  obtain ⟨hstate, hfacts⟩ := Prod.mk.inj hfacts
  obtain ⟨hsession, hsome⟩ := Prod.mk.inj hfacts
  obtain ⟨conn, hconn, hi⟩ := Option.bind_eq_some_iff.mp hsession
  obtain ⟨t, hstep⟩ := Option.isSome_iff_exists.mp hsome
  have hleft := (disconnect_settles _ (by decide)
    (System.Reach.of_runWhile .init submitAndLeave hrun) hstep hconn hi).1
  exact ⟨s, t, hrun, hstep, hstate, fun r record hr hs => (hleft r record hr hs).1⟩

/-- A client closes its session while it has no request, submits one, and goes away. -/
def submitAfterClose : List Label :=
  openSession 0 (lit "a") ++ deliver 0 (sampleMessage .closeSession (lit "a:0") encodable_a0) ++
    [⟨.answer 0, []⟩] ++ deliver 0 (sampleMessage .submit (lit "a:1") encodable_a1) ++
    [⟨.endRead 0, []⟩]

/-- `clean_close` is still set, `_disconnect` passes the request by, and it stays queued. -/
theorem submit_after_clean_close : ∃ s t,
    (broker (sampleConfig .cancelQueued)).Reachable s ∧
      (broker (sampleConfig .cancelQueued)).step s ⟨.disconnect 0, []⟩ = some t ∧
      (s.connections.map fun conn => (conn.cleanClose, conn.session)) = [(true, some 0)] ∧
      (t.records.map fun record => (record.session, record.state)) = [(0, .acceptedQueued)] := by
  have hrun : (((broker (sampleConfig .cancelQueued)).run {} submitAfterClose).map fun s =>
      (s.connections.map fun conn => (conn.cleanClose, conn.session),
        ((broker (sampleConfig .cancelQueued)).step s ⟨.disconnect 0, []⟩).map fun t =>
          t.records.map fun record => (record.session, record.state))) =
      some ([(true, some 0)], some [(0, .acceptedQueued)]) := by decide +kernel
  obtain ⟨s, hrun, hfacts⟩ := Option.map_eq_some_iff.mp hrun
  obtain ⟨hclean, hafter⟩ := Prod.mk.inj hfacts
  obtain ⟨t, hstep, hqueued⟩ := Option.map_eq_some_iff.mp hafter
  exact ⟨s, t, System.reachable_of_run hrun, hstep, hclean, hqueued⟩

end Deadpool.Remote.Broker
