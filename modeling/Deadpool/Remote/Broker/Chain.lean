import Deadpool.Remote.Broker.Evolve
import Deadpool.Remote.Broker.Placement

/-!
# The broker: steps are sequences of changes

Every operation of the broker is decomposed into the changes of `Micro`, from the enqueueing of one
message up to the step function.  What holds after every change then holds after every step.

Principal results: `step_micros` — a step of the broker is a sequence of changes within the scope of its
action.  `reachable_inv` — the tables fit together and every request is in its place, in every reachable
state.
-/

set_option autoImplicit false

namespace Deadpool.Remote.Broker

open Deadpool.Py Deadpool.Lts

/-- What holds throughout. -/
structure State.Inv (cfg : Config) (s : State) : Prop where
  wf : s.WF
  placed : s.Placed cfg

theorem State.Inv.init (cfg : Config) : State.Inv cfg {} := ⟨.init, .init⟩

theorem State.Inv.micros {cfg : Config} {scope : Scope} {s s' : State} (h : s.Inv cfg)
    (hm : Micros cfg scope s s') : s'.Inv cfg := by
  induction hm with
  | refl => exact h
  | tail _ hstep ih => exact ⟨ih.wf.micro hstep, ih.placed.micro ih.wf hstep⟩

/-- Where the dispatcher and the shutdown thread stand. -/
def State.threads (s : State) : Dispatcher × Option Float64 := (s.dispatcher, s.shutdownDeadline)

/-- A critical section of another thread. -/
structure Locked (cfg : Config) (scope : Scope) (s s' : State) : Prop where
  micros : Micros cfg scope s s'
  threads : s'.threads = s.threads

namespace Locked

variable {cfg : Config} {scope : Scope} {s s' s'' : State}

theorem refl : Locked cfg scope s s := ⟨.refl, rfl⟩

theorem trans (h : Locked cfg scope s s') (h' : Locked cfg scope s' s'') : Locked cfg scope s s'' :=
  ⟨h.micros.trans h'.micros, h'.threads.trans h.threads⟩

theorem single (hm : Micro cfg scope s s') (ht : s'.threads = s.threads) :
    Locked cfg scope s s' := ⟨.single hm, ht⟩

theorem dispatcher (h : Locked cfg scope s s') : s'.dispatcher = s.dispatcher :=
  congrArg Prod.fst h.threads

theorem shutdownDeadline (h : Locked cfg scope s s') : s'.shutdownDeadline = s.shutdownDeadline :=
  congrArg Prod.snd h.threads

theorem inv (h : Locked cfg scope s s') (hinv : s.Inv cfg) : s'.Inv cfg := hinv.micros h.micros

end Locked

section Operations

variable {cfg : Config} {scope : Scope} {s s' : State}

/-! ## Connections -/

theorem setConnection_congr {c : Nat} {conn : Connection} {f g : Connection → Connection}
    (hc : s.connections[c]? = some conn) (h : f conn = g conn) :
    s.setConnection c f = s.setConnection c g := by
  unfold State.setConnection
  congr 1
  refine List.ext_getElem? fun c' => ?_
  rw [List.getElem?_modify, List.getElem?_modify]
  by_cases he : c = c'
  · subst he
    rw [hc]
    simp [h]
  · simp [he]

theorem setConnection_of_none {c : Nat} {f : Connection → Connection}
    (hc : s.connections[c]? = none) : s.setConnection c f = s := by
  unfold State.setConnection
  rw [List.modify_eq_self (List.getElem?_eq_none_iff.mp hc)]

theorem Connection.Quiet.refl (conn : Connection) : conn.Quiet conn := ⟨rfl, rfl, id, rfl, rfl⟩

theorem Connection.Quiet.close (conn : Connection) : conn.Quiet (conn.close cfg) := by
  unfold Connection.close
  split
  · exact .refl conn
  · exact ⟨rfl, rfl, fun _ => rfl, rfl, rfl⟩

theorem locked_quiet {c : Nat} {f : Connection → Connection}
    (hf : ∀ conn : Connection, conn.Quiet (f conn)) : Locked cfg scope s (s.setConnection c f) :=
  .single (.connection hf) rfl

theorem locked_flips (flips : List Bool) : Locked cfg scope s { s with flips } :=
  .single (.flags .same) rfl

theorem poll_eq (cfg : Config) (s : State) (c : Nat) :
    ∃ connections flips, s.poll cfg c = { s with connections, flips } := by
  unfold State.poll
  split
  · exact ⟨s.connections, s.flips, rfl⟩
  · exact ⟨s.connections, _, rfl⟩
  · exact ⟨_, _, rfl⟩

theorem locked_poll (c : Nat) : Locked cfg scope s (s.poll cfg c) := by
  unfold State.poll
  split
  · exact .refl
  · exact locked_flips _
  · exact (locked_flips _).trans (locked_quiet .close)

/-! ## Messages -/

theorem State.Says.congr {c : Nat} {entry : Entry} (h : s.Says c entry)
    (hrecords : s'.records = s.records) (hsessions : s'.sessions = s.sessions) : s'.Says c entry := by
  cases h with
  | plain h => exact .plain h
  | accepted hr hc hs => exact .accepted (by rw [hrecords]; exact hr) hc hs
  | running hr hc hs => exact .running (by rw [hrecords]; exact hr) hc hs
  | terminal hr hc hs hl hk =>
    refine .terminal (by rw [hrecords]; exact hr) hc hs ?_ hk
    unfold State.Listed
    rw [hsessions]
    exact hl

theorem send_eq (cfg : Config) (s : State) (c : Nat) (record : Option Nat) (m : Message) :
    ∃ connections flips, s.send cfg c record m = { s with connections, flips } := by
  obtain ⟨connections, flips, heq⟩ := poll_eq cfg s c
  unfold State.send
  rw [heq]
  exact ⟨_, _, rfl⟩

theorem locked_send {c : Nat} {record : Option Nat} {m : Message} (h : s.Says c ⟨record, m⟩) :
    Locked cfg scope s (s.send cfg c record m) := by
  refine (locked_poll c).trans ?_
  have hspeech : (s.poll cfg c).Says c ⟨record, m⟩ := by
    obtain ⟨connections, flips, heq⟩ := poll_eq cfg s c
    rw [heq]
    exact h.congr rfl rfl
  unfold State.send
  cases hc : (s.poll cfg c).connections[c]? with
  | none =>
    rw [setConnection_of_none hc]
    exact .refl
  | some conn =>
    by_cases hclosed : conn.closed = true
    · rw [setConnection_congr (g := id) hc (by unfold Connection.put; rw [if_pos hclosed]; rfl)]
      exact locked_quiet .refl
    · by_cases hroom : conn.outbound.length < cfg.limits.outboundQueueSize
      · rw [setConnection_congr (g := fun conn => conn.enqueue ⟨record, m⟩) hc
          (by unfold Connection.put; rw [if_neg hclosed, if_pos hroom]; rfl)]
        exact .single (.say hc (Bool.eq_false_iff.mpr hclosed) hspeech) rfl
      · rw [setConnection_congr (g := Connection.close cfg) hc
          (by unfold Connection.put; rw [if_neg hclosed, if_neg hroom])]
        exact locked_quiet .close

theorem locked_flush (c : Nat) : Locked cfg scope s (s.flush cfg c) := by
  refine (locked_poll c).trans (locked_quiet fun conn => ?_)
  unfold Connection.put
  split
  · exact .refl conn
  · split
    · exact ⟨rfl, List.append_nil _, id, rfl, rfl⟩
    · exact .close conn

/-- `_send_record` of a request in the table of its session. -/
theorem locked_sendRecord {r : Nat} {record : Request} (hr : s.records[r]? = some record)
    (hl : s.Listed r record) : Locked cfg scope s (s.sendRecord cfg r) := by
  unfold State.sendRecord
  rw [hr]
  dsimp only
  split
  · rename_i hstate
    exact locked_send (.accepted hr rfl hstate)
  · rename_i hstate
    exact locked_send (.running hr rfl hstate)
  · rename_i hqueued hrunning
    have hterm : record.state.terminal = true := by
      cases hs : record.state with
      | acceptedQueued => exact absurd hs hqueued
      | running => exact absurd hs hrunning
      | _ => rfl
    split
    · exact .refl
    · rename_i kind hkind
      exact locked_send (.terminal hr rfl hterm hl hkind)

/-! ## Ending a request -/

/-- The terminal message of a request that has just ended. -/
theorem speaks_finished {r : Nat} {record : Request} {t : Terminal} (hl : s.Listed r record)
    (hr : s'.records[r]? = some (Request.finish t record)) (hsessions : s'.sessions = s.sessions)
    (ht : t.state.terminal = true) :
    s'.Says record.connection ⟨some r, t.message record.requestId⟩ := by
  have hl' : s'.Listed r (Request.finish t record) := by
    unfold State.Listed
    rw [hsessions]
    exact hl
  exact .terminal hr rfl ht hl' rfl

theorem terminalLocked_eq {r : Nat} {record : Request} {t : Terminal}
    (hr : s.records[r]? = some record) (halive : record.state.terminal = false) :
    s.terminalLocked cfg r t = (s.setRecord r (Request.finish t)).send cfg record.connection (some r)
      (t.message record.requestId) := by
  unfold State.terminalLocked
  rw [hr]
  dsimp only
  rw [halive]
  rfl

section Ending

variable {r : Nat} {record : Request} {t : Terminal} (hinv : s.Inv cfg)
  (hr : s.records[r]? = some record) (halive : record.state.terminal = false)
  (hsession : scope.session record.session) (hends : scope.ends r) (ht : s.Ends r t)

include hinv hr halive hsession hends ht

/-- A request leaves the scheduler and ends. -/
theorem locked_finish :
    Locked cfg scope s (State.terminalLocked cfg { s with scheduler := s.scheduler.remove r } r t) := by
  rw [terminalLocked_eq (s := { s with scheduler := s.scheduler.remove r }) hr halive]
  refine .trans (.single (.finish hsession hends hr halive ht) rfl) (locked_send ?_)
  have hl := hinv.wf.listed r record hr (hinv.wf.reserved r record hr halive)
  exact speaks_finished hl (getElem?_modify_self hr) rfl ht.state

/-- A staged request ends. -/
theorem locked_finishStaged (hlocal : record.localFuture.isSome = true) :
    Locked cfg scope s (s.terminalLocked cfg r t) := by
  rw [terminalLocked_eq hr halive]
  refine .trans (.single (.finishStaged hsession hends hr halive hlocal ht) rfl) (locked_send ?_)
  have hl := hinv.wf.listed r record hr (hinv.wf.reserved r record hr halive)
  exact speaks_finished hl (getElem?_modify_self hr) rfl ht.state

end Ending

/-! ## Removing requests -/

theorem removeRequest_eq {r : Nat} {record : Request} (hr : s.records[r]? = some record)
    (hreleased : record.reservationReleased = false) (hlive : record.session ∈ s.live) :
    s.removeRequest r = s.retire r record := by
  unfold State.removeRequest
  rw [hr]
  dsimp only
  rw [if_pos hlive]
  unfold State.releaseReservation
  rw [hreleased, if_neg Bool.false_ne_true]
  unfold State.retire State.setRecord State.setSession
  dsimp only
  rw [List.modify_modify_eq, List.modify_modify_eq]
  rfl

/-- The retirement of one request leaves the others in their tables. -/
theorem listed_retire (hwf : s.WF) {r r' : Nat} {record record' : Request}
    (hl : s.Listed r record) (hne : r' ≠ r) (hl' : s.Listed r' record') :
    (s.retire r record).Listed r' record' := by
  obtain ⟨session', hs', hm'⟩ := hl'
  refine ⟨_, getElem?_modify_of_some hs', ?_⟩
  split
  · rename_i he
    obtain ⟨session, hs, hm⟩ := hl
    rw [he, hs'] at hs
    cases hs
    refine Table.mem_pop.mpr ⟨hm', ?_⟩
    intro hid
    change record'.requestId = record.requestId at hid
    rw [hid] at hm'
    have hget := Table.get?_of_mem (hwf.keys _ _ hs') hm
    rw [Table.get?_of_mem (hwf.keys _ _ hs') hm'] at hget
    exact hne (Option.some.inj hget)
  · exact hm'

/-- The requests in the table of a session. -/
def State.ListedIn (s : State) (i r : Nat) : Prop :=
  ∃ record : Request, s.records[r]? = some record ∧ record.session = i ∧ s.Listed r record

/-- `_remove_request_locked` of a request that has ended. -/
theorem locked_removeTerminal (hinv : s.Inv cfg) {i r : Nat} (hl : s.ListedIn i r)
    (hsession : scope.session i) :
    Locked cfg scope s (s.removeTerminal r) ∧
      ∀ r', r' ≠ r → s.ListedIn i r' → (s.removeTerminal r).ListedIn i r' := by
  obtain ⟨record, hr, rfl, hl⟩ := hl
  have hreleased : record.reservationReleased = false := by
    obtain ⟨session, hs, hm⟩ := hl
    obtain ⟨record', hr', -, -, hreleased⟩ := hinv.wf.entry _ _ _ _ hs hm
    rw [hr] at hr'
    cases hr'
    exact hreleased
  unfold State.removeTerminal
  rw [hr]
  dsimp only
  split
  · rename_i hterm
    by_cases hlive : record.session ∈ s.live
    · rw [removeRequest_eq hr hreleased hlive]
      refine ⟨.single (.retire hsession hr hterm hlive hl) rfl, ?_⟩
      rintro r' hne ⟨record', hr', hi, hl'⟩
      exact ⟨record', (getElem?_modify_of_ne (Ne.symm hne)).trans hr', hi,
        listed_retire hinv.wf hl hne hl'⟩
    · have hsame : s.removeRequest r = s := by
        unfold State.removeRequest
        rw [hr]
        dsimp only
        rw [if_neg hlive]
      rw [hsame]
      exact ⟨.refl, fun _ _ hl' => hl'⟩
  · exact ⟨.refl, fun _ _ hl' => hl'⟩

theorem locked_removeAll {i : Nat} (hsession : scope.session i) (rs : List Nat) :
    ∀ {s : State}, s.Inv cfg → rs.Nodup → (∀ r ∈ rs, s.ListedIn i r) →
      Locked cfg scope s (rs.foldl State.removeTerminal s) := by
  induction rs with
  | nil => exact fun _ _ _ => .refl
  | cons r rs ih =>
    intro s hinv hnodup hl
    rw [List.nodup_cons] at hnodup
    obtain ⟨hstep, hrest⟩ := locked_removeTerminal hinv (hl r List.mem_cons_self) hsession
    refine hstep.trans (ih (hstep.inv hinv) hnodup.2 fun r' hr' => ?_)
    refine hrest r' ?_ (hl r' (List.mem_cons_of_mem _ hr'))
    rintro rfl
    exact hnodup.1 hr'

theorem listedIn_of_values (hwf : s.WF) {i : Nat} {session : Session}
    (hs : s.sessions[i]? = some session) : ∀ r ∈ session.requests.values, s.ListedIn i r := by
  intro r hr
  obtain ⟨⟨k, r'⟩, hm, rfl⟩ := List.mem_map.mp hr
  obtain ⟨record, hrec, hid, hi, -⟩ := hwf.entry i session k r' hs hm
  refine ⟨record, hrec, hi, session, ?_, ?_⟩
  · rw [hi]
    exact hs
  · rw [hid]
    exact hm

theorem nodup_values (hwf : s.WF) {i : Nat} {session : Session}
    (hs : s.sessions[i]? = some session) : session.requests.values.Nodup := by
  have hentries : session.requests.Nodup := List.Nodup.of_map Prod.fst (hwf.keys i session hs)
  refine hentries.map_on ?_
  rintro ⟨k, r⟩ hm ⟨k', r'⟩ hm' he
  cases he
  obtain ⟨record, hr, hid, -⟩ := hwf.entry i session k r hs hm
  obtain ⟨record', hr', hid', -⟩ := hwf.entry i session k' r hs hm'
  rw [hr] at hr'
  cases hr'
  rw [← hid, ← hid']

theorem connections_removeTerminal (r : Nat) : (s.removeTerminal r).connections = s.connections := by
  unfold State.removeTerminal State.removeRequest State.releaseReservation
  split
  · rfl
  · split
    · dsimp only
      split
      · split <;> rfl
      · rfl
    · rfl

theorem connections_removeAll (rs : List Nat) :
    ∀ s : State, (rs.foldl State.removeTerminal s).connections = s.connections := by
  induction rs with
  | nil => exact fun _ => rfl
  | cons r rs ih => exact fun s => (ih _).trans (connections_removeTerminal r)

/-- The connection of a session is closed. -/
def State.Left (s : State) (i : Nat) : Prop :=
  ∀ session : Session, s.sessions[i]? = some session → s.closed session.connection = true

/-- `_purge_session_locked` -/
theorem locked_purge (hinv : s.Inv cfg) {i : Nat} (hsession : scope.session i) (hleft : s.Left i) :
    Locked cfg scope s (s.purgeSession i) := by
  unfold State.purgeSession
  cases hs : s.sessions[i]? with
  | none => exact .refl
  | some session =>
    dsimp only
    have hremove : Locked cfg scope s (session.requests.values.foldl State.removeTerminal s) :=
      locked_removeAll hsession _ hinv (nodup_values hinv.wf hs) (listedIn_of_values hinv.wf hs)
    have hconnections := connections_removeAll session.requests.values s
    refine hremove.trans ?_
    have hwf := (hremove.inv hinv).wf
    generalize session.requests.values.foldl State.removeTerminal s = x at hconnections hwf
    cases hx : x.sessions[i]? with
    | none =>
      unfold State.unregister
      rw [hx]
      exact .refl
    | some session' =>
      by_cases hempty : session'.requests = []
      · have hclosed : x.closed session'.connection = true := by
          obtain ⟨conn, hc, hi⟩ := hwf.linked i session' hx
          rw [hconnections] at hc
          obtain ⟨session₀, hs₀, hconn⟩ := hinv.wf.link _ conn i hc hi
          have := hleft session₀ hs₀
          unfold State.closed at this ⊢
          rw [hconnections, ← hconn]
          exact this
        refine .single (.unregister hsession hx hempty hclosed) ?_
        unfold State.unregister
        rw [hx]
        dsimp only
        rw [if_pos hempty]
        rfl
      · unfold State.unregister
        rw [hx]
        dsimp only
        rw [if_neg hempty]
        exact .refl

/-! ## Ends of stagings -/

/-- The end of `_complete_local`. -/
theorem locked_completed {futures : List LocalFuture} {d : Dispatcher} {record : Request}
    (hinv : (s.worked futures d (s.staged - 1)).Inv cfg) (hpos : 0 < s.staged)
    (hsession : scope.session record.session)
    (howner : ∃ session : Session, s.sessions[record.session]? = some session ∧
      session.connection = record.connection) :
    Locked cfg scope (s.worked futures d (s.staged - 1))
      ((s.worked futures d s.staged).completed cfg record) := by
  have hcount : (if s.staged = 0 then { s.worked futures d s.staged with masked := true }
      else { s.worked futures d s.staged with staged := s.staged - 1 }) =
      s.worked futures d (s.staged - 1) := if_neg (by omega)
  unfold State.completed
  change Locked cfg scope _ (
    let x := State.poll cfg (if s.staged = 0 then { s.worked futures d s.staged with masked := true }
      else { s.worked futures d s.staged with staged := s.staged - 1 }) record.connection
    if x.closed record.connection ∧ record.session ∈ x.live then x.purgeSession record.session else x)
  rw [hcount]
  have hpoll : Locked cfg scope (s.worked futures d (s.staged - 1)) _ := locked_poll record.connection
  refine hpoll.trans ?_
  dsimp only
  split
  · rename_i hclosed
    refine locked_purge (hpoll.inv hinv) hsession fun session' hs' => ?_
    obtain ⟨session, hs, hconn⟩ := howner
    have hsame : (State.poll cfg (s.worked futures d (s.staged - 1)) record.connection).sessions =
        s.sessions := by
      obtain ⟨connections, flips, heq⟩ :=
        poll_eq cfg (s.worked futures d (s.staged - 1)) record.connection
      rw [heq]
      rfl
    rw [hsame, hs] at hs'
    cases hs'
    rw [hconn]
    exact hclosed.1
  · exact .refl

theorem terminalLocked_worked {futures : List LocalFuture} {d : Dispatcher} {n : Int} {r : Nat}
    {t : Terminal} : (s.worked futures d n).terminalLocked cfg r t =
      (s.terminalLocked cfg r t).worked futures d n := by
  unfold State.terminalLocked
  cases hr : s.records[r]? with
  | none =>
    rw [show (s.worked futures d n).records[r]? = none from hr]
  | some record =>
    rw [show (s.worked futures d n).records[r]? = some record from hr]
    dsimp only
    split
    · rfl
    · unfold State.send State.poll
      have hflips : ((s.worked futures d n).setRecord r (Request.finish t)).flips =
        (s.setRecord r (Request.finish t)).flips := rfl
      rw [hflips]
      cases (s.setRecord r (Request.finish t)).flips with
      | nil => rfl
      | cons b rest => cases b <;> rfl

/-- `_complete_local` for the end of a staging: the request ends, unless it has already, and then the
end is processed. -/
theorem micros_completeLocal {f : Nat} {fut : LocalFuture} {record : Request}
    {futures : List LocalFuture} {d : Dispatcher} {outcome : Outcome} (hinv : s.Inv cfg)
    (hfut : s.futures[f]? = some fut) (hr : s.records[fut.record]? = some record)
    (hlocal : record.localFuture = some f) (hopen : s.unended f = true)
    (hwork : ∀ x : State, x.futures = s.futures → x.dispatcher = s.dispatcher → x.EndedFor f →
      WorkStep scope x (x.worked futures d (x.staged - 1)))
    (hsession : scope.session record.session) (hends : scope.ends fut.record)
    (hreturned : s.Returned fut.record outcome.payload) :
    Micros cfg scope s ((s.worked futures d s.staged).completeLocal cfg fut.record outcome) := by
  have hpos : 0 < s.staged := hinv.placed.staged_pos (lt_of_getElem? hfut) hopen
  unfold State.completeLocal
  rw [show (s.worked futures d s.staged).records[fut.record]? = some record from hr]
  dsimp only
  by_cases hterm : record.state.terminal = true
  · rw [if_pos hterm]
    have hmicro : Micros cfg scope s (s.worked futures d (s.staged - 1)) :=
      .single (.work (hwork s rfl rfl ⟨fut, record, hfut, hr, hterm⟩))
    obtain ⟨session, hs, hconn, -⟩ := hinv.wf.owner fut.record record hr
    exact hmicro.trans (locked_completed (hinv.micros hmicro) hpos hsession ⟨session, hs, hconn⟩).micros
  · rw [if_neg hterm]
    have halive : record.state.terminal = false := Bool.eq_false_iff.mpr hterm
    obtain ⟨t, ht, hstate, hkind, hpayload⟩ :=
      outcome.terminal_ok cfg.limits (hinv.wf.encodable fut.record record hr)
    rw [ht]
    dsimp only
    rw [terminalLocked_worked]
    have hterminal : s.Ends fut.record t :=
      ⟨⟨hstate ▸ outcome.ends.1, hkind ▸ outcome.ends.2⟩, hpayload ▸ hreturned⟩
    have hfinish : Locked cfg scope s (s.terminalLocked cfg fut.record t) :=
      locked_finishStaged hinv hr halive hsession hends hterminal (by rw [hlocal]; rfl)
    obtain ⟨x, hx⟩ : ∃ x, x = s.terminalLocked cfg fut.record t := ⟨_, rfl⟩
    obtain ⟨hxfutures, hxstaged, hxr⟩ : x.futures = s.futures ∧ x.staged = s.staged ∧
        x.records[fut.record]? = some (Request.finish t record) := by
      rw [hx, terminalLocked_eq hr halive]
      obtain ⟨connections, flips, heq⟩ := send_eq cfg (s.setRecord fut.record (Request.finish t))
        record.connection (some fut.record) (t.message record.requestId)
      rw [heq]
      exact ⟨rfl, rfl, getElem?_modify_self hr⟩
    rw [← hx] at hfinish ⊢
    have hended : x.EndedFor f := ⟨fut, _, by rw [hxfutures]; exact hfut, hxr, hterminal.state⟩
    have hmicro : Micros cfg scope x (x.worked futures d (x.staged - 1)) :=
      .single (.work (hwork x hxfutures hfinish.dispatcher hended))
    rw [← hxstaged] at hpos ⊢
    refine (hfinish.micros.trans hmicro).trans ?_
    obtain ⟨session, hs, hconn, -⟩ := (hfinish.inv hinv).wf.owner fut.record _ hxr
    exact (locked_completed ((hfinish.inv hinv).micros hmicro) hpos hsession ⟨session, hs, hconn⟩).micros

/-- `cancel` of the local future of a request that has ended. -/
theorem locked_cancelFuture (hinv : s.Inv cfg) {f : Nat} {fut : LocalFuture} {record : Request}
    (hfut : s.futures[f]? = some fut) (hr : s.records[fut.record]? = some record)
    (hterm : record.state.terminal = true) (hsession : scope.session record.session) :
    Locked cfg scope s (s.cancelFuture cfg f) := by
  have hended : s.EndedFor f := ⟨fut, record, hfut, hr, hterm⟩
  unfold State.cancelFuture
  rw [hfut]
  dsimp only
  split
  · exact .refl
  · rename_i hphase
    have hpending : fut.pending = true := by
      unfold LocalFuture.pending
      rw [hphase]
    split
    · rename_i hatt
      have hopen : s.unended f = true := by
        rw [State.Placed.unended_of_some hfut, LocalFuture.watched_of_pending hpending, hatt,
          Bool.or_true]
      have hpos : 0 < s.staged := hinv.placed.staged_pos (lt_of_getElem? hfut) hopen
      have hcancel : Locked cfg scope s (s.worked
          (s.futures.modify f fun fut => { fut with phase := .done cancelledOutcome }) s.dispatcher
          (s.staged - 1)) :=
        .single (.work (.cancelled hfut hpending hatt hended)) rfl
      obtain ⟨session, hs, hconn, -⟩ := hinv.wf.owner fut.record record hr
      have hcompleted := locked_completed (hcancel.inv hinv) hpos hsession ⟨session, hs, hconn⟩
      refine hcancel.trans ?_
      unfold State.completeLocal
      have hr' : (s.setFuture f fun fut => { fut with phase := .done cancelledOutcome }).records[fut.record]? =
        some record := hr
      rw [hr']
      dsimp only
      rw [if_pos hterm]
      exact hcompleted
    · rename_i hatt
      exact .single (.work (.cancel hfut hpending (Bool.eq_false_iff.mpr hatt))) rfl

section Ended

variable {r : Nat} {record : Request} (hinv : s.Inv cfg) (hr : s.records[r]? = some record)
  (hterm : record.state.terminal = true) (hsession : scope.session record.session)

include hinv hr hterm hsession

theorem locked_cancelLocal : Locked cfg scope s (s.cancelLocal cfg r) := by
  unfold State.cancelLocal
  rw [hr]
  dsimp only
  split
  · exact .refl
  · rename_i f hf
    obtain ⟨fut, hfut, hrecord⟩ := hinv.wf.localFuture r record f hr hf
    exact locked_cancelFuture hinv hfut (by rw [hrecord]; exact hr) hterm hsession

theorem locked_killLocal : Locked cfg scope s (s.killLocal cfg r) := by
  unfold State.killLocal
  rw [hr]
  dsimp only
  split
  · exact .refl
  · rename_i f hf
    obtain ⟨fut, hfut, hrecord⟩ := hinv.wf.localFuture r record f hr hf
    refine .trans (locked_cancelFuture hinv hfut (by rw [hrecord]; exact hr) hterm hsession) ?_
    split
    · exact .refl
    · split
      · exact .refl
      · exact .single (.flags .same) rfl

end Ended

/-! ## Requests that end -/

theorem terminalLocked_record (cfg : Config) (t : Terminal) {r : Nat} {record : Request}
    (hr : s.records[r]? = some record) (halive : record.state.terminal = false) :
    (s.terminalLocked cfg r t).records[r]? = some (Request.finish t record) := by
  rw [terminalLocked_eq hr halive]
  obtain ⟨connections, flips, heq⟩ := send_eq cfg (s.setRecord r (Request.finish t))
    record.connection (some r) (t.message record.requestId)
  rw [heq]
  exact getElem?_modify_self hr

section Ending

variable {r : Nat} {record : Request} {t : Terminal} (hinv : s.Inv cfg)
  (hr : s.records[r]? = some record) (hsession : scope.session record.session)
  (hends : scope.ends r) (ht : s.Ends r t)

include hinv hr hsession hends ht

theorem locked_endQueued (hstate : record.state = .acceptedQueued) :
    Locked cfg scope s (s.endQueued cfg r t) := by
  have halive : record.state.terminal = false := congrArg RequestState.terminal hstate
  have hfinish : Locked cfg scope s _ := locked_finish hinv hr halive hsession hends ht
  have hr' := terminalLocked_record (s := { s with scheduler := s.scheduler.remove r }) cfg t hr halive
  exact hfinish.trans (locked_cancelLocal (hfinish.inv hinv) hr' ht.state hsession)

/-- A staged request ends and its local future is cancelled. -/
theorem locked_endStaged (halive : record.state.terminal = false)
    (hlocal : record.localFuture.isSome = true) :
    Locked cfg scope s ((s.terminalLocked cfg r t).cancelLocal cfg r) := by
  have hfinish : Locked cfg scope s _ := locked_finishStaged hinv hr halive hsession hends ht hlocal
  exact hfinish.trans (locked_cancelLocal (hfinish.inv hinv) (terminalLocked_record cfg t hr halive) ht.state hsession)

theorem locked_endRunning (hstate : record.state = .running) :
    Locked cfg scope s (s.endRunning cfg r t) := by
  have halive : record.state.terminal = false := congrArg RequestState.terminal hstate
  have hlocal : record.localFuture.isSome = true := by
    obtain ⟨f, fut, hf, -⟩ := hinv.placed.running hr hstate
    rw [hf]
    rfl
  have hfinish : Locked cfg scope s _ := locked_finishStaged hinv hr halive hsession hends ht hlocal
  exact hfinish.trans (locked_killLocal (hfinish.inv hinv) (terminalLocked_record cfg t hr halive) ht.state hsession)

end Ending

section Ended

variable {r : Nat} {record : Request} {t : Terminal} (hinv : s.Inv cfg)
  (hr : s.records[r]? = some record) (ht : s.Ends r t)

include hinv hr ht

/-- What has become of a request that was queued. -/
theorem endQueued_record (hstate : record.state = .acceptedQueued) : ∃ record' : Request,
    (s.endQueued cfg r t).records[r]? = some record' ∧ (Request.finish t record).Evolves record' := by
  have halive : record.state.terminal = false := congrArg RequestState.terminal hstate
  have hfinish : Locked cfg .all s _ := locked_finish hinv hr halive trivial trivial ht
  have hr' := terminalLocked_record (s := { s with scheduler := s.scheduler.remove r }) cfg t hr halive
  have hcancel : Locked cfg .all _ (s.endQueued cfg r t) :=
    locked_cancelLocal (hfinish.inv hinv) hr' ht.state trivial
  exact hcancel.micros.evolves r _ hr'

/-- What has become of a request that was running. -/
theorem endRunning_record (hstate : record.state = .running) : ∃ record' : Request,
    (s.endRunning cfg r t).records[r]? = some record' ∧ (Request.finish t record).Evolves record' := by
  have halive : record.state.terminal = false := congrArg RequestState.terminal hstate
  obtain ⟨f, fut, hf, -⟩ := hinv.placed.running hr hstate
  have hfinish : Locked cfg .all s (s.terminalLocked cfg r t) :=
    locked_finishStaged hinv hr halive trivial trivial ht (by rw [hf]; rfl)
  have hr' := terminalLocked_record cfg t hr halive
  have hkill : Locked cfg .all _ (s.endRunning cfg r t) :=
    locked_killLocal (hfinish.inv hinv) hr' ht.state trivial
  exact hkill.micros.evolves r _ hr'

end Ended

/-- What a pass over requests may do to one of them: it exists, its session is in the scope, and it may
end if it is in a state in which the pass ends it. -/
def State.Passes (scope : Scope) (ended : Request → Prop) (s : State) (r : Nat) : Prop :=
  ∃ record : Request, s.records[r]? = some record ∧ scope.session record.session ∧
    (ended record → scope.ends r)

theorem State.Passes.evolves {ended : Request → Prop} {r : Nat}
    (hended : ∀ record record' : Request, record.Evolves record' → ended record' → ended record)
    (he : s.Evolves s') (h : s.Passes scope ended r) : s'.Passes scope ended r := by
  obtain ⟨record, hr, hsession, hends⟩ := h
  obtain ⟨record', hr', hev⟩ := he r record hr
  refine ⟨record', hr', ?_, fun hend => hends (hended record record' hev hend)⟩
  rw [hev.session]
  exact hsession

/-- A pass over a list of requests. -/
theorem locked_foldl {op : State → Nat → State} {ended : Request → Prop}
    (hended : ∀ record record' : Request, record.Evolves record' → ended record' → ended record)
    (hop : ∀ (s : State) (r : Nat) (record : Request), s.Inv cfg → s.records[r]? = some record →
      scope.session record.session → (ended record → scope.ends r) → Locked cfg scope s (op s r))
    (rs : List Nat) : ∀ {s : State}, s.Inv cfg → (∀ r ∈ rs, s.Passes scope ended r) →
      Locked cfg scope s (rs.foldl op s) := by
  induction rs with
  | nil => exact fun _ _ => .refl
  | cons r rs ih =>
    intro s hinv hrs
    obtain ⟨record, hr, hsession, hends⟩ := hrs r List.mem_cons_self
    have hstep := hop s r record hinv hr hsession hends
    refine hstep.trans (ih (hstep.inv hinv) fun r' hr' => ?_)
    exact (hrs r' (List.mem_cons_of_mem _ hr')).evolves hended hstep.micros.evolves

section Pass

variable {r : Nat} {record : Request} (hinv : s.Inv cfg) (hr : s.records[r]? = some record)
  (hsession : scope.session record.session)

include hinv hr hsession

theorem locked_expireOne {now : Clock}
    (hends : record.state = .acceptedQueued ∧ record.expired now = true → scope.ends r) :
    Locked cfg scope s (State.expireOne cfg now s r) := by
  unfold State.expireOne
  rw [hr]
  dsimp only
  split
  · rename_i hexp
    exact locked_endQueued hinv hr hsession (hends hexp) ⟨⟨rfl, rfl⟩, .empty⟩ hexp.1
  · exact .refl

theorem locked_sweepQueued {reason : String} (hends : record.state = .acceptedQueued → scope.ends r) :
    Locked cfg scope s (State.sweepQueued cfg reason s r) := by
  unfold State.sweepQueued
  rw [hr]
  dsimp only
  split
  · rename_i hstate
    exact locked_endQueued hinv hr hsession (hends hstate) ⟨⟨rfl, rfl⟩, .empty⟩ hstate
  · exact .refl

theorem locked_sweepActive (hends : record.state.terminal = false → scope.ends r) :
    Locked cfg scope s (State.sweepActive cfg s r) := by
  unfold State.sweepActive
  rw [hr]
  dsimp only
  split
  · rename_i hstate
    have hend := hends (congrArg RequestState.terminal hstate.1)
    exact locked_endRunning hinv hr hsession hend ⟨⟨rfl, rfl⟩, .empty⟩ hstate.1
  · refine locked_sweepQueued hinv hr hsession fun hstate => ?_
    exact hends (congrArg RequestState.terminal hstate)

theorem locked_disconnectOne (hends : record.state.terminal = false → scope.ends r) :
    Locked cfg scope s (State.disconnectOne cfg s r) := by
  unfold State.disconnectOne
  rw [hr]
  dsimp only
  split
  · rename_i hstate
    have hend := hends (congrArg RequestState.terminal hstate)
    exact locked_endQueued hinv hr hsession hend ⟨⟨rfl, rfl⟩, .empty⟩ hstate
  · rename_i hstate
    have hend := hends (congrArg RequestState.terminal hstate)
    split
    · exact locked_endRunning hinv hr hsession hend ⟨⟨rfl, rfl⟩, .empty⟩ hstate
    · exact .refl
  · exact .refl

theorem locked_cancelOne {hard : Bool} {grant : Str → Except Str Bool} {soft killed : String}
    (hends : record.state.terminal = false → scope.ends r) :
    Locked cfg scope s (s.cancelOne cfg r hard grant soft killed).1 := by
  unfold State.cancelOne
  rw [hr]
  dsimp only
  split
  · rename_i hstate
    have hend := hends (congrArg RequestState.terminal hstate)
    exact locked_endQueued hinv hr hsession hend ⟨⟨rfl, rfl⟩, .empty⟩ hstate
  · rename_i hstate
    have hend := hends (congrArg RequestState.terminal hstate)
    split
    · split
      · exact .refl
      · exact locked_endRunning hinv hr hsession hend ⟨⟨rfl, rfl⟩, .empty⟩ hstate
      · exact .refl
    · exact .refl
  · exact .refl

end Pass

/-! ## Messages of a session -/

/-- Where a reader may go after a handler. -/
structure Reader.Next (reader : Reader) : Prop where
  greeting : reader ≠ .greeting
  gone : reader ≠ .gone
  answering : ∀ m, reader = .answering m → m.kind.reports = false

theorem Reader.Next.reading : Reader.Next .reading :=
  ⟨(fun h => nomatch h), (fun h => nomatch h), fun _ h => nomatch h⟩

theorem Reader.Next.leaving : Reader.Next .leaving :=
  ⟨(fun h => nomatch h), (fun h => nomatch h), fun _ h => nomatch h⟩

theorem Reader.Next.handling (m : Inbound) : Reader.Next (.handling m) :=
  ⟨(fun h => nomatch h), (fun h => nomatch h), fun _ h => nomatch h⟩

theorem Reader.Next.failing (text : Str) : Reader.Next (.failing text) :=
  ⟨(fun h => nomatch h), (fun h => nomatch h), fun _ h => nomatch h⟩

theorem Reader.Next.reply {m : Message} (h : m.kind.reports = false) : Reader.Next (.answering m) := by
  refine ⟨(fun h => nomatch h), (fun h => nomatch h), fun m' hm => ?_⟩
  cases hm
  exact h

/-- What a handler does. -/
structure Handles (cfg : Config) (scope : Scope) (s : State) (h : Handled) : Prop where
  locked : Locked cfg scope s h.1
  next : Reader.Next h.2

theorem Handles.after {c : Nat} {h : Handled} (hh : Handles cfg scope s h) :
    Locked cfg scope s (State.after c h) :=
  hh.locked.trans (.single (.reader hh.next.greeting hh.next.gone hh.next.answering) rfl)

/-- What the handling of messages on a connection may touch. -/
structure Scope.Serves (scope : Scope) (s : State) (c : Nat) : Prop where
  session : ∀ i, s.connections[c]?.bind Connection.session = some i → scope.session i
  ends : ∀ (i r : Nat) (record : Request), s.connections[c]?.bind Connection.session = some i →
    s.records[r]? = some record → record.session = i → scope.ends r

/-- The requests in the table of the session of a connection. -/
theorem passes_of_values (hinv : s.Inv cfg) {c i : Nat} {session : Session}
    (hserves : scope.Serves s c) (hc : s.connections[c]?.bind Connection.session = some i)
    (hs : s.sessions[i]? = some session) {r : Nat} (hr : r ∈ session.requests.values) :
    s.Passes scope (fun record => record.state.terminal = false) r := by
  obtain ⟨record, hrec, hi, -⟩ := listedIn_of_values hinv.wf hs r hr
  refine ⟨record, hrec, ?_, fun _ => hserves.ends i r record hc hrec hi⟩
  rw [hi]
  exact hserves.session i hc

theorem queued_of_evolves (record record' : Request) (he : record.Evolves record')
    (h : record'.state = .acceptedQueued) : record.state = .acceptedQueued := he.queued h

theorem alive_of_evolves (record record' : Request) (he : record.Evolves record')
    (h : record'.state.terminal = false) : record.state.terminal = false := he.alive h

/-- `_owned_request` finds requests of the session of the connection. -/
theorem ownedRequest_some {c r : Nat} {requestId : Value}
    (h : s.ownedRequest c requestId = some r) : ∃ i session,
      s.connections[c]?.bind Connection.session = some i ∧ s.sessions[i]? = some session ∧
        r ∈ session.requests.values := by
  unfold State.ownedRequest at h
  split at h
  · rename_i session requestId hsession
    obtain ⟨i, hi, hs⟩ := Option.bind_eq_some_iff.mp hsession
    refine ⟨i, session, hi, hs, ?_⟩
    exact List.mem_map_of_mem (Table.mem_of_get? h)
  · cases h

theorem locked_cancelEach {hard : Bool} {grant : Str → Except Str Bool} (rs : List Nat) :
    ∀ {s : State} (found : List Decision), s.Inv cfg →
      (∀ r ∈ rs, s.Passes scope (fun record => record.state.terminal = false) r) →
      Locked cfg scope s (State.cancelEach cfg hard grant s rs found).1 := by
  induction rs with
  | nil => exact fun _ _ _ => .refl
  | cons r rs ih =>
    intro s found hinv hrs
    obtain ⟨record, hr, hsession, hends⟩ := hrs r List.mem_cons_self
    have hstep : Locked cfg scope s
        (s.cancelOne cfg r hard grant "group_cancelled" "group_terminated").1 :=
      locked_cancelOne hinv hr hsession hends
    unfold State.cancelEach
    split
    · rename_i x text hone
      rw [hone] at hstep
      exact hstep
    · rename_i x decision hone
      rw [hone] at hstep
      refine hstep.trans (ih _ (hstep.inv hinv) fun r' hr' => ?_)
      exact (hrs r' (List.mem_cons_of_mem _ hr')).evolves alive_of_evolves hstep.micros.evolves

section Handlers

variable {c : Nat} (hinv : s.Inv cfg) (hserves : scope.Serves s c)

include hinv hserves

theorem locked_cancelOwned {control : Dict} {grant : Str → Except Str Bool} :
    Locked cfg scope s (s.cancelOwned cfg c control grant).1 := by
  unfold State.cancelOwned
  split
  · exact .refl
  · rename_i r ho
    obtain ⟨i, session, hi, hs, hm⟩ := ownedRequest_some ho
    obtain ⟨record, hrec, hsession, hends⟩ := passes_of_values hinv hserves hi hs hm
    exact locked_cancelOne hinv hrec hsession hends

theorem handles_cancel {control : Dict} {grant : Str → Except Str Bool} :
    Handles cfg scope s (s.cancel cfg c control grant) := by
  have hlocked : Locked cfg scope s (s.cancelOwned cfg c control grant).1 :=
    locked_cancelOwned hinv hserves
  unfold State.cancel
  split
  · rename_i x text hx
    rw [hx] at hlocked
    exact ⟨hlocked, .failing text⟩
  · rename_i x decision hx
    rw [hx] at hlocked
    exact ⟨hlocked.trans (locked_send (.plain rfl)), .reading⟩

theorem locked_cancelMembers {control : Dict} {grant : Str → Except Str Bool} :
    Locked cfg scope s (s.cancelMembers cfg c control grant).1 := by
  unfold State.cancelMembers
  split
  · split
    · exact .refl
    · refine locked_cancelEach _ _ hinv fun r hr => ?_
      unfold State.inGroup at hr
      split at hr
      · cases hr
      · rename_i session hsession
        obtain ⟨i, hi, hs⟩ := Option.bind_eq_some_iff.mp hsession
        exact passes_of_values hinv hserves hi hs (List.mem_filter.mp hr).1
  · exact .refl

theorem handles_cancelGroup {control : Dict} {grant : Str → Except Str Bool} :
    Handles cfg scope s (s.cancelGroup cfg c control grant) := by
  have hlocked : Locked cfg scope s (s.cancelMembers cfg c control grant).1 :=
    locked_cancelMembers hinv hserves
  unfold State.cancelGroup
  split
  · rename_i x text hx
    rw [hx] at hlocked
    exact ⟨hlocked, .failing text⟩
  · rename_i x decision hx
    rw [hx] at hlocked
    exact ⟨hlocked, .reply rfl⟩

theorem locked_acknowledge {control : Dict} : Locked cfg scope s (s.acknowledge c control) := by
  unfold State.acknowledge
  split
  · exact .refl
  · rename_i r hr
    obtain ⟨i, session, hi, hs, hm⟩ := ownedRequest_some hr
    exact (locked_removeTerminal hinv (listedIn_of_values hinv.wf hs r hm) (hserves.session i hi)).1

omit hinv hserves in
theorem handles_closeSession {control : Dict} : Handles cfg scope s (s.closeSession c control) := by
  unfold State.closeSession
  split
  · exact ⟨.refl, .failing _⟩
  · rename_i session hsession
    obtain ⟨i, hi, hs⟩ := Option.bind_eq_some_iff.mp hsession
    split
    · exact ⟨.refl, .failing _⟩
    · rename_i hactive
      refine ⟨.single (.cleanClose hi hs fun r hr record hrec => ?_) rfl, .reply rfl⟩
      rw [List.any_eq_true, not_exists] at hactive
      have hnot := hactive r
      rw [hrec] at hnot
      simpa [hr] using hnot

end Handlers

/-! ## Submissions -/

theorem finiteNonnegative_ne_nan {name : String} {v : Value} {x : Float64}
    (h : finiteNonnegative name v = .ok x) : x ≠ .nan := by
  rintro rfl
  unfold finiteNonnegative at h
  dsimp only at h
  cases v with
  | int n =>
    dsimp only at h
    split at h
    · cases h
    · rename_i hfin
      split at h
      · cases h
      · rw [Except.ok.injEq] at h
        rw [h] at hfin
        exact hfin Bool.false_ne_true
  | float y =>
    dsimp only at h
    split at h
    · cases h
    · rename_i hfin
      rw [Except.ok.injEq] at h
      rw [h] at hfin
      exact hfin (.inl Bool.false_ne_true)
  | _ => cases h

theorem optionalFiniteNonnegative_ne_nan {name : String} {v : Value} {x : Option Float64}
    (h : optionalFiniteNonnegative name v = .ok x) : ∀ t, x = some t → t ≠ .nan := by
  rintro t rfl
  have hmap : (finiteNonnegative name v).map some = .ok (some t) := by
    cases v with
    | none => cases h
    | _ => exact h
  cases hv : finiteNonnegative name v with
  | error text =>
    rw [hv] at hmap
    cases hmap
  | ok y =>
    rw [hv] at hmap
    cases hmap
    exact finiteNonnegative_ne_nan hv

/-- The record of a submission that passes the authorization. -/
theorem authorize_accept {c i : Nat} {session : Session} {requestId : Str} {m : Message} {now : Clock}
    {grant : Str → Except Str Bool} {registered : Bool} {record : Request}
    (h : authorize cfg c i session requestId m now grant registered = .accept record) :
    ∃ priority executionTimeout queueTimeout,
      record = newRequest cfg c i session requestId m now registered priority executionTimeout
        queueTimeout ∧ ∀ t, queueTimeout = some t → t ≠ .nan := by
  unfold authorize at h
  split at h
  · cases h
  · cases h
  · dsimp only at h
    split at h
    · cases h
    · rename_i hrecord
      rw [Admission.accept.injEq] at h
      subst h
      simp only [bind, Except.bind] at hrecord
      split at hrecord
      · cases hrecord
      · split at hrecord
        · cases hrecord
        · split at hrecord
          · cases hrecord
          · rename_i hqueue
            cases hrecord
            exact ⟨_, _, _, rfl, optionalFiniteNonnegative_ne_nan hqueue⟩

theorem admission_accept {c i : Nat} {session : Session} {requestId : Str} {m : Message} {now : Clock}
    {grant : Str → Except Str Bool} {record : Request}
    (h : s.admission cfg c i session requestId m now grant = .accept record) :
    s.status = .running ∧ s.queueFull cfg session = false ∧ ∃ registered,
      authorize cfg c i session requestId m now grant registered = .accept record := by
  unfold State.admission at h
  split at h
  · cases h
  · rename_i hstatus
    split at h
    · cases h
    · rename_i hfull
      refine ⟨Decidable.not_not.mp hstatus, Bool.eq_false_iff.mpr hfull, ?_⟩
      split at h
      · cases h
      · split at h
        · split at h
          · exact ⟨_, h⟩
          · split at h
            · split at h
              · split at h
                · exact ⟨_, h⟩
                · cases h
              · cases h
              · cases h
              · cases h
            · cases h
        · cases h
        · cases h
        · cases h

/-- The acceptance of a request, with its `ACCEPTED`. -/
theorem locked_accept {c i : Nat} {conn : Connection} {session : Session} {sequence : Int}
    {record : Request} (hsession : scope.session i)
    (haccepts : ∀ flips, scope.accepts { s with flips } i record.requestId)
    (ha : s.Admits cfg c i session sequence record) (hc : s.connections[c]? = some conn) :
    Locked cfg scope s ((s.enter i sequence record).send cfg c (some s.records.length)
      (acceptedMessage record.requestId)) := by
  -- without a close in between
  have hput : ∀ flips, Locked cfg scope s
      ((State.enter { s with flips } i sequence record).setConnection c fun conn => conn.put cfg
        (.message (acceptedMessage record.requestId))
        [⟨some s.records.length, acceptedMessage record.requestId⟩]) := by
    intro flips
    refine (locked_flips flips).trans (.single (.accept hsession (haccepts _) ⟨ha.connected, ha.opened,
      ha.sequenced, ha.watermark, ha.unlisted, ha.status, ha.room, ha.fresh, ha.deadline,
      ha.encodable⟩ hc ?_) rfl)
    unfold Connection.put
    by_cases hclosed : conn.closed = true
    · rw [if_pos hclosed]
      exact .inl ⟨.refl conn, hclosed⟩
    · rw [if_neg hclosed]
      by_cases hroom : conn.outbound.length < cfg.limits.outboundQueueSize
      · rw [if_pos hroom]
        exact .inr ⟨Bool.eq_false_iff.mpr hclosed, rfl⟩
      · rw [if_neg hroom]
        refine .inl ⟨.close conn, ?_⟩
        unfold Connection.close
        rw [if_neg hclosed]
  unfold State.send State.poll
  cases hf : s.flips with
  | nil =>
    rw [show (s.enter i sequence record).flips = [] from hf]
    have hsame := hput []
    rw [← hf] at hsame
    exact hsame
  | cons b rest =>
    rw [show (s.enter i sequence record).flips = b :: rest from hf]
    cases b with
    | false => exact hput rest
    | true =>
      -- the writer closes the connection first
      have hclose : Locked cfg scope s
          ((State.enter { s with flips := rest } i sequence record).setConnection c fun conn =>
            (conn.close cfg).put cfg (.message (acceptedMessage record.requestId))
              [⟨some s.records.length, acceptedMessage record.requestId⟩]) := by
        refine (locked_flips rest).trans (.single (.accept hsession (haccepts _) ⟨ha.connected, ha.opened,
          ha.sequenced, ha.watermark, ha.unlisted, ha.status, ha.room, ha.fresh, ha.deadline,
          ha.encodable⟩ hc (.inl ?_)) rfl)
        have hclosed : (conn.close cfg).closed = true := by
          unfold Connection.close
          split
          · assumption
          · rfl
        unfold Connection.put
        rw [if_pos hclosed]
        exact ⟨.close conn, hclosed⟩
      have hmodify : (State.setConnection
          { s.enter i sequence record with flips := rest } c (Connection.close cfg)).setConnection c
            (fun conn => conn.put cfg (.message (acceptedMessage record.requestId))
              [⟨some s.records.length, acceptedMessage record.requestId⟩]) =
          (State.enter { s with flips := rest } i sequence record).setConnection c fun conn =>
            (conn.close cfg).put cfg (.message (acceptedMessage record.requestId))
              [⟨some s.records.length, acceptedMessage record.requestId⟩] := by
        unfold State.setConnection
        dsimp only
        rw [List.modify_modify_eq]
        rfl
      rw [← hmodify] at hclose
      exact hclose

/-- `_submit` of a fresh request ID. -/
theorem handles_fresh {c i : Nat} {session : Session} {sequence : Int} {requestId : Str} {m : Message}
    {now : Clock} {grant : Str → Except Str Bool} (hsession : scope.session i)
    (haccepts : ∀ flips, scope.accepts { s with flips } i requestId)
    (hc : s.connections[c]?.bind Connection.session = some i)
    (hs : s.sessions[i]? = some session) (hseq : requestSequence session.clientId requestId = .ok sequence)
    (hnew : session.watermark < sequence) (hfree : session.requests.get? requestId = none)
    (henc : Encodable requestId) :
    Handles cfg scope s ((s.setSession i fun session => { session with watermark := sequence }).submitFresh
      cfg c i session requestId m now grant) := by
  have hwatermark : Locked cfg scope s
      (s.setSession i fun session => { session with watermark := sequence }) :=
    .single (.watermark hsession hs hnew) rfl
  unfold State.submitFresh
  split
  · exact ⟨hwatermark.trans (locked_send (.plain rfl)), .reading⟩
  · exact ⟨hwatermark, .failing _⟩
  · rename_i record hadm
    obtain ⟨hstatus, hroom, registered, hauth⟩ := admission_accept hadm
    obtain ⟨priority, executionTimeout, queueTimeout, rfl, hqueue⟩ := authorize_accept hauth
    obtain ⟨conn, hconn, -⟩ := Option.bind_eq_some_iff.mp hc
    refine ⟨locked_accept hsession haccepts ⟨hc, hs, hseq, hnew, hfree, hstatus, hroom,
      ⟨m, now, registered, priority, executionTimeout, queueTimeout, rfl⟩, ?_, henc⟩ hconn, .reading⟩
    intro d hd
    obtain ⟨t, ht, rfl⟩ := Option.map_eq_some_iff.mp hd
    exact Float64.add_ne_nan now.finite (hqueue t ht)

theorem handles_submit {c : Nat} {m : Message} {now : Clock} {grant : Str → Except Str Bool}
    (hinv : s.Inv cfg) (hserves : scope.Serves s c) (henc : EncodableItems m.control.items)
    (haccepts : ∀ i requestId, s.connections[c]?.bind Connection.session = some i →
      m.control.items.get (lit "request_id") = .str requestId →
      ∀ flips, scope.accepts { s with flips } i requestId) :
    Handles cfg scope s (s.submit cfg c m now grant) := by
  unfold State.submit
  split
  · exact ⟨.refl, .failing _⟩
  · rename_i i hi
    split
    · exact ⟨.refl, .failing _⟩
    · rename_i session hs
      split
      · rename_i requestId hid
        split
        · exact ⟨.refl, .failing _⟩
        · rename_i sequence hseq
          dsimp only
          split
          · split
            · rename_i r hpre
              -- a request of this session
              have hget : session.requests.get? requestId = some r := by
                unfold Session.precheck at hpre
                split at hpre
                · split at hpre
                  · cases hpre
                    assumption
                  · cases hpre
                · split at hpre <;> cases hpre
              have hmem : r ∈ session.requests.values := List.mem_map_of_mem (Table.mem_of_get? hget)
              obtain ⟨record, hr, -, hl⟩ := listedIn_of_values hinv.wf hs r hmem
              exact ⟨locked_sendRecord hr hl, .reading⟩
            · exact ⟨.refl, .failing _⟩
            · exact ⟨locked_send (.plain rfl), .reading⟩
            · rename_i hpre
              have hfresh : session.requests.get? requestId = none ∧ session.watermark < sequence := by
                unfold Session.precheck at hpre
                split at hpre
                · split at hpre <;> cases hpre
                · rename_i hnone
                  split at hpre
                  · cases hpre
                  · rename_i hnot
                    exact ⟨hnone, by omega⟩
              exact handles_fresh (hserves.session i hi) (haccepts i requestId hi hid) hi hs hseq hfresh.2
                hfresh.1
                (encodable_get henc hid)
          · exact ⟨.refl, .failing _⟩
      · exact ⟨.refl, .failing _⟩

/-- `_handle_message` -/
theorem handles_message {c : Nat} {m : Message} {now : Clock} {grant : Str → Except Str Bool}
    {statistics : Option Dict} (hinv : s.Inv cfg) (hserves : scope.Serves s c)
    (henc : EncodableItems m.control.items)
    (haccepts : m.kind = .submit → ∀ i requestId,
      s.connections[c]?.bind Connection.session = some i →
      m.control.items.get (lit "request_id") = .str requestId →
      ∀ flips, scope.accepts { s with flips } i requestId) :
    Handles cfg scope s (s.handleMessage cfg c m now grant statistics) := by
  unfold State.handleMessage
  split
  · exact ⟨.refl, .reply rfl⟩
  · rename_i hkind
    exact handles_submit hinv hserves henc (haccepts hkind)
  · exact handles_cancel hinv hserves
  · exact handles_cancelGroup hinv hserves
  · exact ⟨.refl, .reply rfl⟩
  · exact ⟨.refl, .reply rfl⟩
  · exact ⟨locked_acknowledge hinv hserves, .reading⟩
  · exact handles_closeSession
  · exact ⟨.refl, .failing _⟩

/-! ## Handshake -/

/-- `_handshake` and what the reader does then. -/
theorem locked_handshake {c : Nat} {hello : Hello} {principal : Option Str}
    (hgreets : scope.greets c) (hreader : s.withReader c = some .greeting) :
    Locked cfg scope s (State.after c (s.handshake cfg c hello principal)) := by
  obtain ⟨conn, hc, hgreet⟩ := Option.map_eq_some_iff.mp hreader
  have hreject : ∀ (reason text : String), Handles cfg scope s
      (s.send cfg c none ⟨.handshakeRejected, Dict.empty.set (lit "reason") (.str (lit reason)), []⟩,
        raised text) :=
    fun _ _ => ⟨locked_send (.plain rfl), .failing _⟩
  have hfail : ∀ text : Str, Handles cfg scope s (s, .failing text) := fun text => ⟨.refl, .failing text⟩
  unfold State.handshake
  dsimp only
  split
  · exact (hfail _).after
  · split
    · exact (hreject _ _).after
    · split
      · exact (hreject _ _).after
      · rename_i hfree
        split
        · exact (hreject _ _).after
        · have hnone : s.clientSessions.get? hello.clientInstanceId = none := by simpa using hfree
          rename_i hroom
          refine .single (.register hc hgreet rfl hnone (Nat.lt_of_not_le hroom) ?_ hgreets) rfl
          simp [newSession]

/-! ## The dispatcher -/

theorem passes_of_requests (hinv : s.Inv cfg) {ended : Request → Prop}
    (hsession : ∀ i, scope.session i)
    (hends : ∀ r ∈ s.requests.values, ∀ record : Request, s.records[r]? = some record →
      ended record → scope.ends r) : ∀ r ∈ s.requests.values, s.Passes scope ended r := by
  intro r hr
  obtain ⟨⟨k, r'⟩, hm, rfl⟩ := List.mem_map.mp hr
  obtain ⟨record, hrec, -⟩ := hinv.wf.global k r' hm
  exact ⟨record, hrec, hsession _, hends r' hr record hrec⟩

theorem expired_of_evolves {now : Clock} (record record' : Request) (he : record.Evolves record')
    (h : record'.state = .acceptedQueued ∧ record'.expired now = true) :
    record.state = .acceptedQueued ∧ record.expired now = true := by
  refine ⟨he.queued h.1, ?_⟩
  have hexp := h.2
  unfold Request.expired at hexp ⊢
  rw [he.queueDeadline] at hexp
  exact hexp

/-- `_expire_queued_locked` -/
theorem locked_expireQueued {now : Clock} (hinv : s.Inv cfg) (hsession : ∀ i, scope.session i)
    (hends : ∀ r ∈ s.requests.values, ∀ record : Request, s.records[r]? = some record →
      record.state = .acceptedQueued ∧ record.expired now = true → scope.ends r) :
    Locked cfg scope s (s.expireQueued cfg now) :=
  locked_foldl expired_of_evolves
    (fun _ _ _ hinv hr hsession hends => locked_expireOne hinv hr hsession hends) _ hinv
    (passes_of_requests hinv hsession hends)

/-- A turn of `_dispatch_loop` after the expiry of queued requests. -/
theorem micros_dispatchNext {now : Clock} (hinv' : (s.expireQueued cfg now).Inv cfg)
    (hidle' : (s.expireQueued cfg now).dispatcher = .idle) (hsession : ∀ i, scope.session i) :
    Micros cfg scope (s.expireQueued cfg now) (s.dispatch cfg now) := by
  unfold State.dispatch
  generalize s.expireQueued cfg now = x at hinv' hidle' ⊢
  dsimp only
  split
  · exact .single (.work (.exit hidle'))
  · split
    · exact .refl
    · rename_i hroom
      split
      · exact .refl
      · rename_i r scheduler hpop
        obtain ⟨record, hr, hw, -⟩ := hinv'.placed.popped hpop
        have hstate := (hinv'.placed.waiting hr hw).1
        rw [hr]
        dsimp only
        rw [if_pos hstate]
        exact .single (.stage (hsession _) hidle' (by omega) hpop hr hstate)

/-- One locked turn of `_dispatch_loop`. -/
theorem micros_dispatch {now : Clock} (hinv : s.Inv cfg) (hidle : s.dispatcher = .idle)
    (hsession : ∀ i, scope.session i)
    (hends : ∀ r ∈ s.requests.values, ∀ record : Request, s.records[r]? = some record →
      record.state = .acceptedQueued ∧ record.expired now = true → scope.ends r) :
    Micros cfg scope s (s.dispatch cfg now) := by
  have hexpire : Locked cfg scope s (s.expireQueued cfg now) :=
    locked_expireQueued hinv hsession hends
  exact hexpire.micros.trans
    (micros_dispatchNext (hexpire.inv hinv) (hexpire.dispatcher.trans hidle) hsession)

/-- The end of a staging that the dispatcher processes itself. -/
theorem micros_callAttached {r f : Nat} (hinv : s.Inv cfg) (hd : s.dispatcher = .calling r f)
    (hsession : ∀ i, scope.session i) (hends : scope.ends r) :
    Micros cfg scope s (State.poolDone cfg { s with dispatcher := .idle } f) := by
  have hafter : s.dispatcher.after = some (r, f) := by rw [hd]; rfl
  obtain ⟨fut, record, hfut, hr, hlocal, -, -⟩ := hinv.placed.after r f hafter
  obtain ⟨fut', hfut', hrecord⟩ := hinv.wf.localFuture r record f hr hlocal
  rw [hfut] at hfut'
  cases hfut'
  have hdone := hinv.placed.calling r f fut hd hfut
  unfold State.poolDone
  rw [show ({ s with dispatcher := .idle } : State).futures[f]? = some fut from hfut]
  dsimp only
  split
  · rename_i hphase
    unfold LocalFuture.pending at hdone
    rw [hphase] at hdone
    cases hdone
  · rename_i outcome hphase
    have hopen : s.unended f = true := by
      rw [State.Placed.unended_of_some hfut, hd]
      simp [Dispatcher.holds]
    subst hrecord
    refine micros_completeLocal hinv hfut hr hlocal hopen ?_ (hsession _) hends (.future hfut rfl hphase)
    intro x hxf hxd hended
    rw [← hxf]
    exact .called (.inl (hxd.trans hd)) hended

theorem micros_completeFailed {r f : Nat} {outcome : Outcome} (hinv : s.Inv cfg)
    (hd : s.dispatcher = .failed r f outcome) (hsession : ∀ i, scope.session i)
    (hends : scope.ends r) :
    Micros cfg scope s (State.completeLocal cfg { s with dispatcher := .idle } r outcome) := by
  have hbefore : s.dispatcher.before = some (r, f) := by rw [hd]; rfl
  obtain ⟨fut, record, hfut, hr, hlocal, -⟩ := hinv.placed.before r f hbefore
  obtain ⟨fut', hfut', hrecord⟩ := hinv.wf.localFuture r record f hr hlocal
  rw [hfut] at hfut'
  cases hfut'
  have hopen : s.unended f = true := by
    rw [State.Placed.unended_of_some hfut, hd]
    simp [Dispatcher.holds]
  subst hrecord
  refine micros_completeLocal hinv hfut hr hlocal hopen ?_ (hsession _) hends (.failed hd)
  intro x hxf hxd hended
  rw [← hxf]
  exact .called (.inr ⟨outcome, hxd.trans hd⟩) hended

/-! ## The local pool -/

/-- `_pool_done`, run by the thread that ended the future. -/
theorem micros_notify {f : Nat} {fut : LocalFuture} (hinv : s.Inv cfg)
    (hfut : s.futures[f]? = some fut) (hn : fut.notifying = true) (hsession : ∀ i, scope.session i)
    (hends : scope.ends fut.record) :
    Micros cfg scope s
      (State.poolDone cfg (s.setFuture f fun fut => { fut with notifying := false }) f) := by
  obtain ⟨hatt, hdone⟩ := hinv.placed.notifying f fut hfut hn
  obtain ⟨record, hr, hlocal⟩ := hinv.placed.submitted f fut hfut (hinv.placed.attached f fut hfut hatt).1
  unfold State.poolDone
  have hfut' : (s.setFuture f fun fut => { fut with notifying := false }).futures[f]? =
      some { fut with notifying := false } := getElem?_modify_self hfut
  rw [hfut']
  dsimp only
  split
  · rename_i hphase
    unfold LocalFuture.pending at hdone
    rw [hphase] at hdone
    cases hdone
  · rename_i outcome hphase
    have hopen : s.unended f = true := by
      rw [State.Placed.unended_of_some hfut]
      simp [LocalFuture.watched, hatt, hn]
    refine micros_completeLocal hinv hfut hr hlocal hopen ?_ (hsession _) hends (.future hfut rfl hphase)
    intro x hxf hxd hended
    rw [← hxf, ← hxd]
    exact .notified (by rw [hxf]; exact hfut) hn hended

/-- The end of `_claim_dispatch`. -/
theorem locked_publish {r pid : Nat} {record : Request} (hr : s.records[r]? = some record)
    (hstate : record.state = .running) (hsession : scope.session record.session) :
    Locked cfg scope s (s.publish cfg r pid) := by
  have hclaim : Locked cfg scope s
      (s.setRecord r fun record => { record with claims := record.claims ++ [pid] }) :=
    .single (.claim hsession hr hstate) rfl
  unfold State.publish
  rw [hr]
  dsimp only
  refine hclaim.trans ?_
  have hr' : (s.setRecord r fun record => { record with claims := record.claims ++ [pid] }).records[r]? =
      some { record with claims := record.claims ++ [pid] } := getElem?_modify_self hr
  generalize (s.setRecord r fun record => { record with claims := record.claims ++ [pid] }) = x at hr' ⊢
  have hspeech : x.Says record.connection ⟨some r, runningMessage record.requestId (some pid)
      (.str (lit "worker:" ++ natText pid))⟩ :=
    @State.Says.running x _ r { record with claims := record.claims ++ [pid] } _ _ hr' rfl hstate
  cases record.localFuture with
  | none => exact locked_send hspeech
  | some f =>
    have hpid : Locked cfg scope x (x.setFuture f fun fut => { fut with pid := some pid }) :=
      .single (.work .pid) rfl
    exact hpid.trans (locked_send (hspeech.congr rfl rfl))

/-- `_claim_dispatch` -/
theorem locked_claimDispatch {f pid : Nat} {fut : LocalFuture} {now : Clock} (hinv : s.Inv cfg)
    (hfut : s.futures[f]? = some fut) (hsub : fut.submitted = true) (hsession : ∀ i, scope.session i)
    (hends : ∀ record : Request, s.records[fut.record]? = some record →
      record.state = .acceptedQueued ∧ record.expired now = true → scope.ends fut.record)
    (hstarts : ∀ record : Request, s.records[fut.record]? = some record →
      record.state = .acceptedQueued → record.expired now = false → scope.starts fut.record) :
    Locked cfg scope s (s.claimDispatch cfg fut.record pid now) := by
  obtain ⟨record, hr, hlocal⟩ := hinv.placed.submitted f fut hfut hsub
  unfold State.claimDispatch
  rw [hr]
  dsimp only
  split
  · rename_i hstate
    split
    · rename_i hexp
      refine locked_endStaged hinv hr (hsession _) (hends record hr ⟨hstate, hexp⟩) ⟨⟨rfl, rfl⟩, .empty⟩
        (congrArg RequestState.terminal hstate) ?_
      rw [hlocal]
      rfl
    · rename_i hexp
      have hearly := Bool.eq_false_iff.mpr hexp
      have hstart : Locked cfg scope s (s.setRecord fut.record (Request.start now)) :=
        .single (.start (hsession _) (hstarts record hr hstate hearly) hr hstate hearly
          ⟨f, fut, hlocal, hfut, hsub⟩) rfl
      exact hstart.trans (locked_publish (getElem?_modify_self hr) rfl (hsession _))
  · rename_i hstate
    exact locked_publish hr hstate (hsession _)
  · exact .refl

/-! ## Disconnect and shutdown -/

theorem connections_requeue (r : Nat) : (s.requeue r).connections = s.connections := by
  unfold State.requeue
  dsimp only
  split
  · rfl
  · split <;> rfl

theorem connections_unregister (i : Nat) : (s.unregister i).connections = s.connections := by
  unfold State.unregister
  split
  · rfl
  · split <;> rfl

/-- A closed connection stays closed. -/
theorem Micro.closed {c : Nat} {conn : Connection} (hm : Micro cfg scope s s')
    (hc : s.connections[c]? = some conn) (hclosed : conn.closed = true) :
    ∃ conn' : Connection, s'.connections[c]? = some conn' ∧ conn'.closed = true := by
  -- an assignment to one connection
  have hset : ∀ (c' : Nat) (f : Connection → Connection),
      (∀ conn : Connection, s.connections[c']? = some conn → conn.closed = true →
        (f conn).closed = true) →
      ∃ conn' : Connection, (s.connections.modify c' f)[c]? = some conn' ∧ conn'.closed = true := by
    intro c' f hf
    refine ⟨_, getElem?_modify_of_some hc, ?_⟩
    split
    · rename_i he
      subst he
      exact hf conn hc hclosed
    · exact hclosed
  cases hm with
  | flags => exact ⟨conn, hc, hclosed⟩
  | sockets => exact ⟨conn, hc, hclosed⟩
  | connect => exact ⟨conn, getElem?_append_of_some hc, hclosed⟩
  | connection hf => exact hset _ _ fun conn _ h => (hf conn).closed h
  | cleanClose => exact hset _ _ fun _ _ h => h
  | reader => exact hset _ _ fun _ _ h => h
  | gone => exact hset _ _ fun _ _ h => h
  | say => exact hset _ _ fun _ _ h => h
  | @accept c' _ conn' _ _ _ f _ _ _ hc' hf =>
    refine hset _ _ fun conn'' h h' => ?_
    rw [hc'] at h
    cases h
    rcases hf with ⟨-, hcl⟩ | ⟨hopen, -⟩
    · exact hcl
    · rw [h'] at hopen
      cases hopen
  | watermark => exact ⟨conn, hc, hclosed⟩
  | start => exact ⟨conn, hc, hclosed⟩
  | claim => exact ⟨conn, hc, hclosed⟩
  | emptied => exact ⟨conn, hc, hclosed⟩
  | stage => exact ⟨conn, hc, hclosed⟩
  | requeue => exact ⟨conn, by rw [connections_requeue]; exact hc, hclosed⟩
  | finish => exact ⟨conn, hc, hclosed⟩
  | finishStaged => exact ⟨conn, hc, hclosed⟩
  | retire => exact ⟨conn, hc, hclosed⟩
  | unregister => exact ⟨conn, by rw [connections_unregister]; exact hc, hclosed⟩
  | @register c' _ session =>
    have hcombined : ((s.register c' session).setReader c' .welcoming).connections =
        s.connections.modify c' fun conn =>
          { conn with session := some s.sessions.length, reader := .welcoming } :=
      List.modify_modify_eq _ _ _ _
    rw [hcombined]
    exact hset _ _ fun _ _ h => h
  | work hw => cases hw <;> exact ⟨conn, hc, hclosed⟩

theorem Micros.closed {c : Nat} {conn : Connection} (hm : Micros cfg scope s s')
    (hc : s.connections[c]? = some conn) (hclosed : conn.closed = true) :
    ∃ conn' : Connection, s'.connections[c]? = some conn' ∧ conn'.closed = true := by
  induction hm with
  | refl => exact ⟨conn, hc, hclosed⟩
  | tail _ hstep ih =>
    obtain ⟨conn', hc', hclosed'⟩ := ih
    exact hstep.closed hc' hclosed'

theorem Connection.closed_close (conn : Connection) : (conn.close cfg).closed = true := by
  unfold Connection.close
  split
  · assumption
  · rfl

theorem left_of_closed (hwf : s.WF) {c i : Nat} {conn : Connection} (hc : s.connections[c]? = some conn)
    (hi : conn.session = some i) (hclosed : s.closed c = true) : s.Left i := by
  intro session hs
  obtain ⟨session', hs', hconn⟩ := hwf.link c conn i hc hi
  rw [hs] at hs'
  cases hs'
  rw [hconn]
  exact hclosed

/-- A session that was left stays so. -/
theorem Locked.left {i : Nat} {session : Session} (h : Locked cfg scope s s') (hinv : s.Inv cfg)
    (hs : s.sessions[i]? = some session) (hleft : s.Left i) : s'.Left i := by
  intro session' hs'
  obtain ⟨session₁, hs₁, hgrows⟩ := h.micros.sessions hs
  rw [hs'] at hs₁
  cases hs₁
  obtain ⟨conn, hc, -⟩ := hinv.wf.linked i session hs
  have hclosed : conn.closed = true := by
    have := hleft session hs
    unfold State.closed at this
    rw [hc] at this
    exact this
  obtain ⟨conn', hc', hclosed'⟩ := h.micros.closed hc hclosed
  unfold State.closed
  rw [hgrows.connection, hc']
  exact hclosed'

/-- The requests of the session in `_disconnect`. -/
theorem locked_leaveSession {c : Nat} (hinv : s.Inv cfg) (hserves : scope.Serves s c)
    (hclosed : s.closed c = true) : Locked cfg scope s (s.leaveSession cfg c) := by
  unfold State.leaveSession
  split
  · exact .refl
  · rename_i conn hc
    split
    · exact .refl
    · rename_i i hi
      have hleft := left_of_closed hinv.wf hc hi hclosed
      have hci : s.connections[c]?.bind Connection.session = some i := by
        rw [hc]
        exact hi
      split
      · exact .refl
      · rename_i session hs
        split
        · exact locked_purge hinv (hserves.session i hci) hleft
        · have hfold : Locked cfg scope s
              (session.requests.values.foldl (State.disconnectOne cfg) s) :=
            locked_foldl alive_of_evolves
              (fun _ _ _ hinv hr hsession hends => locked_disconnectOne hinv hr hsession hends) _ hinv
              fun r hr => passes_of_values hinv hserves hci hs hr
          exact hfold.trans
            (locked_purge (hfold.inv hinv) (hserves.session i hci) (hfold.left hinv hs hleft))

theorem dropConnection_session {c : Nat} : (s.dropConnection cfg c).connections[c]?.bind
    Connection.session = s.connections[c]?.bind Connection.session := by
  unfold State.dropConnection State.setConnection
  dsimp only
  cases hc : s.connections[c]? with
  | none => rw [List.getElem?_modify, hc]; rfl
  | some conn =>
    rw [getElem?_modify_self hc]
    exact (Connection.Quiet.close conn).session

/-- A connection leaves `_connections`. -/
theorem rooms_drop (s : State) (c : Nat) :
    s.Rooms cfg { s with openConnections := s.openConnections.filter (· ≠ c) } where
  total := by
    have hlen := List.length_filter_le (fun c' => decide (c' ≠ c)) s.openConnections
    simp only [State.total] at hlen ⊢
    omega
  unauthenticated := by
    have hlen := (List.filter_sublist (p := fun c' => decide (c' ≠ c)) (l := s.openConnections)).filter
      (fun c => (s.connections[c]?.bind Connection.session).isNone) |>.length_le
    simp only [State.unauthenticated] at hlen ⊢
    omega

/-- `_disconnect` -/
theorem locked_disconnect {c : Nat} {conn : Connection} (hinv : s.Inv cfg) (hserves : scope.Serves s c)
    (hleaves : scope.leaves c) (hsockets : scope.sockets) (hc : s.connections[c]? = some conn) :
    Locked cfg scope s (s.disconnect cfg c) := by
  have hclose : Locked cfg scope s (s.setConnection c (Connection.close cfg)) := locked_quiet .close
  have hdrop : Locked cfg scope s (s.dropConnection cfg c) :=
    hclose.trans (.single (.sockets hsockets (rooms_drop _ c)) rfl)
  have hserves' : scope.Serves (s.dropConnection cfg c) c := by
    refine ⟨fun i hi => hserves.session i (dropConnection_session ▸ hi), fun i r record hi => ?_⟩
    exact hserves.ends i r record (dropConnection_session ▸ hi)
  have hleave : Locked cfg scope (s.dropConnection cfg c) _ :=
    locked_leaveSession (hdrop.inv hinv) hserves' (by
      have hself : (s.dropConnection cfg c).connections[c]? = some (conn.close cfg) :=
        getElem?_modify_self hc
      unfold State.closed
      rw [hself]
      exact Connection.closed_close conn)
  obtain ⟨conn', hc', hclosed⟩ := hleave.micros.closed (getElem?_modify_self hc)
    (Connection.closed_close conn)
  exact (hdrop.trans hleave).trans (.single (.gone hleaves hc' hclosed) rfl)

/-- What is in `_requests` was there, or it is accepted. -/
theorem Micro.entry (hm : Micro cfg scope s s') {e : Str × Nat} (he : e ∈ s'.requests) :
    e ∈ s.requests ∨ ∃ c i session sequence record, s.Admits cfg c i session sequence record ∧
      scope.accepts s i record.requestId := by
  cases hm with
  | @accept c i _ session sequence record _ _ haccepts ha =>
    exact .inr ⟨c, i, session, sequence, record, ha, haccepts⟩
  | requeue _ _ hr =>
    rw [requeue_eq hr] at he
    exact .inl he
  | retire => exact .inl (Table.mem_pop.mp he).1
  | @unregister i =>
    have hsame : (s.unregister i).requests = s.requests := by
      unfold State.unregister
      split
      · rfl
      · split <;> rfl
    rw [hsame] at he
    exact .inl he
  | work hw => cases hw <;> exact .inl he
  | _ => exact .inl he

/-- No request enters `_requests` by a change that accepts none. -/
theorem Micro.indexed (hm : Micro cfg scope s s') (hrefuses : ∀ s i k, ¬ scope.accepts s i k)
    {e : Str × Nat} (he : e ∈ s'.requests) : e ∈ s.requests := by
  rcases hm.entry he with hold | ⟨_, i, _, _, record, _, haccepts⟩
  · exact hold
  · exact absurd haccepts (hrefuses s i record.requestId)

theorem Micros.indexed (hm : Micros cfg scope s s') (hrefuses : ∀ s i k, ¬ scope.accepts s i k)
    {e : Str × Nat} (he : e ∈ s'.requests) : e ∈ s.requests := by
  induction hm with
  | refl => exact he
  | tail _ hstep ih => exact ih (hstep.indexed hrefuses he)

/-- The first sweep of `_finish_shutdown` puts nothing into `_requests`. -/
theorem indexed_sweep {e : Str × Nat} (hinv : s.Inv cfg)
    (he : e ∈ (if s.shutdownCancelFutures then
      s.requests.values.foldl (State.sweepQueued cfg "server_shutdown") s else s).requests) :
    e ∈ s.requests := by
  split at he
  · have hsweep : Locked cfg { Scope.all with accepts := fun _ _ _ => False } s
        (s.requests.values.foldl (State.sweepQueued cfg "server_shutdown") s) :=
      locked_foldl queued_of_evolves
        (fun _ _ _ hinv hr hsession hends => locked_sweepQueued hinv hr hsession hends) _ hinv
        (passes_of_requests hinv (fun _ => trivial) fun _ _ _ _ _ => trivial)
    exact hsweep.micros.indexed (fun _ _ _ => id) he
  · exact he

theorem State.Inv.recorded (hinv : s.Inv cfg) :
    ∀ r ∈ s.requests.values, ∃ record : Request, s.records[r]? = some record := by
  intro r hr
  obtain ⟨⟨k, r'⟩, hm, rfl⟩ := List.mem_map.mp hr
  obtain ⟨record, hrec, -⟩ := hinv.wf.global k r' hm
  exact ⟨record, hrec⟩

/-- The sweep at the deadline ends a request. -/
theorem sweepActive_terminal {r : Nat} {record : Request} (hinv : s.Inv cfg)
    (hr : s.records[r]? = some record) : ∃ record' : Request,
      (s.sweepActive cfg r).records[r]? = some record' ∧ record'.state.terminal = true := by
  unfold State.sweepActive State.sweepQueued
  rw [hr]
  dsimp only
  cases hstate : record.state with
  | acceptedQueued =>
    rw [if_neg (fun h => nomatch h.1), if_pos rfl]
    obtain ⟨record', hr', he⟩ := endQueued_record (t := cancelledTerminal "shutdown_deadline") hinv hr
      ⟨⟨rfl, rfl⟩, .empty⟩ hstate
    exact ⟨record', hr', he.terminal rfl⟩
  | running =>
    obtain ⟨f, fut, hf, -⟩ := hinv.placed.running hr hstate
    rw [if_pos ⟨rfl, by rw [hf]; rfl⟩]
    obtain ⟨record', hr', he⟩ := endRunning_record (t := cancelledTerminal "shutdown_deadline") hinv hr
      ⟨⟨rfl, rfl⟩, .empty⟩ hstate
    exact ⟨record', hr', he.terminal rfl⟩
  | _ =>
    rw [if_neg (fun h => nomatch h.1), if_neg (fun h => nomatch h)]
    exact ⟨record, hr, by rw [hstate]; rfl⟩

/-- The loop of the sweep ends every request it meets. -/
theorem sweepAll_terminal (rs : List Nat) : ∀ {s : State}, s.Inv cfg →
    (∀ r ∈ rs, ∃ record : Request, s.records[r]? = some record) →
    ∀ r ∈ rs, ∀ record : Request,
      (rs.foldl (State.sweepActive cfg) s).records[r]? = some record → record.state.terminal = true := by
  induction rs with
  | nil => exact fun _ _ _ h => nomatch h
  | cons r rs ih =>
    intro s hinv hrs r' hr' record' hrec'
    obtain ⟨record, hr⟩ := hrs r List.mem_cons_self
    have hone : Locked cfg .all s (s.sweepActive cfg r) :=
      locked_sweepActive hinv hr trivial fun _ => trivial
    have hlater : ∀ r' ∈ rs, ∃ record : Request, (s.sweepActive cfg r).records[r']? = some record := by
      intro r' hr'
      obtain ⟨record', hrec'⟩ := hrs r' (List.mem_cons_of_mem _ hr')
      obtain ⟨record'', hrec'', -⟩ := hone.micros.evolves r' record' hrec'
      exact ⟨record'', hrec''⟩
    rcases List.mem_cons.mp hr' with rfl | hr'
    · obtain ⟨record₁, hr₁, hterm⟩ := sweepActive_terminal hinv hr
      have hrest : Locked cfg .all (s.sweepActive cfg r') (rs.foldl (State.sweepActive cfg) _) :=
        locked_foldl alive_of_evolves
          (fun _ _ _ hinv hr hsession hends => locked_sweepActive hinv hr hsession hends) _
          (hone.inv hinv) fun r hr => by
            obtain ⟨record, hrec⟩ := hlater r hr
            exact ⟨record, hrec, trivial, fun _ => trivial⟩
      exact (hrest.micros.evolves.back hr₁ hrec').terminal hterm
    · exact ih (hone.inv hinv) hlater r' hr' record' hrec'

/-- What a turn of the shutdown thread ends. -/
def State.Swept (s : State) (now : Clock) (record : Request) : Prop :=
  s.shutdownCancelFutures = true ∧ record.state = .acceptedQueued ∨
    (∃ d, s.shutdownDeadline = some d ∧ Float64.le d now.reading = true) ∧
      record.state.terminal = false

/-- One locked turn of the loop of `_finish_shutdown`. -/
theorem locked_shutdownTurn {now : Clock} (hinv : s.Inv cfg) (hsession : ∀ i, scope.session i)
    (hends : ∀ r ∈ s.requests.values,
      (∀ record : Request, s.records[r]? = some record → s.Swept now record) → scope.ends r) :
    Locked cfg scope s (s.shutdownTurn cfg now) := by
  unfold State.shutdownTurn
  split
  · obtain ⟨x, hx⟩ : ∃ x : State, x = if s.shutdownCancelFutures then
        s.requests.values.foldl (State.sweepQueued cfg "server_shutdown") s else s := ⟨_, rfl⟩
    have hsweep : Locked cfg scope s x := by
      rw [hx]
      split
      · rename_i hcancel
        refine locked_foldl queued_of_evolves
          (fun _ _ _ hinv hr hsession hends => locked_sweepQueued hinv hr hsession hends) _ hinv ?_
        refine passes_of_requests hinv hsession fun r hmem record hr h =>
          hends r hmem fun record' hr' => ?_
        rw [hr] at hr'
        cases hr'
        exact .inl ⟨hcancel, h⟩
      · exact .refl
    dsimp only
    rw [← hx]
    refine hsweep.trans ?_
    split
    · exact .refl
    · rename_i d hd
      split
      · rename_i hle
        have hpassed : ∃ d, s.shutdownDeadline = some d ∧ Float64.le d now.reading = true :=
          ⟨d, hsweep.shutdownDeadline.symm.trans hd, hle⟩
        have hpasses : ∀ r ∈ x.requests.values,
            x.Passes scope (fun record => record.state.terminal = false) r := by
          intro r hr
          obtain ⟨⟨k, r'⟩, hm, rfl⟩ := List.mem_map.mp hr
          obtain ⟨record, hrec, -⟩ := (hsweep.inv hinv).wf.global k r' hm
          have hold : (k, r') ∈ s.requests := by
            refine @indexed_sweep cfg s _ hinv ?_
            rw [← hx]
            exact hm
          have hmem : r' ∈ s.requests.values := List.mem_map_of_mem hold
          refine ⟨record, hrec, hsession _, fun halive => hends r' hmem fun record₀ hr₀ => ?_⟩
          have he := hsweep.micros.evolves.back hr₀ hrec
          exact .inr ⟨hpassed, he.alive halive⟩
        have hactive : Locked cfg scope x (x.requests.values.foldl (State.sweepActive cfg) x) :=
          locked_foldl alive_of_evolves
            (fun _ _ _ hinv hr hsession hends => locked_sweepActive hinv hr hsession hends) _
            (hsweep.inv hinv) hpasses
        have hfold : Locked cfg { Scope.all with accepts := fun _ _ _ => False } x
            (x.requests.values.foldl (State.sweepActive cfg) x) :=
          locked_foldl alive_of_evolves
            (fun _ _ _ hinv hr hsession hends => locked_sweepActive hinv hr hsession hends) _
            (hsweep.inv hinv) (passes_of_requests (hsweep.inv hinv) (fun _ => trivial)
              fun _ _ _ _ _ => trivial)
        refine hactive.trans (.single (.flags (.stopping fun e he record hrec => ?_)) rfl)
        have hmem : e ∈ x.requests := hfold.micros.indexed (fun _ _ _ => id) he
        exact sweepAll_terminal _ (hsweep.inv hinv) (hsweep.inv hinv).recorded e.2
          (List.mem_map_of_mem hmem) record hrec
      · exact .refl
  · rename_i hactive
    refine .single (.flags (.stopping fun e he record hrec => ?_)) rfl
    by_contra halive
    refine hactive (List.any_eq_true.mpr ⟨e.2, List.mem_map_of_mem he, ?_⟩)
    rw [hrec]
    simpa using halive

/-! ## Steps -/

/-- A submission that is about to be handled on a connection may be accepted. -/
def Scope.Submits (scope : Scope) (s : State) (c : Nat) : Prop :=
  ∀ m, s.withReader c = some (.handling m) → m.message.kind = .submit → ∀ i requestId,
    s.connections[c]?.bind Connection.session = some i →
    m.message.control.items.get (lit "request_id") = .str requestId →
    ∀ flips, scope.accepts { s with flips } i requestId

/-- What a scope has to permit for an action. -/
def Scope.Allows (scope : Scope) (s : State) : Action → Prop
  | .handle c _ _ _ => scope.Serves s c ∧ scope.Submits s c
  | .accept | .prepare _ => scope.sockets
  | .hello c _ _ => scope.greets c
  | .disconnect c => scope.Serves s c ∧ scope.leaves c ∧ scope.sockets
  | .dispatch now => (∀ i, scope.session i) ∧ ∀ r ∈ s.requests.values, ∀ record : Request,
      s.records[r]? = some record → record.state = .acceptedQueued ∧ record.expired now = true →
      scope.ends r
  | .requeue | .attach => ∀ i, scope.session i
  | .completeFailed => (∀ i, scope.session i) ∧
      ∀ r f outcome, s.dispatcher = .failed r f outcome → scope.ends r
  | .callAttached => (∀ i, scope.session i) ∧ ∀ r f, s.dispatcher = .calling r f → scope.ends r
  | .claim f _ now => (∀ i, scope.session i) ∧ ∀ (fut : LocalFuture) (record : Request),
      s.futures[f]? = some fut → s.records[fut.record]? = some record →
      (record.state = .acceptedQueued ∧ record.expired now = true → scope.ends fut.record) ∧
      (record.state = .acceptedQueued → record.expired now = false → scope.starts fut.record)
  | .finish f outcome => ∀ flips, scope.returns { s with flips } f outcome
  | .notify f => (∀ i, scope.session i) ∧ ∀ fut : LocalFuture, s.futures[f]? = some fut →
      scope.ends fut.record
  | .shutdownTurn now => (∀ i, scope.session i) ∧ ∀ r ∈ s.requests.values,
      (∀ record : Request, s.records[r]? = some record → s.Swept now record) → scope.ends r
  | _ => True

/-- A scope that restricts submissions only. -/
theorem Scope.Allows.of_submits (hsession : ∀ i, scope.session i) (hstarts : ∀ r, scope.starts r)
    (hends : ∀ r, scope.ends r) (hleaves : ∀ c, scope.leaves c)
    (hreturns : ∀ s f outcome, scope.returns s f outcome) (hsockets : scope.sockets)
    (hgreets : ∀ c, scope.greets c) {a : Action}
    (hsubmits : ∀ c now grant statistics, a = .handle c now grant statistics → scope.Submits s c) :
    scope.Allows s a := by
  have hserves : ∀ c, scope.Serves s c := fun c => ⟨fun i _ => hsession i, fun _ r _ _ _ _ => hends r⟩
  cases a with
  | handle c now grant statistics => exact ⟨hserves c, hsubmits c now grant statistics rfl⟩
  | accept => exact hsockets
  | prepare => exact hsockets
  | hello c => exact hgreets c
  | disconnect c => exact ⟨hserves c, hleaves c, hsockets⟩
  | dispatch => exact ⟨hsession, fun r _ _ _ _ => hends r⟩
  | requeue => exact hsession
  | attach => exact hsession
  | completeFailed => exact ⟨hsession, fun r _ _ _ => hends r⟩
  | callAttached => exact ⟨hsession, fun r _ _ => hends r⟩
  | claim => exact ⟨hsession, fun fut _ _ _ => ⟨fun _ => hends fut.record, fun _ _ => hstarts fut.record⟩⟩
  | finish f outcome => exact fun _ => hreturns _ f outcome
  | notify => exact ⟨hsession, fun fut _ => hends fut.record⟩
  | shutdownTurn => exact ⟨hsession, fun r _ _ => hends r⟩
  | _ => trivial

theorem Scope.allows_all (s : State) (a : Action) : Scope.all.Allows s a :=
  .of_submits (fun _ => trivial) (fun _ => trivial) (fun _ => trivial) (fun _ => trivial)
    (fun _ _ _ => trivial) trivial (fun _ => trivial) fun _ _ _ _ _ _ _ _ _ _ _ _ _ => trivial

theorem Scope.Allows.flips {a : Action} (h : scope.Allows s a) (flips : List Bool) :
    scope.Allows { s with flips } a := by
  cases a with
  | handle => exact ⟨⟨h.1.session, h.1.ends⟩, h.2⟩
  | disconnect => exact ⟨⟨h.1.session, h.1.ends⟩, h.2⟩
  | _ => exact h

theorem locked_setReader {c : Nat} {next : Reader} (h : next.Next) :
    Locked cfg scope s (s.setReader c next) := .single (.reader h.greeting h.gone h.answering) rfl

/-- `_accept_loop` keeps a socket. -/
theorem rooms_accept (h : s.roomForSocket cfg = true) :
    s.Rooms cfg { s with rawSockets := s.rawSockets + 1 } := by
  simp only [State.roomForSocket, Bool.and_eq_true, decide_eq_true_eq] at h
  obtain ⟨hun, htotal⟩ := h
  refine ⟨?_, ?_⟩
  · simp only [State.total] at htotal ⊢
    omega
  · simp only [State.unauthenticated] at hun ⊢
    omega

/-- A socket is given up. -/
theorem rooms_fewer (s : State) : s.Rooms cfg { s with rawSockets := s.rawSockets - 1 } := by
  refine ⟨?_, ?_⟩
  · simp only [State.total]
    omega
  · simp only [State.unauthenticated]
    omega

/-- A socket becomes a connection without a session. -/
theorem rooms_open (hraw : s.rawSockets ≠ 0) :
    State.Rooms cfg { s with connections := s.connections ++ [{}] }
      { s with
        connections := s.connections ++ [{}]
        rawSockets := s.rawSockets - 1
        openConnections := s.openConnections ++ [s.connections.length] } := by
  refine ⟨?_, ?_⟩
  · simp only [State.total, List.length_append, List.length_singleton]
    omega
  · simp only [State.unauthenticated, List.filter_append, List.length_append]
    have hone := List.length_filter_le
      (fun c => ((s.connections ++ [({} : Connection)])[c]?.bind Connection.session).isNone)
      [s.connections.length]
    rw [List.length_singleton] at hone
    omega

theorem micros_connectionStep {a : Action} (hinv : s.Inv cfg) (hallows : scope.Allows s a)
    (h : connectionStep cfg s a = some s') : Micros cfg scope s s' := by
  cases a with
  | accept =>
    simp only [connectionStep] at h
    cases h
    split
    · rename_i hroom
      exact .single (.sockets hallows (rooms_accept hroom))
    · exact .refl
  | prepare ok =>
    simp only [connectionStep] at h
    split at h
    · cases h
    · rename_i hraw
      split at h
      · split at h
        · cases h
          exact .tail (.single (.connect rfl rfl (.inl rfl))) (.sockets hallows (rooms_open hraw))
        · cases h
          refine .tail (.single (.connect ?_ ?_ (.inr ⟨rfl, ?_⟩)))
            (.sockets hallows (rooms_fewer _))
          · exact (Connection.Quiet.close _).session
          · exact (Connection.Quiet.close _).log
          · exact Connection.closed_close _
      · cases h
        exact .single (.sockets hallows (rooms_fewer _))
  | hello c hello principal =>
    simp only [connectionStep] at h
    split at h
    · rename_i hreader
      cases h
      exact (locked_handshake hallows hreader).micros
    · cases h
  | welcome c =>
    simp only [connectionStep] at h
    split at h
    · cases h
      exact ((locked_send (.plain rfl)).trans (locked_setReader .reading)).micros
    · cases h
  | receive c m =>
    simp only [connectionStep] at h
    split at h
    · split at h
      · cases h
      · cases h
        exact (locked_setReader (.handling m)).micros
    · cases h
  | handle c now grant statistics =>
    simp only [connectionStep] at h
    split at h
    · rename_i m hreader
      cases h
      exact (handles_message hinv hallows.1 m.encodable (hallows.2 m hreader)).after.micros
    · cases h
  | answer c =>
    simp only [connectionStep] at h
    split at h
    · rename_i m hreader
      cases h
      obtain ⟨conn, hc, hans⟩ := Option.map_eq_some_iff.mp hreader
      have hm := hinv.wf.answering c conn m hc hans
      exact ((locked_send (.plain hm)).trans (locked_setReader .reading)).micros
    · cases h
  | endRead c =>
    simp only [connectionStep] at h
    split at h
    · cases h
      exact (locked_setReader .leaving).micros
    · cases h
      exact (locked_setReader .leaving).micros
    · cases h
  | malformed c text =>
    simp only [connectionStep] at h
    split at h
    · cases h
      exact (locked_setReader (.failing text)).micros
    · cases h
      exact (locked_setReader (.failing text)).micros
    · cases h
  | report c =>
    simp only [connectionStep] at h
    split at h
    · cases h
      exact (((locked_send (.plain rfl)).trans (locked_flush c)).trans (locked_setReader .leaving)).micros
    · cases h
  | disconnect c =>
    simp only [connectionStep] at h
    split at h
    · rename_i hreader
      cases h
      obtain ⟨conn, hc, -⟩ := Option.map_eq_some_iff.mp hreader
      exact (locked_disconnect hinv hallows.1 hallows.2.1 hallows.2.2 hc).micros
    · cases h
  | write c result =>
    simp only [connectionStep] at h
    split at h
    · split at h
      · cases h
        refine (locked_quiet fun conn => ?_).micros
        unfold Connection.write
        split
        · exact .refl conn
        · exact ⟨rfl, rfl, id, rfl, rfl⟩
        · exact ⟨rfl, rfl, id, rfl, rfl⟩
        · split
          · exact ⟨rfl, rfl, id, rfl, rfl⟩
          · rename_i rest _ _
            have hq := @Connection.Quiet.close cfg { conn with outbound := rest }
            exact ⟨hq.session, hq.log, hq.closed, hq.reader, hq.cleanClose⟩
          · exact ⟨rfl, rfl, id, rfl, rfl⟩
      · cases h
    · cases h
  | _ => cases h

theorem micros_dispatcherStep {a : Action} (hinv : s.Inv cfg) (hallows : scope.Allows s a)
    (h : dispatcherStep cfg s a = some s') : Micros cfg scope s s' := by
  cases a with
  | dispatch now =>
    simp only [dispatcherStep] at h
    split at h
    · rename_i hidle
      cases h
      exact micros_dispatch hinv hidle hallows.1 hallows.2
    · cases h
  | submitLocal answer =>
    simp only [dispatcherStep] at h
    split at h
    · rename_i r f hd
      cases answer with
      | queued =>
        cases h
        exact .single (.work (.submitted hd))
      | full =>
        cases h
        exact .single (.work (.refused hd (.inl rfl)))
      | raises text =>
        cases h
        exact .single (.work (.refused hd (.inr ⟨_, rfl⟩)))
    · cases h
  | requeue =>
    simp only [dispatcherStep] at h
    split at h
    · rename_i r f hd
      cases h
      have hbefore : s.dispatcher.before = some (r, f) := by rw [hd]; rfl
      obtain ⟨-, record, -, hr, -⟩ := hinv.placed.before r f hbefore
      exact .single (.requeue (hallows _) hd hr)
    · cases h
  | completeFailed =>
    simp only [dispatcherStep] at h
    split at h
    · rename_i r f outcome hd
      cases h
      exact micros_completeFailed hinv hd hallows.1 (hallows.2 r f outcome hd)
    · cases h
  | attach =>
    simp only [dispatcherStep] at h
    split at h
    · rename_i r f hd
      have hafter : s.dispatcher.after = some (r, f) := by rw [hd]; rfl
      obtain ⟨fut, record, hfut, hr, hlocal, hsub, -⟩ := hinv.placed.after r f hafter
      have hempty : Micros cfg scope s (s.setRecord r fun record => { record with payload := [] }) :=
        .single (.emptied (hallows _) hr ⟨f, fut, hlocal, hfut, hsub⟩)
      refine hempty.trans ?_
      rw [show (s.setRecord r fun record => { record with payload := [] }).futures[f]? = some fut
        from hfut] at h
      dsimp only at h
      split at h
      · rename_i hphase
        cases h
        refine .single (.work (.attach hd hfut ?_))
        unfold LocalFuture.pending
        rw [hphase]
      · rename_i outcome hphase
        cases h
        refine .single (.work (.call hd hfut ?_))
        unfold LocalFuture.pending
        rw [hphase]
    · cases h
  | callAttached =>
    simp only [dispatcherStep] at h
    split at h
    · rename_i r f hd
      cases h
      exact micros_callAttached hinv hd hallows.1 (hallows.2 r f hd)
    · cases h
  | _ => cases h

theorem micros_poolStep {a : Action} (hinv : s.Inv cfg) (hallows : scope.Allows s a)
    (h : poolStep cfg s a = some s') : Micros cfg scope s s' := by
  cases a with
  | claim f pid now =>
    simp only [poolStep] at h
    split at h
    · rename_i fut hfut
      split at h
      · rename_i hsub
        cases h
        exact (locked_claimDispatch hinv hfut hsub hallows.1
          (fun record hr => (hallows.2 fut record hfut hr).1)
          fun record hr => (hallows.2 fut record hfut hr).2).micros
      · cases h
    · cases h
  | finish f outcome =>
    simp only [poolStep] at h
    split at h
    · rename_i fut hfut
      split at h
      · rename_i hphase
        split at h
        · rename_i hsub
          cases h
          refine .single (.work (.finish hfut ?_ hsub (hallows s.flips)))
          unfold LocalFuture.pending
          rw [hphase]
        · cases h
      · cases h
    · cases h
  | notify f =>
    simp only [poolStep] at h
    split at h
    · rename_i fut hfut
      split at h
      · rename_i hn
        cases h
        exact micros_notify hinv hfut hn hallows.1 (hallows.2 fut hfut)
      · cases h
    · cases h
  | shutdown cancelFutures deadline =>
    simp only [poolStep] at h
    cases h
    unfold State.shutdown
    split
    · exact .refl
    · refine .single (.flags ?_)
      split
      · rename_i hrunning
        exact .draining hrunning
      · exact .same
  | shutdownTurn now =>
    simp only [poolStep] at h
    split at h
    · cases h
      exact (locked_shutdownTurn hinv hallows.1 hallows.2).micros
    · cases h
  | flush c =>
    simp only [poolStep] at h
    split at h
    · cases h
      exact (locked_flush c).micros
    · cases h
  | goaway c =>
    simp only [poolStep] at h
    split at h
    · cases h
      exact (locked_send (.plain rfl)).micros
    · cases h
  | drop c =>
    simp only [poolStep] at h
    split at h
    · cases h
      exact (locked_quiet .close).micros
    · cases h
  | stopped =>
    simp only [poolStep] at h
    split at h
    · rename_i hstopping
      cases h
      exact .single (.flags (.stopped hstopping))
    · cases h
  | _ => cases h

/-- **A step is a sequence of changes** within a scope that allows its action. -/
theorem step_micros {l : Label} (hinv : s.Inv cfg) (hallows : scope.Allows s l.action)
    (h : step cfg s l = some s') : Micros cfg scope s s' := by
  have hflips : Locked cfg scope s { s with flips := l.flips } := locked_flips _
  have hinv' := hflips.inv hinv
  have hallows' : scope.Allows { s with flips := l.flips } l.action := hallows.flips l.flips
  obtain ⟨x, hx, rfl⟩ := Option.map_eq_some_iff.mp h
  have hstep : Micros cfg scope { s with flips := l.flips } x := by
    rcases Option.or_eq_some_iff.mp hx with hx | ⟨-, hx⟩
    · exact micros_connectionStep hinv' hallows' hx
    · rcases Option.or_eq_some_iff.mp hx with hx | ⟨-, hx⟩
      · exact micros_dispatcherStep hinv' hallows' hx
      · exact micros_poolStep hinv' hallows' hx
  exact (hflips.micros.trans hstep).trans (locked_flips []).micros

end Operations

/-- Every reachable state of the broker. -/
theorem reachable_inv {cfg : Config} {C : State → Label → Prop} {s : State}
    (h : (broker cfg).Reach C s) : s.Inv cfg := by
  refine h.invariant (State.Inv.init cfg) fun s l s' _ hinv _ hstep => ?_
  exact hinv.micros (step_micros hinv (Scope.allows_all s l.action) hstep)

/-! ## Where requests are -/

theorem Micro.masked {cfg : Config} {scope : Scope} {s s' : State} (hm : Micro cfg scope s s') :
    s'.masked = s.masked := by
  cases hm with
  | @requeue r =>
    unfold State.requeue
    dsimp only
    split
    · rfl
    · split <;> rfl
  | @unregister i =>
    unfold State.unregister
    split
    · rfl
    · split <;> rfl
  | work hw => cases hw <;> rfl
  | _ => rfl

theorem Micros.masked {cfg : Config} {scope : Scope} {s s' : State} (hm : Micros cfg scope s s') :
    s'.masked = s.masked := by
  induction hm with
  | refl => rfl
  | tail _ hstep ih => exact hstep.masked.trans ih

/-- No decrement is skipped. -/
theorem reachable_masked {cfg : Config} {s : State} (h : (broker cfg).Reachable s) :
    s.masked = false := by
  refine h.invariant (I := fun s => s.masked = false) rfl fun s l s' hs hmasked _ hstep => ?_
  have hmicros := step_micros (reachable_inv hs) (Scope.allows_all s l.action) hstep
  exact hmicros.masked.trans hmasked

/-- The request waits in the scheduler, once, and has its payload. -/
def QueuedAt (cfg : Config) (plan : Plan Nat) (r : Nat) (record : Request) : Prop :=
  (∀ p q, plan.Queued r p q ↔ p = record.priority ∧ q = record.principal) ∧
    record.state = .acceptedQueued ∧ record.localFuture = none ∧
    record.digest = (cfg.sha256 record.payload).text

/-- The request is staged: its local future is in the pool, or the dispatcher is about to put it there. -/
def State.StagedAt (s : State) (plan : Plan Nat) (r : Nat) (record : Request) : Prop :=
  (∀ p q, ¬ plan.Queued r p q) ∧ ∃ (f : Nat) (fut : LocalFuture), record.localFuture = some f ∧
    s.futures[f]? = some fut ∧ fut.record = r ∧ s.unended f = true ∧
    (fut.submitted = true ∨ s.dispatcher.before = some (r, f))

theorem State.Inv.stagedAt {cfg : Config} {s : State} (hinv : s.Inv cfg) {plan : Plan Nat}
    (hs : s.Schedules plan) {r f : Nat} {record : Request} (hr : s.records[r]? = some record)
    (halive : record.state.terminal = false) (hf : record.localFuture = some f) :
    s.StagedAt plan r record := by
  obtain ⟨fut, hfut, hrecord⟩ := hinv.wf.localFuture r record f hr hf
  have hopen := hinv.placed.staged r record f hr halive hf
  refine ⟨?_, f, fut, hf, hfut, hrecord, hopen, ?_⟩
  · intro p q hq
    obtain ⟨record', hr', hw, -⟩ := (hs r p q).mp hq
    rw [hr] at hr'
    cases hr'
    have hnone := hw.2
    rw [hf] at hnone
    cases hnone
  · rw [State.Placed.unended_of_some hfut, Bool.or_eq_true] at hopen
    rcases hopen with hholds | hwatched
    · obtain ⟨r', hd | hd⟩ := Dispatcher.holds_iff.mp hholds
      · obtain ⟨fut', record', hfut', hr', hf', -⟩ := hinv.placed.before r' f hd
        obtain ⟨fut'', hfut'', hrecord'⟩ := hinv.wf.localFuture r' record' f hr' hf'
        rw [hfut] at hfut''
        cases hfut''
        right
        rw [hd, ← hrecord, ← hrecord']
      · obtain ⟨fut', record', hfut', -, -, hsub, -⟩ := hinv.placed.after r' f hd
        rw [hfut] at hfut'
        cases hfut'
        exact .inl hsub
    · unfold LocalFuture.watched at hwatched
      rw [Bool.and_eq_true] at hwatched
      exact .inl (hinv.placed.attached f fut hfut hwatched.1).1

/-- **Every accepted request that has not ended is in one place.**  It is queued once in the scheduler at
its priority and principal, with its payload, or it is staged.  Only requests that have not ended are in
the scheduler.  `_staged` counts the stagings whose end has not been processed: it stays within its
bounds, and no guard skips a decrement. -/
theorem requests_placed (cfg : Config) {s : State} (h : (broker cfg).Reachable s) :
    ∃ plan, Represents s.scheduler plan ∧ plan.Distinct ∧
      (∀ (r : Nat) (record : Request), s.records[r]? = some record → record.state.terminal = false →
        QueuedAt cfg plan r record ∨ s.StagedAt plan r record) ∧
      (∀ r p q, plan.Queued r p q → ∃ record : Request, s.records[r]? = some record ∧
        record.state.terminal = false) ∧
      s.staged = s.unendedCount ∧ 0 ≤ s.staged ∧ s.staged ≤ cfg.limits.maxStagedTasks ∧
      s.masked = false := by
  have hinv := reachable_inv h
  obtain ⟨plan, hrep, hd, hs⟩ := hinv.placed.scheduled
  have hcount := hinv.placed.count
  refine ⟨plan, hrep, hd, ?_, ?_, hcount, by omega, hinv.placed.bound, reachable_masked h⟩
  · intro r record hr halive
    cases hf : record.localFuture with
    | some f => exact .inr (hinv.stagedAt hs hr halive hf)
    | none =>
      obtain ⟨hstate, hdigest⟩ := hinv.placed.waiting hr ⟨halive, hf⟩
      refine .inl ⟨fun p q => ?_, hstate, hf, hdigest⟩
      rw [hs r p q]
      constructor
      · rintro ⟨record', hr', -, hp, hq⟩
        rw [hr] at hr'
        cases hr'
        exact ⟨hp, hq⟩
      · rintro ⟨hp, hq⟩
        exact ⟨record, hr, ⟨halive, hf⟩, hp, hq⟩
  · intro r p q hq
    obtain ⟨record, hr, hw, -⟩ := (hs r p q).mp hq
    exact ⟨record, hr, hw.1⟩

/-- Two requests, one of which has been handed to a worker. -/
def sampleRun : List Label :=
  openSession 0 (lit "a") ++
    deliver 0 (sampleMessage .submit (lit "a:1") encodable_a1) ++
    deliver 0 (sampleMessage .submit (lit "a:2") encodable_a2) ++
    stageNext ++ [⟨.claim 0 77 early, []⟩]

theorem requests_placed_sampleRun : ∃ s,
    (broker (sampleConfig .cancelQueued)).run {} sampleRun = some s ∧
      s.records.map Request.state = [.running, .acceptedQueued] ∧
      ∃ plan, Represents s.scheduler plan ∧ plan.Distinct ∧
        (∀ (r : Nat) (record : Request), s.records[r]? = some record → record.state.terminal = false →
          QueuedAt (sampleConfig .cancelQueued) plan r record ∨ s.StagedAt plan r record) ∧
        (∀ r p q, plan.Queued r p q → ∃ record : Request, s.records[r]? = some record ∧
          record.state.terminal = false) ∧
        s.staged = s.unendedCount ∧ 0 ≤ s.staged ∧
        s.staged ≤ (sampleConfig .cancelQueued).limits.maxStagedTasks ∧ s.masked = false := by
  have hstates : (((broker (sampleConfig .cancelQueued)).run {} sampleRun).map fun s =>
      s.records.map Request.state) = some [.running, .acceptedQueued] := by decide +kernel
  obtain ⟨s, hrun, hstates⟩ := Option.map_eq_some_iff.mp hstates
  exact ⟨s, hrun, hstates, requests_placed _ (System.reachable_of_run hrun)⟩

end Deadpool.Remote.Broker
