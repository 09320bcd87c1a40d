import Deadpool.Remote.Certainty
import Deadpool.Remote.Client.Noted

/-!
# A client that hears `GOAWAY`

A server that stops says `GOAWAY` after the end of every request of the connection.  A client that hears
it while its connection holds has noted every outcome that was said before, so that the loss of the
connection that follows takes none of them away.

Principal results:

* `Link.reachable_dealt`   : while the connection holds, what the receiver has dealt with is noted;
* `goodbye_keeps_outcomes` : a future whose request was accepted ends as the server has ended it.
-/

set_option autoImplicit false

namespace Deadpool.Remote

open Deadpool.Py Deadpool.Lts

namespace Link

section Goodbye

variable {V X : Type} {cfg : Client.Config V X} {scfg : Broker.Config} {c : Nat} {s t : Link V X}

/-! ## The server -/

/-- What the server handles is a submission of one live session only. -/
def soleOwnerStep (s : Link V X) : Label X → Bool
  | .server l => Broker.soleOwnerStep s.server l
  | .connect | .client _ | .arrive _ | .hear => true

/-- A step of the system does nothing to the server, or is a step of the server. -/
theorem step_server {l : Label X} (hs : s.step cfg scfg c l = some t) : t.server = s.server ∨
    ∃ l', Broker.step scfg s.server l' = some t.server ∧
      (s.soleOwnerStep l = true → Broker.soleOwnerStep s.server l' = true) := by
  cases step_turn hs with
  | connect | client | hear => exact .inl rfl
  | server _ hserver => exact .inr ⟨_, hserver, id⟩
  | arrive _ _ hserver => exact .inr ⟨_, hserver, fun _ => rfl⟩

theorem reach_server (h : (link cfg scfg c).Reach (fun s l => s.soleOwnerStep l = true) s) :
    (Broker.broker scfg).Reach (fun s l => Broker.soleOwnerStep s l = true) s.server := by
  refine h.invariant (I := fun s : Link V X =>
    (Broker.broker scfg).Reach (fun s l => Broker.soleOwnerStep s l = true) s.server) .init ?_
  intro s l t _ hserver hsole hs
  rcases step_server hs with hsame | ⟨l', hl, hsole'⟩
  · rw [hsame]
    exact hserver
  · exact .step hserver (hsole' hsole) hl

/-! ## The first message -/

/-- The client has heard nothing, or the log of the connection begins with `WELCOME`. -/
structure Greeted (cfg : Client.Config V X) (c : Nat) (s : Link V X) : Prop where
  quiet : s.connected = false → s.client = (Client.endpoint cfg).init
  welcome : s.connected = true → ∃ entry rest, s.server.logOf c = entry :: rest ∧
    entry.message.kind = .welcome

/-- The server adds to the log of the connection. -/
theorem Greeted.serve (h : s.Greeted cfg c) (hl : Linked cfg scfg c s) {l : Broker.Label}
    (hserver : Broker.step scfg s.server l = some t.server) (hclient : t.client = s.client)
    (hconnected : t.connected = s.connected) : t.Greeted cfg c := by
  refine ⟨fun hnot => ?_, fun hyes => ?_⟩
  · rw [hclient]
    exact h.quiet (hconnected ▸ hnot)
  · obtain ⟨entry, rest, hlog, hkind⟩ := h.welcome (hconnected ▸ hyes)
    obtain ⟨entries, hmore, -⟩ := Broker.step_extends (Broker.reachable_telling hl.server) hserver c
    exact ⟨entry, rest ++ entries, by rw [hmore, hlog]; rfl, hkind⟩

theorem Greeted.step {l : Label X} (h : s.Greeted cfg c) (hl : Linked cfg scfg c s)
    (hs : s.step cfg scfg c l = some t) : t.Greeted cfg c := by
  cases step_turn hs with
  | @connect session entry rest hsession hwritten hkind hid =>
    refine ⟨fun hnot => (by cases hnot), fun _ => ?_⟩
    have hfirst : (s.server.logOf c)[0]? = some entry := written_log (by rw [hwritten]; rfl)
    show ∃ entry rest, s.server.logOf c = entry :: rest ∧ entry.message.kind = .welcome
    cases hlog : s.server.logOf c with
    | nil =>
      rw [hlog] at hfirst
      cases hfirst
    | cons entry' rest' =>
      rw [hlog] at hfirst
      cases hfirst
      exact ⟨entry, rest', rfl, hkind⟩
  | client hconnected =>
    exact ⟨fun hnot => absurd (hconnected.symm.trans hnot) (by decide), h.welcome⟩
  | server _ hserver => exact h.serve hl hserver rfl rfl
  | arrive _ _ hserver => exact h.serve hl hserver rfl rfl
  | hear _ hclient =>
    refine ⟨fun hnot => ?_, h.welcome⟩
    -- a client that is not connected is not reading
    rw [h.quiet hnot] at hclient
    cases hclient

theorem reachable_greeted (h : (link cfg scfg c).Reachable s) : s.Greeted cfg c := by
  have hinit : Greeted cfg c (link cfg scfg c).init := ⟨fun _ => rfl, fun h => by cases h⟩
  exact h.invariant hinit fun _ _ _ hreach hgreeted _ hs => hgreeted.step (reachable_linked hreach) hs

/-- Who has heard something is connected. -/
theorem Greeted.connected (h : s.Greeted cfg c) {m : Message} (hm : m ∈ s.client.heard) :
    s.connected = true := by
  cases hconnected : s.connected with
  | true => rfl
  | false =>
    rw [h.quiet hconnected] at hm
    exact absurd hm List.not_mem_nil

/-! ## What the receiver has dealt with -/

/-- A report that was heard is about a future of the client. -/
theorem Linked.submitted (h : Linked cfg scfg c s) {m : Message} (hm : m ∈ s.client.heard)
    (hkind : m.kind.reports = true) : ∃ g, g < s.client.client.handles.length ∧
      Client.requestIdIn m = .str (s.client.client.idOf cfg g) := by
  obtain ⟨entry, hentry, rfl⟩ := h.logged hm
  obtain ⟨r, record, -, hr, hcon, hid, -⟩ :=
    (Broker.reachable_attributed h.server).log c entry hentry hkind
  have haccepted : 0 < s.server.names.count (c, record.requestId) :=
    accepted_iff.mp ⟨r, record, hr, hcon, rfl⟩
  have hspent := h.spent_on_wire record.requestId
  obtain ⟨post, hpost, hsubmits⟩ := List.countP_pos_iff.mp
    (show 0 < s.client.wire.countP (fun post => Broker.submits record.requestId post.1) by omega)
  obtain ⟨hsubmit, hpostId⟩ := Broker.submits_iff.mp hsubmits
  have hregistered := Client.State.reachable_registered (Client.reachable_client h.client)
  obtain ⟨failed, hwired⟩ := Client.reachable_wired h.client
  obtain ⟨g, -, hg, hgId⟩ := (hwired.carried hregistered.posted hpost).submit hsubmit
  refine ⟨g, hg, ?_⟩
  have hsame : Value.str _ = .str _ := hgId.symm.trans hpostId
  rw [Value.str.inj hsame]
  exact get_sorted_str.mpr hid

/-- While the connection holds, the receiver has noted every outcome that it has dealt with. -/
theorem reachable_dealt (h : (link cfg scfg c).Reachable s)
    (hopen : s.client.client.rpc.transportFailed = false) : ∃ handed, s.client.Dealt cfg handed := by
  refine h.invariant (I := fun s : Link V X => s.client.client.rpc.transportFailed = false →
    ∃ handed, s.client.Dealt cfg handed) (fun _ => ⟨[], .init⟩) ?_ hopen
  intro s l t hreach hdealt _ hs hopen'
  have hlinked := reachable_linked hreach
  rcases step_client hs with hsame | ⟨l', hl⟩
  · rw [hsame] at hopen' ⊢
    exact hdealt hopen'
  · have hadvance := Client.Endpoint.step_advance hlinked.client hl
    have hclient := Client.reachable_client hlinked.client
    have hopen : s.client.client.rpc.transportFailed = false := by
      cases hfailed : s.client.client.rpc.transportFailed with
      | false => rfl
      | true => exact ((Client.State.move_loss_stage hadvance.move).failed hfailed).symm.trans hopen'
    obtain ⟨handed, hd⟩ := hdealt hopen
    refine hd.step hopen (Client.reachable_owned hlinked.client) (Client.State.reachable_covered hclient)
      hadvance fun m hm hkind f htold => ?_
    -- the server reports on registered futures only, so the future is not the one that is new
    obtain ⟨g, hg, hgId⟩ := hlinked.submitted hm (reports_of_terminal hkind)
    have hregistered := Client.State.reachable_registered
      (Client.reachable_client (reachable_linked (.step hreach trivial hs)).client)
    have htouch := Client.move_touch hadvance.move
    have hsame : Value.str _ = .str _ := hgId.symm.trans htold.names
    have hfg : g = f := by
      refine hregistered.catalog.idOf_injective (Nat.lt_of_lt_of_le hg htouch.length) htold.known ?_
      rw [htouch.idOf hg]
      exact Value.str.inj hsame
    subst hfg
    exact ⟨hg, hm, hgId⟩

/-! ## Before `GOAWAY` -/

/-- Where the client has heard `GOAWAY`, it has heard the end of every accepted request before. -/
theorem Linked.ended_before_goaway (h : Linked cfg scfg c s) (hgreeted : s.Greeted cfg c)
    (hfarewell : s.server.Farewell) {before after : List Message} {m : Message}
    (hheard : s.client.heard = before ++ m :: after) (hkind : m.kind = .goaway) {f : Nat}
    (hf : f < s.client.client.handles.length) (haccepted : s.Accepted c (s.client.client.idOf cfg f)) :
    ∃ m' ∈ before, m'.kind.terminal = true ∧ s.client.Told cfg f m' := by
  have hm : m ∈ s.client.heard := by
    rw [hheard]
    exact List.mem_append_right _ List.mem_cons_self
  obtain ⟨welcome, rest, hlog, hwelcome⟩ := hgreeted.welcome (hgreeted.connected hm)
  obtain ⟨later, hlater⟩ := h.heard
  rw [hlog, hheard, List.append_assoc] at hlater
  obtain ⟨told, rest', hrest, htold, hrest'⟩ := List.map_eq_append_iff.mp hlater.symm
  obtain ⟨entry, rest'', hentry, hsorted, -⟩ := List.map_eq_cons_iff.mp hrest'
  have hsplit : s.server.logOf c = (welcome :: told) ++ entry :: rest'' := by
    rw [hlog, ← hentry]
    exact congrArg (welcome :: ·) hrest
  cases hc : s.server.connections[c]? with
  | none =>
    unfold Broker.State.logOf at hlog
    rw [hc] at hlog
    cases hlog
  | some conn =>
    have hconn : conn.log = (welcome :: told) ++ entry :: rest'' := by
      rw [← hsplit]
      unfold Broker.State.logOf
      rw [hc]
      rfl
    have hgoaway : entry.message.kind = .goaway := by
      rw [← hkind, ← hsorted]
      rfl
    obtain ⟨r, record, hr, hcon, hid⟩ := haccepted
    obtain ⟨hterm, e, he, hrecord, hreport⟩ :=
      (hfarewell c conn _ entry _ hc hconn hgoaway).2 r record hr hcon
    obtain ⟨kind, hended, hterminal⟩ :=
      (Broker.reachable_telling h.server).lived.reported.kinds r record hr hterm
    have hkinds : e.message.kind = kind := Option.some.inj (hreport.symm.trans hended)
    rw [← hkinds] at hterminal
    rcases List.mem_cons.mp he with rfl | he
    · rw [hwelcome] at hterminal
      cases hterminal
    · have hlogged : e ∈ s.server.logOf c := by
        rw [hsplit]
        exact List.mem_append_left _ (List.mem_cons_of_mem _ he)
      obtain ⟨r', record', hrecord', hr', -, hid', -⟩ :=
        (Broker.reachable_attributed h.server).log c e hlogged (reports_of_terminal hterminal)
      rw [hrecord] at hrecord'
      cases hrecord'
      rw [hr] at hr'
      cases hr'
      have hm' : e.message.sorted ∈ before := htold ▸ List.mem_map_of_mem he
      refine ⟨_, hm', hterminal, hf, ?_, ?_⟩
      · rw [hheard]
        exact List.mem_append_left _ hm'
      · rw [← hid]
        exact get_sorted_str.mpr hid'

/-! ## Outcomes -/

/-- The message says how the server has ended the request of the future. -/
structure Committed (cfg : Client.Config V X) (s : Link V X) (c f : Nat) (m : Message) : Prop where
  told : s.client.Told cfg f m
  terminal : m.kind.terminal = true
  record : ∃ (r : Nat) (record : Broker.Request), s.server.records[r]? = some record ∧
    record.connection = c ∧ record.requestId = s.client.client.idOf cfg f ∧
    record.state.terminal = true ∧ record.terminalKind = some m.kind

/-- The future ends as the server has ended its request, or has been cancelled by a decision of the
server. -/
inductive Kept (cfg : Client.Config V X) (s : Link V X) (c f : Nat) : Prop
  | pending (m : Message) : .complete f m ∈ s.client.client.jobs → s.Committed cfg c f m → Kept cfg s c f
  | completed (m : Message) (handle : Client.Handle V X) : s.client.client.handles[f]? = some handle →
      s.Committed cfg c f m →
      handle.future.base = (cfg.runtime.completion (s.client.client.idOf cfg f) m).leaves → Kept cfg s c f
  | cancelled (decision : Value) (handle : Client.Handle V X) :
      s.client.client.handles[f]? = some handle → s.client.Decides f decision →
      Broker.isText (lit "cancelled") decision = true →
      handle.future.base =
        (Client.Operation.setCancelled : Client.Operation V (Client.Failure X)).leaves → Kept cfg s c f

theorem Linked.committed (h : Linked cfg scfg c s) {f : Nat} {m : Message}
    (htold : s.client.Told cfg f m) (hterminal : m.kind.terminal = true) : s.Committed cfg c f m := by
  obtain ⟨r, record, hr, hcon, hid, hhow⟩ := h.reported htold (reports_of_terminal hterminal)
  exact ⟨htold, hterminal, r, record, hr, hcon, hid, hhow hterminal⟩

/-- What was accepted and is noted keeps its outcome, unless the future has ended with a loss. -/
theorem Linked.kept (h : Linked cfg scfg c s) {f : Nat} (hf : f < s.client.client.handles.length)
    (haccepted : s.Accepted c (s.client.client.idOf cfg f)) (hspared : ¬ s.client.client.Lost f)
    (hnoted : s.client.client.futureDone f = true ∨ ∃ m, (f, m) ∈ s.client.client.recorded) :
    s.Kept cfg c f := by
  have hclient := Client.reachable_client h.client
  have hregistered := Client.State.reachable_registered hclient
  have hexplained := Client.Endpoint.reachable_explained h.client
  cases hdone : s.client.client.futureDone f with
  | true =>
    obtain ⟨handle, hhandle, hended⟩ := Client.State.futureDone_lookup hdone
    rcases hexplained.ends f handle hhandle with hempty | ⟨op, hcause, hbase⟩
    · unfold Client.RemoteFuture.done at hended
      rw [hempty] at hended
      cases hended
    cases hcause with
    | withdrawn hlocal => exact absurd haccepted (h.unaccepted_of_withdrawn hf hlocal)
    | decided decision hdecides htext => exact .cancelled decision handle hhandle hdecides htext hbase
    | completed m htold hkind => exact .completed m handle hhandle (h.committed htold hkind) hbase
    | rejected m htold hkind => exact absurd haccepted (h.unaccepted_of_rejected htold hkind)
    | lost error hgrounds =>
      refine absurd ⟨handle, error, hhandle, ?_, hgrounds.loses⟩ hspared
      rw [hbase]
      rfl
  | false =>
    rw [hdone] at hnoted
    obtain ⟨m, hm⟩ := hnoted.resolve_left Bool.false_ne_true
    have hspares := Client.State.reachable_spared hclient
    rcases (hspares.kept _ hm).2 with hmark | hdone'
    · obtain ⟨g, hg, hsame, hresolving⟩ := (Client.State.reachable_covered hclient).marks _ hmark
      obtain rfl : f = g := hregistered.catalog.idOf_injective hf hg hsame
      rcases hresolving with hdone' | ⟨job, hjob, hsettles⟩
      · exact absurd (hdone.symm.trans hdone') Bool.false_ne_true
      have hbacks := hexplained.jobs job hjob
      cases job with
      | accepted | running => cases hsettles
      | complete g m' =>
        obtain rfl : g = f := hsettles
        exact .pending m' hjob (h.committed hbacks.1 hbacks.2)
      | reject g control =>
        obtain rfl : g = f := hsettles
        obtain ⟨m', htold, hkind, -⟩ := hbacks
        exact absurd haccepted (h.unaccepted_of_rejected htold hkind)
      | fail g error =>
        obtain rfl : g = f := hsettles
        exact absurd hjob (hspares.jobs _ hm error)
    · exact absurd (hdone.symm.trans hdone') Bool.false_ne_true

end Goodbye

end Link

/-! ## Results -/

/-- **A client that hears `GOAWAY` loses no outcome.**  If the client has heard `GOAWAY` while its
connection held, every future whose request the server had accepted ends as the server has ended the
request, or by a decision of the server to cancel it; otherwise the completion with that end waits or
runs.  This holds at that time and in every continuation, and the future never ends with the error of a
loss. -/
theorem goodbye_keeps_outcomes {V X : Type} (cfg : Client.Config V X) (scfg : Broker.Config) (c : Nat)
    (hloads : ∀ payload error, cfg.runtime.loads payload ≠ .error (.remote error)) {s t : Link V X}
    {ls : List (Link.Label X)} (h : (link cfg scfg c).Reach (fun s l => s.soleOwnerStep l = true) s)
    (hopen : s.client.client.rpc.transportFailed = false) {m : Message} (hgoaway : m ∈ s.client.heard)
    (hkind : m.kind = .goaway) {f : Nat} (hf : f < s.client.client.handles.length)
    (haccepted : s.Accepted c (s.client.client.idOf cfg f))
    (hrun : (link cfg scfg c).run s ls = some t) :
    t.Kept cfg c f ∧ ¬ t.client.client.Lost f := by
  have hreach := h.reachable
  have hs := Link.reachable_linked hreach
  have ht := Link.reachable_linked (hreach.of_run hrun)
  obtain ⟨before, after, hheard⟩ := List.append_of_mem hgoaway
  obtain ⟨m', hm', hterminal, htold⟩ := hs.ended_before_goaway (Link.reachable_greeted hreach)
    (Broker.reach_farewell (Link.reach_server h)) hheard hkind hf haccepted
  obtain ⟨handed, hdealt⟩ := Link.reachable_dealt hreach hopen
  have hnoted := hdealt.noted m' (hdealt.mem_handed hheard hm') hterminal f htold
  have htold' : t.client.Told cfg f m' := Link.run_client (I := fun e => e.Told cfg f m')
    (fun _ _ _ hreach htold hs => htold.later (Client.Endpoint.step_advance hreach hs)) hreach htold hrun
  obtain ⟨r, record, hr, hcon, hid, -⟩ := ht.reported htold' (Link.reports_of_terminal hterminal)
  have hend : ¬ t.client.client.Lost f ∧ (t.client.client.futureDone f = true ∨
      ∃ m, (f, m) ∈ t.client.client.recorded) := by
    rcases hnoted with hdone | ⟨m'', hrecorded⟩ | hdropped
    · obtain ⟨handle, hhandle, hended⟩ := Client.State.futureDone_lookup hdone
      obtain ⟨handle', hhandle', hsame, -⟩ := Link.run_ended hreach hrun hhandle hended
      refine ⟨?_, .inl ?_⟩
      · rintro ⟨handle'', error, hhandle'', herror, hloses⟩
        rw [hhandle'] at hhandle''
        cases hhandle''
        rw [hsame] at herror
        exact (Client.State.reachable_unscathed hloads (Client.reachable_client hs.client)).early hopen f
          ⟨handle, error, hhandle, herror, hloses⟩
      · rw [Client.State.futureDone_eq hhandle', hsame]
        exact hended
    · have hrecorded' : (f, m'') ∈ t.client.client.recorded := by
        refine Link.run_client (I := fun e => (f, m'') ∈ e.client.recorded) ?_ hreach hrecorded hrun
        intro e l e' hreach hrecorded hs
        exact Client.State.recorded_kept (Client.Endpoint.step_advance hreach hs).move hrecorded
      exact ⟨(Client.State.reachable_unscathed hloads (Client.reachable_client ht.client)).recorded _
        hrecorded', .inr ⟨m'', hrecorded'⟩⟩
    · exact absurd haccepted (hs.unaccepted_of_wire hdropped.known hdropped.wire)
  exact ⟨ht.kept htold'.known ⟨r, record, hr, hcon, hid⟩ hend.1 hend.2, hend.1⟩

namespace Link

/-- The receiver schedules the completion that it holds. -/
def scheduleNext : List (Label Unit) := [.client .receiver, .client .receiver]

/-- The server stops while the first request waits; the client hears `CANCELLED` and `GOAWAY`. -/
def stopFirst : List (Label Unit) :=
  connectFirst ++ submitFirst ++
    ([⟨.shutdown true none, []⟩, ⟨.shutdownTurn Broker.early, []⟩, ⟨.shutdownTurn Broker.early, []⟩,
      ⟨.goaway 0, []⟩] : List Broker.Label).map .server ++
    hearNext ++ scheduleNext ++ hearNext ++ scheduleNext ++ hearNext

/-- The receiver loses the connection, and the lane runs what waits in its queue. -/
def loseAfter : List (Label Unit) :=
  .client .receiver :: List.replicate 5 (.client .lane)

end Link

theorem goodbye_keeps_outcomes_stopFirst : ∃ s t,
    Link.sampleLink.runWhile Link.soleOwnerStep Link.sampleLink.init Link.stopFirst = some s ∧
      Link.sampleLink.run s Link.loseAfter = some t ∧ t.client.client.rpc.transportFailed = true ∧
      t.Kept (Client.crampedClient 2) 0 0 ∧ ¬ t.client.client.Lost 0 := by
  have hrun : ((Link.sampleLink.runWhile Link.soleOwnerStep Link.sampleLink.init Link.stopFirst).bind
      fun s => (Link.sampleLink.run s Link.loseAfter).map fun t =>
        (s.client.client.rpc.transportFailed, s.client.heard.map Message.kind,
          s.client.client.handles.length,
          s.server.names.count (0, s.client.client.idOf (Client.crampedClient 2) 0),
          t.client.client.rpc.transportFailed)) =
      some (false, [.accepted, .cancelled, .goaway], 1, 1, true) := by
    decide +kernel
  obtain ⟨s, hs, hrun⟩ := Option.bind_eq_some_iff.mp hrun
  obtain ⟨t, ht, hfacts⟩ := Option.map_eq_some_iff.mp hrun
  obtain ⟨hopen, hfacts⟩ := Prod.mk.inj hfacts
  obtain ⟨hheard, hfacts⟩ := Prod.mk.inj hfacts
  obtain ⟨hlength, hfacts⟩ := Prod.mk.inj hfacts
  obtain ⟨hcount, hfailed⟩ := Prod.mk.inj hfacts
  have hloads : ∀ payload error,
      (Client.crampedClient 2).runtime.loads payload ≠ .error (.remote error) := by
    intro payload error h
    cases h
  have hgoaway : MessageType.goaway ∈ s.client.heard.map Message.kind := by
    rw [hheard]
    decide
  obtain ⟨m, hm, hkind⟩ := List.mem_map.mp hgoaway
  have haccepted : s.Accepted 0 (s.client.client.idOf (Client.crampedClient 2) 0) := by
    rw [Link.accepted_iff, hcount]
    exact Nat.one_pos
  exact ⟨s, t, hs, ht, hfailed,
    goodbye_keeps_outcomes (Client.crampedClient 2) (Broker.sampleConfig .cancelQueued) 0 hloads
      (System.Reach.of_runWhile .init _ hs) hopen hm hkind (by rw [hlength]; decide) haccepted ht⟩

end Deadpool.Remote
