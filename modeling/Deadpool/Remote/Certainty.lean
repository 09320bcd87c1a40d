import Deadpool.Remote.Link

/-!
# What a client's errors say about the server

A `RemoteExecutorError` says how certain it is that the request was accepted and that it was executed.
The client decides this from what it has heard and written, the server decides what happens.  The two
agree, whatever the interleaving and whenever the connection is lost.

Principal results:

* `certainties_hold`     : what the error of a future says of the server is so, and stays so;
* `abandoned_unaccepted` : what `submit` gives up after its registration is never accepted.
-/

set_option autoImplicit false

namespace Deadpool.Remote

open Deadpool.Py Deadpool.Lts

/-! ## What an error says -/

namespace Client

variable {V X : Type} {rt : Runtime V X}

/-- The error that a rejection by the server leads to. -/
theorem rejection_error {requestId requestId' : Str} {reason : String}
    (hreason : reason = "stale_request" ∨ reason ∈ Broker.refusals) :
    (rt.rejection requestId (Broker.rejectedMessage requestId' reason).sorted.control).acceptance =
      .notAccepted := by
  have hget : (Broker.rejectedMessage requestId' reason).sorted.control.items.get? (lit "reason") =
      some (.str (lit reason)) := by
    show (Dict.sorted _).items.get? _ = _
    rw [get?_sorted]
    show (Items.get? (Items.set _ (lit "reason") (.str (lit reason))) _).map _ = _
    rw [items_get?_set, if_pos rfl]
    rfl
  have hother : lit reason ≠ lit "queue_timeout" := by
    rcases hreason with rfl | hreason
    · decide
    · have hall : ∀ reason ∈ Broker.refusals, lit reason ≠ lit "queue_timeout" := by decide
      exact hall reason hreason
  unfold Runtime.rejection
  rw [hget]
  dsimp only [Option.getD_some]
  split
  · rfl
  · split
    · rename_i htext
      exact absurd (Value.str.inj (Broker.eq_of_isText htext)) hother
    · rfl

end Client

/-! ## What the server has accepted -/

namespace Link

variable {V X : Type} {cfg : Client.Config V X} {scfg : Broker.Config} {c : Nat} {s t : Link V X}

/-- The server has accepted a request of that ID on the connection. -/
def Accepted (s : Link V X) (c : Nat) (requestId : Str) : Prop :=
  ∃ (r : Nat) (record : Broker.Request), s.server.records[r]? = some record ∧ record.connection = c ∧
    record.requestId = requestId

/-- No request of that ID on the connection has become `RUNNING`, and no worker has claimed one. -/
def Unstarted (s : Link V X) (c : Nat) (requestId : Str) : Prop :=
  ∀ (r : Nat) (record : Broker.Request), s.server.records[r]? = some record → record.connection = c →
    record.requestId = requestId → record.startedAt = none ∧ record.claims = []

/-- What the error says of the request is so. -/
structure Certain (s : Link V X) (c : Nat) (requestId : Str) (error : Client.RemoteError) : Prop where
  notAccepted : error.acceptance = .notAccepted → ¬ s.Accepted c requestId
  accepted : error.acceptance = .accepted → s.Accepted c requestId
  notStarted : error.execution = .notStarted → s.Unstarted c requestId

theorem accepted_iff {requestId : Str} :
    s.Accepted c requestId ↔ 0 < s.server.names.count (c, requestId) := by
  rw [List.count_pos_iff]
  unfold Broker.State.names
  rw [List.mem_map]
  constructor
  · rintro ⟨r, record, hr, rfl, rfl⟩
    exact ⟨record, List.mem_of_getElem? hr, rfl⟩
  · rintro ⟨record, hrecord, hname⟩
    obtain ⟨r, hr⟩ := List.getElem?_of_mem hrecord
    obtain ⟨hcon, hid⟩ := Prod.mk.inj hname
    exact ⟨r, record, hr, hcon, hid⟩

/-- What is not accepted is not started. -/
theorem unstarted_of_not_accepted {requestId : Str} (h : ¬ s.Accepted c requestId) :
    s.Unstarted c requestId := fun r record hr hcon hid => absurd ⟨r, record, hr, hcon, hid⟩ h

/-- Only the message of a future submits its request. -/
theorem Linked.submits_le (h : Linked cfg scfg c s) {f : Nat} (hf : f < s.client.client.handles.length) :
    s.client.wire.countP (fun post => Broker.submits (s.client.client.idOf cfg f) post.1) ≤
      s.client.wire.countP (Client.State.isOf f) := by
  have hr := Client.State.reachable_registered (Client.reachable_client h.client)
  obtain ⟨failed, hwired⟩ := Client.reachable_wired h.client
  refine List.countP_mono_left fun post hpost hsubmits => ?_
  obtain ⟨hkind, hid⟩ := Broker.submits_iff.mp hsubmits
  obtain ⟨g, hg, hlt, hid'⟩ := (hwired.carried hr.posted hpost).submit hkind
  have hsame : Value.str _ = .str _ := hid'.symm.trans hid
  rw [hr.catalog.idOf_injective hlt hf (Value.str.inj hsame)] at hg
  exact decide_eq_true hg

/-- **Requests and rejections of one ID are no more than its submissions on the wire.** -/
theorem Linked.spent_on_wire (h : Linked cfg scfg c s) (requestId : Str) :
    s.server.names.count (c, requestId) + (s.server.logOf c).countP (Broker.rejects requestId) ≤
      s.client.wire.countP fun post => Broker.submits requestId post.1 := by
  obtain ⟨handled, hheeds⟩ := h.heeds
  have hsub : handled.Sublist ((s.client.wire.take s.arrived).map fun post => post.1.sorted) :=
    (List.sublist_append_left _ _).trans hheeds.inbox
  refine (hheeds.spent _).trans ((hsub.countP_le).trans ?_)
  rw [List.countP_map]
  have hsorted : (Broker.submits requestId ∘ fun post : Client.Post => post.1.sorted) =
      fun post => Broker.submits requestId post.1 := by
    funext post
    exact submits_sorted _ _
  rw [hsorted]
  exact (List.take_sublist _ _).countP_le

theorem Linked.spent_le (h : Linked cfg scfg c s) {f : Nat} (hf : f < s.client.client.handles.length) :
    s.server.names.count (c, s.client.client.idOf cfg f) +
        (s.server.logOf c).countP (Broker.rejects (s.client.client.idOf cfg f)) ≤
      s.client.wire.countP (Client.State.isOf f) :=
  (h.spent_on_wire _).trans (h.submits_le hf)

/-- What was heard was logged. -/
theorem Linked.logged (h : Linked cfg scfg c s) {m : Message} (hm : m ∈ s.client.heard) :
    ∃ entry ∈ s.server.logOf c, m = entry.message.sorted := by
  obtain ⟨entry, hentry, heq⟩ := List.mem_map.mp (h.heard.subset hm)
  exact ⟨entry, List.mem_of_mem_drop hentry, heq.symm⟩

/-- A request whose message is not on the wire is not accepted. -/
theorem Linked.unaccepted_of_wire (h : Linked cfg scfg c s) {f : Nat}
    (hf : f < s.client.client.handles.length)
    (hwire : s.client.wire.countP (Client.State.isOf f) = 0) :
    ¬ s.Accepted c (s.client.client.idOf cfg f) := by
  rw [accepted_iff]
  have hspent := h.spent_le hf
  omega

theorem Linked.unaccepted_of_unwired (h : Linked cfg scfg c s) {f : Nat} (hu : s.client.Unwired f) :
    ¬ s.Accepted c (s.client.client.idOf cfg f) := by
  refine h.unaccepted_of_wire hu.known (List.countP_eq_zero.mpr fun post hpost hof => ?_)
  obtain ⟨m, future⟩ := post
  have hfuture : future = some f := of_decide_eq_true hof
  subst hfuture
  exact hu.wire m hpost

/-- A request that was withdrawn before its message was begun is not accepted. -/
theorem Linked.unaccepted_of_withdrawn (h : Linked cfg scfg c s) {f : Nat}
    (hf : f < s.client.client.handles.length) (hlocal : f ∈ s.client.client.localCancels) :
    ¬ s.Accepted c (s.client.client.idOf cfg f) := by
  obtain ⟨failed, hwired⟩ := Client.reachable_wired h.client
  refine h.unaccepted_of_wire hf (List.countP_eq_zero.mpr fun post hpost hof => ?_)
  obtain ⟨m, future⟩ := post
  have hfuture : future = some f := of_decide_eq_true hof
  subst hfuture
  exact (hwired.marked m f hpost).1 hlocal

/-- A request whose rejection was heard is not accepted. -/
theorem Linked.unaccepted_of_rejected (h : Linked cfg scfg c s) {f : Nat} {m : Message}
    (htold : s.client.Told cfg f m) (hkind : m.kind = .rejected) :
    ¬ s.Accepted c (s.client.client.idOf cfg f) := by
  obtain ⟨entry, hentry, rfl⟩ := h.logged htold.heard
  have hrejects : Broker.rejects (s.client.client.idOf cfg f) entry = true := by
    have hid := get_sorted_str.mp htold.names
    unfold Broker.rejects Broker.isText
    rw [show entry.message.kind = .rejected from hkind, hid]
    simp
  have hpos : 0 < (s.server.logOf c).countP (Broker.rejects (s.client.client.idOf cfg f)) :=
    List.countP_pos_iff.mpr ⟨entry, hentry, hrejects⟩
  obtain ⟨failed, hwired⟩ := Client.reachable_wired h.client
  have honce := hwired.once_le f
  have hspent := h.spent_le htold.known
  rw [accepted_iff]
  omega

theorem reports_of_terminal {kind : MessageType} (h : kind.terminal = true) : kind.reports = true := by
  cases kind <;> first | rfl | exact h

/-- What a report is about was accepted. -/
theorem Linked.reported (h : Linked cfg scfg c s) {f : Nat} {m : Message}
    (htold : s.client.Told cfg f m) (hkind : m.kind.reports = true) :
    ∃ (r : Nat) (record : Broker.Request), s.server.records[r]? = some record ∧ record.connection = c ∧
      record.requestId = s.client.client.idOf cfg f ∧
      (m.kind.terminal = true → record.state.terminal = true ∧ record.terminalKind = some m.kind) := by
  obtain ⟨entry, hentry, rfl⟩ := h.logged htold.heard
  obtain ⟨r, record, -, hr, hcon, hid, hterm⟩ :=
    (Broker.reachable_attributed h.server).log c entry hentry hkind
  have hid' := get_sorted_str.mp htold.names
  exact ⟨r, record, hr, hcon, Value.str.inj (hid.symm.trans hid'), hterm⟩

/-- A connection has one request of an ID at most. -/
theorem Linked.sole (h : Linked cfg scfg c s) {f : Nat} (hf : f < s.client.client.handles.length)
    {r r' : Nat} {record record' : Broker.Request} (hr : s.server.records[r]? = some record)
    (hr' : s.server.records[r']? = some record')
    (hname : record.name = (c, s.client.client.idOf cfg f)) (hname' : record'.name = record.name) :
    r = r' := by
  obtain ⟨failed, hwired⟩ := Client.reachable_wired h.client
  have honce := hwired.once_le f
  have hspent := h.spent_le hf
  have hcount : s.server.names.count (c, s.client.client.idOf cfg f) ≤ 1 := by omega
  unfold Broker.State.names at hcount
  rw [List.count, List.countP_map] at hcount
  exact index_unique hcount hr hr' (beq_iff_eq.mpr hname) (beq_iff_eq.mpr (hname'.trans hname))

/-! ## The errors of futures -/

/-- **The error of a future is right about the server.** -/
theorem Linked.certain (h : Linked cfg scfg c s)
    (hloads : ∀ payload error, cfg.runtime.loads payload ≠ .error (.remote error)) {f : Nat}
    {handle : Client.Handle V X} (hf : s.client.client.handles[f]? = some handle)
    {error : Client.RemoteError} (herror : handle.future.base.exception = some (.remote error)) :
    s.Certain c (s.client.client.idOf cfg f) error := by
  rcases (Client.Endpoint.reachable_explained h.client).ends f handle hf with hopen | ⟨op, hcause, hbase⟩
  · rw [hopen] at herror
    cases herror
  rw [hbase] at herror
  obtain ⟨task, hop⟩ := Client.Operation.leaves_exception herror
  cases hcause with
  | withdrawn | decided => cases hop
  | completed m htold hkind =>
    have hreports := reports_of_terminal hkind
    obtain ⟨hacceptance, hexecution, -⟩ := Client.completion_error hloads hop
    obtain ⟨r, record, hr, hcon, hid, hhow⟩ := h.reported htold hreports
    refine ⟨fun hnot => absurd hnot hacceptance, fun _ => ⟨r, record, hr, hcon, hid⟩, fun hnot => ?_⟩
    have hexpired : record.terminalKind = some .queueTimedOut := by
      rw [(hhow hkind).2, hexecution hnot]
    have hnone := Broker.reachable_punctual h.server r record hr hexpired
    intro r' record' hr' hcon' hid'
    have hsame : r = r' := by
      refine h.sole htold.known hr hr' ?_ ?_
      · exact Prod.ext hcon hid
      · exact Prod.ext (hcon'.trans hcon.symm) (hid'.trans hid.symm)
    subst hsame
    rw [hr] at hr'
    cases hr'
    exact ⟨hnone, ((Broker.reachable_lived h.server).timely r record hr).claims hnone⟩
  | rejected m htold hkind =>
    cases hop
    have hnot := h.unaccepted_of_rejected htold hkind
    obtain ⟨entry, hentry, rfl⟩ := h.logged htold.heard
    obtain ⟨requestId, reason, hmessage, hreason⟩ := Broker.reachable_refuses h.server c entry hentry hkind
    rw [hmessage]
    refine ⟨fun _ => hnot, fun haccepted => ?_, fun _ => unstarted_of_not_accepted hnot⟩
    rw [Client.rejection_error hreason] at haccepted
    cases haccepted
  | lost error' hgrounds =>
    cases hop
    cases hgrounds with
    | pending text hu =>
      have hnot := h.unaccepted_of_unwired hu
      exact ⟨fun _ => hnot, (fun h => by cases h), fun _ => unstarted_of_not_accepted hnot⟩
    | sent text => exact ⟨(fun h => by cases h), (fun h => by cases h), fun h => by cases h⟩
    | begun text m htold hkind =>
      have hreports : m.kind.reports = true := by rcases hkind with hkind | hkind <;> rw [hkind] <;> rfl
      obtain ⟨r, record, hr, hcon, hid, -⟩ := h.reported htold hreports
      exact ⟨(fun h => by cases h), fun _ => ⟨r, record, hr, hcon, hid⟩, fun h => by cases h⟩

/-! ## Continuations -/

/-- A step of the system does nothing to the client, or is a step of the client. -/
theorem step_client {l : Label X} (hs : s.step cfg scfg c l = some t) :
    t.client = s.client ∨ ∃ l', s.client.step cfg l' = some t.client := by
  cases step_turn hs with
  | connect | server | arrive => exact .inl rfl
  | client _ hclient | hear _ hclient => exact .inr ⟨_, hclient⟩

/-- What is known of a client and kept by its steps holds in every continuation. -/
theorem run_client {I : Client.Endpoint V X → Prop}
    (hstep : ∀ e l e', (Client.endpoint cfg).Reachable e → I e → e.step cfg l = some e' → I e')
    {ls : List (Label X)} (h : (link cfg scfg c).Reachable s) (hs : I s.client)
    (hrun : (link cfg scfg c).run s ls = some t) : I t.client := by
  induction ls generalizing s with
  | nil =>
    cases hrun
    exact hs
  | cons l ls ih =>
    obtain ⟨u, hu, hrun⟩ := Option.bind_eq_some_iff.mp hrun
    refine ih (.step h trivial hu) ?_ hrun
    rcases step_client hu with hsame | ⟨l', hl⟩
    · rw [hsame]
      exact hs
    · exact hstep _ l' _ (reachable_linked h).client hs hl

/-- A future that has ended keeps its end and its request ID. -/
theorem run_ended {ls : List (Label X)} (h : (link cfg scfg c).Reachable s)
    (hrun : (link cfg scfg c).run s ls = some t) {f : Nat} {handle : Client.Handle V X}
    (hf : s.client.client.handles[f]? = some handle) (hdone : handle.future.done = true) :
    ∃ handle', t.client.client.handles[f]? = some handle' ∧ handle'.future = handle.future ∧
      t.client.client.idOf cfg f = s.client.client.idOf cfg f := by
  refine run_client (I := fun e => ∃ handle', e.client.handles[f]? = some handle' ∧
    handle'.future = handle.future ∧ e.client.idOf cfg f = s.client.client.idOf cfg f) ?_ h
      ⟨handle, hf, rfl, rfl⟩ hrun
  rintro e l e' - ⟨handle₁, hf₁, hsame, hid⟩ hs
  have hm := Client.step_move (Client.Endpoint.step_client hs).1
  obtain ⟨handle₂, hf₂, hsame₂⟩ := Client.State.done_stays hm hf₁ (by rw [hsame]; exact hdone)
  refine ⟨handle₂, hf₂, hsame₂.trans hsame, ?_⟩
  rw [(Client.move_touch hm).idOf (lt_of_getElem? hf₁), hid]

/-- A future with an exception is done. -/
theorem done_of_exception (h : (link cfg scfg c).Reachable s) {f : Nat} {handle : Client.Handle V X}
    (hf : s.client.client.handles[f]? = some handle) {error : Client.Failure X}
    (herror : handle.future.base.exception = some error) : handle.future.done = true := by
  have hr := Client.State.reachable_registered (Client.reachable_client (reachable_linked h).client)
  cases hdone : handle.future.done with
  | true => rfl
  | false =>
    rw [(hr.matching f handle hf).pending hdone] at herror
    cases herror

end Link

/-! ## Results -/

section Results

variable {V X : Type} (cfg : Client.Config V X) (scfg : Broker.Config) (c : Nat) {s t : Link V X}
  {ls : List (Link.Label X)}

/-- **The certainties of a future's error hold.**  If a future ends with a `RemoteExecutorError`, then, at
that time and in every continuation of the run, the server has no record of the request where the error
says `NOT_ACCEPTED`, it has one where the error says `ACCEPTED`, and where the error says `NOT_STARTED` no
record of the request has become `RUNNING` or was claimed by a worker. -/
theorem certainties_hold (hloads : ∀ payload error, cfg.runtime.loads payload ≠ .error (.remote error))
    (h : (link cfg scfg c).Reachable s) {f : Nat} {handle : Client.Handle V X}
    (hf : s.client.client.handles[f]? = some handle) {error : Client.RemoteError}
    (herror : handle.future.base.exception = some (.remote error))
    (hrun : (link cfg scfg c).run s ls = some t) :
    t.Certain c (s.client.client.idOf cfg f) error := by
  obtain ⟨handle', hf', hsame, hid⟩ := Link.run_ended h hrun hf (Link.done_of_exception h hf herror)
  rw [← hid]
  exact (Link.reachable_linked (h.of_run hrun)).certain hloads hf' (by rw [hsame]; exact herror)

/-- **What `submit` gives up is never accepted.**  If a call of `submit` gives up after it has registered
its future, the server has no record of the request, at that time and in every continuation. -/
theorem abandoned_unaccepted (h : (link cfg scfg c).Reachable s) {i f : Nat}
    {error : Client.SubmitError X} (hstage : s.client.client.StageIs i (.abandoning f error))
    (hrun : (link cfg scfg c).run s ls = some t) :
    ¬ t.Accepted c (s.client.client.idOf cfg f) := by
  have hdropped := Client.reachable_abandons (Link.reachable_linked h).client i f error hstage
  have hlast : t.client.client.Dropped t.client.wire f ∧
      t.client.client.idOf cfg f = s.client.client.idOf cfg f := by
    refine Link.run_client (I := fun e => e.client.Dropped e.wire f ∧
      e.client.idOf cfg f = s.client.client.idOf cfg f) ?_ h ⟨hdropped, rfl⟩ hrun
    rintro e l e' hreach ⟨hdropped, hid⟩ hs
    obtain ⟨hclient, hwire, -⟩ := Client.Endpoint.step_client hs
    have hm := Client.step_move hclient
    have he := (Client.State.reachable_registered (Client.reachable_client hreach)).accounted.engaged
    refine ⟨?_, ?_⟩
    · rw [hwire]
      exact hdropped.move he hm
    · rw [(Client.move_touch hm).idOf hdropped.known, hid]
  rw [← hlast.2]
  exact (Link.reachable_linked (h.of_run hrun)).unaccepted_of_wire hlast.1.known hlast.1.wire

end Results

/-! ## Runs -/

namespace Link

/-- The client connects to the server. -/
def connectFirst : List (Label Unit) :=
  (Broker.openSession 0 (Hex.zeros 32).text).map .server ++ [.server ⟨.write 0 .sent, []⟩, .connect]

/-- The client sends a request, and the server handles it. -/
def submitFirst : List (Label Unit) :=
  (Client.submitAndSend 0).map .client ++
    [.arrive [], .server ⟨.handle 0 Broker.early (fun _ => .ok true) none, []⟩]

/-- The client hears the next message and looks the future up. -/
def hearNext : List (Label Unit) :=
  [.server ⟨.write 0 .sent, []⟩, .client .receiver, .hear, .client .receiver, .client .receiver]

/-- The completion goes through the lane. -/
def completeNext : List (Label Unit) :=
  [.client .receiver, .client .receiver, .client .lane, .client .lane]

/-- A server that drains rejects a request. -/
def submitDraining : List (Label Unit) :=
  connectFirst ++ [.server ⟨.shutdown false none, []⟩] ++ submitFirst ++ hearNext ++ completeNext

/-- The `RemoteExecutorError` of a future. -/
def errorOf (s : Link Unit Unit) (f : Nat) : Option Client.RemoteError :=
  s.client.client.handles[f]?.bind fun handle => match handle.future.base.exception with
    | some (.remote error) => some error
    | _ => none

theorem exception_errorOf {s : Link Unit Unit} {f : Nat} {error : Client.RemoteError}
    (h : s.errorOf f = some error) : ∃ handle, s.client.client.handles[f]? = some handle ∧
      handle.future.base.exception = some (.remote error) := by
  obtain ⟨handle, hf, herror⟩ := Option.bind_eq_some_iff.mp h
  refine ⟨handle, hf, ?_⟩
  split at herror
  · rename_i error' hexception
    rw [hexception, Option.some.inj herror]
  · cases herror

/-- The request that a submission gives up. -/
def abandonedOf (s : Link Unit Unit) (i : Nat) : Option Nat :=
  s.client.client.submissions[i]?.bind fun call => match call.stage with
    | .abandoning f _ => some f
    | _ => none

theorem stageIs_abandonedOf {s : Link Unit Unit} {i f : Nat} (h : s.abandonedOf i = some f) :
    ∃ error, s.client.client.StageIs i (.abandoning f error) := by
  obtain ⟨call, hcall, hstage⟩ := Option.bind_eq_some_iff.mp h
  split at hstage
  · rename_i g error hg
    rw [← Option.some.inj hstage]
    exact ⟨error, call, hcall, hg⟩
  · cases hstage

/-- The queue is full when the second request is to be put on it. -/
def abandonSecond : List (Label Unit) :=
  connectFirst ++
    (([.submit .callable {}, .serialized 0 (.ok []), .proceed 0, .proceed 0, .put 0 true,
      .submit .callable {}, .serialized 1 (.ok []), .proceed 1, .proceed 1, .put 1 false] :
        List (Client.Label Unit)).map .client)

/-- A client and a server for the runs. -/
def sampleLink : System (Link Unit Unit) (Label Unit) :=
  link (Client.crampedClient 2) (Broker.sampleConfig .cancelQueued) 0

end Link

theorem certainties_hold_submitDraining : ∃ s error,
    Link.sampleLink.run Link.sampleLink.init Link.submitDraining = some s ∧ s.errorOf 0 = some error ∧
      error.acceptance = .notAccepted ∧
      ¬ s.Accepted 0 (s.client.client.idOf (Client.crampedClient 2) 0) := by
  have hrun : ((Link.sampleLink.run Link.sampleLink.init Link.submitDraining).map fun s =>
      (s.errorOf 0).map Client.RemoteError.acceptance) = some (some .notAccepted) := by
    decide +kernel
  obtain ⟨s, hrun, hacceptance⟩ := Option.map_eq_some_iff.mp hrun
  obtain ⟨error, herror, hnot⟩ := Option.map_eq_some_iff.mp hacceptance
  obtain ⟨handle, hf, hexception⟩ := Link.exception_errorOf herror
  have hloads : ∀ payload error,
      (Client.crampedClient 2).runtime.loads payload ≠ .error (.remote error) := by
    intro payload error h
    cases h
  have hcertain := certainties_hold (Client.crampedClient 2) (Broker.sampleConfig .cancelQueued) 0
    hloads (System.reachable_of_run hrun) hf hexception (show (link _ _ _).run s [] = some s from rfl)
  exact ⟨s, error, hrun, herror, hnot, hcertain.notAccepted hnot⟩

theorem abandoned_unaccepted_abandonSecond : ∃ s,
    Link.sampleLink.run Link.sampleLink.init Link.abandonSecond = some s ∧ s.abandonedOf 1 = some 1 ∧
      ¬ s.Accepted 0 (s.client.client.idOf (Client.crampedClient 2) 1) := by
  have hrun : ((Link.sampleLink.run Link.sampleLink.init Link.abandonSecond).map fun s =>
      s.abandonedOf 1) = some (some 1) := by
    decide +kernel
  obtain ⟨s, hrun, habandoned⟩ := Option.map_eq_some_iff.mp hrun
  obtain ⟨error, hstage⟩ := Link.stageIs_abandonedOf habandoned
  exact ⟨s, hrun, habandoned,
    abandoned_unaccepted (Client.crampedClient 2) (Broker.sampleConfig .cancelQueued) 0
      (System.reachable_of_run hrun) hstage (show (link _ _ _).run s [] = some s from rfl)⟩

end Deadpool.Remote
