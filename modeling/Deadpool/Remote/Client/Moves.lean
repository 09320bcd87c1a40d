import Deadpool.Remote.Client.Lane

/-!
# What a thread of the client can do

`Move` lists the changes of a client, one for each branch of a step, with the guard of the branch and the
state it leaves.  Invariants of the client are proved over `Move`; that every step is one of these changes
is proved once.

* `step_move`  : a step is a change of the list;
* `move_touch` : what a change does to the futures and their table.
-/

set_option autoImplicit false

namespace Deadpool.Remote.Client

open Deadpool.Py Deadpool.Lts

section Moves

variable {V X : Type} (cfg : Config V X)

namespace State

/-- The stage of a submission. -/
def StageIs (s : State V X) (i : Nat) (stage : SubmitStage X) : Prop :=
  ∃ call, s.submissions[i]? = some call ∧ call.stage = stage

/-- The registration of a future. -/
def registered (s : State V X) (i : Nat) (m : Message) : State V X :=
  State.setSubmit { s with
    sequence := s.sequence + 1
    handles := s.handles ++ [⟨s.sequence + 1, {}⟩]
    futures := s.futures.set (cfg.requestId (s.sequence + 1)) s.handles.length } i
      (.registered s.handles.length m)

/-- The receiver marks a terminal message, if it marks it before the loss. -/
def terminated (s : State V X) (f : Nat) (m : Message) : State V X :=
  { s with
    terminalReceived := s.terminalReceived ++ [s.idOf cfg f]
    recorded := if s.rpc.transportFailed then s.recorded else s.recorded ++ [(f, m)]
    receiver := .scheduling (.complete f m) }

/-- The block of `_connection_lost`, for the first thread that runs it. -/
def losing (s : State V X) (owner : Thread) (text : Str) : State V X :=
  { s with rpc := s.rpc.lose text, loss := some ⟨owner, text, s.futures.values, .signals⟩ }

end State

/-- A change of the client. -/
inductive Move (s : State V X) : State V X → Prop
  | idle : Move s s
  -- submissions
  | submit {mode : Mode} {options : SubmissionOptions} :
      Move s { s with submissions := s.submissions ++ [⟨mode, options, s.preflight mode options⟩] }
  | serialized {i : Nat} {payload : Bytes} : s.StageIs i .serializing →
      Move s (s.setSubmit i (.serialized payload))
  | unserialized {i : Nat} {error : SubmitError X} : s.StageIs i .serializing →
      Move s (s.setSubmit i (.raised error))
  | refused {i : Nat} {payload : Bytes} {error : SubmitError X} : s.StageIs i (.serialized payload) →
      Move s (s.setSubmit i (.raised error))
  | exhausted {i : Nat} {payload : Bytes} {error : SubmitError X} : s.StageIs i (.serialized payload) →
      Move s (State.setSubmit { s with sequence := s.sequence + 1 } i (.raised error))
  | register {i : Nat} {call : Submission X} {payload : Bytes} : s.submissions[i]? = some call →
      call.stage = .serialized payload → s.closed = false → s.rpc.transportFailed = false →
      s.rpc.socket = true → checkSequence (s.sequence + 1) = .ok () →
      Move s (s.registered cfg i
        (State.submitMessage cfg (s.sequence + 1) call.mode call.options payload))
  | invalid {i f : Nat} {m : Message} {error : SubmitError X} : s.StageIs i (.registered f m) →
      Move s (s.setSubmit i (.abandoning f error))
  | checked {i f : Nat} {m : Message} : s.StageIs i (.registered f m) →
      Move s (s.setSubmit i (.checked f m))
  | timedOut {i f : Nat} {m : Message} {text : String} : s.StageIs i (.checked f m) →
      Move s (s.setSubmit i (.abandoning f (s.submissionTimeout cfg f text)))
  | put {i f : Nat} {m : Message} : s.StageIs i (.checked f m) → s.room cfg = true →
      Move s { s.setSubmit i (.returned f) with outbound := s.outbound ++ [.request m (some f)] }
  | abandon {i f : Nat} {error : SubmitError X} : s.StageIs i (.abandoning f error) →
      Move s ((s.forget cfg f).setSubmit i (.raised error))
  -- calls about a future, and control requests
  | cancel {f : Nat} {h : Handle V X} : s.handles[f]? = some h → h.future.cancelsLocally = true →
      Move s { s.operate f .cancel with localCancels := s.localCancels ++ [f] }
  | call {kind : RpcKind} {token : Str} {rpc : RpcState Str} : s.calls kind = true →
      Client.rpcStep s.rpc (.call kind token) = some rpc → Move s { s with rpc }
  | enqueue {i : Nat} {call : RpcCall Str} {rpc : RpcState Str} : s.rpc.calls[i]? = some call →
      Client.rpcStep s.rpc (.enqueue i true) = some rpc →
      Move s { s with rpc, outbound := s.outbound ++ [.request (s.callMessage cfg call) none] }
  | wait {l : RpcLabel Str} {i : Nat} {rpc : RpcState Str} :
      (l = .enqueue i false ∨ l = .wake i ∨ l = .timeout i ∨ l = .read i) →
      Client.rpcStep s.rpc l = some rpc → Move s { s with rpc }
  | finish {i : Nat} {call : RpcCall Str} {rpc : RpcState Str} : s.rpc.calls[i]? = some call →
      Client.rpcStep s.rpc (.finish i) = some rpc → Move s (State.settle { s with rpc } call)
  -- the sender
  | sentinel {rest : List Item} : s.sender = .idle → s.outbound = .stop :: rest →
      Move s { s with outbound := rest, sender := .stopped }
  | take {m : Message} {future : Option Nat} {rest : List Item} : s.sender = .idle →
      s.outbound = .request m future :: rest →
      Move s { s with outbound := rest, sender := .taken m future }
  | markPlain {m : Message} : s.sender = .taken m none → Move s { s with sender := .marked m none }
  | skip {m : Message} {f : Nat} : s.sender = .taken m (some f) → s.futureDone f = true →
      Move s { s with sender := .skipping f }
  | mark {m : Message} {f : Nat} : s.sender = .taken m (some f) → s.futureDone f = false →
      Move s { s.operate f .setSent with sender := .marked m (some f) }
  | skipped {f : Nat} : s.sender = .skipping f → Move s { s.forget cfg f with sender := .idle }
  | begin {m : Message} {future : Option Nat} : s.sender = .marked m future → s.rpc.socket = true →
      Move s { s with sender := .sending m future }
  | unplugged {m : Message} {future : Option Nat} {text : Str} : s.sender = .marked m future →
      s.rpc.socket = false → Move s { s with sender := .failing text }
  | sent {m : Message} {future : Option Nat} : s.sender = .sending m future →
      Move s { s with sent := s.sent ++ [(m, future)], sender := .idle }
  | unsent {m : Message} {future : Option Nat} {text : Str} : s.sender = .sending m future →
      Move s { s with sender := .failing text }
  -- the receiver
  | read : s.receiver = .top → s.rpc.socket = true → Move s { s with receiver := .reading }
  | leave : s.receiver = .top → s.rpc.socket = false → Move s { s with receiver := .stopped }
  | receive {m : Message} : s.receiver = .reading → Move s { s with receiver := .received m }
  | unread {text : Str} : s.receiver = .reading → Move s { s with receiver := .failing text false }
  | look {m : Message} {future : Option Nat} : s.receiver = .received m →
      (∀ f, future = some f → ∃ k, m.control.items.get (lit "request_id") = .str k ∧
        s.futures.get? k = some f) →
      (∀ k, m.control.items.get (lit "request_id") = .str k → future = s.futures.get? k) →
      Move s { s with receiver := .found m future }
  | progress {m : Message} {f : Nat} {job : Job} : s.receiver = .found m (some f) →
      (m.kind = .accepted ∧ job = .accepted f ∨
        m.kind = .running ∧
          job = .running f (m.control.get (lit "pid")) (m.control.get (lit "worker_id"))) →
      Move s { s with receiver := .scheduling job }
  | rejected {m : Message} {f : Nat} : s.receiver = .found m (some f) → m.kind = .rejected →
      Move s { s with receiver := .scheduling (.reject f m.control) }
  | terminal {m : Message} {f : Nat} : s.receiver = .found m (some f) → m.kind.terminal = true →
      Move s (s.terminated cfg f m)
  | respond {m : Message} {future : Option Nat} {receiver : Receiver} : s.receiver = .found m future →
      m.kind.terminal = false → m.kind ≠ .rejected → (receiver = .signalling ∨ receiver = .top) →
      Move s { s with rpc := s.rpc.receive m, receiver }
  | closing {m : Message} {future : Option Nat} {text : Str} : s.receiver = .found m future →
      m.kind.terminal = false → m.kind ≠ .rejected → Move s { s with receiver := .failing text true }
  | ignore {m : Message} {future : Option Nat} : s.receiver = .found m future →
      ((m.kind.terminal = true ∨ m.kind = .rejected) → future = none) → Move s { s with receiver := .top }
  | acquire {job : Job} : s.receiver = .scheduling job → s.slots ≠ 0 →
      Move s { s with slots := s.slots - 1, receiver := .holding job }
  | schedule {job : Job} : s.receiver = .holding job →
      Move s { s with work := s.work ++ [job], receiver := .top }
  | signal {rpc : RpcState Str} : s.receiver = .signalling → Client.rpcStep s.rpc .signal = some rpc →
      Move s { s with rpc, receiver := .top }
  -- the lane
  | start {job : Job} {work : List Job} : s.lane = .idle → s.work = job :: work →
      Move s { s with work, lane := .running job }
  | accepted {f : Nat} : s.lane = .running (.accepted f) →
      Move s { s.operate f .setAccepted with lane := .releasing }
  | running {f : Nat} {pid workerId : Obj} : s.lane = .running (.running f pid workerId) →
      Move s { s.operate f (.setRunning pid workerId) with lane := .releasing }
  | complete {f : Nat} {m : Message} : s.lane = .running (.complete f m) →
      Move s { s.operate f (cfg.runtime.completion (s.idOf cfg f) m) with lane := .acking f }
  | reject {f : Nat} {control : Dict} : s.lane = .running (.reject f control) →
      Move s { s.operate f (.setException (.remote (cfg.runtime.rejection (s.idOf cfg f) control)) false)
        with lane := .forgetting f false }
  | fail {f : Nat} {error : RemoteError} : s.lane = .running (.fail f error) →
      Move s { s.operate f (.setException (.remote error) false) with lane := .forgetting f false }
  | acknowledge {f : Nat} : s.lane = .acking f →
      Move s { s with
        outbound := s.outbound ++ [.request (s.ackMessage cfg f) none]
        lane := .forgetting f true }
  | unacknowledged {f : Nat} : s.lane = .acking f → Move s { s with lane := .refused f }
  | forgetCompleted {f : Nat} : s.lane = .forgetting f true →
      Move s { s.forget cfg f with lane := .discarding f }
  | forget {f : Nat} : s.lane = .forgetting f false → Move s { s.forget cfg f with lane := .releasing }
  | discard {f : Nat} : s.lane = .discarding f →
      Move s { s with
        terminalReceived := s.terminalReceived.filter (· ≠ s.idOf cfg f)
        lane := .releasing }
  | release : s.lane = .releasing → Move s { s with slots := s.slots + 1, lane := .idle }
  -- the loss of the connection
  | lateSender {text : Str} : s.rpc.transportFailed = true → s.sender = .failing text →
      Move s { s with sender := .stopped }
  | lateReceiver {text : Str} {again : Bool} : s.rpc.transportFailed = true →
      s.receiver = .failing text again →
      Move s { s with receiver := if again then .top else .stopped }
  | lateLane {f : Nat} : s.rpc.transportFailed = true → s.lane = .refused f →
      Move s { s with lane := .forgetting f true }
  | loseSender {text : Str} : s.rpc.transportFailed = false → s.sender = .failing text →
      Move s { s.losing .sender text with sender := .losing }
  | loseReceiver {text : Str} {again : Bool} : s.rpc.transportFailed = false →
      s.receiver = .failing text again →
      Move s { s.losing .receiver text with receiver := .losing again }
  | loseLane {f : Nat} {text : Str} : s.rpc.transportFailed = false → s.lane = .refused f →
      Move s { s.losing .lane text with lane := .losing f }
  | signalLost {loss : Failing} {l : RpcLabel Str} {rpc : RpcState Str} : s.loss = some loss →
      loss.stage = .signals → (l = .mark ∨ l = .wakeLost) → Client.rpcStep s.rpc l = some rpc →
      Move s { s with rpc }
  | signalled {loss : Failing} : s.loss = some loss → loss.stage = .signals →
      Move s { s with loss := some { loss with stage := .next } }
  | lossOver {loss : Failing} : s.loss = some loss → loss.stage = .next → loss.rest = [] →
      Move s (State.afterLoss { s with loss := none } loss.owner)
  | next {loss : Failing} {f : Nat} {rest : List Nat} : s.loss = some loss → loss.stage = .next →
      loss.rest = f :: rest →
      Move s { s with loss := some { loss with
        rest := rest, stage := .looked f (s.terminalReceived.contains (s.idOf cfg f)) } }
  | settled {loss : Failing} {f : Nat} {terminalReceived : Bool} : s.loss = some loss →
      loss.stage = .looked f terminalReceived → s.futureDone f = true ∨ terminalReceived = true →
      Move s { s with loss := some { loss with stage := .next } }
  | pending {loss : Failing} {f : Nat} {terminalReceived : Bool} : s.loss = some loss →
      loss.stage = .looked f terminalReceived → s.futureDone f = false → terminalReceived = false →
      Move s { s with loss := some { loss with stage := .deciding f } }
  | decide {loss : Failing} {f : Nat} {h : Handle V X} : s.loss = some loss →
      loss.stage = .deciding f → s.handles[f]? = some h →
      Move s { s with loss := some { loss with
        stage := .scheduling f (lossError (s.idOf cfg f) loss.text h.future.submissionState) } }
  | acquireLost {loss : Failing} {f : Nat} {error : RemoteError} : s.loss = some loss →
      loss.stage = .scheduling f error → s.slots ≠ 0 →
      Move s { s with slots := s.slots - 1, loss := some { loss with stage := .holding f error } }
  | scheduleLost {loss : Failing} {f : Nat} {error : RemoteError} : s.loss = some loss →
      loss.stage = .holding f error →
      Move s { s with work := s.work ++ [.fail f error], loss := some { loss with stage := .next } }
  -- the shutdown
  | shutdown : s.closed = false →
      Move s { s with closed := true, lifecycle := .waiting s.futures.values }
  | drained {futures : List Nat} : s.lifecycle = .waiting futures → futures.all s.futureDone = true →
      Move s { s with lifecycle := .closing }
  | stopSender {outbound : List Item} : s.lifecycle = .closing →
      (outbound = s.outbound ∨ outbound = s.outbound ++ [.stop]) →
      Move s { s with outbound, lifecycle := .unplugging }
  | unplug : s.lifecycle = .unplugging →
      Move s { s with rpc := { s.rpc with socket := false }, lifecycle := .draining 0 }
  | drain {taken : Nat} : s.lifecycle = .draining taken → taken ≠ cfg.limits.inboundQueueSize →
      s.slots ≠ 0 → Move s { s with slots := s.slots - 1, lifecycle := .draining (taken + 1) }
  | emptied : s.lifecycle = .draining cfg.limits.inboundQueueSize →
      Move s { s with lifecycle := .releasing cfg.limits.inboundQueueSize }
  | giveBack {taken : Nat} : s.lifecycle = .releasing (taken + 1) →
      Move s { s with slots := s.slots + 1, lifecycle := .releasing taken }
  | finished : s.lifecycle = .releasing 0 → Move s { s with lifecycle := .ended }

/-! ## Every step is a change of the list -/

variable {cfg} {s s' : State V X}

theorem State.StageIs.of_map {i : Nat} {stage : SubmitStage X}
    (h : (s.submissions[i]?).map Submission.stage = some stage) : s.StageIs i stage := by
  obtain ⟨call, hcall, hstage⟩ := Option.map_eq_some_iff.mp h
  exact ⟨call, hcall, hstage⟩

theorem move_register {i : Nat} {call : Submission X} {payload : Bytes}
    (hcall : s.submissions[i]? = some call) (hstage : call.stage = .serialized payload) :
    Move cfg s (s.register cfg i call payload) := by
  unfold State.register
  split
  · exact .refused ⟨call, hcall, hstage⟩
  · rename_i hclosed
    split
    · exact .refused ⟨call, hcall, hstage⟩
    · rename_i havailable
      rw [not_or, not_not] at havailable
      dsimp only
      split
      · exact .exhausted ⟨call, hcall, hstage⟩
      · rename_i hsequence
        exact .register hcall hstage (Bool.eq_false_iff.mpr hclosed)
          (Bool.eq_false_iff.mpr havailable.1) havailable.2 hsequence

theorem move_submit {i : Nat} (h : s.submitStep cfg i = some s') : Move cfg s s' := by
  unfold State.submitStep at h
  split at h
  · cases h
  · rename_i call hcall
    split at h
    · rename_i payload hstage
      cases h
      exact move_register hcall hstage
    · rename_i f m hstage
      split at h
      · cases h
        exact .invalid ⟨call, hcall, hstage⟩
      · cases h
        exact .checked ⟨call, hcall, hstage⟩
    · rename_i f error hstage
      cases h
      exact .abandon ⟨call, hcall, hstage⟩
    · cases h

theorem move_put {i : Nat} {result : Option Bool} (h : s.putStep cfg i result = some s') :
    Move cfg s s' := by
  unfold State.putStep at h
  split at h
  · rename_i f m hstage
    have hstage : s.StageIs i (.checked f m) := .of_map hstage
    split at h
    · cases h
      exact .timedOut hstage
    · split at h
      · rename_i hroom
        cases h
        exact .put hstage hroom
      · cases h
    · split at h
      · cases h
      · cases h
        exact .timedOut hstage
  · cases h

theorem move_rpc {l : RpcLabel Str} (h : s.rpcStep cfg l = some s') : Move cfg s s' := by
  unfold State.rpcStep at h
  dsimp only at h
  cases l with
  | call kind token =>
    dsimp only at h
    split at h
    · rename_i hcalls
      obtain ⟨rpc, hrpc, rfl⟩ := Option.map_eq_some_iff.mp h
      exact .call hcalls hrpc
    · cases h
  | enqueue i ok =>
    dsimp only at h
    split at h
    · cases h
    · split at h
      · cases h
      · rename_i call hcall
        obtain ⟨x, hx, rfl⟩ := Option.map_eq_some_iff.mp h
        obtain ⟨rpc, hrpc, rfl⟩ := Option.map_eq_some_iff.mp hx
        cases ok with
        | true => exact .enqueue hcall hrpc
        | false => exact .wait (.inl rfl) hrpc
  | wake i =>
    obtain ⟨rpc, hrpc, rfl⟩ := Option.map_eq_some_iff.mp h
    exact .wait (.inr (.inl rfl)) hrpc
  | timeout i =>
    obtain ⟨rpc, hrpc, rfl⟩ := Option.map_eq_some_iff.mp h
    exact .wait (.inr (.inr (.inl rfl))) hrpc
  | read i =>
    obtain ⟨rpc, hrpc, rfl⟩ := Option.map_eq_some_iff.mp h
    exact .wait (.inr (.inr (.inr rfl))) hrpc
  | finish i =>
    dsimp only at h
    split at h
    · cases h
    · rename_i call hcall
      obtain ⟨x, hx, rfl⟩ := Option.map_eq_some_iff.mp h
      obtain ⟨rpc, hrpc, rfl⟩ := Option.map_eq_some_iff.mp hx
      exact .finish hcall hrpc
  | receive | signal | lose | mark | wakeLost | closeSocket => cases h

/-- `_connection_lost` of a thread up to the loop. -/
theorem move_lose {owner : Thread} {text : Str}
    (hsender : owner = .sender → s.sender = .failing text)
    (hreceiver : owner = .receiver → ∃ again, s.receiver = .failing text again)
    (hlane : owner = .lane → ∃ f, s.lane = .refused f) : Move cfg s (s.lose owner text) := by
  unfold State.lose
  split
  · rename_i hfailed
    cases owner with
    | sender => exact .lateSender hfailed (hsender rfl)
    | receiver =>
      obtain ⟨again, hr⟩ := hreceiver rfl
      have hmove : Move cfg s { s with receiver := if again then .top else .stopped } :=
        .lateReceiver hfailed hr
      unfold State.afterLoss
      dsimp only
      rw [hr]
      cases again with
      | true | false => exact hmove
    | lane =>
      obtain ⟨f, hl⟩ := hlane rfl
      unfold State.afterLoss
      dsimp only
      rw [hl]
      exact .lateLane hfailed hl
  · rename_i hfailed
    have hfailed : s.rpc.transportFailed = false := Bool.eq_false_iff.mpr hfailed
    cases owner with
    | sender => exact .loseSender hfailed (hsender rfl)
    | receiver =>
      obtain ⟨again, hr⟩ := hreceiver rfl
      unfold State.inLoss
      dsimp only
      rw [hr]
      exact .loseReceiver hfailed hr
    | lane =>
      obtain ⟨f, hl⟩ := hlane rfl
      unfold State.inLoss
      dsimp only
      rw [hl]
      exact .loseLane hfailed hl

theorem move_sender (h : s.senderStep cfg = some s') : Move cfg s s' := by
  unfold State.senderStep at h
  split at h
  · rename_i hs
    split at h
    · cases h
    · rename_i rest ho
      cases h
      exact .sentinel hs ho
    · rename_i m future rest ho
      cases h
      exact .take hs ho
  · rename_i m hs
    cases h
    exact .markPlain hs
  · rename_i m f hs
    split at h
    · rename_i hdone
      cases h
      exact .skip hs hdone
    · rename_i hdone
      cases h
      exact .mark hs (Bool.eq_false_iff.mpr hdone)
  · rename_i f hs
    cases h
    exact .skipped hs
  · rename_i m future hs
    cases h
    split
    · rename_i hsocket
      exact .begin hs hsocket
    · rename_i hsocket
      exact .unplugged hs (Bool.eq_false_iff.mpr hsocket)
  · rename_i text hs
    cases h
    exact move_lose (fun _ => hs) nofun nofun
  all_goals cases h

theorem move_dispatch {m : Message} {future : Option Nat} (hr : s.receiver = .found m future) :
    Move cfg s (s.dispatch cfg m future) := by
  have hrespond : m.kind.terminal = false → m.kind ≠ .rejected → Move cfg s { s with
      rpc := s.rpc.receive m
      receiver := if (s.rpc.receive m).receiving.isSome then .signalling else .top } := by
    intro hterminal hrejected
    refine .respond hr hterminal hrejected ?_
    split
    · exact .inl rfl
    · exact .inr rfl
  unfold State.dispatch
  dsimp only
  split
  · rename_i f hkind
    exact .progress hr (.inl ⟨hkind, rfl⟩)
  · rename_i f hkind
    exact .progress hr (.inr ⟨hkind, rfl⟩)
  · rename_i f hkind
    exact .rejected hr hkind
  iterate 6
    · rename_i hkind
      exact hrespond (by rw [hkind]; rfl) (by rw [hkind]; exact nofun)
  iterate 3
    · rename_i hkind
      exact .closing hr (by rw [hkind]; rfl) (by rw [hkind]; exact nofun)
  · rename_i f _ _ hrejected _ _ _ _ _ _ _ _ _
    split
    · rename_i hterminal
      exact .terminal hr hterminal
    · rename_i hterminal
      refine .ignore hr ?_
      rintro (h | h)
      · exact absurd h hterminal
      · exact absurd h hrejected
  · exact .ignore hr fun _ => rfl

theorem move_receiver (h : s.receiverStep cfg = some s') : Move cfg s s' := by
  unfold State.receiverStep at h
  split at h
  · rename_i hr
    cases h
    split
    · rename_i hsocket
      exact .read hr hsocket
    · rename_i hsocket
      exact .leave hr (Bool.eq_false_iff.mpr hsocket)
  · rename_i m hr
    cases h
    refine .look hr (fun f hf => ?_) fun k hk => ?_
    · split at hf
      · rename_i k hk
        exact ⟨k, hk, hf⟩
      · cases hf
    · rw [hk]
  · rename_i m future hr
    cases h
    exact move_dispatch hr
  · rename_i job hr
    split at h
    · cases h
    · rename_i hslots
      cases h
      exact .acquire hr hslots
  · rename_i job hr
    cases h
    exact .schedule hr
  · rename_i hr
    obtain ⟨rpc, hrpc, rfl⟩ := Option.map_eq_some_iff.mp h
    exact .signal hr hrpc
  · rename_i text again hr
    cases h
    exact move_lose (fun h => by cases h) (fun _ => ⟨again, hr⟩) fun h => by cases h
  all_goals cases h

theorem move_lane (h : s.laneStep cfg = some s') : Move cfg s s' := by
  unfold State.laneStep at h
  split at h
  · rename_i hl
    split at h
    · cases h
    · rename_i job work hw
      cases h
      exact .start hl hw
  · rename_i job hl
    cases h
    cases job with
    | accepted f => exact .accepted hl
    | running f pid workerId => exact .running hl
    | complete f m => exact .complete hl
    | reject f control => exact .reject hl
    | fail f error => exact .fail hl
  · rename_i f hl
    cases h
    exact move_lose (fun h => by cases h) (fun h => by cases h) fun _ => ⟨f, hl⟩
  · rename_i f completing hl
    cases h
    cases completing with
    | true => exact .forgetCompleted hl
    | false => exact .forget hl
  · rename_i f hl
    cases h
    exact .discard hl
  · rename_i hl
    cases h
    exact .release hl
  all_goals cases h

theorem move_loss {loss : Failing} (hloss : s.loss = some loss) (h : s.lossStep cfg loss = some s') :
    Move cfg s s' := by
  unfold State.lossStep at h
  split at h
  · rename_i hstage
    split at h
    · obtain ⟨rpc, hrpc, rfl⟩ := Option.map_eq_some_iff.mp h
      exact .signalLost hloss hstage (.inl rfl) hrpc
    · obtain ⟨rpc, hrpc, rfl⟩ := Option.map_eq_some_iff.mp h
      exact .signalLost hloss hstage (.inr rfl) hrpc
    · cases h
      exact .signalled hloss hstage
  · rename_i hstage
    split at h
    · rename_i hrest
      cases h
      exact .lossOver hloss hstage hrest
    · rename_i f rest hrest
      cases h
      exact .next hloss hstage hrest
  · rename_i f terminalReceived hstage
    split at h
    · rename_i hsettled
      cases h
      exact .settled hloss hstage hsettled
    · rename_i hpending
      rw [not_or] at hpending
      cases h
      exact .pending hloss hstage (Bool.eq_false_iff.mpr hpending.1) (Bool.eq_false_iff.mpr hpending.2)
  · rename_i f hstage
    split at h
    · cases h
    · rename_i handle hf
      cases h
      exact .decide hloss hstage hf
  · rename_i f error hstage
    split at h
    · cases h
    · rename_i hslots
      cases h
      exact .acquireLost hloss hstage hslots
  · rename_i f error hstage
    cases h
    exact .scheduleLost hloss hstage

theorem move_lifecycle {ok : Bool} (h : s.lifecycleStep cfg ok = some s') : Move cfg s s' := by
  unfold State.lifecycleStep at h
  split at h
  · cases h
  · cases h
  · rename_i futures hl
    split at h
    · rename_i hdone
      cases h
      exact .drained hl hdone
    · cases h
  · rename_i hl
    split at h
    · cases h
    · cases h
      refine .stopSender hl ?_
      split
      · exact .inr rfl
      · exact .inl rfl
  · rename_i hl
    cases h
    exact .unplug hl
  · rename_i taken hl
    split at h
    · rename_i htaken
      subst htaken
      cases h
      exact .emptied hl
    · rename_i htaken
      split at h
      · cases h
      · rename_i hslots
        cases h
        exact .drain hl htaken hslots
  · rename_i taken hl
    split at h
    · cases h
      exact .finished hl
    · cases h
      exact .giveBack hl

/-- **A step of the client is a change of the list.** -/
theorem step_move {l : Label X} (h : s.step cfg l = some s') : Move cfg s s' := by
  cases l with
  | submit mode options =>
    cases h
    exact .submit
  | serialized i result =>
    simp only [State.step] at h
    split at h
    · rename_i hstage
      cases h
      cases result with
      | ok payload => exact .serialized (.of_map hstage)
      | error e => exact .unserialized (.of_map hstage)
    · cases h
  | proceed i => exact move_submit h
  | expire i =>
    have hput : s.putStep cfg i none = some s' := h
    exact move_put hput
  | put i ok =>
    have hput : s.putStep cfg i (some ok) = some s' := h
    exact move_put hput
  | cancel f =>
    simp only [State.step] at h
    split at h
    · cases h
    · rename_i handle hf
      cases h
      split
      · rename_i hlocal
        exact .cancel hf hlocal
      · exact .idle
  | rpc l => exact move_rpc h
  | sender => exact move_sender h
  | sent error =>
    simp only [State.step] at h
    split at h
    · rename_i hs
      split at h
      · cases h
        exact .sent hs
      · cases h
        exact .unsent hs
    · cases h
  | receive result =>
    simp only [State.step] at h
    split at h
    · rename_i hr
      split at h
      · cases h
        exact .receive hr
      · cases h
        exact .unread hr
    · cases h
  | receiver => exact move_receiver h
  | lane => exact move_lane h
  | ack ok =>
    simp only [State.step, State.ackStep] at h
    split at h
    · rename_i f hl
      split at h
      · cases h
      · split at h
        · cases h
          exact .acknowledge hl
        · cases h
          exact .unacknowledged hl
    · cases h
  | loss =>
    obtain ⟨loss, hloss, hstep⟩ := Option.bind_eq_some_iff.mp h
    exact move_loss hloss hstep
  | shutdown =>
    simp only [State.step] at h
    split at h
    · cases h
    · rename_i hclosed
      cases h
      exact .shutdown (Bool.eq_false_iff.mpr hclosed)
  | lifecycle ok => exact move_lifecycle h

/-! ## The futures -/

/-- What a change does to the futures and their table. -/
inductive Touch (cfg : Config V X) (s s' : State V X) : Prop
  | new : s.closed = false → s.rpc.transportFailed = false → checkSequence (s.sequence + 1) = .ok () →
      s'.handles = s.handles ++ [⟨s.sequence + 1, {}⟩] →
      s'.futures = s.futures.set (cfg.requestId (s.sequence + 1)) s.handles.length →
      s'.sequence = s.sequence + 1 → Touch cfg s s'
  | same : s'.handles = s.handles → s'.futures = s.futures → Touch cfg s s'
  | operate (f : Nat) (op : Operation V (Failure X)) : s'.handles = (s.operate f op).handles →
      s'.futures = s.futures → Touch cfg s s'
  | forget (f : Nat) : s'.handles = s.handles → s'.futures = s.futures.pop (s.idOf cfg f) →
      Touch cfg s s'

theorem move_touch (hm : Move cfg s s') : Touch cfg s s' := by
  cases hm with
  | register _ _ hclosed hfailed _ hsequence => exact .new hclosed hfailed hsequence rfl rfl rfl
  | @abandon _ f => exact .forget f rfl rfl
  | @cancel f => exact .operate f .cancel rfl rfl
  | finish =>
    unfold State.settle
    split
    · rename_i f _ _ _ _
      split
      · exact .operate f .setCancelled rfl rfl
      · exact .same rfl rfl
    · exact .same rfl rfl
  | @mark _ f => exact .operate f .setSent rfl rfl
  | @skipped f => exact .forget f rfl rfl
  | @accepted f => exact .operate f .setAccepted rfl rfl
  | @running f pid workerId => exact .operate f (.setRunning pid workerId) rfl rfl
  | @complete f m => exact .operate f (cfg.runtime.completion (s.idOf cfg f) m) rfl rfl
  | @reject f control =>
    exact .operate f (.setException (.remote (cfg.runtime.rejection (s.idOf cfg f) control)) false) rfl rfl
  | @fail f error => exact .operate f (.setException (.remote error) false) rfl rfl
  | @forgetCompleted f | @forget f => exact .forget f rfl rfl
  | @lossOver loss =>
    unfold State.afterLoss
    cases loss.owner with
    | sender => exact .same rfl rfl
    | receiver | lane =>
      dsimp only
      split <;> exact .same rfl rfl
  | _ => exact .same rfl rfl

namespace Touch

theorem done (ht : Touch cfg s s') {f : Nat} (h : s.futureDone f = true) : s'.futureDone f = true := by
  cases ht with
  | new _ _ _ hhandles =>
    unfold State.futureDone at h ⊢
    rw [hhandles]
    cases hf : s.handles[f]? with
    | none =>
      rw [hf] at h
      cases h
    | some handle =>
      rw [List.getElem?_append_left (List.getElem?_eq_some_iff.mp hf).1]
      exact h
  | same hhandles | forget _ hhandles =>
    unfold State.futureDone
    rw [hhandles]
    exact h
  | operate g op hhandles =>
    have hdone : (s.operate g op).futureDone f = true := State.operate_done op h
    unfold State.futureDone at hdone ⊢
    rw [hhandles]
    exact hdone

/-- The table gains an entry only where a future is registered. -/
theorem values (ht : Touch cfg s s') (hclosed : s.closed = true) {f : Nat} (h : f ∈ s'.futures.values) :
    f ∈ s.futures.values := by
  cases ht with
  | new hopen =>
    rw [hopen] at hclosed
    cases hclosed
  | same _ hfutures | operate _ _ _ hfutures =>
    rw [hfutures] at h
    exact h
  | forget _ _ hfutures =>
    rw [hfutures] at h
    obtain ⟨e, he, rfl⟩ := List.mem_map.mp h
    exact List.mem_map_of_mem (Table.mem_pop.mp he).1

end Touch

end Moves

end Deadpool.Remote.Client
