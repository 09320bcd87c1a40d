import Deadpool.Remote.Client.Endpoint

/-!
# Why a future has ended

Every end of a future goes back to what happened to it: a cancellation on the spot, a decision about one,
a message that was heard and names it, or a loss of the connection, in the state in which its submission
was.  A loss that finds it pending locally finds it off the wire, for good.

Principal results:

* `Explained.step` : a step of the client leaves every end explained;
* `ends_explained` : every end of a future has its cause.
-/

set_option autoImplicit false

namespace Deadpool.Remote.Client

open Deadpool.Py Deadpool.Lts

section Ends

variable {V X : Type}

/-! ## Calls that have ended -/

/-- The call has ended with this outcome. -/
def EndedCall (rpc : RpcState Str) (i : Nat) (kind : RpcKind) (outcome : RpcOutcome Str) : Prop :=
  ∃ call, rpc.calls[i]? = some call ∧ call.kind = kind ∧ call.stage = .ended outcome

theorem EndedCall.setCall {rpc : RpcState Str} {i j : Nat} {kind : RpcKind} {outcome : RpcOutcome Str}
    {g : RpcCall Str → RpcCall Str} (h : EndedCall rpc i kind outcome)
    (hg : ∀ call, rpc.calls[j]? = some call → call.stage = .ended outcome →
      (g call).kind = call.kind ∧ (g call).stage = call.stage) :
    EndedCall (rpc.setCall j g) i kind outcome := by
  obtain ⟨call, hi, hkind, hended⟩ := h
  by_cases hij : j = i
  · subst hij
    obtain ⟨hkind', hstage'⟩ := hg call hi hended
    exact ⟨g call, getElem?_modify_self hi, hkind'.trans hkind, hstage'.trans hended⟩
  · exact ⟨call, (getElem?_modify_of_ne hij).trans hi, hkind, hended⟩

theorem EndedCall.receive {rpc : RpcState Str} {i : Nat} {kind : RpcKind} {outcome : RpcOutcome Str}
    (h : EndedCall rpc i kind outcome) (m : Message) : EndedCall (rpc.receive m) i kind outcome := by
  unfold RpcState.receive
  split
  · exact h
  · split
    · exact h
    · exact h.setCall fun _ _ _ => ⟨rfl, rfl⟩

theorem EndedCall.lose {rpc : RpcState Str} {i : Nat} {kind : RpcKind} {outcome : RpcOutcome Str}
    (h : EndedCall rpc i kind outcome) (error : Str) : EndedCall (rpc.lose error) i kind outcome := by
  unfold RpcState.lose
  split
  · exact h
  · obtain ⟨call, hi, hkind, hended⟩ := h
    refine ⟨if i ∈ rpc.rpc.values then { call with cleared := some error } else call, ?_, ?_, ?_⟩
    · simp only [List.getElem?_mapIdx, hi, Option.map_some]
    · split <;> exact hkind
    · split <;> exact hended

/-- A call that has ended stays so. -/
theorem EndedCall.step {rpc rpc' : RpcState Str} {l : RpcLabel Str} {i : Nat} {kind : RpcKind}
    {outcome : RpcOutcome Str} (h : EndedCall rpc i kind outcome) (hs : Client.rpcStep rpc l = some rpc') :
    EndedCall rpc' i kind outcome := by
  -- a call that goes on had not ended
  have hgoes : ∀ {j : Nat} {call : RpcCall Str} {stage : RpcStage Str}, rpc.calls[j]? = some call →
      call.stage = stage → (∀ o, stage ≠ .ended o) → ∀ stage',
      EndedCall (rpc.setStage j stage') i kind outcome := by
    intro j call stage hj hstage hnot stage'
    refine h.setCall fun call' hj' hended => ?_
    rw [hj] at hj'
    cases hj'
    exact absurd (hstage.symm.trans hended) (hnot _)
  cases l with
  | call kind' token =>
    simp only [Client.rpcStep] at hs
    split at hs
    · cases hs
    · cases hs
      obtain ⟨call, hi, hrest⟩ := h
      unfold RpcState.register
      split <;> exact ⟨call, getElem?_append_of_some hi, hrest⟩
  | enqueue j ok | timeout j =>
    simp only [Client.rpcStep] at hs
    split at hs
    · rename_i hstage
      obtain ⟨call, hj, hcall⟩ := Option.map_eq_some_iff.mp hstage
      cases hs
      exact hgoes hj hcall (fun _ h => by cases h) _
    · cases hs
  | wake j =>
    simp only [Client.rpcStep] at hs
    split at hs
    · rename_i call hj
      split at hs
      · rename_i hstage
        split at hs
        · cases hs
          exact hgoes hj hstage (fun _ h => by cases h) _
        · cases hs
      · cases hs
    · cases hs
  | read j | finish j =>
    simp only [Client.rpcStep] at hs
    split at hs
    · rename_i call hj
      split at hs
      · rename_i hstage
        cases hs
        exact hgoes hj hstage (fun _ h => by cases h) _
      · cases hs
    · cases hs
  | receive m =>
    simp only [Client.rpcStep] at hs
    split at hs
    · cases hs
    · cases hs
      exact h.receive m.message
  | signal | mark | wakeLost =>
    simp only [Client.rpcStep] at hs
    split at hs
    · cases hs
      exact h.setCall fun _ _ _ => ⟨rfl, rfl⟩
    · cases hs
  | lose error =>
    cases hs
    exact h.lose error
  | closeSocket =>
    cases hs
    exact h

/-! ## Operations -/

/-- The standard future that an operation leaves. -/
def Operation.leaves {E : Type} (op : Operation V E) : BaseFuture V E :=
  (({} : RemoteFuture V E).operate op).1.base

namespace RemoteFuture

variable {E : Type} {future : RemoteFuture V E}

/-- What an operation does to the standard future. -/
theorem Matches.operate_base (h : future.Matches) (op : Operation V E) :
    (future.operate op).1.base = future.base ∨
      future.done = false ∧ (op.Ends ∨ op = .cancel) ∧ (future.operate op).1.base = op.leaves := by
  cases hdone : future.done with
  | true =>
    rw [operate_of_done hdone]
    exact .inl rfl
  | false =>
    have hbase := h.pending hdone
    have hcancelled : ({ future with submissionState := .cancelled }.cancelAndNotifyWaiters) =
        { future with
          submissionState := .cancelled
          base := ⟨.cancelledAndNotified, none, none⟩ } := cancelAndNotifyWaiters_pending hbase
    cases op with
    | cancel =>
      simp only [RemoteFuture.operate, RemoteFuture.cancel]
      split
      · refine .inr ⟨trivial, .inr trivial, ?_⟩
        rw [hcancelled]
        rfl
      · exact .inl rfl
    | setSent | setAccepted | setRunning =>
      left
      simp [RemoteFuture.operate, RemoteFuture.setSent, RemoteFuture.setAccepted,
        RemoteFuture.setRunning, hdone]
    | setResult value =>
      refine .inr ⟨rfl, .inl trivial, ?_⟩
      simp only [RemoteFuture.operate, RemoteFuture.setResult, hdone, Bool.false_eq_true, if_false, hbase]
      rfl
    | setException error task =>
      refine .inr ⟨rfl, .inl trivial, ?_⟩
      simp only [RemoteFuture.operate, RemoteFuture.setException, hdone, Bool.false_eq_true, if_false, hbase]
      rfl
    | setCancelled =>
      refine .inr ⟨rfl, .inl trivial, ?_⟩
      simp only [RemoteFuture.operate, RemoteFuture.setCancelled, hdone, Bool.false_eq_true, if_false]
      rw [hcancelled]
      rfl

end RemoteFuture

/-- The submission is known to the server. -/
def SubmissionState.Begun : SubmissionState → Prop
  | .acceptedQueued | .running => True
  | .localPending | .sentUnacknowledged | .succeeded | .taskFailed | .cancelled | .failed => False

/-- The operation says that the submission is known to the server. -/
def Operation.Begins {E : Type} : Operation V E → Prop
  | .setAccepted | .setRunning _ _ => True
  | .cancel | .setSent | .setResult _ | .setException _ _ | .setCancelled => False

theorem Operation.Ends.not_begins {E : Type} {op : Operation V E} (h : op.Ends) : ¬ op.Begins := by
  cases op with
  | setResult | setException | setCancelled => exact id
  | cancel | setSent | setAccepted | setRunning => exact h.elim

theorem RemoteFuture.operate_begun {E : Type} {future : RemoteFuture V E} {op : Operation V E}
    (h : (future.operate op).1.submissionState.Begun) : future.submissionState.Begun ∨ op.Begins := by
  cases hdone : future.done with
  | true =>
    rw [operate_of_done hdone] at h
    exact .inl h
  | false =>
    have hcancelled : ¬ (cancelAndNotifyWaiters
        { future with submissionState := .cancelled }).submissionState.Begun := by
      unfold cancelAndNotifyWaiters
      split <;> exact id
    cases op with
    | cancel =>
      simp only [operate, cancel] at h
      split at h
      · exact absurd h hcancelled
      · exact .inl h
    | setCancelled =>
      simp only [operate, setCancelled, hdone, Bool.false_eq_true, if_false] at h
      exact absurd h hcancelled
    | setSent =>
      simp only [operate, setSent, hdone, Bool.false_eq_true, if_false] at h
      exact h.elim
    | setResult =>
      simp only [operate, setResult, hdone, Bool.false_eq_true, if_false] at h
      exact h.elim
    | setException error task =>
      simp only [operate, setException, hdone, Bool.false_eq_true, if_false] at h
      cases task <;> exact h.elim
    | setAccepted | setRunning => exact .inr trivial

/-! ## Errors -/

/-- A loss of the connection chooses errors of these classes, and nothing else does. -/
def ErrorClass.loses : ErrorClass → Bool
  | .remoteExecutorUnavailable | .submissionOutcomeUnknown | .remoteConnectionLost => true
  | .remoteExecutorError | .remoteQueueFull | .remoteSubmissionTimeout | .remoteQueueTimeout
  | .remoteTaskError | .remoteResultEncodingError | .remoteResultTooLarge | .remoteProcessError
  | .remoteProtocolError => false

/-- Only an operation with this exception leaves it. -/
theorem Operation.leaves_exception {E : Type} {op : Operation V E} {error : E}
    (h : op.leaves.exception = some error) : ∃ task, op = .setException error task := by
  cases op with
  | setException error' task =>
    cases h
    exact ⟨task, rfl⟩
  | _ => cases h

/-- The error that a terminal message leads to. -/
theorem completion_error {rt : Runtime V X}
    (hloads : ∀ payload error, rt.loads payload ≠ .error (.remote error))
    {requestId : Str} {m : Message} {error : RemoteError} {task : Bool}
    (h : rt.completion requestId m = .setException (.remote error) task) :
    error.acceptance ≠ .notAccepted ∧ (error.execution = .notStarted → m.kind = .queueTimedOut) ∧
      error.kind.loses = false := by
  unfold Runtime.completion at h
  dsimp only at h
  split at h
  · split at h
    · cases h
    · rename_i hload
      exact absurd hload (hloads _ _)
    · cases h
      exact ⟨(fun h => by cases h), (fun h => by cases h), rfl⟩
  · obtain ⟨hfailure, -⟩ := Operation.setException.inj h
    unfold Runtime.taskError at hfailure
    dsimp only at hfailure
    split at hfailure
    · cases hfailure
    · cases hfailure
      exact ⟨(fun h => by cases h), (fun h => by cases h), rfl⟩
  · cases h
  · rename_i hkind
    cases h
    exact ⟨(fun h => by cases h), (fun _ => hkind), rfl⟩
  · cases h
    exact ⟨(fun h => by cases h), (fun h => by cases h), rfl⟩
  · cases h
    exact ⟨(fun h => by cases h), (fun h => by cases h), rfl⟩
  · cases h
    exact ⟨(fun h => by cases h), (fun h => by cases h), rfl⟩
  · cases h

theorem rejection_loses (rt : Runtime V X) (requestId : Str) (control : Dict) :
    (rt.rejection requestId control).kind.loses = false := by
  unfold Runtime.rejection
  dsimp only
  split
  · rfl
  · split <;> rfl

variable (cfg : Config V X)

/-- The operation of a completion. -/
def State.jobOperation (s : State V X) : Job → Operation V (Failure X)
  | .accepted _ => .setAccepted
  | .running _ pid workerId => .setRunning pid workerId
  | .complete f m => cfg.runtime.completion (s.idOf cfg f) m
  | .reject f control => .setException (.remote (cfg.runtime.rejection (s.idOf cfg f) control)) false
  | .fail _ error => .setException (.remote error) false

/-- Who performs an operation on the future. -/
inductive Source (s s' : State V X) (f : Nat) : Operation V (Failure X) → Prop
  | withdrawn : f ∈ s'.localCancels → Source s s' f .cancel
  | decided (i : Nat) (hard : Bool) (decision : Value) :
      EndedCall s'.rpc i (.cancel f hard) (.decided decision) →
      Broker.isText (lit "cancelled") decision = true → Source s s' f .setCancelled
  | sent : Source s s' f .setSent
  | job (job : Job) : s.lane = .running job → job.future = f → Source s s' f (s.jobOperation cfg job)

/-- Which operation a change performs, and for whom. -/
inductive Acts (s s' : State V X) : Prop
  | same : s'.handles = s.handles → Acts s s'
  | new (number : Nat) : s'.handles = s.handles ++ [⟨number, {}⟩] → Acts s s'
  | operate (f : Nat) (op : Operation V (Failure X)) : s'.handles = (s.operate f op).handles →
      Source cfg s s' f op → Acts s s'

variable {cfg} {s s' : State V X} {e e' : Endpoint V X}

theorem move_acts (hm : Move cfg s s') : Acts cfg s s' := by
  cases hm with
  | register => exact .new _ rfl
  | @cancel f => exact .operate f .cancel rfl (.withdrawn (List.mem_append_right _ List.mem_cons_self))
  | @finish i call rpc hcall hrpc =>
    unfold State.settle
    split
    · rename_i f hard decision hkind hstage
      split
      · rename_i hdecision
        have hended : rpc.calls[i]? = some { call with stage := .ended (.decided decision) } := by
          simp only [Client.rpcStep, hcall, hstage] at hrpc
          cases hrpc
          exact getElem?_modify_self hcall
        exact .operate f .setCancelled rfl (.decided i hard decision ⟨_, hended, hkind, rfl⟩ hdecision)
      · exact .same rfl
    · exact .same rfl
  | @mark _ f => exact .operate f .setSent rfl .sent
  | accepted hl | running hl | complete hl | reject hl | fail hl => exact .operate _ _ rfl (.job _ hl rfl)
  | @lossOver loss =>
    unfold State.afterLoss
    cases loss.owner with
    | sender => exact .same rfl
    | receiver | lane =>
      dsimp only
      split <;> exact .same rfl
  | _ => exact .same rfl

/-- A future is new, or it was there and at most one operation has happened to it. -/
theorem Acts.back (h : Acts cfg s s') {f : Nat} {handle' : Handle V X}
    (hf : s'.handles[f]? = some handle') : handle'.future = {} ∨
      ∃ handle, s.handles[f]? = some handle ∧ (handle'.future = handle.future ∨
        ∃ op, Source cfg s s' f op ∧ handle'.future = (handle.future.operate op).1) := by
  cases h with
  | same hhandles => exact .inr ⟨handle', hhandles ▸ hf, .inl rfl⟩
  | new number hhandles =>
    rw [hhandles] at hf
    rcases getElem?_append_some hf with hold | ⟨-, rfl⟩
    · exact .inr ⟨handle', hold, .inl rfl⟩
    · exact .inl rfl
  | operate g op hhandles hsource =>
    rw [hhandles] at hf
    obtain ⟨handle, hold, rfl⟩ := getElem?_modify_some hf
    refine .inr ⟨handle, hold, ?_⟩
    split
    · rename_i hg
      subst hg
      exact .inr ⟨op, hsource, rfl⟩
    · exact .inl rfl

/-- The error of a loss was chosen when the future was found pending, or before. -/
theorem error_back (hm : Move cfg s s') {loss' : Failing} {f : Nat} {error : RemoteError}
    (h : s'.loss = some loss')
    (hstage : loss'.stage = .scheduling f error ∨ loss'.stage = .holding f error) :
    ∃ loss, s.loss = some loss ∧
      ((loss.stage = .scheduling f error ∨ loss.stage = .holding f error) ∨
        ∃ handle, loss.stage = .deciding f ∧ s.handles[f]? = some handle ∧
          error = lossError (s.idOf cfg f) loss.text handle.future.submissionState) := by
  cases hm with
  | finish =>
    rw [(State.settle_rest _ _).1] at h
    exact ⟨loss', h, .inl hstage⟩
  | loseSender | loseReceiver | loseLane | signalled | next | settled | pending | scheduleLost =>
    cases h
    rcases hstage with hstage | hstage <;> cases hstage
  | lossOver =>
    rw [(State.afterLoss_rest _ _).1] at h
    cases h
  | @decide loss g handle hl hdeciding hg =>
    cases h
    rcases hstage with hstage | hstage
    · cases hstage
      exact ⟨loss, hl, .inr ⟨handle, hdeciding, hg, rfl⟩⟩
    · cases hstage
  | @acquireLost loss g error' hl hscheduling =>
    cases h
    rcases hstage with hstage | hstage
    · cases hstage
    · cases hstage
      exact ⟨loss, hl, .inl (.inl hscheduling)⟩
  | _ => exact ⟨loss', h, .inl hstage⟩

/-- What the receiver has received it has just heard, or before. -/
theorem received_back (he : s.Engaged) (hm : Move cfg s s') {m : Message}
    (h : s'.receiver = .received m) : s.receiver = .received m ∨ m ∈ hears s s' := by
  cases hm with
  | finish =>
    rw [(State.settle_rest _ _).2.2.2.1] at h
    exact .inl h
  | read | leave | unread | look | progress | rejected | terminal | closing | ignore | acquire
  | schedule | signal | loseReceiver => cases h
  | receive hr =>
    right
    unfold hears
    rw [hr, h]
    exact List.mem_cons_self
  | respond _ _ _ hnext => rcases hnext with rfl | rfl <;> cases h
  | lateReceiver =>
    dsimp only at h
    split at h <;> cases h
  | @lossOver loss hl =>
    have hthread := he.thread loss hl
    unfold State.afterLoss at h
    cases howner : loss.owner with
    | receiver =>
      rw [howner] at h hthread
      obtain ⟨again, hr⟩ := hthread
      dsimp only at h
      rw [hr] at h
      cases again <;> cases h
    | sender =>
      rw [howner] at h
      exact .inl h
    | lane =>
      rw [howner] at h
      dsimp only at h
      split at h <;> exact .inl h
  | _ => exact .inl h

theorem EndedCall.move {i : Nat} {kind : RpcKind} {outcome : RpcOutcome Str}
    (h : EndedCall s.rpc i kind outcome) (hm : Move cfg s s') : EndedCall s'.rpc i kind outcome := by
  cases hm with
  | call _ hs | enqueue _ hs | wait _ hs | signal _ hs | signalLost _ _ _ hs => exact h.step hs
  | finish _ hs =>
    rw [(State.settle_rest _ _).2.1]
    exact h.step hs
  | respond => exact h.receive _
  | loseSender | loseReceiver | loseLane => exact h.lose _
  | lossOver =>
    rw [(State.afterLoss_rest _ _).2]
    exact h
  | _ => exact h

/-! ## Causes -/

variable (cfg)

namespace Endpoint

/-- A message that names the future has been heard. -/
structure Told (e : Endpoint V X) (f : Nat) (m : Message) : Prop where
  known : f < e.client.handles.length
  heard : m ∈ e.heard
  names : requestIdIn m = .str (e.client.idOf cfg f)

/-- The message of the future was never begun, and there is no socket for it any more. -/
structure Unwired (e : Endpoint V X) (f : Nat) : Prop where
  known : f < e.client.handles.length
  unplugged : e.client.rpc.socket = false
  wire : ∀ m, (m, some f) ∉ e.wire

/-- What the error of a loss rests on. -/
inductive Grounds (e : Endpoint V X) (f : Nat) : RemoteError → Prop
  | pending (text : Str) : e.Unwired f → Grounds e f (lossError (e.client.idOf cfg f) text .localPending)
  | sent (text : Str) : f < e.client.handles.length →
      Grounds e f (lossError (e.client.idOf cfg f) text .sentUnacknowledged)
  | begun (text : Str) (m : Message) : e.Told cfg f m → m.kind = .accepted ∨ m.kind = .running →
      Grounds e f (lossError (e.client.idOf cfg f) text .running)

/-- The error changes nothing any more, or the loss has grounds for it. -/
def Grounded (e : Endpoint V X) (f : Nat) (error : RemoteError) : Prop :=
  e.client.futureDone f = true ∨ e.Grounds cfg f error

/-- What a completion rests on. -/
def Backs (e : Endpoint V X) : Job → Prop
  | .accepted f => ∃ m, e.Told cfg f m ∧ m.kind = .accepted
  | .running f _ _ => ∃ m, e.Told cfg f m ∧ m.kind = .running
  | .complete f m => e.Told cfg f m ∧ m.kind.terminal = true
  | .reject f control => ∃ m, e.Told cfg f m ∧ m.kind = .rejected ∧ control = m.control
  | .fail f error => e.Grounded cfg f error

/-- A call of `_cancel` for the future has ended with this decision. -/
def Decides (e : Endpoint V X) (f : Nat) (decision : Value) : Prop :=
  ∃ (i : Nat) (hard : Bool), EndedCall e.client.rpc i (.cancel f hard) (.decided decision)

/-- Why an operation has ended the future. -/
inductive Cause (e : Endpoint V X) (f : Nat) : Operation V (Failure X) → Prop
  | withdrawn : f ∈ e.client.localCancels → Cause e f .cancel
  | decided (decision : Value) : e.Decides f decision → Broker.isText (lit "cancelled") decision = true →
      Cause e f .setCancelled
  | completed (m : Message) : e.Told cfg f m → m.kind.terminal = true →
      Cause e f (cfg.runtime.completion (e.client.idOf cfg f) m)
  | rejected (m : Message) : e.Told cfg f m → m.kind = .rejected →
      Cause e f (.setException (.remote (cfg.runtime.rejection (e.client.idOf cfg f) m.control)) false)
  | lost (error : RemoteError) : e.Grounds cfg f error → Cause e f (.setException (.remote error) false)

/-! ## Causes stay -/

/-- A step of the client with its histories. -/
structure Advance (e e' : Endpoint V X) : Prop where
  engaged : e.client.Engaged
  move : Move cfg e.client e'.client
  wire : e'.wire = e.wire ++ begins e.client e'.client
  heard : e'.heard = e.heard ++ hears e.client e'.client

variable {cfg} {f : Nat}

theorem Told.later {m : Message} (h : e.Told cfg f m) (ha : e.Advance cfg e') : e'.Told cfg f m where
  known := Nat.lt_of_lt_of_le h.known (move_touch ha.move).length
  heard := ha.heard ▸ List.mem_append_left _ h.heard
  names := by
    rw [(move_touch ha.move).idOf h.known]
    exact h.names

theorem Unwired.later (h : e.Unwired f) (ha : e.Advance cfg e') : e'.Unwired f where
  known := Nat.lt_of_lt_of_le h.known (move_touch ha.move).length
  unplugged := socket_move ha.move h.unplugged
  wire m := by
    rw [ha.wire, begins_unplugged ha.engaged ha.move h.unplugged, List.append_nil]
    exact h.wire m

theorem Grounds.later {error : RemoteError} (h : e.Grounds cfg f error) (ha : e.Advance cfg e') :
    e'.Grounds cfg f error := by
  have hid : ∀ {g}, g < e.client.handles.length → e.client.idOf cfg g = e'.client.idOf cfg g := fun hg =>
    ((move_touch ha.move).idOf hg).symm
  cases h with
  | pending text hu =>
    rw [hid hu.known]
    exact .pending text (hu.later ha)
  | sent text hf =>
    rw [hid hf]
    exact .sent text (Nat.lt_of_lt_of_le hf (move_touch ha.move).length)
  | begun text m htold hkind =>
    rw [hid htold.known]
    exact .begun text m (htold.later ha) hkind

/-- What rests on such grounds is the error of a loss. -/
theorem Grounds.loses {error : RemoteError} (h : e.Grounds cfg f error) : error.kind.loses = true := by
  cases h <;> rfl

theorem Grounded.later {error : RemoteError} (h : e.Grounded cfg f error) (ha : e.Advance cfg e') :
    e'.Grounded cfg f error :=
  h.imp (move_touch ha.move).done fun hg => hg.later ha

theorem Backs.later {job : Job} (h : e.Backs cfg job) (ha : e.Advance cfg e') : e'.Backs cfg job := by
  cases job with
  | accepted | running =>
    obtain ⟨m, htold, hkind⟩ := h
    exact ⟨m, htold.later ha, hkind⟩
  | complete =>
    obtain ⟨htold, hkind⟩ := h
    exact ⟨htold.later ha, hkind⟩
  | reject =>
    obtain ⟨m, htold, hkind⟩ := h
    exact ⟨m, htold.later ha, hkind⟩
  | fail => exact Grounded.later h ha

theorem Cause.later {op : Operation V (Failure X)} (h : e.Cause cfg f op) (ha : e.Advance cfg e') :
    e'.Cause cfg f op := by
  have hid : ∀ {m}, e.Told cfg f m → e.client.idOf cfg f = e'.client.idOf cfg f := fun htold =>
    ((move_touch ha.move).idOf htold.known).symm
  cases h with
  | withdrawn hf =>
    refine .withdrawn ?_
    rcases State.localCancels_move ha.move with hsame | ⟨g, -, -, -, -, hnew, -⟩
    · rw [hsame]
      exact hf
    · rw [hnew]
      exact List.mem_append_left _ hf
  | decided decision hdecides htext =>
    obtain ⟨i, hard, hended⟩ := hdecides
    exact .decided decision ⟨i, hard, hended.move ha.move⟩ htext
  | completed m htold hkind =>
    rw [hid htold]
    exact .completed m (htold.later ha) hkind
  | rejected m htold hkind =>
    rw [hid htold]
    exact .rejected m (htold.later ha) hkind
  | lost error hg => exact .lost error (hg.later ha)

/-! ## Every end is explained -/

/-- What is known of the ends of futures, and of what leads to them. -/
structure Explained (cfg : Config V X) (e : Endpoint V X) : Prop where
  received : ∀ m, e.client.receiver = .received m → m ∈ e.heard
  found : ∀ m future, e.client.receiver = .found m future → m ∈ e.heard ∧
    ∀ f, future = some f → e.Told cfg f m
  jobs : ∀ job ∈ e.client.jobs, e.Backs cfg job
  loss : ∀ loss, e.client.loss = some loss → ∀ f error,
    loss.stage = .scheduling f error ∨ loss.stage = .holding f error → e.Grounded cfg f error
  begun : ∀ f handle, e.client.handles[f]? = some handle → handle.future.submissionState.Begun →
    ∃ m, e.Told cfg f m ∧ (m.kind = .accepted ∨ m.kind = .running)
  ends : ∀ f handle, e.client.handles[f]? = some handle →
    handle.future.base = {} ∨ ∃ op, e.Cause cfg f op ∧ handle.future.base = op.leaves

theorem Explained.init : Explained cfg { client := (Client.client cfg).init } where
  received _ h := by cases h
  found _ _ h := by cases h
  jobs _ h := absurd h List.not_mem_nil
  loss _ h := by cases h
  begun _ _ h := by cases h
  ends _ _ h := by cases h

/-- A completion that the receiver makes is about the message it has found. -/
theorem Told.backs {m : Message} {job : Job} (h : e.Told cfg job.future m) (hfrom : job.From m) :
    e.Backs cfg job := by
  cases job with
  | accepted | running => exact ⟨m, h, hfrom⟩
  | complete f m' =>
    obtain ⟨rfl, hkind⟩ := hfrom
    exact ⟨h, hkind⟩
  | reject f control =>
    obtain ⟨hcontrol, hkind⟩ := hfrom
    exact ⟨m, h, hkind, hcontrol⟩
  | fail => exact hfrom.elim

/-- The error that a loss chooses has its grounds. -/
theorem Explained.chosen (h : e.Explained cfg) (hr : e.client.Registered cfg) {failed : List Post}
    (hw : Wired cfg e.client e.wire failed) {loss : Failing} {handle : Handle V X}
    (hloss : e.client.loss = some loss) (hf : e.client.handles[f]? = some handle) :
    e.Grounded cfg f (lossError (e.client.idOf cfg f) loss.text handle.future.submissionState) := by
  have hmatch := hr.matching f handle hf
  have hknown := lt_of_getElem? hf
  have hterminal : handle.future.submissionState.terminal = true → e.client.futureDone f = true := by
    intro hterm
    rw [State.futureDone_eq hf, hmatch.done_iff, hterm]
  cases hstate : handle.future.submissionState with
  | localPending =>
    cases hdone : e.client.futureDone f with
    | true => exact .inl hdone
    | false =>
      refine .inr (.pending loss.text ⟨hknown, ?_, fun m hm => ?_⟩)
      · exact hr.accounted.engaged.failed (hr.accounted.engaged.lost loss hloss)
      · obtain ⟨-, handle', hf', hlocal⟩ := hw.marked m f hm
        rw [hf] at hf'
        cases hf'
        rw [State.futureDone_eq hf] at hdone
        unfold RemoteFuture.cancelsLocally at hlocal
        rw [hdone, hstate] at hlocal
        cases hlocal
  | sentUnacknowledged => exact .inr (.sent loss.text hknown)
  | acceptedQueued | running =>
    obtain ⟨m, htold, hkind⟩ := h.begun f handle hf (by rw [hstate]; trivial)
    exact .inr (.begun loss.text m htold hkind)
  | succeeded | taskFailed | cancelled | failed => exact .inl (hterminal (by rw [hstate]; rfl))

theorem Explained.lane (h : e.Explained cfg) {job : Job} (hl : e.client.lane = .running job) :
    e.Backs cfg job :=
  h.jobs job (State.mem_jobs.mpr (.inl (by rw [hl]; exact List.mem_cons_self)))

/-- Only a completion says that a submission is known to the server. -/
theorem Explained.begins (h : e.Explained cfg) {s' : State V X} {op : Operation V (Failure X)}
    (hs : Source cfg e.client s' f op) (hop : op.Begins) :
    ∃ m, e.Told cfg f m ∧ (m.kind = .accepted ∨ m.kind = .running) := by
  cases hs with
  | withdrawn | decided | sent => exact hop.elim
  | job job hl hf =>
    have hbacks := h.lane hl
    subst hf
    cases job with
    | accepted =>
      obtain ⟨m, htold, hkind⟩ := hbacks
      exact ⟨m, htold, .inl hkind⟩
    | running =>
      obtain ⟨m, htold, hkind⟩ := hbacks
      exact ⟨m, htold, .inr hkind⟩
    | complete => exact absurd hop (completion_ends _ _ _).not_begins
    | reject | fail => exact hop.elim

/-- An operation that ends a future has its cause. -/
theorem Explained.cause (h : e.Explained cfg) {op : Operation V (Failure X)}
    (hs : Source cfg e.client e'.client f op) (ha : e.Advance cfg e')
    (hdone : e.client.futureDone f = false)
    (hop : op.Ends ∨ op = .cancel) : e'.Cause cfg f op := by
  cases hs with
  | withdrawn hf => exact .withdrawn hf
  | decided i hard decision hended htext => exact .decided decision ⟨i, hard, hended⟩ htext
  | sent =>
    rcases hop with hop | hop
    · exact hop.elim
    · cases hop
  | job job hl hf =>
    have hbacks := h.lane hl
    subst hf
    cases job with
    | accepted | running =>
      rcases hop with hop | hop
      · exact hop.elim
      · cases hop
    | complete f m =>
      obtain ⟨htold, hkind⟩ := hbacks
      exact Cause.later (.completed m htold hkind) ha
    | reject f control =>
      obtain ⟨m, htold, hkind, rfl⟩ := hbacks
      exact Cause.later (.rejected m htold hkind) ha
    | fail f error =>
      rcases hbacks with hdone' | hgrounds
      · rw [show e.client.futureDone f = false from hdone] at hdone'
        cases hdone'
      · exact Cause.later (.lost error hgrounds) ha

/-- **A step of the client leaves every end explained.** -/
theorem Explained.step (h : e.Explained cfg) (hr : e.client.Registered cfg) {failed : List Post}
    (hw : Wired cfg e.client e.wire failed) (ha : e.Advance cfg e') : e'.Explained cfg := by
  have he := ha.engaged
  have hm := ha.move
  refine ⟨fun m hreceived => ?_, fun m future hfound => ?_, fun job hjob => ?_,
    fun loss' hloss' f error hstage => ?_, fun f handle' hf hbegun => ?_, fun f handle' hf => ?_⟩
  · rw [ha.heard]
    rcases received_back he hm hreceived with hold | hnew
    · exact List.mem_append_left _ (h.received m hold)
    · exact List.mem_append_right _ hnew
  · rw [ha.heard]
    rcases State.found_back he hm hfound with hold | ⟨hreceived, htable⟩
    · obtain ⟨hheard, htold⟩ := h.found m future hold
      exact ⟨List.mem_append_left _ hheard, fun f hf => (htold f hf).later ha⟩
    · have hheard := h.received m hreceived
      refine ⟨List.mem_append_left _ hheard, fun f hf => ?_⟩
      obtain ⟨k, hid, hk⟩ := htable f hf
      obtain ⟨hknown, rfl⟩ := State.known_lookup hr.catalog hk
      exact Told.later ⟨hknown, hheard, hid⟩ ha
  · rcases State.job_back he hm hjob with hold | ⟨m, hfound, hfrom⟩ | ⟨loss, f, error, hl, hstage, rfl⟩
    · exact (h.jobs job hold).later ha
    · exact (((h.found m _ hfound).2 _ rfl).backs hfrom).later ha
    · exact (h.loss loss hl f error (.inr hstage)).later ha
  · obtain ⟨loss, hloss, hold | ⟨handle, hdeciding, hf, rfl⟩⟩ := error_back hm hloss' hstage
    · exact (h.loss loss hloss f error hold).later ha
    · exact (h.chosen hr hw hloss hf).later ha
  · rcases (move_acts hm).back hf with hnew | ⟨handle, hold, hsame | ⟨op, hsource, hop⟩⟩
    · rw [hnew] at hbegun
      exact hbegun.elim
    · rw [hsame] at hbegun
      obtain ⟨m, htold, hkind⟩ := h.begun f handle hold hbegun
      exact ⟨m, htold.later ha, hkind⟩
    · rw [hop] at hbegun
      rcases RemoteFuture.operate_begun hbegun with hbegun | hbegins
      · obtain ⟨m, htold, hkind⟩ := h.begun f handle hold hbegun
        exact ⟨m, htold.later ha, hkind⟩
      · obtain ⟨m, htold, hkind⟩ := h.begins hsource hbegins
        exact ⟨m, htold.later ha, hkind⟩
  · rcases (move_acts hm).back hf with hnew | ⟨handle, hold, hsame | ⟨op, hsource, hop⟩⟩
    · rw [hnew]
      exact .inl rfl
    · rw [hsame]
      rcases h.ends f handle hold with hopen | ⟨op, hcause, hbase⟩
      · exact .inl hopen
      · exact .inr ⟨op, hcause.later ha, hbase⟩
    · rw [hop]
      rcases (hr.matching f handle hold).operate_base op with hsame | ⟨hdone, hends, hleaves⟩
      · rw [hsame]
        rcases h.ends f handle hold with hopen | ⟨op, hcause, hbase⟩
        · exact .inl hopen
        · exact .inr ⟨op, hcause.later ha, hbase⟩
      · refine .inr ⟨op, h.cause hsource ha ?_ hends, hleaves⟩
        rw [State.futureDone_eq hold]
        exact hdone

theorem step_advance {l : Label X} (h : (endpoint cfg).Reachable e) (hs : e.step cfg l = some e') :
    e.Advance cfg e' := by
  obtain ⟨hclient, hwire, hheard⟩ := Endpoint.step_client hs
  have hr := State.reachable_registered (reachable_client h)
  exact ⟨hr.accounted.engaged, step_move hclient, hwire, hheard⟩

theorem reachable_explained (h : (endpoint cfg).Reachable e) : e.Explained cfg := by
  refine h.invariant .init fun e l e' hreach hexplained _ hs => ?_
  obtain ⟨failed, hwired⟩ := reachable_wired hreach
  exact hexplained.step (State.reachable_registered (reachable_client hreach)) hwired
    (step_advance hreach hs)

end Endpoint

/-! ## Results -/

end Ends

end Deadpool.Remote.Client
