import Deadpool.Remote.Client.Registry

/-!
# No future is left behind

A future that `submit` has returned is in the table until it is done, so that a loss of the connection
finds it there.  The loop of `_connection_lost` passes it over only if it is done or its terminal message
is marked, and a mark stands for a completion that waits or runs, unless the future is done.

Principal results:

* `lost_futures_resolve` — after the loop every returned future is done or has its completion, and no
  future is registered any more;
* `closed_futures_done`  — past the wait of a shutdown every returned future is done;
* `recorded_spared`      — a future whose terminal message was marked before the loss is never failed by it.
-/

set_option autoImplicit false

namespace Deadpool.Remote.Client

open Deadpool.Py Deadpool.Lts

/-! ## Completions -/

/-- The future of a job. -/
def Job.future : Job → Nat
  | .accepted f | .running f _ _ | .complete f _ | .reject f _ | .fail f _ => f

/-- The job ends the future. -/
def Job.Settles (f : Nat) : Job → Prop
  | .complete g _ | .reject g _ | .fail g _ => g = f
  | .accepted _ | .running _ _ _ => False

/-- The receiver makes the job of the message. -/
def Job.From (m : Message) : Job → Prop
  | .accepted _ => m.kind = .accepted
  | .running _ _ _ => m.kind = .running
  | .complete _ m' => m' = m ∧ m.kind.terminal = true
  | .reject _ control => control = m.control ∧ m.kind = .rejected
  | .fail _ _ => False

def Receiver.jobs : Receiver → List Job
  | .scheduling job | .holding job => [job]
  | .top | .reading | .received _ | .found _ _ | .signalling | .failing _ _ | .losing _ | .stopped => []

def Lane.jobs : Lane → List Job
  | .running job => [job]
  | .idle | .acking _ | .refused _ | .losing _ | .forgetting _ _ | .discarding _ | .releasing => []

/-- The future that the lane has ended. -/
def Lane.ended : Lane → Option Nat
  | .acking f | .refused f | .losing f | .forgetting f _ | .discarding f => some f
  | .idle | .running _ | .releasing => none

/-- The loop of `_connection_lost` has not passed over the future. -/
def LossStage.Pending (f : Nat) : LossStage → Prop
  | .looked g false | .deciding g | .scheduling g _ | .holding g _ => g = f
  | .signals | .next | .looked _ true => False

section Cover

variable {V X : Type} {cfg : Config V X} {s s' : State V X}

/-- The future that a submission is about. -/
def SubmitStage.future : SubmitStage X → Option Nat
  | .registered f _ | .checked f _ | .abandoning f _ | .returned f => some f
  | .serializing | .serialized _ | .raised _ => none

/-! ## Operations that end a future -/

/-- The operation ends a future. -/
def Operation.Ends {E : Type} : Operation V E → Prop
  | .setResult _ | .setException _ _ | .setCancelled => True
  | .cancel | .setSent | .setAccepted | .setRunning _ _ => False

theorem RemoteFuture.operate_ends {E : Type} {future : RemoteFuture V E} (h : future.Matches)
    {op : Operation V E} (hop : op.Ends) : (future.operate op).1.done = true := by
  cases hdone : future.done with
  | true =>
    rw [operate_of_done hdone]
    exact hdone
  | false =>
    have hends : (future.operate op).2 = true := by
      cases op with
      | setResult | setException | setCancelled =>
        simp [RemoteFuture.operate, RemoteFuture.setResult, RemoteFuture.setException,
          RemoteFuture.setCancelled, hdone]
      | cancel | setSent | setAccepted | setRunning => exact hop.elim
    exact ((h.operate op).2.mp hends).2

theorem completion_ends (rt : Runtime V X) (requestId : Str) (m : Message) :
    (rt.completion requestId m).Ends := by
  unfold Runtime.completion
  dsimp only
  split
  · split <;> trivial
  all_goals trivial

namespace State

theorem operate_futureDone (hmatch : s.Matching) {f : Nat} (hf : f < s.handles.length)
    {op : Operation V (Failure X)} (hop : op.Ends) : (s.operate f op).futureDone f = true := by
  have hlookup := List.getElem?_eq_getElem hf
  rw [futureDone_eq (getElem?_modify_self hlookup)]
  exact RemoteFuture.operate_ends (hmatch f _ hlookup) hop

/-! ## Jobs -/

/-- The completions that run, wait in the queue of the lane or are about to be scheduled, in this
order. -/
def jobs (s : State V X) : List Job := s.lane.jobs ++ s.work ++ s.receiver.jobs

theorem mem_jobs {job : Job} :
    job ∈ s.jobs ↔ job ∈ s.lane.jobs ∨ job ∈ s.work ∨ job ∈ s.receiver.jobs := by
  unfold State.jobs
  rw [List.mem_append, List.mem_append, or_assoc]

theorem mem_of_nil {l l' : List Job} (h : l = []) : ∀ job ∈ l, job ∈ l' := by
  intro job hjob
  rw [h] at hjob
  exact absurd hjob List.not_mem_nil

theorem jobs_keep {job : Job} (h : job ∈ s.jobs) (hlane : ∀ job ∈ s.lane.jobs, job ∈ s'.lane.jobs)
    (hwork : s'.work = s.work) (hreceiver : ∀ job ∈ s.receiver.jobs, job ∈ s'.receiver.jobs) :
    job ∈ s'.jobs := by
  rw [mem_jobs] at h ⊢
  rw [hwork]
  exact h.imp (hlane job) (Or.imp_right (hreceiver job))

theorem settle_jobs (s : State V X) (call : RpcCall Str) : (s.settle call).jobs = s.jobs := by
  obtain ⟨-, -, -, hreceiver, hlane, -, hwork, -⟩ := settle_rest s call
  unfold State.jobs
  rw [hreceiver, hlane, hwork]

/-- A thread that comes back from `_connection_lost` has no job. -/
theorem afterLoss_jobs (s : State V X) (owner : Thread) (h : s.Loses owner) :
    (s.afterLoss owner).jobs = s.jobs := by
  unfold State.afterLoss
  cases owner with
  | sender => rfl
  | receiver =>
    obtain ⟨again, hr⟩ := h
    dsimp only
    unfold State.jobs
    rw [hr]
    cases again <;> rfl
  | lane =>
    obtain ⟨f, hl⟩ := h
    dsimp only
    unfold State.jobs
    rw [hl]
    rfl

/-- A job waits until it runs, and what it settles is done then. -/
theorem job_move (hmatch : s.Matching) (he : s.Engaged) (hm : Move cfg s s') {f : Nat} {job : Job}
    (hf : f < s.handles.length) (hjob : job ∈ s.jobs) (hs : job.Settles f) :
    job ∈ s'.jobs ∨ s'.futureDone f = true := by
  -- the job that the lane runs ends the future
  have hrun : ∀ {run : Job} {op : Operation V (Failure X)} {t : State V X}, s.lane = .running run →
      (run.Settles f → op.Ends ∧ t.handles = (s.operate f op).handles) →
      t.work = s.work → t.receiver = s.receiver → job ∈ t.jobs ∨ t.futureDone f = true := by
    intro run op t hl hends hwork hreceiver
    rw [mem_jobs, hl] at hjob
    rcases hjob with hrunning | hjob
    · right
      have hsame : job = run := List.mem_singleton.mp hrunning
      rw [hsame] at hs
      obtain ⟨hop, hhandles⟩ := hends hs
      have hdone := operate_futureDone hmatch hf hop
      unfold State.futureDone at hdone ⊢
      rw [hhandles]
      exact hdone
    · left
      rw [mem_jobs, hwork, hreceiver]
      exact .inr hjob
  cases hm with
  | finish =>
    left
    rw [settle_jobs]
    exact hjob
  | read hr | leave hr | receive hr | unread hr | look hr | progress hr | rejected hr | terminal hr
  | respond hr | closing hr | ignore hr | signal hr | lateReceiver _ hr | loseReceiver _ hr =>
    exact .inl (jobs_keep hjob (fun _ h => h) rfl (mem_of_nil (by rw [hr]; rfl)))
  | acquire hr => exact .inl (jobs_keep hjob (fun _ h => h) rfl (by rw [hr]; exact fun _ h => h))
  | @schedule run hr =>
    left
    rw [mem_jobs, hr] at hjob
    rw [mem_jobs]
    rcases hjob with hlane | hwork | hnew
    · exact .inl hlane
    · exact .inr (.inl (List.mem_append_left _ hwork))
    · exact .inr (.inl (List.mem_append_right _ hnew))
  | start hl hw =>
    left
    rw [mem_jobs, hl, hw] at hjob
    rw [mem_jobs]
    rcases hjob with hlane | hwork | hreceiver
    · cases hlane
    · rcases List.mem_cons.mp hwork with rfl | hwork
      · exact .inl List.mem_cons_self
      · exact .inr (.inl hwork)
    · exact .inr (.inr hreceiver)
  | accepted hl => exact @hrun _ .setSent _ hl (fun hsettles => hsettles.elim) rfl rfl
  | running hl => exact @hrun _ .setSent _ hl (fun hsettles => hsettles.elim) rfl rfl
  | @complete g m hl =>
    refine @hrun _ (cfg.runtime.completion (s.idOf cfg g) m) _ hl (fun hsettles => ?_) rfl rfl
    cases hsettles
    exact ⟨completion_ends _ _ _, rfl⟩
  | @reject g control hl =>
    refine @hrun _ (.setException (.remote (cfg.runtime.rejection (s.idOf cfg g) control)) false) _ hl
      (fun hsettles => ?_) rfl rfl
    cases hsettles
    exact ⟨trivial, rfl⟩
  | @fail g error hl =>
    refine @hrun _ (.setException (.remote error) false) _ hl (fun hsettles => ?_) rfl rfl
    cases hsettles
    exact ⟨trivial, rfl⟩
  | acknowledge hl | unacknowledged hl | forgetCompleted hl | forget hl | discard hl | release hl
  | lateLane _ hl | loseLane _ hl =>
    exact .inl (jobs_keep hjob (mem_of_nil (by rw [hl]; rfl)) rfl fun _ h => h)
  | lossOver hl =>
    left
    rw [afterLoss_jobs { s with loss := none } _ (he.thread _ hl)]
    exact hjob
  | scheduleLost =>
    left
    rw [mem_jobs] at hjob ⊢
    exact hjob.imp_right (Or.imp_left (List.mem_append_left _))
  | _ => exact .inl hjob

/-- Where a new job comes from. -/
theorem job_back (he : s.Engaged) (hm : Move cfg s s') {job : Job} (hjob : job ∈ s'.jobs) :
    job ∈ s.jobs ∨
      (∃ m, s.receiver = .found m (some job.future) ∧ job.From m) ∨
      ∃ loss f error, s.loss = some loss ∧ loss.stage = .holding f error ∧ job = .fail f error := by
  -- the receiver is about to schedule a job
  have hschedule : ∀ (new : Job) (m : Message), s.receiver = .found m (some new.future) → new.From m →
      job ∈ s.lane.jobs ++ s.work ++ [new] → job ∈ s.jobs ∨
        (∃ m, s.receiver = .found m (some job.future) ∧ job.From m) ∨
        ∃ loss f error, s.loss = some loss ∧ loss.stage = .holding f error ∧ job = .fail f error := by
    intro new m hfound hfrom h
    rcases List.mem_append.mp h with h | h
    · exact .inl (List.mem_append_left _ h)
    · rw [List.mem_singleton.mp h]
      exact .inr (.inl ⟨m, hfound, hfrom⟩)
  cases hm with
  | finish =>
    rw [settle_jobs] at hjob
    exact .inl hjob
  | read hr | leave hr | receive hr | unread hr | look hr | closing hr | ignore hr | signal hr
  | loseReceiver _ hr => exact .inl (jobs_keep hjob (fun _ h => h) rfl (mem_of_nil rfl))
  | lateReceiver _ hr =>
    refine .inl (jobs_keep hjob (fun _ h => h) rfl ?_)
    dsimp only
    split <;> exact mem_of_nil rfl
  | respond hr _ _ hnext =>
    refine .inl (jobs_keep hjob (fun _ h => h) rfl ?_)
    rcases hnext with rfl | rfl <;> exact mem_of_nil rfl
  | progress hr hkind =>
    rcases hkind with ⟨hkind, rfl⟩ | ⟨hkind, rfl⟩
    · exact hschedule (.accepted _) _ hr hkind hjob
    · exact hschedule (.running _ _ _) _ hr hkind hjob
  | @rejected m f hr hkind => exact hschedule (.reject f m.control) m hr ⟨rfl, hkind⟩ hjob
  | @terminal m f hr hkind => exact hschedule (.complete f m) m hr ⟨rfl, hkind⟩ hjob
  | acquire hr => exact .inl (jobs_keep hjob (fun _ h => h) rfl (by rw [hr]; exact fun _ h => h))
  | schedule hr =>
    left
    rw [mem_jobs] at hjob
    rw [mem_jobs, hr]
    rcases hjob with hlane | hwork | hnone
    · exact .inl hlane
    · exact .inr (List.mem_append.mp hwork)
    · cases hnone
  | start hl hw =>
    left
    rw [mem_jobs] at hjob
    rw [mem_jobs, hw]
    rcases hjob with hlane | hwork | hreceiver
    · rw [List.mem_singleton.mp hlane]
      exact .inr (.inl List.mem_cons_self)
    · exact .inr (.inl (List.mem_cons_of_mem _ hwork))
    · exact .inr (.inr hreceiver)
  | accepted hl | running hl | complete hl | reject hl | fail hl | acknowledge hl | unacknowledged hl
  | forgetCompleted hl | forget hl | discard hl | release hl | lateLane _ hl | loseLane _ hl =>
    exact .inl (jobs_keep hjob (mem_of_nil rfl) rfl fun _ h => h)
  | lossOver hl =>
    rw [afterLoss_jobs { s with loss := none } _ (he.thread _ hl)] at hjob
    exact .inl hjob
  | @scheduleLost loss f error hl hstage =>
    rw [mem_jobs] at hjob
    rcases hjob with hlane | hwork | hreceiver
    · exact .inl (mem_jobs.mpr (.inl hlane))
    · rcases List.mem_append.mp hwork with hwork | hnew
      · exact .inl (mem_jobs.mpr (.inr (.inl hwork)))
      · exact .inr (.inr ⟨loss, f, error, hl, hstage, List.mem_singleton.mp hnew⟩)
    · exact .inl (mem_jobs.mpr (.inr (.inr hreceiver)))
  | _ => exact .inl hjob

/-! ## Futures that a completion ends -/

/-- The future is done, or a completion on its way ends it. -/
def Resolving (s : State V X) (f : Nat) : Prop :=
  s.futureDone f = true ∨ ∃ job ∈ s.jobs, job.Settles f

theorem Resolving.move {f : Nat} (h : s.Resolving f) (hmatch : s.Matching) (he : s.Engaged)
    (hf : f < s.handles.length) (hm : Move cfg s s') : s'.Resolving f := by
  rcases h with hdone | ⟨job, hjob, hs⟩
  · exact .inl ((move_touch hm).done hdone)
  · rcases job_move hmatch he hm hf hjob hs with hjob | hdone
    · exact .inr ⟨job, hjob, hs⟩
    · exact .inl hdone

theorem futureDone_lt {f : Nat} (h : s.futureDone f = true) : f < s.handles.length := by
  obtain ⟨handle, hhandle, -⟩ := futureDone_lookup h
  exact lt_of_getElem? hhandle

/-- A future that the receiver has looked up comes from the table, under the ID in the message. -/
theorem found_back (he : s.Engaged) (hm : Move cfg s s') {m : Message} {future : Option Nat}
    (h : s'.receiver = .found m future) :
    s.receiver = .found m future ∨ s.receiver = .received m ∧ ∀ f, future = some f →
      ∃ k, m.control.items.get (lit "request_id") = .str k ∧ s.futures.get? k = some f := by
  cases hm with
  | finish =>
    rw [(settle_rest _ _).2.2.2.1] at h
    exact .inl h
  | read | leave | receive | unread | progress | rejected | terminal | closing | ignore | acquire
  | schedule | signal | loseReceiver => cases h
  | respond _ _ _ hnext => rcases hnext with rfl | rfl <;> cases h
  | lateReceiver =>
    dsimp only at h
    split at h <;> cases h
  | look hr htable =>
    cases h
    exact .inr ⟨hr, htable⟩
  | @lossOver loss hl =>
    have hthread := he.thread loss hl
    unfold State.afterLoss at h
    cases howner : loss.owner with
    | receiver =>
      rw [howner] at h hthread
      obtain ⟨again, hr⟩ := hthread
      dsimp only at h
      rw [hr] at h
      cases again <;> cases h
    | sender =>
      rw [howner] at h
      exact .inl h
    | lane =>
      rw [howner] at h
      dsimp only at h
      split at h <;> exact .inl h
  | _ => exact .inl h

/-- What the lane has ended is done. -/
theorem ended_back (hmatch : s.Matching) (he : s.Engaged) (hm : Move cfg s s')
    (hjobs : ∀ job ∈ s.jobs, job.future < s.handles.length) {f : Nat} (h : s'.lane.ended = some f) :
    s.lane.ended = some f ∨ s'.futureDone f = true := by
  have hrun : ∀ {job : Job}, s.lane = .running job → job.future < s.handles.length := fun hl =>
    hjobs _ (mem_jobs.mpr (.inl (by rw [hl]; exact List.mem_cons_self)))
  cases hm with
  | finish =>
    rw [(settle_rest _ _).2.2.2.2.1] at h
    exact .inl h
  | start | accepted | running | forget | discard | release => cases h
  | complete hl =>
    cases h
    exact .inr (operate_futureDone hmatch (hrun hl) (completion_ends _ _ _))
  | reject hl | fail hl =>
    cases h
    exact .inr (operate_futureDone hmatch (hrun hl) trivial)
  | acknowledge hl | unacknowledged hl | forgetCompleted hl | lateLane _ hl | loseLane _ hl =>
    rw [hl]
    exact .inl h
  | @lossOver loss hl =>
    have hthread := he.thread loss hl
    unfold State.afterLoss at h
    cases howner : loss.owner with
    | lane =>
      rw [howner] at h hthread
      obtain ⟨g, hl⟩ := hthread
      dsimp only at h
      rw [hl] at h ⊢
      exact .inl h
    | sender =>
      rw [howner] at h
      exact .inl h
    | receiver =>
      rw [howner] at h
      dsimp only at h
      split at h <;> exact .inl h
  | _ => exact .inl h

/-- What the sender skips is done. -/
theorem skipped_back (hm : Move cfg s s') {f : Nat} (h : s'.sender = .skipping f) :
    s.sender = .skipping f ∨ s'.futureDone f = true := by
  cases hm with
  | finish =>
    rw [(settle_rest _ _).2.2.1] at h
    exact .inl h
  | skip _ hdone =>
    cases h
    exact .inr hdone
  | sentinel | take | markPlain | mark | skipped | begin | unplugged | sent | unsent | lateSender
  | loseSender => cases h
  | @lossOver loss =>
    unfold State.afterLoss at h
    cases howner : loss.owner with
    | sender =>
      rw [howner] at h
      cases h
    | receiver | lane =>
      rw [howner] at h
      dsimp only at h
      split at h <;> exact .inl h
  | _ => exact .inl h

/-- What a change does to the loop of `_connection_lost`. -/
inductive LossMove (cfg : Config V X) (s s' : State V X) : Prop
  | same : s'.loss = s.loss → s'.rpc.transportFailed = s.rpc.transportFailed → LossMove cfg s s'
  | begin (owner : Thread) (text : Str) : s.rpc.transportFailed = false →
      s'.loss = some ⟨owner, text, s.futures.values, .signals⟩ → s'.rpc.transportFailed = true →
      LossMove cfg s s'
  | lossOver (loss : Failing) : s.loss = some loss → loss.stage = .next → loss.rest = [] → s'.loss = none →
      s'.rpc.transportFailed = s.rpc.transportFailed → LossMove cfg s s'
  | next (loss : Failing) (f : Nat) (rest : List Nat) : s.loss = some loss → loss.stage = .next →
      loss.rest = f :: rest →
      s'.loss = some { loss with
        rest := rest, stage := .looked f (s.terminalReceived.contains (s.idOf cfg f)) } →
      s'.rpc.transportFailed = s.rpc.transportFailed → LossMove cfg s s'
  | settled (loss : Failing) (f : Nat) (terminalReceived : Bool) : s.loss = some loss →
      loss.stage = .looked f terminalReceived → s.futureDone f = true ∨ terminalReceived = true →
      s'.loss = some { loss with stage := .next } →
      s'.rpc.transportFailed = s.rpc.transportFailed → LossMove cfg s s'
  | scheduled (loss : Failing) (f : Nat) (error : RemoteError) : s.loss = some loss →
      loss.stage = .holding f error → .fail f error ∈ s'.jobs →
      s'.loss = some { loss with stage := .next } →
      s'.rpc.transportFailed = s.rpc.transportFailed → LossMove cfg s s'
  | stage (loss : Failing) (stage : LossStage) : s.loss = some loss →
      (∀ f, loss.stage.Pending f ↔ stage.Pending f) →
      (∀ f, stage.Pending f → s.futureDone f = false ∨ loss.stage ≠ .looked f false) →
      s'.loss = some { loss with stage } →
      s'.rpc.transportFailed = s.rpc.transportFailed → LossMove cfg s s'

theorem LossMove.rpc {l : RpcLabel Str} {rpc : RpcState Str} (hrpc : Client.rpcStep s.rpc l = some rpc)
    (hlose : ∀ e, l ≠ .lose e) (hclose : l ≠ .closeSocket) (hloss : s'.loss = s.loss)
    (hsame : s'.rpc = rpc) : LossMove cfg s s' :=
  .same hloss (by rw [hsame]; exact (rpc_flags hrpc hlose hclose).1)

theorem move_loss_stage (hm : Move cfg s s') : LossMove cfg s s' := by
  have hlose : s.rpc.transportFailed = false → ∀ text, (s.rpc.lose text).transportFailed = true := by
    intro hf text
    unfold RpcState.lose
    rw [hf]
    rfl
  cases hm with
  | call _ hrpc | enqueue _ hrpc => exact .rpc hrpc nofun nofun rfl rfl
  | wait hl hrpc =>
    refine .rpc hrpc ?_ ?_ rfl rfl
    · rintro e rfl
      simp at hl
    · rintro rfl
      simp at hl
  | finish _ hrpc =>
    obtain ⟨hloss, hsame, -⟩ := settle_rest { s with rpc := _ } _
    exact .rpc hrpc nofun nofun hloss hsame
  | respond => exact .same rfl (rpc_receive_flags s.rpc _).1
  | signal _ hrpc => exact .rpc hrpc nofun nofun rfl rfl
  | loseSender hf => exact .begin _ _ hf rfl (hlose hf _)
  | loseReceiver hf => exact .begin _ _ hf rfl (hlose hf _)
  | loseLane hf => exact .begin _ _ hf rfl (hlose hf _)
  | signalLost hl hstage hlabel hrpc =>
    rcases hlabel with rfl | rfl
    · exact .rpc hrpc nofun nofun rfl rfl
    · exact .rpc hrpc nofun nofun rfl rfl
  | signalled hl hstage =>
    refine .stage _ .next hl (fun f => ?_) (fun _ => False.elim) rfl rfl
    rw [hstage]
    exact Iff.rfl
  | lossOver hl hstage hrest =>
    obtain ⟨hloss, hrpc⟩ := afterLoss_rest { s with loss := none } _
    exact .lossOver _ hl hstage hrest hloss (by rw [hrpc])
  | next hl hstage hrest => exact .next _ _ _ hl hstage hrest rfl rfl
  | settled hl hstage hdone => exact .settled _ _ _ hl hstage hdone rfl rfl
  | @pending loss g t hl hstage hdone hmark =>
    refine .stage loss (.deciding g) hl (fun f => ?_) (fun f hf => ?_) rfl rfl
    · rw [hstage, hmark]
      exact Iff.rfl
    · cases hf
      exact .inl hdone
  | decide hl hstage =>
    refine .stage _ (.scheduling _ _) hl (fun f => ?_) (fun f _ => .inr ?_) rfl rfl
    · rw [hstage]
      exact Iff.rfl
    · rw [hstage]
      exact nofun
  | acquireLost hl hstage =>
    refine .stage _ (.holding _ _) hl (fun f => ?_) (fun f _ => .inr ?_) rfl rfl
    · rw [hstage]
      exact Iff.rfl
    · rw [hstage]
      exact nofun
  | @scheduleLost loss f error hl hstage =>
    refine .scheduled loss f error hl hstage ?_ rfl rfl
    rw [mem_jobs]
    exact .inr (.inl (List.mem_append_right _ List.mem_cons_self))
  | _ => exact .same rfl rfl

/-! ## Whose future is it -/

/-- The future is registered. -/
def Known (s : State V X) (f : Nat) : Prop := f < s.handles.length

/-- Every future that a thread is about is registered. -/
structure Bounded (s : State V X) : Prop where
  found : ∀ m f, s.receiver = .found m (some f) → s.Known f
  jobs : ∀ job ∈ s.jobs, s.Known job.future
  rest : ∀ loss, s.loss = some loss → ∀ f ∈ loss.rest, s.Known f
  stage : ∀ loss, s.loss = some loss → ∀ f, loss.stage.Pending f → s.Known f
  ended : ∀ f, s.lane.ended = some f → s.futureDone f = true
  skipped : ∀ f, s.sender = .skipping f → s.futureDone f = true

theorem Bounded.init : (client cfg).init.Bounded where
  found _ _ h := by cases h
  jobs _ h := absurd h List.not_mem_nil
  rest _ h := by cases h
  stage _ h := by cases h
  ended _ h := by cases h
  skipped _ h := by cases h

theorem known_values (h : s.Catalog cfg) {f : Nat} (hf : f ∈ s.futures.values) : s.Known f := by
  obtain ⟨e, he, rfl⟩ := List.mem_map.mp hf
  exact (h.keys e he).1

theorem known_lookup (h : s.Catalog cfg) {k : Str} {f : Nat} (hf : s.futures.get? k = some f) :
    s.Known f ∧ k = s.idOf cfg f := h.keys _ (Table.mem_of_get? hf)

theorem Bounded.move (h : s.Bounded) (hr : s.Registered cfg) (hm : Move cfg s s') : s'.Bounded := by
  have he := hr.accounted.engaged
  have hknown : ∀ {f}, s.Known f → s'.Known f := fun hf => Nat.lt_of_lt_of_le hf (move_touch hm).length
  have hdone : ∀ {f}, s.futureDone f = true → s'.futureDone f = true := (move_touch hm).done
  refine ⟨fun m f hfound => ?_, fun job hjob => ?_, fun loss hl f hf => ?_, fun loss hl f hf => ?_,
    fun f hended => ?_, fun f hskip => ?_⟩
  · rcases found_back he hm hfound with hfound | ⟨-, htable⟩
    · exact hknown (h.found m f hfound)
    · obtain ⟨k, -, hk⟩ := htable f rfl
      exact hknown (known_lookup hr.catalog hk).1
  · rcases job_back he hm hjob with hjob | ⟨m, hfound, -⟩ | ⟨loss, f, error, hl, hstage, rfl⟩
    · exact hknown (h.jobs job hjob)
    · exact hknown (h.found m _ hfound)
    · exact hknown (h.stage loss hl f (by rw [hstage]; rfl))
  · cases move_loss_stage hm with
    | same hloss => exact hknown (h.rest loss (hloss ▸ hl) f hf)
    | begin owner text _ hloss =>
      rw [hloss] at hl
      cases hl
      exact hknown (known_values hr.catalog hf)
    | lossOver _ _ _ _ hloss =>
      rw [hloss] at hl
      cases hl
    | next loss₀ g rest hl₀ _ hrest hloss =>
      rw [hloss] at hl
      cases hl
      exact hknown (h.rest loss₀ hl₀ f (by rw [hrest]; exact List.mem_cons_of_mem _ hf))
    | settled loss₀ _ _ hl₀ _ _ hloss | scheduled loss₀ _ _ hl₀ _ _ hloss
    | stage loss₀ _ hl₀ _ _ hloss =>
      rw [hloss] at hl
      cases hl
      exact hknown (h.rest loss₀ hl₀ f hf)
  · cases move_loss_stage hm with
    | same hloss => exact hknown (h.stage loss (hloss ▸ hl) f hf)
    | begin owner text _ hloss =>
      rw [hloss] at hl
      cases hl
      exact hf.elim
    | lossOver _ _ _ _ hloss =>
      rw [hloss] at hl
      cases hl
    | next loss₀ g rest hl₀ _ hrest hloss =>
      rw [hloss] at hl
      cases hl
      have hsame : g = f := by
        cases hmark : s.terminalReceived.contains (s.idOf cfg g) with
        | true =>
          rw [hmark] at hf
          exact hf.elim
        | false =>
          rw [hmark] at hf
          exact hf
      exact hknown (h.rest loss₀ hl₀ f (by rw [hrest, hsame]; exact List.mem_cons_self))
    | settled _ _ _ _ _ _ hloss | scheduled _ _ _ _ _ _ hloss =>
      rw [hloss] at hl
      cases hl
      exact hf.elim
    | stage loss₀ stage hl₀ hiff _ hloss =>
      rw [hloss] at hl
      cases hl
      exact hknown (h.stage loss₀ hl₀ f ((hiff f).mpr hf))
  · rcases ended_back hr.matching he hm h.jobs hended with hold | hnow
    · exact hdone (h.ended f hold)
    · exact hnow
  · rcases skipped_back hm hskip with hold | hnow
    · exact hdone (h.skipped f hold)
    · exact hnow

/-! ## Marks -/

theorem marks_back (hm : Move cfg s s') {k : Str} (h : k ∈ s'.terminalReceived) :
    k ∈ s.terminalReceived ∨
      ∃ m f, s.receiver = .found m (some f) ∧ k = s.idOf cfg f ∧ .complete f m ∈ s'.jobs := by
  cases hm with
  | finish =>
    unfold State.settle at h
    split at h
    · split at h <;> exact .inl h
    · exact .inl h
  | @terminal m f hr =>
    rcases List.mem_append.mp h with h | h
    · exact .inl h
    · refine .inr ⟨m, f, hr, List.mem_singleton.mp h, ?_⟩
      rw [mem_jobs]
      exact .inr (.inr List.mem_cons_self)
  | discard => exact .inl (List.mem_filter.mp h).1
  | @lossOver loss =>
    unfold State.afterLoss at h
    cases howner : loss.owner with
    | sender =>
      rw [howner] at h
      exact .inl h
    | receiver | lane =>
      rw [howner] at h
      dsimp only at h
      split at h <;> exact .inl h
  | _ => exact .inl h

/-! ## Owners -/

/-- The number of submissions that are about the future. -/
def owners (s : State V X) (f : Nat) : Nat := s.submissions.countP fun call => call.stage.future = some f

theorem owners_setSubmit {i : Nat} {stage : SubmitStage X} (h : s.StageIs i stage)
    (stage' : SubmitStage X) (f : Nat) :
    (s.setSubmit i stage').owners f + (decide (stage.future = some f)).toNat =
      s.owners f + (decide (stage'.future = some f)).toNat := by
  obtain ⟨call, hcall, rfl⟩ := h
  exact countP_modify_add (fun call : Submission X => decide (call.stage.future = some f)) hcall

/-- What a change does to the owners of futures. -/
inductive OwnersMove (cfg : Config V X) (s s' : State V X) : Prop
  | kept : (∀ f, s'.owners f ≤ s.owners f) → OwnersMove cfg s s'
  | new : s.rpc.transportFailed = false → s'.rpc.transportFailed = false →
      s'.handles.length = s.handles.length + 1 →
      s'.futures.get? (cfg.requestId (s.sequence + 1)) = some s.handles.length →
      s'.idOf cfg s.handles.length = cfg.requestId (s.sequence + 1) →
      (∀ f, s'.owners f ≤ s.owners f + (decide (s.handles.length = f)).toNat) → OwnersMove cfg s s'

theorem OwnersMove.submission {i : Nat} {stage : SubmitStage X} (stage' : SubmitStage X)
    (h : s.StageIs i stage) (hnext : stage'.future = stage.future ∨ stage'.future = none)
    (hstate : s'.submissions = (s.setSubmit i stage').submissions) : OwnersMove cfg s s' := by
  refine .kept fun f => ?_
  have hcount := owners_setSubmit h stage' f
  have hsame : s'.owners f = (s.setSubmit i stage').owners f := by
    unfold State.owners
    rw [hstate]
  rw [hsame]
  rcases hnext with hnext | hnext
  · rw [hnext] at hcount
    omega
  · rw [hnext] at hcount
    have hzero : (decide ((none : Option Nat) = some f)).toNat = 0 := rfl
    omega

theorem preflight_future (s : State V X) (mode : Mode) (options : SubmissionOptions) :
    (s.preflight mode options).future = none := by
  unfold State.preflight
  split
  · rfl
  · split
    · rfl
    · split <;> rfl

theorem move_owners (hm : Move cfg s s') : OwnersMove cfg s s' := by
  cases hm with
  | @submit mode options =>
    refine .kept fun f => ?_
    unfold State.owners
    dsimp only
    rw [countP_concat]
    dsimp only
    rw [preflight_future]
    exact Nat.le_refl _
  | serialized h | unserialized h | refused h | exhausted h | abandon h =>
    exact .submission _ h (.inr rfl) rfl
  | @invalid i f _ error h => exact .submission (.abandoning f error) h (.inl rfl) rfl
  | @checked i f m h => exact .submission (.checked f m) h (.inl rfl) rfl
  | @timedOut i f _ text h =>
    exact .submission (.abandoning f (s.submissionTimeout cfg f text)) h (.inl rfl) rfl
  | @put i f _ h => exact .submission (.returned f) h (.inl rfl) rfl
  | @register i call payload hcall hstage _ hfailed =>
    have hcount := owners_setSubmit ⟨call, hcall, hstage⟩
      (.registered s.handles.length
        (submitMessage cfg (s.sequence + 1) call.mode call.options payload))
    refine .new hfailed hfailed (List.length_append ..) ?_ ?_ fun f => ?_
    · show (s.futures.set _ _).get? _ = _
      rw [Table.get?_set, if_pos rfl]
    · unfold State.idOf State.registered State.setSubmit
      dsimp only
      rw [getElem?_append_length]
      rfl
    · have hf := hcount f
      simp only [SubmitStage.future, Option.some.injEq, reduceCtorEq, decide_false, Bool.toNat_false,
        Nat.add_zero] at hf
      exact Nat.le_of_eq hf
  | finish =>
    refine .kept fun f => Nat.le_of_eq ?_
    unfold State.settle
    split
    · split <;> rfl
    · rfl
  | @lossOver loss =>
    refine .kept fun f => Nat.le_of_eq ?_
    unfold State.afterLoss
    cases loss.owner with
    | sender => rfl
    | receiver | lane =>
      dsimp only
      split <;> rfl
  | _ => exact .kept fun _ => Nat.le_refl _

/-- Why a request ID leaves the table. -/
theorem forgotten (hm : Move cfg s s') {k : Str} {f : Nat} (h : s.futures.get? k = some f)
    (hk : cfg.requestId (s.sequence + 1) ≠ k) : s'.futures.get? k = some f ∨
      ∃ g, s.idOf cfg g = k ∧
        (s.lane.ended = some g ∨ s.sender = .skipping g ∨ s'.owners g + 1 ≤ s.owners g) := by
  have hpop : ∀ g, (s.lane.ended = some g ∨ s.sender = .skipping g ∨ s'.owners g + 1 ≤ s.owners g) →
      (s.futures.pop (s.idOf cfg g)).get? k = some f ∨ ∃ g, s.idOf cfg g = k ∧
        (s.lane.ended = some g ∨ s.sender = .skipping g ∨ s'.owners g + 1 ≤ s.owners g) := by
    intro g hwhy
    by_cases hid : s.idOf cfg g = k
    · exact .inr ⟨g, hid, hwhy⟩
    · left
      rw [Table.get?_pop, if_neg hid]
      exact h
  cases hm with
  | register =>
    left
    show (s.futures.set _ _).get? k = some f
    rw [Table.get?_set, if_neg hk]
    exact h
  | @abandon i g error hstage =>
    refine hpop g (.inr (.inr ?_))
    have hcount := owners_setSubmit hstage (.raised error) g
    simp only [SubmitStage.future, decide_true, reduceCtorEq, decide_false, Bool.toNat_true,
      Bool.toNat_false, Nat.add_zero] at hcount
    exact Nat.le_of_eq hcount
  | finish =>
    left
    unfold State.settle
    split
    · split <;> exact h
    · exact h
  | @skipped g hs => exact hpop g (.inr (.inl hs))
  | @forgetCompleted g hl | @forget g hl => exact hpop g (.inl (by rw [hl]; rfl))
  | @lossOver loss =>
    left
    unfold State.afterLoss
    cases loss.owner with
    | sender => exact h
    | receiver | lane =>
      dsimp only
      split <;> exact h
  | _ => exact .inl h

/-! ## The loop passes nobody over -/

/-- The loop of `_connection_lost` has still to look at the future. -/
def LossCovers (s : State V X) (f : Nat) : Prop :=
  ∃ loss, s.loss = some loss ∧ (f ∈ loss.rest ∨ loss.stage.Pending f)

structure Covered (cfg : Config V X) (s : State V X) : Prop where
  bounded : s.Bounded
  marks : ∀ k ∈ s.terminalReceived, ∃ f, s.Known f ∧ k = s.idOf cfg f ∧ s.Resolving f
  sole : ∀ f, s.owners f ≤ 1
  owned : ∀ f, 0 < s.owners f → s.Known f
  listed : ∀ f, 0 < s.owners f → s.futureDone f = false → s.futures.get? (s.idOf cfg f) = some f
  covered : s.rpc.transportFailed = true → ∀ f, 0 < s.owners f → s.Resolving f ∨ s.LossCovers f

theorem Covered.init : (client cfg).init.Covered cfg where
  bounded := .init
  marks := nofun
  sole _ := Nat.zero_le _
  owned _ h := absurd h (Nat.lt_irrefl 0)
  listed _ h := absurd h (Nat.lt_irrefl 0)
  covered := nofun

theorem Covered.marks_move (h : s.Covered cfg) (hr : s.Registered cfg) (hm : Move cfg s s') :
    ∀ k ∈ s'.terminalReceived, ∃ f, s'.Known f ∧ k = s'.idOf cfg f ∧ s'.Resolving f := by
  have ht := move_touch hm
  intro k hk
  rcases marks_back hm hk with hk | ⟨m, f, hfound, rfl, hjob⟩
  · obtain ⟨f, hf, rfl, hresolving⟩ := h.marks k hk
    exact ⟨f, Nat.lt_of_lt_of_le hf ht.length, (ht.idOf hf).symm,
      hresolving.move hr.matching hr.accounted.engaged hf hm⟩
  · have hf := h.bounded.found m f hfound
    exact ⟨f, Nat.lt_of_lt_of_le hf ht.length, (ht.idOf hf).symm, .inr ⟨_, hjob, rfl⟩⟩

/-- A new future has its entry and one owner. -/
theorem Covered.owners_move (h : s.Covered cfg) (hm : Move cfg s s') :
    (∀ f, s'.owners f ≤ 1) ∧ ∀ f, 0 < s'.owners f → s'.Known f := by
  have hlength := (move_touch hm).length
  cases move_owners hm with
  | kept hle =>
    refine ⟨fun f => (hle f).trans (h.sole f), fun f hf => ?_⟩
    exact Nat.lt_of_lt_of_le (h.owned f (Nat.lt_of_lt_of_le hf (hle f))) hlength
  | new _ _ hnew _ _ hle =>
    have hnone : s.owners s.handles.length = 0 :=
      Nat.eq_zero_of_not_pos fun hpos => Nat.lt_irrefl _ (h.owned _ hpos)
    refine ⟨fun f => ?_, fun f hf => ?_⟩
    · have hbound := hle f
      by_cases hf : s.handles.length = f
      · rw [← hf, hnone, decide_eq_true rfl, Bool.toNat_true] at hbound
        rw [← hf]
        exact hbound
      · rw [decide_eq_false hf, Bool.toNat_false] at hbound
        exact hbound.trans (h.sole f)
    · by_cases hf' : s.handles.length = f
      · show f < s'.handles.length
        omega
      · have hbound := hle f
        rw [decide_eq_false hf', Bool.toNat_false] at hbound
        exact Nat.lt_of_lt_of_le (h.owned f (by omega)) hlength

/-- A future with an owner leaves the table only when it is done. -/
theorem Covered.listed_move (h : s.Covered cfg) (hr : s.Registered cfg) (hm : Move cfg s s') :
    ∀ f, 0 < s'.owners f → s'.futureDone f = false → s'.futures.get? (s'.idOf cfg f) = some f := by
  have ht := move_touch hm
  have hundone : ∀ {f}, s'.futureDone f = false → s.futureDone f = false := fun hf =>
    Bool.eq_false_iff.mpr fun hdone => Bool.eq_false_iff.mp hf (ht.done hdone)
  -- a future that was there before
  have hold : ∀ f, 0 < s.owners f → 0 < s'.owners f → s'.futureDone f = false →
      s'.futures.get? (s'.idOf cfg f) = some f := by
    intro f hbefore hafter hf
    have hknown := h.owned f hbefore
    obtain ⟨n, hn, hid⟩ := idOf_lt cfg hknown
    have hfresh : cfg.requestId (s.sequence + 1) ≠ s.idOf cfg f := by
      rw [hid]
      intro hsame
      have hle := (hr.catalog.bounds n (List.mem_of_getElem? hn)).2.1
      have := Config.requestId_injective hsame
      omega
    rw [ht.idOf hknown]
    rcases forgotten hm (h.listed f hbefore (hundone hf)) hfresh with hkept | ⟨g, hg, hwhy⟩
    · exact hkept
    · exfalso
      have hdone : s.futureDone g = true → False := by
        intro hgdone
        have hgf := hr.catalog.idOf_injective (futureDone_lt hgdone) hknown hg
        rw [hgf, hundone hf] at hgdone
        cases hgdone
      rcases hwhy with hended | hskipped | hless
      · exact hdone (h.bounded.ended g hended)
      · exact hdone (h.bounded.skipped g hskipped)
      · have hgf := hr.catalog.idOf_injective (h.owned g (by omega)) hknown hg
        rw [hgf] at hless
        have := h.sole f
        omega
  intro f hafter hf
  cases move_owners hm with
  | kept hle => exact hold f (Nat.lt_of_lt_of_le hafter (hle f)) hafter hf
  | new _ _ _ hentry hid hle =>
    by_cases hf' : s.handles.length = f
    · subst hf'
      rw [hid]
      exact hentry
    · have hbound := hle f
      rw [decide_eq_false hf', Bool.toNat_false] at hbound
      exact hold f (by omega) hafter hf

/-- The loop takes a future out only if it is done, or a completion ends it. -/
theorem Covered.covered_move (h : s.Covered cfg) (hr : s.Registered cfg) (hm : Move cfg s s')
    (hfailed : s'.rpc.transportFailed = true) :
    ∀ f, 0 < s'.owners f → s'.Resolving f ∨ s'.LossCovers f := by
  intro f hafter
  have hbefore : 0 < s.owners f := by
    cases move_owners hm with
    | kept hle => exact Nat.lt_of_lt_of_le hafter (hle f)
    | new _ hopen =>
      rw [hopen] at hfailed
      cases hfailed
  have hknown := h.owned f hbefore
  have hkeep : s.Resolving f → s'.Resolving f ∨ s'.LossCovers f := fun hresolving =>
    .inl (hresolving.move hr.matching hr.accounted.engaged hknown hm)
  cases move_loss_stage hm with
  | same hloss hsame =>
    rcases h.covered (hsame ▸ hfailed) f hbefore with hresolving | ⟨loss, hl, hcovers⟩
    · exact hkeep hresolving
    · exact .inr ⟨loss, hloss.trans hl, hcovers⟩
  | begin owner text _ hloss =>
    cases hdone : s.futureDone f with
    | true => exact hkeep (.inl hdone)
    | false =>
      refine .inr ⟨_, hloss, .inl ?_⟩
      exact List.mem_map_of_mem (Table.mem_of_get? (h.listed f hbefore hdone))
  | lossOver loss hl hstage hrest _ hsame =>
    rcases h.covered (hsame ▸ hfailed) f hbefore with hresolving | ⟨loss', hl', hcovers⟩
    · exact hkeep hresolving
    · rw [hl] at hl'
      cases hl'
      rw [hstage, hrest] at hcovers
      rcases hcovers with hin | hpending
      · cases hin
      · exact hpending.elim
  | next loss g rest hl hstage hrest hloss hsame =>
    rcases h.covered (hsame ▸ hfailed) f hbefore with hresolving | ⟨loss', hl', hcovers⟩
    · exact hkeep hresolving
    · rw [hl] at hl'
      cases hl'
      rw [hstage, hrest] at hcovers
      rcases hcovers with hin | hpending
      · rcases List.mem_cons.mp hin with rfl | hin
        · cases hmark : s.terminalReceived.contains (s.idOf cfg f) with
          | true =>
            -- a mark stands for a completion
            obtain ⟨g, hg, hid, hresolving⟩ := h.marks _ (List.contains_iff_mem.mp hmark)
            have hfg := hr.catalog.idOf_injective hknown hg hid
            rw [← hfg] at hresolving
            exact hkeep hresolving
          | false =>
            refine .inr ⟨_, hloss, .inr ?_⟩
            rw [hmark]
            rfl
        · exact .inr ⟨_, hloss, .inl hin⟩
      · exact hpending.elim
  | settled loss g mark hl hstage hdone hloss hsame =>
    rcases h.covered (hsame ▸ hfailed) f hbefore with hresolving | ⟨loss', hl', hcovers⟩
    · exact hkeep hresolving
    · rw [hl] at hl'
      cases hl'
      rcases hcovers with hin | hpending
      · exact .inr ⟨_, hloss, .inl hin⟩
      · rw [hstage] at hpending
        rcases hdone with hdone | hmark
        · refine hkeep (.inl ?_)
          cases mark with
          | true => exact hpending.elim
          | false =>
            have hgf : g = f := hpending
            rw [← hgf]
            exact hdone
        · rw [hmark] at hpending
          exact hpending.elim
  | scheduled loss g error hl hstage hjob hloss hsame =>
    rcases h.covered (hsame ▸ hfailed) f hbefore with hresolving | ⟨loss', hl', hcovers⟩
    · exact hkeep hresolving
    · rw [hl] at hl'
      cases hl'
      rcases hcovers with hin | hpending
      · exact .inr ⟨_, hloss, .inl hin⟩
      · rw [hstage] at hpending
        exact .inl (.inr ⟨_, hjob, hpending⟩)
  | stage loss stage hl hiff _ hloss hsame =>
    rcases h.covered (hsame ▸ hfailed) f hbefore with hresolving | ⟨loss', hl', hcovers⟩
    · exact hkeep hresolving
    · rw [hl] at hl'
      cases hl'
      exact .inr ⟨_, hloss, hcovers.imp_right (hiff f).mp⟩

theorem Covered.move (h : s.Covered cfg) (hr : s.Registered cfg) (hm : Move cfg s s') :
    s'.Covered cfg where
  bounded := h.bounded.move hr hm
  marks := h.marks_move hr hm
  sole := (h.owners_move hm).1
  owned := (h.owners_move hm).2
  listed := h.listed_move hr hm
  covered := h.covered_move hr hm

theorem reachable_covered (h : (client cfg).Reachable s) : s.Covered cfg :=
  h.invariant .init fun _ _ _ hr hi _ hs => hi.move (reachable_registered hr) (step_move hs)

/-! ## Outcomes that were marked in time -/

theorem LossMove.failed (hl : LossMove cfg s s') (h : s.rpc.transportFailed = true) :
    s'.rpc.transportFailed = true := by
  cases hl with
  | begin _ _ _ _ hfailed => exact hfailed
  | same _ hsame | lossOver _ _ _ _ _ hsame | next _ _ _ _ _ _ _ hsame | settled _ _ _ _ _ _ _ hsame
  | scheduled _ _ _ _ _ _ _ hsame | stage _ _ _ _ _ _ hsame => exact hsame.trans h

theorem recorded_back (hm : Move cfg s s') {e : Nat × Message} (h : e ∈ s'.recorded) :
    e ∈ s.recorded ∨ s.rpc.transportFailed = false ∧ s.receiver = .found e.2 (some e.1) ∧
      s.idOf cfg e.1 ∈ s'.terminalReceived ∧ s'.loss = s.loss := by
  cases hm with
  | finish =>
    unfold State.settle at h
    split at h
    · split at h <;> exact .inl h
    · exact .inl h
  | @terminal m f hr =>
    simp only [State.terminated] at h
    split at h
    · exact .inl h
    · rename_i hfailed
      rcases List.mem_append.mp h with h | h
      · exact .inl h
      · cases List.mem_singleton.mp h
        exact .inr ⟨Bool.eq_false_iff.mpr hfailed, hr, List.mem_append_right _ List.mem_cons_self, rfl⟩
  | @lossOver loss =>
    unfold State.afterLoss at h
    cases howner : loss.owner with
    | sender =>
      rw [howner] at h
      exact .inl h
    | receiver | lane =>
      rw [howner] at h
      dsimp only at h
      split at h <;> exact .inl h
  | _ => exact .inl h

/-- A mark goes when the lane has ended its future. -/
theorem marks_kept (hm : Move cfg s s') {k : Str} (h : k ∈ s.terminalReceived) :
    k ∈ s'.terminalReceived ∨ ∃ g, s.lane.ended = some g ∧ s.idOf cfg g = k := by
  cases hm with
  | finish =>
    left
    unfold State.settle
    split
    · split <;> exact h
    · exact h
  | terminal => exact .inl (List.mem_append_left _ h)
  | @discard g hl =>
    by_cases hk : k = s.idOf cfg g
    · exact .inr ⟨g, by rw [hl]; rfl, hk.symm⟩
    · exact .inl (List.mem_filter.mpr ⟨h, decide_eq_true hk⟩)
  | @lossOver loss =>
    left
    unfold State.afterLoss
    cases loss.owner with
    | sender => exact h
    | receiver | lane =>
      dsimp only
      split <;> exact h
  | _ => exact .inl h

structure Spared (cfg : Config V X) (s : State V X) : Prop where
  kept : ∀ e ∈ s.recorded,
    s.Known e.1 ∧ (s.idOf cfg e.1 ∈ s.terminalReceived ∨ s.futureDone e.1 = true)
  early : s.rpc.transportFailed = false → ∀ f error, .fail f error ∉ s.jobs
  jobs : ∀ e ∈ s.recorded, ∀ error, .fail e.1 error ∉ s.jobs
  loss : ∀ e ∈ s.recorded, ∀ loss, s.loss = some loss → loss.stage.Pending e.1 →
    loss.stage = .looked e.1 false ∧ s.futureDone e.1 = true

theorem Spared.init : (client cfg).init.Spared cfg where
  kept _ h := absurd h List.not_mem_nil
  early _ _ _ h := absurd h List.not_mem_nil
  jobs _ h := absurd h List.not_mem_nil
  loss _ h := absurd h List.not_mem_nil

theorem Spared.kept_move (h : s.Spared cfg) (hr : s.Registered cfg) (hc : s.Covered cfg)
    (hm : Move cfg s s') : ∀ e ∈ s'.recorded,
      s'.Known e.1 ∧ (s'.idOf cfg e.1 ∈ s'.terminalReceived ∨ s'.futureDone e.1 = true) := by
  have ht := move_touch hm
  intro e he
  rcases recorded_back hm he with he | ⟨-, hfound, hmark, -⟩
  · obtain ⟨hknown, hmark⟩ := h.kept e he
    refine ⟨Nat.lt_of_lt_of_le hknown ht.length, ?_⟩
    rw [ht.idOf hknown]
    rcases hmark with hmark | hdone
    · rcases marks_kept hm hmark with hmark | ⟨g, hended, hid⟩
      · exact .inl hmark
      · have hdone := hc.bounded.ended g hended
        have hge := hr.catalog.idOf_injective (futureDone_lt hdone) hknown hid
        rw [hge] at hdone
        exact .inr (ht.done hdone)
    · exact .inr (ht.done hdone)
  · have hknown := hc.bounded.found _ _ hfound
    refine ⟨Nat.lt_of_lt_of_le hknown ht.length, .inl ?_⟩
    rw [ht.idOf hknown]
    exact hmark

theorem Spared.jobs_move (h : s.Spared cfg) (hr : s.Registered cfg) (hm : Move cfg s s') :
    ∀ e ∈ s'.recorded, ∀ error, .fail e.1 error ∉ s'.jobs := by
  intro e he error hjob
  rcases job_back hr.accounted.engaged hm hjob with hjob | ⟨_, -, hfrom⟩ | ⟨loss, f, _, hl, hstage, hsame⟩
  · rcases recorded_back hm he with he | ⟨hopen, -⟩
    · exact h.jobs e he error hjob
    · exact h.early hopen _ _ hjob
  · exact hfrom
  · cases hsame
    rcases recorded_back hm he with he | ⟨hopen, -⟩
    · have hpending := (h.loss e he loss hl (by rw [hstage]; rfl)).1
      rw [hstage] at hpending
      cases hpending
    · have hfailed := hr.accounted.engaged.lost loss hl
      rw [hopen] at hfailed
      cases hfailed

theorem Spared.loss_move (h : s.Spared cfg) (hr : s.Registered cfg) (hm : Move cfg s s') :
    ∀ e ∈ s'.recorded, ∀ loss, s'.loss = some loss → loss.stage.Pending e.1 →
      loss.stage = .looked e.1 false ∧ s'.futureDone e.1 = true := by
  intro e he loss hl hpending
  rcases recorded_back hm he with hold | ⟨hopen, -, -, hloss⟩
  · cases move_loss_stage hm with
    | same hloss =>
      obtain ⟨hstage, hdone⟩ := h.loss e hold loss (hloss ▸ hl) hpending
      exact ⟨hstage, (move_touch hm).done hdone⟩
    | begin _ _ _ hloss =>
      rw [hloss] at hl
      cases hl
      exact hpending.elim
    | lossOver _ _ _ _ hloss =>
      rw [hloss] at hl
      cases hl
    | next loss₀ g rest hl₀ _ _ hloss =>
      rw [hloss] at hl
      cases hl
      cases hmark : s.terminalReceived.contains (s.idOf cfg g) with
      | true =>
        rw [hmark] at hpending
        exact hpending.elim
      | false =>
        rw [hmark] at hpending
        have hge : g = e.1 := hpending
        subst hge
        -- the mark is gone, so that the future is done
        refine ⟨rfl, (move_touch hm).done ?_⟩
        rcases (h.kept e hold).2 with hin | hdone
        · rw [List.contains_iff_mem.mpr hin] at hmark
          cases hmark
        · exact hdone
    | settled _ _ _ _ _ _ hloss | scheduled _ _ _ _ _ _ hloss =>
      rw [hloss] at hl
      cases hl
      exact hpending.elim
    | stage loss₀ stage hl₀ hiff hwhy hloss =>
      rw [hloss] at hl
      cases hl
      obtain ⟨hstage, hdone⟩ := h.loss e hold loss₀ hl₀ ((hiff e.1).mpr hpending)
      rcases hwhy e.1 hpending with hundone | hother
      · rw [hdone] at hundone
        cases hundone
      · exact absurd hstage hother
  · have hfailed := hr.accounted.engaged.lost loss (hloss ▸ hl)
    rw [hopen] at hfailed
    cases hfailed

theorem Spared.move (h : s.Spared cfg) (hr : s.Registered cfg) (hc : s.Covered cfg)
    (hm : Move cfg s s') : s'.Spared cfg where
  kept := h.kept_move hr hc hm
  early hopen f error hjob := by
    have hbefore : s.rpc.transportFailed = false := Bool.eq_false_iff.mpr fun hf =>
      Bool.eq_false_iff.mp hopen ((move_loss_stage hm).failed hf)
    rcases job_back hr.accounted.engaged hm hjob with hjob | ⟨_, -, hfrom⟩ | ⟨loss, _, _, hl, -⟩
    · exact h.early hbefore f error hjob
    · exact hfrom
    · have hfailed := hr.accounted.engaged.lost loss hl
      rw [hbefore] at hfailed
      cases hfailed
  jobs := h.jobs_move hr hm
  loss := h.loss_move hr hm

theorem reachable_spared (h : (client cfg).Reachable s) : s.Spared cfg :=
  h.invariant .init fun _ _ _ hr hi _ hs =>
    hi.move (reachable_registered hr) (reachable_covered hr) (step_move hs)

theorem StageIs.owner {i f : Nat} {stage : SubmitStage X} (h : s.StageIs i stage)
    (hf : stage.future = some f) : 0 < s.owners f := by
  obtain ⟨call, hcall, hstage⟩ := h
  refine List.countP_pos_iff.mpr ⟨call, List.mem_of_getElem? hcall, decide_eq_true ?_⟩
  rw [hstage]
  exact hf

end State

/-! ## Results -/

variable {t : State V X} {ls : List (Label X)}

/-- **After the loop of `_connection_lost`, every future that `submit` has returned is done or has a
completion in the lane, and no future is registered any more.** -/
theorem lost_futures_resolve (h : (client cfg).Reachable s) (hfailed : s.rpc.transportFailed = true)
    (hover : s.loss = none) (hrun : (client cfg).run s ls = some t) :
    (∀ i f, t.StageIs i (.returned f) → t.futureDone f = true ∨ ∃ job ∈ t.jobs, job.Settles f) ∧
      t.handles.length = s.handles.length := by
  -- the transport stays failed, no loss begins, and no future is new
  have hstay : t.rpc.transportFailed = true ∧ t.loss = none ∧ t.handles.length = s.handles.length := by
    clear h
    induction ls generalizing s with
    | nil =>
      cases hrun
      exact ⟨hfailed, hover, rfl⟩
    | cons l ls ih =>
      obtain ⟨u, hu, ht⟩ := Option.bind_eq_some_iff.mp hrun
      have hm := step_move hu
      have hfailed' := (State.move_loss_stage hm).failed hfailed
      have hover' : u.loss = none := by
        cases State.move_loss_stage hm with
        | same hloss => exact hloss.trans hover
        | begin _ _ hopen =>
          rw [hfailed] at hopen
          cases hopen
        | lossOver _ hl | next _ _ _ hl | settled _ _ _ hl | scheduled _ _ _ hl | stage _ _ hl =>
          rw [hover] at hl
          cases hl
      have hlength : u.handles.length = s.handles.length := by
        cases move_touch hm with
        | new _ hopen =>
          rw [hfailed] at hopen
          cases hopen
        | same hhandles | forget _ hhandles => rw [hhandles]
        | operate f op hhandles =>
          rw [hhandles]
          exact List.length_modify ..
      obtain ⟨h₁, h₂, h₃⟩ := ih hfailed' hover' ht
      exact ⟨h₁, h₂, h₃.trans hlength⟩
  refine ⟨fun i f hreturned => ?_, hstay.2.2⟩
  have hcovered := State.reachable_covered (h.of_run hrun)
  rcases hcovered.covered hstay.1 f (hreturned.owner rfl) with hresolving | ⟨loss, hl, -⟩
  · exact hresolving
  · rw [hstay.2.1] at hl
    cases hl

/-- **Past the wait of a shutdown, every future that `submit` has returned is done.** -/
theorem closed_futures_done (h : (client cfg).Reachable s) (hpast : s.past = true) {i f : Nat}
    (hreturned : s.StageIs i (.returned f)) : s.futureDone f = true := by
  by_contra hundone
  have hlisted := (State.reachable_covered h).listed f (hreturned.owner rfl)
    (Bool.eq_false_iff.mpr hundone)
  refine hundone ((State.reachable_accounted h).awaited.past hpast f ?_)
  exact List.mem_map_of_mem (Table.mem_of_get? hlisted)

/-- **A future whose terminal message the receiver has marked before the transport failed is never failed
by the loss, neither before nor after.** -/
theorem recorded_spared (h : (client cfg).Reachable s) (hrun : (client cfg).run s ls = some t)
    {f : Nat} {m : Message} (hrecorded : (f, m) ∈ t.recorded) (error : RemoteError) :
    .fail f error ∉ s.jobs := by
  intro hjob
  have hfailed : s.rpc.transportFailed = true := by
    by_contra hopen
    exact (State.reachable_spared h).early (Bool.eq_false_iff.mpr hopen) f error hjob
  -- nothing is recorded once the transport has failed
  have hback : (f, m) ∈ s.recorded := by
    clear h hjob
    induction ls generalizing s with
    | nil =>
      cases hrun
      exact hrecorded
    | cons l ls ih =>
      obtain ⟨u, hu, ht⟩ := Option.bind_eq_some_iff.mp hrun
      have hm := step_move hu
      rcases State.recorded_back hm (ih ht ((State.move_loss_stage hm).failed hfailed)) with hin | ⟨hopen, -⟩
      · exact hin
      · rw [hfailed] at hopen
        cases hopen
  exact (State.reachable_spared h).jobs _ hback error hjob

end Cover

/-! ## Runs -/

/-- The future of a submission that has returned. -/
def returnedOf (s : State Unit Unit) (i : Nat) : Option Nat :=
  s.submissions[i]?.bind fun call => match call.stage with
    | .returned f => some f
    | _ => none

theorem stageIs_returnedOf {s : State Unit Unit} {i f : Nat} (h : returnedOf s i = some f) :
    s.StageIs i (.returned f) := by
  obtain ⟨call, hcall, hstage⟩ := Option.bind_eq_some_iff.mp h
  refine ⟨call, hcall, ?_⟩
  cases hs : call.stage with
  | returned g =>
    rw [hs] at hstage
    rw [Option.some.inj hstage]
  | _ =>
    rw [hs] at hstage
    cases hstage

/-- The lane loses the connection and comes back, while the second request is pending. -/
theorem lost_futures_resolve_acknowledgeLate : ∃ s t,
    (client (crampedClient 2)).run (client (crampedClient 2)).init
        (acknowledgeLate ++ [.loss, .loss, .loss]) = some s ∧
      (client (crampedClient 2)).run s [.lane, .lane, .lane] = some t ∧ t.futureDone 1 = false ∧
      ∃ job ∈ t.jobs, job.Settles 1 := by
  have hrun : ((client (crampedClient 2)).run (client (crampedClient 2)).init
      (acknowledgeLate ++ [.loss, .loss, .loss])).bind (fun s =>
        ((client (crampedClient 2)).run s [.lane, .lane, .lane]).map fun t =>
          (s.rpc.transportFailed, s.loss.isNone, t.futureDone 1, returnedOf t 1)) =
      some (true, true, false, some 1) := by decide +kernel
  obtain ⟨s, hs, hrest⟩ := Option.bind_eq_some_iff.mp hrun
  obtain ⟨t, ht, hfacts⟩ := Option.map_eq_some_iff.mp hrest
  obtain ⟨hfailed, hfacts⟩ := Prod.mk.inj hfacts
  obtain ⟨hover, hfacts⟩ := Prod.mk.inj hfacts
  obtain ⟨hundone, hreturned⟩ := Prod.mk.inj hfacts
  have hresolve := lost_futures_resolve (System.reachable_of_run hs) hfailed
    (Option.isNone_iff_eq_none.mp hover) ht
  rcases hresolve.1 1 1 (stageIs_returnedOf hreturned) with hdone | hjob
  · rw [hundone] at hdone
    cases hdone
  · exact ⟨s, t, hs, ht, hundone, hjob⟩

theorem closed_futures_done_drainAfterOne : ∃ s,
    (client (crampedClient 1)).run (client (crampedClient 1)).init drainAfterOne = some s ∧
      s.futureDone 0 = true := by
  have hrun : ((client (crampedClient 1)).run (client (crampedClient 1)).init drainAfterOne).map
      (fun s => (s.past, returnedOf s 0)) = some (true, some 0) := by decide +kernel
  obtain ⟨s, hs, hfacts⟩ := Option.map_eq_some_iff.mp hrun
  obtain ⟨hpast, hreturned⟩ := Prod.mk.inj hfacts
  exact ⟨s, hs, closed_futures_done (System.reachable_of_run hs) hpast (stageIs_returnedOf hreturned)⟩

/-- The result of the first request is marked before the lane loses the connection. -/
theorem recorded_spared_acknowledgeLate : ∃ s,
    (client (crampedClient 2)).run (client (crampedClient 2)).init acknowledgeLate = some s ∧
      s.rpc.transportFailed = true ∧ ∀ error, .fail 0 error ∉ s.jobs := by
  have hrun : ((client (crampedClient 2)).run (client (crampedClient 2)).init acknowledgeLate).map
      (fun s => (s.rpc.transportFailed, s.recorded.map Prod.fst)) = some (true, [0]) := by decide +kernel
  obtain ⟨s, hs, hfacts⟩ := Option.map_eq_some_iff.mp hrun
  obtain ⟨hfailed, hrecorded⟩ := Prod.mk.inj hfacts
  have hin : 0 ∈ s.recorded.map Prod.fst := by
    rw [hrecorded]
    exact List.mem_cons_self
  obtain ⟨⟨f, m⟩, hrecord, hf⟩ := List.mem_map.mp hin
  have hf : f = 0 := hf
  subst hf
  have hstay : (client (crampedClient 2)).run s [] = some s := rfl
  exact ⟨s, hs, hfailed, recorded_spared (System.reachable_of_run hs) hstay hrecord⟩

end Deadpool.Remote.Client
