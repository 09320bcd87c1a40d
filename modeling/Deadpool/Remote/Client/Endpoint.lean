import Deadpool.Remote.Client.Cover

/-!
# What goes over a client's connection

A client with two histories: the messages that its sender has begun to write, whether the write went
through or not, and the messages that its receiver has received.  A message whose write failed may have
arrived, so that only what the sender never began to write is certain not to arrive.

Principal results:

* `Wired.move`        : a future is on the wire in one `SUBMIT` at most, and never again before it;
* `reachable_wired`    : what holds of the wire in every reachable state.
-/

set_option autoImplicit false

namespace Deadpool.Remote.Client

open Deadpool.Py Deadpool.Lts

/-! ## The histories -/

def Sender.writing : Sender → Option Post
  | .sending m future => some (m, future)
  | .idle | .taken _ _ | .skipping _ | .marked _ _ | .failing _ | .losing | .stopped => none

/-- The sender has written its last message. -/
def Sender.over : Sender → Bool
  | .failing _ | .losing | .stopped => true
  | .idle | .taken _ _ | .skipping _ | .marked _ _ | .sending _ _ => false

/-- A client, what its sender began to write, and what its receiver received. -/
structure Endpoint (V X : Type) where
  client : State V X
  wire : List Post := []
  heard : List Message := []

section Histories

variable {V X : Type} (cfg : Config V X)

/-- The message that the sender begins to write between two states. -/
def begins (s s' : State V X) : List Post :=
  if s.sender.writing.isSome then [] else s'.sender.writing.toList

/-- The message that the receiver receives between two states. -/
def hears (s s' : State V X) : List Message :=
  match s.receiver, s'.receiver with
  | .reading, .received m => [m]
  | _, _ => []

def Endpoint.step (e : Endpoint V X) (l : Label X) : Option (Endpoint V X) :=
  (e.client.step cfg l).map fun client =>
    ⟨client, e.wire ++ begins e.client client, e.heard ++ hears e.client client⟩

/-- The client with its histories. -/
def endpoint : System (Endpoint V X) (Label X) := ⟨{ client := (client cfg).init }, Endpoint.step cfg⟩

variable {cfg} {e e' : Endpoint V X} {s s' : State V X}

theorem Endpoint.step_client {l : Label X} (h : e.step cfg l = some e') :
    e.client.step cfg l = some e'.client ∧ e'.wire = e.wire ++ begins e.client e'.client ∧
      e'.heard = e.heard ++ hears e.client e'.client := by
  obtain ⟨client, hclient, rfl⟩ := Option.map_eq_some_iff.mp h
  exact ⟨hclient, rfl, rfl⟩

/-- The histories do not change what the client does. -/
theorem reachable_client (h : (endpoint cfg).Reachable e) : (client cfg).Reachable e.client :=
  h.project Endpoint.client rfl fun _ l _ _ hs => .inr ⟨l, (Endpoint.step_client hs).1⟩

/-! ## The wire -/

namespace State

/-- What a change does to what is being written. -/
inductive Writing (s s' : State V X) : Prop
  | same : s'.sender.writing = s.sender.writing → s'.sent = s.sent →
      (s.sender.over = true → s'.sender.over = true) → Writing s s'
  | begin (m : Message) (future : Option Nat) : s.sender = .marked m future →
      s'.sender = .sending m future → s'.sent = s.sent → s.rpc.socket = true → Writing s s'
  | sent (m : Message) (future : Option Nat) : s.sender = .sending m future → s'.sender = .idle →
      s'.sent = s.sent ++ [(m, future)] → Writing s s'
  | unsent (m : Message) (future : Option Nat) (text : Str) : s.sender = .sending m future →
      s' = { s with sender := .failing text } → Writing s s'

theorem Writing.idle (hsender : s'.sender = s.sender) (hsent : s'.sent = s.sent) : Writing s s' :=
  .same (by rw [hsender]) hsent (by rw [hsender]; exact id)

theorem Writing.apart (hs : s.sender.writing = none) (hs' : s'.sender.writing = none)
    (hsent : s'.sent = s.sent) (hover : s.sender.over = true → s'.sender.over = true) : Writing s s' :=
  .same (hs'.trans hs.symm) hsent hover

theorem settle_sent (s : State V X) (call : RpcCall Str) : (s.settle call).sent = s.sent ∧
    (s.settle call).outbound = s.outbound := by
  unfold State.settle
  split
  · split <;> exact ⟨rfl, rfl⟩
  · exact ⟨rfl, rfl⟩

theorem move_writing (he : s.Engaged) (hm : Move cfg s s') : Writing s s' := by
  have hnever : ∀ {p : Sender}, s.sender = p → p.over = false → s.sender.over = true →
      s'.sender.over = true := by
    intro p hp hnot hover
    rw [hp, hnot] at hover
    cases hover
  cases hm with
  | @finish _ call rpc =>
    have hrest := settle_rest { s with rpc } call
    exact .idle hrest.2.2.1 (settle_sent _ call).1
  | sentinel hs | take hs | markPlain hs | skip hs | mark hs | skipped hs | unplugged hs =>
    exact .apart (by rw [hs]; rfl) rfl rfl (hnever hs rfl)
  | lateSender _ hs | loseSender _ hs => exact .apart (by rw [hs]; rfl) rfl rfl fun _ => rfl
  | begin hs hsocket => exact .begin _ _ hs rfl rfl hsocket
  | sent hs => exact .sent _ _ hs rfl rfl
  | unsent hs => exact .unsent _ _ _ hs rfl
  | @lossOver loss hl =>
    have hthread := he.thread loss hl
    unfold State.afterLoss
    cases howner : loss.owner with
    | sender =>
      rw [howner] at hthread
      exact .apart (by rw [show s.sender = .losing from hthread]; rfl) rfl rfl fun _ => rfl
    | receiver | lane =>
      dsimp only
      split <;> exact .idle rfl rfl
  | _ => exact .idle rfl rfl

end State

/-- What is known of the wire; the last messages are those whose write failed. -/
structure Wired (cfg : Config V X) (s : State V X) (wire failed : List Post) : Prop where
  split : wire = s.sent ++ s.sender.writing.toList ++ failed
  last : failed = [] ∨ s.sender.over = true
  carries : ∀ post ∈ failed, s.Carries cfg post
  once : ∀ f, s.posted (State.isOf f) + failed.countP (State.isOf f) ≤
    if f < s.handles.length then 1 else 0
  marked : ∀ m f, (m, some f) ∈ wire → f ∉ s.localCancels ∧
    ∃ h, s.handles[f]? = some h ∧ h.future.cancelsLocally = false

theorem Wired.init : Wired cfg (client cfg).init [] [] where
  split := rfl
  last := .inl rfl
  carries _ h := by cases h
  once _ := Nat.zero_le _
  marked _ _ h := by cases h

/-- The future cannot be cancelled on the spot any more. -/
theorem marked_move (hm : Move cfg s s') {f : Nat} (h : f ∉ s.localCancels ∧
    ∃ handle, s.handles[f]? = some handle ∧ handle.future.cancelsLocally = false) :
    f ∉ s'.localCancels ∧ ∃ handle, s'.handles[f]? = some handle ∧
      handle.future.cancelsLocally = false := by
  obtain ⟨hnot, handle, hf, hlocal⟩ := h
  constructor
  · rcases State.localCancels_move hm with hsame | ⟨g, handle', hg, hlocal', -, hnew, -⟩
    · rw [hsame]
      exact hnot
    · rw [hnew]
      intro hin
      rcases List.mem_append.mp hin with hin | hin
      · exact hnot hin
      · rw [List.mem_singleton.mp hin, hg] at hf
        cases hf
        rw [hlocal] at hlocal'
        cases hlocal'
  · obtain ⟨handle', hhandle', hsame | ⟨op, hop⟩⟩ := (move_touch hm).lookup hf
    · exact ⟨handle', hhandle', by rw [hsame]; exact hlocal⟩
    · exact ⟨handle', hhandle', by rw [hop]; exact RemoteFuture.operate_cancelsLocally hlocal op⟩

theorem once_move (he : s.Engaged) (hm : Move cfg s s') {n : Nat → Nat}
    (h : ∀ f, s.posted (State.isOf f) + n f ≤ if f < s.handles.length then 1 else 0) (f : Nat) :
    s'.posted (State.isOf f) + n f ≤ if f < s'.handles.length then 1 else 0 := by
  have hbefore := h f
  have hlength : s.handles.length ≤ s'.handles.length := (move_touch hm).length
  rcases State.posted_isOf he hm f with hle | ⟨hf, hnew, hle⟩
  · split at hbefore
    · rw [if_pos (by omega)]
      omega
    · omega
  · rw [if_neg (by omega)] at hbefore
    rw [if_pos (by omega)]
    omega

theorem Wired.move {wire failed : List Post} (h : Wired cfg s wire failed) (hr : s.Registered cfg)
    (hm : Move cfg s s') : ∃ failed', Wired cfg s' (wire ++ begins s s') failed' := by
  have he := hr.accounted.engaged
  have honce := once_move he hm h.once
  have hcarries : ∀ post ∈ failed, s'.Carries cfg post := fun post hpost => (h.carries post hpost).move hm
  have hmarked : ∀ m f, (m, some f) ∈ wire → f ∉ s'.localCancels ∧
      ∃ h, s'.handles[f]? = some h ∧ h.future.cancelsLocally = false :=
    fun m f hmem => marked_move hm (h.marked m f hmem)
  cases State.move_writing he hm with
  | same hwriting hsent hover =>
    have hnone : begins s s' = [] := by
      unfold begins
      rw [hwriting]
      cases s.sender.writing <;> rfl
    refine ⟨failed, ?_, h.last.imp_right hover, hcarries, honce, ?_⟩
    · rw [hnone, List.append_nil, hwriting, hsent]
      exact h.split
    · rw [hnone, List.append_nil]
      exact hmarked
  | begin m future hs hs' hsent =>
    have hbegins : begins s s' = [(m, future)] := by
      unfold begins
      rw [hs, hs']
      rfl
    have hfailed : failed = [] := h.last.resolve_right fun hover => by rw [hs] at hover; cases hover
    subst hfailed
    refine ⟨[], ?_, .inl rfl, hcarries, honce, fun m' f hmem => ?_⟩
    · rw [hbegins, hs', hsent, h.split, hs]
      simp [Sender.writing]
    · rw [hbegins] at hmem
      rcases List.mem_append.mp hmem with hold | hnew
      · exact hmarked m' f hold
      · cases List.mem_singleton.mp hnew
        exact marked_move hm (hr.withdrawn.begun f (.inl (by rw [hs]; rfl)))
  | sent m future hs hs' hsent =>
    have hnone : begins s s' = [] := by
      unfold begins
      rw [hs]
      rfl
    have hfailed : failed = [] := h.last.resolve_right fun hover => by rw [hs] at hover; cases hover
    subst hfailed
    refine ⟨[], ?_, .inl rfl, hcarries, honce, ?_⟩
    · rw [hnone, hs', hsent, h.split, hs]
      simp [Sender.writing]
    · rw [hnone, List.append_nil]
      exact hmarked
  | unsent m future text hs hs' =>
    have hnone : begins s s' = [] := by
      unfold begins
      rw [hs]
      rfl
    have hfailed : failed = [] := h.last.resolve_right fun hover => by rw [hs] at hover; cases hover
    subst hfailed
    subst hs'
    refine ⟨[(m, future)], ?_, .inr rfl, fun post hpost => ?_, fun f => ?_, ?_⟩
    · rw [hnone, h.split, hs]
      simp [Sender.writing]
    · rw [List.mem_singleton.mp hpost]
      exact (hr.posted.sender (by rw [hs]; rfl)).move hm
    · have hold := h.once f
      have hposted : State.posted { s with sender := .failing text } (State.isOf f) +
          (State.isOf f (m, future)).toNat = s.posted (State.isOf f) := by
        unfold State.posted
        rw [hs]
        simp only [Sender.post, Option.any_none, Option.any_some, Bool.toNat_false]
        omega
      rw [List.countP_nil] at hold
      rw [List.countP_singleton]
      cases hof : State.isOf f (m, future) with
      | true =>
        rw [hof] at hposted
        simp only [Bool.toNat_true] at hposted
        simp only [if_true]
        exact (Nat.le_of_eq hposted).trans hold
      | false =>
        rw [hof] at hposted
        simp only [Bool.toNat_false] at hposted
        simp only [Bool.false_eq_true, if_false]
        exact (Nat.le_of_eq hposted).trans hold
    · rw [hnone, List.append_nil]
      exact hmarked

theorem socket_move (hm : Move cfg s s') (h : s.rpc.socket = false) : s'.rpc.socket = false := by
  have hrpc : ∀ {l : RpcLabel Str} {rpc : RpcState Str}, Client.rpcStep s.rpc l = some rpc →
      (∀ error, l ≠ .lose error) → l ≠ .closeSocket → rpc.socket = false := fun hstep hlose hclose =>
    (State.rpc_flags hstep hlose hclose).2.trans h
  have hlosing : ∀ text, (s.rpc.lose text).socket = false := by
    intro text
    unfold RpcState.lose
    split
    · exact h
    · rfl
  cases hm with
  | call _ hstep | enqueue _ hstep | signal _ hstep =>
    exact hrpc hstep (fun _ h => by cases h) (fun h => by cases h)
  | @wait l i rpc hl hstep =>
    refine hrpc hstep ?_ ?_
    · rintro error rfl
      simp at hl
    · rintro rfl
      simp at hl
  | @finish i call rpc _ hstep =>
    rw [(State.settle_rest { s with rpc } call).2.1]
    exact hrpc hstep (fun _ h => by cases h) (fun h => by cases h)
  | respond => exact (State.rpc_receive_flags s.rpc _).2.trans h
  | loseSender | loseReceiver | loseLane => exact hlosing _
  | @signalLost loss l rpc _ _ hl hstep =>
    rcases hl with rfl | rfl <;> exact hrpc hstep (fun _ h => by cases h) (fun h => by cases h)
  | lossOver =>
    rw [(State.afterLoss_rest { s with loss := none } _).2]
    exact h
  | unplug => rfl
  | _ => exact h

/-- What the sender begins to write it has marked, and there is a socket. -/
theorem mem_begins (he : s.Engaged) (hm : Move cfg s s') {post : Post} (h : post ∈ begins s s') :
    s.sender = .marked post.1 post.2 ∧ s.rpc.socket = true := by
  unfold begins at h
  split at h
  · cases h
  · rename_i hnone
    cases State.move_writing he hm with
    | same hwriting =>
      rw [hwriting, Option.mem_toList] at h
      rw [h] at hnone
      exact absurd rfl hnone
    | begin m future hs hs' _ hsocket =>
      rw [hs'] at h
      rw [List.mem_singleton.mp h]
      exact ⟨hs, hsocket⟩
    | sent m future hs | unsent m future _ hs =>
      rw [hs] at hnone
      exact absurd rfl hnone

theorem begins_unplugged (he : s.Engaged) (hm : Move cfg s s') (h : s.rpc.socket = false) :
    begins s s' = [] := by
  refine List.eq_nil_iff_forall_not_mem.mpr fun post hpost => ?_
  rw [(mem_begins he hm hpost).2] at h
  cases h

theorem reachable_wired (h : (endpoint cfg).Reachable e) : ∃ failed, Wired cfg e.client e.wire failed := by
  have hinit : ∃ failed, Wired cfg (client cfg).init [] failed := ⟨[], .init⟩
  refine h.invariant (I := fun e => ∃ failed, Wired cfg e.client e.wire failed) hinit ?_
  intro e l e' hreach ⟨failed, hwired⟩ _ hs
  obtain ⟨hclient, hwire, -⟩ := Endpoint.step_client hs
  rw [hwire]
  exact hwired.move (State.reachable_registered (reachable_client hreach)) (step_move hclient)

/-! ## What the wire says -/

/-- What is on the wire is where messages are counted, unless its write failed. -/
theorem count_wire {wire failed : List Post} (h : wire = s.sent ++ s.sender.writing.toList ++ failed)
    (p : Post → Bool) : wire.countP p ≤ s.posted p + failed.countP p := by
  have hwriting : s.sender.writing.toList.countP p ≤ (s.sender.post.any p).toNat := by
    cases s.sender with
    | sending m future =>
      simp only [Sender.writing, Sender.post, Option.toList_some, Option.any_some, List.countP_singleton]
      cases p (m, future) <;> exact Nat.le_refl _
    | _ => exact Nat.zero_le _
  rw [h, List.countP_append, List.countP_append]
  unfold State.posted
  omega

namespace Wired

variable {wire failed : List Post}

theorem once_le (h : Wired cfg s wire failed) (f : Nat) : wire.countP (State.isOf f) ≤ 1 := by
  have hcount := count_wire h.split (State.isOf f)
  have hbound := h.once f
  split at hbound <;> omega

/-- A message on the wire is that of its future, or no submission. -/
theorem carried (h : Wired cfg s wire failed) (hposted : s.Posted cfg) {post : Post}
    (hpost : post ∈ wire) : s.Carries cfg post := by
  rw [h.split] at hpost
  rcases List.mem_append.mp hpost with hpost | hfailed
  · rcases List.mem_append.mp hpost with hsent | hwriting
    · exact hposted.sent hsent
    · refine hposted.sender ?_
      have hsome : s.sender.writing = some post := Option.mem_toList.mp hwriting
      unfold Sender.writing at hsome
      split at hsome
      · rename_i hs
        rw [hs]
        exact hsome
      all_goals cases hsome
  · exact h.carries post hfailed

end Wired

/-- No message of the future is on its way, and none was begun. -/
structure State.Dropped (s : State V X) (wire : List Post) (f : Nat) : Prop where
  known : f < s.handles.length
  posted : s.posted (State.isOf f) = 0
  wire : wire.countP (State.isOf f) = 0

theorem State.Dropped.move {wire : List Post} {f : Nat} (h : s.Dropped wire f) (he : s.Engaged)
    (hm : Move cfg s s') : s'.Dropped (wire ++ begins s s') f := by
  have hlength : s.handles.length ≤ s'.handles.length := (move_touch hm).length
  have hknown := h.known
  refine ⟨by omega, ?_, ?_⟩
  · have hzero := h.posted
    rcases State.posted_isOf he hm f with hle | ⟨hf, -, -⟩ <;> omega
  · rw [List.countP_append, h.wire, Nat.zero_add]
    refine List.countP_eq_zero.mpr fun post hpost hof => ?_
    have hzero := h.posted
    unfold State.posted at hzero
    rw [(mem_begins he hm hpost).1] at hzero
    simp only [Sender.post, Option.any_some, hof, Bool.toNat_true] at hzero
    omega

/-- The stage of a submission is old, or the submission has just reached it. -/
theorem State.stageIs_setSubmit {i j : Nat} {stage stage' : SubmitStage X}
    (h : (s.setSubmit j stage').StageIs i stage) : s.StageIs i stage ∨ stage = stage' := by
  obtain ⟨call', hcall', rfl⟩ := h
  obtain ⟨call, hcall, rfl⟩ := getElem?_modify_some hcall'
  split
  · exact .inr rfl
  · exact .inl ⟨call, hcall, rfl⟩

/-- A submission that is given up had its message with it before. -/
theorem State.abandoning_back (hm : Move cfg s s') {i f : Nat} {error : SubmitError X}
    (h : s'.StageIs i (.abandoning f error)) : s.StageIs i (.abandoning f error) ∨
      ∃ j m stage error', s.StageIs j stage ∧ stage.post = some (m, some f) ∧
        s' = s.setSubmit j (.abandoning f error') := by
  cases hm with
  | submit =>
    obtain ⟨call, hcall, hstage⟩ := h
    rcases getElem?_append_some hcall with hold | ⟨-, rfl⟩
    · exact .inl ⟨call, hold, hstage⟩
    · have hnone := State.preflight_future s ‹Mode› ‹SubmissionOptions›
      rw [show s.preflight _ _ = _ from hstage] at hnone
      cases hnone
  | serialized | unserialized | refused | checked =>
    rcases State.stageIs_setSubmit h with hold | hnew
    · exact .inl hold
    · cases hnew
  | exhausted | register | put | abandon =>
    rcases State.stageIs_setSubmit h with hold | hnew
    · exact .inl hold
    · cases hnew
  | @invalid j g m error' hstage =>
    rcases State.stageIs_setSubmit h with hold | hnew
    · exact .inl hold
    · cases hnew
      exact .inr ⟨j, m, _, error, hstage, rfl, rfl⟩
  | @timedOut j g m text hstage =>
    rcases State.stageIs_setSubmit h with hold | hnew
    · exact .inl hold
    · cases hnew
      exact .inr ⟨j, m, _, _, hstage, rfl, rfl⟩
  | @finish _ call =>
    unfold State.settle at h
    split at h
    · split at h <;> exact .inl h
    · exact .inl h
  | @lossOver loss =>
    unfold State.afterLoss at h
    cases howner : loss.owner with
    | sender =>
      rw [howner] at h
      exact .inl h
    | receiver | lane =>
      rw [howner] at h
      dsimp only at h
      split at h <;> exact .inl h
  | _ => exact .inl h

/-- A submission that was given up leaves no message behind. -/
def State.Abandons (s : State V X) (wire : List Post) : Prop :=
  ∀ i f error, s.StageIs i (.abandoning f error) → s.Dropped wire f

theorem State.Abandons.move {wire failed : List Post} (h : s.Abandons wire)
    (hwired : Wired cfg s wire failed) (he : s.Engaged) (hm : Move cfg s s') :
    s'.Abandons (wire ++ begins s s') := by
  intro i f error hstage
  rcases State.abandoning_back hm hstage with hold | ⟨j, m, stage, error', hbefore, hpost, rfl⟩
  · exact (h i f error hold).move he hm
  · have hcount := State.posted_setSubmit hbefore (.abandoning f error') (State.isOf f)
    have hof : State.isOf f (m, some f) = true := decide_eq_true rfl
    rw [hpost] at hcount
    simp only [SubmitStage.post, Option.any_some, Option.any_none, hof, Bool.toNat_true,
      Bool.toNat_false] at hcount
    have hbound := hwired.once f
    have hwire := count_wire (s := s.setSubmit j (.abandoning f error')) hwired.split (State.isOf f)
    have hnone : begins s (s.setSubmit j (.abandoning f error')) = [] := by
      unfold begins
      show (if s.sender.writing.isSome then [] else s.sender.writing.toList) = []
      cases s.sender.writing <;> rfl
    rw [hnone, List.append_nil]
    split at hbound
    · rename_i hknown
      exact ⟨hknown, by omega, by omega⟩
    · omega

theorem reachable_abandons (h : (endpoint cfg).Reachable e) : e.client.Abandons e.wire := by
  have hinit : State.Abandons (client cfg).init [] := fun i f error ⟨call, hcall, _⟩ => by cases hcall
  refine h.invariant (I := fun e => e.client.Abandons e.wire) hinit ?_
  intro e l e' hreach habandons _ hs
  obtain ⟨hclient, hwire, -⟩ := Endpoint.step_client hs
  obtain ⟨failed, hwired⟩ := reachable_wired hreach
  rw [hwire]
  exact habandons.move hwired (State.reachable_registered (reachable_client hreach)).accounted.engaged
    (step_move hclient)

end Histories

end Deadpool.Remote.Client
