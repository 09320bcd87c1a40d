import Deadpool.Remote.Client.Core

/-!
# The completion lane and its slots

The lane releases the slots of `_completion_slots`, and on one path it acquires them: when the queue stays
full for a `RESULT_ACK`, `_complete` calls `_connection_lost`, which schedules one completion for every
future that is still pending.  The lane cannot release a slot before it is through.

Principal results:

* `lane_never_starved`  — with a slot for each of them, the lane never waits for one;
* `lane_starved`        — one slot and one pending future are enough for a deadlock.
-/

set_option autoImplicit false

namespace Deadpool.Remote.Client

open Deadpool.Py Deadpool.Lts

section Lane

variable {V X : Type} (cfg : Config V X)

namespace State

/-! ## Demand for slots -/

/-- The future is not done, and no terminal message is marked for it. -/
def unsettled (s : State V X) (f : Nat) : Bool :=
  !(s.futureDone f || s.terminalReceived.contains (s.idOf cfg f))

/-- The slots that `_connection_lost` may still acquire. -/
def due (s : State V X) (loss : Failing) : Nat :=
  loss.rest.countP (s.unsettled cfg) +
    match loss.stage with
    | .signals | .next | .holding _ _ => 0
    | .looked f terminalReceived => if s.futureDone f ∨ terminalReceived then 0 else 1
    | .deciding _ | .scheduling _ _ => 1

/-- The slots that the receiver may still acquire, once the socket is gone. -/
def arriving (s : State V X) : Nat :=
  match s.receiver with
  | .reading | .received _ | .found _ _ | .scheduling _ => 1
  | .top | .holding _ | .signalling | .failing _ _ | .losing _ | .stopped => 0

/-- The lane is about to lose the connection, with enough slots for the pending futures; while it does,
`_drain_semaphore` leaves it as many. -/
def ample (s : State V X) : Label X → Bool
  | .lane =>
    match s.lane with
    | .refused _ =>
      s.rpc.transportFailed || s.futures.values.countP (s.unsettled cfg) + s.arriving ≤ s.slots
    | _ => true
  | .lifecycle _ =>
    match s.lifecycle, s.loss with
    | .draining _, some loss => loss.owner ≠ .lane || s.due cfg loss + s.arriving < s.slots
    | _, _ => true
  | _ => true

/-- The lane waits for a slot, and none is free. -/
def Starved (s : State V X) : Prop :=
  ∃ loss f error, s.loss = some loss ∧ loss.owner = .lane ∧ loss.stage = .scheduling f error ∧
    s.slots = 0

/-! ## The loss in progress -/

structure Held (s : State V X) : Prop where
  failed : s.rpc.transportFailed = true → s.rpc.socket = false
  lost : ∀ loss, s.loss = some loss → s.rpc.transportFailed = true
  owned : ∀ loss, s.loss = some loss → loss.owner = .lane → ∃ f, s.lane = .losing f

/-- The lane has a slot for every acquisition that may come before its release. -/
def Ample (s : State V X) : Prop :=
  ∀ loss, s.loss = some loss → loss.owner = .lane → s.due cfg loss + s.arriving ≤ s.slots

variable {cfg} {s s' : State V X}

/-- The steps of a control request that a caller, the receiver or the loss takes. -/
theorem rpc_flags {rpc rpc' : RpcState Str} {l : RpcLabel Str} (h : Client.rpcStep rpc l = some rpc')
    (hlose : ∀ e, l ≠ .lose e) (hclose : l ≠ .closeSocket) :
    rpc'.transportFailed = rpc.transportFailed ∧ rpc'.socket = rpc.socket := by
  cases l with
  | call kind token =>
    simp only [Client.rpcStep] at h
    split at h
    · cases h
    · cases h
      unfold RpcState.register
      split <;> exact ⟨rfl, rfl⟩
  | enqueue i ok =>
    simp only [Client.rpcStep] at h
    split at h <;> cases h
    exact ⟨rfl, rfl⟩
  | wake i | read i | finish i =>
    simp only [Client.rpcStep] at h
    repeat' split at h
    all_goals cases h
    exact ⟨rfl, rfl⟩
  | timeout i =>
    simp only [Client.rpcStep] at h
    split at h <;> cases h
    exact ⟨rfl, rfl⟩
  | receive m =>
    simp only [Client.rpcStep] at h
    split at h
    · cases h
    · cases h
      unfold RpcState.receive
      repeat' split
      all_goals exact ⟨rfl, rfl⟩
  | signal | mark | wakeLost =>
    simp only [Client.rpcStep] at h
    split at h <;> cases h
    exact ⟨rfl, rfl⟩
  | lose e => exact absurd rfl (hlose e)
  | closeSocket => exact absurd rfl hclose

/-! ## Steps that leave the loss alone -/

/-- Nothing happens to the loss, and the lane stays in it if it is its own. -/
structure Calm (s s' : State V X) : Prop where
  loss : s'.loss = s.loss
  failed : s'.rpc.transportFailed = s.rpc.transportFailed
  socket : s.rpc.socket = false → s'.rpc.socket = false
  lane : ∀ f, s.lane = .losing f → s'.lane = .losing f

theorem Calm.refl (s : State V X) : Calm s s := ⟨rfl, rfl, id, fun _ => id⟩

theorem Calm.of_eq (hloss : s'.loss = s.loss) (hrpc : s'.rpc = s.rpc) (hlane : s'.lane = s.lane) :
    Calm s s' :=
  ⟨hloss, congrArg _ hrpc, fun h => by rw [hrpc]; exact h, fun f h => by rw [hlane]; exact h⟩

theorem Calm.rpc {l : RpcLabel Str} {rpc : RpcState Str} (h : Client.rpcStep s.rpc l = some rpc)
    (hlose : ∀ e, l ≠ .lose e) (hclose : l ≠ .closeSocket) (hloss : s'.loss = s.loss)
    (hrpc : s'.rpc = rpc) (hlane : s'.lane = s.lane) : Calm s s' := by
  obtain ⟨hfailed, hsocket⟩ := rpc_flags h hlose hclose
  subst hrpc
  exact ⟨hloss, hfailed, fun hs => hsocket.trans hs, fun f h => by rw [hlane]; exact h⟩

theorem Held.calm (h : s.Held) (hc : Calm s s') : s'.Held where
  failed hf := hc.socket (h.failed (hc.failed ▸ hf))
  lost loss hl := hc.failed.trans (h.lost loss (hc.loss ▸ hl))
  owned loss hl howner := by
    obtain ⟨f, hf⟩ := h.owned loss (hc.loss ▸ hl) howner
    exact ⟨f, hc.lane f hf⟩

/-- A step after which the loss in the lane needs no more slots than there are. -/
structure Eases (cfg : Config V X) (s s' : State V X) : Prop where
  loss : s'.loss = s.loss
  ids : ∀ f, s'.idOf cfg f = s.idOf cfg f
  done : ∀ f, s.futureDone f = true → s'.futureDone f = true
  marks : ∀ requestId ∈ s.terminalReceived, requestId ∈ s'.terminalReceived
  slots : s'.arriving + s.slots ≤ s.arriving + s'.slots

theorem Eases.unsettled (h : Eases cfg s s') {f : Nat} (hf : s'.unsettled cfg f = true) :
    s.unsettled cfg f = true := by
  unfold State.unsettled at hf ⊢
  simp only [Bool.not_eq_true', Bool.or_eq_false_iff, List.contains_eq_mem, decide_eq_false_iff_not]
    at hf ⊢
  rw [h.ids f] at hf
  exact ⟨Bool.eq_false_iff.mpr fun hd => Bool.eq_false_iff.mp hf.1 (h.done f hd), fun hm =>
    hf.2 (h.marks _ hm)⟩

theorem Eases.due (h : Eases cfg s s') (loss : Failing) : s'.due cfg loss ≤ s.due cfg loss := by
  unfold State.due
  refine Nat.add_le_add (List.countP_mono_left fun f _ => h.unsettled) ?_
  cases loss.stage with
  | looked f terminalReceived =>
    dsimp only
    by_cases hs : s.futureDone f = true ∨ terminalReceived = true
    · rw [if_pos (hs.imp_left (h.done f))]
      exact Nat.zero_le _
    · rw [if_neg hs]
      split <;> omega
  | _ => exact Nat.le_refl _

theorem Ample.eases (h : s.Ample cfg) (he : Eases cfg s s') : s'.Ample cfg := by
  intro loss hl howner
  have hample := h loss (he.loss ▸ hl) howner
  have hdue := he.due loss
  have hslots := he.slots
  omega

theorem Eases.of_eq (hloss : s'.loss = s.loss) (hhandles : s'.handles = s.handles)
    (hmarks : s'.terminalReceived = s.terminalReceived) (hreceiver : s'.receiver = s.receiver)
    (hslots : s'.slots = s.slots) : Eases cfg s s' where
  loss := hloss
  ids f := by unfold State.idOf; rw [hhandles]
  done f hf := by unfold State.futureDone at hf ⊢; rw [hhandles]; exact hf
  marks _ hm := by rw [hmarks]; exact hm
  slots := by unfold State.arriving; rw [hreceiver, hslots]

theorem operate_idOf (f : Nat) (op : Operation V (Failure X)) (g : Nat) :
    (s.operate f op).idOf cfg g = s.idOf cfg g := by
  unfold State.idOf State.operate
  dsimp only
  rw [List.getElem?_modify]
  cases s.handles[g]? with
  | none => rfl
  | some h =>
    dsimp only [Option.map_some, Option.map_eq_map]
    split <;> rfl

theorem operate_done {f : Nat} (op : Operation V (Failure X)) {g : Nat} (h : s.futureDone g = true) :
    (s.operate f op).futureDone g = true := by
  unfold State.futureDone State.operate at *
  dsimp only at *
  rw [List.getElem?_modify]
  cases hg : s.handles[g]? with
  | none =>
    rw [hg] at h
    cases h
  | some handle =>
    rw [hg] at h
    have hdone : handle.future.done = true := h
    dsimp only [Option.map_some, Option.map_eq_map, Option.getD_some]
    split
    · rw [RemoteFuture.operate_of_done hdone]
      exact hdone
    · exact hdone

theorem Eases.operate (f : Nat) (op : Operation V (Failure X)) (hloss : s'.loss = s.loss)
    (hhandles : s'.handles = (s.operate f op).handles)
    (hmarks : s'.terminalReceived = s.terminalReceived) (hreceiver : s'.receiver = s.receiver)
    (hslots : s'.slots = s.slots) : Eases cfg s s' where
  loss := hloss
  ids g := by
    have hid : (s.operate f op).idOf cfg g = s.idOf cfg g := operate_idOf f op g
    rw [← hid]
    unfold State.idOf
    rw [hhandles]
  done g hg := by
    have hdone : (s.operate f op).futureDone g = true := operate_done op hg
    unfold State.futureDone at hdone ⊢
    rw [hhandles]
    exact hdone
  marks _ hm := by rw [hmarks]; exact hm
  slots := by unfold State.arriving; rw [hreceiver, hslots]

/-- A step beside the loss. -/
structure Beside (cfg : Config V X) (s s' : State V X) : Prop where
  calm : Calm s s'
  eases : s.rpc.transportFailed = true → (∃ f, s.lane = .losing f) → Eases cfg s s'

theorem Beside.of_eq (hloss : s'.loss = s.loss) (hrpc : s'.rpc = s.rpc) (hlane : s'.lane = s.lane)
    (hhandles : s'.handles = s.handles) (hmarks : s'.terminalReceived = s.terminalReceived)
    (hreceiver : s'.receiver = s.receiver) (hslots : s'.slots = s.slots) : Beside cfg s s' :=
  ⟨.of_eq hloss hrpc hlane, fun _ _ => .of_eq hloss hhandles hmarks hreceiver hslots⟩

/-- A step of the lane. -/
theorem Beside.of_lane (hloss : s'.loss = s.loss) (hrpc : s'.rpc = s.rpc)
    (hlane : ∀ f, s.lane ≠ .losing f) : Beside cfg s s' :=
  ⟨⟨hloss, by rw [hrpc], fun h => by rw [hrpc]; exact h, fun f h => absurd h (hlane f)⟩,
    fun _ ⟨f, h⟩ => absurd h (hlane f)⟩

theorem beside_register {i : Nat} {call : Submission X} {payload : Bytes} :
    Beside cfg s (s.register cfg i call payload) := by
  unfold State.register
  split
  · exact .of_eq rfl rfl rfl rfl rfl rfl rfl
  · split
    · exact .of_eq rfl rfl rfl rfl rfl rfl rfl
    · rename_i havailable
      dsimp only
      split
      · exact .of_eq rfl rfl rfl rfl rfl rfl rfl
      · exact ⟨.of_eq rfl rfl rfl, fun hfailed _ => absurd (.inl hfailed) havailable⟩

theorem beside_submit {i : Nat} (h : s.submitStep cfg i = some s') : Beside cfg s s' := by
  unfold State.submitStep at h
  split at h
  · cases h
  · split at h
    · cases h
      exact beside_register
    · split at h <;>
      · cases h
        exact .of_eq rfl rfl rfl rfl rfl rfl rfl
    · cases h
      exact .of_eq rfl rfl rfl rfl rfl rfl rfl
    · cases h

theorem beside_put {i : Nat} {result : Option Bool} (h : s.putStep cfg i result = some s') :
    Beside cfg s s' := by
  unfold State.putStep at h
  split at h
  · split at h
    · cases h
      exact .of_eq rfl rfl rfl rfl rfl rfl rfl
    · split at h
      · cases h
        exact .of_eq rfl rfl rfl rfl rfl rfl rfl
      · cases h
    · split at h
      · cases h
      · cases h
        exact .of_eq rfl rfl rfl rfl rfl rfl rfl
  · cases h

theorem Beside.rpc {l : RpcLabel Str} {rpc : RpcState Str} (h : Client.rpcStep s.rpc l = some rpc)
    (hlose : ∀ e, l ≠ .lose e) (hclose : l ≠ .closeSocket) (hloss : s'.loss = s.loss)
    (hrpc : s'.rpc = rpc) (hlane : s'.lane = s.lane) (hhandles : s'.handles = s.handles)
    (hmarks : s'.terminalReceived = s.terminalReceived) (hreceiver : s'.receiver = s.receiver)
    (hslots : s'.slots = s.slots) : Beside cfg s s' :=
  ⟨.rpc h hlose hclose hloss hrpc hlane, fun _ _ => .of_eq hloss hhandles hmarks hreceiver hslots⟩

theorem beside_settle {l : RpcLabel Str} {rpc : RpcState Str} {call : RpcCall Str}
    (h : Client.rpcStep s.rpc l = some rpc) (hlose : ∀ e, l ≠ .lose e) (hclose : l ≠ .closeSocket) :
    Beside cfg s (State.settle { s with rpc } call) := by
  have hsame : Beside cfg s { s with rpc } := .rpc h hlose hclose rfl rfl rfl rfl rfl rfl rfl
  unfold State.settle
  split
  · split
    · rename_i f _ _ _ _ _
      exact ⟨.rpc h hlose hclose rfl rfl rfl, fun _ _ =>
        .operate f .setCancelled rfl rfl rfl rfl rfl⟩
    · exact hsame
  · exact hsame

theorem beside_rpc {l : RpcLabel Str} (h : s.rpcStep cfg l = some s') : Beside cfg s s' := by
  unfold State.rpcStep at h
  dsimp only at h
  cases l with
  | call kind token =>
    dsimp only at h
    split at h
    · obtain ⟨rpc, hrpc, rfl⟩ := Option.map_eq_some_iff.mp h
      exact .rpc hrpc nofun nofun rfl rfl rfl rfl rfl rfl rfl
    · cases h
  | enqueue i ok =>
    dsimp only at h
    split at h
    · cases h
    · split at h
      · cases h
      · obtain ⟨x, hx, rfl⟩ := Option.map_eq_some_iff.mp h
        obtain ⟨rpc, hrpc, rfl⟩ := Option.map_eq_some_iff.mp hx
        split <;> exact .rpc hrpc nofun nofun rfl rfl rfl rfl rfl rfl rfl
  | wake i | timeout i | read i =>
    obtain ⟨rpc, hrpc, rfl⟩ := Option.map_eq_some_iff.mp h
    exact .rpc hrpc nofun nofun rfl rfl rfl rfl rfl rfl rfl
  | finish i =>
    dsimp only at h
    split at h
    · cases h
    · obtain ⟨x, hx, rfl⟩ := Option.map_eq_some_iff.mp h
      obtain ⟨rpc, hrpc, rfl⟩ := Option.map_eq_some_iff.mp hx
      exact beside_settle hrpc nofun nofun
  | receive | signal | lose | mark | wakeLost | closeSocket => cases h

/-! ## The threads -/

theorem beside_sender (h : s.senderStep cfg = some s') (hsender : ∀ text, s.sender ≠ .failing text) :
    Beside cfg s s' := by
  unfold State.senderStep at h
  split at h
  · split at h
    · cases h
    · cases h
      exact .of_eq rfl rfl rfl rfl rfl rfl rfl
    · cases h
      exact .of_eq rfl rfl rfl rfl rfl rfl rfl
  · cases h
    exact .of_eq rfl rfl rfl rfl rfl rfl rfl
  · split at h
    · cases h
      exact .of_eq rfl rfl rfl rfl rfl rfl rfl
    · rename_i f _ _
      cases h
      exact ⟨.of_eq rfl rfl rfl, fun _ _ => .operate f .setSent rfl rfl rfl rfl rfl⟩
  · cases h
    exact .of_eq rfl rfl rfl rfl rfl rfl rfl
  · cases h
    split <;> exact .of_eq rfl rfl rfl rfl rfl rfl rfl
  · rename_i text hs
    exact absurd hs (hsender text)
  all_goals cases h

/-- A step of the receiver that changes no more than its place and the marks. -/
theorem Beside.receive (hloss : s'.loss = s.loss) (hrpc : s'.rpc = s.rpc) (hlane : s'.lane = s.lane)
    (hhandles : s'.handles = s.handles)
    (hmarks : ∀ requestId ∈ s.terminalReceived, requestId ∈ s'.terminalReceived)
    (harriving : s.rpc.socket = false → s'.arriving + s.slots ≤ s.arriving + s'.slots)
    (hheld : s.Held) : Beside cfg s s' :=
  ⟨.of_eq hloss hrpc hlane, fun hfailed _ =>
    ⟨hloss, fun f => by unfold State.idOf; rw [hhandles],
      fun f hf => by unfold State.futureDone at hf ⊢; rw [hhandles]; exact hf, hmarks,
      harriving (hheld.failed hfailed)⟩⟩

theorem rpc_receive_flags (rpc : RpcState Str) (m : Message) :
    (rpc.receive m).transportFailed = rpc.transportFailed ∧ (rpc.receive m).socket = rpc.socket := by
  unfold RpcState.receive
  repeat' split
  all_goals exact ⟨rfl, rfl⟩

theorem beside_dispatch {m : Message} {future : Option Nat} (hreceiver : s.receiver = .found m future)
    (hheld : s.Held) : Beside cfg s (s.dispatch cfg m future) := by
  have harriving : s.arriving = 1 := by unfold State.arriving; rw [hreceiver]
  have hplace : ∀ receiver : Receiver, Beside cfg s { s with receiver } := fun receiver =>
    .receive rfl rfl rfl rfl (fun _ h => h) (fun _ => by
      rw [harriving]
      unfold State.arriving
      dsimp only
      split <;> omega) hheld
  have hrpc : Beside cfg s { s with
      rpc := s.rpc.receive m
      receiver := if (s.rpc.receive m).receiving.isSome then .signalling else .top } := by
    obtain ⟨hfailed, hsocket⟩ := rpc_receive_flags s.rpc m
    refine ⟨⟨rfl, hfailed, fun h => hsocket.trans h, fun _ h => h⟩, fun _ _ =>
      ⟨rfl, fun _ => rfl, fun _ h => h, fun _ h => h, ?_⟩⟩
    rw [harriving]
    unfold State.arriving
    dsimp only
    split <;> omega
  unfold State.dispatch
  dsimp only
  split
  · exact hplace _
  · exact hplace _
  · exact hplace _
  · exact hrpc
  · exact hrpc
  · exact hrpc
  · exact hrpc
  · exact hrpc
  · exact hrpc
  · exact hplace _
  · exact hplace _
  · exact hplace _
  · split
    · exact .receive rfl rfl rfl rfl (fun _ h => List.mem_append_left _ h) (fun _ => by
        rw [harriving]
        exact Nat.le_refl _) hheld
    · exact hplace _
  · exact hplace _

theorem beside_receiver (h : s.receiverStep cfg = some s') (hheld : s.Held)
    (hreceiver : ∀ text again, s.receiver ≠ .failing text again) : Beside cfg s s' := by
  unfold State.receiverStep at h
  split at h
  · rename_i hr
    cases h
    refine .receive rfl rfl rfl rfl (fun _ h => h) (fun hsocket => ?_) hheld
    unfold State.arriving
    dsimp only
    rw [hsocket]
    exact Nat.add_le_add_right (Nat.zero_le _) _
  · rename_i m hr
    cases h
    refine .receive rfl rfl rfl rfl (fun _ h => h) (fun _ => ?_) hheld
    unfold State.arriving
    rw [hr]
  · rename_i m future hr
    cases h
    exact beside_dispatch hr hheld
  · rename_i job hr
    split at h
    · cases h
    · rename_i hslots
      cases h
      refine .receive rfl rfl rfl rfl (fun _ h => h) (fun _ => ?_) hheld
      unfold State.arriving
      rw [hr]
      dsimp only
      omega
  · rename_i job hr
    cases h
    refine .receive rfl rfl rfl rfl (fun _ h => h) (fun _ => ?_) hheld
    unfold State.arriving
    rw [hr]
  · rename_i hr
    obtain ⟨rpc, hrpc, rfl⟩ := Option.map_eq_some_iff.mp h
    refine ⟨.rpc hrpc nofun nofun rfl rfl rfl, fun _ _ =>
      ⟨rfl, fun _ => rfl, fun _ h => h, fun _ h => h, ?_⟩⟩
    unfold State.arriving
    rw [hr]
  · rename_i text again hr
    exact absurd hr (hreceiver text again)
  all_goals cases h

theorem beside_lane (h : s.laneStep cfg = some s') (hlane : ∀ f, s.lane ≠ .refused f) :
    Beside cfg s s' := by
  unfold State.laneStep at h
  split at h
  · rename_i hl
    split at h
    · cases h
    · cases h
      exact .of_lane rfl rfl (fun f h => by rw [hl] at h; cases h)
  · rename_i job hl
    cases h
    have hnot : ∀ f, s.lane ≠ .losing f := fun f h => by rw [hl] at h; cases h
    cases job <;> exact .of_lane rfl rfl hnot
  · rename_i f hl
    exact absurd hl (hlane f)
  · rename_i f completing hl
    cases h
    exact .of_lane rfl rfl (fun f h => by rw [hl] at h; cases h)
  · rename_i f hl
    cases h
    exact .of_lane rfl rfl (fun f h => by rw [hl] at h; cases h)
  · rename_i hl
    cases h
    exact .of_lane rfl rfl (fun f h => by rw [hl] at h; cases h)
  all_goals cases h

theorem beside_ack {ok : Bool} (h : s.ackStep cfg ok = some s') : Beside cfg s s' := by
  unfold State.ackStep at h
  split at h
  · rename_i f hl
    have hnot : ∀ f, s.lane ≠ .losing f := fun f h => by rw [hl] at h; cases h
    split at h
    · cases h
    · split at h <;>
      · cases h
        exact .of_lane rfl rfl hnot
  · cases h

/-! ## One step -/

/-- What holds of the loss in every reachable state. -/
structure Secure (cfg : Config V X) (s : State V X) : Prop where
  held : s.Held
  ample : s.Ample cfg

theorem Secure.beside (h : s.Secure cfg) (hb : Beside cfg s s') : s'.Secure cfg where
  held := h.held.calm hb.calm
  ample loss hl howner := by
    have hl' : s.loss = some loss := hb.calm.loss ▸ hl
    have heases := hb.eases (h.held.lost loss hl') (h.held.owned loss hl' howner)
    exact h.ample.eases heases loss hl howner

/-- A thread comes back from a loss that another thread has begun. -/
theorem beside_afterLoss {owner : Thread} (howner : owner = .lane → ∃ f, s.lane = .refused f)
    (hreceiver : owner = .receiver → ∃ text again, s.receiver = .failing text again) (hheld : s.Held) :
    Beside cfg s (s.afterLoss owner) := by
  cases owner with
  | sender => exact .of_eq rfl rfl rfl rfl rfl rfl rfl
  | receiver =>
    obtain ⟨text, again, hr⟩ := hreceiver rfl
    unfold State.afterLoss
    dsimp only
    rw [hr]
    cases again with
    | true | false =>
      refine .receive rfl rfl rfl rfl (fun _ h => h) (fun _ => ?_) hheld
      unfold State.arriving
      rw [hr]
  | lane =>
    obtain ⟨f, hf⟩ := howner rfl
    unfold State.afterLoss
    dsimp only
    rw [hf]
    exact .of_lane rfl rfl (fun g h => by rw [hf] at h; cases h)

theorem inLoss_frame (s : State V X) (owner : Thread) :
    (s.inLoss owner).loss = s.loss ∧ (s.inLoss owner).rpc = s.rpc ∧
      (s.inLoss owner).slots = s.slots ∧ (s.inLoss owner).handles = s.handles ∧
      (s.inLoss owner).terminalReceived = s.terminalReceived := by
  unfold State.inLoss
  cases owner with
  | sender => exact ⟨rfl, rfl, rfl, rfl, rfl⟩
  | receiver | lane =>
    dsimp only
    split <;> exact ⟨rfl, rfl, rfl, rfl, rfl⟩

/-- `_connection_lost` from the lane takes its snapshot while there are slots for it. -/
theorem Secure.lose {owner : Thread} {text : Str} (h : s.Secure cfg)
    (howner : owner = .lane → ∃ f, s.lane = .refused f)
    (hreceiver : owner = .receiver → ∃ text again, s.receiver = .failing text again)
    (hample : owner = .lane → s.rpc.transportFailed = false →
      s.futures.values.countP (s.unsettled cfg) + s.arriving ≤ s.slots) :
    (s.lose owner text).Secure cfg := by
  unfold State.lose
  split
  · exact h.beside (beside_afterLoss howner hreceiver h.held)
  · rename_i hfailed
    have hfailed : s.rpc.transportFailed = false := Bool.eq_false_iff.mpr hfailed
    have hrpc : (s.rpc.lose text).transportFailed = true ∧ (s.rpc.lose text).socket = false := by
      unfold RpcState.lose
      rw [hfailed]
      exact ⟨rfl, rfl⟩
    obtain ⟨hloss, hframe, hslots, hhandles, hmarks⟩ := inLoss_frame
      { s with rpc := s.rpc.lose text, loss := some ⟨owner, text, s.futures.values, .signals⟩ } owner
    refine ⟨⟨fun _ => by rw [hframe]; exact hrpc.2, fun _ _ => by rw [hframe]; exact hrpc.1, ?_⟩, ?_⟩
    · intro loss hl hlane
      rw [hloss] at hl
      cases hl
      have hlane : owner = .lane := hlane
      subst hlane
      obtain ⟨f, hf⟩ := howner rfl
      exact ⟨f, by unfold State.inLoss; dsimp only; rw [hf]⟩
    · intro loss hl hlane
      rw [hloss] at hl
      cases hl
      have hlane : owner = .lane := hlane
      subst hlane
      obtain ⟨f, hf⟩ := howner rfl
      have hneed := hample rfl hfailed
      unfold State.inLoss
      dsimp only
      rw [hf]
      exact hneed

/-- `_connection_lost` is over. -/
theorem Secure.over (h : s.Secure cfg) (hloss : s'.loss = none) (hrpc : s'.rpc = s.rpc) :
    s'.Secure cfg := by
  have hnone : ∀ loss, s'.loss ≠ some loss := fun loss hl => by rw [hloss] at hl; cases hl
  refine ⟨⟨fun hf => ?_, fun loss hl => absurd hl (hnone loss), fun loss hl =>
    absurd hl (hnone loss)⟩, fun loss hl => absurd hl (hnone loss)⟩
  rw [hrpc] at hf ⊢
  exact h.held.failed hf

/-- Another stage of the same loss, which needs no more slots. -/
theorem Secure.goto {loss next : Failing} (h : s.Secure cfg) (hloss : s.loss = some loss)
    (howner : next.owner = loss.owner) (hdue : s.due cfg next ≤ s.due cfg loss) :
    State.Secure cfg { s with loss := some next } := by
  refine ⟨⟨h.held.failed, fun _ _ => h.held.lost loss hloss, fun l hl hlane => ?_⟩, fun l hl hlane => ?_⟩
  · cases hl
    exact h.held.owned loss hloss (howner ▸ hlane)
  · cases hl
    exact Nat.le_trans (Nat.add_le_add_right hdue _) (h.ample loss hloss (howner ▸ hlane))

/-- The loop of `_connection_lost` acquires a slot only for a future that it has found pending. -/
theorem Secure.lossStep {loss : Failing} (h : s.Secure cfg) (hloss : s.loss = some loss)
    (hs : s.lossStep cfg loss = some s') : s'.Secure cfg := by
  obtain ⟨owner, text, rest, stage⟩ := loss
  unfold State.lossStep at hs
  cases stage with
  | signals =>
    dsimp only at hs
    split at hs
    · obtain ⟨rpc, hrpc, rfl⟩ := Option.map_eq_some_iff.mp hs
      exact h.beside (.rpc hrpc nofun nofun rfl rfl rfl rfl rfl rfl rfl)
    · obtain ⟨rpc, hrpc, rfl⟩ := Option.map_eq_some_iff.mp hs
      exact h.beside (.rpc hrpc nofun nofun rfl rfl rfl rfl rfl rfl rfl)
    · cases hs
      exact h.goto hloss rfl (Nat.le_refl _)
  | next =>
    cases rest with
    | nil =>
      cases hs
      unfold State.afterLoss
      cases owner with
      | sender => exact h.over rfl rfl
      | receiver | lane =>
        dsimp only
        split <;> exact h.over rfl rfl
    | cons f rest =>
      cases hs
      refine h.goto hloss rfl ?_
      unfold State.due
      dsimp only
      rw [List.countP_cons]
      unfold State.unsettled
      cases s.futureDone f <;> cases s.terminalReceived.contains (s.idOf cfg f) <;>
        exact Nat.le_refl _
  | looked f terminalReceived =>
    dsimp only at hs
    split at hs
    · cases hs
      exact h.goto hloss rfl (Nat.add_le_add_left (Nat.zero_le _) _)
    · rename_i hpending
      cases hs
      refine h.goto hloss rfl ?_
      unfold State.due
      dsimp only
      rw [if_neg hpending]
  | deciding f =>
    dsimp only at hs
    split at hs
    · cases hs
    · cases hs
      exact h.goto hloss rfl (Nat.le_refl _)
  | scheduling f error =>
    dsimp only at hs
    split at hs
    · cases hs
    · rename_i hslots
      cases hs
      refine ⟨⟨h.held.failed, fun _ _ => h.held.lost _ hloss, fun l hl hlane => ?_⟩, fun l hl hlane => ?_⟩
      · cases hl
        exact h.held.owned _ hloss hlane
      · cases hl
        have hneed : rest.countP (s.unsettled cfg) + 1 + s.arriving ≤ s.slots := h.ample _ hloss hlane
        have hleft : rest.countP (s.unsettled cfg) + 0 + s.arriving ≤ s.slots - 1 := by omega
        exact hleft
  | holding f error =>
    cases hs
    refine ⟨⟨h.held.failed, fun _ _ => h.held.lost _ hloss, fun l hl hlane => ?_⟩, fun l hl hlane => ?_⟩
    · cases hl
      exact h.held.owned _ hloss hlane
    · cases hl
      have hneed := h.ample _ hloss hlane
      exact hneed

theorem Secure.lifecycleStep {ok : Bool} (h : s.Secure cfg) (hs : s.lifecycleStep cfg ok = some s')
    (hample : s.ample cfg (.lifecycle ok) = true) : s'.Secure cfg := by
  unfold State.lifecycleStep at hs
  split at hs
  · cases hs
  · cases hs
  · split at hs
    · cases hs
      exact h.beside (.of_eq rfl rfl rfl rfl rfl rfl rfl)
    · cases hs
  · split at hs
    · cases hs
    · cases hs
      exact h.beside (.of_eq rfl rfl rfl rfl rfl rfl rfl)
  · cases hs
    exact h.beside ⟨⟨rfl, rfl, fun _ => rfl, fun _ h => h⟩, fun _ _ => .of_eq rfl rfl rfl rfl rfl⟩
  · rename_i taken hl
    split at hs
    · cases hs
      exact h.beside (.of_eq rfl rfl rfl rfl rfl rfl rfl)
    · split at hs
      · cases hs
      · rename_i hslots
        cases hs
        refine ⟨⟨h.held.failed, h.held.lost, h.held.owned⟩, fun loss hloss hlane => ?_⟩
        have hloss : s.loss = some loss := hloss
        have hneed : s.due cfg loss + s.arriving < s.slots := by
          unfold State.ample at hample
          rw [hl, hloss] at hample
          dsimp only at hample
          rw [hlane] at hample
          simpa using hample
        have hleft : s.due cfg loss + s.arriving ≤ s.slots - 1 := by omega
        exact hleft
  · rename_i taken hl
    split at hs
    · cases hs
      exact h.beside (.of_eq rfl rfl rfl rfl rfl rfl rfl)
    · cases hs
      exact h.beside ⟨.of_eq rfl rfl rfl, fun _ _ =>
        ⟨rfl, fun _ => rfl, fun _ h => h, fun _ h => h, Nat.add_le_add_left (Nat.le_succ _) _⟩⟩

/-- **A step whose condition holds leaves the lane a slot for each acquisition before its release.** -/
theorem Secure.step {l : Label X} (h : s.Secure cfg) (hs : s.step cfg l = some s')
    (hample : s.ample cfg l = true) : s'.Secure cfg := by
  cases l with
  | submit mode options =>
    cases hs
    exact h.beside (.of_eq rfl rfl rfl rfl rfl rfl rfl)
  | serialized i result =>
    simp only [State.step] at hs
    split at hs
    · cases hs
      exact h.beside (.of_eq rfl rfl rfl rfl rfl rfl rfl)
    · cases hs
  | proceed i => exact h.beside (beside_submit hs)
  | expire i =>
    have hput : s.putStep cfg i none = some s' := hs
    exact h.beside (beside_put hput)
  | put i ok =>
    have hput : s.putStep cfg i (some ok) = some s' := hs
    exact h.beside (beside_put hput)
  | cancel f =>
    simp only [State.step] at hs
    split at hs
    · cases hs
    · cases hs
      split
      · exact h.beside ⟨.of_eq rfl rfl rfl, fun _ _ =>
          .operate f .cancel rfl rfl rfl rfl rfl⟩
      · exact h
  | rpc l => exact h.beside (beside_rpc hs)
  | sender =>
    by_cases hsender : ∃ text, s.sender = .failing text
    · obtain ⟨text, hsender⟩ := hsender
      simp only [State.step, State.senderStep, hsender, Option.some.injEq] at hs
      subst hs
      exact h.lose nofun nofun nofun
    · exact h.beside (beside_sender hs fun text h => hsender ⟨text, h⟩)
  | sent error =>
    simp only [State.step] at hs
    split at hs
    · split at hs <;>
      · cases hs
        exact h.beside (.of_eq rfl rfl rfl rfl rfl rfl rfl)
    · cases hs
  | receive result =>
    simp only [State.step] at hs
    split at hs
    · rename_i hr
      have harriving : s.arriving = 1 := by unfold State.arriving; rw [hr]
      split at hs
      · cases hs
        refine h.beside (.receive rfl rfl rfl rfl (fun _ h => h) (fun _ => ?_) h.held)
        rw [harriving]
        exact Nat.le_refl _
      · cases hs
        refine h.beside (.receive rfl rfl rfl rfl (fun _ h => h) (fun _ => ?_) h.held)
        rw [harriving]
        exact Nat.add_le_add_right (Nat.zero_le _) _
    · cases hs
  | receiver =>
    by_cases hreceiver : ∃ text again, s.receiver = .failing text again
    · obtain ⟨text, again, hr⟩ := hreceiver
      simp only [State.step, State.receiverStep, hr, Option.some.injEq] at hs
      subst hs
      exact h.lose nofun (fun _ => ⟨text, again, hr⟩) nofun
    · exact h.beside (beside_receiver hs h.held fun text again h => hreceiver ⟨text, again, h⟩)
  | lane =>
    by_cases hlane : ∃ f, s.lane = .refused f
    · obtain ⟨f, hl⟩ := hlane
      simp only [State.step, State.laneStep, hl, Option.some.injEq] at hs
      subst hs
      refine h.lose (fun _ => ⟨f, hl⟩) nofun fun _ hfailed => ?_
      simpa [State.ample, hl, hfailed] using hample
    · exact h.beside (beside_lane hs fun f h => hlane ⟨f, h⟩)
  | ack ok => exact h.beside (beside_ack hs)
  | loss =>
    obtain ⟨loss, hloss, hstep⟩ := Option.bind_eq_some_iff.mp hs
    exact h.lossStep hloss hstep
  | shutdown =>
    simp only [State.step] at hs
    split at hs
    · cases hs
    · cases hs
      exact h.beside (.of_eq rfl rfl rfl rfl rfl rfl rfl)
  | lifecycle ok => exact h.lifecycleStep hs hample

theorem Secure.init : (client cfg).init.Secure cfg :=
  ⟨⟨nofun, nofun, nofun⟩, nofun⟩

end State

/-! ## The lane is never starved -/

/-- **The lane waits for no slot while none is free, where the pending futures have a slot each.** -/
theorem lane_never_starved (s : State V X)
    (h : (client cfg).Reach (fun s l => s.ample cfg l = true) s) : ¬ s.Starved := by
  have hsecure : s.Secure cfg :=
    h.invariant State.Secure.init fun _ _ _ _ hi hc hs => hi.step hs hc
  rintro ⟨⟨owner, text, rest, stage⟩, f, error, hloss, hlane, hstage, hslots⟩
  have hstage : stage = .scheduling f error := hstage
  subst hstage
  have hneed : rest.countP (s.unsettled cfg) + 1 + s.arriving ≤ s.slots :=
    hsecure.ample _ hloss hlane
  omega

end Lane

/-! ## A full queue -/

/-- A client with this many slots for completions, and a queue for one message. -/
def crampedClient (slots : Nat) : Config Unit Unit where
  limits := { outboundQueueSize := 1, inboundQueueSize := slots }
  clientId := Hex.zeros 32
  runtime := {
    loads := fun _ => .ok ()
    exception := fun _ => none
    str := fun _ => []
    sha256 := fun _ => Hex.zeros 64 }

/-- A call of `submit`, up to the message on the queue, and the sender that sends it. -/
def submitAndSend (i : Nat) : List (Label Unit) :=
  [.submit .callable {}, .serialized i (.ok []), .proceed i, .proceed i, .put i true, .sender, .sender,
    .sender, .sent none]

/-- The result of the first of two requests arrives, while the sender hangs in a call of `send` and
another message fills the queue; the lane gives up on `RESULT_ACK`. -/
def acknowledgeLate : List (Label Unit) :=
  submitAndSend 0 ++ submitAndSend 1 ++
    [.receiver,
      .receive (.ok ⟨.result, requestControl (requestIdText (Hex.zeros 32).text 1), []⟩), .receiver,
      .receiver, .receiver, .receiver,
      .rpc (.call (.request .ping .empty) (lit "t")), .rpc (.enqueue 0 true), .sender, .sender, .sender,
      .rpc (.call (.request .ping .empty) (lit "u")), .rpc (.enqueue 1 true),
      .lane, .lane, .ack false, .lane, .loss, .loss, .loss, .loss, .loss, .loss, .loss, .loss, .loss, .loss]

/-- With two slots the second request fails, and the lane comes back. -/
theorem lane_never_starved_acknowledgeLate : ∃ s,
    (client (crampedClient 2)).runWhile (fun s l => s.ample (crampedClient 2) l)
        (client (crampedClient 2)).init (acknowledgeLate ++ [.loss, .loss, .loss, .lane]) = some s ∧
      s.work.length = 1 ∧ ¬ s.Starved := by
  have hrun : (((client (crampedClient 2)).runWhile (fun s l => s.ample (crampedClient 2) l)
      (client (crampedClient 2)).init (acknowledgeLate ++ [.loss, .loss, .loss, .lane])).map fun s =>
        s.work.length) = some 1 := by decide +kernel
  obtain ⟨s, hrun, hwork⟩ := Option.map_eq_some_iff.mp hrun
  exact ⟨s, hrun, hwork, lane_never_starved _ s (System.Reach.of_runWhile .init _ hrun)⟩

/-- With one slot the lane holds it, and waits for another. -/
theorem lane_starved :
    (crampedClient 1).limits.postInit = .ok () ∧
      ∃ s, (client (crampedClient 1)).Reachable s ∧ s.Starved := by
  refine ⟨by decide +kernel, ?_⟩
  have hrun : (((client (crampedClient 1)).run (client (crampedClient 1)).init acknowledgeLate).bind
      fun s => s.loss.bind fun loss => match loss.stage with
        | .scheduling _ _ => some (decide (loss.owner = .lane), s.slots)
        | _ => none) = some (true, 0) := by decide +kernel
  obtain ⟨s, hrun, hloss⟩ := Option.bind_eq_some_iff.mp hrun
  obtain ⟨loss, hloss, hstage⟩ := Option.bind_eq_some_iff.mp hloss
  refine ⟨s, System.reachable_of_run hrun, loss, ?_⟩
  cases hs : loss.stage with
  | scheduling f error =>
    rw [hs] at hstage
    obtain ⟨howner, hslots⟩ := Prod.mk.inj (Option.some.inj hstage)
    exact ⟨f, error, hloss, of_decide_eq_true howner, rfl, hslots⟩
  | signals | next | looked | deciding | holding =>
    rw [hs] at hstage
    cases hstage

end Deadpool.Remote.Client
