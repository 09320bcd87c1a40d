import Deadpool.Remote.Client.Moves

/-!
# The slots of the completion lane

Every slot of `_completion_slots` is free, or one party holds it: the receiver and `_connection_lost`
between `acquire` and the submission of a completion, each completion in the queue of the lane, the lane
until it releases, and `_drain_semaphore`.  So the semaphore is never released beyond its bound, the
drain of a shutdown ends only when the lane has nothing left to do, and a lane that waits for a slot
while none is free waits for ever.

Principal results:

* `slots_balance`   — where the slots are, in every reachable state;
* `drained_lane`    — what a complete drain says about the lane;
* `starved_forever` — a starved lane stays starved, and the shutdown never ends.
-/

set_option autoImplicit false

namespace Deadpool.Remote.Client

open Deadpool.Py Deadpool.Lts

/-! ## Holders -/

def Receiver.slots : Receiver → Nat
  | .holding _ => 1
  | _ => 0

def Lane.slots : Lane → Nat
  | .idle => 0
  | _ => 1

def LossStage.slots : LossStage → Nat
  | .holding _ _ => 1
  | _ => 0

def Lifecycle.slots : Lifecycle → Nat
  | .draining taken | .releasing taken => taken
  | _ => 0

section Slots

variable {V X : Type} {cfg : Config V X}

namespace State

variable {s s' : State V X}

def lossSlots (s : State V X) : Nat := (s.loss.map fun loss => loss.stage.slots).getD 0

/-- The slots that are held. -/
def held (s : State V X) : Nat :=
  s.receiver.slots + s.lossSlots + s.work.length + s.lane.slots + s.lifecycle.slots

/-- The thread is in the loop of `_connection_lost`. -/
def Loses (s : State V X) : Thread → Prop
  | .sender => s.sender = .losing
  | .receiver => ∃ again, s.receiver = .losing again
  | .lane => ∃ f, s.lane = .losing f

/-- The transport has failed while a loss is being handled, and its thread is there. -/
structure Engaged (s : State V X) : Prop where
  failed : s.rpc.transportFailed = true → s.rpc.socket = false
  lost : ∀ loss, s.loss = some loss → s.rpc.transportFailed = true
  thread : ∀ loss, s.loss = some loss → s.Loses loss.owner

theorem Engaged.init : Engaged (client cfg).init where
  failed h := by cases h
  lost _ h := by cases h
  thread _ h := by cases h

/-- The loss stays with its thread. -/
theorem Engaged.frame (h : s.Engaged)
    (hloss : s'.loss.map Failing.owner = s.loss.map Failing.owner)
    (hfailed : s'.rpc.transportFailed = s.rpc.transportFailed)
    (hsocket : s.rpc.socket = false → s'.rpc.socket = false)
    (hsender : s.sender = .losing → s'.sender = .losing)
    (hreceiver : ∀ again, s.receiver = .losing again → s'.receiver = .losing again)
    (hlane : ∀ f, s.lane = .losing f → s'.lane = .losing f) : s'.Engaged := by
  have hback : ∀ loss', s'.loss = some loss' → ∃ loss, s.loss = some loss ∧ loss.owner = loss'.owner := by
    intro loss' hl
    rw [hl] at hloss
    exact Option.map_eq_some_iff.mp hloss.symm
  refine ⟨fun hf => hsocket (h.failed (hfailed ▸ hf)), fun loss' hl => ?_, fun loss' hl => ?_⟩
  · obtain ⟨loss, hloss, -⟩ := hback loss' hl
    exact hfailed.trans (h.lost loss hloss)
  · obtain ⟨loss, hloss, howner⟩ := hback loss' hl
    have hthread := h.thread loss hloss
    rw [howner] at hthread
    cases ho : loss'.owner with
    | sender =>
      rw [ho] at hthread
      exact hsender hthread
    | receiver =>
      rw [ho] at hthread
      obtain ⟨again, hr⟩ := hthread
      exact ⟨again, hreceiver again hr⟩
    | lane =>
      rw [ho] at hthread
      obtain ⟨f, hl⟩ := hthread
      exact ⟨f, hlane f hl⟩

/-- The loop of `_connection_lost` is over. -/
theorem Engaged.over (h : s.Engaged) (hloss : s'.loss = none) (hrpc : s'.rpc = s.rpc) : s'.Engaged := by
  refine ⟨fun hf => ?_, fun loss hl => ?_, fun loss hl => ?_⟩
  · rw [hrpc] at hf ⊢
    exact h.failed hf
  · rw [hloss] at hl
    cases hl
  · rw [hloss] at hl
    cases hl

theorem afterLoss_rest (s : State V X) (owner : Thread) :
    (s.afterLoss owner).loss = s.loss ∧ (s.afterLoss owner).rpc = s.rpc := by
  unfold State.afterLoss
  cases owner with
  | sender => exact ⟨rfl, rfl⟩
  | receiver | lane =>
    dsimp only
    split <;> exact ⟨rfl, rfl⟩

/-- A control request changes neither the socket nor the flag. -/
theorem Engaged.rpc {l : RpcLabel Str} {rpc : RpcState Str} (h : s.Engaged)
    (hrpc : Client.rpcStep s.rpc l = some rpc) (hlose : ∀ e, l ≠ .lose e) (hclose : l ≠ .closeSocket) :
    Engaged { s with rpc } := by
  obtain ⟨hfailed, hsocket⟩ := rpc_flags hrpc hlose hclose
  exact h.frame rfl hfailed hsocket.trans id (fun _ => id) fun _ => id

/-- The block of `_connection_lost`. -/
theorem Engaged.losing {owner : Thread} {text : Str} (hfailed : s.rpc.transportFailed = false)
    (hloss : s'.loss = (s.losing owner text).loss) (hrpc : s'.rpc = (s.losing owner text).rpc)
    (hthread : s'.Loses owner) : s'.Engaged := by
  have hrpc' : s'.rpc.transportFailed = true ∧ s'.rpc.socket = false := by
    rw [hrpc]
    unfold State.losing RpcState.lose
    rw [hfailed]
    exact ⟨rfl, rfl⟩
  refine ⟨fun _ => hrpc'.2, fun _ _ => hrpc'.1, fun loss hl => ?_⟩
  rw [hloss] at hl
  cases hl
  exact hthread

theorem settle_rest (s : State V X) (call : RpcCall Str) : (s.settle call).loss = s.loss ∧
    (s.settle call).rpc = s.rpc ∧ (s.settle call).sender = s.sender ∧
    (s.settle call).receiver = s.receiver ∧ (s.settle call).lane = s.lane ∧
    (s.settle call).slots = s.slots ∧ (s.settle call).work = s.work ∧
    (s.settle call).lifecycle = s.lifecycle := by
  unfold State.settle
  split
  · split <;> exact ⟨rfl, rfl, rfl, rfl, rfl, rfl, rfl, rfl⟩
  · exact ⟨rfl, rfl, rfl, rfl, rfl, rfl, rfl, rfl⟩

/-- **The thread that is in `_connection_lost` stays there until the loop is over.** -/
theorem Engaged.move (h : s.Engaged) (hm : Move cfg s s') : s'.Engaged := by
  -- a thread that is somewhere else
  have hsender : ∀ {p : Sender}, s.sender = p → p ≠ .losing → ∀ {q : Sender}, s.sender = .losing →
      q = .losing := fun hp hne _ hl => absurd (hp.symm.trans hl) hne
  have hreceiver : ∀ {p : Receiver}, s.receiver = p → (∀ again, p ≠ .losing again) →
      ∀ {q : Receiver} again, s.receiver = .losing again → q = .losing again :=
    fun hp hne _ again hl => absurd (hp.symm.trans hl) (hne again)
  have hlane : ∀ {p : Lane}, s.lane = p → (∀ f, p ≠ .losing f) → ∀ {q : Lane} f, s.lane = .losing f →
      q = .losing f := fun hp hne _ f hl => absurd (hp.symm.trans hl) (hne f)
  cases hm with
  | call _ hrpc => exact h.rpc hrpc nofun nofun
  | enqueue _ hrpc => exact (h.rpc hrpc nofun nofun).frame rfl rfl id id (fun _ => id) fun _ => id
  | wait hl hrpc =>
    refine h.rpc hrpc ?_ ?_
    · rintro e rfl
      simp at hl
    · rintro rfl
      simp at hl
  | finish _ hrpc =>
    have hbase := h.rpc hrpc nofun nofun
    rename_i i call rpc _
    obtain ⟨hloss, hrpc', hsnd, hrcv, hln, -⟩ := settle_rest { s with rpc } call
    refine hbase.frame ?_ ?_ ?_ ?_ ?_ ?_
    · rw [hloss]
    · rw [hrpc']
    · rw [hrpc']
      exact id
    · rw [hsnd]
      exact id
    · rw [hrcv]
      exact fun _ => id
    · rw [hln]
      exact fun _ => id
  | sentinel hs | take hs =>
    exact h.frame rfl rfl id (hsender hs nofun) (fun _ => id) fun _ => id
  | markPlain hs | skip hs | mark hs | skipped hs | begin hs | unplugged hs | sent hs | unsent hs =>
    exact h.frame rfl rfl id (hsender hs nofun) (fun _ => id) fun _ => id
  | read hr | leave hr | receive hr | unread hr | look hr | progress hr | rejected hr | terminal hr
  | closing hr | ignore hr | acquire hr | schedule hr =>
    exact h.frame rfl rfl id id (hreceiver hr nofun) fun _ => id
  | respond hr =>
    obtain ⟨hfailed, hsocket⟩ := rpc_receive_flags s.rpc _
    exact h.frame rfl hfailed hsocket.trans id (hreceiver hr nofun) fun _ => id
  | signal hr hrpc =>
    exact (h.rpc hrpc nofun nofun).frame rfl rfl id id (hreceiver hr nofun) fun _ => id
  | start hl | accepted hl | running hl | complete hl | reject hl | fail hl | acknowledge hl
  | unacknowledged hl | forgetCompleted hl | forget hl | discard hl | release hl =>
    exact h.frame rfl rfl id id (fun _ => id) (hlane hl nofun)
  | lateSender _ hs => exact h.frame rfl rfl id (hsender hs nofun) (fun _ => id) fun _ => id
  | lateReceiver _ hr => exact h.frame rfl rfl id id (hreceiver hr nofun) fun _ => id
  | lateLane _ hl => exact h.frame rfl rfl id id (fun _ => id) (hlane hl nofun)
  | loseSender hf => exact .losing hf rfl rfl rfl
  | loseReceiver hf => exact .losing hf rfl rfl ⟨_, rfl⟩
  | loseLane hf => exact .losing hf rfl rfl ⟨_, rfl⟩
  | signalLost _ _ hl hrpc =>
    rcases hl with rfl | rfl
    · exact h.rpc hrpc nofun nofun
    · exact h.rpc hrpc nofun nofun
  | lossOver hloss =>
    obtain ⟨hnone, hrpc⟩ := afterLoss_rest { s with loss := none } _
    exact h.over hnone hrpc
  | signalled hl | next hl | settled hl | pending hl | decide hl | acquireLost hl | scheduleLost hl =>
    exact h.frame (by rw [hl]; rfl) rfl id id (fun _ => id) fun _ => id
  | unplug => exact h.frame rfl rfl (fun _ => rfl) id (fun _ => id) fun _ => id
  | _ => exact h.frame rfl rfl id id (fun _ => id) fun _ => id

/-- `shutdown` has not begun. -/
def Launched (s : State V X) : Prop := s.closed = false ↔ s.lifecycle = .serving

theorem Launched.frame (h : s.Launched) (hclosed : s'.closed = s.closed)
    (hlifecycle : s'.lifecycle = s.lifecycle) : s'.Launched := by
  unfold State.Launched at *
  rw [hclosed, hlifecycle]
  exact h

/-- The shutdown goes on. -/
theorem Launched.next {p : Lifecycle} (h : s.Launched) (hold : s.lifecycle = p) (hp : p ≠ .serving)
    (hclosed : s'.closed = s.closed) (hnew : s'.lifecycle ≠ .serving) : s'.Launched := by
  have hshut : s.closed ≠ false := fun hc => hp (hold ▸ h.mp hc)
  exact ⟨fun hc => absurd (hclosed ▸ hc) hshut, fun hs => absurd hs hnew⟩

theorem Launched.move (h : s.Launched) (hm : Move cfg s s') : s'.Launched := by
  cases hm with
  | finish =>
    unfold State.settle
    split
    · split <;> exact h.frame rfl rfl
    · exact h.frame rfl rfl
  | @lossOver loss =>
    unfold State.afterLoss
    cases loss.owner with
    | sender => exact h.frame rfl rfl
    | receiver | lane =>
      dsimp only
      split <;> exact h.frame rfl rfl
  | shutdown => exact ⟨nofun, nofun⟩
  | drained hl | stopSender hl | unplug hl | drain hl | emptied hl | giveBack hl | finished hl =>
    exact h.next hl nofun rfl nofun
  | _ => exact h.frame rfl rfl

/-! ## The balance -/

theorem balance_frame {n : Nat} (h : s.slots + s.held = n) (hslots : s'.slots = s.slots)
    (hreceiver : s'.receiver.slots = s.receiver.slots) (hloss : s'.lossSlots = s.lossSlots)
    (hwork : s'.work.length = s.work.length) (hlane : s'.lane.slots = s.lane.slots)
    (hlifecycle : s'.lifecycle.slots = s.lifecycle.slots) : s'.slots + s'.held = n := by
  unfold State.held at *
  rw [hslots, hreceiver, hloss, hwork, hlane, hlifecycle]
  exact h

theorem balance_loss {n : Nat} {loss next : Failing} (h : s.slots + s.held = n)
    (hl : s.loss = some loss) (hstage : next.stage.slots = loss.stage.slots) :
    State.slots { s with loss := some next } + State.held { s with loss := some next } = n := by
  refine balance_frame h rfl rfl ?_ rfl rfl rfl
  unfold State.lossSlots
  rw [hl]
  exact hstage

theorem balance_sum {n : Nat} (h : s.slots + s.held = n)
    (hsum : s'.slots + (s'.receiver.slots + s'.lossSlots + s'.work.length + s'.lane.slots +
        s'.lifecycle.slots) =
      s.slots + (s.receiver.slots + s.lossSlots + s.work.length + s.lane.slots + s.lifecycle.slots)) :
    s'.slots + s'.held = n := hsum.trans h

/-- A thread begins the loop of `_connection_lost`. -/
theorem Engaged.lossSlots (h : s.Engaged) (hf : s.rpc.transportFailed = false) : s.lossSlots = 0 := by
  unfold State.lossSlots
  cases hl : s.loss with
  | none => rfl
  | some loss =>
    rw [h.lost loss hl] at hf
    cases hf

/-- A thread ends it. -/
theorem balance_over {n : Nat} {loss : Failing} (h : s.slots + s.held = n) (he : s.Engaged)
    (hl : s.loss = some loss) (hstage : loss.stage = .next) :
    (State.afterLoss { s with loss := none } loss.owner).slots +
      (State.afterLoss { s with loss := none } loss.owner).held = n := by
  have hloss : s.lossSlots = 0 := by
    unfold State.lossSlots
    rw [hl]
    show loss.stage.slots = 0
    rw [hstage]
    rfl
  have hthread := he.thread loss hl
  cases howner : loss.owner with
  | sender => exact balance_frame h rfl rfl hloss.symm rfl rfl rfl
  | receiver =>
    rw [howner] at hthread
    obtain ⟨again, hr⟩ := hthread
    unfold State.afterLoss
    dsimp only
    rw [hr]
    cases again with
    | true | false => exact balance_frame h rfl (by rw [hr]; rfl) hloss.symm rfl rfl rfl
  | lane =>
    rw [howner] at hthread
    obtain ⟨f, hf⟩ := hthread
    unfold State.afterLoss
    dsimp only
    rw [hf]
    exact balance_frame h rfl rfl hloss.symm rfl (by rw [hf]; rfl) rfl

/-- **A change of the client moves slots from one holder to another.** -/
theorem balance_move {n : Nat} (h : s.slots + s.held = n) (he : s.Engaged) (hl : s.Launched)
    (hm : Move cfg s s') : s'.slots + s'.held = n := by
  have hframe := fun {t : State V X} => @balance_frame V X s t n h
  cases hm with
  | finish =>
    rename_i i call rpc _ _
    obtain ⟨hloss, -, -, hrcv, hln, hslots, hwork, hlife⟩ := settle_rest { s with rpc } call
    refine hframe hslots ?_ ?_ ?_ ?_ ?_
    · rw [hrcv]
    · unfold State.lossSlots
      rw [hloss]
    · rw [hwork]
    · rw [hln]
    · rw [hlife]
  | read hr | leave hr | receive hr | unread hr | look hr | progress hr | rejected hr | terminal hr
  | closing hr | ignore hr | signal hr =>
    exact hframe rfl (by rw [hr]; rfl) rfl rfl rfl rfl
  | respond hr _ _ hnext =>
    refine hframe rfl ?_ rfl rfl rfl rfl
    rw [hr]
    rcases hnext with rfl | rfl <;> rfl
  | acquire hr hslots =>
    have hreceiver : s.receiver.slots = 0 := by rw [hr]; rfl
    refine balance_sum h ?_
    show s.slots - 1 + (1 + s.lossSlots + s.work.length + s.lane.slots + s.lifecycle.slots) = _
    omega
  | @schedule job hr =>
    have hreceiver : s.receiver.slots = 1 := by rw [hr]; rfl
    have hwork : (s.work ++ [job]).length = s.work.length + 1 := by
      rw [List.length_append, List.length_singleton]
    refine balance_sum h ?_
    show s.slots + (0 + s.lossSlots + (s.work ++ [job]).length + s.lane.slots + s.lifecycle.slots) = _
    omega
  | @start job work hl hw =>
    have hlane : s.lane.slots = 0 := by rw [hl]; rfl
    have hwork : s.work.length = work.length + 1 := by rw [hw, List.length_cons]
    refine balance_sum h ?_
    show s.slots + (s.receiver.slots + s.lossSlots + work.length + 1 + s.lifecycle.slots) = _
    omega
  | accepted hl | running hl | complete hl | reject hl | fail hl | acknowledge hl
  | unacknowledged hl | forgetCompleted hl | forget hl | discard hl =>
    exact hframe rfl rfl rfl rfl (by rw [hl]; rfl) rfl
  | release hl =>
    have hlane : s.lane.slots = 1 := by rw [hl]; rfl
    refine balance_sum h ?_
    show s.slots + 1 + (s.receiver.slots + s.lossSlots + s.work.length + 0 + s.lifecycle.slots) = _
    omega
  | lateReceiver _ hr =>
    refine hframe rfl ?_ rfl rfl rfl rfl
    rw [hr]
    dsimp only
    split <;> rfl
  | lateLane _ hl => exact hframe rfl rfl rfl rfl (by rw [hl]; rfl) rfl
  | loseSender hf => exact hframe rfl rfl (he.lossSlots hf).symm rfl rfl rfl
  | loseReceiver hf hr => exact hframe rfl (by rw [hr]; rfl) (he.lossSlots hf).symm rfl rfl rfl
  | loseLane hf hl => exact hframe rfl rfl (he.lossSlots hf).symm rfl (by rw [hl]; rfl) rfl
  | lossOver hl hstage => exact balance_over h he hl hstage
  | signalled hl hstage => exact balance_loss h hl (by rw [hstage]; rfl)
  | next hl hstage => exact balance_loss h hl (by rw [hstage]; rfl)
  | settled hl hstage => exact balance_loss h hl (by rw [hstage]; rfl)
  | pending hl hstage => exact balance_loss h hl (by rw [hstage]; rfl)
  | decide hl hstage => exact balance_loss h hl (by rw [hstage]; rfl)
  | @acquireLost loss f error hl hstage hslots =>
    have hloss : s.lossSlots = 0 := by
      unfold State.lossSlots
      rw [hl]
      show loss.stage.slots = 0
      rw [hstage]
      rfl
    refine balance_sum h ?_
    show s.slots - 1 + (s.receiver.slots + 1 + s.work.length + s.lane.slots + s.lifecycle.slots) = _
    omega
  | @scheduleLost loss f error hl hstage =>
    have hloss : s.lossSlots = 1 := by
      unfold State.lossSlots
      rw [hl]
      show loss.stage.slots = 1
      rw [hstage]
      rfl
    have hwork : (s.work ++ [Job.fail f error]).length = s.work.length + 1 := by
      rw [List.length_append, List.length_singleton]
    refine balance_sum h ?_
    show s.slots + (s.receiver.slots + 0 + (s.work ++ [Job.fail f error]).length + s.lane.slots +
      s.lifecycle.slots) = _
    omega
  | shutdown hclosed =>
    have hlife : s.lifecycle.slots = 0 := by rw [hl.mp hclosed]; rfl
    exact hframe rfl rfl rfl rfl rfl hlife.symm
  | drained hl | stopSender hl | unplug hl | emptied hl | finished hl =>
    exact hframe rfl rfl rfl rfl rfl (by rw [hl]; rfl)
  | @drain taken hl _ hslots =>
    have hlife : s.lifecycle.slots = taken := by rw [hl]; rfl
    refine balance_sum h ?_
    show s.slots - 1 + (s.receiver.slots + s.lossSlots + s.work.length + s.lane.slots + (taken + 1)) = _
    omega
  | @giveBack taken hl =>
    have hlife : s.lifecycle.slots = taken + 1 := by rw [hl]; rfl
    refine balance_sum h ?_
    show s.slots + 1 + (s.receiver.slots + s.lossSlots + s.work.length + s.lane.slots + taken) = _
    omega
  | _ => exact hframe rfl rfl rfl rfl rfl rfl

/-! ## What a shutdown has waited for -/

/-- Past the wait of `_finish_shutdown`. -/
def past (s : State V X) : Bool :=
  match s.lifecycle with
  | .serving | .waiting _ => false
  | .closing | .unplugging | .draining _ | .releasing _ | .ended => true

/-- The futures in the table are among those that the shutdown waits for, and done after the wait. -/
structure Awaited (s : State V X) : Prop where
  waiting : ∀ futures, s.lifecycle = .waiting futures → ∀ f ∈ s.futures.values, f ∈ futures
  past : s.past = true → ∀ f ∈ s.futures.values, s.futureDone f = true

theorem Awaited.init : Awaited (client cfg).init := ⟨nofun, nofun⟩

/-- The shutdown stays where it is. -/
theorem Awaited.frame (h : s.Awaited) (hl : s.Launched) (ht : Touch cfg s s')
    (hlifecycle : s'.lifecycle = s.lifecycle) : s'.Awaited := by
  have hshut : s.lifecycle ≠ .serving → s.closed = true := fun hne =>
    Bool.not_eq_false _ ▸ fun hc => hne (hl.mp hc)
  refine ⟨fun futures hw f hf => ?_, fun hp f hf => ?_⟩
  · rw [hlifecycle] at hw
    exact h.waiting futures hw f (ht.values (hshut (by rw [hw]; exact nofun)) hf)
  · have hpast : s.past = true := by
      unfold State.past at hp ⊢
      rw [← hlifecycle]
      exact hp
    have hclosed : s.closed = true := hshut fun hs => by
      unfold State.past at hpast
      rw [hs] at hpast
      cases hpast
    exact ht.done (h.past hpast f (ht.values hclosed hf))

/-- The shutdown goes on after the wait. -/
theorem Awaited.next (h : s.Awaited) (hold : s.past = true) (hfutures : s'.futures = s.futures)
    (hhandles : s'.handles = s.handles) (hnew : ∀ futures, s'.lifecycle ≠ .waiting futures) :
    s'.Awaited := by
  refine ⟨fun futures hw => absurd hw (hnew futures), fun _ f hf => ?_⟩
  rw [hfutures] at hf
  unfold State.futureDone
  rw [hhandles]
  exact h.past hold f hf

theorem lifecycle_past {p : Lifecycle} (hl : s.lifecycle = p) (hserving : p ≠ .serving)
    (hwaiting : ∀ futures, p ≠ .waiting futures) : s.past = true := by
  unfold State.past
  rw [hl]
  cases p with
  | serving => exact absurd rfl hserving
  | waiting futures => exact absurd rfl (hwaiting futures)
  | _ => rfl

theorem Awaited.move (h : s.Awaited) (hl : s.Launched) (hm : Move cfg s s') : s'.Awaited := by
  have ht := move_touch hm
  cases hm with
  | finish => exact h.frame hl ht (settle_rest _ _).2.2.2.2.2.2.2
  | @lossOver loss =>
    refine h.frame hl ht ?_
    unfold State.afterLoss
    cases loss.owner with
    | sender => rfl
    | receiver | lane =>
      dsimp only
      split <;> rfl
  | shutdown =>
    refine ⟨fun futures hw f hf => ?_, nofun⟩
    cases hw
    exact hf
  | drained hw hdone =>
    refine ⟨nofun, fun _ f hf => ?_⟩
    exact List.all_eq_true.mp hdone f (h.waiting _ hw f hf)
  | stopSender hp | unplug hp | drain hp | emptied hp | giveBack hp | finished hp =>
    exact h.next (lifecycle_past hp nofun nofun) rfl rfl nofun
  | _ => exact h.frame hl ht rfl

/-! ## After the drain -/

/-- The loss needs no more slots. -/
def Calmed (s : State V X) (loss : Failing) : Prop :=
  (∀ f ∈ loss.rest, s.futureDone f = true) ∧
    match loss.stage with
    | .signals | .next => True
    | .looked f _ => s.futureDone f = true
    | .deciding _ | .scheduling _ _ | .holding _ _ => False

def drainOver (s : State V X) : Bool :=
  match s.lifecycle with
  | .releasing _ | .ended => true
  | _ => false

/-- After the drain a loss in the lane finds every future done. -/
def Settled (s : State V X) : Prop :=
  s.drainOver = true → ∀ loss, s.loss = some loss → loss.owner = .lane → s.Calmed loss

theorem Settled.init : Settled (client cfg).init := nofun

theorem Settled.frame (h : s.Settled) (ht : Touch cfg s s') (hloss : s'.loss = s.loss)
    (hover : s'.drainOver = true → s.drainOver = true) : s'.Settled := by
  intro hd loss hl howner
  obtain ⟨hrest, hstage⟩ := h (hover hd) loss (hloss ▸ hl) howner
  refine ⟨fun f hf => ht.done (hrest f hf), ?_⟩
  cases hs : loss.stage with
  | looked f terminalReceived =>
    rw [hs] at hstage
    exact ht.done hstage
  | signals | next => trivial
  | deciding | scheduling | holding =>
    rw [hs] at hstage
    exact hstage

/-- Another stage of the same loss. -/
theorem Settled.goto {loss next : Failing} (h : s.Settled) (hl : s.loss = some loss)
    (hloss : s'.loss = some next) (howner : next.owner = loss.owner)
    (hhandles : s'.handles = s.handles) (hlifecycle : s'.lifecycle = s.lifecycle)
    (hcalm : s.Calmed loss → s.Calmed next) : s'.Settled := by
  intro hd loss' hl' howner'
  have hover : s.drainOver = true := by
    unfold State.drainOver at hd ⊢
    rw [← hlifecycle]
    exact hd
  rw [hloss] at hl'
  cases hl'
  have hnext := hcalm (h hover loss hl (howner ▸ howner'))
  unfold State.Calmed State.futureDone at hnext ⊢
  rw [hhandles]
  exact hnext

/-- The thread that loses the connection is not the lane, or every future is done. -/
theorem Settled.losing {owner : Thread} {text : Str} (hpast : s.Awaited)
    (hloss : s'.loss = (s.losing owner text).loss) (hhandles : s'.handles = s.handles)
    (hlifecycle : s'.lifecycle = s.lifecycle) : s'.Settled := by
  intro hd loss hl _
  have hp : s.past = true := by
    unfold State.drainOver at hd
    rw [hlifecycle] at hd
    unfold State.past
    split at hd
    · rename_i hr
      rw [hr]
    · rename_i he
      rw [he]
    · cases hd
  rw [hloss] at hl
  cases hl
  refine ⟨fun f hf => ?_, trivial⟩
  unfold State.futureDone
  rw [hhandles]
  exact hpast.past hp f hf

theorem Settled.move {n : Nat} (h : s.Settled) (he : s.Engaged) (hp : s.Awaited)
    (hn : n = cfg.limits.inboundQueueSize) (hbalance : s.slots + s.held = n) (hm : Move cfg s s') :
    s'.Settled := by
  have ht := move_touch hm
  cases hm with
  | finish =>
    obtain ⟨hloss, -, -, -, -, -, -, hlife⟩ := settle_rest { s with rpc := _ } _
    exact h.frame ht hloss fun hd => by
      unfold State.drainOver at hd ⊢
      rw [hlife] at hd
      exact hd
  | lossOver =>
    intro _ loss hl
    rw [(afterLoss_rest _ _).1] at hl
    cases hl
  | loseSender | loseReceiver | loseLane => exact .losing hp rfl rfl rfl
  | signalled hl hs => exact h.goto hl rfl rfl rfl rfl fun hc => ⟨hc.1, trivial⟩
  | next hl hs hrest =>
    refine h.goto hl rfl rfl rfl rfl fun hc => ?_
    rw [Calmed, hrest] at hc
    exact ⟨fun g hg => hc.1 g (List.mem_cons_of_mem _ hg), hc.1 _ List.mem_cons_self⟩
  | settled hl hs => exact h.goto hl rfl rfl rfl rfl fun hc => ⟨hc.1, trivial⟩
  | pending hl hs hdone =>
    refine h.goto hl rfl rfl rfl rfl fun hc => ?_
    rw [Calmed, hs] at hc
    rw [hc.2] at hdone
    cases hdone
  | decide hl hs | acquireLost hl hs | scheduleLost hl hs =>
    refine h.goto hl rfl rfl rfl rfl fun hc => ?_
    rw [Calmed, hs] at hc
    exact hc.2.elim
  | emptied hd =>
    -- the drain holds every slot, so that the lane holds none
    intro _ loss hl howner
    have hthread := he.thread loss hl
    rw [howner] at hthread
    obtain ⟨f, hf⟩ := hthread
    unfold State.held at hbalance
    rw [hd, hf, hn] at hbalance
    simp only [Lane.slots, Lifecycle.slots] at hbalance
    omega
  | drained | stopSender | unplug | drain => exact fun hd => by cases hd
  | shutdown => exact fun hd => by cases hd
  | giveBack hd => exact h.frame ht rfl fun _ => by unfold State.drainOver; rw [hd]
  | finished hd => exact h.frame ht rfl fun _ => by unfold State.drainOver; rw [hd]
  | _ => exact h.frame ht rfl id

/-! ## Every reachable state -/

/-- What is known of the slots in every state. -/
structure Accounted (cfg : Config V X) (s : State V X) : Prop where
  engaged : s.Engaged
  launched : s.Launched
  balance : s.slots + s.held = cfg.limits.inboundQueueSize
  awaited : s.Awaited
  settled : s.Settled

theorem Accounted.init : (client cfg).init.Accounted cfg where
  engaged := .init
  launched := ⟨fun _ => rfl, fun _ => rfl⟩
  balance := rfl
  awaited := .init
  settled := .init

theorem Accounted.move (h : s.Accounted cfg) (hm : Move cfg s s') : s'.Accounted cfg where
  engaged := h.engaged.move hm
  launched := h.launched.move hm
  balance := balance_move h.balance h.engaged h.launched hm
  awaited := h.awaited.move h.launched hm
  settled := h.settled.move h.engaged h.awaited rfl h.balance hm

theorem reachable_accounted (h : (client cfg).Reachable s) : s.Accounted cfg :=
  h.invariant .init fun _ _ _ _ hi _ hs => hi.move (step_move hs)

/-! ## A starved lane -/

/-- A starved lane stays where it is, and so does what it has to do. -/
structure StarvedIn (s s' : State V X) : Prop where
  starved : s'.Starved
  lane : s'.lane = s.lane
  work : s.work <+: s'.work

theorem Starved.stay (h : s.Starved) (hloss : s'.loss = s.loss) (hslots : s'.slots = s.slots)
    (hlane : s'.lane = s.lane) (hwork : s'.work = s.work) : StarvedIn s s' := by
  obtain ⟨loss, f, error, hl, howner, hstage, hzero⟩ := h
  refine ⟨⟨loss, f, error, hloss.trans hl, howner, hstage, hslots.trans hzero⟩, hlane, ?_⟩
  rw [hwork]

theorem Starved.drainOver (h : s.Starved) (hs : s.Settled) : s.drainOver = false := by
  obtain ⟨loss, f, error, hl, howner, hstage, -⟩ := h
  refine Bool.eq_false_iff.mpr fun hd => ?_
  have hcalm := (hs hd loss hl howner).2
  rw [hstage] at hcalm
  exact hcalm

theorem Starved.move (h : s.Starved) (ha : s.Accounted cfg) (hm : Move cfg s s') : StarvedIn s s' := by
  have hover := h.drainOver ha.settled
  have hstay := fun {t : State V X} => @Starved.stay V X s t h
  obtain ⟨loss, f, error, hl, howner, hstage, hzero⟩ := h
  have hfailed := ha.engaged.lost loss hl
  have hthread := ha.engaged.thread loss hl
  rw [howner] at hthread
  obtain ⟨g, hlane⟩ := hthread
  -- a step of the loss starts from another stage
  have hother : ∀ {loss' : Failing}, s.loss = some loss' → loss'.stage = .scheduling f error := by
    intro loss' hl'
    cases hl.symm.trans hl'
    exact hstage
  cases hm with
  | finish =>
    obtain ⟨hloss, -, -, -, hln, hslots, hwork, -⟩ := settle_rest { s with rpc := _ } _
    exact hstay hloss hslots hln hwork
  | acquire _ hslots | acquireLost _ _ hslots | drain _ _ hslots => exact absurd hzero hslots
  | schedule =>
    exact ⟨⟨loss, f, error, hl, howner, hstage, hzero⟩, rfl, List.prefix_append _ _⟩
  | start hl' | accepted hl' | running hl' | complete hl' | reject hl' | fail hl' | acknowledge hl'
  | unacknowledged hl' | forgetCompleted hl' | forget hl' | discard hl' | release hl' =>
    cases hlane.symm.trans hl'
  | lateLane _ hl' => cases hlane.symm.trans hl'
  | loseSender hf | loseReceiver hf | loseLane hf => cases hfailed.symm.trans hf
  | lossOver hl' hs | signalled hl' hs | next hl' hs | settled hl' hs | pending hl' hs | decide hl' hs
  | scheduleLost hl' hs => cases (hother hl').symm.trans hs
  | giveBack hd =>
    unfold State.drainOver at hover
    rw [hd] at hover
    cases hover
  | _ => exact hstay rfl rfl rfl rfl

theorem StarvedIn.trans {s'' : State V X} (h : StarvedIn s s') (h' : StarvedIn s' s'') :
    StarvedIn s s'' :=
  ⟨h'.starved, h'.lane.trans h.lane, h.work.trans h'.work⟩

end State

/-! ## Results -/

variable {s t : State V X}

/-- **A drain that is complete leaves the lane idle with nothing to do, and every future that is still in
the table is done.** -/
theorem drained_lane (h : (client cfg).Reachable s)
    (hd : s.lifecycle = .draining cfg.limits.inboundQueueSize) :
    s.slots = 0 ∧ s.work = [] ∧ s.lane = .idle ∧ (∀ job, s.receiver ≠ .holding job) ∧
      (∀ loss f error, s.loss = some loss → loss.stage ≠ .holding f error) ∧
      ∀ f ∈ s.futures.values, s.futureDone f = true := by
  have ha := State.reachable_accounted h
  have hbalance := ha.balance
  unfold State.held at hbalance
  rw [hd] at hbalance
  simp only [Lifecycle.slots] at hbalance
  have hlane : s.lane = .idle := by
    cases hl : s.lane with
    | idle => rfl
    | _ =>
      rw [hl] at hbalance
      simp only [Lane.slots] at hbalance
      omega
  refine ⟨by omega, List.length_eq_zero_iff.mp (by omega), hlane, fun job hr => ?_,
    fun loss f error hl hs => ?_, ha.awaited.past (State.lifecycle_past hd nofun nofun)⟩
  · rw [hr] at hbalance
    simp only [Receiver.slots] at hbalance
    omega
  · have hloss : s.lossSlots = 1 := by
      unfold State.lossSlots
      rw [hl]
      show loss.stage.slots = 1
      rw [hs]
      rfl
    omega

/-- **A starved lane stays starved in every continuation: no completion is executed any more, and a
shutdown never ends.** -/
theorem starved_forever {ls : List (Label X)} (h : (client cfg).Reachable s) (hs : s.Starved)
    (hrun : (client cfg).run s ls = some t) :
    t.Starved ∧ t.lane = s.lane ∧ s.work <+: t.work ∧ t.lifecycle ≠ .ended := by
  have hin : State.StarvedIn s t := by
    induction ls generalizing s with
    | nil =>
      cases hrun
      exact ⟨hs, rfl, List.prefix_rfl⟩
    | cons l ls ih =>
      obtain ⟨u, hu, ht⟩ := Option.bind_eq_some_iff.mp hrun
      have hstep := hs.move (State.reachable_accounted h) (step_move hu)
      exact hstep.trans (ih (.step h trivial hu) hstep.starved ht)
  have hover := hin.starved.drainOver (State.reachable_accounted (h.of_run hrun)).settled
  refine ⟨hin.starved, hin.lane, hin.work, fun he => ?_⟩
  unfold State.drainOver at hover
  rw [he] at hover
  cases hover

end Slots

/-! ## Runs -/

/-- The slots that `_drain_semaphore` has taken. -/
def Lifecycle.taken : Lifecycle → Option Nat
  | .draining taken => some taken
  | _ => none

theorem Lifecycle.draining_of_taken {lifecycle : Lifecycle} {taken : Nat}
    (h : lifecycle.taken = some taken) : lifecycle = .draining taken := by
  cases lifecycle with
  | draining n =>
    cases h
    rfl
  | _ => cases h

/-- A request from the call to its result, and a shutdown up to the end of the drain. -/
def drainAfterOne : List (Label Unit) :=
  submitAndSend 0 ++
    [.receiver,
      .receive (.ok ⟨.result, requestControl (requestIdText (Hex.zeros 32).text 1), []⟩), .receiver,
      .receiver, .receiver, .receiver, .lane, .lane, .ack true, .lane, .lane, .lane,
      .sender, .sender, .sender, .sent none,
      .shutdown, .lifecycle true, .lifecycle true, .lifecycle true, .lifecycle true]

theorem drained_lane_drainAfterOne : ∃ s,
    (client (crampedClient 1)).run (client (crampedClient 1)).init drainAfterOne = some s ∧
      s.futureDone 0 = true ∧ s.lane = .idle := by
  have hrun : ((client (crampedClient 1)).run (client (crampedClient 1)).init drainAfterOne).map
      (fun s => (s.lifecycle.taken, s.futureDone 0)) = some (some 1, true) := by decide +kernel
  obtain ⟨s, hrun, hs⟩ := Option.map_eq_some_iff.mp hrun
  obtain ⟨htaken, hdone⟩ := Prod.mk.inj hs
  exact ⟨s, hrun, hdone, (drained_lane (System.reachable_of_run hrun)
    (Lifecycle.draining_of_taken htaken)).2.2.1⟩

/-- A shutdown begins after the lane is starved, and waits for the second request. -/
theorem starved_forever_acknowledgeLate : ∃ s t,
    (client (crampedClient 1)).run (client (crampedClient 1)).init acknowledgeLate = some s ∧
      (client (crampedClient 1)).run s [.shutdown, .submit .callable {}] = some t ∧ t.closed = true ∧
      t.Starved ∧ t.lifecycle ≠ .ended := by
  have hrun : (((client (crampedClient 1)).run (client (crampedClient 1)).init acknowledgeLate).bind
      fun s => s.loss.bind fun loss => match loss.stage with
        | .scheduling _ _ => some (decide (loss.owner = .lane), s.slots,
          ((client (crampedClient 1)).run s [.shutdown, .submit .callable {}]).map State.closed)
        | _ => none) = some (true, 0, some true) := by decide +kernel
  obtain ⟨s, hrun, hloss⟩ := Option.bind_eq_some_iff.mp hrun
  obtain ⟨loss, hloss, hstage⟩ := Option.bind_eq_some_iff.mp hloss
  cases hs : loss.stage with
  | scheduling f error =>
    rw [hs] at hstage
    obtain ⟨howner, hrest⟩ := Prod.mk.inj (Option.some.inj hstage)
    obtain ⟨hslots, hclosed⟩ := Prod.mk.inj hrest
    obtain ⟨t, ht, hclosed⟩ := Option.map_eq_some_iff.mp hclosed
    have hstarved : s.Starved := ⟨loss, f, error, hloss, of_decide_eq_true howner, hs, hslots⟩
    have hforever := starved_forever (System.reachable_of_run hrun) hstarved ht
    exact ⟨s, t, hrun, ht, hclosed, hforever.1, hforever.2.2.2⟩
  | signals | next | looked | deciding | holding =>
    rw [hs] at hstage
    cases hstage

end Deadpool.Remote.Client
