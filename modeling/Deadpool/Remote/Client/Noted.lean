import Deadpool.Remote.Client.Ends

/-!
# What the receiver has dealt with

While the connection holds, every terminal message that the receiver has dealt with is recorded for its
future, unless the future is done or its message was given up.  A future that is recorded never ends with
the error of a loss, and before the first loss no future does.

Principal results:

* `reachable_unscathed` : what is recorded does not end with the error of a loss;
* `Dealt.step`          : the receiver has dealt with all that was heard but the message in its hand.
-/

set_option autoImplicit false

namespace Deadpool.Remote.Client

open Deadpool.Py Deadpool.Lts

section Noted

variable {V X : Type} {cfg : Config V X} {s s' : State V X} {e e' : Endpoint V X}

/-! ## Losses -/

namespace State

/-- The future has ended with the error of a loss. -/
def Lost (s : State V X) (f : Nat) : Prop := ∃ handle error, s.handles[f]? = some handle ∧
  handle.future.base.exception = some (.remote error) ∧ error.kind.loses = true

/-- The error of a loss comes from its completion. -/
theorem Lost.back (hloads : ∀ payload error, cfg.runtime.loads payload ≠ .error (.remote error))
    (hmatch : s.Matching) (hm : Move cfg s s') {f : Nat} (h : s'.Lost f) :
    s.Lost f ∨ ∃ error, .fail f error ∈ s.jobs := by
  obtain ⟨handle', error, hf, herror, hloses⟩ := h
  rcases (move_acts hm).back hf with hnew | ⟨handle, hold, hsame | ⟨op, hsource, hop⟩⟩
  · rw [hnew] at herror
    cases herror
  · rw [hsame] at herror
    exact .inl ⟨handle, error, hold, herror, hloses⟩
  · rw [hop] at herror
    rcases (hmatch f handle hold).operate_base op with hsame | ⟨-, -, hleaves⟩
    · rw [hsame] at herror
      exact .inl ⟨handle, error, hold, herror, hloses⟩
    · rw [hleaves] at herror
      obtain ⟨task, hset⟩ := Operation.leaves_exception herror
      cases hsource with
      | withdrawn | decided | sent => cases hset
      | job job hl hfuture =>
        subst hfuture
        cases job with
        | accepted | running => cases hset
        | complete f m =>
          rw [(completion_error hloads hset).2.2] at hloses
          cases hloses
        | reject f control =>
          cases hset
          rw [rejection_loses] at hloses
          cases hloses
        | fail f error =>
          refine .inr ⟨error, State.mem_jobs.mpr (.inl ?_)⟩
          rw [hl]
          exact List.mem_cons_self

/-- What is recorded does not end with the error of a loss, and before the first loss nothing does. -/
structure Unscathed (s : State V X) : Prop where
  early : s.rpc.transportFailed = false → ∀ f, ¬ s.Lost f
  recorded : ∀ entry ∈ s.recorded, ¬ s.Lost entry.1

theorem Unscathed.init : (client cfg).init.Unscathed where
  early _ f h := by
    obtain ⟨handle, error, hf, -⟩ := h
    cases hf
  recorded _ h := absurd h List.not_mem_nil

theorem Unscathed.move (h : s.Unscathed)
    (hloads : ∀ payload error, cfg.runtime.loads payload ≠ .error (.remote error))
    (hr : s.Registered cfg) (hspared : s.Spared cfg) (hm : Move cfg s s') : s'.Unscathed := by
  have hopen : s.rpc.transportFailed = false → ∀ f, ¬ s'.Lost f := by
    intro hopen f hlost
    rcases hlost.back hloads hr.matching hm with hold | ⟨error, hjob⟩
    · exact h.early hopen f hold
    · exact hspared.early hopen f error hjob
  refine ⟨fun hopen' => hopen ?_, fun entry hentry hlost => ?_⟩
  · exact Bool.eq_false_iff.mpr fun hf => Bool.eq_false_iff.mp hopen' ((move_loss_stage hm).failed hf)
  · rcases recorded_back hm hentry with hold | ⟨hbefore, -⟩
    · rcases hlost.back hloads hr.matching hm with hlost | ⟨error, hjob⟩
      · exact h.recorded entry hold hlost
      · exact hspared.jobs entry hold error hjob
    · exact hopen hbefore entry.1 hlost

theorem reachable_unscathed
    (hloads : ∀ payload error, cfg.runtime.loads payload ≠ .error (.remote error))
    (h : (client cfg).Reachable s) : s.Unscathed :=
  h.invariant .init fun _ _ _ hreach hunscathed _ hs =>
    hunscathed.move hloads (reachable_registered hreach) (reachable_spared hreach) (step_move hs)

/-! ## Owners -/

theorem owners_registered (hm : Move cfg s s') : s'.handles.length = s.handles.length ∨
    s'.handles.length = s.handles.length + 1 ∧ 0 < s'.owners s.handles.length := by
  cases hm with
  | @register i call payload hcall hstage =>
    refine .inr ⟨List.length_append .., ?_⟩
    have hcount := owners_setSubmit ⟨call, hcall, hstage⟩
      (.registered s.handles.length (submitMessage cfg (s.sequence + 1) call.mode call.options payload))
      s.handles.length
    simp only [SubmitStage.future, reduceCtorEq, decide_false, decide_true, Bool.toNat_false,
      Bool.toNat_true] at hcount
    show 0 < (s.setSubmit i _).owners s.handles.length
    omega
  | finish =>
    left
    unfold State.settle
    split
    · split
      · exact List.length_modify ..
      · rfl
    · rfl
  | @lossOver loss =>
    left
    unfold State.afterLoss
    cases loss.owner with
    | sender => rfl
    | receiver | lane =>
      dsimp only
      split <;> rfl
  | cancel | mark | accepted | running | complete | reject | fail => exact .inl (List.length_modify ..)
  | _ => exact .inl rfl

/-- A submission leaves its future when it has given it up. -/
theorem owners_kept (hm : Move cfg s s') (f : Nat) :
    s.owners f ≤ s'.owners f ∨ ∃ i error, s.StageIs i (.abandoning f error) := by
  have hstage : ∀ {i : Nat} {stage stage' : SubmitStage X}, s.StageIs i stage →
      stage'.future = stage.future ∨ stage.future = none →
        s.owners f ≤ (s.setSubmit i stage').owners f := by
    intro i stage stage' h hnext
    have hcount := owners_setSubmit h stage' f
    rcases hnext with hnext | hnext
    · rw [hnext] at hcount
      omega
    · rw [hnext] at hcount
      have hzero : (decide ((none : Option Nat) = some f)).toNat = 0 := rfl
      omega
  cases hm with
  | submit =>
    left
    unfold State.owners
    dsimp only
    rw [countP_concat]
    exact Nat.le_add_right _ _
  | serialized h | unserialized h | refused h => exact .inl (hstage h (.inr rfl))
  | exhausted h => exact .inl (hstage h (.inr rfl))
  | register hcall hserialized => exact .inl (hstage ⟨_, hcall, hserialized⟩ (.inr rfl))
  | invalid h | checked h | timedOut h => exact .inl (hstage h (.inl rfl))
  | put h => exact .inl (hstage h (.inl rfl))
  | @abandon i g error h =>
    by_cases hg : g = f
    · subst hg
      exact .inr ⟨i, error, h⟩
    · left
      have hcount := owners_setSubmit h (.raised error) f
      simp only [SubmitStage.future, Option.some.injEq, hg, reduceCtorEq, decide_false,
        Bool.toNat_false, Nat.add_zero] at hcount
      exact Nat.le_of_eq hcount.symm
  | finish =>
    left
    unfold State.settle
    split
    · split <;> exact Nat.le_refl _
    · exact Nat.le_refl _
  | @lossOver loss =>
    left
    unfold State.afterLoss
    cases loss.owner with
    | sender => exact Nat.le_refl _
    | receiver | lane =>
      dsimp only
      split <;> exact Nat.le_refl _
  | _ => exact .inl (Nat.le_refl _)

theorem recorded_kept (hm : Move cfg s s') {entry : Nat × Message} (h : entry ∈ s.recorded) :
    entry ∈ s'.recorded := by
  cases hm with
  | finish =>
    unfold State.settle
    split
    · split <;> exact h
    · exact h
  | terminal =>
    simp only [State.terminated]
    split
    · exact h
    · exact List.mem_append_left _ h
  | @lossOver loss =>
    unfold State.afterLoss
    cases loss.owner with
    | sender => exact h
    | receiver | lane =>
      dsimp only
      split <;> exact h
  | _ => exact h

/-- A future belongs to a submission, or its message was given up. -/
def Owned (s : State V X) (wire : List Post) : Prop :=
  ∀ f, f < s.handles.length → 0 < s.owners f ∨ s.Dropped wire f

theorem Owned.move {wire : List Post} (h : s.Owned wire) (habandons : s.Abandons wire) (he : s.Engaged)
    (hm : Move cfg s s') : s'.Owned (wire ++ begins s s') := by
  intro f hf
  have hold : f < s.handles.length → 0 < s'.owners f ∨ s'.Dropped (wire ++ begins s s') f := by
    intro hf
    rcases h f hf with howned | hdropped
    · rcases owners_kept hm f with hle | ⟨i, error, hstage⟩
      · exact .inl (Nat.lt_of_lt_of_le howned hle)
      · exact .inr ((habandons i f error hstage).move he hm)
    · exact .inr (hdropped.move he hm)
  rcases owners_registered hm with hsame | ⟨hlength, hnew⟩
  · exact hold (hsame ▸ hf)
  · rcases Nat.lt_succ_iff_lt_or_eq.mp (hlength ▸ hf) with hlt | rfl
    · exact hold hlt
    · exact .inl hnew

end State

theorem reachable_owned (h : (endpoint cfg).Reachable e) : e.client.Owned e.wire := by
  have hinit : State.Owned (client cfg).init [] := fun f hf => absurd hf (Nat.not_lt_zero f)
  refine h.invariant (I := fun e => e.client.Owned e.wire) hinit ?_
  intro e l e' hreach howned _ hs
  obtain ⟨hclient, hwire, -⟩ := Endpoint.step_client hs
  rw [hwire]
  exact howned.move (reachable_abandons hreach)
    (State.reachable_registered (reachable_client hreach)).accounted.engaged (step_move hclient)

/-! ## Messages that the receiver has dealt with -/

/-- The message that the receiver is about to deal with. -/
def Receiver.inHand : Receiver → Option Message
  | .received m | .found m _ => some m
  | .top | .reading | .scheduling _ | .holding _ | .signalling | .failing _ _ | .losing _
  | .stopped => none

namespace State

/-- What a change does to the message in the hand of the receiver. -/
inductive Dealing (s s' : State V X) : Prop
  | same : s'.receiver = s.receiver → Dealing s s'
  | idle : s.receiver.inHand = none → s'.receiver.inHand = none → Dealing s s'
  | received (m : Message) : s.receiver = .reading → s'.receiver = .received m → Dealing s s'
  | found (m : Message) (future : Option Nat) : s.receiver = .received m → s'.receiver = .found m future →
      (∀ k, requestIdIn m = .str k → future = s.futures.get? k) → Dealing s s'
  | dealt (m : Message) (future : Option Nat) : s.receiver = .found m future →
      s'.receiver.inHand = none →
      (m.kind.terminal = true → s.rpc.transportFailed = false → ∀ f, future = some f →
        (f, m) ∈ s'.recorded) → Dealing s s'

theorem move_dealing (he : s.Engaged) (hm : Move cfg s s') : Dealing s s' := by
  have hcalm : ∀ {m : Message} {future : Option Nat}, s.receiver = .found m future →
      s'.receiver.inHand = none → (m.kind.terminal = true → future = none) → Dealing s s' := by
    intro m future hr hnone hkind
    refine .dealt m future hr hnone fun hterm _ f hf => ?_
    rw [hkind hterm] at hf
    cases hf
  have hterm : ∀ {m : Message} {P : Prop}, m.kind.terminal = false → m.kind.terminal = true → P := by
    intro m P hnot h
    rw [hnot] at h
    cases h
  cases hm with
  | finish => exact .same (settle_rest _ _).2.2.2.1
  | read hr | leave hr | unread hr | acquire hr | schedule hr | signal hr | loseReceiver _ hr =>
    exact .idle (by rw [hr]; rfl) rfl
  | lateReceiver _ hr =>
    refine .idle (by rw [hr]; rfl) ?_
    dsimp only
    split <;> rfl
  | receive hr => exact .received _ hr rfl
  | look hr _ hall => exact .found _ _ hr rfl hall
  | progress hr hkind =>
    refine hcalm hr rfl ?_
    rcases hkind with ⟨hkind, -⟩ | ⟨hkind, -⟩
    · exact hterm (by rw [hkind]; rfl)
    · exact hterm (by rw [hkind]; rfl)
  | rejected hr hkind => exact hcalm hr rfl (hterm (by rw [hkind]; rfl))
  | @terminal m f hr hkind =>
    refine .dealt m (some f) hr rfl fun _ hopen g hg => ?_
    cases hg
    simp only [State.terminated, hopen, Bool.false_eq_true, if_false]
    exact List.mem_append_right _ List.mem_cons_self
  | respond hr hkind _ hnext =>
    refine hcalm hr ?_ (hterm hkind)
    rcases hnext with rfl | rfl <;> rfl
  | closing hr hkind => exact hcalm hr rfl (hterm hkind)
  | ignore hr hkind => exact hcalm hr rfl fun h => hkind (.inl h)
  | @lossOver loss hl =>
    have hthread := he.thread loss hl
    unfold State.afterLoss
    cases howner : loss.owner with
    | receiver =>
      rw [howner] at hthread
      obtain ⟨again, hr⟩ := hthread
      refine .idle (by rw [hr]; rfl) ?_
      dsimp only
      rw [hr]
      cases again <;> rfl
    | sender => exact .same rfl
    | lane =>
      dsimp only
      split <;> exact .same rfl
  | _ => exact .same rfl

end State

/-- Nothing is heard unless the receiver has just received it. -/
theorem hears_nil (h : ∀ m, s'.receiver ≠ .received m) : hears s s' = [] := by
  unfold hears
  split
  · rename_i m _ hm
    exact absurd hm (h m)
  · rfl

theorem hears_same (h : s'.receiver = s.receiver) : hears s s' = [] := by
  unfold hears
  split
  · rename_i m hr hm
    rw [h, hr] at hm
    cases hm
  · rfl

theorem ne_received {r : Receiver} (h : r.inHand = none) (m : Message) : r ≠ .received m := by
  rintro rfl
  cases h

namespace Endpoint

/-! ## What was heard is noted -/

/-- The future is done, a terminal message is recorded for it, or its own message was given up. -/
def Noted (e : Endpoint V X) (f : Nat) : Prop :=
  e.client.futureDone f = true ∨ (∃ m, (f, m) ∈ e.client.recorded) ∨ e.client.Dropped e.wire f

theorem Noted.later {f : Nat} (h : e.Noted f) (ha : e.Advance cfg e') : e'.Noted f := by
  rcases h with hdone | ⟨m, hm⟩ | hdropped
  · exact .inl ((move_touch ha.move).done hdone)
  · exact .inr (.inl ⟨m, State.recorded_kept ha.move hm⟩)
  · refine .inr (.inr ?_)
    rw [ha.wire]
    exact hdropped.move ha.engaged ha.move

/-- A future that is not in the table is done, or its message was given up. -/
theorem noted_of_missing (howned : e.client.Owned e.wire) (hc : e.client.Covered cfg) {f : Nat}
    (hf : f < e.client.handles.length)
    (hmissing : e.client.futures.get? (e.client.idOf cfg f) ≠ some f) : e.Noted f := by
  rcases howned f hf with howner | hdropped
  · cases hdone : e.client.futureDone f with
    | true => exact .inl hdone
    | false => exact absurd (hc.listed f howner hdone) hmissing
  · exact .inr (.inr hdropped)

/-- The receiver has dealt with these messages, and with all that was heard but the one in its hand. -/
structure Dealt (cfg : Config V X) (e : Endpoint V X) (handed : List Message) : Prop where
  split : e.heard = handed ++ e.client.receiver.inHand.toList
  noted : ∀ m ∈ handed, m.kind.terminal = true → ∀ f, e.Told cfg f m → e.Noted f
  found : ∀ m future, e.client.receiver = .found m future → m.kind.terminal = true →
    ∀ f, e.Told cfg f m → future = some f ∨ e.Noted f

theorem Dealt.init : Dealt cfg (endpoint cfg).init [] where
  split := rfl
  noted _ h := absurd h List.not_mem_nil
  found _ _ h := by cases h

/-- **While the connection holds, a step of the client leaves nothing aside** that was heard, if no
message was heard about a future before the future was registered. -/
theorem Dealt.step {handed : List Message} (h : e.Dealt cfg handed)
    (hopen : e.client.rpc.transportFailed = false) (howned : e.client.Owned e.wire)
    (hc : e.client.Covered cfg) (ha : e.Advance cfg e')
    (hold : ∀ m ∈ e.heard, m.kind.terminal = true → ∀ f, e'.Told cfg f m → e.Told cfg f m) :
    ∃ handed', e'.Dealt cfg handed' := by
  have hpast : ∀ m ∈ handed, m.kind.terminal = true → ∀ f, e'.Told cfg f m → e'.Noted f := by
    intro m hm hkind f htold
    have hheard : m ∈ e.heard := by
      rw [h.split]
      exact List.mem_append_left _ hm
    exact (h.noted m hm hkind f (hold m hheard hkind f htold)).later ha
  have hhand : ∀ {m : Message}, e.client.receiver.inHand = some m → m ∈ e.heard := by
    intro m hm
    rw [h.split, hm]
    exact List.mem_append_right _ List.mem_cons_self
  cases State.move_dealing ha.engaged ha.move with
  | same hr =>
    refine ⟨handed, ?_, hpast, fun m future hfound hkind f htold => ?_⟩
    · rw [ha.heard, hears_same hr, List.append_nil, hr]
      exact h.split
    · rw [hr] at hfound
      have hheard := hhand (show e.client.receiver.inHand = some m by rw [hfound]; rfl)
      exact (h.found m future hfound hkind f (hold m hheard hkind f htold)).imp_right (·.later ha)
  | idle hnone hnone' =>
    refine ⟨handed, ?_, hpast, fun m future hfound => ?_⟩
    · rw [ha.heard, hears_nil (ne_received hnone'), List.append_nil, hnone', h.split, hnone]
    · rw [hfound] at hnone'
      cases hnone'
  | received m hr hr' =>
    refine ⟨handed, ?_, hpast, fun m' future hfound => ?_⟩
    · have hhears : hears e.client e'.client = [m] := by
        unfold hears
        rw [hr, hr']
      rw [ha.heard, hhears, h.split, hr, hr']
      simp only [Receiver.inHand, Option.toList_none, Option.toList_some, List.append_nil]
    · rw [hr'] at hfound
      cases hfound
  | found m future hr hr' hlook =>
    have hne : ∀ m', e'.client.receiver ≠ .received m' := by
      rw [hr']
      exact fun m' heq => by cases heq
    refine ⟨handed, ?_, hpast, fun m' future' hfound hkind f htold => ?_⟩
    · rw [ha.heard, hears_nil hne, List.append_nil, h.split, hr, hr']
      rfl
    · rw [hr'] at hfound
      cases hfound
      have hheard := hhand (show e.client.receiver.inHand = some m by rw [hr]; rfl)
      have hback := hold m hheard hkind f htold
      by_cases hlisted : e.client.futures.get? (e.client.idOf cfg f) = some f
      · exact .inl ((hlook _ hback.names).trans hlisted)
      · exact .inr ((noted_of_missing howned hc hback.known hlisted).later ha)
  | dealt m future hr hnone' hrecord =>
    refine ⟨handed ++ [m], ?_, fun m' hm' hkind f htold => ?_, fun m' future' hfound => ?_⟩
    · rw [ha.heard, hears_nil (ne_received hnone'), List.append_nil, hnone', h.split, hr]
      simp only [Receiver.inHand, Option.toList_none, Option.toList_some, List.append_nil]
    · rcases List.mem_append.mp hm' with hm' | hm'
      · exact hpast m' hm' hkind f htold
      · obtain rfl := List.mem_singleton.mp hm'
        have hheard := hhand (show e.client.receiver.inHand = some m' by rw [hr]; rfl)
        rcases h.found m' future hr hkind f (hold m' hheard hkind f htold) with hfuture | hnoted
        · exact .inr (.inl ⟨m', hrecord hkind hopen f hfuture⟩)
        · exact hnoted.later ha
    · rw [hfound] at hnone'
      cases hnone'

/-- What was heard before another message the receiver has dealt with. -/
theorem Dealt.mem_handed {handed before after : List Message} {m m' : Message} (h : e.Dealt cfg handed)
    (hheard : e.heard = before ++ m :: after) (hm' : m' ∈ before) : m' ∈ handed := by
  have hone : e.client.receiver.inHand.toList.length ≤ 1 := by
    cases e.client.receiver.inHand <;> simp
  have hlength := congrArg List.length (hheard.symm.trans h.split)
  simp only [List.length_append, List.length_cons] at hlength
  have hprefix : before <+: handed :=
    List.prefix_of_prefix_length_le ⟨_, hheard.symm⟩ ⟨_, h.split.symm⟩ (by omega)
  exact hprefix.subset hm'

end Endpoint

end Noted

end Deadpool.Remote.Client
