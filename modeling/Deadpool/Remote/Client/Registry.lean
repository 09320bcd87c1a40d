import Deadpool.Py.Number
import Deadpool.Remote.Client.Slots

/-!
# The table of futures, and the submissions on their way

The sequence numbers of the futures increase, so that a request ID belongs to one future, and the table
maps it to that future.  The message of a submission is in one place at a time: with the caller, in the
queue, with the sender, or sent.

Principal results:

* `submitted_once`       — a request ID is sent in one `SUBMIT` at most;
* `cancelled_never_sent` — what `cancel` has cancelled on the spot is never sent, before or after.
-/

set_option autoImplicit false

namespace Deadpool.Remote.Client

open Deadpool.Py Deadpool.Lts

/-! ## Texts of numbers -/

theorem natText_injective {m n : Nat} (h : natText m = natText n) : m = n := by
  have hdigits : (natDigits m).map IntChar.digit = (natDigits n).map IntChar.digit := by
    rw [← map_intChar_natText, ← map_intChar_natText, h]
  have hinjective : Function.Injective IntChar.digit := fun a b hab => by cases hab; rfl
  rw [← ofDigits_natDigits m, ← ofDigits_natDigits n, hinjective.list_map hdigits]

section Registry

variable {V X : Type} {cfg : Config V X}

theorem Config.requestId_injective {m n : Nat} (h : cfg.requestId m = cfg.requestId n) : m = n :=
  natText_injective (List.append_cancel_left h)

variable {s s' : State V X}

/-! ## Request IDs -/

namespace State

/-- The sequence numbers of the futures. -/
def numbers (s : State V X) : List Nat := s.handles.map Handle.number

theorem idOf_numbers (s : State V X) (f : Nat) : s.idOf cfg f = cfg.requestId (s.numbers[f]?.getD 0) := by
  unfold State.idOf State.numbers
  rw [List.getElem?_map]

theorem operate_numbers (s : State V X) (f : Nat) (op : Operation V (Failure X)) :
    (s.operate f op).numbers = s.numbers := by
  refine List.ext_getElem? fun g => ?_
  unfold State.numbers State.operate
  rw [List.getElem?_map, List.getElem?_map, List.getElem?_modify]
  cases s.handles[g]? with
  | none => rfl
  | some h =>
    dsimp only [Option.map_some, Option.map_eq_map]
    split <;> rfl

theorem length_numbers (s : State V X) : s.numbers.length = s.handles.length := List.length_map _

end State

theorem Touch.numbers (ht : Touch cfg s s') :
    s'.numbers = s.numbers ∨
      s'.numbers = s.numbers ++ [s.sequence + 1] ∧ s'.sequence = s.sequence + 1 ∧
        checkSequence (s.sequence + 1) = .ok () := by
  unfold State.numbers
  cases ht with
  | new _ _ hcheck hhandles _ hsequence =>
    refine .inr ⟨?_, hsequence, hcheck⟩
    rw [hhandles, List.map_append]
    rfl
  | same hhandles | forget _ hhandles => exact .inl (by rw [hhandles])
  | operate f op hhandles =>
    left
    rw [hhandles]
    exact State.operate_numbers s f op

/-- A future keeps its request ID. -/
theorem Touch.idOf (ht : Touch cfg s s') {f : Nat} (hf : f < s.handles.length) :
    s'.idOf cfg f = s.idOf cfg f := by
  rw [State.idOf_numbers, State.idOf_numbers]
  rcases ht.numbers with hsame | ⟨hnew, -, -⟩
  · rw [hsame]
  · rw [hnew, List.getElem?_append_left (by rw [State.length_numbers]; exact hf)]

theorem Touch.length (ht : Touch cfg s s') : s.handles.length ≤ s'.handles.length := by
  rw [← State.length_numbers, ← State.length_numbers]
  rcases ht.numbers with hsame | ⟨hnew, -, -⟩
  · rw [hsame]
  · rw [hnew, List.length_append]
    exact Nat.le_add_right _ _

namespace State

/-- The table of futures. -/
structure Catalog (cfg : Config V X) (s : State V X) : Prop where
  increasing : s.numbers.Pairwise (· < ·)
  bounds : ∀ n ∈ s.numbers, 0 < n ∧ n ≤ s.sequence ∧ checkSequence n = .ok ()
  keys : ∀ e ∈ s.futures, e.2 < s.handles.length ∧ e.1 = s.idOf cfg e.2
  nodup : s.futures.NodupKeys

theorem Catalog.init : (client cfg).init.Catalog cfg where
  increasing := .nil
  bounds := nofun
  keys := nofun
  nodup := List.nodup_nil

theorem idOf_lt (cfg : Config V X) {f : Nat} (hf : f < s.handles.length) :
    ∃ n, s.numbers[f]? = some n ∧ s.idOf cfg f = cfg.requestId n := by
  have hlt : f < s.numbers.length := by rw [length_numbers]; exact hf
  refine ⟨s.numbers[f], List.getElem?_eq_getElem hlt, ?_⟩
  rw [idOf_numbers, List.getElem?_eq_getElem hlt]
  rfl

/-- A request ID belongs to one future. -/
theorem Catalog.idOf_injective (h : s.Catalog cfg) {f g : Nat} (hf : f < s.handles.length)
    (hg : g < s.handles.length) (hid : s.idOf cfg f = s.idOf cfg g) : f = g := by
  obtain ⟨m, hm, hidf⟩ := idOf_lt cfg hf
  obtain ⟨n, hn, hidg⟩ := idOf_lt cfg hg
  have hmn : m = n := Config.requestId_injective (hidf.symm.trans (hid.trans hidg))
  subst hmn
  obtain ⟨hf', rfl⟩ := List.getElem?_eq_some_iff.mp hm
  obtain ⟨hg', hsame⟩ := List.getElem?_eq_some_iff.mp hn
  rcases Nat.lt_trichotomy f g with hlt | heq | hgt
  · have hless := List.pairwise_iff_getElem.mp h.increasing f g hf' hg' hlt
    omega
  · exact heq
  · have hless := List.pairwise_iff_getElem.mp h.increasing g f hg' hf' hgt
    omega

theorem move_sequence (hm : Move cfg s s') : s.sequence ≤ s'.sequence := by
  cases hm with
  | exhausted | register => exact Nat.le_succ _
  | finish =>
    unfold State.settle
    split
    · split <;> exact Nat.le_refl _
    · exact Nat.le_refl _
  | @lossOver loss =>
    unfold State.afterLoss
    cases loss.owner with
    | sender => exact Nat.le_refl _
    | receiver | lane =>
      dsimp only
      split <;> exact Nat.le_refl _
  | _ => exact Nat.le_refl _

theorem Catalog.move (h : s.Catalog cfg) (hm : Move cfg s s') : s'.Catalog cfg := by
  have ht := move_touch hm
  have hsequence := move_sequence hm
  have hold : ∀ n ∈ s.numbers, 0 < n ∧ n ≤ s'.sequence ∧ checkSequence n = .ok () := fun n hn =>
    ⟨(h.bounds n hn).1, (h.bounds n hn).2.1.trans hsequence, (h.bounds n hn).2.2⟩
  have hkeys : ∀ e ∈ s.futures, e.2 < s'.handles.length ∧ e.1 = s'.idOf cfg e.2 := fun e he =>
    ⟨(h.keys e he).1.trans_le ht.length, by rw [ht.idOf (h.keys e he).1]; exact (h.keys e he).2⟩
  refine ⟨?_, ?_, ?_, ?_⟩
  · rcases ht.numbers with hsame | ⟨hnew, -, -⟩
    · rw [hsame]
      exact h.increasing
    · rw [hnew]
      refine List.pairwise_append.mpr ⟨h.increasing, List.pairwise_singleton _ _, fun m hm n hn => ?_⟩
      rw [List.mem_singleton.mp hn]
      exact Nat.lt_succ_of_le (h.bounds m hm).2.1
  · rcases ht.numbers with hsame | ⟨hnew, hnext, hcheck⟩
    · rw [hsame]
      exact hold
    · rw [hnew]
      intro n hn
      rcases List.mem_append.mp hn with hn | hn
      · exact hold n hn
      · rw [List.mem_singleton.mp hn, hnext]
        exact ⟨Nat.succ_pos _, Nat.le_refl _, hcheck⟩
  · cases ht with
    | new _ _ _ hhandles hfutures =>
      intro e he
      rw [hfutures] at he
      rcases Table.mem_of_mem_set he with rfl | he
      · refine ⟨by rw [hhandles, List.length_append]; exact Nat.lt_succ_self _, ?_⟩
        unfold State.idOf
        rw [hhandles, getElem?_append_length]
        rfl
      · exact hkeys e he
    | same _ hfutures | operate _ _ _ hfutures =>
      rw [hfutures]
      exact hkeys
    | forget _ _ hfutures =>
      rw [hfutures]
      exact fun e he => hkeys e (Table.mem_pop.mp he).1
  · cases ht with
    | new _ _ _ _ hfutures =>
      rw [hfutures]
      exact h.nodup.set
    | same _ hfutures | operate _ _ _ hfutures =>
      rw [hfutures]
      exact h.nodup
    | forget _ _ hfutures =>
      rw [hfutures]
      exact h.nodup.pop

/-! ## Messages on their way -/

end State

/-- A message for the server, with the future it submits. -/
abbrev Post : Type := Message × Option Nat

/-- The message that a submission has still to put on the queue. -/
def SubmitStage.post : SubmitStage X → Option Post
  | .registered f m | .checked f m => some (m, some f)
  | .serializing | .serialized _ | .abandoning _ _ | .returned _ | .raised _ => none

def Item.post : Item → Option Post
  | .request m future => some (m, future)
  | .stop => none

def Sender.post : Sender → Option Post
  | .taken m future | .marked m future | .sending m future => some (m, future)
  | .idle | .skipping _ | .failing _ | .losing | .stopped => none

/-- The future that the sender has marked. -/
def Sender.begun : Sender → Option Nat
  | .marked _ future | .sending _ future => future
  | .idle | .taken _ _ | .skipping _ | .failing _ | .losing | .stopped => none

namespace State

/-- The number of messages with a property, wherever they are. -/
def posted (s : State V X) (p : Post → Bool) : Nat :=
  s.submissions.countP (fun call => call.stage.post.any p) +
    s.outbound.countP (fun item => item.post.any p) + (s.sender.post.any p).toNat + s.sent.countP p

/-- What a change does to the messages on their way. -/
inductive Posting (cfg : Config V X) (s s' : State V X) : Prop
  | kept : (∀ p, s'.posted p ≤ s.posted p) → Posting cfg s s'
  | registered (mode : Mode) (options : SubmissionOptions) (payload : Bytes) :
      s'.handles.length = s.handles.length + 1 → s'.numbers = s.numbers ++ [s.sequence + 1] →
      (∀ p, s'.posted p ≤ s.posted p +
        (p (submitMessage cfg (s.sequence + 1) mode options payload, some s.handles.length)).toNat) →
      Posting cfg s s'
  | control (m : Message) : ((∃ call ∈ s.rpc.calls, m = s.callMessage cfg call) ∨ m.kind = .resultAck) →
      (∀ p, s'.posted p ≤ s.posted p + (p (m, none)).toNat) → Posting cfg s s'

theorem posted_setSubmit {i : Nat} {stage : SubmitStage X} (h : s.StageIs i stage)
    (stage' : SubmitStage X) (p : Post → Bool) :
    (s.setSubmit i stage').posted p + (stage.post.any p).toNat =
      s.posted p + (stage'.post.any p).toNat := by
  obtain ⟨call, hcall, rfl⟩ := h
  have hcount := countP_modify_add (fun call : Submission X => call.stage.post.any p) hcall
    (f := fun call => { call with stage := stage' })
  unfold State.posted State.setSubmit
  dsimp only at hcount ⊢
  omega

/-- A submission goes on with the same message or without one. -/
theorem Posting.submission {i : Nat} {stage : SubmitStage X} (stage' : SubmitStage X)
    (h : s.StageIs i stage) (hposts : stage'.post = stage.post ∨ stage'.post = none)
    (hstate : ∀ p, s'.posted p = (s.setSubmit i stage').posted p) : Posting cfg s s' := by
  refine .kept fun p => ?_
  have hcount := posted_setSubmit h stage' p
  rw [hstate]
  rcases hposts with hsame | hnone
  · rw [hsame] at hcount
    omega
  · rw [hnone] at hcount
    have hzero : ((none : Option Post).any p).toNat = 0 := rfl
    omega

theorem posting_settle (s : State V X) (call : RpcCall Str) (p : Post → Bool) :
    (s.settle call).posted p = s.posted p := by
  unfold State.settle
  split
  · split <;> rfl
  · rfl

theorem posting_afterLoss (s : State V X) (owner : Thread) (hs : owner = .sender → s.sender = .losing)
    (p : Post → Bool) : (s.afterLoss owner).posted p = s.posted p := by
  unfold State.afterLoss
  cases owner with
  | sender =>
    unfold State.posted
    rw [hs rfl]
    rfl
  | receiver | lane =>
    dsimp only
    split <;> rfl

theorem preflight_post (s : State V X) (mode : Mode) (options : SubmissionOptions) :
    (s.preflight mode options).post = none := by
  unfold State.preflight
  split
  · rfl
  · split
    · rfl
    · split <;> rfl

theorem move_posting (he : s.Engaged) (hm : Move cfg s s') : Posting cfg s s' := by
  cases hm with
  | @submit mode options =>
    refine .kept fun p => ?_
    unfold State.posted
    dsimp only
    rw [countP_concat, preflight_post]
    exact Nat.le_refl _
  | serialized hstage | unserialized hstage | refused hstage | exhausted hstage | timedOut hstage =>
    exact .submission _ hstage (.inr rfl) fun _ => rfl
  | invalid hstage | abandon hstage => exact .submission _ hstage (.inr rfl) fun _ => rfl
  | @checked i f m hstage => exact .submission (.checked f m) hstage (.inl rfl) fun _ => rfl
  | @register i call payload hcall hserialized =>
    refine .registered call.mode call.options payload (List.length_append ..) (List.map_append ..)
      fun p => ?_
    have hcount := posted_setSubmit ⟨call, hcall, hserialized⟩
      (.registered s.handles.length
        (submitMessage cfg (s.sequence + 1) call.mode call.options payload)) p
    simp only [SubmitStage.post, Option.any_none, Option.any_some, Bool.toNat_false] at hcount
    exact Nat.le_of_eq hcount
  | @put i f m hstage =>
    refine .kept fun p => ?_
    have hcount := posted_setSubmit hstage (.returned f) p
    simp only [SubmitStage.post, Option.any_none, Option.any_some, Bool.toNat_false] at hcount
    unfold State.posted at hcount ⊢
    dsimp only [State.setSubmit] at hcount ⊢
    rw [countP_concat]
    simp only [Item.post, Option.any_some]
    omega
  | @enqueue i call rpc hcall =>
    refine .control _ (.inl ⟨call, List.mem_of_getElem? hcall, rfl⟩) fun p => ?_
    unfold State.posted
    dsimp only
    rw [countP_concat]
    simp only [Item.post, Option.any_some]
    omega
  | @acknowledge f =>
    refine .control (s.ackMessage cfg f) (.inr rfl) fun p => ?_
    unfold State.posted
    dsimp only
    rw [countP_concat]
    simp only [Item.post, Option.any_some]
    omega
  | finish => exact .kept fun p => Nat.le_of_eq (posting_settle _ _ p)
  | sentinel hs hout | take hs hout =>
    refine .kept fun p => ?_
    unfold State.posted
    rw [hs, hout, countP_head]
    simp only [Item.post, Sender.post, Option.any_none, Option.any_some, Bool.toNat_false]
    omega
  | markPlain hs | skip hs | mark hs | skipped hs | begin hs | unplugged hs | unsent hs | lateSender _ hs
  | loseSender _ hs =>
    refine .kept fun p => ?_
    unfold State.posted
    rw [hs]
    simp only [Sender.post, Option.any_none, Option.any_some, Bool.toNat_false, State.operate,
      State.forget, State.losing]
    omega
  | sent hs =>
    refine .kept fun p => ?_
    unfold State.posted
    dsimp only
    rw [hs, countP_concat]
    simp only [Sender.post, Option.any_none, Option.any_some, Bool.toNat_false]
    omega
  | lossOver hl =>
    refine .kept fun p => Nat.le_of_eq (posting_afterLoss _ _ (fun howner => ?_) p)
    have hthread := he.thread _ hl
    rw [howner] at hthread
    exact hthread
  | @stopSender outbound _ hout =>
    refine .kept fun p => ?_
    rcases hout with rfl | rfl
    · exact Nat.le_refl _
    · unfold State.posted
      dsimp only
      rw [countP_concat]
      exact Nat.le_refl _
  | _ => exact .kept fun _ => Nat.le_refl _

/-! ## Control requests are no submissions -/

end State

def RpcState.kinds (rpc : RpcState Str) : List RpcKind := rpc.calls.map RpcCall.kind

/-- What is asked of the server is not a submission. -/
def RpcKind.Plain : RpcKind → Prop
  | .request kind _ => kind ≠ .submit
  | .cancel _ _ => True

theorem kinds_modify {l : List (RpcCall Str)} {i : Nat} {f : RpcCall Str → RpcCall Str}
    (hf : ∀ call, (f call).kind = call.kind) : (l.modify i f).map RpcCall.kind = l.map RpcCall.kind := by
  refine List.ext_getElem? fun j => ?_
  rw [List.getElem?_map, List.getElem?_map, List.getElem?_modify]
  cases l[j]? with
  | none => rfl
  | some call =>
    simp only [Option.map_some, Option.map_eq_map]
    split
    · rw [hf]
    · rfl

theorem kinds_receive (rpc : RpcState Str) (m : Message) : (rpc.receive m).kinds = rpc.kinds := by
  unfold RpcState.receive
  split
  · rfl
  · split
    · rfl
    · exact kinds_modify fun _ => rfl

theorem kinds_lose (rpc : RpcState Str) (text : Str) : (rpc.lose text).kinds = rpc.kinds := by
  unfold RpcState.lose
  split
  · rfl
  · refine List.ext_getElem? fun j => ?_
    unfold RpcState.kinds
    rw [List.getElem?_map, List.getElem?_map, List.getElem?_mapIdx]
    cases rpc.calls[j]? with
    | none => rfl
    | some call =>
      dsimp only [Option.map_some]
      split <;> rfl

/-- A step adds a call, or leaves the calls as they are. -/
theorem kinds_step {rpc rpc' : RpcState Str} {l : RpcLabel Str} (h : rpcStep rpc l = some rpc') :
    rpc'.kinds = rpc.kinds ∨ ∃ kind token, l = .call kind token ∧ rpc'.kinds = rpc.kinds ++ [kind] := by
  cases l with
  | call kind token =>
    right
    simp only [rpcStep] at h
    split at h
    · cases h
    · cases h
      refine ⟨kind, token, rfl, ?_⟩
      unfold RpcState.register RpcState.kinds
      split <;> exact List.map_append ..
  | enqueue i ok =>
    simp only [rpcStep] at h
    split at h <;> cases h
    exact .inl (kinds_modify fun _ => rfl)
  | wake i | read i | finish i =>
    simp only [rpcStep] at h
    repeat' split at h
    all_goals cases h
    exact .inl (kinds_modify fun _ => rfl)
  | timeout i =>
    simp only [rpcStep] at h
    split at h <;> cases h
    exact .inl (kinds_modify fun _ => rfl)
  | receive m =>
    simp only [rpcStep] at h
    split at h
    · cases h
    · cases h
      exact .inl (kinds_receive rpc m.message)
  | lose text =>
    cases h
    exact .inl (kinds_lose rpc text)
  | signal | mark | wakeLost =>
    simp only [rpcStep] at h
    split at h <;> cases h
    exact .inl (kinds_modify fun _ => rfl)
  | closeSocket =>
    cases h
    exact .inl rfl

namespace State

theorem calls_plain {kind : RpcKind} (h : s.calls kind = true) : kind.Plain := by
  cases kind with
  | request kind control =>
    rintro rfl
    cases h
  | cancel => trivial

theorem move_kinds (hm : Move cfg s s') :
    s'.rpc.kinds = s.rpc.kinds ∨ ∃ kind, s.calls kind = true ∧ s'.rpc.kinds = s.rpc.kinds ++ [kind] := by
  have hstep : ∀ {rpc : RpcState Str} {l : RpcLabel Str}, Client.rpcStep s.rpc l = some rpc →
      (∀ kind token, l ≠ .call kind token) → rpc.kinds = s.rpc.kinds := by
    intro rpc l hrpc hl
    rcases kinds_step hrpc with hsame | ⟨kind, token, rfl, -⟩
    · exact hsame
    · exact absurd rfl (hl kind token)
  cases hm with
  | call hcalls hrpc =>
    rcases kinds_step hrpc with hsame | ⟨kind, token, hl, hnew⟩
    · exact .inl hsame
    · cases hl
      exact .inr ⟨_, hcalls, hnew⟩
  | enqueue _ hrpc => exact .inl (hstep hrpc nofun)
  | wait hl hrpc =>
    refine .inl (hstep hrpc fun kind token he => ?_)
    rw [he] at hl
    simp at hl
  | finish _ hrpc =>
    left
    rw [(settle_rest _ _).2.1]
    exact hstep hrpc nofun
  | respond => exact .inl (kinds_receive s.rpc _)
  | signal _ hrpc => exact .inl (hstep hrpc nofun)
  | loseSender | loseReceiver | loseLane => exact .inl (kinds_lose s.rpc _)
  | signalLost _ _ hl hrpc =>
    refine .inl (hstep hrpc fun kind token he => ?_)
    rw [he] at hl
    simp at hl
  | lossOver =>
    left
    rw [(afterLoss_rest _ _).2]
  | _ => exact .inl rfl

/-! ## One place for each message -/

/-- The message of a submission goes with its future, and no other message is a submission. -/
def Carries (cfg : Config V X) (s : State V X) : Post → Prop
  | (m, none) => m.kind ≠ .submit
  | (m, some f) => ∃ number mode options payload, s.numbers[f]? = some number ∧
      m = submitMessage cfg number mode options payload

theorem Carries.move {post : Post} (h : s.Carries cfg post) (hm : Move cfg s s') :
    s'.Carries cfg post := by
  obtain ⟨m, future⟩ := post
  cases future with
  | none => exact h
  | some f =>
    obtain ⟨number, mode, options, payload, hnumber, hmessage⟩ := h
    refine ⟨number, mode, options, payload, ?_, hmessage⟩
    rcases (move_touch hm).numbers with hsame | ⟨hnew, -, -⟩
    · rw [hsame, hnumber]
    · rw [hnew]
      exact getElem?_append_of_some hnumber

theorem callMessage_kind {call : RpcCall Str} (h : call.kind.Plain) :
    (s.callMessage cfg call).kind ≠ .submit := by
  unfold State.callMessage
  split
  · rename_i kind control hkind
    rw [hkind] at h
    exact h
  · exact nofun

/-- Whether a message is that of the future. -/
def isOf (f : Nat) (post : Post) : Bool := post.2 = some f

/-- The messages on their way to the server. -/
structure Posted (cfg : Config V X) (s : State V X) : Prop where
  plain : ∀ kind ∈ s.rpc.kinds, kind.Plain
  carries : ∀ p : Post → Bool, (∀ post, s.Carries cfg post → p post = false) → s.posted p = 0
  once : ∀ f, s.posted (isOf f) ≤ if f < s.handles.length then 1 else 0

theorem Posted.init : (client cfg).init.Posted cfg where
  plain := nofun
  carries _ _ := rfl
  once _ := Nat.zero_le _

/-- A message of a future is posted once, when the future is registered. -/
theorem posted_isOf (he : s.Engaged) (hm : Move cfg s s') (f : Nat) :
    s'.posted (isOf f) ≤ s.posted (isOf f) ∨
      s.handles.length = f ∧ s'.handles.length = f + 1 ∧
        s'.posted (isOf f) ≤ s.posted (isOf f) + 1 := by
  cases move_posting he hm with
  | kept hle => exact .inl (hle _)
  | registered mode options payload hnew _ hle =>
    have hcount := hle (isOf f)
    simp only [isOf, Option.some.injEq] at hcount
    by_cases hf : s.handles.length = f
    · simp only [hf, decide_true, Bool.toNat_true] at hcount
      exact .inr ⟨hf, by omega, hcount⟩
    · simp only [hf, decide_false, Bool.toNat_false, Nat.add_zero] at hcount
      exact .inl hcount
  | control m _ hle =>
    have hcount := hle (isOf f)
    exact .inl hcount

theorem Posted.move (h : s.Posted cfg) (he : s.Engaged) (hm : Move cfg s s') : s'.Posted cfg := by
  have hlength : s.handles.length ≤ s'.handles.length := (move_touch hm).length
  have hold : ∀ f, (if f < s.handles.length then 1 else 0) ≤ if f < s'.handles.length then 1 else 0 := by
    intro f
    split
    · rw [if_pos (by omega)]
    · exact Nat.zero_le _
  have hcarries : ∀ p : Post → Bool, (∀ post, s'.Carries cfg post → p post = false) → s.posted p = 0 :=
    fun p hp => h.carries p fun post hpost => hp post (hpost.move hm)
  refine ⟨?_, fun p hp => ?_, fun f => ?_⟩
  · rcases move_kinds hm with hsame | ⟨kind, hcalls, hnew⟩
    · rw [hsame]
      exact h.plain
    · rw [hnew]
      intro kind' hkind
      rcases List.mem_append.mp hkind with hkind | hkind
      · exact h.plain kind' hkind
      · rw [List.mem_singleton.mp hkind]
        exact calls_plain hcalls
  · have hbefore := hcarries p hp
    cases move_posting he hm with
    | kept hle => exact Nat.le_zero.mp ((hle p).trans (Nat.le_of_eq hbefore))
    | registered mode options payload _ hnumbers hle =>
      have hpost : s'.Carries cfg
          (submitMessage cfg (s.sequence + 1) mode options payload, some s.handles.length) := by
        refine ⟨s.sequence + 1, mode, options, payload, ?_, rfl⟩
        rw [hnumbers, ← length_numbers]
        exact getElem?_append_length
      have hafter := hle p
      rw [hbefore, hp _ hpost] at hafter
      exact Nat.le_zero.mp hafter
    | control m hkind hle =>
      have hpost : s'.Carries cfg (m, none) := by
        rcases hkind with ⟨call, hcall, rfl⟩ | hkind
        · exact callMessage_kind (h.plain _ (List.mem_map_of_mem hcall))
        · show m.kind ≠ .submit
          rw [hkind]
          exact nofun
      have hafter := hle p
      rw [hbefore, hp _ hpost] at hafter
      exact Nat.le_zero.mp hafter
  · have hbefore := h.once f
    rcases posted_isOf he hm f with hle | ⟨hf, hnew, hle⟩
    · exact (hle.trans hbefore).trans (hold f)
    · rw [if_neg (by omega)] at hbefore
      rw [if_pos (by omega)]
      omega

/-- What is found where messages are counted is a message of its future. -/
theorem Posted.carried (h : s.Posted cfg) {post : Post}
    (hpost : ∀ p : Post → Bool, p post = true → 0 < s.posted p) : s.Carries cfg post := by
  classical
  by_contra hnot
  let p : Post → Bool := fun post => decide (¬ s.Carries cfg post)
  have hzero := h.carries p fun post hc => by simpa [p] using hc
  have hpos := hpost p (by simpa [p] using hnot)
  omega

theorem Posted.sender (h : s.Posted cfg) {post : Post} (hs : s.sender.post = some post) :
    s.Carries cfg post := by
  refine h.carried fun p hp => ?_
  unfold State.posted
  rw [hs, Option.any_some, hp, Bool.toNat_true]
  omega

theorem Posted.sent (h : s.Posted cfg) {post : Post} (hs : post ∈ s.sent) : s.Carries cfg post := by
  refine h.carried fun p hp => ?_
  have hpos : 0 < s.sent.countP p := List.countP_pos_iff.mpr ⟨post, hs, hp⟩
  unfold State.posted
  omega

theorem Carries.lt {m : Message} {f : Nat} (h : s.Carries cfg (m, some f)) : f < s.handles.length := by
  obtain ⟨number, mode, options, payload, hnumber, -⟩ := h
  rw [← length_numbers]
  exact lt_of_getElem? hnumber

end State

/-- A future stays, or one operation happens to it. -/
theorem Touch.lookup (ht : Touch cfg s s') {f : Nat} {h : Handle V X} (hf : s.handles[f]? = some h) :
    ∃ h', s'.handles[f]? = some h' ∧
      (h'.future = h.future ∨ ∃ op, h'.future = (h.future.operate op).1) := by
  cases ht with
  | new _ _ _ hhandles => exact ⟨h, hhandles ▸ getElem?_append_of_some hf, .inl rfl⟩
  | same hhandles | forget _ hhandles => exact ⟨h, hhandles ▸ hf, .inl rfl⟩
  | operate g op hhandles =>
    refine ⟨_, (congrArg (·[f]?) hhandles).trans (getElem?_modify_of_some hf), ?_⟩
    split
    · exact .inr ⟨op, rfl⟩
    · exact .inl rfl

/-- A future of the next state is new, or it was there before. -/
theorem Touch.back (ht : Touch cfg s s') {f : Nat} {h' : Handle V X} (hf : s'.handles[f]? = some h') :
    h'.future = {} ∨ ∃ h, s.handles[f]? = some h ∧
      (h'.future = h.future ∨ ∃ op, h'.future = (h.future.operate op).1) := by
  cases ht with
  | new _ _ _ hhandles =>
    rw [hhandles] at hf
    rcases getElem?_append_some hf with hold | ⟨-, rfl⟩
    · exact .inr ⟨h', hold, .inl rfl⟩
    · exact .inl rfl
  | same hhandles | forget _ hhandles => exact .inr ⟨h', hhandles ▸ hf, .inl rfl⟩
  | operate g op hhandles =>
    rw [hhandles] at hf
    obtain ⟨h, hold, rfl⟩ := getElem?_modify_some hf
    refine .inr ⟨h, hold, ?_⟩
    split
    · exact .inr ⟨op, rfl⟩
    · exact .inl rfl

namespace RemoteFuture

variable {E : Type} {future : RemoteFuture V E}

/-- What cannot be cancelled on the spot never can be. -/
theorem operate_cancelsLocally (h : future.cancelsLocally = false) (op : Operation V E) :
    (future.operate op).1.cancelsLocally = false := by
  cases hdone : future.done with
  | true =>
    rw [operate_of_done hdone]
    exact h
  | false =>
    have hstate : future.submissionState ≠ .localPending := by
      unfold RemoteFuture.cancelsLocally at h
      simpa [hdone] using h
    unfold RemoteFuture.cancelsLocally
    cases op with
    | cancel =>
      simp only [RemoteFuture.operate, RemoteFuture.cancel, h, Bool.false_eq_true, if_false]
      exact h
    | setSent => simp [RemoteFuture.operate, RemoteFuture.setSent, hdone]
    | setAccepted => simp [RemoteFuture.operate, RemoteFuture.setAccepted, hdone]
    | setRunning => simp [RemoteFuture.operate, RemoteFuture.setRunning, hdone]
    | setResult => simp [RemoteFuture.operate, RemoteFuture.setResult, hdone]
    | setException error task =>
      cases task <;> simp [RemoteFuture.operate, RemoteFuture.setException, hdone]
    | setCancelled =>
      have hcancelled : ({ future with submissionState := .cancelled }
          : RemoteFuture V E).cancelAndNotifyWaiters.submissionState = .cancelled := by
        unfold RemoteFuture.cancelAndNotifyWaiters
        split <;> rfl
      simp only [RemoteFuture.operate, RemoteFuture.setCancelled, hdone, Bool.false_eq_true, if_false,
        hcancelled]
      simp

/-- `cancel` on the spot. -/
theorem operate_cancel (hm : future.Matches) (h : future.cancelsLocally = true) :
    (future.operate .cancel).1.done = true ∧
      (future.operate .cancel).1.submissionState = .cancelled := by
  have hdone : future.done = false := by
    unfold RemoteFuture.cancelsLocally at h
    simp only [Bool.and_eq_true, Bool.not_eq_true'] at h
    exact h.1
  have hcancelled : ({ future with submissionState := .cancelled }
      : RemoteFuture V E).cancelAndNotifyWaiters =
        { future with submissionState := .cancelled, base := ⟨.cancelledAndNotified, none, none⟩ } :=
    cancelAndNotifyWaiters_pending (hm.pending hdone)
  simp only [RemoteFuture.operate, RemoteFuture.cancel, h, if_true]
  rw [hcancelled]
  exact ⟨rfl, rfl⟩

end RemoteFuture

namespace State

theorem futureDone_eq {f : Nat} {h : Handle V X} (hf : s.handles[f]? = some h) :
    s.futureDone f = h.future.done := by
  unfold State.futureDone
  rw [hf]
  rfl

theorem futureDone_lookup {f : Nat} (h : s.futureDone f = true) :
    ∃ handle, s.handles[f]? = some handle ∧ handle.future.done = true := by
  unfold State.futureDone at h
  cases hf : s.handles[f]? with
  | none =>
    rw [hf] at h
    cases h
  | some handle =>
    rw [hf] at h
    exact ⟨handle, rfl, h⟩

/-- The two states of every future are in step. -/
def Matching (s : State V X) : Prop :=
  ∀ (f : Nat) (h : Handle V X), s.handles[f]? = some h → h.future.Matches

theorem Matching.move (h : s.Matching) (hm : Move cfg s s') : s'.Matching := by
  intro f h' hf
  rcases (move_touch hm).back hf with hnew | ⟨handle, hold, hsame | ⟨op, hop⟩⟩
  · rw [hnew]
    exact .init
  · rw [hsame]
    exact h f handle hold
  · rw [hop]
    exact ((h f handle hold).operate op).1

/-! ## Local cancellations -/

/-- The sender has marked the future as sent, or its message is sent. -/
def Begun (s : State V X) (f : Nat) : Prop := s.sender.begun = some f ∨ ∃ m, (m, some f) ∈ s.sent

/-- A future that is begun was begun before, or the sender has just marked it. -/
theorem Begun.back {f : Nat} (he : s.Engaged) (hm : Move cfg s s') (h : s'.Begun f) : s.Begun f ∨
    s.futureDone f = false ∧ s'.handles = (s.operate f .setSent).handles ∧
      ∃ m, s.sender.post = some (m, some f) := by
  have hsent : ∀ {sender : Sender}, sender.begun = none →
      (sender.begun = some f ∨ ∃ m, (m, some f) ∈ s.sent) → s.Begun f := by
    intro sender hnone hor
    rw [hnone] at hor
    exact .inr (hor.resolve_left nofun)
  cases hm with
  | finish =>
    left
    unfold State.settle at h
    split at h
    · split at h <;> exact h
    · exact h
  | @mark m g hs hdone =>
    rcases h with hg | hin
    · cases hg
      exact .inr ⟨hdone, rfl, m, by rw [hs]; rfl⟩
    · exact .inl (.inr hin)
  | sentinel | take | markPlain | skip | skipped | unplugged | unsent | lateSender | loseSender =>
    exact .inl (hsent rfl h)
  | begin hs =>
    refine .inl (h.imp_left fun hb => ?_)
    rw [hs]
    exact hb
  | sent hs =>
    left
    rcases h with hnone | ⟨m', hin⟩
    · cases hnone
    · rcases List.mem_append.mp hin with hin | hin
      · exact .inr ⟨m', hin⟩
      · left
        cases List.mem_singleton.mp hin
        rw [hs]
        rfl
  | @lossOver loss hl =>
    have hthread := he.thread loss hl
    left
    unfold State.afterLoss at h
    cases howner : loss.owner with
    | sender =>
      rw [howner] at h
      exact hsent rfl h
    | receiver | lane =>
      rw [howner] at h
      dsimp only at h
      split at h <;> exact h
  | _ => exact .inl h

/-- A local cancellation and a submission that has begun exclude each other. -/
structure Withdrawn (s : State V X) : Prop where
  cancelled : ∀ f ∈ s.localCancels, ∃ h, s.handles[f]? = some h ∧ h.future.done = true ∧
    h.future.submissionState = .cancelled
  begun : ∀ f, s.Begun f → f ∉ s.localCancels ∧
    ∃ h, s.handles[f]? = some h ∧ h.future.cancelsLocally = false

theorem Withdrawn.init : (client cfg).init.Withdrawn := by
  refine ⟨nofun, fun f h => ?_⟩
  rcases h with h | ⟨_, h⟩
  · cases h
  · cases h

/-- A future that is done stays as it is. -/
theorem done_stays (hm : Move cfg s s') {f : Nat} {h : Handle V X} (hf : s.handles[f]? = some h)
    (hdone : h.future.done = true) : ∃ h', s'.handles[f]? = some h' ∧ h'.future = h.future := by
  obtain ⟨h', hf', hsame | ⟨op, hop⟩⟩ := (move_touch hm).lookup hf
  · exact ⟨h', hf', hsame⟩
  · rw [RemoteFuture.operate_of_done hdone] at hop
    exact ⟨h', hf', hop⟩

theorem localCancels_move (hm : Move cfg s s') : s'.localCancels = s.localCancels ∨
    ∃ f h, s.handles[f]? = some h ∧ h.future.cancelsLocally = true ∧
      s'.handles = (s.operate f .cancel).handles ∧ s'.localCancels = s.localCancels ++ [f] ∧
      s'.sender = s.sender ∧ s'.sent = s.sent := by
  cases hm with
  | @cancel f h hf hlocal => exact .inr ⟨f, h, hf, hlocal, rfl, rfl, rfl, rfl⟩
  | finish =>
    left
    unfold State.settle
    split
    · split <;> rfl
    · rfl
  | @lossOver loss =>
    left
    unfold State.afterLoss
    cases loss.owner with
    | sender => rfl
    | receiver | lane =>
      dsimp only
      split <;> rfl
  | _ => exact .inl rfl

theorem Withdrawn.move (h : s.Withdrawn) (hmatch : s.Matching) (hposted : s.Posted cfg) (he : s.Engaged)
    (hm : Move cfg s s') : s'.Withdrawn := by
  have hkept : ∀ f ∈ s.localCancels, ∃ h, s'.handles[f]? = some h ∧ h.future.done = true ∧
      h.future.submissionState = .cancelled := by
    intro f hf
    obtain ⟨handle, hhandle, hdone, hstate⟩ := h.cancelled f hf
    obtain ⟨handle', hhandle', hsame⟩ := done_stays hm hhandle hdone
    exact ⟨handle', hhandle', by rw [hsame]; exact hdone, by rw [hsame]; exact hstate⟩
  have hstarted : ∀ f, s.Begun f → ∃ h, s'.handles[f]? = some h ∧ h.future.cancelsLocally = false := by
    intro f hf
    obtain ⟨-, handle, hhandle, hlocal⟩ := h.begun f hf
    obtain ⟨handle', hhandle', hsame | ⟨op, hop⟩⟩ := (move_touch hm).lookup hhandle
    · exact ⟨handle', hhandle', by rw [hsame]; exact hlocal⟩
    · exact ⟨handle', hhandle', by rw [hop]; exact RemoteFuture.operate_cancelsLocally hlocal op⟩
  rcases localCancels_move hm with hsame | ⟨f, handle, hf, hlocal, hhandles, hnew, hsender, hsent⟩
  · refine ⟨by rw [hsame]; exact hkept, fun f hf => ?_⟩
    rw [hsame]
    rcases hf.back he hm with hold | ⟨hpending, hhandles, m, hpost⟩
    · exact ⟨(h.begun f hold).1, hstarted f hold⟩
    · -- the sender marks a future that is not done
      refine ⟨fun hin => ?_, ?_⟩
      · obtain ⟨handle, hhandle, hdone, -⟩ := h.cancelled f hin
        rw [futureDone_eq hhandle, hdone] at hpending
        cases hpending
      · obtain ⟨handle, hf⟩ : ∃ handle, s.handles[f]? = some handle :=
          ⟨_, List.getElem?_eq_getElem (hposted.sender hpost).lt⟩
        rw [hhandles]
        refine ⟨_, getElem?_modify_self hf, ?_⟩
        have hdone : handle.future.done = false := (futureDone_eq hf).symm.trans hpending
        simp [RemoteFuture.operate, RemoteFuture.setSent, RemoteFuture.cancelsLocally, hdone]
  · have hcancelled := RemoteFuture.operate_cancel (hmatch f handle hf) hlocal
    constructor
    · rw [hnew]
      intro g hg
      rcases List.mem_append.mp hg with hg | hg
      · exact hkept g hg
      · rw [List.mem_singleton.mp hg, hhandles]
        exact ⟨_, getElem?_modify_self hf, hcancelled⟩
    · intro g hg
      have hold : s.Begun g := by
        unfold State.Begun at hg ⊢
        rw [hsender, hsent] at hg
        exact hg
      refine ⟨?_, hstarted g hold⟩
      rw [hnew]
      intro hin
      rcases List.mem_append.mp hin with hin | hin
      · exact (h.begun g hold).1 hin
      · rw [List.mem_singleton.mp hin] at hold
        obtain ⟨-, handle', hhandle', hlocal'⟩ := h.begun f hold
        rw [hf] at hhandle'
        cases hhandle'
        rw [hlocal] at hlocal'
        cases hlocal'

/-- What is known of the submissions in every state. -/
structure Registered (cfg : Config V X) (s : State V X) : Prop where
  accounted : s.Accounted cfg
  catalog : s.Catalog cfg
  matching : s.Matching
  posted : s.Posted cfg
  withdrawn : s.Withdrawn

theorem Registered.init : (client cfg).init.Registered cfg where
  accounted := .init
  catalog := .init
  matching _ _ hf := by cases hf
  posted := .init
  withdrawn := .init

theorem Registered.move (h : s.Registered cfg) (hm : Move cfg s s') : s'.Registered cfg where
  accounted := h.accounted.move hm
  catalog := h.catalog.move hm
  matching := h.matching.move hm
  posted := h.posted.move h.accounted.engaged hm
  withdrawn := h.withdrawn.move h.matching h.posted h.accounted.engaged hm

theorem reachable_registered (h : (client cfg).Reachable s) : s.Registered cfg :=
  h.invariant .init fun _ _ _ _ hi _ hs => hi.move (step_move hs)

end State

/-! ## Results -/

/-- Entries that count once for each future belong to different futures. -/
theorem pairwise_isOf {l : List Post} (h : ∀ f, l.countP (State.isOf f) ≤ 1) :
    l.Pairwise fun post post' => ∀ f, State.isOf f post = true → State.isOf f post' = false := by
  induction l with
  | nil => exact .nil
  | cons post l ih =>
    refine .cons (fun post' hin f hf => ?_) (ih fun f => ?_)
    · have hcount := h f
      rw [countP_head, hf, Bool.toNat_true] at hcount
      have hzero : l.countP (State.isOf f) = 0 := by omega
      exact Bool.eq_false_iff.mpr (List.countP_eq_zero.mp hzero post' hin)
    · have hcount := h f
      rw [countP_head] at hcount
      omega

/-- `message.control.get("request_id")` -/
def requestIdIn (m : Message) : Value := m.control.items.get (lit "request_id")

theorem requestIdIn_submit (number : Nat) (mode : Mode) (options : SubmissionOptions)
    (payload : Bytes) :
    requestIdIn (State.submitMessage cfg number mode options payload) = .str (cfg.requestId number) := by
  unfold requestIdIn State.submitMessage submitControl
  dsimp only
  repeat rw [Dict.get_set_ne (by decide)]
  exact Dict.get_set_self

/-- A `SUBMIT` among the messages carries the ID of its future. -/
theorem State.Carries.submit {m : Message} {future : Option Nat} (h : s.Carries cfg (m, future))
    (hm : m.kind = .submit) :
    ∃ f, future = some f ∧ f < s.handles.length ∧ requestIdIn m = .str (s.idOf cfg f) := by
  cases future with
  | none => exact absurd hm h
  | some f =>
    refine ⟨f, rfl, h.lt, ?_⟩
    obtain ⟨number, mode, options, payload, hnumber, rfl⟩ := h
    rw [requestIdIn_submit, State.idOf_numbers, hnumber]
    rfl

/-- **A request ID is sent in one `SUBMIT` at most.** -/
theorem submitted_once (h : (client cfg).Reachable s) :
    ((s.sent.filter fun e => e.1.kind = .submit).map fun e => requestIdIn e.1).Nodup := by
  have hr := State.reachable_registered h
  have honce : ∀ f, s.sent.countP (State.isOf f) ≤ 1 := by
    intro f
    have hbound := hr.posted.once f
    unfold State.posted at hbound
    split at hbound <;> omega
  refine List.pairwise_map.mpr ?_
  refine ((pairwise_isOf honce).filter fun e => decide (e.1.kind = .submit)).imp_of_mem ?_
  intro e e' he he' hdiffer hsame
  obtain ⟨hin, hkind⟩ := List.mem_filter.mp he
  obtain ⟨hin', hkind'⟩ := List.mem_filter.mp he'
  obtain ⟨f, hf, hlt, hid⟩ := (hr.posted.sent hin).submit (of_decide_eq_true hkind)
  obtain ⟨g, hg, hlt', hid'⟩ := (hr.posted.sent hin').submit (of_decide_eq_true hkind')
  rw [hid, hid'] at hsame
  have hfg : f = g := hr.catalog.idOf_injective hlt hlt' (Value.str.inj hsame)
  have hnot := hdiffer f (decide_eq_true hf)
  exact of_decide_eq_false hnot (by rw [hg, hfg])

/-- **A future that `cancel` has cancelled on the spot stays cancelled, and its message is never sent.** -/
theorem cancelled_never_sent (h : (client cfg).Reachable s) {f : Nat} (hf : f ∈ s.localCancels) :
    (∃ handle, s.handles[f]? = some handle ∧ handle.future.submissionState = .cancelled) ∧
      ∀ e ∈ s.sent, e.1.kind = .submit → requestIdIn e.1 ≠ .str (s.idOf cfg f) := by
  have hr := State.reachable_registered h
  obtain ⟨handle, hhandle, -, hstate⟩ := hr.withdrawn.cancelled f hf
  refine ⟨⟨handle, hhandle, hstate⟩, fun e he hkind hid => ?_⟩
  obtain ⟨g, hg, hlt, hid'⟩ := (hr.posted.sent he).submit hkind
  rw [hid'] at hid
  have hfg : g = f := hr.catalog.idOf_injective hlt (lt_of_getElem? hhandle) (Value.str.inj hid)
  have hbegun : s.Begun f := .inr ⟨e.1, by rw [← hfg, ← hg]; exact he⟩
  exact (hr.withdrawn.begun f hbegun).1 hf

end Registry

/-! ## Runs -/

/-- Two calls of `submit`; the second future is cancelled while its message is in the queue, and the
sender skips it. -/
def cancelQueued : List (Label Unit) :=
  submitAndSend 0 ++
    [.submit .callable {}, .serialized 1 (.ok []), .proceed 1, .proceed 1, .put 1 true, .cancel 1,
      .sender, .sender, .sender]

theorem submitted_once_cancelQueued : ∃ s,
    (client (crampedClient 1)).run (client (crampedClient 1)).init cancelQueued = some s ∧
      s.handles.length = 2 ∧
      ((s.sent.filter fun e => e.1.kind = .submit).map fun e => requestIdIn e.1).Nodup := by
  have hrun : ((client (crampedClient 1)).run (client (crampedClient 1)).init cancelQueued).map
      (fun s => s.handles.length) = some 2 := by decide +kernel
  obtain ⟨s, hrun, hlength⟩ := Option.map_eq_some_iff.mp hrun
  exact ⟨s, hrun, hlength, submitted_once (System.reachable_of_run hrun)⟩

theorem cancelled_never_sent_cancelQueued : ∃ s,
    (client (crampedClient 1)).run (client (crampedClient 1)).init cancelQueued = some s ∧
      s.sent.length = 1 ∧ ∀ e ∈ s.sent, e.1.kind = .submit →
        requestIdIn e.1 ≠ .str (s.idOf (crampedClient 1) 1) := by
  have hrun : ((client (crampedClient 1)).run (client (crampedClient 1)).init cancelQueued).map
      (fun s => (s.localCancels, s.sent.length)) = some ([1], 1) := by decide +kernel
  obtain ⟨s, hrun, hs⟩ := Option.map_eq_some_iff.mp hrun
  obtain ⟨hcancels, hsent⟩ := Prod.mk.inj hs
  exact ⟨s, hrun, hsent,
    (cancelled_never_sent (System.reachable_of_run hrun) (by rw [hcancels]; exact .head _)).2⟩

end Deadpool.Remote.Client
