import Deadpool.Remote.Broker.Frame

/-!
# The broker: which message an answer answers

What a step does when a reader handles a message: rejections and decisions about cancellations are sent
there, for the message that is handled, and nowhere else.  A request is accepted, and a watermark rises,
only for the `SUBMIT` that is handled.

Principal result: `step_doing` — a step is a section with little besides, or the handling of one message.
-/

set_option autoImplicit false

namespace Deadpool.Remote.Broker

open Deadpool.Py Deadpool.Lts

/-! ## Logs and readers -/

/-- The message in the hands of a reader. -/
def Reader.message? : Reader → Option Message
  | .handling m => some m.message
  | _ => none

def State.inHand (s : State) (c : Nat) : Option Message := (s.withReader c).bind Reader.message?

section Views

variable {cfg : Config} {s s' : State} {c : Nat}

theorem Section.logOf (h : Section s s') (c : Nat) : ∃ entries, s'.logOf c = s.logOf c ++ entries ∧
    ∀ entry ∈ entries, entry.message.kind.plain = true := by
  unfold State.logOf
  cases hc' : s'.connections[c]? with
  | none =>
    have hc : s.connections[c]? = none := by
      rw [List.getElem?_eq_none_iff] at hc' ⊢
      rw [← h.frame.length]
      exact hc'
    rw [hc]
    exact ⟨[], rfl, fun _ he => by cases he⟩
  | some conn' =>
    obtain ⟨conn, hc, hplain⟩ := h.plain.connections c conn' hc'
    rw [hc]
    exact hplain.log

theorem Frame.withReader (h : Frame s s') (c : Nat) : s'.withReader c = s.withReader c := by
  unfold State.withReader
  cases hc' : s'.connections[c]? with
  | none =>
    have hc : s.connections[c]? = none := by
      rw [List.getElem?_eq_none_iff] at hc' ⊢
      rw [← h.length]
      exact hc'
    rw [hc]
  | some conn' =>
    obtain ⟨conn, hc, hreader, -⟩ := h.connections c conn' hc'
    rw [hc]
    exact congrArg some hreader

theorem Frame.inHand (h : Frame s s') (c : Nat) : s'.inHand c = s.inHand c := by
  unfold State.inHand
  rw [h.withReader c]

theorem logOf_setConnection {f : Connection → Connection}
    (hf : ∀ conn : Connection, (f conn).log = conn.log) (c' : Nat) :
    (s.setConnection c f).logOf c' = s.logOf c' := by
  show ((s.connections.modify c f)[c']?.map Connection.log).getD [] = _
  unfold State.logOf
  rw [List.getElem?_modify]
  cases s.connections[c']? with
  | none => rfl
  | some conn =>
    by_cases hc : c = c'
    · simp [hc, hf]
    · simp [hc]

theorem logOf_setReader {next : Reader} (c' : Nat) : (s.setReader c next).logOf c' = s.logOf c' := by
  refine logOf_setConnection ?_ c'
  exact fun _ => rfl

theorem logOf_poll (c' : Nat) : (s.poll cfg c).logOf c' = s.logOf c' := by
  unfold State.poll
  split
  · rfl
  · rfl
  · exact logOf_setConnection (fun conn => (Connection.Quiet.close conn).log) c'

/-- A message is enqueued on its connection, or nowhere. -/
theorem logOf_send {record : Option Nat} {m : Message} (c' : Nat) :
    (s.send cfg c record m).logOf c' = s.logOf c' ∨
      c' = c ∧ (s.send cfg c record m).logOf c' = s.logOf c' ++ [⟨record, m⟩] := by
  have hput : ∀ conn : Connection, (conn.put cfg (.message m) [⟨record, m⟩]).log = conn.log ∨
      (conn.put cfg (.message m) [⟨record, m⟩]).log = conn.log ++ [⟨record, m⟩] := by
    intro conn
    unfold Connection.put
    split
    · exact .inl rfl
    · split
      · exact .inr rfl
      · exact .inl (Connection.Quiet.close conn).log
  rw [← @logOf_poll cfg s c c']
  unfold State.send
  generalize s.poll cfg c = x
  unfold State.logOf
  show (((x.connections.modify c _)[c']?).map Connection.log).getD [] = _ ∨ _ ∧
    (((x.connections.modify c _)[c']?).map Connection.log).getD [] = _
  rw [List.getElem?_modify]
  cases x.connections[c']? with
  | none => exact .inl rfl
  | some conn =>
    by_cases hc : c = c'
    · subst hc
      rcases hput conn with hlog | hlog
      · exact .inl (by simp [hlog])
      · exact .inr ⟨rfl, by simp [hlog]⟩
    · exact .inl (by simp [hc])

theorem withReader_setConnection {f : Connection → Connection}
    (hf : ∀ conn : Connection, (f conn).reader = conn.reader) (c' : Nat) :
    (s.setConnection c f).withReader c' = s.withReader c' := by
  show ((s.connections.modify c f)[c']?).map Connection.reader = _
  unfold State.withReader
  rw [List.getElem?_modify]
  cases s.connections[c']? with
  | none => rfl
  | some conn => by_cases hc : c = c' <;> simp [hc, hf]

theorem withReader_send {record : Option Nat} {m : Message} (c' : Nat) :
    (s.send cfg c record m).withReader c' = s.withReader c' := by
  have hpoll : (s.poll cfg c).withReader c' = s.withReader c' := frame_poll.withReader c'
  rw [← hpoll]
  unfold State.send
  refine withReader_setConnection ?_ c'
  exact fun conn => (conn.put_reader _ _).1

theorem withReader_setReader (next : Reader) (c' : Nat) : (s.setReader c next).withReader c' =
    if c' = c then (s.withReader c).map fun _ => next else s.withReader c' := by
  unfold State.withReader
  show ((s.connections.modify c _)[c']?).map Connection.reader = _
  rw [List.getElem?_modify]
  by_cases hc : c' = c
  · subst hc
    cases s.connections[c']? <;> simp
  · rw [if_neg hc]
    have hne : c ≠ c' := fun h => hc h.symm
    cases s.connections[c']? <;> simp [hne]

theorem inHand_setReader {next : Reader} (c' : Nat) (hne : c' ≠ c) :
    (s.setReader c next).inHand c' = s.inHand c' := by
  unfold State.inHand
  rw [withReader_setReader, if_neg hne]

/-- A reader holds what it was given. -/
theorem inHand_setReader_self {next : Reader} {m : Message}
    (h : (s.setReader c next).inHand c = some m) : next.message? = some m := by
  unfold State.inHand at h
  rw [withReader_setReader, if_pos rfl] at h
  cases hr : s.withReader c with
  | none =>
    rw [hr] at h
    cases h
  | some reader =>
    rw [hr] at h
    exact h

end Views

section Handling

variable {cfg : Config} {s s' : State} {c : Nat} {m : Message} {now : Clock}
  {grant : Str → Except Str Bool}

/-- The message is a submission with this request ID and sequence number, of the session of the
connection. -/
structure State.Submits (s : State) (c : Nat) (m : Message) (i : Nat) (session : Session)
    (requestId : Str) (sequence : Int) : Prop where
  kind : m.kind = .submit
  named : m.control.items.get (lit "request_id") = .str requestId
  connected : s.connections[c]?.bind Connection.session = some i
  opened : s.sessions[i]? = some session
  sequenced : requestSequence session.clientId requestId = .ok sequence

/-- The session lets the number through. -/
def State.pass (s : State) (i : Nat) (sequence : Int) : State :=
  s.setSession i fun session => { session with watermark := sequence }

/-- The cancellation has ended the request, in the queue unless it was a hard one. -/
def State.Cancelled (s x : State) (c : Nat) (control : Dict) : Prop :=
  ∃ (r : Nat) (record record' : Request),
    s.ownedRequest c (control.items.get (lit "request_id")) = some r ∧ s.records[r]? = some record ∧
    x.records[r]? = some record' ∧ record'.state.terminal = true ∧
    (truthy (control.items.get (lit "hard")) = false → record.state = .acceptedQueued)

/-- The reasons for which a fresh request is not accepted. -/
def refusals : List String :=
  ["server_draining", "queue_full", "invocation_too_large", "unauthorized", "unknown_operation",
    "invalid_mode"]

/-- What handling a message does, up to the reader. -/
inductive Handling (cfg : Config) (s : State) (c : Nat) (m : Message) : State → Prop
  | quiet {x : State} : Section s x → Handling cfg s c m x
  | stale {i : Nat} {session : Session} {requestId : Str} {sequence : Int} :
      s.Submits c m i session requestId sequence → session.requests.get? requestId = none →
      sequence ≤ session.watermark →
      Handling cfg s c m (s.send cfg c none (rejectedMessage requestId "stale_request"))
  | passed {i : Nat} {session : Session} {requestId : Str} {sequence : Int} :
      s.Submits c m i session requestId sequence → session.watermark < sequence →
      Handling cfg s c m (s.pass i sequence)
  | rejected {i : Nat} {session : Session} {requestId : Str} {sequence : Int} {reason : String} :
      s.Submits c m i session requestId sequence → session.watermark < sequence → reason ∈ refusals →
      Handling cfg s c m ((s.pass i sequence).send cfg c none (rejectedMessage requestId reason))
  | accepted {i : Nat} {session : Session} {sequence : Int} {record : Request} :
      s.Submits c m i session record.requestId sequence → session.watermark < sequence →
      record.state = .acceptedQueued → record.terminalKind = none → record.startedAt = none →
      record.connection = c → record.terminalControl = [] →
      Handling cfg s c m (((s.pass i sequence).accept record).send cfg c (some s.records.length)
        (acceptedMessage record.requestId))
  | decided {x : State} {decision : Decision} : m.kind = .cancelRequest → Section s x →
      (decision = .cancelled → s.Cancelled x c m.control) →
      Handling cfg s c m (x.send cfg c none (cancelResponse m.control decision))

theorem authorize_reject {c i : Nat} {session : Session} {requestId : Str} {registered : Bool}
    {reason : String} (h : authorize cfg c i session requestId m now grant registered = .reject reason) :
    reason = "unauthorized" := by
  unfold authorize at h
  split at h
  · cases h
  · cases h
    rfl
  · dsimp only at h
    split at h <;> cases h

theorem not_stale {reason : String} (h : reason ∈ refusals) : lit reason ≠ lit "stale_request" := by
  have hall : ∀ reason ∈ refusals, lit reason ≠ lit "stale_request" := by decide
  exact hall reason h

/-- The admission test calls nothing stale. -/
theorem admission_reject {c i : Nat} {session : Session} {requestId : Str} {reason : String}
    (h : s.admission cfg c i session requestId m now grant = .reject reason) : reason ∈ refusals := by
  have hauthorize : ∀ registered : Bool,
      authorize cfg c i session requestId m now grant registered = .reject reason →
        reason ∈ refusals := by
    intro registered hreject
    rw [authorize_reject hreject]
    decide
  unfold State.admission at h
  split at h
  · cases h
    decide
  · split at h
    · cases h
      decide
    · split at h
      · cases h
        decide
      · split at h
        · split at h
          · exact hauthorize _ h
          · split at h
            · split at h
              · split at h
                · exact hauthorize _ h
                · cases h
                  decide
              · cases h
              · cases h
              · cases h
                decide
            · cases h
              decide
        · cases h
        · cases h
        · cases h
          decide

theorem Handling.submitFresh {i : Nat} {session : Session} {requestId : Str} {sequence : Int}
    (hm : s.Submits c m i session requestId sequence) (hnew : session.watermark < sequence) :
    Handling cfg s c m ((s.pass i sequence).submitFresh cfg c i session requestId m now grant).1 := by
  unfold State.submitFresh
  split
  · rename_i reason hreject
    exact .rejected hm hnew (admission_reject hreject)
  · exact .passed hm hnew
  · rename_i record hadm
    obtain ⟨-, -, registered, hauth⟩ := admission_accept hadm
    obtain ⟨priority, executionTimeout, queueTimeout, rfl, -⟩ := authorize_accept hauth
    exact .accepted hm hnew rfl rfl rfl rfl rfl

theorem Handling.submit (hkinds : ∀ (r : Nat) (record : Request), s.records[r]? = some record →
    record.state.terminal = true → ∃ kind, record.terminalKind = some kind ∧ kind.terminal = true)
    (hkind : m.kind = .submit) : Handling cfg s c m (s.submit cfg c m now grant).1 := by
  have hraise : Handling cfg s c m s := .quiet (.refl s)
  unfold State.submit
  split
  · exact hraise
  · rename_i i hi
    split
    · exact hraise
    · rename_i session hs
      split
      · rename_i requestId hid
        split
        · exact hraise
        · rename_i sequence hseq
          have hm : s.Submits c m i session requestId sequence := ⟨hkind, hid, hi, hs, hseq⟩
          dsimp only
          split
          · split
            · exact .quiet ⟨plain_sendRecord hkinds, frame_sendRecord⟩
            · exact hraise
            · rename_i hpre
              unfold Session.precheck at hpre
              split at hpre
              · split at hpre <;> cases hpre
              · rename_i hnone
                split at hpre
                · rename_i hle
                  exact .stale hm hnone hle
                · cases hpre
            · rename_i hpre
              unfold Session.precheck at hpre
              split at hpre
              · split at hpre <;> cases hpre
              · split at hpre
                · cases hpre
                · exact .submitFresh hm (by omega)
          · exact hraise
      · exact hraise

theorem section_cancelOwned {control : Dict} : Section s (s.cancelOwned cfg c control grant).1 :=
  ⟨plain_cancelOwned, frame_cancelOwned⟩

/-- A cancellation that says so has ended a request, in the queue unless it was a hard one. -/
theorem cancelOwned_cancelled (hinv : s.Inv cfg) {control : Dict}
    (h : (s.cancelOwned cfg c control grant).2 = .ok .cancelled) :
    s.Cancelled (s.cancelOwned cfg c control grant).1 c control := by
  unfold State.cancelOwned at h ⊢
  split at h
  · cases h
  · rename_i r howned
    obtain ⟨record, hr, -, -⟩ := ownedRequest_record hinv.wf howned
    obtain ⟨record', hr', hcancels⟩ := cancelOne_cancelled hinv hr h
    refine ⟨r, record, record', howned, hr, ?_, hcancels.2.1, fun hsoft => ?_⟩
    · exact hr'
    · unfold State.cancelOne at h
      rw [hr] at h
      dsimp only at h
      split at h
      · rename_i hstate
        exact hstate
      · rw [hsoft] at h
        cases h
      · cases h

theorem Handling.cancel (hinv : s.Inv cfg) (hkind : m.kind = .cancelRequest) :
    Handling cfg s c m (s.cancel cfg c m.control grant).1 := by
  have hsection : Section s (s.cancelOwned cfg c m.control grant).1 := section_cancelOwned
  unfold State.cancel
  split
  · rename_i x text heq
    rw [heq] at hsection
    exact .quiet hsection
  · rename_i x decision heq
    rw [heq] at hsection
    refine .decided hkind hsection fun hdecision => ?_
    subst hdecision
    have hcancelled : (s.cancelOwned cfg c m.control grant).2 = .ok .cancelled →
        s.Cancelled (s.cancelOwned cfg c m.control grant).1 c m.control := cancelOwned_cancelled hinv
    rw [heq] at hcancelled
    exact hcancelled rfl

/-- `_handle_message` -/
theorem Handling.message {statistics : Option Dict} (hinv : s.Inv cfg)
    (hkinds : ∀ (r : Nat) (record : Request), s.records[r]? = some record →
      record.state.terminal = true → ∃ kind, record.terminalKind = some kind ∧ kind.terminal = true) :
    Handling cfg s c m (s.handleMessage cfg c m now grant statistics).1 := by
  have hraise : Handling cfg s c m s := .quiet (.refl s)
  unfold State.handleMessage
  split
  · exact hraise
  · rename_i hkind
    exact .submit hkinds hkind
  · rename_i hkind
    exact .cancel hinv hkind
  · have hsection : Section s (s.cancelMembers cfg c m.control grant).1 :=
      ⟨plain_cancelMembers, frame_cancelMembers⟩
    unfold State.cancelGroup
    split
    · rename_i x text heq
      rw [heq] at hsection
      exact .quiet hsection
    · rename_i x found heq
      rw [heq] at hsection
      exact .quiet hsection
  · exact hraise
  · exact hraise
  · exact .quiet ⟨plain_acknowledge, frame_acknowledge⟩
  · unfold State.closeSession
    split
    · exact hraise
    · split
      · exact hraise
      · refine .quiet ⟨.setConnection fun conn _ => ?_, .setConnection (fun conn => ⟨rfl, rfl⟩)
          fun _ _ h => .inl h⟩
        exact ⟨id, ⟨[], (List.append_nil _).symm, fun _ h => (by cases h)⟩, fun _ => id⟩
  · exact hraise

/-! ## Steps -/

/-- A handler does not leave the reader with a message in hand. -/
theorem handled_reader {statistics : Option Dict} {m' : Inbound} :
    (s.handleMessage cfg c m now grant statistics).2 ≠ .handling m' := by
  have hfresh : ∀ (i : Nat) (session : Session) (requestId : Str) (x : State),
      (x.submitFresh cfg c i session requestId m now grant).2 ≠ .handling m' := by
    intro i session requestId x
    unfold State.submitFresh
    split <;> exact Reader.noConfusion
  unfold State.handleMessage
  split
  · exact Reader.noConfusion
  · unfold State.submit
    split
    · exact Reader.noConfusion
    · split
      · exact Reader.noConfusion
      · split
        · split
          · exact Reader.noConfusion
          · dsimp only
            split
            · split
              · exact Reader.noConfusion
              · exact Reader.noConfusion
              · exact Reader.noConfusion
              · exact hfresh _ _ _ _
            · exact Reader.noConfusion
        · exact Reader.noConfusion
  · unfold State.cancel
    split <;> exact Reader.noConfusion
  · unfold State.cancelGroup
    split <;> exact Reader.noConfusion
  · exact Reader.noConfusion
  · exact Reader.noConfusion
  · exact Reader.noConfusion
  · unfold State.closeSession
    split
    · exact Reader.noConfusion
    · split <;> exact Reader.noConfusion
  · exact Reader.noConfusion

/-- What a step does: a section with little besides, or the handling of a message. -/
inductive Doing (cfg : Config) (s : State) (l : Label) (s' : State) : Prop
  | rest {x y : State} : Section s x → Rest cfg l.action x y → Section y s' → Doing cfg s l s'
  | handled {c : Nat} {now : Clock} {grant : Str → Except Str Bool} {statistics : Option Dict}
      {m : Inbound} {x : State} {next : Reader} : l.action = .handle c now grant statistics →
      s.inHand c = some m.message → Handling cfg { s with flips := l.flips } c m.message x →
      next.message? = none → s' = { x.setReader c next with flips := [] } → Doing cfg s l s'

/-- **A step is a section with little besides, or the handling of one message.** -/
theorem step_doing {l : Label} (h : s.Telling cfg) (hs : step cfg s l = some s') : Doing cfg s l s' := by
  cases ha : l.action.handles with
  | false =>
    obtain ⟨x, y, hx, hrest, hy⟩ := step_rest ha (fun c conn m hc hans =>
      ⟨h.answers c conn m hc hans, h.lived.inv.wf.answering c conn m hc hans⟩) hs
    exact .rest hx hrest hy
  | true =>
    obtain ⟨a, flips⟩ := l
    cases a with
    | handle c now grant statistics =>
      obtain ⟨y, hy, rfl⟩ := Option.map_eq_some_iff.mp hs
      simp only [connectionStep, dispatcherStep, poolStep, Option.or_none] at hy
      split at hy
      · rename_i m hreader
        cases hy
        have hinv : State.Inv cfg { s with flips } := (show Locked cfg .all s _ from locked_flips flips).inv h.lived.inv
        refine .handled rfl ?_ (Handling.message hinv h.lived.reported.kinds) ?_ rfl
        · unfold State.inHand
          rw [show s.withReader c = some (.handling m) from hreader]
          rfl
        · cases hnext : (State.handleMessage cfg { s with flips } c m.message now grant statistics).2 with
          | handling m' => exact absurd hnext handled_reader
          | _ => rfl
      · cases hy
    | _ => cases ha

end Handling

end Deadpool.Remote.Broker
