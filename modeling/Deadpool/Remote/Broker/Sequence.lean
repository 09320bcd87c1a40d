import Deadpool.Remote.Broker.Chain

/-!
# The broker: sequence numbers

A request ID carries a sequence number, and the watermark of a session is the highest number it has
let through.  A number at or below the watermark is not accepted again, so that a session has at most one
request with an ID, in its whole life.

A session is unregistered only after its connection was closed, so that the session of an open
connection is live.

Principal result: `reachable_ordered` — both, in every run.
-/

set_option autoImplicit false

namespace Deadpool.Remote.Broker

open Deadpool.Py Deadpool.Lts

/-- The session has let the number of the request ID through. -/
def Session.Passed (session : Session) (requestId : Str) : Prop :=
  ∃ sequence, requestSequence session.clientId requestId = .ok sequence ∧ sequence ≤ session.watermark

theorem Session.Passed.grows {session session' : Session} {requestId : Str}
    (h : session.Passed requestId) (hg : session.Grows session') : session'.Passed requestId := by
  obtain ⟨sequence, hseq, hle⟩ := h
  exact ⟨sequence, hg.clientId ▸ hseq, hle.trans hg.watermark⟩

structure State.Numbered (s : State) : Prop where
  passed : ∀ (r : Nat) (record : Request) (session : Session), s.records[r]? = some record →
    s.sessions[record.session]? = some session → session.Passed record.requestId
  unique : ∀ (r r' : Nat) (record record' : Request), s.records[r]? = some record →
    s.records[r']? = some record' → record.session = record'.session →
    record.requestId = record'.requestId → r = r'

section Changes

variable {cfg : Config} {scope : Scope} {s s' : State}

theorem State.Numbered.init : State.Numbered {} :=
  ⟨(fun _ _ _ h => nomatch h), fun _ _ _ _ h => nomatch h⟩

/-- A request that is accepted has a number that no request of the session has. -/
theorem State.Numbered.fresh (h : s.Numbered) {c i : Nat} {session : Session} {sequence : Int}
    {record : Request} (ha : s.Admits cfg c i session sequence record) {r : Nat} {record' : Request}
    (hr : s.records[r]? = some record') (hi : record'.session = i) :
    record'.requestId ≠ record.requestId := by
  intro hid
  obtain ⟨sequence', hseq, hle⟩ := h.passed r record' session hr (by rw [hi]; exact ha.opened)
  rw [hid, ha.sequenced] at hseq
  cases hseq
  exact absurd ha.watermark (not_lt.mpr hle)

/-- Nothing is accepted, or this is the change that accepts. -/
theorem Micro.accepted (hm : Micro cfg scope s s') :
    (∀ (r : Nat) (record' : Request), s'.records[r]? = some record' →
      ∃ record : Request, s.records[r]? = some record ∧ record.Evolves record') ∨
    ∃ c i session sequence record f, s.Admits cfg c i session sequence record ∧
      s' = (s.enter i sequence record).setConnection c f := by
  have hback : s'.records.length = s.records.length → ∀ (r : Nat) (record' : Request),
      s'.records[r]? = some record' →
      ∃ record : Request, s.records[r]? = some record ∧ record.Evolves record' := by
    intro hlen r record' hr'
    rcases hm.requests.back r record' hr' with ⟨record, hr, hchange⟩ | ⟨hnew, -⟩
    · exact ⟨record, hr, hchange.evolves⟩
    · have := lt_of_getElem? hr'
      omega
  cases hm with
  | @accept c i conn session sequence record f _ _ ha =>
    exact .inr ⟨c, i, session, sequence, record, f, ha, rfl⟩
  | requeue => exact .inl (hback (by rw [records_requeue, List.length_modify]))
  | unregister => exact .inl (hback (by rw [records_unregister]))
  | work hw => exact .inl (hback (by cases hw <;> rfl))
  | start | claim | emptied | stage | finish | finishStaged | retire =>
    exact .inl (hback (List.length_modify _ _ _))
  | _ => exact .inl (hback rfl)

/-- The session of a request that is accepted. -/
theorem sessions_entered {c i : Nat} {session : Session} {sequence : Int} {record : Request}
    (ha : s.Admits cfg c i session sequence record) : record.session = i ∧
      ∃ session' : Session, (s.enter i sequence record).sessions[i]? = some session' ∧
        session'.clientId = session.clientId ∧ session'.watermark = sequence := by
  obtain ⟨m, now, registered, priority, executionTimeout, queueTimeout, hrecord⟩ := ha.fresh
  have hi : record.session = i := by
    rw [hrecord]
    rfl
  refine ⟨hi, _, getElem?_modify_of_some (getElem?_modify_self ha.opened), ?_⟩
  rw [hi, if_pos rfl]
  exact ⟨rfl, rfl⟩

theorem State.Numbered.micro (h : s.Numbered) (hwf : s.WF) (hm : Micro cfg scope s s') :
    s'.Numbered := by
  -- a request that was there before, with its session
  have hpassed : ∀ (r : Nat) (record record' : Request) (session' : Session),
      s.records[r]? = some record → record.Evolves record' →
      s'.sessions[record'.session]? = some session' → session'.Passed record'.requestId := by
    intro r record record' session' hr he hs'
    obtain ⟨session, hs, -⟩ := hwf.owner r record hr
    obtain ⟨session₁, hs₁, hgrows⟩ := hm.sessions hs
    rw [he.session, hs₁] at hs'
    cases hs'
    rw [he.requestId]
    exact (h.passed r record session hr hs).grows hgrows
  rcases hm.accepted with hback | ⟨c, i, session, sequence, record, f, ha, rfl⟩
  · constructor
    · intro r record' session' hr' hs'
      obtain ⟨record, hr, he⟩ := hback r record' hr'
      exact hpassed r record record' session' hr he hs'
    · intro r₁ r₂ record₁' record₂' hr₁' hr₂' hsession hid
      obtain ⟨record₁, hr₁, he₁⟩ := hback r₁ record₁' hr₁'
      obtain ⟨record₂, hr₂, he₂⟩ := hback r₂ record₂' hr₂'
      exact h.unique r₁ r₂ record₁ record₂ hr₁ hr₂
        (he₁.session.symm.trans (hsession.trans he₂.session))
        (he₁.requestId.symm.trans (hid.trans he₂.requestId))
  · obtain ⟨hi, session', hs', hclient, hwatermark⟩ := sessions_entered ha
    constructor
    · intro r record' session'' hr' hs''
      rcases getElem?_append_some hr' with hold | ⟨-, rfl⟩
      · exact hpassed r record' record' session'' hold (.refl record') hs''
      · rw [hi] at hs''
        have hsame : (s.enter i sequence record').sessions[i]? = some session'' := hs''
        rw [hs'] at hsame
        cases hsame
        exact ⟨sequence, by rw [hclient]; exact ha.sequenced, by rw [hwatermark]⟩
    · intro r₁ r₂ record₁ record₂ hr₁ hr₂ hsession hid
      rcases getElem?_append_some hr₁ with hold₁ | ⟨rfl, rfl⟩
      · rcases getElem?_append_some hr₂ with hold₂ | ⟨rfl, rfl⟩
        · exact h.unique r₁ r₂ record₁ record₂ hold₁ hold₂ hsession hid
        · exact absurd hid (h.fresh ha hold₁ (hsession.trans hi))
      · rcases getElem?_append_some hr₂ with hold₂ | ⟨rfl, rfl⟩
        · exact absurd hid.symm (h.fresh ha hold₂ (hsession.symm.trans hi))
        · rfl

/-- A request of the later state was there before, or its number was not let through before. -/
theorem Micros.fresh (hm : Micros cfg scope s s') {r : Nat} {record' : Request}
    (hr' : s'.records[r]? = some record') :
    (∃ record : Request, s.records[r]? = some record ∧ record.Evolves record') ∨
      ∀ session : Session, s.sessions[record'.session]? = some session →
        ¬ session.Passed record'.requestId := by
  induction hm generalizing record' with
  | refl => exact .inl ⟨record', hr', .refl record'⟩
  | @tail x y hprev hstep ih =>
    rcases hstep.accepted with hback | ⟨c, i, session₀, sequence, record, f, ha, rfl⟩
    · obtain ⟨record₁, hr₁, he₁⟩ := hback r record' hr'
      rcases ih hr₁ with ⟨record, hr, he⟩ | hnot
      · exact .inl ⟨record, hr, he.trans he₁⟩
      · right
        rw [he₁.session, he₁.requestId]
        exact hnot
    · rcases getElem?_append_some hr' with hold | ⟨-, rfl⟩
      · exact ih hold
      · right
        intro session hs hpassed
        obtain ⟨hi, -⟩ := sessions_entered ha
        obtain ⟨session', hs', hgrows⟩ := Micros.sessions hprev hs
        rw [hi, ha.opened] at hs'
        cases hs'
        obtain ⟨sequence', hseq, hle⟩ := hpassed.grows hgrows
        rw [ha.sequenced] at hseq
        cases hseq
        exact absurd ha.watermark (not_lt.mpr hle)

/-! ## Sessions of open connections -/

/-- The session of an open connection is live. -/
def State.Attended (s : State) : Prop :=
  ∀ (i : Nat) (session : Session), s.sessions[i]? = some session → i ∉ s.live →
    s.closed session.connection = true

theorem State.Attended.init : State.Attended {} := fun _ _ h => nomatch h

theorem Micro.closed_of (hm : Micro cfg scope s s') (hwf : s.WF) {i : Nat} {session : Session}
    (hs : s.sessions[i]? = some session) (hclosed : s.closed session.connection = true) :
    s'.closed session.connection = true := by
  obtain ⟨conn, hc, -⟩ := hwf.linked i session hs
  unfold State.closed at hclosed ⊢
  rw [hc] at hclosed
  obtain ⟨conn', hc', hclosed'⟩ := hm.closed hc hclosed
  rw [hc']
  exact hclosed'

/-- A session leaves the live ones only once its connection is closed. -/
theorem Micro.stays (hm : Micro cfg scope s s') {i : Nat} (hi : i ∈ s.live) :
    i ∈ s'.live ∨ ∃ session : Session, s.sessions[i]? = some session ∧
      s.closed session.connection = true := by
  cases hm with
  | @unregister j session _ hs hempty hclosed =>
    by_cases he : i = j
    · subst he
      exact .inr ⟨session, hs, hclosed⟩
    · left
      unfold State.unregister
      rw [hs]
      dsimp only
      rw [if_pos hempty]
      exact List.mem_filter.mpr ⟨hi, decide_eq_true he⟩
  | register => exact .inl (List.mem_append_left _ hi)
  | requeue _ _ hr =>
    rw [requeue_eq hr]
    exact .inl hi
  | work hw => exact .inl (by cases hw <;> exact hi)
  | _ => exact .inl hi

/-- A session of the next state was there before, or it is registered and live. -/
theorem Micro.registered (hm : Micro cfg scope s s') {i : Nat} {session' : Session}
    (hs' : s'.sessions[i]? = some session') :
    (∃ session : Session, s.sessions[i]? = some session) ∨ i ∈ s'.live := by
  have hsame : s'.sessions = s.sessions → ∃ session : Session, s.sessions[i]? = some session :=
    fun h => ⟨session', h ▸ hs'⟩
  cases hm with
  | accept =>
    obtain ⟨session₁, hs₁, -⟩ := getElem?_modify_some hs'
    obtain ⟨session, hs, -⟩ := getElem?_modify_some hs₁
    exact .inl ⟨session, hs⟩
  | watermark =>
    obtain ⟨session, hs, -⟩ := getElem?_modify_some hs'
    exact .inl ⟨session, hs⟩
  | retire =>
    obtain ⟨session, hs, -⟩ := getElem?_modify_some hs'
    exact .inl ⟨session, hs⟩
  | register =>
    rcases getElem?_append_some hs' with hold | ⟨rfl, -⟩
    · exact .inl ⟨session', hold⟩
    · exact .inr (List.mem_append_right _ List.mem_cons_self)
  | requeue => exact .inl (hsame (sessions_requeue _))
  | unregister => exact .inl (hsame (sessions_unregister _))
  | work hw => exact .inl (hsame (by cases hw <;> rfl))
  | _ => exact .inl (hsame rfl)

theorem State.Attended.micro (h : s.Attended) (hwf : s.WF) (hm : Micro cfg scope s s') :
    s'.Attended := by
  intro i session' hs' hgone
  rcases hm.registered hs' with ⟨session, hs⟩ | hlive
  · obtain ⟨session₁, hs₁, hgrows⟩ := hm.sessions hs
    rw [hs'] at hs₁
    cases hs₁
    rw [hgrows.connection]
    refine hm.closed_of hwf hs ?_
    by_cases hlive : i ∈ s.live
    · rcases hm.stays hlive with hlive' | ⟨session₀, hs₀, hclosed⟩
      · exact absurd hlive' hgone
      · rw [hs] at hs₀
        cases hs₀
        exact hclosed
    · exact h i session hs hlive
  · exact absurd hlive hgone

end Changes

/-! ## Runs -/

/-- The numbers and the live sessions of a state. -/
structure State.Ordered (s : State) : Prop where
  numbered : s.Numbered
  attended : s.Attended

theorem State.Ordered.micros {cfg : Config} {scope : Scope} {s s' : State} (h : s.Ordered)
    (hinv : s.Inv cfg) (hm : Micros cfg scope s s') : s'.Ordered := by
  induction hm with
  | refl => exact h
  | tail hprev hstep ih =>
    have hwf := (hinv.micros hprev).wf
    exact ⟨ih.numbered.micro hwf hstep, ih.attended.micro hwf hstep⟩

theorem reachable_ordered {cfg : Config} {C : State → Label → Prop} {s : State}
    (h : (broker cfg).Reach C s) : s.Ordered := by
  refine h.invariant ⟨.init, .init⟩ fun s l s' hreach hordered _ hstep => ?_
  have hinv := reachable_inv hreach
  exact hordered.micros hinv (step_micros hinv (Scope.allows_all s l.action) hstep)

/-- Requests of one connection belong to one session. -/
theorem State.WF.same_session {s : State} (h : s.WF) {r r' : Nat} {record record' : Request}
    (hr : s.records[r]? = some record) (hr' : s.records[r']? = some record')
    (hconn : record.connection = record'.connection) : record.session = record'.session := by
  obtain ⟨conn, hc, hi⟩ := h.connected hr
  obtain ⟨conn', hc', hi'⟩ := h.connected hr'
  rw [hconn, hc'] at hc
  cases hc
  rw [hi'] at hi
  exact (Option.some.inj hi).symm

/-- A connection has one request with an ID. -/
theorem State.Ordered.same_request {s : State} (h : s.Ordered) (hwf : s.WF) {r r' : Nat}
    {record record' : Request} (hr : s.records[r]? = some record)
    (hr' : s.records[r']? = some record') (hconn : record.connection = record'.connection)
    (hid : record.requestId = record'.requestId) : r = r' :=
  h.numbered.unique r r' record record' hr hr' (hwf.same_session hr hr' hconn) hid

end Deadpool.Remote.Broker
