import Mathlib.Algebra.Order.BigOperators.Group.List
import Deadpool.Remote.Broker.Chain
import Deadpool.Remote.Worker

/-!
# The broker: reservations

A request that is accepted reserves room for its outcome, and the reservation is held until the request
is removed.  The counters of a session and of the server say how much is reserved.

Principal results: `reservations_balance` — in every reachable state the counters agree with the
tables, they stay within the limits of the configuration, and the outcomes that are kept fit into what
is reserved for them.
-/

set_option autoImplicit false

namespace Deadpool.Remote.Broker

open Deadpool.Py Deadpool.Lts

/-! ## Counters -/

/-- The bytes reserved for a request. -/
def State.reservation (s : State) (r : Nat) : Nat :=
  (s.records[r]?.map Request.reservedResultBytes).getD 0

/-- The bytes reserved for the requests of a session. -/
def State.charge (s : State) (requests : Table Str Nat) : Nat :=
  (requests.values.map s.reservation).sum

/-- The fields of a session that reservations are about. -/
structure Ledger where
  requests : Table Str Nat
  reservedOutcomes : Int
  reservedOutcomeBytes : Int

def Session.ledger (session : Session) : Ledger :=
  ⟨session.requests, session.reservedOutcomes, session.reservedOutcomeBytes⟩

/-- The counters of a session agree with its table, and both are within the limits. -/
structure Ledger.Balanced (cfg : Config) (charge : Table Str Nat → Nat) (ledger : Ledger) : Prop where
  outcomes : ledger.reservedOutcomes = ledger.requests.length
  bytes : ledger.reservedOutcomeBytes = charge ledger.requests
  pending : ledger.requests.length ≤ cfg.limits.maxPendingPerSession
  retained : ledger.requests.length ≤ cfg.limits.maxRetainedOutcomesPerSession
  retainedBytes : charge ledger.requests ≤ cfg.limits.maxRetainedOutcomeBytesPerSession

structure State.Balanced (cfg : Config) (s : State) : Prop where
  session : ∀ (i : Nat) (session : Session), s.sessions[i]? = some session →
    session.ledger.Balanced cfg s.charge
  outcomes : s.reservedOutcomes = (s.sessions.map Session.reservedOutcomes).sum
  bytes : s.reservedOutcomeBytes = (s.sessions.map Session.reservedOutcomeBytes).sum
  retained : s.reservedOutcomes ≤ cfg.limits.maxRetainedOutcomesGlobal
  retainedBytes : s.reservedOutcomeBytes ≤ cfg.limits.maxRetainedOutcomeBytesGlobal

section Counters

variable {cfg : Config} {scope : Scope} {s s' : State}

theorem State.Balanced.init (cfg : Config) : State.Balanced cfg {} :=
  ⟨(fun _ _ h => nomatch h), rfl, rfl, Int.natCast_nonneg _, Int.natCast_nonneg _⟩

theorem reservation_of_some {r : Nat} {record : Request} (hr : s.records[r]? = some record) :
    s.reservation r = record.reservedResultBytes := by
  unfold State.reservation
  rw [hr]
  rfl

/-- What is reserved for a request does not change. -/
theorem charge_evolves (hwf : s.WF) (he : s.Evolves s') {i : Nat} {session : Session}
    (hs : s.sessions[i]? = some session) : s'.charge session.requests = s.charge session.requests := by
  unfold State.charge
  refine congrArg List.sum (List.map_congr_left fun r hr => ?_)
  obtain ⟨⟨k, r⟩, hm, rfl⟩ := List.mem_map.mp hr
  obtain ⟨record, hrec, -⟩ := hwf.entry i session k r hs hm
  obtain ⟨record', hrec', hevolves⟩ := he r record hrec
  rw [reservation_of_some hrec, reservation_of_some hrec', hevolves.reserved]

theorem Ledger.Balanced.of_charge {charge charge' : Table Str Nat → Nat} {ledger : Ledger}
    (h : ledger.Balanced cfg charge) (heq : charge' ledger.requests = charge ledger.requests) :
    ledger.Balanced cfg charge' where
  outcomes := h.outcomes
  bytes := by rw [heq]; exact h.bytes
  pending := h.pending
  retained := h.retained
  retainedBytes := by rw [heq]; exact h.retainedBytes

theorem unregister_eq (s : State) (i : Nat) : ∃ live clientSessions, s.unregister i =
    { s with live, clientSessions } := by
  unfold State.unregister
  split
  · exact ⟨_, _, rfl⟩
  · split
    · exact ⟨_, _, rfl⟩
    · exact ⟨_, _, rfl⟩

namespace State.Balanced

/-- The counters and the tables of the sessions stay. -/
theorem congr (h : s.Balanced cfg) (hwf : s.WF) (he : s.Evolves s')
    (hsessions : s'.sessions.map Session.ledger = s.sessions.map Session.ledger)
    (houtcomes : s'.reservedOutcomes = s.reservedOutcomes)
    (hbytes : s'.reservedOutcomeBytes = s.reservedOutcomeBytes) : s'.Balanced cfg where
  session := by
    intro i session' hs'
    have hledger : (s.sessions.map Session.ledger)[i]? = some session'.ledger := by
      rw [← hsessions, List.getElem?_map, hs']
      rfl
    rw [List.getElem?_map] at hledger
    obtain ⟨session, hs, heq⟩ := Option.map_eq_some_iff.mp hledger
    rw [← heq]
    exact (h.session i session hs).of_charge (charge_evolves hwf he hs)
  outcomes := by
    have hmap : s'.sessions.map Session.reservedOutcomes = s.sessions.map Session.reservedOutcomes := by
      have hcongr := congrArg (List.map Ledger.reservedOutcomes) hsessions
      rw [List.map_map, List.map_map] at hcongr
      exact hcongr
    rw [houtcomes, hmap]
    exact h.outcomes
  bytes := by
    have hmap : s'.sessions.map Session.reservedOutcomeBytes =
        s.sessions.map Session.reservedOutcomeBytes := by
      have hcongr := congrArg (List.map Ledger.reservedOutcomeBytes) hsessions
      rw [List.map_map, List.map_map] at hcongr
      exact hcongr
    rw [hbytes, hmap]
    exact h.bytes
  retained := by rw [houtcomes]; exact h.retained
  retainedBytes := by rw [hbytes]; exact h.retainedBytes

/-- The ledger of one session changes, and the counters of the server with it. -/
theorem modify (h : s.Balanced cfg) (hwf : s.WF) (he : s.Evolves s') {i : Nat} {session : Session}
    {g : Session → Session} (hs : s.sessions[i]? = some session)
    (hsessions : s'.sessions = s.sessions.modify i g)
    (hbalanced : (g session).ledger.Balanced cfg s'.charge)
    (houtcomes : s'.reservedOutcomes =
      s.reservedOutcomes + ((g session).reservedOutcomes - session.reservedOutcomes))
    (hbytes : s'.reservedOutcomeBytes =
      s.reservedOutcomeBytes + ((g session).reservedOutcomeBytes - session.reservedOutcomeBytes))
    (hretained : s'.reservedOutcomes ≤ cfg.limits.maxRetainedOutcomesGlobal)
    (hretainedBytes : s'.reservedOutcomeBytes ≤ cfg.limits.maxRetainedOutcomeBytesGlobal) :
    s'.Balanced cfg where
  session := by
    intro j session' hs'
    rw [hsessions] at hs'
    obtain ⟨session₀, hs₀, rfl⟩ := getElem?_modify_some hs'
    split
    · rename_i heq
      subst heq
      rw [hs] at hs₀
      cases hs₀
      exact hbalanced
    · exact (h.session j session₀ hs₀).of_charge (charge_evolves hwf he hs₀)
  outcomes := by
    rw [houtcomes, hsessions, sum_map_modify _ hs, h.outcomes]
  bytes := by
    rw [hbytes, hsessions, sum_map_modify _ hs, h.bytes]
  retained := hretained
  retainedBytes := hretainedBytes

/-- `_submit` -/
theorem enter (h : s.Balanced cfg) (hwf : s.WF) {c i : Nat} {session : Session} {sequence : Int}
    {record : Request} (ha : s.Admits cfg c i session sequence record) :
    (s.enter i sequence record).Balanced cfg := by
  obtain ⟨m, now, registered, priority, executionTimeout, queueTimeout, hrecord⟩ := ha.fresh
  have hi : record.session = i := by
    rw [hrecord]
    rfl
  have hreserved : record.reservedResultBytes = session.maxResultBytes := by
    rw [hrecord]
    rfl
  have hevolves : s.Evolves (s.enter i sequence record) :=
    fun r record' hr => ⟨record', getElem?_append_of_some hr, .refl record'⟩
  have hnew : (s.enter i sequence record).reservation s.records.length = session.maxResultBytes := by
    rw [← hreserved]
    exact reservation_of_some getElem?_append_length
  have hold := h.session i session ha.opened
  have hcharge : (s.enter i sequence record).charge
      (session.requests.set record.requestId s.records.length) =
      s.charge session.requests + session.maxResultBytes := by
    have hsame : (s.enter i sequence record).charge session.requests = s.charge session.requests :=
      charge_evolves hwf hevolves ha.opened
    rw [Table.set_of_get?_none ha.unlisted]
    unfold State.charge Table.values at hsame ⊢
    rw [List.map_append, List.map_append, List.sum_append, hsame]
    simp [hnew]
  have hlength : (session.requests.set record.requestId s.records.length).length =
      session.requests.length + 1 := by
    rw [Table.set_of_get?_none ha.unlisted, List.length_append]
    rfl
  -- the tests of `_submit`
  have hroom := ha.room
  simp only [State.queueFull, Bool.or_eq_false_iff, decide_eq_false_iff_not, ge_iff_le, gt_iff_lt,
    Nat.not_le, Int.not_le, Int.not_lt] at hroom
  obtain ⟨⟨⟨⟨⟨⟨hpending, -⟩, -⟩, hretained⟩, hglobal⟩, hbytes⟩, hglobalBytes⟩ := hroom
  have houtcomes : session.reservedOutcomes = session.requests.length := hold.outcomes
  have hcounted : session.reservedOutcomeBytes = s.charge session.requests := hold.bytes
  refine h.modify hwf hevolves ha.opened (WF.sessions_enter hi) ⟨?_, ?_, ?_, ?_, ?_⟩ ?_ ?_ ?_ ?_
  · show session.reservedOutcomes + 1 = ((session.requests.set _ _).length : Nat)
    rw [hlength]
    omega
  · show session.reservedOutcomeBytes + record.reservedResultBytes =
      ((s.enter i sequence record).charge (session.requests.set _ _) : Nat)
    rw [hcharge]
    omega
  · show (session.requests.set _ _).length ≤ _
    omega
  · show (session.requests.set _ _).length ≤ _
    omega
  · show (s.enter i sequence record).charge (session.requests.set _ _) ≤ _
    omega
  · show s.reservedOutcomes + 1 = s.reservedOutcomes + (session.reservedOutcomes + 1 - _)
    omega
  · show s.reservedOutcomeBytes + record.reservedResultBytes = s.reservedOutcomeBytes +
      (session.reservedOutcomeBytes + record.reservedResultBytes - _)
    omega
  · show s.reservedOutcomes + 1 ≤ _
    omega
  · show s.reservedOutcomeBytes + record.reservedResultBytes ≤ _
    omega

/-- `_remove_request_locked` -/
theorem retire (h : s.Balanced cfg) (hwf : s.WF) {r : Nat} {record : Request}
    (hr : s.records[r]? = some record) (hterm : record.state.terminal = true)
    (hl : s.Listed r record) : (s.retire r record).Balanced cfg := by
  obtain ⟨session, hs, hm⟩ := hl
  have hevolves : s.Evolves (s.retire r record) := by
    intro r' record' hr'
    refine ⟨_, getElem?_modify_of_some hr', ?_⟩
    split
    · rename_i heq
      subst heq
      rw [hr] at hr'
      cases hr'
      have hchange : Request.Change .all r record _ := .retire hterm
      exact hchange.evolves
    · exact .refl record'
  have hperm := Table.perm_pop (hwf.keys _ session hs) hm
  have hlength : session.requests.length = (session.requests.pop record.requestId).length + 1 :=
    hperm.length_eq
  have hcharge : s.charge session.requests =
      record.reservedResultBytes + (s.retire r record).charge (session.requests.pop record.requestId) := by
    have hsum := ((hperm.map Prod.snd).map (s.retire r record).reservation).sum_eq
    rw [← charge_evolves hwf hevolves hs]
    unfold State.charge Table.values
    rw [hsum, List.map_cons, List.map_cons, List.sum_cons]
    obtain ⟨record', hr', he⟩ := hevolves r record hr
    rw [reservation_of_some hr', he.reserved]
  have hold := h.session record.session session hs
  have houtcomes : session.reservedOutcomes = session.requests.length := hold.outcomes
  have hcounted : session.reservedOutcomeBytes = s.charge session.requests := hold.bytes
  have hpending : session.requests.length ≤ cfg.limits.maxPendingPerSession := hold.pending
  have hretained : session.requests.length ≤ cfg.limits.maxRetainedOutcomesPerSession := hold.retained
  have hbytes : s.charge session.requests ≤ cfg.limits.maxRetainedOutcomeBytesPerSession :=
    hold.retainedBytes
  have hglobal := h.retained
  have hglobalBytes := h.retainedBytes
  refine h.modify hwf hevolves hs rfl ⟨?_, ?_, ?_, ?_, ?_⟩ ?_ ?_ ?_ ?_
  · show session.reservedOutcomes - 1 = ((session.requests.pop _).length : Nat)
    omega
  · show session.reservedOutcomeBytes - record.reservedResultBytes =
      ((s.retire r record).charge (session.requests.pop _) : Nat)
    omega
  · show (session.requests.pop _).length ≤ _
    omega
  · show (session.requests.pop _).length ≤ _
    omega
  · show (s.retire r record).charge (session.requests.pop _) ≤ _
    omega
  · show s.reservedOutcomes - 1 = s.reservedOutcomes + (session.reservedOutcomes - 1 - _)
    omega
  · show s.reservedOutcomeBytes - record.reservedResultBytes = s.reservedOutcomeBytes +
      (session.reservedOutcomeBytes - record.reservedResultBytes - _)
    omega
  · show s.reservedOutcomes - 1 ≤ _
    omega
  · show s.reservedOutcomeBytes - record.reservedResultBytes ≤ _
    omega

/-- `_handshake` -/
theorem register (h : s.Balanced cfg) {session : Session} (hledger : session.ledger = ⟨[], 0, 0⟩)
    (hsessions : s'.sessions = s.sessions ++ [session]) (hrecords : s'.records = s.records)
    (houtcomes : s'.reservedOutcomes = s.reservedOutcomes)
    (hbytes : s'.reservedOutcomeBytes = s.reservedOutcomeBytes) : s'.Balanced cfg where
  session := by
    have hcharge : s'.charge = s.charge := by
      unfold State.charge State.reservation
      rw [hrecords]
    intro i session' hs'
    rw [hcharge]
    rw [hsessions] at hs'
    rcases getElem?_append_some hs' with hs | ⟨-, rfl⟩
    · exact h.session i session' hs
    · rw [hledger]
      exact ⟨rfl, rfl, Nat.zero_le _, Nat.zero_le _, Nat.zero_le _⟩
  outcomes := by
    have hzero : session.reservedOutcomes = 0 := congrArg Ledger.reservedOutcomes hledger
    rw [houtcomes, hsessions, List.map_append, List.sum_append, h.outcomes]
    simp [hzero]
  bytes := by
    have hzero : session.reservedOutcomeBytes = 0 := congrArg Ledger.reservedOutcomeBytes hledger
    rw [hbytes, hsessions, List.map_append, List.sum_append, h.bytes]
    simp [hzero]
  retained := by rw [houtcomes]; exact h.retained
  retainedBytes := by rw [hbytes]; exact h.retainedBytes

/-- Every change keeps the balance. -/
theorem micro (h : s.Balanced cfg) (hwf : s.WF) (hm : Micro cfg scope s s') : s'.Balanced cfg := by
  have he := hm.evolves
  cases hm with
  | accept _ _ ha => exact (h.enter hwf ha).congr (hwf.enter ha) (.refl _) rfl rfl rfl
  | watermark _ hs =>
    have hold := h.session _ _ hs
    refine h.modify hwf he hs rfl (hold.of_charge (charge_evolves hwf he hs)) ?_ ?_ h.retained
      h.retainedBytes
    · exact (Int.sub_self _ ▸ Int.add_zero _).symm
    · exact (Int.sub_self _ ▸ Int.add_zero _).symm
  | retire _ hr hterm _ hl => exact h.retire hwf hr hterm hl
  | @register c conn session _ _ _ _ _ hnew =>
    have hledger : session.ledger = ⟨[], 0, 0⟩ := by
      rw [hnew]
      rfl
    exact h.register hledger rfl rfl rfl rfl
  | requeue _ _ hr =>
    rw [requeue_eq hr] at he ⊢
    exact h.congr hwf he rfl rfl rfl
  | @unregister i =>
    obtain ⟨live, clientSessions, heq⟩ := unregister_eq s i
    rw [heq] at he ⊢
    exact h.congr hwf he rfl rfl rfl
  | work hw => cases hw <;> exact h.congr hwf he rfl rfl rfl
  | _ => exact h.congr hwf he rfl rfl rfl

end State.Balanced

end Counters

/-! ## Releases -/

/-- A total over the requests whose reservation is held, by its size. -/
def State.held (weight : Nat → Int) (s : State) : Int :=
  (s.records.map fun record =>
    if record.reservationReleased then 0 else weight record.reservedResultBytes).sum

/-- The counters of the server are what was reserved, less what was released. -/
def State.Tallied (s : State) : Prop :=
  s.reservedOutcomes = s.held (fun _ => 1) ∧ s.reservedOutcomeBytes = s.held (fun n => n)

section Releases

variable {cfg : Config} {scope : Scope} {s s' : State}

theorem held_of_eq (weight : Nat → Int) (h : s'.records = s.records) :
    s'.held weight = s.held weight := by
  unfold State.held
  rw [h]

/-- An assignment to one request. -/
theorem held_modify (weight : Nat → Int) {r : Nat} {record : Request} {g : Request → Request}
    (hr : s.records[r]? = some record) (h : s'.records = s.records.modify r g)
    (hreserved : (g record).reservedResultBytes = record.reservedResultBytes) :
    s'.held weight = s.held weight +
      ((if (g record).reservationReleased then 0 else weight record.reservedResultBytes) -
        (if record.reservationReleased then 0 else weight record.reservedResultBytes)) := by
  unfold State.held
  rw [h, sum_map_modify _ hr, hreserved]

/-- A reservation is made on acceptance and released on removal, and at no other time. -/
theorem Micro.held (hwf : s.WF) (hm : Micro cfg scope s s') :
    (∀ weight, s'.held weight = s.held weight) ∧ s'.reservedOutcomes = s.reservedOutcomes ∧
        s'.reservedOutcomeBytes = s.reservedOutcomeBytes ∨
      ∃ n : Nat, (∀ weight, s'.held weight = s.held weight + weight n) ∧
          s'.reservedOutcomes = s.reservedOutcomes + 1 ∧
          s'.reservedOutcomeBytes = s.reservedOutcomeBytes + n ∨
        (∀ weight, s'.held weight = s.held weight - weight n) ∧
          s'.reservedOutcomes = s.reservedOutcomes - 1 ∧
          s'.reservedOutcomeBytes = s.reservedOutcomeBytes - n := by
  -- an assignment that leaves the reservation of a request
  have hset : ∀ {r : Nat} {record : Request} {g : Request → Request},
      s.records[r]? = some record → s'.records = s.records.modify r g →
      (g record).reservedResultBytes = record.reservedResultBytes →
      (g record).reservationReleased = record.reservationReleased →
      ∀ weight, s'.held weight = s.held weight := by
    intro r record g hr h hreserved hreleased weight
    rw [held_modify weight hr h hreserved, hreleased]
    omega
  cases hm with
  | @accept c i conn session sequence record f _ _ ha =>
    obtain ⟨m, now, registered, priority, executionTimeout, queueTimeout, hrecord⟩ := ha.fresh
    have hreleased : record.reservationReleased = false := by
      rw [hrecord]
      rfl
    refine .inr ⟨record.reservedResultBytes, .inl ⟨fun weight => ?_, rfl, rfl⟩⟩
    show ((s.records ++ [record]).map _).sum = _
    rw [List.map_append, List.sum_append]
    simp [State.held, hreleased]
  | start _ _ hr => exact .inl ⟨hset hr rfl rfl rfl, rfl, rfl⟩
  | claim _ hr => exact .inl ⟨hset hr rfl rfl rfl, rfl, rfl⟩
  | emptied _ hr => exact .inl ⟨hset hr rfl rfl rfl, rfl, rfl⟩
  | stage _ _ _ _ hr => exact .inl ⟨hset hr rfl rfl rfl, rfl, rfl⟩
  | requeue _ _ hr =>
    rw [requeue_eq hr] at hset ⊢
    exact .inl ⟨hset hr rfl rfl rfl, rfl, rfl⟩
  | finish _ _ hr => exact .inl ⟨hset hr rfl rfl rfl, rfl, rfl⟩
  | finishStaged _ _ hr => exact .inl ⟨hset hr rfl rfl rfl, rfl, rfl⟩
  | @retire r record _ hr _ _ hl =>
    obtain ⟨session, hs, hm⟩ := hl
    obtain ⟨record', hr', -, -, hreleased⟩ := hwf.entry _ session _ r hs hm
    rw [hr] at hr'
    cases hr'
    refine .inr ⟨record.reservedResultBytes, .inr ⟨fun weight => ?_, rfl, rfl⟩⟩
    rw [held_modify weight hr rfl rfl, hreleased]
    show _ + (0 - weight _) = _
    omega
  | @unregister i =>
    obtain ⟨live, clientSessions, heq⟩ := unregister_eq s i
    rw [heq]
    exact .inl ⟨fun weight => rfl, rfl, rfl⟩
  | work hw => exact .inl (by cases hw <;> exact ⟨fun weight => rfl, rfl, rfl⟩)
  | _ => exact .inl ⟨fun weight => rfl, rfl, rfl⟩

theorem State.Tallied.micro (h : s.Tallied) (hwf : s.WF) (hm : Micro cfg scope s s') : s'.Tallied := by
  obtain ⟨houtcomes, hbytes⟩ := h
  rcases hm.held hwf with ⟨hheld, ho, hb⟩ | ⟨n, ⟨hheld, ho, hb⟩ | ⟨hheld, ho, hb⟩⟩
  · exact ⟨by rw [ho, houtcomes, hheld], by rw [hb, hbytes, hheld]⟩
  · exact ⟨by rw [ho, houtcomes, hheld], by rw [hb, hbytes, hheld]⟩
  · exact ⟨by rw [ho, houtcomes, hheld], by rw [hb, hbytes, hheld]⟩

end Releases

/-! ## Outcomes -/

/-- What the local pool returned for a request, and what a request keeps of it, fits into the
reservation. -/
structure State.Fits (s : State) : Prop where
  limit : ∀ (r : Nat) (record : Request), s.records[r]? = some record →
    record.maxResultBytes = record.reservedResultBytes
  kept : ∀ (r : Nat) (record : Request), s.records[r]? = some record →
    record.terminalPayload.length ≤ record.reservedResultBytes
  returned : ∀ (f : Nat) (fut : LocalFuture) (outcome : Outcome) (record : Request),
    s.futures[f]? = some fut → fut.phase = .done outcome → s.records[fut.record]? = some record →
    outcome.payload.length ≤ record.reservedResultBytes
  failed : ∀ r f outcome, s.dispatcher = .failed r f outcome → outcome.payload = []

section Outcomes

variable {cfg : Config} {scope : Scope} {s s' : State}

theorem State.Fits.init : State.Fits {} :=
  ⟨(fun _ _ h => nomatch h), (fun _ _ h => nomatch h), (fun _ _ _ _ h => nomatch h),
    fun _ _ _ h => nomatch h⟩

theorem Request.Change.maxResultBytes {r : Nat} {record record' : Request}
    (h : Request.Change scope r record record') : record'.maxResultBytes = record.maxResultBytes := by
  cases h <;> rfl

/-- Where the payload that a request keeps comes from. -/
theorem Micro.payloads (hm : Micro cfg scope s s') {r : Nat} {record' : Request}
    (hr : s'.records[r]? = some record') :
    s.Returned r record'.terminalPayload ∨ ∃ record : Request, s.records[r]? = some record ∧
      record'.terminalPayload = record.terminalPayload := by
  have hsame : s'.records = s.records → ∃ record : Request, s.records[r]? = some record ∧
      record'.terminalPayload = record.terminalPayload := by
    intro heq
    rw [heq] at hr
    exact ⟨record', hr, rfl⟩
  -- an assignment to one request
  have hset : ∀ {r' : Nat} {g : Request → Request}, s'.records = s.records.modify r' g →
      (∀ record : Request, s.Returned r' (g record).terminalPayload ∨
        (g record).terminalPayload = record.terminalPayload) →
      s.Returned r record'.terminalPayload ∨ ∃ record : Request, s.records[r]? = some record ∧
        record'.terminalPayload = record.terminalPayload := by
    intro r' g heq hg
    rw [heq] at hr
    obtain ⟨record, hrec, rfl⟩ := getElem?_modify_some hr
    split
    · rename_i he
      subst he
      rcases hg record with hreturned | hkept
      · exact .inl hreturned
      · exact .inr ⟨record, hrec, hkept⟩
    · exact .inr ⟨record, hrec, rfl⟩
  cases hm with
  | accept _ _ ha =>
    rcases getElem?_append_some hr with hold | ⟨-, rfl⟩
    · exact .inr ⟨record', hold, rfl⟩
    · obtain ⟨m, now, registered, priority, executionTimeout, queueTimeout, hrecord⟩ := ha.fresh
      have hempty : record'.terminalPayload = [] := by
        rw [hrecord]
        rfl
      rw [hempty]
      exact .inl .empty
  | start => exact hset rfl fun _ => .inr rfl
  | claim => exact hset rfl fun _ => .inr rfl
  | emptied => exact hset rfl fun _ => .inr rfl
  | stage => exact hset rfl fun _ => .inr rfl
  | requeue => exact hset (records_requeue _) fun _ => .inr rfl
  | finish _ _ _ _ ht => exact hset rfl fun _ => .inl ht.payload
  | finishStaged _ _ _ _ _ ht => exact hset rfl fun _ => .inl ht.payload
  | retire => exact hset rfl fun _ => .inl .empty
  | unregister => exact .inr (hsame (records_unregister _))
  | work hw => exact .inr (hsame (by cases hw <;> rfl))
  | _ => exact .inr (hsame rfl)

/-- Where the outcome of a local future comes from. -/
theorem Micro.outcomes (hm : Micro cfg scope s s') {f : Nat} {fut' : LocalFuture} {outcome : Outcome}
    (hf : s'.futures[f]? = some fut') (hdone : fut'.phase = .done outcome) :
    ∃ fut : LocalFuture, s.futures[f]? = some fut ∧ fut'.record = fut.record ∧
      (outcome = cancelledOutcome ∨ scope.returns s f outcome ∨ fut.phase = .done outcome) := by
  have hsame : s'.futures = s.futures → ∃ fut : LocalFuture, s.futures[f]? = some fut ∧
      fut'.record = fut.record ∧
      (outcome = cancelledOutcome ∨ scope.returns s f outcome ∨ fut.phase = .done outcome) := by
    intro heq
    rw [heq] at hf
    exact ⟨fut', hf, rfl, .inr (.inr hdone)⟩
  -- an assignment to one future
  have hset : ∀ {f' : Nat} {g : LocalFuture → LocalFuture}, s'.futures = s.futures.modify f' g →
      (∀ fut : LocalFuture, (g fut).record = fut.record) →
      (∀ fut : LocalFuture, (g fut).phase = .done outcome → outcome = cancelledOutcome ∨
        scope.returns s f' outcome ∨ fut.phase = .done outcome) →
      ∃ fut : LocalFuture, s.futures[f]? = some fut ∧ fut'.record = fut.record ∧
        (outcome = cancelledOutcome ∨ scope.returns s f outcome ∨ fut.phase = .done outcome) := by
    intro f' g heq hrecord hg
    rw [heq] at hf
    obtain ⟨fut, hfut, rfl⟩ := getElem?_modify_some hf
    refine ⟨fut, hfut, ?_⟩
    split at hdone
    · rename_i he
      subst he
      rw [if_pos rfl]
      exact ⟨hrecord fut, hg fut hdone⟩
    · rename_i hne
      rw [if_neg hne]
      exact ⟨rfl, .inr (.inr hdone)⟩
  have hphase : ∀ o : Outcome, FuturePhase.done o = .done outcome → outcome = o := by
    intro o heq
    cases heq
    rfl
  cases hm with
  | stage =>
    rcases getElem?_append_some hf with hold | ⟨-, rfl⟩
    · exact ⟨fut', hold, rfl, .inr (.inr hdone)⟩
    · cases hdone
  | requeue _ _ hr => exact hsame (by rw [requeue_eq hr]; rfl)
  | @unregister i =>
    obtain ⟨live, clientSessions, heq⟩ := unregister_eq s i
    exact hsame (by rw [heq])
  | work hw =>
    cases hw with
    | refused | call | exit | called => exact hsame rfl
    | submitted | attach | pid | notified => exact hset rfl (fun _ => rfl) fun _ h => .inr (.inr h)
    | cancel | cancelled => exact hset rfl (fun _ => rfl) fun _ h => .inl (hphase _ h)
    | finish _ _ _ hreturns =>
      refine hset rfl (fun _ => rfl) fun _ h => .inr (.inl ?_)
      rw [hphase _ h]
      exact hreturns
  | _ => exact hsame rfl

/-- The dispatcher fails with an exception only. -/
theorem Micro.failed (hm : Micro cfg scope s s') {r f : Nat} {outcome : Outcome}
    (hd : s'.dispatcher = .failed r f outcome) :
    s.dispatcher = .failed r f outcome ∨ outcome.payload = [] := by
  cases hm with
  | stage => cases hd
  | requeue _ _ hr =>
    rw [requeue_eq hr] at hd
    cases hd
  | @unregister i =>
    obtain ⟨live, clientSessions, heq⟩ := unregister_eq s i
    rw [heq] at hd
    exact .inl hd
  | work hw =>
    cases hw with
    | submitted | attach | call | exit | called => cases hd
    | refused _ hd' =>
      rcases hd' with rfl | ⟨text, rfl⟩
      · cases hd
      · cases hd
        exact .inr rfl
    | finish | cancel | pid | cancelled | notified => exact .inl hd
  | _ => exact .inl hd

namespace State.Fits

/-- What `_complete_local` finds fits. -/
theorem le_of_returned (h : s.Fits) {r : Nat} {record : Request} {payload : Bytes}
    (hr : s.records[r]? = some record) (hreturned : s.Returned r payload) :
    payload.length ≤ record.reservedResultBytes := by
  cases hreturned with
  | empty => exact Nat.zero_le _
  | future hf hrecord hdone =>
    subst hrecord
    exact h.returned _ _ _ record hf hdone hr
  | failed hd =>
    rw [h.failed _ _ _ hd]
    exact Nat.zero_le _

/-- Outcomes that the pool may return fit into the reservation of the request. -/
def fitting : Scope :=
  { Scope.all with
    returns := fun s f outcome => ∀ (fut : LocalFuture) (record : Request), s.futures[f]? = some fut →
      s.records[fut.record]? = some record → outcome.payload.length ≤ record.maxResultBytes }

theorem micro (h : s.Fits) (hwf : s.WF) (hm : Micro cfg fitting s s') : s'.Fits where
  limit := by
    intro r record' hr'
    rcases hm.requests.back r record' hr' with ⟨record, hr, hchange⟩ | ⟨-, c, i, session, sequence, ha, -⟩
    · rw [hchange.maxResultBytes, hchange.evolves.reserved]
      exact h.limit r record hr
    · obtain ⟨m, now, registered, priority, executionTimeout, queueTimeout, hrecord⟩ := ha.fresh
      rw [hrecord]
      rfl
  kept := by
    intro r record' hr'
    rcases hm.requests.back r record' hr' with ⟨record, hr, hchange⟩ | ⟨-, c, i, session, sequence, ha, -⟩
    · rw [hchange.evolves.reserved]
      rcases hm.payloads hr' with hreturned | ⟨record₁, hr₁, hkept⟩
      · exact h.le_of_returned hr hreturned
      · rw [hr] at hr₁
        cases hr₁
        rw [hkept]
        exact h.kept r record hr
    · obtain ⟨m, now, registered, priority, executionTimeout, queueTimeout, hrecord⟩ := ha.fresh
      rw [hrecord]
      exact Nat.zero_le _
  returned := by
    intro f fut' outcome record' hf hdone hr'
    obtain ⟨fut, hfut, hrecord, horigin⟩ := hm.outcomes hf hdone
    obtain ⟨record, hr⟩ := hwf.future f fut hfut
    rw [hrecord] at hr'
    have he := hm.evolves.back hr hr'
    rw [he.reserved]
    rcases horigin with rfl | hreturns | hold
    · exact Nat.zero_le _
    · rw [← h.limit _ record hr]
      exact hreturns fut record hfut hr
    · exact h.returned f fut outcome record hfut hold hr
  failed := by
    intro r f outcome hd
    rcases hm.failed hd with hold | hempty
    · exact h.failed r f outcome hold
    · exact hempty

end State.Fits

end Outcomes

/-! ## Runs -/

/-- What the local pool returns for a request is what `execute_opaque` returned, unless it is an
exception of the pool. -/
def Yields {α ε : Type} (w : Worker α ε) (s : State) (l : Label) : Prop :=
  ∀ f kind payload descriptor, l.action = .finish f (.worker kind payload descriptor) →
    ∀ (fut : LocalFuture) (record : Request), s.futures[f]? = some fut →
    s.records[fut.record]? = some record → ∃ invocation, .worker kind payload descriptor =
      w.executeOpaque record.registered invocation record.operation record.maxResultBytes

/-- The counters and the outcomes together. -/
structure State.Reserved (cfg : Config) (s : State) : Prop where
  inv : s.Inv cfg
  balanced : s.Balanced cfg
  tallied : s.Tallied
  fits : s.Fits

section Runs

variable {cfg : Config} {s s' : State}

theorem State.Reserved.init (cfg : Config) : State.Reserved cfg {} :=
  ⟨.init cfg, .init cfg, ⟨rfl, rfl⟩, .init⟩

theorem State.Reserved.micros (h : s.Reserved cfg) (hm : Micros cfg State.Fits.fitting s s') :
    s'.Reserved cfg := by
  induction hm with
  | refl => exact h
  | tail _ hstep ih =>
    have hwf := ih.inv.wf
    exact ⟨ih.inv.micros (.single hstep), ih.balanced.micro hwf hstep, ih.tallied.micro hwf hstep,
      ih.fits.micro hwf hstep⟩

/-- The outcomes of a worker whose serializer honours its limit fit. -/
theorem fitting_allows {α ε : Type} {w : Worker α ε} (hw : w.Honours) {l : Label}
    (h : Yields w s l) : State.Fits.fitting.Allows s l.action := by
  have hall := Scope.allows_all s l.action
  cases ha : l.action with
  | finish f outcome =>
    intro flips fut record hf hr
    cases outcome with
    | worker kind payload descriptor =>
      obtain ⟨invocation, heq⟩ := h f kind payload descriptor ha fut record hf hr
      rw [heq]
      exact w.executeOpaque_payload_le hw _ _ _ _
    | _ => exact Nat.zero_le _
  | handle c now grant statistics =>
    rw [ha] at hall
    exact ⟨⟨hall.1.session, hall.1.ends⟩, hall.2⟩
  | disconnect c =>
    rw [ha] at hall
    exact ⟨⟨hall.1.session, hall.1.ends⟩, hall.2⟩
  | _ =>
    rw [ha] at hall
    exact hall

theorem reach_reserved {α ε : Type} {w : Worker α ε} (hw : w.Honours)
    (h : (broker cfg).Reach (Yields w) s) : s.Reserved cfg := by
  refine h.invariant (I := State.Reserved cfg) (.init cfg) fun s l s' _ hreserved hyields hstep => ?_
  exact hreserved.micros (step_micros hreserved.inv (fitting_allows hw hyields) hstep)

/-- The bytes of its outcome that a request keeps. -/
def State.retention (s : State) (r : Nat) : Nat :=
  (s.records[r]?.map fun record => record.terminalPayload.length).getD 0

theorem State.Fits.retention_le (h : s.Fits) (r : Nat) : s.retention r ≤ s.reservation r := by
  unfold State.retention State.reservation
  cases hr : s.records[r]? with
  | none => exact Nat.le_refl _
  | some record => exact h.kept r record hr

end Runs

/-- **Reservations balance.** In every run in which workers return what `execute_opaque` returned, with
a serializer that honours the limit it is given: for every session ever created the counters agree with
its table and are within its limits, and the outcomes it keeps fit into what it reserves; the counters
of the server are the sums over all sessions and within the global limits; a reservation is held while
the request is in the table of its session, it is released once, and the counters of the server are
what was reserved less what was released. -/
theorem reservations_balance {α ε : Type} (cfg : Config) (w : Worker α ε) (hw : w.Honours) {s : State}
    (h : (broker cfg).Reach (Yields w) s) :
    (∀ (i : Nat) (session : Session), s.sessions[i]? = some session →
      session.reservedOutcomes = session.requests.length ∧
      session.requests.length ≤
        min cfg.limits.maxPendingPerSession cfg.limits.maxRetainedOutcomesPerSession ∧
      session.reservedOutcomeBytes = (session.requests.values.map s.reservation).sum ∧
      session.reservedOutcomeBytes ≤ cfg.limits.maxRetainedOutcomeBytesPerSession ∧
      (session.requests.values.map s.retention).sum ≤ session.reservedOutcomeBytes) ∧
    (s.reservedOutcomes = (s.sessions.map Session.reservedOutcomes).sum ∧
      s.reservedOutcomes ≤ cfg.limits.maxRetainedOutcomesGlobal ∧
      s.reservedOutcomeBytes = (s.sessions.map Session.reservedOutcomeBytes).sum ∧
      s.reservedOutcomeBytes ≤ cfg.limits.maxRetainedOutcomeBytesGlobal) ∧
    (∀ (r : Nat) (record : Request), s.records[r]? = some record →
      (record.reservationReleased = false ↔ s.Listed r record)) ∧
    (∀ (l : Label) (s' : State), (broker cfg).step s l = some s' →
      ∀ (r : Nat) (record record' : Request), s.records[r]? = some record →
      s'.records[r]? = some record' → record.reservationReleased = true →
      record'.reservationReleased = true) ∧
    (s.reservedOutcomes = s.held (fun _ => 1) ∧ s.reservedOutcomeBytes = s.held (fun n => n)) ∧
    0 ≤ s.reservedOutcomes ∧ 0 ≤ s.reservedOutcomeBytes ∧
      ∀ session ∈ s.sessions, 0 ≤ session.reservedOutcomes ∧ 0 ≤ session.reservedOutcomeBytes := by
  have hreserved := reach_reserved hw h
  have hbalanced := hreserved.balanced
  have hsession : ∀ session ∈ s.sessions,
      0 ≤ session.reservedOutcomes ∧ 0 ≤ session.reservedOutcomeBytes := by
    intro session hmem
    obtain ⟨i, hs⟩ := List.mem_iff_getElem?.mp hmem
    have hledger := hbalanced.session i session hs
    have houtcomes : session.reservedOutcomes = session.requests.length := hledger.outcomes
    have hbytes : session.reservedOutcomeBytes = s.charge session.requests := hledger.bytes
    omega
  refine ⟨?_, ⟨hbalanced.outcomes, hbalanced.retained, hbalanced.bytes, hbalanced.retainedBytes⟩, ?_,
    ?_, hreserved.tallied, ?_, ?_, hsession⟩
  · intro i session hs
    have hledger := hbalanced.session i session hs
    have hbytes : session.reservedOutcomeBytes = s.charge session.requests := hledger.bytes
    have hkept : (session.requests.values.map s.retention).sum ≤ s.charge session.requests :=
      List.sum_le_sum fun r _ => hreserved.fits.retention_le r
    have hlimit : s.charge session.requests ≤ cfg.limits.maxRetainedOutcomeBytesPerSession :=
      hledger.retainedBytes
    exact ⟨hledger.outcomes, Nat.le_min.mpr ⟨hledger.pending, hledger.retained⟩, hbytes, by omega,
      by omega⟩
  · intro r record hr
    refine ⟨hreserved.inv.wf.listed r record hr, fun hlisted => ?_⟩
    obtain ⟨session, hs, hm⟩ := hlisted
    obtain ⟨record', hr', -, -, hreleased⟩ := hreserved.inv.wf.entry _ session _ r hs hm
    rw [hr] at hr'
    cases hr'
    exact hreleased
  · intro l s' hstep r record record' hr hr' hreleased
    have hmicros := step_micros hreserved.inv (Scope.allows_all s l.action) hstep
    exact (hmicros.evolves.back hr hr').released hreleased
  · rw [hbalanced.outcomes]
    refine List.sum_nonneg fun n hn => ?_
    obtain ⟨session, hmem, rfl⟩ := List.mem_map.mp hn
    exact (hsession session hmem).1
  · rw [hbalanced.bytes]
    refine List.sum_nonneg fun n hn => ?_
    obtain ⟨session, hmem, rfl⟩ := List.mem_map.mp hn
    exact (hsession session hmem).2

/-! ## A request and its result -/

/-- `pickle.dumps((abs, (-7,), {}))` -/
def absInvocation : Bytes :=
  [128, 5, 149, 31, 0, 0, 0, 0, 0, 0, 0, 140, 8, 98, 117, 105, 108, 116, 105, 110, 115, 148, 140, 3, 97,
    98, 115, 148, 147, 148, 74, 249, 255, 255, 255, 133, 148, 125, 148, 135, 148, 46]

/-- A worker with `PickleSerializer` that knows this invocation, and small results. -/
def pickleWorker : Worker UInt8 Str where
  callable := fun invocation => if invocation = absInvocation then .ok 7 else .error (lit "EOFError()")
  registered := fun _ => none
  unknown := fun _ => lit "LookupError()"
  dumps := fun x limit =>
    match x with
    | .inl n => pickleDumps [[128, 5, 75, n, 46]] limit
    | .inr _ => .error (lit "PicklingError()")
  limitError := fun error => error ≠ lit "PicklingError()"
  module := fun _ => lit "builtins"
  qualname := fun error => error
  repr := some
  traceback := fun error => error

theorem pickleWorker_honours : pickleWorker.Honours := by
  intro x limit payload h
  cases x with
  | inl n => exact pickleDumps_le h
  | inr e => cases h

/-- The submission of the invocation. -/
def absMessage : Inbound where
  message :=
    { (sampleMessage .submit (lit "a:1") encodable_a1).message with payload := absInvocation }
  encodable := (sampleMessage .submit (lit "a:1") encodable_a1).encodable

/-- The request runs. -/
def absRuns : List Label :=
  openSession 0 (lit "a") ++ deliver 0 absMessage ++ stageNext ++ [⟨.claim 0 77 early, []⟩]

/-- Its worker returns. -/
def absReturns : Label := ⟨.finish 0 (pickleWorker.executeOpaque false absInvocation .none 1024), []⟩

def Label.finishes (l : Label) : Bool :=
  match l.action with
  | .finish _ _ => true
  | _ => false

theorem yields_of_not_finishes {α ε : Type} {w : Worker α ε} {s : State} {l : Label}
    (h : l.finishes = false) : Yields w s l := by
  intro f kind payload descriptor ha
  unfold Label.finishes at h
  rw [ha] at h
  cases h

theorem reservations_balance_absRuns : ∃ s,
    (broker (sampleConfig .cancelQueued)).Reach (Yields pickleWorker) s ∧
      (s.records.map fun record => (record.terminalPayload, record.reservedResultBytes)) =
        [([128, 5, 75, 7, 46], 1024)] ∧
      s.reservedOutcomes = 1 ∧ s.reservedOutcomeBytes = 1024 ∧
      ∀ (i : Nat) (session : Session), s.sessions[i]? = some session →
        (session.requests.values.map s.retention).sum ≤ session.reservedOutcomeBytes := by
  have hrun : (((broker (sampleConfig .cancelQueued)).runWhile (fun _ l => !l.finishes) {}
      absRuns).bind fun s =>
        ((step (sampleConfig .cancelQueued) s absReturns).bind fun t =>
          (step (sampleConfig .cancelQueued) t ⟨.notify 0, []⟩).map fun u =>
            ((s.futures[0]?.bind fun fut => s.records[fut.record]?).map fun record =>
                (record.registered, record.maxResultBytes),
              u.records.map fun record => (record.terminalPayload, record.reservedResultBytes),
              [u.reservedOutcomes, u.reservedOutcomeBytes]))) =
      some (some (false, 1024), [([128, 5, 75, 7, 46], 1024)], [1, 1024]) := by
    decide +kernel
  obtain ⟨s, hs, hrest⟩ := Option.bind_eq_some_iff.mp hrun
  obtain ⟨t, ht, hrest⟩ := Option.bind_eq_some_iff.mp hrest
  obtain ⟨u, hu, hfacts⟩ := Option.map_eq_some_iff.mp hrest
  obtain ⟨hrecord, hfacts⟩ := Prod.mk.inj hfacts
  obtain ⟨hkept, hcounters⟩ := Prod.mk.inj hfacts
  obtain ⟨houtcomes, hbytes⟩ := List.cons.inj hcounters
  have hreach := System.Reach.mono (fun s l h => yields_of_not_finishes (w := pickleWorker)
    (s := s) (Bool.not_eq_true' _ ▸ h)) (System.Reach.of_runWhile .init absRuns hs)
  have hyields : Yields pickleWorker s absReturns := by
    intro f kind payload descriptor ha fut record hf hr
    cases ha
    rw [hf, Option.bind_some, hr] at hrecord
    obtain ⟨hregistered, hlimit⟩ := Prod.mk.inj (Option.some.inj hrecord)
    refine ⟨absInvocation, ?_⟩
    rw [hregistered, hlimit]
    rfl
  have hlast := System.Reach.step (System.Reach.step hreach hyields ht)
    (yields_of_not_finishes rfl) hu
  exact ⟨u, hlast, hkept, houtcomes, (List.cons.inj hbytes).1, fun i session hsession =>
    ((reservations_balance _ pickleWorker pickleWorker_honours hlast).1 i session
      hsession).2.2.2.2⟩

end Deadpool.Remote.Broker
