import Deadpool.Remote.Broker.Placement
import Deadpool.Remote.Broker.CleanClose
import Deadpool.Remote.Broker.Lifecycle

/-!
# The broker: what an accepted submission becomes

The one step that adds a request, with the message it was accepted from; then what becomes of the
priority of the message.  `_submit` turns it into a float and back before it is the key of a bucket
of the scheduler and the priority of the job in the local pool.

Principal results:

* `step_accepts`       — the message and the session behind a new request;
* `priority_kept_iff`  — which priorities survive the two conversions.
-/

set_option autoImplicit false

namespace Deadpool.Remote.Broker

open Deadpool.Py Deadpool.Lts

/-! ## The message of a request -/

section Admissions

variable {cfg : Config} {s s' : State} {c i : Nat} {session : Session} {requestId : Str} {m : Message}
  {now : Clock} {grant : Str → Except Str Bool} {registered : Bool} {record : Request}

/-- `control.get("priority", 0)` -/
def Message.priority (m : Message) : Value := (m.control.items.get? (lit "priority")).getD (.int 0)

/-- The priority of a request whose submission passes the authorization. -/
theorem authorize_priority
    (h : authorize cfg c i session requestId m now grant registered = .accept record) :
    ∃ x, finiteNonnegative "priority" (Message.priority m) = .ok x ∧ record.priority = x.trunc := by
  unfold authorize at h
  split at h
  · cases h
  · cases h
  · dsimp only at h
    split at h
    · cases h
    · rename_i hrecord
      rw [Admission.accept.injEq] at h
      subst h
      simp only [bind, Except.bind] at hrecord
      split at hrecord
      · cases hrecord
      · rename_i x hx
        split at hrecord
        · cases hrecord
        · split at hrecord
          · cases hrecord
          · cases hrecord
            exact ⟨x, hx, rfl⟩

/-- The mode of a request that is admitted. -/
theorem admission_mode (h : s.admission cfg c i session requestId m now grant = .accept record) :
    (record.registered = false ∧ m.control.items.get (lit "mode") = .str (lit "callable") ∨
      record.registered = true ∧ m.control.items.get (lit "mode") = .str (lit "registered")) ∧
    authorize cfg c i session requestId m now grant record.registered = .accept record := by
  have hkeeps : ∀ registered, authorize cfg c i session requestId m now grant registered =
      .accept record → record.registered = registered := by
    intro registered hauth
    obtain ⟨priority, executionTimeout, queueTimeout, rfl, -⟩ := authorize_accept hauth
    rfl
  unfold State.admission at h
  split at h
  · cases h
  · split at h
    · cases h
    · split at h
      · cases h
      · split at h
        · rename_i mode hmode
          split at h
          · rename_i hcallable
            subst hcallable
            have hfalse := hkeeps _ h
            exact ⟨.inl ⟨hfalse, hmode⟩, by rw [hfalse]; exact h⟩
          · split at h
            · rename_i hregistered
              subst hregistered
              split at h
              · split at h
                · have htrue := hkeeps _ h
                  exact ⟨.inr ⟨htrue, hmode⟩, by rw [htrue]; exact h⟩
                · cases h
              · cases h
              · cases h
              · cases h
            · cases h
        · cases h
        · cases h
        · cases h

/-- What is known of a submission `m` on the connection `c` that is accepted as `record`. -/
structure Accepted (cfg : Config) (s : State) (c : Nat) (m : Message) (record : Request) : Prop where
  session : s.connections[c]?.bind Connection.session = some record.session
  connection : record.connection = c
  requestId : m.control.items.get (lit "request_id") = .str record.requestId
  mode : record.registered = false ∧ m.control.items.get (lit "mode") = .str (lit "callable") ∨
    record.registered = true ∧ m.control.items.get (lit "mode") = .str (lit "registered")
  priority : ∃ x, finiteNonnegative "priority" (Message.priority m) = .ok x ∧ record.priority = x.trunc

/-- A submission leaves the requests as they are, or adds the one it is accepted as. -/
theorem records_submit_cases : (s.submit cfg c m now grant).1.records = s.records ∨
    ∃ record, Accepted cfg s c m record ∧
      (s.submit cfg c m now grant).1.records = s.records ++ [record] := by
  unfold State.submit
  split
  · exact .inl rfl
  · rename_i i hi
    split
    · exact .inl rfl
    · rename_i session hs
      split
      · rename_i requestId hid
        split
        · exact .inl rfl
        · rename_i sequence hseq
          dsimp only
          split
          · split
            · exact .inl records_sendRecord
            · exact .inl rfl
            · exact .inl records_send
            · unfold State.submitFresh
              split
              · exact .inl records_send
              · exact .inl rfl
              · rename_i record hadm
                right
                obtain ⟨hmode, hauth⟩ := admission_mode hadm
                obtain ⟨priority, executionTimeout, queueTimeout, hrecord, -⟩ := authorize_accept hauth
                refine ⟨record, ⟨?_, ?_, ?_, hmode, authorize_priority hauth⟩, records_send⟩
                · rw [hi, hrecord]
                  rfl
                · rw [hrecord]
                  rfl
                · rw [hid, hrecord]
                  rfl
          · exact .inl rfl
      · exact .inl rfl

/-- Where nothing may be accepted, nothing is. -/
theorem Micros.length_eq (hm : Micros cfg refusing s s') : s'.records.length = s.records.length := by
  have hle := Micros.length_le hm
  by_contra hne
  have hlt : s.records.length < s'.records.length := by omega
  obtain ⟨record, hr, -⟩ := hm.back (List.getElem?_eq_getElem hlt)
  exact absurd (lt_of_getElem? hr) (lt_irrefl _)

/-- **The step that accepts.**  A step leaves the number of requests as it is, or it handles a
submission and adds the request that the submission is accepted as. -/
theorem step_accepts {l : Label} (hinv : s.Inv cfg) (hs : step cfg s l = some s') :
    s'.records.length = s.records.length ∨
      ∃ (c : Nat) (now : Clock) (grant : Str → Except Str Bool) (statistics : Option Dict)
        (m : Inbound) (record : Request), l.action = .handle c now grant statistics ∧
        s.withReader c = some (.handling m) ∧ m.message.kind = .submit ∧
        Accepted cfg s c m.message record ∧ s'.records = s.records ++ [record] := by
  by_cases hsubmit : ∃ (c : Nat) (now : Clock) (grant : Str → Except Str Bool)
      (statistics : Option Dict) (m : Inbound), l.action = .handle c now grant statistics ∧
      s.withReader c = some (.handling m) ∧ m.message.kind = .submit
  · obtain ⟨c, now, grant, statistics, m, hl, hreader, hkind⟩ := hsubmit
    unfold step at hs
    obtain ⟨x, hx, rfl⟩ := Option.map_eq_some_iff.mp hs
    have hwith : State.withReader { s with flips := l.flips } c = some (.handling m) := hreader
    have hhandle : connectionStep cfg { s with flips := l.flips } (.handle c now grant statistics) =
        some (State.after c (State.submit cfg { s with flips := l.flips } c m.message now grant)) := by
      simp only [connectionStep, hwith, State.handleMessage, hkind]
    rw [hl, hhandle, Option.some_or] at hx
    cases hx
    have hcases : (State.submit cfg { s with flips := l.flips } c m.message now grant).1.records =
        s.records ∨ ∃ record, Accepted cfg { s with flips := l.flips } c m.message record ∧
          (State.submit cfg { s with flips := l.flips } c m.message now grant).1.records =
            s.records ++ [record] := records_submit_cases
    rcases hcases with hsame | ⟨record, haccepted, hadded⟩
    · exact .inl (congrArg List.length hsame)
    · exact .inr ⟨c, now, grant, statistics, m, record, hl, hreader, hkind,
        ⟨haccepted.session, haccepted.connection, haccepted.requestId, haccepted.mode,
          haccepted.priority⟩, hadded⟩
  · left
    refine Micros.length_eq (step_micros hinv ?_ hs)
    refine .of_submits (fun _ => trivial) (fun _ => trivial) (fun _ => trivial) (fun _ => trivial)
      (fun _ _ _ => trivial) trivial (fun _ => trivial) fun c now grant statistics hl m hreader hkind => ?_
    exact absurd ⟨c, now, grant, statistics, m, hl, hreader, hkind⟩ hsubmit

end Admissions

/-! ## Priorities -/

/-- The step from `s` by `l` accepts the submission `m` as the request `r`. -/
def Accepts (cfg : Config) (s : State) (l : Label) (s' : State) (m : Message) (r : Nat) : Prop :=
  step cfg s l = some s' ∧ r = s.records.length ∧ s'.records.length = r + 1 ∧
    ∃ (c : Nat) (now : Clock) (grant : Str → Except Str Bool) (statistics : Option Dict) (inbound : Inbound),
      l.action = .handle c now grant statistics ∧ s.withReader c = some (.handling inbound) ∧
        inbound.message = m

/-- The request `r` of a state was accepted from a submission whose priority is the integer `n`. -/
def SubmittedWith (cfg : Config) (t : State) (r n : Nat) : Prop :=
  ∃ (s : State) (l : Label) (s' : State) (m : Message) (ls : List Label),
    (broker cfg).Reachable s ∧ Accepts cfg s l s' m r ∧ Message.priority m = .int n ∧
      (broker cfg).run s' ls = some t

section Priorities

variable {cfg : Config} {s s' t : State} {r r' : Nat}

/-- The request of a submission that was accepted. -/
theorem Accepts.record {l : Label} {m : Message} (h : Accepts cfg s l s' m r) (hinv : s.Inv cfg) :
    ∃ (c : Nat) (record : Request), s'.records[r]? = some record ∧ Accepted cfg s c m record := by
  obtain ⟨hstep, rfl, hlength, c, now, grant, statistics, inbound, hl, hreader, rfl⟩ := h
  rcases step_accepts hinv hstep with hsame | ⟨c', _, _, _, inbound', record, hl', hreader', -, haccepted, hadded⟩
  · omega
  · rw [hl] at hl'
    cases hl'
    rw [hreader] at hreader'
    cases hreader'
    refine ⟨c, record, ?_, haccepted⟩
    rw [hadded, List.getElem?_concat_length]

/-- A float and back. -/
theorem finiteNonnegative_nat {n : Nat} {x : Float64} {name : String}
    (h : finiteNonnegative name (.int n) = .ok x) : x = .ofInt n := by
  unfold finiteNonnegative at h
  dsimp only at h
  split at h
  · cases h
  · split at h
    · cases h
    · exact (Except.ok.inj h).symm

theorem SubmittedWith.record {n : Nat} (h : SubmittedWith cfg t r n) :
    (broker cfg).Reachable t ∧ ∃ record : Request, t.records[r]? = some record ∧
      record.priority = (Float64.ofInt n).trunc := by
  obtain ⟨s, l, s', m, ls, hreach, haccepts, hpriority, hrun⟩ := h
  have hreach' : (broker cfg).Reachable s' := .step hreach trivial haccepts.1
  obtain ⟨c, record, hr, haccepted⟩ := haccepts.record (reachable_inv hreach)
  obtain ⟨record', hr', he⟩ := run_evolves hreach' ls hrun r record hr
  obtain ⟨x, hx, hrecord⟩ := haccepted.priority
  rw [hpriority] at hx
  refine ⟨hreach'.of_run hrun, record', hr', ?_⟩
  rw [he.priority, hrecord, finiteNonnegative_nat hx]

/-- What the scheduler holds is queued under the priority of its record. -/
theorem find_priority (hplaced : t.Placed cfg) {p : Int} {b : Bucket Nat} {q : Str} {queue : List Nat}
    (hfind : t.scheduler.find r = some (p, b, q, queue)) {record : Request}
    (hr : t.records[r]? = some record) : p = record.priority := by
  obtain ⟨plan, hrep, -, hschedules⟩ := hplaced.scheduled
  obtain ⟨hb, hqueue, hmem⟩ := hrep.find_some hfind
  have hholds := (hrep.bucket p b hb).1
  rw [hholds.queued] at hqueue
  obtain ⟨record', hr', -, hp, -⟩ := (hschedules r p q).mp ⟨queue, Table.mem_of_get? hqueue, hmem⟩
  rw [hr] at hr'
  cases hr'
  exact hp

/-- `pop` passes over what has a higher number than something else in the scheduler. -/
theorem pop_lower (hplaced : t.Placed cfg) {record record' : Request} (hr : t.records[r]? = some record)
    (hr' : t.records[r']? = some record') (hlt : record.priority < record'.priority)
    (hqueued : t.scheduler.find r ≠ none) {x : Nat} {scheduler : FairScheduler Nat}
    (hpop : t.scheduler.pop = some (x, scheduler)) : x ≠ r' := by
  obtain ⟨⟨p, b, q, queue⟩, hfind⟩ := Option.ne_none_iff_exists'.mp hqueued
  have hp := find_priority hplaced hfind hr
  obtain ⟨plan, hrep, -, hschedules⟩ := hplaced.scheduled
  obtain ⟨hb, hqueue, hmem⟩ := hrep.find_some hfind
  rcases hrep.pop_eq with ⟨hnone, -⟩ | ⟨p', q', item, rest, others, sch', hrot, hsome, -, -, hmin⟩
  · rw [hpop] at hnone
    cases hnone
  · rw [hpop] at hsome
    cases hsome
    rintro rfl
    have hplace : plan.Queued x p' q' := ⟨x :: rest, by rw [hrot]; exact List.mem_cons_self,
      List.mem_cons_self⟩
    obtain ⟨record'', hr'', -, hp', -⟩ := (hschedules x p' q').mp hplace
    rw [hr'] at hr''
    cases hr''
    exact (hrep.bucket p b hb).2 (hmin p (by omega))

/-- **Which priorities survive.**  The priority of a request, which is its place in the scheduler and
goes to the local pool, is the integer that was submitted exactly when that integer has at most 53
significant bits.  Of two such requests in the scheduler the one with the smaller integer is popped
first. -/
theorem priority_kept_iff (cfg : Config) (t : State) :
    (∀ r n, n < 2 ^ 63 → SubmittedWith cfg t r n → ∃ record : Request, t.records[r]? = some record ∧
      (record.priority = n ↔ Float64.Representable n) ∧
      ∀ p b q queue, t.scheduler.find r = some (p, b, q, queue) → p = record.priority) ∧
    ∀ r r' p q, p < q → q < 2 ^ 63 → Float64.Representable p → Float64.Representable q →
      SubmittedWith cfg t r p → SubmittedWith cfg t r' q → t.scheduler.find r ≠ none →
      ∀ x scheduler, t.scheduler.pop = some (x, scheduler) → x ≠ r' := by
  constructor
  · intro r n hn hsubmitted
    obtain ⟨hreach, record, hr, hpriority⟩ := hsubmitted.record
    refine ⟨record, hr, ?_, fun p b q queue hfind => find_priority (reachable_inv hreach).placed hfind hr⟩
    rw [hpriority]
    exact Float64.trunc_ofInt_iff hn
  · intro r r' p q hlt hq hp hq' hsubmitted hsubmitted' hqueued x scheduler hpop
    obtain ⟨hreach, record, hr, hpriority⟩ := hsubmitted.record
    obtain ⟨-, record', hr', hpriority'⟩ := hsubmitted'.record
    refine pop_lower (reachable_inv hreach).placed hr hr' ?_ hqueued hpop
    rw [hpriority, hpriority', (Float64.trunc_ofInt_iff (by omega)).mpr hp,
      (Float64.trunc_ofInt_iff hq).mpr hq']
    omega

theorem step_receive {c : Nat} {m : Inbound} {flips : List Bool}
    (hs : step cfg s ⟨.receive c m, flips⟩ = some s') :
    s'.records = s.records ∧ s'.withReader c = some (.handling m) := by
  unfold step at hs
  obtain ⟨x, hx, rfl⟩ := Option.map_eq_some_iff.mp hs
  simp only [connectionStep, dispatcherStep, poolStep, Option.or_none] at hx
  split at hx
  · rename_i hreading
    split at hx
    · cases hx
    · cases hx
      refine ⟨rfl, ?_⟩
      obtain ⟨conn, hc, -⟩ := Option.map_eq_some_iff.mp hreading
      have hset : (s.setReader c (.handling m)).connections[c]? = some { conn with reader := .handling m } :=
        getElem?_modify_self hc
      exact congrArg (Option.map Connection.reader) hset
  · cases hx

/-- A submission that is received and handled in a run, and accepted there. -/
theorem SubmittedWith.of_run {pre post : List Label} {c n : Nat} {m : Inbound}
    (hrun : (broker cfg).run {} (pre ++ (deliver c m ++ post)) = some t)
    (hpriority : Message.priority m.message = .int n)
    (hbefore : ((broker cfg).run {} pre).map (fun s => s.records.length) = some r)
    (hafter : ((broker cfg).run {} (pre ++ deliver c m)).map (fun s => s.records.length) = some (r + 1)) :
    SubmittedWith cfg t r n := by
  rw [System.run_append] at hrun hafter
  obtain ⟨s, hpre, hlength⟩ := Option.map_eq_some_iff.mp hbefore
  rw [hpre, Option.bind_some] at hrun hafter
  obtain ⟨s₁, hreceive, hrun⟩ := Option.bind_eq_some_iff.mp hrun
  obtain ⟨s₂, hhandle, hrun⟩ := Option.bind_eq_some_iff.mp hrun
  have hdelivered : (broker cfg).run s (deliver c m) = some s₂ :=
    Option.bind_eq_some_iff.mpr ⟨s₁, hreceive, Option.bind_eq_some_iff.mpr ⟨s₂, hhandle, rfl⟩⟩
  rw [hdelivered] at hafter
  have hreader : s₁.records = s.records ∧ s₁.withReader c = some (.handling m) :=
    step_receive hreceive
  have hreach : (broker cfg).Reachable s₁ :=
    .step (System.reachable_of_run hpre) trivial hreceive
  refine ⟨s₁, _, s₂, m.message, post, hreach, ⟨hhandle, ?_, Option.some.inj hafter, c, _, _, _, m, rfl,
    hreader.2, rfl⟩, hpriority, hrun⟩
  rw [hreader.1, hlength]

end Priorities

/-- A submission with a priority. -/
def urgent (n : Nat) (requestId : Str) (h : Py.Encodable requestId) : Inbound where
  message :=
    { (sampleMessage .submit requestId h).message with
      control := (sampleMessage .submit requestId h).message.control.set (lit "priority") (.int n) }
  encodable := by
    have hpriority : EncodableValue (.int n) := trivial
    exact encodableItems_set (sampleMessage .submit requestId h).encodable
      (by decide +kernel : Py.Encodable (lit "priority")) hpriority

/-- The first request has the priority `2 ^ 53 + n`, the second `2 ^ 53`. -/
def urgentPair (n : Nat) : List Label :=
  openSession 0 (lit "a") ++ (deliver 0 (urgent (2 ^ 53 + n) (lit "a:1") encodable_a1) ++
    deliver 0 (urgent (2 ^ 53) (lit "a:2") encodable_a2))

theorem urgentPair_submitted {n : Nat} {t : State}
    (hrun : (broker (sampleConfig .cancelQueued)).run {} (urgentPair n) = some t)
    (hfirst : ((broker (sampleConfig .cancelQueued)).run {} (openSession 0 (lit "a") ++
      deliver 0 (urgent (2 ^ 53 + n) (lit "a:1") encodable_a1))).map
        (fun s => s.records.length) = some 1)
    (hboth : ((broker (sampleConfig .cancelQueued)).run {} (urgentPair n)).map
      (fun s => s.records.length) = some 2) :
    SubmittedWith (sampleConfig .cancelQueued) t 0 (2 ^ 53 + n) ∧
      SubmittedWith (sampleConfig .cancelQueued) t 1 (2 ^ 53) := by
  have hopen : ((broker (sampleConfig .cancelQueued)).run {} (openSession 0 (lit "a"))).map
      (fun s => s.records.length) = some 0 := by decide +kernel
  constructor
  · exact .of_run hrun rfl hopen hfirst
  · unfold urgentPair at hrun hboth
    rw [← List.append_assoc] at hrun hboth
    have hrun' : (broker (sampleConfig .cancelQueued)).run {} ((openSession 0 (lit "a") ++
        deliver 0 (urgent (2 ^ 53 + n) (lit "a:1") encodable_a1)) ++
        (deliver 0 (urgent (2 ^ 53) (lit "a:2") encodable_a2) ++ [])) = some t := by
      rw [List.append_nil]
      exact hrun
    exact .of_run hrun' rfl hfirst hboth

theorem priority_kept_iff_urgentPair : ∃ t : State,
    SubmittedWith (sampleConfig .cancelQueued) t 0 (2 ^ 53 + 2) ∧
      (∃ record : Request, t.records[0]? = some record ∧ record.priority = 2 ^ 53 + 2) ∧
      ∀ x scheduler, t.scheduler.pop = some (x, scheduler) → x ≠ 0 := by
  have hrun : ((broker (sampleConfig .cancelQueued)).run {} (urgentPair 2)).map
      (fun s => (s.records.length, (s.scheduler.find 1).isSome)) = some (2, true) := by
    decide +kernel
  obtain ⟨t, hrun, hfacts⟩ := Option.map_eq_some_iff.mp hrun
  obtain ⟨hlength, hqueued⟩ := Prod.mk.inj hfacts
  obtain ⟨hfirst, hsecond⟩ := urgentPair_submitted hrun (by decide +kernel) (by rw [hrun]; exact congrArg some hlength)
  have hfits : Float64.Representable (2 ^ 53 + 2) := ⟨2 ^ 52 + 1, 1, by decide, by decide⟩
  have hfits' : Float64.Representable (2 ^ 53) := ⟨2 ^ 52, 1, by decide, by decide⟩
  obtain ⟨hkept, horder⟩ := priority_kept_iff (sampleConfig .cancelQueued) t
  obtain ⟨record, hr, hiff, -⟩ := hkept 0 (2 ^ 53 + 2) (by decide) hfirst
  refine ⟨t, hfirst, ⟨record, hr, hiff.mpr hfits⟩, ?_⟩
  exact horder 1 0 (2 ^ 53) (2 ^ 53 + 2) (by decide) (by decide) hfits' hfits hsecond hfirst
    (Option.isSome_iff_ne_none.mp hqueued)

/-- `2 ^ 53 + 1` is queued as `2 ^ 53`, and popped before a request that was submitted with `2 ^ 53`. -/
theorem priority_rounded : ∃ t : State,
    SubmittedWith (sampleConfig .cancelQueued) t 0 (2 ^ 53 + 1) ∧
      SubmittedWith (sampleConfig .cancelQueued) t 1 (2 ^ 53) ∧
      t.records[0]?.map Request.priority = some (2 ^ 53) ∧
      (t.scheduler.find 1).isSome = true ∧ t.scheduler.pop.map Prod.fst = some 0 := by
  have hrun : ((broker (sampleConfig .cancelQueued)).run {} (urgentPair 1)).map (fun s =>
      (s.records.length, s.records[0]?.map Request.priority, (s.scheduler.find 1).isSome,
        s.scheduler.pop.map Prod.fst)) = some (2, some (2 ^ 53), true, some 0) := by
    decide +kernel
  obtain ⟨t, hrun, hfacts⟩ := Option.map_eq_some_iff.mp hrun
  obtain ⟨hlength, hfacts⟩ := Prod.mk.inj hfacts
  obtain ⟨hpriority, hfacts⟩ := Prod.mk.inj hfacts
  obtain ⟨hqueued, hpopped⟩ := Prod.mk.inj hfacts
  obtain ⟨hfirst, hsecond⟩ := urgentPair_submitted hrun (by decide +kernel) (by rw [hrun]; exact congrArg some hlength)
  exact ⟨t, hfirst, hsecond, hpriority, hqueued, hpopped⟩

end Deadpool.Remote.Broker
