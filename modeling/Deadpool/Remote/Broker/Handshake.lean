import Deadpool.Remote.Broker.Admission

/-!
# The broker: the Python behind a session

`_handshake` compares the versions of Python only for a peer that lists the capability `callable`;
`_submit` takes the mode of each request from the request.  A connection says `HELLO` once, and the
system of this module keeps what it said.

Principal result: `callable_python` — a request in the mode `callable` comes from the server's own
version of Python, as long as such requests are sent only by peers that listed the capability.
-/

set_option autoImplicit false

namespace Deadpool.Remote.Broker

open Deadpool.Py Deadpool.Lts

/-! ## Who may get a session -/

section Sessions

variable {cfg : Config} {scope : Scope} {s s' : State} {c : Nat} {conn' : Connection}

/-- A connection that may not register keeps its session. -/
theorem Micro.session_kept (hm : Micro cfg scope s s') (hscope : ¬ scope.greets c)
    (hc : s'.connections[c]? = some conn') {i : Nat} (hi : conn'.session = some i) :
    ∃ conn : Connection, s.connections[c]? = some conn ∧ conn.session = some i := by
  -- an assignment to one connection
  have hset : ∀ (c' : Nat) (f : Connection → Connection),
      (s.connections.modify c' f)[c]? = some conn' →
      (∀ conn : Connection, s.connections[c']? = some conn → (f conn).session = conn.session) →
      ∃ conn : Connection, s.connections[c]? = some conn ∧ conn.session = some i := by
    intro c' f hc' hf
    obtain ⟨conn, hconn, rfl⟩ := getElem?_modify_some hc'
    refine ⟨conn, hconn, ?_⟩
    split at hi
    · rename_i he
      subst he
      rw [← hf conn hconn]
      exact hi
    · exact hi
  cases hm with
  | connect hnone =>
    rcases getElem?_append_some hc with hold | ⟨-, rfl⟩
    · exact ⟨conn', hold, hi⟩
    · rw [hnone] at hi
      cases hi
  | connection hf => exact hset _ _ hc fun conn _ => (hf conn).session
  | cleanClose => exact hset _ _ hc fun _ _ => rfl
  | reader => exact hset _ _ hc fun _ _ => rfl
  | gone => exact hset _ _ hc fun _ _ => rfl
  | say => exact hset _ _ hc fun _ _ => rfl
  | @accept c' _ conn _ _ _ f _ _ _ hconn hf =>
    refine hset _ _ hc fun conn₁ hconn₁ => ?_
    have hsame : some conn = some conn₁ := hconn.symm.trans hconn₁
    cases hsame
    rcases hf with ⟨hquiet, -⟩ | ⟨-, henqueue⟩
    · exact hquiet.session
    · rw [henqueue]
      rfl
  | requeue =>
    rw [connections_requeue] at hc
    exact ⟨conn', hc, hi⟩
  | unregister =>
    rw [connections_unregister] at hc
    exact ⟨conn', hc, hi⟩
  | @register c' _ session _ _ _ _ _ _ hgreets =>
    have hcombined : ((s.register c' session).setReader c' .welcoming).connections =
        s.connections.modify c' fun conn =>
          { conn with session := some s.sessions.length, reader := .welcoming } :=
      List.modify_modify_eq _ _ _ _
    rw [hcombined] at hc
    have hne : c' ≠ c := fun he => hscope (he ▸ hgreets)
    rw [getElem?_modify_of_ne hne] at hc
    exact ⟨conn', hc, hi⟩
  | work hw => cases hw <;> exact ⟨conn', hc, hi⟩
  | _ => exact ⟨conn', hc, hi⟩

theorem Micros.session_kept (hm : Micros cfg scope s s') (hscope : ¬ scope.greets c)
    (hc : s'.connections[c]? = some conn') {i : Nat} (hi : conn'.session = some i) :
    ∃ conn : Connection, s.connections[c]? = some conn ∧ conn.session = some i := by
  induction hm generalizing conn' with
  | refl => exact ⟨conn', hc, hi⟩
  | tail _ hstep ih =>
    obtain ⟨conn, hconn, hi⟩ := hstep.session_kept hscope hc hi
    exact ih hconn hi

/-- A scope in which one connection may not register. -/
def silent (c : Nat) : Scope := { Scope.all with greets := (· ≠ c) }

theorem silent_allows {a : Action} (h : ∀ hello principal, a ≠ .hello c hello principal) :
    (silent c).Allows s a := by
  have hall := Scope.allows_all s a
  cases a with
  | hello c' hello principal => exact fun he => h hello principal (by rw [he])
  | handle => exact ⟨⟨hall.1.session, hall.1.ends⟩, hall.2⟩
  | disconnect => exact ⟨⟨hall.1.session, hall.1.ends⟩, hall.2⟩
  | _ => exact hall

/-- A step that is not the `HELLO` of the connection. -/
theorem step_session_kept {l : Label} (hinv : s.Inv cfg) (hs : step cfg s l = some s')
    (h : ∀ hello principal, l.action ≠ .hello c hello principal) (hc : s'.connections[c]? = some conn')
    {i : Nat} (hi : conn'.session = some i) :
    ∃ conn : Connection, s.connections[c]? = some conn ∧ conn.session = some i :=
  (step_micros hinv (silent_allows h) hs).session_kept (fun hne => hne rfl) hc hi

/-- A handshake that is refused gives the connection no session. -/
theorem handshake_refused {hello : Hello} {principal : Option Str}
    (h : hello.refusal cfg principal ≠ none)
    (hc : (State.after c (s.handshake cfg c hello principal)).connections[c]? = some conn') {i : Nat}
    (hi : conn'.session = some i) :
    ∃ conn : Connection, s.connections[c]? = some conn ∧ conn.session = some i := by
  have hlocked : Locked cfg (silent c) s (State.after c (s.handshake cfg c hello principal)) := by
    have hreject : ∀ (reason text : String), Handles cfg (silent c) s
        (s.send cfg c none ⟨.handshakeRejected, Dict.empty.set (lit "reason") (.str (lit reason)), []⟩,
          raised text) :=
      fun _ _ => ⟨locked_send (.plain rfl), .failing _⟩
    have hfail : ∀ text : Str, Handles cfg (silent c) s (s, .failing text) :=
      fun text => ⟨.refl, .failing text⟩
    unfold State.handshake
    dsimp only
    split
    · exact (hfail _).after
    · split
      · exact (hreject _ _).after
      · rename_i hnone
        exact absurd hnone h
  exact hlocked.micros.session_kept (fun hne => hne rfl) hc hi

/-- A peer that listed `callable` and was not refused has the server's version of Python. -/
theorem python_of_refusal {hello : Hello} {principal : Option Str}
    (h : hello.refusal cfg principal = none) (hcallable : lit "callable" ∈ hello.capabilities) :
    hello.python = cfg.python := by
  by_contra hne
  unfold Hello.refusal at h
  split at h
  · cases h
  · split at h
    · cases h
    · split at h
      · cases h
      · rw [if_pos ⟨hcallable, hne⟩] at h
        cases h

end Sessions

/-! ## The broker with what its peers said -/

/-- The broker, and the `HELLO` of every connection. -/
structure Greeted where
  broker : State := {}
  hellos : Table Nat Hello := []

def greetedStep (cfg : Config) (s : Greeted) (l : Label) : Option Greeted :=
  (step cfg s.broker l).map fun broker =>
    match l.action with
    | .hello c hello _ => ⟨broker, s.hellos.set c hello⟩
    | _ => ⟨broker, s.hellos⟩

def greetedBroker (cfg : Config) : System Greeted Label := ⟨{}, greetedStep cfg⟩

/-- A submission in the mode `callable` is handled only for a peer whose `HELLO` lists `callable`, or has
the server's version of Python anyway. -/
def listedStep (cfg : Config) (s : Greeted) (l : Label) : Bool :=
  match l.action with
  | .handle c _ _ _ =>
    match s.broker.withReader c with
    | some (.handling m) =>
      !isText (lit "callable") (m.message.control.items.get (lit "mode")) ||
        (s.hellos.get? c).any fun hello =>
          decide (lit "callable" ∈ hello.capabilities) || decide (hello.python = cfg.python)
    | _ => true
  | _ => true

/-- The peer behind every session has said `HELLO` and passed the check of its capabilities. -/
structure Greeted.Checked (cfg : Config) (s : Greeted) : Prop where
  inv : s.broker.Inv cfg
  hello : ∀ (c : Nat) (conn : Connection) (i : Nat), s.broker.connections[c]? = some conn →
    conn.session = some i → ∃ hello, s.hellos.get? c = some hello ∧
      (lit "callable" ∈ hello.capabilities → hello.python = cfg.python)

section Runs

variable {cfg : Config} {s s' : Greeted}

theorem Greeted.Checked.step {l : Label} (h : s.Checked cfg) (hs : greetedStep cfg s l = some s') :
    s'.Checked cfg := by
  obtain ⟨broker, hstep, hs'⟩ := Option.map_eq_some_iff.mp hs
  have hbroker : s'.broker = broker := by
    rw [← hs']
    split <;> rfl
  have hinv : broker.Inv cfg := h.inv.micros (step_micros h.inv (Scope.allows_all s.broker l.action) hstep)
  refine ⟨hbroker ▸ hinv, fun c conn' i hc hi => ?_⟩
  rw [hbroker] at hc
  by_cases hsaid : ∃ hello principal, l.action = .hello c hello principal
  · obtain ⟨hello, principal, hl⟩ := hsaid
    have hget : s'.hellos.get? c = some hello := by
      rw [← hs', hl]
      exact Table.get?_set.trans (if_pos rfl)
    refine ⟨hello, hget, fun hcallable => ?_⟩
    by_cases hrefusal : hello.refusal cfg principal = none
    · exact python_of_refusal hrefusal hcallable
    · -- the connection had no session before, and has none now
      obtain ⟨x, hx, rfl⟩ := Option.map_eq_some_iff.mp hstep
      rw [hl] at hx
      simp only [connectionStep, dispatcherStep, poolStep, Option.or_none] at hx
      split at hx
      · rename_i hreader
        cases hx
        obtain ⟨conn, hconn, hsession⟩ := handshake_refused hrefusal hc hi
        obtain ⟨conn₁, hconn₁, hgreeting⟩ := Option.map_eq_some_iff.mp hreader
        have hsame : some conn = some conn₁ := hconn.symm.trans hconn₁
        cases hsame
        rw [h.inv.wf.greeting c conn hconn hgreeting] at hsession
        cases hsession
      · cases hx
  · have hother : ∀ hello principal, l.action ≠ .hello c hello principal :=
      fun hello principal hl => hsaid ⟨hello, principal, hl⟩
    obtain ⟨conn, hconn, hsession⟩ := step_session_kept h.inv hstep hother hc hi
    obtain ⟨hello, hget, hpython⟩ := h.hello c conn i hconn hsession
    refine ⟨hello, ?_, hpython⟩
    rw [← hs']
    split
    · rename_i c' hello' principal' hl
      have hne : c' ≠ c := fun he => hsaid ⟨hello', principal', he ▸ hl⟩
      rw [Table.get?_set, if_neg hne]
      exact hget
    · exact hget

theorem reachable_checked {C : Greeted → Label → Prop} (h : (greetedBroker cfg).Reach C s) :
    s.Checked cfg :=
  h.invariant ⟨.init cfg, fun _ _ _ hc => nomatch hc⟩ fun _ _ _ _ hchecked _ hstep => hchecked.step hstep

/-- **Callable requests come from the same Python.**  In every run in which submissions in the mode
`callable` are handled only for peers that listed the capability `callable`, or that have the server's
version of Python, every request that is accepted in that mode comes from a peer whose `HELLO` had the
server's version of Python. -/
theorem callable_python (cfg : Config)
    (h : (greetedBroker cfg).Reach (fun s l => listedStep cfg s l = true) s) {l : Label}
    (hlisted : listedStep cfg s l = true) {t : State} {m : Message} {r : Nat} {record : Request}
    (haccepts : Accepts cfg s.broker l t m r) (hr : t.records[r]? = some record)
    (hcallable : record.registered = false) :
    ∃ hello, s.hellos.get? record.connection = some hello ∧ hello.python = cfg.python := by
  have hchecked := reachable_checked h
  obtain ⟨hstep, rfl, hlength, -⟩ := haccepts
  rcases step_accepts hchecked.inv hstep with
    hsame | ⟨c, _, _, _, inbound, record', hl, hreader, -, haccepted, hadded⟩
  · omega
  rw [hadded, List.getElem?_concat_length] at hr
  cases hr
  -- the connection has a session, and so has said `HELLO`
  obtain ⟨conn, hc, hsession⟩ := Option.bind_eq_some_iff.mp haccepted.session
  obtain ⟨hello, hget, hpython⟩ := hchecked.hello c conn record.session hc hsession
  refine ⟨hello, by rw [haccepted.connection]; exact hget, ?_⟩
  have hmode : inbound.message.control.items.get (lit "mode") = .str (lit "callable") := by
    rcases haccepted.mode with ⟨-, hmode⟩ | ⟨hregistered, -⟩
    · exact hmode
    · rw [hcallable] at hregistered
      cases hregistered
  have htext : isText (lit "callable") (inbound.message.control.items.get (lit "mode")) = true := by
    rw [hmode]
    rfl
  rw [listedStep, hl] at hlisted
  simp only [hreader, htext, hget, Bool.not_true, Bool.false_or, Option.any_some, Bool.or_eq_true,
    decide_eq_true_eq] at hlisted
  exact hlisted.elim hpython id

end Runs

/-! ## Two peers -/

/-- A connection whose peer says `hello`, and which has received a submission. -/
def greet (hello : Hello) : List Label :=
  [⟨.accept, []⟩, ⟨.prepare true, []⟩, ⟨.hello 0 hello (some (lit "p")), []⟩, ⟨.welcome 0, []⟩] ++
    [⟨.receive 0 (sampleMessage .submit (lit "a:1") encodable_a1), []⟩]

/-- The submission is handled. -/
def submitFirst : Label := ⟨.handle 0 early (fun _ => .ok true) none, []⟩

theorem greet_accepts {cfg : Config} {hello : Hello} {s : Greeted} {t : State}
    (hrun : (greetedBroker cfg).run {} (greet hello) = some s)
    (hstep : step cfg s.broker submitFirst = some t) (hbefore : s.broker.records.length = 0)
    (hafter : t.records.map (fun r => (r.registered, r.connection)) = [(false, 0)]) :
    Accepts cfg s.broker submitFirst t
        (sampleMessage .submit (lit "a:1") encodable_a1).message 0 ∧
      ∃ record : Request, t.records[0]? = some record ∧ record.registered = false ∧
        record.connection = 0 := by
  obtain ⟨record, htail, hrecord⟩ := List.map_eq_singleton_iff.mp hafter
  obtain ⟨hmode, hconnection⟩ := Prod.mk.inj hrecord
  refine ⟨⟨hstep, hbefore.symm, by rw [htail]; rfl, 0, early, fun _ => .ok true, none, _, rfl, ?_, rfl⟩,
    record, by rw [htail]; rfl, hmode, hconnection⟩
  unfold greet at hrun
  rw [System.run_append] at hrun
  obtain ⟨s₁, -, hlast⟩ := Option.bind_eq_some_iff.mp hrun
  obtain ⟨s₂, hreceive, hs⟩ := Option.bind_eq_some_iff.mp hlast
  cases hs
  obtain ⟨broker, hbroker, rfl⟩ := Option.map_eq_some_iff.mp hreceive
  exact (step_receive hbroker).2

/-- The peer that lists `callable`. -/
def listingHello : Hello := { sampleHello (lit "a") with capabilities := [lit "callable"] }

theorem callable_python_listing : ∃ (s : Greeted) (t : State) (record : Request),
    step (sampleConfig .cancelQueued) s.broker submitFirst = some t ∧ t.records[0]? = some record ∧
      record.registered = false ∧
      ∃ hello, s.hellos.get? record.connection = some hello ∧ hello.python = (3, 12) := by
  have hfacts : (((greetedBroker (sampleConfig .cancelQueued)).runWhile
      (listedStep (sampleConfig .cancelQueued)) {} (greet listingHello)).bind fun s =>
        (step (sampleConfig .cancelQueued) s.broker submitFirst).map fun t =>
          (s.broker.records.length, listedStep (sampleConfig .cancelQueued) s submitFirst,
            t.records.map fun r => (r.registered, r.connection))) = some (0, true, [(false, 0)]) := by
    decide +kernel
  obtain ⟨s, hrun, hfacts⟩ := Option.bind_eq_some_iff.mp hfacts
  obtain ⟨t, hstep, hfacts⟩ := Option.map_eq_some_iff.mp hfacts
  simp only [Prod.mk.injEq] at hfacts
  obtain ⟨hbefore, hlisted, hafter⟩ := hfacts
  obtain ⟨haccepts, record, hr, hmode, -⟩ :=
    greet_accepts (System.run_of_runWhile _ hrun) hstep hbefore hafter
  have hreach : (greetedBroker (sampleConfig .cancelQueued)).Reach
      (fun s l => listedStep (sampleConfig .cancelQueued) s l = true) s :=
    System.Reach.of_runWhile .init _ hrun
  exact ⟨s, t, record, hstep, hr, hmode,
    callable_python (sampleConfig .cancelQueued) hreach hlisted haccepts hr hmode⟩

/-- The peer of another version of Python, which lists nothing. -/
def otherHello : Hello := { sampleHello (lit "a") with python := (2, 7) }

theorem callable_from_other_python : ¬ ∀ (cfg : Config) (s : Greeted) (l : Label) (t : State)
    (m : Message) (r : Nat) (record : Request), (greetedBroker cfg).Reachable s →
      Accepts cfg s.broker l t m r → t.records[r]? = some record → record.registered = false →
        ∃ hello, s.hellos.get? record.connection = some hello ∧ hello.python = cfg.python := by
  intro h
  have hfacts : (((greetedBroker (sampleConfig .cancelQueued)).run {} (greet otherHello)).bind fun s =>
      (step (sampleConfig .cancelQueued) s.broker submitFirst).map fun t =>
        (s.broker.records.length, (s.hellos.get? 0).map Hello.python,
          t.records.map fun r => (r.registered, r.connection))) =
      some (0, some (2, 7), [(false, 0)]) := by
    decide +kernel
  obtain ⟨s, hrun, hfacts⟩ := Option.bind_eq_some_iff.mp hfacts
  obtain ⟨t, hstep, hfacts⟩ := Option.map_eq_some_iff.mp hfacts
  simp only [Prod.mk.injEq] at hfacts
  obtain ⟨hbefore, hpython, hafter⟩ := hfacts
  obtain ⟨haccepts, record, hr, hmode, hconnection⟩ := greet_accepts hrun hstep hbefore hafter
  obtain ⟨hello, hget, hsame⟩ :=
    h _ s _ t _ 0 record (System.reachable_of_run hrun) haccepts hr hmode
  rw [hconnection] at hget
  rw [hget, Option.map_some, Option.some.injEq, hsame] at hpython
  exact absurd hpython (by decide)

end Deadpool.Remote.Broker
