import Deadpool.Remote.Broker.Chain

/-!
# The broker: sessions and their request IDs

The global table of requests has one entry for a request ID, whatever session it belongs to.  A session
may submit the IDs that begin with its client ID and a colon, so two live sessions can submit the same
ID when one client ID continues the other after a colon.  As long as that does not happen, a message of
one session leaves the requests of the others alone.

Principal results: `sessions_isolated`, with the run `shared_request_id` of clients `a` and `a:b`.
-/

set_option autoImplicit false

namespace Deadpool.Remote.Broker

open Deadpool.Py Deadpool.Lts

/-- The request ID has the client ID of the session as its first part. -/
def Session.owns (session : Session) (requestId : Str) : Bool :=
  (session.clientId ++ lit ":").isPrefixOf requestId

/-- No other live session may submit the request ID. -/
def State.soleOwner (s : State) (i : Nat) (requestId : Str) : Bool :=
  s.live.all fun j => j = i || match s.sessions[j]? with
    | none => true
    | some session => !session.owns requestId

/-- A submission that is handled is of a request ID that belongs to one live session only. -/
def soleOwnerStep (s : State) (l : Label) : Bool :=
  match l.action with
  | .handle c _ _ _ =>
    match s.withReader c, s.connections[c]?.bind Connection.session with
    | some (.handling m), some i =>
      match m.message.kind, m.message.control.items.get (lit "request_id") with
      | .submit, .str requestId => s.soleOwner i requestId
      | _, _ => true
    | _, _ => true
  | _ => true

structure State.Isolated (s : State) : Prop where
  owned : ∀ (i : Nat) (session : Session) (k : Str) (r : Nat), s.sessions[i]? = some session →
    (k, r) ∈ session.requests → session.owns k = true
  disjoint : ∀ (i j : Nat) (si sj : Session) (k : Str) (ri rj : Nat), i ∈ s.live → j ∈ s.live →
    s.sessions[i]? = some si → s.sessions[j]? = some sj → (k, ri) ∈ si.requests →
    (k, rj) ∈ sj.requests → i = j
  indexed : ∀ (i : Nat) (session : Session) (k : Str) (r : Nat), i ∈ s.live →
    s.sessions[i]? = some session → (k, r) ∈ session.requests → s.requests.get? k = some r

namespace State.Isolated

variable {cfg : Config} {scope : Scope} {s s' : State}

theorem init : State.Isolated {} :=
  ⟨(fun _ _ _ _ h => nomatch h), (fun _ _ _ _ _ _ _ h => nomatch h), fun _ _ _ _ h => nomatch h⟩

theorem congr (h : s.Isolated) (hsessions : s'.sessions = s.sessions) (hlive : s'.live = s.live)
    (hrequests : s'.requests = s.requests) : s'.Isolated := by
  constructor
  · rw [hsessions]
    exact h.owned
  · rw [hsessions, hlive]
    exact h.disjoint
  · rw [hsessions, hlive, hrequests]
    exact h.indexed

/-- A session that keeps its client ID and loses entries, and fewer live sessions. -/
theorem shrink (h : s.Isolated) (hlive : ∀ i, i ∈ s'.live → i ∈ s.live)
    (hsessions : ∀ (i : Nat) (session' : Session), s'.sessions[i]? = some session' →
      ∃ session : Session, s.sessions[i]? = some session ∧ session'.clientId = session.clientId ∧
        ∀ e ∈ session'.requests, e ∈ session.requests)
    (hrequests : ∀ (i : Nat) (session' : Session) (k : Str) (r : Nat), i ∈ s'.live →
      s'.sessions[i]? = some session' → (k, r) ∈ session'.requests →
      s'.requests.get? k = s.requests.get? k) : s'.Isolated := by
  constructor
  · intro i session' k r hs hm
    obtain ⟨session, hsession, hclient, hsub⟩ := hsessions i session' hs
    unfold Session.owns
    rw [hclient]
    exact h.owned i session k r hsession (hsub _ hm)
  · intro i j si' sj' k ri rj hi hj hsi hsj hri hrj
    obtain ⟨si, hsi, -, hsubi⟩ := hsessions i si' hsi
    obtain ⟨sj, hsj, -, hsubj⟩ := hsessions j sj' hsj
    exact h.disjoint i j si sj k ri rj (hlive i hi) (hlive j hj) hsi hsj (hsubi _ hri) (hsubj _ hrj)
  · intro i session' k r hi hs hm
    rw [hrequests i session' k r hi hs hm]
    obtain ⟨session, hsession, -, hsub⟩ := hsessions i session' hs
    exact h.indexed i session k r (hlive i hi) hsession (hsub _ hm)

theorem not_owns_of_soleOwner {i j : Nat} {requestId : Str} {session : Session}
    (h : s.soleOwner i requestId = true) (hj : j ∈ s.live) (hne : j ≠ i)
    (hs : s.sessions[j]? = some session) : session.owns requestId = false := by
  have hone := List.all_eq_true.mp h j hj
  rw [hs, decide_eq_false hne, Bool.false_or, Bool.not_eq_true'] at hone
  exact hone

theorem owns_of_sequence {session : Session} {requestId : Str} {sequence : Int}
    (h : requestSequence session.clientId requestId = .ok sequence) : session.owns requestId = true := by
  unfold requestSequence at h
  split at h
  · assumption
  · cases h

/-- A session accepts a request with an ID that is its own. -/
theorem enter (h : s.Isolated) (hwf : s.WF) {c i : Nat} {session : Session} {sequence : Int}
    {record : Request} (ha : s.Admits cfg c i session sequence record)
    (hsole : s.soleOwner i record.requestId = true) : (s.enter i sequence record).Isolated := by
  obtain ⟨m, now, registered, priority, executionTimeout, queueTimeout, hrecord⟩ := ha.fresh
  have hi : record.session = i := by rw [hrecord]; rfl
  have howns := owns_of_sequence ha.sequenced
  -- the entries of a session afterwards
  have hback : ∀ (j : Nat) (session' : Session), (s.enter i sequence record).sessions[j]? = some session' →
      ∃ session₀ : Session, s.sessions[j]? = some session₀ ∧ session'.clientId = session₀.clientId ∧
        (j ≠ i → session'.requests = session₀.requests) ∧
        (j = i → session₀ = session ∧
          session'.requests = session.requests.set record.requestId s.records.length) := by
    intro j session' hj
    obtain ⟨session₁, hs₁, rfl⟩ := getElem?_modify_some hj
    obtain ⟨session₀, hs₀, rfl⟩ := getElem?_modify_some hs₁
    refine ⟨session₀, hs₀, ?_, ?_, ?_⟩
    · split <;> split <;> rfl
    · intro hne
      rw [hi, if_neg (Ne.symm hne), if_neg (Ne.symm hne)]
    · rintro rfl
      have hsame := ha.opened
      rw [hs₀] at hsame
      cases hsame
      rw [hi, if_pos rfl, if_pos rfl]
      exact ⟨rfl, rfl⟩
  have hentry : ∀ (j : Nat) (session' : Session) (k : Str) (r : Nat),
      (s.enter i sequence record).sessions[j]? = some session' → (k, r) ∈ session'.requests →
        (j = i ∧ k = record.requestId ∧ r = s.records.length) ∨
          ∃ session₀ : Session, s.sessions[j]? = some session₀ ∧ (k, r) ∈ session₀.requests ∧
            session'.clientId = session₀.clientId ∧ (j = i → k ≠ record.requestId) := by
    intro j session' k r hj hm
    obtain ⟨session₀, hs₀, hclient, hother, hself⟩ := hback j session' hj
    by_cases he : j = i
    · obtain ⟨rfl, htable⟩ := hself he
      rw [htable] at hm
      by_cases hk : k = record.requestId
      · subst hk
        have hget := Table.get?_of_mem (hwf.keys j _ hs₀).set hm
        rw [Table.get?_set, if_pos rfl] at hget
        exact .inl ⟨he, rfl, (Option.some.inj hget).symm⟩
      · rcases Table.mem_of_mem_set hm with hnew | hm
        · cases hnew
          exact absurd rfl hk
        · exact .inr ⟨_, hs₀, hm, hclient, fun _ => hk⟩
    · rw [hother he] at hm
      exact .inr ⟨session₀, hs₀, hm, hclient, fun h => absurd h he⟩
  -- no live session has another request with this ID
  have hfree : ∀ (j : Nat) (session₀ : Session) (k : Str) (r : Nat), j ∈ s.live →
      s.sessions[j]? = some session₀ → (k, r) ∈ session₀.requests →
      (j = i → k ≠ record.requestId) → k ≠ record.requestId := by
    rintro j session₀ k r hj hs₀ hm hself rfl
    have hne : j ≠ i := fun he => hself he rfl
    have hnot := not_owns_of_soleOwner hsole hj hne hs₀
    rw [h.owned j session₀ _ r hs₀ hm] at hnot
    cases hnot
  refine ⟨?_, ?_, ?_⟩
  · intro j session' k r hj hm
    rcases hentry j session' k r hj hm with ⟨rfl, rfl, -⟩ | ⟨session₀, hs₀, hm₀, hclient, -⟩
    · obtain ⟨session₀, -, hclient, -, hself⟩ := hback j session' hj
      obtain ⟨rfl, -⟩ := hself rfl
      unfold Session.owns
      rw [hclient]
      exact howns
    · unfold Session.owns
      rw [hclient]
      exact h.owned j session₀ k r hs₀ hm₀
  · intro j j' sj sj' k r r' hj hj' hsj hsj' hm hm'
    rcases hentry j sj k r hsj hm with ⟨rfl, rfl, -⟩ | ⟨session₀, hs₀, hm₀, -, hself⟩
    · rcases hentry j' sj' _ r' hsj' hm' with ⟨rfl, -, -⟩ | ⟨session₁, hs₁, hm₁, -, hself'⟩
      · rfl
      · exact absurd rfl (hfree j' session₁ _ r' hj' hs₁ hm₁ hself')
    · rcases hentry j' sj' k r' hsj' hm' with ⟨rfl, rfl, -⟩ | ⟨session₁, hs₁, hm₁, -, -⟩
      · exact absurd rfl (hfree j session₀ _ r hj hs₀ hm₀ hself)
      · exact h.disjoint j j' session₀ session₁ k r r' hj hj' hs₀ hs₁ hm₀ hm₁
  · intro j session' k r hj hs hm
    change (s.requests.set record.requestId s.records.length).get? k = some r
    rw [Table.get?_set]
    rcases hentry j session' k r hs hm with ⟨-, rfl, rfl⟩ | ⟨session₀, hs₀, hm₀, -, hself⟩
    · rw [if_pos rfl]
    · rw [if_neg (Ne.symm (hfree j session₀ k r hj hs₀ hm₀ hself))]
      exact h.indexed j session₀ k r hj hs₀ hm₀

/-- A request that has ended leaves the tables. -/
theorem retire (h : s.Isolated) {r : Nat} {record : Request} (hlive : record.session ∈ s.live)
    (hl : s.Listed r record) : (s.retire r record).Isolated := by
  obtain ⟨session, hs, hm⟩ := hl
  have hback : ∀ (j : Nat) (session' : Session), (s.retire r record).sessions[j]? = some session' →
      ∃ session₀ : Session, s.sessions[j]? = some session₀ ∧ session'.clientId = session₀.clientId ∧
        ∀ e ∈ session'.requests, e ∈ session₀.requests ∧
          (j = record.session → e.1 ≠ record.requestId) := by
    intro j session' hj
    obtain ⟨session₀, hs₀, rfl⟩ := getElem?_modify_some hj
    refine ⟨session₀, hs₀, ?_, fun e he => ?_⟩
    · split <;> rfl
    · split at he
      · obtain ⟨he, hne⟩ := Table.mem_pop.mp he
        exact ⟨he, fun _ => hne⟩
      · rename_i hne
        exact ⟨he, fun h => absurd h.symm hne⟩
  refine h.shrink (fun _ => id) ?_ ?_
  · intro j session' hj
    obtain ⟨session₀, hs₀, hclient, hsub⟩ := hback j session' hj
    exact ⟨session₀, hs₀, hclient, fun e he => (hsub e he).1⟩
  · intro j session' k r' hj hsj hm'
    obtain ⟨session₀, hs₀, -, hsub⟩ := hback j session' hsj
    obtain ⟨hm₀, hself⟩ := hsub _ hm'
    change (s.requests.pop record.requestId).get? k = s.requests.get? k
    rw [Table.get?_pop, if_neg]
    rintro rfl
    exact hself (h.disjoint j record.session session₀ session _ r' r hj hlive hs₀ hs hm₀ hm) rfl

theorem unregister (h : s.Isolated) (i : Nat) : (s.unregister i).Isolated := by
  unfold State.unregister
  split
  · exact h
  · split
    · refine h.shrink (fun j hj => (List.mem_filter.mp hj).1) ?_ fun _ _ _ _ _ _ _ => rfl
      exact fun j session' hj => ⟨session', hj, rfl, fun _ he => he⟩
    · exact h

theorem register (h : s.Isolated) {c : Nat} {session : Session} (hempty : session.requests = []) :
    ((s.register c session).setReader c .welcoming).Isolated := by
  have hback : ∀ (j : Nat) (session' : Session) (k : Str) (r : Nat),
      (s.sessions ++ [session])[j]? = some session' → (k, r) ∈ session'.requests →
      s.sessions[j]? = some session' := by
    intro j session' k r hj hm
    rcases getElem?_append_some hj with hold | ⟨-, rfl⟩
    · exact hold
    · rw [hempty] at hm
      cases hm
  have hlive : ∀ (j : Nat) (session' : Session), j ∈ s.live ++ [s.sessions.length] →
      s.sessions[j]? = some session' → j ∈ s.live := by
    intro j session' hj hs
    rcases List.mem_append.mp hj with hj | hj
    · exact hj
    · rw [List.mem_singleton.mp hj] at hs
      exact absurd (lt_of_getElem? hs) (lt_irrefl _)
  refine ⟨?_, ?_, ?_⟩
  · intro j session' k r hj hm
    exact h.owned j session' k r (hback j session' k r hj hm) hm
  · intro j j' sj sj' k r r' hj hj' hsj hsj' hm hm'
    have hsj := hback j sj k r hsj hm
    have hsj' := hback j' sj' k r' hsj' hm'
    exact h.disjoint j j' sj sj' k r r' (hlive j sj hj hsj) (hlive j' sj' hj' hsj') hsj hsj' hm hm'
  · intro j session' k r hj hs hm
    have hs := hback j session' k r hs hm
    exact h.indexed j session' k r (hlive j session' hj hs) hs hm

theorem watermark (h : s.Isolated) {i : Nat} {sequence : Int} :
    (s.setSession i fun session => { session with watermark := sequence }).Isolated := by
  refine h.shrink (fun _ => id) ?_ fun _ _ _ _ _ _ _ => rfl
  intro j session' hj
  obtain ⟨session, hs, rfl⟩ := getElem?_modify_some hj
  refine ⟨session, hs, ?_, fun e he => ?_⟩
  · split <;> rfl
  · split at he <;> exact he

theorem micro (h : s.Isolated) (hwf : s.WF)
    (haccepts : ∀ i requestId, scope.accepts s i requestId → s.soleOwner i requestId = true)
    (hm : Micro cfg scope s s') : s'.Isolated := by
  cases hm with
  | flags => exact h.congr rfl rfl rfl
  | sockets => exact h.congr rfl rfl rfl
  | connect => exact h.congr rfl rfl rfl
  | connection => exact h.congr rfl rfl rfl
  | cleanClose => exact h.congr rfl rfl rfl
  | reader => exact h.congr rfl rfl rfl
  | gone => exact h.congr rfl rfl rfl
  | say => exact h.congr rfl rfl rfl
  | accept _ hacc ha => exact (h.enter hwf ha (haccepts _ _ hacc)).congr rfl rfl rfl
  | watermark => exact h.watermark
  | start => exact h.congr rfl rfl rfl
  | claim => exact h.congr rfl rfl rfl
  | emptied => exact h.congr rfl rfl rfl
  | stage => exact h.congr rfl rfl rfl
  | @requeue r =>
    unfold State.requeue
    dsimp only
    split
    · exact h.congr rfl rfl rfl
    · split <;> exact h.congr rfl rfl rfl
  | finish => exact h.congr rfl rfl rfl
  | finishStaged => exact h.congr rfl rfl rfl
  | retire _ hr _ hlive hl => exact h.retire hlive hl
  | unregister => exact h.unregister _
  | register _ _ _ _ _ hnew =>
    rw [hnew]
    exact h.register rfl
  | work hw => cases hw <;> exact h.congr rfl rfl rfl

end State.Isolated

/-! ## Sessions that a step does not touch -/

/-- A session, its requests and their records stay. -/
structure State.Untouched (s s' : State) (j : Nat) : Prop where
  session : ∀ session : Session, s.sessions[j]? = some session → s'.sessions[j]? = some session
  live : j ∈ s.live → j ∈ s'.live
  records : ∀ (r : Nat) (record : Request), s.records[r]? = some record → record.session = j →
    s'.records[r]? = some record

section Untouched

variable {cfg : Config} {scope : Scope} {s s' s'' : State} {j : Nat}

theorem State.Untouched.refl : s.Untouched s j := ⟨fun _ => id, id, fun _ _ h _ => h⟩

theorem State.Untouched.trans (h : s.Untouched s' j) (h' : s'.Untouched s'' j) : s.Untouched s'' j :=
  ⟨fun session hs => h'.session session (h.session session hs), fun hj => h'.live (h.live hj),
    fun r record hr hj => h'.records r record (h.records r record hr hj) hj⟩

theorem State.Untouched.of_eq (hsessions : s'.sessions = s.sessions) (hlive : s'.live = s.live)
    (hrecords : s'.records = s.records) : s.Untouched s' j :=
  ⟨fun _ hs => hsessions ▸ hs, fun hj => hlive ▸ hj, fun _ _ hr _ => hrecords ▸ hr⟩

/-- An assignment to a request of another session. -/
theorem State.Untouched.assign {r : Nat} {record : Request} {g : Request → Request}
    (hr : s.records[r]? = some record) (hne : record.session ≠ j)
    (hrecords : s'.records = s.records.modify r g) (hsessions : s'.sessions = s.sessions)
    (hlive : s'.live = s.live) : s.Untouched s' j := by
  refine ⟨fun _ hs => hsessions ▸ hs, fun hj => hlive ▸ hj, fun r' record' hr' hj => ?_⟩
  rw [hrecords, getElem?_modify_of_ne, hr']
  rintro rfl
  rw [hr] at hr'
  cases hr'
  exact hne hj

theorem Micro.untouched (hj : ¬ scope.session j) (hm : Micro cfg scope s s') : s.Untouched s' j := by
  -- the scope is about other sessions
  have hne : ∀ {i : Nat}, scope.session i → i ≠ j := by
    rintro i hi rfl
    exact hj hi
  cases hm with
  | flags => exact .of_eq rfl rfl rfl
  | sockets => exact .of_eq rfl rfl rfl
  | connect => exact .of_eq rfl rfl rfl
  | connection => exact .of_eq rfl rfl rfl
  | cleanClose => exact .of_eq rfl rfl rfl
  | reader => exact .of_eq rfl rfl rfl
  | gone => exact .of_eq rfl rfl rfl
  | say => exact .of_eq rfl rfl rfl
  | @accept c i conn session sequence record f hi _ ha =>
    obtain ⟨m, now, registered, priority, executionTimeout, queueTimeout, hrecord⟩ := ha.fresh
    have hsession : record.session = i := by rw [hrecord]; rfl
    refine ⟨fun session' hs => ?_, id, fun r record' hr _ => getElem?_append_of_some hr⟩
    have hother : ∀ (g : Session → Session) (l : List Session), (l.modify i g)[j]? = l[j]? :=
      fun _ _ => getElem?_modify_of_ne (hne hi)
    change ((s.sessions.modify i _).modify record.session _)[j]? = some session'
    rw [hsession, hother, hother]
    exact hs
  | watermark hi => exact ⟨fun _ hs => (getElem?_modify_of_ne (hne hi)).trans hs, id, fun _ _ h _ => h⟩
  | start hi _ hr => exact .assign hr (hne hi) rfl rfl rfl
  | claim hi hr => exact .assign hr (hne hi) rfl rfl rfl
  | emptied hi hr => exact .assign hr (hne hi) rfl rfl rfl
  | stage hi _ _ _ hr => exact .assign hr (hne hi) rfl rfl rfl
  | @requeue r f record hi _ hr =>
    refine .assign hr (hne hi) (records_requeue r) ?_ ?_ <;>
    · unfold State.requeue
      dsimp only
      split
      · rfl
      · split <;> rfl
  | finish hi _ hr => exact .assign hr (hne hi) rfl rfl rfl
  | finishStaged hi _ hr => exact .assign hr (hne hi) rfl rfl rfl
  | @retire r record hi hr =>
    refine ⟨fun _ hs => (getElem?_modify_of_ne (hne hi)).trans hs, id, fun r' record' hr' hj => ?_⟩
    refine (getElem?_modify_of_ne ?_).trans hr'
    rintro rfl
    rw [hr] at hr'
    cases hr'
    exact hne hi hj
  | @unregister i _ hi _ _ _ =>
    unfold State.unregister
    split
    · exact .refl
    · split
      · refine ⟨fun _ => id, fun hlive => List.mem_filter.mpr ⟨hlive, ?_⟩, fun _ _ h _ => h⟩
        exact decide_eq_true (Ne.symm (hne hi))
      · exact .refl
  | register =>
    exact ⟨fun _ hs => getElem?_append_of_some hs, fun hlive => List.mem_append_left _ hlive,
      fun _ _ h _ => h⟩
  | work hw => cases hw <;> exact .of_eq rfl rfl rfl

theorem Micros.untouched (hj : ¬ scope.session j) (hm : Micros cfg scope s s') : s.Untouched s' j := by
  induction hm with
  | refl => exact .refl
  | tail _ hstep ih => exact ih.trans (hstep.untouched hj)

end Untouched

/-! ## Runs -/

section Runs

variable {cfg : Config} {s s' : State}

/-- What a step may touch when submissions have one owner, on messages of one connection. -/
def ownerScope (session : Nat → Prop) : Scope :=
  { Scope.all with session, accepts := fun s i requestId => s.soleOwner i requestId = true }

theorem ownerScope_submits {session : Nat → Prop} {l : Label} {c : Nat} {now : Clock}
    {grant : Str → Except Str Bool} {statistics : Option Dict} (h : soleOwnerStep s l = true)
    (hl : l.action = .handle c now grant statistics) : (ownerScope session).Submits s c := by
  intro m hreader hkind i requestId hi hid flips
  unfold soleOwnerStep at h
  rw [hl] at h
  dsimp only at h
  rw [hreader, hi] at h
  dsimp only at h
  rw [hkind, hid] at h
  exact h

theorem State.Isolated.micros {session : Nat → Prop} (h : s.Isolated) (hinv : s.Inv cfg)
    (hm : Micros cfg (ownerScope session) s s') : s'.Isolated := by
  induction hm with
  | refl => exact h
  | tail hprev hstep ih => exact ih.micro (hinv.micros hprev).wf (fun _ _ hacc => hacc) hstep

theorem reach_isolated (h : (broker cfg).Reach (fun s l => soleOwnerStep s l = true) s) :
    s.Isolated := by
  refine h.invariant (I := State.Isolated) .init fun s l s' hreach hisolated hsole hstep => ?_
  have hinv := reachable_inv hreach
  have hallows : (ownerScope fun _ => True).Allows s l.action :=
    .of_submits (fun _ => trivial) (fun _ => trivial) (fun _ => trivial) (fun _ => trivial)
      (fun _ _ _ => trivial) trivial (fun _ => trivial) fun _ _ _ _ hl => ownerScope_submits hsole hl
  exact hisolated.micros hinv (step_micros hinv hallows hstep)

end Runs

/-- **Sessions are isolated while request IDs have one owner.**  In every run in which each submission
that is handled has a request ID that belongs to one live session only: two live sessions never hold
requests under one ID, the request of a live session is in the global table under its ID, and a message
that one session sends leaves the table of every other live session, its requests and their entries in
the global table as they are. -/
theorem sessions_isolated (cfg : Config) {s : State}
    (h : (broker cfg).Reach (fun s l => soleOwnerStep s l = true) s) :
    (∀ (i j : Nat) (si sj : Session) (k : Str) (ri rj : Nat), i ∈ s.live → j ∈ s.live →
      s.sessions[i]? = some si → s.sessions[j]? = some sj → (k, ri) ∈ si.requests →
      (k, rj) ∈ sj.requests → i = j) ∧
    (∀ (i : Nat) (session : Session) (k : Str) (r : Nat), i ∈ s.live →
      s.sessions[i]? = some session → (k, r) ∈ session.requests → s.requests.get? k = some r) ∧
    ∀ (c : Nat) (now : Clock) (grant : Str → Except Str Bool) (statistics : Option Dict)
      (flips : List Bool) (s' : State) (j : Nat) (session : Session),
      soleOwnerStep s ⟨.handle c now grant statistics, flips⟩ = true →
      (broker cfg).step s ⟨.handle c now grant statistics, flips⟩ = some s' →
      j ∈ s.live → s.sessions[j]? = some session →
      s.connections[c]?.bind Connection.session ≠ some j →
      s'.sessions[j]? = some session ∧ ∀ k r, (k, r) ∈ session.requests →
        (∃ record : Request, s.records[r]? = some record ∧ s'.records[r]? = some record) ∧
          s'.requests.get? k = some r := by
  have hinv := reachable_inv h
  have hisolated := reach_isolated h
  refine ⟨hisolated.disjoint, hisolated.indexed, ?_⟩
  intro c now grant statistics flips s' j session hsole hstep hj hs hne
  have hallows : (ownerScope fun i => s.connections[c]?.bind Connection.session = some i).Allows s
      (.handle c now grant statistics) :=
    ⟨⟨fun _ hi => hi, fun _ _ _ _ _ _ => trivial⟩, ownerScope_submits hsole rfl⟩
  have hmicros := step_micros hinv hallows hstep
  have huntouched := hmicros.untouched (j := j) hne
  have hs' := huntouched.session session hs
  refine ⟨hs', fun k r hm => ⟨?_, ?_⟩⟩
  · obtain ⟨record, hr, -, hi, -⟩ := hinv.wf.entry j session k r hs hm
    exact ⟨record, hr, huntouched.records r record hr hi⟩
  · exact (hisolated.micros hinv hmicros).indexed j session k r (huntouched.live hj) hs' hm

/-- Two clients, each with one request of its own. -/
def twoClients : List Label :=
  openSession 0 (lit "a") ++ openSession 1 (lit "b") ++
    deliver 0 (sampleMessage .submit (lit "a:1") encodable_a1) ++
    deliver 1 (sampleMessage .submit (lit "b:1") encodable_b1)

theorem sessions_isolated_twoClients : ∃ s,
    (broker (sampleConfig .cancelQueued)).runWhile soleOwnerStep {} twoClients = some s ∧
      s.live = [0, 1] ∧ s.requests.length = 2 ∧
      ∀ (i j : Nat) (si sj : Session) (k : Str) (ri rj : Nat), i ∈ s.live → j ∈ s.live →
        s.sessions[i]? = some si → s.sessions[j]? = some sj → (k, ri) ∈ si.requests →
        (k, rj) ∈ sj.requests → i = j := by
  have hrun : (((broker (sampleConfig .cancelQueued)).runWhile soleOwnerStep {} twoClients).map
      fun s => (s.live, s.requests.length)) = some ([0, 1], 2) := by decide +kernel
  obtain ⟨s, hrun, hfacts⟩ := Option.map_eq_some_iff.mp hrun
  obtain ⟨hlive, hlength⟩ := Prod.mk.inj hfacts
  exact ⟨s, hrun, hlive, hlength,
    (sessions_isolated _ (System.Reach.of_runWhile .init twoClients hrun)).1⟩

/-- The clients `a` and `a:b` submit the request ID `a:b:5`. -/
def sharedId : List Label :=
  openSession 0 (lit "a") ++ openSession 1 (lit "a:b") ++
    deliver 0 (sampleMessage .submit (lit "a:b:5") (by decide +kernel)) ++
    deliver 1 (sampleMessage .submit (lit "a:b:5") (by decide +kernel))

/-- Both live sessions hold a request under the ID, and the first request has lost its entry in the
global table, so that queue expiry and shutdown no longer see it. -/
theorem shared_request_id : ∃ s, (broker (sampleConfig .cancelQueued)).Reachable s ∧
    s.live = [0, 1] ∧
    (s.sessions.map fun session => session.requests.get? (lit "a:b:5")) = [some 0, some 1] ∧
    s.requests.get? (lit "a:b:5") = some 1 ∧ s.requests.length = 1 := by
  have hrun : (((broker (sampleConfig .cancelQueued)).run {} sharedId).map fun s =>
      (s.live, s.sessions.map fun session => session.requests.get? (lit "a:b:5"),
        s.requests.get? (lit "a:b:5"), s.requests.length)) =
        some ([0, 1], [some 0, some 1], some 1, 1) := by
    decide +kernel
  obtain ⟨s, hrun, hfacts⟩ := Option.map_eq_some_iff.mp hrun
  obtain ⟨hlive, hfacts⟩ := Prod.mk.inj hfacts
  obtain ⟨hsessions, hfacts⟩ := Prod.mk.inj hfacts
  obtain ⟨hrequests, hlength⟩ := Prod.mk.inj hfacts
  exact ⟨s, System.reachable_of_run hrun, hlive, hsessions, hrequests, hlength⟩

end Deadpool.Remote.Broker
