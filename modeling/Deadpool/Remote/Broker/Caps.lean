import Deadpool.Remote.Broker.Chain

/-!
# The broker: caps on sockets, connections and sessions

A peer is a raw socket, then a connection without a session, then one with a session; its session may
outlive the connection.  Each cap is tested where the peer moves on: the two caps on connections when a
socket is accepted, the cap of a principal and the uniqueness of the client ID when a session is
registered.

Principal result: `connection_caps` — in every reachable state all three caps hold, and `_sessions` and
`_client_sessions` hold the same sessions, with distinct client IDs.
-/

set_option autoImplicit false

namespace Deadpool.Remote.Broker

open Deadpool.Py Deadpool.Lts

/-! ## What the caps read -/

/-- The client and the principal of every session ever made. -/
def State.identities (s : State) : List (Str × Str) :=
  s.sessions.map fun session => (session.clientId, session.principal)

/-- A live session of the principal. -/
def State.isOf (s : State) (principal : Str) (i : Nat) : Bool :=
  (s.identities[i]?.map Prod.snd) = some principal

theorem principalConnections_eq (s : State) (principal : Str) :
    s.principalConnections principal = (s.live.filter (s.isOf principal)).length := by
  unfold State.principalConnections State.isOf State.identities
  simp only [List.getElem?_map, Option.map_map]
  rfl

structure State.Capped (cfg : Config) (s : State) : Prop where
  total : s.total ≤ cfg.limits.maxConnectionsGlobal
  unauthenticated : s.unauthenticated ≤ cfg.limits.maxUnauthenticatedConnections
  principal : ∀ principal, s.principalConnections principal ≤ cfg.limits.maxConnectionsPerPrincipal
  bounded : ∀ i ∈ s.live, i < s.sessions.length
  clients : s.clientSessions.NodupKeys
  same : ∀ k i, (k, i) ∈ s.clientSessions ↔ i ∈ s.live ∧ (s.identities[i]?.map Prod.fst) = some k

theorem State.Capped.init (cfg : Config) : State.Capped cfg {} where
  total := Nat.zero_le _
  unauthenticated := Nat.zero_le _
  principal _ := Nat.zero_le _
  bounded i hi := nomatch hi
  clients := List.nodup_nil
  same k i := by simp

/-! ## Connections -/

section Changes

variable {cfg : Config} {scope : Scope} {s s' : State}

/-- A connection without a session had none before. -/
def State.Attaches (s s' : State) : Prop :=
  ∀ c : Nat, (s'.connections[c]?.bind Connection.session).isNone = true →
    (s.connections[c]?.bind Connection.session).isNone = true

theorem attaches_of_eq (h : s'.connections = s.connections) : s.Attaches s' := by
  intro c hc
  rw [← h]
  exact hc

theorem attaches_modify {c : Nat} {f : Connection → Connection}
    (h : s'.connections = s.connections.modify c f)
    (hf : ∀ conn : Connection, (f conn).session = none → conn.session = none) : s.Attaches s' := by
  intro c' hc'
  rw [h, List.getElem?_modify] at hc'
  cases hconn : s.connections[c']? with
  | none => rfl
  | some conn =>
    simp only [hconn, Option.bind_some] at hc' ⊢
    split at hc'
    · rw [Option.isNone_iff_eq_none] at hc' ⊢
      exact hf conn hc'
    · exact hc'

/-- Connections never lose their session. -/
theorem Micro.attaches (hm : Micro cfg scope s s') : s.Attaches s' := by
  cases hm with
  | flags => exact attaches_of_eq rfl
  | sockets => exact attaches_of_eq rfl
  | @connect conn hsession =>
    intro c hc
    cases hold : s.connections[c]? with
    | none => rfl
    | some conn' =>
      rw [getElem?_append_of_some hold] at hc
      exact hc
  | connection hf => exact attaches_modify rfl fun conn h => (hf conn).session ▸ h
  | cleanClose => exact attaches_modify rfl fun _ h => h
  | reader => exact attaches_modify rfl fun _ h => h
  | gone => exact attaches_modify rfl fun _ h => h
  | say => exact attaches_modify rfl fun _ h => h
  | @accept c i conn _ sequence record f _ _ _ hc hf =>
    intro c' hc'
    have hsession : (f conn).session = conn.session := by
      rcases hf with ⟨hquiet, -⟩ | ⟨-, heq⟩
      · exact hquiet.session
      · rw [heq]
        rfl
    have hmodify : ((s.enter i sequence record).setConnection c f).connections = s.connections.modify c f := rfl
    rw [hmodify, List.getElem?_modify] at hc'
    by_cases he : c = c'
    · subst he
      rw [hc] at hc' ⊢
      simpa [hsession] using hc'
    · simpa [he] using hc'
  | watermark => exact attaches_of_eq rfl
  | start => exact attaches_of_eq rfl
  | claim => exact attaches_of_eq rfl
  | emptied => exact attaches_of_eq rfl
  | stage => exact attaches_of_eq rfl
  | requeue => exact attaches_of_eq (connections_requeue _)
  | finish => exact attaches_of_eq rfl
  | finishStaged => exact attaches_of_eq rfl
  | retire => exact attaches_of_eq rfl
  | unregister => exact attaches_of_eq (connections_unregister _)
  | @register c _ session =>
    have hcombined : ((s.register c session).setReader c .welcoming).connections =
        s.connections.modify c fun conn =>
          { conn with session := some s.sessions.length, reader := .welcoming } := by
      simp only [State.register, State.setReader, State.setConnection, List.modify_modify_eq]
      rfl
    exact attaches_modify hcombined fun _ h => (by cases h)
  | work hw => exact attaches_of_eq (by cases hw <;> rfl)

/-- Nothing but the accept threads and `_disconnect` changes the sets of sockets and connections. -/
theorem Micro.rooms (hm : Micro cfg scope s s') : s.Rooms cfg s' := by
  have hattaches := hm.attaches
  have hkept : s'.rawSockets = s.rawSockets → s'.openConnections = s.openConnections →
      s.Rooms cfg s' := by
    intro hraw hopen
    refine ⟨?_, ?_⟩
    · simp only [State.total, hraw, hopen]
      omega
    · have hle : (s'.openConnections.filter fun c =>
          (s'.connections[c]?.bind Connection.session).isNone).length ≤
          (s.openConnections.filter fun c =>
            (s.connections[c]?.bind Connection.session).isNone).length := by
        rw [hopen]
        exact (List.monotone_filter_right _ fun c hc => hattaches c hc).length_le
      simp only [State.unauthenticated, hraw] at hle ⊢
      omega
  cases hm with
  | sockets _ hrooms => exact hrooms
  | requeue _ _ hr =>
    apply hkept <;> rw [requeue_eq hr] <;> rfl
  | @unregister i session _ hs hempty _ =>
    apply hkept <;> (unfold State.unregister; rw [hs]; dsimp only; rw [if_pos hempty])
  | work hw =>
    apply hkept <;> cases hw <;> rfl
  | _ => exact hkept rfl rfl

/-! ## Sessions -/

/-- The tables of sessions and the sessions' identities stay. -/
structure State.SameRegistry (s s' : State) : Prop where
  identities : s'.identities = s.identities
  live : s'.live = s.live
  clientSessions : s'.clientSessions = s.clientSessions

theorem sameRegistry_of_eq (hsessions : s'.sessions = s.sessions) (hlive : s'.live = s.live)
    (hclients : s'.clientSessions = s.clientSessions) : s.SameRegistry s' :=
  ⟨by simp only [State.identities, hsessions], hlive, hclients⟩

theorem identities_modify {i : Nat} {f : Session → Session}
    (hf : ∀ session : Session, (f session).clientId = session.clientId ∧
      (f session).principal = session.principal) (sessions : List Session) :
    (sessions.modify i f).map (fun session => (session.clientId, session.principal)) =
      sessions.map fun session => (session.clientId, session.principal) := by
  apply List.ext_getElem?
  intro j
  rw [List.getElem?_map, List.getElem?_map, List.getElem?_modify]
  cases sessions[j]? with
  | none => rfl
  | some session =>
    simp only [Option.map_eq_map, Option.map_some]
    split
    · rw [(hf session).1, (hf session).2]
    · rfl

/-- A session changes in something else than its client and its principal. -/
theorem sameRegistry_modify {i : Nat} {f : Session → Session}
    (hsessions : s'.sessions = s.sessions.modify i f) (hlive : s'.live = s.live)
    (hclients : s'.clientSessions = s.clientSessions)
    (hf : ∀ session : Session, (f session).clientId = session.clientId ∧
      (f session).principal = session.principal) : s.SameRegistry s' :=
  ⟨by simp only [State.identities, hsessions, identities_modify hf], hlive, hclients⟩

namespace State.Capped

/-- Only the sockets and connections changed. -/
theorem keep (h : s.Capped cfg) (hrooms : s.Rooms cfg s') (hsame : s.SameRegistry s') :
    s'.Capped cfg where
  total := by
    have := hrooms.total
    have := h.total
    omega
  unauthenticated := by
    have := hrooms.unauthenticated
    have := h.unauthenticated
    omega
  principal p := by
    have hcap := h.principal p
    have hisOf : s'.isOf p = s.isOf p := by
      unfold State.isOf
      rw [hsame.identities]
    rw [principalConnections_eq] at hcap ⊢
    rw [hsame.live, hisOf]
    exact hcap
  bounded i hi := by
    have hlen : s'.sessions.length = s.sessions.length := by
      simpa [State.identities] using congrArg List.length hsame.identities
    rw [hlen]
    exact h.bounded i (hsame.live ▸ hi)
  clients := hsame.clientSessions ▸ h.clients
  same k i := by
    rw [hsame.clientSessions, hsame.live, hsame.identities]
    exact h.same k i

/-- A session is registered. -/
theorem register (h : s.Capped cfg) {c : Nat} {session : Session}
    (hrooms : s.Rooms cfg ((s.register c session).setReader c .welcoming))
    (hfree : s.clientSessions.get? session.clientId = none)
    (hroom : s.principalConnections session.principal < cfg.limits.maxConnectionsPerPrincipal) :
    ((s.register c session).setReader c .welcoming).Capped cfg := by
  have hidentities : ((s.register c session).setReader c .welcoming).identities =
      s.identities ++ [(session.clientId, session.principal)] := by
    simp [State.identities, State.register, State.setReader, State.setConnection]
  have hlen : s.identities.length = s.sessions.length := by simp [State.identities]
  have hold : ∀ i ∈ s.live, (s.identities ++ [(session.clientId, session.principal)])[i]? =
      s.identities[i]? := by
    intro i hi
    apply List.getElem?_append_left
    rw [hlen]
    exact h.bounded i hi
  have hnew : (s.identities ++ [(session.clientId, session.principal)])[s.sessions.length]? =
      some (session.clientId, session.principal) := by
    rw [← hlen]
    exact List.getElem?_concat_length
  have hkeys : session.clientId ∉ s.clientSessions.map Prod.fst := by
    intro hk
    obtain ⟨⟨k, i⟩, hm, rfl⟩ := List.mem_map.mp hk
    rw [Table.get?_of_mem h.clients hm] at hfree
    cases hfree
  have hlive : ((s.register c session).setReader c .welcoming).live =
      s.live ++ [s.sessions.length] := rfl
  have hclients : ((s.register c session).setReader c .welcoming).clientSessions =
      s.clientSessions ++ [(session.clientId, s.sessions.length)] := Table.set_of_get?_none hfree
  refine ⟨?_, ?_, ?_, ?_, ?_, ?_⟩
  · have := hrooms.total
    have := h.total
    omega
  · have := hrooms.unauthenticated
    have := h.unauthenticated
    omega
  · intro p
    have hfilter : s.live.filter
        (((s.register c session).setReader c .welcoming).isOf p) = s.live.filter (s.isOf p) := by
      apply List.filter_congr
      intro i hi
      unfold State.isOf
      rw [hidentities, hold i hi]
    have hcap := h.principal p
    rw [principalConnections_eq] at hcap hroom ⊢
    rw [hlive, List.filter_append, List.length_append, hfilter]
    by_cases hp : session.principal = p
    · subst hp
      have := List.length_filter_le
        (((s.register c session).setReader c .welcoming).isOf session.principal) [s.sessions.length]
      rw [List.length_singleton] at this
      omega
    · have hother : ((s.register c session).setReader c .welcoming).isOf p s.sessions.length =
          false := by
        unfold State.isOf
        rw [hidentities, hnew]
        simpa using hp
      simpa [hother] using hcap
  · intro i hi
    have hgrown : ((s.register c session).setReader c .welcoming).sessions.length =
        s.sessions.length + 1 := by
      simp [State.register, State.setReader, State.setConnection]
    rw [hgrown]
    rcases List.mem_append.mp hi with hi | hi
    · have := h.bounded i hi
      omega
    · rw [List.mem_singleton] at hi
      omega
  · exact h.clients.set
  · intro k i
    rw [hclients, hlive, hidentities, List.mem_append, List.mem_append, List.mem_singleton,
      List.mem_singleton, h.same k i]
    constructor
    · rintro (⟨hi, hk⟩ | he)
      · exact ⟨.inl hi, (hold i hi).symm ▸ hk⟩
      · cases he
        exact ⟨.inr rfl, by rw [hnew]; rfl⟩
    · rintro ⟨hi | rfl, hk⟩
      · exact .inl ⟨hi, hold i hi ▸ hk⟩
      · rw [hnew] at hk
        cases hk
        exact .inr rfl

/-- A session leaves both tables. -/
theorem unregister (h : s.Capped cfg) {i : Nat} {session : Session}
    (hrooms : s.Rooms cfg (s.unregister i)) (hs : s.sessions[i]? = some session)
    (hempty : session.requests = []) : (s.unregister i).Capped cfg := by
  have heq : s.unregister i =
      { s with
        live := s.live.filter (· ≠ i)
        clientSessions :=
          if s.clientSessions.get? session.clientId = some i then
            s.clientSessions.pop session.clientId
          else s.clientSessions } := by
    unfold State.unregister
    rw [hs]
    dsimp only
    rw [if_pos hempty]
  have hidentity : s.identities[i]?.map Prod.fst = some session.clientId := by
    simp [State.identities, hs]
  have hidentities : (s.unregister i).identities = s.identities := by
    rw [heq]
    rfl
  have hlive : (s.unregister i).live = s.live.filter (· ≠ i) := by rw [heq]
  refine ⟨?_, ?_, ?_, ?_, ?_, ?_⟩
  · have := hrooms.total
    have := h.total
    omega
  · have := hrooms.unauthenticated
    have := h.unauthenticated
    omega
  · intro p
    have hcap := h.principal p
    have hsub : ((s.live.filter (· ≠ i)).filter (s.isOf p)).Sublist (s.live.filter (s.isOf p)) :=
      List.filter_sublist.filter _
    rw [principalConnections_eq] at hcap ⊢
    have hisOf : (s.unregister i).isOf p = s.isOf p := by
      unfold State.isOf
      rw [hidentities]
    rw [hlive, hisOf]
    exact hsub.length_le.trans hcap
  · intro j hj
    rw [hlive] at hj
    rw [heq]
    exact h.bounded j (List.mem_of_mem_filter hj)
  · rw [heq]
    dsimp only
    split
    · exact h.clients.pop
    · exact h.clients
  · intro k j
    rw [hlive, hidentities, heq, List.mem_filter, decide_eq_true_eq]
    dsimp only
    split
    · rename_i hget
      rw [Table.mem_pop, h.same k j]
      constructor
      · rintro ⟨⟨hj, hk⟩, hne⟩
        refine ⟨⟨hj, ?_⟩, hk⟩
        rintro rfl
        rw [hidentity] at hk
        cases hk
        exact hne rfl
      · rintro ⟨⟨hj, hne⟩, hk⟩
        refine ⟨⟨hj, hk⟩, ?_⟩
        -- the client ID maps to the session that leaves
        rintro rfl
        have hm := (h.same session.clientId j).mpr ⟨hj, hk⟩
        rw [Table.get?_of_mem h.clients hm] at hget
        cases hget
        exact hne rfl
    · rename_i hget
      rw [h.same k j]
      constructor
      · rintro ⟨hj, hk⟩
        refine ⟨⟨hj, ?_⟩, hk⟩
        rintro rfl
        exact hget (Table.get?_of_mem h.clients ((h.same _ _).mpr ⟨hj, hidentity⟩))
      · rintro ⟨⟨hj, -⟩, hk⟩
        exact ⟨hj, hk⟩

theorem micro (h : s.Capped cfg) (hm : Micro cfg scope s s') : s'.Capped cfg := by
  have hrooms := hm.rooms
  cases hm with
  | @accept c i conn session sequence record f _ _ ha =>
    obtain ⟨m, now, registered, priority, executionTimeout, queueTimeout, hrecord⟩ := ha.fresh
    have hi : record.session = i := by rw [hrecord]; rfl
    exact h.keep hrooms
      (sameRegistry_modify (State.WF.sessions_enter hi) rfl rfl fun _ => ⟨rfl, rfl⟩)
  | watermark => exact h.keep hrooms (sameRegistry_modify rfl rfl rfl fun _ => ⟨rfl, rfl⟩)
  | retire => exact h.keep hrooms (sameRegistry_modify rfl rfl rfl fun _ => ⟨rfl, rfl⟩)
  | requeue _ _ hr =>
    apply h.keep hrooms
    apply sameRegistry_of_eq <;> rw [requeue_eq hr] <;> rfl
  | unregister _ hs hempty _ => exact h.unregister hrooms hs hempty
  | register _ _ _ hfree hroom => exact h.register hrooms hfree hroom
  | work hw => exact h.keep hrooms (by apply sameRegistry_of_eq <;> cases hw <;> rfl)
  | _ => exact h.keep hrooms (sameRegistry_of_eq rfl rfl rfl)

theorem micros (h : s.Capped cfg) (hm : Micros cfg scope s s') : s'.Capped cfg := by
  induction hm with
  | refl => exact h
  | tail _ hstep ih => exact ih.micro hstep

end State.Capped

end Changes

/-! ## Runs -/

theorem reachable_capped {cfg : Config} {s : State} (h : (broker cfg).Reachable s) :
    s.Capped cfg := by
  refine h.invariant (I := State.Capped cfg) (.init cfg) fun s l s' hs hcapped _ hstep => ?_
  exact hcapped.micros (step_micros (reachable_inv hs) (Scope.allows_all s l.action) hstep)

/-- **The caps hold throughout.**  Sockets and connections together, those without a session, and the
sessions of a principal stay within their limits; the two tables of sessions hold the same sessions,
whose client IDs differ. -/
theorem connection_caps (cfg : Config) {s : State} (h : (broker cfg).Reachable s) :
    s.total ≤ cfg.limits.maxConnectionsGlobal ∧
    s.unauthenticated ≤ cfg.limits.maxUnauthenticatedConnections ∧
    (∀ principal, s.principalConnections principal ≤ cfg.limits.maxConnectionsPerPrincipal) ∧
    (∀ i, i ∈ s.live ↔ i ∈ s.clientSessions.values) ∧
    (∀ k i, (k, i) ∈ s.clientSessions → (s.sessions[i]?.map Session.clientId) = some k) ∧
    ∀ i ∈ s.live, ∀ j ∈ s.live,
      (s.sessions[i]?.map Session.clientId) = (s.sessions[j]?.map Session.clientId) → i = j := by
  have hc := reachable_capped h
  have hidentity : ∀ i : Nat, s.identities[i]?.map Prod.fst = s.sessions[i]?.map Session.clientId := by
    intro i
    simp only [State.identities, List.getElem?_map, Option.map_map]
    rfl
  -- a live session has an entry under its client ID
  have hentry : ∀ i ∈ s.live, ∃ session, s.sessions[i]? = some session ∧
      (session.clientId, i) ∈ s.clientSessions := by
    intro i hi
    have hs := List.getElem?_eq_getElem (hc.bounded i hi)
    refine ⟨_, hs, (hc.same _ i).mpr ⟨hi, ?_⟩⟩
    rw [hidentity, hs]
    rfl
  refine ⟨hc.total, hc.unauthenticated, hc.principal, ?_, ?_, ?_⟩
  · intro i
    constructor
    · intro hi
      obtain ⟨session, -, hm⟩ := hentry i hi
      exact List.mem_map_of_mem hm
    · intro hi
      obtain ⟨⟨k, j⟩, hm, rfl⟩ := List.mem_map.mp hi
      exact ((hc.same k j).mp hm).1
  · intro k i hm
    rw [← hidentity]
    exact ((hc.same k i).mp hm).2
  · intro i hi j hj he
    obtain ⟨session, hs, hm⟩ := hentry i hi
    obtain ⟨session', hs', hm'⟩ := hentry j hj
    have hid : session.clientId = session'.clientId := by simpa [hs, hs'] using he
    have hget := Table.get?_of_mem hc.clients hm
    rw [hid, Table.get?_of_mem hc.clients hm'] at hget
    exact (Option.some.inj hget).symm

/-- Two sessions of one principal, a client that was refused for its ID, and a socket. -/
def crowdedRun : List Label :=
  openSession 0 (lit "a") ++ openSession 1 (lit "b") ++
    [⟨.accept, []⟩, ⟨.prepare true, []⟩, ⟨.hello 2 (sampleHello (lit "a")) (some (lit "q")), []⟩,
      ⟨.accept, []⟩]

theorem connection_caps_crowdedRun : ∃ s,
    (broker (sampleConfig .cancelQueued)).run {} crowdedRun = some s ∧
      (s.total, s.unauthenticated, s.live) = (4, 2, [0, 1]) ∧
      s.principalConnections (lit "p") ≤ 64 ∧
      ∀ i, i ∈ s.live ↔ i ∈ s.clientSessions.values := by
  have hrun : (((broker (sampleConfig .cancelQueued)).run {} crowdedRun).map
      fun s => (s.total, s.unauthenticated, s.live)) = some (4, 2, [0, 1]) := by decide +kernel
  obtain ⟨s, hrun, hfacts⟩ := Option.map_eq_some_iff.mp hrun
  have hcaps := connection_caps _ (System.reachable_of_run hrun)
  exact ⟨s, hrun, hfacts, hcaps.2.2.1 (lit "p"), hcaps.2.2.2.1⟩

end Deadpool.Remote.Broker
