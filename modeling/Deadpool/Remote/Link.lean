import Deadpool.Remote.Broker.Reports
import Deadpool.Remote.Client.Ends
import Deadpool.Remote.Framing

/-!
# A client and the server

The client and the broker as one system, with the connection between them.  What the sender of the client
has begun to write arrives in order at the reader of the connection, and what the writer of the connection
has written is heard in order by the client, each message with its keys sorted (`receiveAll_sendAll`).
The other connections of the server are free, and either end may lose the connection at any time.

Principal results:

* `Linked.step`     : a step of the system keeps the two ends in line;
* `reachable_linked` : what each end knows of the other, in every reachable state.
-/

set_option autoImplicit false

namespace Deadpool.Remote

open Deadpool.Py Deadpool.Lts

/-! ## Messages on the way -/

section Sorted

/-- In a dictionary an item is found under its key. -/
theorem get?_eq_some {items : Items} (h : (items.map Prod.fst).Nodup) {key : Str} {v : Value} :
    items.get? key = some v ↔ (.str key, v) ∈ items := by
  unfold Items.get?
  constructor
  · intro hget
    obtain ⟨item, hfind, rfl⟩ := Option.map_eq_some_iff.mp hget
    have hkey : item.1 = .str key := by simpa using List.find?_some hfind
    rw [← hkey]
    exact List.mem_of_find?_eq_some hfind
  · intro hmem
    cases hfind : items.find? fun item => item.1 = .str key with
    | none =>
      have hnone := List.find?_eq_none.mp hfind _ hmem
      simp at hnone
    | some item =>
      have hkey : item.1 = .str key := by simpa using List.find?_some hfind
      have hsame : item = (.str key, v) :=
        List.inj_on_of_nodup_map h (List.mem_of_find?_eq_some hfind) hmem hkey
      rw [hsame]
      rfl

/-- Sorting a dictionary sorts its values. -/
theorem get?_sorted (d : Dict) (key : Str) :
    d.sorted.items.get? key = (d.items.get? key).map Value.canon := by
  have hnodup : ((sortItems (canonItems d.items)).map Prod.fst).Nodup := d.sorted.unique.1
  have hmem : ∀ v, (.str key, v) ∈ d.sorted.items ↔ ∃ w, (.str key, w) ∈ d.items ∧ w.canon = v := by
    intro v
    show _ ∈ sortItems (canonItems d.items) ↔ _
    rw [(sortItems_perm _).mem_iff, canonItems_eq_map, List.mem_map]
    constructor
    · rintro ⟨⟨k, w⟩, hw, heq⟩
      obtain ⟨rfl, hv⟩ := Prod.mk.inj heq
      exact ⟨w, hw, hv⟩
    · rintro ⟨w, hw, rfl⟩
      exact ⟨_, hw, rfl⟩
  cases hget : d.items.get? key with
  | none =>
    cases hsorted : d.sorted.items.get? key with
    | none => rfl
    | some v =>
      obtain ⟨w, hw, -⟩ := (hmem v).mp ((get?_eq_some hnodup).mp hsorted)
      rw [(get?_eq_some d.unique.1).mpr hw] at hget
      cases hget
  | some w =>
    exact (get?_eq_some hnodup).mpr ((hmem _).mpr ⟨w, (get?_eq_some d.unique.1).mp hget, rfl⟩)

theorem get_sorted (d : Dict) (key : Str) : d.sorted.items.get key = (d.items.get key).canon := by
  unfold Items.get
  rw [get?_sorted]
  cases d.items.get? key <;> rfl

theorem canon_eq_str {v : Value} {text : Str} : v.canon = .str text ↔ v = .str text := by
  cases v <;> simp [Value.canon]

theorem get_sorted_str {d : Dict} {key text : Str} :
    d.sorted.items.get key = .str text ↔ d.items.get key = .str text := by
  rw [get_sorted, canon_eq_str]

theorem isText_canon (text : Str) (v : Value) : Broker.isText text v.canon = Broker.isText text v := by
  cases v <;> rfl

theorem submits_sorted (k : Str) (m : Message) : Broker.submits k m.sorted = Broker.submits k m := by
  unfold Broker.submits Message.sorted
  dsimp only
  rw [get_sorted, isText_canon]

end Sorted

section Encodable

mutual

def decidableEncodableValue : (v : Value) → Decidable (EncodableValue v)
  | .str s => inferInstanceAs (Decidable (Encodable s))
  | .list xs => decidableEncodableList xs
  | .dict items => decidableEncodableItems items
  | .none | .bool _ | .int _ | .float _ | .other _ => isTrue trivial

def decidableEncodableList : (xs : List Value) → Decidable (EncodableList xs)
  | [] => isTrue trivial
  | x :: xs => @instDecidableAnd _ _ (decidableEncodableValue x) (decidableEncodableList xs)

def decidableEncodableItems : (items : Items) → Decidable (EncodableItems items)
  | [] => isTrue trivial
  | (k, v) :: rest =>
    have key : Decidable (∀ s, k = .str s → Encodable s) := match k with
      | .str s => decidable_of_iff (Encodable s) ⟨fun h _ heq => Key.str.inj heq ▸ h, fun h => h s rfl⟩
      | .other _ => isTrue fun _ heq => by cases heq
    @instDecidableAnd _ _ key
      (@instDecidableAnd _ _ (decidableEncodableValue v) (decidableEncodableItems rest))

end

instance (items : Items) : Decidable (EncodableItems items) := decidableEncodableItems items

end Encodable

/-! ## The system -/

namespace Broker

def OutItem.isMessage : OutItem → Bool
  | .message _ => true
  | .barrier | .stop => false

/-- What the writer of a connection has taken from its queue. -/
def State.written (s : State) (c : Nat) : List Entry :=
  match s.connections[c]? with
  | none => []
  | some conn => conn.log.take (conn.log.length - conn.outbound.countP OutItem.isMessage)

/-- The session of a connection. -/
def State.sessionOf (s : State) (c : Nat) : Option Session :=
  (s.connections[c]?.bind Connection.session).bind fun i => s.sessions[i]?

end Broker

/-- A client and the server, with what has gone over the connection between them. -/
structure Link (V X : Type) where
  client : Client.Endpoint V X
  server : Broker.State := {}
  /-- `_connect` has returned -/
  connected : Bool := false
  /-- how many of the client's messages the server has received -/
  arrived : Nat := 0

namespace Link

inductive Label (X : Type) where
  /-- `_connect` reads `WELCOME` -/
  | connect
  | client (l : Client.Label X)
  | server (l : Broker.Label)
  /-- the reader of the connection receives a message -/
  | arrive (flips : List Bool)
  /-- the receiver of the client receives a message -/
  | hear

section System

variable {V X : Type} (cfg : Client.Config V X) (scfg : Broker.Config) (c : Nat)

def step (s : Link V X) : Label X → Option (Link V X)
  | .connect =>
    match s.server.sessionOf c, s.server.written c with
    | some session, entry :: _ =>
      if entry.message.kind = .welcome ∧ session.clientId = cfg.clientId.text then
        some { s with connected := true }
      else none
    | _, _ => none
  -- the client hears nothing but what the server says
  | .client l =>
    if s.connected then
      (s.client.step cfg l).bind fun client =>
        if client.heard.length = s.client.heard.length then some { s with client } else none
    else none
  -- the connection receives nothing but what the client writes
  | .server l =>
    if (l.received c).isEmpty then
      (Broker.step scfg s.server l).map fun server => { s with server }
    else none
  | .arrive flips =>
    match s.client.wire[s.arrived]? with
    | none => none
    | some post =>
      if h : EncodableItems post.1.sorted.control.items then
        (Broker.step scfg s.server ⟨.receive c ⟨post.1.sorted, h⟩, flips⟩).map fun server =>
          { s with server, arrived := s.arrived + 1 }
      else none
  -- the first message is `WELCOME`
  | .hear =>
    match (s.server.written c)[s.client.heard.length + 1]? with
    | none => none
    | some entry =>
      (s.client.step cfg (.receive (.ok entry.message.sorted))).map fun client => { s with client }

end System

end Link

/-- A client and the server, with connection `c` between them. -/
def link {V X : Type} (cfg : Client.Config V X) (scfg : Broker.Config) (c : Nat) :
    System (Link V X) (Link.Label X) :=
  ⟨{ client := (Client.endpoint cfg).init }, Link.step cfg scfg c⟩

namespace Link

section Turns

variable {V X : Type} {cfg : Client.Config V X} {scfg : Broker.Config} {c : Nat} {s s' : Link V X}

/-- What a step of the system does, with the guard of its branch. -/
inductive Turn (cfg : Client.Config V X) (scfg : Broker.Config) (c : Nat) (s : Link V X) :
    Label X → Link V X → Prop
  | connect {session : Broker.Session} {entry : Broker.Entry} {rest : List Broker.Entry} :
      s.server.sessionOf c = some session → s.server.written c = entry :: rest →
      entry.message.kind = .welcome → session.clientId = cfg.clientId.text →
      Turn cfg scfg c s .connect { s with connected := true }
  | client {l : Client.Label X} {client : Client.Endpoint V X} : s.connected = true →
      s.client.step cfg l = some client → client.heard.length = s.client.heard.length →
      Turn cfg scfg c s (.client l) { s with client }
  | server {l : Broker.Label} {server : Broker.State} : l.received c = [] →
      Broker.step scfg s.server l = some server → Turn cfg scfg c s (.server l) { s with server }
  | arrive {flips : List Bool} {post : Client.Post} {m : Broker.Inbound} {server : Broker.State} :
      s.client.wire[s.arrived]? = some post → m.message = post.1.sorted →
      Broker.step scfg s.server ⟨.receive c m, flips⟩ = some server →
      Turn cfg scfg c s (.arrive flips) { s with server, arrived := s.arrived + 1 }
  | hear {entry : Broker.Entry} {client : Client.Endpoint V X} :
      (s.server.written c)[s.client.heard.length + 1]? = some entry →
      s.client.step cfg (.receive (.ok entry.message.sorted)) = some client →
      Turn cfg scfg c s .hear { s with client }

theorem step_turn {l : Label X} (hs : s.step cfg scfg c l = some s') : Turn cfg scfg c s l s' := by
  cases l with
  | connect =>
    simp only [Link.step] at hs
    split at hs
    · rename_i session entry rest hsession hwritten
      split at hs
      · rename_i hwelcome
        cases hs
        exact .connect hsession hwritten hwelcome.1 hwelcome.2
      · cases hs
    · cases hs
  | client l =>
    simp only [Link.step] at hs
    split at hs
    · rename_i hconnected
      obtain ⟨client, hclient, hs⟩ := Option.bind_eq_some_iff.mp hs
      split at hs
      · rename_i hlength
        cases hs
        exact .client hconnected hclient hlength
      · cases hs
    · cases hs
  | server l =>
    simp only [Link.step] at hs
    split at hs
    · rename_i hnone
      obtain ⟨server, hserver, rfl⟩ := Option.map_eq_some_iff.mp hs
      exact .server (List.isEmpty_iff.mp hnone) hserver
    · cases hs
  | arrive flips =>
    simp only [Link.step] at hs
    split at hs
    · cases hs
    · rename_i post hpost
      split at hs
      · obtain ⟨server, hserver, rfl⟩ := Option.map_eq_some_iff.mp hs
        exact .arrive hpost rfl hserver
      · cases hs
  | hear =>
    simp only [Link.step] at hs
    split at hs
    · cases hs
    · rename_i entry hentry
      obtain ⟨client, hclient, rfl⟩ := Option.map_eq_some_iff.mp hs
      exact .hear hentry hclient

end Turns

/-! ## What the ends know of each other -/

section Linked

variable {V X : Type} {cfg : Client.Config V X} {scfg : Broker.Config} {c : Nat} {s s' : Link V X}

/-- The two ends are in states that they reach alone, and in line with each other. -/
structure Linked (cfg : Client.Config V X) (scfg : Broker.Config) (c : Nat) (s : Link V X) : Prop where
  client : (Client.endpoint cfg).Reachable s.client
  server : (Broker.broker scfg).Reachable s.server
  heard : s.client.heard <+: ((s.server.logOf c).drop 1).map fun entry => entry.message.sorted
  arrived : s.arrived ≤ s.client.wire.length
  heeds : ∃ handled, s.server.Heeds c ((s.client.wire.take s.arrived).map fun post => post.1.sorted) handled
  session : s.connected = true → ∃ (i : Nat) (session : Broker.Session),
    s.server.sessions[i]? = some session ∧ session.connection = c ∧
      session.clientId = cfg.clientId.text

theorem Linked.init : Linked cfg scfg c (link cfg scfg c).init where
  client := .init
  server := .init
  heard := List.nil_prefix
  arrived := Nat.le_refl _
  heeds := ⟨[], .init⟩
  session h := by cases h

/-- A message that was written was logged. -/
theorem written_log {server : Broker.State} {n : Nat} {entry : Broker.Entry}
    (h : (server.written c)[n]? = some entry) : (server.logOf c)[n]? = some entry := by
  unfold Broker.State.written at h
  unfold Broker.State.logOf
  split at h
  · cases h
  · rename_i conn hc
    rw [hc]
    rw [List.getElem?_take] at h
    split at h
    · exact h
    · cases h

theorem prefix_concat {α : Type} {l l' : List α} {a : α} (h : l <+: l') (ha : l'[l.length]? = some a) :
    l ++ [a] <+: l' := by
  rw [List.prefix_iff_eq_take] at h
  have htake : l ++ [a] = l'.take (l.length + 1) := by
    rw [List.take_add_one, ha, ← h]
    rfl
  rw [htake]
  exact List.take_prefix _ _

/-- A step of the server. -/
theorem Linked.serve (h : Linked cfg scfg c s) {l : Broker.Label} {server : Broker.State}
    (hs : Broker.step scfg s.server l = some server) (arrived : Nat)
    (harrived : arrived ≤ s.client.wire.length)
    (htake : ((s.client.wire.take arrived).map fun post => post.1.sorted) =
      ((s.client.wire.take s.arrived).map fun post => post.1.sorted) ++ l.received c) :
    Linked cfg scfg c { s with server, arrived } := by
  have htelling := Broker.reachable_telling h.server
  have hmicros := Broker.step_micros htelling.lived.inv (Broker.Scope.allows_all s.server l.action) hs
  obtain ⟨handled, hheeds⟩ := h.heeds
  obtain ⟨handled', hheeds'⟩ := hheeds.step htelling hs
  refine ⟨h.client, .step h.server trivial hs, ?_, harrived, ⟨handled', ?_⟩, fun hconnected => ?_⟩
  · obtain ⟨entries, hlog, -⟩ := Broker.step_extends htelling hs c
    refine h.heard.trans ?_
    rw [hlog]
    refine List.IsPrefix.map _ ?_
    rw [List.drop_append]
    exact List.prefix_append _ _
  · rw [htake]
    exact hheeds'
  · obtain ⟨i, session, hi, hcon, hid⟩ := h.session hconnected
    obtain ⟨session', hi', hgrows⟩ := hmicros.sessions hi
    exact ⟨i, session', hi', hgrows.connection.trans hcon, hgrows.clientId.trans hid⟩

/-- A step of the client. -/
theorem Linked.act (h : Linked cfg scfg c s) {l : Client.Label X} {client : Client.Endpoint V X}
    (hs : s.client.step cfg l = some client)
    (hheard : client.heard <+: ((s.server.logOf c).drop 1).map fun entry => entry.message.sorted) :
    Linked cfg scfg c { s with client } := by
  obtain ⟨-, hwire, -⟩ := Client.Endpoint.step_client hs
  refine ⟨.step h.client trivial hs, h.server, hheard, ?_, ?_, h.session⟩
  · show s.arrived ≤ client.wire.length
    rw [hwire, List.length_append]
    exact h.arrived.trans (Nat.le_add_right _ _)
  · obtain ⟨handled, hheeds⟩ := h.heeds
    refine ⟨handled, ?_⟩
    show s.server.Heeds c ((client.wire.take s.arrived).map fun post => post.1.sorted) handled
    rw [hwire, List.take_append_of_le_length h.arrived]
    exact hheeds

/-- **A step of the system keeps the two ends in line.** -/
theorem Linked.step {l : Label X} (h : Linked cfg scfg c s) (hs : s.step cfg scfg c l = some s') :
    Linked cfg scfg c s' := by
  cases step_turn hs with
  | @connect session entry rest hsession hwritten hkind hid =>
    refine ⟨h.client, h.server, h.heard, h.arrived, h.heeds, fun _ => ?_⟩
    unfold Broker.State.sessionOf at hsession
    obtain ⟨i, hi, hs⟩ := Option.bind_eq_some_iff.mp hsession
    obtain ⟨conn, hc, hi⟩ := Option.bind_eq_some_iff.mp hi
    obtain ⟨session', hs', hcon⟩ := (Broker.reachable_inv h.server).wf.link c conn i hc hi
    rw [hs] at hs'
    cases hs'
    exact ⟨i, session, hs, hcon, hid⟩
  | @client l client hconnected hclient hlength =>
    refine h.act hclient ?_
    obtain ⟨-, -, hheard⟩ := Client.Endpoint.step_client hclient
    have hnil : Client.hears s.client.client client.client = [] := by
      rw [hheard, List.length_append] at hlength
      exact List.length_eq_zero_iff.mp (by omega)
    rw [hheard, hnil, List.append_nil]
    exact h.heard
  | server hnone hserver =>
    refine h.serve hserver s.arrived h.arrived ?_
    rw [hnone, List.append_nil]
  | @arrive flips post m server hpost hm hserver =>
    refine h.serve hserver (s.arrived + 1) (lt_of_getElem? hpost) ?_
    have hreceived : Broker.Label.received ⟨.receive c m, flips⟩ c = [m.message] := if_pos rfl
    rw [hreceived, hm, List.take_add_one, hpost, List.map_append]
    rfl
  | @hear entry client hentry hclient =>
    refine h.act hclient ?_
    obtain ⟨hstep, -, hheard⟩ := Client.Endpoint.step_client hclient
    have hhears : Client.hears s.client.client client.client = [entry.message.sorted] := by
      simp only [Client.State.step] at hstep
      split at hstep
      · rename_i hreading
        unfold Client.hears
        rw [hreading, ← Option.some.inj hstep]
      · cases hstep
    rw [hheard, hhears]
    refine prefix_concat h.heard ?_
    rw [List.getElem?_map, List.getElem?_drop, Nat.add_comm, written_log hentry]
    rfl

theorem reachable_linked (h : (link cfg scfg c).Reachable s) : Linked cfg scfg c s :=
  h.invariant .init fun _ _ _ _ hlinked _ hs => hlinked.step hs

end Linked

end Link

end Deadpool.Remote
