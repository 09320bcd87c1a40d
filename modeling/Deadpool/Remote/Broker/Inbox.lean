import Deadpool.Remote.Broker.Answers

/-!
# The broker: the messages of one connection

`State.Heeds` relates the log of a connection and its requests to the messages that its reader has
handled.  Each `SUBMIT` makes one request or one rejection at most, a decision about a cancellation names
the message that asked for it, and a submission is stale only after one with a greater number.

Principal result: `State.Heeds.step` — a step keeps this, with what the reader receives.
-/

set_option autoImplicit false

namespace Deadpool.Remote.Broker

open Deadpool.Py Deadpool.Lts

/-! ## Messages -/

/-- A submission of the request. -/
def submits (k : Str) (m : Message) : Bool :=
  m.kind = .submit && isText k (m.control.items.get (lit "request_id"))

/-- A rejection of the request. -/
def rejects (k : Str) (entry : Entry) : Bool :=
  entry.message.kind = .rejected && isText k (entry.message.control.items.get (lit "request_id"))

/-- A rejection of a request whose number has passed. -/
def Stale (m : Message) : Prop :=
  m.kind = .rejected ∧ m.control.items.get (lit "reason") = .str (lit "stale_request")

/-- The two messages name one request. -/
def Concerns (answer m : Message) : Prop :=
  answer.control.items.get (lit "request_id") = m.control.items.get (lit "request_id")

/-- The submission has this number in the session. -/
def Session.Numbers (session : Session) (m : Message) (sequence : Int) : Prop :=
  ∃ requestId, submits requestId m = true ∧
    m.control.items.get (lit "request_id") = .str requestId ∧
    requestSequence session.clientId requestId = .ok sequence

/-- The request that the cancellation names has ended, and a soft one has not started. -/
def State.Revoked (s : State) (c : Nat) (control : Dict) : Prop :=
  ∃ (r : Nat) (record : Request), s.records[r]? = some record ∧ record.connection = c ∧
    control.items.get (lit "request_id") = .str record.requestId ∧ record.state.terminal = true ∧
    (truthy (control.items.get (lit "hard")) = false → record.startedAt = none)

theorem eq_of_isText {k : Str} {v : Value} (h : isText k v = true) : v = .str k := by
  unfold isText at h
  split at h
  · rw [of_decide_eq_true h]
  · cases h

theorem submits_self {m : Message} {k : Str} (hkind : m.kind = .submit)
    (hid : m.control.items.get (lit "request_id") = .str k) : submits k m = true := by
  unfold submits isText
  rw [hkind, hid]
  simp

theorem submits_iff {m : Message} {k : Str} : submits k m = true ↔
    m.kind = .submit ∧ m.control.items.get (lit "request_id") = .str k := by
  constructor
  · intro h
    obtain ⟨hkind, hid⟩ := Bool.and_eq_true_iff.mp h
    exact ⟨of_decide_eq_true hkind, eq_of_isText hid⟩
  · exact fun h => submits_self h.1 h.2

theorem rejects_rejected (k requestId : Str) (reason : String) (record : Option Nat) :
    rejects k ⟨record, rejectedMessage requestId reason⟩ = decide (requestId = k) := by
  unfold rejects
  dsimp only
  rw [get_rejected]
  exact Bool.true_and _

theorem get_reason (requestId : Str) (reason : String) :
    (rejectedMessage requestId reason).control.items.get (lit "reason") = .str (lit reason) :=
  Dict.get_set_self

/-! ## Steps without an answer -/

section Steps

variable {cfg : Config} {s s' s'' x : State} {c : Nat} {inbox handled : List Message}

/-- Nothing is answered on the connection. -/
structure State.Mute (s s' : State) (c : Nat) : Prop where
  names : ∀ k, s'.names.count (c, k) = s.names.count (c, k)
  log : ∃ entries, s'.logOf c = s.logOf c ++ entries ∧ ∀ entry ∈ entries,
    entry.message.kind ≠ .rejected ∧ entry.message.kind ≠ .cancelResponse
  sessions : ∀ (i : Nat) (session' : Session), s'.sessions[i]? = some session' →
    session'.connection = c → session'.watermark = 0 ∨ ∃ session : Session,
      s.sessions[i]? = some session ∧ session'.key = session.key

theorem State.Mute.trans (h : s.Mute s' c) (h' : s'.Mute s'' c) : s.Mute s'' c where
  names k := (h'.names k).trans (h.names k)
  log := by
    obtain ⟨entries, hlog, hmute⟩ := h.log
    obtain ⟨entries', hlog', hmute'⟩ := h'.log
    refine ⟨entries ++ entries', by rw [hlog', hlog, List.append_assoc], fun entry hentry => ?_⟩
    exact (List.mem_append.mp hentry).elim (hmute entry) (hmute' entry)
  sessions i session'' hs'' hc := by
    rcases h'.sessions i session'' hs'' hc with hzero | ⟨session', hs', hkey⟩
    · exact .inl hzero
    · rcases h.sessions i session' hs' ((congrArg (fun key => key.2.1) hkey).symm.trans hc) with
        hzero | ⟨session, hs, hkey'⟩
      · exact .inl ((congrArg (fun key => key.2.2) hkey).trans hzero)
      · exact .inr ⟨session, hs, hkey.trans hkey'⟩

theorem State.Mute.flips {before after : List Bool}
    (h : State.Mute { s with flips := before } s' c) : s.Mute { s' with flips := after } c :=
  ⟨h.names, h.log, h.sessions⟩

theorem Section.mute (h : Section s s') (c : Nat) : s.Mute s' c where
  names k := by rw [h.frame.names]
  log := by
    obtain ⟨entries, hlog, hplain⟩ := h.logOf c
    refine ⟨entries, hlog, fun entry hentry => ?_⟩
    have hp := hplain entry hentry
    constructor
    · intro hkind
      rw [hkind] at hp
      cases hp
    · intro hkind
      rw [hkind] at hp
      cases hp
  sessions i session' hs' _ := .inr (h.frame.sessions i session' hs')

theorem State.Mute.of_eq (hnames : s'.names = s.names) (hlog : s'.logOf c = s.logOf c)
    (hsessions : s'.sessions = s.sessions) : s.Mute s' c where
  names k := by rw [hnames]
  log := ⟨[], by rw [hlog, List.append_nil], fun _ h => by cases h⟩
  sessions i session' hs' _ := .inr ⟨session', hsessions ▸ hs', rfl⟩

/-- A message that is no answer is enqueued. -/
theorem mute_send {c' : Nat} {record : Option Nat} {m : Message}
    (h : c ≠ c' ∨ m.kind ≠ .rejected ∧ m.kind ≠ .cancelResponse) : s.Mute (s.send cfg c' record m) c := by
  obtain ⟨connections, flips, heq⟩ := send_eq cfg s c' record m
  have hnames : (s.send cfg c' record m).names = s.names := by rw [heq]; rfl
  have hsessions : (s.send cfg c' record m).sessions = s.sessions := by rw [heq]
  rcases @logOf_send cfg s c' record m c with hlog | ⟨hc, hlog⟩
  · exact .of_eq hnames hlog hsessions
  · refine ⟨fun k => by rw [hnames], ⟨_, hlog, fun entry hentry => ?_⟩,
      fun i session' hs' _ => .inr ⟨session', hsessions ▸ hs', rfl⟩⟩
    rw [List.mem_singleton.mp hentry]
    exact h.resolve_left fun hne => hne hc

theorem logOf_connect {conn : Connection} (hlog : conn.log = [])
    (h : s'.connections = s.connections ++ [conn]) (c : Nat) : s'.logOf c = s.logOf c := by
  unfold State.logOf
  rw [h]
  cases hc : (s.connections ++ [conn])[c]? with
  | none =>
    have hold : s.connections[c]? = none := by
      rw [List.getElem?_eq_none_iff] at hc ⊢
      rw [List.length_append] at hc
      omega
    rw [hold]
  | some conn' =>
    rcases getElem?_append_some hc with hold | ⟨rfl, rfl⟩
    · rw [hold]
    · rw [List.getElem?_eq_none_iff.mpr (le_refl _)]
      exact hlog

theorem Rest.mute {a : Action} (h : Rest cfg a s s') (c : Nat) : s.Mute s' c := by
  cases h with
  | same hconnections hsessions hrecords =>
    exact .of_eq (congrArg (List.map Request.name) hrecords) (logOf_of_eq hconnections c) hsessions
  | @reader c' next hnext => exact .of_eq rfl (logOf_setReader c) rfl
  | @connect _ conn hlog _ hconnections hsessions hrecords =>
    exact .of_eq (congrArg (List.map Request.name) hrecords) (logOf_connect hlog hconnections c) hsessions
  | @register c' session hzero =>
    refine ⟨fun k => rfl, ⟨[], ?_, fun _ h => by cases h⟩, fun i session' hs' _ => ?_⟩
    · rw [List.append_nil, logOf_setReader]
      refine logOf_setConnection ?_ c
      exact fun _ => rfl
    · rcases getElem?_append_some hs' with hold | ⟨-, rfl⟩
      · exact .inr ⟨session', hold, rfl⟩
      · exact .inl hzero
  | @goaway c' m hm =>
    refine mute_send (.inr ⟨?_, ?_⟩)
    · rw [hm]
      exact MessageType.noConfusion
    · rw [hm]
      exact MessageType.noConfusion

/-- What a reader holds afterwards it held before, or has just received. -/
theorem Rest.inHand {a : Action} (h : Rest cfg a s s') {m : Message} (hm : s'.inHand c = some m) :
    s.inHand c = some m ∨ ∃ m', a = .receive c m' ∧ m'.message = m := by
  have heq : s'.connections = s.connections → s.inHand c = some m := by
    intro he
    rw [← hm]
    unfold State.inHand State.withReader
    rw [he]
  have hread : ∀ (x : State) (c' : Nat) (next : Reader), x.withReader c = s.withReader c →
      (x.setReader c' next).inHand c = some m → (∀ m', next = .handling m' → a = .receive c' m') →
        s.inHand c = some m ∨ ∃ m', a = .receive c m' ∧ m'.message = m := by
    intro x c' next hx hm' hnext
    by_cases hc : c = c'
    · subst hc
      have hmessage := inHand_setReader_self hm'
      cases next with
      | handling m' =>
        refine .inr ⟨m', hnext m' rfl, Option.some.inj hmessage⟩
      | _ => cases hmessage
    · rw [inHand_setReader c hc] at hm'
      left
      rw [← hm']
      unfold State.inHand
      rw [hx]
  cases h with
  | same hconnections => exact .inl (heq hconnections)
  | reader hnext => exact hread s _ _ rfl hm hnext
  | @connect _ conn _ hreader hconnections =>
    unfold State.inHand State.withReader at hm
    rw [hconnections] at hm
    cases hc : (s.connections ++ [conn])[c]? with
    | none =>
      rw [hc] at hm
      cases hm
    | some conn' =>
      rw [hc] at hm
      rcases getElem?_append_some hc with hold | ⟨-, rfl⟩
      · left
        unfold State.inHand State.withReader
        rw [hold]
        exact hm
      · cases hr : conn'.reader with
        | handling m' => exact absurd hr (hreader m')
        | _ =>
          simp only [Option.map_some, Option.bind_some, hr] at hm
          cases hm
  | @register c' session _ =>
    refine hread _ c' .welcoming ?_ hm fun m' h => by cases h
    unfold State.withReader
    show ((s.connections.modify c' _)[c]?).map Connection.reader = _
    rw [List.getElem?_modify]
    cases s.connections[c]? with
    | none => rfl
    | some conn => by_cases hc : c' = c <;> simp [hc]
  | goaway =>
    left
    rw [← hm]
    unfold State.inHand
    rw [withReader_send]

/-! ## Answers -/

/-- A reader handles a message of the connection. -/
structure State.Responds (s s' : State) (c : Nat) (m : Message) : Prop where
  spent : ∀ k, s'.names.count (c, k) + (s'.logOf c).countP (rejects k) ≤
    s.names.count (c, k) + (s.logOf c).countP (rejects k) + (submits k m).toNat
  log : ∃ entries, s'.logOf c = s.logOf c ++ entries ∧ ∀ entry ∈ entries,
    (entry.message.kind = .cancelResponse → m.kind = .cancelRequest ∧ ∃ decision : Decision,
      entry.message = cancelResponse m.control decision ∧
        (decision = .cancelled → s.Cancelled s' c m.control)) ∧
    (Stale entry.message → ∃ (i : Nat) (session : Session) (sequence : Int),
      Concerns entry.message m ∧ s.sessions[i]? = some session ∧ session.connection = c ∧ session.Numbers m sequence ∧
        sequence ≤ session.watermark)
  sessions : ∀ (i : Nat) (session' : Session), s'.sessions[i]? = some session' →
    session'.connection = c → ∃ session : Session, s.sessions[i]? = some session ∧
      session'.clientId = session.clientId ∧ session'.connection = session.connection ∧
      (session'.watermark = session.watermark ∨ session.Numbers m session'.watermark)

theorem State.Submits.numbers {m : Message} {i : Nat} {session : Session} {requestId : Str}
    {sequence : Int} (h : s.Submits c m i session requestId sequence) : session.Numbers m sequence :=
  ⟨requestId, submits_self h.kind h.named, h.named, h.sequenced⟩

theorem State.Submits.connection {m : Message} {i : Nat} {session : Session} {requestId : Str}
    {sequence : Int} (hwf : s.WF) (h : s.Submits c m i session requestId sequence) :
    session.connection = c := by
  obtain ⟨conn, hc, hi⟩ := Option.bind_eq_some_iff.mp h.connected
  obtain ⟨session', hs, hcon⟩ := hwf.link c conn i hc hi
  rw [h.opened] at hs
  cases hs
  exact hcon

/-- The session lets a number through. -/
theorem pass_sessions {m : Message} {i : Nat} {session : Session} {requestId : Str} {sequence : Int}
    (h : s.Submits c m i session requestId sequence) {j : Nat} {session' : Session}
    (hs' : (s.pass i sequence).sessions[j]? = some session') : ∃ session₀ : Session,
      s.sessions[j]? = some session₀ ∧ session'.clientId = session₀.clientId ∧
        session'.connection = session₀.connection ∧
        (session'.watermark = session₀.watermark ∨
          j = i ∧ session₀.Numbers m session'.watermark) := by
  obtain ⟨session₀, hs, rfl⟩ := getElem?_modify_some hs'
  refine ⟨session₀, hs, ?_⟩
  by_cases hi : i = j
  · subst hi
    rw [if_pos rfl]
    rw [h.opened] at hs
    cases hs
    exact ⟨rfl, rfl, .inr ⟨rfl, h.numbers⟩⟩
  · rw [if_neg hi]
    exact ⟨rfl, rfl, .inl rfl⟩

/-- A message that is no answer. -/
def Entry.Mute (entry : Entry) : Prop :=
  entry.message.kind ≠ .rejected ∧ entry.message.kind ≠ .cancelResponse

theorem Entry.Mute.rejects {k : Str} {entry : Entry} (h : entry.Mute) : rejects k entry = false := by
  cases hr : Broker.rejects k entry with
  | false => rfl
  | true => exact absurd (of_decide_eq_true (Bool.and_eq_true_iff.mp hr).1) h.1

/-- At most one answer is enqueued on the connection. -/
theorem State.Responds.of_log {m : Message} {entries : List Entry} {entry : Entry}
    (hmute : ∀ e ∈ entries, e.Mute)
    (hlog : s'.logOf c = s.logOf c ++ entries ∨ s'.logOf c = s.logOf c ++ (entries ++ [entry]))
    (hspent : ∀ k, s'.names.count (c, k) + (rejects k entry).toNat ≤
      s.names.count (c, k) + (submits k m).toNat)
    (hdecided : entry.message.kind = .cancelResponse → m.kind = .cancelRequest ∧ ∃ decision : Decision,
      entry.message = cancelResponse m.control decision ∧
        (decision = .cancelled → s.Cancelled s' c m.control))
    (hstale : Stale entry.message → ∃ (i : Nat) (session : Session) (sequence : Int),
      Concerns entry.message m ∧ s.sessions[i]? = some session ∧ session.connection = c ∧ session.Numbers m sequence ∧
        sequence ≤ session.watermark)
    (hsessions : ∀ (i : Nat) (session' : Session), s'.sessions[i]? = some session' →
      session'.connection = c → ∃ session : Session, s.sessions[i]? = some session ∧
        session'.clientId = session.clientId ∧ session'.connection = session.connection ∧
        (session'.watermark = session.watermark ∨ session.Numbers m session'.watermark)) :
    s.Responds s' c m := by
  have hzero : ∀ k, entries.countP (rejects k) = 0 := by
    intro k
    rw [List.countP_eq_zero]
    intro e he hr
    rw [(hmute e he).rejects] at hr
    cases hr
  rcases hlog with hlog | hlog
  · refine ⟨fun k => ?_, ⟨entries, hlog, fun e he => ⟨?_, ?_⟩⟩, hsessions⟩
    · have hk := hspent k
      rw [hlog, List.countP_append, hzero]
      omega
    · exact fun hkind => absurd hkind (hmute e he).2
    · exact fun hs => absurd hs.1 (hmute e he).1
  · refine ⟨fun k => ?_, ⟨_, hlog, fun e he => ?_⟩, hsessions⟩
    · have hk := hspent k
      rw [hlog, List.countP_append, countP_concat, hzero]
      omega
    · rcases List.mem_append.mp he with hold | hlast
      · exact ⟨fun hkind => absurd hkind (hmute e hold).2, fun hs => absurd hs.1 (hmute e hold).1⟩
      · rw [List.mem_singleton.mp hlast]
        exact ⟨hdecided, hstale⟩

/-- A message is enqueued after others. -/
theorem logOf_answer {record : Option Nat} {m : Message} {entries : List Entry}
    (hlog : x.logOf c = s.logOf c ++ entries) :
    (x.send cfg c record m).logOf c = s.logOf c ++ entries ∨
      (x.send cfg c record m).logOf c = s.logOf c ++ (entries ++ [⟨record, m⟩]) := by
  rcases @logOf_send cfg x c record m c with hsame | ⟨-, hnew⟩
  · exact .inl (hsame.trans hlog)
  · exact .inr (by rw [hnew, hlog, List.append_assoc])

theorem names_send {record : Option Nat} {m : Message} : (x.send cfg c record m).names = x.names := by
  obtain ⟨connections, flips, heq⟩ := send_eq cfg x c record m
  rw [heq]
  rfl

theorem sessions_send {record : Option Nat} {m : Message} :
    (x.send cfg c record m).sessions = x.sessions := by
  obtain ⟨connections, flips, heq⟩ := send_eq cfg x c record m
  rw [heq]

theorem records_send_eq {record : Option Nat} {m : Message} :
    (x.send cfg c record m).records = x.records := by
  obtain ⟨connections, flips, heq⟩ := send_eq cfg x c record m
  rw [heq]

theorem State.Responds.congr {m : Message} (h : s.Responds x c m) (hrecords : s'.records = x.records)
    (hlog : s'.logOf c = x.logOf c) (hsessions : s'.sessions = x.sessions) : s.Responds s' c m where
  spent k := by
    rw [hlog, show s'.names = x.names from congrArg (List.map Request.name) hrecords]
    exact h.spent k
  log := by
    obtain ⟨entries, heq, hentries⟩ := h.log
    refine ⟨entries, hlog.trans heq, fun entry hentry => ⟨fun hkind => ?_, (hentries entry hentry).2⟩⟩
    obtain ⟨hm, decision, hmessage, hcancelled⟩ := (hentries entry hentry).1 hkind
    refine ⟨hm, decision, hmessage, fun hd => ?_⟩
    obtain ⟨r, record, record', howned, hr, hr', hrest⟩ := hcancelled hd
    exact ⟨r, record, record', howned, hr, hrecords ▸ hr', hrest⟩
  sessions i session' hs' := h.sessions i session' (hsessions ▸ hs')

theorem State.Responds.flips {m : Message} {before after : List Bool}
    (h : State.Responds { s with flips := before } s' c m) :
    s.Responds { s' with flips := after } c m := ⟨h.spent, h.log, h.sessions⟩

theorem sessions_same {m : Message} (hsessions : s'.sessions = s.sessions) (i : Nat)
    (session' : Session) (hs' : s'.sessions[i]? = some session') (_ : session'.connection = c) :
    ∃ session : Session, s.sessions[i]? = some session ∧ session'.clientId = session.clientId ∧
      session'.connection = session.connection ∧
      (session'.watermark = session.watermark ∨ session.Numbers m session'.watermark) :=
  ⟨session', hsessions ▸ hs', rfl, rfl, .inl rfl⟩

theorem spent_rejected {m : Message} {k requestId : Str} {reason : String} (hkind : m.kind = .submit)
    (hid : m.control.items.get (lit "request_id") = .str requestId) :
    (rejects k ⟨none, rejectedMessage requestId reason⟩).toNat ≤ (submits k m).toNat := by
  rw [rejects_rejected]
  by_cases hk : requestId = k
  · subst hk
    rw [submits_self hkind hid]
    exact Bool.toNat_le _
  · rw [decide_eq_false hk]
    exact Nat.zero_le _

theorem kind_rejected {requestId : Str} {reason : String} {P : Prop}
    (h : (rejectedMessage requestId reason).kind = .cancelResponse) : P :=
  MessageType.noConfusion h

theorem Section.key (h : Section s s') {m : Message} (i : Nat) (session' : Session)
    (hs' : s'.sessions[i]? = some session') : ∃ session : Session, s.sessions[i]? = some session ∧
      session'.clientId = session.clientId ∧ session'.connection = session.connection ∧
      (session'.watermark = session.watermark ∨ session.Numbers m session'.watermark) := by
  obtain ⟨session, hs, hkey⟩ := h.frame.sessions i session' hs'
  exact ⟨session, hs, congrArg Prod.fst hkey, congrArg (fun key => key.2.1) hkey,
    .inl (congrArg (fun key => key.2.2) hkey)⟩

/-- What a handler does on its connection. -/
theorem Handling.responds (hwf : s.WF) {m : Message} (h : Handling cfg s c m x) :
    s.Responds x c m := by
  have hlog : s.logOf c = s.logOf c ++ [] := (List.append_nil _).symm
  have hmute : ∀ e ∈ ([] : List Entry), e.Mute := fun _ he => by cases he
  cases h with
  | quiet hsec =>
    obtain ⟨entries, hentries, hmute⟩ := (hsec.mute c).log
    refine @State.Responds.of_log s x c m entries ⟨none, acceptedMessage []⟩ hmute (.inl hentries) (fun k => ?_)
      (fun h => MessageType.noConfusion h) (fun h => MessageType.noConfusion h.1)
      fun i session' hs' _ => hsec.key i session' hs'
    rw [hsec.frame.names]
    exact Nat.add_le_add_left (Nat.zero_le _) _
  | @stale i session requestId sequence hm hnone hle =>
    refine .of_log hmute (logOf_answer hlog) (fun k => ?_) kind_rejected
      (fun _ => ⟨i, session, sequence, (get_rejected _ _).trans hm.named.symm, hm.opened,
        hm.connection hwf, hm.numbers, hle⟩)
      (sessions_same sessions_send)
    rw [names_send]
    exact Nat.add_le_add_left (spent_rejected hm.kind hm.named) _
  | @passed i session requestId sequence hm hnew =>
    refine @State.Responds.of_log s _ c m [] ⟨none, acceptedMessage []⟩ hmute (.inl hlog)
      (fun k => Nat.add_le_add_left (Nat.zero_le _) _)
      (fun h => MessageType.noConfusion h) (fun h => MessageType.noConfusion h.1)
      fun j session' hs' _ => ?_
    obtain ⟨session₀, hs, hclient, hcon, hmark⟩ := pass_sessions hm hs'
    exact ⟨session₀, hs, hclient, hcon, hmark.imp_right And.right⟩
  | @rejected i session requestId sequence reason hm hnew hreason =>
    have hpass : (s.pass i sequence).logOf c = s.logOf c ++ [] := hlog
    refine .of_log hmute (logOf_answer hpass) (fun k => ?_) kind_rejected (fun hstale => ?_)
      fun j session' hs' _ => ?_
    · rw [names_send]
      exact Nat.add_le_add_left (spent_rejected hm.kind hm.named) _
    · have htext := hstale.2
      rw [get_reason] at htext
      exact absurd (Value.str.inj htext) (not_stale hreason)
    · rw [sessions_send] at hs'
      obtain ⟨session₀, hs, hclient, hcon, hmark⟩ := pass_sessions hm hs'
      exact ⟨session₀, hs, hclient, hcon, hmark.imp_right And.right⟩
  | @accepted i session sequence record hm hnew _ _ _ hcon =>
    have haccept : ((s.pass i sequence).accept record).logOf c = s.logOf c ++ [] := hlog
    refine .of_log hmute (logOf_answer haccept) (fun k => ?_) (fun h => MessageType.noConfusion h)
      (fun h => MessageType.noConfusion h.1) fun j session' hs' _ => ?_
    · have hnames : ((s.pass i sequence).accept record).names = s.names ++ [record.name] :=
        List.map_append
      have hrejects : rejects k ⟨some s.records.length, acceptedMessage record.requestId⟩ = false := rfl
      rw [names_send, hnames, List.count_append, hrejects, Bool.toNat_false, Nat.add_zero]
      refine Nat.add_le_add_left ?_ _
      by_cases hk : record.requestId = k
      · subst hk
        rw [submits_self hm.kind hm.named]
        exact List.count_le_length
      · have hne : record.name ≠ (c, k) := fun h => hk (congrArg Prod.snd h)
        rw [List.count_singleton, if_neg (by simpa using hne)]
        exact Nat.zero_le _
    · rw [sessions_send] at hs'
      obtain ⟨session₁, hs₁, rfl⟩ := getElem?_modify_some
        (show ((s.pass i sequence).sessions.modify record.session _)[j]? = some session' from hs')
      obtain ⟨session₀, hs, hclient, hcon', hmark⟩ := pass_sessions hm hs₁
      refine ⟨session₀, hs, ?_⟩
      split
      · exact ⟨hclient, hcon', hmark.imp_right And.right⟩
      · exact ⟨hclient, hcon', hmark.imp_right And.right⟩
  | @decided y decision hkind hsec hcancelled =>
    obtain ⟨entries, hentries, hmute⟩ := (hsec.mute c).log
    refine .of_log hmute (logOf_answer hentries) (fun k => ?_) (fun _ => ⟨hkind, decision, rfl, ?_⟩)
      (fun h => MessageType.noConfusion h.1) fun i session' hs' _ => ?_
    · rw [names_send, hsec.frame.names]
      exact Nat.add_le_add_left (Nat.zero_le _) _
    · intro hd
      obtain ⟨r, record, record', howned, hr, hr', hrest⟩ := hcancelled hd
      exact ⟨r, record, record', howned, hr, by rw [records_send_eq]; exact hr', hrest⟩
    · rw [sessions_send] at hs'
      exact hsec.key i session' hs'

/-- A handler answers on its own connection only. -/
theorem Handling.mute (hwf : s.WF) {m : Message} (h : Handling cfg s c m x) {c' : Nat} (hne : c' ≠ c) :
    s.Mute x c' := by
  have hpass : ∀ (i : Nat) (session : Session) (requestId : Str) (sequence : Int),
      s.Submits c m i session requestId sequence → s.Mute (s.pass i sequence) c' := by
    intro i session requestId sequence hm
    refine ⟨fun _ => rfl, ⟨[], (List.append_nil _).symm, fun _ h => by cases h⟩, fun j session' hs' hc => ?_⟩
    obtain ⟨session₀, hs, hclient, hcon, hmark | ⟨rfl, -⟩⟩ := pass_sessions hm hs'
    · refine .inr ⟨session₀, hs, ?_⟩
      unfold Session.key
      rw [hclient, hcon, hmark]
    · rw [hm.opened] at hs
      cases hs
      exact absurd (hc.symm.trans (hcon.trans (hm.connection hwf))) hne
  cases h with
  | quiet hsec => exact hsec.mute c'
  | stale => exact mute_send (.inl hne)
  | passed hm => exact hpass _ _ _ _ hm
  | rejected hm => exact (hpass _ _ _ _ hm).trans (mute_send (.inl hne))
  | @accepted i session sequence record hm _ _ _ _ hcon =>
    refine (hpass _ _ _ _ hm).trans (State.Mute.trans ?_ (mute_send (.inl hne)))
    refine ⟨fun k => ?_, ⟨[], (List.append_nil _).symm, fun _ h => by cases h⟩, fun j session' hs' _ => ?_⟩
    · have hnames : ((s.pass i sequence).accept record).names = (s.pass i sequence).names ++
          [record.name] := List.map_append
      have hother : record.name ≠ (c', k) := fun h =>
        hne ((congrArg Prod.fst h).symm.trans hcon)
      rw [hnames, List.count_append, List.count_singleton, if_neg (by simpa using hother), Nat.add_zero]
    · obtain ⟨session₁, hs₁, rfl⟩ := getElem?_modify_some
        (show ((s.pass i sequence).sessions.modify record.session _)[j]? = some session' from hs')
      refine .inr ⟨session₁, hs₁, ?_⟩
      split <;> rfl
  | decided _ hsec => exact (hsec.mute c').trans (mute_send (.inl hne))

theorem Handling.withReader {m : Message} (h : Handling cfg s c m x) (c' : Nat) :
    x.withReader c' = s.withReader c' := by
  cases h with
  | quiet hsec => exact hsec.frame.withReader c'
  | stale => exact withReader_send c'
  | passed => rfl
  | rejected => exact withReader_send c'
  | accepted => exact withReader_send c'
  | decided _ hsec => exact (withReader_send c').trans (hsec.frame.withReader c')

/-! ## What becomes of the messages -/

/-- The message that a step receives on the connection. -/
def Label.received (l : Label) (c : Nat) : List Message :=
  match l.action with
  | .receive c' m => if c' = c then [m.message] else []
  | _ => []

/-- What the broker has made of the messages of a connection. -/
structure State.Heeds (s : State) (c : Nat) (inbox handled : List Message) : Prop where
  inbox : (handled ++ (s.inHand c).toList).Sublist inbox
  spent : ∀ k, s.names.count (c, k) + (s.logOf c).countP (rejects k) ≤ handled.countP (submits k)
  decided : ∀ entry ∈ s.logOf c, entry.message.kind = .cancelResponse →
    ∃ m ∈ handled, m.kind = .cancelRequest ∧ ∃ decision : Decision,
      entry.message = cancelResponse m.control decision ∧
        (decision = .cancelled → s.Revoked c m.control)
  numbers : ∀ (i : Nat) (session : Session), s.sessions[i]? = some session → session.connection = c →
    session.watermark = 0 ∨ ∃ m ∈ handled, session.Numbers m session.watermark
  stale : ∀ entry ∈ s.logOf c, Stale entry.message → ∃ (before : List Message) (m : Message)
    (after : List Message) (i : Nat) (session : Session) (sequence : Int),
      handled = before ++ m :: after ∧ Concerns entry.message m ∧ s.sessions[i]? = some session ∧
        session.connection = c ∧ session.Numbers m sequence ∧
        (sequence ≤ 0 ∨ ∃ m₀ ∈ before, ∃ sequence₀, session.Numbers m₀ sequence₀ ∧
          sequence ≤ sequence₀)

theorem State.Heeds.init : State.Heeds {} c [] [] where
  inbox := .slnil
  spent _ := le_refl _
  decided _ h := by cases h
  numbers _ _ h := by cases h
  stale _ h := by cases h

theorem State.Revoked.evolves {control : Dict} (h : s.Revoked c control) (he : s.Evolves s') :
    s'.Revoked c control := by
  obtain ⟨r, record, hr, hcon, hid, hterm, hsoft⟩ := h
  obtain ⟨record', hr', hev⟩ := he r record hr
  refine ⟨r, record', hr', hev.connection.trans hcon, ?_, hev.terminal hterm, fun hs => ?_⟩
  · rw [hev.requestId]
    exact hid
  · rw [hev.started fun hq => by rw [hq] at hterm; cases hterm]
    exact hsoft hs

theorem Session.Numbers.congr {session session' : Session} {m : Message} {sequence : Int}
    (h : session.Numbers m sequence) (hclient : session'.clientId = session.clientId) :
    session'.Numbers m sequence := by
  obtain ⟨requestId, hm, hid, hseq⟩ := h
  exact ⟨requestId, hm, hid, by rw [hclient]; exact hseq⟩

/-- The session of a stale submission stays. -/
theorem State.Heeds.stale_later (h : s.Heeds c inbox handled)
    (hsessions : ∀ (i : Nat) (session : Session), s.sessions[i]? = some session →
      ∃ session' : Session, s'.sessions[i]? = some session' ∧ session.Grows session')
    {more : List Message} {entry : Entry} (hentry : entry ∈ s.logOf c) (hstale : Stale entry.message) :
    ∃ (before : List Message) (m : Message) (after : List Message) (i : Nat) (session : Session)
      (sequence : Int), handled ++ more = before ++ m :: after ∧ Concerns entry.message m ∧
        s'.sessions[i]? = some session ∧ session.connection = c ∧ session.Numbers m sequence ∧
        (sequence ≤ 0 ∨ ∃ m₀ ∈ before, ∃ sequence₀, session.Numbers m₀ sequence₀ ∧
          sequence ≤ sequence₀) := by
  obtain ⟨before, m, after, i, session, sequence, rfl, hid, hs, hcon, hm, hle⟩ :=
    h.stale entry hentry hstale
  obtain ⟨session', hs', hgrows⟩ := hsessions i session hs
  refine ⟨before, m, after ++ more, i, session', sequence, by simp, hid, hs', hgrows.connection.trans hcon,
    hm.congr hgrows.clientId, hle.imp_right ?_⟩
  rintro ⟨m₀, hm₀, sequence₀, hn₀, hle₀⟩
  exact ⟨m₀, hm₀, sequence₀, hn₀.congr hgrows.clientId, hle₀⟩

/-- A step that answers nothing on the connection. -/
theorem State.Heeds.mute (h : s.Heeds c inbox handled) (hmute : s.Mute s' c) (he : s.Evolves s')
    (hsessions : ∀ (i : Nat) (session : Session), s.sessions[i]? = some session →
      ∃ session' : Session, s'.sessions[i]? = some session' ∧ session.Grows session')
    {inbox' : List Message} (hinbox : (handled ++ (s'.inHand c).toList).Sublist inbox') :
    s'.Heeds c inbox' handled := by
  obtain ⟨entries, hlog, hquiet⟩ := hmute.log
  refine ⟨hinbox, fun k => ?_, fun entry hentry hkind => ?_, fun i session' hs' hcon => ?_,
    fun entry hentry hstale => ?_⟩
  · have hzero : entries.countP (rejects k) = 0 := by
      rw [List.countP_eq_zero]
      intro e he hr
      rw [Entry.Mute.rejects (hquiet e he)] at hr
      cases hr
    rw [hmute.names, hlog, List.countP_append, hzero]
    exact h.spent k
  · rw [hlog] at hentry
    rcases List.mem_append.mp hentry with hold | hnew
    · obtain ⟨m, hm, hcancel, decision, hmessage, hrevoked⟩ := h.decided entry hold hkind
      exact ⟨m, hm, hcancel, decision, hmessage, fun hd => (hrevoked hd).evolves he⟩
    · exact absurd hkind (hquiet entry hnew).2
  · rcases hmute.sessions i session' hs' hcon with hzero | ⟨session, hs, hkey⟩
    · exact .inl hzero
    · have hclient : session'.clientId = session.clientId := congrArg Prod.fst hkey
      have hmark : session'.watermark = session.watermark := congrArg (fun key => key.2.2) hkey
      have hcon' : session.connection = c := (congrArg (fun key => key.2.1) hkey).symm.trans hcon
      rw [hmark]
      refine (h.numbers i session hs hcon').imp_right ?_
      rintro ⟨m, hm, hn⟩
      exact ⟨m, hm, hn.congr hclient⟩
  · rw [hlog] at hentry
    rcases List.mem_append.mp hentry with hold | hnew
    · have hlater := @State.Heeds.stale_later s s' c inbox handled h hsessions [] entry hold hstale
      rw [List.append_nil] at hlater
      exact hlater
    · exact absurd hstale.1 (hquiet entry hnew).1

/-- The handling of a message of the connection. -/
theorem State.Heeds.respond (h : s.Heeds c inbox handled) {m : Message} (hresponds : s.Responds s' c m)
    (hhand : s.inHand c = some m) (he : s.Evolves s')
    (hsessions : ∀ (i : Nat) (session : Session), s.sessions[i]? = some session →
      ∃ session' : Session, s'.sessions[i]? = some session' ∧ session.Grows session')
    (hrevoked : s.Cancelled s' c m.control → s'.Revoked c m.control) (hafter : s'.inHand c = none) :
    s'.Heeds c inbox (handled ++ [m]) := by
  obtain ⟨entries, hlog, hentries⟩ := hresponds.log
  refine ⟨?_, fun k => ?_, fun entry hentry hkind => ?_, fun i session' hs' hcon => ?_,
    fun entry hentry hstale => ?_⟩
  · have hinbox := h.inbox
    rw [hhand] at hinbox
    rw [hafter, Option.toList_none, List.append_nil]
    exact hinbox
  · have hspent := hresponds.spent k
    have hold := h.spent k
    rw [countP_concat]
    omega
  · rw [hlog] at hentry
    rcases List.mem_append.mp hentry with hold | hnew
    · obtain ⟨m', hm', hcancel, decision, hmessage, hrev⟩ := h.decided entry hold hkind
      exact ⟨m', List.mem_append_left _ hm', hcancel, decision, hmessage,
        fun hd => (hrev hd).evolves he⟩
    · obtain ⟨hcancel, decision, hmessage, hcancelled⟩ := (hentries entry hnew).1 hkind
      exact ⟨m, List.mem_append_right _ List.mem_cons_self, hcancel, decision, hmessage,
        fun hd => hrevoked (hcancelled hd)⟩
  · obtain ⟨session, hs, hclient, hcon', hmark⟩ := hresponds.sessions i session' hs' hcon
    rcases hmark with hsame | hnew
    · rw [hsame]
      refine (h.numbers i session hs (hcon'.symm.trans hcon)).imp_right ?_
      rintro ⟨m', hm', hn⟩
      exact ⟨m', List.mem_append_left _ hm', hn.congr hclient⟩
    · exact .inr ⟨m, List.mem_append_right _ List.mem_cons_self, hnew.congr hclient⟩
  · rw [hlog] at hentry
    rcases List.mem_append.mp hentry with hold | hnew
    · exact h.stale_later hsessions hold hstale
    · obtain ⟨i, session, sequence, hid, hs, hcon, hn, hle⟩ := (hentries entry hnew).2 hstale
      obtain ⟨session', hs', hgrows⟩ := hsessions i session hs
      refine ⟨handled, m, [], i, session', sequence, rfl, hid, hs', hgrows.connection.trans hcon,
        hn.congr hgrows.clientId, ?_⟩
      rcases h.numbers i session hs hcon with hzero | ⟨m₀, hm₀, hn₀⟩
      · exact .inl (hzero ▸ hle)
      · exact .inr ⟨m₀, hm₀, session.watermark, hn₀.congr hgrows.clientId, hle⟩

/-- **A step keeps what is known of the messages of a connection**, with what its reader receives. -/
theorem State.Heeds.step {l : Label} (h : s.Heeds c inbox handled) (ht : s.Telling cfg)
    (hs : Broker.step cfg s l = some s') : ∃ handled', s'.Heeds c (inbox ++ l.received c) handled' := by
  have hmicros := step_micros ht.lived.inv (Scope.allows_all s l.action) hs
  have he : s.Evolves s' := hmicros.evolves
  have hsessions := fun (i : Nat) (session : Session) (hi : s.sessions[i]? = some session) =>
    hmicros.sessions hi
  cases step_doing ht hs with
  | @rest x y hx hrest hy =>
    refine ⟨handled, h.mute (((hx.mute c).trans (hrest.mute c)).trans (hy.mute c)) he hsessions ?_⟩
    have hhand := h.inbox
    rw [hy.frame.inHand]
    cases hm : y.inHand c with
    | none =>
      rw [Option.toList_none, List.append_nil]
      exact ((List.sublist_append_left _ _).trans hhand).trans (List.sublist_append_left _ _)
    | some m =>
      rcases hrest.inHand hm with hold | ⟨m', ha, rfl⟩
      · rw [hx.frame.inHand] at hold
        rw [hold] at hhand
        exact hhand.trans (List.sublist_append_left _ _)
      · have hreceived : l.received c = [m'.message] := by
          unfold Label.received
          rw [ha]
          exact if_pos rfl
        rw [hreceived]
        exact ((List.sublist_append_left _ _).trans hhand).append (.refl _)
  | @handled c' now grant statistics m x next ha hhand hx hnext hs' =>
    have hreceived : l.received c = [] := by
      unfold Label.received
      rw [ha]
    rw [hreceived, List.append_nil]
    have hwf : State.WF { s with flips := l.flips } := ((show Locked cfg .all s _ from locked_flips l.flips).inv ht.lived.inv).wf
    subst hs'
    by_cases hc : c' = c
    · subst hc
      have hlog : (x.setReader c' next).logOf c' = x.logOf c' := logOf_setReader c'
      have hread : State.Responds { s with flips := l.flips } (x.setReader c' next) c' m.message := by
        refine (hx.responds hwf).congr ?_ hlog ?_ <;> rfl
      have hanswer : s.Responds { x.setReader c' next with flips := [] } c' m.message := hread.flips
      refine ⟨_, h.respond hanswer hhand he hsessions ?_ ?_⟩
      · rintro ⟨r, record, record', howned, hr, hr', hterm, hsoft⟩
        obtain ⟨record₀, hr₀, hcon, hid⟩ := ownedRequest_record hwf howned
        rw [hr] at hr₀
        cases hr₀
        have hev := he.back hr hr'
        refine ⟨r, record', hr', hev.connection.trans hcon, by rw [hev.requestId]; exact hid, hterm,
          fun hs => ?_⟩
        exact step_unstarted ht.lived ‹_› hr (hsoft hs) hr' hterm
      · cases hm : State.inHand { x.setReader c' next with flips := [] } c' with
        | none => rfl
        | some m' =>
          have hmessage := inHand_setReader_self hm
          rw [hnext] at hmessage
          cases hmessage
    · have hne : c ≠ c' := fun he => hc he.symm
      refine ⟨handled, h.mute ?_ he hsessions ?_⟩
      · have hlog : (x.setReader c' next).logOf c = x.logOf c := logOf_setReader c
        have hread : State.Mute { s with flips := l.flips } (x.setReader c' next) c := by
          refine (hx.mute hwf hne).trans (.of_eq ?_ hlog ?_) <;> rfl
        exact hread.flips
      · have hsame : State.inHand { x.setReader c' next with flips := [] } c = s.inHand c := by
          refine Eq.trans (inHand_setReader c hne) ?_
          unfold State.inHand
          rw [hx.withReader c]
          rfl
        rw [hsame]
        exact h.inbox

end Steps

/-! ## Runs -/

section Runs

variable {cfg : Config} {s s' : State} {ls : List Label} {c : Nat}

/-- The messages that a schedule receives on the connection. -/
def received (ls : List Label) (c : Nat) : List Message := ls.flatMap fun l => l.received c

theorem State.Heeds.run {inbox handled : List Message} (h : s.Heeds c inbox handled)
    (hreach : (broker cfg).Reachable s) (hrun : (broker cfg).run s ls = some s') :
    ∃ handled', s'.Heeds c (inbox ++ received ls c) handled' := by
  induction ls generalizing s inbox handled with
  | nil =>
    cases hrun
    exact ⟨handled, by rwa [received, List.flatMap_nil, List.append_nil]⟩
  | cons l ls ih =>
    obtain ⟨x, hx, hrest⟩ := Option.bind_eq_some_iff.mp hrun
    obtain ⟨handled', h'⟩ := h.step (reachable_telling hreach) hx
    obtain ⟨handled'', h''⟩ := ih h' (.step hreach trivial hx) hrest
    refine ⟨handled'', ?_⟩
    rw [received, List.flatMap_cons, ← List.append_assoc]
    exact h''

/-- What a run makes of the messages that it receives on a connection. -/
theorem run_heeds (h : (broker cfg).run {} ls = some s) (c : Nat) :
    ∃ handled, s.Heeds c (received ls c) handled :=
  State.Heeds.run .init .init h

/-- **A submission is answered once.**  Of one request ID a connection has no more requests and
rejections, taken together, than it has received submissions. -/
theorem answered_once (cfg : Config) {ls : List Label} {s : State} (h : (broker cfg).run {} ls = some s)
    (c : Nat) (requestId : Str) :
    s.names.count (c, requestId) + (s.logOf c).countP (rejects requestId) ≤
      (received ls c).countP (submits requestId) := by
  obtain ⟨handled, hheeds⟩ := run_heeds h c
  have hsub : handled.Sublist (received ls c) := (List.sublist_append_left _ _).trans hheeds.inbox
  exact (hheeds.spent requestId).trans hsub.countP_le

/-- What that run accepts and says. -/
theorem rejectLast_facts :
    (((broker (sampleConfig .cancelQueued)).run {} rejectLast).map fun s =>
      (s.names, (s.logOf 0).map fun entry => (entry.message.kind,
        isText (lit "stale_request") (entry.message.control.items.get (lit "reason"))))) =
    some ([(0, lit "a:1"), (0, lit "a:2")],
      [(.welcome, false), (.accepted, false), (.accepted, false), (.running, false), (.cancelled, false),
        (.cancelResponse, false), (.rejected, true)]) := by
  decide +kernel

theorem answered_once_rejectLast : ∃ s,
    (broker (sampleConfig .cancelQueued)).run {} rejectLast = some s ∧
      s.names.count (0, lit "a:2") = 1 ∧ (received rejectLast 0).countP (submits (lit "a:2")) = 2 ∧
      1 + (s.logOf 0).countP (rejects (lit "a:2")) ≤ 2 := by
  obtain ⟨s, hrun, hfacts⟩ := Option.map_eq_some_iff.mp rejectLast_facts
  obtain ⟨hnames, -⟩ := Prod.mk.inj hfacts
  have hcount : s.names.count (0, lit "a:2") = 1 := by
    rw [hnames]
    decide +kernel
  have hreceived : (received rejectLast 0).countP (submits (lit "a:2")) = 2 := by decide +kernel
  have honce := answered_once (sampleConfig .cancelQueued) hrun 0 (lit "a:2")
  rw [hcount, hreceived] at honce
  exact ⟨s, hrun, hcount, hreceived, honce⟩

/-- **A stale submission was overtaken.**  A submission that was rejected for its number is one that the
connection received, and its number is not positive or not above the number of a submission that the
connection received before. -/
theorem stale_overtaken (cfg : Config) {ls : List Label} {s : State}
    (h : (broker cfg).run {} ls = some s) {c : Nat} {entry : Entry} (hentry : entry ∈ s.logOf c)
    (hstale : Stale entry.message) : ∃ (before : List Message) (m : Message) (after : List Message)
      (i : Nat) (session : Session) (sequence : Int),
      (before ++ m :: after).Sublist (received ls c) ∧ Concerns entry.message m ∧
        s.sessions[i]? = some session ∧ session.connection = c ∧ session.Numbers m sequence ∧
        (sequence ≤ 0 ∨ ∃ m₀ ∈ before, ∃ sequence₀, session.Numbers m₀ sequence₀ ∧
          sequence ≤ sequence₀) := by
  obtain ⟨handled, hheeds⟩ := run_heeds h c
  have hsub : handled.Sublist (received ls c) := (List.sublist_append_left _ _).trans hheeds.inbox
  obtain ⟨before, m, after, i, session, sequence, rfl, hrest⟩ := hheeds.stale entry hentry hstale
  exact ⟨before, m, after, i, session, sequence, hsub, hrest⟩

theorem stale_overtaken_rejectLast : ∃ s entry before m after,
    (broker (sampleConfig .cancelQueued)).run {} rejectLast = some s ∧ entry ∈ s.logOf 0 ∧
      Stale entry.message ∧ (before ++ m :: after).Sublist (received rejectLast 0) ∧
      Concerns entry.message m ∧ ∃ (i : Nat) (session : Session) (sequence : Int),
        s.sessions[i]? = some session ∧ session.Numbers m sequence ∧
        (sequence ≤ 0 ∨ ∃ m₀ ∈ before, ∃ sequence₀, session.Numbers m₀ sequence₀ ∧
          sequence ≤ sequence₀) := by
  obtain ⟨s, hrun, hfacts⟩ := Option.map_eq_some_iff.mp rejectLast_facts
  obtain ⟨-, hlog⟩ := Prod.mk.inj hfacts
  have hmem : (MessageType.rejected, true) ∈ (s.logOf 0).map fun entry => (entry.message.kind,
      isText (lit "stale_request") (entry.message.control.items.get (lit "reason"))) := by
    rw [hlog]
    decide
  obtain ⟨entry, hentry, heq⟩ := List.mem_map.mp hmem
  obtain ⟨hkind, hreason⟩ := Prod.mk.inj heq
  have hstale : Stale entry.message := ⟨hkind, eq_of_isText hreason⟩
  obtain ⟨before, m, after, i, session, sequence, hsub, hid, hs, -, hn, hle⟩ :=
    stale_overtaken (sampleConfig .cancelQueued) hrun hentry hstale
  exact ⟨s, entry, before, m, after, hrun, hentry, hstale, hsub, hid, i, session, sequence, hs, hn, hle⟩

/-- **A decision answers a cancellation.**  A decision in the log of a connection answers a cancellation
that the connection received, with its token and its request ID, and where it says `cancelled` the
request has ended, and has never started if the cancellation was not a hard one. -/
theorem decision_answers (cfg : Config) {ls : List Label} {s : State}
    (h : (broker cfg).run {} ls = some s) {c : Nat} {entry : Entry} (hentry : entry ∈ s.logOf c)
    (hkind : entry.message.kind = .cancelResponse) : ∃ m ∈ received ls c, m.kind = .cancelRequest ∧
      ∃ decision : Decision, entry.message = cancelResponse m.control decision ∧
        (decision = .cancelled → s.Revoked c m.control) := by
  obtain ⟨handled, hheeds⟩ := run_heeds h c
  have hsub : handled.Sublist (received ls c) := (List.sublist_append_left _ _).trans hheeds.inbox
  obtain ⟨m, hm, hrest⟩ := hheeds.decided entry hentry hkind
  exact ⟨m, hsub.subset hm, hrest⟩

theorem decision_answers_rejectLast : ∃ s entry,
    (broker (sampleConfig .cancelQueued)).run {} rejectLast = some s ∧ entry ∈ s.logOf 0 ∧
      entry.message.kind = .cancelResponse ∧ ∃ m ∈ received rejectLast 0, m.kind = .cancelRequest ∧
        ∃ decision : Decision, entry.message = cancelResponse m.control decision ∧
          (decision = .cancelled → s.Revoked 0 m.control) := by
  obtain ⟨s, hrun, hfacts⟩ := Option.map_eq_some_iff.mp rejectLast_facts
  obtain ⟨-, hlog⟩ := Prod.mk.inj hfacts
  have hmem : (MessageType.cancelResponse, false) ∈ (s.logOf 0).map fun entry => (entry.message.kind,
      isText (lit "stale_request") (entry.message.control.items.get (lit "reason"))) := by
    rw [hlog]
    decide
  obtain ⟨entry, hentry, heq⟩ := List.mem_map.mp hmem
  have hkind := (Prod.mk.inj heq).1
  exact ⟨s, entry, hrun, hentry, hkind, decision_answers (sampleConfig .cancelQueued) hrun hentry hkind⟩

end Runs

end Deadpool.Remote.Broker
