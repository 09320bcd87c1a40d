import Deadpool.Lookup
import Deadpool.Remote.Protocol
import Mathlib.Data.List.Nodup
import Mathlib.Data.List.Forall2
import Mathlib.Logic.Function.Basic

/-!
# The reassembler under arbitrary frames

`MessageReader._accept` is called with frames that a peer may have made up.  `WithinBounds` is what the
reader keeps whatever they are and also when a call raises; `Collected` says which frames an
incomplete message was put together from, as long as every frame was accepted.

Principal results:

* `accept_cases`, `append_cases` — what one call can do;
* `bounded_accept`   — every call keeps the bounds;
* `collected_accept` — a call that does not raise keeps the record of the frames;
* `acceptAll_sound`  — the bounds and the integrity of what is returned, after any frames.
-/

set_option autoImplicit false

namespace Deadpool.Remote

open Deadpool.Py

/-- A frame as `receive` hands it to `_accept`. -/
structure Arrival where
  kind : MessageType
  header : Dict
  payload : Bytes

/-- The fields of a frame's header that have the right types. -/
structure ChunkHeader where
  messageId : Str
  index : Int
  count : Int
  total : Int
  digest : Str
  control : Obj

structure Arrival.Reads (f : Arrival) (c : ChunkHeader) : Prop where
  messageId : (f.header.get (lit "message_id")).val = .str c.messageId
  index : (f.header.get (lit "index")).val = .int c.index
  count : (f.header.get (lit "count")).val = .int c.count
  total : (f.header.get (lit "total")).val = .int c.total
  digest : (f.header.get (lit "digest")).val = .str c.digest
  control : f.header.get (lit "control") = c.control

theorem Arrival.Reads.messageId_inj {f : Arrival} {c c' : ChunkHeader} (h : f.Reads c)
    (h' : f.Reads c') : c.messageId = c'.messageId :=
  Value.str.inj (h.messageId.symm.trans h'.messageId)

section Sha

variable (sha256 : Bytes → Hex 64)

/-- Successive calls of `_accept`, and what each returned or raised. -/
def MessageReader.acceptAll : MessageReader → List Arrival →
    MessageReader × List (Except Raised (Option Message))
  | r, [] => (r, [])
  | r, f :: frames =>
    let (r, result) := r.accept sha256 f.kind f.header f.payload
    let (r, results) := MessageReader.acceptAll r frames
    (r, result :: results)

theorem acceptAll_append (r : MessageReader) (frames frames' : List Arrival) :
    r.acceptAll sha256 (frames ++ frames') =
      (((r.acceptAll sha256 frames).1.acceptAll sha256 frames').1,
        (r.acceptAll sha256 frames).2 ++ ((r.acceptAll sha256 frames).1.acceptAll sha256 frames').2) := by
  induction frames generalizing r with
  | nil => rfl
  | cons f frames ih => simp only [List.cons_append, MessageReader.acceptAll, ih]

theorem length_acceptAll (r : MessageReader) (frames : List Arrival) :
    (r.acceptAll sha256 frames).2.length = frames.length := by
  induction frames generalizing r with
  | nil => rfl
  | cons f frames ih => simp only [MessageReader.acceptAll, List.length_cons, ih]

/-! ## What one call can do -/

variable {r : MessageReader} {messageId : Str} {state : Chunks} {payload : Bytes}

/-- One more chunk of a known message is stored. -/
def MessageReader.store (r : MessageReader) (messageId : Str) (state : Chunks) (payload : Bytes) :
    MessageReader :=
  { r.setChunks messageId (state.add payload) with
    incompleteBytes := r.incompleteBytes + payload.length }

/-- The message of the chunk is taken out again. -/
def MessageReader.retire (r : MessageReader) (messageId : Str) (state : Chunks) (payload : Bytes) :
    MessageReader :=
  { (r.store messageId state payload).remove messageId with
    incompleteBytes := r.incompleteBytes + payload.length - (state.add payload).received }

/-- The outcomes of the end of `_accept`. -/
inductive Appended (r : MessageReader) (messageId : Str) (state : Chunks) (index : Int)
    (payload : Bytes) : MessageReader × Except Raised (Option Message) → Prop
  | refused (e : Raised) : Appended r messageId state index payload (r, .error e)
  | overrun (e : Raised) (hroom : r.incompleteBytes + payload.length ≤ r.limits.maxMessageBytes) :
      Appended r messageId state index payload (r.store messageId state payload, .error e)
  | more (hindex : index = state.nextIndex)
      (hroom : r.incompleteBytes + payload.length ≤ r.limits.maxMessageBytes) :
      Appended r messageId state index payload (r.store messageId state payload, .ok none)
  | spoiled (e : Raised) (hroom : r.incompleteBytes + payload.length ≤ r.limits.maxMessageBytes) :
      Appended r messageId state index payload (r.retire messageId state payload, .error e)
  | complete (hindex : index = state.nextIndex)
      (hroom : r.incompleteBytes + payload.length ≤ r.limits.maxMessageBytes)
      (hlast : index + 1 = state.count)
      (htotal : ((state.add payload).received : Int) = state.total)
      (hdigest : (sha256 (state.add payload).parts.flatten).text = state.digest) :
      Appended r messageId state index payload (r.retire messageId state payload,
        .ok (some ⟨state.kind, state.control, (state.add payload).parts.flatten⟩))

theorem append_cases (r : MessageReader) (messageId : Str) (state : Chunks) (index : Int)
    (payload : Bytes) :
    Appended sha256 r messageId state index payload
      (r.append sha256 messageId state index payload) := by
  unfold MessageReader.append
  split
  · exact .refused _
  · rename_i hindex
    split
    · exact .refused _
    · rename_i hroom
      rw [not_not] at hindex
      rw [Int.not_lt] at hroom
      dsimp only
      split
      · exact .overrun _ hroom
      · split
        · exact .more hindex hroom
        · rename_i hlast
          rw [not_not] at hlast
          split
          · exact .spoiled _ hroom
          · rename_i htotal
            split
            · exact .spoiled _ hroom
            · rename_i hdigest
              exact .complete hindex hroom hlast (not_not.mp htotal) (not_not.mp hdigest)

/-- A message is entered before its first chunk is stored. -/
def MessageReader.enter (r : MessageReader) (messageId : Str) (state : Chunks) : MessageReader :=
  { r with messages := r.messages ++ [(messageId, state)] }

/-- **One call.** `_accept` raises and changes nothing, or it enters the message of a first frame, or
it finds the message of a later one; then it goes on with the chunk. -/
theorem accept_cases (r : MessageReader) (f : Arrival) :
    (∃ e, r.accept sha256 f.kind f.header f.payload = (r, .error e)) ∨
      ∃ c : ChunkHeader, f.Reads c ∧
        ((∃ control : Dict, c.control = control.obj ∧ c.index = 0 ∧
            r.messages.lookup c.messageId = none ∧
            r.messages.length < r.limits.maxIncompleteMessages ∧
            r.accept sha256 f.kind f.header f.payload =
              (r.enter c.messageId ⟨f.kind, control, c.count, c.total, c.digest, 0, [], 0⟩).append
                sha256 c.messageId ⟨f.kind, control, c.count, c.total, c.digest, 0, [], 0⟩ c.index
                f.payload) ∨
          ∃ state, r.messages.lookup c.messageId = some state ∧ c.control = .none ∧
            state.kind = f.kind ∧ state.count = c.count ∧ state.total = c.total ∧
            state.digest = c.digest ∧
            r.accept sha256 f.kind f.header f.payload =
              r.append sha256 c.messageId state c.index f.payload) := by
  unfold MessageReader.accept
  split
  · exact .inl ⟨_, rfl⟩
  split
  · rename_i messageId hid
    split
    · exact .inl ⟨_, rfl⟩
    split
    · rename_i index count total hindex hcount htotal
      split
      · exact .inl ⟨_, rfl⟩
      split
      · exact .inl ⟨_, rfl⟩
      split
      · rename_i digest hdigest
        split
        · exact .inl ⟨_, rfl⟩
        have hreads : f.Reads ⟨messageId, index, count, total, digest, f.header.get (lit "control")⟩ :=
          ⟨hid, hindex, hcount, htotal, hdigest, rfl⟩
        unfold MessageReader.place
        split
        · rename_i hlookup
          split
          · rename_i items unique hcontrol
            split
            · exact .inl ⟨_, rfl⟩
            · rename_i hzero
              split
              · exact .inl ⟨_, rfl⟩
              · rename_i hlen
                exact .inr ⟨_, hreads, .inl ⟨⟨items, unique⟩, hcontrol, not_not.mp hzero, hlookup,
                  Nat.not_le.mp hlen, rfl⟩⟩
          · exact .inl ⟨_, rfl⟩
        · rename_i state hlookup
          split
          · rename_i hcontrol
            split
            · exact .inl ⟨_, rfl⟩
            · rename_i hsame
              simp only [not_or, not_not] at hsame
              exact .inr ⟨_, hreads, .inr ⟨state, hlookup, hcontrol, hsame.1, hsame.2.1,
                hsame.2.2.1, hsame.2.2.2, rfl⟩⟩
          · exact .inl ⟨_, rfl⟩
      · exact .inl ⟨_, rfl⟩
    · exact .inl ⟨_, rfl⟩
  · exact .inl ⟨_, rfl⟩

/-! ## The table of incomplete messages -/

/-- The entry of a message stands once in the table. -/
theorem lookup_split {messages : List (Str × Chunks)} (hnodup : (messages.map Prod.fst).Nodup)
    (h : messages.lookup messageId = some state) :
    ∃ l₁ l₂, messages = l₁ ++ (messageId, state) :: l₂ ∧ messageId ∉ l₁.map Prod.fst ∧
      messageId ∉ l₂.map Prod.fst := by
  obtain ⟨l₁, l₂, rfl, -⟩ := List.lookup_eq_some_iff.mp h
  rw [List.map_append, List.map_cons, List.nodup_middle, List.nodup_cons, List.mem_append, not_or]
    at hnodup
  exact ⟨l₁, l₂, rfl, hnodup.1.1, hnodup.1.2⟩

theorem map_of_not_mem {l : List (Str × Chunks)} (state : Chunks)
    (h : messageId ∉ l.map Prod.fst) :
    (l.map fun e => if e.1 = messageId then (messageId, state) else e) = l := by
  have hsame : ∀ e ∈ l, (if e.1 = messageId then (messageId, state) else e) = id e := by
    intro e he
    rw [if_neg]
    · rfl
    · intro hid
      exact h (hid ▸ List.mem_map_of_mem he)
  rw [List.map_congr_left hsame, List.map_id]

theorem filter_of_not_mem {l : List (Str × Chunks)} (h : messageId ∉ l.map Prod.fst) :
    (l.filter fun e => e.1 ≠ messageId) = l := by
  refine List.filter_eq_self.mpr fun e he => decide_eq_true ?_
  intro hid
  exact h (hid ▸ List.mem_map_of_mem he)

section Split

variable {l₁ l₂ : List (Str × Chunks)} (hr : r.messages = l₁ ++ (messageId, state) :: l₂)
  (h₁ : messageId ∉ l₁.map Prod.fst) (h₂ : messageId ∉ l₂.map Prod.fst)

include hr h₁ h₂

theorem store_messages : (r.store messageId state payload).messages =
    l₁ ++ (messageId, state.add payload) :: l₂ := by
  show r.messages.map _ = _
  rw [hr, List.map_append, List.map_cons, map_of_not_mem _ h₁, map_of_not_mem _ h₂, if_pos rfl]

theorem retire_messages : (r.retire messageId state payload).messages = l₁ ++ l₂ := by
  show (r.store messageId state payload).messages.filter _ = _
  rw [store_messages hr h₁ h₂, List.filter_append, List.filter_cons_of_neg (by simp),
    filter_of_not_mem h₁, filter_of_not_mem h₂]

theorem mem_store {e : Str × Chunks} (he : e ∈ (r.store messageId state payload).messages) :
    e = (messageId, state.add payload) ∨ e ∈ r.messages ∧ e.1 ≠ messageId := by
  rw [store_messages hr h₁ h₂] at he
  rw [hr]
  rcases List.mem_append.mp he with he | he
  · exact .inr ⟨List.mem_append_left _ he, fun hid => h₁ (hid ▸ List.mem_map_of_mem he)⟩
  · rcases List.mem_cons.mp he with he | he
    · exact .inl he
    · exact .inr ⟨List.mem_append_right _ (List.mem_cons_of_mem _ he),
        fun hid => h₂ (hid ▸ List.mem_map_of_mem he)⟩

theorem mem_retire {e : Str × Chunks} (he : e ∈ (r.retire messageId state payload).messages) :
    e ∈ r.messages ∧ e.1 ≠ messageId := by
  rw [retire_messages hr h₁ h₂] at he
  rw [hr]
  rcases List.mem_append.mp he with he | he
  · exact ⟨List.mem_append_left _ he, fun hid => h₁ (hid ▸ List.mem_map_of_mem he)⟩
  · exact ⟨List.mem_append_right _ (List.mem_cons_of_mem _ he),
      fun hid => h₂ (hid ▸ List.mem_map_of_mem he)⟩

end Split

/-! ## The bounds -/

/-- The octets received of the incomplete messages. -/
def MessageReader.held (r : MessageReader) : Nat := (r.messages.map fun e => e.2.received).sum

/-- What the reader keeps whatever frames arrive. -/
structure WithinBounds (r : MessageReader) : Prop where
  nodup : (r.messages.map Prod.fst).Nodup
  incomplete : r.messages.length ≤ r.limits.maxIncompleteMessages
  bytes : r.incompleteBytes = r.held
  bytes_le : r.incompleteBytes ≤ r.limits.maxMessageBytes
  received : ∀ e ∈ r.messages, e.2.received = e.2.parts.flatten.length

theorem bounded_new (limits : RemoteLimits) : WithinBounds (MessageReader.new limits) where
  nodup := List.nodup_nil
  incomplete := Nat.zero_le _
  bytes := rfl
  bytes_le := Int.natCast_nonneg _
  received := fun _ he => by cases he

theorem received_add (payload : Bytes) (h : state.received = state.parts.flatten.length) :
    (state.add payload).received = (state.add payload).parts.flatten.length := by
  simp only [Chunks.add, List.flatten_append, List.length_append, h]
  simp

theorem WithinBounds.store (h : WithinBounds r) (hlookup : r.messages.lookup messageId = some state)
    (hroom : r.incompleteBytes + payload.length ≤ r.limits.maxMessageBytes) :
    WithinBounds (r.store messageId state payload) := by
  obtain ⟨l₁, l₂, hr, h₁, h₂⟩ := lookup_split h.nodup hlookup
  have hstore : (r.store messageId state payload).messages =
      l₁ ++ (messageId, state.add payload) :: l₂ := store_messages hr h₁ h₂
  have hbytes := h.bytes
  have hlen := h.incomplete
  have hnodup := h.nodup
  have hreceived := h.received
  rw [MessageReader.held, hr] at hbytes
  rw [hr] at hlen hnodup hreceived
  refine ⟨?_, ?_, ?_, hroom, ?_⟩
  · rw [hstore]
    simpa using hnodup
  · rw [hstore]
    show _ ≤ r.limits.maxIncompleteMessages
    simpa using hlen
  · show r.incompleteBytes + payload.length = _
    rw [MessageReader.held, hstore, hbytes]
    simp only [List.map_append, List.map_cons, List.sum_append, List.sum_cons, Chunks.add]
    omega
  · rw [hstore]
    intro e he
    rcases List.mem_append.mp he with he | he
    · exact hreceived e (List.mem_append_left _ he)
    · rcases List.mem_cons.mp he with rfl | he
      · exact received_add payload (hreceived (messageId, state) (by simp))
      · exact hreceived e (List.mem_append_right _ (List.mem_cons_of_mem _ he))

theorem WithinBounds.retire (h : WithinBounds r) (hlookup : r.messages.lookup messageId = some state) :
    WithinBounds (r.retire messageId state payload) := by
  obtain ⟨l₁, l₂, hr, h₁, h₂⟩ := lookup_split h.nodup hlookup
  have hretire : (r.retire messageId state payload).messages = l₁ ++ l₂ := retire_messages hr h₁ h₂
  have hbytes := h.bytes
  have hlen := h.incomplete
  have hnodup := h.nodup
  rw [MessageReader.held, hr] at hbytes
  rw [hr] at hlen hnodup
  simp only [List.map_append, List.map_cons, List.sum_append, List.sum_cons] at hbytes
  have hsum : (r.retire messageId state payload).incompleteBytes =
      (r.retire messageId state payload).held := by
    show r.incompleteBytes + payload.length - ((state.add payload).received : Nat) = _
    rw [MessageReader.held, hretire]
    simp only [List.map_append, List.sum_append, Chunks.add]
    omega
  refine ⟨?_, ?_, hsum, ?_, ?_⟩
  · rw [hretire]
    exact hnodup.sublist (((List.sublist_cons_self _ _).append_left l₁).map _)
  · rw [hretire]
    simp only [List.length_append, List.length_cons] at hlen ⊢
    show _ ≤ r.limits.maxIncompleteMessages
    omega
  · have hle := h.bytes_le
    show r.incompleteBytes + payload.length - ((state.add payload).received : Nat) ≤
      r.limits.maxMessageBytes
    simp only [Chunks.add]
    omega
  · rw [hretire]
    intro e he
    refine h.received e ?_
    rw [hr]
    rcases List.mem_append.mp he with he | he
    · exact List.mem_append_left _ he
    · exact List.mem_append_right _ (List.mem_cons_of_mem _ he)

theorem mem_keys_of_lookup {messages : List (Str × Chunks)}
    (h : messages.lookup messageId = none) : messageId ∉ messages.map Prod.fst := by
  intro hmem
  obtain ⟨e, he, rfl⟩ := List.mem_map.mp hmem
  have := List.lookup_eq_none_iff.mp h e he
  simp at this

theorem WithinBounds.enter (h : WithinBounds r) (hlookup : r.messages.lookup messageId = none)
    (hlen : r.messages.length < r.limits.maxIncompleteMessages) (hnew : state.received = 0)
    (hparts : state.parts = []) : WithinBounds (r.enter messageId state) where
  nodup := by
    simp only [MessageReader.enter, List.map_append, List.map_cons, List.map_nil]
    exact List.nodup_append.mpr ⟨h.nodup, List.nodup_singleton _, fun a ha b hb hab =>
      mem_keys_of_lookup hlookup (List.mem_singleton.mp hb ▸ hab ▸ ha)⟩
  incomplete := by
    simp only [MessageReader.enter, List.length_append, List.length_singleton]
    omega
  bytes := by
    have := h.bytes
    simp only [MessageReader.held, MessageReader.enter, List.map_append, List.sum_append,
      List.map_cons, List.map_nil, List.sum_cons, List.sum_nil, hnew] at this ⊢
    exact this
  bytes_le := h.bytes_le
  received := by
    intro e he
    rcases List.mem_append.mp he with he | he
    · exact h.received e he
    · cases List.mem_singleton.mp he
      rw [hnew, hparts]
      rfl

theorem lookup_enter (hlookup : r.messages.lookup messageId = none) :
    (r.enter messageId state).messages.lookup messageId = some state := by
  simp [MessageReader.enter, List.lookup_append, hlookup]

theorem WithinBounds.append (h : WithinBounds r) (hlookup : r.messages.lookup messageId = some state)
    {index : Int} {out : MessageReader × Except Raised (Option Message)}
    (hout : Appended sha256 r messageId state index payload out) :
    WithinBounds out.1 ∧ out.1.limits = r.limits := by
  cases hout with
  | refused => exact ⟨h, rfl⟩
  | overrun e hroom => exact ⟨h.store hlookup hroom, rfl⟩
  | more hindex hroom => exact ⟨h.store hlookup hroom, rfl⟩
  | spoiled => exact ⟨h.retire hlookup, rfl⟩
  | complete => exact ⟨h.retire hlookup, rfl⟩

/-- **Every call keeps the bounds**, whatever frame it is given and also when it raises. -/
theorem bounded_accept (h : WithinBounds r) (f : Arrival) :
    WithinBounds (r.accept sha256 f.kind f.header f.payload).1 ∧
      (r.accept sha256 f.kind f.header f.payload).1.limits = r.limits := by
  rcases accept_cases sha256 r f with ⟨e, he⟩ | ⟨c, -, ⟨control, -, -, hlookup, hlen, he⟩ |
    ⟨state, hlookup, -, -, -, -, -, he⟩⟩
  · rw [he]
    exact ⟨h, rfl⟩
  · rw [he]
    exact (h.enter hlookup hlen rfl rfl).append sha256 (lookup_enter hlookup)
      (append_cases sha256 _ _ _ _ _)
  · rw [he]
    exact h.append sha256 hlookup (append_cases sha256 _ _ _ _ _)

theorem bounded_acceptAll (h : WithinBounds r) (frames : List Arrival) :
    WithinBounds (r.acceptAll sha256 frames).1 ∧ (r.acceptAll sha256 frames).1.limits = r.limits := by
  induction frames generalizing r with
  | nil => exact ⟨h, rfl⟩
  | cons f frames ih =>
    obtain ⟨hnext, hlimits⟩ := bounded_accept sha256 h f
    obtain ⟨hlast, hsame⟩ := ih hnext
    exact ⟨hlast, hsame.trans hlimits⟩

/-! ## Which frames a message is made of -/

/-- Frame `k` of a message: the first one carries the control dictionary. -/
def chunkHeader (messageId : Str) (count total : Int) (digest : Str) (control : Dict) (k : Nat) :
    ChunkHeader :=
  ⟨messageId, k, count, total, digest, if k = 0 then control.obj else .none⟩

/-- The frames at these positions. -/
def Picks (frames : List Arrival) (positions : List Nat) (chunks : List Arrival) : Prop :=
  List.Forall₂ (fun j f => frames[j]? = some f) positions chunks

/-- The chunks of a message from its first one on, in order. -/
def Chunked (chunks : List Arrival) (kind : MessageType) (header : Nat → ChunkHeader) : Prop :=
  ∀ (k : Nat) (f : Arrival), chunks[k]? = some f → f.kind = kind ∧ f.Reads (header k)

/-- The frames at these positions are those of the message that was returned. -/
def Assembled (frames : List Arrival) (positions : List Nat) (m : Message) : Prop :=
  ∃ (messageId : Str) (count total : Int) (digest : Str) (chunks : List Arrival),
    Picks frames positions chunks ∧
      Chunked chunks m.kind (chunkHeader messageId count total digest m.control) ∧
      (chunks.length : Int) = count ∧ m.payload = (chunks.map Arrival.payload).flatten ∧
      (m.payload.length : Int) = total ∧ (sha256 m.payload).text = digest

/-- What call `i` returned. -/
def returned (results : List (Except Raised (Option Message))) (i : Nat) : Option Message :=
  match results[i]? with
  | some (.ok message) => message
  | _ => none

/-- The frames of an incomplete message. -/
def Partial (frames : List Arrival) (positions : List Nat) (messageId : Str) (state : Chunks) : Prop :=
  ∃ chunks, Picks frames positions chunks ∧
    Chunked chunks state.kind
      (chunkHeader messageId state.count state.total state.digest state.control) ∧
    (chunks.length : Int) = state.nextIndex ∧ state.parts = chunks.map Arrival.payload

/-- Every incomplete message has its frames, every returned message has its own, and no frame is in
two of them. -/
structure Collected (frames : List Arrival) (results : List (Except Raised (Option Message)))
    (held : Str → List Nat) (sources : Nat → List Nat) (r : MessageReader) : Prop where
  length : results.length = frames.length
  incomplete : ∀ e ∈ r.messages, Partial frames (held e.1) e.1 e.2
  complete : ∀ i m, returned results i = some m → Assembled sha256 frames (sources i) m
  apart : ∀ i j, i ≠ j → (returned results i).isSome → (returned results j).isSome →
    (sources i).Disjoint (sources j)
  fresh : ∀ i, (returned results i).isSome → ∀ e ∈ r.messages, (sources i).Disjoint (held e.1)

section Growing

variable {frames : List Arrival} {f : Arrival} {positions : List Nat} {chunks : List Arrival}
  {results : List (Except Raised (Option Message))} {result : Except Raised (Option Message)}
  {held : Str → List Nat} {sources : Nat → List Nat}

theorem Picks.grow (h : Picks frames positions chunks) (f : Arrival) :
    Picks (frames ++ [f]) positions chunks :=
  List.Forall₂.imp (fun _ _ hj => getElem?_append_of_some hj) h

theorem Picks.snoc (h : Picks frames positions chunks) (f : Arrival) :
    Picks (frames ++ [f]) (positions ++ [frames.length]) (chunks ++ [f]) :=
  List.rel_append (h.grow f) (.cons getElem?_append_length .nil)

theorem Picks.mem (h : Picks frames positions chunks) {j : Nat} (hj : j ∈ positions) :
    ∃ g ∈ chunks, frames[j]? = some g := by
  induction h with
  | nil => cases hj
  | cons hg _ ih =>
    rcases List.mem_cons.mp hj with rfl | hj
    · exact ⟨_, List.mem_cons_self, hg⟩
    · obtain ⟨g, hmem, hg⟩ := ih hj
      exact ⟨g, List.mem_cons_of_mem _ hmem, hg⟩

theorem Picks.lt (h : Picks frames positions chunks) {j : Nat} (hj : j ∈ positions) :
    j < frames.length := by
  obtain ⟨g, -, hg⟩ := h.mem hj
  exact lt_of_getElem? hg

/-- A frame in a message has its ID. -/
theorem Picks.reads (h : Picks frames positions chunks) {kind : MessageType}
    {header : Nat → ChunkHeader} (hc : Chunked chunks kind header) {j : Nat} (hj : j ∈ positions) :
    ∃ g k, frames[j]? = some g ∧ g.Reads (header k) := by
  obtain ⟨g, hg, hj⟩ := h.mem hj
  obtain ⟨k, hk⟩ := List.getElem?_of_mem hg
  exact ⟨g, k, hj, (hc k g hk).2⟩

theorem Chunked.snoc {kind : MessageType} {header : Nat → ChunkHeader} (h : Chunked chunks kind header)
    (hkind : f.kind = kind) (hreads : f.Reads (header chunks.length)) :
    Chunked (chunks ++ [f]) kind header := by
  intro k g hk
  rcases getElem?_append_some hk with hk | ⟨rfl, rfl⟩
  · exact h k g hk
  · exact ⟨hkind, hreads⟩

theorem Partial.grow (h : Partial frames positions messageId state) (f : Arrival) :
    Partial (frames ++ [f]) positions messageId state := by
  obtain ⟨chunks, hpicks, hrest⟩ := h
  exact ⟨chunks, hpicks.grow f, hrest⟩

theorem Partial.lt (h : Partial frames positions messageId state) {j : Nat} (hj : j ∈ positions) :
    j < frames.length := by
  obtain ⟨chunks, hpicks, -⟩ := h
  exact hpicks.lt hj

/-- Two incomplete messages share no frame. -/
theorem Partial.disjoint {positions' : List Nat} {messageId' : Str} {state' : Chunks}
    (h : Partial frames positions messageId state) (h' : Partial frames positions' messageId' state')
    (hne : messageId ≠ messageId') : positions.Disjoint positions' := by
  obtain ⟨chunks, hpicks, hchunks, -⟩ := h
  obtain ⟨chunks', hpicks', hchunks', -⟩ := h'
  intro j hj hj'
  obtain ⟨g, k, hg, hreads⟩ := hpicks.reads hchunks hj
  obtain ⟨g', k', hg', hreads'⟩ := hpicks'.reads hchunks' hj'
  cases hg.symm.trans hg'
  exact hne (hreads.messageId_inj hreads')

/-- The next chunk. -/
theorem Partial.snoc {c : ChunkHeader} (h : Partial frames positions c.messageId state)
    (hkind : state.kind = f.kind) (hcount : state.count = c.count) (htotal : state.total = c.total)
    (hdigest : state.digest = c.digest) (hindex : c.index = state.nextIndex) (hreads : f.Reads c)
    (hcontrol : c.control = if state.nextIndex = 0 then state.control.obj else .none) :
    Partial (frames ++ [f]) (positions ++ [frames.length]) c.messageId (state.add f.payload) := by
  obtain ⟨chunks, hpicks, hchunks, hlen, hparts⟩ := h
  refine ⟨chunks ++ [f], hpicks.snoc f, hchunks.snoc hkind.symm ?_, ?_, ?_⟩
  · have hheader : chunkHeader c.messageId state.count state.total state.digest state.control
        chunks.length = c := by
      obtain ⟨messageId, index, count, total, digest, control⟩ := c
      subst hindex hcount htotal hdigest
      have hzero : chunks.length = 0 ↔ state.nextIndex = 0 := by omega
      dsimp only at hcontrol
      simp only [chunkHeader, hlen, hzero, hcontrol]
    rw [hheader]
    exact hreads
  · simp only [List.length_append, List.length_singleton, Chunks.add]
    omega
  · simp [Chunks.add, hparts]

theorem Assembled.grow {m : Message} (h : Assembled sha256 frames positions m) (f : Arrival) :
    Assembled sha256 (frames ++ [f]) positions m := by
  obtain ⟨messageId, count, total, digest, chunks, hpicks, hrest⟩ := h
  exact ⟨messageId, count, total, digest, chunks, hpicks.grow f, hrest⟩

theorem Assembled.lt {m : Message} (h : Assembled sha256 frames positions m) {j : Nat}
    (hj : j ∈ positions) : j < frames.length := by
  obtain ⟨messageId, count, total, digest, chunks, hpicks, -⟩ := h
  exact hpicks.lt hj

theorem returned_lt {i : Nat} (h : i < results.length) :
    returned (results ++ [result]) i = returned results i := by
  unfold returned
  rw [List.getElem?_append_left h]

theorem returned_length : returned (results ++ [.ok none]) results.length = none := by
  simp [returned]

theorem lt_of_returned {i : Nat} (h : (returned results i).isSome) : i < results.length := by
  unfold returned at h
  split at h
  · rename_i hi
    exact lt_of_getElem? hi
  · cases h

theorem returned_snoc {i : Nat} (h : (returned (results ++ [result]) i).isSome) :
    (returned results i).isSome ∧ returned (results ++ [result]) i = returned results i ∨
      i = results.length := by
  have hlt := lt_of_returned h
  rw [List.length_append, List.length_singleton] at hlt
  by_cases hi : i < results.length
  · rw [returned_lt hi] at h
    exact .inl ⟨h, returned_lt hi⟩
  · exact .inr (by omega)

theorem returned_none {i : Nat} (h : (returned (results ++ [.ok none]) i).isSome) :
    (returned results i).isSome ∧ returned (results ++ [.ok none]) i = returned results i := by
  rcases returned_snoc h with h | rfl
  · exact h
  · rw [returned_length] at h
    cases h

variable (hc : Collected sha256 frames results held sources r)

include hc

theorem Collected.notMem {i : Nat} (hi : (returned results i).isSome) :
    frames.length ∉ sources i := by
  intro hmem
  obtain ⟨m, hm⟩ := Option.isSome_iff_exists.mp hi
  exact Nat.lt_irrefl _ ((hc.complete i m hm).lt sha256 hmem)

/-- A message is entered, with no frame yet. -/
theorem Collected.enter (state : Chunks) (hlookup : r.messages.lookup messageId = none) (hparts : state.parts = [])
    (hindex : state.nextIndex = 0) :
    Collected sha256 frames results (Function.update held messageId []) sources
      (r.enter messageId state) where
  length := hc.length
  incomplete := by
    intro e he
    rcases List.mem_append.mp he with he | he
    · have hne : e.1 ≠ messageId := fun hid =>
        mem_keys_of_lookup hlookup (hid ▸ List.mem_map_of_mem he)
      rw [Function.update_of_ne hne]
      exact hc.incomplete e he
    · cases List.mem_singleton.mp he
      rw [Function.update_self]
      exact ⟨[], .nil, (fun k f hk => by cases hk), hindex.symm, hparts⟩
  complete := hc.complete
  apart := hc.apart
  fresh := by
    intro i hi e he
    by_cases hid : e.1 = messageId
    · rw [hid, Function.update_self]
      exact List.disjoint_nil_right _
    · rw [Function.update_of_ne hid]
      rcases List.mem_append.mp he with he | he
      · exact hc.fresh i hi e he
      · exact absurd (congrArg Prod.fst (List.mem_singleton.mp he)) hid

section Append

variable {l₁ l₂ : List (Str × Chunks)} {positions : List Nat}
  (hr : r.messages = l₁ ++ (messageId, state) :: l₂)
  (h₁ : messageId ∉ l₁.map Prod.fst) (h₂ : messageId ∉ l₂.map Prod.fst)
  (hnext : Partial (frames ++ [f]) (held messageId ++ [frames.length]) messageId (state.add f.payload))

include hr h₁ h₂ hnext

/-- A chunk that is not the last one. -/
theorem Collected.store : Collected sha256 (frames ++ [f]) (results ++ [.ok none])
    (Function.update held messageId (held messageId ++ [frames.length])) sources
    (r.store messageId state f.payload) where
  length := by rw [List.length_append, List.length_append, hc.length]; rfl
  incomplete := by
    intro e he
    rcases mem_store hr h₁ h₂ he with rfl | ⟨he, hne⟩
    · rw [Function.update_self]
      exact hnext
    · rw [Function.update_of_ne hne]
      exact (hc.incomplete e he).grow f
  complete := by
    intro i m hi
    rw [(returned_none (Option.isSome_of_eq_some hi)).2] at hi
    exact (hc.complete i m hi).grow sha256 f
  apart := by
    intro i j hij hi hj
    exact hc.apart i j hij (returned_none hi).1 (returned_none hj).1
  fresh := by
    intro i hi e he
    have hi := (returned_none hi).1
    rcases mem_store hr h₁ h₂ he with rfl | ⟨he, hne⟩
    · rw [Function.update_self]
      refine List.disjoint_append_right.mpr ⟨?_, ?_⟩
      · exact hc.fresh i hi (messageId, state) (by rw [hr]; simp)
      · exact List.disjoint_singleton.mpr (hc.notMem sha256 hi)
    · rw [Function.update_of_ne hne]
      exact hc.fresh i hi e he

/-- The last chunk. -/
theorem Collected.retire {m : Message}
    (hm : Assembled sha256 (frames ++ [f]) (held messageId ++ [frames.length]) m) :
    Collected sha256 (frames ++ [f]) (results ++ [.ok (some m)]) held
      (Function.update sources frames.length (held messageId ++ [frames.length]))
      (r.retire messageId state f.payload) := by
  have hold : ∀ i, (returned results i).isSome → i ≠ frames.length := by
    intro i hi hlen
    have := lt_of_returned hi
    rw [hc.length] at this
    omega
  have happart : ∀ i, (returned results i).isSome →
      (sources i).Disjoint (held messageId ++ [frames.length]) := by
    intro i hi
    refine List.disjoint_append_right.mpr ⟨?_, List.disjoint_singleton.mpr (hc.notMem sha256 hi)⟩
    exact hc.fresh i hi (messageId, state) (by rw [hr]; simp)
  refine ⟨?_, ?_, ?_, ?_, ?_⟩
  · rw [List.length_append, List.length_append, hc.length]
    rfl
  · intro e he
    exact (hc.incomplete e (mem_retire hr h₁ h₂ he).1).grow f
  · intro i m' hi
    rcases returned_snoc (Option.isSome_of_eq_some hi) with ⟨hsome, hsame⟩ | rfl
    · rw [Function.update_of_ne (hold i hsome)]
      rw [hsame] at hi
      exact (hc.complete i m' hi).grow sha256 f
    · have hmm : m = m' := by simpa [returned] using hi
      rw [hc.length, Function.update_self, ← hmm]
      exact hm
  · intro i j hij hi hj
    rcases returned_snoc hi with ⟨hi, -⟩ | rfl
    · rw [Function.update_of_ne (hold i hi)]
      rcases returned_snoc hj with ⟨hj, -⟩ | rfl
      · rw [Function.update_of_ne (hold j hj)]
        exact hc.apart i j hij hi hj
      · rw [hc.length, Function.update_self]
        exact happart i hi
    · rw [hc.length, Function.update_self]
      rcases returned_snoc hj with ⟨hj, -⟩ | rfl
      · rw [Function.update_of_ne (hold j hj)]
        exact (happart j hj).symm
      · exact absurd rfl hij
  · intro i hi e he
    obtain ⟨hmem, hne⟩ := mem_retire hr h₁ h₂ he
    rcases returned_snoc hi with ⟨hi, -⟩ | rfl
    · rw [Function.update_of_ne (hold i hi)]
      exact hc.fresh i hi e hmem
    · have hother := (hc.incomplete e hmem).grow f
      rw [hc.length, Function.update_self]
      exact hnext.disjoint hother (Ne.symm hne)

end Append

end Growing

/-! ## Runs without a rejected frame -/

/-- The frames are accounted for, and every incomplete message has a first chunk. -/
def Traced (frames : List Arrival) (results : List (Except Raised (Option Message)))
    (r : MessageReader) : Prop :=
  WithinBounds r ∧ (∀ e ∈ r.messages, 0 < e.2.nextIndex) ∧
    ∃ held sources, Collected sha256 frames results held sources r

section Step

variable {frames : List Arrival} {f : Arrival} {c : ChunkHeader} {held : Str → List Nat}
  {results : List (Except Raised (Option Message))} {sources : Nat → List Nat}

/-- One more chunk, of a message that may just have been entered. -/
theorem traced_append (hb : WithinBounds r) (hc : Collected sha256 frames results held sources r)
    (hlookup : r.messages.lookup c.messageId = some state)
    (hstarted : ∀ e ∈ r.messages, e.1 ≠ c.messageId → 0 < e.2.nextIndex)
    (hreads : f.Reads c) (hkind : state.kind = f.kind) (hcount : state.count = c.count)
    (htotal : state.total = c.total) (hdigest : state.digest = c.digest)
    (hcontrol : c.control = if state.nextIndex = 0 then state.control.obj else .none)
    {out : MessageReader × Except Raised (Option Message)}
    (hout : Appended sha256 r c.messageId state c.index f.payload out) (hok : out.2.isOk) :
    Traced sha256 (frames ++ [f]) (results ++ [out.2]) out.1 := by
  obtain ⟨l₁, l₂, hr, h₁, h₂⟩ := lookup_split hb.nodup hlookup
  have hmem : (c.messageId, state) ∈ r.messages := by
    rw [hr]
    simp
  have hb' := (hb.append sha256 hlookup hout).1
  have hpartial := hc.incomplete _ hmem
  have hnext : c.index = state.nextIndex → Partial (frames ++ [f])
      (held c.messageId ++ [frames.length]) c.messageId (state.add f.payload) := fun hindex =>
    hpartial.snoc hkind hcount htotal hdigest hindex hreads hcontrol
  cases hout with
  | refused | overrun | spoiled => cases hok
  | more hindex hroom =>
    refine ⟨hb', ?_, _, _, hc.store sha256 hr h₁ h₂ (hnext hindex)⟩
    intro e he
    rcases mem_store hr h₁ h₂ he with rfl | ⟨he, hne⟩
    · obtain ⟨chunks, -, -, hlen, -⟩ := hpartial
      simp only [Chunks.add] at hlen ⊢
      omega
    · exact hstarted e he hne
  | complete hindex hroom hlast hsum hsha =>
    refine ⟨hb', ?_, _, _, hc.retire sha256 hr h₁ h₂ (hnext hindex) ?_⟩
    · intro e he
      obtain ⟨he, hne⟩ := mem_retire hr h₁ h₂ he
      exact hstarted e he hne
    · obtain ⟨chunks, hpicks, hchunks, hlen, hparts⟩ := hnext hindex
      have hreceived := received_add f.payload (hb.received _ hmem)
      refine ⟨c.messageId, state.count, state.total, state.digest, chunks, hpicks, hchunks, ?_, ?_, ?_,
        hsha⟩
      · rw [hlen, ← hlast, hindex]
        rfl
      · rw [← hparts]
      · dsimp only
        rw [← hreceived]
        exact hsum

/-- **A call that does not raise** adds its frame to one message. -/
theorem traced_accept (h : Traced sha256 frames results r) (f : Arrival)
    (hok : (r.accept sha256 f.kind f.header f.payload).2.isOk) :
    Traced sha256 (frames ++ [f]) (results ++ [(r.accept sha256 f.kind f.header f.payload).2])
      (r.accept sha256 f.kind f.header f.payload).1 := by
  obtain ⟨hb, hstarted, held, sources, hc⟩ := h
  rcases accept_cases sha256 r f with ⟨e, he⟩ | ⟨c, hreads, ⟨control, hcontrol, hzero, hlookup, hlen,
    he⟩ | ⟨state, hlookup, hcontrol, hkind, hcount, htotal, hdigest, he⟩⟩
  · rw [he] at hok
    cases hok
  · rw [he] at hok ⊢
    have hentered := hc.enter sha256 ⟨f.kind, control, c.count, c.total, c.digest, 0, [], 0⟩
      hlookup rfl rfl
    refine traced_append sha256 (hb.enter hlookup hlen rfl rfl) hentered (lookup_enter hlookup) ?_
      hreads rfl rfl rfl rfl hcontrol (append_cases sha256 _ _ _ _ _) hok
    intro e he hne
    rcases List.mem_append.mp he with he | he
    · exact hstarted e he
    · exact absurd (congrArg Prod.fst (List.mem_singleton.mp he)) hne
  · rw [he] at hok ⊢
    have hmem : (c.messageId, state) ∈ r.messages := by
      obtain ⟨l₁, l₂, hr, -, -⟩ := lookup_split hb.nodup hlookup
      rw [hr]
      simp
    have hpos := hstarted _ hmem
    refine traced_append sha256 hb hc hlookup (fun e he _ => hstarted e he) hreads hkind hcount htotal
      hdigest ?_ (append_cases sha256 _ _ _ _ _) hok
    rw [hcontrol, if_neg (by dsimp only at hpos; omega)]

theorem traced_new (limits : RemoteLimits) : Traced sha256 [] [] (MessageReader.new limits) :=
  ⟨bounded_new limits, (fun _ he => by cases he), fun _ => [], fun _ => [],
    { length := rfl
      incomplete := fun _ he => by cases he
      complete := fun _ _ h => by cases h
      apart := fun _ _ _ h => by cases h
      fresh := fun _ h => by cases h }⟩

theorem traced_acceptAll (limits : RemoteLimits) (frames : List Arrival)
    (hok : ∀ result ∈ ((MessageReader.new limits).acceptAll sha256 frames).2, result.isOk) :
    Traced sha256 frames ((MessageReader.new limits).acceptAll sha256 frames).2
      ((MessageReader.new limits).acceptAll sha256 frames).1 := by
  -- by induction on the number of calls, the last one first
  induction frames using List.reverseRecOn with
  | nil => exact traced_new sha256 limits
  | append_singleton frames f ih =>
    rw [acceptAll_append] at hok ⊢
    have hbefore := ih fun result hr => hok result (List.mem_append_left _ hr)
    exact traced_accept sha256 hbefore f
      (hok _ (List.mem_append_right _ (List.mem_singleton.mpr rfl)))

end Step

/-- **The reader under arbitrary frames.** After any calls of `_accept`, also ones that raised, the
incomplete messages are few enough, their octets are counted and are few enough.  As long as no call
raised, every message returned is the concatenation of its own frames, with its digest. -/
theorem acceptAll_sound (limits : RemoteLimits) (frames : List Arrival) :
    let r := ((MessageReader.new limits).acceptAll sha256 frames).1
    let results := ((MessageReader.new limits).acceptAll sha256 frames).2
    (r.messages.map Prod.fst).Nodup ∧ r.messages.length ≤ limits.maxIncompleteMessages ∧
      r.incompleteBytes = (r.messages.map fun e => e.2.received).sum ∧
      (∀ e ∈ r.messages, e.2.received = e.2.parts.flatten.length) ∧
      r.incompleteBytes ≤ limits.maxMessageBytes ∧
      ((∀ result ∈ results, result.isOk) → ∃ sources : Nat → List Nat,
        (∀ i m, results[i]? = some (.ok (some m)) → Assembled sha256 frames (sources i) m) ∧
        ∀ i j m m', i ≠ j → results[i]? = some (.ok (some m)) → results[j]? = some (.ok (some m')) →
          (sources i).Disjoint (sources j)) := by
  obtain ⟨hb, hlimits⟩ := bounded_acceptAll sha256 (bounded_new limits) frames
  have hincomplete := hb.incomplete
  have hbytes := hb.bytes_le
  rw [hlimits] at hincomplete hbytes
  refine ⟨hb.nodup, hincomplete, hb.bytes, hb.received, hbytes, ?_⟩
  intro hok
  obtain ⟨-, -, held, sources, hc⟩ := traced_acceptAll sha256 limits frames hok
  have hreturned : ∀ i m, ((MessageReader.new limits).acceptAll sha256 frames).2[i]? =
      some (.ok (some m)) → returned ((MessageReader.new limits).acceptAll sha256 frames).2 i =
        some m := by
    intro i m hi
    unfold returned
    rw [hi]
  refine ⟨sources, fun i m hi => hc.complete i m (hreturned i m hi), ?_⟩
  intro i j m m' hij hi hj
  exact hc.apart i j hij (by rw [hreturned i m hi]; rfl) (by rw [hreturned j m' hj]; rfl)

end Sha

end Deadpool.Remote
