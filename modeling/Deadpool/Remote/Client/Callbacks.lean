import Deadpool.Lookup
import Deadpool.Lts
import Deadpool.Remote.Client.Future
import Deadpool.Remote.Config

/-!
# Done-callbacks of remote futures

`add_done_callback` and `_dispatch_callbacks` of `deadpool/remote/_future.py` with the callback
dispatcher of `deadpool/remote/client.py`: any threads operate on any futures, a completed future's
callbacks go as one batch to the dispatcher's queue, take a slot, run in the callback executor, and run
in the calling thread or in the dispatcher once the client shuts down.

A block under a lock is one step, and so is the call of one callback; what a callback does to futures
is steps of other labels.  `cancel` keeps the future's lock while it hands the callbacks over; here it
releases the lock first, which allows more interleavings.  The client is referenced weakly and may be
gone whenever it is looked up.

As a history, `registrations` lists the calls of `add_done_callback` and `invoked` the calls of
callbacks.

Principal result: `callbacks_once` — futures stay consistent, the first terminal operation is final,
and every callback runs once, after its future is done and in order of registration.
-/

set_option autoImplicit false

namespace Deadpool.Remote.Client

open Deadpool.Py Deadpool.Lts

/-! ## The system -/

/-- Callbacks of a future that run one after the other. -/
structure Batch where
  future : Nat
  callbacks : List Nat
  deriving DecidableEq, Repr

/-- Where a thread stands that completed a future, or that registered a callback late. -/
inductive Call where
  /-- before the block of `_dispatch_callbacks` -/
  | dispatching (f : Nat)
  /-- before `_schedule_callbacks` -/
  | scheduling (batch : Batch)
  /-- it calls these itself -/
  | invoking (batch : Batch)
  deriving DecidableEq, Repr

/-- `_callback_dispatcher_loop` -/
inductive CallbackDispatcher where
  | waiting
  | acquiring (batch : Batch)
  | submitting (batch : Batch)
  | invoking (batch : Batch)
  | exited
  deriving DecidableEq, Repr

/-- A call of `add_done_callback`; a late one found the future done. -/
structure Registration where
  future : Nat
  late : Bool
  deriving DecidableEq, Repr

structure CallbackState (V E : Type) where
  futures : List (RemoteFuture V E) := []
  calls : List Call := []
  dispatchQueue : List (Option Batch) := []
  dispatchClosed : Bool := false
  dispatcher : CallbackDispatcher := .waiting
  /-- the free ones of `_callback_slots` -/
  slots : Nat
  executorShutdown : Bool := false
  executorQueue : List Batch := []
  /-- what each thread of the executor has still to call -/
  workers : List Batch
  registrations : List Registration := []
  invoked : List Nat := []

inductive CallbackLabel (V E : Type) where
  /-- a future is made -/
  | future
  | operate (f : Nat) (op : Operation V E)
  | addDoneCallback (f : Nat)
  -- the threads of the callers
  | dispatch (i : Nat)
  | schedule (i : Nat) (alive : Bool)
  | invoke (i : Nat)
  -- the dispatcher
  | get
  | acquire
  | submit
  | dispatcherInvoke
  -- the executor
  | start (w : Nat)
  | workerInvoke (w : Nat)
  -- `_finish_shutdown`
  | closeDispatch
  | shutdownExecutor

section System

variable {V E : Type} (limits : RemoteLimits)

namespace CallbackState

/-- `release` of the bounded semaphore; `none` when it raises. -/
def release (s : CallbackState V E) : Option (CallbackState V E) :=
  if s.slots < limits.callbackQueueSize then some { s with slots := s.slots + 1 } else none

/-- `add_done_callback` -/
def addDoneCallback (s : CallbackState V E) (f : Nat) (future : RemoteFuture V E) :
    CallbackState V E :=
  let k := s.registrations.length
  let s : CallbackState V E := { s with registrations := s.registrations ++ [⟨f, future.done⟩] }
  if future.done then { s with calls := s.calls ++ [.invoking ⟨f, [k]⟩] }
  else
    { s with
      futures := s.futures.set f
        { future with remoteCallbacks := future.remoteCallbacks ++ [k] } }

/-- The block of `_dispatch_callbacks`. -/
def dispatchCallbacks (s : CallbackState V E) (i f : Nat) (future : RemoteFuture V E) :
    CallbackState V E :=
  { s with
    futures := s.futures.set f { future with remoteCallbacks := [] }
    calls := s.calls.set i
      (if future.remoteCallbacks = [] then .invoking ⟨f, []⟩
      else .scheduling ⟨f, future.remoteCallbacks⟩) }

/-- `_dispatch_callbacks` after its block, and `_schedule_callbacks`. -/
def scheduleCallbacks (s : CallbackState V E) (i : Nat) (batch : Batch) (alive : Bool) :
    CallbackState V E :=
  if alive ∧ s.dispatchClosed = false then
    { s with
      dispatchQueue := s.dispatchQueue ++ [some batch]
      calls := s.calls.set i (.invoking ⟨batch.future, []⟩) }
  else { s with calls := s.calls.set i (.invoking batch) }

/-- `submit` of the callback executor, which raises once it is shut down. -/
def submit (s : CallbackState V E) (batch : Batch) : CallbackState V E :=
  if s.executorShutdown then
    match s.release limits with
    | some s => { s with dispatcher := .invoking batch }
    | none => { s with dispatcher := .exited }
  else { s with executorQueue := s.executorQueue ++ [batch], dispatcher := .waiting }

/-- `_run_callback_batch` up to its loop; an exception drops the batch. -/
def start (s : CallbackState V E) (w : Nat) (batch : Batch) (rest : List Batch) :
    CallbackState V E :=
  match s.release limits with
  | some s => { s with executorQueue := rest, workers := s.workers.set w batch }
  | none => { s with executorQueue := rest }

end CallbackState

def callbackStep (s : CallbackState V E) : CallbackLabel V E → Option (CallbackState V E)
  | .future => some { s with futures := s.futures ++ [{}] }
  | .operate f op =>
    match s.futures[f]? with
    | none => none
    | some future =>
      let s : CallbackState V E := { s with futures := s.futures.set f (future.operate op).1 }
      some (if (future.operate op).2 then { s with calls := s.calls ++ [.dispatching f] } else s)
  | .addDoneCallback f =>
    match s.futures[f]? with
    | none => none
    | some future => some (s.addDoneCallback f future)
  | .dispatch i =>
    match s.calls[i]? with
    | some (.dispatching f) =>
      match s.futures[f]? with
      | none => none
      | some future => some (s.dispatchCallbacks i f future)
    | _ => none
  | .schedule i alive =>
    match s.calls[i]? with
    | some (.scheduling batch) => some (s.scheduleCallbacks i batch alive)
    | _ => none
  | .invoke i =>
    match s.calls[i]? with
    | some (.invoking ⟨f, k :: rest⟩) =>
      some { s with calls := s.calls.set i (.invoking ⟨f, rest⟩), invoked := s.invoked ++ [k] }
    | _ => none
  | .get =>
    match s.dispatcher, s.dispatchQueue with
    | .waiting, some batch :: rest =>
      some { s with dispatchQueue := rest, dispatcher := .acquiring batch }
    | .waiting, none :: rest => some { s with dispatchQueue := rest, dispatcher := .exited }
    | _, _ => none
  | .acquire =>
    match s.dispatcher with
    | .acquiring batch =>
      if s.slots = 0 then none
      else some { s with slots := s.slots - 1, dispatcher := .submitting batch }
    | _ => none
  | .submit =>
    match s.dispatcher with
    | .submitting batch => some (s.submit limits batch)
    | _ => none
  | .dispatcherInvoke =>
    match s.dispatcher with
    | .invoking ⟨f, k :: rest⟩ =>
      some { s with dispatcher := .invoking ⟨f, rest⟩, invoked := s.invoked ++ [k] }
    | .invoking ⟨_, []⟩ => some { s with dispatcher := .waiting }
    | _ => none
  | .start w =>
    match s.workers[w]?, s.executorQueue with
    | some ⟨_, []⟩, batch :: rest => some (s.start limits w batch rest)
    | _, _ => none
  | .workerInvoke w =>
    match s.workers[w]? with
    | some ⟨f, k :: rest⟩ =>
      some { s with workers := s.workers.set w ⟨f, rest⟩, invoked := s.invoked ++ [k] }
    | _ => none
  | .closeDispatch =>
    if s.dispatchClosed then none
    else some { s with dispatchClosed := true, dispatchQueue := s.dispatchQueue ++ [none] }
  | .shutdownExecutor => if s.dispatchClosed then some { s with executorShutdown := true } else none

/-- The futures of a client and their callbacks. -/
def callbackSystem (V E : Type) (limits : RemoteLimits) :
    System (CallbackState V E) (CallbackLabel V E) where
  init :=
    { slots := limits.callbackQueueSize
      workers := List.replicate limits.completionWorkers ⟨0, []⟩ }
  step := callbackStep limits

end System

/-! ## Where callbacks are -/

def Batch.part (batch : Batch) : List Batch := if batch.callbacks = [] then [] else [batch]

def Call.part : Call → List Batch
  | .dispatching _ => []
  | .scheduling batch | .invoking batch => batch.part

def queuedPart : Option Batch → List Batch
  | none => []
  | some batch => batch.part

def CallbackDispatcher.part : CallbackDispatcher → List Batch
  | .acquiring batch | .submitting batch | .invoking batch => batch.part
  | .waiting | .exited => []

section Delivery

variable {V E : Type} {limits : RemoteLimits} {s s' : CallbackState V E}

namespace CallbackState

/-- The callbacks that have left their futures and are still to be called. -/
def batches (s : CallbackState V E) : List Batch :=
  s.calls.flatMap Call.part ++ s.dispatchQueue.flatMap queuedPart ++ s.dispatcher.part ++
    s.executorQueue.flatMap Batch.part ++ s.workers.flatMap Batch.part

def doneAt (s : CallbackState V E) (f : Nat) : Prop :=
  ∃ future, s.futures[f]? = some future ∧ future.done = true

/-- Those of the callbacks that were registered before the future was done. -/
def early (s : CallbackState V E) (f : Nat) (callbacks : List Nat) : List Nat :=
  callbacks.filter fun k => s.registrations[k]? = some ⟨f, false⟩

/-- All of them, in order of registration. -/
def earlyOf (s : CallbackState V E) (f : Nat) : List Nat :=
  s.early f (List.range s.registrations.length)

end CallbackState

/-- What a step does to the callbacks. -/
inductive Change (s s' : CallbackState V E) : Prop
  | quiet : s'.futures = s.futures → s'.registrations = s.registrations →
      s'.invoked = s.invoked → s'.batches.Perm s.batches → Change s s'
  | future : s'.futures = s.futures ++ [({} : RemoteFuture V E)] → s'.registrations = s.registrations →
      s'.invoked = s.invoked → s'.batches.Perm s.batches → Change s s'
  | operate {f : Nat} {future : RemoteFuture V E} {op : Operation V E} :
      s.futures[f]? = some future → s'.futures = s.futures.set f (future.operate op).1 →
      s'.registrations = s.registrations → s'.invoked = s.invoked →
      s'.batches.Perm s.batches → Change s s'
  | register {f : Nat} {future : RemoteFuture V E} :
      s.futures[f]? = some future → future.done = false →
      s'.futures = s.futures.set f
        { future with remoteCallbacks := future.remoteCallbacks ++ [s.registrations.length] } →
      s'.registrations = s.registrations ++ [⟨f, false⟩] → s'.invoked = s.invoked →
      s'.batches.Perm s.batches → Change s s'
  | late {f : Nat} : s.doneAt f → s'.futures = s.futures →
      s'.registrations = s.registrations ++ [⟨f, true⟩] → s'.invoked = s.invoked →
      s'.batches.Perm (⟨f, [s.registrations.length]⟩ :: s.batches) → Change s s'
  | take {f : Nat} {future : RemoteFuture V E} :
      s.futures[f]? = some future → future.done = true →
      s'.futures = s.futures.set f { future with remoteCallbacks := [] } →
      s'.registrations = s.registrations → s'.invoked = s.invoked →
      s'.batches.Perm (Batch.part ⟨f, future.remoteCallbacks⟩ ++ s.batches) → Change s s'
  | invoke {f k : Nat} {callbacks : List Nat} {rest : List Batch} :
      s'.futures = s.futures → s'.registrations = s.registrations →
      s'.invoked = s.invoked ++ [k] → s.batches.Perm (⟨f, k :: callbacks⟩ :: rest) →
      s'.batches.Perm (Batch.part ⟨f, callbacks⟩ ++ rest) → Change s s'

/-- What holds of the callbacks in every reachable state. -/
structure Delivered (s : CallbackState V E) : Prop where
  consistent : ∀ future ∈ s.futures, future.Matches
  known : ∀ r ∈ s.registrations, r.future < s.futures.length
  /-- every callback is at one place -/
  once : ∀ k, (s.futures.flatMap RemoteFuture.remoteCallbacks).count k +
    (s.batches.flatMap Batch.callbacks).count k + s.invoked.count k =
      if k < s.registrations.length then 1 else 0
  listed : ∀ (f : Nat) (future : RemoteFuture V E), s.futures[f]? = some future → ∀ k ∈ future.remoteCallbacks,
    s.registrations[k]? = some ⟨f, false⟩
  held : ∀ batch ∈ s.batches, s.doneAt batch.future ∧
    ∀ k ∈ batch.callbacks, ∃ late, s.registrations[k]? = some ⟨batch.future, late⟩
  heldOrder : ∀ batch ∈ s.batches, s.early batch.future batch.callbacks ≠ [] →
    s.early batch.future s.invoked ++ s.early batch.future batch.callbacks = s.earlyOf batch.future
  listedOrder : ∀ (f : Nat) (future : RemoteFuture V E), s.futures[f]? = some future →
    (future.done = false ∨ future.remoteCallbacks ≠ []) →
    s.early f s.invoked ++ future.remoteCallbacks = s.earlyOf f
  order : ∀ f, s.early f s.invoked <+: s.earlyOf f

theorem Batch.mem_part {b batch : Batch} : b ∈ batch.part ↔ b = batch ∧ batch.callbacks ≠ [] := by
  unfold Batch.part
  split <;> simp_all

theorem Batch.count_part (batch : Batch) (k : Nat) :
    (batch.part.flatMap Batch.callbacks).count k = batch.callbacks.count k := by
  unfold Batch.part
  split
  · rename_i h
    rw [h]
    rfl
  · simp

section Early

variable {f : Nat} {callbacks : List Nat}

theorem early_congr (h : s'.registrations = s.registrations) :
    s'.early f callbacks = s.early f callbacks := by
  unfold CallbackState.early
  rw [h]

theorem earlyOf_congr (h : s'.registrations = s.registrations) : s'.earlyOf f = s.earlyOf f := by
  unfold CallbackState.earlyOf
  rw [early_congr h, h]

/-- A new registration changes nothing for the callbacks of the others. -/
theorem early_register {r : Registration} (h : s'.registrations = s.registrations ++ [r])
    (hlt : ∀ k ∈ callbacks, k < s.registrations.length) :
    s'.early f callbacks = s.early f callbacks := by
  apply List.filter_congr
  intro k hk
  rw [h, List.getElem?_append_left (hlt k hk)]

theorem earlyOf_register {r : Registration} (h : s'.registrations = s.registrations ++ [r]) :
    s'.earlyOf f = s.earlyOf f ++ if r = ⟨f, false⟩ then [s.registrations.length] else [] := by
  unfold CallbackState.earlyOf
  have hold : s'.early f (List.range s.registrations.length) =
      s.early f (List.range s.registrations.length) :=
    early_register h fun k hk => List.mem_range.mp hk
  have hlen : s'.registrations.length = s.registrations.length + 1 := by rw [h]; simp
  have hsplit : s'.early f (List.range s'.registrations.length) =
      s'.early f (List.range s.registrations.length) ++ s'.early f [s.registrations.length] := by
    rw [hlen, List.range_succ]
    exact List.filter_append ..
  rw [hsplit, hold]
  unfold CallbackState.early
  rw [h]
  split <;> simp_all

end Early

namespace Delivered

variable {f k : Nat} {future : RemoteFuture V E} {batch : Batch}

theorem lt_of_count (h : Delivered s)
    (hk : 0 < (s.futures.flatMap RemoteFuture.remoteCallbacks).count k +
      (s.batches.flatMap Batch.callbacks).count k + s.invoked.count k) :
    k < s.registrations.length := by
  have := h.once k
  split at this <;> omega

theorem lt_of_listed (h : Delivered s) (hf : s.futures[f]? = some future)
    (hk : k ∈ future.remoteCallbacks) : k < s.registrations.length := by
  exact lt_of_getElem? (h.listed f future hf k hk)

theorem lt_of_held (h : Delivered s) (hb : batch ∈ s.batches) (hk : k ∈ batch.callbacks) :
    k < s.registrations.length := by
  obtain ⟨late, hr⟩ := (h.held batch hb).2 k hk
  exact lt_of_getElem? hr

theorem lt_of_invoked (h : Delivered s) (hk : k ∈ s.invoked) : k < s.registrations.length := by
  apply h.lt_of_count
  have := List.count_pos_iff.mpr hk
  omega

/-- The callbacks of a future were all registered before it was done. -/
theorem early_listed (h : Delivered s) (hf : s.futures[f]? = some future) :
    s.early f future.remoteCallbacks = future.remoteCallbacks := by
  apply List.filter_eq_self.mpr
  intro k hk
  exact decide_eq_true (h.listed f future hf k hk)

/-- Nothing that the invariant reads of callbacks changes. -/
theorem same (h : Delivered s) (hfutures : s'.futures = s.futures)
    (hregistrations : s'.registrations = s.registrations) (hinvoked : s'.invoked = s.invoked)
    (hbatches : s'.batches.Perm s.batches) : Delivered s' where
  consistent := hfutures ▸ h.consistent
  known := by
    rw [hregistrations, hfutures]
    exact h.known
  once k := by
    rw [hfutures, hregistrations, hinvoked, (hbatches.flatMap_right _).count_eq]
    exact h.once k
  listed := by
    rw [hfutures, hregistrations]
    exact h.listed
  held batch hb := by
    unfold CallbackState.doneAt
    rw [hfutures, hregistrations]
    exact h.held batch (hbatches.mem_iff.mp hb)
  heldOrder batch hb := by
    rw [early_congr hregistrations, early_congr hregistrations, earlyOf_congr hregistrations, hinvoked]
    exact h.heldOrder batch (hbatches.mem_iff.mp hb)
  listedOrder f future hf := by
    rw [early_congr hregistrations, earlyOf_congr hregistrations, hinvoked]
    exact h.listedOrder f future (hfutures ▸ hf)
  order f := by
    rw [early_congr hregistrations, earlyOf_congr hregistrations, hinvoked]
    exact h.order f

/-- A lookup after one future was replaced. -/
theorem lookup_set {futures : List (RemoteFuture V E)} {future' x : RemoteFuture V E} {g : Nat}
    (hx : (futures.set f future')[g]? = some x) :
    g = f ∧ x = future' ∨ g ≠ f ∧ futures[g]? = some x := by
  rw [List.getElem?_set] at hx
  split at hx
  · rename_i he
    split at hx
    · exact .inl ⟨he.symm, (Option.some.inj hx).symm⟩
    · cases hx
  · rename_i he
    exact .inr ⟨Ne.symm he, hx⟩

theorem doneAt_set (future' : RemoteFuture V E) (hf : s.futures[f]? = some future)
    (hfutures : s'.futures = s.futures.set f future')
    (hdone : future.done = true → future'.done = true) {g : Nat} (h : s.doneAt g) : s'.doneAt g := by
  obtain ⟨x, hx, hd⟩ := h
  unfold CallbackState.doneAt
  rw [hfutures]
  by_cases he : f = g
  · subst he
    rw [hf] at hx
    cases hx
    exact ⟨future', by simp [lt_of_getElem? hf], hdone hd⟩
  · exact ⟨x, by rw [List.getElem?_set_ne he]; exact hx, hd⟩

theorem consistent_set {future' : RemoteFuture V E} (h : Delivered s)
    (hfutures : s'.futures = s.futures.set f future') (hmatches : future'.Matches) :
    ∀ x ∈ s'.futures, x.Matches := by
  intro x hx
  rw [hfutures] at hx
  rcases List.mem_or_eq_of_mem_set hx with hx | rfl
  · exact h.consistent x hx
  · exact hmatches

theorem operate (h : Delivered s) {op : Operation V E} (hf : s.futures[f]? = some future)
    (hfutures : s'.futures = s.futures.set f (future.operate op).1)
    (hregistrations : s'.registrations = s.registrations) (hinvoked : s'.invoked = s.invoked)
    (hbatches : s'.batches.Perm s.batches) : Delivered s' := by
  have hmatches := (h.consistent future (List.mem_of_getElem? hf)).operate op
  have hcallbacks : (future.operate op).1.remoteCallbacks = future.remoteCallbacks :=
    RemoteFuture.operate_remoteCallbacks op
  have hdone : future.done = true → (future.operate op).1.done = true := by
    intro hdone
    rw [RemoteFuture.operate_of_done hdone]
    exact hdone
  refine ⟨h.consistent_set hfutures hmatches.1, ?_, ?_, ?_, ?_, ?_, ?_, ?_⟩
  · rw [hregistrations, hfutures, List.length_set]
    exact h.known
  · intro k
    have hset := count_flatMap_set RemoteFuture.remoteCallbacks (future.operate op).1 hf k
    have := h.once k
    rw [hcallbacks] at hset
    rw [hfutures, hregistrations, hinvoked, (hbatches.flatMap_right _).count_eq]
    omega
  · intro g x hx
    rw [hregistrations]
    rcases lookup_set (hfutures ▸ hx) with ⟨rfl, rfl⟩ | ⟨-, hx⟩
    · rw [hcallbacks]
      exact h.listed g future hf
    · exact h.listed g x hx
  · intro batch hb
    rw [hregistrations]
    obtain ⟨hd, hr⟩ := h.held batch (hbatches.mem_iff.mp hb)
    exact ⟨doneAt_set _ hf hfutures hdone hd, hr⟩
  · intro batch hb
    rw [early_congr hregistrations, early_congr hregistrations, earlyOf_congr hregistrations, hinvoked]
    exact h.heldOrder batch (hbatches.mem_iff.mp hb)
  · intro g x hx hpending
    rw [early_congr hregistrations, earlyOf_congr hregistrations, hinvoked]
    rcases lookup_set (hfutures ▸ hx) with ⟨rfl, rfl⟩ | ⟨-, hx⟩
    · rw [hcallbacks] at hpending ⊢
      apply h.listedOrder g future hf
      rcases hpending with hpending | hpending
      · left
        cases hd : future.done with
        | false => rfl
        | true => rw [hdone hd] at hpending; cases hpending
      · exact .inr hpending
    · exact h.listedOrder g x hx hpending
  · intro g
    rw [early_congr hregistrations, earlyOf_congr hregistrations, hinvoked]
    exact h.order g

theorem new (h : Delivered s) (hfutures : s'.futures = s.futures ++ [({} : RemoteFuture V E)])
    (hregistrations : s'.registrations = s.registrations) (hinvoked : s'.invoked = s.invoked)
    (hbatches : s'.batches.Perm s.batches) : Delivered s' := by
  have hdone : ∀ g, s.doneAt g → s'.doneAt g := by
    rintro g ⟨x, hx, hd⟩
    exact ⟨x, hfutures ▸ getElem?_append_of_some hx, hd⟩
  refine ⟨?_, ?_, ?_, ?_, ?_, ?_, ?_, ?_⟩
  · intro x hx
    rw [hfutures] at hx
    rcases List.mem_append.mp hx with hx | hx
    · exact h.consistent x hx
    · rw [List.mem_singleton.mp hx]
      exact .init
  · intro r hr
    rw [hregistrations] at hr
    have := h.known r hr
    rw [hfutures, List.length_append]
    omega
  · intro k
    rw [hfutures, hregistrations, hinvoked, (hbatches.flatMap_right _).count_eq]
    simpa using h.once k
  · intro g x hx
    rw [hfutures] at hx
    rw [hregistrations]
    rcases getElem?_append_some hx with hx | ⟨-, rfl⟩
    · exact h.listed g x hx
    · intro k hk
      cases hk
  · intro batch hb
    rw [hregistrations]
    obtain ⟨hd, hr⟩ := h.held batch (hbatches.mem_iff.mp hb)
    exact ⟨hdone _ hd, hr⟩
  · intro batch hb
    rw [early_congr hregistrations, early_congr hregistrations, earlyOf_congr hregistrations, hinvoked]
    exact h.heldOrder batch (hbatches.mem_iff.mp hb)
  · intro g x hx hpending
    rw [early_congr hregistrations, earlyOf_congr hregistrations, hinvoked]
    rw [hfutures] at hx
    rcases getElem?_append_some hx with hx | ⟨rfl, rfl⟩
    · exact h.listedOrder g x hx hpending
    · -- nothing is registered on the new future
      have hnone : ∀ callbacks, s.early s.futures.length callbacks = [] := by
        intro callbacks
        apply List.filter_eq_nil_iff.mpr
        intro k _ hk
        have := h.known _ (List.mem_of_getElem? (of_decide_eq_true hk))
        exact absurd this (Nat.lt_irrefl _)
      unfold CallbackState.earlyOf
      rw [hnone, hnone]
      rfl
  · intro g
    rw [early_congr hregistrations, earlyOf_congr hregistrations, hinvoked]
    exact h.order g

/-- A callback is registered on a future that is not done. -/
theorem register (h : Delivered s) (hf : s.futures[f]? = some future) (hdone : future.done = false)
    (hfutures : s'.futures = s.futures.set f
      { future with remoteCallbacks := future.remoteCallbacks ++ [s.registrations.length] })
    (hregistrations : s'.registrations = s.registrations ++ [⟨f, false⟩])
    (hinvoked : s'.invoked = s.invoked) (hbatches : s'.batches.Perm s.batches) : Delivered s' := by
  have hmatches := h.consistent future (List.mem_of_getElem? hf)
  have hrange : ∀ g, s.earlyOf g <+: s'.earlyOf g := fun g => earlyOf_register hregistrations ▸
    List.prefix_append ..
  have hran : ∀ g, s'.early g s.invoked = s.early g s.invoked := fun g =>
    early_register hregistrations fun k hk => h.lt_of_invoked hk
  have hother : ∀ g, g ≠ f → s'.earlyOf g = s.earlyOf g := by
    intro g hg
    rw [earlyOf_register hregistrations, if_neg, List.append_nil]
    intro he
    exact hg (congrArg Registration.future he).symm
  -- no callback of the future has left it
  have hheld : ∀ batch ∈ s.batches, batch.future ≠ f := by
    intro batch hb he
    obtain ⟨x, hx, hd⟩ := (h.held batch hb).1
    rw [he, hf] at hx
    cases hx
    rw [hdone] at hd
    cases hd
  refine ⟨h.consistent_set hfutures hmatches, ?_, ?_, ?_, ?_, ?_, ?_, ?_⟩
  · intro r hr
    rw [hfutures, List.length_set]
    rw [hregistrations] at hr
    rcases List.mem_append.mp hr with hr | hr
    · exact h.known r hr
    · rw [List.mem_singleton.mp hr]
      exact lt_of_getElem? hf
  · intro k
    have hset := count_flatMap_set RemoteFuture.remoteCallbacks
      { future with remoteCallbacks := future.remoteCallbacks ++ [s.registrations.length] } hf k
    have := h.once k
    rw [hfutures, hregistrations, hinvoked, (hbatches.flatMap_right _).count_eq]
    simp only [List.count_append, List.count_singleton, List.length_append, List.length_singleton,
      beq_iff_eq] at hset ⊢
    split at hset <;> split at this <;> split <;> omega
  · intro g x hx k hk
    rw [hregistrations]
    rcases lookup_set (hfutures ▸ hx) with ⟨rfl, rfl⟩ | ⟨-, hx⟩
    · rcases List.mem_append.mp hk with hk | hk
      · exact getElem?_append_of_some (h.listed g future hf k hk)
      · rw [List.mem_singleton.mp hk]
        exact getElem?_append_length
    · exact getElem?_append_of_some (h.listed g x hx k hk)
  · intro batch hb
    obtain ⟨hd, hr⟩ := h.held batch (hbatches.mem_iff.mp hb)
    refine ⟨doneAt_set _ hf hfutures (fun hd => hd) hd, fun k hk => ?_⟩
    obtain ⟨late, hr⟩ := hr k hk
    rw [hregistrations]
    exact ⟨late, getElem?_append_of_some hr⟩
  · intro batch hb
    have hb := hbatches.mem_iff.mp hb
    rw [hinvoked, hran, early_register hregistrations fun k hk => h.lt_of_held hb hk,
      hother _ (hheld batch hb)]
    exact h.heldOrder batch hb
  · intro g x hx hpending
    rw [hinvoked, hran]
    rcases lookup_set (hfutures ▸ hx) with ⟨rfl, rfl⟩ | ⟨hne, hx⟩
    · rw [earlyOf_register hregistrations, if_pos rfl, ← h.listedOrder g future hf (.inl hdone),
        List.append_assoc]
    · rw [hother g hne]
      exact h.listedOrder g x hx hpending
  · intro g
    rw [hinvoked, hran]
    exact (h.order g).trans (hrange g)

/-- A callback is registered on a future that is done. -/
theorem late (h : Delivered s) (hdone : s.doneAt f) (hfutures : s'.futures = s.futures)
    (hregistrations : s'.registrations = s.registrations ++ [⟨f, true⟩])
    (hinvoked : s'.invoked = s.invoked)
    (hbatches : s'.batches.Perm (⟨f, [s.registrations.length]⟩ :: s.batches)) : Delivered s' := by
  have hran : ∀ g, s'.early g s.invoked = s.early g s.invoked := fun g =>
    early_register hregistrations fun k hk => h.lt_of_invoked hk
  have hrange : ∀ g, s'.earlyOf g = s.earlyOf g := by
    intro g
    rw [earlyOf_register hregistrations, if_neg (by simp), List.append_nil]
  refine ⟨hfutures ▸ h.consistent, ?_, ?_, ?_, ?_, ?_, ?_, ?_⟩
  · intro r hr
    rw [hfutures]
    rw [hregistrations] at hr
    rcases List.mem_append.mp hr with hr | hr
    · exact h.known r hr
    · obtain ⟨x, hx, -⟩ := hdone
      rw [List.mem_singleton.mp hr]
      exact lt_of_getElem? hx
  · intro k
    have := h.once k
    rw [hfutures, hregistrations, hinvoked, (hbatches.flatMap_right _).count_eq]
    simp only [List.flatMap_cons, List.count_append, List.count_singleton, List.length_append,
      List.length_singleton, beq_iff_eq]
    split at this <;> split <;> split <;> omega
  · intro g x hx k hk
    rw [hregistrations]
    exact getElem?_append_of_some (h.listed g x (hfutures ▸ hx) k hk)
  · intro batch hb
    unfold CallbackState.doneAt
    rw [hfutures, hregistrations]
    rcases List.mem_cons.mp (hbatches.mem_iff.mp hb) with rfl | hb
    · refine ⟨hdone, fun k hk => ⟨true, ?_⟩⟩
      rw [List.mem_singleton.mp hk]
      exact getElem?_append_length
    · obtain ⟨hd, hr⟩ := h.held batch hb
      refine ⟨hd, fun k hk => ?_⟩
      obtain ⟨late, hr⟩ := hr k hk
      exact ⟨late, getElem?_append_of_some hr⟩
  · intro batch hb
    rw [hinvoked, hran, hrange]
    rcases List.mem_cons.mp (hbatches.mem_iff.mp hb) with rfl | hb
    · intro hearly
      exfalso
      apply hearly
      apply List.filter_eq_nil_iff.mpr
      intro k hk
      rw [List.mem_singleton.mp hk, hregistrations, getElem?_append_length]
      simp
    · rw [early_register hregistrations fun k hk => h.lt_of_held hb hk]
      exact h.heldOrder batch hb
  · intro g x hx
    rw [hinvoked, hran, hrange]
    exact h.listedOrder g x (hfutures ▸ hx)
  · intro g
    rw [hinvoked, hran, hrange]
    exact h.order g

/-- The callbacks of a future that is done leave it as one batch. -/
theorem take (h : Delivered s) (hf : s.futures[f]? = some future) (hdone : future.done = true)
    (hfutures : s'.futures = s.futures.set f { future with remoteCallbacks := [] })
    (hregistrations : s'.registrations = s.registrations) (hinvoked : s'.invoked = s.invoked)
    (hbatches : s'.batches.Perm (Batch.part ⟨f, future.remoteCallbacks⟩ ++ s.batches)) :
    Delivered s' := by
  have hmatches := h.consistent future (List.mem_of_getElem? hf)
  refine ⟨h.consistent_set hfutures hmatches, ?_, ?_, ?_, ?_, ?_, ?_, ?_⟩
  · rw [hregistrations, hfutures, List.length_set]
    exact h.known
  · intro k
    have hset := count_flatMap_set RemoteFuture.remoteCallbacks
      { future with remoteCallbacks := [] } hf k
    have hpart : ((Batch.part ⟨f, future.remoteCallbacks⟩).flatMap Batch.callbacks).count k =
        future.remoteCallbacks.count k := Batch.count_part _ k
    have := h.once k
    rw [hfutures, hregistrations, hinvoked, (hbatches.flatMap_right _).count_eq, List.flatMap_append,
      List.count_append, hpart]
    simp only [List.count_nil] at hset
    omega
  · intro g x hx k hk
    rw [hregistrations]
    rcases lookup_set (hfutures ▸ hx) with ⟨rfl, rfl⟩ | ⟨-, hx⟩
    · cases hk
    · exact h.listed g x hx k hk
  · intro batch hb
    rw [hregistrations]
    rcases List.mem_append.mp (hbatches.mem_iff.mp hb) with hb | hb
    · obtain ⟨rfl, -⟩ := Batch.mem_part.mp hb
      exact ⟨doneAt_set _ hf hfutures (fun hd => hd) ⟨future, hf, hdone⟩, fun k hk =>
        ⟨false, h.listed f future hf k hk⟩⟩
    · obtain ⟨hd, hr⟩ := h.held batch hb
      exact ⟨doneAt_set _ hf hfutures (fun hd => hd) hd, hr⟩
  · intro batch hb
    rw [early_congr hregistrations, early_congr hregistrations, earlyOf_congr hregistrations, hinvoked]
    rcases List.mem_append.mp (hbatches.mem_iff.mp hb) with hb | hb
    · obtain ⟨rfl, hne⟩ := Batch.mem_part.mp hb
      intro _
      dsimp only
      rw [h.early_listed hf]
      exact h.listedOrder f future hf (.inr hne)
    · exact h.heldOrder batch hb
  · intro g x hx hpending
    rw [early_congr hregistrations, earlyOf_congr hregistrations, hinvoked]
    rcases lookup_set (hfutures ▸ hx) with ⟨rfl, rfl⟩ | ⟨-, hx⟩
    · exfalso
      rcases hpending with hpending | hpending
      · rw [show ({ future with remoteCallbacks := [] } : RemoteFuture V E).done = future.done from rfl,
          hdone] at hpending
        cases hpending
      · exact hpending rfl
    · exact h.listedOrder g x hx hpending
  · intro g
    rw [early_congr hregistrations, earlyOf_congr hregistrations, hinvoked]
    exact h.order g

section Invoke

variable {callbacks : List Nat} {rest : List Batch}

/-- The callback in front of a batch is nowhere else. -/
theorem front_unique (h : Delivered s) (hold : s.batches.Perm (⟨f, k :: callbacks⟩ :: rest)) :
    k ∉ callbacks ∧ (∀ batch ∈ rest, k ∉ batch.callbacks) ∧ k ∉ s.invoked ∧
      ∀ (g : Nat) (x : RemoteFuture V E), s.futures[g]? = some x → k ∉ x.remoteCallbacks := by
  have hcount := h.once k
  rw [(hold.flatMap_right _).count_eq, List.flatMap_cons, List.count_append, List.count_cons_self]
    at hcount
  have hle : (s.futures.flatMap RemoteFuture.remoteCallbacks).count k + callbacks.count k +
      (rest.flatMap Batch.callbacks).count k + s.invoked.count k = 0 := by
    split at hcount <;> omega
  refine ⟨?_, ?_, ?_, ?_⟩
  · apply List.count_eq_zero.mp
    omega
  · intro batch hb hk
    have : k ∉ rest.flatMap Batch.callbacks := List.count_eq_zero.mp (by omega)
    exact this (List.mem_flatMap.mpr ⟨batch, hb, hk⟩)
  · apply List.count_eq_zero.mp
    omega
  · intro g x hx hk
    have : k ∉ s.futures.flatMap RemoteFuture.remoteCallbacks := List.count_eq_zero.mp (by omega)
    exact this (List.mem_flatMap.mpr ⟨x, List.mem_of_getElem? hx, hk⟩)

/-- The callback in front of a batch is called. -/
theorem invoke (h : Delivered s) (hfutures : s'.futures = s.futures)
    (hregistrations : s'.registrations = s.registrations)
    (hinvoked : s'.invoked = s.invoked ++ [k])
    (hold : s.batches.Perm (⟨f, k :: callbacks⟩ :: rest))
    (hnew : s'.batches.Perm (Batch.part ⟨f, callbacks⟩ ++ rest)) : Delivered s' := by
  have hfront : ⟨f, k :: callbacks⟩ ∈ s.batches := hold.mem_iff.mpr List.mem_cons_self
  have hrest : ∀ batch ∈ rest, batch ∈ s.batches := fun batch hb =>
    hold.mem_iff.mpr (List.mem_cons_of_mem _ hb)
  obtain ⟨-, hunheld, -, hunlisted⟩ := h.front_unique hold
  obtain ⟨hd, hregistered⟩ := h.held _ hfront
  obtain ⟨late, hk⟩ := hregistered k List.mem_cons_self
  have hran : ∀ g, s'.early g s'.invoked = s.early g s.invoked ++ s.early g [k] := by
    intro g
    rw [early_congr hregistrations, hinvoked]
    exact List.filter_append ..
  have hsplit : ∀ g, s.early g (k :: callbacks) = s.early g [k] ++ s.early g callbacks := fun g =>
    List.filter_append [k] callbacks
  have hforeign : ∀ g, g ≠ f → s.early g [k] = [] := by
    intro g hg
    apply List.filter_eq_nil_iff.mpr
    intro k' hk' he
    rw [List.mem_singleton.mp hk'] at he
    have := of_decide_eq_true he
    rw [hk] at this
    exact hg (congrArg Registration.future (Option.some.inj this)).symm
  -- when the callback was registered early, it is the next one
  have hnext : s.early f [k] ≠ [] →
      s.early f s.invoked ++ (s.early f [k] ++ s.early f callbacks) = s.earlyOf f := by
    intro hne
    rw [← hsplit]
    apply h.heldOrder _ hfront
    dsimp only
    rw [hsplit]
    intro he
    exact hne (List.append_eq_nil_iff.mp he).1
  have hmem : s.early f [k] ≠ [] → k ∈ s.early f [k] := by
    intro hne
    obtain ⟨j, hj⟩ := List.exists_mem_of_ne_nil _ hne
    have he := List.mem_singleton.mp (List.mem_filter.mp hj).1
    exact he ▸ hj
  refine ⟨hfutures ▸ h.consistent, ?_, ?_, ?_, ?_, ?_, ?_, ?_⟩
  · rw [hregistrations, hfutures]
    exact h.known
  · intro j
    have hpart : ((Batch.part ⟨f, callbacks⟩).flatMap Batch.callbacks).count j = callbacks.count j :=
      Batch.count_part _ j
    have hcount := h.once j
    rw [(hold.flatMap_right _).count_eq, List.flatMap_cons, List.count_append] at hcount
    rw [hfutures, hregistrations, hinvoked, (hnew.flatMap_right _).count_eq, List.flatMap_append,
      List.count_append, List.count_append, hpart]
    simp only [List.count_cons, List.count_nil] at hcount ⊢
    omega
  · rw [hfutures, hregistrations]
    exact h.listed
  · intro batch hb
    unfold CallbackState.doneAt
    rw [hfutures, hregistrations]
    rcases List.mem_append.mp (hnew.mem_iff.mp hb) with hb | hb
    · obtain ⟨rfl, -⟩ := Batch.mem_part.mp hb
      exact ⟨hd, fun j hj => hregistered j (List.mem_cons_of_mem _ hj)⟩
    · exact h.held batch (hrest batch hb)
  · intro batch hb
    rw [hran, early_congr hregistrations, earlyOf_congr hregistrations]
    rcases List.mem_append.mp (hnew.mem_iff.mp hb) with hb | hb
    · obtain ⟨rfl, -⟩ := Batch.mem_part.mp hb
      dsimp only
      intro hne
      rw [List.append_assoc, ← hsplit]
      apply h.heldOrder _ hfront
      dsimp only
      rw [hsplit]
      intro he
      exact hne (List.append_eq_nil_iff.mp he).2
    · intro hne
      have hold := h.heldOrder batch (hrest batch hb) hne
      by_cases hempty : s.early batch.future [k] = []
      · rw [hempty, List.append_nil]
        exact hold
      · exfalso
        have he : batch.future = f := by
          by_contra hg
          exact hempty (hforeign _ hg)
        rw [he] at hold hempty
        have heq := List.append_cancel_left (hold.trans (hnext hempty).symm)
        have hk : k ∈ s.early f batch.callbacks := by
          rw [heq]
          exact List.mem_append_left _ (hmem hempty)
        exact hunheld batch hb (List.mem_filter.mp hk).1
  · intro g x hx hpending
    rw [hran, earlyOf_congr hregistrations]
    have hx : s.futures[g]? = some x := hfutures ▸ hx
    have horder := h.listedOrder g x hx hpending
    by_cases hempty : s.early g [k] = []
    · rw [hempty, List.append_nil]
      exact horder
    · exfalso
      have he : g = f := by
        by_contra hg
        exact hempty (hforeign _ hg)
      subst he
      have heq := List.append_cancel_left (horder.trans (hnext hempty).symm)
      have hk : k ∈ x.remoteCallbacks := by
        rw [heq]
        exact List.mem_append_left _ (hmem hempty)
      exact hunlisted g x hx hk
  · intro g
    rw [hran, earlyOf_congr hregistrations]
    by_cases hempty : s.early g [k] = []
    · rw [hempty, List.append_nil]
      exact h.order g
    · have he : g = f := by
        by_contra hg
        exact hempty (hforeign _ hg)
      subst he
      rw [← hnext hempty, ← List.append_assoc]
      exact List.prefix_append ..

end Invoke

theorem change (h : Delivered s) (hc : Change s s') : Delivered s' := by
  cases hc with
  | quiet hfutures hregistrations hinvoked hbatches =>
    exact h.same hfutures hregistrations hinvoked hbatches
  | future hfutures hregistrations hinvoked hbatches =>
    exact h.new hfutures hregistrations hinvoked hbatches
  | operate hf hfutures hregistrations hinvoked hbatches =>
    exact h.operate hf hfutures hregistrations hinvoked hbatches
  | register hf hdone hfutures hregistrations hinvoked hbatches =>
    exact h.register hf hdone hfutures hregistrations hinvoked hbatches
  | late hdone hfutures hregistrations hinvoked hbatches =>
    exact h.late hdone hfutures hregistrations hinvoked hbatches
  | take hf hdone hfutures hregistrations hinvoked hbatches =>
    exact h.take hf hdone hfutures hregistrations hinvoked hbatches
  | invoke hfutures hregistrations hinvoked hold hnew =>
    exact h.invoke hfutures hregistrations hinvoked hold hnew

end Delivered

/-! ## Steps -/

/-- A slot is taken and not yet given on. -/
def CallbackDispatcher.slot : CallbackDispatcher → Nat
  | .submitting _ => 1
  | _ => 0

theorem mem_set_of_ne {α : Type} {l : List α} {i : Nat} {a x b : α} (ha : a ∈ l)
    (hi : l[i]? = some x) (hne : a ≠ x) : a ∈ l.set i b := by
  obtain ⟨j, hj⟩ := List.mem_iff_getElem?.mp ha
  apply List.mem_of_getElem? (i := j)
  rw [List.getElem?_set_ne, hj]
  rintro rfl
  rw [hi] at hj
  exact hne (Option.some.inj hj).symm

theorem map_some_filterMap {α : Type} {l : List (Option α)} (h : none ∉ l) :
    (l.filterMap id).map some = l := by
  induction l with
  | nil => rfl
  | cons a l ih =>
    cases a with
    | none => exact absurd List.mem_cons_self h
    | some a =>
      have htail := ih fun hm => h (List.mem_cons_of_mem _ hm)
      exact congrArg (some a :: ·) htail

/-- What holds of the threads in every reachable state. -/
structure Working (limits : RemoteLimits) (s : CallbackState V E) : Prop where
  dispatching : ∀ f, Call.dispatching f ∈ s.calls → s.doneAt f
  undispatched : ∀ (f : Nat) (future : RemoteFuture V E), s.futures[f]? = some future →
    future.done = true → future.remoteCallbacks ≠ [] → Call.dispatching f ∈ s.calls
  scheduling : ∀ batch, Call.scheduling batch ∈ s.calls → batch.callbacks ≠ []
  queued : ∀ batch, some batch ∈ s.dispatchQueue → batch.callbacks ≠ []
  dispatcher : ∀ batch, s.dispatcher = .acquiring batch ∨ s.dispatcher = .submitting batch →
    batch.callbacks ≠ []
  executor : ∀ batch ∈ s.executorQueue, batch.callbacks ≠ []
  slots : s.slots + s.executorQueue.length + s.dispatcher.slot = limits.callbackQueueSize
  running : s.dispatchClosed = false →
    s.executorShutdown = false ∧ s.dispatcher ≠ .exited ∧ none ∉ s.dispatchQueue
  closed : s.dispatchClosed = true → s.dispatcher = .exited ∧ s.dispatchQueue = [] ∨
    s.dispatcher ≠ .exited ∧ ∃ batches : List Batch, s.dispatchQueue = batches.map some ++ [none]
  workers : s.workers.length = limits.completionWorkers

theorem Batch.part_of_ne {batch : Batch} (h : batch.callbacks ≠ []) : batch.part = [batch] :=
  if_neg h

theorem Batch.part_nil {f : Nat} : Batch.part ⟨f, []⟩ = [] := rfl

theorem Batch.part_cons {f k : Nat} {callbacks : List Nat} :
    Batch.part ⟨f, k :: callbacks⟩ = [⟨f, k :: callbacks⟩] := rfl

/-- One batch loses the callback in front. -/
theorem Change.of_count (f : Nat) {k : Nat} (callbacks : List Nat) (hfutures : s'.futures = s.futures)
    (hregistrations : s'.registrations = s.registrations)
    (hinvoked : s'.invoked = s.invoked ++ [k])
    (hcount : ∀ b, s'.batches.count b + (Batch.part ⟨f, k :: callbacks⟩).count b =
      s.batches.count b + (Batch.part ⟨f, callbacks⟩).count b) : Change s s' := by
  have hmem : ⟨f, k :: callbacks⟩ ∈ s.batches := by
    have hother : (Batch.part ⟨f, callbacks⟩).count ⟨f, k :: callbacks⟩ = 0 := by
      apply List.count_eq_zero.mpr
      intro hb
      have := congrArg Batch.callbacks (Batch.mem_part.mp hb).1
      simp at this
    have := hcount ⟨f, k :: callbacks⟩
    rw [hother, Batch.part_cons, List.count_singleton_self] at this
    exact List.count_pos_iff.mp (by omega)
  refine .invoke hfutures hregistrations hinvoked (List.perm_cons_erase hmem) ?_
  apply List.perm_iff_count.mpr
  intro b
  have hold := (List.perm_cons_erase hmem).count_eq b
  have := hcount b
  rw [Batch.part_cons, List.count_singleton] at this
  rw [List.count_cons] at hold
  rw [List.count_append]
  omega

namespace Working

/-- The executor's thread finds its semaphore below the bound. -/
theorem release_start (h : Working limits s) {batch : Batch} {rest : List Batch}
    (hqueue : s.executorQueue = batch :: rest) :
    s.release limits = some { s with slots := s.slots + 1 } := by
  have := h.slots
  rw [hqueue, List.length_cons] at this
  exact if_pos (by omega)

/-- So does the dispatcher. -/
theorem release_submit (h : Working limits s) {batch : Batch} (hd : s.dispatcher = .submitting batch) :
    s.release limits = some { s with slots := s.slots + 1 } := by
  have := h.slots
  rw [hd, CallbackDispatcher.slot] at this
  exact if_pos (by omega)

/-- A step changes the callbacks in one of the ways of `Change`. -/
theorem change (h : Working limits s) {l : CallbackLabel V E}
    (hstep : callbackStep limits s l = some s') : Change s s' := by
  cases l with
  | future =>
    cases hstep
    exact .future rfl rfl rfl (.refl _)
  | operate f op =>
    simp only [callbackStep] at hstep
    split at hstep
    · cases hstep
    · rename_i future hf
      cases hstep
      split
      · refine .operate hf rfl rfl rfl ?_
        simp [CallbackState.batches, Call.part]
      · exact .operate hf rfl rfl rfl (.refl _)
  | addDoneCallback f =>
    simp only [callbackStep] at hstep
    split at hstep
    · cases hstep
    · rename_i future hf
      cases hstep
      unfold CallbackState.addDoneCallback
      cases hdone : future.done with
      | true =>
        refine .late ⟨future, hf, hdone⟩ rfl rfl rfl ?_
        apply List.perm_iff_count.mpr
        intro b
        simp only [if_true, CallbackState.batches, List.flatMap_append, List.flatMap_cons, List.flatMap_nil,
          Call.part, Batch.part_cons, List.count_append, List.count_cons, List.count_nil]
        omega
      | false => exact .register hf hdone rfl rfl rfl (.refl _)
  | dispatch i =>
    simp only [callbackStep] at hstep
    split at hstep
    · rename_i f hi
      split at hstep
      · cases hstep
      · rename_i future hf
        cases hstep
        obtain ⟨future', hf', hdone⟩ := h.dispatching f (List.mem_of_getElem? hi)
        rw [hf] at hf'
        cases hf'
        refine .take hf hdone rfl rfl rfl ?_
        apply List.perm_iff_count.mpr
        intro b
        have hset := count_flatMap_set Call.part (if future.remoteCallbacks = [] then .invoking ⟨f, []⟩
          else .scheduling ⟨f, future.remoteCallbacks⟩) hi b
        have hpart : Call.part (if future.remoteCallbacks = [] then .invoking ⟨f, []⟩
            else .scheduling ⟨f, future.remoteCallbacks⟩) = Batch.part ⟨f, future.remoteCallbacks⟩ := by
          split
          · rename_i hempty
            rw [hempty]
            rfl
          · rfl
        rw [hpart] at hset
        simp only [CallbackState.dispatchCallbacks, CallbackState.batches, Call.part, List.count_append,
          List.count_nil] at hset ⊢
        omega
    · cases hstep
  | schedule i alive =>
    simp only [callbackStep] at hstep
    split at hstep
    · rename_i batch hi
      cases hstep
      unfold CallbackState.scheduleCallbacks
      split
      · refine .quiet rfl rfl rfl ?_
        apply List.perm_iff_count.mpr
        intro b
        have hset := count_flatMap_set Call.part (.invoking ⟨batch.future, []⟩) hi b
        simp only [CallbackState.batches, Call.part, Batch.part_nil, queuedPart, List.flatMap_append,
          List.flatMap_cons, List.flatMap_nil, List.count_append, List.count_nil] at hset ⊢
        omega
      · refine .quiet rfl rfl rfl ?_
        apply List.perm_iff_count.mpr
        intro b
        have hset := count_flatMap_set Call.part (.invoking batch) hi b
        simp only [CallbackState.batches, Call.part, List.count_append] at hset ⊢
        omega
    · cases hstep
  | invoke i =>
    simp only [callbackStep] at hstep
    split at hstep
    · rename_i f k rest hi
      cases hstep
      refine .of_count f rest rfl rfl rfl fun b => ?_
      have hset := count_flatMap_set Call.part (.invoking ⟨f, rest⟩) hi b
      simp only [CallbackState.batches, Call.part, List.count_append] at hset ⊢
      omega
    · cases hstep
  | get =>
    simp only [callbackStep] at hstep
    split at hstep
    · rename_i batch rest hd hq
      cases hstep
      refine .quiet rfl rfl rfl ?_
      apply List.perm_iff_count.mpr
      intro b
      simp only [CallbackState.batches, hd, hq, CallbackDispatcher.part, queuedPart, List.flatMap_cons,
        List.count_append, List.count_nil]
      omega
    · rename_i rest hd hq
      cases hstep
      refine .quiet rfl rfl rfl ?_
      simp [CallbackState.batches, hd, hq, CallbackDispatcher.part, queuedPart]
    · cases hstep
  | acquire =>
    simp only [callbackStep] at hstep
    split at hstep
    · rename_i batch hd
      split at hstep
      · cases hstep
      · cases hstep
        refine .quiet rfl rfl rfl ?_
        simp [CallbackState.batches, hd, CallbackDispatcher.part]
    · cases hstep
  | submit =>
    simp only [callbackStep] at hstep
    split at hstep
    · rename_i batch hd
      cases hstep
      unfold CallbackState.submit
      split
      · rw [h.release_submit hd]
        refine .quiet rfl rfl rfl ?_
        simp [CallbackState.batches, hd, CallbackDispatcher.part]
      · refine .quiet rfl rfl rfl ?_
        apply List.perm_iff_count.mpr
        intro b
        simp only [CallbackState.batches, hd, CallbackDispatcher.part, List.flatMap_append,
          List.flatMap_cons, List.flatMap_nil, List.count_append, List.count_nil]
        omega
    · cases hstep
  | dispatcherInvoke =>
    simp only [callbackStep] at hstep
    split at hstep
    · rename_i f k rest hd
      cases hstep
      refine .of_count f rest rfl rfl rfl fun b => ?_
      simp only [CallbackState.batches, hd, CallbackDispatcher.part, List.count_append]
      omega
    · rename_i f hd
      cases hstep
      refine .quiet rfl rfl rfl ?_
      simp [CallbackState.batches, hd, CallbackDispatcher.part, Batch.part_nil]
    · cases hstep
  | start w =>
    simp only [callbackStep] at hstep
    split at hstep
    · rename_i f batch rest hw hq
      cases hstep
      unfold CallbackState.start
      rw [h.release_start hq]
      refine .quiet rfl rfl rfl ?_
      apply List.perm_iff_count.mpr
      intro b
      have hset := count_flatMap_set Batch.part batch hw b
      simp only [CallbackState.batches, hq, Batch.part_nil, List.flatMap_cons, List.count_append,
        List.count_nil] at hset ⊢
      omega
    · cases hstep
  | workerInvoke w =>
    simp only [callbackStep] at hstep
    split at hstep
    · rename_i f k rest hw
      cases hstep
      refine .of_count f rest rfl rfl rfl fun b => ?_
      have hset := count_flatMap_set Batch.part ⟨f, rest⟩ hw b
      simp only [CallbackState.batches, List.count_append] at hset ⊢
      omega
    · cases hstep
  | closeDispatch =>
    simp only [callbackStep] at hstep
    split at hstep
    · cases hstep
    · cases hstep
      refine .quiet rfl rfl rfl ?_
      simp [CallbackState.batches, queuedPart]
  | shutdownExecutor =>
    simp only [callbackStep] at hstep
    split at hstep
    · cases hstep
      exact .quiet rfl rfl rfl (.refl _)
    · cases hstep

/-- A future that is done stays so. -/
theorem doneAt_change {g : Nat} (hc : Change s s') (h : s.doneAt g) : s'.doneAt g := by
  obtain ⟨x, hx, hd⟩ := h
  cases hc with
  | quiet hfutures | late _ hfutures | invoke hfutures => exact ⟨x, hfutures ▸ hx, hd⟩
  | future hfutures => exact ⟨x, hfutures ▸ getElem?_append_of_some hx, hd⟩
  | operate hf hfutures =>
    refine Delivered.doneAt_set _ hf hfutures (fun hdone => ?_) ⟨x, hx, hd⟩
    rw [RemoteFuture.operate_of_done hdone]
    exact hdone
  | register hf _ hfutures | take hf _ hfutures =>
    exact Delivered.doneAt_set _ hf hfutures (fun hdone => hdone) ⟨x, hx, hd⟩

theorem init (limits : RemoteLimits) : Working limits (callbackSystem V E limits).init where
  dispatching _ hf := nomatch hf
  undispatched _ _ hf := nomatch hf
  scheduling _ hb := nomatch hb
  queued _ hb := nomatch hb
  dispatcher _ hb := by rcases hb with hb | hb <;> cases hb
  executor _ hb := nomatch hb
  slots := rfl
  running _ := ⟨rfl, nofun, nofun⟩
  closed hc := nomatch hc
  workers := List.length_replicate

/-- A thread of a caller that is not about to dispatch moves on. -/
theorem setInvoking (h : Working limits s) (batch : Batch) {i : Nat} {c : Call}
    (hi : s.calls[i]? = some c) (hc : ∀ f, c ≠ .dispatching f) :
    (∀ f, Call.dispatching f ∈ s.calls.set i (.invoking batch) → s.doneAt f) ∧
    (∀ (f : Nat) (future : RemoteFuture V E), s.futures[f]? = some future → future.done = true →
      future.remoteCallbacks ≠ [] → Call.dispatching f ∈ s.calls.set i (.invoking batch)) ∧
    ∀ b, Call.scheduling b ∈ s.calls.set i (.invoking batch) → b.callbacks ≠ [] := by
  refine ⟨?_, ?_, ?_⟩
  · intro f hf
    rcases List.mem_or_eq_of_mem_set hf with hf | hf
    · exact h.dispatching f hf
    · cases hf
  · intro f future hf hdone hne
    exact mem_set_of_ne (h.undispatched f future hf hdone hne) hi (Ne.symm (hc f))
  · intro b hb
    rcases List.mem_or_eq_of_mem_set hb with hb | hb
    · exact h.scheduling b hb
    · cases hb

/-- The dispatcher moves on and its queue stays. -/
theorem runningOf (h : Working limits s) {d : CallbackDispatcher} (hd : d ≠ .exited) :
    s.dispatchClosed = false → s.executorShutdown = false ∧ d ≠ .exited ∧ none ∉ s.dispatchQueue := by
  intro hc
  obtain ⟨hexecutor, -, hnone⟩ := h.running hc
  exact ⟨hexecutor, hd, hnone⟩

theorem closedOf (h : Working limits s) {d : CallbackDispatcher} (hold : s.dispatcher ≠ .exited)
    (hd : d ≠ .exited) : s.dispatchClosed = true → d = .exited ∧ s.dispatchQueue = [] ∨
      d ≠ .exited ∧ ∃ batches : List Batch, s.dispatchQueue = batches.map some ++ [none] := by
  intro hc
  rcases h.closed hc with ⟨hexited, -⟩ | ⟨-, hbatches⟩
  · exact absurd hexited hold
  · exact .inr ⟨hd, hbatches⟩

theorem step (h : Working limits s) (hd : Delivered s) {l : CallbackLabel V E}
    (hstep : callbackStep limits s l = some s') : Working limits s' := by
  have hdoneAt : ∀ g, s.doneAt g → s'.doneAt g := fun g => doneAt_change (h.change hstep)
  cases l with
  | future =>
    cases hstep
    refine { h with dispatching := fun f hf => hdoneAt f (h.dispatching f hf), undispatched := ?_ }
    intro f future hf hdone hne
    rcases getElem?_append_some hf with hf | ⟨-, rfl⟩
    · exact h.undispatched f future hf hdone hne
    · cases hdone
  | operate f op =>
    simp only [callbackStep] at hstep
    split at hstep
    · cases hstep
    · rename_i future hf
      have hdispatches := ((hd.consistent future (List.mem_of_getElem? hf)).operate op).2
      have hkept : future.done = true → (future.operate op).1.done = true := by
        intro hdone
        rw [RemoteFuture.operate_of_done hdone]
        exact hdone
      have hset : ∀ (g : Nat) (x : RemoteFuture V E),
          (s.futures.set f (future.operate op).1)[g]? = some x → x.done = true →
          x.remoteCallbacks ≠ [] → Call.dispatching g ∈ s.calls ∨ g = f ∧ (future.operate op).2 = true := by
        intro g x hx hdone hne
        rcases Delivered.lookup_set hx with ⟨rfl, rfl⟩ | ⟨-, hx⟩
        · cases hold : future.done with
          | false => exact .inr ⟨rfl, hdispatches.mpr ⟨hold, hdone⟩⟩
          | true =>
            rw [RemoteFuture.operate_remoteCallbacks] at hne
            exact .inl (h.undispatched g future hf hold hne)
        · exact .inl (h.undispatched g x hx hdone hne)
      cases hstep
      split
      · rename_i hdispatch
        refine { h with dispatching := ?_, undispatched := ?_, scheduling := ?_ }
        · intro g hg
          rcases List.mem_append.mp hg with hg | hg
          · exact Delivered.doneAt_set _ hf rfl hkept (h.dispatching g hg)
          · cases List.mem_singleton.mp hg
            exact ⟨_, by simp [lt_of_getElem? hf], (hdispatches.mp hdispatch).2⟩
        · intro g x hx hdone hne
          rcases hset g x hx hdone hne with hg | ⟨rfl, -⟩
          · exact List.mem_append_left _ hg
          · exact List.mem_append_right _ (List.mem_singleton_self _)
        · intro batch hb
          rcases List.mem_append.mp hb with hb | hb
          · exact h.scheduling batch hb
          · cases List.mem_singleton.mp hb
      · rename_i hdispatch
        refine { h with dispatching := ?_, undispatched := ?_ }
        · intro g hg
          exact Delivered.doneAt_set _ hf rfl hkept (h.dispatching g hg)
        · intro g x hx hdone hne
          rcases hset g x hx hdone hne with hg | ⟨-, hd'⟩
          · exact hg
          · exact absurd hd' hdispatch
  | addDoneCallback f =>
    simp only [callbackStep] at hstep
    split at hstep
    · cases hstep
    · rename_i future hf
      cases hstep
      unfold CallbackState.addDoneCallback
      cases hdone : future.done with
      | true =>
        refine { h with dispatching := ?_, undispatched := ?_, scheduling := ?_ }
        · intro g hg
          rcases List.mem_append.mp hg with hg | hg
          · exact h.dispatching g hg
          · cases List.mem_singleton.mp hg
        · intro g x hx hdone hne
          exact List.mem_append_left _ (h.undispatched g x hx hdone hne)
        · intro batch hb
          rcases List.mem_append.mp hb with hb | hb
          · exact h.scheduling batch hb
          · cases List.mem_singleton.mp hb
      | false =>
        simp only [Bool.false_eq_true, if_false]
        refine { h with dispatching := ?_, undispatched := ?_ }
        · intro g hg
          refine Delivered.doneAt_set _ hf rfl (fun hdone => ?_) (h.dispatching g hg)
          exact hdone
        · intro g x hx hx' hne
          rcases Delivered.lookup_set hx with ⟨rfl, rfl⟩ | ⟨-, hx⟩
          · rw [show ({ future with remoteCallbacks := future.remoteCallbacks ++
              [s.registrations.length] } : RemoteFuture V E).done = future.done from rfl, hdone] at hx'
            cases hx'
          · exact h.undispatched g x hx hx' hne
  | dispatch i =>
    simp only [callbackStep] at hstep
    split at hstep
    · rename_i f hi
      split at hstep
      · cases hstep
      · rename_i future hf
        cases hstep
        refine { h with dispatching := ?_, undispatched := ?_, scheduling := ?_ }
        · intro g hg
          rcases List.mem_or_eq_of_mem_set hg with hg | hg
          · exact Delivered.doneAt_set { future with remoteCallbacks := [] } hf rfl
              (fun hdone => hdone) (h.dispatching g hg)
          · split at hg <;> cases hg
        · intro g x hx hdone hne
          rcases Delivered.lookup_set hx with ⟨rfl, rfl⟩ | ⟨hgf, hx⟩
          · exact absurd rfl hne
          · apply mem_set_of_ne (h.undispatched g x hx hdone hne) hi
            intro he
            exact hgf (Call.dispatching.inj he)
        · intro batch hb
          rcases List.mem_or_eq_of_mem_set hb with hb | hb
          · exact h.scheduling batch hb
          · split at hb
            · cases hb
            · rename_i hne
              cases hb
              exact hne
    · cases hstep
  | schedule i alive =>
    simp only [callbackStep] at hstep
    split at hstep
    · rename_i batch hi
      have hne : batch.callbacks ≠ [] := h.scheduling batch (List.mem_of_getElem? hi)
      cases hstep
      unfold CallbackState.scheduleCallbacks
      split
      · rename_i hopen
        obtain ⟨hdispatching, hundispatched, hscheduling⟩ := h.setInvoking ⟨batch.future, []⟩ hi nofun
        refine { h with
          dispatching := hdispatching, undispatched := hundispatched, scheduling := hscheduling
          queued := ?_, running := ?_, closed := ?_ }
        · intro b hb
          rcases List.mem_append.mp hb with hb | hb
          · exact h.queued b hb
          · cases List.mem_singleton.mp hb
            exact hne
        · intro hc
          obtain ⟨hexecutor, hexited, hnone⟩ := h.running hc
          refine ⟨hexecutor, hexited, fun hm => ?_⟩
          rcases List.mem_append.mp hm with hm | hm
          · exact hnone hm
          · cases List.mem_singleton.mp hm
        · intro hc
          rw [hopen.2] at hc
          cases hc
      · obtain ⟨hdispatching, hundispatched, hscheduling⟩ := h.setInvoking batch hi nofun
        exact { h with
          dispatching := hdispatching, undispatched := hundispatched, scheduling := hscheduling }
    · cases hstep
  | invoke i =>
    simp only [callbackStep] at hstep
    split at hstep
    · rename_i f k rest hi
      cases hstep
      obtain ⟨hdispatching, hundispatched, hscheduling⟩ := h.setInvoking ⟨f, rest⟩ hi nofun
      exact { h with
        dispatching := hdispatching, undispatched := hundispatched, scheduling := hscheduling }
    · cases hstep
  | get =>
    simp only [callbackStep] at hstep
    split at hstep
    · rename_i batch rest hw hq
      have hslots := h.slots
      cases hstep
      refine { h with queued := ?_, dispatcher := ?_, slots := ?_, running := ?_, closed := ?_ }
      · intro b hb
        exact h.queued b (hq ▸ List.mem_cons_of_mem _ hb)
      · rintro b (hb | hb)
        · cases hb
          exact h.queued batch (hq ▸ List.mem_cons_self)
        · cases hb
      · rw [hw] at hslots
        exact hslots
      · intro hc
        obtain ⟨hexecutor, -, hnone⟩ := h.running hc
        exact ⟨hexecutor, nofun, fun hm => hnone (hq ▸ List.mem_cons_of_mem _ hm)⟩
      · intro hc
        right
        rcases h.closed hc with ⟨hexited, -⟩ | ⟨-, bs, hbs⟩
        · rw [hw] at hexited
          cases hexited
        · refine ⟨nofun, ?_⟩
          rw [hq] at hbs
          cases bs with
          | nil => cases hbs
          | cons b bs => exact ⟨bs, (List.cons.inj hbs).2⟩
    · rename_i rest hw hq
      have hslots := h.slots
      cases hstep
      refine { h with queued := ?_, dispatcher := ?_, slots := ?_, running := ?_, closed := ?_ }
      · intro b hb
        exact h.queued b (hq ▸ List.mem_cons_of_mem _ hb)
      · rintro b (hb | hb) <;> cases hb
      · rw [hw] at hslots
        exact hslots
      · intro hc
        exact absurd (hq ▸ List.mem_cons_self) (h.running hc).2.2
      · intro hc
        left
        rcases h.closed hc with ⟨-, hempty⟩ | ⟨-, bs, hbs⟩
        · rw [hq] at hempty
          cases hempty
        · refine ⟨rfl, ?_⟩
          rw [hq] at hbs
          cases bs with
          | nil => exact (List.cons.inj hbs).2
          | cons b bs => cases hbs
    · cases hstep
  | acquire =>
    simp only [callbackStep] at hstep
    split at hstep
    · rename_i batch hw
      have hslots := h.slots
      split at hstep
      · cases hstep
      · cases hstep
        rw [hw] at hslots
        refine { h with dispatcher := ?_, slots := ?_, running := ?_, closed := ?_ }
        · rintro b (hb | hb)
          · cases hb
          · cases hb
            exact h.dispatcher batch (.inl hw)
        · simp only [CallbackDispatcher.slot] at hslots ⊢
          omega
        · exact h.runningOf nofun
        · exact h.closedOf (by rw [hw]; nofun) nofun
    · cases hstep
  | submit =>
    simp only [callbackStep] at hstep
    split at hstep
    · rename_i batch hw
      have hslots := h.slots
      have hrelease := h.release_submit hw
      have hne : batch.callbacks ≠ [] := h.dispatcher batch (.inr hw)
      rw [hw] at hslots
      cases hstep
      unfold CallbackState.submit
      split
      · rw [hrelease]
        refine { h with dispatcher := ?_, slots := ?_, running := ?_, closed := ?_ }
        · rintro b (hb | hb) <;> cases hb
        · simp only [CallbackDispatcher.slot] at hslots ⊢
          omega
        · exact h.runningOf nofun
        · exact h.closedOf (by rw [hw]; nofun) nofun
      · refine { h with dispatcher := ?_, executor := ?_, slots := ?_, running := ?_, closed := ?_ }
        · rintro b (hb | hb) <;> cases hb
        · intro b hb
          rcases List.mem_append.mp hb with hb | hb
          · exact h.executor b hb
          · rw [List.mem_singleton.mp hb]
            exact hne
        · simp only [CallbackDispatcher.slot, List.length_append, List.length_singleton] at hslots ⊢
          omega
        · exact h.runningOf nofun
        · exact h.closedOf (by rw [hw]; nofun) nofun
    · cases hstep
  | dispatcherInvoke =>
    simp only [callbackStep] at hstep
    split at hstep
    · rename_i f k rest hw
      have hslots := h.slots
      rw [hw] at hslots
      cases hstep
      refine { h with dispatcher := ?_, slots := hslots, running := ?_, closed := ?_ }
      · rintro b (hb | hb) <;> cases hb
      · exact h.runningOf nofun
      · exact h.closedOf (by rw [hw]; nofun) nofun
    · rename_i f hw
      have hslots := h.slots
      rw [hw] at hslots
      cases hstep
      refine { h with dispatcher := ?_, slots := hslots, running := ?_, closed := ?_ }
      · rintro b (hb | hb) <;> cases hb
      · exact h.runningOf nofun
      · exact h.closedOf (by rw [hw]; nofun) nofun
    · cases hstep
  | start w =>
    simp only [callbackStep] at hstep
    split at hstep
    · rename_i f batch rest hw hq
      have hslots := h.slots
      have hrelease := h.release_start hq
      rw [hq] at hslots
      cases hstep
      unfold CallbackState.start
      rw [hrelease]
      refine { h with executor := ?_, slots := ?_, workers := ?_ }
      · intro b hb
        exact h.executor b (hq ▸ List.mem_cons_of_mem _ hb)
      · simp only [List.length_cons] at hslots ⊢
        omega
      · rw [List.length_set]
        exact h.workers
    · cases hstep
  | workerInvoke w =>
    simp only [callbackStep] at hstep
    split at hstep
    · cases hstep
      refine { h with workers := ?_ }
      rw [List.length_set]
      exact h.workers
    · cases hstep
  | closeDispatch =>
    simp only [callbackStep] at hstep
    split at hstep
    · cases hstep
    · rename_i hopen
      have hopen : s.dispatchClosed = false := by simpa using hopen
      obtain ⟨-, hexited, hnone⟩ := h.running hopen
      cases hstep
      refine { h with queued := ?_, running := nofun, closed := ?_ }
      · intro b hb
        rcases List.mem_append.mp hb with hb | hb
        · exact h.queued b hb
        · cases List.mem_singleton.mp hb
      · intro _
        refine .inr ⟨hexited, s.dispatchQueue.filterMap id, ?_⟩
        rw [map_some_filterMap hnone]
  | shutdownExecutor =>
    simp only [callbackStep] at hstep
    split at hstep
    · rename_i hc
      cases hstep
      refine { h with running := ?_ }
      intro hopen
      rw [hc] at hopen
      cases hopen
    · cases hstep

end Working

/-! ## Progress -/

/-- The steps that only bring callbacks forward. -/
def CallbackLabel.internal : CallbackLabel V E → Bool
  | .dispatch _ | .schedule _ _ | .invoke _ | .get | .acquire | .submit | .dispatcherInvoke
  | .start _ | .workerInvoke _ => true
  | .future | .operate _ _ | .addDoneCallback _ | .closeDispatch | .shutdownExecutor => false

def Call.work : Call → Nat
  | .dispatching _ => 1
  | .scheduling batch => 8 * batch.callbacks.length
  | .invoking batch => batch.callbacks.length

def queuedWork : Option Batch → Nat
  | none => 1
  | some batch => 7 * batch.callbacks.length

def CallbackDispatcher.work : CallbackDispatcher → Nat
  | .acquiring batch => 6 * batch.callbacks.length
  | .submitting batch => 5 * batch.callbacks.length
  | .invoking batch => batch.callbacks.length + 1
  | .waiting | .exited => 0

/-- A bound on the steps that bring callbacks forward. -/
def CallbackState.work (s : CallbackState V E) : Nat :=
  (s.futures.map fun future => 9 * future.remoteCallbacks.length).sum + (s.calls.map Call.work).sum +
    (s.dispatchQueue.map queuedWork).sum + s.dispatcher.work +
    (s.executorQueue.map fun batch => 3 * batch.callbacks.length).sum +
    (s.workers.map fun batch => batch.callbacks.length).sum

namespace Working

theorem work_lt (h : Working limits s) {l : CallbackLabel V E} (hl : l.internal = true)
    (hstep : callbackStep limits s l = some s') : s'.work < s.work := by
  have hpos : ∀ {batch : Batch}, batch.callbacks ≠ [] → 0 < batch.callbacks.length :=
    List.length_pos_of_ne_nil
  cases l with
  | future | operate | addDoneCallback | closeDispatch | shutdownExecutor => cases hl
  | dispatch i =>
    simp only [callbackStep] at hstep
    split at hstep
    · rename_i f hi
      split at hstep
      · cases hstep
      · rename_i future hf
        cases hstep
        have hcalls := sum_map_set Call.work (if future.remoteCallbacks = [] then .invoking ⟨f, []⟩
          else .scheduling ⟨f, future.remoteCallbacks⟩) hi
        have hfutures := sum_map_set (fun future => 9 * future.remoteCallbacks.length)
          { future with remoteCallbacks := [] } hf
        have hwork : Call.work (if future.remoteCallbacks = [] then .invoking ⟨f, []⟩
            else .scheduling ⟨f, future.remoteCallbacks⟩) = 8 * future.remoteCallbacks.length := by
          split
          · rename_i hempty
            rw [hempty]
            rfl
          · rfl
        rw [hwork] at hcalls
        simp only [CallbackState.work, CallbackState.dispatchCallbacks, Call.work, List.length_nil]
          at hcalls hfutures ⊢
        omega
    · cases hstep
  | schedule i alive =>
    simp only [callbackStep] at hstep
    split at hstep
    · rename_i batch hi
      have hne := hpos (h.scheduling batch (List.mem_of_getElem? hi))
      cases hstep
      unfold CallbackState.scheduleCallbacks
      split
      · have hcalls := sum_map_set Call.work (.invoking ⟨batch.future, []⟩) hi
        simp only [CallbackState.work, Call.work, queuedWork, List.length_nil, List.map_append,
          List.map_cons, List.map_nil, List.sum_append, List.sum_cons, List.sum_nil] at hcalls ⊢
        omega
      · have hcalls := sum_map_set Call.work (.invoking batch) hi
        simp only [CallbackState.work, Call.work] at hcalls ⊢
        omega
    · cases hstep
  | invoke i =>
    simp only [callbackStep] at hstep
    split at hstep
    · rename_i f k rest hi
      cases hstep
      have hcalls := sum_map_set Call.work (.invoking ⟨f, rest⟩) hi
      simp only [CallbackState.work, Call.work, List.length_cons] at hcalls ⊢
      omega
    · cases hstep
  | get =>
    simp only [callbackStep] at hstep
    split at hstep
    · rename_i batch rest hw hq
      have hne := hpos (h.queued batch (hq ▸ List.mem_cons_self))
      cases hstep
      simp only [CallbackState.work, hw, hq, CallbackDispatcher.work, queuedWork, List.map_cons,
        List.sum_cons]
      omega
    · rename_i rest hw hq
      cases hstep
      simp only [CallbackState.work, hw, hq, CallbackDispatcher.work, queuedWork, List.map_cons,
        List.sum_cons]
      omega
    · cases hstep
  | acquire =>
    simp only [callbackStep] at hstep
    split at hstep
    · rename_i batch hw
      have hne := hpos (h.dispatcher batch (.inl hw))
      split at hstep
      · cases hstep
      · cases hstep
        simp only [CallbackState.work, hw, CallbackDispatcher.work]
        omega
    · cases hstep
  | submit =>
    simp only [callbackStep] at hstep
    split at hstep
    · rename_i batch hw
      have hne := hpos (h.dispatcher batch (.inr hw))
      have hrelease := h.release_submit hw
      cases hstep
      unfold CallbackState.submit
      split
      · rw [hrelease]
        simp only [CallbackState.work, hw, CallbackDispatcher.work]
        omega
      · simp only [CallbackState.work, hw, CallbackDispatcher.work, List.map_append, List.map_cons,
          List.map_nil, List.sum_append, List.sum_cons, List.sum_nil]
        omega
    · cases hstep
  | dispatcherInvoke =>
    simp only [callbackStep] at hstep
    split at hstep
    · rename_i f k rest hw
      cases hstep
      simp only [CallbackState.work, hw, CallbackDispatcher.work, List.length_cons]
      omega
    · rename_i f hw
      cases hstep
      simp only [CallbackState.work, hw, CallbackDispatcher.work]
      omega
    · cases hstep
  | start w =>
    simp only [callbackStep] at hstep
    split at hstep
    · rename_i f batch rest hw hq
      have hne := hpos (h.executor batch (hq ▸ List.mem_cons_self))
      have hrelease := h.release_start hq
      cases hstep
      unfold CallbackState.start
      rw [hrelease]
      have hworkers := sum_map_set (fun batch => batch.callbacks.length) batch hw
      simp only [CallbackState.work, hq, List.map_cons, List.sum_cons, List.length_nil] at hworkers ⊢
      omega
    · cases hstep
  | workerInvoke w =>
    simp only [callbackStep] at hstep
    split at hstep
    · rename_i f k rest hw
      cases hstep
      have hworkers := sum_map_set (fun batch => batch.callbacks.length) ⟨f, rest⟩ hw
      simp only [CallbackState.work, List.length_cons] at hworkers ⊢
      omega
    · cases hstep

/-- When no such step is left, no callback of a future that is done is left either. -/
theorem quiescent (h : Working limits s) (hlimits : limits.Accepted)
    (hquiet : ∀ l : CallbackLabel V E, l.internal = true → callbackStep limits s l = none) :
    s.batches = [] ∧ ∀ (f : Nat) (future : RemoteFuture V E), s.futures[f]? = some future →
      future.done = true → future.remoteCallbacks = [] := by
  have hdispatching : ∀ f, Call.dispatching f ∉ s.calls := by
    intro f hf
    obtain ⟨i, hi⟩ := List.mem_iff_getElem?.mp hf
    obtain ⟨future, hfuture, -⟩ := h.dispatching f hf
    have := hquiet (.dispatch i) rfl
    simp [callbackStep, hi, hfuture] at this
  have hcalls : s.calls.flatMap Call.part = [] := by
    apply List.flatMap_eq_nil_iff.mpr
    intro c hc
    obtain ⟨i, hi⟩ := List.mem_iff_getElem?.mp hc
    cases c with
    | dispatching f => rfl
    | scheduling batch =>
      have := hquiet (.schedule i true) rfl
      simp [callbackStep, hi] at this
    | invoking batch =>
      obtain ⟨f, callbacks⟩ := batch
      cases callbacks with
      | nil => rfl
      | cons k rest =>
        have := hquiet (.invoke i) rfl
        simp [callbackStep, hi] at this
  have hidle : ∀ batch ∈ s.workers, batch.callbacks = [] := by
    intro batch hb
    obtain ⟨w, hw⟩ := List.mem_iff_getElem?.mp hb
    obtain ⟨f, callbacks⟩ := batch
    cases callbacks with
    | nil => rfl
    | cons k rest =>
      have := hquiet (.workerInvoke w) rfl
      simp [callbackStep, hw] at this
  have hworkers : s.workers.flatMap Batch.part = [] := by
    apply List.flatMap_eq_nil_iff.mpr
    intro batch hb
    exact if_pos (hidle batch hb)
  have hexecutor : s.executorQueue = [] := by
    cases hq : s.executorQueue with
    | nil => rfl
    | cons batch rest =>
      have hlen : 0 < s.workers.length := h.workers ▸ hlimits.callbacks.2
      obtain ⟨⟨f, callbacks⟩, hw⟩ : ∃ batch, s.workers[0]? = some batch :=
        ⟨_, List.getElem?_eq_getElem hlen⟩
      have hempty : callbacks = [] := hidle _ (List.mem_of_getElem? hw)
      subst hempty
      have := hquiet (.start 0) rfl
      simp [callbackStep, hw, hq] at this
  have hdispatcher : s.dispatcher = .waiting ∨ s.dispatcher = .exited := by
    cases hd : s.dispatcher with
    | waiting => exact .inl rfl
    | exited => exact .inr rfl
    | acquiring batch =>
      exfalso
      have hslots := h.slots
      have hsize := hlimits.callbacks.1
      rw [hexecutor, hd] at hslots
      simp only [CallbackDispatcher.slot, List.length_nil] at hslots
      have hfree : s.slots ≠ 0 := by omega
      have := hquiet .acquire rfl
      simp [callbackStep, hd, hfree] at this
    | submitting batch =>
      have := hquiet .submit rfl
      simp [callbackStep, hd] at this
    | invoking batch =>
      have := hquiet .dispatcherInvoke rfl
      obtain ⟨f, callbacks⟩ := batch
      cases callbacks <;> simp [callbackStep, hd] at this
  have hqueue : s.dispatchQueue = [] := by
    rcases hdispatcher with hd | hd
    · cases hq : s.dispatchQueue with
      | nil => rfl
      | cons item rest =>
        have := hquiet .get rfl
        cases item <;> simp [callbackStep, hd, hq] at this
    · cases hc : s.dispatchClosed with
      | false => exact absurd hd (h.running hc).2.1
      | true =>
        rcases h.closed hc with ⟨-, hempty⟩ | ⟨hne, -⟩
        · exact hempty
        · exact absurd hd hne
  refine ⟨?_, ?_⟩
  · unfold CallbackState.batches
    rw [hcalls, hqueue, hexecutor, hworkers]
    rcases hdispatcher with hd | hd <;> rw [hd] <;> rfl
  · intro f future hf hdone
    by_contra hne
    exact hdispatching f (h.undispatched f future hf hdone hne)

end Working

/-! ## Runs -/

theorem Delivered.init (limits : RemoteLimits) : Delivered (callbackSystem V E limits).init := by
  have hbatches : (callbackSystem V E limits).init.batches = [] := by
    unfold CallbackState.batches
    have hworkers : (callbackSystem V E limits).init.workers.flatMap Batch.part = [] := by
      apply List.flatMap_eq_nil_iff.mpr
      intro batch hb
      rw [List.eq_of_mem_replicate hb]
      rfl
    rw [hworkers]
    rfl
  refine ⟨nofun, nofun, ?_, nofun, ?_, ?_, nofun, ?_⟩
  · intro k
    rw [hbatches]
    rfl
  · intro batch hb
    rw [hbatches] at hb
    cases hb
  · intro batch hb
    rw [hbatches] at hb
    cases hb
  · intro f
    exact List.prefix_rfl

theorem reachable_delivered (h : (callbackSystem V E limits).Reachable s) :
    Working limits s ∧ Delivered s := by
  refine h.invariant (I := fun s => Working limits s ∧ Delivered s)
    ⟨.init limits, .init limits⟩ fun s l s' _ hs _ hstep => ?_
  exact ⟨hs.1.step hs.2 hstep, hs.2.change (hs.1.change hstep)⟩

/-- The future ends as the other did. -/
structure RemoteFuture.SameEnd (future future' : RemoteFuture V E) : Prop where
  submissionState : future'.submissionState = future.submissionState
  base : future'.base = future.base
  pid : future'.pid = future.pid
  workerId : future'.workerId = future.workerId

theorem Change.done {f : Nat} {future : RemoteFuture V E} (hc : Change s s')
    (hf : s.futures[f]? = some future) (hdone : future.done = true) :
    ∃ future', s'.futures[f]? = some future' ∧ future.SameEnd future' := by
  have hset : ∀ (g : Nat) (x y : RemoteFuture V E), s.futures[g]? = some x → x.SameEnd y ∨ g ≠ f →
      ∃ future', (s.futures.set g y)[f]? = some future' ∧ future.SameEnd future' := by
    intro g x y hx hy
    by_cases hg : g = f
    · subst hg
      rw [hf] at hx
      cases hx
      refine ⟨y, by simp [lt_of_getElem? hf], ?_⟩
      rcases hy with hy | hy
      · exact hy
      · exact absurd rfl hy
    · exact ⟨future, by rw [List.getElem?_set_ne hg]; exact hf, ⟨rfl, rfl, rfl, rfl⟩⟩
  cases hc with
  | quiet hfutures | late _ hfutures | invoke hfutures =>
    exact ⟨future, hfutures ▸ hf, ⟨rfl, rfl, rfl, rfl⟩⟩
  | future hfutures => exact ⟨future, hfutures ▸ getElem?_append_of_some hf, ⟨rfl, rfl, rfl, rfl⟩⟩
  | @operate g x op hx hfutures =>
    rw [hfutures]
    apply hset g x _ hx
    by_cases hg : g = f
    · subst hg
      rw [hf] at hx
      cases hx
      rw [RemoteFuture.operate_of_done hdone]
      exact .inl ⟨rfl, rfl, rfl, rfl⟩
    · exact .inr hg
  | register hx _ hfutures =>
    rw [hfutures]
    exact hset _ _ _ hx (.inl ⟨rfl, rfl, rfl, rfl⟩)
  | take hx _ hfutures =>
    rw [hfutures]
    exact hset _ _ _ hx (.inl ⟨rfl, rfl, rfl, rfl⟩)

theorem run_done {f : Nat} (h : (callbackSystem V E limits).Reachable s) :
    ∀ (ls : List (CallbackLabel V E)) {future : RemoteFuture V E},
      s.futures[f]? = some future → future.done = true →
      (callbackSystem V E limits).run s ls = some s' →
      ∃ future', s'.futures[f]? = some future' ∧ future.SameEnd future' := by
  intro ls
  induction ls generalizing s with
  | nil =>
    intro future hf _ hrun
    cases hrun
    exact ⟨future, hf, ⟨rfl, rfl, rfl, rfl⟩⟩
  | cons l ls ih =>
    intro future hf hdone hrun
    obtain ⟨x, hx, hrun⟩ := Option.bind_eq_some_iff.mp hrun
    obtain ⟨future', hf', hsame⟩ := ((reachable_delivered h).1.change hx).done hf hdone
    have hdone' : future'.done = true := by
      unfold RemoteFuture.done
      rw [hsame.base]
      exact hdone
    obtain ⟨future'', hf'', hsame'⟩ := ih (.step h trivial hx) hf' hdone' hrun
    exact ⟨future'', hf'', ⟨hsame'.submissionState.trans hsame.submissionState,
      hsame'.base.trans hsame.base, hsame'.pid.trans hsame.pid,
      hsame'.workerId.trans hsame.workerId⟩⟩

/-- A run of steps that bring callbacks forward is bounded. -/
theorem run_work (h : (callbackSystem V E limits).Reachable s) :
    ∀ (ls : List (CallbackLabel V E)), (∀ l ∈ ls, l.internal = true) →
      (callbackSystem V E limits).run s ls = some s' → ls.length + s'.work ≤ s.work := by
  intro ls
  induction ls generalizing s with
  | nil =>
    intro _ hrun
    cases hrun
    simp
  | cons l ls ih =>
    intro hls hrun
    obtain ⟨x, hx, hrun⟩ := Option.bind_eq_some_iff.mp hrun
    have hlt := (reachable_delivered h).1.work_lt (hls l List.mem_cons_self) hx
    have := ih (.step h trivial hx) (fun l hl => hls l (List.mem_cons_of_mem _ hl)) hrun
    rw [List.length_cons]
    omega

/-- A callback is called in a step before which its future was done. -/
theorem Change.invoked {k : Nat} (hc : Change s s') (h : Delivered s) (hk : k ∉ s.invoked)
    (hk' : k ∈ s'.invoked) : ∃ r, s.registrations[k]? = some r ∧ s.doneAt r.future := by
  cases hc with
  | quiet _ _ hinvoked | future _ _ hinvoked | operate _ _ _ hinvoked | register _ _ _ _ hinvoked
  | late _ _ _ hinvoked | take _ _ _ _ hinvoked => exact absurd (hinvoked ▸ hk') hk
  | invoke _ _ hinvoked hold =>
    rw [hinvoked] at hk'
    rcases List.mem_append.mp hk' with hk' | hk'
    · exact absurd hk' hk
    · cases List.mem_singleton.mp hk'
      obtain ⟨hd, hr⟩ := h.held _ (hold.mem_iff.mpr List.mem_cons_self)
      obtain ⟨late, hr⟩ := hr k List.mem_cons_self
      exact ⟨_, hr, hd⟩

end Delivery

/-- **Futures and their callbacks.**  In every reachable state the submission state of a future and
its standard part belong together, and a future that is done keeps its end whatever follows.  Every
callback is called at most once and in a step before which its future was done; those registered
before that are called in the order of registration.  The steps that only bring callbacks forward end
after a bounded number, and then every callback of a future that is done has been called. -/
theorem callbacks_once {V E : Type} {limits : RemoteLimits} (hlimits : limits.Accepted)
    {s : CallbackState V E} (h : (callbackSystem V E limits).Reachable s) :
    (∀ future ∈ s.futures, future.done = future.submissionState.terminal ∧ future.Matches) ∧
    (∀ (f : Nat) (future : RemoteFuture V E), s.futures[f]? = some future → future.done = true →
      ∀ (ls : List (CallbackLabel V E)) (s' : CallbackState V E),
        (callbackSystem V E limits).run s ls = some s' →
        ∃ future', s'.futures[f]? = some future' ∧ future.SameEnd future') ∧
    (∀ k, s.invoked.count k ≤ 1) ∧
    (∀ (l : CallbackLabel V E) (s' : CallbackState V E) (k : Nat),
      callbackStep limits s l = some s' → k ∉ s.invoked → k ∈ s'.invoked →
        ∃ r, s.registrations[k]? = some r ∧ s.doneAt r.future) ∧
    (∀ f, s.early f s.invoked <+: s.earlyOf f) ∧
    ∀ (ls : List (CallbackLabel V E)) (s' : CallbackState V E), (∀ l ∈ ls, l.internal = true) →
      (callbackSystem V E limits).run s ls = some s' → ls.length ≤ s.work ∧
        ((∀ l : CallbackLabel V E, l.internal = true → callbackStep limits s' l = none) →
          ∀ (k : Nat) (r : Registration), s'.registrations[k]? = some r → s'.doneAt r.future →
            s'.invoked.count k = 1) := by
  obtain ⟨hworking, hdelivered⟩ := reachable_delivered h
  refine ⟨?_, ?_, ?_, ?_, hdelivered.order, ?_⟩
  · intro future hf
    exact ⟨(hdelivered.consistent future hf).done_iff, hdelivered.consistent future hf⟩
  · intro f future hf hdone ls s' hrun
    exact run_done h ls hf hdone hrun
  · intro k
    have := hdelivered.once k
    split at this <;> omega
  · intro l s' k hstep
    exact (hworking.change hstep).invoked hdelivered
  · intro ls s' hls hrun
    refine ⟨by have := run_work h ls hls hrun; omega, ?_⟩
    intro hquiet k r hr hdone
    obtain ⟨hworking', hdelivered'⟩ := reachable_delivered (h.of_run hrun)
    obtain ⟨hbatches, hfutures⟩ := hworking'.quiescent hlimits hquiet
    -- the callback is at no other place
    have honce := hdelivered'.once k
    have hunlisted : k ∉ s'.futures.flatMap RemoteFuture.remoteCallbacks := by
      intro hk
      obtain ⟨future, hf, hk⟩ := List.mem_flatMap.mp hk
      obtain ⟨f, hf⟩ := List.mem_iff_getElem?.mp hf
      have hlisted := hdelivered'.listed f future hf k hk
      rw [hr] at hlisted
      cases hlisted
      obtain ⟨future', hf', hd⟩ := hdone
      rw [hf] at hf'
      cases hf'
      rw [hfutures f future hf hd] at hk
      cases hk
    rw [if_pos (lt_of_getElem? hr), hbatches, List.count_eq_zero.mpr hunlisted] at honce
    simpa using honce

/-- Two callbacks go through the dispatcher and the executor, one is registered late, and a later
completion changes nothing. -/
def calledRun : List (CallbackLabel Nat Nat) :=
  [.future, .addDoneCallback 0, .addDoneCallback 0, .operate 0 .setSent, .operate 0 (.setResult 7),
    .addDoneCallback 0, .dispatch 0, .schedule 0 true, .invoke 1, .operate 0 (.setException 1 true), .get,
    .closeDispatch, .acquire, .submit, .shutdownExecutor, .start 0, .workerInvoke 0, .workerInvoke 0]

theorem callbacks_once_calledRun : ∃ s,
    (callbackSystem Nat Nat {}).run (callbackSystem Nat Nat {}).init calledRun = some s ∧
      s.invoked = [2, 0, 1] ∧ (∀ k, s.invoked.count k ≤ 1) ∧
      ∀ future ∈ s.futures, future.done = future.submissionState.terminal ∧ future.Matches := by
  have hrun : (((callbackSystem Nat Nat {}).run (callbackSystem Nat Nat {}).init calledRun).map
      CallbackState.invoked) = some [2, 0, 1] := by decide +kernel
  obtain ⟨s, hrun, hinvoked⟩ := Option.map_eq_some_iff.mp hrun
  have hlimits : RemoteLimits.Accepted {} := by decide +kernel
  have hs := callbacks_once hlimits (System.reachable_of_run hrun)
  exact ⟨s, hrun, hinvoked, hs.2.2.1, hs.1⟩

end Deadpool.Remote.Client
