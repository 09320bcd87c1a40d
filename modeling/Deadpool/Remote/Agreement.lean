import Deadpool.Remote.Goodbye

/-!
# What the end of a future says about the server

The result of a future is the one that the server has enqueued for its request, and a future that was
cancelled on the spot stands for a request that the server never accepts.

Principal results: `results_committed`, `withdrawn_unaccepted`.
-/

set_option autoImplicit false

namespace Deadpool.Remote

open Deadpool.Py Deadpool.Lts

namespace Client

variable {V X : Type}

/-- Only an operation with this result leaves it. -/
theorem Operation.leaves_result {E : Type} {op : Operation V E} {v : V}
    (h : op.leaves.result = some v) : op = .setResult v := by
  cases op with
  | setResult =>
    cases h
    rfl
  | _ => cases h

/-- Only a `RESULT` leads to a result, which is what its payload holds. -/
theorem completion_result {rt : Runtime V X} {requestId : Str} {m : Message} {v : V}
    (h : rt.completion requestId m = .setResult v) : m.kind = .result ∧ rt.loads m.payload = .ok v := by
  unfold Runtime.completion at h
  dsimp only at h
  split at h
  · rename_i hkind
    split at h
    · rename_i hload
      cases h
      exact ⟨hkind, hload⟩
    · cases h
    · cases h
  all_goals cases h

end Client

section Results

variable {V X : Type} (cfg : Client.Config V X) (scfg : Broker.Config) (c : Nat) {s t : Link V X}
  {ls : List (Link.Label X)}

/-- **A result is the one that the server has enqueued.**  If a future has a result, then, at that time and
in every continuation, the client has heard a `RESULT` for it that holds the result, and the server has
ended the request of the future with `RESULT`. -/
theorem results_committed (h : (link cfg scfg c).Reachable s) {f : Nat} {handle : Client.Handle V X}
    (hf : s.client.client.handles[f]? = some handle) {v : V} (hresult : handle.future.base.result = some v)
    (hrun : (link cfg scfg c).run s ls = some t) :
    ∃ m, t.Committed cfg c f m ∧ m.kind = .result ∧ cfg.runtime.loads m.payload = .ok v := by
  have hlinked := Link.reachable_linked h
  rcases (Client.Endpoint.reachable_explained hlinked.client).ends f handle hf with
    hempty | ⟨op, hcause, hbase⟩
  · rw [hempty] at hresult
    cases hresult
  rw [hbase] at hresult
  have hop := Client.Operation.leaves_result hresult
  cases hcause with
  | withdrawn | decided | rejected | lost => cases hop
  | completed m htold hterminal =>
    obtain ⟨hkind, hload⟩ := Client.completion_result hop
    refine ⟨m, ?_, hkind, hload⟩
    have htold' : t.client.Told cfg f m := Link.run_client (I := fun e => e.Told cfg f m)
      (fun _ _ _ hreach htold hs => htold.later (Client.Endpoint.step_advance hreach hs)) h htold hrun
    exact (Link.reachable_linked (h.of_run hrun)).committed htold' hterminal

/-- **What was cancelled on the spot is never accepted.**  If `cancel` has cancelled a future whose message
was not begun, then, at that time and in every continuation, the server has no record of its request, and
the future stays cancelled. -/
theorem withdrawn_unaccepted (h : (link cfg scfg c).Reachable s) {f : Nat}
    (hf : f ∈ s.client.client.localCancels) (hrun : (link cfg scfg c).run s ls = some t) :
    ¬ t.Accepted c (t.client.client.idOf cfg f) ∧ ∃ handle, t.client.client.handles[f]? = some handle ∧
      handle.future.submissionState = .cancelled := by
  have hlinked := Link.reachable_linked (h.of_run hrun)
  have hlocal : f ∈ t.client.client.localCancels := by
    refine Link.run_client (I := fun e => f ∈ e.client.localCancels) ?_ h hf hrun
    intro e l e' hreach hlocal hs
    rcases Client.State.localCancels_move (Client.Endpoint.step_advance hreach hs).move with
      hsame | ⟨_, _, _, _, _, hmore, _⟩
    · rw [hsame]
      exact hlocal
    · rw [hmore]
      exact List.mem_append_left _ hlocal
  have hregistered := Client.State.reachable_registered (Client.reachable_client hlinked.client)
  obtain ⟨handle, hhandle, -, hstate⟩ := hregistered.withdrawn.cancelled f hlocal
  exact ⟨hlinked.unaccepted_of_withdrawn (lt_of_getElem? hhandle) hlocal, handle, hhandle, hstate⟩

end Results

/-! ## Runs -/

namespace Link

/-- The first request runs, and the client hears its result. -/
def answerFirst : List (Label Unit) :=
  connectFirst ++ submitFirst ++
    (Broker.stageNext ++ [⟨.claim 0 77 Broker.early, []⟩, ⟨.finish 0 (.worker .result [7] .empty), []⟩,
      ⟨.notify 0, []⟩] : List Broker.Label).map .server ++
    hearNext ++ completeNext ++ [.client .lane] ++ hearNext ++ completeNext ++ [.client .lane] ++
    hearNext ++ completeNext

/-- The first future is cancelled while its message is in the queue. -/
def withdrawFirst : List (Label Unit) :=
  connectFirst ++
    ([.submit .callable {}, .serialized 0 (.ok []), .proceed 0, .proceed 0, .put 0 true, .cancel 0] :
      List (Client.Label Unit)).map .client

/-- The sender takes the message of a future that is done. -/
def skipFirst : List (Label Unit) := List.replicate 3 (.client .sender)

end Link

theorem results_committed_answerFirst : ∃ s m,
    Link.sampleLink.run Link.sampleLink.init Link.answerFirst = some s ∧
      s.Committed (Client.crampedClient 2) 0 0 m ∧ m.kind = .result := by
  have hrun : ((Link.sampleLink.run Link.sampleLink.init Link.answerFirst).bind fun s =>
      s.client.client.handles[0]?.bind fun handle => handle.future.base.result) = some () := by
    decide +kernel
  obtain ⟨s, hrun, hhandle⟩ := Option.bind_eq_some_iff.mp hrun
  obtain ⟨handle, hf, hresult⟩ := Option.bind_eq_some_iff.mp hhandle
  obtain ⟨m, hcommitted, hkind, -⟩ :=
    results_committed (Client.crampedClient 2) (Broker.sampleConfig .cancelQueued) 0
      (System.reachable_of_run hrun) hf hresult (show (link _ _ _).run s [] = some s from rfl)
  exact ⟨s, m, hrun, hcommitted, hkind⟩

theorem withdrawn_unaccepted_withdrawFirst : ∃ s t,
    Link.sampleLink.run Link.sampleLink.init Link.withdrawFirst = some s ∧
      Link.sampleLink.run s Link.skipFirst = some t ∧
      ¬ t.Accepted 0 (t.client.client.idOf (Client.crampedClient 2) 0) := by
  have hrun : ((Link.sampleLink.run Link.sampleLink.init Link.withdrawFirst).bind fun s =>
      (Link.sampleLink.run s Link.skipFirst).map fun _ => s.client.client.localCancels) = some [0] := by
    decide +kernel
  obtain ⟨s, hs, hrun⟩ := Option.bind_eq_some_iff.mp hrun
  obtain ⟨t, ht, hlocal⟩ := Option.map_eq_some_iff.mp hrun
  have hmem : 0 ∈ s.client.client.localCancels := by
    rw [hlocal]
    exact List.mem_singleton_self 0
  exact ⟨s, t, hs, ht,
    (withdrawn_unaccepted (Client.crampedClient 2) (Broker.sampleConfig .cancelQueued) 0
      (System.reachable_of_run hs) hmem ht).1⟩

end Deadpool.Remote
