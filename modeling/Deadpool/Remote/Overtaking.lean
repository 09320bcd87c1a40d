import Deadpool.Remote.Goodbye

/-!
# Submissions that overtake each other

`_submit` takes a sequence number under the client's lock and puts its message on the queue later, while
the server lets the numbers of a session through in increasing order only.  A request that nobody has
submitted before is called stale when a later one has overtaken it between the two, and only then.

Principal results:

* `requestSequence_requestIdText` : the server reads the number that the client has given;
* `stale_submission_overtaken`    : a submission that is called stale was overtaken on the wire.
-/

set_option autoImplicit false

namespace Deadpool.Remote

open Deadpool.Py Deadpool.Lts

/-! ## Numbers -/

theorem natText_ne_colon {n : Nat} {x : CodePoint} (h : x ∈ natText n) : x.val ≠ 0x3A := by
  unfold natText at h
  obtain ⟨d, hd, rfl⟩ := List.mem_map.mp h
  have hlt := natDigits_lt n d hd
  rw [digitText_val hlt]
  omega

theorem afterLastColon_requestIdText (clientId : Str) (n : Nat) :
    Broker.afterLastColon (requestIdText clientId n) = natText n := by
  unfold Broker.afterLastColon requestIdText
  have hdigits : ∀ x ∈ (natText n).reverse, decide (x.val ≠ 0x3A) = true := fun x hx =>
    decide_eq_true (natText_ne_colon (List.mem_reverse.mp hx))
  rw [List.reverse_append, List.reverse_append, List.takeWhile_append_of_pos hdigits]
  have hstop : ((lit ":").reverse ++ clientId.reverse).takeWhile (fun x => decide (x.val ≠ 0x3A)) = [] :=
    rfl
  rw [hstop, List.append_nil, List.reverse_reverse]

/-- **The server reads the number that the client has given.** -/
theorem requestSequence_requestIdText (clientId : Str) {n : Nat} (h : checkSequence n = .ok ()) :
    Broker.requestSequence clientId (requestIdText clientId n) = .ok n := by
  have hlength : (natText n).length ≤ maxStrDigits := Nat.not_lt.mp (valueError_ok.mp h)
  have hprefix : (clientId ++ lit ":").isPrefixOf (requestIdText clientId n) = true :=
    List.isPrefixOf_iff_prefix.mpr (List.prefix_append _ _)
  unfold Broker.requestSequence
  rw [if_pos hprefix, afterLastColon_requestIdText, int_natText hlength]

/-- What stands before an item of a sublist stands before it in the list. -/
theorem split_of_sublist {α : Type} {before after l : List α} {a : α}
    (h : (before ++ a :: after).Sublist l) : ∃ l₁ l₂, l = l₁ ++ a :: l₂ ∧ ∀ b ∈ before, b ∈ l₁ := by
  obtain ⟨r₁, r₂, rfl, hbefore, hafter⟩ := List.append_sublist_iff.mp h
  obtain ⟨r₃, r₄, rfl, ha, -⟩ := List.cons_sublist_iff.mp hafter
  obtain ⟨x, y, rfl⟩ := List.append_of_mem ha
  refine ⟨r₁ ++ x, y ++ r₄, by simp, fun b hb => ?_⟩
  exact List.mem_append_left _ (hbefore.subset hb)

namespace Link

section Overtaking

variable {V X : Type} {cfg : Client.Config V X} {scfg : Broker.Config} {c : Nat} {s : Link V X}

/-! ## The session of the client -/

/-- What has a session on the connection has heard from it as this client. -/
theorem Linked.clientId (h : Linked cfg scfg c s) (hgreeted : s.Greeted cfg c) {m : Message}
    (hm : m ∈ s.client.heard) {i : Nat} {session : Broker.Session}
    (hi : s.server.sessions[i]? = some session) (hcon : session.connection = c) :
    session.clientId = cfg.clientId.text := by
  obtain ⟨j, session', hj, hcon', hid⟩ := h.session (hgreeted.connected hm)
  have hwf := (Broker.reachable_inv h.server).wf
  obtain ⟨conn, hc, hlinked⟩ := hwf.linked i session hi
  obtain ⟨conn', hc', hlinked'⟩ := hwf.linked j session' hj
  rw [hcon] at hc
  rw [hcon', hc] at hc'
  cases hc'
  rw [hlinked] at hlinked'
  cases hlinked'
  rw [hi] at hj
  cases hj
  exact hid

/-- A submission on the wire has the number of its future. -/
theorem Linked.numbered (h : Linked cfg scfg c s) {post : Client.Post} (hpost : post ∈ s.client.wire)
    {session : Broker.Session} (hid : session.clientId = cfg.clientId.text) {sequence : Int}
    (hnumbers : session.Numbers post.1.sorted sequence) : ∃ f number, post.2 = some f ∧
      f < s.client.client.handles.length ∧ s.client.client.numbers[f]? = some number ∧ 0 < number ∧
      sequence = number ∧ Client.requestIdIn post.1 = .str (s.client.client.idOf cfg f) := by
  have hregistered := Client.State.reachable_registered (Client.reachable_client h.client)
  obtain ⟨failed, hwired⟩ := Client.reachable_wired h.client
  obtain ⟨requestId, hsubmits, hnamed, hsequence⟩ := hnumbers
  rw [submits_sorted] at hsubmits
  obtain ⟨f, hfuture, hf, hname⟩ :=
    (hwired.carried hregistered.posted hpost).submit (Broker.submits_iff.mp hsubmits).1
  obtain ⟨number, hnumber, hidOf⟩ := Client.State.idOf_lt cfg hf
  obtain ⟨hpos, -, hcheck⟩ :=
    hregistered.catalog.bounds number (List.mem_of_getElem? hnumber)
  refine ⟨f, number, hfuture, hf, hnumber, hpos, ?_, hname⟩
  have hsame : Value.str _ = .str _ := (get_sorted_str.mp hnamed).symm.trans hname
  rw [Value.str.inj hsame, hidOf, hid] at hsequence
  have hread := requestSequence_requestIdText cfg.clientId.text hcheck
  exact Except.ok.inj (hsequence.symm.trans hread)

end Overtaking

end Link

/-! ## Results -/

/-- **Stale submissions were overtaken.**  If the client hears that a submission is stale, the message of
that future went over the wire only after the message of a future that was registered later. -/
theorem stale_submission_overtaken {V X : Type} (cfg : Client.Config V X) (scfg : Broker.Config)
    (c : Nat) {s : Link V X} (h : (link cfg scfg c).Reachable s) {m : Message}
    (hm : m ∈ s.client.heard) (hstale : Broker.Stale m) :
    ∃ (before after : List Client.Post) (f g : Nat) (mf mg : Message), s.client.wire =
        before ++ (mf, some f) :: after ∧ (mg, some g) ∈ before ∧ f < g ∧
      Client.requestIdIn m = .str (s.client.client.idOf cfg f) := by
  have hlinked := Link.reachable_linked h
  have hgreeted := Link.reachable_greeted h
  have hregistered := Client.State.reachable_registered (Client.reachable_client hlinked.client)
  obtain ⟨failed, hwired⟩ := Client.reachable_wired hlinked.client
  obtain ⟨entry, hentry, rfl⟩ := hlinked.logged hm
  obtain ⟨handled, hheeds⟩ := hlinked.heeds
  obtain ⟨before, m₁, after, i, session, sequence, hhandled, hconcerns, hi, hcon, hnumbers, hpassed⟩ :=
    hheeds.stale entry hentry ⟨hstale.1, get_sorted_str.mp hstale.2⟩
  have hid := hlinked.clientId hgreeted hm hi hcon
  -- what was handled, as messages on the wire
  have hsub : handled.Sublist (s.client.wire.map fun post => post.1.sorted) :=
    ((List.sublist_append_left _ _).trans hheeds.inbox).trans ((List.take_sublist _ _).map _)
  obtain ⟨posts, hposts, hmap⟩ := List.sublist_map_iff.mp hsub
  rw [hhandled] at hmap
  obtain ⟨earlier, rest, rfl, hearlier, hrest⟩ := List.map_eq_append_iff.mp hmap.symm
  obtain ⟨post, later, rfl, hpost, -⟩ := List.map_eq_cons_iff.mp hrest
  obtain ⟨l₁, l₂, hwire, hbefore⟩ := split_of_sublist hposts
  have hmem : post ∈ s.client.wire := by
    rw [hwire]
    exact List.mem_append_right _ List.mem_cons_self
  obtain ⟨f, number, hfuture, hf, hnumber, hpos, hsequence, hname⟩ :=
    hlinked.numbered hmem hid (by rw [hpost]; exact hnumbers)
  rcases hpassed with hnone | ⟨m₀, hm₀, sequence₀, hnumbers₀, hle⟩
  · omega
  rw [← hearlier] at hm₀
  obtain ⟨post₀, hpost₀, rfl⟩ := List.mem_map.mp hm₀
  have hmem₀ : post₀ ∈ s.client.wire := by
    rw [hwire]
    exact List.mem_append_left _ (hbefore post₀ hpost₀)
  obtain ⟨g, number₀, hfuture₀, hg, hnumber₀, -, hsequence₀, -⟩ :=
    hlinked.numbered hmem₀ hid hnumbers₀
  -- a future is on the wire once
  have hne : f ≠ g := by
    rintro rfl
    have honce := hwired.once_le f
    have hself : Client.State.isOf f post = true := decide_eq_true hfuture
    rw [hwire, List.countP_append, List.countP_cons_of_pos hself] at honce
    have hpositive : 0 < l₁.countP (Client.State.isOf f) :=
      List.countP_pos_iff.mpr ⟨post₀, hbefore post₀ hpost₀, decide_eq_true hfuture₀⟩
    omega
  have hlt : f < g := by
    refine Nat.lt_of_le_of_ne (Nat.not_lt.mp fun hgf => ?_) hne
    obtain ⟨hf', hgetf⟩ := List.getElem?_eq_some_iff.mp hnumber
    obtain ⟨hg', hgetg⟩ := List.getElem?_eq_some_iff.mp hnumber₀
    have hless := List.pairwise_iff_getElem.mp hregistered.catalog.increasing g f hg' hf' hgf
    omega
  refine ⟨l₁, l₂, f, g, post.1, post₀.1, ?_, ?_, hlt, ?_⟩
  · rw [hwire, ← hfuture]
  · rw [← hfuture₀]
    exact hbefore post₀ hpost₀
  · refine Eq.trans ?_ hname
    have hnamed : post.1.sorted.control.items.get (lit "request_id") =
        .str (s.client.client.idOf cfg f) := get_sorted_str.mpr hname
    rw [hpost] at hnamed
    rw [hname]
    exact get_sorted_str.mpr (Eq.trans hconcerns hnamed)

namespace Link

/-- Two calls of `submit`: the second puts its message on the queue before the first does. -/
def overtakeFirst : List (Label Unit) :=
  connectFirst ++
    ([.submit .callable {}, .serialized 0 (.ok []), .proceed 0, .proceed 0,
      .submit .callable {}, .serialized 1 (.ok []), .proceed 1, .proceed 1, .put 1 true,
      .sender, .sender, .sender, .sent none, .put 0 true, .sender, .sender, .sender, .sent none] :
        List (Client.Label Unit)).map .client ++
    [.arrive [], .server ⟨.handle 0 Broker.early (fun _ => .ok true) none, []⟩, .arrive [],
      .server ⟨.handle 0 Broker.early (fun _ => .ok true) none, []⟩] ++
    hearNext ++ scheduleNext ++ hearNext

end Link

theorem stale_submission_overtaken_overtakeFirst : ∃ s m,
    Link.sampleLink.run Link.sampleLink.init Link.overtakeFirst = some s ∧ m ∈ s.client.heard ∧
      Broker.Stale m ∧ ∃ (before after : List Client.Post) (f g : Nat) (mf mg : Message),
        s.client.wire = before ++ (mf, some f) :: after ∧ (mg, some g) ∈ before ∧ f < g ∧
        Client.requestIdIn m = .str (s.client.client.idOf (Client.crampedClient 2) f) := by
  have hrun : ((Link.sampleLink.run Link.sampleLink.init Link.overtakeFirst).map fun s =>
      s.client.heard.any fun m => m.kind = .rejected &&
        Broker.isText (lit "stale_request") (m.control.items.get (lit "reason"))) = some true := by
    decide +kernel
  obtain ⟨s, hrun, hany⟩ := Option.map_eq_some_iff.mp hrun
  obtain ⟨m, hm, hboth⟩ := List.any_eq_true.mp hany
  obtain ⟨hkind, hreason⟩ := (Bool.and_eq_true _ _).mp hboth
  have hstale : Broker.Stale m := ⟨of_decide_eq_true hkind, Broker.eq_of_isText hreason⟩
  exact ⟨s, m, hrun, hm, hstale,
    stale_submission_overtaken (Client.crampedClient 2) (Broker.sampleConfig .cancelQueued) 0
      (System.reachable_of_run hrun) hm hstale⟩

end Deadpool.Remote
