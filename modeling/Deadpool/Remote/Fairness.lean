import Deadpool.Remote.Plan

/-!
# Turns and order

What the rotation of a priority promises over a whole run: a principal that keeps waiting is overtaken
by every other principal at most once, and the items of one stream leave in the order they came, also
when the dispatcher gives one back.

* `FairScheduler.served`   — the stream that the next `pop` takes from;
* `ahead`                  — the principals whose turn comes before that of `q`;
* `overtaken_once`         — each of them is served once at most, and no other is;
* `departed`               — the items of a stream that left by `pop` and were not given back;
* `departed_sublist`       — they left in the order they were put.

Principal results: `bounded_overtaking_and_fifo`.
-/

set_option autoImplicit false

namespace Deadpool.Remote

open Deadpool.Py

variable {T : Type}

/-! ## Streams -/

/-- The priority and the principal that `pop` reads off the heap and the bucket. -/
def FairScheduler.served (sch : FairScheduler T) : Option (Int × Str) :=
  if sch.size = 0 then none
  else do
    let priority ← sch.heap.head?
    let bucket ← sch.priorities.get? priority
    let principal ← bucket.principals.head?
    some (priority, principal)

/-- The items of one principal at one priority, in FIFO order. -/
def FairScheduler.stream (sch : FairScheduler T) (p : Int) (q : Str) : List T :=
  ((sch.priorities.get? p).bind fun bucket => bucket.queued.get? q).getD []

/-- The items of a stream of the plan. -/
def Plan.stream (plan : Plan T) (p : Int) (q : Str) : List T := ((plan p).get? q).getD []

section Represented

variable {sch : FairScheduler T} {plan : Plan T}

theorem Represents.stream (h : Represents sch plan) (p : Int) (q : Str) :
    sch.stream p q = plan.stream p q := by
  unfold FairScheduler.stream Plan.stream
  cases hb : sch.priorities.get? p with
  | none =>
    rw [h.absent p hb]
    rfl
  | some b =>
    show (b.queued.get? q).getD [] = _
    rw [(h.bucket p b hb).1.queued]

theorem mem_keys_of_stream {p : Int} {q : Str} (h : plan.stream p q ≠ []) : q ∈ (plan p).map Prod.fst := by
  unfold Plan.stream at h
  cases hq : (plan p).get? q with
  | none =>
    rw [hq] at h
    exact absurd rfl h
  | some queue => exact Table.mem_keys_of_get? hq

/-- What one `pop` does, with the stream that it serves. -/
theorem Represents.pop_served [DecidableEq T] (h : Represents sch plan) :
    (sch.served = none ∧ sch.pop = none ∧ plan.pop = none) ∨
      ∃ p q item rest others sch', plan p = (q, item :: rest) :: others ∧
        sch.served = some (p, q) ∧ sch.pop = some (item, sch') ∧
        plan.pop = some (item, plan.next p) := by
  rcases h.pop_eq with ⟨hs, hp, hall⟩ | ⟨p, q, item, rest, others, sch', hrot, hs, hp, -, hmin⟩
  · refine .inl ⟨?_, hs, hp⟩
    have hheap : sch.heap = [] := by
      rw [List.eq_nil_iff_forall_not_mem]
      intro p hmem
      exact h.mem_heap.mp hmem (hall p)
    unfold FairScheduler.served
    rw [hheap]
    split <;> rfl
  · refine .inr ⟨p, q, item, rest, others, sch', hrot, ?_, hs, hp⟩
    have hne : plan p ≠ [] := by
      rw [hrot]
      exact List.cons_ne_nil _ _
    obtain ⟨b, hb⟩ : ∃ b, sch.priorities.get? p = some b := by
      cases hb : sch.priorities.get? p with
      | none => exact absurd (h.absent p hb) hne
      | some b => exact ⟨b, rfl⟩
    have hfirst : b.principals.head? = some q := by
      rw [(h.bucket p b hb).1.principals, hrot]
      rfl
    unfold FairScheduler.served
    rw [if_neg (h.size_pos hne), h.head?_heap hne hmin]
    simp [hb, hfirst]

end Represented

/-! ## Turns -/

/-- The principals before `q` in a rotation. -/
def ahead (rot : Rotation T) (q : Str) : List Str := (rot.map Prod.fst).takeWhile fun q' => q' ≠ q

section Ahead

variable {q q' : Str} {l l' : List Str}

theorem takeWhile_append_of_mem (h : q ∈ l) (l' : List Str) :
    (l ++ l').takeWhile (fun q' => q' ≠ q) = l.takeWhile fun q' => q' ≠ q := by
  induction l with
  | nil => cases h
  | cons a l ih =>
    by_cases ha : a = q
    · simp [ha]
    · have hmem : q ∈ l := (List.mem_cons.mp h).resolve_left (Ne.symm ha)
      simp only [List.cons_append, List.takeWhile_cons, ne_eq, ha, not_false_eq_true, decide_true,
        if_true]
      rw [← ih hmem]

/-- Nobody comes before `q` who did not. -/
theorem takeWhile_sublist (hsub : l'.Sublist l) (hnodup : l.Nodup) (hq : q ∈ l')
    (h : q' ∈ l'.takeWhile fun q' => q' ≠ q) : q' ∈ l.takeWhile fun q' => q' ≠ q := by
  induction hsub with
  | slnil => cases hq
  | @cons l' l a hsub ih =>
    rw [List.nodup_cons] at hnodup
    have hne : a ≠ q := fun ha => hnodup.1 (ha ▸ hsub.subset hq)
    rw [List.takeWhile_cons_of_pos (by simpa using hne)]
    exact List.mem_cons_of_mem _ (ih hnodup.2 hq h)
  | @cons_cons l' l a hsub ih =>
    rw [List.nodup_cons] at hnodup
    by_cases ha : a = q
    · rw [List.takeWhile_cons_of_neg (by simpa using ha)] at h
      cases h
    · have hmem : q ∈ l' := (List.mem_cons.mp hq).resolve_left (Ne.symm ha)
      rw [List.takeWhile_cons_of_pos (by simpa using ha)] at h ⊢
      rcases List.mem_cons.mp h with rfl | h
      · exact List.mem_cons_self
      · exact List.mem_cons_of_mem _ (ih hnodup.2 hmem h)

variable {rot : Rotation T}

theorem ahead_put {principal : Str} {item : T} (front : Bool) (hq : q ∈ rot.map Prod.fst) :
    ahead (rot.put principal item front) q = ahead rot q := by
  unfold ahead Rotation.put
  dsimp only
  rw [Table.keys_set]
  split
  · rfl
  · exact takeWhile_append_of_mem hq _

theorem keys_remove_sublist [DecidableEq T] (item : T) :
    ((rot.remove item).map Prod.fst).Sublist (rot.map Prod.fst) := by
  unfold Rotation.remove
  have hmap : (rot.map fun e => (e.1, e.2.erase item)).map Prod.fst = rot.map Prod.fst := by
    rw [List.map_map]
    rfl
  rw [← hmap]
  exact List.filter_sublist.map _

/-- The first principal goes behind `q`. -/
theorem ahead_next {q₀ : Str} {queue : List T} {others : Rotation T}
    (hvalid : Rotation.Valid ((q₀, queue) :: others)) (hne : q₀ ≠ q) (hq : q ∈ others.map Prod.fst) :
    ahead ((q₀, queue) :: others) q = q₀ :: ahead (Rotation.next ((q₀, queue) :: others)) q ∧
      q₀ ∉ ahead (Rotation.next ((q₀, queue) :: others)) q := by
  have hnodup := hvalid.nodup
  rw [Table.NodupKeys, List.map_cons, List.nodup_cons] at hnodup
  have hnext : ahead (Rotation.next ((q₀, queue) :: others)) q = ahead others q := by
    unfold ahead Rotation.next
    rw [List.map_append]
    exact takeWhile_append_of_mem hq _
  rw [hnext]
  constructor
  · unfold ahead
    rw [List.map_cons, List.takeWhile_cons_of_pos (by simpa using hne)]
  · intro hmem
    exact hnodup.1 ((List.takeWhile_sublist _).subset hmem)

end Ahead

section Turns

variable [DecidableEq T]

/-- The stream that an operation takes an item from. -/
def FairScheduler.serves (sch : FairScheduler T) : SchedulerOp T → Option (Int × Str)
  | .pop => sch.served
  | _ => none

def FairScheduler.services (sch : FairScheduler T) : List (SchedulerOp T) → List (Option (Int × Str))
  | [] => []
  | op :: ops => sch.serves op :: FairScheduler.services (sch.step op).2 ops

/-- The principal has an item queued throughout and is not served. -/
def FairScheduler.KeepsWaiting (p : Int) (q : Str) (sch : FairScheduler T) :
    List (SchedulerOp T) → Prop
  | [] => sch.stream p q ≠ []
  | op :: ops =>
    sch.stream p q ≠ [] ∧ sch.serves op ≠ some (p, q) ∧
      FairScheduler.KeepsWaiting p q (sch.step op).2 ops

variable {sch : FairScheduler T} {plan : Plan T} {p : Int} {q q' : Str}

theorem FairScheduler.KeepsWaiting.waits {ops : List (SchedulerOp T)}
    (h : sch.KeepsWaiting p q ops) : sch.stream p q ≠ [] := by
  cases ops with
  | nil => exact h
  | cons op ops => exact h.1

/-- **One operation while `q` waits.** Who is served was ahead of `q` and is not any more, and nobody
else gets ahead. -/
theorem ahead_step (q' : Str) (h : Represents sch plan) {op : SchedulerOp T} (hq : q ∈ (plan p).map Prod.fst)
    (hstill : q ∈ ((plan.step op).2 p).map Prod.fst) (hother : sch.serves op ≠ some (p, q)) :
    (q' ∈ ahead ((plan.step op).2 p) q → q' ∈ ahead (plan p) q) ∧
      (sch.serves op = some (p, q') →
        q' ∈ ahead (plan p) q ∧ q' ∉ ahead ((plan.step op).2 p) q) := by
  have hput : ∀ (item : T) (p' : Int) (principal : Str) (front : Bool),
      ahead (plan.put item p' principal front p) q = ahead (plan p) q := by
    intro item p' principal front
    unfold Plan.put
    by_cases hp : p = p'
    · subst hp
      rw [Function.update_self, ahead_put front hq]
    · rw [Function.update_of_ne hp]
  cases op with
  | put item p' principal =>
    refine ⟨fun hmem => ?_, fun hserves => by cases hserves⟩
    exact hput item p' principal false ▸ hmem
  | putFront item p' principal =>
    refine ⟨fun hmem => ?_, fun hserves => by cases hserves⟩
    exact hput item p' principal true ▸ hmem
  | remove item =>
    refine ⟨fun hmem => ?_, fun hserves => by cases hserves⟩
    exact takeWhile_sublist (keys_remove_sublist item) (h.valid p).nodup hstill hmem
  | pop =>
    rcases h.pop_served with ⟨hserved, -, hpop⟩ | ⟨p₀, q₀, item, rest, others, sch', hrot, hserved, -,
      hpop⟩
    · have hsame : (plan.step .pop).2 = plan := by
        unfold Plan.step
        rw [hpop]
      rw [hsame]
      refine ⟨fun hmem => hmem, fun hserves => ?_⟩
      rw [show sch.serves .pop = none from hserved] at hserves
      cases hserves
    · have hnext : (plan.step .pop).2 = plan.next p₀ := by
        unfold Plan.step
        rw [hpop]
      have hserves : sch.serves .pop = some (p₀, q₀) := hserved
      rw [hserves] at hother ⊢
      rw [hnext] at hstill ⊢
      unfold Plan.next at hstill ⊢
      by_cases hp : p = p₀
      · subst hp
        rw [Function.update_self, hrot] at hstill ⊢
        have hne : q₀ ≠ q := fun heq => hother (by rw [heq])
        rw [hrot, List.map_cons, List.mem_cons] at hq
        have hothers := hq.resolve_left (Ne.symm hne)
        obtain ⟨hcons, hnot⟩ := ahead_next (hrot ▸ h.valid p) hne hothers
        rw [hcons]
        refine ⟨fun hmem => List.mem_cons_of_mem _ hmem, fun hsame => ?_⟩
        cases hsame
        exact ⟨List.mem_cons_self, hnot⟩
      · rw [Function.update_of_ne hp]
        refine ⟨fun hmem => hmem, fun hsame => ?_⟩
        cases hsame
        exact absurd rfl hp

/-- While `q` waits, a principal is served once if it was ahead and not at all otherwise. -/
theorem overtaken_once (q' : Str) (ops : List (SchedulerOp T)) (h : Represents sch plan)
    (hd : plan.Distinct) (hf : plan.FreshRun ops) (hwait : sch.KeepsWaiting p q ops) :
    (sch.services ops).count (some (p, q')) ≤ if q' ∈ ahead (plan p) q then 1 else 0 := by
  induction ops generalizing sch plan with
  | nil => exact Nat.zero_le _
  | cons op ops ih =>
    obtain ⟨-, hrep, hd'⟩ := h.step hd hf.1
    have hrest := ih hrep hd' hf.2 hwait.2.2
    have hq := mem_keys_of_stream (h.stream p q ▸ hwait.1)
    have hstill := mem_keys_of_stream (hrep.stream p q ▸ hwait.2.2.waits)
    obtain ⟨hmono, hserved⟩ := ahead_step q' h hq hstill hwait.2.1
    simp only [FairScheduler.services, List.count_cons]
    by_cases hnow : sch.serves op = some (p, q')
    · obtain ⟨hmem, hnot⟩ := hserved hnow
      rw [if_neg hnot] at hrest
      rw [hnow, if_pos hmem, if_pos (by simp)]
      omega
    · have hle : (if q' ∈ ahead ((plan.step op).2 p) q then 1 else 0) ≤
          if q' ∈ ahead (plan p) q then 1 else 0 := by
        split
        · rename_i hmem
          rw [if_pos (hmono hmem)]
        · exact Nat.zero_le _
      rw [if_neg (by simpa using hnow)]
      omega

end Turns

/-! ## Order -/

section Order

variable {plan : Plan T} {p p' : Int} {q q' : Str}

theorem stream_put_self (item : T) (front : Bool) :
    (plan.put item p q front).stream p q =
      if front then item :: plan.stream p q else plan.stream p q ++ [item] := by
  unfold Plan.stream Plan.put Rotation.put
  rw [Function.update_self, Table.get?_set, if_pos rfl]
  rfl

theorem stream_put_other (item : T) (front : Bool) (h : ¬ (p' = p ∧ q' = q)) :
    (plan.put item p' q' front).stream p q = plan.stream p q := by
  unfold Plan.stream Plan.put Rotation.put
  by_cases hp : p = p'
  · subst hp
    have hq : q' ≠ q := fun hq => h ⟨rfl, hq⟩
    rw [Function.update_self, Table.get?_set, if_neg hq]
  · rw [Function.update_of_ne hp]

theorem get?_remove [DecidableEq T] {rot : Rotation T} (hnodup : rot.NodupKeys) (item : T) :
    (Table.get? (rot.remove item) q).getD [] = ((rot.get? q).getD []).erase item := by
  induction rot with
  | nil => rfl
  | cons e rot ih =>
    have hkeys := hnodup
    rw [Table.NodupKeys, List.map_cons, List.nodup_cons] at hkeys
    have hrest := ih hkeys.2
    have hcons : Rotation.remove (e :: rot) item =
        (if e.2.erase item = [] then [] else [(e.1, e.2.erase item)]) ++ Rotation.remove rot item := by
      unfold Rotation.remove
      rw [List.map_cons, List.filter_cons]
      by_cases hc : e.2.erase item = [] <;> simp [hc]
    rw [hcons, Table.get?_cons]
    by_cases he : e.1 = q
    · rw [if_pos he, Option.getD_some]
      split
      · rename_i hnil
        have hnone : Table.get? (Rotation.remove rot item) q = none :=
          Table.get?_eq_none fun hmem => hkeys.1 (he ▸ (keys_remove_sublist item).subset hmem)
        rw [List.nil_append, hnone, hnil]
        rfl
      · rw [List.singleton_append, Table.get?_cons, if_pos he, Option.getD_some]
    · rw [if_neg he]
      split
      · exact hrest
      · rw [List.singleton_append, Table.get?_cons, if_neg he]
        exact hrest

theorem stream_next {item : T} {rest : List T} {others : Rotation T} (hv : (plan p').Valid)
    (hrot : plan p' = (q', item :: rest) :: others) :
    if p' = p ∧ q' = q then plan.stream p q = item :: (plan.next p').stream p q
    else (plan.next p').stream p q = plan.stream p q := by
  have hnodup := hv.nodup
  rw [hrot, Table.NodupKeys, List.map_cons, List.nodup_cons] at hnodup
  have happend : ∀ e : Rotation T, Table.get? (others ++ e) q =
      (Table.get? others q).or (Table.get? e q) := by
    intro e
    unfold Table.get?
    rw [List.find?_append, Option.map_or]
  unfold Plan.stream Plan.next
  by_cases hp : p' = p
  · subst hp
    rw [Function.update_self, hrot]
    unfold Rotation.next
    dsimp only
    rw [List.tail_cons, happend, Table.get?_cons]
    by_cases hq : q' = q
    · subst hq
      rw [if_pos ⟨rfl, rfl⟩, if_pos rfl, Table.get?_eq_none hnodup.1, Option.none_or,
        Option.getD_some]
      by_cases hnil : rest = []
      · rw [if_pos hnil, hnil]
        rfl
      · rw [if_neg hnil, Table.get?_cons, if_pos rfl, Option.getD_some]
    · have hlast : Table.get? (if rest = [] then [] else [(q', rest)]) q = none := by
        split
        · rfl
        · rw [Table.get?_cons, if_neg hq]
          rfl
      rw [if_neg (fun h => hq h.2), if_neg hq, hlast, Option.or_none]
  · rw [if_neg (fun h => hp h.1), Function.update_of_ne (Ne.symm hp)]

variable [DecidableEq T]

/-- The item that an operation puts into a stream. -/
def putInto (p : Int) (q : Str) : SchedulerOp T → List T
  | .put item p' q' => if p' = p ∧ q' = q then [item] else []
  | _ => []

/-- The items put into a stream, in order. -/
def puts (p : Int) (q : Str) (ops : List (SchedulerOp T)) : List T := ops.flatMap (putInto p q)

/-- `left` are the items of the stream that left by `pop` and were not given back. -/
def FairScheduler.leave (p : Int) (q : Str) (sch : FairScheduler T) (left : List T) :
    SchedulerOp T → List T
  | .pop => if sch.served = some (p, q) then left ++ (sch.step .pop).1.toList else left
  | .putFront _ p' q' => if p' = p ∧ q' = q then left.dropLast else left
  | _ => left

def departed (p : Int) (q : Str) (sch : FairScheduler T) (left : List T) :
    List (SchedulerOp T) → List T
  | [] => left
  | op :: ops => departed p q (sch.step op).2 (sch.leave p q left op) ops

/-- `put_front` gives back the item that left the stream last. -/
def GivesBack (p : Int) (q : Str) (sch : FairScheduler T) (left : List T) :
    List (SchedulerOp T) → Prop
  | [] => True
  | op :: ops =>
    (∀ item, op = .putFront item p q → left.getLast? = some item) ∧
      GivesBack p q (sch.step op).2 (sch.leave p q left op) ops

variable {sch : FairScheduler T}

/-- **One operation on a stream.** What left and what is queued are in the order of the puts. -/
theorem leave_step (h : Represents sch plan) {left past : List T} {op : SchedulerOp T}
    (hback : ∀ item, op = .putFront item p q → left.getLast? = some item)
    (hsub : (left ++ plan.stream p q).Sublist past) :
    (sch.leave p q left op ++ (plan.step op).2.stream p q).Sublist (past ++ putInto p q op) := by
  cases op with
  | put item p' q' =>
    unfold FairScheduler.leave Plan.step putInto
    dsimp only
    by_cases hpq : p' = p ∧ q' = q
    · rw [if_pos hpq]
      obtain ⟨rfl, rfl⟩ := hpq
      rw [stream_put_self, if_neg Bool.false_ne_true, ← List.append_assoc]
      exact hsub.append (List.Sublist.refl _)
    · rw [stream_put_other _ _ hpq, if_neg hpq]
      exact hsub.trans (List.sublist_append_left _ _)
  | putFront item p' q' =>
    unfold FairScheduler.leave Plan.step putInto
    dsimp only
    rw [List.append_nil]
    by_cases hpq : p' = p ∧ q' = q
    · rw [if_pos hpq]
      obtain ⟨rfl, rfl⟩ := hpq
      obtain ⟨before, rfl⟩ := List.getLast?_eq_some_iff.mp (hback item rfl)
      rw [stream_put_self, if_pos rfl, List.dropLast_concat]
      rw [List.append_assoc, List.singleton_append] at hsub
      exact hsub
    · rw [stream_put_other _ _ hpq, if_neg hpq]
      exact hsub
  | remove item =>
    unfold FairScheduler.leave Plan.step putInto
    dsimp only
    rw [List.append_nil]
    have herase : (plan.remove item).stream p q = (plan.stream p q).erase item :=
      get?_remove (h.valid p).nodup item
    rw [herase]
    exact ((List.Sublist.refl left).append List.erase_sublist).trans hsub
  | pop =>
    unfold FairScheduler.leave putInto
    dsimp only
    rw [List.append_nil]
    rcases h.pop_served with ⟨hserved, hs, hpop⟩ | ⟨p₀, q₀, item, rest, others, sch', hrot, hserved, hs,
      hpop⟩
    · have hsame : (plan.step .pop).2 = plan := by
        unfold Plan.step
        rw [hpop]
      rw [hserved, if_neg (by simp), hsame]
      exact hsub
    · have hnext : (plan.step .pop).2 = plan.next p₀ := by
        unfold Plan.step
        rw [hpop]
      have hout : (sch.step .pop).1 = some item := by
        unfold FairScheduler.step
        rw [hs]
      have hstream := stream_next (p := p) (q := q) (h.valid p₀) hrot
      rw [hserved, hnext, hout]
      by_cases hpq : p₀ = p ∧ q₀ = q
      · obtain ⟨rfl, rfl⟩ := hpq
        rw [if_pos ⟨rfl, rfl⟩] at hstream
        rw [if_pos rfl]
        rw [hstream] at hsub
        simpa using hsub
      · rw [if_neg hpq] at hstream
        rw [if_neg (by simpa using hpq), hstream]
        exact hsub

theorem departed_sublist (ops : List (SchedulerOp T)) (h : Represents sch plan) (hd : plan.Distinct)
    (hf : plan.FreshRun ops) {left past : List T} (hback : GivesBack p q sch left ops)
    (hsub : (left ++ plan.stream p q).Sublist past) :
    (departed p q sch left ops ++ (plan.run ops).2.stream p q).Sublist (past ++ puts p q ops) := by
  induction ops generalizing sch plan left past with
  | nil =>
    rw [puts, List.flatMap_nil, List.append_nil]
    exact hsub
  | cons op ops ih =>
    obtain ⟨-, hrep, hd'⟩ := h.step hd hf.1
    have hnext := leave_step h hback.1 hsub
    rw [puts, List.flatMap_cons, ← List.append_assoc]
    exact ih hrep hd' hf.2 hback.2 hnext

end Order

section Whole

variable [DecidableEq T]

theorem Plan.freshRun_append {plan : Plan T} {ops ops' : List (SchedulerOp T)}
    (h : plan.FreshRun (ops ++ ops')) : plan.FreshRun ops ∧ (plan.run ops).2.FreshRun ops' := by
  induction ops generalizing plan with
  | nil => exact ⟨trivial, h⟩
  | cons op ops ih =>
    obtain ⟨hfirst, hrest⟩ := ih h.2
    exact ⟨⟨h.1, hfirst⟩, hrest⟩

/-- **Bounded overtaking and order.** In every run on distinct items, at every priority: while a
principal keeps an item queued and is not served, every other principal is served there at most once.
When `put_front` only gives back what left a stream last, the items that leave the stream for good,
followed by those still queued, are in the order in which they were put. -/
theorem bounded_overtaking_and_fifo (ops : List (SchedulerOp T)) (hf : Plan.empty.FreshRun ops) (p : Int)
    (q : Str) :
    (∀ before during after, ops = before ++ during ++ after →
        (FairScheduler.run .empty before).2.KeepsWaiting p q during → ∀ q', q' ≠ q →
        ((FairScheduler.run .empty before).2.services during).count (some (p, q')) ≤ 1) ∧
      (GivesBack p q .empty [] ops →
        (departed p q .empty [] ops ++ (FairScheduler.run .empty ops).2.stream p q).Sublist
          (puts p q ops)) := by
  constructor
  · rintro before during after rfl hwait q' -
    obtain ⟨hfirst, -⟩ := Plan.freshRun_append hf
    obtain ⟨hbefore, hduring⟩ := Plan.freshRun_append hfirst
    obtain ⟨-, hrep, hd⟩ := Represents.run before Represents.empty .empty hbefore
    have honce := overtaken_once q' during hrep hd hduring hwait
    refine Nat.le_trans honce ?_
    split <;> omega
  · intro hback
    obtain ⟨-, hrep, -⟩ := Represents.run ops Represents.empty .empty hf
    rw [hrep.stream]
    exact departed_sublist ops Represents.empty .empty hf hback (List.Sublist.refl _)

/-- Whether an operation puts an item that is nowhere queued, as a search of the buckets tells. -/
def FairScheduler.fresh (sch : FairScheduler T) : SchedulerOp T → Bool
  | .put item _ _ | .putFront item _ _ => (sch.find item).isNone
  | _ => true

def FairScheduler.freshRun (sch : FairScheduler T) : List (SchedulerOp T) → Bool
  | [] => true
  | op :: ops => sch.fresh op && FairScheduler.freshRun (sch.step op).2 ops

theorem Represents.freshRun {sch : FairScheduler T} {plan : Plan T} (h : Represents sch plan)
    (hd : plan.Distinct) {ops : List (SchedulerOp T)} (hf : sch.freshRun ops = true) :
    plan.FreshRun ops := by
  induction ops generalizing sch plan with
  | nil => trivial
  | cons op ops ih =>
    obtain ⟨hfirst, hrest⟩ := Bool.and_eq_true_iff.mp hf
    have hfresh : plan.Fresh op := by
      cases op with
      | put item p q => exact h.find_none (Option.isNone_iff_eq_none.mp hfirst)
      | putFront item p q => exact h.find_none (Option.isNone_iff_eq_none.mp hfirst)
      | pop => trivial
      | remove item => trivial
    obtain ⟨-, hrep, hd'⟩ := h.step hd hfresh
    exact ⟨hfresh, ih hrep hd' hrest⟩

end Whole

/-- The first item of `a` is popped and given back while `b` waits, with an urgent one in between. -/
def giveBackOps : List (SchedulerOp Nat) :=
  [.put 1 2 (lit "a"), .put 2 2 (lit "a"), .put 3 2 (lit "b"), .pop, .put 4 1 (lit "a"),
    .putFront 1 2 (lit "a"), .pop, .pop, .pop, .pop]

theorem bounded_overtaking_and_fifo_giveBackOps :
    Plan.empty.FreshRun giveBackOps ∧
      (FairScheduler.run .empty giveBackOps).1 =
        [none, none, none, some 1, none, none, some 4, some 3, some 1, some 2] ∧
      ((FairScheduler.run .empty (giveBackOps.take 3)).2.services
        ((giveBackOps.drop 3).take 4)).count (some (2, lit "a")) ≤ 1 ∧
      (departed 2 (lit "a") .empty [] giveBackOps).Sublist [1, 2] := by
  have hfresh : Plan.empty.FreshRun giveBackOps :=
    Represents.empty.freshRun .empty (by decide +kernel)
  have hlast : ((FairScheduler.run .empty (giveBackOps.take 7)).2).stream 2 (lit "b") ≠ [] := by
    decide +kernel
  have hb := (bounded_overtaking_and_fifo giveBackOps hfresh 2 (lit "b")).1 (giveBackOps.take 3)
    ((giveBackOps.drop 3).take 4) (giveBackOps.drop 7) rfl
    ⟨by decide +kernel, by decide +kernel, by decide +kernel, by decide +kernel, by decide +kernel,
      by decide +kernel, by decide +kernel, by decide +kernel, hlast⟩ (lit "a") (by decide)
  have ha := (bounded_overtaking_and_fifo giveBackOps hfresh 2 (lit "a")).2
    ⟨by simp, by simp, by simp, by simp, by simp, by
      intro item hitem
      cases hitem
      decide +kernel, by simp, by simp, by simp, by simp, trivial⟩
  exact ⟨hfresh, by decide +kernel, hb, (List.sublist_append_left _ _).trans ha⟩

end Deadpool.Remote
