import Deadpool.Remote.Scheduler
import Mathlib.Algebra.Ring.Nat
import Mathlib.Logic.Function.Basic

/-!
# What the fair scheduler is for

The abstract scheduler: each priority has a rotation, the principals in turn with the FIFO of each.
`FairScheduler` keeps four structures for it: a heap of priorities, a bucket for each, and in the
bucket a list of principals and a queue for each of them.

* `Plan`, `Plan.put`, `Plan.next`, `Plan.remove` — the abstract scheduler and its operations;
* `Represents` — when the four structures stand for a plan;
* `represents_put`, `pop_spec`, `represents_remove` — the operations of `FairScheduler` are those of
  the plan.

Principal results: `scheduler_faithful` — after every sequence of operations on distinct items, the
scheduler represents the plan that the abstract operations give.
-/

set_option autoImplicit false

namespace Deadpool.Remote

open Deadpool.Py

variable {T : Type}

/-! ## The abstract scheduler -/

/-- The principals of one priority in turn, each with its items in FIFO order. -/
abbrev Rotation (T : Type) : Type := Table Str (List T)

namespace Rotation

/-- An item joins the stream of its principal; a principal without items joins at the end. -/
def put (rot : Rotation T) (principal : Str) (item : T) (front : Bool) : Rotation T :=
  let queue := (rot.get? principal).getD []
  rot.set principal (if front then item :: queue else queue ++ [item])

/-- The first principal gives its first item and goes to the end. -/
def next : Rotation T → Rotation T
  | [] => []
  | (principal, queue) :: others =>
    others ++ if queue.tail = [] then [] else [(principal, queue.tail)]

def remove [DecidableEq T] (rot : Rotation T) (item : T) : Rotation T :=
  (rot.map fun e => (e.1, e.2.erase item)).filter fun e => e.2 ≠ []

def size (rot : Rotation T) : Nat := (rot.map fun e => e.2.length).sum

/-- Every principal once, with a non-empty queue. -/
structure Valid (rot : Rotation T) : Prop where
  nodup : rot.NodupKeys
  nonempty : ∀ e ∈ rot, e.2 ≠ []

end Rotation

/-- The rotation of each priority. -/
abbrev Plan (T : Type) : Type := Int → Rotation T

namespace Plan

def empty : Plan T := fun _ => []

/-- The item is in the stream of a priority and a principal. -/
def Queued (plan : Plan T) (item : T) (priority : Int) (principal : Str) : Prop :=
  ∃ queue, (principal, queue) ∈ plan priority ∧ item ∈ queue

def put (plan : Plan T) (item : T) (priority : Int) (principal : Str) (front : Bool) : Plan T :=
  Function.update plan priority ((plan priority).put principal item front)

/-- The first item of a priority is taken. -/
def next (plan : Plan T) (priority : Int) : Plan T :=
  Function.update plan priority (plan priority).next

def remove [DecidableEq T] (plan : Plan T) (item : T) : Plan T := fun priority => (plan priority).remove item

/-- No item is queued twice. -/
structure Distinct (plan : Plan T) : Prop where
  nodup : ∀ priority, ∀ e ∈ plan priority, e.2.Nodup
  place : ∀ item priority principal priority' principal', plan.Queued item priority principal →
    plan.Queued item priority' principal' → priority = priority' ∧ principal = principal'

end Plan

/-! ## Rotations -/

namespace Rotation

variable {rot : Rotation T} {principal : Str} {item : T}

theorem Valid.nil : Valid ([] : Rotation T) :=
  ⟨List.nodup_nil, fun _ h => nomatch h⟩

theorem size_set_of_get? {queue : List T} (queue' : List T) :
    rot.get? principal = some queue →
      size (Table.set rot principal queue') + queue.length = rot.size + queue'.length := by
  induction rot with
  | nil => intro h; cases h
  | cons e rot ih =>
    intro h
    rw [Table.get?_cons] at h
    unfold Table.set
    split at h
    · rename_i he
      cases h
      simp only [he, ↓reduceIte, size, List.map_cons, List.sum_cons]
      omega
    · rename_i he
      have hrest := ih h
      simp only [he, ↓reduceIte, size, List.map_cons, List.sum_cons] at hrest ⊢
      omega

theorem size_set_of_absent (queue' : List T) :
    rot.get? principal = none →
      size (Table.set rot principal queue') = rot.size + queue'.length := by
  induction rot with
  | nil => intro _; simp [Table.set, size]
  | cons e rot ih =>
    intro h
    rw [Table.get?_cons] at h
    unfold Table.set
    split at h
    · cases h
    · rename_i he
      have hrest := ih h
      simp only [he, ↓reduceIte, size, List.map_cons, List.sum_cons] at hrest ⊢
      omega

theorem size_put (front : Bool) : (rot.put principal item front).size = rot.size + 1 := by
  have hlen : ∀ queue : List T,
      (if front = true then item :: queue else queue ++ [item]).length = queue.length + 1 := by
    intro queue
    cases front <;> simp
  unfold put
  cases hq : rot.get? principal with
  | none =>
    simp only [Option.getD_none]
    rw [size_set_of_absent _ hq, hlen, List.length_nil]
  | some queue =>
    simp only [Option.getD_some]
    have hset := size_set_of_get? (if front = true then item :: queue else queue ++ [item]) hq
    rw [hlen] at hset
    omega

theorem mem_set_iff (h : rot.NodupKeys) {queue : List T} {e : Str × List T} :
    e ∈ Table.set rot principal queue ↔ e = (principal, queue) ∨ e ∈ rot ∧ e.1 ≠ principal := by
  have hk : Table.NodupKeys (Table.set rot principal queue) := h.set
  constructor
  · intro he
    have hget := Table.get?_of_mem hk he
    rw [Table.get?_set] at hget
    split at hget
    · rename_i heq
      cases hget
      exact .inl (Prod.ext heq.symm rfl)
    · rename_i hne
      exact .inr ⟨Table.mem_of_get? hget, Ne.symm hne⟩
  · intro he
    apply Table.mem_of_get?
    rw [Table.get?_set]
    rcases he with rfl | ⟨he, hne⟩
    · rw [if_pos rfl]
    · rw [if_neg (Ne.symm hne)]
      exact Table.get?_of_mem h he

theorem Valid.set (h : Valid rot) {queue : List T} (hq : queue ≠ []) :
    Valid (Table.set rot principal queue) := by
  refine ⟨h.nodup.set, fun e he => ?_⟩
  rcases (mem_set_iff h.nodup).mp he with rfl | ⟨he, _⟩
  · exact hq
  · exact h.nonempty e he

theorem Valid.put (h : Valid rot) (front : Bool) : Valid (rot.put principal item front) := by
  apply Valid.set h
  cases front <;> simp

theorem put_ne_nil (front : Bool) : rot.put principal item front ≠ [] := by
  intro h
  have hsize : (rot.put principal item front).size = rot.size + 1 := size_put front
  rw [h] at hsize
  exact absurd hsize (by simp [size])

theorem Valid.pop (h : Valid rot) : Valid (Table.pop rot principal) :=
  ⟨h.nodup.pop, fun e he => h.nonempty e (Table.mem_pop.mp he).1⟩

theorem remove_of_notMem [DecidableEq T] (h : Valid rot) (hitem : ∀ e ∈ rot, item ∉ e.2) :
    rot.remove item = rot := by
  have hmap : (rot.map fun e => (e.1, e.2.erase item)) = rot := by
    conv => rhs; rw [← List.map_id rot]
    refine List.map_congr_left fun e he => ?_
    rw [List.erase_of_not_mem (hitem e he)]
    rfl
  rw [remove, hmap, List.filter_eq_self]
  exact fun e he => by simpa using h.nonempty e he

/-- An item that only one principal has is removed from the stream of that principal. -/
theorem remove_eq [DecidableEq T] {queue : List T} (h : Valid rot) (hq : rot.get? principal = some queue)
    (hother : ∀ e ∈ rot, e.1 ≠ principal → item ∉ e.2) :
    rot.remove item =
      if queue.erase item = [] then Table.pop rot principal
      else Table.set rot principal (queue.erase item) := by
  induction rot with
  | nil => cases hq
  | cons e rot ih =>
    have hkeys := h.nodup
    rw [Table.NodupKeys, List.map_cons, List.nodup_cons] at hkeys
    have hrest : Valid rot := ⟨hkeys.2, fun e he => h.nonempty e (List.mem_cons_of_mem _ he)⟩
    rw [Table.get?_cons] at hq
    split at hq
    · -- the stream stands here, and the others do not hold the item
      rename_i he
      cases hq
      have hkeep : ∀ e' ∈ rot, e'.1 ≠ principal := by
        intro e' he' heq
        exact hkeys.1 (he ▸ heq ▸ List.mem_map_of_mem he')
      have hsame : remove rot item = rot :=
        remove_of_notMem hrest fun e' he' =>
          hother e' (List.mem_cons_of_mem _ he') (hkeep e' he')
      have hpop : Table.pop rot principal = rot := by
        rw [Table.pop, List.filter_eq_self]
        exact fun e' he' => by simpa using hkeep e' he'
      have hcons : remove (e :: rot) item =
          (if e.2.erase item = [] then [] else [(e.1, e.2.erase item)]) ++ remove rot item := by
        unfold remove
        rw [List.map_cons, List.filter_cons]
        by_cases hc : e.2.erase item = [] <;> simp [hc]
      rw [hcons, hsame]
      split
      · simp only [List.nil_append]
        rw [Table.pop, List.filter_cons_of_neg (by simpa using he), ← Table.pop, hpop]
      · simp [Table.set, he]
    · rename_i he
      have hnot : item ∉ e.2 := hother e List.mem_cons_self he
      have hcons : remove (e :: rot) item = e :: remove rot item := by
        unfold remove
        rw [List.map_cons, List.filter_cons_of_pos]
        · rw [List.erase_of_not_mem hnot]
        · rw [List.erase_of_not_mem hnot]
          simpa using h.nonempty e List.mem_cons_self
      rw [hcons, ih hrest hq fun e' he' => hother e' (List.mem_cons_of_mem _ he')]
      split
      · rw [Table.pop, Table.pop, List.filter_cons_of_pos (by simpa using he)]
      · simp [Table.set, he]

theorem size_pop (h : rot.NodupKeys) {queue : List T} :
    rot.get? principal = some queue → size (Table.pop rot principal) + queue.length = rot.size := by
  induction rot with
  | nil => intro hq; cases hq
  | cons e rot ih =>
    intro hq
    rw [Table.NodupKeys, List.map_cons, List.nodup_cons] at h
    rw [Table.get?_cons] at hq
    split at hq
    · rename_i he
      cases hq
      have hpop : Table.pop (e :: rot) principal = rot := by
        rw [Table.pop, List.filter_cons_of_neg (by simpa using he), List.filter_eq_self]
        intro e' he'
        exact decide_eq_true fun heq => h.1 (he ▸ heq ▸ List.mem_map_of_mem he')
      rw [hpop]
      simp only [size, List.map_cons, List.sum_cons]
      omega
    · rename_i he
      have hrest := ih h.2 hq
      have hpop : Table.pop (e :: rot) principal = e :: Table.pop rot principal := by
        rw [Table.pop, List.filter_cons_of_pos (by simpa using he), Table.pop]
      rw [hpop]
      simp only [size, List.map_cons, List.sum_cons] at hrest ⊢
      omega

theorem size_remove [DecidableEq T] {queue : List T} (h : Valid rot)
    (hq : rot.get? principal = some queue) (hitem : item ∈ queue)
    (hother : ∀ e ∈ rot, e.1 ≠ principal → item ∉ e.2) : (rot.remove item).size + 1 = rot.size := by
  have hlen := List.length_erase_of_mem hitem
  have hpos := List.length_pos_of_mem hitem
  rw [remove_eq h hq hother]
  split
  · rename_i hnil
    have := size_pop h.nodup hq
    rw [hnil, List.length_nil] at hlen
    omega
  · have := size_set_of_get? (queue.erase item) hq
    omega

theorem size_next (principal : Str) {queue : List T} (others : Rotation T) (hq : queue ≠ []) :
    size (next ((principal, queue) :: others)) + 1 = size ((principal, queue) :: others) := by
  have hpos := List.length_pos_of_ne_nil hq
  have htail : queue.tail.length = queue.length - 1 := List.length_tail
  unfold next
  dsimp only
  split
  · rename_i hnil
    rw [hnil, List.length_nil] at htail
    simp only [size, List.append_nil, List.map_cons, List.sum_cons]
    omega
  · simp only [size, List.map_append, List.sum_append, List.map_cons, List.sum_cons, List.map_nil,
      List.sum_nil]
    omega

end Rotation

/-! ## Buckets -/

/-- A bucket holds a rotation: the principals in turn, and the queue of each. -/
structure Bucket.Holds (bucket : Bucket T) (rot : Rotation T) : Prop where
  principals : bucket.principals = rot.map Prod.fst
  queued : ∀ principal, bucket.queued.get? principal = rot.get? principal
  keys : bucket.queued.NodupKeys
  valid : rot.Valid

namespace Bucket.Holds

variable {bucket : Bucket T} {rot : Rotation T}

/-- The principals of a bucket are those with a non-empty queue. -/
theorem mem_principals (h : bucket.Holds rot) (principal : Str) :
    principal ∈ bucket.principals ↔ ∃ queue, bucket.queued.get? principal = some queue ∧ queue ≠ [] := by
  rw [h.principals]
  constructor
  · intro hp
    obtain ⟨e, he, rfl⟩ := List.mem_map.mp hp
    exact ⟨e.2, (h.queued e.1).trans (Table.get?_of_mem h.valid.nodup he), h.valid.nonempty e he⟩
  · rintro ⟨queue, hq, -⟩
    rw [h.queued] at hq
    exact List.mem_map_of_mem (Table.mem_of_get? hq)

/-- An insertion by `_put`. -/
theorem put (h : bucket.Holds rot) (principal : Str) (item : T) (front : Bool) :
    Bucket.Holds
      (let queue := (bucket.queued.get? principal).getD []
       ⟨if queue = [] then bucket.principals ++ [principal] else bucket.principals,
        bucket.queued.set principal (if front then item :: queue else queue ++ [item])⟩)
      (rot.put principal item front) := by
  refine ⟨?_, ?_, h.keys.set, h.valid.put front⟩
  · dsimp only
    rw [h.queued, h.principals, Rotation.put, Table.keys_set]
    cases hq : rot.get? principal with
    | none =>
      have hnot : principal ∉ rot.map Prod.fst := by
        intro hp
        obtain ⟨e, he, rfl⟩ := List.mem_map.mp hp
        rw [Table.get?_of_mem h.valid.nodup he] at hq
        cases hq
      rw [Option.getD_none, if_pos rfl, if_neg hnot]
    | some queue =>
      have hmem := Table.mem_of_get? hq
      rw [Option.getD_some, if_neg (h.valid.nonempty _ hmem), if_pos (Table.mem_keys_of_get? hq)]
  · intro principal'
    dsimp only
    rw [Rotation.put, Table.get?_set, Table.get?_set, h.queued, h.queued]

/-- What `popleft` of the principals and of the first queue leave. -/
theorem next {principal : Str} {queue : List T} {others : Rotation T}
    (h : bucket.Holds ((principal, queue) :: others)) :
    Bucket.Holds
      (if queue.tail = [] then ⟨bucket.principals.tail, bucket.queued.pop principal⟩
       else ⟨bucket.principals.tail ++ [principal], bucket.queued.set principal queue.tail⟩)
      (Rotation.next ((principal, queue) :: others)) := by
  have hkeys := h.valid.nodup
  rw [Table.NodupKeys, List.map_cons, List.nodup_cons] at hkeys
  have hothers : ∀ principal', others.get? principal' =
      if principal = principal' then none
      else Table.get? ((principal, queue) :: others) principal' := by
    intro principal'
    rw [Table.get?_cons]
    split
    · rename_i he
      exact Table.get?_eq_none (he ▸ hkeys.1)
    · rfl
  have htail : bucket.principals.tail = others.map Prod.fst := by
    rw [h.principals]
    rfl
  rw [Rotation.next]
  split
  · rw [List.append_nil]
    refine ⟨htail, ?_, h.keys.pop, hkeys.2, fun e he => h.valid.nonempty e (List.mem_cons_of_mem _ he)⟩
    intro principal'
    rw [Table.get?_pop, h.queued, hothers]
  · rename_i hrest
    have hvalid : Rotation.Valid (others ++ [(principal, queue.tail)]) := by
      constructor
      · rw [Table.NodupKeys, List.map_append, List.nodup_append]
        refine ⟨hkeys.2, List.nodup_singleton _, fun a ha b hb hab => hkeys.1 ?_⟩
        rw [List.map_cons, List.map_nil, List.mem_singleton] at hb
        exact hb ▸ hab ▸ ha
      · intro e he
        rcases List.mem_append.mp he with he | he
        · exact h.valid.nonempty e (List.mem_cons_of_mem _ he)
        · rw [List.mem_singleton.mp he]
          exact hrest
    refine ⟨?_, ?_, h.keys.set, hvalid⟩
    · dsimp only
      rw [htail, List.map_append]
      rfl
    · intro principal'
      dsimp only
      rw [Table.get?_set, h.queued]
      split
      · rename_i he
        subst he
        exact (Table.get?_of_mem hvalid.nodup (List.mem_append_right _ List.mem_cons_self)).symm
      · rename_i he
        have hsame := hothers principal'
        rw [if_neg he] at hsame
        rw [← hsame]
        unfold Table.get?
        rw [List.find?_append]
        simp [he]

/-- What removing an item from the queue of its principal leaves. -/
theorem remove [DecidableEq T] (h : bucket.Holds rot) {principal : Str} {queue : List T} {item : T}
    (hq : bucket.queued.get? principal = some queue)
    (hother : ∀ e ∈ rot, e.1 ≠ principal → item ∉ e.2) :
    Bucket.Holds
      (if queue.erase item = [] then ⟨bucket.principals.erase principal, bucket.queued.pop principal⟩
       else ⟨bucket.principals, bucket.queued.set principal (queue.erase item)⟩)
      (rot.remove item) := by
  rw [h.queued] at hq
  rw [Rotation.remove_eq h.valid hq hother]
  split
  · refine ⟨?_, ?_, h.keys.pop, h.valid.pop⟩
    · dsimp only
      rw [h.principals, List.Nodup.erase_eq_filter h.valid.nodup, Table.keys_pop]
      exact List.filter_congr fun x _ => by simp [bne, beq_eq_decide]
    · intro principal'
      rw [Table.get?_pop, Table.get?_pop, h.queued]
  · rename_i hrest
    refine ⟨?_, ?_, h.keys.set, h.valid.set hrest⟩
    · dsimp only
      rw [h.principals, Table.keys_set, if_pos (Table.mem_keys_of_get? hq)]
    · intro principal'
      rw [Table.get?_set, Table.get?_set, h.queued]

end Bucket.Holds

/-! ## The scheduler represents a plan -/

/-- The number of items of the given priorities. -/
def Plan.size (plan : Plan T) (priorities : List Int) : Nat :=
  (priorities.map fun p => (plan p).size).sum

/-- The four structures stand for a plan. -/
structure Represents (sch : FairScheduler T) (plan : Plan T) : Prop where
  heap : Heapq.IsHeap sch.heap
  keys : sch.priorities.NodupKeys
  heap_keys : sch.heap.Perm (sch.priorities.map Prod.fst)
  bucket : ∀ p b, sch.priorities.get? p = some b → b.Holds (plan p) ∧ plan p ≠ []
  absent : ∀ p, sch.priorities.get? p = none → plan p = []
  size : sch.size = plan.size (sch.priorities.map Prod.fst)

theorem Plan.size_update_of_notMem {plan : Plan T} {p : Int} {rot : Rotation T} {priorities : List Int}
    (h : p ∉ priorities) : Plan.size (Function.update plan p rot) priorities = plan.size priorities := by
  unfold Plan.size
  congr 1
  refine List.map_congr_left fun p' hp' => ?_
  have hne : p' ≠ p := fun he => h (he ▸ hp')
  rw [Function.update_of_ne hne]

theorem Plan.size_update_of_mem (plan : Plan T) {p : Int} (rot : Rotation T) :
    ∀ {priorities : List Int}, priorities.Nodup → p ∈ priorities →
      Plan.size (Function.update plan p rot) priorities + (plan p).size =
        plan.size priorities + rot.size := by
  intro priorities hnodup hp
  induction priorities with
  | nil => cases hp
  | cons p' priorities ih =>
    rw [List.nodup_cons] at hnodup
    have hcons : ∀ plan : Plan T,
        plan.size (p' :: priorities) = (plan p').size + plan.size priorities := by
      intro plan
      rfl
    rw [hcons, hcons]
    rcases List.mem_cons.mp hp with rfl | hp
    · rw [Plan.size_update_of_notMem hnodup.1, Function.update_self]
      omega
    · have hne : p' ≠ p := fun he => hnodup.1 (he ▸ hp)
      rw [Function.update_of_ne hne]
      have := ih hnodup.2 hp
      omega

namespace Represents

variable {sch : FairScheduler T} {plan : Plan T}

theorem empty : Represents (FairScheduler.empty : FairScheduler T) Plan.empty where
  heap := fun _ _ _ hc => absurd hc (Nat.not_lt_zero _)
  keys := List.nodup_nil
  heap_keys := .refl _
  bucket := fun _ _ h => nomatch h
  absent := fun _ _ => rfl
  size := rfl

theorem holds (h : Represents sch plan) (p : Int) :
    (((sch.priorities.get? p).getD ⟨[], []⟩).Holds (plan p)) := by
  cases hb : sch.priorities.get? p with
  | none =>
    rw [h.absent p hb]
    exact ⟨rfl, fun _ => rfl, List.nodup_nil, .nil⟩
  | some b => exact (h.bucket p b hb).1

/-- The bucket of one priority changes and is not empty. -/
theorem set (h : Represents sch plan) {p : Int} {b : Bucket T} {rot : Rotation T} {size : Nat}
    (hb : b.Holds rot) (hne : rot ≠ []) (hsize : size + (plan p).size = sch.size + rot.size) :
    Represents
      ⟨sch.priorities.set p b,
        if (sch.priorities.get? p).isNone then Heapq.push sch.heap p else sch.heap, size⟩
      (Function.update plan p rot) := by
  have hmem : (sch.priorities.get? p).isNone = true ↔ p ∉ sch.priorities.map Prod.fst := by
    constructor
    · intro hn hp
      obtain ⟨e, he, rfl⟩ := List.mem_map.mp hp
      rw [Table.get?_of_mem h.keys he] at hn
      cases hn
    · intro hp
      rw [Table.get?_eq_none hp]
      rfl
  refine ⟨?_, h.keys.set, ?_, ?_, ?_, ?_⟩
  · dsimp only
    split
    · exact Heapq.isHeap_push h.heap p
    · exact h.heap
  · dsimp only
    rw [Table.keys_set]
    split
    · rename_i hn
      rw [if_neg (hmem.mp hn)]
      exact (Heapq.push_perm _ _).trans ((h.heap_keys.cons p).trans
        (List.perm_append_singleton _ _).symm)
    · rename_i hn
      rw [if_pos (not_not.mp fun hp => hn (hmem.mpr hp))]
      exact h.heap_keys
  · intro p' b' hb'
    rw [Table.get?_set] at hb'
    split at hb'
    · rename_i he
      cases hb'
      subst he
      rw [Function.update_self]
      exact ⟨hb, hne⟩
    · rename_i he
      rw [Function.update_of_ne (Ne.symm he)]
      exact h.bucket p' b' hb'
  · intro p' hp'
    rw [Table.get?_set] at hp'
    split at hp'
    · cases hp'
    · rename_i he
      rw [Function.update_of_ne (Ne.symm he)]
      exact h.absent p' hp'
  · dsimp only
    rw [Table.keys_set]
    have hold := h.size
    split
    · rename_i hp
      have := Plan.size_update_of_mem plan rot h.keys hp
      omega
    · rename_i hp
      have hempty := h.absent p (Table.get?_eq_none hp)
      have happend : ∀ plan' : Plan T, plan'.size (sch.priorities.map Prod.fst ++ [p]) =
          plan'.size (sch.priorities.map Prod.fst) + (plan' p).size := by
        intro plan'
        simp [Plan.size]
      rw [happend, Plan.size_update_of_notMem hp, Function.update_self]
      rw [hempty] at hsize
      simp only [Rotation.size, List.map_nil, List.sum_nil] at hsize ⊢
      omega

/-- The last item of a priority goes, and the priority with it. -/
theorem pop (h : Represents sch plan) {p : Int} {heap : List Int} {size : Nat}
    (hheap : Heapq.IsHeap heap) (hperm : (p :: heap).Perm sch.heap)
    (hsize : size + (plan p).size = sch.size) :
    Represents ⟨sch.priorities.pop p, heap, size⟩ (Function.update plan p []) := by
  have hp : p ∈ sch.priorities.map Prod.fst :=
    h.heap_keys.mem_iff.mp (hperm.mem_iff.mp List.mem_cons_self)
  have hkeys : (p :: heap).Perm (sch.priorities.map Prod.fst) := hperm.trans h.heap_keys
  have hpop : heap.Perm ((sch.priorities.pop p).map Prod.fst) := by
    rw [Table.keys_pop]
    have hnodup : (p :: heap).Nodup := hkeys.nodup_iff.mpr h.keys
    have hfilter := hkeys.filter (· ≠ p)
    rw [List.filter_cons_of_neg (by simp)] at hfilter
    rw [List.filter_eq_self.mpr] at hfilter
    · exact hfilter
    · intro p' hp'
      have := (List.nodup_cons.mp hnodup).1
      exact decide_eq_true fun he => this (he ▸ hp')
  refine ⟨hheap, h.keys.pop, hpop, ?_, ?_, ?_⟩
  · intro p' b' hb'
    rw [Table.get?_pop] at hb'
    split at hb'
    · cases hb'
    · rename_i he
      rw [Function.update_of_ne (Ne.symm he)]
      exact h.bucket p' b' hb'
  · intro p' hp'
    rw [Table.get?_pop] at hp'
    split at hp'
    · rename_i he
      rw [← he, Function.update_self]
    · rename_i he
      rw [Function.update_of_ne (Ne.symm he)]
      exact h.absent p' hp'
  · have hall := Plan.size_update_of_mem plan [] h.keys hp
    have hold := h.size
    have hperm' : ∀ plan' : Plan T, plan'.size (sch.priorities.map Prod.fst) =
        (plan' p).size + plan'.size ((sch.priorities.pop p).map Prod.fst) := by
      intro plan'
      have hsum := ((hkeys.symm.trans (hpop.cons p)).map fun k => (plan' k).size).sum_nat
      simpa [Plan.size] using hsum
    rw [hperm' (Function.update plan p []), Function.update_self] at hall
    simp only [Rotation.size, List.map_nil, List.sum_nil] at hall hsize ⊢
    omega

theorem valid (h : Represents sch plan) (p : Int) : (plan p).Valid := (h.holds p).valid

/-- `put` and `put_front`. -/
theorem putAt (h : Represents sch plan) (item : T) (p : Int) (principal : Str) (front : Bool) :
    Represents (sch.putAt item p principal front) (plan.put item p principal front) := by
  have hsize : (Rotation.put (plan p) principal item front).size = (plan p).size + 1 :=
    Rotation.size_put front
  exact h.set ((h.holds p).put principal item front) (Rotation.put_ne_nil front) (by omega)

theorem mem_heap (h : Represents sch plan) {p : Int} : p ∈ sch.heap ↔ plan p ≠ [] := by
  rw [h.heap_keys.mem_iff]
  constructor
  · intro hp
    obtain ⟨e, he, rfl⟩ := List.mem_map.mp hp
    exact (h.bucket e.1 e.2 (Table.get?_of_mem h.keys he)).2
  · intro hp
    cases hb : sch.priorities.get? p with
    | none => exact absurd (h.absent p hb) hp
    | some b => exact Table.mem_keys_of_get? hb

/-- The head of the heap is the least priority with items. -/
theorem head?_heap (h : Represents sch plan) {p : Int} (hp : plan p ≠ [])
    (hleast : ∀ p' < p, plan p' = []) : sch.heap.head? = some p := by
  have hmem := h.mem_heap.mpr hp
  obtain ⟨i, hi, rfl⟩ := List.getElem_of_mem hmem
  have hle := h.heap.head_le i hi
  rw [List.getD_eq_getElem _ _ hi, List.getD_eq_getElem _ _ (by omega)] at hle
  have hhead : sch.heap[0] ∈ sch.heap := List.getElem_mem _
  have hge : ¬ sch.heap[0] < sch.heap[i] := fun hlt => h.mem_heap.mp hhead (hleast _ hlt)
  rw [List.head?_eq_getElem?, List.getElem?_eq_getElem (by omega)]
  exact congrArg some (le_antisymm hle (not_lt.mp hge))

theorem size_pos (h : Represents sch plan) {p : Int} (hp : plan p ≠ []) : sch.size ≠ 0 := by
  have hmem : p ∈ sch.priorities.map Prod.fst := h.heap_keys.mem_iff.mp (h.mem_heap.mpr hp)
  have hsum := ((List.perm_cons_erase hmem).map fun p => (plan p).size).sum_nat
  have hone : 0 < (plan p).size := by
    match hrot : plan p, hp with
    | e :: rest, _ =>
      have hne := (h.valid p).nonempty e (hrot ▸ List.mem_cons_self)
      have := List.length_pos_of_ne_nil hne
      simp only [Rotation.size, List.map_cons, List.sum_cons]
      omega
  rw [List.map_cons, List.sum_cons] at hsum
  rw [h.size, Plan.size]
  omega

theorem set_present (h : Represents sch plan) {p : Int} {b : Bucket T} {rot : Rotation T} {size : Nat}
    (hp : plan p ≠ []) (hb : b.Holds rot) (hne : rot ≠ [])
    (hsize : size + (plan p).size = sch.size + rot.size) :
    Represents ⟨sch.priorities.set p b, sch.heap, size⟩ (Function.update plan p rot) := by
  have hset := h.set hb hne hsize
  rwa [if_neg] at hset
  intro hn
  rw [Option.isNone_iff_eq_none] at hn
  exact hp (h.absent p hn)

/-- `pop` takes the first item of the first principal of the least priority. -/
theorem pop_some [DecidableEq T] (h : Represents sch plan) {p : Int} {principal : Str} {item : T}
    {rest : List T} {others : Rotation T} (hp : plan p = (principal, item :: rest) :: others)
    (hleast : ∀ p' < p, plan p' = []) :
    ∃ sch', sch.pop = some (item, sch') ∧ Represents sch' (plan.next p) := by
  have hne : plan p ≠ [] := by
    rw [hp]
    exact List.cons_ne_nil _ _
  have hhead := h.head?_heap hne hleast
  obtain ⟨b, hb⟩ : ∃ b, sch.priorities.get? p = some b := by
    cases hb : sch.priorities.get? p with
    | none => exact absurd (h.absent p hb) hne
    | some b => exact ⟨b, rfl⟩
  have hholds := (h.bucket p b hb).1
  have hprincipal : b.principals.head? = some principal := by
    rw [hholds.principals, hp]
    rfl
  have hqueue : b.queued.get? principal = some (item :: rest) := by
    rw [hholds.queued, hp, Table.get?_cons, if_pos rfl]
  rw [hp] at hholds
  have hnext := hholds.next
  have hsize := Rotation.size_next principal others (List.cons_ne_nil item rest)
  have hzero := h.size_pos hne
  unfold FairScheduler.pop
  rw [if_neg hzero]
  simp only [hhead, hb, hprincipal, hqueue, Option.bind_eq_bind, Option.bind_some, List.head?_cons,
    Option.some.injEq, Prod.mk.injEq, exists_eq_left', true_and]
  rw [Plan.next, hp]
  generalize (if (item :: rest).tail = [] then (_ : Bucket T) else _) = bucket at hnext ⊢
  split
  · rename_i hempty
    have hnil : Rotation.next ((principal, item :: rest) :: others) = [] := by
      rw [hnext.principals] at hempty
      exact List.map_eq_nil_iff.mp hempty
    rw [hnil, ← hp] at hsize
    rw [hnil]
    have hheap : sch.heap ≠ [] := by
      intro hempty
      rw [hempty] at hhead
      cases hhead
    obtain ⟨hperm, hheap⟩ := Heapq.pop_spec h.heap hheap
    have hp0 : sch.heap.getD 0 default = p := by
      rw [List.getD_eq_getElem?_getD, ← List.head?_eq_getElem?, hhead]
      rfl
    rw [hp0] at hperm
    refine h.pop hheap hperm ?_
    simp only [Rotation.size, List.map_nil, List.sum_nil] at hsize ⊢
    omega
  · rename_i hempty
    rw [← hp] at hsize
    refine h.set_present hne hnext ?_ (by rw [← hp]; omega)
    intro hnil
    rw [hnil] at hnext
    exact hempty hnext.principals

/-- No priority before the head of the heap has items. -/
theorem least (h : Represents sch plan) (hpos : 0 < sch.heap.length) :
    ∀ p' < sch.heap[0], plan p' = [] := by
  intro p' hlt
  by_contra hne
  obtain ⟨i, hi, rfl⟩ := List.getElem_of_mem (h.mem_heap.mpr hne)
  have hle := h.heap.head_le i hi
  rw [List.getD_eq_getElem _ _ hi, List.getD_eq_getElem _ _ hpos] at hle
  exact absurd hlt (not_lt.mpr hle)

/-- `pop` raises `IndexError` when nothing is queued, and only then. -/
theorem pop_none [DecidableEq T] (h : Represents sch plan) : sch.pop = none ↔ ∀ p, plan p = [] := by
  constructor
  · intro hnone
    by_contra hsome
    obtain ⟨p, hp⟩ := not_forall.mp hsome
    have hmem := h.mem_heap.mpr hp
    have hpos := List.length_pos_of_mem hmem
    have hhead := h.mem_heap.mp (List.getElem_mem hpos)
    obtain ⟨e, others, hrot⟩ := List.exists_cons_of_ne_nil hhead
    obtain ⟨item, rest, hqueue⟩ := List.exists_cons_of_ne_nil
      ((h.valid _).nonempty e (hrot ▸ List.mem_cons_self))
    have he : e = (e.1, item :: rest) := by rw [← hqueue]
    rw [he] at hrot
    obtain ⟨sch', hpop, -⟩ := h.pop_some hrot (h.least hpos)
    rw [hpop] at hnone
    cases hnone
  · intro hall
    have hkeys : sch.priorities.map Prod.fst = [] := by
      rw [List.eq_nil_iff_forall_not_mem]
      intro p hp
      exact h.mem_heap.mp (h.heap_keys.mem_iff.mpr hp) (hall p)
    have hzero : sch.size = 0 := by
      rw [h.size, hkeys]
      rfl
    rw [FairScheduler.pop, if_pos hzero]

/-- An item is found at its place. -/
theorem find_some [DecidableEq T] (h : Represents sch plan) {item : T} {p : Int} {b : Bucket T}
    {principal : Str} {queue : List T} (hf : sch.find item = some (p, b, principal, queue)) :
    sch.priorities.get? p = some b ∧ b.queued.get? principal = some queue ∧ item ∈ queue := by
  unfold FairScheduler.find at hf
  obtain ⟨⟨p', b'⟩, he, hin⟩ := List.exists_of_findSome?_eq_some hf
  obtain ⟨⟨principal', queue'⟩, he', hin⟩ := List.exists_of_findSome?_eq_some hin
  dsimp only at hin
  split at hin
  · rename_i hitem
    cases hin
    have hb := Table.get?_of_mem h.keys he
    exact ⟨hb, Table.get?_of_mem (h.bucket _ _ hb).1.keys he', hitem⟩
  · cases hin

theorem find_none [DecidableEq T] (h : Represents sch plan) {item : T} (hf : sch.find item = none)
    (p : Int) (principal : Str) : ¬ plan.Queued item p principal := by
  rintro ⟨queue, hq, hitem⟩
  unfold FairScheduler.find at hf
  rw [List.findSome?_eq_none_iff] at hf
  cases hb : sch.priorities.get? p with
  | none =>
    rw [h.absent p hb] at hq
    cases hq
  | some b =>
    have hholds := (h.bucket p b hb).1
    have hnone := hf (p, b) (Table.mem_of_get? hb)
    rw [List.findSome?_eq_none_iff] at hnone
    have hqueue := Table.get?_of_mem hholds.valid.nodup hq
    rw [← hholds.queued] at hqueue
    have := hnone (principal, queue) (Table.mem_of_get? hqueue)
    dsimp only at this
    rw [if_pos hitem] at this
    cases this

/-- `remove` takes the item out of its stream. -/
theorem remove [DecidableEq T] (h : Represents sch plan) (hd : plan.Distinct) (item : T) :
    Represents (sch.remove item) (plan.remove item) := by
  unfold FairScheduler.remove
  cases hf : sch.find item with
  | none =>
    have hsame : plan.remove item = plan := by
      funext p
      refine Rotation.remove_of_notMem (h.valid p) fun e he hitem => ?_
      exact h.find_none hf p e.1 ⟨e.2, he, hitem⟩
    rw [hsame]
    exact h
  | some place =>
    obtain ⟨p, b, principal, queue⟩ := place
    obtain ⟨hb, hqueue, hitem⟩ := h.find_some hf
    obtain ⟨hholds, hne⟩ := h.bucket p b hb
    have hrot : (plan p).get? principal = some queue := (hholds.queued principal).symm.trans hqueue
    have hhere : plan.Queued item p principal := ⟨queue, Table.mem_of_get? hrot, hitem⟩
    have hother : ∀ e ∈ plan p, e.1 ≠ principal → item ∉ e.2 := by
      intro e he hne hin
      exact hne (hd.place item p principal p e.1 hhere ⟨e.2, he, hin⟩).2.symm
    have hupdate : plan.remove item = Function.update plan p ((plan p).remove item) := by
      funext p'
      by_cases hp : p' = p
      · rw [hp, Function.update_self]
        rfl
      · rw [Function.update_of_ne hp]
        refine Rotation.remove_of_notMem (h.valid p') fun e he hin => ?_
        exact hp (hd.place item p principal p' e.1 hhere ⟨e.2, he, hin⟩).1.symm
    have hsize := Rotation.size_remove (h.valid p) hrot hitem hother
    have hzero := h.size_pos hne
    have hremove := hholds.remove hqueue hother
    rw [hupdate]
    dsimp only
    generalize (if queue.erase item = [] then (_ : Bucket T) else _) = bucket at hremove ⊢
    split
    · rename_i hempty
      have hnil : (plan p).remove item = [] := by
        rw [hremove.principals] at hempty
        exact List.map_eq_nil_iff.mp hempty
      rw [hnil] at hsize ⊢
      obtain ⟨hperm, hheap⟩ := Heapq.heapify_spec (sch.heap.erase p)
      refine h.pop hheap ?_ ?_
      · exact (hperm.cons p).trans (List.perm_cons_erase (h.mem_heap.mpr hne)).symm
      · simp only [Rotation.size, List.map_nil, List.sum_nil] at hsize ⊢
        omega
    · rename_i hempty
      refine h.set_present hne hremove ?_ (by omega)
      intro hnil
      rw [hnil] at hremove
      exact hempty hremove.principals

end Represents

/-! ## Where the items are -/

namespace Plan

variable {plan : Plan T} {item item' : T} {p p' : Int} {q q' : Str}

/-- Every rotation is valid. -/
def Valid (plan : Plan T) : Prop := ∀ p, (plan p).Valid

theorem Valid.put (hv : plan.Valid) (front : Bool) : (plan.put item p q front).Valid := by
  intro p'
  unfold Plan.put
  by_cases hp : p' = p
  · rw [hp, Function.update_self]
    exact Rotation.Valid.put (hv p) front
  · rw [Function.update_of_ne hp]
    exact hv p'

theorem queued_put (hv : plan.Valid) (front : Bool) :
    (plan.put item p q front).Queued item' p' q' ↔
      plan.Queued item' p' q' ∨ item' = item ∧ p' = p ∧ q' = q := by
  have hqueue : ∀ queue : List T,
      item' ∈ (if front = true then item :: queue else queue ++ [item]) ↔
        item' ∈ queue ∨ item' = item := by
    intro queue
    cases front <;> simp [or_comm]
  unfold Queued put
  by_cases hp : p' = p
  · subst hp
    rw [Function.update_self, Rotation.put]
    simp only [Rotation.mem_set_iff (hv p').nodup, Prod.mk.injEq, true_and]
    constructor
    · rintro ⟨queue, ⟨rfl, rfl⟩ | ⟨hmem, hne⟩, hin⟩
      · rcases (hqueue _).mp hin with hin | hin
        · cases hq : (plan p').get? q' with
          | none =>
            rw [hq] at hin
            cases hin
          | some queue =>
            rw [hq] at hin
            exact .inl ⟨queue, Table.mem_of_get? hq, hin⟩
        · exact .inr ⟨hin, rfl⟩
      · exact .inl ⟨queue, hmem, hin⟩
    · rintro (⟨queue, hmem, hin⟩ | ⟨rfl, rfl⟩)
      · by_cases hq : q' = q
        · subst hq
          refine ⟨_, .inl ⟨rfl, rfl⟩, (hqueue _).mpr (.inl ?_)⟩
          rw [Table.get?_of_mem (hv p').nodup hmem]
          exact hin
        · exact ⟨queue, .inr ⟨hmem, hq⟩, hin⟩
      · exact ⟨_, .inl ⟨rfl, rfl⟩, (hqueue _).mpr (.inr rfl)⟩
  · rw [Function.update_of_ne hp]
    simp [hp]

theorem queued_remove [DecidableEq T] (hd : plan.Distinct) :
    (plan.remove item).Queued item' p q ↔ plan.Queued item' p q ∧ item' ≠ item := by
  unfold Queued remove Rotation.remove
  constructor
  · rintro ⟨queue, hmem, hin⟩
    obtain ⟨e, he, heq⟩ := List.mem_map.mp (List.mem_filter.mp hmem).1
    cases heq
    rw [(hd.nodup p e he).mem_erase_iff] at hin
    exact ⟨⟨e.2, he, hin.2⟩, hin.1⟩
  · rintro ⟨⟨queue, hmem, hin⟩, hne⟩
    have hin' : item' ∈ queue.erase item := ((hd.nodup p _ hmem).mem_erase_iff).mpr ⟨hne, hin⟩
    refine ⟨queue.erase item, List.mem_filter.mpr ⟨List.mem_map.mpr ⟨_, hmem, rfl⟩, ?_⟩, hin'⟩
    exact decide_eq_true (List.ne_nil_of_mem hin')

/-- Taking the first item of a priority. -/
theorem queued_next {rest : List T} {others : Rotation T} (hv : plan.Valid) (hd : plan.Distinct)
    (hp : plan p = (q, item :: rest) :: others) :
    (plan.next p).Queued item' p' q' ↔ plan.Queued item' p' q' ∧ item' ≠ item := by
  have hfirst : plan.Queued item p q := ⟨item :: rest, hp ▸ List.mem_cons_self, List.mem_cons_self⟩
  have hnodup : (item :: rest).Nodup := hd.nodup p (q, item :: rest) (hp ▸ List.mem_cons_self)
  have hnot := (List.nodup_cons.mp hnodup).1
  have hnext : ∀ e, e ∈ (plan p).next ↔ e ∈ others ∨ rest ≠ [] ∧ e = (q, rest) := by
    intro e
    rw [hp, Rotation.next, List.mem_append, List.tail_cons]
    split <;> simp_all
  unfold next
  constructor
  · rintro ⟨queue, hmem, hin⟩
    by_cases hpp : p' = p
    · subst hpp
      rw [Function.update_self, hnext] at hmem
      rcases hmem with hmem | ⟨-, he⟩
      · have hold : plan.Queued item' p' q' := ⟨queue, hp ▸ List.mem_cons_of_mem _ hmem, hin⟩
        refine ⟨hold, ?_⟩
        rintro rfl
        -- the principal of the first item has no other stream
        obtain ⟨-, rfl⟩ := hd.place item' p' q' p' q hold hfirst
        have hkeys := (hv p').nodup
        rw [hp, Table.NodupKeys, List.map_cons, List.nodup_cons] at hkeys
        exact hkeys.1 (List.mem_map.mpr ⟨_, hmem, rfl⟩)
      · cases he
        exact ⟨⟨item :: rest, hp ▸ List.mem_cons_self, List.mem_cons_of_mem _ hin⟩,
          fun he => hnot (he ▸ hin)⟩
    · rw [Function.update_of_ne hpp] at hmem
      refine ⟨⟨queue, hmem, hin⟩, ?_⟩
      rintro rfl
      exact hpp (hd.place item' p' q' p q ⟨queue, hmem, hin⟩ hfirst).1
  · rintro ⟨⟨queue, hmem, hin⟩, hne⟩
    by_cases hpp : p' = p
    · subst hpp
      rw [hp] at hmem
      rcases List.mem_cons.mp hmem with he | hmem
      · cases he
        have hin' : item' ∈ rest := (List.mem_cons.mp hin).resolve_left hne
        refine ⟨rest, ?_, hin'⟩
        rw [Function.update_self, hnext]
        exact .inr ⟨List.ne_nil_of_mem hin', rfl⟩
      · refine ⟨queue, ?_, hin⟩
        rw [Function.update_self, hnext]
        exact .inl hmem
    · refine ⟨queue, ?_, hin⟩
      rw [Function.update_of_ne hpp]
      exact hmem

theorem not_queued_empty (item : T) (p : Int) (q : Str) : ¬ Plan.empty.Queued item p q := by
  rintro ⟨queue, hmem, -⟩
  cases hmem

theorem Distinct.empty : Distinct (Plan.empty : Plan T) where
  nodup := fun _ _ h => nomatch h
  place := fun item p q _ _ h => absurd h (not_queued_empty item p q)

theorem Distinct.put (hd : plan.Distinct) (hv : plan.Valid) (hnew : ∀ p q, ¬ plan.Queued item p q)
    (front : Bool) : (plan.put item p q front).Distinct := by
  constructor
  · intro p' e he
    unfold Plan.put at he
    by_cases hp : p' = p
    · subst hp
      rw [Function.update_self] at he
      rcases (Rotation.mem_set_iff (hv p').nodup).mp he with rfl | ⟨he, _⟩
      · have hqueue : ((plan p').get? q).getD [] = [] ∨
            (q, ((plan p').get? q).getD []) ∈ plan p' := by
          cases hq : (plan p').get? q with
          | none => exact .inl rfl
          | some queue => exact .inr (Table.mem_of_get? hq)
        have hnodup : (((plan p').get? q).getD []).Nodup := by
          rcases hqueue with hnil | hmem
          · rw [hnil]
            exact List.nodup_nil
          · exact hd.nodup p' _ hmem
        have hnot : item ∉ ((plan p').get? q).getD [] := by
          intro hin
          rcases hqueue with hnil | hmem
          · rw [hnil] at hin
            cases hin
          · exact hnew p' q ⟨_, hmem, hin⟩
        dsimp only
        cases front
        · exact List.nodup_append.mpr ⟨hnodup, List.nodup_singleton _, fun a ha b hb hab =>
            hnot (List.mem_singleton.mp hb ▸ hab ▸ ha)⟩
        · exact List.nodup_cons.mpr ⟨hnot, hnodup⟩
      · exact hd.nodup p' e he
    · rw [Function.update_of_ne hp] at he
      exact hd.nodup p' e he
  · intro item' p₁ q₁ p₂ q₂ h₁ h₂
    rw [queued_put hv] at h₁ h₂
    rcases h₁ with h₁ | ⟨rfl, rfl, rfl⟩
    · rcases h₂ with h₂ | ⟨rfl, rfl, rfl⟩
      · exact hd.place item' p₁ q₁ p₂ q₂ h₁ h₂
      · exact absurd h₁ (hnew p₁ q₁)
    · rcases h₂ with h₂ | ⟨-, rfl, rfl⟩
      · exact absurd h₂ (hnew p₂ q₂)
      · exact ⟨rfl, rfl⟩

theorem Distinct.remove [DecidableEq T] (hd : plan.Distinct) : (plan.remove item).Distinct := by
  constructor
  · intro p e he
    obtain ⟨e', he', rfl⟩ := List.mem_map.mp (List.mem_filter.mp he).1
    exact (hd.nodup p e' he').erase _
  · intro item' p₁ q₁ p₂ q₂ h₁ h₂
    rw [queued_remove hd] at h₁ h₂
    exact hd.place item' p₁ q₁ p₂ q₂ h₁.1 h₂.1

theorem Distinct.next {rest : List T} {others : Rotation T} (hd : plan.Distinct) (hv : plan.Valid)
    (hp : plan p = (q, item :: rest) :: others) : (plan.next p).Distinct := by
  constructor
  · intro p' e he
    unfold Plan.next at he
    by_cases hpp : p' = p
    · subst hpp
      rw [Function.update_self, hp, Rotation.next, List.mem_append] at he
      have hfirst := hd.nodup p' (q, item :: rest) (hp ▸ List.mem_cons_self)
      rcases he with he | he
      · exact hd.nodup p' e (hp ▸ List.mem_cons_of_mem _ he)
      · rw [List.tail_cons] at he
        split at he
        · cases he
        · rw [List.mem_singleton.mp he]
          exact (List.nodup_cons.mp hfirst).2
    · rw [Function.update_of_ne hpp] at he
      exact hd.nodup p' e he
  · intro item' p₁ q₁ p₂ q₂ h₁ h₂
    rw [queued_next hv hd hp] at h₁ h₂
    exact hd.place item' p₁ q₁ p₂ q₂ h₁.1 h₂.1

end Plan

/-! ## Sequences of operations -/

inductive SchedulerOp (T : Type) where
  | put (item : T) (priority : Int) (principal : Str)
  | putFront (item : T) (priority : Int) (principal : Str)
  | pop
  | remove (item : T)

section Runs

variable [DecidableEq T]

/-- One operation, with the item that it returns. -/
def FairScheduler.step (sch : FairScheduler T) : SchedulerOp T → Option T × FairScheduler T
  | .put item priority principal => (none, sch.put item priority principal)
  | .putFront item priority principal => (none, sch.putFront item priority principal)
  | .pop =>
    match sch.pop with
    | none => (none, sch)
    | some (item, sch) => (some item, sch)
  | .remove item => (none, sch.remove item)

/-- The items that a sequence of operations returns, and what it leaves. -/
def FairScheduler.run (sch : FairScheduler T) : List (SchedulerOp T) → List (Option T) × FairScheduler T
  | [] => ([], sch)
  | op :: ops =>
    let (out, sch) := sch.step op
    let (outs, sch) := FairScheduler.run sch ops
    (out :: outs, sch)

open Classical in
/-- The abstract `pop`: the first item of the first principal of the least priority with items. -/
noncomputable def Plan.pop (plan : Plan T) : Option (T × Plan T) :=
  if h : ∃ p, plan p ≠ [] ∧ ∀ p' < p, plan p' = [] then
    ((plan h.choose).head?.bind fun e => e.2.head?).map fun item => (item, plan.next h.choose)
  else none

noncomputable def Plan.step (plan : Plan T) : SchedulerOp T → Option T × Plan T
  | .put item priority principal => (none, plan.put item priority principal false)
  | .putFront item priority principal => (none, plan.put item priority principal true)
  | .pop =>
    match plan.pop with
    | none => (none, plan)
    | some (item, plan) => (some item, plan)
  | .remove item => (none, plan.remove item)

noncomputable def Plan.run (plan : Plan T) : List (SchedulerOp T) → List (Option T) × Plan T
  | [] => ([], plan)
  | op :: ops =>
    let (out, plan) := plan.step op
    let (outs, plan) := Plan.run plan ops
    (out :: outs, plan)

/-- An item is put only when it is not queued. -/
def Plan.Fresh (plan : Plan T) : SchedulerOp T → Prop
  | .put item _ _ | .putFront item _ _ => ∀ p q, ¬ plan.Queued item p q
  | _ => True

/-- The queued items are distinct throughout. -/
def Plan.FreshRun (plan : Plan T) : List (SchedulerOp T) → Prop
  | [] => True
  | op :: ops => plan.Fresh op ∧ Plan.FreshRun (plan.step op).2 ops

variable {sch : FairScheduler T} {plan : Plan T}

/-- The abstract `pop` of a plan that a scheduler represents. -/
theorem Represents.pop_eq (h : Represents sch plan) :
    (sch.pop = none ∧ plan.pop = none ∧ ∀ p, plan p = []) ∨
      ∃ p q item rest others sch', plan p = (q, item :: rest) :: others ∧
        sch.pop = some (item, sch') ∧ plan.pop = some (item, plan.next p) ∧
        Represents sch' (plan.next p) ∧ ∀ p' < p, plan p' = [] := by
  unfold Plan.pop
  split
  · rename_i hleast
    obtain ⟨hne, hmin⟩ := hleast.choose_spec
    obtain ⟨e, others, hrot⟩ := List.exists_cons_of_ne_nil hne
    obtain ⟨item, rest, hqueue⟩ := List.exists_cons_of_ne_nil
      ((h.valid _).nonempty e (hrot ▸ List.mem_cons_self))
    have he : e = (e.1, item :: rest) := by rw [← hqueue]
    rw [he] at hrot
    obtain ⟨sch', hpop, hrep⟩ := h.pop_some hrot hmin
    refine .inr ⟨_, e.1, item, rest, others, sch', hrot, hpop, ?_, hrep, hmin⟩
    rw [hrot]
    rfl
  · rename_i hleast
    refine .inl ?_
    cases hpop : sch.pop with
    | none => exact ⟨rfl, rfl, h.pop_none.mp hpop⟩
    | some r =>
      -- the head of the heap would be a least priority
      have hsome : ¬ ∀ p, plan p = [] := fun hall => by
        rw [h.pop_none.mpr hall] at hpop
        cases hpop
      obtain ⟨p, hp⟩ := not_forall.mp hsome
      have hpos := List.length_pos_of_mem (h.mem_heap.mpr hp)
      exact absurd ⟨_, h.mem_heap.mp (List.getElem_mem hpos), h.least hpos⟩ hleast

/-- One operation on both sides. -/
theorem Represents.step (h : Represents sch plan) (hd : plan.Distinct) {op : SchedulerOp T}
    (hf : plan.Fresh op) :
    (sch.step op).1 = (plan.step op).1 ∧ Represents (sch.step op).2 (plan.step op).2 ∧
      (plan.step op).2.Distinct := by
  cases op with
  | put item p q => exact ⟨rfl, h.putAt item p q false, hd.put h.valid hf false⟩
  | putFront item p q => exact ⟨rfl, h.putAt item p q true, hd.put h.valid hf true⟩
  | remove item => exact ⟨rfl, h.remove hd item, hd.remove⟩
  | pop =>
    unfold FairScheduler.step Plan.step
    rcases h.pop_eq with ⟨hs, hp, -⟩ | ⟨p, q, item, rest, others, sch', hrot, hs, hp, hrep,
      -⟩
    · simp only [hs, hp]
      exact ⟨trivial, h, hd⟩
    · simp only [hs, hp]
      exact ⟨trivial, hrep, hd.next h.valid hrot⟩

theorem Represents.run (ops : List (SchedulerOp T)) :
    ∀ {sch : FairScheduler T} {plan : Plan T}, Represents sch plan → plan.Distinct →
      plan.FreshRun ops →
      (sch.run ops).1 = (plan.run ops).1 ∧ Represents (sch.run ops).2 (plan.run ops).2 ∧
        (plan.run ops).2.Distinct := by
  induction ops with
  | nil => intro sch plan h hd _; exact ⟨rfl, h, hd⟩
  | cons op ops ih =>
    intro sch plan h hd hf
    obtain ⟨hout, hrep, hd'⟩ := h.step hd hf.1
    obtain ⟨houts, hrep', hd''⟩ := ih hrep hd' hf.2
    refine ⟨?_, hrep', hd''⟩
    unfold FairScheduler.run Plan.run
    simp only [hout, houts]

/-- **The scheduler is the abstract one.**  After every sequence of operations that queues distinct
items, it has returned what the abstract scheduler returns and represents the same plan: the heap holds
each priority once; the principals of a bucket are those with items, each once and at least one; the
size counts the items; and `pop` raises `IndexError` exactly when nothing is queued. -/
theorem scheduler_faithful (ops : List (SchedulerOp T)) (hf : Plan.empty.FreshRun ops) :
    (FairScheduler.run .empty ops).1 = (Plan.run .empty ops).1 ∧
      Represents (FairScheduler.run .empty ops).2 (Plan.run .empty ops).2 ∧
      (FairScheduler.run (.empty : FairScheduler T) ops).2.heap.Nodup ∧
      (∀ p b, (FairScheduler.run .empty ops).2.priorities.get? p = some b →
        b.principals.Nodup ∧ b.principals ≠ [] ∧
          ∀ q, q ∈ b.principals ↔ ∃ queue : List T, b.queued.get? q = some queue ∧ queue ≠ []) ∧
      ((FairScheduler.run (.empty : FairScheduler T) ops).2.pop = none ↔
        ∀ p, (Plan.run .empty ops).2 p = ([] : Rotation T)) := by
  obtain ⟨houts, hrep, -⟩ := Represents.run ops Represents.empty .empty hf
  refine ⟨houts, hrep, ?_, ?_, hrep.pop_none⟩
  · exact hrep.heap_keys.nodup_iff.mpr hrep.keys
  · intro p b hb
    obtain ⟨hholds, hne⟩ := hrep.bucket p b hb
    refine ⟨?_, ?_, hholds.mem_principals⟩
    · rw [hholds.principals]
      exact hholds.valid.nodup
    · rw [hholds.principals]
      exact fun hnil => hne (List.map_eq_nil_iff.mp hnil)

/-- Two principals at one priority, and an item of a third stream that is removed. -/
def sampleOps : List (SchedulerOp Nat) :=
  [.put 1 5 (lit "a"), .put 2 5 (lit "b"), .putFront 3 5 (lit "a"), .remove 2, .pop]

theorem scheduler_faithful_sampleOps :
    (Plan.empty.FreshRun sampleOps) ∧
      (Plan.run .empty sampleOps).1 = [none, none, none, none, some 3] := by
  have hvalid : (Plan.empty : Plan Nat).Valid := fun _ => .nil
  have hfresh : Plan.empty.FreshRun sampleOps := by
    refine ⟨Plan.not_queued_empty 1, ?_, ?_, trivial, trivial, trivial⟩
    · intro p q h
      rcases (Plan.queued_put hvalid false).mp h with h | ⟨h, -⟩
      · exact Plan.not_queued_empty 2 p q h
      · exact absurd h (by decide)
    · intro p q h
      rcases (Plan.queued_put (hvalid.put false) false).mp h with h | ⟨h, -⟩
      · rcases (Plan.queued_put hvalid false).mp h with h | ⟨h, -⟩
        · exact Plan.not_queued_empty 3 p q h
        · exact absurd h (by decide)
      · exact absurd h (by decide)
  exact ⟨hfresh, (scheduler_faithful sampleOps hfresh).1.symm.trans (by decide +kernel)⟩

end Runs

end Deadpool.Remote
