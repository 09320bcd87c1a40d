import Deadpool.Heapq
import Deadpool.Py.Str
import Deadpool.Table
import Mathlib.Data.Int.Order.Basic

/-!
# The fair scheduler

`FairScheduler` of `deadpool/remote/_scheduler.py`: lower numeric priorities first, round robin over
the principals of one priority, FIFO within a principal.
-/

set_option autoImplicit false

namespace Deadpool.Remote

open Deadpool.Py

/-- `_Priority` -/
structure Bucket (T : Type) where
  principals : List Str
  queued : Table Str (List T)

structure FairScheduler (T : Type) where
  priorities : Table Int (Bucket T)
  heap : List Int
  size : Nat

namespace FairScheduler

variable {T : Type} [DecidableEq T]

def empty : FairScheduler T := ⟨[], [], 0⟩

/-- `_put` -/
def putAt (sch : FairScheduler T) (item : T) (priority : Int) (principal : Str) (front : Bool) :
    FairScheduler T :=
  let heap := if (sch.priorities.get? priority).isNone then Heapq.push sch.heap priority else sch.heap
  let bucket := (sch.priorities.get? priority).getD ⟨[], []⟩
  let queue := (bucket.queued.get? principal).getD []
  let principals := if queue = [] then bucket.principals ++ [principal] else bucket.principals
  let queue := if front then item :: queue else queue ++ [item]
  ⟨sch.priorities.set priority ⟨principals, bucket.queued.set principal queue⟩, heap, sch.size + 1⟩

/-- `put` -/
def put (sch : FairScheduler T) (item : T) (priority : Int) (principal : Str) : FairScheduler T :=
  sch.putAt item priority principal false

/-- `put_front` -/
def putFront (sch : FairScheduler T) (item : T) (priority : Int) (principal : Str) :
    FairScheduler T :=
  sch.putAt item priority principal true

/-- `pop`; `none` is `IndexError`. -/
def pop (sch : FairScheduler T) : Option (T × FairScheduler T) :=
  if sch.size = 0 then none
  else do
    let priority ← sch.heap.head?
    let bucket ← sch.priorities.get? priority
    let principal ← bucket.principals.head?
    let queue ← bucket.queued.get? principal
    let item ← queue.head?
    let rest := queue.tail
    let bucket : Bucket T :=
      if rest = [] then ⟨bucket.principals.tail, bucket.queued.pop principal⟩
      else ⟨bucket.principals.tail ++ [principal], bucket.queued.set principal rest⟩
    let sch : FairScheduler T :=
      if bucket.principals = [] then
        ⟨sch.priorities.pop priority, Heapq.pop sch.heap, sch.size - 1⟩
      else ⟨sch.priorities.set priority bucket, sch.heap, sch.size - 1⟩
    some (item, sch)

/-- The place of an item: priority, bucket, principal, queue. -/
def find (sch : FairScheduler T) (item : T) : Option (Int × Bucket T × Str × List T) :=
  sch.priorities.findSome? fun (priority, bucket) =>
    bucket.queued.findSome? fun (principal, queue) =>
      if item ∈ queue then some (priority, bucket, principal, queue) else none

/-- `remove`, without the truth value it returns. -/
def remove (sch : FairScheduler T) (item : T) : FairScheduler T :=
  match sch.find item with
  | none => sch
  | some (priority, bucket, principal, queue) =>
    let rest := queue.erase item
    let bucket : Bucket T :=
      if rest = [] then ⟨bucket.principals.erase principal, bucket.queued.pop principal⟩
      else ⟨bucket.principals, bucket.queued.set principal rest⟩
    if bucket.principals = [] then
      ⟨sch.priorities.pop priority, Heapq.heapify (sch.heap.erase priority), sch.size - 1⟩
    else ⟨sch.priorities.set priority bucket, sch.heap, sch.size - 1⟩

end FairScheduler

end Deadpool.Remote
