/-
Watching the task an action returned.

A watch polls one task entity with a subscription of its own and ends with the status of the task; the
journal entry of the action is then settled with what became of it.

* `TaskStatus`, `TaskStatus.parse`, `TaskStatus.isTerminal`;
* `TaskIndex.watch` — a watch opened on a scheduler;
* `TaskIndex.apply` — a task entity read, and the watch it ends;
* `TaskIndex.expire` — the watches that have run for too long.
-/
import Nutsh.Actions
import Nutsh.Journal
import Nutsh.Scheduler

set_option relaxedAutoImplicit false
set_option autoImplicit false

namespace Nutsh

inductive TaskStatus where
  | queued
  | running
  | canceling
  | succeeded
  | failed
  | canceled
  | suspended
  | unknown
  deriving DecidableEq, Repr

namespace TaskStatus

def parse (s : String) : TaskStatus :=
  if s = "QUEUED" then queued
  else if s = "RUNNING" then running
  else if s = "CANCELING" ∨ s = "CANCELLING" then canceling
  else if s = "SUCCEEDED" then succeeded
  else if s = "FAILED" then failed
  else if s = "CANCELED" ∨ s = "CANCELLED" then canceled
  else if s = "SUSPENDED" then suspended
  else unknown

/-- A suspended task can resume. -/
def isTerminal : TaskStatus → Bool
  | succeeded => true
  | failed => true
  | canceled => true
  | _ => false

def label : TaskStatus → String
  | queued => "queued"
  | running => "running"
  | canceling => "cancelling"
  | succeeded => "succeeded"
  | failed => "failed"
  | canceled => "cancelled"
  | suspended => "suspended"
  | unknown => "unknown"

end TaskStatus

/-- The milliseconds after which a watch is given up; its task may still succeed. -/
def GIVE_UP_AFTER : ℕ := 15 * 60 * 1000

structure TaskWatch where
  task : String
  /-- The kind of the row, which a refresh is issued against. -/
  rowKind : Kind
  extId : String
  name : String
  action : String
  status : TaskStatus := .queued
  started : ℕ
  sub : ℕ
  journal : ℕ
  deriving DecidableEq

/-- A watch that will not be polled again. -/
structure Finished where
  watch : TaskWatch
  outcome : JournalOutcome

structure TaskIndex where
  /-- By the id of the task. -/
  watched : IndexMap String TaskWatch := IndexMap.empty

/-- The table key of the tasks of a context. -/
def tasksKey (taskKind : Kind) (context : Option String) : TableKey :=
  match context with
  | some name => (TableKey.top taskKind).inContext name
  | none => TableKey.top taskKind

namespace TaskIndex

/-- A task followed with a subscription of its own on the scheduler it runs on. -/
def watch (index : TaskIndex) (taskKind : Kind) (scheduler : Scheduler) (sub : ℕ)
    (context : Option String) (plan : PlanRef) (task : String) (journal now : ℕ) :
    TaskIndex × Scheduler :=
  let key := tasksKey taskKind context
  let w : TaskWatch :=
    { task, rowKind := plan.rowKind, extId := plan.extId, name := plan.name,
      action := plan.action.name, started := now, sub, journal }
  ({ watched := index.watched.insert task w },
    scheduler.subscribe sub { key, single := some task, pausable := false })

/-- The texts under a key of the items of an array of a document. -/
def strings (raw : Json) (array field : String) : List String :=
  (((raw.get array).bind Json.asArray).getD []).filterMap fun e => (e.get field).bind Json.asStr

/-- What the journal says of a task that ended. -/
def outcomeOf (status : TaskStatus) (errors : List String) : JournalOutcome :=
  match status with
  | .succeeded => .succeeded
  | .failed => .failed (if errors.isEmpty then "the task failed" else "; ".intercalate errors)
  | .canceled => .cancelled
  | other => .unknown other.label

/-- A task entity read; the watch is removed, and given back, when the task has ended. -/
def apply (index : TaskIndex) (entity : Entity) : TaskIndex × Option Finished :=
  match index.watched.get? entity.extId with
  | none => (index, none)
  | some w =>
      let status := TaskStatus.parse (((entity.raw.get "status").bind Json.asStr).getD "")
      let w := { w with status }
      if status.isTerminal then
        ({ watched := index.watched.erase entity.extId },
          some { watch := w, outcome := outcomeOf status (strings entity.raw "errorMessages" "message") })
      else ({ watched := index.watched.insert entity.extId w }, none)

/-- The watches of the tasks, removed as given up. -/
def giveUp (index : TaskIndex) : List String → TaskIndex × List Finished
  | [] => (index, [])
  | id :: ids =>
      match index.watched.get? id with
      | none => index.giveUp ids
      | some w =>
          let rest := giveUp { watched := index.watched.erase id } ids
          (rest.1, { watch := w, outcome := .unknown "still running after 15m" } :: rest.2)

/-- The watches that have run for fifteen minutes, removed. -/
def expire (index : TaskIndex) (now : ℕ) : TaskIndex × List Finished :=
  index.giveUp ((index.watched.entries.filter fun x => decide (GIVE_UP_AFTER ≤ now - x.2.started)).map
    Prod.fst)

end TaskIndex

end Nutsh
