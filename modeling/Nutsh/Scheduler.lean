/-
The scheduler: the polling tasks of one context over one table key, and the channel to the store.

A context that is joined gets a scheduler of its own, with one counter its tasks draw their
generations from.  A task runs cycle after cycle: it draws a generation, announces a listing, pushes
what it reads page by page, and ends with a `complete` or an `error`.  The messages of all tasks go
through one channel to the receiver, which drops those of dead subscriptions, keeps all but the
`entity` of the open detail from the store, and applies the rest.  Dropping a context ends its tasks
and leaves the table as it is.

Main definitions:

* `SubKind`, `Sub` — a subscription and where the cycle of its task is;
* `Polling` — the table of the key, the scheduler of its context, and the channel;
* `PollEvent`, `Polling.step` — what can happen, in any order.
-/
import Mathlib.Logic.Function.Basic
import Nutsh.Lib.Run
import Nutsh.Store

set_option relaxedAutoImplicit false
set_option autoImplicit false

namespace Nutsh

/-! ### What a scheduler runs -/

/-- What a task polls: the list of a key, or one entity of it. -/
structure Subscription where
  key : TableKey
  single : Option String := none
  /-- One cycle and no more. -/
  once : Bool := false
  /-- Whether the idle pause stops it. -/
  pausable : Bool := true
  /-- The seconds between two cycles, 0 for no schedule; at first what the catalog says. -/
  interval : ℕ := max key.kind.pollSecs 1
  deriving DecidableEq

/-- The tasks of a scheduler, by subscription id. -/
structure Scheduler where
  epoch : ℕ
  tasks : List (ℕ × Subscription) := []
  deriving DecidableEq

namespace Scheduler

def isLive (s : Scheduler) (id : ℕ) : Bool := s.tasks.any fun t => t.1 == id

def subscribe (s : Scheduler) (id : ℕ) (sub : Subscription) : Scheduler :=
  { s with tasks := s.tasks ++ [(id, sub)] }

def unsubscribe (s : Scheduler) (id : ℕ) : Scheduler :=
  { s with tasks := s.tasks.filter fun t => t.1 != id }

/-- The schedule of one subscription. -/
def setInterval (s : Scheduler) (id every : ℕ) : Scheduler :=
  { s with tasks := s.tasks.map fun t => if t.1 = id then (t.1, { t.2 with interval := every }) else t }

/-- The schedule of every pausable subscription over a kind. -/
def setIntervalKind (s : Scheduler) (kind : String) (every : ℕ) : Scheduler :=
  { s with
    tasks := s.tasks.map fun t =>
      if t.2.key.kind.id = kind ∧ t.2.pausable = true then (t.1, { t.2 with interval := every })
      else t }

end Scheduler

/-! ### The polling of one key -/

/-- What a subscription reads: the list of its key, or one entity of it, for the open detail pane or
as a refresh out of band. -/
inductive SubKind where
  | list
  | detail
  | once
  deriving DecidableEq

/-- A live subscription, with the generation of the cycle its task is in. -/
structure Sub where
  kind : SubKind
  cycle : Option ℕ := none
  deriving DecidableEq

/-- One table key of a context, what its scheduler runs on it, and what is on its way to the
store. -/
structure Polling where
  table : Table := Table.fresh
  /-- The counter of the scheduler, `none` while the context is not joined. -/
  generations : Option ℕ := none
  subs : ℕ → Option Sub := fun _ => none
  /-- The next subscription id; ids are never used again, whichever scheduler gave them. -/
  nextSub : ℕ := 1
  /-- The channel, oldest message first. -/
  queue : List (ℕ × Update) := []

/-- What can happen to a key of a context. -/
inductive PollEvent where
  /-- The context is joined, a peer of that name being forgotten first. -/
  | joined
  | forgetPeer
  | subscribe (kind : SubKind)
  | unsubscribe (id : ℕ)
  /-- The view over the key is closed: its walk is ended in the store. -/
  | abandon
  /-- A cycle of the same scheduler over another key draws a generation. -/
  | otherCycle
  /-- A task begins a cycle. -/
  | attempt (id : ℕ)
  /-- A listing answered 404 is tried once more within its cycle. -/
  | secondAttempt (id : ℕ)
  | page (id : ℕ) (entities : List Entity) (total : Option ℕ)
  | entity (id : ℕ) (entity : Entity)
  /-- The cycle ends, with a failure or without. -/
  | finish (id : ℕ) (failure : Option Failure)
  /-- The receiver takes the oldest message, at a reading of the clock. -/
  | deliver (now : ℕ)

namespace Polling

/-- The state with the cycle of one subscription set. -/
def setCycle (s : Polling) (id : ℕ) (sub : Sub) (cycle : Option ℕ) : Polling :=
  { s with subs := Function.update s.subs id (some { sub with cycle }) }

/-- The state with a message at the end of the channel. -/
def send (s : Polling) (id : ℕ) (u : Update) : Polling := { s with queue := s.queue ++ [(id, u)] }

/-- A generation drawn by a task, announced if it lists. -/
def draw (s : Polling) (id : ℕ) (sub : Sub) (counter : ℕ) : Polling :=
  let s := { s with generations := some (counter + 1) }.setCycle id sub (some (counter + 1))
  match sub.kind with
  | .list => s.send id (.started (counter + 1))
  | _ => s

/-- Whether a message of a subscription reaches the store: of the detail's only its `entity`. -/
def reaches (kind : SubKind) : Update → Bool
  | .entity _ _ => true
  | _ => kind != .detail

/-- The receiver's side of one message. -/
def receive (s : Polling) (now id : ℕ) (u : Update) : Polling :=
  match s.subs id with
  | none => s
  | some sub => if reaches sub.kind u then { s with table := s.table.apply now u } else s

/-- One event. -/
def step (s : Polling) : PollEvent → Option Polling
  | .joined => some { s with generations := some 0, subs := fun _ => none }
  | .forgetPeer => some { s with generations := none, subs := fun _ => none }
  | .subscribe kind =>
      if s.generations.isSome then
        some { s with
          subs := Function.update s.subs s.nextSub (some { kind }), nextSub := s.nextSub + 1 }
      else none
  | .unsubscribe id => some { s with subs := Function.update s.subs id none }
  | .abandon => some { s with table := { s.table with cycleStarted := none, staging := none } }
  | .otherCycle => s.generations.map fun counter => { s with generations := some (counter + 1) }
  | .attempt id =>
      match s.subs id, s.generations with
      | some ⟨kind, none⟩, some counter => some (s.draw id ⟨kind, none⟩ counter)
      | _, _ => none
  | .secondAttempt id =>
      match s.subs id, s.generations with
      | some ⟨.list, some g⟩, some counter => some (s.draw id ⟨.list, some g⟩ counter)
      | _, _ => none
  | .page id entities total =>
      match s.subs id with
      | some ⟨.list, some g⟩ => some (s.send id (.page g entities total))
      | _ => none
  | .entity id e =>
      match s.subs id with
      | some ⟨.detail, some g⟩ => some (s.send id (.entity g e))
      | some ⟨.once, some g⟩ => some (s.send id (.entity g e))
      | _ => none
  | .finish id failure =>
      match s.subs id with
      | some ⟨kind, some g⟩ =>
          some ((s.send id (match failure with | none => .complete g | some f => .error g f)).setCycle
            id ⟨kind, none⟩ none)
      | _ => none
  | .deliver now =>
      match s.queue with
      | [] => none
      | (id, u) :: queue => some ({ s with queue }.receive now id u)

end Polling

end Nutsh
