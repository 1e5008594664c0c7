/-
How often a kind is polled.

Four levels say it, the highest first: what this run overrode, the configured schedule of the kind,
that of its namespace, the configured default; and below them the catalog.  `auto` does not fall
through, it names the catalog.

* `Interval`, `Refresh`, `Schedule` — a rung, the configured section, and one level of it;
* `effective` — the schedule in force, and where it comes from;
* `refreshStep`, `refreshStepFrom` — the next rung of the ladder;
* `effective_of_not_touches` — writing a level moves only the kinds it is about.
-/
import Nutsh.Catalog
import Nutsh.Lib.IndexMap

set_option relaxedAutoImplicit false
set_option autoImplicit false

namespace Nutsh

/-- What a level says: the catalog's rhythm, none, or a number of seconds. -/
inductive Interval where
  | auto
  | off
  | secs (n : ℕ)
  deriving DecidableEq, Repr

/-- The configured schedules. -/
structure Refresh where
  default : Option Interval := none
  namespaces : IndexMap String Interval := IndexMap.empty
  kinds : IndexMap String Interval := IndexMap.empty

/-- One level of the configured section. -/
inductive Schedule where
  | kind (id : String)
  | «namespace» (name : String)
  | everything
  deriving DecidableEq, Repr

/-- Where a schedule comes from. -/
inductive Origin where
  | session
  | file
  | «namespace» (name : String)
  | catalog
  deriving DecidableEq, Repr

/-- The rhythm the catalog curates, in seconds. -/
def Kind.rhythm (k : Kind) : ℕ := max k.pollSecs 1

def Interval.one (kind : Kind) (source : Origin) : Interval → Option ℕ × Origin
  | auto => (some kind.rhythm, .catalog)
  | off => (none, source)
  | secs n => (some (max n 1), source)

/-- The seconds between two cycles of a kind, none for no schedule, and where they come from. -/
def effective (kind : Kind) (cfg : Refresh) (session : Option Interval) : Option ℕ × Origin :=
  match session with
  | some v => v.one kind .session
  | none =>
      match cfg.kinds.get? kind.id with
      | some v => v.one kind .file
      | none =>
          match cfg.namespaces.get? kind.namespace with
          | some v => v.one kind (.namespace kind.namespace)
          | none =>
              match cfg.default with
              | some v => v.one kind .file
              | none => (some kind.rhythm, .catalog)

/-- The rungs a key steps through, slowest last. -/
def ladder : List Interval :=
  [.auto, .secs 5, .secs 10, .secs 30, .secs 60, .secs 300, .secs 3600, .secs 21600, .secs 43200, .off]

/-- Whether a rung is slower than a number of seconds. -/
def Interval.slower (now : ℕ) : Interval → Bool
  | secs n => decide (now < n)
  | _ => false

/-- The first rung slower than what runs now, `off` after the last and `auto` after `off`. -/
def refreshStep : Option ℕ → Interval
  | none => .auto
  | some now => (ladder.find? (Interval.slower now)).getD .off

/-- The rung after one, by its place. -/
def refreshStepFrom (current : Option Interval) : Interval :=
  let place := (current.map fun v => ladder.idxOf v).getD 0
  ladder.getD (((if place < ladder.length then place else 0) + 1) % ladder.length) .auto

/-- The section with one level written. -/
def Refresh.set (cfg : Refresh) (v : Interval) : Schedule → Refresh
  | .kind id => { cfg with kinds := cfg.kinds.insert id v }
  | .namespace name => { cfg with namespaces := cfg.namespaces.insert name v }
  | .everything => { cfg with default := some v }

/-- Whether a level is about a kind. -/
def Schedule.touches (k : Kind) : Schedule → Bool
  | kind id => k.id == id
  | «namespace» name => k.namespace == name
  | everything => true

/-- Writing a level leaves the kinds it is not about. -/
theorem effective_of_not_touches {s : Schedule} {k : Kind} (h : s.touches k = false) (cfg : Refresh)
    (v : Interval) (session : Option Interval) :
    effective k (cfg.set v s) session = effective k cfg session := by
  cases s with
  | kind id =>
      have hne : k.id ≠ id := by simpa [Schedule.touches] using h
      simp [effective, Refresh.set, IndexMap.get?_insert, hne]
  | «namespace» name =>
      have hne : k.namespace ≠ name := by simpa [Schedule.touches] using h
      simp [effective, Refresh.set, IndexMap.get?_insert, hne]
  | everything => cases h

end Nutsh
