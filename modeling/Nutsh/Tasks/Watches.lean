/-
No watch is lost.

A watch is opened for the task an action returned, and it is handed back when the task has ended or has
run for too long, for the caller to settle its journal entry and to close its subscription.  The watches
that run are kept by the id of their task.

Main definitions:

* `Watching` — the index together with the watches opened and those handed back;
* `Watching.Op`, `Watching.op` — the operations of the index;
* `Watching.Accounted` — every watch opened runs, or was handed back once;
* `Watching.Free` — no watch of the id is running when one is opened.

Main results:

* `TaskIndex.apply_perm`, `TaskIndex.expire_perm` — what is handed back is what no longer runs;
* `Watching.accounted_op_iff` — what one operation keeps;
* `Watching.along_accounted_iff` — every watch is accounted for along a run exactly when no id is watched
  twice at a time.
-/
import Nutsh.Lib.Run
import Nutsh.Tasks

set_option relaxedAutoImplicit false
set_option autoImplicit false

namespace Nutsh

/-- What a watch was opened with, without the status it has. -/
def TaskWatch.opening (w : TaskWatch) : TaskWatch := { w with status := .queued }

namespace TaskIndex

/-- The watches that run, as they were opened. -/
def openings (index : TaskIndex) : List TaskWatch := index.watched.values.map TaskWatch.opening

variable {index : TaskIndex} {id : String} {w : TaskWatch}

theorem openings_insert (index : TaskIndex) (id : String) (w : TaskWatch) :
    (openings { watched := index.watched.insert id w }).Perm
      (w.opening :: openings { watched := index.watched.erase id }) :=
  (index.watched.values_insert_perm id w).map TaskWatch.opening

theorem openings_perm (h : index.watched.get? id = some w) :
    index.openings.Perm (w.opening :: openings { watched := index.watched.erase id }) :=
  (IndexMap.values_perm_of_get? h).map TaskWatch.opening

/-- The watches handed back, as they were opened. -/
def handedBack (done : List Finished) : List TaskWatch := done.map fun f => f.watch.opening

/-- A task entity hands back the watch that it takes away. -/
theorem apply_perm (index : TaskIndex) (entity : Entity) :
    index.openings.Perm
      ((index.apply entity).1.openings ++ handedBack (index.apply entity).2.toList) := by
  rw [apply]
  cases hw : index.watched.get? entity.extId with
  | none => simp [handedBack]
  | some w =>
      dsimp only
      generalize TaskStatus.parse _ = status
      split
      · -- The watch that ends is the one under the id of the task.
        exact (openings_perm hw).trans (List.perm_append_singleton w.opening _).symm
      · rw [Option.toList_none, handedBack, List.map_nil, List.append_nil]
        exact (openings_perm hw).trans (openings_insert index entity.extId { w with status }).symm

theorem giveUp_perm (index : TaskIndex) (ids : List String) :
    index.openings.Perm ((index.giveUp ids).1.openings ++ handedBack (index.giveUp ids).2) := by
  induction ids generalizing index with
  | nil => simp [giveUp, handedBack]
  | cons id ids ih =>
      rw [giveUp]
      cases hw : index.watched.get? id with
      | none => exact ih index
      | some w =>
          have hrest := (ih { watched := index.watched.erase id }).cons w.opening
          exact (openings_perm hw).trans (hrest.trans List.perm_middle.symm)

theorem expire_perm (index : TaskIndex) (now : ℕ) :
    index.openings.Perm ((index.expire now).1.openings ++ handedBack (index.expire now).2) :=
  index.giveUp_perm _

end TaskIndex

/-- The index, with every watch that was opened and every watch that was handed back. -/
structure Watching where
  index : TaskIndex := {}
  opened : List TaskWatch := []
  finished : List Finished := []

namespace Watching

/-- The operations of the index. -/
inductive Op where
  /-- A watch with a subscription of its own, on the scheduler of its context. -/
  | watch (taskKind : Kind) (scheduler : Scheduler) (sub : ℕ) (context : Option String) (plan : PlanRef)
      (task : String) (journal now : ℕ)
  | apply (entity : Entity)
  | expire (now : ℕ)

/-- One operation of the index. -/
def op (s : Watching) : Op → Watching
  | .watch taskKind scheduler sub context plan task journal now =>
      { s with
        index := (s.index.watch taskKind scheduler sub context plan task journal now).1
        opened := s.opened ++ [{ task, rowKind := plan.rowKind, extId := plan.extId, name := plan.name,
                                 action := plan.action.name, started := now, sub, journal }] }
  | .apply entity =>
      { s with index := (s.index.apply entity).1
               finished := s.finished ++ (s.index.apply entity).2.toList }
  | .expire now =>
      { s with index := (s.index.expire now).1, finished := s.finished ++ (s.index.expire now).2 }

def step (s : Watching) (o : Op) : Option Watching := some (s.op o)

/-- Every watch opened is running or has been handed back, and that once, with the journal entry and the
subscription it was opened with. -/
def Accounted (s : Watching) : Prop :=
  s.opened.Perm (s.index.openings ++ TaskIndex.handedBack s.finished)

/-- No watch is opened under an id that is watched. -/
def Free (s : Watching) : Op → Prop
  | .watch _ _ _ _ _ task _ _ => task ∉ s.index.watched.keys
  | _ => True

variable {s : Watching}

/-- What is handed back leaves the watches opened accounted for. -/
theorem accounted_handBack (h : s.Accounted) {index : TaskIndex} {done : List Finished}
    (hperm : s.index.openings.Perm (index.openings ++ TaskIndex.handedBack done)) :
    ({ s with index, finished := s.finished ++ done } : Watching).Accounted := by
  have hmove : s.opened.Perm
      ((index.openings ++ TaskIndex.handedBack done) ++ TaskIndex.handedBack s.finished) :=
    h.trans (hperm.append_right _)
  refine hmove.trans ?_
  have hdone : TaskIndex.handedBack (s.finished ++ done) =
      TaskIndex.handedBack s.finished ++ TaskIndex.handedBack done := List.map_append
  rw [List.append_assoc, hdone]
  exact List.perm_append_comm.append_left _

/-- **One operation.**  It keeps the account exactly when it opens no watch under an id that is watched. -/
theorem accounted_op_iff (h : s.Accounted) (o : Op) : (s.op o).Accounted ↔ s.Free o := by
  cases o with
  | watch taskKind scheduler sub context plan task journal now =>
      set w : TaskWatch := { task, rowKind := plan.rowKind, extId := plan.extId, name := plan.name,
                             action := plan.action.name, started := now, sub, journal } with hw
      have hinsert := TaskIndex.openings_insert s.index task w
      constructor
      · intro hnext hmem
        -- The watch that is overwritten is opened and neither runs nor was handed back.
        cases hold : s.index.watched.get? task with
        | none => exact IndexMap.get?_eq_none_iff.1 hold hmem
        | some old =>
            have hlength := hnext.length_eq
            have hbefore := h.length_eq
            have hnew := hinsert.length_eq
            have hgone := (TaskIndex.openings_perm hold).length_eq
            simp only [op, TaskIndex.watch, List.length_append, List.length_cons, List.length_nil]
              at hlength hbefore hnew hgone
            rw [← hw] at hlength
            omega
      · intro hfree
        have herase : s.index.watched.erase task = s.index.watched := IndexMap.erase_of_not_mem hfree
        rw [herase] at hinsert
        refine (List.perm_append_singleton w s.opened).trans ?_
        exact (h.cons w).trans (hinsert.symm.append_right _)
  | apply entity => exact iff_of_true (accounted_handBack h (s.index.apply_perm entity)) trivial
  | expire now => exact iff_of_true (accounted_handBack h (s.index.expire_perm now)) trivial

/-- **No watch is lost.**  Whatever the operations and their order, every watch opened runs or was handed
back once in every state of a run exactly when no watch is opened under an id that is watched. -/
theorem along_accounted_iff (ops : List Op) :
    Run.Along step (fun s o => (s.op o).Accounted) {} ops ↔ Run.Along step Free {} ops := by
  have hempty : ({} : Watching).Accounted := List.Perm.refl _
  constructor
  · intro h
    refine Run.Along.imp (I := Accounted) (fun s o t _ hnext ht => ?_)
      (fun s o hs => (accounted_op_iff hs o).1) hempty h
    exact Option.some.inj ht ▸ hnext
  · intro h
    refine Run.Along.imp (I := Accounted) (fun s o t hs hfree ht => ?_)
      (fun s o hs => (accounted_op_iff hs o).2) hempty h
    exact Option.some.inj ht ▸ (accounted_op_iff hs o).2 hfree

/-- Two actions answered with one task id: the watch of the first is gone. -/
theorem not_along_accounted : ¬ ∀ ops, Run.Along step (fun s o => (s.op o).Accounted) {} ops := by
  intro h
  let powerOff : Action := { name := "power-off", path := "/vms/\x7bextId\x7d/$actions/power-off", method := .post }
  let plan : PlanRef :=
    { kind := vmKind, extId := "a", name := "web-01", action := powerOff, rowKind := vmKind }
  have hboth := ((h [.watch vmKind { epoch := 1 } 1 none plan "task" 1 0,
    .watch vmKind { epoch := 1 } 2 none plan "task" 2 0]).2 _ rfl).1
  have hlength := hboth.length_eq
  cases hlength

end Watching

end Nutsh
