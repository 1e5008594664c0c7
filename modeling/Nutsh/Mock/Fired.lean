/-
What the tasks of a mock server do.

A task that was not cancelled does what it is for with its last step, the step of the read by which it has been
read as often as there are statuses, unless it is one of those that fail or stand still.  It does it once, and
nothing else changes a list but that of the tasks.

Main definitions:

* `World` — the server with the tasks it made, those cancelled, what was done, and how often each task was read;
* `World.step`, `World.Fresh` — a request, and a request whose task has a new identifier;
* `Effective` — a task that has been read often enough.

Main results:

* `World.Inv.step`, `World.inv` — what a request keeps, and a run;
* `effects_once` — what a run has done to the lists;
* `effect_iff_read` — the tasks that have done what they are for.
-/
import Nutsh.Lib.Run
import Nutsh.Mock.Tasks

set_option relaxedAutoImplicit false
set_option autoImplicit false

namespace Nutsh.Mock

open Server (taskId failing terminal)

/-- What a task did, with what its last read drew. -/
structure Done where
  extId : String
  task : MockTask
  draws : Draws

/-- A server, and what has happened to it. -/
structure World where
  server : Server
  /-- The tasks that were made, as they were. -/
  begun : List (String × MockTask) := []
  cancelled : List String := []
  done : List Done := []
  /-- How often each task has been read since it was made. -/
  reads : String → ℕ := fun _ => 0

/-- A request, with what its answer draws. -/
inductive Request where
  | get (d : Draws) (apiPath : String) (query : Params)
  | mutate (d : Draws) (r : Server.Mutation)

/-- What is drawn for the answer to a request. -/
def Request.draws : Request → Draws
  | .get d _ _ => d
  | .mutate d _ => d

variable (b : Builder) (F : Doubles)

/-- What the next step of a task does, if it does anything. -/
def Server.doing (s : Server) (extId : String) : Option MockTask :=
  (s.tasks extId).filter fun t =>
    !t.canceling && !b.stallTask.contains t.operation && terminal b t && !failing b t

namespace World

/-- The world as the server is started. -/
def start : World := { server := { store := { lists := IndexMap.ofList b.lists } } }

/-- A task read. -/
def read (w : World) (d : Draws) (extId : String) : World :=
  { w with
    server := w.server.advance b d extId
    reads := Function.update w.reads extId (w.reads extId + 1)
    done := w.done ++ (w.server.doing b extId).toList.map fun t => ⟨extId, t, d⟩ }

/-- A request, and what is remembered of it. -/
def step (w : World) : Request → Option World
  | .get d apiPath query =>
      match w.server.polled b F apiPath query with
      | some extId => some { w.read b d extId with server := (w.server.get b d F apiPath query).1 }
      | none => some { w with server := (w.server.get b d F apiPath query).1 }
  | .mutate d r =>
      match w.server.mutate b d r with
      | .error _ => some w
      | .ok (server, .task extId) =>
          some { w with server
                        begun := w.begun ++ (server.tasks extId).toList.map fun t => (extId, t)
                        reads := Function.update w.reads extId 0 }
      | .ok (server, _) => some { w with server, cancelled := w.cancelled ++ (Server.cancelOf b r).toList }

/-- The identifier drawn for a task is new. -/
def Fresh (w : World) (r : Request) : Prop :=
  taskId r.draws ∉ w.begun.map Prod.fst ∧ taskId r.draws ∉ w.cancelled ∧ w.server.row b (taskId r.draws) = none

/-- The lists, with what was done. -/
def happened (store : Store) (f : Done) : Store := applyEffect b f.draws store f.task

end World

/-- A task that has been read often enough, and neither stands still nor fails. -/
def Effective (n : ℕ) (t : MockTask) : Prop :=
  b.taskSteps ≠ [] ∧ b.taskSteps.length ≤ n ∧ b.stallTask.contains t.operation = false ∧ failing b t = false

/-- How far a task is that has been read so often. -/
def reached (n : ℕ) (t : MockTask) : ℕ := if b.stallTask.contains t.operation then 0 else min n b.taskSteps.length

/-- What a server keeps with its catalog: its tasks are listed under their identifiers, at a path of their own. -/
structure Tidy : Prop where
  path : Text.endsWith "/config/tasks" b.tasksPath = true
  key : idKeyFor b.kinds b.tasksPath = "extId"

/-- Two rows can be cancelled alike. -/
def Alike (e e' : Json) : Prop := e'.get "isCancelable" = e.get "isCancelable"

theorem Alike.refl (e : Json) : Alike e e := rfl

namespace World

/-- What every request keeps. -/
structure Inv (init : Store) (w : World) : Prop where
  /-- A task is new when it is made. -/
  made : ∀ p ∈ w.begun, p.2.step = 0 ∧ p.2.canceling = false
  /-- A task that is not being cancelled was made by the server. -/
  known : ∀ extId t, w.server.tasks extId = some t → t.canceling = false → ∃ task, (extId, task) ∈ w.begun
  /-- A task that was cancelled is being cancelled, as long as there is one. -/
  doomed : ∀ extId ∈ w.cancelled, ∀ t, w.server.tasks extId = some t → t.canceling = true
  /-- A task is about a row by the key of its list. -/
  keyed : ∀ extId t, w.server.tasks extId = some t →
    ∀ target, t.target = some target → target.idKey = idKeyFor b.kinds target.listPath
  /-- A task that was not cancelled is as far as it has been read. -/
  stands : ∀ p ∈ w.begun, p.1 ∉ w.cancelled →
    w.server.tasks p.1 = some { p.2 with step := reached b (w.reads p.1) p.2 }
  /-- It has done what it is for when it has been read often enough. -/
  done_iff : ∀ p ∈ w.begun, p.1 ∉ w.cancelled → (p.1 ∈ w.done.map Done.extId ↔ Effective b (w.reads p.1) p.2)
  /-- What was done was to be, and was not cancelled. -/
  of_done : ∀ f ∈ w.done, f.extId ∉ w.cancelled ∧
    ∃ task, (f.extId, task) ∈ w.begun ∧ f.task = { task with step := b.taskSteps.length - 1 }
  nodup : (w.done.map Done.extId).Nodup
  /-- A task that has done what it is for cannot be cancelled. -/
  settled : ∀ f ∈ w.done, ∀ e, w.server.row b f.extId = some e → e.get "isCancelable" = some (.bool false)
  /-- Nothing else has changed a list but that of the tasks. -/
  agree : Store.Agree b.tasksPath w.server.store (w.done.foldl (happened b) init)

variable {b F} {init : Store} {w w' : World} {d : Draws} {extId : String} {e : Json}

theorem inv_start : (start b).Inv b { lists := IndexMap.ofList b.lists } where
  made := by simp [start]
  known := by simp [start]
  doomed := by simp [start]
  keyed := by simp [start]
  stands := by simp [start]
  done_iff := by simp [start]
  of_done := by simp [start]
  nodup := by simp [start]
  settled := by simp [start]
  agree := fun _ _ => rfl

namespace Inv

/-- What was done was not cancelled. -/
theorem not_cancelled (h : w.Inv b init) (hmem : extId ∈ w.done.map Done.extId) : extId ∉ w.cancelled := by
  obtain ⟨f, hf, rfl⟩ := List.mem_map.1 hmem
  exact (h.of_done f hf).1

theorem mem_begun (h : w.Inv b init) (hmem : extId ∈ w.done.map Done.extId) : ∃ task, (extId, task) ∈ w.begun := by
  obtain ⟨f, hf, rfl⟩ := List.mem_map.1 hmem
  obtain ⟨task, htask, -⟩ := (h.of_done f hf).2
  exact ⟨task, htask⟩

/-- A task that does what it is for is known, and is not being cancelled. -/
theorem tasks_of_done (h : w.Inv b init) (hmem : extId ∈ w.done.map Done.extId) :
    ∃ t, w.server.tasks extId = some t ∧ t.canceling = false := by
  obtain ⟨task, htask⟩ := h.mem_begun hmem
  exact ⟨_, h.stands _ htask (h.not_cancelled hmem), (h.made _ htask).2⟩

/-- A read that changes nothing but how often a task was read. -/
theorem of_reads (h : w.Inv b init) {n : String → ℕ} (hn : ∀ p ∈ w.begun, p.1 ∉ w.cancelled →
    reached b (n p.1) p.2 = reached b (w.reads p.1) p.2 ∧ (Effective b (n p.1) p.2 ↔ Effective b (w.reads p.1) p.2)) :
    Inv b init { w with reads := n } where
  made := h.made
  known := h.known
  doomed := h.doomed
  keyed := h.keyed
  stands := by
    intro p hp hc
    rw [(hn p hp hc).1]
    exact h.stands p hp hc
  done_iff := by
    intro p hp hc
    rw [(hn p hp hc).2]
    exact h.done_iff p hp hc
  of_done := h.of_done
  nodup := h.nodup
  settled := h.settled
  agree := h.agree

end Inv

/-- The row of one task in place of that of another. -/
theorem entity_replace {store : Store} {p id : String} {e' : Json} (hkey : textAt e' "extId" = some extId)
    (h : id ≠ extId) : (store.replace p "extId" extId e').entity p "extId" id = store.entity p "extId" id := by
  rw [Store.entity, Store.entity, Store.replace, Store.list_modify, if_pos rfl]
  cases store.list p with
  | none => rfl
  | some items => exact Rows.find_replace_ne (textAt · "extId") hkey h

/-- The row of a task that was put in its place is the one that was put there. -/
theorem eq_of_entity_replace {store : Store} {p : String} {e e' : Json} (hkey : textAt e' "extId" = some extId)
    (h : (store.replace p "extId" extId e').entity p "extId" extId = some e) : e = e' := by
  rw [Store.entity, Store.replace, Store.list_modify, if_pos rfl] at h
  obtain ⟨items', hitems', hfind⟩ := Option.bind_eq_some_iff.1 h
  obtain ⟨items, -, rfl⟩ := Option.map_eq_some_iff.1 hitems'
  by_cases hnone : Rows.find (textAt · "extId") extId items = none
  · rw [Rows.replace_of_find hnone, hnone] at hfind
    cases hfind
  · rw [Rows.find_replace_self (textAt · "extId") hkey hnone] at hfind
    exact (Option.some.inj hfind).symm

variable {t : MockTask}

theorem textAt_taskRow (s : Server) (t : MockTask) : textAt (Server.taskRow b d s t) "extId" = some (taskId d) := by
  rw [Server.taskRow]
  dsimp only
  split
  · rw [textAt, get_put_ne (by decide)]
    rfl
  · rfl

/-- The row of a task that is made is listed behind the others. -/
theorem row_startTask_ne {s : Server} {id : String} (h : id ≠ taskId d) :
    (s.startTask b d t).row b id = s.row b id := by
  have hkey : textAt (Server.taskRow b d s t) "extId" ≠ some id := by
    rw [textAt_taskRow, Ne, Option.some.injEq]
    exact h.symm
  rw [Server.row, Server.row, Server.startTask, Store.entity, Store.entity, Store.list_push, if_pos rfl,
    Option.bind_some, Rows.find_append_ne (textAt · "extId") hkey]
  cases s.store.list b.tasksPath with
  | none => rfl
  | some items => rfl

theorem row_startTask_self {s : Server} (h : s.row b (taskId d) = none) :
    (s.startTask b d t).row b (taskId d) = some (Server.taskRow b d s t) := by
  have hfind : Rows.find (textAt · "extId") (taskId d) [Server.taskRow b d s t] = some (Server.taskRow b d s t) := by
    rw [Rows.find_cons, if_pos (textAt_taskRow s t)]
  have hnone : Rows.find (textAt · "extId") (taskId d) ((s.store.list b.tasksPath).getD []) = none := by
    rw [Server.row, Store.entity] at h
    cases hlist : s.store.list b.tasksPath with
    | none => rfl
    | some items =>
        rw [hlist] at h
        exact h
  rw [Server.row, Server.startTask, Store.entity, Store.list_push, if_pos rfl, Option.bind_some, Rows.find_append,
    hnone, hfind]
  rfl

/-- What holds of the other tasks, and of one that is put in its place, holds of all. -/
theorem of_update {tasks : String → Option MockTask} {P : String → MockTask → Prop}
    (h : ∀ id t', id ≠ extId → tasks id = some t' → P id t') (ht : P extId t) :
    ∀ id t', Function.update tasks extId (some t) id = some t' → P id t' := by
  intro id t' ht'
  by_cases hid : id = extId
  · subst hid
    rw [Function.update_self, Option.some.injEq] at ht'
    exact ht' ▸ ht
  · rw [Function.update_of_ne hid] at ht'
    exact h id t' hid ht'

theorem doing_of_tasks (h : w.server.tasks extId = none) : w.server.doing b extId = none := by
  rw [Server.doing, h]
  rfl

theorem doing_of_canceling (h : w.server.tasks extId = some t) (hc : t.canceling = true) :
    w.server.doing b extId = none := by
  rw [Server.doing, h]
  simp [hc]

theorem doing_of_stall (h : w.server.tasks extId = some t)
    (hstill : b.stallTask.contains t.operation = true ∨ b.taskSteps.length ≤ t.step) :
    w.server.doing b extId = none := by
  rw [Server.doing, h, Option.filter_some_neg]
  obtain hs | hs := hstill
  · simp only [hs]
    simp
  · have : terminal b t = false := by
      rw [terminal, beq_eq_false_iff_ne]
      omega
    simp [this]

theorem doing_of_step (h : w.server.tasks extId = some t) (hc : t.canceling = false)
    (hstall : b.stallTask.contains t.operation = false) :
    w.server.doing b extId = if terminal b t && !failing b t then some t else none := by
  rw [Server.doing, h, Option.filter_some, hc, hstall]
  simp

namespace Inv

/-- A task that the server is not at work on is none of those that go on. -/
theorem ne_of_tasks (h : w.Inv b init) (hidle : ∀ t, w.server.tasks extId = some t → t.canceling = true)
    {p : String × MockTask} (hp : p ∈ w.begun) (hc : p.1 ∉ w.cancelled) : p.1 ≠ extId := by
  rintro rfl
  have hcanceling := hidle _ (h.stands p hp hc)
  rw [(h.made p hp).2] at hcanceling
  cases hcanceling

/-- A read of a task that is being cancelled. -/
theorem read_canceling (h : w.Inv b init) (ht : w.server.tasks extId = some t) (hc : t.canceling = true) {e' : Json}
    (hkey : textAt e' "extId" = some extId) {tasks : String → Option MockTask}
    (htasks : tasks = w.server.tasks ∨ tasks = Function.update w.server.tasks extId none) (n : ℕ) :
    Inv b init
      { w with
        server := { store := w.server.store.replace b.tasksPath "extId" extId e', tasks }
        reads := Function.update w.reads extId n } := by
  have hidle : ∀ t, w.server.tasks extId = some t → t.canceling = true := by
    intro t' ht'
    rw [ht, Option.some.injEq] at ht'
    rw [← ht']
    exact hc
  have hsome {id : String} {t' : MockTask} (ht' : tasks id = some t') : w.server.tasks id = some t' := by
    obtain rfl | rfl := htasks
    · exact ht'
    · by_cases hid : id = extId
      · rw [hid, Function.update_self] at ht'
        cases ht'
      · rwa [Function.update_of_ne hid] at ht'
  have hother {id : String} (hid : id ≠ extId) : tasks id = w.server.tasks id := by
    obtain rfl | rfl := htasks
    · rfl
    · exact Function.update_of_ne hid ..
  have hne {f : Done} (hf : f ∈ w.done) : f.extId ≠ extId := by
    obtain ⟨task, htask, -⟩ := (h.of_done f hf).2
    exact h.ne_of_tasks hidle htask (h.of_done f hf).1
  exact {
    made := h.made
    known := fun id t' ht' => h.known id t' (hsome ht')
    doomed := fun id hid t' ht' => h.doomed id hid t' (hsome ht')
    keyed := fun id t' ht' => h.keyed id t' (hsome ht')
    stands := by
      intro p hp hpc
      have hid := h.ne_of_tasks hidle hp hpc
      dsimp only
      rw [hother hid, Function.update_of_ne hid]
      exact h.stands p hp hpc
    done_iff := by
      intro p hp hpc
      dsimp only
      rw [Function.update_of_ne (h.ne_of_tasks hidle hp hpc)]
      exact h.done_iff p hp hpc
    of_done := h.of_done
    nodup := h.nodup
    settled := by
      intro f hf e he
      rw [Server.row, entity_replace hkey (hne hf)] at he
      exact h.settled f hf e he
    agree := (Store.agree_modify _ _ _).symm.trans h.agree }

/-- A task that goes one step further is as far as it was read before, and no further than its statuses. -/
theorem stepping (h : w.Inv b init) (ht : w.server.tasks extId = some t)
    (hstall : b.stallTask.contains t.operation = false) (hlt : t.step < b.taskSteps.length) {task : MockTask}
    (htask : (extId, task) ∈ w.begun) (hlive : extId ∉ w.cancelled) :
    t = { task with step := w.reads extId } ∧ w.reads extId < b.taskSteps.length := by
  have hstands := h.stands _ htask hlive
  rw [ht, Option.some.injEq] at hstands
  have hop : task.operation = t.operation := by rw [hstands]
  have hreached : t.step = min (w.reads extId) b.taskSteps.length := by
    rw [hstands, reached, hop, hstall]
    rfl
  have hreads : reached b (w.reads extId) task = w.reads extId := by
    rw [reached, hop, hstall, if_neg Bool.false_ne_true]
    omega
  dsimp only at hstands
  rw [hreads] at hstands
  exact ⟨hstands, by omega⟩

/-- A task that goes one step further was made by the server, and was neither cancelled nor is it done. -/
theorem at_work (h : w.Inv b init) (ht : w.server.tasks extId = some t) (hc : t.canceling = false)
    (hstall : b.stallTask.contains t.operation = false) (hlt : t.step < b.taskSteps.length) :
    extId ∉ w.cancelled ∧ extId ∉ w.done.map Done.extId ∧ ∃ task, (extId, task) ∈ w.begun := by
  have hlive : extId ∉ w.cancelled := by
    intro hcancelled
    rw [h.doomed extId hcancelled t ht] at hc
    cases hc
  obtain ⟨task, htask⟩ := h.known extId t ht hc
  obtain ⟨-, hreads⟩ := h.stepping ht hstall hlt htask hlive
  refine ⟨hlive, ?_, task, htask⟩
  intro hmem
  have heff := ((h.done_iff _ htask hlive).1 hmem).2.1
  dsimp only at heff
  omega

/-- What the effect of a task keeps of the tasks, if it comes about. -/
theorem within_effect {P : Json → Json → Prop} (hP : ∀ e, P e e) (hb : Tidy b) (h : w.Inv b init)
    (ht : w.server.tasks extId = some t) (hwrite : ∀ target, t.target = some target → target.listPath = b.tasksPath →
      ∀ e e', change b d t target e = .write e' → P e e') (does : Bool) :
    Store.Within P b.tasksPath w.server.store
      (if does then applyEffect b d w.server.store t else w.server.store) := by
  split
  · refine applyEffect_within hP hb.path fun target htarget hlist => ⟨?_, hwrite target htarget hlist⟩
    rw [h.keyed extId t ht target htarget, hlist]
    exact hb.key
  · exact Store.within_of_list hP rfl

/-- A read of a task that goes one step further: the lists become `store`, and the row of the task `e'`. -/
theorem read_stepped (h : w.Inv b init) (ht : w.server.tasks extId = some t) (hc : t.canceling = false)
    (hstall : b.stallTask.contains t.operation = false) (hlt : t.step < b.taskSteps.length) {store : Store}
    {e' : Json} {news : List Done} (hnews : news = if terminal b t && !failing b t then [⟨extId, t, d⟩] else [])
    (hkey : textAt e' "extId" = some extId) (hend : terminal b t = true → e'.get "isCancelable" = some (.bool false))
    (hwithin : Store.Within Alike b.tasksPath w.server.store store)
    (hagree : Store.Agree b.tasksPath store ((w.done ++ news).foldl (happened b) init)) :
    Inv b init
      { w with
        server :=
          { store := store.replace b.tasksPath "extId" extId e'
            tasks := Function.update w.server.tasks extId (some { t with step := t.step + 1 }) }
        reads := Function.update w.reads extId (w.reads extId + 1)
        done := w.done ++ news } := by
  obtain ⟨hlive, hnew, task, htask⟩ := h.at_work ht hc hstall hlt
  obtain ⟨hstands, hreads⟩ := h.stepping ht hstall hlt htask hlive
  have hterminal : terminal b t = true ↔ w.reads extId + 1 = b.taskSteps.length := by
    rw [terminal, beq_iff_eq, hstands]
  have hnone (id : String) (hid : id ≠ extId) : id ∉ news.map Done.extId := by
    rw [hnews]
    split
    · simpa using hid
    · simp
  have htasks {id : String} (hid : id ≠ extId) :
      Function.update w.server.tasks extId (some { t with step := t.step + 1 }) id = w.server.tasks id :=
    Function.update_of_ne hid ..
  exact {
    made := h.made
    known := by
      refine of_update ?_ ?_
      · exact fun id t' _ => h.known id t'
      · exact fun _ => ⟨task, htask⟩
    doomed := by
      intro id hid t' ht'
      have hne : id ≠ extId := by
        rintro rfl
        exact hlive hid
      dsimp only at ht'
      rw [htasks hne] at ht'
      exact h.doomed id hid t' ht'
    keyed := by
      refine of_update ?_ ?_
      · exact fun id t' _ => h.keyed id t'
      · exact h.keyed extId t ht
    stands := by
      intro p hp hpc
      dsimp only
      by_cases hid : p.1 = extId
      · obtain ⟨id, task'⟩ := p
        obtain rfl : id = extId := hid
        obtain ⟨hstands', -⟩ := h.stepping ht hstall hlt hp hlive
        have hop : task'.operation = t.operation := by rw [hstands']
        have hreached : reached b (w.reads id + 1) task' = w.reads id + 1 := by
          rw [reached, hop, hstall, if_neg Bool.false_ne_true]
          omega
        rw [Function.update_self, Function.update_self, hreached, hstands']
      · rw [htasks hid, Function.update_of_ne hid]
        exact h.stands p hp hpc
    done_iff := by
      intro p hp hpc
      dsimp only
      rw [List.map_append, List.mem_append]
      by_cases hid : p.1 = extId
      · obtain ⟨id, task'⟩ := p
        obtain rfl : id = extId := hid
        obtain ⟨hstands', -⟩ := h.stepping ht hstall hlt hp hlive
        have hop : task'.operation = t.operation := by rw [hstands']
        have hfail : failing b task' = failing b t := by rw [failing, failing, hop]
        have hne : b.taskSteps ≠ [] := List.ne_nil_of_length_pos (by omega)
        have hread : b.taskSteps.length ≤ w.reads id + 1 ↔ terminal b t = true := by
          rw [hterminal]
          omega
        rw [or_iff_right hnew, Function.update_self, Effective, hop, hstall, hfail, hread, hnews]
        cases terminal b t <;> cases failing b t <;> simp [hne]
      · rw [Function.update_of_ne hid, ← h.done_iff p hp hpc, or_iff_left (hnone _ hid)]
    of_done := by
      intro f hf
      obtain hf | hf := List.mem_append.1 hf
      · exact h.of_done f hf
      · rw [hnews] at hf
        split at hf
        · rename_i hdoes
          rw [Bool.and_eq_true] at hdoes
          obtain rfl := List.mem_singleton.1 hf
          have hlast : w.reads extId = b.taskSteps.length - 1 := by
            have := hterminal.1 hdoes.1
            omega
          exact ⟨hlive, task, htask, hlast ▸ hstands⟩
        · cases hf
    nodup := by
      rw [List.map_append, hnews]
      split
      · exact h.nodup.append (List.nodup_singleton _) (List.disjoint_singleton.2 hnew)
      · rw [List.map_nil, List.append_nil]
        exact h.nodup
    settled := by
      intro f hf e he
      rw [Server.row] at he
      obtain hf | hf := List.mem_append.1 hf
      · have hid : f.extId ≠ extId := fun heq => hnew (heq ▸ List.mem_map_of_mem hf)
        rw [entity_replace hkey hid] at he
        obtain ⟨e₀, he₀, halike⟩ := hwithin f.extId e he
        rw [halike]
        exact h.settled f hf e₀ he₀
      · -- The task itself has ended, and its row says so.
        rw [hnews] at hf
        split at hf
        · rename_i hdoes
          rw [Bool.and_eq_true] at hdoes
          obtain rfl := List.mem_singleton.1 hf
          rw [eq_of_entity_replace hkey he]
          exact hend hdoes.1
        · cases hf
    agree := (Store.agree_modify _ _ _).symm.trans hagree }

/-- A task that is read as often as it has statuses, or stands still, is where it was. -/
theorem reads_still (h : w.Inv b init) (ht : w.server.tasks extId = some t)
    (hstill : b.stallTask.contains t.operation = true ∨ b.taskSteps.length ≤ t.step) :
    Inv b init { w with reads := Function.update w.reads extId (w.reads extId + 1) } := by
  refine h.of_reads fun p hp hpc => ?_
  by_cases hid : p.1 = extId
  · obtain ⟨id, task⟩ := p
    obtain rfl : id = extId := hid
    have hstands := h.stands _ hp hpc
    rw [ht, Option.some.injEq] at hstands
    have hop : task.operation = t.operation := by rw [hstands]
    dsimp only
    rw [Function.update_self, Effective, Effective, reached, reached, hop]
    by_cases hs : b.stallTask.contains t.operation = true
    · rw [if_pos hs, if_pos hs, hs]
      simp
    · have hstep : b.taskSteps.length ≤ t.step := hstill.resolve_left hs
      rw [hstands, reached, hop, if_neg hs] at hstep
      dsimp only at hstep
      have hle : b.taskSteps.length ≤ w.reads id := by omega
      have hle' : b.taskSteps.length ≤ w.reads id + 1 := by omega
      rw [if_neg hs, if_neg hs, min_eq_right hle, min_eq_right hle']
      simp [hle, hle']
  · rw [Function.update_of_ne hid]
    exact ⟨rfl, Iff.rfl⟩

/-- **A read keeps the invariant**, whatever the task is. -/
theorem read (hb : Tidy b) (h : w.Inv b init) (hrow : w.server.row b extId = some e) :
    Inv b init (w.read b d extId) := by
  have hadvanced := Server.advanced (b := b) (d := d) hrow
  rw [World.read]
  generalize w.server.advance b d extId = s' at hadvanced
  cases hadvanced with
  | untouched hnone =>
      rw [doing_of_tasks hnone, Option.toList_none, List.map_nil, List.append_nil]
      refine h.of_reads fun p hp hpc => ?_
      have hid := h.ne_of_tasks (fun t ht => by rw [hnone] at ht; cases ht) hp hpc
      rw [Function.update_of_ne hid]
      exact ⟨rfl, Iff.rfl⟩
  | canceling t ht hc e' hkey hstatus tasks htasks =>
      rw [doing_of_canceling ht hc, Option.toList_none, List.map_nil, List.append_nil]
      exact h.read_canceling ht hc hkey htasks _
  | still t ht hc hstill =>
      rw [doing_of_stall ht hstill, Option.toList_none, List.map_nil, List.append_nil]
      exact h.reads_still ht hstill
  | stepped t ht hc hstall status progress hstep =>
      have hlt : t.step < b.taskSteps.length := (List.getElem?_eq_some_iff.1 hstep).1
      have hkey := Store.textAt_of_entity hrow
      have hnews : (w.server.doing b extId).toList.map (fun t => Done.mk extId t d) =
          if terminal b t && !failing b t then [⟨extId, t, d⟩] else [] := by
        rw [doing_of_step ht hc hstall]
        split <;> rfl
      have hwithin := h.within_effect (d := d) Alike.refl hb ht (fun _ _ _ _ _ hw => (change_write hw).2)
        (terminal b t && !failing b t)
      refine h.read_stepped ht hc hstall hlt hnews (Server.steppedRow_spec hkey).1
        (Server.steppedRow_terminal hkey) hwithin ?_
      rw [hnews, List.foldl_append]
      split
      · exact applyEffect_agree hb.path h.agree
      · exact h.agree

/-- A task is cancelled. -/
theorem cancelled (h : w.Inv b init) (hrow : w.server.row b extId = some e) (hcan : Server.cancelable e = true)
    (hfrom : w.server.tasks extId = some t ∨ w.server.tasks extId = none ∧ t.target = none) :
    Inv b init
      { w with
        server := { w.server with
          tasks := Function.update w.server.tasks extId (some { t with canceling := true }) }
        cancelled := w.cancelled ++ [extId] } := by
  have hnot {id : String} (hid : id ∉ w.cancelled ++ [extId]) : id ∉ w.cancelled ∧ id ≠ extId := by
    rwa [List.mem_append, List.mem_singleton, not_or] at hid
  have hlive {f : Done} (hf : f ∈ w.done) : f.extId ≠ extId := by
    rintro rfl
    have hend := h.settled f hf e hrow
    rw [Server.cancelable, hend, Bool.and_eq_true] at hcan
    exact absurd hcan.1 (by decide)
  exact {
    made := h.made
    known := by
      refine of_update ?_ ?_
      · exact fun id t' _ => h.known id t'
      · intro hc
        cases hc
    doomed := by
      have hdoomed : ∀ id t', Function.update w.server.tasks extId (some { t with canceling := true }) id = some t' →
          id ∈ w.cancelled ++ [extId] → t'.canceling = true := by
        refine of_update ?_ (fun _ => rfl)
        intro id t' hne ht' hid
        obtain hid | hid := List.mem_append.1 hid
        · exact h.doomed id hid t' ht'
        · exact absurd (List.mem_singleton.1 hid) hne
      exact fun id hid t' ht' => hdoomed id t' ht' hid
    keyed := by
      refine of_update ?_ ?_
      · exact fun id t' _ => h.keyed id t'
      · intro target htarget
        obtain ht | ⟨-, hnone⟩ := hfrom
        · exact h.keyed extId t ht target htarget
        · rw [hnone] at htarget
          cases htarget
    stands := by
      intro p hp hpc
      dsimp only
      rw [Function.update_of_ne (hnot hpc).2]
      exact h.stands p hp (hnot hpc).1
    done_iff := fun p hp hpc => h.done_iff p hp (hnot hpc).1
    of_done := by
      intro f hf
      obtain ⟨hc, htask⟩ := h.of_done f hf
      refine ⟨?_, htask⟩
      rw [List.mem_append, List.mem_singleton, not_or]
      exact ⟨hc, hlive hf⟩
    nodup := h.nodup
    settled := h.settled
    agree := h.agree }

/-- A task is made. -/
theorem begun (h : w.Inv b init) (hnew : taskId d ∉ w.begun.map Prod.fst) (hlive : taskId d ∉ w.cancelled)
    (hstep : t.step = 0) (hc : t.canceling = false)
    (htarget : ∀ target, t.target = some target → target.idKey = idKeyFor b.kinds target.listPath) :
    Inv b init
      { w with
        server := w.server.startTask b d t
        begun := w.begun ++ [(taskId d, t)]
        reads := Function.update w.reads (taskId d) 0 } := by
  have hother {p : String × MockTask} (hp : p ∈ w.begun) : p.1 ≠ taskId d :=
    fun heq => hnew (heq ▸ List.mem_map_of_mem hp)
  have hdone : taskId d ∉ w.done.map Done.extId := by
    intro hmem
    obtain ⟨task, htask⟩ := h.mem_begun hmem
    exact hother htask rfl
  have hreached : reached b 0 t = 0 := by
    rw [reached, Nat.zero_min, ite_self]
  have hnot : ¬ Effective b 0 t := by
    intro heff
    exact heff.1 (List.eq_nil_of_length_eq_zero (Nat.le_zero.1 heff.2.1))
  exact {
    made := by
      intro p hp
      obtain hp | hp := List.mem_append.1 hp
      · exact h.made p hp
      · rw [List.mem_singleton.1 hp]
        exact ⟨hstep, hc⟩
    known := by
      refine of_update ?_ ?_
      · intro id t' _ ht' hc'
        obtain ⟨task, htask⟩ := h.known id t' ht' hc'
        exact ⟨task, List.mem_append_left _ htask⟩
      · exact fun _ => ⟨t, List.mem_append_right _ (List.mem_singleton_self _)⟩
    doomed := by
      intro id hid t' ht'
      dsimp only [Server.startTask] at ht'
      rw [Function.update_of_ne fun heq => hlive (by rwa [heq] at hid)] at ht'
      exact h.doomed id hid t' ht'
    keyed := by
      refine of_update ?_ htarget
      exact fun id t' _ => h.keyed id t'
    stands := by
      intro p hp hpc
      dsimp only [Server.startTask]
      obtain hp | hp := List.mem_append.1 hp
      · rw [Function.update_of_ne (hother hp), Function.update_of_ne (hother hp)]
        exact h.stands p hp hpc
      · obtain rfl := List.mem_singleton.1 hp
        rw [Function.update_self, Function.update_self, hreached, ← hstep]
    done_iff := by
      intro p hp hpc
      dsimp only
      obtain hp | hp := List.mem_append.1 hp
      · rw [Function.update_of_ne (hother hp)]
        exact h.done_iff p hp hpc
      · obtain rfl := List.mem_singleton.1 hp
        rw [Function.update_self]
        exact iff_of_false hdone hnot
    of_done := by
      intro f hf
      obtain ⟨hfc, task, htask, heq⟩ := h.of_done f hf
      exact ⟨hfc, task, List.mem_append_left _ htask, heq⟩
    nodup := h.nodup
    settled := by
      intro f hf e he
      have hne : f.extId ≠ taskId d := by
        intro heq
        rw [← heq] at hdone
        exact hdone (List.mem_map_of_mem hf)
      rw [row_startTask_ne hne] at he
      exact h.settled f hf e he
    agree := (Store.agree_push _ _ _).symm.trans h.agree }

end Inv

theorem step_get (w : World) (d : Draws) (apiPath : String) (query : Params) :
    w.step b F (.get d apiPath query) = some ((w.server.polled b F apiPath query).elim w (w.read b d)) := by
  rw [step]
  cases hpolled : w.server.polled b F apiPath query with
  | none =>
      have hserver := Server.get_server (b := b) (d := d) (s := w.server) F apiPath query
      rw [hpolled] at hserver
      dsimp only
      rw [hserver]
      rfl
  | some extId =>
      have hserver := Server.get_server (b := b) (d := d) (s := w.server) F apiPath query
      rw [hpolled] at hserver
      dsimp only
      rw [hserver]
      rfl

theorem row_of_polledAt {s : Server} {apiPath : String} (h : s.polledAt b apiPath = some extId) :
    rsplitOnce "/" apiPath = some (b.tasksPath, extId) ∧ ∃ e, s.row b extId = some e := by
  obtain ⟨⟨listPath, id⟩, hsplit, hp⟩ := Option.bind_eq_some_iff.1 h
  dsimp only at hp
  split at hp
  · rename_i hrow
    cases hp
    obtain ⟨rfl, hsome⟩ := hrow
    exact ⟨hsplit, Option.isSome_iff_exists.1 hsome⟩
  · cases hp

/-- A read of a task is a read of a row. -/
theorem getRow_of_polled {s : Server} {apiPath : String} {query : Params}
    (h : s.polled b F apiPath query = some extId) : s.polledAt b apiPath = some extId ∧ ∀ d : Draws,
      s.get b d F apiPath query =
        s.getRow b d apiPath
          ((((s.listing b).getList F apiPath query).map Server.Answer.list).mapError Server.Refusal.listing) := by
  simp only [Server.get]
  rw [Server.polled] at h
  split at h
  · cases h
  · cases h
  split at h
  · cases h
  rename_i hhas
  refine ⟨h, fun d => ?_⟩
  rw [if_neg hhas]

theorem row_of_polled {s : Server} {apiPath : String} {query : Params} (h : s.polled b F apiPath query = some extId) :
    ∃ e, s.row b extId = some e :=
  (row_of_polledAt (getRow_of_polled h).1).2

/-- **Every request keeps the invariant.** -/
theorem Inv.step (hb : Tidy b) (h : w.Inv b init) {r : Request} (hfresh : w.Fresh b r)
    (hstep : w.step b F r = some w') : w'.Inv b init := by
  cases r with
  | get d apiPath query =>
      rw [step_get, Option.some.injEq] at hstep
      rw [← hstep]
      cases hpolled : w.server.polled b F apiPath query with
      | none => exact h
      | some extId =>
          obtain ⟨e, hrow⟩ := row_of_polled hpolled
          exact h.read hb hrow
  | mutate d r =>
      rw [World.step] at hstep
      cases hmutate : w.server.mutate b d r with
      | error refusal =>
          rw [hmutate] at hstep
          cases hstep
          exact h
      | ok p =>
          obtain ⟨s', a⟩ := p
          rw [hmutate] at hstep
          cases Server.mutated hmutate with
          | cancelled extId hcancel e hrow hcan t ht hfrom =>
              dsimp only at hstep
              rw [hcancel] at hstep
              cases hstep
              exact h.cancelled hrow hcan hfrom
          | begun t ht hc htarget =>
              dsimp only [Server.startTask] at hstep
              rw [Function.update_self] at hstep
              cases hstep
              exact h.begun hfresh.1 hfresh.2.1 ht hc htarget

/-- **What every request keeps holds at the end of every run.** -/
theorem inv (hb : Tidy b) {es : List Request} (hrun : Run.exec (step b F) (start b) es = some w)
    (hfresh : Run.Along (step b F) (Fresh b) (start b) es) : w.Inv b { lists := IndexMap.ofList b.lists } :=
  Run.exec_inv_along (fun _ _ _ h hfresh hstep => Inv.step hb h hfresh hstep) inv_start hfresh hrun

end World

/-! ### A machine switched off -/

/-- A server with one machine, which can be switched off. -/
def sample : Builder where
  lists := [("/vmm/v4.0/ahv/config/vms", [.obj [("extId", .str "7"), ("powerState", .str "ON")]])]
  kinds :=
    [{ vmKind with
        actions :=
          [{ name := "power-off", method := .post
             path := "/vmm/v4.0/ahv/config/vms/\x7bextId\x7d/$actions/power-off" }] }]
  tasksPath := "/prism/v4.0/config/tasks"
  etagOf := fun _ => "e"
  sameBody := fun _ _ => false

/-- The draws of one answer. -/
def drawn (uuid : String) : Draws := { now := fun _ => "", uuid := fun _ => uuid }

/-- The machine is switched off, and the task is read. -/
def switchedOff (reads : ℕ) : List Request :=
  .mutate (drawn "1") { method := .post, apiPath := "/vmm/v4.0/ahv/config/vms/7/$actions/power-off", requestId := true }
    :: List.replicate reads (.get (drawn "2") "/prism/v4.0/config/tasks/ZXJnb24=:1" [])

instance decidableFresh (b : Builder) (w : World) (r : Request) : Decidable (w.Fresh b r) :=
  inferInstanceAs (Decidable (_ ∧ _ ∧ _))

/-- Every request is answered. -/
theorem exists_exec (b : Builder) (F : Doubles) (w : World) (es : List Request) :
    ∃ w', Run.exec (World.step b F) w es = some w' := by
  have hstep (w : World) (r : Request) : ∃ w', w.step b F r = some w' := by
    cases r with
    | get d apiPath query => exact ⟨_, World.step_get w d apiPath query⟩
    | mutate d r =>
        rw [World.step]
        split <;> exact ⟨_, rfl⟩
  obtain ⟨w', hw', -⟩ := Run.exists_exec (I := fun _ => True)
    (fun w r _ => (hstep w r).imp fun _ h => ⟨h, trivial⟩) trivial es
  exact ⟨w', hw'⟩

theorem tidy_sample : Tidy sample := ⟨rfl, rfl⟩

/-! ### Runs -/

/-- **What a run has done to the lists.**  Every effect is that of one task that was made and not cancelled, no task
has two, and beside the list of the tasks the lists are those of the start, with the effects in their order. -/
theorem effects_once {b : Builder} {F : Doubles} {es : List Request} {w : World} (hb : Tidy b)
    (hrun : Run.exec (World.step b F) (World.start b) es = some w)
    (hfresh : Run.Along (World.step b F) (World.Fresh b) (World.start b) es) :
    (w.done.map Done.extId).Nodup ∧
      (∀ f ∈ w.done, f.extId ∉ w.cancelled ∧
        ∃ task, (f.extId, task) ∈ w.begun ∧ f.task = { task with step := b.taskSteps.length - 1 }) ∧
      ∀ path, path ≠ b.tasksPath →
        w.server.store.list path = (w.done.foldl (World.happened b) { lists := IndexMap.ofList b.lists }).list path := by
  have h := World.inv hb hrun hfresh
  exact ⟨h.nodup, h.of_done, h.agree⟩

/-- The machine, once it is off. -/
theorem effects_once_off : ∃ w, Run.exec (World.step sample .wholes) (World.start sample) (switchedOff 4) = some w ∧
    (w.done.map Done.extId).Nodup ∧
    w.server.store.list "/vmm/v4.0/ahv/config/vms" = (w.done.foldl (World.happened sample)
      { lists := IndexMap.ofList sample.lists }).list "/vmm/v4.0/ahv/config/vms" := by
  obtain ⟨w, hw⟩ := exists_exec sample .wholes (World.start sample) (switchedOff 4)
  have h := effects_once tidy_sample hw (by decide +kernel)
  exact ⟨w, hw, h.1, h.2.2 _ (by decide)⟩

/-- **The tasks that have done what they are for**: of those not cancelled, the ones that have been read as often as
there are statuses, and neither stand still nor fail. -/
theorem effect_iff_read {b : Builder} {F : Doubles} {es : List Request} {w : World} (hb : Tidy b)
    (hrun : Run.exec (World.step b F) (World.start b) es = some w)
    (hfresh : Run.Along (World.step b F) (World.Fresh b) (World.start b) es) {extId : String} {task : MockTask}
    (htask : (extId, task) ∈ w.begun) (hlive : extId ∉ w.cancelled) :
    extId ∈ w.done.map Done.extId ↔ b.taskSteps ≠ [] ∧ b.taskSteps.length ≤ w.reads extId ∧
      task.operation ∉ b.stallTask ∧ task.operation ∉ b.failTask := by
  rw [(World.inv hb hrun hfresh).done_iff _ htask hlive, Effective, failing]
  simp

/-- The machine is off with the fourth read. -/
theorem effect_iff_read_off : ∃ w task,
    Run.exec (World.step sample .wholes) (World.start sample) (switchedOff 4) = some w ∧
    ("ZXJnb24=:1", task) ∈ w.begun ∧
    ("ZXJnb24=:1" ∈ w.done.map Done.extId ↔ sample.taskSteps ≠ [] ∧ sample.taskSteps.length ≤ w.reads "ZXJnb24=:1" ∧
      task.operation ∉ sample.stallTask ∧ task.operation ∉ sample.failTask) := by
  obtain ⟨w, hw⟩ := exists_exec sample .wholes (World.start sample) (switchedOff 4)
  have hmade : ∀ w ∈ Run.exec (World.step sample .wholes) (World.start sample) (switchedOff 4),
      "ZXJnb24=:1" ∈ w.begun.map Prod.fst ∧ "ZXJnb24=:1" ∉ w.cancelled := by decide +kernel
  obtain ⟨hbegun, hlive⟩ := hmade w hw
  obtain ⟨p, hp, hid⟩ := List.mem_map.1 hbegun
  have htask : ("ZXJnb24=:1", p.2) ∈ w.begun := by rwa [← hid]
  exact ⟨w, p.2, hw, htask, effect_iff_read tidy_sample hw (by decide +kernel) htask hlive⟩

end Nutsh.Mock
