/-
What the client of a mock server is told of its tasks.

A watch polls the row of its task, and ends with the status the row shows.  As long as nobody manages an alert among
the tasks, the row says that the task succeeded exactly when what the task is for has been done: the answer that
ends the watch of a client so is the one by which it was done, or a later one.

Main definitions:

* `Honest`, `Plain` — statuses that end in success, and a task that writes no status of a task;
* `World.Shown` — the rows of the tasks say what was done.

Main results:

* `World.Shown.step`, `World.shown` — what a request keeps, and a run;
* `watch_succeeded_iff` — what the watch of a task is told.
-/
import Nutsh.Mock.Fired
import Nutsh.Tasks

set_option relaxedAutoImplicit false
set_option autoImplicit false

namespace Nutsh.Mock

open Server (taskId failing terminal)

/-- Statuses of which only the last says that a task succeeded, and that is not the first. -/
def Honest (steps : List (String × ℕ)) : Prop :=
  ∃ front progress, front ≠ [] ∧ steps = front ++ [("SUCCEEDED", progress)] ∧ ∀ x ∈ front, x.1 ≠ "SUCCEEDED"

/-- A task that manages no alert among the tasks. -/
def Plain (p : String) (t : MockTask) : Prop :=
  ∀ target, t.target = some target → target.listPath = p → t.action ≠ some "manage-alert"

/-- Two rows show one status. -/
def SameStatus (e e' : Json) : Prop := textAt e' "status" = textAt e "status"

theorem SameStatus.refl (e : Json) : SameStatus e e := rfl

/-- The status shown by a step: it says that the task succeeded when that is what it did. -/
theorem Honest.status {steps : List (String × ℕ)} (h : Honest steps) {n : ℕ} {status : String} {progress : ℕ}
    (hn : steps[n]? = some (status, progress)) : status = "SUCCEEDED" ↔ n + 1 = steps.length := by
  obtain ⟨front, last, -, rfl, hfront⟩ := h
  rw [List.length_append, List.length_singleton]
  by_cases hlt : n < front.length
  · rw [List.getElem?_append_left hlt] at hn
    have hne := hfront _ (List.mem_of_getElem? hn)
    exact iff_of_false hne (by omega)
  · rw [List.getElem?_append_right (by omega)] at hn
    have hzero : n - front.length = 0 := by
      have := (List.getElem?_eq_some_iff.1 hn).1
      rw [List.length_singleton] at this
      omega
    rw [hzero] at hn
    cases hn
    exact iff_of_true rfl (by omega)

namespace World

/-- What the row of a task says of it. -/
def Shown (b : Builder) (w : World) : Prop :=
  ∀ p ∈ w.begun, ∀ e, w.server.row b p.1 = some e →
    (textAt e "status" = some "SUCCEEDED" ↔ p.1 ∈ w.done.map Done.extId)

variable {b : Builder} {F : Doubles} {init : Store} {w w' : World} {d : Draws} {extId : String} {e : Json}

/-- **What a read shows**, and what it does. -/
theorem Shown.read (hb : Tidy b) (hsteps : Honest b.taskSteps) (h : w.Inv b init)
    (hplain : ∀ p ∈ w.begun, Plain b.tasksPath p.2) (hshown : w.Shown b) (hrow : w.server.row b extId = some e) :
    (w.read b d extId).Shown b := by
  have hadvanced := Server.advanced (b := b) (d := d) hrow
  have hkey := Store.textAt_of_entity hrow
  rw [World.read]
  generalize w.server.advance b d extId = s' at hadvanced
  cases hadvanced with
  | untouched hnone =>
      rw [doing_of_tasks hnone, Option.toList_none, List.map_nil, List.append_nil]
      exact hshown
  | canceling t ht hc e' hkey' hstatus tasks htasks =>
      rw [doing_of_canceling ht hc, Option.toList_none, List.map_nil, List.append_nil]
      intro p hp e₀ he₀
      by_cases hid : p.1 = extId
      · have hnot : extId ∉ w.done.map Done.extId := by
          intro hmem
          obtain ⟨t', ht', hc'⟩ := h.tasks_of_done hmem
          rw [ht, Option.some.injEq] at ht'
          rw [← ht', hc] at hc'
          cases hc'
        dsimp only [Server.row] at he₀ ⊢
        rw [hid] at he₀ ⊢
        rw [eq_of_entity_replace hkey' he₀]
        exact iff_of_false hstatus hnot
      · dsimp only [Server.row] at he₀
        rw [entity_replace hkey' hid] at he₀
        exact hshown p hp e₀ he₀
  | still t ht hc hstill =>
      rw [doing_of_stall ht hstill, Option.toList_none, List.map_nil, List.append_nil]
      exact hshown
  | stepped t ht hc hstall status progress hstep =>
      have hlt : t.step < b.taskSteps.length := (List.getElem?_eq_some_iff.1 hstep).1
      obtain ⟨hlive, hnew, task, htask⟩ := h.at_work ht hc hstall hlt
      obtain ⟨hstands, -⟩ := h.stepping ht hstall hlt htask hlive
      have hspec : textAt (Server.steppedRow b d t status progress e) "extId" = some extId ∧
          textAt (Server.steppedRow b d t status progress e) "status" =
            some (if terminal b t && failing b t then "FAILED" else status) := Server.steppedRow_spec hkey
      obtain ⟨hkey', hstatus⟩ := hspec
      have hwithin := h.within_effect (d := d) SameStatus.refl hb ht (fun target htarget hlist e e' hw => by
        have hplain := hplain _ htask target (by rw [← htarget, hstands]) hlist
        rw [SameStatus, textAt, textAt, change_status hw]
        rw [hstands]
        exact hplain) (terminal b t && !failing b t)
      rw [doing_of_step ht hc hstall]
      intro p hp e₀ he₀
      dsimp only [Server.row] at he₀ ⊢
      rw [List.map_append, List.mem_append]
      by_cases hid : p.1 = extId
      · rw [hid] at he₀ ⊢
        rw [eq_of_entity_replace hkey' he₀, hstatus, or_iff_right hnew, Option.some.injEq]
        have hlast : status = "SUCCEEDED" ↔ terminal b t = true := by
          rw [hsteps.status hstep, terminal, beq_iff_eq]
        cases hend : terminal b t <;> cases failing b t <;> simp [hlast, hend]
      · rw [entity_replace hkey' hid] at he₀
        obtain ⟨e₁, he₁, hsame⟩ := hwithin p.1 e₀ he₀
        have hnone : p.1 ∉ ((if terminal b t && !failing b t then some t else none).toList.map
            fun t => Done.mk extId t d).map Done.extId := by
          split
          · simpa using hid
          · simp
        rw [hsame, or_iff_left hnone]
        exact hshown p hp e₁ he₁

theorem textAt_taskRow_status (s : Server) (t : MockTask) :
    textAt (Server.taskRow b d s t) "status" = some (b.taskSteps.head?.getD ("QUEUED", 0)).1 := by
  rw [Server.taskRow]
  dsimp only
  split
  · rw [textAt, get_put_ne (by decide)]
    rfl
  · rfl

/-- A task that is made is not shown as one that succeeded. -/
theorem Shown.begun (hsteps : Honest b.taskSteps) (h : w.Inv b init) (hshown : w.Shown b)
    (hnew : taskId d ∉ w.begun.map Prod.fst) (hrow : w.server.row b (taskId d) = none) {t : MockTask}
    (n : String → ℕ) :
    Shown b { w with server := w.server.startTask b d t, begun := w.begun ++ [(taskId d, t)], reads := n } := by
  have hother {p : String × MockTask} (hp : p ∈ w.begun) : p.1 ≠ taskId d :=
    fun heq => hnew (heq ▸ List.mem_map_of_mem hp)
  intro p hp e he
  obtain hp | hp := List.mem_append.1 hp
  · dsimp only at he
    rw [row_startTask_ne (hother hp)] at he
    exact hshown p hp e he
  · obtain rfl := List.mem_singleton.1 hp
    dsimp only at he
    rw [row_startTask_self hrow, Option.some.injEq] at he
    have hdone : taskId d ∉ w.done.map Done.extId := by
      intro hmem
      obtain ⟨task, htask⟩ := h.mem_begun hmem
      exact hother htask rfl
    refine iff_of_false ?_ hdone
    obtain ⟨front, progress, hne, hfront, hall⟩ := hsteps
    obtain ⟨x, front, rfl⟩ := List.exists_cons_of_ne_nil hne
    rw [← he, textAt_taskRow_status, hfront, Option.some.injEq]
    exact hall x List.mem_cons_self

/-- **Every request keeps it**, as long as no alert is managed among the tasks. -/
theorem Shown.step (hb : Tidy b) (hsteps : Honest b.taskSteps) (h : w.Inv b init) (hshown : w.Shown b)
    {r : Request} (hfresh : w.Fresh b r) (hstep : w.step b F r = some w')
    (hplain : ∀ p ∈ w'.begun, Plain b.tasksPath p.2) : w'.Shown b := by
  cases r with
  | get d apiPath query =>
      rw [step_get, Option.some.injEq] at hstep
      rw [← hstep] at hplain ⊢
      cases hpolled : w.server.polled b F apiPath query with
      | none => exact hshown
      | some extId =>
          rw [hpolled] at hplain
          obtain ⟨e, hrow⟩ := row_of_polled hpolled
          exact hshown.read hb hsteps h hplain hrow
  | mutate d r =>
      rw [World.step] at hstep
      cases hmutate : w.server.mutate b d r with
      | error refusal =>
          rw [hmutate] at hstep
          cases hstep
          exact hshown
      | ok p =>
          obtain ⟨s', a⟩ := p
          rw [hmutate] at hstep
          cases Server.mutated hmutate with
          | cancelled extId hcancel e hrow hcan t ht hfrom =>
              dsimp only at hstep
              rw [hcancel] at hstep
              cases hstep
              exact hshown
          | begun t ht hc htarget =>
              dsimp only [Server.startTask] at hstep
              rw [Function.update_self] at hstep
              cases hstep
              exact hshown.begun hsteps h hfresh.1 hfresh.2.2 _

/-- The tasks that were made are not forgotten. -/
theorem begun_of_step {r : Request} (hstep : w.step b F r = some w') : w.begun <+: w'.begun := by
  cases r with
  | get d apiPath query =>
      rw [step_get, Option.some.injEq] at hstep
      rw [← hstep]
      cases w.server.polled b F apiPath query <;> exact List.prefix_refl _
  | mutate d r =>
      rw [World.step] at hstep
      split at hstep
      · cases hstep
        exact List.prefix_refl _
      · cases hstep
        exact List.prefix_append _ _
      · cases hstep
        exact List.prefix_refl _

/-- **The rows of the tasks say what was done**, at the end of every run. -/
theorem shown (hb : Tidy b) (hsteps : Honest b.taskSteps) {es : List Request}
    (hrun : Run.exec (step b F) (start b) es = some w)
    (hfresh : Run.Along (step b F) (Fresh b) (start b) es) (hplain : ∀ p ∈ w.begun, Plain b.tasksPath p.2) :
    w.Shown b := by
  let I : World → Prop := fun w => w.Inv b { lists := IndexMap.ofList b.lists } ∧
    ((∀ p ∈ w.begun, Plain b.tasksPath p.2) → w.Shown b)
  have hstart : I (start b) := ⟨inv_start, fun _ p hp => by cases hp⟩
  have hkept (w : World) (r : Request) (w' : World) (h : I w) (hfresh : w.Fresh b r)
      (hstep : w.step b F r = some w') : I w' := by
    refine ⟨h.1.step hb hfresh hstep, fun hplain => ?_⟩
    have hbegun := begun_of_step hstep
    exact (h.2 fun p hp => hplain p (hbegun.subset hp)).step hb hsteps h.1 hfresh hstep hplain
  exact (Run.exec_inv_along hkept hstart hfresh hrun).2 hplain

end World

/-- The answer to a read of a task has the row of the task, after its step, and there is no other answer with a row. -/
theorem Server.get_of_polled {b : Builder} {F : Doubles} {s : Server} {apiPath : String} {query : Params}
    {extId : String} (hb : Tidy b) (d : Draws) (hpolled : s.polled b F apiPath query = some extId) :
    ∃ otherwise : Except Refusal Answer, (∀ tag body, otherwise ≠ .ok (.entity tag body)) ∧
      (s.get b d F apiPath query).2 = ((s.advance b d extId).row b extId).elim otherwise fun e =>
        .ok (.entity (b.etagOf e) (.obj [("data", e), ("metadata", metadata)])) := by
  have hlisted (r : Except Refused Json) (tag : String) (body : Json) :
      (r.map Answer.list).mapError Refusal.listing ≠ .ok (.entity tag body) := by
    cases r with
    | error r => exact fun h => by cases h
    | ok body => exact fun h => by cases h
  obtain ⟨hat, hget⟩ := World.getRow_of_polled hpolled
  rw [hget d, getRow, (World.row_of_polledAt hat).1]
  dsimp only
  rw [if_pos rfl, hb.key, row]
  cases hentity : (s.advance b d extId).store.entity b.tasksPath "extId" extId with
  | none =>
      dsimp only [Option.elim_none]
      split
      · refine ⟨_, ?_, rfl⟩
        intro tag body h
        cases h
      · exact ⟨_, hlisted _, rfl⟩
  | some e =>
      refine ⟨.ok .cancelling, ?_, rfl⟩
      intro tag body h
      cases h

theorem parse_eq_succeeded_iff {s : String} : TaskStatus.parse s = .succeeded ↔ s = "SUCCEEDED" := by
  constructor
  · intro h
    rw [TaskStatus.parse] at h
    repeat' split at h
    all_goals first | assumption | cases h
  · rintro rfl
    rfl

/-- The outcome a watch is told: success for a row that says so. -/
theorem outcome_apply_iff {index : TaskIndex} {kind : Kind} {e : Json} {extId : String} {watch : TaskWatch}
    (hkind : kind.extIdKey = "extId") (he : textAt e "extId" = some extId) (tag : Option String)
    (hwatch : index.watched.get? extId = some watch) :
    (index.apply (Entity.new kind e tag)).2.map Finished.outcome = some .succeeded ↔
      textAt e "status" = some "SUCCEEDED" := by
  have hid : (Entity.new kind e tag).extId = extId := by
    rw [Entity.new, Entity.extIdOf, hkind]
    rw [textAt] at he
    rw [he]
    rfl
  have hstatus : textAt e "status" = some "SUCCEEDED" ↔
      TaskStatus.parse (((e.get "status").bind Json.asStr).getD "") = .succeeded := by
    rw [parse_eq_succeeded_iff, textAt]
    cases (e.get "status").bind Json.asStr with
    | none => simp
    | some s => simp
  rw [hstatus, TaskIndex.apply, hid, hwatch]
  dsimp only [Entity.new]
  generalize TaskStatus.parse (((e.get "status").bind Json.asStr).getD "") = status
  cases status <;> simp [TaskStatus.isTerminal, TaskIndex.outcomeOf]

/-- **What the watch of a task is told.**  The answer to a poll ends the watch as one that succeeded exactly when what
the task is for has been done, by that read or by one before it. -/
theorem watch_succeeded_iff {b : Builder} {F : Doubles} {es : List Request} {w w' : World} {d : Draws}
    {apiPath : String} {query : Params} {extId tag : String} {task : MockTask} {body e : Json} {index : TaskIndex}
    {kind : Kind} {watch : TaskWatch} (hb : Tidy b) (hsteps : Honest b.taskSteps)
    (hrun : Run.exec (World.step b F) (World.start b) es = some w)
    (hfresh : Run.Along (World.step b F) (World.Fresh b) (World.start b) es)
    (hplain : ∀ p ∈ w.begun, Plain b.tasksPath p.2) (htask : (extId, task) ∈ w.begun)
    (hpolled : w.server.polled b F apiPath query = some extId)
    (hanswer : (w.server.get b d F apiPath query).2 = .ok (.entity tag body)) (hdata : body.get "data" = some e)
    (hstep : w.step b F (.get d apiPath query) = some w') (hkind : kind.extIdKey = "extId")
    (hwatch : index.watched.get? extId = some watch) :
    (index.apply (Entity.new kind e (some tag))).2.map Finished.outcome = some .succeeded ↔
      extId ∈ w'.done.map Done.extId := by
  have hinv := World.inv hb hrun hfresh
  have hrow : (w.server.advance b d extId).row b extId = some e := by
    obtain ⟨otherwise, hother, hget⟩ := Server.get_of_polled hb d hpolled
    rw [hget] at hanswer
    cases hrow : (w.server.advance b d extId).row b extId with
    | none =>
        rw [hrow] at hanswer
        exact absurd hanswer (hother tag body)
    | some e' =>
        rw [hrow] at hanswer
        cases hanswer
        exact hdata
  obtain ⟨e₀, he₀⟩ := World.row_of_polled hpolled
  have hshown := (World.shown hb hsteps hrun hfresh hplain).read (d := d) hb hsteps hinv hplain he₀
  rw [World.step_get, hpolled, Option.some.injEq] at hstep
  rw [outcome_apply_iff hkind (Store.textAt_of_entity hrow) _ hwatch, ← hstep]
  exact hshown _ htask e hrow

/-- The watch of the task that switches the machine off. -/
def watching : TaskIndex where
  watched := IndexMap.empty.insert "ZXJnb24=:1"
    { task := "ZXJnb24=:1", rowKind := vmKind, extId := "7", name := "7", action := "power-off", started := 0, sub := 0,
      journal := 0 }

/-- The fourth poll, of a machine that is on when it is sent. -/
theorem watch_succeeded_off : ∃ w w' e,
    Run.exec (World.step sample .wholes) (World.start sample) (switchedOff 3) = some w ∧
    w.step sample .wholes (.get (drawn "2") "/prism/v4.0/config/tasks/ZXJnb24=:1" []) = some w' ∧
    (w.server.advance sample (drawn "2") "ZXJnb24=:1").row sample "ZXJnb24=:1" = some e ∧
    ((watching.apply (Entity.new vmKind e (some "e"))).2.map Finished.outcome = some .succeeded ↔
      "ZXJnb24=:1" ∈ w'.done.map Done.extId) := by
  obtain ⟨w, hw⟩ := exists_exec sample .wholes (World.start sample) (switchedOff 3)
  have hstate : ∀ w ∈ Run.exec (World.step sample .wholes) (World.start sample) (switchedOff 3),
      "ZXJnb24=:1" ∈ w.begun.map Prod.fst ∧ (w.begun.all fun p => p.2.action != some "manage-alert") = true ∧
      w.server.polled sample .wholes "/prism/v4.0/config/tasks/ZXJnb24=:1" [] = some "ZXJnb24=:1" ∧
      ((w.server.advance sample (drawn "2") "ZXJnb24=:1").row sample "ZXJnb24=:1").isSome = true := by
    decide +kernel
  obtain ⟨hbegun, haction, hpolled, hsome⟩ := hstate w hw
  obtain ⟨p, hp, hid⟩ := List.mem_map.1 hbegun
  have htask : ("ZXJnb24=:1", p.2) ∈ w.begun := by rwa [← hid]
  have hplain : ∀ p ∈ w.begun, Plain sample.tasksPath p.2 := by
    intro p hp target _ _
    simpa using List.all_eq_true.1 haction p hp
  have hsteps : Honest sample.taskSteps :=
    ⟨[("QUEUED", 0), ("RUNNING", 0), ("RUNNING", 50)], 100, by simp, rfl, by simp⟩
  obtain ⟨e, he⟩ := Option.isSome_iff_exists.1 hsome
  obtain ⟨otherwise, -, hget⟩ := Server.get_of_polled tidy_sample (drawn "2") hpolled
  rw [he] at hget
  exact ⟨w, _, e, hw, World.step_get w _ _ _, he, watch_succeeded_iff tidy_sample hsteps hw (by decide +kernel) hplain
    htask hpolled hget rfl (World.step_get w _ _ _) rfl rfl⟩

end Nutsh.Mock
