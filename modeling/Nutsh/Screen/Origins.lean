/-
Whose rows a table holds.

A joined context is polled by a scheduler of its own, and its rows are in the store of the session under
keys that carry its name.  Every subscription writes under the key of the context it polls, but one: the
alerts around a failed task of a joined context are asked there and written under a key of no context.

* `Screen.Sited` — every subscription writes under the key of the context it polls;
* `Screen.rows_of_message` — a message changes no table but that of its subscription;
* `Screen.sited_step` — every step keeps it that never asks a joined context for the evidence of a row.
-/
import Nutsh.Lib.Run
import Nutsh.Screen.Steps

set_option relaxedAutoImplicit false
set_option autoImplicit false

namespace Nutsh

namespace Live

variable {live : Live}

/-- A subscription that a message finds is one of the polls. -/
theorem mem_polls_of_subscription {sub : ℕ} {k : Subscription} (h : live.subscription sub = some k) :
    ∃ c, (c, sub, k) ∈ live.polls := by
  have hlookup : ∀ {tasks : List (ℕ × Subscription)}, tasks.lookup sub = some k → (sub, k) ∈ tasks := by
    intro tasks htasks
    obtain ⟨before, after, rfl, -⟩ := List.lookup_eq_some_iff.1 htasks
    simp
  obtain ⟨s, hs, htasks⟩ := List.exists_of_findSome?_eq_some h
  rcases List.mem_cons.1 hs with rfl | hs
  · exact ⟨none, mem_polls.2 (Or.inl ⟨rfl, hlookup htasks⟩)⟩
  · obtain ⟨p, hp, rfl⟩ := List.mem_map.1 hs
    exact ⟨some p.name, mem_polls.2 (Or.inr ⟨p, hp, rfl, hlookup htasks⟩)⟩

@[simp] theorem store_clampSelection (live : Live) : live.clampSelection.store = live.store := by
  unfold clampSelection
  split <;> rfl

theorem store_foldl_unsubscribeAny (ids : List ℕ) (live : Live) :
    (ids.foldl unsubscribeAny live).store = live.store := by
  induction ids generalizing live with
  | nil => rfl
  | cons id ids ih => exact ih (live.unsubscribeAny id)

theorem store_regrade (live : Live) (refused : Kind → Option String) :
    (live.regrade refused).store = live.store := by
  unfold regrade
  split
  · exact store_foldl_unsubscribeAny _ live
  · rfl

end Live

namespace App

def store (app : App) : Option Store := app.live.map Live.store

theorem store_refreshRow (app : App) (kind : Kind) (extId : String) (site : Option String) :
    (app.refreshRow kind extId site).store = app.store := by
  unfold refreshRow
  split
  · rfl
  case h_2 live hlive =>
    have hkept : ∀ c f, store { app with live := some (live.mapScheduler c f) } = app.store := by
      intro c f
      simp only [store, hlive, Option.map_some, Live.store_mapScheduler]
    split
    · split
      · rfl
      · dsimp only
        split <;> split <;> first | rfl | exact hkept _ _
    · rfl

theorem store_finished (app : App) (live : Live) (done : Finished) :
    (app.finished live done).store = some live.store := by
  unfold finished
  dsimp only
  split
  · exact store_refreshRow { app with live := some _ } _ _ _
  · rfl

/-- A message of a subscription is applied to the table of its key, or to none. -/
theorem store_poll {app : App} {live : Live} (hlive : app.live = some live) (sub now : ℕ) (u : Update) :
    (app.poll sub now u).store = some live.store ∨
      ∃ k, live.subscription sub = some k ∧
        (app.poll sub now u).store = some (live.store.apply k.key now u) := by
  have hkept : app.store = some live.store := by rw [store, hlive, Option.map_some]
  unfold poll
  rw [hlive]
  dsimp only
  cases hk : live.subscription sub with
  | none => exact Or.inl hkept
  | some k =>
      dsimp only
      split
      · cases u with
        | entity g e => exact Or.inr ⟨k, rfl, rfl⟩
        | _ => exact Or.inl hkept
      · -- a watch that ends is ended first, and that changes no table
        refine Or.inr ⟨k, rfl, ?_⟩
        have happly : ∀ app : App, app.store = some live.store →
            (app.mapLive fun live =>
              { live with store := live.store.apply k.key now u }.clampSelection).store =
                some (live.store.apply k.key now u) := by
          intro app happ
          obtain ⟨live', hlive', hstore⟩ := Option.map_eq_some_iff.1 happ
          simp only [store, mapLive, hlive', Option.map_some, Live.store_clampSelection, hstore]
        refine happly _ ?_
        split
        · exact store_finished app _ _
        · rfl

end App

namespace Screen

variable {env : Env} {evidence : Evidence} {s t : Screen} {e : Event}

/-- Every subscription writes under the key of the context it polls. -/
def Sited (s : Screen) : Prop :=
  ∀ live, s.app.live = some live → ∀ c id k, (c, id, k) ∈ live.polls → k.key.context = c

theorem sited_iff : s.Sited ↔ s.roster.Every fun c k => k.key.context = c := by
  unfold Sited roster App.roster
  cases s.app.live with
  | none => exact iff_of_true (fun _ h => by cases h) fun _ _ _ h => h.elim
  | some live =>
      constructor
      · exact fun h => h live rfl
      · intro h live' hlive'
        cases hlive'
        exact h

/-- **A message changes no table but that of its subscription.** -/
theorem rows_of_message {live live' : Live} (hlive : s.app.live = some live) {sub now : ℕ} {u : Update}
    {refused : Kind → Option String} (hlive' : (s.poll sub now u refused).app.live = some live')
    {key : TableKey} (hkey : live'.store.table key ≠ live.store.table key) :
    ∃ c k, (c, sub, k) ∈ live.polls ∧ k.key.ident = key.ident := by
  have hstore : (s.app.poll sub now u).store = some live'.store := by
    obtain ⟨polled, hpolled, rfl⟩ := Option.map_eq_some_iff.1 hlive'
    have hsame : ∀ b : Bool, (if b then polled.regrade refused else polled).store = polled.store := by
      rintro (_ | _)
      · rfl
      · exact Live.store_regrade polled refused
    rw [App.store, show (s.app.poll sub now u).live = some polled from hpolled, Option.map_some, hsame]
  rcases App.store_poll hlive sub now u with h | ⟨k, hk, h⟩
  · rw [hstore, Option.some.injEq] at h
    exact absurd (by rw [h]) hkey
  · rw [hstore, Option.some.injEq] at h
    obtain ⟨c, hc⟩ := Live.mem_polls_of_subscription hk
    refine ⟨c, k, hc, ?_⟩
    by_contra hne
    exact hkey (by rw [h, Store.table_apply_ne (Ne.symm hne)])

/-- What a step does first starts nothing, and changes no key. -/
theorem starts_prelude {m : Roster.Move (Option String) Subscription Owner}
    (hm : m ∈ s.prelude env e) : m.Starts fun c k => k.key.context = c := by
  rcases prelude_cases hm with ⟨-, o, rfl⟩ | ⟨session, -, hm⟩ | ⟨f, rfl⟩
  · trivial
  · rcases List.mem_pair.1 hm with rfl | rfl <;> trivial
  · exact fun c id k hk => hk

/-! ### The run -/

/-- A step that asks no joined context for the evidence of a row keeps every subscription where it
belongs. -/
theorem sited_step (hc : s.app.Cataloged env.catalog) (hs : s.Sited)
    (hguard : s.asksAbroad env evidence e = false) (h : s.step env evidence e = some t) : t.Sited := by
  have hprelude : Roster.Every _ ((s.prelude env e).foldl (Roster.move rules) s.roster) :=
    (sited_iff.1 hs).foldl fun m => starts_prelude
  have hreach := ((does_step h).reach hc).imp fun c k hstarted => hstarted.1 hguard
  exact sited_iff.2 (hprelude.reaches hreach)

/-- **The rows of a table come from the context its key names**: at the end of every run that never
opens a pane over a failed task of a joined context which lists the alerts. -/
theorem rows_of_one_context {guardrails : Guardrails} {refreshCfg : Refresh} {es : List Event}
    (hguard : Run.Along (step env evidence) (fun s e => s.asksAbroad env evidence e = false)
      (init guardrails refreshCfg) es)
    (hrun : Run.exec (step env evidence) (init guardrails refreshCfg) es = some t) {live : Live}
    (hlive : t.app.live = some live) :
    (∀ c id k, (c, id, k) ∈ live.polls → k.key.context = c) ∧
      ∀ sub now u refused live', (t.poll sub now u refused).app.live = some live' →
        ∀ key, live'.store.table key ≠ live.store.table key →
          ∃ k, (key.context, sub, k) ∈ live.polls ∧ k.key.ident = key.ident := by
  have hinit : (init guardrails refreshCfg).app.Cataloged env.catalog ∧
      (init guardrails refreshCfg).Sited :=
    ⟨.of_bare rfl rfl, fun _ h => by cases h⟩
  have hsited : t.Sited := (Run.exec_inv_along
    (I := fun s => s.app.Cataloged env.catalog ∧ s.Sited)
    (fun s e t hs hguard h => ⟨(does_step h).cataloged hs.1, sited_step hs.1 hs.2 hguard h⟩)
    hinit hguard hrun).2
  refine ⟨hsited live hlive, fun sub now u refused live' hlive' key hkey => ?_⟩
  obtain ⟨c, k, hk, hident⟩ := rows_of_message hlive hlive' hkey
  have hcontext : key.context = c := by
    rw [← hsited live hlive c sub k hk]
    exact (congrArg TableKey.Ident.context hident).symm
  exact ⟨k, hcontext ▸ hk, hident⟩

/-- The tasks of two contexts in one table, and the pane of a failed one of the session's own. -/
def ownTaskRun : List Event :=
  connecting labSession (.kind taskKind) ++ [.joined prodSession] ++ walked 1 [failedTask "t"] ++
    [.openDetail true]

theorem rows_of_one_context_own_task :
    ∃ t ∈ Run.exec (step vmEnv taskEvidence) (init {} {}) ownTaskRun, ∃ live ∈ t.app.live,
      live.polls.length = 4 ∧ ∀ c id k, (c, id, k) ∈ live.polls → k.key.context = c := by
  have hrun : ∃ t ∈ Run.exec (step vmEnv taskEvidence) (init {} {}) ownTaskRun, ∃ live ∈ t.app.live,
      live.polls.length = 4 := by decide +kernel
  obtain ⟨t, ht, live, hlive, hpolls⟩ := hrun
  have hguard : Run.Along (step vmEnv taskEvidence) (fun s e => s.asksAbroad vmEnv taskEvidence e = false)
      (init {} {}) ownTaskRun := by decide +kernel
  have hrows := rows_of_one_context hguard ht hlive
  exact ⟨t, ht, live, hlive, hpolls, hrows.1⟩

/-- The failed task is one of the joined context. -/
def peerTaskRun : List Event :=
  connecting labSession (.kind taskKind) ++ [.joined prodSession] ++ walked 2 [failedTask "t"] ++
    [.openDetail true]

theorem not_rows_of_one_context : ¬ ∀ (env : Env) (evidence : Evidence) (guardrails : Guardrails)
    (refreshCfg : Refresh) (es : List Event) (t : Screen),
    Run.exec (step env evidence) (init guardrails refreshCfg) es = some t → t.Sited := by
  intro h
  have hrun : ∃ t ∈ Run.exec (step vmEnv taskEvidence) (init {} {}) peerTaskRun, ∃ live ∈ t.app.live,
      ∃ p ∈ live.polls, p.2.2.key.context ≠ p.1 := by decide +kernel
  obtain ⟨t, ht, live, hlive, ⟨c, id, k⟩, hp, hcontext⟩ := hrun
  exact hcontext (h vmEnv taskEvidence {} {} peerTaskRun t ht live hlive c id k hp)

end Screen

end Nutsh
