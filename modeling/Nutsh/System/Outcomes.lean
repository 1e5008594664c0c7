/-
What an outcome changes.

An outcome carries the number of its journal entry and no session.  The context it acts on is looked
up under that number in the journal of the session of the moment, which is another one after a
switch, and has dropped the entry when the ring has turned.

* `Live.subs` — the subscriptions polled on a context;
* `Flight.Own` — an outcome changes what is its own only;
* `System.Contained`, `System.along_own` — the outcomes of a run keep to what is their own as long as
  the number of each still leads to where its request went.
-/
import Nutsh.System.Sites

set_option relaxedAutoImplicit false
set_option autoImplicit false

namespace Nutsh

namespace Live

variable {live : Live}

/-- The subscriptions polled on a context. -/
def subs (live : Live) (site : Option String) : List (ℕ × Subscription) :=
  ((live.schedulerFor site).map Scheduler.tasks).getD []

theorem find?_mapPeer {name name' : String} (h : name' ≠ name) (f : Scheduler → Scheduler)
    (ps : List Peer) :
    (mapPeer name f ps).find? (fun p => p.name == name') = ps.find? fun p => p.name == name' := by
  induction ps with
  | nil => rfl
  | cons p ps ih =>
      rw [mapPeer]
      split
      · rename_i hp
        have hne : p.name ≠ name' := fun hp' => h (hp'.symm.trans hp)
        have hne' : Peer.name { p with scheduler := f p.scheduler } ≠ name' := hne
        rw [List.find?_cons_of_neg (by simpa using hne'), List.find?_cons_of_neg (by simpa using hne)]
      · rw [List.find?_cons, List.find?_cons, ih]

/-- Changing the scheduler of one context leaves those of the others. -/
theorem subs_mapScheduler {site site' : Option String} (h : site' ≠ site)
    (f : Scheduler → Scheduler) : (live.mapScheduler site f).subs site' = live.subs site' := by
  unfold subs
  cases site with
  | none =>
      cases site' with
      | none => exact absurd rfl h
      | some name' => rfl
  | some name =>
      cases site' with
      | none => rfl
      | some name' =>
          have hne : name' ≠ name := fun hn => h (congrArg some hn)
          simp only [schedulerFor, peer, mapScheduler, find?_mapPeer hne]

/-- Ending a subscription opens none. -/
theorem subs_unsubscribeAny (sub : ℕ) (site : Option String) :
    (live.unsubscribeAny sub).subs site ⊆ live.subs site := by
  have hsub : ∀ s : Scheduler, (s.unsubscribe sub).tasks ⊆ s.tasks := by
    intro s
    exact List.filter_sublist.subset
  unfold subs
  cases site with
  | none => exact hsub live.scheduler
  | some name =>
      have hfind : ((live.unsubscribeAny sub).peer name).map Peer.scheduler =
          ((live.peer name).map Peer.scheduler).map fun s => s.unsubscribe sub := by
        simp only [peer, unsubscribeAny, List.find?_map, Option.map_map]
        rfl
      simp only [schedulerFor, hfind]
      cases (live.peer name).map Peer.scheduler with
      | none => exact List.Subset.refl _
      | some s => exact hsub s

/-- The context an entry was recorded against, found under its number. -/
theorem nameOf_siteOf {id : ℕ} {a : Attempt} (hknows : live.journal.Knows id a)
    (hheld : live.journal.holds id ∨ a.context = live.primaryName) :
    live.nameOf (App.siteOf live id) = a.context := by
  unfold App.siteOf Journal.contextOf
  cases hfind : live.journal.entries.find? fun e => e.id == id with
  | none =>
      rcases hheld with ⟨e, he, hid⟩ | hname
      · exact absurd hid (by simpa using List.find?_eq_none.1 hfind e he)
      · exact hname.symm
  | some e =>
      have hid : e.id = id := by simpa using List.find?_some hfind
      have hcontext : e.context = a.context :=
        congrArg Attempt.context (hknows.2 e (List.mem_of_find?_eq_some hfind) hid)
      by_cases hname : a.context = live.primaryName
      · simp [hcontext, hname, nameOf, Option.filter_some]
      · simp [hcontext, hname, nameOf, Option.filter_some]

/-- A number the ring does not hold leads to the session's own context. -/
theorem siteOf_of_absent {id : ℕ} (h : ¬ live.journal.holds id) : App.siteOf live id = none := by
  unfold App.siteOf Journal.contextOf
  have hfind : (live.journal.entries.find? fun e => e.id == id) = none := by
    rw [List.find?_eq_none]
    intro e he
    have hne : e.id ≠ id := fun hid => h ⟨e, he, hid⟩
    simpa using hne
  rw [hfind]
  rfl

/-- The context a row of a kind is refreshed on, when the top table shows the kind and that context is
joined. -/
def refreshed (live : Live) (kind : Kind) (site : Option String) : Option (Option String) :=
  match live.stack.head? with
  | some (.table view) =>
      if view.key.kind.id ≠ kind.id ∨ kind.getPath.isNone then none
      else some (view.key.context.or site)
  | _ => none

/-- The context of the table in view comes first. -/
theorem refreshed_eq (live : Live) (kind : Kind) (site : Option String) :
    live.refreshed kind site = (live.refreshed kind none).map fun context => context.or site := by
  unfold refreshed
  split
  · split
    · rfl
    · simp
  · rfl

theorem schedulerFor_of_not_joined {name : String} (h : ¬ live.Joined (some name)) :
    (live.schedulerFor (some name)).isNone = true := by
  have hpeer : live.peer name = none := by
    rw [peer, List.find?_eq_none]
    intro p hp
    have hne : p.name ≠ name := by
      intro hname
      refine h ?_
      intro name' hname'
      exact ⟨p, hp, hname.trans (Option.some.inj hname')⟩
    simpa using hne
  simp [schedulerFor, hpeer]

end Live

namespace App

variable {a : App} {live : Live}

/-- A refresh subscribes on the context it is for, and changes nothing else of the session. -/
theorem refreshRow_spec (hl : a.live = some live) (kind : Kind) (extId : String)
    (site : Option String) :
    ∃ live', (a.refreshRow kind extId site).live = some live' ∧ live'.journal = live.journal ∧
      live'.tasks = live.tasks ∧ live'.canI = live.canI ∧
      ∀ site', (live.refreshed kind site = some site' → (live.schedulerFor site').isNone = true) →
        live'.subs site' = live.subs site' := by
  have hsame : ∃ live', a.live = some live' ∧ live'.journal = live.journal ∧
      live'.tasks = live.tasks ∧ live'.canI = live.canI ∧
      ∀ site', (live.refreshed kind site = some site' → (live.schedulerFor site').isNone = true) →
        live'.subs site' = live.subs site' :=
    ⟨live, hl, rfl, rfl, rfl, fun _ _ => rfl⟩
  unfold refreshRow
  rw [hl]
  dsimp only
  split
  · rename_i view hview
    split
    · exact hsame
    · rename_i hkind
      have hkey : ∀ key : TableKey, key.context = view.key.context.or site →
          ∃ live', (if (live.schedulerFor key.context).isNone = true then a
            else { a with
              live := some (live.mapScheduler key.context fun s =>
                s.subscribe a.nextSub
                  { key, single := some extId, once := true, pausable := false, interval := 1 }),
              nextSub := a.nextSub + 1 }).live = some live' ∧ live'.journal = live.journal ∧
            live'.tasks = live.tasks ∧ live'.canI = live.canI ∧
            ∀ site', (live.refreshed kind site = some site' → (live.schedulerFor site').isNone = true) →
        live'.subs site' = live.subs site' := by
        intro key hcontext
        split
        · exact hsame
        · rename_i hjoined
          refine ⟨_, rfl, Live.journal_mapScheduler live _ _, ?_, ?_, ?_⟩
          · unfold Live.mapScheduler
            split <;> rfl
          · unfold Live.mapScheduler
            split <;> rfl
          · intro site' hnone
            refine Live.subs_mapScheduler ?_ _
            intro heq
            rw [heq] at hnone
            refine hjoined (hnone ?_)
            rw [Live.refreshed, hview]
            dsimp only
            rw [if_neg hkind, hcontext]
      split
      · rename_i name hnone
        exact hkey _ (by simp [TableKey.inContext, hnone])
      · rename_i site₀ site₁ context hother
        refine hkey view.key ?_
        cases hcontext : view.key.context with
        | some name => rfl
        | none =>
            cases hsite : site₀ with
            | none => rfl
            | some name => exact absurd hcontext (hother name hsite)
  · exact hsame

end App

/-! ### What is its own -/

/-- The Prism Central a request went to, by the name of its context. -/
def Flight.went (f : Flight) : String := f.request.session.name

/-- What an outcome may change of a session: of the journal the one entry recorded for the request, the
subscriptions of the Prism Central the request went to, and the roles of the account there; of a
session that did not send the request, nothing of the journal, the tasks and the roles. -/
structure Flight.Own (f : Flight) (current : Prop) (live live' : Live) : Prop where
  entries : ∀ e, e.id ≠ f.request.journal →
    (e ∈ live'.journal.entries ↔ e ∈ live.journal.entries)
  entry : current → ∀ e ∈ live.journal.entries, e.id = f.request.journal →
    Journal.attemptOf e = f.request.attempt
  subs : ∀ site, live.nameOf site ≠ f.went → live'.subs site ⊆ live.subs site
  roles : live.primaryName ≠ f.went → live'.canI = live.canI
  past : ¬ current → live'.journal = live.journal ∧ live'.tasks = live.tasks ∧
    live'.canI = live.canI

/-- The number of a request leads to where it went: the ring still holds it, or it went to the session's
own context. -/
def Flight.Leads (f : Flight) (live : Live) : Prop :=
  live.journal.holds f.request.journal ∨ f.went = live.primaryName

instance (f : Flight) (live : Live) : Decidable (f.Leads live) := by
  unfold Flight.Leads Journal.holds
  infer_instance

/-- An outcome that keeps to what is its own.  In its own session a watch needs the number to lead to
where the request went, a 403 has to come from the session's own context, and the table a refresh
runs in has to be of the context the request went to; in another session the number has to be one the
ring does not hold, and the outcome neither a task nor a 403. -/
def Flight.Contained (f : Flight) (current : Prop) (live : Live) : Outcome → Prop
  | .started _ => current ∧ f.Leads live
  | .done =>
      (current ∨ ¬ live.journal.holds f.request.journal) ∧
        ∀ context ∈ live.refreshed f.request.plan.rowKind none,
          match context with
          | none => f.Leads live
          | some name => live.Joined (some name) → name = f.went
  | .returned _ => current ∨ ¬ live.journal.holds f.request.journal
  | .failed _ forbidden =>
      (current ∨ ¬ live.journal.holds f.request.journal) ∧
        (forbidden = true → current ∧ f.went = live.primaryName)

instance (f : Flight) (current : Prop) [Decidable current] (live : Live) (outcome : Outcome) :
    Decidable (f.Contained current live outcome) := by
  cases outcome with
  | done =>
      unfold Flight.Contained Journal.holds
      refine @instDecidableAnd _ _ inferInstance (@Option.decidableForallMem _ _ ?_ _)
      intro context
      cases context <;> infer_instance
  | started =>
      unfold Flight.Contained
      infer_instance
  | returned | failed =>
      unfold Flight.Contained Journal.holds
      infer_instance

namespace Flight

variable {f : Flight} {current : Prop} {live live' : Live} {o : JournalOutcome}
  {task : Option String}

/-- An outcome that settles the journal and opens subscriptions only where the request went keeps to
what is its own. -/
theorem own_of_settle (hknows : current → live.journal.Knows f.request.journal f.request.attempt)
    (hjournal : live'.journal = live.journal.settle f.request.journal o task)
    (hsubs : ∀ site, live.nameOf site ≠ f.went → live'.subs site ⊆ live.subs site)
    (hroles : live.primaryName ≠ f.went → live'.canI = live.canI)
    (hpast : ¬ current → ¬ live.journal.holds f.request.journal ∧ live'.tasks = live.tasks ∧
      live'.canI = live.canI) : f.Own current live live' := by
  refine ⟨?_, ?_, hsubs, hroles, ?_⟩
  · intro e he
    rw [hjournal]
    exact Journal.mem_settle_of_ne he
  · intro hcurrent e he hid
    exact (hknows hcurrent).2 e he hid
  · intro hnot
    obtain ⟨habsent, htasks, hcanI⟩ := hpast hnot
    exact ⟨hjournal.trans (Journal.settle_of_absent habsent o task), htasks, hcanI⟩

end Flight

namespace System

variable {env : Env}

/-- Every outcome changes what is its own only. -/
def Own (env : Env) (s : System) : Event → Prop
  | .acted i outcome =>
      ∀ f ∈ s.flying[i]?, ∀ live ∈ s.app.live, ∀ t ∈ s.step env (.acted i outcome),
        ∀ live' ∈ t.app.live, f.Own (f.generation = s.app.sessionGeneration) live live'
  | _ => True

/-- The condition on a step that lands an outcome. -/
def Contained (s : System) : Event → Prop
  | .acted i outcome =>
      ∀ f ∈ s.flying[i]?, ∀ live ∈ s.app.live,
        f.Contained (f.generation = s.app.sessionGeneration) live outcome
  | _ => True

instance (s : System) (e : Event) : Decidable (s.Contained e) := by
  cases e with
  | acted i outcome =>
      unfold Contained
      infer_instance
  | _ => exact isTrue trivial

/-- What holds of the requests in flight in every run: their numbers are tracked, and they are recorded
against the context they went to. -/
structure Recorded (s : System) : Prop where
  tracked : s.Tracked
  went : ∀ f ∈ s.flying, f.request.context = f.went

theorem recorded_step (s : System) (e : Event) (t : System) (hs : s.Recorded)
    (h : s.step env e = some t) : t.Recorded := by
  refine ⟨tracked_step s e t hs.tracked h, ?_⟩
  intro f hf
  rcases mem_flying_step h hf with hf | ⟨a, -, hq, -⟩
  · exact hs.went f hf
  · obtain ⟨live, key, p, -, -, -, row, -, site, e, hfound, -, hsession, hcontext, -⟩ :=
      App.makes_of_mem_runPending hq
    rw [Flight.went, hsession, Live.name_sessionFor_findRow hfound]
    exact hcontext

/-- A number that leads to where the request went is looked up there. -/
theorem nameOf_siteOf_of_leads {f : Flight} {live : Live}
    (hknows : live.journal.Knows f.request.journal f.request.attempt)
    (hwent : f.request.context = f.went) (hleads : f.Leads live) :
    live.nameOf (App.siteOf live f.request.journal) = f.went := by
  rw [← hwent]
  refine Live.nameOf_siteOf hknows ?_
  rcases hleads with hheld | hname
  · exact Or.inl hheld
  · exact Or.inr (hwent.trans hname)

/-- A session with the same schedulers polls the same. -/
theorem subs_subset {live live' : Live} (hs : live'.scheduler = live.scheduler)
    (hp : live'.peers = live.peers) (site : Option String) : live'.subs site ⊆ live.subs site := by
  have heq : live'.subs site = live.subs site := by
    cases site <;> simp [Live.subs, Live.schedulerFor, Live.peer, hs, hp]
  rw [heq]
  exact List.Subset.refl _

/-- A task started is watched where the request went. -/
theorem own_started {a : App} {f : Flight} {current : Prop} {live : Live} (hl : a.live = some live)
    (hknows : current → live.journal.Knows f.request.journal f.request.attempt)
    (hwent : f.request.context = f.went) (task : String)
    (hcontained : f.Contained current live (.started task)) :
    ∀ live' ∈ (a.acted env f.request.journal f.request.plan.toRef (.started task)).live,
      f.Own current live live' := by
  obtain ⟨hcurrent, hleads⟩ := hcontained
  have hsite := nameOf_siteOf_of_leads (hknows hcurrent) hwent hleads
  intro live' hlive'
  simp only [App.acted, hl, Option.mem_def, Option.some.injEq] at hlive'
  subst hlive'
  cases hscheduler : live.schedulerFor (App.siteOf live f.request.journal) with
  | none =>
      refine Flight.own_of_settle hknows rfl ?_ (fun _ => rfl) fun h => absurd hcurrent h
      intro site _
      exact List.Subset.refl _
  | some scheduler =>
      refine Flight.own_of_settle hknows rfl ?_ ?_ fun h => absurd hcurrent h
      · intro site hne
        have hother : site ≠ App.siteOf live f.request.journal := by
          intro heq
          rw [heq] at hne
          exact hne hsite
        have hsubs := @Live.subs_mapScheduler live _ _ hother
          (fun _ => (live.tasks.watch env.taskKind scheduler a.nextSub
            (App.siteOf live f.request.journal) f.request.plan.toRef task f.request.journal a.now).2)
        rw [← hsubs]
        exact subs_subset rfl rfl site
      · intro _
        dsimp only
        unfold Live.mapScheduler
        split <;> rfl

/-- A row is refreshed where the request went. -/
theorem own_done {a : App} {f : Flight} {current : Prop} {live : Live} (hl : a.live = some live)
    (hknows : current → live.journal.Knows f.request.journal f.request.attempt)
    (hwent : f.request.context = f.went) (hcontained : f.Contained current live .done) :
    ∀ live' ∈ (a.acted env f.request.journal f.request.plan.toRef .done).live,
      f.Own current live live' := by
  obtain ⟨hheld, hrefreshed⟩ := hcontained
  intro live' hlive'
  simp only [App.acted, hl] at hlive'
  obtain ⟨live'', hlive'', hjournal, htasks, hcanI, hsubs⟩ := App.refreshRow_spec
    (a := { a with live := some { live with
      journal := live.journal.settle f.request.journal .succeeded none } }) rfl
    f.request.plan.toRef.rowKind f.request.plan.toRef.extId (App.siteOf live f.request.journal)
  obtain rfl : live'' = live' := Option.some.inj (hlive''.symm.trans hlive')
  refine Flight.own_of_settle hknows hjournal ?_ (fun _ => hcanI) ?_
  · intro site hne
    rw [hsubs site ?_]
    · exact subs_subset rfl rfl site
    intro hsite
    have hsite' : live.refreshed f.request.plan.rowKind (App.siteOf live f.request.journal) =
        some site := hsite
    rw [Live.refreshed_eq] at hsite'
    obtain ⟨context, hcontext, rfl⟩ := Option.map_eq_some_iff.1 hsite'
    have hright := hrefreshed context hcontext
    cases context with
    | some name =>
        refine Live.schedulerFor_of_not_joined ?_
        intro hjoined
        exact hne (hright hjoined)
    | none =>
        refine absurd ?_ hne
        by_cases hcurrent : current
        · exact nameOf_siteOf_of_leads (hknows hcurrent) hwent hright
        · have habsent := hheld.resolve_left hcurrent
          rw [Live.siteOf_of_absent habsent]
          exact (hright.resolve_left habsent).symm
  · intro hnot
    exact ⟨hheld.resolve_left hnot, htasks, hcanI⟩

/-- A document answered closes the boxes, which opens no subscription. -/
theorem own_returned {a : App} {f : Flight} {current : Prop} {live : Live} (hl : a.live = some live)
    (hknows : current → live.journal.Knows f.request.journal f.request.attempt) (value : Json)
    (hcontained : f.Contained current live (.returned value)) :
    ∀ live' ∈ (a.acted env f.request.journal f.request.plan.toRef (.returned value)).live,
      f.Own current live live' := by
  intro live' hlive'
  simp only [App.acted, hl, App.closeModals, App.closeDetail] at hlive'
  split at hlive'
  · simp only [Option.map_some, Option.mem_def, Option.some.injEq] at hlive'
    subst hlive'
    refine Flight.own_of_settle hknows rfl ?_ (fun _ => rfl) ?_
    · intro site _
      exact List.Subset.trans (Live.subs_unsubscribeAny _ site) (subs_subset rfl rfl site)
    · intro hnot
      exact ⟨hcontained.resolve_left hnot, rfl, rfl⟩
  · simp only [Option.mem_def, Option.some.injEq] at hlive'
    subst hlive'
    refine Flight.own_of_settle hknows rfl ?_ (fun _ => rfl) ?_
    · intro site _
      exact subs_subset rfl rfl site
    · intro hnot
      exact ⟨hcontained.resolve_left hnot, rfl, rfl⟩

/-- A failure forgets the roles of the account when it is a 403. -/
theorem own_failed {a : App} {f : Flight} {current : Prop} {live : Live} (hl : a.live = some live)
    (hknows : current → live.journal.Knows f.request.journal f.request.attempt) (failure : Failure)
    (forbidden : Bool) (hcontained : f.Contained current live (.failed failure forbidden)) :
    ∀ live' ∈ (a.acted env f.request.journal f.request.plan.toRef (.failed failure forbidden)).live,
      f.Own current live live' := by
  obtain ⟨hheld, hforbidden⟩ := hcontained
  intro live' hlive'
  simp only [App.acted, hl, Option.mem_def, Option.some.injEq] at hlive'
  subst hlive'
  cases forbidden with
  | false =>
      refine Flight.own_of_settle hknows rfl ?_ (fun _ => rfl) ?_
      · intro site _
        exact subs_subset rfl rfl site
      · intro hnot
        exact ⟨hheld.resolve_left hnot, rfl, rfl⟩
  | true =>
      obtain ⟨hcurrent, hwent⟩ := hforbidden rfl
      refine Flight.own_of_settle hknows rfl ?_ ?_ fun h => absurd hcurrent h
      · intro site _
        exact subs_subset rfl rfl site
      · intro hne
        exact absurd hwent.symm hne

/-- An outcome that meets the condition keeps to what is its own. -/
theorem own_of_contained (s : System) (e : Event) (hs : s.Recorded) (hP : s.Contained e) :
    s.Own env e := by
  cases e with
  | acted i outcome =>
      intro f hf live hl t ht live' hlive'
      have hmem : f ∈ s.flying := List.mem_of_getElem? hf
      have hknows : f.generation = s.app.sessionGeneration →
          live.journal.Knows f.request.journal f.request.attempt :=
        fun hgen => hs.tracked.knows f hmem hgen live hl
      have hwent := hs.went f hmem
      obtain ⟨f', hf', rfl⟩ := Option.map_eq_some_iff.1 ht
      obtain rfl : f = f' := Option.some.inj (hf.symm.trans hf')
      have hcontained := hP f hf live hl
      replace hlive' :
          live' ∈ (s.app.acted env f.request.journal f.request.plan.toRef outcome).live := hlive'
      cases outcome with
      | started task => exact own_started hl hknows hwent task hcontained live' hlive'
      | done => exact own_done hl hknows hwent hcontained live' hlive'
      | returned value => exact own_returned hl hknows value hcontained live' hlive'
      | failed failure forbidden =>
          exact own_failed hl hknows failure forbidden hcontained live' hlive'
  | _ => trivial

/-- **Outcomes keep to what is their own**: in every run whose outcomes meet the condition, each
settles only the entry recorded for its request in the session that sent it, opens subscriptions only
on the Prism Central the request went to, forgets the roles of that one only, and leaves the journal,
the tasks and the roles of any other session as they are. -/
theorem along_own (env : Env) (g : Guardrails) {es : List Event}
    (hP : Run.Along (step env) (fun s e => s.Contained e) (init g) es) :
    Run.Along (step env) (Own env) (init g) es :=
  Run.Along.imp (fun s e t hs _ h => recorded_step s e t hs h) own_of_contained
    ⟨tracked_init g, fun _ h => nomatch h⟩ hP

/-- A request sent to each of two contexts, the one answered with a task and the other at once. -/
def answeredRun : List Event :=
  merging prodSession [vm "0" "db"] [vm "1" "web"] ++
    [.browse .toggleMark, .browse .toggleMark, .start powerOn, .acted 1 (.started "t1"), .acted 0 .done]

theorem along_own_answered : Run.Along (step vmEnv) (Own vmEnv) (init {}) answeredRun :=
  along_own vmEnv {} (by decide +kernel)

/-- The session is replaced while a request of its is on the way, and the session of the moment gives
its first entry the same number. -/
def overtakenRun : List Event :=
  [.background (.attach labSession), .browse (.openRoot actedVmKind)] ++ listed 1 1 [vm "0" "db"] ++
    [.start powerOn, .background (.attach prodSession), .browse (.openRoot actedVmKind)] ++
    listed 2 1 [vm "0" "db"] ++ [.start powerOn]

theorem not_along_own : ¬ ∀ (env : Env) (g : Guardrails) (es : List Event),
    Run.Along (step env) (Own env) (init g) es := by
  intro h
  have hrun : ∃ s ∈ Run.exec (step vmEnv) (init {}) overtakenRun, ∃ f ∈ s.flying[0]?,
      f.generation ≠ s.app.sessionGeneration ∧ ∃ live ∈ s.app.live,
      ∃ t ∈ s.step vmEnv (.acted 0 .done), ∃ live' ∈ t.app.live, live'.journal ≠ live.journal := by
    decide +kernel
  obtain ⟨s, hs, f, hf, hgen, live, hl, t, ht, live', hl', hjournal⟩ := hrun
  have hown := (Run.along_append.1 (h vmEnv {} (overtakenRun ++ [.acted 0 .done]))).2 s hs
  exact hjournal ((hown.1 f hf live hl t ht live' hl').past hgen).1

end System

end Nutsh
