/-
The idle pause of a session, whatever joins and leaves it.

Five minutes without a key the pause begins: a tick sets the flag of every scheduler, the session's own and
those of the joined contexts, when it finds the flag of the session's own set the other way.  A key, a
resize or an action that lands ends it the same way.  A context joined in the meantime brings a scheduler of
its own with it, whose flag is not set, and a subscription starts with a cycle whatever the flag says.

The header shows the pause by the flag of the session's own scheduler, unless the view in front is stopped
or has no schedule.  What is in front is taken from the outside, and so are the heights a frame drew.

Main definitions:

* `App`, `App.step` — the schedulers with their tasks, and what can happen to them, in any order;
* `App.Keeps` — while the pause is on no pausable subscription starts a cycle, and where it is not no
  scheduler is paused;
* `App.Meets` — the steps that keep it.

Main results:

* `App.inv_step` — the flags of the tasks are the flag of their scheduler, and a scheduler is paused only
  with the session's own;
* `App.still_step` — the steps that meet the condition keep the pausable tasks paused;
* `App.silent_along` — in a run of such steps the pause is kept.
-/
import Nutsh.Scheduler.Idle
import Nutsh.System

set_option relaxedAutoImplicit false
set_option autoImplicit false

namespace Nutsh.Pause

open Polls

/-! ### Schedulers -/

/-- A subscription and its task. -/
structure Running where
  id : ℕ
  sub : Polled
  task : Poller

structure Scheduler where
  idle : Bool := false
  tasks : List Running := []

namespace Scheduler

variable (instantOf : String → Option ℤ)

/-- An event for some of the tasks; it is none for those it does not fit. -/
def tell (which : Running → Bool) (e : PollerEvent) (s : Scheduler) : Scheduler :=
  { s with
    tasks := s.tasks.map fun t =>
      if which t then { t with task := (t.task.step instantOf t.sub e).getD t.task } else t }

/-- A subscription made: its task begins with a cycle. -/
def subscribe (id every : ℕ) (sub : Polled) (s : Scheduler) : Scheduler :=
  { s with tasks := s.tasks ++ [⟨id, sub, { Poller.start every with idle := s.idle }⟩] }

def unsubscribe (id : ℕ) (s : Scheduler) : Scheduler :=
  { s with tasks := s.tasks.filter fun t => t.id != id }

def setIdle (idle : Bool) (s : Scheduler) : Scheduler :=
  { s.tell instantOf (fun _ => true) (.setIdle idle) with idle }

def refresh (id : ℕ) : Scheduler → Scheduler := tell instantOf (fun t => t.id == id) .refresh

def refreshKind (kind : String) : Scheduler → Scheduler :=
  tell instantOf (fun t => t.sub.key.kind.id == kind) .refresh

def refreshAll : Scheduler → Scheduler := tell instantOf (fun _ => true) .refreshAll

def refreshEverything : Scheduler → Scheduler := tell instantOf (fun _ => true) .refresh

def setInterval (id : ℕ) (every : Option ℕ) : Scheduler → Scheduler :=
  tell instantOf (fun t => t.id == id) (.setInterval every)

def setIntervalKind (kind : String) (every : Option ℕ) : Scheduler → Scheduler :=
  tell instantOf (fun t => t.sub.key.kind.id == kind && t.sub.pausable) (.setInterval every)

def stop (id : ℕ) : Scheduler → Scheduler := tell instantOf (fun t => t.id == id) .stop

/-- Whether a task can take an event. -/
def enables (id : ℕ) (e : PollerEvent) (s : Scheduler) : Bool :=
  s.tasks.any fun t => t.id == id && (t.task.step instantOf t.sub e).isSome

end Scheduler

/-! ### Sessions -/

structure Live where
  scheduler : Scheduler := {}
  peers : List (String × Scheduler) := []
  /-- The key of the table in front if it is a top-level one, and the joined contexts it is listed from. -/
  front : Option (TableKey × List String) := none

namespace Live

/-- Every scheduler, the session's own first. -/
def schedulers (live : Live) : List Scheduler := live.scheduler :: live.peers.map Prod.snd

def mapSchedulers (f : Scheduler → Scheduler) (live : Live) : Live :=
  { live with scheduler := f live.scheduler, peers := live.peers.map fun p => (p.1, f p.2) }

/-- The first joined context of a name with its scheduler changed. -/
def mapPeer (name : String) (f : Scheduler → Scheduler) :
    List (String × Scheduler) → List (String × Scheduler)
  | [] => []
  | p :: ps => if p.1 = name then (p.1, f p.2) :: ps else p :: mapPeer name f ps

/-- The scheduler of a context changed. -/
def mapScheduler (context : Option String) (f : Scheduler → Scheduler) (live : Live) : Live :=
  match context with
  | none => { live with scheduler := f live.scheduler }
  | some name => { live with peers := mapPeer name f live.peers }

def schedulerFor (live : Live) : Option String → Option Scheduler
  | none => some live.scheduler
  | some name => (live.peers.find? fun p => p.1 == name).map Prod.snd

/-- A context dropped, and forgotten by the table in front. -/
def forgetPeer (name : String) (live : Live) : Live :=
  { live with
    peers := live.peers.filter fun p => p.1 != name
    front := live.front.map fun f => (f.1, f.2.filter (· != name)) }

/-- What a table lists from a context. -/
def listed (key : TableKey) (name : String) : Polled :=
  { key := key.inContext name, maxRows := key.kind.maxRows }

/-- A table listed from the joined contexts that it is not listed from yet. -/
def subscribeEach (key : TableKey) (names : List String) :
    ℕ → List (String × Scheduler) → List (String × Scheduler)
  | _, [] => []
  | next, p :: ps =>
      if names.contains p.1 then p :: subscribeEach key names next ps
      else
        (p.1, p.2.subscribe next key.kind.pollSecs (listed key p.1)) ::
          subscribeEach key names (next + 1) ps

/-- The table in front listed from every joined context. -/
def subscribePeers (next : ℕ) (live : Live) : Live :=
  match live.front with
  | none => live
  | some (key, names) =>
      { live with
        peers := subscribeEach key names next live.peers
        front := some (key, names ++ (live.peers.map Prod.fst).filter fun name => !names.contains name) }

end Live

/-! ### The application -/

structure App where
  live : Option Live := none
  lastInput : ℕ := 0
  /-- No id from here on was given to a subscription. -/
  nextSub : ℕ := 0

/-- What a key can do to the polls. -/
inductive Act where
  | subscribe (context : Option String) (every : ℕ) (sub : Polled)
  | unsubscribe (id : ℕ)
  | refresh (id : ℕ)
  | refreshKind (kind : String)
  | refreshEverything
  | setInterval (id : ℕ) (every : Option ℕ)
  | setIntervalKind (kind : String) (every : Option ℕ)
  | stop (id : ℕ)
  /-- Another view in front. -/
  | show (front : Option (TableKey × List String))
  | subscribePeers
  | forgetPeer (name : String)

/-- A pane drawn taller than it asks for: its subscription, its key, and the rows it was drawn with. -/
structure Taller where
  old : ℕ
  key : TableKey
  drawn : ℕ

inductive Event where
  /-- A key, the mouse or a resize, at an instant, and what it does. -/
  | input (now : ℕ) (acts : List Act)
  /-- The result of an action on a kind. -/
  | acted (now : ℕ) (kind : String) (acts : List Act)
  /-- A session takes the place of the one there was. -/
  | attach (now : ℕ) (acts : List Act)
  | joined (name : String)
  | tick (mono : ℕ) (taller : List Taller)
  /-- An entity is read once more, for a task has finished. -/
  | refreshRow (context : Option String) (key : TableKey) (extId : String)
  /-- A subscription ended by what was read. -/
  | unsubscribe (id : ℕ)
  /-- A task goes on. -/
  | task (context : Option String) (id : ℕ) (e : PollerEvent)

/-- Somebody is there. -/
def Event.isInput : Event → Bool
  | .input _ _ | .acted _ _ _ | .attach _ _ => true
  | _ => false

/-- The milliseconds without input before every pausable subscription stops. -/
def IDLE_AFTER : ℕ := 300000

def idleState (lastInput now : ℕ) : Bool := decide (IDLE_AFTER ≤ now - lastInput)

/-- The list of a pane drawn with some rows. -/
def pane (key : TableKey) (rows : ℕ) : Polled :=
  { key
    pageSize := min (Nutsh.Live.paneBudget rows) PAGE_LIMIT
    maxRows := some (Nutsh.Live.paneBudget rows) }

namespace App

variable (instantOf : String → Option ℤ)

def mapLive (f : Live → Live) (app : App) : App := { app with live := app.live.map f }

def schedulers (app : App) : List Scheduler := (app.live.map Live.schedulers).getD []

/-- What the header shows the pause by. -/
def paused (app : App) : Bool := app.live.any fun live => live.scheduler.idle

/-- Somebody is there: the pause ends, and every subscription runs a cycle. -/
def woke (now : ℕ) (app : App) : App :=
  let app := { app with lastInput := now }
  if app.paused then
    app.mapLive (Live.mapSchedulers fun s => (s.setIdle instantOf false).refreshAll instantOf)
  else app

/-- A subscription on the scheduler of a context. -/
def subscribe (context : Option String) (every : ℕ) (sub : Polled) (app : App) : App :=
  { app.mapLive (Live.mapScheduler context (Scheduler.subscribe app.nextSub every sub)) with
    nextSub := app.nextSub + 1 }

def unsubscribe (id : ℕ) : App → App := mapLive (Live.mapSchedulers (Scheduler.unsubscribe id))

def subscribePeers (app : App) : App :=
  { app.mapLive (Live.subscribePeers app.nextSub) with
    nextSub := app.nextSub + ((app.live.map fun live => live.peers.length).getD 0) }

/-- A pane subscribed anew. -/
def resizePane (app : App) (p : Taller) : App :=
  (app.unsubscribe p.old).subscribe none p.key.kind.pollSecs (pane p.key p.drawn)

def act (app : App) : Act → App
  | .subscribe context every sub => app.subscribe context every sub
  | .unsubscribe id => app.unsubscribe id
  | .refresh id => app.mapLive (Live.mapSchedulers (Scheduler.refresh instantOf id))
  | .refreshKind kind => app.mapLive (Live.mapSchedulers (Scheduler.refreshKind instantOf kind))
  | .refreshEverything => app.mapLive (Live.mapSchedulers (Scheduler.refreshEverything instantOf))
  | .setInterval id every => app.mapLive (Live.mapSchedulers (Scheduler.setInterval instantOf id every))
  | .setIntervalKind kind every =>
      app.mapLive (Live.mapSchedulers (Scheduler.setIntervalKind instantOf kind every))
  | .stop id => app.mapLive (Live.mapSchedulers (Scheduler.stop instantOf id))
  | .show front => app.mapLive fun live => { live with front }
  | .subscribePeers => app.subscribePeers
  | .forgetPeer name => app.mapLive (Live.forgetPeer name)

/-- A context joined: a scheduler of its own, and the table in front listed from it. -/
def joined (name : String) (app : App) : App :=
  (app.mapLive fun live =>
    let live := live.forgetPeer name
    { live with peers := live.peers ++ [(name, {})] }).subscribePeers

/-- The second: the pause begins or ends by the clock, and the panes are resized. -/
def tick (mono : ℕ) (taller : List Taller) (app : App) : App :=
  let idle := idleState app.lastInput mono
  let app :=
    if idle = app.paused then app
    else app.mapLive (Live.mapSchedulers (Scheduler.setIdle instantOf idle))
  taller.foldl resizePane app

/-- One event. -/
def step (app : App) : Event → Option App
  | .input now acts => some (acts.foldl (act instantOf) (app.woke instantOf now))
  | .acted now kind acts =>
      some ((.refreshKind kind :: acts).foldl (act instantOf) (app.woke instantOf now))
  | .attach now acts =>
      some (acts.foldl (act instantOf) ({ app with live := some {} }.woke instantOf now))
  | .joined name => some (app.joined name)
  | .tick mono taller => some (app.tick instantOf mono taller)
  | .refreshRow context key extId =>
      some (app.subscribe context 1
        { key, single := some extId, once := true, pausable := false })
  | .unsubscribe id => some (app.unsubscribe id)
  | .task context id e =>
      if Poller.own e &&
          (app.live.bind fun live => live.schedulerFor context).any (·.enables instantOf id e) then
        some (app.mapLive (Live.mapScheduler context (Scheduler.tell instantOf (fun t => t.id == id) e)))
      else none

/-! ### What the pause promises -/

/-- A pausable subscription starts a cycle. -/
def Starts (app : App) : Event → Prop
  | .task context id .begin =>
      ∃ s, (app.live.bind fun live => live.schedulerFor context) = some s ∧
        ∃ t ∈ s.tasks, t.id = id ∧ t.sub.pausable = true ∧ t.task.point.isHead = true
  | _ => False

/-- No pausable subscription starts a cycle while the pause is on; and once somebody is there it is not, and
where it is not no scheduler is paused. -/
structure Keeps (app : App) (e : Event) : Prop where
  silent : app.paused = true → ¬ app.Starts e
  back : ∀ app', app.step instantOf e = some app' → e.isInput = true → app'.paused = false
  awake : ∀ app', app.step instantOf e = some app' → app'.paused = false →
    ∀ s ∈ app'.schedulers, s.idle = false ∧ ∀ t ∈ s.tasks, t.task.idle = false

/-- A tick that finds five minutes gone finds no pane to subscribe anew; when the pause begins with it, no
pausable subscription is about to begin a cycle or asked for one; and no context is joined during the pause
that the table in front would be listed from. -/
def Meets (app : App) : Event → Prop
  | .tick mono taller =>
      idleState app.lastInput mono = true → taller = [] ∧
        (app.paused = false → ∀ s ∈ app.schedulers, ∀ t ∈ s.tasks, t.sub.pausable = true → t.task.Quiet)
  | .joined _ => app.paused = true → app.live.bind Live.front = none
  | _ => True

/-! ### Schedulers one by one -/

variable {instantOf} {app app' : App} {P Q : Scheduler → Prop} {f : Scheduler → Scheduler} {b : Bool}

/-- What holds of every scheduler. -/
def Every (P : Scheduler → Prop) (app : App) : Prop := ∀ s ∈ app.schedulers, P s

theorem every_iff : app.Every P ↔
    ∀ live, app.live = some live → P live.scheduler ∧ ∀ p ∈ live.peers, P p.2 := by
  cases hlive : app.live with
  | none => simp [Every, schedulers, hlive]
  | some live =>
      simp only [Every, schedulers, hlive, Option.map_some, Option.getD_some, Live.schedulers,
        List.forall_mem_cons, List.forall_mem_map, Option.some.injEq, forall_eq']

theorem Every.imp (h : app.Every P) (hPQ : ∀ s, P s → Q s) : app.Every Q := fun s hs => hPQ s (h s hs)

theorem every_mapLive {g : Live → Live} (hg : ∀ live, P live.scheduler → (∀ p ∈ live.peers, P p.2) →
      Q (g live).scheduler ∧ ∀ p ∈ (g live).peers, Q p.2)
    (h : app.Every P) : (app.mapLive g).Every Q := by
  rw [every_iff] at h ⊢
  intro live hlive
  obtain ⟨old, hold, rfl⟩ := Option.map_eq_some_iff.1 hlive
  exact hg old (h old hold).1 (h old hold).2

theorem every_mapSchedulers (hf : ∀ s, P s → Q (f s)) (h : app.Every P) :
    (app.mapLive (Live.mapSchedulers f)).Every Q := by
  refine every_mapLive (fun live hs hp => ⟨hf _ hs, ?_⟩) h
  intro p hmem
  obtain ⟨q, hq, rfl⟩ := List.mem_map.1 hmem
  exact hf _ (hp q hq)

theorem mem_mapPeer {name : String} {ps : List (String × Scheduler)} {p : String × Scheduler}
    (h : p ∈ Live.mapPeer name f ps) : p ∈ ps ∨ ∃ q ∈ ps, p = (q.1, f q.2) := by
  induction ps with
  | nil => cases h
  | cons q ps ih =>
      rw [Live.mapPeer] at h
      split at h
      · obtain rfl | h := List.mem_cons.1 h
        · exact .inr ⟨q, List.mem_cons_self, rfl⟩
        · exact .inl (List.mem_cons_of_mem _ h)
      · obtain rfl | h := List.mem_cons.1 h
        · exact .inl List.mem_cons_self
        · obtain h | ⟨r, hr, rfl⟩ := ih h
          · exact .inl (List.mem_cons_of_mem _ h)
          · exact .inr ⟨r, List.mem_cons_of_mem _ hr, rfl⟩

theorem every_mapScheduler (context : Option String) (hf : ∀ s, P s → P (f s)) (h : app.Every P) :
    (app.mapLive (Live.mapScheduler context f)).Every P := by
  refine every_mapLive (fun live hs hp => ?_) h
  cases context with
  | none => exact ⟨hf _ hs, hp⟩
  | some name =>
      refine ⟨hs, fun p hmem => ?_⟩
      obtain hmem | ⟨q, hq, rfl⟩ := mem_mapPeer hmem
      · exact hp p hmem
      · exact hf _ (hp q hq)

theorem every_forgetPeer (name : String) (h : app.Every P) : (app.mapLive (Live.forgetPeer name)).Every P :=
  every_mapLive (fun _ hs hp => ⟨hs, fun p hmem => hp p (List.mem_filter.1 hmem).1⟩) h

theorem every_subscribeEach {key : TableKey} {names : List String}
    (hf : ∀ (s : Scheduler) id every sub, P s → P (s.subscribe id every sub))
    {ps : List (String × Scheduler)} (next : ℕ) (h : ∀ p ∈ ps, P p.2) :
    ∀ p ∈ Live.subscribeEach key names next ps, P p.2 := by
  induction ps generalizing next with
  | nil => exact h
  | cons q ps ih =>
      obtain ⟨hq, hps⟩ := List.forall_mem_cons.1 h
      rw [Live.subscribeEach]
      split
      · exact List.forall_mem_cons.2 ⟨hq, ih next hps⟩
      · exact List.forall_mem_cons.2 ⟨hf _ _ _ _ hq, ih (next + 1) hps⟩

theorem every_subscribePeers (hf : ∀ (s : Scheduler) id every sub, P s → P (s.subscribe id every sub))
    (h : app.Every P) : app.subscribePeers.Every P := by
  refine every_mapLive (fun live hs hp => ?_) h
  rw [Live.subscribePeers]
  split
  · exact ⟨hs, hp⟩
  · exact ⟨hs, every_subscribeEach hf _ hp⟩

theorem every_joined (name : String) (hnew : P {})
    (hf : ∀ (s : Scheduler) id every sub, P s → P (s.subscribe id every sub)) (h : app.Every P) :
    (app.joined name).Every P := by
  refine every_subscribePeers hf (every_mapLive (fun live hs hp => ⟨hs, fun p hmem => ?_⟩) h)
  obtain hmem | hmem := List.mem_append.1 hmem
  · exact hp p (List.mem_filter.1 hmem).1
  · obtain rfl := List.mem_singleton.1 hmem
    exact hnew

/-! ### The flags -/

theorem mem_tell {which : Running → Bool} {e : PollerEvent} {s : Scheduler} {t : Running}
    (h : t ∈ (s.tell instantOf which e).tasks) :
    ∃ u ∈ s.tasks, t = u ∨ which u = true ∧ ∃ task, u.task.step instantOf u.sub e = some task ∧
      t = { u with task } := by
  obtain ⟨u, hu, rfl⟩ := List.mem_map.1 h
  refine ⟨u, hu, ?_⟩
  split
  · next hwhich =>
      cases hstep : u.task.step instantOf u.sub e with
      | none => exact .inl rfl
      | some task => exact .inr ⟨hwhich, task, rfl, rfl⟩
  · exact .inl rfl

/-- A scheduler whose tasks go by its flag, which is set only with a flag `b`. -/
structure Wired (b : Bool) (s : Scheduler) : Prop where
  flag : s.idle = true → b = true
  tasks : ∀ t ∈ s.tasks, t.task.idle = s.idle

theorem wired_new : Wired b {} := ⟨Bool.noConfusion, fun _ h => absurd h List.not_mem_nil⟩

theorem Wired.tell {which : Running → Bool} {e : PollerEvent} {s : Scheduler}
    (he : ∀ idle, e ≠ .setIdle idle) (h : Wired b s) : Wired b (s.tell instantOf which e) := by
  refine ⟨h.flag, fun t ht => ?_⟩
  obtain ⟨u, hu, rfl | ⟨-, task, hstep, rfl⟩⟩ := mem_tell ht
  · exact h.tasks t hu
  · refine Eq.trans ?_ (h.tasks u hu)
    cases hown : Poller.own e with
    | true => exact Poller.idle_step hown hstep
    | false => exact Poller.idle_called hown he hstep

theorem Wired.subscribe {s : Scheduler} (id every : ℕ) (sub : Polled) (h : Wired b s) :
    Wired b (s.subscribe id every sub) := by
  refine ⟨h.flag, fun t ht => ?_⟩
  obtain ht | ht := List.mem_append.1 ht
  · exact h.tasks t ht
  · obtain rfl := List.mem_singleton.1 ht
    rfl

theorem Wired.unsubscribe {s : Scheduler} (id : ℕ) (h : Wired b s) : Wired b (s.unsubscribe id) :=
  ⟨h.flag, fun t ht => h.tasks t (List.mem_filter.1 ht).1⟩

theorem wired_setIdle (idle : Bool) (s : Scheduler) : Wired idle (s.setIdle instantOf idle) := by
  refine ⟨fun h => h, fun t ht => ?_⟩
  obtain ⟨u, hu, rfl⟩ := List.mem_map.1 ht
  rfl

/-- A change that leaves the flag of a scheduler alone. -/
theorem paused_mapLive {g : Live → Live} (hg : ∀ live, (g live).scheduler.idle = live.scheduler.idle) :
    (app.mapLive g).paused = app.paused := by
  cases hlive : app.live with
  | none => simp [paused, mapLive, hlive]
  | some live => simp [paused, mapLive, hlive, hg]

theorem idle_mapScheduler (hf : ∀ s, (f s).idle = s.idle) (context : Option String) (live : Live) :
    (live.mapScheduler context f).scheduler.idle = live.scheduler.idle := by
  cases context with
  | none => exact hf _
  | some name => rfl

theorem idle_subscribePeers (next : ℕ) (live : Live) :
    (live.subscribePeers next).scheduler.idle = live.scheduler.idle := by
  rw [Live.subscribePeers]
  split
  · rfl
  · rfl

/-- The flags of the tasks are the flag of their scheduler, and no scheduler is paused without the
session's own. -/
def Inv (app : App) : Prop := app.Every (Wired app.paused)

/-- A change that leaves the flag of the session alone. -/
theorem inv_of_paused (hpaused : app'.paused = app.paused) (h : app'.Every (Wired app.paused)) :
    app'.Inv ∧ app'.paused = app.paused := by
  refine ⟨?_, hpaused⟩
  rw [Inv, hpaused]
  exact h

theorem Inv.mapSchedulers (h : app.Inv) (hidle : ∀ s, (f s).idle = s.idle)
    (hf : ∀ s, Wired app.paused s → Wired app.paused (f s)) :
    (app.mapLive (Live.mapSchedulers f)).Inv ∧
      (app.mapLive (Live.mapSchedulers f)).paused = app.paused :=
  inv_of_paused (paused_mapLive fun live => hidle live.scheduler) (every_mapSchedulers hf h)

theorem Inv.subscribe (h : app.Inv) (context : Option String) (every : ℕ) (sub : Polled) :
    (app.subscribe context every sub).Inv ∧ (app.subscribe context every sub).paused = app.paused := by
  have hpaused : (app.subscribe context every sub).paused = app.paused :=
    paused_mapLive fun live => idle_mapScheduler (f := Scheduler.subscribe _ _ _) (fun _ => rfl) context live
  exact inv_of_paused hpaused (every_mapScheduler context (fun s hs => hs.subscribe _ _ _) h)

theorem Inv.unsubscribe (h : app.Inv) (id : ℕ) :
    (app.unsubscribe id).Inv ∧ (app.unsubscribe id).paused = app.paused :=
  h.mapSchedulers (fun _ => rfl) fun _ hs => hs.unsubscribe id

theorem Inv.subscribePeers (h : app.Inv) :
    app.subscribePeers.Inv ∧ app.subscribePeers.paused = app.paused := by
  have hpaused : app.subscribePeers.paused = app.paused :=
    paused_mapLive fun live => idle_subscribePeers _ live
  exact inv_of_paused hpaused (every_subscribePeers (fun s id every sub hs => hs.subscribe id every sub) h)

theorem Inv.joined (h : app.Inv) (name : String) :
    (app.joined name).Inv ∧ (app.joined name).paused = app.paused := by
  have hpaused : (app.joined name).paused = app.paused :=
    (paused_mapLive fun live => idle_subscribePeers _ live).trans (paused_mapLive fun _ => rfl)
  exact inv_of_paused hpaused (every_joined name wired_new (fun s id every sub hs => hs.subscribe id every sub) h)

theorem Inv.act (h : app.Inv) (a : Act) :
    (app.act instantOf a).Inv ∧ (app.act instantOf a).paused = app.paused := by
  cases a with
  | subscribe context every sub => exact h.subscribe context every sub
  | unsubscribe id => exact h.unsubscribe id
  | subscribePeers => exact h.subscribePeers
  | «show» front =>
      have hpaused : (app.act instantOf (.show front)).paused = app.paused := paused_mapLive fun _ => rfl
      exact inv_of_paused hpaused (every_mapLive (fun _ hs hp => ⟨hs, hp⟩) h)
  | forgetPeer name =>
      have hpaused : (app.act instantOf (.forgetPeer name)).paused = app.paused :=
        paused_mapLive fun _ => rfl
      exact inv_of_paused hpaused (every_forgetPeer name h)
  | refresh id => exact h.mapSchedulers (fun _ => rfl) fun _ hs => hs.tell (fun _ => nofun)
  | refreshKind kind => exact h.mapSchedulers (fun _ => rfl) fun _ hs => hs.tell (fun _ => nofun)
  | refreshEverything => exact h.mapSchedulers (fun _ => rfl) fun _ hs => hs.tell (fun _ => nofun)
  | setInterval id every => exact h.mapSchedulers (fun _ => rfl) fun _ hs => hs.tell (fun _ => nofun)
  | setIntervalKind kind every => exact h.mapSchedulers (fun _ => rfl) fun _ hs => hs.tell (fun _ => nofun)
  | stop id => exact h.mapSchedulers (fun _ => rfl) fun _ hs => hs.tell (fun _ => nofun)

/-- What one change after another does to the flags. -/
theorem Inv.foldl {α : Type} {g : App → α → App}
    (hg : ∀ app x, Inv app → (g app x).Inv ∧ (g app x).paused = app.paused) (xs : List α) (h : app.Inv) :
    (xs.foldl g app).Inv ∧ (xs.foldl g app).paused = app.paused := by
  induction xs generalizing app with
  | nil => exact ⟨h, rfl⟩
  | cons x xs ih =>
      obtain ⟨hx, hpaused⟩ := hg app x h
      obtain ⟨hrest, hsame⟩ := ih hx
      exact ⟨hrest, hsame.trans hpaused⟩

/-- The flag set on every scheduler of a session. -/
theorem inv_setIdle (idle : Bool) (app : App) :
    (app.mapLive (Live.mapSchedulers (Scheduler.setIdle instantOf idle))).Inv := by
  cases hlive : app.live with
  | none => simp [Inv, Every, schedulers, mapLive, hlive]
  | some live =>
      have hpaused :
          (app.mapLive (Live.mapSchedulers (Scheduler.setIdle instantOf idle))).paused = idle := by
        simp [paused, mapLive, hlive, Live.mapSchedulers, Scheduler.setIdle]
      rw [Inv, hpaused]
      exact @every_mapSchedulers app (fun _ => True) _ _ (fun s _ => wired_setIdle idle s) fun _ _ => trivial

theorem paused_setIdle_false (app : App) :
    (app.mapLive (Live.mapSchedulers (Scheduler.setIdle instantOf false))).paused = false := by
  cases hlive : app.live with
  | none => simp [paused, mapLive, hlive]
  | some live => simp [paused, mapLive, hlive, Live.mapSchedulers, Scheduler.setIdle]

/-- Somebody is there: the pause is over. -/
theorem Inv.woke (h : app.Inv) (now : ℕ) :
    (app.woke instantOf now).Inv ∧ (app.woke instantOf now).paused = false := by
  rw [App.woke]
  split
  · -- the flags are cleared first, and then every subscription is woken
    let cleared :=
      { app with lastInput := now }.mapLive (Live.mapSchedulers (Scheduler.setIdle instantOf false))
    have heq : { app with lastInput := now }.mapLive
          (Live.mapSchedulers fun s => (s.setIdle instantOf false).refreshAll instantOf) =
        cleared.mapLive (Live.mapSchedulers (Scheduler.refreshAll instantOf)) := by
      simp only [cleared, mapLive, Option.map_map]
      exact congrArg (App.mk · now app.nextSub) (congrArg (Option.map · app.live) (funext fun live => by
        simp [Live.mapSchedulers]))
    have hcleared : cleared.Inv := inv_setIdle false _
    obtain ⟨hinv, hsame⟩ := hcleared.mapSchedulers (f := Scheduler.refreshAll instantOf) (fun _ => rfl)
      fun _ hs => hs.tell fun _ => nofun
    rw [heq]
    exact ⟨hinv, hsame.trans (paused_setIdle_false _)⟩
  · next hpaused => exact ⟨h, Bool.not_eq_true _ ▸ hpaused⟩

/-- A tick begins the pause or ends it by the clock. -/
theorem Inv.tick (h : app.Inv) (mono : ℕ) (taller : List Taller) :
    (app.tick instantOf mono taller).Inv ∧
      (idleState app.lastInput mono = false → (app.tick instantOf mono taller).paused = false) := by
  have hresize : ∀ (app : App) (p : Taller), Inv app →
      (app.resizePane p).Inv ∧ (app.resizePane p).paused = app.paused := by
    intro app p h
    obtain ⟨hended, hsame⟩ := h.unsubscribe p.old
    obtain ⟨hmade, hsame'⟩ := hended.subscribe none p.key.kind.pollSecs (pane p.key p.drawn)
    exact ⟨hmade, hsame'.trans hsame⟩
  rw [App.tick]
  split
  · next hidle =>
      obtain ⟨hinv, hsame⟩ := h.foldl hresize taller
      exact ⟨hinv, fun hfalse => hsame.trans (hidle.symm.trans hfalse)⟩
  · obtain ⟨hinv, hsame⟩ := (@inv_setIdle instantOf _ app).foldl hresize taller
    refine ⟨hinv, fun hfalse => hsame.trans ?_⟩
    rw [hfalse]
    exact paused_setIdle_false app

theorem inv_task {context : Option String} {id : ℕ} {e : PollerEvent} (h : app.Inv)
    (hown : Poller.own e = true) :
    (app.mapLive (Live.mapScheduler context (Scheduler.tell instantOf (fun t => t.id == id) e))).Inv := by
  have hpaused := @paused_mapLive app
    (Live.mapScheduler context (Scheduler.tell instantOf (fun t => t.id == id) e))
    fun live => idle_mapScheduler (f := Scheduler.tell _ _ _) (fun _ => rfl) context live
  rw [Inv, hpaused]
  refine every_mapScheduler context (fun s hs => hs.tell fun idle heq => ?_) h
  rw [heq] at hown
  cases hown

/-- The session as it is after an input, whatever the input does. -/
theorem inv_input {now : ℕ} {acts : List Act} (h : app.Inv) :
    (acts.foldl (act instantOf) (app.woke instantOf now)).Inv ∧
      (acts.foldl (act instantOf) (app.woke instantOf now)).paused = false := by
  obtain ⟨hwoke, hpaused⟩ := @Inv.woke instantOf app h now
  obtain ⟨hacts, hsame⟩ := hwoke.foldl (g := act instantOf) (fun _ a h => h.act a) acts
  exact ⟨hacts, hsame.trans hpaused⟩

theorem inv_attached (app : App) : Inv { app with live := some {} } := by
  rw [Inv, every_iff]
  rintro live ⟨⟩
  exact ⟨wired_new, fun p h => absurd h List.not_mem_nil⟩

/-- The flags of the tasks stay the flag of their scheduler, and the pause stays the session's. -/
theorem inv_step {e : Event} (h : app.Inv) (hstep : app.step instantOf e = some app') : app'.Inv := by
  cases e with
  | input now acts =>
      obtain rfl := Option.some.inj hstep
      exact (inv_input h).1
  | acted now kind acts =>
      obtain rfl := Option.some.inj hstep
      exact (inv_input h).1
  | attach now acts =>
      obtain rfl := Option.some.inj hstep
      exact (inv_input (inv_attached app)).1
  | joined name =>
      obtain rfl := Option.some.inj hstep
      exact (h.joined name).1
  | tick mono taller =>
      obtain rfl := Option.some.inj hstep
      exact (h.tick mono taller).1
  | refreshRow context key extId =>
      obtain rfl := Option.some.inj hstep
      exact (h.subscribe context 1 _).1
  | unsubscribe id =>
      obtain rfl := Option.some.inj hstep
      exact (h.unsubscribe id).1
  | task context id e =>
      rw [step] at hstep
      split at hstep
      · next hown =>
          obtain rfl := Option.some.inj hstep
          exact inv_task h (Bool.and_eq_true_iff.1 hown).1
      · cases hstep

/-- After an input the pause is over. -/
theorem paused_of_isInput {e : Event} (h : app.Inv) (he : e.isInput = true)
    (hstep : app.step instantOf e = some app') : app'.paused = false := by
  cases e with
  | input now acts =>
      obtain rfl := Option.some.inj hstep
      exact (inv_input h).2
  | acted now kind acts =>
      obtain rfl := Option.some.inj hstep
      exact (inv_input h).2
  | attach now acts =>
      obtain rfl := Option.some.inj hstep
      exact (inv_input (inv_attached app)).2
  | joined _ | tick _ _ | refreshRow _ _ _ | unsubscribe _ | task _ _ _ => cases he

theorem Inv.awake (h : app.Inv) (hpaused : app.paused = false) :
    ∀ s ∈ app.schedulers, s.idle = false ∧ ∀ t ∈ s.tasks, t.task.idle = false := by
  intro s hs
  have hwired := h s hs
  have hidle : s.idle = false := by
    rw [← Bool.not_eq_true]
    intro htrue
    have hflag := hwired.flag htrue
    rw [hpaused] at hflag
    cases hflag
  exact ⟨hidle, fun t ht => (hwired.tasks t ht).trans hidle⟩

/-! ### The pause kept -/

/-- The pausable tasks of a scheduler are paused. -/
def Calm (s : Scheduler) : Prop := ∀ t ∈ s.tasks, t.sub.pausable = true → t.task.Paused

/-- While the pause is on, the pausable tasks are paused. -/
def Still (app : App) : Prop := app.paused = true → app.Every Calm

theorem calm_unsubscribe {s : Scheduler} (id : ℕ) (h : Calm s) : Calm (s.unsubscribe id) :=
  fun t ht => h t (List.mem_filter.1 ht).1

theorem calm_subscribe {s : Scheduler} {id every : ℕ} {sub : Polled} (hsub : sub.pausable = false)
    (h : Calm s) : Calm (s.subscribe id every sub) := by
  intro t ht hpausable
  obtain ht | ht := List.mem_append.1 ht
  · exact h t ht hpausable
  · obtain rfl := List.mem_singleton.1 ht
    rw [hsub] at hpausable
    cases hpausable

theorem calm_tell {which : Running → Bool} {e : PollerEvent} {s : Scheduler} (hown : Poller.own e = true)
    (h : Calm s) : Calm (s.tell instantOf which e) := by
  intro t ht hpausable
  obtain ⟨u, hu, rfl | ⟨-, task, hstep, rfl⟩⟩ := mem_tell ht
  · exact h t hu hpausable
  · exact Poller.paused_step hpausable (h u hu hpausable) hown hstep

/-- The pause begins for tasks that neither begin a cycle nor are asked for one. -/
theorem calm_setIdle {s : Scheduler} (h : ∀ t ∈ s.tasks, t.sub.pausable = true → t.task.Quiet) :
    Calm (s.setIdle instantOf true) := by
  intro t ht hpausable
  obtain ⟨u, hu, rfl⟩ := List.mem_map.1 ht
  exact ⟨rfl, h u hu hpausable⟩

theorem subscribePeers_of_front (h : app.live.bind Live.front = none) :
    app.subscribePeers.schedulers = app.schedulers := by
  cases hlive : app.live with
  | none => simp [subscribePeers, schedulers, mapLive, hlive]
  | some live =>
      have hfront : live.front = none := by simpa [hlive] using h
      simp [subscribePeers, schedulers, mapLive, hlive, Live.subscribePeers, hfront]

/-- A context joined with no table in front: its scheduler has no task yet. -/
theorem still_joined {name : String} (hfront : app.live.bind Live.front = none) (h : app.Every Calm) :
    (app.joined name).Every Calm := by
  have hadded : (app.mapLive fun live =>
      { live.forgetPeer name with peers := (live.forgetPeer name).peers ++ [(name, {})] }).Every Calm := by
    refine every_mapLive (fun live hs hp => ⟨hs, fun p hmem => ?_⟩) h
    obtain hmem | hmem := List.mem_append.1 hmem
    · exact hp p (List.mem_filter.1 hmem).1
    · obtain rfl := List.mem_singleton.1 hmem
      exact fun t ht => absurd ht List.not_mem_nil
  rw [Every, joined, subscribePeers_of_front]
  · exact hadded
  · cases hlive : app.live with
    | none => simp [mapLive, hlive]
    | some live =>
        have hnone : live.front = none := by simpa [hlive] using hfront
        simp [mapLive, hlive, Live.forgetPeer, hnone]

theorem still_step {e : Event} (h : app.Inv) (hstill : app.Still) (hmeets : app.Meets e)
    (hstep : app.step instantOf e = some app') : app'.Still := by
  intro hpaused'
  cases e with
  | input now acts =>
      rw [paused_of_isInput h rfl hstep] at hpaused'
      cases hpaused'
  | acted now kind acts =>
      rw [paused_of_isInput h rfl hstep] at hpaused'
      cases hpaused'
  | attach now acts =>
      rw [paused_of_isInput h rfl hstep] at hpaused'
      cases hpaused'
  | joined name =>
      obtain rfl := Option.some.inj hstep
      rw [(h.joined name).2] at hpaused'
      exact still_joined (hmeets hpaused') (hstill hpaused')
  | tick mono taller =>
      obtain rfl := Option.some.inj hstep
      have hidle : idleState app.lastInput mono = true := by
        rw [← Bool.not_eq_false]
        intro hfalse
        rw [(h.tick mono taller).2 hfalse] at hpaused'
        cases hpaused'
      obtain ⟨rfl, hquiet⟩ := hmeets hidle
      rw [App.tick, hidle, List.foldl_nil]
      split
      · next hpaused => exact hstill hpaused.symm
      · next hpaused =>
          have hfalse : app.paused = false := by
            rw [← Bool.not_eq_true]
            exact fun htrue => hpaused htrue.symm
          exact every_mapSchedulers (fun _ => calm_setIdle) (hquiet hfalse)
  | refreshRow context key extId =>
      obtain rfl := Option.some.inj hstep
      rw [(h.subscribe context 1 _).2] at hpaused'
      exact every_mapScheduler context (fun _ => calm_subscribe rfl) (hstill hpaused')
  | unsubscribe id =>
      obtain rfl := Option.some.inj hstep
      rw [(h.unsubscribe id).2] at hpaused'
      exact every_mapSchedulers (fun _ => calm_unsubscribe id) (hstill hpaused')
  | task context id e =>
      rw [step] at hstep
      split at hstep
      · next hown =>
          obtain rfl := Option.some.inj hstep
          have hsame := @paused_mapLive app
            (Live.mapScheduler context (Scheduler.tell instantOf (fun t => t.id == id) e))
            fun live => idle_mapScheduler (f := Scheduler.tell _ _ _) (fun _ => rfl) context live
          rw [hsame] at hpaused'
          exact every_mapScheduler context (fun _ => calm_tell (Bool.and_eq_true_iff.1 hown).1)
            (hstill hpaused')
      · cases hstep

theorem mem_schedulers {context : Option String} {s : Scheduler}
    (h : (app.live.bind fun live => live.schedulerFor context) = some s) : s ∈ app.schedulers := by
  obtain ⟨live, hlive, hs⟩ := Option.bind_eq_some_iff.1 h
  rw [schedulers, hlive, Option.map_some, Option.getD_some, Live.schedulers]
  cases context with
  | none =>
      obtain rfl := Option.some.inj hs
      exact List.mem_cons_self
  | some name =>
      obtain ⟨p, hp, rfl⟩ := Option.map_eq_some_iff.1 hs
      exact List.mem_cons_of_mem _ (List.mem_map_of_mem (List.mem_of_find?_eq_some hp))

/-- A subscription that is paused starts no cycle. -/
theorem not_starts {e : Event} (h : app.Every Calm) : ¬ app.Starts e := by
  intro hstarts
  cases e with
  | task context id e =>
      cases e with
      | begin =>
          obtain ⟨s, hs, t, ht, -, hpausable, hhead⟩ := hstarts
          rw [(h s (mem_schedulers hs) t ht hpausable).quiet.1] at hhead
          cases hhead
      | _ => exact hstarts
  | _ => exact hstarts

/-- **The idle pause**: in a run in which no pane is subscribed anew during the pause, no cycle is about to
begin or asked for when it begins, and no context is joined to the table in front while it is on, no pausable
subscription starts a cycle during the pause; and in every run it is over once somebody is there. -/
theorem silent_along (instantOf : String → Option ℤ) {es : List Event}
    (hmeets : Run.Along (step instantOf) Meets {} es) :
    Run.Along (step instantOf) (Keeps instantOf) {} es := by
  have hstep : ∀ app e app', Inv app ∧ Still app → Meets app e → step instantOf app e = some app' →
      Inv app' ∧ Still app' :=
    fun app e app' h hmeets hstep => ⟨inv_step h.1 hstep, still_step h.1 h.2 hmeets hstep⟩
  have hkeeps : ∀ app e, Inv app ∧ Still app → Meets app e → Keeps instantOf app e := fun app e h _ =>
    { silent := fun hpaused => not_starts (h.2 hpaused)
      back := fun app' hstep he => paused_of_isInput h.1 he hstep
      awake := fun app' hstep hpaused => (inv_step h.1 hstep).awake hpaused }
  have hinit : Inv {} ∧ Still {} := ⟨fun s hs => absurd hs List.not_mem_nil, Bool.noConfusion⟩
  exact hmeets.imp hstep hkeeps hinit

/-- A list that is polled on the session. -/
def vms : TableKey := .top { id := "vmm.ahv.config.Vm" }

/-- A session with a table in front, whose first cycle has ended. -/
def opened : List Event :=
  [.attach 0 [.show (some (vms, [])), .subscribe none 30 { key := vms }], .task none 0 .begin,
    .task none 0 (.page [] (some 0)), .task none 0 .rest]

instance decidableMeets (app : App) : (e : Event) → Decidable (app.Meets e)
  | .tick _ _ => inferInstanceAs (Decidable (_ → _ ∧ (_ → _)))
  | .joined _ => inferInstanceAs (Decidable (_ → _))
  | .input _ _ | .acted _ _ _ | .attach _ _ | .refreshRow _ _ _ | .unsubscribe _ | .task _ _ _ =>
      isTrue trivial

/-- A context is joined before the pause, and polled again after it. -/
theorem silent_along_joined :
    Run.Along (step fun _ => none) (Keeps fun _ => none) {}
      (opened ++ [.joined "b", .task (some "b") 1 .begin, .task (some "b") 1 (.page [] (some 0)),
        .task (some "b") 1 .rest, .tick 300000 [], .task none 0 .elapsed, .input 300001 [],
        .task none 0 .rest, .task none 0 .woken, .task none 0 .begin]) :=
  silent_along _ (by decide +kernel)

/-- A context joined during the pause is polled at once. -/
theorem not_silent_along : ¬ ∀ (instantOf : String → Option ℤ) (es : List Event),
    Run.Along (step instantOf) (Keeps instantOf) {} es := by
  intro hall
  have hrun := hall (fun _ => none) (opened ++ [.tick 300000 [], .joined "b", .task (some "b") 1 .begin])
  -- the session opened, the pause on, the context joined
  have hopened := ((((hrun.2 _ rfl).2 _ rfl).2 _ rfl).2 _ rfl)
  have hjoined := ((hopened.2 _ rfl).2 _ rfl).1
  exact hjoined.silent rfl ⟨_, rfl, _, List.mem_singleton_self _, rfl, rfl, rfl⟩

end App

end Nutsh.Pause
