/-
The polls of the application as a roster.

A poll is a running task at the site it polls, the session's own or a joined context.  Its number is
held by a view of the stack, by a list of a view on a joined context, by a pane of a page, by the open
detail or by the watch of a task, and what polls once is lent.  A table view stands on the context of
its key.  Here the moves of the roster behind each thing the session does.

* `Owner`, `Live.Holds`, `Live.Stands` — who holds the number of a subscription;
* `Live.roster`, `App.roster`, `rules` — the polls as a roster;
* `Started` — what is started: polls under the key of their context, lists at the catalog's rhythm;
* `reaches_pushView`, `reaches_pop`, `reaches_resize`, ... — what each change of the session does to it.
-/
import Nutsh.Lib.Roster
import Nutsh.Screen

set_option relaxedAutoImplicit false
set_option autoImplicit false

namespace Nutsh

/-- Who holds the number of a subscription; a view is told by its height in the stack. -/
inductive Owner where
  | view (height : ℕ)
  | peer (height : ℕ) (context : String)
  | pane (height i : ℕ)
  | detail
  | watch (task : String)
  deriving DecidableEq

def Owner.height : Owner → Option ℕ
  | view h => some h
  | peer h _ => some h
  | pane h _ => some h
  | detail => none
  | watch _ => none

/-- The subscription of the watch of a task. -/
def TaskIndex.subOf (index : TaskIndex) (task : String) : Option ℕ :=
  (index.watched.get? task).map TaskWatch.sub

namespace View

/-- The numbers a view at a height holds. -/
def Holds (h : ℕ) : View → Owner → ℕ → Prop
  | .table t, .view h', id => h' = h ∧ t.sub = id
  | .table t, .peer h' name, id => h' = h ∧ (name, id) ∈ t.peerSubs
  | .page p, .pane h' i, id => h' = h ∧ p.panes[i]?.bind Pane.sub = some id
  | _, _, _ => False

/-- The context a table view stands on, and the number it holds there. -/
def Stands (h : ℕ) : View → Owner → Option String → ℕ → Prop
  | .table t, o, c, id => o = .view h ∧ t.key.context = c ∧ t.sub = id
  | .page _, _, _, _ => False

/-- The subscriptions of a view. -/
def subs : View → List ℕ
  | .table t => t.sub :: t.peerSubs.map Prod.snd
  | .page p => p.panes.filterMap Pane.sub

/-- What a view polls, without how it is drawn. -/
def bare : View → View
  | .table t => .table { key := t.key, sub := t.sub, peerSubs := t.peerSubs }
  | .page p => .page { panes := p.panes.map fun pane => { key := pane.key, sub := pane.sub } }

theorem height_of_holds {h id : ℕ} {v : View} {o : Owner} (ho : v.Holds h o id) :
    o.height = some h := by
  cases v <;> cases o <;> simp_all [Holds, Owner.height]

theorem mem_subs (h id : ℕ) (v : View) : id ∈ v.subs ↔ ∃ o, v.Holds h o id := by
  cases v with
  | table t =>
      constructor
      · intro hid
        rcases List.mem_cons.1 hid with rfl | hid
        · exact ⟨.view h, rfl, rfl⟩
        · obtain ⟨s, hs, rfl⟩ := List.mem_map.1 hid
          exact ⟨.peer h s.1, rfl, hs⟩
      · rintro ⟨o, ho⟩
        cases o with
        | view h' => exact List.mem_cons.2 (Or.inl ho.2.symm)
        | peer h' name => exact List.mem_cons.2 (Or.inr (List.mem_map.2 ⟨_, ho.2, rfl⟩))
        | _ => exact ho.elim
  | page p =>
      constructor
      · intro hid
        obtain ⟨pane, hpane, hsub⟩ := List.mem_filterMap.1 hid
        obtain ⟨i, hi⟩ := List.mem_iff_getElem?.1 hpane
        exact ⟨.pane h i, rfl, by rw [hi]; exact hsub⟩
      · rintro ⟨o, ho⟩
        cases o with
        | pane h' i =>
            obtain ⟨pane, hpane, hsub⟩ := Option.bind_eq_some_iff.1 ho.2
            exact List.mem_filterMap.2 ⟨pane, List.mem_of_getElem? hpane, hsub⟩
        | _ => exact ho.elim

@[simp] theorem holds_bare (h : ℕ) (v : View) (o : Owner) (id : ℕ) :
    v.bare.Holds h o id ↔ v.Holds h o id := by
  cases v with
  | table t => cases o <;> rfl
  | page p =>
      cases o with
      | pane h' i =>
          simp only [bare, Holds, List.getElem?_map]
          cases p.panes[i]? <;> rfl
      | _ => rfl

@[simp] theorem stands_bare (h : ℕ) (v : View) (o : Owner) (c : Option String) (id : ℕ) :
    v.bare.Stands h o c id ↔ v.Stands h o c id := by
  cases v <;> rfl

end View

/-- Some view of a stack, by its height. -/
def onStack (P : ℕ → View → Prop) : List View → Prop
  | [] => False
  | v :: rest => P rest.length v ∨ onStack P rest

theorem onStack_congr {P : ℕ → View → Prop} (hP : ∀ h v, P h v.bare ↔ P h v)
    {stack stack' : List View} (h : stack'.map View.bare = stack.map View.bare) :
    onStack P stack' ↔ onStack P stack := by
  induction stack' generalizing stack with
  | nil =>
      cases stack with
      | nil => exact Iff.rfl
      | cons v rest => cases h
  | cons v' rest' ih =>
      cases stack with
      | nil => cases h
      | cons v rest =>
          have hv : v'.bare = v.bare := (List.cons.inj h).1
          have hrest : rest'.map View.bare = rest.map View.bare := (List.cons.inj h).2
          have hlen : rest'.length = rest.length := by
            simpa using congrArg List.length hrest
          rw [onStack, onStack, ih hrest, hlen, ← hP, hv, hP]

/-- A stack on another one stands that much higher. -/
theorem onStack_append {P : ℕ → View → Prop} {views rest : List View} :
    onStack P (views ++ rest) ↔ onStack (fun i => P (i + rest.length)) views ∨ onStack P rest := by
  induction views with
  | nil => simp [onStack]
  | cons v views ih =>
      rw [List.cons_append, onStack, onStack, ih, List.length_append, or_assoc]

theorem exists_of_onStack {P : ℕ → View → Prop} {stack : List View} (h : onStack P stack) :
    ∃ i, i < stack.length ∧ ∃ v ∈ stack, P i v := by
  induction stack with
  | nil => exact h.elim
  | cons v rest ih =>
      rcases h with h | h
      · exact ⟨rest.length, Nat.lt_succ_self _, v, List.mem_cons_self .., h⟩
      · obtain ⟨i, hi, w, hw, hP⟩ := ih h
        exact ⟨i, Nat.lt_succ_of_lt hi, w, List.mem_cons_of_mem _ hw, hP⟩

theorem onStack_map {P : ℕ → View → Prop} {f : View → View} {stack : List View} :
    onStack P (stack.map f) ↔ onStack (fun i v => P i (f v)) stack := by
  induction stack with
  | nil => exact Iff.rfl
  | cons v rest ih => rw [List.map_cons, onStack, onStack, ih, List.length_map]

theorem onStack_and {P : ℕ → View → Prop} {q : Prop} {stack : List View} :
    onStack (fun i v => P i v ∧ q) stack ↔ onStack P stack ∧ q := by
  induction stack with
  | nil => simp [onStack]
  | cons v rest ih => rw [onStack, onStack, ih, or_and_right]

namespace Live

variable {live live' : Live} {own own' : Option ℕ} {next : ℕ}

/-- The numbers that are held, `own` being that of the open detail. -/
def Holds (live : Live) (own : Option ℕ) : Owner → ℕ → Prop
  | .detail, id => own = some id
  | .watch task, id => live.tasks.subOf task = some id
  | o, id => onStack (fun h v => v.Holds h o id) live.stack

def Stands (live : Live) (o : Owner) (c : Option String) (id : ℕ) : Prop :=
  onStack (fun h v => v.Stands h o c id) live.stack

/-- The polls of a session as a roster. -/
def roster (live : Live) (own : Option ℕ) (next : ℕ) : Roster (Option String) Subscription Owner where
  running := {t | t ∈ live.polls}
  held := {h | live.Holds own h.1 h.2}
  needed := {n | live.Stands n.1 n.2.1 n.2.2}
  joined := {c | (live.schedulerFor c).isSome = true}
  next := next

theorem holds_of_height {o : Owner} {h : ℕ} (ho : o.height = some h) (id : ℕ) :
    live.Holds own o id ↔ onStack (fun h v => v.Holds h o id) live.stack := by
  cases o <;> first | rfl | cases ho

end Live

/-- Once is lent; the lists of a context hold its polls, the open detail those of one entity; and table
views stand on their context. -/
def rules : Roster.Rules (Option String) Subscription Owner where
  lent k := k.once = true
  fits o c k :=
    match o with
    | .peer _ name => c = some name
    | .detail => k.single.isSome = true
    | _ => True
  stands o := ∃ h, o = .view h

/-- What is started: a poll under the key of its context, where that holds of all of them, and a list,
of one of some kinds, at the rhythm of the catalog. -/
def Started (sited : Prop) (kinds : List Kind) (c : Option String) (k : Subscription) : Prop :=
  (sited → k.key.context = c) ∧
    (k.single = none → k.once = false →
      k.pausable = true ∧ k.interval = k.key.kind.rhythm ∧ k.key.kind ∈ kinds)

/-- The rosters the orderly moves lead to that start polls under the key of their context, and lists of
some kinds only. -/
abbrev Reach (kinds : List Kind) := Roster.Reaches rules (Started True kinds)

theorem Reach.unsited {kinds : List Kind} {l l' : Roster (Option String) Subscription Owner}
    (hr : Reach kinds l l') (sited : Prop) : Roster.Reaches rules (Started sited kinds) l l' :=
  hr.imp fun _ _ hs => ⟨fun _ => hs.1 trivial, hs.2⟩

/-- The polls of the application as a roster; without a session nothing runs. -/
def App.roster (app : App) : Roster (Option String) Subscription Owner :=
  match app.live with
  | some live => live.roster (app.detail.bind Detail.sub) app.nextSub
  | none =>
      { running := ∅
        held := {h | h.1 = .detail ∧ app.detail.bind Detail.sub = some h.2}
        needed := ∅
        joined := ∅
        next := app.nextSub }

/-! ### The polls, as they change -/

namespace Live

variable {live live' : Live}

theorem mem_polls {t : Option String × ℕ × Subscription} :
    t ∈ live.polls ↔
      (t.1 = none ∧ t.2 ∈ live.scheduler.tasks) ∨
        ∃ p ∈ live.peers, t.1 = some p.name ∧ t.2 ∈ p.scheduler.tasks := by
  obtain ⟨c, id, k⟩ := t
  simp only [polls, List.mem_append, List.mem_map, List.mem_flatMap, Prod.mk.injEq]
  constructor
  · rintro (⟨t, ht, rfl, rfl⟩ | ⟨p, hp, t, ht, rfl, rfl⟩)
    · exact Or.inl ⟨rfl, ht⟩
    · exact Or.inr ⟨p, hp, rfl, ht⟩
  · rintro (⟨rfl, ht⟩ | ⟨p, hp, rfl, ht⟩)
    · exact Or.inl ⟨_, ht, rfl, rfl⟩
    · exact Or.inr ⟨p, hp, _, ht, rfl, rfl⟩

theorem isSome_schedulerFor {c : Option String} :
    (live.schedulerFor c).isSome = true ↔ c = none ∨ ∃ name ∈ live.peers.map Peer.name, c = some name := by
  cases c with
  | none => simp [schedulerFor]
  | some name =>
      simp only [schedulerFor, peer, Option.isSome_map, List.find?_isSome, beq_iff_eq, reduceCtorEq,
        false_or, List.mem_map]
      constructor
      · rintro ⟨p, hp, rfl⟩
        exact ⟨_, ⟨p, hp, rfl⟩, rfl⟩
      · rintro ⟨_, ⟨p, hp, rfl⟩, hname⟩
        exact ⟨p, hp, (Option.some.inj hname).symm⟩

theorem isSome_schedulerFor_congr (h : live'.peers.map Peer.name = live.peers.map Peer.name)
    (c : Option String) : (live'.schedulerFor c).isSome = (live.schedulerFor c).isSome := by
  rw [Bool.eq_iff_iff, isSome_schedulerFor, isSome_schedulerFor, h]

/-- A change of every scheduler that says of each task whether it stays. -/
theorem mem_polls_of_filter {keeps : ℕ × Subscription → Bool} {f : Scheduler → Scheduler}
    (hf : ∀ s, (f s).tasks = s.tasks.filter keeps) {t : Option String × ℕ × Subscription} :
    t ∈ (live.mapSchedulers f).polls ↔ t ∈ live.polls ∧ keeps t.2 = true := by
  simp only [mem_polls, mapSchedulers, List.mem_map, hf, List.mem_filter]
  constructor
  · rintro (⟨hc, ht, hk⟩ | ⟨_, ⟨p, hp, rfl⟩, hc, ht⟩)
    · exact ⟨Or.inl ⟨hc, ht⟩, hk⟩
    · rw [hf, List.mem_filter] at ht
      exact ⟨Or.inr ⟨p, hp, hc, ht.1⟩, ht.2⟩
  · rintro ⟨⟨hc, ht⟩ | ⟨p, hp, hc, ht⟩, hk⟩
    · exact Or.inl ⟨hc, ht, hk⟩
    · exact Or.inr ⟨_, ⟨p, hp, rfl⟩, hc, by rw [hf, List.mem_filter]; exact ⟨ht, hk⟩⟩

/-- A change of every scheduler that changes its tasks. -/
theorem mem_polls_of_map {g : ℕ → Subscription → Subscription} {f : Scheduler → Scheduler}
    (hf : ∀ s, (f s).tasks = s.tasks.map fun t => (t.1, g t.1 t.2)) {c : Option String} {id : ℕ}
    {k : Subscription} :
    (c, id, k) ∈ (live.mapSchedulers f).polls ↔ ∃ k', (c, id, k') ∈ live.polls ∧ k = g id k' := by
  simp only [mem_polls, mapSchedulers, List.mem_map, hf, Prod.mk.injEq]
  constructor
  · rintro (⟨hc, ⟨i, k'⟩, ht, rfl, rfl⟩ | ⟨_, ⟨p, hp, rfl⟩, hc, ht⟩)
    · exact ⟨k', Or.inl ⟨hc, ht⟩, rfl⟩
    · rw [hf, List.mem_map] at ht
      obtain ⟨⟨i, k'⟩, ht, heq⟩ := ht
      cases heq
      exact ⟨k', Or.inr ⟨p, hp, hc, ht⟩, rfl⟩
  · rintro ⟨k', ⟨hc, ht⟩ | ⟨p, hp, hc, ht⟩, rfl⟩
    · exact Or.inl ⟨hc, (id, k'), ht, rfl, rfl⟩
    · exact Or.inr ⟨_, ⟨p, hp, rfl⟩, hc, by rw [hf]; exact List.mem_map.2 ⟨(id, k'), ht, rfl⟩⟩

theorem unsubscribeAny_eq (live : Live) (sub : ℕ) :
    live.unsubscribeAny sub = live.mapSchedulers fun s => s.unsubscribe sub := rfl

@[simp] theorem mem_polls_unsubscribeAny {sub : ℕ} {t : Option String × ℕ × Subscription} :
    t ∈ (live.unsubscribeAny sub).polls ↔ t ∈ live.polls ∧ t.2.1 ≠ sub := by
  rw [unsubscribeAny_eq, mem_polls_of_filter fun s => rfl]
  simp

/-- Some subscriptions ended, and no other. -/
structure Ended (ids : List ℕ) (live live' : Live) : Prop where
  polls : ∀ t, t ∈ live'.polls ↔ t ∈ live.polls ∧ t.2.1 ∉ ids
  tasks : live'.tasks.subOf = live.tasks.subOf
  names : live'.peers.map Peer.name = live.peers.map Peer.name

theorem ended_unsubscribeAny (ids : List ℕ) (live : Live) :
    Ended ids live (ids.foldl unsubscribeAny live) := by
  induction ids generalizing live with
  | nil => exact ⟨fun t => by simp, rfl, rfl⟩
  | cons id ids ih =>
      have h := ih (live.unsubscribeAny id)
      refine ⟨fun t => ?_, h.tasks, ?_⟩
      · rw [List.foldl_cons, h.polls, mem_polls_unsubscribeAny, List.mem_cons, not_or, and_assoc]
      · rw [List.foldl_cons, h.names]
        simp [unsubscribeAny, Function.comp_def, Peer.name]

theorem ended_drainView (live : Live) (v : View) : Ended v.subs live (live.drainView v) := by
  cases v with
  | table t =>
      have h := ended_unsubscribeAny (t.sub :: t.peerSubs.map Prod.snd) live
      exact ⟨h.polls, h.tasks, h.names⟩
  | page p =>
      have h := ended_unsubscribeAny (p.panes.filterMap Pane.sub) live
      exact ⟨h.polls, h.tasks, h.names⟩

theorem ended_drainViews (views : List View) (live : Live) :
    Ended (views.flatMap View.subs) live (views.foldl drainView live) := by
  induction views generalizing live with
  | nil => exact ⟨fun t => by simp, rfl, rfl⟩
  | cons v views ih =>
      have h := ended_drainView live v
      have h' := ih (live.drainView v)
      refine ⟨fun t => ?_, h'.tasks.trans h.tasks, h'.names.trans h.names⟩
      rw [List.foldl_cons, h'.polls, h.polls, List.flatMap_cons, List.mem_append, not_or, and_assoc]

/-- The first joined context of a name with one task more. -/
theorem mem_mapPeer {name : String} {sub : ℕ} {k : Subscription} {peers : List Peer}
    (h : name ∈ peers.map Peer.name) {t : Option String × ℕ × Subscription} :
    (∃ p ∈ mapPeer name (fun s => s.subscribe sub k) peers,
        t.1 = some p.name ∧ t.2 ∈ p.scheduler.tasks) ↔
      (∃ p ∈ peers, t.1 = some p.name ∧ t.2 ∈ p.scheduler.tasks) ∨ t = (some name, sub, k) := by
  induction peers with
  | nil => cases h
  | cons p ps ih =>
      rw [mapPeer]
      split
      case isTrue hp =>
        subst hp
        simp only [List.mem_cons, exists_eq_or_imp, Scheduler.subscribe, List.mem_append,
          List.mem_nil_iff, or_false]
        obtain ⟨c, task⟩ := t
        simp only [Peer.name, Prod.mk.injEq]
        grind
      case isFalse hp =>
        have hname : name ∈ ps.map Peer.name := by
          rcases List.mem_cons.1 h with h | h
          · exact absurd h.symm hp
          · exact h
        simp only [List.mem_cons, exists_eq_or_imp, ih hname, or_assoc]

theorem mem_polls_subscribe {c : Option String} (hc : (live.schedulerFor c).isSome = true) {sub : ℕ}
    {k : Subscription} {t : Option String × ℕ × Subscription} :
    t ∈ (live.mapScheduler c fun s => s.subscribe sub k).polls ↔
      t ∈ live.polls ∨ t = (c, sub, k) := by
  cases c with
  | none =>
      simp only [mem_polls, mapScheduler, Scheduler.subscribe, List.mem_append, List.mem_singleton]
      obtain ⟨c, task⟩ := t
      simp only [Prod.mk.injEq, and_or_left]
      exact or_right_comm
  | some name =>
      have hname : name ∈ live.peers.map Peer.name := by
        rcases isSome_schedulerFor.1 hc with h | ⟨n, hn, h⟩
        · cases h
        · cases h
          exact hn
      rw [mem_polls, mem_polls]
      simp only [mapScheduler]
      rw [mem_mapPeer hname, or_assoc]

@[simp] theorem names_mapPeer (name : String) (f : Scheduler → Scheduler) (peers : List Peer) :
    (mapPeer name f peers).map Peer.name = peers.map Peer.name := by
  induction peers with
  | nil => rfl
  | cons p ps ih =>
      rw [mapPeer]
      split
      · rfl
      · rw [List.map_cons, List.map_cons, ih]

@[simp] theorem names_mapScheduler (c : Option String) (f : Scheduler → Scheduler) :
    (live.mapScheduler c f).peers.map Peer.name = live.peers.map Peer.name := by
  cases c with
  | none => rfl
  | some name => exact names_mapPeer name f live.peers

@[simp] theorem stack_mapScheduler (c : Option String) (f : Scheduler → Scheduler) :
    (live.mapScheduler c f).stack = live.stack := by
  cases c <;> rfl

@[simp] theorem store_mapScheduler (c : Option String) (f : Scheduler → Scheduler) :
    (live.mapScheduler c f).store = live.store := by
  cases c <;> rfl

@[simp] theorem tasks_mapScheduler (c : Option String) (f : Scheduler → Scheduler) :
    (live.mapScheduler c f).tasks = live.tasks := by
  cases c <;> rfl

/-- A scheduler that was read is that of its context. -/
theorem mapScheduler_const {c : Option String} {s : Scheduler} (h : live.schedulerFor c = some s)
    (f : Scheduler → Scheduler) : (live.mapScheduler c fun _ => f s) = live.mapScheduler c f := by
  cases c with
  | none =>
      cases h
      rfl
  | some name =>
      have hps : ∀ ps : List Peer, (ps.find? fun p => p.name == name).map Peer.scheduler = some s →
          mapPeer name (fun _ => f s) ps = mapPeer name f ps := by
        intro ps hps
        induction ps with
        | nil => rfl
        | cons p ps ih =>
            rw [mapPeer, mapPeer]
            by_cases hp : p.name = name
            · rw [List.find?_cons_of_pos (by simpa using hp)] at hps
              cases hps
              rw [if_pos hp, if_pos hp]
            · rw [List.find?_cons_of_neg (by simpa using hp)] at hps
              rw [if_neg hp, if_neg hp, ih hps]
      rw [mapScheduler, mapScheduler, hps live.peers h]

end Live

end Nutsh
