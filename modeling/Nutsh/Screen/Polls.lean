/-
What each change of a session does to its polls.

A change that starts and ends no subscription leaves the roster as it is; every other is a chain of
moves of it: a view that goes releases what its height holds, a pane that is drawn again releases and
acquires, a table that is pushed acquires for itself and then for each joined context.

* `Live.Same` — what the roster is read from;
* `Live.reaches_drainStack`, `Live.reaches_releaseTop`, `Live.reaches_forgetPeer` — what ends;
* `Live.reaches_subscribePeers`, `Live.reaches_subscribePanes`, `Live.reaches_resize` — what starts.
-/
import Nutsh.Screen.Accounts

set_option relaxedAutoImplicit false
set_option autoImplicit false

namespace Nutsh

namespace Live

variable {live live' : Live} {own own' : Option ℕ} {next : ℕ} {kinds : List Kind}

theorem holds_congr (hstack : live'.stack.map View.bare = live.stack.map View.bare)
    (htasks : live'.tasks.subOf = live.tasks.subOf) (o : Owner) (id : ℕ) :
    live'.Holds own o id ↔ live.Holds own o id := by
  cases o with
  | detail => exact Iff.rfl
  | watch task => rw [Holds, Holds, htasks]
  | view h => exact onStack_congr (fun h v => v.holds_bare h _ id) hstack
  | peer h name => exact onStack_congr (fun h v => v.holds_bare h _ id) hstack
  | pane h i => exact onStack_congr (fun h v => v.holds_bare h _ id) hstack

theorem stands_congr (hstack : live'.stack.map View.bare = live.stack.map View.bare) (o : Owner)
    (c : Option String) (id : ℕ) : live'.Stands o c id ↔ live.Stands o c id :=
  onStack_congr (fun h v => v.stands_bare h o c id) hstack

/-- What the roster is read from. -/
structure Same (live live' : Live) : Prop where
  polls : ∀ t, t ∈ live'.polls ↔ t ∈ live.polls
  stack : live'.stack.map View.bare = live.stack.map View.bare
  tasks : live'.tasks.subOf = live.tasks.subOf
  names : live'.peers.map Peer.name = live.peers.map Peer.name

theorem Same.roster (h : Same live live') : live'.roster own next = live.roster own next := by
  ext1
  · exact Set.ext h.polls
  · exact Set.ext fun x => holds_congr h.stack h.tasks x.1 x.2
  · exact Set.ext fun n => stands_congr h.stack n.1 n.2.1 n.2.2
  · exact Set.ext fun c => by
      show (live'.schedulerFor c).isSome = true ↔ (live.schedulerFor c).isSome = true
      rw [isSome_schedulerFor_congr h.names]
  · rfl

/-! ### What ends -/

/-- Some owners let go, and what they held is ended. -/
theorem reaches_release (owners : Set Owner)
    (hpolls : ∀ t, t ∈ live'.polls ↔ t ∈ live.polls ∧ ∀ o ∈ owners, ¬ live.Holds own o t.2.1)
    (hholds : ∀ o id, live'.Holds own' o id ↔ live.Holds own o id ∧ o ∉ owners)
    (hstands : ∀ o c id, live'.Stands o c id ↔ live.Stands o c id ∧ o ∉ owners)
    (hnames : live'.peers.map Peer.name = live.peers.map Peer.name) :
    Reach kinds (live.roster own next) (live'.roster own' next) := by
  have hmove : live'.roster own' next = (live.roster own next).move rules (.release owners) := by
    ext1
    · exact Set.ext hpolls
    · exact Set.ext fun x => hholds x.1 x.2
    · exact Set.ext fun n => hstands n.1 n.2.1 n.2.2
    · exact Set.ext fun c => by
        show (live'.schedulerFor c).isSome = true ↔ (live.schedulerFor c).isSome = true
        rw [isSome_schedulerFor_congr hnames]
    · rfl
  rw [hmove]
  exact .single trivial

/-- What is held off the stack. -/
theorem holds_of_height_eq_none {o : Owner} (ho : o.height = none) (htasks : live'.tasks.subOf = live.tasks.subOf)
    (id : ℕ) : live'.Holds own o id ↔ live.Holds own o id := by
  cases o with
  | detail => exact Iff.rfl
  | watch task => rw [Holds, Holds, htasks]
  | _ => cases ho

theorem height_of_onStack {o : Owner} {id n : ℕ} {stack : List View}
    (h : onStack (fun i v => v.Holds (i + n) o id) stack) :
    ∃ i, n ≤ i ∧ i < stack.length + n ∧ o.height = some i := by
  obtain ⟨i, hi, v, -, hv⟩ := exists_of_onStack h
  exact ⟨i + n, by omega, by omega, View.height_of_holds hv⟩

theorem height_of_stands {o : Owner} {c : Option String} {id n : ℕ} {stack : List View}
    (h : onStack (fun i v => v.Stands (i + n) o c id) stack) :
    ∃ i, n ≤ i ∧ i < stack.length + n ∧ o.height = some i := by
  obtain ⟨i, hi, v, -, hv⟩ := exists_of_onStack h
  cases v with
  | table t => exact ⟨i + n, by omega, by omega, by rw [hv.1]; rfl⟩
  | page p => exact hv.elim

theorem exists_holds_of_mem_subs {stack : List View} {v : View} (n : ℕ) (hv : v ∈ stack) {id : ℕ}
    (hid : id ∈ v.subs) : ∃ o, onStack (fun i v => v.Holds (i + n) o id) stack := by
  induction stack with
  | nil => cases hv
  | cons w rest ih =>
      rcases List.mem_cons.1 hv with rfl | hv
      · obtain ⟨o, ho⟩ := (View.mem_subs (rest.length + n) id v).1 hid
        exact ⟨o, Or.inl ho⟩
      · obtain ⟨o, ho⟩ := ih hv
        exact ⟨o, Or.inr ho⟩

/-- The views over a stack go. -/
theorem reaches_drain {views rest : List View} (hstack : live.stack = views ++ rest)
    (hended : Ended (views.flatMap View.subs) live live') :
    Reach kinds (live.roster own next) ({ live' with stack := rest }.roster own next) := by
  -- what stays stands lower than what goes
  have hlow : ∀ {o id i}, onStack (fun h v => v.Holds h o id) rest → o.height = some i →
      i < rest.length := by
    intro o id i h ho
    obtain ⟨j, -, hj, hoj⟩ := height_of_onStack (n := 0) h
    rw [ho, Option.some.injEq] at hoj
    omega
  refine reaches_release {o | ∃ i, rest.length ≤ i ∧ o.height = some i} ?_ ?_ ?_ hended.names
  · intro t
    refine (hended.polls t).trans (and_congr_right fun _ => ?_)
    constructor
    · rintro hids o ⟨i, hi, ho⟩ hheld
      rw [holds_of_height ho, hstack, onStack_append] at hheld
      rcases hheld with hheld | hheld
      · obtain ⟨j, -, v, hv, hP⟩ := exists_of_onStack hheld
        exact hids (List.mem_flatMap.2 ⟨v, hv, (View.mem_subs _ _ v).2 ⟨o, hP⟩⟩)
      · have := hlow hheld ho
        omega
    · intro hfree hid
      obtain ⟨v, hv, hsub⟩ := List.mem_flatMap.1 hid
      obtain ⟨o, ho⟩ := exists_holds_of_mem_subs rest.length hv hsub
      obtain ⟨i, hi, -, hoi⟩ := height_of_onStack ho
      refine hfree o ⟨i, hi, hoi⟩ ?_
      rw [holds_of_height hoi, hstack, onStack_append]
      exact Or.inl ho
  · intro o id
    cases ho : o.height with
    | none =>
        refine (@holds_of_height_eq_none _ { live' with stack := rest } _ _ ho hended.tasks
          id).trans (iff_self_and.2 fun _ => ?_)
        rintro ⟨i, -, hi⟩
        rw [ho] at hi
        cases hi
    | some i =>
        rw [holds_of_height ho, holds_of_height ho, hstack, onStack_append]
        constructor
        · intro h
          refine ⟨Or.inr h, ?_⟩
          rintro ⟨j, hj, hoj⟩
          have := hlow h hoj
          omega
        · rintro ⟨h | h, hstays⟩
          · obtain ⟨j, hj, -, hoj⟩ := height_of_onStack h
            exact absurd ⟨j, hj, hoj⟩ hstays
          · exact h
  · intro o c id
    show onStack _ rest ↔ onStack _ live.stack ∧ _
    rw [hstack, onStack_append]
    constructor
    · intro h
      refine ⟨Or.inr h, ?_⟩
      rintro ⟨j, hj, hoj⟩
      obtain ⟨i, -, hi, hoi⟩ := height_of_stands (n := 0) h
      rw [hoj, Option.some.injEq] at hoi
      omega
    · rintro ⟨h | h, hstays⟩
      · obtain ⟨j, hj, -, hoj⟩ := height_of_stands h
        exact absurd ⟨j, hj, hoj⟩ hstays
      · exact h

theorem reaches_drainStack (live : Live) :
    Reach kinds (live.roster own next) (live.drainStack.roster own next) :=
  reaches_drain (List.append_nil _).symm (ended_drainViews live.stack live)

/-- A view at the top of the stack lets go of some of what it holds. -/
theorem reaches_releaseView {v v' : View} {rest : List View} (hstack : live.stack = v :: rest)
    {ids : List ℕ} (hended : Ended ids live live') (owners : Set Owner)
    (hheight : ∀ o ∈ owners, o.height = some rest.length)
    (hids : ∀ id, id ∈ ids ↔ ∃ o ∈ owners, v.Holds rest.length o id)
    (hholds : ∀ o id, v'.Holds rest.length o id ↔ v.Holds rest.length o id ∧ o ∉ owners)
    (hstands : ∀ o c id, v'.Stands rest.length o c id ↔ v.Stands rest.length o c id ∧ o ∉ owners) :
    Reach kinds (live.roster own next) ({ live' with stack := v' :: rest }.roster own next) := by
  -- the views below hold nothing under these owners
  have hlow : ∀ {i : ℕ} {o : Owner}, i < rest.length → o.height = some i → o ∉ owners := by
    intro i o hi ho hmem
    have := hheight o hmem
    rw [ho, Option.some.injEq] at this
    omega
  refine reaches_release owners ?_ ?_ ?_ hended.names
  · intro t
    refine (hended.polls t).trans (and_congr_right fun _ => ?_)
    rw [hids, not_exists]
    refine forall_congr' fun o => not_and.trans (forall_congr' fun ho => not_congr ?_)
    rw [holds_of_height (hheight o ho), hstack, onStack]
    refine (or_iff_left fun h => ?_).symm
    obtain ⟨i, -, hi, hoi⟩ := height_of_onStack (n := 0) h
    exact hlow hi hoi ho
  · intro o id
    cases ho : o.height with
    | none =>
        refine (@holds_of_height_eq_none _ { live' with stack := v' :: rest } _ _ ho hended.tasks
          id).trans (iff_self_and.2 fun _ hmem => ?_)
        rw [hheight o hmem] at ho
        cases ho
    | some i =>
        rw [holds_of_height ho, holds_of_height ho, hstack, onStack, onStack, hholds, or_and_right]
        refine or_congr_right (iff_self_and.2 fun h => ?_)
        obtain ⟨j, -, hj, hoj⟩ := height_of_onStack (n := 0) h
        exact hlow hj hoj
  · intro o c id
    show onStack _ (v' :: rest) ↔ onStack _ live.stack ∧ _
    rw [hstack, onStack, onStack, hstands, or_and_right]
    refine or_congr_right (iff_self_and.2 fun h => ?_)
    obtain ⟨j, -, hj, hoj⟩ := height_of_stands (n := 0) h
    exact hlow hj hoj

/-- Some panes of the open page stop polling. -/
theorem reaches_releasePanes {p p' : PageView} {rest : List View}
    (hstack : live.stack = .page p :: rest) {ids : List ℕ} (hended : Ended ids live live')
    (gone : ℕ → Prop)
    (hids : ∀ id, id ∈ ids ↔ ∃ i, gone i ∧ p.panes[i]?.bind Pane.sub = some id)
    (hpanes : ∀ i id, p'.panes[i]?.bind Pane.sub = some id ↔
      p.panes[i]?.bind Pane.sub = some id ∧ ¬ gone i) :
    Reach kinds (live.roster own next) ({ live' with stack := .page p' :: rest }.roster own next) := by
  refine reaches_releaseView hstack hended {o | ∃ i, gone i ∧ o = .pane rest.length i} ?_ ?_ ?_ ?_
  · rintro _ ⟨i, -, rfl⟩
    rfl
  · intro id
    rw [hids]
    constructor
    · rintro ⟨i, hi, hsub⟩
      exact ⟨_, ⟨i, hi, rfl⟩, rfl, hsub⟩
    · rintro ⟨_, ⟨i, hi, rfl⟩, -, hsub⟩
      exact ⟨i, hi, hsub⟩
  · intro o id
    cases o with
    | pane h i =>
        show h = _ ∧ _ ↔ (h = _ ∧ _) ∧ _
        rw [hpanes, and_assoc]
        refine and_congr_right ?_
        rintro rfl
        refine and_congr_right fun _ => not_congr ⟨fun hi => ⟨i, hi, rfl⟩, ?_⟩
        rintro ⟨_, hi, heq⟩
        cases heq
        exact hi
    | _ => exact ⟨False.elim, fun h => h.1.elim⟩
  · exact fun o c id => ⟨False.elim, fun h => h.1.elim⟩

/-! ### What starts -/

/-- A subscription started for an owner. -/
theorem reaches_acquire {c : Option String} {k : Subscription} (o : Owner) (stands : Bool)
    (hpolls : ∀ t, t ∈ live'.polls ↔ t ∈ live.polls ∨ t = (c, next, k))
    (hholds : ∀ o' id, live'.Holds own' o' id ↔ live.Holds own o' id ∨ (o', id) = (o, next))
    (hstands : ∀ o' c' id, live'.Stands o' c' id ↔
      live.Stands o' c' id ∨ stands = true ∧ (o', c', id) = (o, c, next))
    (hnames : live'.peers.map Peer.name = live.peers.map Peer.name)
    (horderly : (Roster.Move.acquire o stands c k).Orderly rules (Started True kinds)) :
    Reach kinds (live.roster own next) (live'.roster own' (next + 1)) := by
  have hmove : live'.roster own' (next + 1) =
      (live.roster own next).move rules (.acquire o stands c k) := by
    ext1
    · exact Set.ext hpolls
    · exact Set.ext fun x => hholds x.1 x.2
    · exact Set.ext fun n => hstands n.1 n.2.1 n.2.2
    · exact Set.ext fun c' => by
        show (live'.schedulerFor c').isSome = true ↔ (live.schedulerFor c').isSome = true
        rw [isSome_schedulerFor_congr hnames]
    · rfl
  rw [hmove]
  exact .single horderly

/-- A subscription started for a view at the top of the stack that keeps the context it stands on. -/
theorem reaches_acquireView {v v' : View} {rest : List View} (hstack : live.stack = v :: rest)
    {c : Option String} {k : Subscription} {o : Owner} (hheight : o.height = some rest.length)
    (hpolls : ∀ t, t ∈ live'.polls ↔ t ∈ live.polls ∨ t = (c, next, k))
    (hholds : ∀ o' id, v'.Holds rest.length o' id ↔
      v.Holds rest.length o' id ∨ (o', id) = (o, next))
    (hstands : ∀ o' c' id, v'.Stands rest.length o' c' id ↔ v.Stands rest.length o' c' id)
    (htasks : live'.tasks.subOf = live.tasks.subOf)
    (hnames : live'.peers.map Peer.name = live.peers.map Peer.name)
    (horderly : (Roster.Move.acquire o false c k).Orderly rules (Started True kinds)) :
    Reach kinds (live.roster own next)
      ({ live' with stack := v' :: rest }.roster own (next + 1)) := by
  refine reaches_acquire o false hpolls ?_ ?_ hnames horderly
  · intro o' id
    cases ho : o'.height with
    | none =>
        refine (@holds_of_height_eq_none _ { live' with stack := v' :: rest } _ _ ho htasks
          id).trans (or_iff_left ?_).symm
        rintro ⟨⟩
        rw [hheight] at ho
        cases ho
    | some i =>
        rw [holds_of_height ho, holds_of_height ho, hstack, onStack, onStack, hholds]
        exact or_right_comm
  · intro o' c' id
    show onStack _ (v' :: rest) ↔ onStack _ live.stack ∨ _
    rw [hstack, onStack, onStack, hstands]
    simp

/-- A table pushed on the stack, with its subscription. -/
theorem reaches_pushTable {t : TableView}
    (hpolls : ∀ x, x ∈ live'.polls ↔ x ∈ live.polls ∨ x = (t.key.context, next, { key := t.key }))
    (htasks : live'.tasks.subOf = live.tasks.subOf)
    (hnames : live'.peers.map Peer.name = live.peers.map Peer.name)
    (hsub : t.sub = next) (hpeers : t.peerSubs = []) (hkind : t.key.kind ∈ kinds) :
    Reach kinds (live.roster own next)
      ({ live' with stack := .table t :: live.stack }.roster own (next + 1)) := by
  refine reaches_acquire (.view live.stack.length) true hpolls ?_ ?_ hnames
    ⟨nofun, trivial, fun _ => ⟨_, rfl⟩, fun _ => rfl, fun _ _ => ⟨rfl, rfl, hkind⟩⟩
  · intro o id
    have hview : (View.table t).Holds live.stack.length o id ↔
        (o, id) = (.view live.stack.length, next) := by
      cases o with
      | view h => simp [View.Holds, hsub, eq_comm]
      | peer h name => simp [View.Holds, hpeers]
      | _ => simp [View.Holds]
    cases ho : o.height with
    | none =>
        refine (@holds_of_height_eq_none _ { live' with stack := .table t :: live.stack } _ _ ho htasks id).trans
          (or_iff_left ?_).symm
        rintro ⟨⟩
        cases ho
    | some i =>
        rw [holds_of_height ho, holds_of_height ho, onStack, hview]
        exact or_comm
  · intro o c id
    show onStack _ (View.table t :: live.stack) ↔ _
    rw [onStack]
    simp only [View.Stands, hsub, Prod.mk.injEq, true_and]
    rw [or_comm, eq_comm (a := t.key.context), eq_comm (a := next)]
    rfl

theorem mem_polls_subscribe_peer {done ps : List Peer} {p : Peer} {sub : ℕ} {k : Subscription}
    {t : Option String × ℕ × Subscription} :
    t ∈ { live with
        peers := done ++ { p with scheduler := p.scheduler.subscribe sub k } :: ps }.polls ↔
      t ∈ { live with peers := done ++ p :: ps }.polls ∨ t = (some p.name, sub, k) := by
  obtain ⟨c, task⟩ := t
  simp only [mem_polls, List.mem_append, List.mem_cons, or_and_right, and_or_left, exists_or,
    exists_eq_left, Scheduler.subscribe, List.not_mem_nil, or_false, Prod.mk.injEq, Peer.name]
  generalize (∃ x, x ∈ done ∧ c = some x.session.name ∧ task ∈ x.scheduler.tasks) = inDone
  generalize (∃ x, x ∈ ps ∧ c = some x.session.name ∧ task ∈ x.scheduler.tasks) = inPs
  tauto

/-- The rows of a table listed from the joined contexts that it does not list yet. -/
theorem reaches_subscribeEach {view : TableView} {rest : List View} (hkind : view.key.kind ∈ kinds)
    (ps : List Peer) : ∀ (live : Live) (done : List Peer) (listed : List (String × ℕ)) (next : ℕ),
      Reach kinds
        ({ live with
          peers := done ++ ps, stack := .table { view with peerSubs := listed } :: rest }.roster own
            next)
        ({ live with
          peers := done ++ (subscribeEach view.key listed next ps).1,
          stack := .table { view with peerSubs := (subscribeEach view.key listed next ps).2.1 } ::
            rest }.roster own (subscribeEach view.key listed next ps).2.2) := by
  induction ps with
  | nil => exact fun live done listed next => .refl
  | cons p ps ih =>
      intro live done listed next
      rw [subscribeEach]
      split
      · have h := ih live (done ++ [p]) listed next
        simpa only [List.append_assoc, List.singleton_append] using h
      · have h := ih live (done ++ [{ p with
            scheduler := p.scheduler.subscribe next { key := view.key.inContext p.name } }])
            (listed ++ [(p.name, next)]) (next + 1)
        simp only [List.append_assoc, List.singleton_append] at h
        refine .trans ?_ h
        let joined : Live := { live with
          peers := done ++ { p with
            scheduler := p.scheduler.subscribe next { key := view.key.inContext p.name } } :: ps }
        refine @reaches_acquireView _ joined _ _ _ _ _ _ rfl (some p.name)
          { key := view.key.inContext p.name } (.peer rest.length p.name) rfl ?_ ?_
          (fun _ _ _ => Iff.rfl) rfl ?_ ⟨nofun, rfl, nofun, fun _ => rfl, fun _ _ => ⟨rfl, rfl, hkind⟩⟩
        · exact fun t => mem_polls_subscribe_peer
        · intro o id
          cases o with
          | peer h name =>
              simp only [View.Holds, List.mem_append, List.mem_singleton, Prod.mk.injEq,
                Owner.peer.injEq]
              tauto
          | _ => simp [View.Holds]
        · simp [joined, Peer.name]

theorem reaches_subscribePeers {live : Live}
    (hkind : ∀ view, live.stack.head? = some (.table view) → view.key.isTop = true →
      view.key.kind ∈ kinds) :
    Reach kinds (live.roster own next)
      ((live.subscribePeers next).1.roster own (live.subscribePeers next).2) := by
  unfold subscribePeers
  split
  case h_1 view rest hstack =>
    split
    case isTrue htop =>
      have h := @reaches_subscribeEach own _ _ rest
        (hkind view (by rw [hstack]; rfl) htop) live.peers live [] view.peerSubs next
      have heq : { live with
          peers := [] ++ live.peers,
          stack := .table { view with peerSubs := view.peerSubs } :: rest } = live := by
        rw [List.nil_append, ← hstack]
      rw [heq] at h
      exact h
    case isFalse => exact .refl
  case h_2 => exact .refl

/-- Two lists of panes that differ in one. -/
theorem sub_of_ne {done panes : List Pane} (pane pane' : Pane) {i : ℕ} (h : i ≠ done.length) :
    (done ++ pane' :: panes)[i]?.bind Pane.sub = (done ++ pane :: panes)[i]?.bind Pane.sub := by
  rcases Nat.lt_or_gt_of_ne h with h | h
  · rw [List.getElem?_append_left h, List.getElem?_append_left h]
  · rw [List.getElem?_append_right h.le, List.getElem?_append_right h.le]
    obtain ⟨j, hj⟩ : ∃ j, i - done.length = j + 1 := ⟨i - done.length - 1, by omega⟩
    rw [hj]
    rfl

/-- A pane that does not poll subscribed. -/
theorem reaches_subscribeAt (live : Live) {done panes : List Pane} {pane pane' : Pane} {focus : ℕ}
    {rest : List View} (hsub : pane.sub = none) (hsub' : pane'.sub = some next)
    (hcontext : pane.key.context = none) (hkind : pane.key.kind ∈ kinds) :
    Reach kinds
      ({ live with stack := .page { panes := done ++ pane :: panes, focus } :: rest }.roster own next)
      ({ live.mapScheduler none fun s => s.subscribe next { key := pane.key } with
        stack := .page { panes := done ++ pane' :: panes, focus } :: rest }.roster own
          (next + 1)) := by
  refine @reaches_acquireView _ (live.mapScheduler none fun s => s.subscribe next { key := pane.key })
    _ _ _ _ _ _ rfl none { key := pane.key } (.pane rest.length done.length) rfl
    (fun t => mem_polls_subscribe rfl) ?_ (fun _ _ _ => Iff.rfl) rfl rfl
    ⟨nofun, trivial, nofun, fun _ => hcontext, fun _ _ => ⟨rfl, rfl, hkind⟩⟩
  intro o id
  cases o with
  | pane h i =>
      by_cases hi : i = done.length
      · subst hi
        simp [View.Holds, hsub, hsub', eq_comm]
      · simp [View.Holds, sub_of_ne pane pane' hi, hi]
  | _ => simp [View.Holds]

/-- A pane that polls unsubscribed. -/
theorem reaches_unsubscribeAt (live : Live) {done panes : List Pane} {pane pane' : Pane} {focus old : ℕ}
    {rest : List View} (hsub : pane.sub = some old) (hsub' : pane'.sub = none) :
    Reach kinds
      ({ live with stack := .page { panes := done ++ pane :: panes, focus } :: rest }.roster own next)
      ({ live.unsubscribeAny old with
        stack := .page { panes := done ++ pane' :: panes, focus } :: rest }.roster own next) := by
  have hended : Ended [old] { live with
      stack := .page { panes := done ++ pane :: panes, focus } :: rest } (live.unsubscribeAny old) := by
    have h := ended_unsubscribeAny [old] live
    exact ⟨h.polls, h.tasks, h.names⟩
  refine reaches_releasePanes rfl hended (· = done.length) ?_ ?_
  · intro id
    simp [hsub, eq_comm]
  · intro i id
    by_cases hi : i = done.length
    · subst hi
      simp [hsub']
    · simp [sub_of_ne pane pane' hi, hi]

theorem reaches_subscribePanes {served : Pane → Bool} {focus : ℕ} {rest : List View}
    (panes : List Pane) : ∀ (live : Live) (done : List Pane) (next : ℕ),
      (∀ pane ∈ panes, pane.sub = none → served pane = true →
        pane.key.context = none ∧ pane.key.kind ∈ kinds) →
      Reach kinds
        ({ live with stack := .page { panes := done ++ panes, focus } :: rest }.roster own next)
        ({ (panes.foldl (subscribePane served) (live, done, next)).1 with
          stack := .page {
            panes := (panes.foldl (subscribePane served) (live, done, next)).2.1, focus } ::
              rest }.roster own (panes.foldl (subscribePane served) (live, done, next)).2.2) := by
  induction panes with
  | nil =>
      intro live done next _
      rw [List.append_nil]
      exact .refl
  | cons pane panes ih =>
      intro live done next hpanes
      rw [List.foldl_cons, subscribePane]
      split
      case isTrue h =>
        obtain ⟨hsub, hserved⟩ : pane.sub = none ∧ served pane = true := by simpa using h
        obtain ⟨hcontext, hkind⟩ := hpanes pane (List.mem_cons_self ..) hsub hserved
        have hrest := ih (live.mapScheduler none fun s => s.subscribe next { key := pane.key })
          (done ++ [{ pane with sub := some next, askedRows := some (paneBudget pane.drawn) }])
          (next + 1) fun p hp => hpanes p (List.mem_cons_of_mem _ hp)
        simp only [List.append_assoc, List.singleton_append] at hrest
        exact .trans (reaches_subscribeAt live hsub rfl hcontext hkind) hrest
      case isFalse =>
        have hrest := ih live (done ++ [pane]) next fun p hp => hpanes p (List.mem_cons_of_mem _ hp)
        simpa only [List.append_assoc, List.singleton_append] using hrest

/-- Whether a pane is drawn taller than its subscription asks for. -/
def outgrown (pane : Pane) : Bool :=
  pane.sub.isSome && !pane.askedRows.any fun asked => decide (paneBudget pane.drawn ≤ asked)

theorem resizePane_of_not_outgrown {live : Live} {done : List Pane} {pane : Pane}
    (h : outgrown pane = false) : resizePane (live, done, next) pane = (live, done ++ [pane], next) := by
  unfold resizePane
  cases hsub : pane.sub with
  | none => rfl
  | some old =>
      have hasked : (pane.askedRows.any fun asked => decide (paneBudget pane.drawn ≤ asked)) = true := by
        simpa [outgrown, hsub] using h
      simp only [hasked, if_true]

theorem resizePane_of_outgrown {live : Live} {done : List Pane} {pane : Pane} {old : ℕ}
    (hsub : pane.sub = some old) (h : outgrown pane = true) :
    resizePane (live, done, next) pane =
      ((live.unsubscribeAny old).mapScheduler none fun s => s.subscribe next { key := pane.key },
        done ++ [{ pane with sub := some next, askedRows := some (paneBudget pane.drawn) }],
        next + 1) := by
  have hasked : (pane.askedRows.any fun asked => decide (paneBudget pane.drawn ≤ asked)) = false := by
    simpa [outgrown, hsub] using h
  simp [resizePane, hsub, hasked]

theorem reaches_resizePanes {focus : ℕ} {rest : List View} (panes : List Pane) :
    ∀ (live : Live) (done : List Pane) (next : ℕ),
      (∀ pane ∈ panes, outgrown pane = true → pane.key.context = none ∧ pane.key.kind ∈ kinds) →
      Reach kinds
        ({ live with stack := .page { panes := done ++ panes, focus } :: rest }.roster own next)
        ({ (panes.foldl resizePane (live, done, next)).1 with
          stack := .page { panes := (panes.foldl resizePane (live, done, next)).2.1, focus } ::
            rest }.roster own (panes.foldl resizePane (live, done, next)).2.2) := by
  induction panes with
  | nil =>
      intro live done next _
      rw [List.append_nil]
      exact .refl
  | cons pane panes ih =>
      intro live done next hpanes
      have hpanes' : ∀ p ∈ panes, outgrown p = true → p.key.context = none ∧ p.key.kind ∈ kinds :=
        fun p hp => hpanes p (List.mem_cons_of_mem _ hp)
      rw [List.foldl_cons]
      cases hout : outgrown pane with
      | false =>
          rw [resizePane_of_not_outgrown hout]
          have hrest := ih live (done ++ [pane]) next hpanes'
          simpa only [List.append_assoc, List.singleton_append] using hrest
      | true =>
          obtain ⟨hcontext, hkind⟩ := hpanes pane (List.mem_cons_self ..) hout
          obtain ⟨old, hsub⟩ : ∃ old, pane.sub = some old := by
            rw [← Option.isSome_iff_exists]
            exact (Bool.and_eq_true_iff.1 hout).1
          rw [resizePane_of_outgrown hsub hout]
          have hrest := ih
            ((live.unsubscribeAny old).mapScheduler none fun s => s.subscribe next { key := pane.key })
            (done ++ [{ pane with sub := some next, askedRows := some (paneBudget pane.drawn) }])
            (next + 1) hpanes'
          simp only [List.append_assoc, List.singleton_append] at hrest
          have hended := @reaches_unsubscribeAt own next kinds live done panes pane
            { pane with sub := none } focus old rest hsub rfl
          refine hended.trans ?_
          exact .trans (reaches_subscribeAt (live.unsubscribeAny old) rfl rfl hcontext hkind) hrest

/-- The open page resized: the panes drawn taller than they ask for are subscribed anew. -/
theorem reaches_resize {live : Live}
    (hpanes : ∀ page, live.stack.head? = some (.page page) → ∀ pane ∈ page.panes,
      outgrown pane = true → pane.key.context = none ∧ pane.key.kind ∈ kinds) :
    Reach kinds (live.roster own next) ((live.resize next).1.roster own (live.resize next).2) := by
  unfold resize
  split
  case h_1 page rest hstack =>
    have h := @reaches_resizePanes own _ page.focus rest page.panes live []
      next (hpanes page (by rw [hstack]; rfl))
    have heq : { live with
        stack := .page { panes := [] ++ page.panes, focus := page.focus } :: rest } = live := by
      rw [List.nil_append, ← hstack]
    rw [heq] at h
    exact h
  case h_2 => exact .refl

/-- The panes a session has come to refuse stop polling. -/
theorem reaches_regrade (live : Live) (refused : Kind → Option String) :
    Reach kinds (live.roster own next) ((live.regrade refused).roster own next) := by
  unfold regrade
  split
  case h_1 page rest hstack =>
    refine reaches_releasePanes hstack (ended_unsubscribeAny _ live)
      (fun i => page.panes[i]?.any fun pane =>
        pane.reason.isNone && (refused pane.key.kind).isSome) ?_ ?_
    · intro id
      simp only [List.mem_filterMap, List.mem_filter]
      constructor
      · rintro ⟨pane, ⟨hpane, hgone⟩, hsub⟩
        obtain ⟨i, hi⟩ := List.mem_iff_getElem?.1 hpane
        exact ⟨i, by rw [hi]; exact hgone, by rw [hi]; exact hsub⟩
      · rintro ⟨i, hgone, hsub⟩
        obtain ⟨pane, hpane, hsub⟩ := Option.bind_eq_some_iff.1 hsub
        rw [hpane] at hgone
        exact ⟨pane, ⟨List.mem_of_getElem? hpane, hgone⟩, hsub⟩
    · intro i id
      simp only [List.getElem?_map]
      cases page.panes[i]? with
      | none => simp
      | some pane =>
          simp only [Option.map_some, Option.bind_some, Option.any_some]
          split
          case isTrue hgone => simp [hgone]
          case isFalse hgone => simp [hgone]
  case h_2 => exact .refl

/-- A page that is buried stops polling its panes. -/
theorem reaches_releaseTop (live : Live) :
    Reach kinds (live.roster own next) ((App.releaseTop live).roster own next) := by
  unfold App.releaseTop
  split
  case h_1 page rest hstack =>
    have hended := ended_unsubscribeAny (page.panes.filterMap Pane.sub) live
    let released : Live := { (page.panes.filterMap Pane.sub).foldl unsubscribeAny live with
      store := page.panes.foldl (fun store pane => store.abandon pane.key) live.store }
    refine @reaches_releasePanes _ released _ _ _ _ _ _ hstack _
      ⟨hended.polls, hended.tasks, hended.names⟩ (fun _ => True) ?_ ?_
    · intro id
      rw [List.mem_filterMap]
      constructor
      · rintro ⟨pane, hpane, hsub⟩
        obtain ⟨i, hi⟩ := List.mem_iff_getElem?.1 hpane
        exact ⟨i, trivial, by rw [hi]; exact hsub⟩
      · rintro ⟨i, -, hsub⟩
        obtain ⟨pane, hpane, hsub⟩ := Option.bind_eq_some_iff.1 hsub
        exact ⟨pane, List.mem_of_getElem? hpane, hsub⟩
    · intro i id
      simp only [List.getElem?_map]
      cases page.panes[i]? <;> simp
  case h_2 => exact .refl

/-- A poll that nobody holds. -/
theorem roster_lend {c : Option String} {k : Subscription} (hc : (live.schedulerFor c).isSome = true) :
    (live.mapScheduler c fun s => s.subscribe next k).roster own (next + 1) =
      (live.roster own next).move rules (.lend c k) := by
  ext1
  · exact Set.ext fun t => mem_polls_subscribe hc
  · exact Set.ext fun x => holds_congr (by rw [stack_mapScheduler])
      (congrArg TaskIndex.subOf (tasks_mapScheduler _ _)) x.1 x.2
  · exact Set.ext fun n => stands_congr (by rw [stack_mapScheduler]) n.1 n.2.1 n.2.2
  · exact Set.ext fun c' => by
      show (Live.schedulerFor _ c').isSome = true ↔ (live.schedulerFor c').isSome = true
      rw [isSome_schedulerFor_congr (names_mapScheduler _ _)]
  · rfl

theorem reaches_lend {c : Option String} {k : Subscription} (hc : (live.schedulerFor c).isSome = true)
    (hk : k.once = true) (hcontext : k.key.context = c) :
    Reach kinds (live.roster own next)
      ((live.mapScheduler c fun s => s.subscribe next k).roster own (next + 1)) := by
  rw [roster_lend hc]
  exact .single ⟨hk, fun _ => hcontext, fun _ honce => by rw [hk] at honce; cases honce⟩

/-- A poll that was to run once is over. -/
theorem reaches_reap (live : Live) (sub : ℕ) :
    Reach kinds (live.roster own next)
      ((live.mapSchedulers fun scheduler =>
        { scheduler with
          tasks := scheduler.tasks.filter fun t => !(t.1 == sub && t.2.once) }).roster own next) := by
  have hnames : (live.peers.map fun p => { p with
      scheduler := { p.scheduler with
        tasks := p.scheduler.tasks.filter fun t => !(t.1 == sub && t.2.once) } }).map Peer.name =
      live.peers.map Peer.name := by
    simp [Function.comp_def, Peer.name]
  have hmove : (live.mapSchedulers fun scheduler =>
      { scheduler with
        tasks := scheduler.tasks.filter fun t => !(t.1 == sub && t.2.once) }).roster own next =
      (live.roster own next).move rules (.reap sub) := by
    ext1
    · refine Set.ext fun t => (mem_polls_of_filter fun s => rfl).trans (and_congr_right fun _ => ?_)
      show (!(t.2.1 == sub && t.2.2.once)) = true ↔ (t.2.2.once = true → t.2.1 ≠ sub)
      cases t.2.2.once <;> simp
    · exact Set.ext fun x => holds_congr rfl rfl x.1 x.2
    · rfl
    · exact Set.ext fun c => by
        show (Live.schedulerFor _ c).isSome = true ↔ (live.schedulerFor c).isSome = true
        rw [isSome_schedulerFor_congr hnames]
    · rfl
  rw [hmove]
  exact .single trivial

/-! ### Contexts dropped -/

theorem holds_forgetView (name : String) (h : ℕ) (v : View) (o : Owner) (id : ℕ) :
    (forgetView name v).Holds h o id ↔ v.Holds h o id ∧ o ∉ {o | ∃ i, o = Owner.peer i name} := by
  cases v with
  | table t =>
      cases o with
      | peer i n => simp [forgetView, View.Holds, and_assoc]
      | _ => simp [forgetView, View.Holds]
  | page p => cases o <;> simp [forgetView, View.Holds]

/-- What dropping a context is: it takes its polls with it, and the views let go of them. -/
def leaving (name : String) : Roster.Move (Option String) Subscription Owner :=
  .leave (some name) {o | ∃ i, o = .peer i name}

theorem roster_forgetPeer (live : Live) (name : String) :
    (live.forgetPeer name).roster own next = (live.roster own next).move rules (leaving name) := by
  ext1
  · refine Set.ext fun t => ?_
    show t ∈ (live.forgetPeer name).polls ↔ t ∈ live.polls ∧ t.1 ≠ some name
    simp only [mem_polls, forgetPeer, List.mem_filter, bne_iff_ne]
    constructor
    · rintro (⟨hc, ht⟩ | ⟨p, ⟨hp, hne⟩, hc, ht⟩)
      · exact ⟨Or.inl ⟨hc, ht⟩, by rw [hc]; nofun⟩
      · exact ⟨Or.inr ⟨p, hp, hc, ht⟩, by rw [hc]; simpa using hne⟩
    · rintro ⟨⟨hc, ht⟩ | ⟨p, hp, hc, ht⟩, hne⟩
      · exact Or.inl ⟨hc, ht⟩
      · rw [hc] at hne
        exact Or.inr ⟨p, ⟨hp, by simpa using hne⟩, hc, ht⟩
  · refine Set.ext fun x => ?_
    obtain ⟨o, id⟩ := x
    show (live.forgetPeer name).Holds own o id ↔
      live.Holds own o id ∧ o ∉ {o | ∃ i, o = Owner.peer i name}
    cases ho : o.height with
    | none =>
        refine (@holds_of_height_eq_none live (live.forgetPeer name) _ _ ho rfl id).trans
          (iff_self_and.2 fun _ => ?_)
        rintro ⟨i, rfl⟩
        cases ho
    | some i =>
        rw [holds_of_height ho, holds_of_height ho, forgetPeer, onStack_map]
        simp only [holds_forgetView]
        exact onStack_and
  · refine Set.ext fun n => ?_
    show onStack _ (live.stack.map (forgetView name)) ↔ onStack _ live.stack
    rw [onStack_map]
    refine iff_of_eq (congrArg (onStack · live.stack) (funext₂ fun h v => ?_))
    cases v <;> rfl
  · refine Set.ext fun c => ?_
    show (Live.schedulerFor _ c).isSome = true ↔ (live.schedulerFor c).isSome = true ∧ c ≠ some name
    rw [isSome_schedulerFor, isSome_schedulerFor, forgetPeer]
    simp only [List.mem_map, List.mem_filter, bne_iff_ne]
    constructor
    · rintro (rfl | ⟨_, ⟨p, ⟨hp, hne⟩, rfl⟩, rfl⟩)
      · exact ⟨Or.inl rfl, nofun⟩
      · exact ⟨Or.inr ⟨_, ⟨p, hp, rfl⟩, rfl⟩, by simpa using hne⟩
    · rintro ⟨rfl | ⟨_, ⟨p, hp, rfl⟩, rfl⟩, hne⟩
      · exact Or.inl rfl
      · exact Or.inr ⟨_, ⟨p, ⟨hp, by simpa using hne⟩, rfl⟩, rfl⟩
  · rfl

theorem orderly_leaving (name : String) : (leaving name).Orderly rules (Started True kinds) := by
  rintro _ ⟨i, rfl⟩
  refine ⟨?_, fun d k hfits => hfits⟩
  rintro ⟨h, hview⟩
  cases hview

theorem reaches_forgetPeer (live : Live) (name : String) :
    Reach kinds (live.roster own next) ((live.forgetPeer name).roster own next) := by
  rw [roster_forgetPeer]
  exact .single (orderly_leaving name)

/-- A context joined, nothing polled there yet. -/
theorem roster_join (live : Live) {p : Peer} (htasks : p.scheduler.tasks = []) :
    { live with peers := live.peers ++ [p] }.roster own next =
      (live.roster own next).move rules (.join (some p.name)) := by
  ext1
  · refine Set.ext fun t => ?_
    show t ∈ polls _ ↔ t ∈ live.polls
    simp [mem_polls, or_and_right, exists_or, htasks]
  · rfl
  · rfl
  · refine Set.ext fun c => ?_
    show (Live.schedulerFor _ c).isSome = true ↔ (live.schedulerFor c).isSome = true ∨ c = some p.name
    rw [isSome_schedulerFor, isSome_schedulerFor]
    simp only [List.map_append, List.mem_append, or_and_right, exists_or, List.map_cons, List.map_nil,
      List.mem_singleton, exists_eq_left, or_assoc]
  · rfl

end Live

end Nutsh
