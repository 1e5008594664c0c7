/-
A surface over a row, and the choice made in it.

The menu, the picker and the detail pane name rows when they open.  What is chosen in them goes by the
cursor and the marks of the moment of the choice, so it is about the rows named as long as these still
give them.

* `Live.ids_subjects` — an action applies to the rows the cursor and the marks give;
* `App.namedRow`, `System.Opened` — the row a picker was opened over, and what the picker keeps of it;
* `System.Faithful`, `System.Steady` — a choice is about the rows named; the cursor and the marks still
  give them;
* `System.along_faithful_iff` — the choices of a run are about the rows named exactly when the run is
  steady.
-/
import Nutsh.System.Prefill

set_option relaxedAutoImplicit false
set_option autoImplicit false

namespace Nutsh

namespace Live

variable {live : Live} {env : Env} {now : ℕ} {c : Cursor}

/-- Every id a view shows is that of a row it draws. -/
theorem get?_isSome_of_mem_shown {id : String} (h : id ∈ live.shown env now c) :
    ((live.merged c.key).rows.get? id).isSome = true := by
  have hmem : ∃ e, (id, e) ∈ (live.merged c.key).rows.entries := by
    unfold shown order at h
    dsimp only at h
    split at h
    · obtain ⟨r, hr, rfl⟩ := List.mem_map.1 h
      exact ⟨r.2, List.mem_of_mem_filter hr⟩
    · obtain ⟨cell, hcell, rfl⟩ := List.mem_map.1 h
      obtain ⟨r, hr, rfl⟩ := List.mem_map.1 ((List.mem_insertionSort _).1 hcell)
      exact ⟨r.2, List.mem_of_mem_filter hr⟩
  obtain ⟨e, he⟩ := hmem
  rw [IndexMap.get?, List.lookup_isSome_iff]
  exact ⟨(id, e), he, beq_self_eq_true _⟩

theorem wanted_subset_shown : live.wanted env now c ⊆ live.shown env now c := by
  intro id hid
  unfold wanted at hid
  split at hid
  · exact List.mem_of_getElem? (Option.mem_toList.1 hid)
  · exact List.mem_of_mem_filter hid

/-- An action applies to the rows the cursor and the marks give, all of them. -/
theorem ids_subjects (hc : live.cursor = some c) :
    (live.subjects env now).map Prod.fst = live.wanted env now c := by
  have hrows : ∀ id ∈ live.wanted env now c, ((live.merged c.key).rows.get? id).isSome = true :=
    fun id hid => get?_isSome_of_mem_shown (wanted_subset_shown hid)
  simp only [subjects, hc]
  generalize live.wanted env now c = wanted at hrows ⊢
  induction wanted with
  | nil => rfl
  | cons id ids ih =>
      obtain ⟨e, he⟩ := Option.isSome_iff_exists.1 (hrows id List.mem_cons_self)
      rw [List.filterMap_cons, he, Option.map_some, List.map_cons,
        ih fun id hid => hrows id (List.mem_cons_of_mem _ hid)]

end Live

namespace App

variable {env : Env} {a : App} {action : Action}

/-- The ids the cursor and the marks give. -/
def wantedIds (env : Env) (a : App) : List String :=
  (a.live.bind fun live => live.cursor.map fun c => live.wanted env a.now c).getD []

theorem subjectIds_eq (env : Env) (a : App) : a.subjectIds env = a.wantedIds env := by
  unfold subjectIds subjects wantedIds
  cases a.live with
  | none => rfl
  | some live =>
      cases hc : live.cursor with
      | none => simp [Live.subjects, hc]
      | some c => simpa [hc] using Live.ids_subjects hc

/-- Claiming the resolution of the roles leaves their answer. -/
theorem refusal_startCanI (env : Env) (a : App) (action : Action) (n : ℕ) :
    a.startCanI.refusal env action n = a.refusal env action n := by
  cases h : a.live with
  | none => simp [refusal, refusalFor, startCanI, mapLive, h]
  | some live =>
      have hindex : live.canI.claim.1.index = live.canI.index := by
        unfold CanICell.claim
        split <;> rfl
      have hentity : a.startCanI.selectedEntity env = a.selectedEntity env :=
        selectedEntity_pended a a.pending
      have hlive : a.startCanI.live = some { live with canI := live.canI.claim.1 } := by
        simp [startCanI, mapLive, h]
      have hcursor : Live.cursor { live with canI := live.canI.claim.1 } = live.cursor := rfl
      unfold refusal refusalFor
      rw [hentity, hlive, h]
      dsimp only
      rw [hcursor]
      cases live.cursor with
      | none => rfl
      | some c =>
          dsimp only [policyFor, canIFor]
          rw [hindex]
          rfl

theorem subjects_startCanI (env : Env) (a : App) : a.startCanI.subjects env = a.subjects env := by
  cases h : a.live with
  | none => simp [subjects, startCanI, mapLive, h]
  | some live => simp [subjects, startCanI, mapLive, h]; rfl

/-- Whether an action is taken up: it is not refused, there is a row, and the curated body parses. -/
def accepts (env : Env) (a : App) (action : Action) : Bool :=
  (a.refusal env action (max (a.subjects env).length 1)).isNone && !(a.subjects env).isEmpty &&
    (action.body.mapM env.codec.parse).isOk

theorem pend_of_accepts (h : a.accepts env action = true) : ∃ a', a.pend env action = .ok a' := by
  simp only [accepts, Bool.and_eq_true, Option.isNone_iff_eq_none, Bool.not_eq_true'] at h
  obtain ⟨⟨hrefusal, hrows⟩, hbody⟩ := h
  unfold pend
  simp only [subjects_startCanI, refusal_startCanI, hrefusal, hrows, Bool.false_eq_true, if_false]
  cases hb : action.body.mapM env.codec.parse with
  | error e => rw [hb] at hbody; cases hbody
  | ok body => exact ⟨_, rfl⟩

theorem accepts_of_pend {a' : App} (h : a.pend env action = .ok a') :
    a.accepts env action = true := by
  unfold pend at h
  simp only [subjects_startCanI, refusal_startCanI] at h
  split at h
  · cases h
  · rename_i hrefusal
    split at h
    · cases h
    · rename_i hrows
      split at h
      · cases h
      · rename_i body hbody
        simp [accepts, hrefusal, hrows, hbody, Except.isOk, Except.toBool]

/-- A pended action applies to the rows the cursor and the marks give, under the key of the view. -/
theorem rows_of_pend {a' : App} (h : a.pend env action = .ok a') :
    a'.topKey = a.topKey ∧
      a'.pending.map (fun p => p.rows.map Prod.fst) = some (a.wantedIds env) := by
  obtain ⟨-, body, rfl⟩ := pend_eq_ok h
  refine ⟨?_, ?_⟩
  · cases hl : a.live with
    | none => simp [topKey, startCanI, mapLive, hl]
    | some live => simp [topKey, startCanI, mapLive, hl]; rfl
  · rw [← subjectIds_eq]
    simp [subjects_startCanI, subjectIds]

/-! ### Children -/

/-- How many views are open. -/
def depth (a : App) : ℕ := (a.live.map fun live => live.stack.length).getD 0

/-- Whether a child chosen now opens a table: it is not greyed, and the context it is listed from is
joined. -/
def lists (env : Env) (a : App) (child : Kind) : Bool :=
  match a.picker, a.live with
  | some picker, some live =>
      ((picker.children.find? fun c => c.1 == child).bind Prod.snd).isNone &&
        (live.schedulerFor (a.childContext env live)).isSome
  | _, _ => false

@[simp] theorem context_viewKey (kind : Kind) (parents : List String) (context : Option String) :
    (viewKey kind parents context).context = context := by
  cases context <;> rfl

@[simp] theorem kind_viewKey (kind : Kind) (parents : List String) (context : Option String) :
    (viewKey kind parents context).kind = kind := by
  cases context <;> rfl

@[simp] theorem parents_viewKey (kind : Kind) (parents : List String) (context : Option String) :
    (viewKey kind parents context).parents = parents := by
  cases context <;> rfl

theorem depth_subscribePeers (live : Live) (next : ℕ) :
    (live.subscribePeers next).1.stack.length = live.stack.length := by
  unfold Live.subscribePeers
  split
  · rename_i view rest hs
    split
    · simp [hs]
    · rfl
  · rfl

theorem depth_releaseTop (live : Live) : (releaseTop live).stack.length = live.stack.length := by
  unfold releaseTop
  split
  · rename_i page rest hs
    simp [hs]
  · rfl

theorem stack_mapScheduler (live : Live) (context : Option String) (f : Scheduler → Scheduler) :
    (live.mapScheduler context f).stack = live.stack := by
  unfold Live.mapScheduler
  split <;> rfl

/-- A table is pushed under its key exactly when the context of the key is joined. -/
theorem pushView_spec {live : Live} (hl : a.live = some live) (child : Kind) (parents : List String)
    (parentName context : Option String) :
    let pushed := a.pushView live child parents parentName context
    if (live.schedulerFor context).isSome then
      pushed.depth = a.depth + 1 ∧ pushed.topKey = some (viewKey child parents context)
    else pushed.depth = a.depth := by
  dsimp only
  unfold pushView
  dsimp only
  split
  · rename_i hsome
    rw [if_neg (by simpa [Option.isSome_iff_ne_none] using hsome)]
    refine ⟨?_, ?_⟩
    · simp [depth, depth_subscribePeers, stack_mapScheduler, depth_releaseTop, hl]
    · simp [topKey, Live.topKey_subscribePeers]
      rfl
  · rename_i hnone
    rw [if_pos (by simpa using hnone)]
    simp [depth, hl]

/-- A child chosen opens its table under the row of the picker, from the context under the cursor, or
opens nothing. -/
theorem pickChild_spec (env : Env) {picker : Picker} (hp : a.picker = some picker) (child : Kind) :
    if a.lists env child then
      (a.pickChild env child).depth = a.depth + 1 ∧ ∃ live ∈ a.live,
        (a.pickChild env child).topKey = some (viewKey child
          (childParents live ++ [picker.parentExtId]) (a.childContext env live))
    else (a.pickChild env child).depth = a.depth := by
  cases hl : a.live with
  | none =>
      have hlists : a.lists env child = false := by simp [lists, hl]
      rw [hlists]
      unfold pickChild
      simp only [hp, Bool.false_eq_true, if_false]
      split
      · rfl
      · split
        · rfl
        · rename_i live hlive
          rw [hl] at hlive
          cases hlive
  | some live =>
      cases hreason : (picker.children.find? fun c => c.1 == child).bind Prod.snd with
      | some why =>
          have hlists : a.lists env child = false := by simp [lists, hp, hl, hreason]
          rw [hlists]
          unfold pickChild
          simp only [hp, hreason, Bool.false_eq_true, if_false]
          rfl
      | none =>
          have hlists : a.lists env child =
              (live.schedulerFor (a.childContext env live)).isSome := by
            simp [lists, hp, hl, hreason]
          have hpick : a.pickChild env child =
              pushView { a with picker := none, mode := .table } live child
                (childParents live ++ [picker.parentExtId]) (some picker.parentName)
                (a.childContext env live) := by
            unfold pickChild
            simp only [hp, hreason]
            split
            · rename_i hnone
              rw [hl] at hnone
              cases hnone
            · rename_i live' hlive'
              rw [hl] at hlive'
              cases hlive'
              rfl
          have hpush := pushView_spec (a := { a with picker := none, mode := .table }) hl child
            (childParents live ++ [picker.parentExtId]) (some picker.parentName)
            (a.childContext env live)
          rw [hlists, hpick]
          split
          · rename_i hsome
            rw [if_pos hsome] at hpush
            exact ⟨hpush.1, live, rfl, hpush.2⟩
          · rename_i hnone
            rw [if_neg hnone] at hpush
            exact hpush

/-! ### The row of a picker -/

/-- The row a surface over one row named, with its table and the joined context it was from. -/
def namedRow (named : App × List String) : Option (TableKey × Option String × Entity) :=
  match named.2 with
  | [id] =>
      named.1.live.bind fun live =>
        named.1.topKey.bind fun key => (live.findRow key id).map fun r => (key, r)
  | _ => none

/-- A picker is over the row under the cursor, and keeps its id. -/
theorem namedRow_of_buildPicker {picker : Picker}
    (h : a.startCanI.buildPicker env = some picker) :
    ∃ r ∈ namedRow (a, a.selectedIds env), picker.parentExtId = r.2.2.extId := by
  obtain ⟨live', hl', h⟩ := Option.bind_eq_some_iff.1 h
  obtain ⟨live, hl, rfl⟩ := Option.map_eq_some_iff.1 hl'
  obtain ⟨c, hc, h⟩ := Option.bind_eq_some_iff.1 h
  obtain ⟨id, hid, h⟩ := Option.bind_eq_some_iff.1 h
  obtain ⟨⟨site, e⟩, hrow, rfl⟩ := Option.map_eq_some_iff.1 h
  have hcursor : live.cursor = some c := hc
  have hselected : live.selectedExtId env a.now = some id := hid
  have hfound : live.findRow c.key id = some (site, e) := hrow
  have hids : a.selectedIds env = [id] := by
    simp [selectedIds, selectedExtId, hl, hselected]
  have htop : a.topKey = some c.key := by simp [topKey, hl, Live.topKey_of_cursor hcursor]
  refine ⟨(c.key, site, e), ?_, rfl⟩
  rw [hids, Option.mem_def]
  simp [namedRow, hl, htop, hfound]

theorem picker_openPicker (hmode : a.mode ≠ .picker) (h : (a.openPicker env).mode = .picker) :
    ∃ picker, a.startCanI.buildPicker env = some picker ∧ (a.openPicker env).picker = some picker := by
  unfold openPicker at h ⊢
  dsimp only at h ⊢
  split at h
  · exact absurd h hmode
  · rename_i picker hbuilt
    split at h
    · rcases mode_openDetail env a.startCanI with hm | hm <;> rw [hm] at h
      · exact absurd h hmode
      · cases h
    · rename_i hempty
      rw [if_neg hempty]
      exact ⟨picker, hbuilt, rfl⟩

/-- Starting an action opens no picker. -/
theorem mode_start (hmode : a.mode ≠ .picker) : (a.start env action).1.mode ≠ .picker := by
  intro h
  rcases start_cases env a action with ⟨a', hpend, hstart⟩ |
    ⟨a', p, hpend, hp, ⟨hasks, hstart⟩ | ⟨hasks, hstart⟩⟩ <;> rw [hstart] at h
  · rw [mode_of_pend_error hpend] at h
    exact hmode h
  · cases h
  · obtain ⟨-, body, rfl⟩ := pend_eq_ok hpend
    rcases mode_confirmOrRun env { a.startCanI with
      pending := some { action, rows := a.startCanI.subjects env, body } } with hm | hm | hm <;>
      rw [hm] at h
    · exact hmode h
    · cases h
    · exact actingFrom_ne rfl _ h

end App

namespace System

variable {env : Env} {s t : System} {e : Event}

/-- An open picker keeps the id of the row it was opened over. -/
def Opened (s : System) : Prop :=
  s.app.mode = .picker → ∃ n ∈ s.named, ∃ r ∈ App.namedRow n, ∃ picker ∈ s.app.picker,
    picker.parentExtId = r.2.2.extId

/-- A choice made in a surface is about the rows the surface named: an action is taken up over them, in
their table, and a child is listed under the id of the row from the context of the row. -/
def Faithful (env : Env) (s : System) : Event → Prop
  | .start action =>
      s.app.offers env action = true → s.app.mode ≠ .table →
      ∀ a, s.acting.pend env action = .ok a → ∃ n ∈ s.named, a.topKey = n.1.topKey ∧
        a.pending.map (fun p => p.rows.map Prod.fst) = some n.2
  | .pickChild child =>
      s.app.offersChild child = true → s.app.depth < (s.app.pickChild env child).depth →
      ∃ n ∈ s.named, ∃ r ∈ App.namedRow n, ∃ key ∈ (s.app.pickChild env child).topKey,
        key.kind = child ∧ key.parents.getLast? = some r.2.2.extId ∧
        key.context = r.2.1.or r.1.context
  | _ => True

/-- The cursor and the marks still give what the surface named: when the action chosen is taken up, its
rows in its table; when the child chosen opens a table, a row of its context. -/
def Steady (env : Env) (s : System) : Event → Prop
  | .start action =>
      s.app.offers env action = true → s.app.mode ≠ .table →
      s.acting.accepts env action = true → ∃ n ∈ s.named, s.app.topKey = n.1.topKey ∧
        s.app.wantedIds env = n.2
  | .pickChild child =>
      s.app.offersChild child = true → s.app.lists env child = true →
      ∃ n ∈ s.named, ∃ r ∈ App.namedRow n, ∃ live ∈ s.app.live,
        s.app.childContext env live = r.2.1.or r.1.context
  | _ => True

instance (env : Env) (s : System) : (e : Event) → Decidable (Steady env s e)
  | .start _ | .pickChild _ => by
      unfold Steady
      infer_instance
  | .background _ | .browse _ | .acted _ _ | .openMenu | .openPicker | .openDetail | .closeDetail | .cancel
  | .type _ _ | .submit | .closeForm | .confirmed | .cancelConfirm => isTrue trivial

theorem topKey_acting (s : System) : s.acting.topKey = s.app.topKey := by
  unfold acting
  split <;> rfl

theorem wantedIds_acting (env : Env) (s : System) : s.acting.wantedIds env = s.app.wantedIds env := by
  unfold acting
  split <;> rfl

/-- A choice is about the rows named exactly when the cursor and the marks still give them. -/
theorem faithful_iff_steady (hs : s.Opened) : Faithful env s e ↔ Steady env s e := by
  cases e with
  | start action =>
      refine forall_congr' fun hoffers => forall_congr' fun hmode => ?_
      constructor
      · intro h haccepts
        obtain ⟨a, hpend⟩ := App.pend_of_accepts haccepts
        obtain ⟨n, hn, hkey, hrows⟩ := h a hpend
        obtain ⟨hkey', hrows'⟩ := App.rows_of_pend hpend
        rw [hkey', topKey_acting] at hkey
        rw [hrows', wantedIds_acting] at hrows
        exact ⟨n, hn, hkey, Option.some.inj hrows⟩
      · intro h a hpend
        obtain ⟨n, hn, hkey, hrows⟩ := h (App.accepts_of_pend hpend)
        obtain ⟨hkey', hrows'⟩ := App.rows_of_pend hpend
        refine ⟨n, hn, ?_, ?_⟩
        · rw [hkey', topKey_acting, hkey]
        · rw [hrows', wantedIds_acting, hrows]
  | pickChild child =>
      refine forall_congr' fun hoffers => ?_
      obtain ⟨hmode, picker, hp, -⟩ := App.picker_of_offersChild hoffers
      obtain ⟨n, hn, r, hr, picker', hp', hid⟩ := hs hmode
      obtain rfl : picker = picker' := Option.some.inj (hp.symm.trans hp')
      have hspec := App.pickChild_spec env hp child
      cases hlists : s.app.lists env child with
      | false =>
          rw [hlists] at hspec
          simp only [Bool.false_eq_true, if_false] at hspec
          simp [hspec]
      | true =>
          rw [hlists, if_pos rfl] at hspec
          obtain ⟨hdepth, live, hlive, hkey⟩ := hspec
          constructor
          · intro h _
            obtain ⟨n', hn', r', hr', key, hkey', -, -, hcontext⟩ := h (by omega)
            rw [hkey] at hkey'
            cases hkey'
            rw [App.context_viewKey] at hcontext
            exact ⟨n', hn', r', hr', live, hlive, hcontext⟩
          · intro h _
            obtain ⟨n', hn', r', hr', live', hlive', hcontext⟩ := h rfl
            obtain rfl : n = n' := Option.some.inj (hn.symm.trans hn')
            obtain rfl : r = r' := Option.some.inj (hr.symm.trans hr')
            obtain rfl : live = live' := Option.some.inj (hlive.symm.trans hlive')
            refine ⟨n, hn, r, hr, _, hkey, ?_, ?_, ?_⟩
            · exact App.kind_viewKey _ _ _
            · rw [App.parents_viewKey, ← hid]
              simp
            · rw [App.context_viewKey]
              exact hcontext
  | _ => exact Iff.rfl

/-- Outside the picker there is nothing to keep. -/
theorem opened_of_mode (h : t.app.mode ≠ .picker) : t.Opened := fun hmode => absurd hmode h

/-- What keeps an open picker keeps its row. -/
theorem Opened.kept (hs : s.Opened) (hnamed : t.named = s.named)
    (hkept : t.app.mode.isBox = true → App.Kept s.app t.app) : t.Opened := by
  intro hmode
  have hk := hkept (by rw [hmode]; rfl)
  obtain ⟨n, hn, r, hr, picker, hp, hid⟩ := hs (hk.mode ▸ hmode)
  exact ⟨n, hnamed ▸ hn, r, hr, picker, hk.picker ▸ hp, hid⟩

theorem opened_step (s : System) (e : Event) (t : System) (hs : s.Opened)
    (h : s.step env e = some t) : t.Opened := by
  cases e with
  | background b =>
      cases h
      exact hs.kept rfl (App.kept_background s.app b)
  | acted i outcome =>
      obtain ⟨f, hf, rfl⟩ := Option.map_eq_some_iff.1 h
      exact hs.kept rfl (App.kept_acted env s.app _ _ _)
  | openPicker =>
      simp only [step, Option.ite_none_right_eq_some, Option.some.injEq] at h
      obtain ⟨htable, rfl⟩ := h
      intro hmode
      rw [app_panned] at hmode ⊢
      obtain ⟨picker, hbuilt, hp⟩ :=
        App.picker_openPicker (by rw [htable]; decide) hmode
      obtain ⟨r, hr, hid⟩ := App.namedRow_of_buildPicker hbuilt
      refine ⟨(s.app, s.app.selectedIds env), ?_, r, hr, picker, hp, hid⟩
      unfold panned
      split <;> rfl
  -- every other step ends outside the picker
  | start action =>
      obtain ⟨hoffers, rfl⟩ := step_start h
      refine opened_of_mode (App.mode_start ?_)
      unfold acting
      split
      · intro hmode
        cases hmode
      · assumption
  | submit =>
      simp only [step, Option.ite_none_right_eq_some, Option.some.injEq] at h
      obtain ⟨hfields, rfl⟩ := h
      refine opened_of_mode ?_
      simp only [launch, App.submitForm]
      split
      · intro hpicker
        have hsubmitted : s.app.submitted.mode = s.app.mode := by
          unfold App.submitted
          split <;> rfl
        rcases App.mode_confirmOrRun env s.app.submitted with hm | hm | hm <;> rw [hm] at hpicker
        · rw [hsubmitted, hfields] at hpicker
          cases hpicker
        · cases hpicker
        · exact App.actingFrom_ne rfl _ hpicker
      · rw [hfields]
        decide
  | confirmed =>
      simp only [step, Option.ite_none_right_eq_some, Option.some.injEq] at h
      obtain ⟨hconfirm, rfl⟩ := h
      refine opened_of_mode ?_
      rcases App.runPending_cases env s.app with (⟨h, -⟩ | h) | ⟨live, key, p, s', -, -, -, -, -, h⟩
      · simp only [launch, h, hconfirm]
        decide
      · simp only [launch, h, App.dropPending]
        exact App.actingFrom_ne rfl _
      · obtain ⟨stack, status, h⟩ := h
        simp only [launch, h, App.dropPending]
        exact App.actingFrom_ne rfl _
  | browse b =>
      simp only [step, Option.ite_none_right_eq_some, Option.some.injEq] at h
      obtain ⟨htaken, rfl⟩ := h
      refine opened_of_mode ?_
      intro hpicker
      have hbox := App.isBox_browse env s.app htaken
      rw [hpicker] at hbox
      cases hbox
  | openMenu =>
      simp only [step, Option.ite_none_right_eq_some, Option.some.injEq] at h
      obtain ⟨htaken, rfl⟩ := h
      refine opened_of_mode ?_
      rcases App.mode_openMenu env s.app with hm | hm <;> rw [hm]
      · rcases htaken with htaken | htaken <;> rw [htaken] <;> decide
      · decide
  | openDetail =>
      simp only [step, Option.ite_none_right_eq_some, Option.some.injEq] at h
      obtain ⟨htaken, rfl⟩ := h
      refine opened_of_mode ?_
      rw [app_panned]
      rcases App.mode_openDetail env s.app with hm | hm <;> rw [hm]
      · rw [htaken]
        decide
      · decide
  | cancel =>
      simp only [step] at h
      split at h
      · cases h
        exact opened_of_mode (App.actingFrom_ne rfl _)
      · split at h
        · cases h
          exact opened_of_mode fun hmode => by cases hmode
        · cases h
  | pickChild child =>
      simp only [step, Option.ite_none_right_eq_some, Option.some.injEq] at h
      obtain ⟨hoffers, rfl⟩ := h
      obtain ⟨-, picker, hp, -⟩ := App.picker_of_offersChild hoffers
      refine opened_of_mode ?_
      rw [App.mode_pickChild env hp]
      decide
  | type field text =>
      simp only [step, Option.ite_none_right_eq_some, Option.some.injEq] at h
      obtain ⟨hfields, rfl⟩ := h
      refine opened_of_mode ?_
      rw [hfields]
      decide
  | closeDetail | closeForm =>
      simp only [step, Option.ite_none_right_eq_some, Option.some.injEq] at h
      obtain ⟨-, rfl⟩ := h
      exact opened_of_mode fun hmode => by cases hmode
  | cancelConfirm =>
      simp only [step, Option.ite_none_right_eq_some, Option.some.injEq] at h
      obtain ⟨-, rfl⟩ := h
      exact opened_of_mode (App.actingFrom_ne rfl _)

/-- From where an open picker keeps its row, the choices of a run are about the rows named exactly when
the run is steady. -/
theorem Opened.along_iff (hs : s.Opened) (es : List Event) :
    Run.Along (step env) (Faithful env) s es ↔ Run.Along (step env) (Steady env) s es := by
  constructor
  · intro h
    exact Run.Along.imp (fun s e t hs _ hstep => opened_step s e t hs hstep)
      (fun s e hs hf => (faithful_iff_steady hs).1 hf) hs h
  · intro h
    exact Run.Along.imp (fun s e t hs _ hstep => opened_step s e t hs hstep)
      (fun s e hs hst => (faithful_iff_steady hs).2 hst) hs h

theorem opened_init (g : Guardrails) : (init g).Opened := opened_of_mode nofun

/-- **Choices are about the rows named**: in every run, the choices made in the menu, in the picker and
over the detail pane are about the rows the surface named exactly when the cursor and the marks still
give them at each choice. -/
theorem along_faithful_iff (env : Env) (g : Guardrails) (es : List Event) :
    Run.Along (step env) (Faithful env) (init g) es ↔
      Run.Along (step env) (Steady env) (init g) es :=
  (opened_init g).along_iff es

/-- The menu is opened over one row, a walk brings another before it, and the action chosen runs on
that other. -/
theorem not_along_faithful : ¬ ∀ (env : Env) (g : Guardrails) (es : List Event),
    Run.Along (step env) (Faithful env) (init g) es := by
  intro h
  have hsteady := ((opened_init {}).along_iff _).1 (h vmEnv {} (merging prodSession [vm "0" "db"] [] ++
    [.openMenu] ++ listed 1 2 [vm "9" "mail", vm "0" "db"] ++ [.start powerOn]))
  exact absurd hsteady (by decide)

end System

end Nutsh
