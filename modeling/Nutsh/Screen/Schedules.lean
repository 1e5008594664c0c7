/-
Every list polls at its schedule.

What retimes the polls of a kind puts every one of them at the schedule in force.  What starts a list
starts it at the rhythm of the catalog, and a level that is written brings the file back as others left
it: a list polls at another rhythm than its schedule after a list of a kind whose schedule is not that of
the catalog was started, or after a file was read back that says otherwise of a kind nobody retimed.

* `Screen.Scheduled` — every list polls at the schedule of its kind;
* `Screen.drifts` — the steps that break it;
* `Screen.scheduled_exec` — runs without them.
-/
import Nutsh.Screen.Owned

set_option relaxedAutoImplicit false
set_option autoImplicit false

namespace Nutsh

/-- A turn opens a pane over a row of one of the kinds, or leaves what the pane is over. -/
theorem Face.Turn.seen {kinds : List Kind} {f g : Face} (ht : f.Turn kinds g) {d : Detail}
    (hd : g.detail = some d) {key : TableKey} (hkey : d.key = some key) :
    key.kind ∈ kinds ∨ ∃ d', f.detail = some d' ∧ d'.key = some key := by
  cases ht with
  | watch hf hsame hsub hmode =>
      cases hd
      exact Or.inr ⟨_, hf, hsame ▸ hkey⟩
  | pane d' hmode hkind =>
      cases hd
      exact Or.inl (hkind key hkey)
  | closePane hmode => cases hd
  | root hm => cases hd
  | document =>
      cases hd
      cases hkey
  | _ => exact Or.inr ⟨d, hd, hkey⟩

theorem Face.over_of_turns {kinds : List Kind} {f g : Face}
    (ht : Relation.ReflTransGen (Face.Turn kinds) f g) {d : Detail} (hd : g.detail = some d)
    {key : TableKey} (hkey : d.key = some key) :
    key.kind ∈ kinds ∨ ∃ d', f.detail = some d' ∧ d'.key = some key := by
  induction ht generalizing d with
  | refl => exact Or.inr ⟨d, hd, hkey⟩
  | tail _ ht ih =>
      rcases ht.seen hd hkey with hkind | ⟨d', hd', hkey'⟩
      · exact Or.inl hkind
      · exact ih hd' hkey'

namespace Screen

variable {env : Env} {evidence : Evidence} {s t : Screen} {e : Event}

/-- A subscription over the rows of a kind, that does not end by itself. -/
def isList (k : Subscription) : Bool := k.single.isNone && !k.once

/-- Every list polls at the schedule of its kind, and not at all where that is none. -/
def Scheduled (s : Screen) : Prop :=
  ∀ live, s.app.live = some live → ∀ c id k, (c, id, k) ∈ live.polls → isList k = true →
    k.interval = ((s.refreshOf k.key.kind).1).getD 0

/-- The level a step writes, and the file it is written to, as others left that. -/
def rewrites (s : Screen) : Event → Option (Schedule × Refresh)
  | .choose (.refresh (some (_, some file))) =>
      if s.up .command then s.currentKind.map fun kind => (.kind kind.id, file) else none
  | .setting (.cycle level (some file)) => if s.up .settings then some (level, file) else none
  | .chooseRung _ (some file) => s.ladder.map fun level => (level, file)
  | _ => none

/-- Whether a file says of a kind that is polled, and that the level written is not about, something
else than what is in force. -/
def rereads (s : Screen) (e : Event) : Bool :=
  match s.rewrites e, s.app.live with
  | some (level, file), some live =>
      live.polls.any fun (_, _, k) =>
        isList k && !level.touches k.key.kind &&
          (effective k.key.kind file (s.refreshSession.get? k.key.kind.id)).1.getD 0 !=
            (s.refreshOf k.key.kind).1.getD 0
  | _, _ => false

/-- The steps that start a list at another rhythm than its schedule, or change a schedule that nobody
is retimed to. -/
def drifts (env : Env) (s : Screen) (e : Event) : Bool :=
  (s.listed env e).any (fun kind => (s.refreshOf kind).1 != some kind.rhythm) || s.rereads e

/-! ### Kinds of the catalog -/

theorem kind_of_view {catalog : Catalog} (hc : s.app.Cataloged catalog) {live : Live}
    (hlive : s.app.live = some live) {v : View} (hv : v ∈ live.stack) {key : TableKey}
    (hkey : key ∈ v.keys.2) : key.kind ∈ catalog := by
  have hmem : v.keys ∈ s.app.keys := by
    rw [App.keys_of_live hlive]
    exact List.mem_map.2 ⟨v, hv, rfl⟩
  exact (hc.views _ hmem key hkey).1

theorem kind_of_front {catalog : Catalog} (hc : s.app.Cataloged catalog) {v : View}
    (hfront : s.front = some v) {key : TableKey} (hkey : key ∈ v.keys.2) : key.kind ∈ catalog := by
  obtain ⟨live, hlive, hhead⟩ := Option.bind_eq_some_iff.1 hfront
  exact kind_of_view hc hlive (List.mem_of_mem_head? hhead) hkey

theorem opening_cataloged {target : Target} {kind : Kind} (h : kind ∈ s.opening env target) :
    kind ∈ env.catalog := by
  unfold opening at h
  split at h
  case isFalse => cases h
  case isTrue hopens =>
    cases target with
    | kind k =>
        obtain ⟨-, -, hk, -⟩ := opens_kind hopens
        rw [List.mem_singleton.1 h]
        exact hk
    | page panes =>
        obtain ⟨d, hd, rfl⟩ := List.mem_map.1 h
        exact (opens_page hopens).2 d (List.mem_of_mem_filter hd)

/-- The kind under the cursor is one of the catalog. -/
theorem cursor_cataloged {catalog : Catalog} (hc : s.app.Cataloged catalog) {c : Live.Cursor}
    (hcursor : s.app.cursor = some c) : c.key.kind ∈ catalog := by
  obtain ⟨live, hlive, hcursor⟩ := Option.bind_eq_some_iff.1 hcursor
  unfold Live.cursor at hcursor
  split at hcursor
  · cases hcursor
  case h_2 view hview =>
    cases hcursor
    exact kind_of_view hc hlive (List.mem_of_mem_head? hview) (List.mem_singleton_self _)
  case h_3 page hpage =>
    obtain ⟨pane, hpane, rfl⟩ := Option.map_eq_some_iff.1 hcursor
    exact kind_of_view hc hlive (List.mem_of_mem_head? hpage)
      (List.mem_map.2 ⟨pane, List.mem_of_getElem? hpane, rfl⟩)

/-- What a step lists is of the catalog. -/
theorem listed_cataloged (hc : s.app.Cataloged env.catalog) (h : s.step env evidence e = some t)
    {kind : Kind} (hkind : kind ∈ s.listed env e) : kind ∈ env.catalog := by
  unfold listed at hkind
  split at hkind
  · -- the focused pane
    unfold focused at hkind
    split at hkind
    case h_1 page hfront =>
      obtain ⟨pane, hpane, rfl⟩ := List.mem_map.1 hkind
      have hpane := Option.mem_toList.1 (List.mem_of_mem_filter hpane)
      exact kind_of_front hc hfront (List.mem_map.2 ⟨pane, List.mem_of_getElem? hpane, rfl⟩)
    case h_2 => cases hkind
  · -- the panes of the page beneath
    unfold uncovered at hkind
    split at hkind
    case h_1 v page rest hstack =>
      obtain ⟨pane, hpane, rfl⟩ := List.mem_map.1 hkind
      obtain ⟨live, hlive, hstack⟩ := Option.map_eq_some_iff.1 hstack
      refine kind_of_view hc hlive (v := .page page) (by rw [hstack]; simp) ?_
      exact List.mem_map.2 ⟨pane, List.mem_of_mem_filter hpane, rfl⟩
    case h_2 => cases hkind
  case h_3 child =>
    -- a child is chosen only where the picker offers it
    have hchild : kind = child := by
      unfold Screen.child at hkind
      split at hkind
      · split at hkind
        · exact List.mem_singleton.1 hkind
        · cases hkind
      · cases hkind
    simp only [step] at h
    split at h
    case isFalse => cases h
    case isTrue =>
      obtain ⟨s', hwithin, -⟩ := Option.map_eq_some_iff.1 h
      obtain ⟨sys, hsys, -⟩ := Option.map_eq_some_iff.1 hwithin
      simp only [System.step, Option.ite_none_right_eq_some] at hsys
      obtain ⟨-, picker, hp, x, hx, hoffered⟩ := App.picker_of_offersChild hsys.1
      rw [hchild, ← hoffered]
      exact hc.picker picker hp x hx
  · split at hkind
    · exact opening_cataloged hkind
    · cases hkind
  · exact opening_cataloged hkind
  · exact opening_cataloged hkind
  case h_7 session was home =>
    dsimp only at hkind
    split at hkind
    case isTrue hopens =>
      refine @opening_cataloged _ (s.mapApp fun app => app.attach session) was _ ?_
      rw [opening, if_pos hopens]
      exact hkind
    case isFalse => exact opening_cataloged hkind
  · unfold merged at hkind
    split at hkind
    case h_1 view hfront =>
      split at hkind
      · rw [List.mem_singleton.1 hkind]
        exact kind_of_front hc hfront (List.mem_singleton_self _)
      · cases hkind
    case h_2 => cases hkind
  case h_9 heights =>
    unfold grown at hkind
    split at hkind
    case h_1 page hhead =>
      obtain ⟨pane, hpane, rfl⟩ := List.mem_map.1 hkind
      obtain ⟨live, hlive, hhead⟩ := Option.bind_eq_some_iff.1 hhead
      have hmem : (View.page page).keys ∈ s.app.keys := by
        rw [App.keys_of_live hlive, ← Live.keys_drawn heights live]
        exact List.mem_map.2 ⟨_, List.mem_of_mem_head? hhead, rfl⟩
      exact (hc.views _ hmem pane.key (List.mem_map.2 ⟨pane, List.mem_of_mem_filter hpane, rfl⟩)).1
    case h_2 => cases hkind
  · cases hkind

/-! ### What a step does to the rhythms -/

/-- A poll that is a list of the catalog, at its schedule or still to be retimed with one of some kinds. -/
def Due (catalog : Catalog) (s : Screen) (ks : List Kind) (_ : Option String) (k : Subscription) : Prop :=
  isList k = true → k.pausable = true ∧ k.key.kind ∈ catalog ∧
    (k.interval = ((s.refreshOf k.key.kind).1).getD 0 ∨ k.key.kind ∈ ks)

theorem eq_of_id {catalog : Catalog} (hids : (catalog.map Kind.id).Nodup) {k k' : Kind}
    (hk : k ∈ catalog) (hk' : k' ∈ catalog) (hid : k.id = k'.id) : k = k' :=
  List.inj_on_of_nodup_map hids hk hk' hid

/-- Retiming the kinds that are due leaves nothing due. -/
theorem due_retiming {catalog : Catalog} (hids : (catalog.map Kind.id).Nodup) (s : Screen) {ks : List Kind}
    (hks : ∀ kind ∈ ks, kind ∈ catalog) {l : Roster (Option String) Subscription Owner}
    (h : l.Every (Due catalog s ks)) :
    ((s.retiming ks).foldl (Roster.move rules) l).Every (Due catalog s []) := by
  induction ks generalizing l with
  | nil => exact h
  | cons kind ks ih =>
      refine ih (fun k hk => hks k (List.mem_cons_of_mem _ hk)) ?_
      rintro c id k ⟨k', hk', hretimed : k = retimed _ _ k'⟩ hlist
      have hkind := hks kind List.mem_cons_self
      unfold retimed at hretimed
      split at hretimed
      case isTrue hsame =>
        subst hretimed
        obtain ⟨hpausable, hcatalog, -⟩ := h c id k' hk' hlist
        obtain rfl : k'.key.kind = kind := eq_of_id hids hcatalog hkind hsame.1
        exact ⟨hpausable, hcatalog, Or.inl rfl⟩
      case isFalse hother =>
        subst hretimed
        obtain ⟨hpausable, hcatalog, hdue⟩ := h c id k hk' hlist
        refine ⟨hpausable, hcatalog, hdue.imp_right fun hmem => ?_⟩
        rcases List.mem_cons.1 hmem with heq | hmem
        · exact absurd ⟨by rw [heq], hpausable⟩ hother
        · exact hmem

theorem refreshOf_congr (hcfg : t.refreshCfg = s.refreshCfg)
    (hsession : t.refreshSession = s.refreshSession) (kind : Kind) : t.refreshOf kind = s.refreshOf kind := by
  rw [refreshOf, refreshOf, hcfg, hsession]

/-- What is polled is at the schedule of its kind, and the pane is over a kind of the catalog. -/
structure Timed (env : Env) (s : Screen) : Prop where
  fitting : Roster.Fitting rules s.roster
  cataloged : s.app.Cataloged env.catalog
  ways : s.face.Ways
  paneKind : ∀ d, s.app.detail = some d → ∀ key, d.key = some key → key.kind ∈ env.catalog
  due : s.roster.Every (Due env.catalog s [])

theorem Timed.currentKind (hs : Timed env s) {kind : Kind} (h : s.currentKind = some kind) :
    kind ∈ env.catalog := by
  unfold Screen.currentKind at h
  rcases Option.or_eq_some_iff.1 h with hpane | ⟨-, hcursor⟩
  · obtain ⟨key, hkey, rfl⟩ := Option.map_eq_some_iff.1 hpane
    obtain ⟨d, hd, hkey⟩ := Option.bind_eq_some_iff.1 hkey
    exact hs.paneKind d hd key hkey
  · obtain ⟨c, hc, rfl⟩ := Option.map_eq_some_iff.1 hcursor
    exact cursor_cataloged hs.cataloged hc

theorem prelude_of_reschedules {a : Screen} {ks : List Kind} (h : s.reschedules env e = some (a, ks)) :
    s.prelude env e = a.retiming ks := by
  cases e <;> first | cases h | simp only [prelude, h]

theorem listed_of_reschedules {a : Screen} {ks : List Kind} (h : s.reschedules env e = some (a, ks)) :
    s.listed env e = [] := by
  cases e with
  | choose c =>
      cases c with
      | refresh value => rfl
      | _ => cases h
  | stepRefresh | setting key | chooseRung v file => rfl
  | _ => cases h

/-- A step that leaves the schedules retimes at most the row of the pane. -/
theorem prelude_of_not_reschedules (h : s.reschedules env e = none)
    {m : Roster.Move (Option String) Subscription Owner} (hm : m ∈ s.prelude env e) :
    (∃ o, m = .abandon o) ∨ (∃ name, m ∈ App.joining name) ∨
      ∃ sub interval, s.paneSub = some sub ∧ s.prelude env e =
        [.revise fun id k => if id = sub then { k with interval } else k] := by
  rcases prelude_cases hm with ⟨-, o, rfl⟩ | ⟨session, -, hm⟩ | ⟨f, hf⟩
  · exact Or.inl ⟨o, rfl⟩
  · exact Or.inr (Or.inl ⟨_, hm⟩)
  · cases e with
    | toggleWatch every =>
        rcases @toggleWatch_cases env s every with ⟨-, hmoves⟩ | ⟨d, sub, interval, hd, hsub, -, hmoves⟩
        · rw [hmoves] at hm
          cases hm
        · exact Or.inr (Or.inr ⟨sub, interval, by rw [paneSub, hd]; exact hsub, hmoves⟩)
    | openDetail served =>
        dsimp only [prelude] at hm
        split at hm
        · exact Or.inl ⟨_, List.mem_singleton.1 hm⟩
        · cases hm
    | openPicker served =>
        dsimp only [prelude] at hm
        split at hm
        · exact Or.inl ⟨_, List.mem_singleton.1 hm⟩
        · cases hm
    | acted i outcome =>
        dsimp only [prelude] at hm
        split at hm
        · unfold App.watching at hm
          split at hm
          · split at hm
            · exact Or.inl ⟨_, List.mem_singleton.1 hm⟩
            · cases hm
          · cases hm
        · cases hm
    | joined session =>
        dsimp only [prelude] at hm
        split at hm
        · exact Or.inr (Or.inl ⟨_, hm⟩)
        · cases hm
    | _ =>
        simp only [prelude, h] at hm
        cases hm

theorem fits_prelude {m : Roster.Move (Option String) Subscription Owner} (hm : m ∈ s.prelude env e) :
    Roster.Fits rules m := by
  rcases prelude_cases hm with ⟨-, o, rfl⟩ | ⟨session, -, hm⟩ | ⟨f, rfl⟩
  · exact trivial
  · rcases List.mem_pair.1 hm with rfl | rfl <;> exact trivial
  · exact fun _ _ _ _ hfits => hfits

/-- A step that leaves the schedules retimes no list before it starts and ends anything. -/
theorem due_prelude (hs : Timed env s) (h : s.reschedules env e = none) :
    ((s.prelude env e).foldl (Roster.move rules) s.roster).Every (Due env.catalog s []) := by
  by_cases hwatch : ∃ sub interval, s.paneSub = some sub ∧ s.prelude env e =
      [.revise fun id k => if id = sub then { k with interval } else k]
  · obtain ⟨sub, interval, hsub, hmoves⟩ := hwatch
    rw [hmoves]
    rintro c id k ⟨k', hk', hretimed : k = if id = sub then { k' with interval } else k'⟩ hlist
    split at hretimed
    case isTrue heq =>
      -- the pane holds no list
      subst heq hretimed
      have hsingle : k'.single.isSome = true :=
        hs.fitting.fit .detail c id k' ((held_detail s id).2 hsub) hk'
      simp only [isList, Bool.and_eq_true, Option.isNone_iff_eq_none] at hlist
      rw [hlist.1] at hsingle
      cases hsingle
    case isFalse =>
      subst hretimed
      exact hs.due c id k hk' hlist
  · refine hs.due.foldl fun m hm => ?_
    rcases prelude_of_not_reschedules h hm with ⟨o, rfl⟩ | ⟨name, hm⟩ | hrevise
    · exact trivial
    · rcases List.mem_pair.1 hm with rfl | rfl <;> exact trivial
    · exact absurd hrevise hwatch

/-- The kinds that a level written is not about are as the file read back says. -/
theorem refreshOf_save {level : Schedule} {kind : Kind} (hlevel : level.touches kind = false) (s : Screen)
    (v : Interval) (file : Option Refresh) :
    (s.save level v file).refreshOf kind =
      effective kind (file.getD s.refreshCfg) (s.refreshSession.get? kind.id) := by
  have hsession : (s.save level v file).refreshSession.get? kind.id = s.refreshSession.get? kind.id := by
    cases level with
    | kind id =>
        have hne : kind.id ≠ id := by simpa [Schedule.touches] using hlevel
        have herase : (s.save (.kind id) v file).refreshSession = s.refreshSession.erase id := by
          cases file <;> rfl
        rw [herase, IndexMap.get?_erase, if_neg hne]
    | _ => cases file <;> rfl
  rw [refreshOf, hsession]
  cases file with
  | none => cases level <;> rfl
  | some cfg =>
      have hcfg : (s.save level v (some cfg)).refreshCfg = cfg.set v level := by
        cases level <;> rfl
      rw [hcfg]
      exact effective_of_not_touches hlevel cfg v _

/-- A level written leaves the lists of the kinds it is not about at their schedule, or the step
drifts. -/
theorem due_save (hs : Timed env s) {level : Schedule} (v : Interval) {file : Option Refresh}
    {ks : List Kind} (hrewrites : ∀ cfg, file = some cfg → s.rewrites e = some (level, cfg))
    (hguard : s.rereads e = false) (hks : ∀ kind ∈ env.catalog, kind ∉ ks → level.touches kind = false) :
    s.roster.Every (Due env.catalog (s.save level v file) ks) := by
  intro c id k hk hlist
  obtain ⟨hpausable, hcatalog, hdue⟩ := hs.due c id k hk hlist
  have hinterval := hdue.resolve_right (List.not_mem_nil)
  refine ⟨hpausable, hcatalog, ?_⟩
  by_cases hmem : k.key.kind ∈ ks
  · exact Or.inr hmem
  · have hlevel := hks k.key.kind hcatalog hmem
    refine Or.inl ?_
    rw [refreshOf_save hlevel, hinterval]
    cases hfile : file with
    | none => rfl
    | some cfg =>
        obtain ⟨live, hlive, hpoll⟩ := (running_roster s).1 hk
        simp only [rereads, hrewrites cfg hfile, hlive, List.any_eq_false] at hguard
        have h := hguard _ hpoll
        simp only [hlist, hlevel, Bool.not_false, Bool.and_self, Bool.true_and, bne_iff_ne, ne_eq,
          not_not] at h
        exact h.symm

/-- What is written moves only what is retimed next, or the step drifts. -/
theorem due_of_reschedules (hids : (env.catalog.map Kind.id).Nodup) (hs : Timed env s) {a : Screen}
    {ks : List Kind} (h : s.reschedules env e = some (a, ks)) (hguard : s.rereads e = false) :
    (∀ kind ∈ ks, kind ∈ env.catalog) ∧ s.roster.Every (Due env.catalog a ks) := by
  have hfilter : ∀ level : Schedule, ∀ kind ∈ env.catalog,
      kind ∉ env.catalog.filter (fun k => level.touches k) → level.touches kind = false := by
    intro level kind hkind hmem
    simpa [hkind] using hmem
  cases e with
  | stepRefresh =>
      obtain ⟨kind, hkind, hr⟩ := Option.map_eq_some_iff.1 h
      cases hr
      have hcatalog := hs.currentKind hkind
      refine ⟨fun k hk => List.mem_singleton.1 hk ▸ hcatalog, fun c id k hk hlist => ?_⟩
      obtain ⟨hpausable, hk, hdue⟩ := hs.due c id k hk hlist
      refine ⟨hpausable, hk, ?_⟩
      by_cases heq : k.key.kind = kind
      · exact Or.inr (List.mem_singleton.2 heq)
      · -- what this run overrides is the schedule of that kind only
        have hid : k.key.kind.id ≠ kind.id := fun hid => heq (eq_of_id hids hk hcatalog hid)
        refine Or.inl ((hdue.resolve_right List.not_mem_nil).trans ?_)
        simp only [refreshOf, IndexMap.get?_insert, if_neg hid]
  | choose c =>
      cases c with
      | refresh value =>
          obtain _ | ⟨v, file⟩ := value
          · cases h
          · simp only [reschedules] at h
            split at h
            case isFalse => cases h
            case isTrue hup =>
              obtain ⟨kind, hkind, hr⟩ := Option.map_eq_some_iff.1 h
              cases hr
              have hcatalog := hs.currentKind hkind
              refine ⟨fun k hk => List.mem_singleton.1 hk ▸ hcatalog, due_save hs v ?_ hguard ?_⟩
              · rintro cfg rfl
                simp only [rewrites, hup, if_true, hkind, Option.map_some]
              · intro k hk hmem
                have hid : k.id ≠ kind.id := fun hid =>
                  hmem (List.mem_singleton.2 (eq_of_id hids hk hcatalog hid))
                simpa [Schedule.touches] using hid
      | _ => cases h
  | setting key =>
      cases key with
      | cycle level file =>
          simp only [reschedules] at h
          split at h
          case isFalse => cases h
          case isTrue hup =>
            cases h
            refine ⟨fun k hk => List.mem_of_mem_filter hk, due_save hs _ ?_ hguard (hfilter level)⟩
            rintro cfg rfl
            simp only [rewrites, hup, if_true]
      | _ => cases h
  | chooseRung v file =>
      obtain ⟨level, hlevel, hr⟩ := Option.map_eq_some_iff.1 h
      cases hr
      refine ⟨fun k hk => List.mem_of_mem_filter hk, due_save hs _ ?_ hguard (hfilter level)⟩
      rintro cfg rfl
      simp only [rewrites, hlevel, Option.map_some]
  | _ => cases h

theorem over_step (hs : Timed env s) (h : s.step env evidence e = some t) {d : Detail}
    (hd : t.app.detail = some d) {key : TableKey} (hkey : d.key = some key) : key.kind ∈ env.catalog := by
  rcases turns_step hs.ways h with hturns | ⟨-, -, -, hface⟩ | ⟨-, m, -, hface⟩
  · rcases Face.over_of_turns hturns hd hkey with hkind | ⟨d', hd', hkey'⟩
    · unfold App.underCursor at hkind
      obtain ⟨c, hc, heq⟩ := Option.map_eq_some_iff.1 (Option.mem_toList.1 hkind)
      exact heq ▸ cursor_cataloged hs.cataloged hc
    · exact hs.paneKind d' hd' key hkey'
  · exact hs.paneKind d ((congrArg Face.detail hface).symm.trans hd) key hkey
  · exact hs.paneKind d ((congrArg Face.detail hface).symm.trans hd) key hkey

/-- **A step that does not drift keeps every list at its schedule.** -/
theorem timed_step (hids : (env.catalog.map Kind.id).Nodup) (hs : Timed env s)
    (hguard : s.drifts env e = false) (h : s.step env evidence e = some t) : Timed env t := by
  have hdoes := does_step h
  have hreach := hdoes.reach hs.cataloged
  obtain ⟨hstarts, hreads⟩ := Bool.or_eq_false_iff.1 hguard
  refine ⟨(hs.fitting.foldl fun m => fits_prelude).reaches hreach, hdoes.cataloged hs.cataloged,
    ways_step hs.ways h, fun d hd key hkey => over_step hs h hd hkey, ?_⟩
  cases hschedules : s.reschedules env e with
  | none =>
      have hsame : ∀ kind, t.refreshOf kind = s.refreshOf kind := by
        refine refreshOf_congr ?_ ?_
        · rw [hdoes.cfg, hschedules]
          rfl
        · rw [hdoes.session, hschedules]
          rfl
      have hdue : Due env.catalog t [] = Due env.catalog s [] := by
        funext c k
        simp only [Due, hsame]
      rw [hdue]
      refine (due_prelude hs hschedules).reaches (hreach.imp fun c k hstarted hlist => ?_)
      obtain ⟨hsingle, honce⟩ := Bool.and_eq_true_iff.1 hlist
      obtain ⟨hpausable, hinterval, hkind⟩ :=
        hstarted.2 (Option.isNone_iff_eq_none.1 hsingle) (by simpa using honce)
      have hrhythm : (s.refreshOf k.key.kind).1 = some k.key.kind.rhythm := by
        simpa using List.any_eq_false.1 hstarts k.key.kind hkind
      exact ⟨hpausable, listed_cataloged hs.cataloged h hkind, Or.inl (by rw [hrhythm, hinterval]; rfl)⟩
  | some r =>
      obtain ⟨a, ks⟩ := r
      have hsame : ∀ kind, t.refreshOf kind = a.refreshOf kind := by
        refine refreshOf_congr ?_ ?_
        · rw [hdoes.cfg, hschedules]
          rfl
        · rw [hdoes.session, hschedules]
          rfl
      have hdue : Due env.catalog t [] = Due env.catalog a [] := by
        funext c k
        simp only [Due, hsame]
      obtain ⟨hks, hbefore⟩ := due_of_reschedules hids hs hschedules hreads
      rw [prelude_of_reschedules hschedules, listed_of_reschedules hschedules] at hreach
      rw [hdue]
      refine (due_retiming hids a hks hbefore).reaches (hreach.imp fun c k hstarted hlist => ?_)
      obtain ⟨hsingle, honce⟩ := Bool.and_eq_true_iff.1 hlist
      obtain ⟨-, -, hkind⟩ := hstarted.2 (Option.isNone_iff_eq_none.1 hsingle) (by simpa using honce)
      cases hkind

theorem timed_init (guardrails : Guardrails) (refreshCfg : Refresh) :
    Timed env (init guardrails refreshCfg) where
  fitting := (@tended_init env guardrails refreshCfg).sound.toFitting
  cataloged := .of_bare rfl rfl
  ways := (ordered_init guardrails refreshCfg).ways
  paneKind _ h := by cases h
  due := fun _ _ _ h => h.elim

/-- **Every list polls at the schedule of its kind** at the end of every run that starts no list of a
kind whose schedule is not the rhythm of the catalog, and reads no other schedule of a list back from the
file. -/
theorem scheduled_exec (hids : (env.catalog.map Kind.id).Nodup) {guardrails : Guardrails}
    {refreshCfg : Refresh} {es : List Event}
    (hguard : Run.Along (step env evidence) (fun s e => s.drifts env e = false)
      (init guardrails refreshCfg) es)
    (hrun : Run.exec (step env evidence) (init guardrails refreshCfg) es = some t) : t.Scheduled := by
  have htimed : Timed env t := Run.exec_inv_along (I := Timed env) (fun _ _ _ => timed_step hids)
    (timed_init guardrails refreshCfg) hguard hrun
  intro live hlive c id k hk hlist
  obtain ⟨-, -, hdue⟩ := htimed.due c id k ((running_roster t).2 ⟨live, hlive, hk⟩) hlist
  exact hdue.resolve_right List.not_mem_nil

/-- A table slowed down twice by the key. -/
def slowedRun : List Event :=
  connecting labSession (.kind actedVmKind) ++ [.joined prodSession, .stepRefresh, .stepRefresh]

theorem scheduled_exec_slowed :
    ∃ t ∈ Run.exec (step vmEnv taskEvidence) (init {} {}) slowedRun, (∃ live ∈ t.app.live,
      (live.polls.map fun p => p.2.2.interval) = [300, 300]) ∧ t.Scheduled := by
  have hrun : ∃ t ∈ Run.exec (step vmEnv taskEvidence) (init {} {}) slowedRun, ∃ live ∈ t.app.live,
      (live.polls.map fun p => p.2.2.interval) = [300, 300] := by decide +kernel
  obtain ⟨t, ht, hpolls⟩ := hrun
  exact ⟨t, ht, hpolls, scheduled_exec (by decide +kernel) (by decide +kernel) ht⟩

/-- A table opened where the file says that nothing polls. -/
theorem not_scheduled : ¬ ∀ (env : Env) (evidence : Evidence) (guardrails : Guardrails)
    (refreshCfg : Refresh) (es : List Event) (t : Screen), (env.catalog.map Kind.id).Nodup →
    Run.exec (step env evidence) (init guardrails refreshCfg) es = some t → t.Scheduled := by
  intro h
  have hrun : ∃ t ∈ Run.exec (step vmEnv taskEvidence) (init {} { default := some .off })
      (connecting labSession (.kind actedVmKind)), ∃ live ∈ t.app.live, ∃ p ∈ live.polls,
        isList p.2.2 = true ∧ p.2.2.interval ≠ ((t.refreshOf p.2.2.key.kind).1).getD 0 := by decide +kernel
  obtain ⟨t, ht, live, hlive, ⟨c, id, k⟩, hp, hlist, hinterval⟩ := hrun
  exact hinterval (h vmEnv taskEvidence {} _ _ t (by decide +kernel) ht live hlive c id k hp hlist)

end Screen

end Nutsh
