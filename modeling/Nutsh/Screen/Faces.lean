/-
What is open on the screen, and the turns it takes.

Beside the polls a step moves what is open: the mode, the pane, the boxes, and what the screen was when
one of them opened.  A step is one of a few turns, or two of them where a line of the palette opens
something; only a form that is cancelled and a connect that fails are apart.

* `Face`, `Screen.face` — what is open;
* `Face.Turn` — the turns;
* `Screen.turns_step` — a step of the screen in turns.
-/
import Mathlib.Logic.Relation
import Nutsh.Screen.Steps

set_option relaxedAutoImplicit false
set_option autoImplicit false

namespace Nutsh

/-- What is open, and what it opened over. -/
@[ext] structure Face where
  mode : Screen.Mode
  detail : Option Detail
  menu : Bool
  picker : Bool
  form : Bool
  confirm : Bool
  pending : Bool
  up : Box → Bool
  cameFrom : Box → Screen.Mode
  ladder : Bool
  beneath : Option Box → Screen.Shape

def Screen.face (s : Screen) : Face where
  mode := s.mode
  detail := s.app.detail
  menu := s.app.menu.isSome
  picker := s.app.picker.isSome
  form := s.app.form.isSome
  confirm := s.app.confirm.isSome
  pending := s.app.pending.isSome
  up := s.up
  cameFrom := s.cameFrom
  ladder := s.ladder.isSome
  beneath := s.beneath

/-- A box that is closed for the mode it was opened over. -/
def Box.modal : Box → Bool
  | .contexts => false
  | .form => false
  | .ladder => false
  | _ => true

/-- The modes a box can be opened over. -/
def Box.overs : Box → List Screen.Mode
  | .help => [.table, .box .contexts, .detail]
  | .skins => [.table, .box .contexts, .box .settings]
  | _ => [.table, .box .contexts]

namespace Face

variable (f : Face)

def shape : Screen.Shape :=
  { mode := f.mode, detail := f.detail, menu := f.menu, picker := f.picker, form := f.form,
    confirm := f.confirm, pending := f.pending, palette := f.up .command }

/-- The body the pipeline runs over. -/
def acting : Screen.Mode := if f.detail.isSome then .detail else .table

def remember (b : Option Box) (what : Screen.Shape) : Face :=
  { f with beneath := Function.update f.beneath b what }

def put (b : Box) (up : Bool) : Face := { f with up := Function.update f.up b up }

def enter (b : Box) : Face :=
  { f with
    mode := .box b, up := Function.update f.up b true,
    cameFrom := Function.update f.cameFrom b f.mode,
    beneath := Function.update f.beneath (some b) f.shape }

/-- Every modal closed, over a mode. -/
def root (m : Screen.Mode) : Face :=
  { f with
    mode := m, detail := none, menu := false, picker := false, form := false, confirm := false,
    pending := false,
    up := fun b =>
      f.up b && b != .command && b != .skins && b != .settings && b != .journal && b != .search }

/-- The pending action dropped. -/
def dropped : Face := { f with mode := f.acting, menu := false, confirm := false, pending := false }

/-- The form cancelled. -/
def closeForm : Face := { f with mode := .table, menu := false, form := false, pending := false }

/-- One turn of the screen, a pane opened over a row of one of some kinds. -/
inductive Turn (kinds : List Kind) (f : Face) : Face → Prop
  | same : Turn kinds f f
  | watch {d d' : Detail} : f.detail = some d → d'.key = d.key → d'.sub = d.sub → f.mode = .detail →
      Turn kinds f { f with detail := some d' }
  | pane (d : Detail) : f.mode = .table → (∀ key, d.key = some key → key.kind ∈ kinds) →
      Turn kinds f { f with mode := .detail, detail := some d }
  | closePane : f.mode = .detail → Turn kinds f { f with mode := .table, detail := none }
  | offer : f.mode = .table →
      Turn kinds f ({ f with mode := .picker, picker := true }.remember none f.shape)
  | leaveOffer : f.mode = .picker → Turn kinds f { f with mode := .table, picker := false }
  | menu : f.mode = .table ∨ f.mode = .detail →
      Turn kinds f ({ f with mode := .menu, menu := true }.remember none f.shape)
  | leaveMenu : f.mode = .menu → Turn kinds f { f with mode := f.acting, menu := false }
  /-- An action asks for a body or to be confirmed: from the menu, from the picker, or from the table. -/
  | ask : f.mode = .menu → Turn kinds f { f with mode := .fields, form := true, pending := true }
  | askOffered : f.mode = .picker →
      Turn kinds f { f with mode := .fields, picker := false, form := true, pending := true }
  | askAtOnce : f.mode = .table →
      Turn kinds f ({ f with mode := .fields, form := true, pending := true }.remember none f.shape)
  | confirm : f.mode = .menu → Turn kinds f { f with mode := .confirm, confirm := true, pending := true }
  | confirmOffered : f.mode = .picker →
      Turn kinds f { f with mode := .confirm, picker := false, confirm := true, pending := true }
  | confirmAtOnce : f.mode = .table →
      Turn kinds f ({ f with mode := .confirm, confirm := true, pending := true }.remember none f.shape)
  | confirmForm : f.mode = .fields →
      Turn kinds f { f with mode := .confirm, form := false, confirm := true, pending := true }
  | drop : f.mode = .menu ∨ f.mode = .confirm ∨ f.mode = .table → Turn kinds f f.dropped
  | dropForm : f.mode = .fields → Turn kinds f { f.dropped with form := false }
  | root {m : Screen.Mode} : m = .table ∨ m = .box .contexts → Turn kinds f (f.root m)
  /-- The document an action answers with. -/
  | document : Turn kinds f { f.root .detail with detail := some {} }
  | enter {b : Box} : f.mode ∈ b.overs → b.modal = true → Turn kinds f (f.enter b)
  | dismiss {b : Box} : f.mode = .box b → b.modal = true → b ≠ .help →
      Turn kinds f { f.put b false with mode := f.cameFrom b }
  | leaveHelp : f.mode = .box .help → Turn kinds f { f with mode := f.cameFrom .help }
  | goTo {m : Screen.Mode} : f.mode = .table ∨ f.mode = .box .contexts ∨ f.mode = .box .form →
      m = .table ∨ m = .box .contexts ∨ m = .box .form → Turn kinds f { f with mode := m }
  | ladder : f.mode = .box .settings → f.up .settings = true →
      Turn kinds f ({ f with mode := .box .ladder, ladder := true }.remember (some .ladder) f.shape)
  | leaveLadder : f.mode = .box .ladder → Turn kinds f { f with mode := .box .settings, ladder := false }
  | reopen : f.mode = .box .settings → Turn kinds f (f.put .settings true)

end Face

namespace Screen

variable {env : Env} {evidence : Evidence} {s t : Screen} {e : Event} {kinds : List Kind}

/-- Some turns, one after the other. -/
abbrev Turns (kinds : List Kind) (s t : Screen) : Prop :=
  Relation.ReflTransGen (Face.Turn kinds) s.face t.face

theorem Turns.of_eq (h : t.face = s.face) : Turns kinds s t := by
  rw [Turns, h]

theorem Turns.of_turn (h : s.face.Turn kinds t.face) : Turns kinds s t := .single h

/-- A face read off the boxes of the application. -/
def faceOf (s : Screen) (b : Boxes) : Face where
  mode := Mode.ofInner s.box b.mode
  detail := b.detail
  menu := b.menu.isSome
  picker := b.picker.isSome
  form := b.form.isSome
  confirm := b.confirm.isSome
  pending := b.pending.isSome
  up := s.up
  cameFrom := s.cameFrom
  ladder := s.ladder.isSome
  beneath := s.beneath

theorem face_eq_faceOf (s : Screen) : s.face = s.faceOf s.app.boxes := rfl

theorem face_sys {sys : System} {b : Boxes} (h : sys.app.boxes = b) :
    ({ s with sys } : Screen).face = s.faceOf b := by
  rw [← h]
  rfl

theorem face_of_boxes {sys : System} (h : sys.app.boxes = s.app.boxes) :
    ({ s with sys } : Screen).face = s.face := face_sys h

theorem mode_of_app {m : Nutsh.Mode} (h : s.app.mode = m) : s.mode = Mode.ofInner s.box m := by
  rw [mode, h]

/-- The mode an action is asked for in, as the face tells it. -/
theorem ofInner_actingFrom (s : Screen) : Mode.ofInner s.box s.sys.app.actingFrom = s.face.acting := by
  unfold App.actingFrom Face.acting
  show Mode.ofInner s.box (if s.sys.app.detail.isSome then _ else _) =
    if s.sys.app.detail.isSome then _ else _
  split <;> rfl

/-! ### The moves of the screen -/

theorem face_show (s : Screen) (m : Screen.Mode) : (s.show m).face = { s.face with mode := m } := by
  have h := mode_show s m
  ext1
  · exact h
  all_goals cases m <;> rfl

theorem face_enter (s : Screen) (b : Box) : (s.enter b).face = s.face.enter b := by
  unfold enter
  rw [face_show]
  rfl

theorem face_dismiss (s : Screen) {b : Box} (h : s.up b = true) :
    (s.dismiss b).face = { s.face.put b false with mode := s.cameFrom b } := by
  rw [dismiss, if_pos h, face_show]
  rfl

theorem face_reopenSettings (s : Screen) :
    s.reopenSettings.face = { s.face.put .settings true with mode := .box .settings } := by
  rw [reopenSettings, face_show]
  rfl

theorem face_mapApp {f : App → App} (h : (f s.app).boxes = s.app.boxes) : (s.mapApp f).face = s.face :=
  face_of_boxes h

theorem face_over_of_inner {sys : System} {b : Boxes} (hs : s.mode = .table ∨ s.mode = .detail)
    (h : sys.app.boxes = b) (hb : b.mode ∈ [Nutsh.Mode.picker, .menu, .fields, .confirm]) :
    (s.overBody { s with sys }).face = (s.faceOf b).remember none s.shape := by
  subst h
  rw [overBody, if_pos ⟨hs, hb⟩]
  rfl

theorem face_over_of_mode {sys : System} {b : Boxes} (hs : ¬ (s.mode = .table ∨ s.mode = .detail))
    (h : sys.app.boxes = b) : (s.overBody { s with sys }).face = s.faceOf b := by
  rw [overBody, if_neg fun h => hs h.1]
  exact face_sys h

theorem face_over_of_not_inner {sys : System} {b : Boxes} (h : sys.app.boxes = b)
    (hb : b.mode ∉ [Nutsh.Mode.picker, .menu, .fields, .confirm]) :
    (s.overBody { s with sys }).face = s.faceOf b := by
  subst h
  rw [overBody, if_neg fun h => hb h.2]
  rfl

/-! ### The pipeline -/

theorem turns_openMenu (h : (s.within env .openMenu).map s.overBody = some t) : Turns kinds s t := by
  obtain ⟨s', hwithin, rfl⟩ := Option.map_eq_some_iff.1 h
  obtain ⟨sys, hsys, rfl⟩ := Option.map_eq_some_iff.1 hwithin
  simp only [System.step] at hsys
  split at hsys
  case isFalse => cases hsys
  case isTrue hmode =>
    cases hsys
    rcases App.boxes_openMenu env s.app with hb | ⟨menu, hb⟩
    · refine .of_eq ((face_over_of_not_inner hb ?_).trans (face_eq_faceOf s).symm)
      have hinner : s.app.boxes.mode = .table ∨ s.app.boxes.mode = .detail := hmode
      rcases hinner with h | h <;> rw [h] <;> decide
    · have hmode' : s.mode = .table ∨ s.mode = .detail := hmode.imp mode_of_app mode_of_app
      refine .of_turn ?_
      rw [face_over_of_inner hmode' hb (by simp)]
      exact .menu hmode'

/-- An action is offered in a table, in the menu or in the picker. -/
theorem mode_of_offers {app : App} {action : Action} (h : app.offers env action = true) :
    app.mode = .table ∨ app.mode = .menu ∨ app.mode = .picker := by
  unfold App.offers at h
  split at h
  case h_1 hmode => exact Or.inl hmode
  case h_2 hmode => exact Or.inr (Or.inl hmode)
  case h_3 hmode => exact Or.inr (Or.inr hmode)
  case h_4 => cases h

theorem not_inner_dropped (b : Boxes) : b.dropped.mode ∉ [Nutsh.Mode.picker, .menu, .fields, .confirm] := by
  show (if b.detail.isSome then Nutsh.Mode.detail else .table) ∉ _
  split <;> decide

theorem faceOf_dropped (s : Screen) (b : Boxes) : s.faceOf b.dropped = (s.faceOf b).dropped := by
  unfold faceOf Boxes.dropped Face.dropped Face.acting
  cases b.detail <;> rfl

theorem turns_start {action : Action} (h : (s.within env (.start action)).map s.overBody = some t) :
    Turns kinds s t := by
  obtain ⟨s', hwithin, rfl⟩ := Option.map_eq_some_iff.1 h
  obtain ⟨sys, hsys, rfl⟩ := Option.map_eq_some_iff.1 hwithin
  simp only [System.step] at hsys
  split at hsys
  case isFalse => cases hsys
  case isTrue hoffers =>
    rcases mode_of_offers hoffers with htable | hmenu | hpicker
    · -- from the table itself
      rw [if_neg (by rw [htable]; decide), Option.some.injEq] at hsys
      subst hsys
      have hmode : s.mode = .table := mode_of_app htable
      rcases App.boxes_start env s.app action with hb | ⟨p, form, hb⟩ | hb | ⟨p, confirm, hb⟩
      · refine .of_eq ((face_over_of_not_inner hb ?_).trans (face_eq_faceOf s).symm)
        rw [show s.app.boxes.mode = .table from htable]
        decide
      · refine .of_turn ?_
        rw [face_over_of_inner (Or.inl hmode) hb (by simp)]
        exact .askAtOnce hmode
      · refine .of_turn ?_
        rw [face_over_of_not_inner hb (not_inner_dropped _), faceOf_dropped]
        exact .drop (Or.inr (Or.inr hmode))
      · refine .of_turn ?_
        rw [face_over_of_inner (Or.inl hmode) hb (by simp)]
        exact .confirmAtOnce hmode
    · rw [if_neg (by rw [hmenu]; decide), Option.some.injEq] at hsys
      subst hsys
      have hmode : s.mode = .menu := mode_of_app hmenu
      have hover : ¬ (s.mode = .table ∨ s.mode = .detail) := by
        rw [hmode]
        rintro (h | h) <;> cases h
      rcases App.boxes_start env s.app action with hb | ⟨p, form, hb⟩ | hb | ⟨p, confirm, hb⟩
      · exact .of_eq ((face_over_of_mode hover hb).trans (face_eq_faceOf s).symm)
      · refine .of_turn ?_
        rw [face_over_of_mode hover hb]
        exact .ask hmode
      · refine .of_turn ?_
        rw [face_over_of_mode hover hb, faceOf_dropped]
        exact .drop (Or.inl hmode)
      · refine .of_turn ?_
        rw [face_over_of_mode hover hb]
        exact .confirm hmode
    · -- the picker is left first
      rw [if_pos hpicker, Option.some.injEq] at hsys
      subst hsys
      have hmode : s.mode = .picker := mode_of_app hpicker
      have hover : ¬ (s.mode = .table ∨ s.mode = .detail) := by
        rw [hmode]
        rintro (h | h) <;> cases h
      rcases App.boxes_start env { s.app with picker := none, mode := .table } action with
        hb | ⟨p, form, hb⟩ | hb | ⟨p, confirm, hb⟩
      · refine .of_turn ?_
        rw [face_over_of_mode hover hb]
        exact .leaveOffer hmode
      · refine .of_turn ?_
        rw [face_over_of_mode hover hb]
        exact .askOffered hmode
      · refine Relation.ReflTransGen.tail (.single (.leaveOffer hmode)) ?_
        rw [face_over_of_mode hover hb, faceOf_dropped]
        exact .drop (Or.inr (Or.inr rfl))
      · refine .of_turn ?_
        rw [face_over_of_mode hover hb]
        exact .confirmOffered hmode

theorem turns_plain {e : Nutsh.Event} (he : e.plain = true)
    (h : (s.within env e).map s.overBody = some t) : Turns kinds s t := by
  -- what leaves the boxes leaves what is open
  have hsame : ∀ sys, s.within env e = some { s with sys } → sys.app.boxes = s.app.boxes → Turns kinds s t := by
    intro sys hsys hb
    rw [hsys, Option.map_some, Option.some.injEq] at h
    subst h
    by_cases hs : s.mode = .table ∨ s.mode = .detail
    · refine .of_eq ((face_over_of_not_inner hb ?_).trans (face_eq_faceOf s).symm)
      show s.app.mode ∉ _
      unfold mode at hs
      cases hm : s.app.mode <;> simp_all [Mode.ofInner]
    · exact .of_eq ((face_over_of_mode hs hb).trans (face_eq_faceOf s).symm)
  cases e with
  | openMenu => exact turns_openMenu h
  | start action => exact turns_start h
  | background b =>
      cases b with
      | rolesResolved generation index => exact hsame _ rfl rfl
      | rolesRestored index => exact hsame _ rfl rfl
      | restored kind parents filter rows total writtenAt => exact hsame _ rfl rfl
      | restoredNames names => exact hsame _ rfl rfl
      | tick now => exact hsame _ rfl rfl
      | _ => cases he
  | browse b =>
      obtain ⟨s', hwithin, -⟩ := Option.map_eq_some_iff.1 h
      obtain ⟨sys, hsys, rfl⟩ := Option.map_eq_some_iff.1 hwithin
      simp only [System.step] at hsys
      split at hsys
      case isFalse => cases hsys
      case isTrue =>
        cases hsys
        refine hsame _ hwithin (App.boxes_browse env s.app ?_ ?_ ?_ ?_)
        · rintro kind rfl
          cases he
        · rintro panes rfl
          cases he
        · rintro rfl
          cases he
        · rintro rfl
          cases he
  | pickChild child =>
      obtain ⟨s', hwithin, rfl⟩ := Option.map_eq_some_iff.1 h
      obtain ⟨sys, hsys, rfl⟩ := Option.map_eq_some_iff.1 hwithin
      simp only [System.step] at hsys
      split at hsys
      case isFalse => cases hsys
      case isTrue hoffers =>
        cases hsys
        obtain ⟨hpicker, picker, hp, -⟩ := App.picker_of_offersChild hoffers
        have hmode : s.mode = .picker := mode_of_app hpicker
        refine .of_turn ?_
        rw [face_over_of_mode (by rw [hmode]; rintro (h | h) <;> cases h) (App.boxes_pickChild env hp child)]
        exact .leaveOffer hmode
  | type field text =>
      obtain ⟨s', hwithin, rfl⟩ := Option.map_eq_some_iff.1 h
      obtain ⟨sys, hsys, rfl⟩ := Option.map_eq_some_iff.1 hwithin
      simp only [System.step] at hsys
      split at hsys
      case isFalse => cases hsys
      case isTrue hfields =>
        cases hsys
        have hmode : s.mode = .fields := mode_of_app hfields
        refine .of_eq ((face_over_of_mode (by rw [hmode]; rintro (h | h) <;> cases h) rfl).trans ?_)
        rw [face_eq_faceOf, faceOf, faceOf]
        simp only [App.boxes, Option.isSome_map]
        rfl
  | submit =>
      obtain ⟨s', hwithin, rfl⟩ := Option.map_eq_some_iff.1 h
      obtain ⟨sys, hsys, rfl⟩ := Option.map_eq_some_iff.1 hwithin
      simp only [System.step] at hsys
      split at hsys
      case isFalse => cases hsys
      case isTrue hfields =>
        cases hsys
        have hmode : s.mode = .fields := mode_of_app hfields
        have hover : ¬ (s.mode = .table ∨ s.mode = .detail) := by
          rw [hmode]
          rintro (h | h) <;> cases h
        rcases App.boxes_submitForm env s.app with hb | hb | ⟨p, confirm, hb⟩
        · exact .of_eq ((face_over_of_mode hover hb).trans (face_eq_faceOf s).symm)
        · refine .of_turn ?_
          rw [face_over_of_mode hover hb, faceOf_dropped]
          exact .dropForm hmode
        · refine .of_turn ?_
          rw [face_over_of_mode hover hb]
          exact .confirmForm hmode
  | confirmed =>
      obtain ⟨s', hwithin, rfl⟩ := Option.map_eq_some_iff.1 h
      obtain ⟨sys, hsys, rfl⟩ := Option.map_eq_some_iff.1 hwithin
      simp only [System.step] at hsys
      split at hsys
      case isFalse => cases hsys
      case isTrue hconfirm =>
        cases hsys
        have hmode : s.mode = .confirm := mode_of_app hconfirm
        have hover : ¬ (s.mode = .table ∨ s.mode = .detail) := by
          rw [hmode]
          rintro (h | h) <;> cases h
        cases hp : s.app.pending with
        | none =>
            refine .of_eq ((face_over_of_mode (b := s.app.boxes) hover ?_).trans (face_eq_faceOf s).symm)
            show (s.app.runPending env).1.boxes = s.app.boxes
            simp only [App.runPending, hp]
        | some p =>
            refine .of_turn ?_
            rw [face_over_of_mode hover (App.boxes_runPending env hp), faceOf_dropped]
            exact .drop (Or.inr (Or.inl hmode))
  | _ => cases he

/-! ### The pane, and what an outcome shows -/

theorem boxes_askEvidence (s : Screen) (served : Bool) :
    (s.askEvidence evidence served).app.boxes = s.app.boxes ∧
      (s.askEvidence evidence served).face = s.face := by
  unfold askEvidence
  split
  · split
    · exact ⟨rfl, rfl⟩
    · split <;> exact ⟨rfl, rfl⟩
  · exact ⟨rfl, rfl⟩

theorem boxes_opened (s : Screen) (served : Bool) :
    (s.opened evidence served).app.boxes = s.app.boxes ∧ (s.opened evidence served).face = s.face := by
  unfold opened
  split
  · exact boxes_askEvidence s served
  · exact ⟨rfl, rfl⟩

theorem panned_app (sys : System) (app : App) : (sys.panned env app).app = app := by
  unfold System.panned
  split <;> rfl

theorem turns_openDetail {served : Bool} (h : s.step env evidence (.openDetail served) = some t) :
    Turns s.app.underCursor s t := by
  obtain ⟨s', hwithin, rfl⟩ := Option.map_eq_some_iff.1 h
  obtain ⟨sys, hsys, rfl⟩ := Option.map_eq_some_iff.1 hwithin
  simp only [System.step] at hsys
  split at hsys
  case isFalse => cases hsys
  case isTrue htable =>
    have happ : sys.app = s.app.openDetail env := by
      rw [← Option.some.inj hsys]
      exact panned_app s.sys _
    rw [Turns, (boxes_opened _ served).2]
    rcases App.boxes_openDetail env s.app with ⟨-, hb⟩ | ⟨-, d, hkind, hb⟩
    · rw [← happ] at hb
      rw [face_of_boxes hb]
    · rw [← happ] at hb
      refine .single ?_
      rw [face_sys hb]
      exact .pane d (mode_of_app htable) hkind

theorem turns_openPicker {served : Bool} (h : s.step env evidence (.openPicker served) = some t) :
    Turns s.app.underCursor s t := by
  obtain ⟨s', hwithin, rfl⟩ := Option.map_eq_some_iff.1 h
  obtain ⟨sys, hsys, rfl⟩ := Option.map_eq_some_iff.1 hwithin
  simp only [System.step] at hsys
  split at hsys
  case isFalse => cases hsys
  case isTrue htable =>
    have happ : sys.app = s.app.openPicker env := by
      rw [← Option.some.inj hsys]
      exact panned_app _ _
    have hmode : s.mode = .table := mode_of_app htable
    obtain ⟨hboxes, hface⟩ := @boxes_opened evidence ({ s with sys } : Screen) served
    have hopened : (opened evidence served ({ s with sys } : Screen)).app.mode = sys.app.mode :=
      congrArg Boxes.mode hboxes
    rcases App.boxes_openPicker env s.app with hb | ⟨d, hkind, hb⟩ | ⟨picker, -, hb⟩ <;> rw [← happ] at hb
    · have hinner : sys.app.mode = .table := (congrArg Boxes.mode hb).trans htable
      rw [Turns, overBody, if_neg (by rw [hopened, hinner]; simp), hface, face_of_boxes hb]
    · have hinner : sys.app.mode = .detail := congrArg Boxes.mode hb
      rw [Turns, overBody, if_neg (by rw [hopened, hinner]; simp), hface, face_sys hb]
      exact .single (.pane d hmode hkind)
    · have hinner : sys.app.mode = .picker := congrArg Boxes.mode hb
      rw [Turns, overBody, if_pos ⟨Or.inl hmode, by rw [hopened, hinner]; simp⟩]
      refine .single ?_
      show s.face.Turn s.app.underCursor ((opened evidence served ({ s with sys } : Screen)).face.remember none s.shape)
      rw [hface, face_sys hb]
      exact .offer hmode

theorem turns_acted {i : ℕ} {outcome : Outcome} (h : s.step env evidence (.acted i outcome) = some t) :
    Turns kinds s t := by
  obtain ⟨s', hwithin, rfl⟩ := Option.map_eq_some_iff.1 h
  obtain ⟨sys, hsys, rfl⟩ := Option.map_eq_some_iff.1 hwithin
  obtain ⟨f, -, hsys⟩ := Option.map_eq_some_iff.1 hsys
  have happ : sys.app = s.app.acted env f.request.journal f.request.plan.toRef outcome := by
    rw [← hsys]
    rfl
  have hboxes := App.boxes_acted env s.app f.request.journal f.request.plan.toRef outcome
  rw [← happ] at hboxes
  clear hsys hwithin h
  cases outcome with
  | returned value =>
      cases hlive : s.app.live with
      | none =>
          rw [hlive] at hboxes
          dsimp only
          split
          case isTrue hsome =>
            have hnone : sys.app.live = none := by
              rw [happ]
              simp only [App.acted, hlive]
            rw [show ({ s with sys } : Screen).app.live = none from hnone] at hsome
            cases hsome
          case isFalse => exact .of_eq (face_of_boxes hboxes)
      | some live =>
          rw [hlive] at hboxes
          dsimp only
          split
          case isTrue =>
            have hface : ∀ u : Screen, u.app.boxes = { Boxes.none .detail with detail := some {} } →
                u.up = s.closeBoxes.up → u.cameFrom = s.cameFrom → u.ladder = s.ladder →
                  u.beneath = s.beneath → u.face = { s.face.root .detail with detail := some {} } := by
              intro u hb hup hcame hladder hbeneath
              rw [face_eq_faceOf, hb, faceOf, hup, hcame, hladder, hbeneath]
              rfl
            refine .of_turn ?_
            rw [hface ({ s with sys } : Screen).closeBoxes hboxes rfl rfl rfl rfl]
            exact .document
          case isFalse hnone =>
            have hsome : sys.app.live.isSome = true := by
              rw [happ]
              simp only [App.acted, hlive]
              exact App.isSome_live_closeModals _
            exact absurd hsome hnone
  | _ => exact .of_eq (face_of_boxes hboxes)

/-! ### Roots, contexts and what the palette runs -/

/-- Every box of the application closed, over a mode. -/
theorem face_root {f : App → App} {m : Nutsh.Mode} (s : Screen)
    (h : (f s.app).boxes = Boxes.none m) :
    (s.closeBoxes.mapApp f).face = s.face.root (Mode.ofInner s.box m) := by
  have hboxes : (s.closeBoxes.mapApp f).app.boxes = Boxes.none m := h
  rw [face_eq_faceOf, hboxes]
  rfl

theorem turns_openRoot (s : Screen) (target : Target) : Turns kinds s (s.openRoot env target) := by
  unfold openRoot
  split
  case isFalse => exact .refl
  case isTrue hopens =>
    refine .of_turn ?_
    cases target with
    | kind kind =>
        obtain ⟨live, hlive, -, hreach, hserved⟩ := opens_kind hopens
        rw [face_root s (App.boxes_openRoot hlive hreach hserved)]
        exact .root (Or.inl rfl)
    | page panes =>
        obtain ⟨⟨live, hlive⟩, -⟩ := opens_page hopens
        rcases App.boxes_openPage s.app panes with ⟨-, hnone⟩ | hb
        · rw [hlive] at hnone
          cases hnone
        · rw [face_root s hb]
          exact .root (Or.inl rfl)

theorem turns_goTo {u : Screen} {m : Screen.Mode}
    (hs : s.mode = .table ∨ s.mode = .box .contexts ∨ s.mode = .box .form)
    (hm : m = .table ∨ m = .box .contexts ∨ m = .box .form) (hu : u.face = s.face) :
    Turns kinds s (u.show m) := by
  refine .of_turn ?_
  rw [face_show, hu]
  exact .goTo hs hm

theorem turns_enter {b : Box} (hs : s.mode ∈ b.overs) (hb : b.modal = true) : Turns kinds s (s.enter b) := by
  refine .of_turn ?_
  rw [face_enter]
  exact .enter hs hb

theorem turns_startConnect
    (hs : s.mode = .table ∨ s.mode = .box .contexts ∨ s.mode = .box .form) :
    Turns kinds s s.startConnect := by
  unfold startConnect
  refine turns_goTo hs ?_ rfl
  split
  · exact Or.inr (Or.inr rfl)
  · exact Or.inr (Or.inl rfl)

theorem face_foldl_listOnce (asks : List (Kind × Option String)) (s : Screen) :
    (asks.foldl (fun s ask => s.listOnce (TableKey.filtered ask.1 ask.2)) s).face = s.face := by
  induction asks generalizing s with
  | nil => rfl
  | cons ask asks ih => exact (ih _).trans rfl

theorem face_foldl_retime (ks : List Kind) (s : Screen) : (ks.foldl retime s).face = s.face := by
  induction ks generalizing s with
  | nil => rfl
  | cons kind ks ih => exact (ih _).trans rfl

theorem face_save (s : Screen) (level : Schedule) (v : Interval) (file : Option Refresh) :
    (s.save level v file).face = s.face := by
  cases level <;> cases file <;> rfl

/-- A line of the palette, the palette closed. -/
theorem turns_run (hs : s.mode = .table ∨ s.mode = .box .contexts) (c : Command) :
    Turns kinds s (s.run env c) := by
  have hover : ∀ b : Box, s.mode ∈ b.overs := by
    intro b
    rcases hs with h | h <;> rw [h] <;> cases b <;> decide
  have hgo : s.mode = .table ∨ s.mode = .box .contexts ∨ s.mode = .box .form := hs.imp id Or.inl
  cases c with
  | help => exact turns_enter (hover _) rfl
  | «open» target => exact turns_openRoot s target
  | contexts => exact turns_goTo hgo (Or.inr (Or.inl rfl)) rfl
  | login =>
      exact turns_goTo (u := { s with prompt := true }) hgo (Or.inr (Or.inr rfl)) rfl
  | connect => exact turns_startConnect hgo
  | keepPeers keep => exact .refl
  | skins => exact turns_enter (hover _) rfl
  | journal =>
      dsimp only [run]
      split
      · exact turns_enter (hover _) rfl
      · exact .refl
  | activity =>
      dsimp only [run]
      split
      · exact turns_enter (hover _) rfl
      · exact .refl
  | search asks =>
      dsimp only [run]
      unfold searchCommand
      split
      · refine .of_turn ?_
        rw [face_enter, face_foldl_listOnce]
        exact .enter (hover .search) rfl
      · exact .refl
  | settings => exact turns_enter (hover _) rfl
  | refresh value =>
      cases value with
      | none =>
          dsimp only [run]
          split
          · exact turns_enter (hover _) rfl
          · exact .refl
      | some v =>
          dsimp only [run]
          unfold refreshCommand
          split
          · exact .refl
          · exact .of_eq (face_save s _ _ _)
  | other => exact .refl

/-- A box closed for the mode it opened over. -/
theorem turns_dismiss {b : Box} (hs : s.mode = .box b) (hb : b.modal = true) (hhelp : b ≠ .help) :
    Turns kinds s (s.dismiss b) := by
  by_cases h : s.up b = true
  · refine .of_turn ?_
    rw [face_dismiss s h]
    exact .dismiss hs hb hhelp
  · rw [dismiss, if_neg h]

theorem mode_dismiss {b : Box} (h : s.up b = true) : (s.dismiss b).mode = s.cameFrom b := by
  rw [dismiss, if_pos h, mode_show]

theorem turns_choose (hs : s.mode = .box .command)
    (hcame : s.cameFrom .command ∈ Box.overs .command) (c : Command) : Turns kinds s (s.choose env c) := by
  unfold choose
  split
  case isTrue hup =>
    refine (turns_dismiss hs rfl nofun).trans (turns_run ?_ c)
    rw [mode_dismiss hup]
    simpa [Box.overs] using hcame
  case isFalse => exact .refl

theorem turns_reopenSettings (hs : s.mode = .box .settings) : Turns kinds s s.reopenSettings := by
  refine .of_turn ?_
  rw [face_reopenSettings, ← hs]
  exact .reopen hs

theorem turns_setSchedule (hs : s.mode = .box .settings) (level : Schedule) (v : Interval)
    (file : Option Refresh) : Turns kinds s (s.setSchedule env level v file) := by
  unfold setSchedule
  have hface := (face_foldl_retime (env.catalog.filter fun k => level.touches k)
    (s.save level v file)).trans (face_save s level v file)
  refine (Turns.of_eq hface).trans (turns_reopenSettings ?_)
  exact (congrArg Face.mode hface).trans hs

theorem turns_setting (hs : s.mode = .box .settings)
    (hcame : s.cameFrom .settings ∈ Box.overs .settings) (key : SettingsKey) :
    Turns kinds s (s.setting env key) := by
  unfold setting
  split
  case isTrue hup =>
    cases key with
    | skins => exact turns_enter (by rw [hs]; decide) rfl
    | add =>
        refine (turns_dismiss hs rfl nofun).trans (turns_enter ?_ rfl)
        rw [mode_dismiss hup]
        exact hcame
    | cycle level file => exact turns_setSchedule hs level _ file
    | pick level =>
        refine .of_turn ?_
        dsimp only
        rw [face_show]
        exact .ladder hs hup
    | other => exact turns_reopenSettings hs
  case isFalse => exact .refl

theorem turns_leaveLadder (hs : s.mode = .box .ladder) :
    Turns kinds s ({ s with ladder := none }.show (.box .settings)) := by
  refine .of_turn ?_
  rw [face_show]
  exact .leaveLadder hs

theorem turns_chooseRung (hs : s.mode = .box .ladder) (v : Interval) (file : Option Refresh) :
    Turns kinds s (s.chooseRung env v file) := by
  unfold chooseRung
  split
  · exact .refl
  · exact (turns_leaveLadder hs).trans (turns_setSchedule (mode_show _ _) _ v file)

theorem turns_leaveSkins (hs : s.mode = .box .skins) : Turns kinds s s.leaveSkins := by
  unfold leaveSkins
  dsimp only
  split
  case isTrue hsettings => exact (turns_dismiss hs rfl nofun).trans (turns_reopenSettings hsettings)
  case isFalse => exact turns_dismiss hs rfl nofun

theorem turns_escBox {b : Box} (hs : s.mode = .box b) : Turns kinds s (s.escBox b) := by
  cases b with
  | contexts =>
      dsimp only [escBox]
      split
      · exact .refl
      · split
        · exact turns_goTo (Or.inr (Or.inl hs)) (Or.inl rfl) rfl
        · exact .refl
  | form =>
      dsimp only [escBox]
      split
      · exact .refl
      · exact turns_goTo (u := { s with prompt := false }) (Or.inr (Or.inr hs)) (Or.inr (Or.inl rfl)) rfl
  | help =>
      refine .of_turn ?_
      dsimp only [escBox]
      rw [face_show]
      exact .leaveHelp hs
  | skins => exact turns_leaveSkins hs
  | ladder =>
      dsimp only [escBox]
      split
      · exact turns_leaveLadder hs
      · exact .refl
  | command => exact turns_dismiss hs rfl nofun
  | journal => exact turns_dismiss hs rfl nofun
  | search => exact turns_dismiss hs rfl nofun
  | settings => exact turns_dismiss hs rfl nofun
  | activity => exact turns_dismiss hs rfl nofun

theorem turns_onContexts {b : Box} (hs : s.mode = .box b) (key : ContextsKey) :
    Turns kinds s (s.onContexts b key) := by
  unfold onContexts
  split
  · exact .refl
  · split
    · exact turns_goTo (u := { s with prompt := true }) (Or.inr (Or.inl hs)) (Or.inr (Or.inr rfl)) rfl
    · exact turns_startConnect (Or.inr (Or.inl hs))
    · exact .refl
    · split
      · exact turns_enter (by rw [hs]; decide) rfl
      · exact .refl
    · exact turns_startConnect (Or.inr (Or.inr hs))
    · exact .refl

theorem turns_connected (session : Session) (was home : Target) :
    Turns kinds s (s.connected env session was home) := by
  let fresh : Screen := { s with pending := false, connects := s.connects - 1 }.closeBoxes.mapApp
    fun app => app.attach session
  have hfresh : ({ fresh with prompt := false } : Screen).face = s.face.root .table :=
    face_root (f := fun app => app.attach session) (m := .table)
      { s with pending := false, connects := s.connects - 1 } rfl
  have hturns : Turns kinds s { fresh with prompt := false } := by
    refine .of_turn ?_
    rw [hfresh]
    exact .root (Or.inl rfl)
  unfold connected
  dsimp only
  split
  · exact hturns.trans (turns_openRoot _ was)
  · split
    · exact hturns.trans (turns_openRoot _ home)
    · refine .of_turn ?_
      rw [showContexts, face_show]
      have hcontexts : s.face.Turn kinds (s.face.root (.box .contexts)) := .root (Or.inr rfl)
      rw [hfresh]
      exact hcontexts

/-! ### A step -/

theorem face_closeRefPicker (s : Screen) (chosen : Option (ℕ × String)) :
    (s.closeRefPicker chosen).face = s.face := by
  ext1
  all_goals first | rfl | exact Option.isSome_map ..

theorem face_openRefPicker (s : Screen) (kind : Kind) : (s.openRefPicker env kind).face = s.face := by
  unfold openRefPicker
  split
  case h_1 live form hlive hform =>
    split
    · rfl
    · dsimp only
      have hsome : s.sys.app.form.isSome = true := by
        rw [show s.sys.app.form = some form from hform]
        rfl
      split <;>
        · ext1
          all_goals first | rfl | exact hsome.symm
  case h_2 => rfl

/-- The way out of what has the keys. -/
theorem esc_cases (h : s.esc env = some t) :
    s.mode = .detail ∧ t.face = { s.face with mode := .table, detail := none } ∨
      s.mode = .picker ∧ t.face = { s.face with mode := .table, picker := false } ∨
      s.mode = .menu ∧ t.face = { s.face with mode := s.face.acting, menu := false } ∨
      (s.mode = .fields ∧ s.picking = true ∧ t.face = s.face) ∨
      (s.mode = .fields ∧ s.picking = false ∧ t.face = s.face.closeForm) ∨
      s.mode = .confirm ∧ t.face = s.face.dropped ∨ ∃ b, s.mode = .box b ∧ t = s.escBox b := by
  unfold esc at h
  split at h
  · cases h
  case h_2 hmode =>
    obtain ⟨sys, hsys, rfl⟩ := Option.map_eq_some_iff.1 h
    simp only [System.step] at hsys
    split at hsys <;> cases hsys
    exact Or.inl ⟨hmode, rfl⟩
  case h_3 hmode =>
    obtain ⟨sys, hsys, rfl⟩ := Option.map_eq_some_iff.1 h
    simp only [System.step] at hsys
    split at hsys
    case isTrue hmenu =>
      rw [show s.mode = .menu from mode_of_app hmenu] at hmode
      cases hmode
    case isFalse =>
      split at hsys <;> cases hsys
      exact Or.inr (Or.inl ⟨hmode, rfl⟩)
  case h_4 hmode =>
    obtain ⟨sys, hsys, rfl⟩ := Option.map_eq_some_iff.1 h
    simp only [System.step] at hsys
    split at hsys
    · cases hsys
      have hface : ∀ m : Nutsh.Mode, ({ s with sys := { s.sys with
          app := { s.sys.app with menu := none, mode := m } } } : Screen).face =
          { s.face with mode := Mode.ofInner s.box m, menu := false } := fun m => rfl
      exact Or.inr (Or.inr (Or.inl ⟨hmode, by rw [hface, ofInner_actingFrom]⟩))
    case isFalse =>
      split at hsys
      case isTrue hpicker =>
        rw [show s.mode = .picker from mode_of_app hpicker] at hmode
        cases hmode
      case isFalse => cases hsys
  case h_5 hmode =>
    split at h
    case isTrue hpicking =>
      cases h
      exact Or.inr (Or.inr (Or.inr (Or.inl ⟨hmode, hpicking, face_closeRefPicker s none⟩)))
    case isFalse hpicking =>
      obtain ⟨sys, hsys, rfl⟩ := Option.map_eq_some_iff.1 h
      simp only [System.step] at hsys
      split at hsys <;> cases hsys
      exact Or.inr (Or.inr (Or.inr (Or.inr (Or.inl ⟨hmode, by simpa using hpicking, rfl⟩))))
  case h_6 hmode =>
    obtain ⟨sys, hsys, rfl⟩ := Option.map_eq_some_iff.1 h
    simp only [System.step] at hsys
    split at hsys <;> cases hsys
    have hface : ({ s with sys := { s.sys with app := s.sys.app.cancelConfirm } } : Screen).face =
        s.face.dropped := (face_sys (App.boxes_dropPending s.sys.app)).trans (faceOf_dropped s _)
    exact Or.inr (Or.inr (Or.inr (Or.inr (Or.inr (Or.inl ⟨hmode, hface⟩)))))
  case h_7 b hmode =>
    exact Or.inr (Or.inr (Or.inr (Or.inr (Or.inr (Or.inr ⟨b, hmode, (Option.some.inj h).symm⟩)))))

/-- The way out in turns; a form that is cancelled takes the table. -/
theorem turns_esc (h : s.esc env = some t) :
    Turns kinds s t ∨ s.mode = .fields ∧ s.picking = false ∧ t.face = s.face.closeForm := by
  rcases esc_cases h with ⟨hmode, hface⟩ | ⟨hmode, hface⟩ | ⟨hmode, hface⟩ | ⟨hmode, -, hface⟩ | hform |
    ⟨hmode, hface⟩ | ⟨b, hmode, rfl⟩
  · exact Or.inl (.of_turn (hface ▸ .closePane hmode))
  · exact Or.inl (.of_turn (hface ▸ .leaveOffer hmode))
  · exact Or.inl (.of_turn (hface ▸ .leaveMenu hmode))
  · exact Or.inl (.of_eq hface)
  · exact Or.inr hform
  · exact Or.inl (.of_turn (hface ▸ .drop (Or.inr (Or.inl hmode))))
  · exact Or.inl (turns_escBox hmode)

/-- **A step of the screen is some turns**, a form that is cancelled and a connect that fails apart. -/
theorem turns_step (hcame : ∀ b, s.cameFrom b ∈ b.overs) (h : s.step env evidence e = some t) :
    Turns s.app.underCursor s t ∨ (e = .esc ∧ s.mode = .fields ∧ s.picking = false ∧ t.face = s.face.closeForm) ∨
      (e = .connectFailed ∧ ∃ m, (m = .box .contexts ∨ m = .box .form) ∧
        t.face = { s.face with mode := m }) := by
  cases e with
  | plain e =>
      simp only [step] at h
      split at h
      case isFalse => cases h
      case isTrue he => exact Or.inl (turns_plain (Bool.and_eq_true_iff.1 he).1 h)
  | acted i outcome => exact Or.inl (turns_acted h)
  | esc => exact (turns_esc h).imp id fun h => Or.inl ⟨rfl, h⟩
  | openDetail served => exact Or.inl (turns_openDetail h)
  | openPicker served => exact Or.inl (turns_openPicker h)
  | help =>
      simp only [step, Option.ite_none_right_eq_some, Option.some.injEq] at h
      obtain ⟨hmode, rfl⟩ := h
      exact Or.inl (turns_enter (by rcases hmode with h | h <;> rw [h] <;> decide) rfl)
  | openPalette =>
      simp only [step, Option.ite_none_right_eq_some, Option.some.injEq] at h
      obtain ⟨hmode, rfl⟩ := h
      exact Or.inl (turns_enter (by rw [hmode]; decide) rfl)
  | choose c =>
      simp only [step, Option.ite_none_right_eq_some, Option.some.injEq] at h
      obtain ⟨hmode, rfl⟩ := h
      exact Or.inl (turns_choose hmode (hcame _) c)
  | openTarget target =>
      simp only [step] at h
      split at h <;> cases h
      exact Or.inl (turns_openRoot s target)
  | showContexts =>
      simp only [step, Option.ite_none_right_eq_some, Option.some.injEq] at h
      obtain ⟨hmode, rfl⟩ := h
      exact Or.inl (turns_goTo (Or.inl hmode) (Or.inr (Or.inl rfl)) rfl)
  | showSettings =>
      simp only [step, Option.ite_none_right_eq_some, Option.some.injEq] at h
      obtain ⟨hmode, rfl⟩ := h
      exact Or.inl (turns_enter (by rw [hmode]; decide) rfl)
  | setting key =>
      simp only [step, Option.ite_none_right_eq_some, Option.some.injEq] at h
      obtain ⟨hmode, rfl⟩ := h
      exact Or.inl (turns_setting hmode (hcame _) key)
  | chooseRung v file =>
      simp only [step, Option.ite_none_right_eq_some, Option.some.injEq] at h
      obtain ⟨hmode, rfl⟩ := h
      exact Or.inl (turns_chooseRung hmode v file)
  | openHit kind =>
      simp only [step, Option.ite_none_right_eq_some, Option.some.injEq] at h
      obtain ⟨hmode, rfl⟩ := h
      exact Or.inl ((turns_dismiss hmode.1 rfl (by decide)).trans (turns_openRoot _ _))
  | onContexts key =>
      simp only [step] at h
      split at h
      · case h_1 b hmode =>
        cases h
        exact Or.inl (turns_onContexts hmode key)
      · cases h
  | stepRefresh =>
      simp only [step] at h
      split at h <;> cases h
      refine Or.inl (.of_eq ?_)
      unfold stepRefresh
      split <;> rfl
  | toggleWatch every =>
      simp only [step] at h
      split at h
      case isFalse => cases h
      case isTrue hmode =>
        cases h
        rcases @toggleWatch_cases env s every with ⟨heq, -⟩ | ⟨d, sub, interval, hd, -, heq, -⟩ <;>
          rw [heq]
        · exact Or.inl .refl
        · exact Or.inl (.of_turn (@Face.Turn.watch _ _ d { d with watch := !d.watch } hd rfl rfl hmode))
  | openRefPicker kind =>
      simp only [step] at h
      split at h <;> cases h
      exact Or.inl (.of_eq (face_openRefPicker s kind))
  | choseRef field extId =>
      simp only [step] at h
      split at h <;> cases h
      exact Or.inl (.of_eq (face_closeRefPicker s _))
  | connected session was home =>
      simp only [step] at h
      split at h <;> cases h
      exact Or.inl (turns_connected session was home)
  | connectFailed =>
      simp only [step] at h
      split at h <;> cases h
      refine Or.inr (Or.inr ⟨rfl, _, ?_, face_show _ _⟩)
      split
      · exact Or.inr rfl
      · exact Or.inl rfl
  | joined session =>
      obtain rfl := Option.some.inj h
      exact Or.inl (.of_eq (face_mapApp (App.boxes_joined s.app session)))
  | poll sub now u refused =>
      obtain rfl := Option.some.inj h
      have hpoll : (s.mapApp fun app => app.poll sub now u).face = s.face :=
        face_mapApp (App.boxes_poll s.app sub now u)
      exact Or.inl (.of_eq ((face_mapApp (App.boxes_mapLive _)).trans hpoll))
  | done sub =>
      obtain rfl := Option.some.inj h
      exact Or.inl .refl
  | tick heights =>
      obtain rfl := Option.some.inj h
      refine Or.inl (.of_eq (face_mapApp ?_))
      dsimp only
      split <;> rfl

end Screen

end Nutsh
