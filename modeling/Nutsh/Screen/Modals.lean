/-
The mode and the boxes agree.

The body shows the pane exactly while there is one, an action is pending only while its form or its
dialog is open, and every box is there only while it has the keys or lies beneath one it opened.  What is
cancelled leaves the screen as it was when the box opened, the boxes of an action being one: a form takes
the menu that chose it down with it.

* `Face.Ways`, `Face.Tidy`, `Face.Kept` — what the turns keep;
* `Screen.Agrees` — the mode and the boxes agree;
* `Screen.strays` — a form cancelled over a pane, and a connect that fails while something is open;
* `Screen.agrees_exec` — runs without them.
-/
import Nutsh.Lib.Run
import Nutsh.Screen.Faces

set_option relaxedAutoImplicit false
set_option autoImplicit false

namespace Nutsh

theorem Box.mem_over {b : Box} {m : Screen.Mode} (h : m ∈ b.overs) :
    m = .table ∨ m = .box .contexts ∨ (b = .skins ∧ m = .box .settings) ∨ (b = .help ∧ m = .detail) := by
  cases b <;> simp only [overs, List.mem_cons, List.not_mem_nil, or_false] at h <;> tauto

namespace Face

variable {f g : Face} {kinds : List Kind}

/-- The mode drawn behind a box. -/
def background (f : Face) : Screen.Mode :=
  match f.mode with
  | .menu => f.acting
  | .confirm => f.acting
  | .fields => f.acting
  | .box .ladder => f.cameFrom .settings
  | .box b => if b.modal then f.cameFrom b else .box b
  | mode => mode

theorem acting_cases (f : Face) : f.detail = none ∧ f.acting = .table ∨
    f.detail.isSome = true ∧ f.acting = .detail := by
  unfold acting
  cases hd : f.detail with
  | none => exact Or.inl ⟨rfl, rfl⟩
  | some d => exact Or.inr ⟨rfl, rfl⟩

theorem background_of_acting (h : f.mode = f.acting) : f.background = f.acting := by
  rcases acting_cases f with ⟨-, ha⟩ | ⟨-, ha⟩ <;> simp [background, h, ha]

theorem background_of_modal {b : Box} (h : f.mode = .box b) (hb : b.modal = true) :
    f.background = f.cameFrom b := by
  cases b <;> first | (simp [background, h, Box.modal]; done) | cases hb

/-- Boxes are opened over the modes they can be opened over. -/
def Ways (f : Face) : Prop := ∀ b, f.cameFrom b ∈ b.overs

theorem Ways.turn (h : f.Ways) (ht : f.Turn kinds g) : g.Ways := by
  cases ht with
  | @enter b hover hmodal =>
      intro b'
      show Function.update f.cameFrom b f.mode b' ∈ b'.overs
      by_cases hb : b' = b
      · subst hb
        rw [Function.update_self]
        exact hover
      · rw [Function.update_of_ne hb]
        exact h b'
  | _ => exact h

theorem Ways.turns (h : f.Ways) (ht : Relation.ReflTransGen (Turn kinds) f g) : g.Ways := by
  induction ht with
  | refl => exact h
  | tail _ ht ih => exact ih.turn ht

/-- Only help is opened over the pane. -/
theorem Ways.ne_detail (h : f.Ways) {b : Box} (hb : b ≠ .help) : f.cameFrom b ≠ .detail := by
  intro hdetail
  rcases Box.mem_over (h b) with hm | hm | ⟨-, hm⟩ | ⟨hhelp, -⟩
  · rw [hm] at hdetail
    cases hdetail
  · rw [hm] at hdetail
    cases hdetail
  · rw [hm] at hdetail
    cases hdetail
  · exact hb hhelp

/-! ### The pane -/

/-- What becomes of the pane in a turn: it is gone, the body shows it, or it was not shown before. -/
theorem pane_turn (h : f.Ways) (ht : f.Turn kinds g) :
    g.detail = none ∨ g.background = .detail ∨ g.detail = f.detail ∧ f.background ≠ .detail := by
  have hacting : g.background = g.acting → g.detail = none ∨ g.background = .detail ∨
      g.detail = f.detail ∧ f.background ≠ .detail := by
    intro hg
    rcases acting_cases g with ⟨hd, -⟩ | ⟨-, ha⟩
    · exact Or.inl hd
    · exact Or.inr (Or.inl (hg.trans ha))
  have hstay : g.detail = f.detail → (f.background = .detail → g.background = .detail) →
      g.detail = none ∨ g.background = .detail ∨ g.detail = f.detail ∧ f.background ≠ .detail := by
    intro hd hshown
    by_cases hf : f.background = .detail
    · exact Or.inr (Or.inl (hshown hf))
    · exact Or.inr (Or.inr ⟨hd, hf⟩)
  have hsettings : f.mode = .box .settings ∨ f.mode = .box .ladder → f.background ≠ .detail := by
    rintro (hmode | hmode)
    · rw [background_of_modal hmode rfl]
      exact h.ne_detail nofun
    · simp only [background, hmode]
      exact h.ne_detail nofun
  cases ht with
  | same => exact hstay rfl id
  | watch hd hkey hsub hmode => exact Or.inr (Or.inl (by simp [background, hmode]))
  | pane d hmode hkind => exact Or.inr (Or.inl rfl)
  | closePane hmode => exact Or.inl rfl
  | offer hmode => exact hstay rfl fun hf => by simp [background, hmode] at hf
  | leaveOffer hmode => exact hstay rfl fun hf => by simp [background, hmode] at hf
  | leaveMenu hmode => exact hacting (background_of_acting rfl)
  | drop hmode => exact hacting (background_of_acting rfl)
  | dropForm hmode => exact hacting (background_of_acting rfl)
  | root hm => exact Or.inl rfl
  | document => exact Or.inr (Or.inl rfl)
  | @enter b hover hmodal =>
      refine hstay rfl fun hf => ?_
      rw [background_of_modal rfl hmodal]
      show Function.update f.cameFrom b f.mode b = .detail
      rw [Function.update_self]
      -- over anything but the pane itself it was not shown
      rcases Box.mem_over hover with hmode | hmode | ⟨-, hmode⟩ | ⟨-, hmode⟩
      · simp [background, hmode] at hf
      · simp [background, hmode, Box.modal] at hf
      · exact absurd hf (hsettings (Or.inl hmode))
      · exact hmode
  | @dismiss b hmode hmodal hhelp =>
      refine hstay rfl fun hf => ?_
      rw [background_of_modal hmode hmodal] at hf
      exact absurd hf (h.ne_detail hhelp)
  | leaveHelp hmode =>
      refine hstay rfl fun hf => ?_
      rw [background_of_modal hmode rfl] at hf
      simp [background, hf]
  | goTo hmode hm =>
      refine hstay rfl fun hf => ?_
      rcases hmode with hmode | hmode | hmode <;> simp [background, hmode, Box.modal] at hf
  | ladder hmode hup => exact hstay rfl fun hf => absurd hf (hsettings (Or.inl hmode))
  | leaveLadder hmode => exact hstay rfl fun hf => absurd hf (hsettings (Or.inr hmode))
  | reopen hmode => exact hstay rfl fun hf => absurd hf (hsettings (Or.inl hmode))
  | _ => exact hacting rfl

theorem pane_turns (h : f.Ways) (ht : Relation.ReflTransGen (Turn kinds) f g) :
    g.detail = none ∨ g.background = .detail ∨ g.detail = f.detail ∧ f.background ≠ .detail := by
  induction ht with
  | refl => exact @pane_turn f f kinds h .same
  | @tail u g htu ht ih =>
      rcases pane_turn (h.turns htu) ht with hg | hg | ⟨hg, hu⟩
      · exact Or.inl hg
      · exact Or.inr (Or.inl hg)
      · rcases ih with hu' | hu' | ⟨hu', hf⟩
        · exact Or.inl (hg.trans hu')
        · exact absurd hu' hu
        · exact Or.inr (Or.inr ⟨hg.trans hu', hf⟩)

/-- The body shows the pane only while there is one. -/
def Shown (f : Face) : Prop := f.background = .detail → f.detail.isSome = true

theorem Shown.turn (h : f.Ways) (hs : f.Shown) (ht : f.Turn kinds g) : g.Shown := by
  have hacting : g.background = g.acting → g.Shown := by
    intro hg hshown
    rcases acting_cases g with ⟨-, ha⟩ | ⟨hd, -⟩
    · rw [hg, ha] at hshown
      cases hshown
    · exact hd
  have hsettings : f.cameFrom .settings ≠ .detail := h.ne_detail nofun
  cases ht with
  | same => exact hs
  | watch hd hkey hsub hmode => exact fun _ => rfl
  | pane d hmode hkind => exact fun _ => rfl
  | closePane hmode => exact nofun
  | offer hmode => exact nofun
  | leaveOffer hmode => exact nofun
  | leaveMenu hmode => exact hacting (background_of_acting rfl)
  | drop hmode => exact hacting (background_of_acting rfl)
  | dropForm hmode => exact hacting (background_of_acting rfl)
  | root hm =>
      intro hg
      rcases hm with rfl | rfl <;> cases hg
  | document => exact fun _ => rfl
  | @enter b hover hmodal =>
      intro hg
      rw [background_of_modal rfl hmodal] at hg
      replace hg : Function.update f.cameFrom b f.mode b = .detail := hg
      rw [Function.update_self] at hg
      exact hs (by simp [background, hg])
  | @dismiss b hmode hmodal hhelp =>
      intro hg
      rcases Box.mem_over (h b) with hcame | hcame | ⟨-, hcame⟩ | ⟨hb, -⟩
      · simp [background, hcame] at hg
      · simp [background, hcame, Box.modal] at hg
      · simp [background, hcame, Box.modal, put, hsettings] at hg
      · exact absurd hb hhelp
  | leaveHelp hmode =>
      intro hg
      rcases Box.mem_over (h .help) with hcame | hcame | ⟨hb, -⟩ | ⟨-, hcame⟩
      · simp [background, hcame] at hg
      · simp [background, hcame, Box.modal] at hg
      · cases hb
      · exact hs ((background_of_modal hmode rfl).trans hcame)
  | goTo hmode hm =>
      intro hg
      rcases hm with rfl | rfl | rfl <;> simp [background, Box.modal] at hg
  | ladder hmode hup => exact fun hg => absurd hg hsettings
  | leaveLadder hmode => exact fun hg => absurd hg hsettings
  | reopen hmode =>
      intro hg
      have hback : (f.put .settings true).background = f.cameFrom .settings :=
        background_of_modal hmode rfl
      exact absurd (hback.symm.trans hg) hsettings
  | _ => exact hacting rfl

/-! ### The boxes -/

/-- Every box is there only while it has the keys, or beneath one that it opened. -/
structure Tidy (f : Face) : Prop where
  menu : f.menu = true → f.mode = .menu ∨ f.mode = .fields ∨ f.mode = .confirm
  picker : f.picker = true → f.mode = .picker
  form : f.form = true → f.mode = .fields
  confirm : f.confirm = true → f.mode = .confirm
  pending : f.pending = true →
    f.mode = .fields ∧ f.form = true ∨ f.mode = .confirm ∧ f.confirm = true
  palette : f.up .command = true → f.mode = .box .command

/-- Nothing of the application is open beside the body. -/
structure Bare (f : Face) : Prop where
  menu : f.menu = false
  picker : f.picker = false
  form : f.form = false
  confirm : f.confirm = false
  pending : f.pending = false
  palette : f.up .command = false

theorem Bare.tidy (h : f.Bare) : f.Tidy := by
  constructor <;> simp [h.menu, h.picker, h.form, h.confirm, h.pending, h.palette]

theorem Bare.shape (h : f.Bare) : f.shape = { mode := f.mode, detail := f.detail } := by
  simp only [Face.shape, h.menu, h.picker, h.form, h.confirm, h.pending, h.palette]

/-- In the body, and in a box other than the palette, nothing else is open. -/
theorem Tidy.bare (h : f.Tidy)
    (hmode : f.mode = .table ∨ f.mode = .detail ∨ ∃ b, b ≠ .command ∧ f.mode = .box b) : f.Bare := by
  obtain ⟨hmenu, hpicker, hform, hconfirm, hpending, hpalette⟩ := h
  rcases hmode with hm | hm | ⟨b, hb, hm⟩ <;> constructor <;> simp_all

/-- Where a box can be opened nothing else is open. -/
theorem Tidy.bare_of_over (h : f.Tidy) {b : Box} (hmode : f.mode ∈ b.overs) : f.Bare := by
  refine h.bare ?_
  rcases Box.mem_over hmode with hm | hm | ⟨-, hm⟩ | ⟨-, hm⟩
  · exact Or.inl hm
  · exact Or.inr (Or.inr ⟨.contexts, nofun, hm⟩)
  · exact Or.inr (Or.inr ⟨.settings, nofun, hm⟩)
  · exact Or.inr (Or.inl hm)

theorem Tidy.turn (h : f.Tidy) (ht : f.Turn kinds g) : g.Tidy := by
  cases ht with
  | same => exact h
  | watch hd hkey hsub hmode => exact ⟨h.menu, h.picker, h.form, h.confirm, h.pending, h.palette⟩
  | pane d hmode hkind =>
      have hb := h.bare (Or.inl hmode)
      exact Bare.tidy ⟨hb.menu, hb.picker, hb.form, hb.confirm, hb.pending, hb.palette⟩
  | closePane hmode =>
      have hb := h.bare (Or.inr (Or.inl hmode))
      exact Bare.tidy ⟨hb.menu, hb.picker, hb.form, hb.confirm, hb.pending, hb.palette⟩
  | root hm => exact Bare.tidy ⟨rfl, rfl, rfl, rfl, rfl, by simp [root]⟩
  | document => exact Bare.tidy ⟨rfl, rfl, rfl, rfl, rfl, by simp [root]⟩
  | menu hmode =>
      have hb := h.bare (hmode.imp id Or.inl)
      constructor <;>
        simp [remember, hb.picker, hb.form, hb.confirm, hb.pending, hb.palette]
  | drop hmode =>
      obtain ⟨hmenu, hpicker, hform, hconfirm, hpending, hpalette⟩ := h
      refine Bare.tidy ?_
      rcases hmode with hm | hm | hm <;> constructor <;> simp_all [dropped]
  | @enter b hover hmodal =>
      have hb := h.bare_of_over hover
      constructor <;> simp [enter, hb.menu, hb.picker, hb.form, hb.confirm, hb.pending]
      exact fun hup => by_contra fun hne => by
        rw [Function.update_of_ne (Ne.symm hne), hb.palette] at hup
        cases hup
  | @dismiss b hmode hmodal hhelp =>
      refine Bare.tidy ?_
      by_cases hcommand : b = .command
      · obtain ⟨hmenu, hpicker, hform, hconfirm, hpending, -⟩ := h
        constructor <;> simp_all [put]
      · have hb := h.bare (Or.inr (Or.inr ⟨b, hcommand, hmode⟩))
        refine ⟨hb.menu, hb.picker, hb.form, hb.confirm, hb.pending, ?_⟩
        exact (Function.update_of_ne (Ne.symm hcommand) _ _).trans hb.palette
  | leaveHelp hmode =>
      have hb := h.bare (Or.inr (Or.inr ⟨.help, nofun, hmode⟩))
      exact Bare.tidy ⟨hb.menu, hb.picker, hb.form, hb.confirm, hb.pending, hb.palette⟩
  | goTo hmode hm =>
      have hb : f.Bare := by
        refine h.bare ?_
        rcases hmode with hmode | hmode | hmode
        · exact Or.inl hmode
        · exact Or.inr (Or.inr ⟨.contexts, nofun, hmode⟩)
        · exact Or.inr (Or.inr ⟨.form, nofun, hmode⟩)
      exact Bare.tidy ⟨hb.menu, hb.picker, hb.form, hb.confirm, hb.pending, hb.palette⟩
  | _ =>
      obtain ⟨hmenu, hpicker, hform, hconfirm, hpending, hpalette⟩ := h
      constructor <;> simp_all [remember, dropped, put]

/-! ### What was there before -/

/-- A pane is there only while the body shows it. -/
def Paned (f : Face) : Prop := f.detail.isSome = true → f.background = .detail

/-- A box that has the keys, or the settings beneath a box that goes back to them. -/
def Stands (f : Face) (b : Box) : Prop :=
  f.mode = .box b ∨ b = .settings ∧
    (f.mode = .box .ladder ∨ f.mode = .box .skins ∧ f.cameFrom .skins = .box .settings)

/-- What is remembered of the screen before a box opened is what closing it leads to. -/
structure Kept (f : Face) : Prop where
  chain : f.mode = .picker ∨ f.mode = .menu ∨ f.mode = .fields ∨ f.mode = .confirm →
    f.beneath none = { mode := f.acting, detail := f.detail }
  box : ∀ b, b.modal = true → f.Stands b →
    f.up b = true ∧ f.beneath (some b) = { mode := f.cameFrom b, detail := f.detail }
  ladder : f.mode = .box .ladder →
    f.ladder = true ∧ f.beneath (some .ladder) = { mode := .box .settings, detail := f.detail }

/-- In the body nothing has to be remembered. -/
theorem kept_of_body
    (h : f.mode = .table ∨ f.mode = .detail ∨ f.mode = .box .contexts ∨ f.mode = .box .form) :
    f.Kept := by
  refine ⟨?_, ?_, ?_⟩
  · rcases h with hm | hm | hm | hm <;> simp [hm]
  · intro b hb hstands
    rcases hstands with hstands | ⟨-, hstands | ⟨hstands, -⟩⟩ <;>
      rcases h with hm | hm | hm | hm <;> rw [hm] at hstands <;> cases hstands <;> cases hb
  · rcases h with hm | hm | hm | hm <;> simp [hm]

theorem kept_of_acting (h : f.mode = f.acting) : f.Kept := by
  rcases acting_cases f with ⟨-, ha⟩ | ⟨-, ha⟩
  · exact kept_of_body (Or.inl (h.trans ha))
  · exact kept_of_body (Or.inr (Or.inl (h.trans ha)))

/-- The body the pipeline runs over is the one that is shown. -/
theorem acting_of_mode (hshown : f.Shown) (hpaned : f.Paned)
    (hmode : f.mode = .table ∨ f.mode = .detail) : f.acting = f.mode := by
  rcases acting_cases f with ⟨hd, ha⟩ | ⟨hd, ha⟩
  · rcases hmode with hm | hm
    · rw [ha, hm]
    · have h := hshown (by simp [background, hm])
      rw [hd] at h
      cases h
  · rcases hmode with hm | hm
    · have h := hpaned hd
      simp [background, hm] at h
    · rw [ha, hm]

/-- A box of the pipeline opened over the body. -/
theorem kept_of_chain (h : f.mode = .picker ∨ f.mode = .menu ∨ f.mode = .fields ∨ f.mode = .confirm)
    (hbeneath : f.beneath none = { mode := f.acting, detail := f.detail }) : f.Kept := by
  refine ⟨fun _ => hbeneath, ?_, ?_⟩
  · intro b hb hstands
    rcases hstands with hstands | ⟨-, hstands | ⟨hstands, -⟩⟩ <;>
      rcases h with hm | hm | hm | hm <;> rw [hm] at hstands <;> cases hstands
  · rcases h with hm | hm | hm | hm <;> simp [hm]

/-- The settings have the keys again. -/
theorem kept_of_settings (hmode : f.mode = .box .settings)
    (hsettings : f.up .settings = true ∧
      f.beneath (some .settings) = { mode := f.cameFrom .settings, detail := f.detail }) : f.Kept := by
  refine ⟨?_, ?_, ?_⟩
  · simp [hmode]
  · intro b hb hstands
    rcases hstands with hstands | ⟨rfl, -⟩
    · rw [hmode] at hstands
      cases hstands
      exact hsettings
    · exact hsettings
  · simp [hmode]

theorem Kept.turn (h : f.Kept) (hways : f.Ways) (hshown : f.Shown) (hpaned : f.Paned) (htidy : f.Tidy)
    (ht : f.Turn kinds g) : g.Kept := by
  have hbody : f.mode = .table ∨ f.mode = .detail →
      f.shape = { mode := f.acting, detail := f.detail } := by
    intro hmode
    rw [acting_of_mode hshown hpaned hmode]
    exact (htidy.bare (hmode.imp id Or.inl)).shape
  have hsettings : f.mode = .box .settings → f.shape = { mode := .box .settings, detail := f.detail } := by
    intro hmode
    rw [← hmode]
    exact (htidy.bare (Or.inr (Or.inr ⟨.settings, nofun, hmode⟩))).shape
  cases ht with
  | same => exact h
  | watch hd hkey hsub hmode => exact kept_of_body (Or.inr (Or.inl hmode))
  | pane d hmode hkind => exact kept_of_body (Or.inr (Or.inl rfl))
  | closePane hmode => exact kept_of_body (Or.inl rfl)
  | offer hmode => exact kept_of_chain (Or.inl rfl) (hbody (Or.inl hmode))
  | leaveOffer hmode => exact kept_of_body (Or.inl rfl)
  | menu hmode => exact kept_of_chain (Or.inr (Or.inl rfl)) (hbody hmode)
  | leaveMenu hmode => exact kept_of_acting rfl
  | ask hmode => exact kept_of_chain (Or.inr (Or.inr (Or.inl rfl))) (h.chain (Or.inr (Or.inl hmode)))
  | askOffered hmode => exact kept_of_chain (Or.inr (Or.inr (Or.inl rfl))) (h.chain (Or.inl hmode))
  | askAtOnce hmode => exact kept_of_chain (Or.inr (Or.inr (Or.inl rfl))) (hbody (Or.inl hmode))
  | confirm hmode =>
      exact kept_of_chain (Or.inr (Or.inr (Or.inr rfl))) (h.chain (Or.inr (Or.inl hmode)))
  | confirmOffered hmode => exact kept_of_chain (Or.inr (Or.inr (Or.inr rfl))) (h.chain (Or.inl hmode))
  | confirmAtOnce hmode => exact kept_of_chain (Or.inr (Or.inr (Or.inr rfl))) (hbody (Or.inl hmode))
  | confirmForm hmode =>
      exact kept_of_chain (Or.inr (Or.inr (Or.inr rfl))) (h.chain (Or.inr (Or.inr (Or.inl hmode))))
  | drop hmode => exact kept_of_acting rfl
  | dropForm hmode => exact kept_of_acting rfl
  | root hm =>
      rcases hm with rfl | rfl
      · exact kept_of_body (Or.inl rfl)
      · exact kept_of_body (Or.inr (Or.inr (Or.inl rfl)))
  | document => exact kept_of_body (Or.inr (Or.inl rfl))
  | @enter b hover hmodal =>
      refine ⟨?_, ?_, ?_⟩
      · exact nofun
      · intro b' hb' hstands
        by_cases hbb : b' = b
        · subst hbb
          refine ⟨Function.update_self .., ?_⟩
          show Function.update f.beneath (some b') f.shape (some b') =
            { mode := Function.update f.cameFrom b' f.mode b', detail := f.detail }
          rw [Function.update_self, Function.update_self]
          exact (htidy.bare_of_over hover).shape
        · -- the settings, under the skins they opened
          rcases hstands with hstands | ⟨rfl, hstands | ⟨hskins, hcame⟩⟩
          · cases hstands
            exact absurd rfl hbb
          · cases hstands
            cases hmodal
          · cases hskins
            replace hcame : Function.update f.cameFrom .skins f.mode .skins = .box .settings := hcame
            rw [Function.update_self] at hcame
            exact h.box .settings rfl (Or.inl hcame)
      · intro hm
        cases hm
        cases hmodal
  | @dismiss b hmode hmodal hhelp =>
      rcases Box.mem_over (hways b) with hm | hm | ⟨rfl, hm⟩ | ⟨hb, -⟩
      · exact kept_of_body (Or.inl hm)
      · exact kept_of_body (Or.inr (Or.inr (Or.inl hm)))
      · exact kept_of_settings hm (h.box .settings rfl (Or.inr ⟨rfl, Or.inr ⟨hmode, hm⟩⟩))
      · exact absurd hb hhelp
  | leaveHelp hmode =>
      rcases Box.mem_over (hways .help) with hm | hm | ⟨hb, -⟩ | ⟨-, hm⟩
      · exact kept_of_body (Or.inl hm)
      · exact kept_of_body (Or.inr (Or.inr (Or.inl hm)))
      · cases hb
      · exact kept_of_body (Or.inr (Or.inl hm))
  | goTo hmode hm =>
      rcases hm with rfl | rfl | rfl
      · exact kept_of_body (Or.inl rfl)
      · exact kept_of_body (Or.inr (Or.inr (Or.inl rfl)))
      · exact kept_of_body (Or.inr (Or.inr (Or.inr rfl)))
  | ladder hmode hup =>
      refine ⟨nofun, ?_, fun _ => ⟨rfl, hsettings hmode⟩⟩
      intro b hb hstands
      rcases hstands with hstands | ⟨rfl, -⟩
      · cases hstands
        cases hb
      · exact h.box .settings rfl (Or.inl hmode)
  | leaveLadder hmode =>
      exact kept_of_settings rfl (h.box .settings rfl (Or.inr ⟨rfl, Or.inl hmode⟩))
  | reopen hmode =>
      exact kept_of_settings hmode
        ⟨by simp [put], (h.box .settings rfl (Or.inl hmode)).2⟩

/-! ### What is open, in order -/

/-- What is open is in order. -/
structure Ordered (f : Face) : Prop where
  ways : f.Ways
  shown : f.Shown
  paned : f.Paned
  tidy : f.Tidy
  kept : f.Kept

theorem Ordered.turn (h : f.Ordered) (ht : f.Turn kinds g) : g.Ordered where
  ways := h.ways.turn ht
  shown := h.shown.turn h.ways ht
  paned := by
    intro hd
    rcases pane_turn h.ways ht with hnone | hshown | ⟨hsame, hnot⟩
    · rw [hnone] at hd
      cases hd
    · exact hshown
    · exact absurd (h.paned (hsame ▸ hd)) hnot
  tidy := h.tidy.turn ht
  kept := h.kept.turn h.ways h.shown h.paned h.tidy ht

theorem Ordered.turns (h : f.Ordered) (ht : Relation.ReflTransGen (Turn kinds) f g) : g.Ordered := by
  induction ht with
  | refl => exact h
  | tail _ ht ih => exact ih.turn ht

/-- A form cancelled over a table. -/
theorem Ordered.closeForm (h : f.Ordered) (hmode : f.mode = .fields) (hnone : f.detail = none) :
    f.closeForm.Ordered := by
  obtain ⟨hmenu, hpicker, hform, hconfirm, hpending, hpalette⟩ := h.tidy
  refine ⟨h.ways, nofun, ?_, Bare.tidy ?_, kept_of_body (Or.inl rfl)⟩
  · intro hd
    rw [show f.closeForm.detail = none from hnone] at hd
    cases hd
  · constructor <;> simp_all [Face.closeForm]

/-- A connect that failed while nothing is open. -/
theorem Ordered.goTo (h : f.Ordered) (hbare : f.Bare) (hnone : f.detail = none) {m : Screen.Mode}
    (hm : m = .box .contexts ∨ m = .box .form) : Ordered { f with mode := m } := by
  refine ⟨h.ways, ?_, ?_, Bare.tidy ?_, kept_of_body (Or.inr (Or.inr hm))⟩
  · rcases hm with rfl | rfl <;> exact nofun
  · intro hd
    rw [show Face.detail { f with mode := m } = none from hnone] at hd
    cases hd
  · exact ⟨hbare.menu, hbare.picker, hbare.form, hbare.confirm, hbare.pending, hbare.palette⟩

end Face

namespace Screen

variable {env : Env} {evidence : Evidence} {s t : Screen} {e : Event}

/-- The mode and the boxes agree. -/
structure Agrees (s : Screen) : Prop where
  pane : s.app.detail.isSome = true ↔ s.backgroundMode = .detail
  pending : s.app.pending.isSome = true →
    s.mode = .fields ∧ s.app.form.isSome = true ∨ s.mode = .confirm ∧ s.app.confirm.isSome = true
  form : s.app.form.isSome = true → s.mode = .fields
  confirm : s.app.confirm.isSome = true → s.mode = .confirm
  menu : s.app.menu.isSome = true → s.mode = .menu ∨ s.mode = .fields ∨ s.mode = .confirm
  picker : s.app.picker.isSome = true → s.mode = .picker
  palette : s.up .command = true → s.mode = .box .command

theorem backgroundMode_eq (s : Screen) : s.backgroundMode = s.face.background := by
  unfold backgroundMode Face.background
  rw [show s.app.actingFrom = s.sys.app.actingFrom from rfl, ofInner_actingFrom,
    show s.face.mode = s.mode from rfl]
  cases s.mode with
  | box b => cases b <;> rfl
  | _ => rfl

theorem agrees_of_ordered (h : s.face.Ordered) : s.Agrees where
  pane := by
    rw [backgroundMode_eq]
    exact ⟨h.paned, h.shown⟩
  pending := h.tidy.pending
  form := h.tidy.form
  confirm := h.tidy.confirm
  menu := h.tidy.menu
  picker := h.tidy.picker
  palette := h.tidy.palette

/-! ### What is cancelled -/

/-- The box that has the keys and is cancelled by the way out: one of an action, or another. -/
def modal (s : Screen) : Option (Option Box) :=
  match s.mode with
  | .picker => some none
  | .menu => some none
  | .fields => some none
  | .confirm => some none
  | .box b => if b.modal || b == .ladder then some (some b) else none
  | _ => none

/-- A screen in order over the body, or over the settings, has the shape of its mode and its pane. -/
theorem shape_of_ordered (h : t.face.Ordered)
    (hmode : t.mode = .table ∨ t.mode = .detail ∨ ∃ b, b ≠ .command ∧ t.mode = .box b) :
    t.shape = { mode := t.mode, detail := t.app.detail } := (h.tidy.bare hmode).shape

theorem shape_of_acting (h : t.face.Ordered) (hmode : t.mode = t.face.acting) :
    t.shape = { mode := t.face.acting, detail := t.app.detail } := by
  rw [← hmode]
  refine shape_of_ordered h ?_
  rcases t.face.acting_cases with ⟨-, ha⟩ | ⟨-, ha⟩
  · exact Or.inl (hmode.trans ha)
  · exact Or.inr (Or.inl (hmode.trans ha))

/-- A box closed for the mode it was opened over. -/
theorem shape_of_cameFrom {b : Box} (hb : b.modal = true) (h : s.face.Ordered) (hs : s.mode = .box b)
    (ht : t.face.Ordered) (hmode : t.mode = s.cameFrom b) (hdetail : t.app.detail = s.app.detail) :
    t.shape = s.beneath (some b) := by
  have hbeneath : s.beneath (some b) = { mode := s.cameFrom b, detail := s.app.detail } :=
    (h.kept.box b hb (Or.inl hs)).2
  have hover : t.face.mode ∈ b.overs := by
    rw [show t.face.mode = s.cameFrom b from hmode]
    exact h.ways b
  rw [hbeneath, ← hmode, ← hdetail]
  exact (ht.tidy.bare_of_over hover).shape

/-- What a box other than those of an action leads to when it is closed. -/
theorem shape_of_escBox (h : s.face.Ordered) {b : Box} (hs : s.mode = .box b)
    (hb : b.modal = true ∨ b = .ladder) (ht : (s.escBox b).face.Ordered) :
    (s.escBox b).shape = s.beneath (some b) := by
  have hdismiss : ∀ b : Box, s.mode = .box b → b.modal = true → (s.dismiss b).face.Ordered →
      (s.dismiss b).shape = s.beneath (some b) := by
    intro b hs hb ht
    have hup : s.up b = true := (h.kept.box b hb (Or.inl hs)).1
    have hface := face_dismiss s hup
    exact shape_of_cameFrom hb h hs ht (congrArg Face.mode hface) (congrArg Face.detail hface)
  cases b with
  | contexts => rcases hb with hb | hb <;> cases hb
  | form => rcases hb with hb | hb <;> cases hb
  | help =>
      have hface : (s.escBox .help).face = { s.face with mode := s.cameFrom .help } := face_show s _
      exact shape_of_cameFrom rfl h hs ht (congrArg Face.mode hface) (congrArg Face.detail hface)
  | ladder =>
      obtain ⟨hladder, hbeneath⟩ := h.kept.ladder hs
      have hface : (s.escBox .ladder).face =
          { s.face with mode := .box .settings, ladder := false } := by
        dsimp only [escBox]
        rw [if_pos (show s.ladder.isSome = true from hladder), face_show]
        rfl
      have hmode : (s.escBox .ladder).mode = .box .settings := congrArg Face.mode hface
      rw [shape_of_ordered ht (Or.inr (Or.inr ⟨.settings, nofun, hmode⟩)), hmode,
        show (s.escBox .ladder).app.detail = s.app.detail from congrArg Face.detail hface]
      exact hbeneath.symm
  | skins =>
      have hup : s.up .skins = true := (h.kept.box .skins rfl (Or.inl hs)).1
      have hface := face_dismiss s hup
      have hmode : (s.dismiss .skins).mode = s.cameFrom .skins := congrArg Face.mode hface
      have hdetail : (s.dismiss .skins).app.detail = s.app.detail := congrArg Face.detail hface
      have hleave : s.leaveSkins.mode = s.cameFrom .skins ∧ s.leaveSkins.app.detail = s.app.detail := by
        unfold leaveSkins
        dsimp only
        split
        case isTrue hsettings =>
          have hreopen := face_reopenSettings (s.dismiss .skins)
          refine ⟨?_, (congrArg Face.detail hreopen).trans hdetail⟩
          rw [← hmode, hsettings]
          exact congrArg Face.mode hreopen
        case isFalse => exact ⟨hmode, hdetail⟩
      exact shape_of_cameFrom rfl h hs ht hleave.1 hleave.2
  | command => exact hdismiss .command hs rfl ht
  | journal => exact hdismiss .journal hs rfl ht
  | search => exact hdismiss .search hs rfl ht
  | settings => exact hdismiss .settings hs rfl ht
  | activity => exact hdismiss .activity hs rfl ht

/-- **What is cancelled leaves the screen as it was**, a form over a pane apart. -/
theorem shape_of_cancel (h : s.face.Ordered) {b : Option Box} (hb : s.modal = some b)
    (hpicking : s.picking = false) (hpane : s.mode = .fields → s.app.detail = none)
    (ht : t.face.Ordered) (hesc : s.esc env = some t) : t.shape = s.beneath b := by
  have hchain : ∀ m, s.mode = m → m = .picker ∨ m = .menu ∨ m = .fields ∨ m = .confirm →
      b = none ∧ s.beneath none = { mode := s.face.acting, detail := s.app.detail } := by
    intro m hmode hm
    refine ⟨?_, h.kept.chain (by rw [show s.face.mode = m from hmode]; exact hm)⟩
    rcases hm with rfl | rfl | rfl | rfl <;> simp only [modal, hmode, Option.some.injEq] at hb <;>
      exact hb.symm
  have hlands : t.mode = t.face.acting → t.app.detail = s.app.detail → b = none →
      s.beneath none = { mode := s.face.acting, detail := s.app.detail } → t.shape = s.beneath b := by
    rintro hmode hdetail rfl hbeneath
    have hacting : t.face.acting = s.face.acting := by
      unfold Face.acting
      rw [show t.face.detail = s.face.detail from hdetail]
    rw [shape_of_acting ht hmode, hbeneath, hacting, hdetail]
  rcases esc_cases hesc with ⟨hmode, -⟩ | ⟨hmode, hface⟩ | ⟨hmode, hface⟩ | ⟨-, htrue, -⟩ |
    ⟨hmode, -, hface⟩ | ⟨hmode, hface⟩ | ⟨b', hmode, rfl⟩
  · simp only [modal, hmode] at hb
    cases hb
  · -- a picker is only there without a pane
    obtain ⟨hnone, hbeneath⟩ := hchain _ hmode (Or.inl rfl)
    have hdetail : s.app.detail = none := by
      by_contra hsome
      have hshown := h.paned (Option.isSome_iff_ne_none.2 hsome)
      simp [Face.background, show s.face.mode = .picker from hmode] at hshown
    have htdetail : t.app.detail = s.app.detail := congrArg Face.detail hface
    refine hlands ?_ htdetail hnone hbeneath
    rw [show t.mode = .table from congrArg Face.mode hface, Face.acting,
      show t.face.detail = none from htdetail.trans hdetail]
    rfl
  · obtain ⟨hnone, hbeneath⟩ := hchain _ hmode (Or.inr (Or.inl rfl))
    exact hlands (by rw [hface]; exact congrArg Face.mode hface) (congrArg Face.detail hface) hnone
      hbeneath
  · rw [hpicking] at htrue
    cases htrue
  · obtain ⟨hnone, hbeneath⟩ := hchain _ hmode (Or.inr (Or.inr (Or.inl rfl)))
    have htdetail : t.app.detail = s.app.detail := congrArg Face.detail hface
    refine hlands ?_ htdetail hnone hbeneath
    rw [show t.mode = .table from congrArg Face.mode hface, Face.acting,
      show t.face.detail = none from htdetail.trans (hpane hmode)]
    rfl
  · obtain ⟨hnone, hbeneath⟩ := hchain _ hmode (Or.inr (Or.inr (Or.inr rfl)))
    exact hlands (by rw [hface]; exact congrArg Face.mode hface) (congrArg Face.detail hface) hnone
      hbeneath
  · simp only [modal, hmode] at hb
    split at hb
    case isTrue hmodal =>
      cases hb
      exact shape_of_escBox h hmode (by simpa using hmodal) ht
    case isFalse => cases hb

/-! ### The run -/

theorem ways_step (hs : s.face.Ways) (h : s.step env evidence e = some t) : t.face.Ways := by
  rcases turns_step hs h with hturns | ⟨-, -, -, hface⟩ | ⟨-, m, -, hface⟩
  · exact hs.turns hturns
  · rw [hface]
    exact hs
  · rw [hface]
    exact hs

/-- A form cancelled over a pane, and a connect that fails while the pane or a box of the application is
open. -/
def strays (s : Screen) : Event → Bool
  | .esc => s.mode == .fields && !s.picking && s.app.detail.isSome
  | .connectFailed =>
      s.app.detail.isSome || s.app.menu.isSome || s.app.picker.isSome || s.app.form.isSome ||
        s.app.confirm.isSome || s.app.pending.isSome || s.up .command
  | _ => false

theorem ordered_step (hs : s.face.Ordered) (hguard : s.strays e = false)
    (h : s.step env evidence e = some t) : t.face.Ordered := by
  rcases turns_step hs.ways h with hturns | ⟨rfl, hmode, hpicking, hface⟩ | ⟨rfl, m, hm, hface⟩
  · exact hs.turns hturns
  · rw [hface]
    have hnone : s.app.detail = none := by simpa [strays, hmode, hpicking] using hguard
    exact hs.closeForm hmode hnone
  · simp only [strays, Bool.or_eq_false_iff] at hguard
    obtain ⟨⟨⟨⟨⟨⟨hdetail, hmenu⟩, hpicker⟩, hform⟩, hconfirm⟩, hpending⟩, hpalette⟩ := hguard
    have hnone : s.app.detail = none := by simpa using hdetail
    rw [hface]
    exact hs.goTo ⟨hmenu, hpicker, hform, hconfirm, hpending, hpalette⟩ hnone hm

theorem ordered_init (guardrails : Guardrails) (refreshCfg : Refresh) :
    (init guardrails refreshCfg).face.Ordered where
  ways b := by
    show Mode.box .contexts ∈ b.overs
    cases b <;> decide
  shown := nofun
  paned := nofun
  tidy := ⟨nofun, nofun, nofun, nofun, nofun, nofun⟩
  kept := Face.kept_of_body (Or.inr (Or.inr (Or.inl rfl)))

/-- **The mode and the boxes agree, and what is cancelled leaves the screen as it was**: at the end of
every run in which no form is cancelled over a pane and no connect fails while something is open.  The
boxes of an action are one. -/
theorem agrees_exec {guardrails : Guardrails} {refreshCfg : Refresh} {es : List Event}
    (hguard : Run.Along (step env evidence) (fun s e => s.strays e = false)
      (init guardrails refreshCfg) es)
    (hrun : Run.exec (step env evidence) (init guardrails refreshCfg) es = some t) :
    t.Agrees ∧
      (∀ u b, t.strays .esc = false → t.picking = false → t.modal = some b →
        t.step env evidence .esc = some u → u.shape = t.beneath b) ∧
      ∀ u, t.mode = .fields → t.picking = true → t.step env evidence .esc = some u →
        u.shape = t.shape := by
  have hordered : t.face.Ordered :=
    Run.exec_inv_along (I := fun s => s.face.Ordered)
      (fun s e t hs hguard h => ordered_step hs hguard h) (ordered_init guardrails refreshCfg) hguard hrun
  refine ⟨agrees_of_ordered hordered, fun u b hstays hpicking hmodal hesc => ?_,
    fun u hmode hpicking hesc => ?_⟩
  · refine shape_of_cancel hordered hmodal hpicking (fun hmode => ?_) (ordered_step hordered hstays hesc)
      hesc
    simpa [strays, hmode, hpicking] using hstays
  · rcases esc_cases hesc with ⟨hm, -⟩ | ⟨hm, -⟩ | ⟨hm, -⟩ | ⟨-, -, hface⟩ | ⟨-, hfalse, -⟩ | ⟨hm, -⟩ |
      ⟨b, hm, -⟩
    · rw [hm] at hmode
      cases hmode
    · rw [hm] at hmode
      cases hmode
    · rw [hm] at hmode
      cases hmode
    · exact congrArg Face.shape hface
    · rw [hpicking] at hfalse
      cases hfalse
    · rw [hm] at hmode
      cases hmode
    · rw [hm] at hmode
      cases hmode

/-- Help over the pane of a row. -/
def helpRun : List Event :=
  connecting labSession (.kind actedVmKind) ++ walked 1 [vm "0" "db"] ++ [.openDetail true, .help]

theorem agrees_exec_help :
    ∃ t ∈ Run.exec (step vmEnv taskEvidence) (init {} {}) helpRun, t.mode = .box .help ∧
      t.Agrees ∧ ∃ u ∈ t.step vmEnv taskEvidence .esc, u.mode = .detail ∧
        u.shape = t.beneath (some .help) := by
  have hrun : ∃ t ∈ Run.exec (step vmEnv taskEvidence) (init {} {}) helpRun, t.mode = .box .help ∧
      t.strays .esc = false ∧ t.picking = false ∧ t.modal = some (some .help) ∧
      ∃ u ∈ t.step vmEnv taskEvidence .esc, u.mode = .detail := by decide +kernel
  obtain ⟨t, ht, hmode, hstays, hpicking, hmodal, u, hu, hdetail⟩ := hrun
  have hagrees := agrees_exec (by decide +kernel) ht
  exact ⟨t, ht, hmode, hagrees.1, u, hu, hdetail, hagrees.2.1 u _ hstays hpicking hmodal hu⟩

/-- The menu over a row. -/
def menuRun : List Event :=
  connecting labSession (.kind actedVmKind) ++ walked 1 [vm "0" "db"] ++ [.plain .openMenu]

/-- A form that the menu opened is cancelled for the table, not for the menu. -/
theorem not_restores : ¬ ∀ (env : Env) (evidence : Evidence) (guardrails : Guardrails)
    (refreshCfg : Refresh) (es : List Event) (s : Screen) (e : Event) (t u : Screen),
    Run.exec (step env evidence) (init guardrails refreshCfg) es = some s →
      s.step env evidence e = some t → t.mode ≠ s.mode → t.modal.isSome = true →
        t.step env evidence .esc = some u → u.shape = s.shape := by
  intro h
  have hrun : ∃ s ∈ Run.exec (step vmEnv taskEvidence) (init {} {}) menuRun,
      ∃ t ∈ s.step vmEnv taskEvidence (.plain (.start updateVm)), t.mode ≠ s.mode ∧
        t.modal.isSome = true ∧
        ∃ u ∈ t.step vmEnv taskEvidence .esc, u.shape.mode ≠ s.shape.mode := by decide +kernel
  obtain ⟨s, hs, t, ht, hmode, hmodal, u, hu, hshape⟩ := hrun
  exact hshape (congrArg Shape.mode (h vmEnv taskEvidence {} {} menuRun s _ t u hs ht hmode hmodal hu))

end Screen

end Nutsh
