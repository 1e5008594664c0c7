/-
What an update form starts from.

The form of an update over one row is filled from the row under the cursor, which is not the row the
update is for when that one is marked and the cursor has moved on.

* `Live.document` — the document of a row, where it is listed;
* `App.OpensOver`, `App.StartsFrom` — an update form that opens over one row, and what its fields
  start at;
* `App.startsFrom_iff` — it starts from the row it is for exactly when the cursor is on that row, or
  on one that starts every field of the form alike.
-/
import Nutsh.System.Sites

set_option relaxedAutoImplicit false
set_option autoImplicit false

namespace Nutsh

/-- What a field of an update form starts at over a document: its text there, else its own seed. -/
def startText (codec : Codec) (document : Option Entity) (f : Field) : String :=
  (document.bind fun e => fieldText codec e.raw f.name).getD
    ((f.value.filter fun v => v.toList.head? != some '$').getD "")

theorem seed_currentValues {codec : Codec} {fields : List Field} {f : Field} (hf : f ∈ fields)
    (document : Option Entity) :
    Form.seed (some ((document.map (currentValues codec fields)).getD IndexMap.empty)) f =
      startText codec document f := by
  have hname : f.name ∈ fields.map Field.name := List.mem_map_of_mem hf
  have hnow : ((document.map (currentValues codec fields)).getD IndexMap.empty).get? f.name =
      document.bind fun e => fieldText codec e.raw f.name := by
    cases document with
    | none => rfl
    | some e => simp [get?_currentValues, hname]
  unfold Form.seed startText
  rw [Option.getD_some, hnow]
  cases document.bind fun e => fieldText codec e.raw f.name with
  | some now => rfl
  | none => cases f.value.filter fun v => v.toList.head? != some '$' <;> rfl

namespace Live

variable {live : Live} {key : TableKey} {id : String}

/-- The document of an id, as a context has it. -/
def documentAt (live : Live) (key : TableKey) (o : Option String × String) : Option Entity :=
  match o.1 with
  | none => (live.store.table key).row o.2
  | some name => (live.peerTable key name).row o.2

/-- The document of a row, where it is listed. -/
def document (live : Live) (key : TableKey) (id : String) : Option Entity :=
  (live.origin key id).bind (live.documentAt key)

/-- A row whose id reads back to where it is listed is looked up there. -/
theorem findRow_eq_document (h : live.origin key id = some (splitRowId id)) :
    (live.findRow key id).map Prod.snd = live.document key id := by
  rw [document, h, Option.bind_some, documentAt]
  cases hsplit : splitRowId id with
  | mk site extId =>
      rw [hsplit] at h
      unfold findRow
      rw [hsplit]
      rcases of_origin h with ⟨ho, hkeys⟩ | ⟨-, p, hp, hsite, -⟩
      · cases ho
        obtain ⟨e, he⟩ := Option.isSome_iff_exists.1 (row_isSome hkeys)
        simp [he]
      · obtain rfl : site = some p.name := hsite
        obtain ⟨q, hq⟩ := peer_of_mem hp
        simp only [hq, Option.bind_some, (name_of_peer hq).2, Option.map_map]
        cases (live.peerTable key p.name).row extId <;> rfl

end Live

namespace App

variable {env : Env} {a : App} {action : Action} {r : String × String}

/-- The document of a row of the view, where it is listed. -/
def document (a : App) (id : String) : Option Entity :=
  a.live.bind fun live => a.topKey.bind fun key => live.document key id

/-- An update form that opens over one row. -/
structure OpensOver (env : Env) (a : App) (action : Action) (r : String × String) : Prop where
  update : action.method = .put ∨ action.method = .patch
  closed : a.mode ≠ .fields
  opens : (a.start env action).1.mode = .fields
  one : (a.start env action).1.pending.map Pending.rows = some [r]

/-- The form over an action starts every visible field as the document has it. -/
def StartsFrom (env : Env) (a : App) (action : Action) (document : Option Entity) : Prop :=
  ∃ form ∈ (a.start env action).1.form,
    form.fields = (action.form.filter fun f => !f.hidden) ∧
    form.values = form.fields.map (startText env.codec document)

instance (env : Env) (a : App) (action : Action) (document : Option Entity) :
    Decidable (StartsFrom env a action document) := by
  unfold StartsFrom
  infer_instance

/-- Nothing of a choice but the answer of the roles changes what is under the cursor. -/
theorem selectedEntity_pended (a : App) (pending : Option Pending) :
    selectedEntity env { a.startCanI with pending } = a.selectedEntity env := by
  cases h : a.live with
  | none => simp [selectedEntity, startCanI, mapLive, h]
  | some live => simp [selectedEntity, startCanI, mapLive, h]; rfl

/-- Judging the pending action leaves the mode, opens the dialog, or goes back to the body. -/
theorem mode_confirmOrRun (env : Env) (a : App) : (a.confirmOrRun env).1.mode = a.mode ∨
    (a.confirmOrRun env).1.mode = .confirm ∨ (a.confirmOrRun env).1.mode = a.actingFrom := by
  cases hp : a.pending with
  | none => exact Or.inl (by simp only [confirmOrRun, hp])
  | some p =>
      rcases confirmOrRun_cases env hp with ⟨why, h⟩ | ⟨h, -⟩ | ⟨live, c, k, -, -, -, -, h⟩ |
        ⟨-, h⟩ | h <;> rw [h]
      · exact Or.inr (Or.inr rfl)
      · exact Or.inl rfl
      · exact Or.inr (Or.inl rfl)
      · rcases runPending_cases env a with (⟨h, -⟩ | h) | ⟨live, key, p, s, -, -, -, -, -, h⟩
        · exact Or.inl (by rw [h])
        · exact Or.inr (Or.inr (by rw [h]; rfl))
        · obtain ⟨stack, status, h⟩ := h
          exact Or.inr (Or.inr (by rw [h]; rfl))
      · exact Or.inr (Or.inr rfl)

/-- The body is no box. -/
theorem actingFrom_ne {m : Mode} (hm : m.isBox = true) (a : App) : a.actingFrom ≠ m := by
  intro h
  rw [← h, isBox_actingFrom] at hm
  cases hm

/-- The form that opens over one row is filled from the row under the cursor. -/
theorem form_of_opensOver (h : OpensOver env a action r) :
    (a.start env action).1.form = some (Form.«over» action.title action.form
      (some (((a.selectedEntity env).map (currentValues env.codec action.form)).getD
        IndexMap.empty))) := by
  rcases start_cases env a action with ⟨a', hpend, hstart⟩ |
    ⟨a', p, hpend, hp, ⟨hasks, hstart⟩ | ⟨hasks, hstart⟩⟩
  · have hmode := h.opens
    rw [hstart, mode_of_pend_error hpend] at hmode
    exact absurd hmode h.closed
  · obtain ⟨-, body, rfl⟩ := pend_eq_ok hpend
    cases hp
    have hover := h.one
    rw [hstart] at hover ⊢
    simp only [openForm, Option.map_some, Option.some.injEq] at hover
    simp [openForm, prefill, h.update, hover, selectedEntity_pended]
  · obtain ⟨-, body, rfl⟩ := pend_eq_ok hpend
    have hopens := h.opens
    rw [hstart] at hopens
    rcases mode_confirmOrRun env { a.startCanI with
      pending := some { action, rows := a.startCanI.subjects env, body } } with hm | hm | hm <;>
      rw [hm] at hopens
    · exact absurd hopens h.closed
    · cases hopens
    · exact absurd hopens (actingFrom_ne rfl _)

/-- The form starts as a document has its fields exactly when that document starts them as the one
under the cursor. -/
theorem startsFrom_iff_agree (h : OpensOver env a action r) (document : Option Entity) :
    StartsFrom env a action document ↔ ∀ f ∈ action.form, f.hidden = false →
      startText env.codec (a.selectedEntity env) f = startText env.codec document f := by
  have hform := form_of_opensOver h
  have hseed : ∀ f ∈ action.form.filter fun f => !f.hidden,
      Form.seed (some (((a.selectedEntity env).map (currentValues env.codec action.form)).getD
        IndexMap.empty)) f = startText env.codec (a.selectedEntity env) f := by
    intro f hf
    exact seed_currentValues (List.mem_of_mem_filter hf) _
  unfold StartsFrom
  rw [hform]
  constructor
  · rintro ⟨form, hform, hfields, hvalues⟩ f hf hhidden
    cases hform
    have hmem : f ∈ action.form.filter fun f => !f.hidden := List.mem_filter.2 ⟨hf, by simp [hhidden]⟩
    have hvalue := List.map_inj_left.1 hvalues f hmem
    rw [← hvalue, hseed f hmem]
  · intro hagree
    refine ⟨_, rfl, rfl, ?_⟩
    refine List.map_inj_left.2 ?_
    intro f hf
    have hmem := List.mem_filter.1 hf
    rw [hseed f hf]
    exact hagree f hmem.1 (by simpa using hmem.2)

/-- The cursor is on the row of an id, and the id reads back to where the row is listed. -/
def CursorOn (env : Env) (a : App) (id : String) : Prop :=
  a.selectedExtId env = some id ∧
    ∃ live ∈ a.live, ∃ key ∈ a.topKey, live.origin key id = some (splitRowId id)

instance (env : Env) (a : App) (id : String) : Decidable (CursorOn env a id) := by
  unfold CursorOn
  infer_instance

/-- What is under the cursor on a row is its document. -/
theorem selectedEntity_of_cursorOn {id : String} (h : CursorOn env a id) :
    a.selectedEntity env = a.document id := by
  obtain ⟨hid, live, hlive, key, hkey, ho⟩ := h
  have hl : a.live = some live := hlive
  have hk : live.topKey = some key := by
    have hk : a.live.bind Live.topKey = some key := hkey
    rwa [hl] at hk
  obtain ⟨c, hc, rfl⟩ := Live.cursor_of_topKey hk
  have hsel : live.selectedExtId env a.now = some id := by
    rwa [selectedExtId, hl] at hid
  have hentity : a.selectedEntity env = (live.findRow c.key id).map Prod.snd := by
    simp [selectedEntity, hl, Live.selectedEntity, hc, hsel]
  rw [hentity, Live.findRow_eq_document ho, document, hl, Option.bind_some, Option.mem_def.1 hkey]
  rfl

/-- **The prefill**: an update form over one row starts from the document of that row exactly when the
cursor is on it, or on a row whose document starts every visible field of the form alike. -/
theorem startsFrom_iff (h : OpensOver env a action r) :
    StartsFrom env a action (a.document r.1) ↔
      CursorOn env a r.1 ∨ ∀ f ∈ action.form, f.hidden = false →
        startText env.codec (a.selectedEntity env) f = startText env.codec (a.document r.1) f := by
  rw [startsFrom_iff_agree h]
  constructor
  · intro hagree
    exact Or.inr hagree
  · rintro (hcursor | hagree)
    · intro f _ _
      rw [selectedEntity_of_cursorOn hcursor]
    · exact hagree

/-- The update of the row under the cursor, nothing marked. -/
theorem startsFrom_cursor : ∃ t ∈ Run.exec (System.step vmEnv) (System.init {})
      (merging prodSession [vm "0" "db", vm "1" "web"] []),
    StartsFrom vmEnv t.app updateVm (t.app.document "0") := by
  have hrun : ∃ t ∈ Run.exec (System.step vmEnv) (System.init {})
      (merging prodSession [vm "0" "db", vm "1" "web"] []), t.app.mode ≠ .fields ∧
      (t.app.start vmEnv updateVm).1.mode = .fields ∧
      (t.app.start vmEnv updateVm).1.pending.map Pending.rows = some [("0", "db")] ∧
      CursorOn vmEnv t.app "0" := by decide
  obtain ⟨t, ht, hclosed, hopens, hover, hcursor⟩ := hrun
  exact ⟨t, ht, (startsFrom_iff ⟨Or.inl rfl, hclosed, hopens, hover⟩).2 (Or.inl hcursor)⟩

/-- A row is marked, which moves the cursor on: the update of the marked row starts from the next. -/
theorem not_startsFrom : ¬ ∀ (env : Env) (a : App) (action : Action) (r : String × String),
    OpensOver env a action r → StartsFrom env a action (a.document r.1) := by
  intro h
  have hrun : ∃ t ∈ Run.exec (System.step vmEnv) (System.init {})
      (merging prodSession [vm "0" "db", vm "1" "web"] [] ++ [.browse .toggleMark]), t.app.mode ≠ .fields ∧
      (t.app.start vmEnv updateVm).1.mode = .fields ∧
      (t.app.start vmEnv updateVm).1.pending.map Pending.rows = some [("0", "db")] ∧
      ¬ StartsFrom vmEnv t.app updateVm (t.app.document "0") := by decide
  obtain ⟨t, -, hclosed, hopens, hover, hnot⟩ := hrun
  exact hnot (h vmEnv t.app updateVm ("0", "db") ⟨Or.inl rfl, hclosed, hopens, hover⟩)

end App

end Nutsh
