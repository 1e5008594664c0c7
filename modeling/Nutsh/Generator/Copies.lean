/-
What a copied action asks before it runs.

Copies are taken in a first pass over the overlay and actions are curated in a second one.  A copy therefore
has the danger, the confirmation and the form its source was generated with, whatever the curator makes of the
source afterwards.

* `risk`, `look` — how dangerous an action is, what is asked before it and what for;
* `CopiedFrom` — the generated action at the end of a chain of copies;
* `look_copied`, `look_curated` — what the two passes leave under a name;
* `inherits_iff` — a copy ends as its source does exactly where the curator leaves the source.
-/
import Nutsh.Generator.Sound

set_option relaxedAutoImplicit false
set_option autoImplicit false

namespace Nutsh.Generator

open Passes (pass accepted modifyFirst)

/-- The action of a name of the kind of an id. -/
def actionOf (kinds : List KindModel) (id name : String) : Option ActionModel :=
  (kinds.find? (ofId id)).bind fun k => k.actions.find? (ofName name)

/-- What the curator writes about an action. -/
def entryOf (overlay : Overlay) (id name : String) : Option ActionOverlay :=
  (overlay.kinds.get? id).bind fun o => o.actions.get? name

/-- The kind and the name a source is given by. -/
def sourceOf (id source : String) : String × String := (Text.splitOnce ":" source).getD (id, source)

/-- An action copied from a source, and given no danger, no confirmation and no form of its own. -/
structure PlainCopy (overlay : Overlay) (id name source : String) (o : ActionOverlay) : Prop where
  entry : entryOf overlay id name = some o
  source : o.from = some source
  danger : o.danger = none
  confirm : o.confirm = none
  form : o.form = []

/-- Every such copy ends with the danger and the form its source ends with, and with a confirmation as strong. -/
def Inherits (overlay : Overlay) (result : List KindModel) : Prop :=
  ∀ id name source o, PlainCopy overlay id name source o →
    ∃ copy origin, actionOf result id name = some copy ∧
      actionOf result (sourceOf id source).1 (sourceOf id source).2 = some origin ∧
      copy.danger = origin.danger ∧ origin.confirm ≤ copy.confirm ∧ copy.form = origin.form

/-- The action of the kinds that an action is, or is copied from, one copy after the other. -/
inductive CopiedFrom (overlay : Overlay) (kinds : List KindModel) : String → String → ActionModel → Prop
  | own {id name : String} {a : ActionModel} (h : actionOf kinds id name = some a) :
      CopiedFrom overlay kinds id name a
  | copy {id name source : String} {o : ActionOverlay} {a : ActionModel} (entry : entryOf overlay id name = some o)
      (hsource : o.from = some source)
      (h : CopiedFrom overlay kinds (sourceOf id source).1 (sourceOf id source).2 a) :
      CopiedFrom overlay kinds id name a

/-- The curator gives an action no danger but the one it has, no confirmation stronger than that danger asks
for, and no form but the one it has. -/
structure Leaves (o : ActionOverlay) (a : ActionModel) : Prop where
  danger : ∀ d, (o.danger.bind fun d => DANGERS.lookup d) = some d → d = a.danger
  confirm : ∀ c, (o.confirm.bind fun c => CONFIRMS.lookup c) = some c → c ≤ confirmFloor a.danger
  form : o.form = [] ∨ o.form.map (curatedField a.form) = a.form

/-- The curator leaves the source of a copy, or says nothing about it and nothing stronger than its danger asks
for is asked before it. -/
def LeavesSource (overlay : Overlay) (id source : String) (a : ActionModel) : Prop :=
  match entryOf overlay (sourceOf id source).1 (sourceOf id source).2 with
  | some o => Leaves o a
  | none => a.confirm ≤ confirmFloor a.danger

/-! ### What is found under a name -/

/-- How dangerous an action is, what is asked before it, and the form it asks with. -/
def risk (a : ActionModel) : Danger × ConfirmKind × List FieldModel := (a.danger, a.confirm, a.form)

/-- The risk of what is found under a name. -/
def look (kinds : List KindModel) (id name : String) : Option (Danger × ConfirmKind × List FieldModel) :=
  (actionOf kinds id name).map risk

section
variable {kinds t : List KindModel} {id name i n : String} {f : KindModel → KindModel}

theorem actionOf_modifyFirst_self (hf : ∀ k, ofId id (f k) = ofId id k) :
    actionOf (modifyFirst (ofId id) f kinds) id n =
      (kinds.find? (ofId id)).bind fun k => (f k).actions.find? (ofName n) := by
  rw [actionOf, Passes.find?_modifyFirst hf]
  cases kinds.find? (ofId id) <;> rfl

theorem actionOf_modifyFirst_of_ne (hf : ∀ k, ofId i (f k) = ofId i k) (h : i ≠ id) :
    actionOf (modifyFirst (ofId id) f kinds) i n = actionOf kinds i n := by
  rw [actionOf, Passes.find?_modifyFirst_of_disjoint hf, actionOf]
  intro k hk
  rw [ofId, beq_iff_eq] at hk
  rw [ofId, hk]
  exact beq_false_of_ne h.symm

/-- What is changed in a kind and is not seen under any name of it leaves all that is found. -/
theorem look_modifyFirst (hf : ∀ i k, ofId i (f k) = ofId i k)
    (hactions : ∀ k n, ((f k).actions.find? (ofName n)).map risk = (k.actions.find? (ofName n)).map risk) :
    look (modifyFirst (ofId id) f kinds) i n = look kinds i n := by
  rcases eq_or_ne i id with rfl | hne
  · rw [look, look, actionOf_modifyFirst_self (hf i), actionOf]
    cases kinds.find? (ofId i) with
    | none => rfl
    | some k => exact hactions k n
  · rw [look, actionOf_modifyFirst_of_ne (hf i) hne, look]

/-- Sorting leaves the first action of a name. -/
theorem find?_sortByName (actions : List ActionModel) (n : String) :
    (sortByName actions).find? (ofName n) = actions.find? (ofName n) := by
  have hinsert (a : ActionModel) (l : List ActionModel) :
      (l.orderedInsert (fun a b => a.name ≤ b.name) a).find? (ofName n) = (a :: l).find? (ofName n) := by
    induction l with
    | nil => rfl
    | cons b l ih =>
        rw [List.orderedInsert]
        split_ifs with hle
        · rfl
        · rw [List.find?_cons, ih, List.find?_cons, List.find?_cons, List.find?_cons]
          cases hb : ofName n b with
          | false => rfl
          | true =>
              -- two of the name would be in order
              cases ha : ofName n a with
              | false => rfl
              | true =>
                  rw [ofName, beq_iff_eq] at ha hb
                  exact absurd (ha.trans hb.symm).le hle
  induction actions with
  | nil => rfl
  | cons a actions ih =>
      rw [sortByName, List.insertionSort_cons, hinsert, List.find?_cons, List.find?_cons, ← sortByName, ih]

theorem find?_clearUnfetchableEtags (k : KindModel) (n : String) :
    ((clearUnfetchableEtags k).actions.find? (ofName n)).map risk = (k.actions.find? (ofName n)).map risk := by
  rw [clearUnfetchableEtags, List.find?_map, Option.map_map]
  rfl

theorem look_settle : look (modifyFirst (ofId id) settle kinds) i n = look kinds i n := by
  refine look_modifyFirst (fun _ _ => rfl) fun k n => ?_
  rw [settle, find?_sortByName, find?_clearUnfetchableEtags]

end

/-! ### Copies -/

theorem ofId_pushAction (i : String) (c : ActionModel) (k : KindModel) : ofId i (pushAction c k) = ofId i k := rfl

/-- What one entry copies: nothing, or the action found under its source to a name nothing is found under. -/
theorem copyAction_source {id : String} {kinds t : List KindModel} {e : String × ActionOverlay}
    (h : accepted (copyAction id) kinds e = some t) :
    (e.2.from = none ∧ t = kinds) ∨
      ∃ source c, e.2.from = some source ∧ actionOf kinds id e.1 = none ∧
        actionOf kinds (sourceOf id source).1 (sourceOf id source).2 = some c ∧
        t = modifyFirst (ofId id) (pushAction { c with name := e.1, key := "", label := "" }) kinds := by
  obtain ⟨name, o⟩ := e
  rw [Passes.accepted_eq_some, copyAction] at h
  cases hfrom : o.from with
  | none =>
      rw [hfrom] at h
      exact .inl ⟨rfl, (Prod.mk.inj h).1.symm⟩
  | some source =>
      rw [hfrom] at h
      dsimp only at h
      split_ifs at h with hdup
      · cases (Prod.mk.inj h).2
      · split at h
        · cases (Prod.mk.inj h).2
        · rename_i c hc
          refine .inr ⟨source, c, rfl, ?_, hc, (Prod.mk.inj h).1.symm⟩
          rw [actionOf, Option.bind_eq_none_iff]
          intro k hk
          rw [hk, Option.any_some] at hdup
          exact List.find?_eq_none.2 fun a ha hname => hdup (List.any_eq_true.2 ⟨a, ha, hname⟩)

/-- What is found under the name of a copy, once it is there. -/
theorem look_pushAction {kinds : List KindModel} {id name : String} {c : ActionModel} (hname : c.name = name)
    (hnone : actionOf kinds id name = none) (hknown : (kinds.find? (ofId id)).isSome = true) :
    look (modifyFirst (ofId id) (pushAction c) kinds) id name = some (risk c) := by
  obtain ⟨k, hk⟩ := Option.isSome_iff_exists.1 hknown
  rw [actionOf, hk, Option.bind_some] at hnone
  have hc : ofName name c = true := beq_iff_eq.2 hname
  rw [look, actionOf_modifyFirst_self (ofId_pushAction id c), hk, Option.bind_some, pushAction, List.find?_append,
    hnone, Option.none_or, List.find?_cons, hc, Option.map_some]

theorem look_pushAction_of_ne {kinds : List KindModel} {id name i n : String} {c : ActionModel}
    (hname : c.name = name) (hne : (i, n) ≠ (id, name)) :
    look (modifyFirst (ofId id) (pushAction c) kinds) i n = look kinds i n := by
  rcases eq_or_ne i id with rfl | hi
  · have hn : ofName n c = false := by
      rw [ofName, hname]
      exact beq_false_of_ne fun he => hne (Prod.ext rfl he.symm)
    rw [look, actionOf_modifyFirst_self (ofId_pushAction i c), look, actionOf]
    cases kinds.find? (ofId i) with
    | none => rfl
    | some k => rw [Option.bind_some, Option.bind_some, pushAction, List.find?_append, List.find?_cons, hn,
        List.find?_nil, Option.or_none]
  · rw [look, actionOf_modifyFirst_of_ne (ofId_pushAction i c) hi, look]

/-- The state of the kinds while copies are taken. -/
structure Copying (overlay : Overlay) (base s : List KindModel) : Prop where
  ids : s.map KindModel.id = base.map KindModel.id
  own : ∀ i n x, look base i n = some x → look s i n = some x
  copied : ∀ i n x, look s i n = some x → ∃ a, CopiedFrom overlay base i n a ∧ risk a = x

/-- What is found stays. -/
def Stays (s t : List KindModel) : Prop := ∀ i n x, look s i n = some x → look t i n = some x

/-- A copy is found, and what it is a copy of, at the same risk. -/
def Taken (t : List KindModel) (id name : String) (o : ActionOverlay) : Prop :=
  ∀ source, o.from = some source →
    ∃ x, look t id name = some x ∧ look t (sourceOf id source).1 (sourceOf id source).2 = some x

theorem Stays.trans {s t u : List KindModel} (h : Stays s t) (h' : Stays t u) : Stays s u :=
  fun i n x hx => h' i n x (h i n x hx)

theorem Taken.stays {s t : List KindModel} {id name : String} {o : ActionOverlay} (h : Taken s id name o)
    (hst : Stays s t) : Taken t id name o := fun source hsource =>
  (h source hsource).imp fun x hx => ⟨hst _ _ x hx.1, hst _ _ x hx.2⟩

theorem find?_isSome_of_ids {s t : List KindModel} (h : s.map KindModel.id = t.map KindModel.id) (id : String) :
    (s.find? (ofId id)).isSome = (t.find? (ofId id)).isSome := by
  have hfind (l : List KindModel) : (l.find? (ofId id)).isSome = (l.map KindModel.id).contains id := by
    rw [Bool.eq_iff_iff, List.find?_isSome, List.contains_iff_mem, List.mem_map]
    simp only [ofId, beq_iff_eq]
  rw [hfind, hfind, h]

section
variable {overlay : Overlay} {base : List KindModel}

/-- One entry of a kind, copied or not. -/
theorem copying_copyAction {id : String} {s t : List KindModel} {e : String × ActionOverlay}
    (hentry : entryOf overlay id e.1 = some e.2) (hs : Copying overlay base s)
    (hknown : (base.find? (ofId id)).isSome = true) (h : accepted (copyAction id) s e = some t) :
    Copying overlay base t ∧ Stays s t ∧ Taken t id e.1 e.2 := by
  rcases copyAction_source h with ⟨hfrom, rfl⟩ | ⟨source, c, hfrom, hnone, hc, rfl⟩
  · refine ⟨hs, fun _ _ _ hx => hx, fun source hsource => ?_⟩
    rw [hfrom] at hsource
    cases hsource
  · have hname : ({ c with name := e.1, key := "", label := "" } : ActionModel).name = e.1 := rfl
    have hlook : look s id e.1 = none := by rw [look, hnone, Option.map_none]
    have hfound : look s (sourceOf id source).1 (sourceOf id source).2 = some (risk c) := by
      rw [look, hc, Option.map_some]
    have hcopy := look_pushAction hname hnone ((find?_isSome_of_ids hs.ids id).trans hknown)
    have hstays : Stays s (modifyFirst (ofId id) (pushAction { c with name := e.1, key := "", label := "" }) s) := by
      intro i n x hx
      rw [look_pushAction_of_ne hname, hx]
      intro he
      obtain ⟨rfl, rfl⟩ := Prod.mk.inj he
      rw [hlook] at hx
      cases hx
    refine ⟨⟨?_, fun i n x hx => hstays i n x (hs.own i n x hx), fun i n x hx => ?_⟩, hstays, ?_⟩
    · exact (Passes.map_modifyFirst (f := pushAction _) (g := KindModel.id) fun _ => rfl).trans hs.ids
    · by_cases he : (i, n) = (id, e.1)
      · obtain ⟨rfl, rfl⟩ := Prod.mk.inj he
        obtain ⟨a, ha, hrisk⟩ := hs.copied _ _ _ hfound
        rw [hcopy] at hx
        exact ⟨a, .copy hentry hfrom ha, hrisk.trans (Option.some.inj hx)⟩
      · rw [look_pushAction_of_ne hname he] at hx
        exact hs.copied i n x hx
    · intro source' hsource'
      obtain rfl := Option.some.inj (hfrom.symm.trans hsource')
      exact ⟨risk c, hcopy, hstays _ _ _ hfound⟩

/-- The entries of a kind, one after the other. -/
theorem copying_entries {id : String} (hknown : (base.find? (ofId id)).isSome = true)
    {es : List (String × ActionOverlay)} (hes : ∀ e ∈ es, entryOf overlay id e.1 = some e.2)
    {s t : List KindModel} (hs : Copying overlay base s) (h : Run.exec (accepted (copyAction id)) s es = some t) :
    Copying overlay base t ∧ Stays s t ∧ ∀ e ∈ es, Taken t id e.1 e.2 := by
  induction es generalizing s with
  | nil =>
      obtain rfl := Option.some.inj h
      exact ⟨hs, fun _ _ _ hx => hx, by simp⟩
  | cons e es ih =>
      obtain ⟨he, hes⟩ := List.forall_mem_cons.1 hes
      obtain ⟨u, hu, h⟩ := Run.exec_cons_eq_some.1 h
      obtain ⟨hcopying, hstays, htaken⟩ := copying_copyAction he hs hknown hu
      obtain ⟨hend, hrest, hall⟩ := ih hes hcopying h
      exact ⟨hend, hstays.trans hrest, List.forall_mem_cons.2 ⟨htaken.stays hrest, hall⟩⟩

/-- A kind, its copies taken and settled. -/
theorem copying_copyStep {s t : List KindModel} {e : String × KindOverlay}
    (hentry : overlay.kinds.get? e.1 = some e.2) (hs : Copying overlay base s)
    (hknown : (base.find? (ofId e.1)).isSome = true) (h : accepted copyStep s e = some t) :
    Copying overlay base t ∧ Stays s t ∧ ∀ a ∈ e.2.actions.entries, Taken t e.1 a.1 a.2 := by
  obtain ⟨id, o⟩ := e
  rw [Passes.accepted_eq_some, copyStep] at h
  obtain ⟨k, hk⟩ := Option.isSome_iff_exists.1 ((find?_isSome_of_ids hs.ids id).trans hknown)
  rw [hk] at h
  obtain ⟨rfl, hproblems⟩ := Prod.mk.inj h
  have hrun := Passes.exec_of_pass (Prod.ext rfl hproblems :
    pass (copyAction id) s o.actions.entries = ((pass (copyAction id) s o.actions.entries).1, []))
  have hes : ∀ e ∈ o.actions.entries, entryOf overlay id e.1 = some e.2 := fun e he => by
    rw [entryOf, hentry]
    exact IndexMap.get?_of_mem he
  obtain ⟨hcopying, hstays, htaken⟩ := copying_entries hknown hes hs hrun
  have hsettled : Stays (pass (copyAction id) s o.actions.entries).1
      (modifyFirst (ofId id) settle (pass (copyAction id) s o.actions.entries).1) :=
    fun i n x hx => look_settle.trans hx
  refine ⟨⟨?_, fun i n x hx => hsettled i n x (hcopying.own i n x hx), fun i n x hx => ?_⟩,
    hstays.trans hsettled, fun a ha => (htaken a ha).stays hsettled⟩
  · exact (Passes.map_modifyFirst (f := settle) (g := KindModel.id) fun _ => rfl).trans hcopying.ids
  · rw [look_settle] at hx
    exact hcopying.copied i n x hx

/-- All kinds, one after the other. -/
theorem copying_kinds {es : List (String × KindOverlay)}
    (hes : ∀ e ∈ es, overlay.kinds.get? e.1 = some e.2 ∧ (base.find? (ofId e.1)).isSome = true)
    {s t : List KindModel} (hs : Copying overlay base s) (h : Run.exec (accepted copyStep) s es = some t) :
    Copying overlay base t ∧ Stays s t ∧ ∀ e ∈ es, ∀ a ∈ e.2.actions.entries, Taken t e.1 a.1 a.2 := by
  induction es generalizing s with
  | nil =>
      obtain rfl := Option.some.inj h
      exact ⟨hs, fun _ _ _ hx => hx, by simp⟩
  | cons e es ih =>
      obtain ⟨⟨hentry, hknown⟩, hes⟩ := List.forall_mem_cons.1 hes
      obtain ⟨u, hu, h⟩ := Run.exec_cons_eq_some.1 h
      obtain ⟨hcopying, hstays, htaken⟩ := copying_copyStep hentry hs hknown hu
      obtain ⟨hend, hrest, hall⟩ := ih hes hcopying h
      exact ⟨hend, hstays.trans hrest, List.forall_mem_cons.2 ⟨fun a ha => (htaken a ha).stays hrest, hall⟩⟩

/-- All copies of an overlay that is accepted. -/
theorem copying_all {t : List KindModel} (hknown : ∀ id ∈ overlay.kinds.keys, (base.find? (ofId id)).isSome = true)
    (h : Run.exec (accepted copyStep) base overlay.kinds.entries = some t) :
    Copying overlay base t ∧ ∀ id name o, entryOf overlay id name = some o → Taken t id name o := by
  have hbegin : Copying overlay base base := by
    refine ⟨rfl, fun _ _ _ hx => hx, fun i n x hx => ?_⟩
    obtain ⟨a, ha, hrisk⟩ := Option.map_eq_some_iff.1 hx
    exact ⟨a, .own ha, hrisk⟩
  obtain ⟨hcopying, -, htaken⟩ := copying_kinds
    (fun e he => ⟨IndexMap.get?_of_mem he, hknown _ (List.mem_map_of_mem he)⟩) hbegin h
  refine ⟨hcopying, fun id name o hentry => ?_⟩
  obtain ⟨k, hk, ho⟩ := Option.bind_eq_some_iff.1 hentry
  exact htaken _ (IndexMap.mem_entries_iff.2 hk) _ (IndexMap.mem_entries_iff.2 ho)

/-- **What the first pass leaves.**  Under a name stands what the chain of its copies begins with. -/
theorem look_copied {t : List KindModel} (hknown : ∀ id ∈ overlay.kinds.keys, (base.find? (ofId id)).isSome = true)
    (h : Run.exec (accepted copyStep) base overlay.kinds.entries = some t) {i n : String}
    {x : Danger × ConfirmKind × List FieldModel} :
    look t i n = some x ↔ ∃ a, CopiedFrom overlay base i n a ∧ risk a = x := by
  obtain ⟨hcopying, htaken⟩ := copying_all hknown h
  refine ⟨hcopying.copied i n x, ?_⟩
  rintro ⟨a, ha, rfl⟩
  induction ha with
  | own ha => exact hcopying.own _ _ _ (by rw [look, ha, Option.map_some])
  | copy hentry hsource _ ih =>
      obtain ⟨x, hx, horigin⟩ := htaken _ _ _ hentry _ hsource
      rw [hx, ← horigin, ih]

end

/-! ### Curation -/

/-- A risk, curated. -/
def curatedRisk (o : ActionOverlay) (x : Danger × ConfirmKind × List FieldModel) :
    Danger × ConfirmKind × List FieldModel :=
  let danger := (o.danger.bind fun d => DANGERS.lookup d).getD x.1
  (danger, (o.confirm.bind fun c => CONFIRMS.lookup c).getD (confirmFloor danger), applyForm o.form x.2.2)

theorem look_curate_self (kinds : List KindModel) (id name : String) (o : ActionOverlay) :
    look (curate kinds (id, name, o)) id name = (look kinds id name).map (curatedRisk o) := by
  rw [look, curate, actionOf_modifyFirst_self (ofId_curateIn id name o), look, actionOf]
  cases kinds.find? (ofId id) with
  | none => rfl
  | some k =>
      rw [Option.bind_some, Option.bind_some, curateIn, Passes.find?_modifyFirst (ofName_curated name o),
        Option.map_map, Option.map_map]
      rfl

theorem look_curate_of_ne (kinds : List KindModel) {c : String × String × ActionOverlay} {i n : String}
    (h : (c.1, c.2.1) ≠ (i, n)) : look (curate kinds c) i n = look kinds i n := by
  obtain ⟨id, name, o⟩ := c
  rcases eq_or_ne i id with rfl | hi
  · have hname : name ≠ n := fun he => h (Prod.ext rfl he)
    rw [look, curate, actionOf_modifyFirst_self (ofId_curateIn i name o), look, actionOf]
    cases kinds.find? (ofId i) with
    | none => rfl
    | some k =>
        rw [Option.bind_some, Option.bind_some, curateIn,
          Passes.find?_modifyFirst_of_disjoint (ofName_curated n o)]
        intro a ha
        rw [ofName, beq_iff_eq] at ha
        rw [ofName, ha]
        exact beq_false_of_ne hname
  · rw [look, curate, actionOf_modifyFirst_of_ne (ofId_curateIn i name o) hi, look]

theorem look_foldl_of_ne {cs : List (String × String × ActionOverlay)} {i n : String}
    (h : ∀ c ∈ cs, (c.1, c.2.1) ≠ (i, n)) (kinds : List KindModel) :
    look (cs.foldl curate kinds) i n = look kinds i n := by
  induction cs generalizing kinds with
  | nil => rfl
  | cons c cs ih =>
      obtain ⟨hc, hcs⟩ := List.forall_mem_cons.1 h
      rw [List.foldl_cons, ih hcs, look_curate_of_ne kinds hc]

theorem mem_curations {overlay : Overlay} {id name : String} {o : ActionOverlay} :
    (id, name, o) ∈ curations overlay ↔ entryOf overlay id name = some o := by
  rw [entryOf, Option.bind_eq_some_iff, curations, List.mem_flatMap]
  constructor
  · rintro ⟨⟨i, k⟩, hk, hmem⟩
    obtain ⟨⟨n, a⟩, ha, heq⟩ := List.mem_map.1 hmem
    obtain ⟨rfl, rfl, rfl⟩ : i = id ∧ n = name ∧ a = o := by simpa using heq
    exact ⟨k, IndexMap.get?_of_mem hk, IndexMap.get?_of_mem ha⟩
  · rintro ⟨k, hk, ha⟩
    exact ⟨(id, k), IndexMap.mem_entries_iff.2 hk,
      List.mem_map.2 ⟨(name, o), IndexMap.mem_entries_iff.2 ha, rfl⟩⟩

/-- **What the second pass leaves.**  Each name is curated once, by its own entry. -/
theorem look_curated (overlay : Overlay) (kinds : List KindModel) (i n : String) :
    look ((curations overlay).foldl curate kinds) i n =
      (look kinds i n).map fun x => ((entryOf overlay i n).map fun o => curatedRisk o x).getD x := by
  cases hentry : entryOf overlay i n with
  | none =>
      rw [look_foldl_of_ne]
      · exact Option.map_id'.symm
      · rintro ⟨id, name, o⟩ hc he
        obtain ⟨rfl, rfl⟩ := Prod.mk.inj he
        rw [mem_curations.1 hc] at hentry
        cases hentry
  | some o =>
      obtain ⟨before, later, hsplit⟩ := List.append_of_mem (mem_curations.2 hentry)
      have hnodup := nodup_curations overlay
      rw [hsplit, List.map_append, List.map_cons] at hnodup
      have hbefore : ∀ c ∈ before, (c.1, c.2.1) ≠ (i, n) := fun c hc he =>
        (List.nodup_append.1 hnodup).2.2 _ (List.mem_map_of_mem hc) _ List.mem_cons_self he
      have hlater : ∀ c ∈ later, (c.1, c.2.1) ≠ (i, n) := fun c hc he =>
        (List.nodup_cons.1 hnodup.of_append_right).1
          (he ▸ List.mem_map_of_mem (f := fun c : String × String × ActionOverlay => (c.1, c.2.1)) hc)
      rw [hsplit, List.foldl_append, List.foldl_cons, look_foldl_of_ne hlater, look_curate_self,
        look_foldl_of_ne hbefore]
      rfl

/-! ### What a copy ends with -/

/-- The states an overlay that is accepted goes through. -/
theorem applyOverlay_states {others : List String} {overlay : Overlay} {kinds result : List KindModel}
    (h : applyOverlay others overlay kinds = .ok result) :
    (∀ id ∈ overlay.kinds.keys, (kinds.find? (ofId id)).isSome = true) ∧
      Run.exec (accepted copyStep) kinds overlay.kinds.entries =
        some (pass copyStep kinds overlay.kinds.entries).1 ∧
      result = (curations overlay).foldl curate (pass copyStep kinds overlay.kinds.entries).1 := by
  rw [applyOverlay] at h
  obtain ⟨hresult, hproblems⟩ := refuse_eq_ok h
  obtain ⟨hfirst, -⟩ := List.append_eq_nil_iff.1 hproblems
  obtain ⟨hunknown, hcopying⟩ := List.append_eq_nil_iff.1 hfirst
  refine ⟨fun id hid => ?_, Passes.exec_of_pass (Prod.ext rfl hcopying), ?_⟩
  · have hnone := (List.append_eq_nil_iff.1 hunknown).2
    rw [List.map_eq_nil_iff, List.filter_eq_nil_iff] at hnone
    rw [← Option.not_isNone, Bool.not_eq_true', Bool.eq_false_iff]
    exact hnone id hid
  · rw [← pass_curateStep_fst]
    exact hresult.symm

/-- A copy without risks of its own, and a source that was curated, compared. -/
theorem leaves_iff {o copy : ActionOverlay} {a : ActionModel} (hdanger : copy.danger = none)
    (hconfirm : copy.confirm = none) (hform : copy.form = []) :
    Leaves o a ↔ (curatedRisk copy (risk a)).1 = (curatedRisk o (risk a)).1 ∧
      (curatedRisk o (risk a)).2.1 ≤ (curatedRisk copy (risk a)).2.1 ∧
      (curatedRisk copy (risk a)).2.2 = (curatedRisk o (risk a)).2.2 := by
  have hcopy : curatedRisk copy (risk a) = (a.danger, confirmFloor a.danger, a.form) := by
    rw [curatedRisk, hdanger, hconfirm, hform]
    rfl
  have hforms : applyForm o.form a.form = a.form ↔ o.form = [] ∨ o.form.map (curatedField a.form) = a.form := by
    rw [applyForm]
    cases o.form <;> simp
  rw [hcopy]
  simp only [curatedRisk, risk]
  constructor
  · rintro ⟨hd, hc, hf⟩
    have hdanger : (o.danger.bind fun d => DANGERS.lookup d).getD a.danger = a.danger := by
      cases h : o.danger.bind fun d => DANGERS.lookup d with
      | none => rfl
      | some d => exact hd d h
    rw [hdanger]
    refine ⟨rfl, ?_, (hforms.2 hf).symm⟩
    cases h : o.confirm.bind fun c => CONFIRMS.lookup c with
    | none => exact le_rfl
    | some c => exact hc c h
  · rintro ⟨hd, hc, hf⟩
    rw [← hd] at hc
    refine ⟨fun d h => ?_, fun c h => ?_, hforms.1 hf.symm⟩
    · rw [h] at hd
      exact hd.symm
    · rw [h] at hc
      exact hc

theorem leavesSource_congr {overlay : Overlay} {id source : String} {a b : ActionModel} (h : risk a = risk b) :
    LeavesSource overlay id source a ↔ LeavesSource overlay id source b := by
  obtain ⟨hdanger, hrest⟩ := Prod.mk.inj h
  obtain ⟨hconfirm, hform⟩ := Prod.mk.inj hrest
  rw [LeavesSource, LeavesSource]
  cases entryOf overlay (sourceOf id source).1 (sourceOf id source).2 with
  | none =>
      dsimp only
      rw [hdanger, hconfirm]
  | some o =>
      constructor
      · rintro ⟨hd, hc, hf⟩
        exact ⟨hdanger ▸ hd, hdanger ▸ hc, hform ▸ hf⟩
      · rintro ⟨hd, hc, hf⟩
        exact ⟨hdanger ▸ hd, hdanger ▸ hc, hform ▸ hf⟩

/-- Two actions that are found, compared by their risks. -/
theorem ends_iff {kinds : List KindModel} {id name i n : String} {x y : Danger × ConfirmKind × List FieldModel}
    (hx : look kinds id name = some x) (hy : look kinds i n = some y) :
    (∃ copy origin, actionOf kinds id name = some copy ∧ actionOf kinds i n = some origin ∧
      copy.danger = origin.danger ∧ origin.confirm ≤ copy.confirm ∧ copy.form = origin.form) ↔
      x.1 = y.1 ∧ y.2.1 ≤ x.2.1 ∧ x.2.2 = y.2.2 := by
  obtain ⟨copy, hcopy, rfl⟩ := Option.map_eq_some_iff.1 hx
  obtain ⟨origin, horigin, rfl⟩ := Option.map_eq_some_iff.1 hy
  constructor
  · rintro ⟨c, o, hc, ho, h⟩
    obtain rfl := Option.some.inj (hcopy.symm.trans hc)
    obtain rfl := Option.some.inj (horigin.symm.trans ho)
    exact h
  · exact fun h => ⟨copy, origin, hcopy, horigin, h⟩

/-- **A copy ends as its source does** if and only if, for every copy with no danger, confirmation or form of its
own, the curator leaves the source as it was generated. -/
theorem inherits_iff {others : List String} {overlay : Overlay} {kinds result : List KindModel}
    (h : applyOverlay others overlay kinds = .ok result) :
    Inherits overlay result ↔
      ∀ id name source o, PlainCopy overlay id name source o →
        ∀ a, CopiedFrom overlay kinds id name a → LeavesSource overlay id source a := by
  obtain ⟨hknown, hcopied, rfl⟩ := applyOverlay_states h
  obtain ⟨mid, hmid⟩ : ∃ mid, (pass copyStep kinds overlay.kinds.entries).1 = mid := ⟨_, rfl⟩
  rw [hmid] at hcopied ⊢
  refine forall₄_congr fun id name source o => forall_congr' fun hplain => ?_
  -- before the curation one generated action is under both names
  obtain ⟨x, hcopy, horigin⟩ := (copying_all hknown hcopied).2 _ _ _ hplain.entry _ hplain.source
  obtain ⟨a, ha, rfl⟩ := (look_copied hknown hcopied).1 hcopy
  have hall : (∀ a, CopiedFrom overlay kinds id name a → LeavesSource overlay id source a) ↔
      LeavesSource overlay id source a := by
    refine ⟨fun hall => hall a ha, fun hleaves b hb => ?_⟩
    have hrisk := Option.some.inj (((look_copied hknown hcopied).2 ⟨b, hb, rfl⟩).symm.trans hcopy)
    exact (leavesSource_congr hrisk).2 hleaves
  have hcopyEnd := look_curated overlay mid id name
  have horiginEnd := look_curated overlay mid (sourceOf id source).1 (sourceOf id source).2
  rw [hcopy, hplain.entry, Option.map_some, Option.map_some, Option.getD_some] at hcopyEnd
  rw [horigin, Option.map_some] at horiginEnd
  rw [hall, ends_iff hcopyEnd horiginEnd, LeavesSource]
  cases hentry : entryOf overlay (sourceOf id source).1 (sourceOf id source).2 with
  | some so => exact (leaves_iff hplain.danger hplain.confirm hplain.form).symm
  | none =>
      simp only [curatedRisk, hplain.danger, hplain.confirm, hplain.form]
      exact ⟨fun h => h.2.1, fun h => ⟨rfl, h, rfl⟩⟩

/-! ### A kind with a delete -/

/-- A kind whose entities can be deleted. -/
def deletableKinds : List KindModel :=
  [{ id := "vmm.ahv.config.Vm", listPath := "/vms", getPath := some "/vms/{extId}"
     schema := "vmm.v4.0.ahv.config.Vm"
     actions :=
       [{ name := "delete", path := "/vms/{extId}", method := .delete, needsEtag := true, rate := .default }] }]

/-- What the curator writes about the delete and a copy of it. -/
def removeEntries (delete : ActionOverlay) : IndexMap String ActionOverlay where
  entries := [("delete", delete), ("remove", { «from» := some "delete" })]
  nodup := by simp

def removeOverlay (delete : ActionOverlay) : Overlay where
  kinds := ⟨[("vmm.ahv.config.Vm", { actions := removeEntries delete })], List.nodup_singleton _⟩

/-- The copy is the only one. -/
theorem source_of_plainCopy {delete : ActionOverlay} (hdelete : delete.from = none) {id name source : String}
    {o : ActionOverlay} (h : PlainCopy (removeOverlay delete) id name source o) :
    id = "vmm.ahv.config.Vm" ∧ source = "delete" := by
  obtain ⟨k, hk, ho⟩ := Option.bind_eq_some_iff.1 h.entry
  obtain ⟨rfl, rfl⟩ := Prod.mk.inj (List.mem_singleton.1 (IndexMap.mem_entries_iff.2 hk))
  rcases List.mem_cons.1 (IndexMap.mem_entries_iff.2 ho) with hfirst | hrest
  · obtain ⟨rfl, rfl⟩ := Prod.mk.inj hfirst
    exact absurd (hdelete.symm.trans h.source) (by simp)
  · obtain ⟨rfl, rfl⟩ := Prod.mk.inj (List.mem_singleton.1 hrest)
    exact ⟨rfl, (Option.some.inj h.source).symm⟩

/-- Where the curator only gives the delete a label, the copy ends as it does. -/
theorem inherits_iff_remove : ∃ result,
    applyOverlay [] (removeOverlay { label := some "Delete" }) deletableKinds = .ok result ∧
      Inherits (removeOverlay { label := some "Delete" }) result := by
  have hok : ((applyOverlay [] (removeOverlay { label := some "Delete" }) deletableKinds).toOption.any
      fun _ => true) = true := by decide +kernel
  obtain ⟨result, hresult, -⟩ := exists_ok_of_any hok
  refine ⟨result, hresult, (inherits_iff hresult).2 fun id name source o hplain a _ => ?_⟩
  obtain ⟨rfl, rfl⟩ := source_of_plainCopy rfl hplain
  have hsource : sourceOf "vmm.ahv.config.Vm" "delete" = ("vmm.ahv.config.Vm", "delete") := by decide
  rw [LeavesSource, hsource]
  exact ⟨fun d hd => absurd hd (by simp), fun c hc => absurd hc (by simp), .inl rfl⟩

/-- A copy of a delete that is curated as dangerous runs unasked. -/
theorem not_inherits : ¬ ∀ others overlay kinds result, applyOverlay others overlay kinds = .ok result →
    Inherits overlay result := by
  intro h
  have hok : ((applyOverlay [] (removeOverlay { danger := some "high" }) deletableKinds).toOption.any fun result =>
      (actionOf result "vmm.ahv.config.Vm" "remove").all fun copy =>
        (actionOf result "vmm.ahv.config.Vm" "delete").all fun origin =>
          copy.confirm == .none && origin.confirm == .typeName) = true := by decide +kernel
  obtain ⟨result, hresult, hfound⟩ := exists_ok_of_any hok
  obtain ⟨copy, origin, hcopy, horigin, -, hconfirm, -⟩ := h _ _ _ _ hresult "vmm.ahv.config.Vm" "remove" "delete"
    { «from» := some "delete" } ⟨rfl, rfl, rfl, rfl, rfl⟩
  have hsource : sourceOf "vmm.ahv.config.Vm" "delete" = ("vmm.ahv.config.Vm", "delete") := by decide
  rw [hsource] at horigin
  rw [hcopy, Option.all_some, horigin, Option.all_some, Bool.and_eq_true, beq_iff_eq, beq_iff_eq] at hfound
  rw [hfound.1, hfound.2] at hconfirm
  exact absurd hconfirm (by decide)

end Nutsh.Generator
