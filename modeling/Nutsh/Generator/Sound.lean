/-
What can be told of the generated actions.

The program finds an action of a kind by its name and by its key, and reads the ETag of an entity at the
get path of its kind.  Curation refuses two actions of one key.  Names are only compared where an action is
copied, not where one comes from the document or is claimed, and an ETag is only compared with the get path
before the curator has the last word.

* `Sound` — an action is found by its name and by its key, and its ETag can be fetched;
* `AttachesNew`, `ClaimsNew`, `Fetches` — what the passes would have to ask;
* `Unambiguous` — the documents and the overlay meet it everywhere;
* `named_attachStep`, `keyed_curateStep`, `fetchable_curations_iff` — names, keys and ETags by themselves;
* `sound_iff` — the kinds that are generated are sound exactly then.
-/
import Nutsh.Generator.Overlay

set_option relaxedAutoImplicit false
set_option autoImplicit false

namespace Nutsh.Generator

open Passes (pass accepted modifyFirst)

/-- The actions of a kind answer to one name and to one key each, and no ETag is needed that the get path
cannot fetch. -/
structure Sound (k : KindModel) : Prop where
  names : (k.actions.map ActionModel.name).Nodup
  keys : ((k.actions.map ActionModel.key).filter (· ≠ "")).Nodup
  etags : ∀ a ∈ k.actions, a.needsEtag = true →
    k.getPath.map placeholderCount = some (placeholderCount a.path)

/-- An action below another path goes to a kind that has none of its name. -/
def AttachesNew (claimed : List String) (state : List KindModel × List ActionModel)
    (path : String × Json) : Prop :=
  ∀ pre operation tail k, claimed.contains path.1 = false →
    orphanOf path.1 path.2 = some (pre, operation) → trailingTwo pre = some tail →
    state.1.filter (owns tail) = [k] → operation.name ∉ k.actions.map ActionModel.name

/-- The actions a kind claims have names of their own. -/
def ClaimsNew (unattached : List ActionModel) (kinds : List KindModel)
    (entry : String × KindOverlay) : Prop :=
  ∀ k, kinds.find? (ofId entry.1) = some k →
    ((claims unattached entry.2).map ActionModel.name).Nodup ∧
      ∀ a ∈ claims unattached entry.2, a.name ∉ k.actions.map ActionModel.name

/-- An ETag is asked for by the curator only where it can be fetched. -/
def Fetches (overlay : Overlay) (kinds : List KindModel) : Prop :=
  ∀ entry ∈ overlay.kinds.entries, ∀ e ∈ entry.2.actions.entries, e.2.needsEtag = some true →
    ∀ k, kinds.find? (ofId entry.1) = some k → ∀ a, k.actions.find? (ofName e.1) = some a →
      fetchable k.getPath a = true

/-- No pass gives a kind a second action of a name, and the curator asks for no ETag that cannot be
fetched. -/
structure Unambiguous (docs : List Document) (overlay : Overlay) : Prop where
  own : ∀ doc ∈ docs, ∀ k ∈ listKinds doc,
    ((ownOperations doc.paths k.listPath k.getPath).map Operation.name).Nodup
  attached : ∀ doc ∈ docs, ∀ kinds, (listKinds doc).mapM (withActions doc) = .ok kinds →
    Run.Along (fun s e => (attachStep doc.schemas (claimedPaths kinds) s e).toOption)
      (AttachesNew (claimedPaths kinds)) (kinds, []) doc.paths
  claimed : ∀ kinds unattached, parseAll docs = .ok (kinds, unattached) →
    Run.Along (accepted (claimStep unattached)) (ClaimsNew unattached) kinds overlay.kinds.entries
  curated : ∀ kinds unattached kinds', parseAll docs = .ok (kinds, unattached) →
    claimExtraActions overlay kinds unattached = .ok kinds' →
    Fetches overlay (pass copyStep (resolveFieldReferences kinds') overlay.kinds.entries).1

/-! ### What the parts keep -/

/-- Names that are told apart. -/
def Named (k : KindModel) : Prop := (k.actions.map ActionModel.name).Nodup

/-- Nothing is bound to a key. -/
def Keyless (k : KindModel) : Prop := ∀ a ∈ k.actions, a.key = ""

/-- Every ETag that is needed can be fetched. -/
def Fetchable (k : KindModel) : Prop :=
  ∀ a ∈ k.actions, a.needsEtag = true → fetchable k.getPath a = true

section

variable {k : KindModel} {a : ActionModel} {actions : List ActionModel}

theorem sortByName_perm (actions : List ActionModel) : (sortByName actions).Perm actions :=
  List.perm_insertionSort _ actions

@[simp] theorem mem_sortByName : a ∈ sortByName actions ↔ a ∈ actions := (sortByName_perm actions).mem_iff

theorem map_name_clearUnfetchableEtags (k : KindModel) :
    (clearUnfetchableEtags k).actions.map ActionModel.name = k.actions.map ActionModel.name := by
  rw [clearUnfetchableEtags, List.map_map]
  rfl

/-- Clearing leaves no ETag that cannot be fetched. -/
theorem fetchable_clearUnfetchableEtags (k : KindModel) : Fetchable (clearUnfetchableEtags k) := by
  intro a ha hneeds
  obtain ⟨b, _, rfl⟩ := List.mem_map.1 ha
  exact (Bool.and_eq_true_iff.1 hneeds).2

theorem keyless_clearUnfetchableEtags (h : Keyless k) : Keyless (clearUnfetchableEtags k) := by
  intro a ha
  obtain ⟨b, hb, rfl⟩ := List.mem_map.1 ha
  exact h b hb

/-- What is sorted after it was cleared. -/
def cleared (k : KindModel) (actions : List ActionModel) : KindModel :=
  { k with actions := sortByName (clearUnfetchableEtags { k with actions }).actions }

theorem fetchable_cleared (k : KindModel) (actions : List ActionModel) :
    Fetchable (cleared k actions) := by
  intro a ha hneeds
  exact fetchable_clearUnfetchableEtags { k with actions } a (mem_sortByName.1 ha) hneeds

theorem keyless_cleared (h : ∀ a ∈ actions, a.key = "") : Keyless (cleared k actions) := by
  intro a ha
  exact keyless_clearUnfetchableEtags (k := { k with actions }) h a (mem_sortByName.1 ha)

theorem names_cleared (k : KindModel) (actions : List ActionModel) :
    ((cleared k actions).actions.map ActionModel.name).Perm (actions.map ActionModel.name) := by
  refine ((sortByName_perm _).map _).trans ?_
  rw [map_name_clearUnfetchableEtags]

theorem named_cleared_append (found : List ActionModel) :
    Named (cleared k (k.actions ++ found)) ↔
      Named k ∧ (found.map ActionModel.name).Nodup ∧
        ∀ a ∈ found, a.name ∉ k.actions.map ActionModel.name := by
  rw [Named, (names_cleared k _).nodup_iff, List.map_append, List.nodup_append]
  refine and_congr_right fun _ => and_congr_right fun _ => ?_
  constructor
  · intro h b hb hmem
    exact h _ hmem _ (List.mem_map_of_mem hb) rfl
  · rintro h n hn _ hfound rfl
    obtain ⟨b, hb, rfl⟩ := List.mem_map.1 hfound
    exact h b hb hn

end

/-! ### The kinds of a document -/

theorem action_spec {schemas : Json} {name path : String} {method : Method} {item op : Json} {a : ActionModel}
    (h : action schemas name path method item op = .ok a) : a.name = name ∧ a.key = "" := by
  rw [action] at h
  obtain ⟨rate, -, h⟩ := Passes.bind_eq_ok.1 h
  obtain rfl := Except.ok.inj h
  exact ⟨rfl, rfl⟩

theorem operations_spec {schemas : Json} {operations : List Operation} {actions : List ActionModel}
    (h : operations.mapM (Operation.action schemas) = .ok actions) :
    actions.map ActionModel.name = operations.map Operation.name ∧ ∀ a ∈ actions, a.key = "" := by
  have hall := Passes.forall₂_of_mapM h
  clear h
  induction hall with
  | nil => exact ⟨rfl, fun a ha => by cases ha⟩
  | cons ho _ ih =>
      obtain ⟨hname, hkey⟩ := action_spec ho
      exact ⟨congrArg₂ List.cons hname ih.1, List.forall_mem_cons.2 ⟨hkey, ih.2⟩⟩

/-- A kind with the actions on its own paths. -/
theorem withActions_spec {doc : Document} {k k' : KindModel} (h : withActions doc k = .ok k') :
    (Named k' ↔ ((ownOperations doc.paths k.listPath k.getPath).map Operation.name).Nodup) ∧
      Keyless k' ∧ Fetchable k' := by
  rw [withActions, actionsFor] at h
  obtain ⟨sorted, hsorted, h⟩ := Passes.bind_eq_ok.1 h
  obtain ⟨actions, hops, hsorted⟩ := Passes.bind_eq_ok.1 hsorted
  obtain rfl := Except.ok.inj hsorted
  obtain ⟨rate, -, h⟩ := Passes.bind_eq_ok.1 h
  obtain rfl := Except.ok.inj h
  obtain ⟨hnames, hkeys⟩ := operations_spec hops
  refine ⟨?_, ?_, ?_⟩
  · rw [← hnames, Named]
    exact Iff.of_eq (congrArg _ (map_name_clearUnfetchableEtags _)) |>.trans
      ((sortByName_perm actions).map _).nodup_iff
  · exact keyless_clearUnfetchableEtags (k := { k with actions := sortByName actions })
      fun a ha => hkeys a (mem_sortByName.1 ha)
  · exact fetchable_clearUnfetchableEtags { k with actions := sortByName actions }

/-! ### The actions below other paths -/

/-- What holds of the kinds and of the actions that were left. -/
def Parsed (state : List KindModel × List ActionModel) : Prop :=
  (∀ k ∈ state.1, Keyless k ∧ Fetchable k) ∧ ∀ a ∈ state.2, a.key = ""

/-- Where an action goes: it is left, or its only owner has it. -/
theorem place_cases (pre : String) (a : ActionModel) (s : List KindModel × List ActionModel) :
    (place pre a s = (s.1, s.2 ++ [a]) ∧
        ∀ tail k, trailingTwo pre = some tail → s.1.filter (owns tail) ≠ [k]) ∨
      ∃ tail k, trailingTwo pre = some tail ∧ s.1.filter (owns tail) = [k] ∧
        place pre a s =
          (s.1.map fun k => if owns tail k then cleared k (k.actions ++ [a]) else k, s.2) := by
  obtain ⟨kinds, orphans⟩ := s
  rw [place]
  cases trailingTwo pre with
  | none => exact Or.inl ⟨rfl, fun tail k h => by cases h⟩
  | some tail =>
      cases howners : kinds.filter (owns tail) with
      | nil =>
          refine Or.inl ⟨by simp only [howners], fun tail' k h => ?_⟩
          rw [← Option.some.inj h, howners]
          exact (List.cons_ne_nil k []).symm
      | cons k others =>
          cases others with
          | nil => exact Or.inr ⟨tail, k, rfl, howners, by simp only [howners]; rfl⟩
          | cons k' others =>
              refine Or.inl ⟨by simp only [howners], fun tail' k'' h => ?_⟩
              rw [← Option.some.inj h, howners]
              simp

/-- What one path does: it is passed over, or its action goes somewhere. -/
theorem attachStep_cases {schemas : Json} {claimed : List String}
    {s t : List KindModel × List ActionModel} {e : String × Json}
    (h : attachStep schemas claimed s e = .ok t) :
    (t = s ∧ AttachesNew claimed s e) ∨
      ∃ pre operation a, claimed.contains e.1 = false ∧ orphanOf e.1 e.2 = some (pre, operation) ∧
        a.name = operation.name ∧ a.key = "" ∧ t = place pre a s := by
  rw [attachStep] at h
  split_ifs at h with hclaimed
  · refine Or.inl ⟨(Except.ok.inj h).symm, ?_⟩
    intro pre operation tail k hfree
    rw [hfree] at hclaimed
    cases hclaimed
  · cases horphan : orphanOf e.1 e.2 with
    | none =>
        rw [horphan] at h
        refine Or.inl ⟨(Except.ok.inj h).symm, ?_⟩
        intro pre operation tail k _ hsome
        rw [horphan] at hsome
        cases hsome
    | some found =>
        obtain ⟨pre, operation⟩ := found
        rw [horphan] at h
        obtain ⟨a, haction, h⟩ := Passes.bind_eq_ok.1 h
        obtain ⟨hname, hkey⟩ := action_spec haction
        exact Or.inr ⟨pre, operation, a, Bool.eq_false_of_not_eq_true hclaimed, rfl, hname, hkey,
          (Except.ok.inj h).symm⟩

theorem named_attachStep {schemas : Json} {claimed : List String}
    {s t : List KindModel × List ActionModel} {e : String × Json}
    (h : attachStep schemas claimed s e = .ok t) :
    (∀ k ∈ t.1, Named k) ↔ (∀ k ∈ s.1, Named k) ∧ AttachesNew claimed s e := by
  rcases attachStep_cases h with ⟨rfl, hnew⟩ | ⟨pre, operation, a, hfree, horphan, hname, _, ht⟩
  · exact (and_iff_left hnew).symm
  · rw [ht]
    rcases place_cases pre a s with ⟨hplace, hno⟩ | ⟨tail, k, htail, howner, hplace⟩
    · rw [hplace]
      refine (and_iff_left ?_).symm
      intro pre' operation' tail k _ hsome htail howner
      rw [horphan] at hsome
      cases hsome
      exact absurd howner (hno tail k htail)
    · have hnew : AttachesNew claimed s e ↔ a.name ∉ k.actions.map ActionModel.name := by
        constructor
        · intro hnew
          rw [hname]
          exact hnew pre operation tail k hfree horphan htail howner
        · intro hnew pre' operation' tail' k' _ hsome htail' howner'
          rw [horphan] at hsome
          cases hsome
          obtain rfl := Option.some.inj (htail.symm.trans htail')
          obtain rfl := (List.cons.inj (howner.symm.trans howner')).1
          rw [← hname]
          exact hnew
      rw [hplace, hnew]
      refine Passes.forall_map_ite_iff howner ?_
      rw [named_cleared_append]
      simp

theorem parsed_attachStep {schemas : Json} {claimed : List String}
    {s t : List KindModel × List ActionModel} {e : String × Json}
    (h : attachStep schemas claimed s e = .ok t) (hs : Parsed s) : Parsed t := by
  rcases attachStep_cases h with ⟨rfl, _⟩ | ⟨pre, operation, a, _, _, _, hkey, ht⟩
  · exact hs
  · rw [ht]
    rcases place_cases pre a s with ⟨hplace, _⟩ | ⟨tail, k, _, _, hplace⟩
    · rw [hplace]
      exact ⟨hs.1, List.forall_mem_append.2 ⟨hs.2, List.forall_mem_singleton.2 hkey⟩⟩
    · rw [hplace]
      refine ⟨List.forall_mem_map.2 fun k hk => ?_, hs.2⟩
      split_ifs
      · refine ⟨keyless_cleared ?_, fetchable_cleared k _⟩
        exact List.forall_mem_append.2 ⟨(hs.1 k hk).1, List.forall_mem_singleton.2 hkey⟩
      · exact hs.1 k hk

theorem ok_of_toOption {α : Type*} {x : Except String α} {a : α} (h : x.toOption = some a) :
    x = .ok a := by
  cases x with
  | error e => cases h
  | ok b => rw [Option.some.inj h]

theorem withActions_all {doc : Document} {kinds own : List KindModel}
    (h : kinds.mapM (withActions doc) = .ok own) :
    (∀ k ∈ own, Keyless k ∧ Fetchable k) ∧
      ((∀ k ∈ own, Named k) ↔ ∀ k ∈ kinds,
        ((ownOperations doc.paths k.listPath k.getPath).map Operation.name).Nodup) := by
  have hall := Passes.forall₂_of_mapM h
  clear h
  induction hall with
  | nil => simp
  | cons hk _ ih =>
      obtain ⟨hnamed, hkept⟩ := withActions_spec hk
      refine ⟨List.forall_mem_cons.2 ⟨hkept, ih.1⟩, ?_⟩
      rw [List.forall_mem_cons, List.forall_mem_cons, hnamed]
      exact and_congr_right fun _ => ih.2

/-- **The kinds of a document.**  Their actions are told apart by name if and only if those on their own
paths are, and each action below another path goes to a kind that has none of its name. -/
theorem parseNamespaceFull_spec {doc : Document} {kinds : List KindModel}
    {unattached : List ActionModel} (h : parseNamespaceFull doc = .ok (kinds, unattached)) :
    Parsed (kinds, unattached) ∧
      ((∀ k ∈ kinds, Named k) ↔
        (∀ k ∈ listKinds doc,
          ((ownOperations doc.paths k.listPath k.getPath).map Operation.name).Nodup) ∧
        ∀ own, (listKinds doc).mapM (withActions doc) = .ok own →
          Run.Along (fun s e => (attachStep doc.schemas (claimedPaths own) s e).toOption)
            (AttachesNew (claimedPaths own)) (own, []) doc.paths) := by
  rw [parseNamespaceFull] at h
  obtain ⟨own, hown, h⟩ := Passes.bind_eq_ok.1 h
  obtain ⟨attached, hattached, h⟩ := Passes.bind_eq_ok.1 h
  rw [attachOrphanActions] at hattached
  obtain ⟨t, hfold, hattached⟩ := Passes.bind_eq_ok.1 hattached
  obtain rfl := Except.ok.inj hattached
  obtain ⟨rfl, rfl⟩ := Prod.mk.inj (Except.ok.inj h)
  have hrun := Passes.exec_of_foldlM hfold
  obtain ⟨hkept, hnamed⟩ := withActions_all hown
  -- the kinds and the actions that are left are only sorted in the end
  have hparsed : Parsed t := Run.exec_inv
    (fun s e t hs hstep => parsed_attachStep (ok_of_toOption hstep) hs)
    (show Parsed (own, []) from ⟨hkept, fun a ha => by cases ha⟩) hrun
  refine ⟨⟨fun k hk => hparsed.1 k ((List.mem_insertionSort _).1 hk),
    fun a ha => hparsed.2 a ((List.mem_insertionSort _).1 ha)⟩, ?_⟩
  have hsorted : (∀ k ∈ t.1.insertionSort fun a b => a.id ≤ b.id, Named k) ↔
      ∀ k ∈ t.1, Named k := by
    simp only [List.mem_insertionSort]
  rw [hsorted, Passes.exec_iff_along (I := fun s => ∀ k ∈ s.1, Named k)
    (fun s e t hstep => named_attachStep (ok_of_toOption hstep)) hrun, hnamed]
  refine and_congr_right fun _ => ⟨fun halong own' hown' => ?_, fun halong => halong own hown⟩
  obtain rfl := Except.ok.inj (hown.symm.trans hown')
  exact halong

theorem parseAll_spec {docs : List Document} {kinds : List KindModel}
    {unattached : List ActionModel} (h : parseAll docs = .ok (kinds, unattached)) :
    Parsed (kinds, unattached) ∧
      ((∀ k ∈ kinds, Named k) ↔ ∀ doc ∈ docs,
        (∀ k ∈ listKinds doc,
          ((ownOperations doc.paths k.listPath k.getPath).map Operation.name).Nodup) ∧
        ∀ own, (listKinds doc).mapM (withActions doc) = .ok own →
          Run.Along (fun s e => (attachStep doc.schemas (claimedPaths own) s e).toOption)
            (AttachesNew (claimedPaths own)) (own, []) doc.paths) := by
  rw [parseAll] at h
  obtain ⟨parsed, hparsed, hjoined⟩ := Passes.bind_eq_ok.1 h
  obtain ⟨rfl, rfl⟩ := Prod.mk.inj (Except.ok.inj hjoined)
  have hall := Passes.forall₂_of_mapM hparsed
  clear h hjoined hparsed
  induction hall with
  | nil =>
      refine ⟨⟨?_, ?_⟩, by simp⟩ <;> (intro x hx; cases hx)
  | cons hdoc _ ih =>
      obtain ⟨hkept, hnamed⟩ := parseNamespaceFull_spec hdoc
      obtain ⟨ihkept, ihnamed⟩ := ih
      refine ⟨⟨List.forall_mem_append.2 ⟨hkept.1, ihkept.1⟩,
        List.forall_mem_append.2 ⟨hkept.2, ihkept.2⟩⟩, ?_⟩
      rw [List.flatMap_cons, List.forall_mem_append, List.forall_mem_cons, hnamed]
      exact and_congr_right fun _ => ihnamed

/-! ### Claims -/

theorem claimStep_cases {unattached : List ActionModel} {kinds t : List KindModel}
    {e : String × KindOverlay} (h : accepted (claimStep unattached) kinds e = some t) :
    (t = kinds ∧ claims unattached e.2 = []) ∨
      ∃ k, kinds.find? (ofId e.1) = some k ∧
        t = modifyFirst (ofId e.1)
          (fun k => cleared k (k.actions ++ claims unattached e.2)) kinds := by
  rw [Passes.accepted_eq_some, claimStep] at h
  split_ifs at h with hempty
  · refine Or.inl ⟨(Prod.mk.inj h).1.symm, ?_⟩
    rw [claims, List.isEmpty_iff.1 hempty]
    rfl
  · cases hfind : kinds.find? (ofId e.1) with
    | none =>
        rw [hfind] at h
        cases h
    | some k =>
        rw [hfind] at h
        exact Or.inr ⟨k, rfl, (Prod.mk.inj h).1.symm⟩

theorem named_claimStep {unattached : List ActionModel} {kinds t : List KindModel}
    {e : String × KindOverlay} (h : accepted (claimStep unattached) kinds e = some t) :
    (∀ k ∈ t, Named k) ↔ (∀ k ∈ kinds, Named k) ∧ ClaimsNew unattached kinds e := by
  rcases claimStep_cases h with ⟨rfl, hempty⟩ | ⟨k, hfind, rfl⟩
  · refine (and_iff_left ?_).symm
    intro k _
    rw [hempty]
    exact ⟨List.nodup_nil, fun a ha => by cases ha⟩
  · have hnew : ClaimsNew unattached kinds e ↔
        ((claims unattached e.2).map ActionModel.name).Nodup ∧
          ∀ a ∈ claims unattached e.2, a.name ∉ k.actions.map ActionModel.name := by
      refine ⟨fun hnew => hnew k hfind, fun hnew k' hfind' => ?_⟩
      obtain rfl := Option.some.inj (hfind.symm.trans hfind')
      exact hnew
    rw [hnew]
    exact Passes.forall_modifyFirst_iff hfind (named_cleared_append _)

theorem mem_claims {unattached : List ActionModel} {o : KindOverlay} {a : ActionModel}
    (h : a ∈ claims unattached o) : a ∈ unattached := by
  obtain ⟨path, _, hfind⟩ := List.mem_filterMap.1 h
  exact List.mem_of_find?_eq_some hfind

theorem kept_claimStep {unattached : List ActionModel} (hkeyless : ∀ a ∈ unattached, a.key = "")
    {kinds t : List KindModel} {e : String × KindOverlay}
    (h : accepted (claimStep unattached) kinds e = some t)
    (hs : ∀ k ∈ kinds, Keyless k ∧ Fetchable k) : ∀ k ∈ t, Keyless k ∧ Fetchable k := by
  rcases claimStep_cases h with ⟨rfl, _⟩ | ⟨k, _, rfl⟩
  · exact hs
  · refine Passes.forall_modifyFirst hs fun k hk => ⟨keyless_cleared ?_, fetchable_cleared k _⟩
    exact List.forall_mem_append.2
      ⟨(hs k (List.mem_of_find?_eq_some hk)).1, fun a ha => hkeyless a (mem_claims ha)⟩

theorem refuse_eq_ok {kinds t : List KindModel} {problems : List String}
    (h : refuse kinds problems = .ok t) : kinds = t ∧ problems = [] := by
  rw [refuse] at h
  split_ifs at h with hempty
  exact ⟨Except.ok.inj h, List.isEmpty_iff.1 hempty⟩

theorem exec_claimExtraActions {overlay : Overlay} {kinds t : List KindModel}
    {unattached : List ActionModel} (h : claimExtraActions overlay kinds unattached = .ok t) :
    Run.exec (accepted (claimStep unattached)) kinds overlay.kinds.entries = some t := by
  obtain ⟨ht, hproblems⟩ := refuse_eq_ok h
  exact Passes.exec_of_pass (Prod.ext ht hproblems)

/-! ### Copies -/

/-- A copy is of a name its kind has not. -/
theorem copyAction_cases {id : String} {kinds t : List KindModel} {e : String × ActionOverlay}
    (h : accepted (copyAction id) kinds e = some t) :
    t = kinds ∨
      ∃ c : ActionModel, c.name = e.1 ∧ c.key = "" ∧
        (∀ k, kinds.find? (ofId id) = some k → e.1 ∉ k.actions.map ActionModel.name) ∧
        t = modifyFirst (ofId id) (pushAction c) kinds := by
  obtain ⟨name, o⟩ := e
  rw [Passes.accepted_eq_some, copyAction] at h
  cases hfrom : o.from with
  | none =>
      rw [hfrom] at h
      exact Or.inl (Prod.mk.inj h).1.symm
  | some source =>
      rw [hfrom] at h
      dsimp only at h
      split_ifs at h with hdup
      · cases (Prod.mk.inj h).2
      · split at h
        · cases (Prod.mk.inj h).2
        · refine Or.inr ⟨_, rfl, rfl, fun k hk hmem => hdup ?_, (Prod.mk.inj h).1.symm⟩
          obtain ⟨a, ha, hname⟩ := List.mem_map.1 hmem
          rw [hk]
          exact List.any_eq_true.2 ⟨a, ha, beq_iff_eq.2 hname⟩

theorem named_pushAction {k : KindModel} {c : ActionModel} :
    Named (pushAction c k) ↔ Named k ∧ c.name ∉ k.actions.map ActionModel.name := by
  change ((k.actions ++ [c]).map ActionModel.name).Nodup ↔ _
  rw [List.map_append, List.map_singleton, List.nodup_append_comm, List.singleton_append,
    List.nodup_cons, and_comm]
  rfl

theorem named_copyAction {id : String} {kinds t : List KindModel} {e : String × ActionOverlay}
    (h : accepted (copyAction id) kinds e = some t) :
    (∀ k ∈ t, Named k) ↔ ∀ k ∈ kinds, Named k := by
  rcases copyAction_cases h with rfl | ⟨c, hname, _, hnew, rfl⟩
  · exact Iff.rfl
  · cases hfind : kinds.find? (ofId id) with
    | none => rw [Passes.modifyFirst_of_find?_eq_none hfind]
    | some k =>
        have hfresh : c.name ∉ k.actions.map ActionModel.name := hname ▸ hnew k hfind
        rw [Passes.forall_modifyFirst_iff hfind named_pushAction]
        exact and_iff_left hfresh

theorem keyless_copyAction {id : String} {kinds t : List KindModel} {e : String × ActionOverlay}
    (h : accepted (copyAction id) kinds e = some t) (hs : ∀ k ∈ kinds, Keyless k) :
    ∀ k ∈ t, Keyless k := by
  rcases copyAction_cases h with rfl | ⟨c, _, hkey, _, rfl⟩
  · exact hs
  · exact Passes.forall_modifyFirst hs fun k hk => List.forall_mem_append.2
      ⟨hs k (List.mem_of_find?_eq_some hk), List.forall_mem_singleton.2 hkey⟩

/-- The copies of an entry only change the first kind of its id. -/
theorem exec_copyAction {id : String} {kinds t : List KindModel} {es : List (String × ActionOverlay)}
    (h : Run.exec (accepted (copyAction id)) kinds es = some t) :
    ∃ f : KindModel → KindModel, (∀ k, ofId id (f k) = ofId id k) ∧ t = modifyFirst (ofId id) f kinds := by
  refine Run.exec_inv (I := fun t => ∃ f : KindModel → KindModel,
    (∀ k, ofId id (f k) = ofId id k) ∧ t = modifyFirst (ofId id) f kinds) ?_ ?_ h
  · rintro s e t ⟨f, hf, rfl⟩ hstep
    rcases copyAction_cases hstep with rfl | ⟨c, _, _, _, rfl⟩
    · exact ⟨f, hf, rfl⟩
    · exact ⟨pushAction c ∘ f, hf, Passes.modifyFirst_modifyFirst hf⟩
  · exact ⟨fun k => k, fun k => rfl, (Passes.modifyFirst_id _ _).symm⟩

/-- What one entry copies, and what is cleared after it. -/
theorem copyStep_spec {kinds t : List KindModel} {e : String × KindOverlay}
    (h : accepted copyStep kinds e = some t) :
    ((∀ k ∈ t, Named k) ↔ ∀ k ∈ kinds, Named k) ∧
      ((∀ k ∈ kinds, Keyless k ∧ Fetchable k) → ∀ k ∈ t, Keyless k ∧ Fetchable k) := by
  obtain ⟨id, o⟩ := e
  rw [Passes.accepted_eq_some, copyStep] at h
  cases hfind : kinds.find? (ofId id) with
  | none =>
      rw [hfind] at h
      obtain rfl := (Prod.mk.inj h).1
      exact ⟨Iff.rfl, fun hs => hs⟩
  | some k =>
      rw [hfind] at h
      obtain ⟨rfl, hproblems⟩ := Prod.mk.inj h
      have hrun := Passes.exec_of_pass (Prod.ext rfl hproblems :
        pass (copyAction id) kinds o.actions.entries =
          ((pass (copyAction id) kinds o.actions.entries).1, []))
      constructor
      · rw [Passes.forall_modifyFirst_congr fun k => (names_cleared k k.actions).nodup_iff]
        exact Run.exec_inv (I := fun t => (∀ k ∈ t, Named k) ↔ ∀ k ∈ kinds, Named k)
          (fun s e t hs hstep => (named_copyAction hstep).trans hs) Iff.rfl hrun
      · intro hs k hk
        have hkeyless : ∀ k ∈ (pass (copyAction id) kinds o.actions.entries).1, Keyless k :=
          Run.exec_inv (fun s e t hs hstep => keyless_copyAction hstep hs) (fun k hk => (hs k hk).1) hrun
        refine ⟨Passes.forall_modifyFirst hkeyless (fun k hk => keyless_cleared
          (hkeyless k (List.mem_of_find?_eq_some hk))) k hk, ?_⟩
        -- only the kind that is cleared was touched
        obtain ⟨f, hf, hmodified⟩ := exec_copyAction hrun
        rw [hmodified, Passes.modifyFirst_modifyFirst hf] at hk
        exact Passes.forall_modifyFirst (fun k hk => (hs k hk).2)
          (fun k _ => fetchable_cleared (f k) (f k).actions) k hk

/-! ### Curation -/

/-- The curations of an overlay, one by one. -/
def curations (overlay : Overlay) : List (String × String × ActionOverlay) :=
  overlay.kinds.entries.flatMap fun (id, o) => o.actions.entries.map fun (name, a) => (id, name, a)

/-- One curation. -/
def curate (kinds : List KindModel) (c : String × String × ActionOverlay) : List KindModel :=
  modifyFirst (ofId c.1) (curateIn c.2.1 c.2.2) kinds

/-- What a curation does not touch. -/
theorem shape_curateIn (name : String) (o : ActionOverlay) (k : KindModel) :
    (curateIn name o k).id = k.id ∧ (curateIn name o k).getPath = k.getPath ∧
      (curateIn name o k).actions.map (fun a => (a.name, a.path)) =
        k.actions.map fun a => (a.name, a.path) :=
  ⟨rfl, rfl, Passes.map_modifyFirst fun _ => rfl⟩

theorem curateAction_fst (id : String) (kinds : List KindModel) (e : String × ActionOverlay) :
    (curateAction id kinds e).1 = curate kinds (id, e.1, e.2) := by
  obtain ⟨name, o⟩ := e
  rw [curateAction, curate]
  dsimp only
  split
  · rename_i hnone
    -- a kind without an action of that name is left as it is
    refine (Passes.modifyFirst_of_fixed fun k hk => ?_).symm
    rw [hk] at hnone
    rw [curateIn, Passes.modifyFirst_of_find?_eq_none hnone]
  · rfl

theorem curateStep_fst (kinds : List KindModel) (e : String × KindOverlay) :
    (curateStep kinds e).1 =
      (e.2.actions.entries.map fun a => (e.1, a.1, a.2)).foldl curate kinds := by
  obtain ⟨id, o⟩ := e
  have hfold : (pass (curateAction id) kinds o.actions.entries).1 =
      (o.actions.entries.map fun a => (id, a.1, a.2)).foldl curate kinds := by
    rw [Passes.pass_fst, List.foldl_map]
    simp only [curateAction_fst]
  rw [curateStep]
  cases hfind : kinds.find? (ofId id) with
  | some k => exact hfold
  | none =>
      -- without a kind of that id nothing is curated
      have hnone : ∀ es : List (String × ActionOverlay),
          (es.map fun a => (id, a.1, a.2)).foldl curate kinds = kinds := by
        intro es
        induction es with
        | nil => rfl
        | cons a es ih =>
            rw [List.map_cons, List.foldl_cons, curate, Passes.modifyFirst_of_find?_eq_none hfind]
            exact ih
      exact (hnone _).symm

/-- The state after all entries were curated is that after all curations. -/
theorem pass_curateStep_fst (overlay : Overlay) (kinds : List KindModel) :
    (pass curateStep kinds overlay.kinds.entries).1 = (curations overlay).foldl curate kinds := by
  rw [Passes.pass_fst, curations, List.foldl_flatMap]
  simp only [curateStep_fst]

/-- The kinds without what a curation touches. -/
def shape (kinds : List KindModel) : List (String × Option String × List (String × String)) :=
  kinds.map fun k => (k.id, k.getPath, k.actions.map fun a => (a.name, a.path))

theorem shape_curate (kinds : List KindModel) (c : String × String × ActionOverlay) :
    shape (curate kinds c) = shape kinds := by
  refine Passes.map_modifyFirst fun k => ?_
  obtain ⟨hid, hget, hactions⟩ := shape_curateIn c.2.1 c.2.2 k
  rw [hid, hget, hactions]

theorem shape_foldl (kinds : List KindModel) (cs : List (String × String × ActionOverlay)) :
    shape (cs.foldl curate kinds) = shape kinds := by
  induction cs generalizing kinds with
  | nil => rfl
  | cons c cs ih => exact (ih _).trans (shape_curate kinds c)

theorem named_foldl (kinds : List KindModel) (cs : List (String × String × ActionOverlay)) :
    (∀ k ∈ cs.foldl curate kinds, Named k) ↔ ∀ k ∈ kinds, Named k := by
  induction cs generalizing kinds with
  | nil => exact Iff.rfl
  | cons c cs ih =>
      refine (ih _).trans (Passes.forall_modifyFirst_congr fun k => ?_)
      have hnames := congrArg (List.map Prod.fst) (shape_curateIn c.2.1 c.2.2 k).2.2
      rw [List.map_map, List.map_map] at hnames
      exact Iff.of_eq (congrArg List.Nodup hnames)

/-- What is found by name and id is found at the same path, whatever was curated. -/
theorem find_of_shape {s t : List KindModel} (h : shape t = shape s) {id name : String}
    {k : KindModel} {a : ActionModel} (hk : s.find? (ofId id) = some k)
    (ha : k.actions.find? (ofName name) = some a) :
    ∃ k' a', t.find? (ofId id) = some k' ∧ k'.actions.find? (ofName name) = some a' ∧
      k'.getPath = k.getPath ∧ a'.path = a.path := by
  obtain ⟨k', hk', hshape⟩ := Passes.find?_of_map_eq
    (q := fun x : String × Option String × List (String × String) => x.1 == id) h hk
  obtain ⟨_, hrest⟩ := Prod.mk.inj hshape
  obtain ⟨hget, hactions⟩ := Prod.mk.inj hrest
  obtain ⟨a', ha', hpath⟩ := Passes.find?_of_map_eq
    (q := fun x : String × String => x.1 == name) hactions ha
  exact ⟨k', a', hk', ha', hget, (Prod.mk.inj hpath).2⟩

theorem fetchable_congr {k k' : KindModel} {a a' : ActionModel} (hget : k'.getPath = k.getPath)
    (hpath : a'.path = a.path) : fetchable k'.getPath a' = fetchable k.getPath a := by
  rw [fetchable, fetchable, hget, hpath]

/-! ### ETags after the curation -/

/-- A curation that asks for no ETag that cannot be fetched. -/
def FetchesOne (kinds : List KindModel) (c : String × String × ActionOverlay) : Prop :=
  c.2.2.needsEtag = some true → ∀ k, kinds.find? (ofId c.1) = some k →
    ∀ a, k.actions.find? (ofName c.2.1) = some a → fetchable k.getPath a = true

theorem fetches_iff (overlay : Overlay) (kinds : List KindModel) :
    Fetches overlay kinds ↔ ∀ c ∈ curations overlay, FetchesOne kinds c := by
  simp only [Fetches, curations, List.mem_flatMap, List.mem_map, FetchesOne]
  constructor
  · rintro h _ ⟨entry, hentry, e, he, rfl⟩
    exact h entry hentry e he
  · intro h entry hentry e he
    exact h (entry.1, e.1, e.2) ⟨entry, hentry, e, he, rfl⟩

theorem fetchable_curate {kinds : List KindModel} {c : String × String × ActionOverlay}
    (hs : ∀ k ∈ kinds, Fetchable k) (hc : FetchesOne kinds c) : ∀ k ∈ curate kinds c, Fetchable k := by
  refine Passes.forall_modifyFirst hs fun k hk => ?_
  refine Passes.forall_modifyFirst (hs k (List.mem_of_find?_eq_some hk)) fun a ha hneeds => ?_
  change c.2.2.needsEtag.getD a.needsEtag = true at hneeds
  cases hoverride : c.2.2.needsEtag with
  | none =>
      rw [hoverride] at hneeds
      exact hs k (List.mem_of_find?_eq_some hk) a (List.mem_of_find?_eq_some ha) hneeds
  | some needs =>
      rw [hoverride] at hneeds
      obtain rfl : needs = true := hneeds
      exact hc hoverride k hk a ha

/-- Curations that each ask for no ETag that cannot be fetched leave none. -/
theorem fetchable_foldl {start kinds : List KindModel} {cs : List (String × String × ActionOverlay)}
    (hshape : shape kinds = shape start) (hs : ∀ k ∈ kinds, Fetchable k)
    (hcs : ∀ c ∈ cs, FetchesOne start c) : ∀ k ∈ cs.foldl curate kinds, Fetchable k := by
  induction cs generalizing kinds with
  | nil => exact hs
  | cons c cs ih =>
      obtain ⟨hc, hcs⟩ := List.forall_mem_cons.1 hcs
      refine ih ((shape_curate kinds c).trans hshape) (fetchable_curate hs ?_) hcs
      intro hneeds k hk a ha
      obtain ⟨k', a', hk', ha', hget, hpath⟩ := find_of_shape hshape.symm hk ha
      rw [← fetchable_congr hget hpath]
      exact hc hneeds k' hk' a' ha'

theorem ofId_curateIn (id name : String) (o : ActionOverlay) (k : KindModel) :
    ofId id (curateIn name o k) = ofId id k := rfl

theorem ofName_curated (name : String) (o : ActionOverlay) (a : ActionModel) :
    ofName name (curated o a) = ofName name a := rfl

/-- An action under a name that needs its ETag. -/
def Needs (id name : String) (kinds : List KindModel) : Prop :=
  ∃ k a, kinds.find? (ofId id) = some k ∧ k.actions.find? (ofName name) = some a ∧
    a.needsEtag = true

/-- A curation of another action leaves what one needs. -/
theorem needs_curate {id name : String} {kinds : List KindModel} {c : String × String × ActionOverlay}
    (hne : (c.1, c.2.1) ≠ (id, name)) (h : Needs id name kinds) : Needs id name (curate kinds c) := by
  obtain ⟨k, a, hk, ha, hneeds⟩ := h
  by_cases hid : c.1 = id
  · have hname : c.2.1 ≠ name := fun hname => hne (Prod.ext hid hname)
    refine ⟨curateIn c.2.1 c.2.2 k, a, ?_, ?_, hneeds⟩
    · rw [curate, hid, Passes.find?_modifyFirst (ofId_curateIn id c.2.1 c.2.2), hk]
      rfl
    · refine (Passes.find?_modifyFirst_of_disjoint (ofName_curated name c.2.2) fun b hb => ?_).trans ha
      rw [ofName, beq_iff_eq] at hb
      rw [ofName, hb]
      exact beq_false_of_ne hname
  · refine ⟨k, a, ?_, ha, hneeds⟩
    refine (Passes.find?_modifyFirst_of_disjoint (ofId_curateIn id c.2.1 c.2.2) fun k' hk' => ?_).trans hk
    rw [ofId, beq_iff_eq] at hk'
    rw [ofId, hk']
    exact beq_false_of_ne hid

theorem needs_foldl {id name : String} {kinds : List KindModel}
    {cs : List (String × String × ActionOverlay)} (hne : ∀ c ∈ cs, (c.1, c.2.1) ≠ (id, name))
    (h : Needs id name kinds) : Needs id name (cs.foldl curate kinds) := by
  induction cs generalizing kinds with
  | nil => exact h
  | cons c cs ih =>
      obtain ⟨hc, hne⟩ := List.forall_mem_cons.1 hne
      exact ih hne (needs_curate hc h)

theorem needs_curate_self {kinds : List KindModel} {c : String × String × ActionOverlay}
    (hneeds : c.2.2.needsEtag = some true) {k : KindModel} (hk : kinds.find? (ofId c.1) = some k)
    {a : ActionModel} (ha : k.actions.find? (ofName c.2.1) = some a) :
    Needs c.1 c.2.1 (curate kinds c) := by
  refine ⟨curateIn c.2.1 c.2.2 k, curated c.2.2 a, ?_, ?_, ?_⟩
  · rw [curate, Passes.find?_modifyFirst (ofId_curateIn c.1 c.2.1 c.2.2), hk]
    rfl
  · refine (Passes.find?_modifyFirst (ofName_curated c.2.1 c.2.2)).trans ?_
    rw [ha]
    rfl
  · change c.2.2.needsEtag.getD a.needsEtag = true
    rw [hneeds]
    rfl

/-- No action is curated twice. -/
theorem nodup_curations (overlay : Overlay) :
    ((curations overlay).map fun c => (c.1, c.2.1)).Nodup := by
  have hkeys (entry : String × KindOverlay) :
      (entry.2.actions.entries.map fun a => (entry.1, a.1, a.2)).map (fun c => (c.1, c.2.1)) =
        (entry.2.actions.entries.map Prod.fst).map fun name => (entry.1, name) := by
    rw [List.map_map, List.map_map]
    rfl
  rw [curations, List.map_flatMap, List.nodup_flatMap]
  constructor
  · intro entry _
    rw [hkeys]
    exact entry.2.actions.nodup.map fun _ _ h => (Prod.mk.inj h).2
  · -- two entries are of two ids
    refine (List.pairwise_map.1 overlay.kinds.nodup).imp fun {entry entry'} hne => ?_
    change List.Disjoint ((entry.2.actions.entries.map fun a => (entry.1, a.1, a.2)).map fun c => (c.1, c.2.1))
      ((entry'.2.actions.entries.map fun a => (entry'.1, a.1, a.2)).map fun c => (c.1, c.2.1))
    rw [hkeys, hkeys]
    intro c hc hc'
    obtain ⟨name, _, rfl⟩ := List.mem_map.1 hc
    obtain ⟨name', _, heq⟩ := List.mem_map.1 hc'
    exact hne (Prod.mk.inj heq).1.symm

/-- **ETags after the curation.**  Where every ETag could be fetched before, every one can after, if and
only if the curator asks for none that cannot be. -/
theorem fetchable_curations_iff {overlay : Overlay} {kinds : List KindModel}
    (hs : ∀ k ∈ kinds, Fetchable k) :
    (∀ k ∈ (curations overlay).foldl curate kinds, Fetchable k) ↔ Fetches overlay kinds := by
  rw [fetches_iff]
  constructor
  · intro hall c hc hneeds k hk a ha
    obtain ⟨before, later, hsplit⟩ := List.append_of_mem hc
    have hlater : ∀ c' ∈ later, (c'.1, c'.2.1) ≠ (c.1, c.2.1) := by
      have hnodup := nodup_curations overlay
      rw [hsplit, List.map_append, List.map_cons] at hnodup
      intro c' hc' heq
      exact (List.nodup_cons.1 hnodup.of_append_right).1
        (heq ▸ List.mem_map_of_mem (f := fun c => (c.1, c.2.1)) hc')
    obtain ⟨k₁, a₁, hk₁, ha₁, _⟩ := find_of_shape (shape_foldl kinds before) hk ha
    have hend := needs_foldl hlater (needs_curate_self hneeds hk₁ ha₁)
    rw [hsplit, List.foldl_append, List.foldl_cons] at hall
    obtain ⟨k₂, a₂, hk₂, ha₂, hneeds₂⟩ := hend
    have hfetch := hall k₂ (List.mem_of_find?_eq_some hk₂) a₂ (List.mem_of_find?_eq_some ha₂) hneeds₂
    -- the paths are those before the curation
    have hshape : shape ((later.foldl curate (curate (before.foldl curate kinds) c))) = shape kinds :=
      (shape_foldl _ later).trans ((shape_curate _ c).trans (shape_foldl kinds before))
    obtain ⟨k₃, a₃, hk₃, ha₃, hget, hpath⟩ := find_of_shape hshape hk ha
    obtain rfl := Option.some.inj (hk₂.symm.trans hk₃)
    obtain rfl := Option.some.inj (ha₂.symm.trans ha₃)
    rw [← fetchable_congr hget hpath]
    exact hfetch
  · exact fetchable_foldl rfl hs

/-! ### Keys -/

/-- Where no key is claimed twice, the keys are told apart. -/
theorem nodup_of_keyProblems {id : String} {seen : List String} {actions : List ActionModel}
    (h : keyProblems id seen actions = []) :
    ((actions.map ActionModel.key).filter (· ≠ "")).Nodup ∧
      ∀ key ∈ (actions.map ActionModel.key).filter (· ≠ ""), key ∉ seen := by
  induction actions generalizing seen with
  | nil => exact ⟨List.nodup_nil, fun key hkey => by cases hkey⟩
  | cons a actions ih =>
      rw [keyProblems] at h
      rw [List.map_cons, List.filter_cons]
      split_ifs at h with hempty hseen
      · rw [hempty]
        exact ih h
      · cases h
      · obtain ⟨hnodup, hnew⟩ := ih h
        have hkey : decide (a.key ≠ "") = true := decide_eq_true hempty
        rw [if_pos hkey, List.nodup_cons, List.forall_mem_cons]
        refine ⟨⟨fun hmem => ?_, hnodup⟩, ?_, fun key hmem hold => ?_⟩
        · exact hnew a.key hmem (List.mem_append_right _ (List.mem_singleton_self _))
        · exact fun hmem => hseen (List.contains_iff_mem.2 hmem)
        · exact hnew key hmem (List.mem_append_left _ hold)

/-- Keys that are told apart. -/
def Keyed (k : KindModel) : Prop := ((k.actions.map ActionModel.key).filter (· ≠ "")).Nodup

theorem Keyless.keyed {k : KindModel} (h : Keyless k) : Keyed k := by
  have hnil : (k.actions.map ActionModel.key).filter (· ≠ "") = [] := by
    refine List.filter_eq_nil_iff.2 fun key hkey => ?_
    obtain ⟨a, ha, rfl⟩ := List.mem_map.1 hkey
    simp [h a ha]
  rw [Keyed, hnil]
  exact List.nodup_nil

/-- The curations of an entry only change the first kind of its id. -/
theorem foldl_curate_of_id (id : String) (es : List (String × ActionOverlay)) (kinds : List KindModel) :
    ∃ f : KindModel → KindModel, (∀ k, ofId id (f k) = ofId id k) ∧
      (es.map fun a => (id, a.1, a.2)).foldl curate kinds = modifyFirst (ofId id) f kinds := by
  induction es generalizing kinds with
  | nil => exact ⟨fun k => k, fun _ => rfl, (Passes.modifyFirst_id _ _).symm⟩
  | cons e es ih =>
      obtain ⟨f, hf, hfold⟩ := ih (curate kinds (id, e.1, e.2))
      refine ⟨f ∘ curateIn e.1 e.2, fun k => hf _, hfold.trans ?_⟩
      exact Passes.modifyFirst_modifyFirst (ofId_curateIn id e.1 e.2)

theorem keyed_curateStep {kinds t : List KindModel} {e : String × KindOverlay}
    (h : accepted curateStep kinds e = some t) (hs : ∀ k ∈ kinds, Keyed k) : ∀ k ∈ t, Keyed k := by
  obtain ⟨id, o⟩ := e
  rw [Passes.accepted_eq_some] at h
  have hfst := (curateStep_fst kinds (id, o)).symm.trans (congrArg Prod.fst h)
  obtain ⟨f, hf, hfold⟩ := foldl_curate_of_id id o.actions.entries kinds
  have ht : t = modifyFirst (ofId id) f kinds := hfst.symm.trans hfold
  rw [ht]
  refine Passes.forall_modifyFirst hs fun k hk => ?_
  -- the kind that was curated was looked through for keys
  rw [curateStep, hk] at h
  obtain ⟨hstate, hproblems⟩ := Prod.mk.inj h
  rw [hstate, ht, Passes.find?_modifyFirst hf, hk] at hproblems
  exact (nodup_of_keyProblems (List.append_eq_nil_iff.1 hproblems).2).1

/-! ### The kinds that are generated -/

theorem named_resolveFieldReferences {kinds : List KindModel} :
    (∀ k ∈ resolveFieldReferences kinds, Named k) ↔ ∀ k ∈ kinds, Named k := by
  rw [resolveFieldReferences, List.forall_mem_map]
  refine forall₂_congr fun k _ => ?_
  rw [Named, Named, List.map_map]
  rfl

theorem kept_resolveFieldReferences {kinds : List KindModel} (h : ∀ k ∈ kinds, Keyless k ∧ Fetchable k) :
    ∀ k ∈ resolveFieldReferences kinds, Keyless k ∧ Fetchable k := by
  refine List.forall_mem_map.2 fun k hk =>
    ⟨List.forall_mem_map.2 fun a ha => ?_, List.forall_mem_map.2 fun a ha => ?_⟩
  · exact (h k hk).1 a ha
  · exact (h k hk).2 a ha

/-- The states generation goes through. -/
theorem generate_states {docs : List Document} {others : List String} {overlay : Overlay}
    {kinds : List KindModel} (h : generate docs others overlay = .ok kinds) :
    ∃ parsed unattached claimed,
      parseAll docs = .ok (parsed, unattached) ∧
      claimExtraActions overlay parsed unattached = .ok claimed ∧
      pass copyStep (resolveFieldReferences claimed) overlay.kinds.entries =
        ((pass copyStep (resolveFieldReferences claimed) overlay.kinds.entries).1, []) ∧
      pass curateStep (pass copyStep (resolveFieldReferences claimed) overlay.kinds.entries).1
          overlay.kinds.entries =
        (kinds, []) := by
  rw [generate] at h
  obtain ⟨⟨parsed, unattached⟩, hparsed, h⟩ := Passes.bind_eq_ok.1 h
  obtain ⟨claimed, hclaimed, h⟩ := Passes.bind_eq_ok.1 h
  rw [applyOverlay] at h
  obtain ⟨hkinds, hproblems⟩ := refuse_eq_ok h
  obtain ⟨hfirst, hcurating⟩ := List.append_eq_nil_iff.1 hproblems
  obtain ⟨_, hcopying⟩ := List.append_eq_nil_iff.1 hfirst
  exact ⟨parsed, unattached, claimed, hparsed, hclaimed, Prod.ext rfl hcopying,
    Prod.ext hkinds hcurating⟩

/-- **What is generated is sound** if and only if no pass gives a kind a second action of a name, and the
curator asks for no ETag that cannot be fetched. -/
theorem sound_iff {docs : List Document} {others : List String} {overlay : Overlay}
    {kinds : List KindModel} (h : generate docs others overlay = .ok kinds) :
    (∀ k ∈ kinds, Sound k) ↔ Unambiguous docs overlay := by
  obtain ⟨parsed, unattached, claimed, hparsed, hclaimed, hcopied, hcurated⟩ := generate_states h
  obtain ⟨hkept, hnamed⟩ := parseAll_spec hparsed
  have hclaim := exec_claimExtraActions hclaimed
  have hcopy := Passes.exec_of_pass hcopied
  have hkinds : kinds = (curations overlay).foldl curate
      (pass copyStep (resolveFieldReferences claimed) overlay.kinds.entries).1 := by
    rw [← pass_curateStep_fst, hcurated]
  have hbefore : ∀ k ∈ (pass copyStep (resolveFieldReferences claimed) overlay.kinds.entries).1,
      Keyless k ∧ Fetchable k :=
    Run.exec_inv (fun s e t hs hstep => (copyStep_spec hstep).2 hs)
      (kept_resolveFieldReferences
        (Run.exec_inv (fun s e t hs hstep => kept_claimStep hkept.2 hstep hs) hkept.1 hclaim)) hcopy
  have hnames : (∀ k ∈ kinds, Named k) ↔ (∀ k ∈ parsed, Named k) ∧
      Run.Along (accepted (claimStep unattached)) (ClaimsNew unattached) parsed
        overlay.kinds.entries := by
    rw [hkinds, named_foldl, ← Passes.exec_iff_along (I := fun s => ∀ k ∈ s, Named k)
      (fun s e t hstep => named_claimStep hstep) hclaim]
    exact Run.exec_inv (I := fun t => (∀ k ∈ t, Named k) ↔ ∀ k ∈ claimed, Named k)
      (fun s e t hs hstep => (copyStep_spec hstep).1.trans hs) named_resolveFieldReferences hcopy
  have hetags : (∀ k ∈ kinds, Fetchable k) ↔
      Fetches overlay (pass copyStep (resolveFieldReferences claimed) overlay.kinds.entries).1 := by
    rw [hkinds]
    exact fetchable_curations_iff fun k hk => (hbefore k hk).2
  have hkeys : ∀ k ∈ kinds, Keyed k :=
    Run.exec_inv (fun s e t hs hstep => keyed_curateStep hstep hs)
      (fun k hk => (hbefore k hk).1.keyed) (Passes.exec_of_pass hcurated)
  constructor
  · intro hsound
    obtain ⟨hdocs, hclaims⟩ := hnames.1 fun k hk => (hsound k hk).names
    have hdocs := hnamed.1 hdocs
    refine ⟨fun doc hdoc => (hdocs doc hdoc).1, fun doc hdoc => (hdocs doc hdoc).2, ?_, ?_⟩
    · intro parsed' unattached' hparsed'
      obtain ⟨rfl, rfl⟩ := Prod.mk.inj (Except.ok.inj (hparsed.symm.trans hparsed'))
      exact hclaims
    · intro parsed' unattached' claimed' hparsed' hclaimed'
      obtain ⟨rfl, rfl⟩ := Prod.mk.inj (Except.ok.inj (hparsed.symm.trans hparsed'))
      obtain rfl := Except.ok.inj (hclaimed.symm.trans hclaimed')
      exact hetags.1 fun k hk a ha hneeds => beq_iff_eq.2 ((hsound k hk).etags a ha hneeds)
  · intro hun
    have hnamed' := hnames.2 ⟨hnamed.2 fun doc hdoc => ⟨hun.own doc hdoc, hun.attached doc hdoc⟩,
      hun.claimed parsed unattached hparsed⟩
    have hfetch := hetags.2 (hun.curated parsed unattached claimed hparsed hclaimed)
    exact fun k hk => ⟨hnamed' k hk, hkeys k hk,
      fun a ha hneeds => beq_iff_eq.1 (hfetch k hk a ha hneeds)⟩

/-! ### A document with one kind -/

instance (k : KindModel) : Decidable (Sound k) :=
  decidable_of_iff ((k.actions.map ActionModel.name).Nodup ∧
      ((k.actions.map ActionModel.key).filter (· ≠ "")).Nodup ∧
      ∀ a ∈ k.actions, a.needsEtag = true →
        k.getPath.map placeholderCount = some (placeholderCount a.path))
    ⟨fun h => ⟨h.1, h.2.1, h.2.2⟩, fun h => ⟨h.names, h.keys, h.etags⟩⟩

/-- A generation that can be looked at did not fail. -/
theorem exists_ok_of_any {α : Type} {x : Except String α} {p : α → Bool} (h : x.toOption.any p = true) :
    ∃ a, x = .ok a ∧ p a = true := by
  cases x with
  | error e => cases h
  | ok a => exact ⟨a, rfl, h⟩

/-- A list that can be added to, its entity, and one action. -/
def vmsDocument : Document where
  version := "v4.0"
  schemas := .obj []
  paths :=
    [("/vmm/v4.0/config/vms", .obj
        [("get", .obj [("responses", .obj [("200", .obj [("content", .obj
          [("application/json", .obj [("schema", .obj [])])])])])]), ("post", .obj [])]),
      ("/vmm/v4.0/config/vms/{extId}", .obj [("get", .obj []), ("put", .obj [])]),
      ("/vmm/v4.0/config/vms/{extId}/$actions/power-on", .obj [("post", .obj [])])]

/-- The document with an action of the same name below another path of the kind. -/
def operationsDocument : Document :=
  { vmsDocument with paths := vmsDocument.paths ++
    [("/vmm/v4.0/operations/vms/{extId}/$actions/power-on", .obj [("post", .obj [])])] }

/-- An overlay that asks for the ETag of an action. -/
def etagOverlay (name : String) : Overlay where
  kinds := ⟨[("vmm.config.vms",
    { actions := ⟨[(name, { needsEtag := some true, key := some "p" })], List.nodup_singleton _⟩ })],
    List.nodup_singleton _⟩

/-- The document is unambiguous, and so is asking for the ETag of its action. -/
theorem sound_iff_vms : Unambiguous [vmsDocument] (etagOverlay "power-on") := by
  have hok : ((generate [vmsDocument] [] (etagOverlay "power-on")).toOption.any fun kinds =>
      kinds.all fun k => decide (Sound k)) = true := by decide +kernel
  obtain ⟨kinds, h, hall⟩ := exists_ok_of_any hok
  exact (sound_iff h).1 fun k hk => of_decide_eq_true (List.all_eq_true.1 hall k hk)

/-- A kind gets two actions of one name where one stands below another path, and an ETag that cannot be
fetched where the curator asks for that of a create. -/
theorem not_sound :
    (¬ ∀ docs others overlay kinds, generate docs others overlay = .ok kinds →
      ∀ k ∈ kinds, (k.actions.map ActionModel.name).Nodup) ∧
    ¬ ∀ docs others overlay kinds, generate docs others overlay = .ok kinds →
      ∀ k ∈ kinds, ∀ a ∈ k.actions, a.needsEtag = true →
        k.getPath.map placeholderCount = some (placeholderCount a.path) := by
  constructor
  · intro h
    have hbad : ((generate [operationsDocument] [] ⟨.empty⟩).toOption.any fun kinds =>
        kinds.any fun k => !decide (k.actions.map ActionModel.name).Nodup) = true := by decide +kernel
    obtain ⟨kinds, hgen, hany⟩ := exists_ok_of_any hbad
    obtain ⟨k, hk, hnot⟩ := List.any_eq_true.1 hany
    have hnodup := h _ _ _ kinds hgen k hk
    rw [decide_eq_true hnodup] at hnot
    cases hnot
  · intro h
    have hbad : ((generate [vmsDocument] [] (etagOverlay "create")).toOption.any fun kinds =>
        kinds.any fun k => !decide (∀ a ∈ k.actions, a.needsEtag = true →
          k.getPath.map placeholderCount = some (placeholderCount a.path))) = true := by decide +kernel
    obtain ⟨kinds, hgen, hany⟩ := exists_ok_of_any hbad
    obtain ⟨k, hk, hnot⟩ := List.any_eq_true.1 hany
    rw [decide_eq_true (h _ _ _ kinds hgen k hk)] at hnot
    cases hnot

end Nutsh.Generator
