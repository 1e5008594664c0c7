/-
The tree of the menu.

A curator writes the first groups of the menu by hand.  They are checked against the kinds and the pages, and behind
them comes a group for each namespace, with the kinds that are opened directly and were not placed.  So a kind is
in the menu exactly when it is opened directly, and what was not placed by hand is in it once.

Main definitions:

* `ItemModel`, `GroupModel`, `Problem` — what is written by hand, and what may be wrong with it;
* `validate` — the check;
* `withNamespaceGroups`, `writeNav` — the groups of all, and the menu that is generated from them.

Main results:

* `isDirect_iff_reach` — what the generator takes to be opened directly is;
* `validate_iff` — what the check lets through;
* `menu_complete` — **which kinds the menu has, and how often**.
-/
import Mathlib.Data.List.Destutter
import Nutsh.Generator.Parse
import Nutsh.Lookup
import Nutsh.Palette.Rows

set_option relaxedAutoImplicit false
set_option autoImplicit false

namespace Nutsh.Generator

open Palette (NavGroup NavItem)

/-- An item of a group: a kind, a page, the contexts, the settings, or a note on what there is no item for. -/
structure ItemModel where
  label : String
  kind : Option String := none
  page : Option String := none
  note : Option String := none
  contexts : Bool := false
  settings : Bool := false
  deriving DecidableEq

structure GroupModel where
  name : String
  items : List ItemModel := []
  deriving DecidableEq

/-- The one page that may have the name of a group. -/
def DASHBOARD_PAGE : String := "dashboard"

/-- Whether a kind is opened from the top. -/
def isDirect (k : Kind) : Bool := !k.required && k.parent.isNone && placeholderCount k.listPath == 0

/-! ### The check -/

inductive Problem where
  | namesGroup (page group : String)
  | unknownKind (label id : String)
  | notDirect (label id : String)
  | unknownPage (label id : String)
  | notOne (label : String)
  deriving DecidableEq

/-- What is said of a problem, the name of a group between quotes. -/
def Problem.text (quote : String → String) : Problem → String
  | namesGroup page group =>
      s!"page {page} also names the group {quote group}; `:hide {page}` could then never reach the group"
  | unknownKind label id => s!"{label}: unknown kind id {id}"
  | notDirect label id => s!"{label}: {id} is not Reach::Direct; drill into its parent instead"
  | unknownPage label id => s!"{label}: unknown page {id}"
  | notOne label => s!"{label}: exactly one of kind, page, contexts, settings or note"

/-- Hiding the page would leave no way to hide the group. -/
def pageProblem (groups : List GroupModel) (page : String) : Option Problem :=
  if page = DASHBOARD_PAGE then none
  else (groups.find? fun g => eqIgnoreCase g.name page).map fun g => .namesGroup page g.name

def itemProblem (kinds : List Kind) (pages : List String) (item : ItemModel) : Option Problem :=
  match item.kind, item.page, item.contexts || item.settings, item.note with
  | some id, none, false, none =>
      match kinds.find? fun k => k.id == id with
      | none => some (.unknownKind item.label id)
      | some k => if isDirect k then none else some (.notDirect item.label id)
  | none, some id, false, none => if pages.contains id then none else some (.unknownPage item.label id)
  | none, none, true, none => none
  | none, none, false, some _ => none
  | _, _, _, _ => some (.notOne item.label)

def problems (groups : List GroupModel) (kinds : List Kind) (pages : List String) : List Problem :=
  pages.filterMap (pageProblem groups) ++ (groups.flatMap GroupModel.items).filterMap (itemProblem kinds pages)

/-- All problems are told of at once. -/
def validate (quote : String → String) (groups : List GroupModel) (kinds : List Kind) (pages : List String) :
    Except String Unit :=
  match problems groups kinds pages with
  | [] => .ok ()
  | found => .error ("nav.toml: " ++ "; ".intercalate (found.map (Problem.text quote)))

/-! ### The groups of the namespaces -/

/-- The kinds that are placed by hand. -/
def placed (groups : List GroupModel) : List String := (groups.flatMap GroupModel.items).filterMap ItemModel.kind

/-- What a namespace has that was not placed, by display name. -/
def remainder (groups : List GroupModel) (kinds : List Kind) (ns : String) : List Kind :=
  (kinds.filter fun k => k.namespace == ns && isDirect k && !(placed groups).contains k.id).insertionSort
    fun a b => toLex (a.display, a.id) ≤ toLex (b.display, b.id)

def itemOf (k : Kind) : ItemModel := { label := k.display, kind := some k.id }

/-- The namespaces of the kinds, sorted and without repeats. -/
def namespaces (kinds : List Kind) : List String :=
  ((kinds.map Kind.namespace).insertionSort (· ≤ ·)).destutter (· ≠ ·)

/-- The group of a namespace, if anything of it was not placed. -/
def namespaceGroup (groups : List GroupModel) (kinds : List Kind) (ns : String) : Option GroupModel :=
  match remainder groups kinds ns with
  | [] => none
  | left => some { name := ns, items := left.map itemOf }

/-- The groups written by hand, then those of the namespaces. -/
def withNamespaceGroups (groups : List GroupModel) (kinds : List Kind) : List GroupModel :=
  groups ++ (namespaces kinds).filterMap (namespaceGroup groups kinds)

/-! ### The menu that is generated -/

def targetOf (item : ItemModel) : NavTarget :=
  match item.kind, item.page, item.contexts, item.settings with
  | some id, _, _, _ => .kind id
  | none, some id, _, _ => .page id
  | none, none, true, _ => .contexts
  | none, none, false, true => .settings
  | none, none, false, false => .missing

/-- The menu, as the catalog has it. -/
def writeNav (groups : List GroupModel) : List NavGroup :=
  groups.map fun g =>
    { name := g.name
      items := g.items.map fun item => { label := item.label, target := targetOf item, note := item.note } }

variable {groups : List GroupModel} {kinds : List Kind} {pages : List String} {k : Kind} {ns : String}

/-! ### What is opened directly -/

/-- **What the generator takes to be opened directly is**, where parents are kinds of the catalog. -/
theorem isDirect_iff_reach {catalog : Catalog} (hparent : ∀ p, k.parent = some p → (catalog.kind p).isSome = true) :
    isDirect k = true ↔ k.reach catalog = .direct := by
  have hcount : (k.listPath.toList.filter (· == '{')).length = placeholderCount k.listPath := by
    rw [placeholderCount, List.count, List.countP_eq_length_filter]
  cases hp : k.parent with
  | none =>
      have hchain : k.parentChain catalog = [] := by
        rw [Kind.parentChain, hp]
        cases catalog.length <;> rfl
      simp only [isDirect, hp, Option.isNone_none, Bool.and_true, Kind.reach, hchain, hcount, List.length_nil,
        List.getLast?_nil, Bool.and_eq_true, Bool.not_eq_true', beq_iff_eq]
      constructor
      · rintro ⟨hrequired, hzero⟩
        simp [hrequired, hzero]
      · intro h
        split at h
        · cases h
        · rename_i hnot
          rw [Bool.or_eq_true, not_or] at hnot
          exact ⟨Bool.eq_false_iff.2 hnot.1, (by simpa using hnot.2 : 0 = placeholderCount k.listPath).symm⟩
  | some p =>
      refine iff_of_false (by simp [isDirect, hp]) ?_
      obtain ⟨parent, hfound⟩ := Option.isSome_iff_exists.1 (hparent p hp)
      have hne : k.parentChain catalog ≠ [] := by
        have hlength : catalog.length = catalog.length - 1 + 1 := by
          have := List.length_pos_of_mem (List.mem_of_find?_eq_some hfound)
          omega
        rw [Kind.parentChain, hp, Option.bind_some, hfound, hlength, Kind.parentChain.go, List.reverse_cons]
        exact List.append_ne_nil_of_right_ne_nil _ (List.cons_ne_nil _ _)
      intro h
      rw [Kind.reach] at h
      split at h
      · cases h
      · rw [List.getLast?_eq_getLast_of_ne_nil hne] at h
        cases h

/-! ### What the check lets through -/

theorem problems_of_validate {quote : String → String} (h : validate quote groups kinds pages = .ok ()) :
    problems groups kinds pages = [] := by
  rw [validate] at h
  split at h
  · assumption
  · cases h

/-- A kind that is placed by hand is one that is opened directly. -/
theorem exists_of_placed (h : problems groups kinds pages = []) {id : String} (hid : id ∈ placed groups) :
    ∃ k ∈ kinds, k.id = id ∧ isDirect k = true := by
  obtain ⟨item, hitem, hkind⟩ := List.mem_filterMap.1 hid
  have hnone : itemProblem kinds pages item = none := by
    rw [problems, List.append_eq_nil_iff, List.filterMap_eq_nil_iff (f := itemProblem kinds pages)] at h
    exact h.2 item hitem
  rw [itemProblem, hkind] at hnone
  split at hnone
  · rename_i id' _ _ _ heq _ _ _
    obtain rfl := Option.some.inj heq
    split at hnone
    · cases hnone
    · rename_i k hfound
      split at hnone
      · exact ⟨k, List.mem_of_find?_eq_some hfound, by simpa using List.find?_some hfound, ‹_›⟩
      · cases hnone
  all_goals contradiction

/-! ### The namespaces -/

/-- Only repeats are left out. -/
theorem mem_destutter' {α : Type} [DecidableEq α] {a x : α} {l : List α} :
    x ∈ l.destutter' (· ≠ ·) a ↔ x ∈ a :: l := by
  induction l generalizing a with
  | nil => rfl
  | cons b l ih =>
      rw [List.destutter']
      split
      · rw [List.mem_cons, ih]
        exact List.mem_cons.symm
      · rename_i hsame
        obtain rfl := not_not.1 hsame
        rw [ih, List.mem_cons, List.mem_cons, List.mem_cons, or_self_left]

theorem mem_namespaces : ns ∈ namespaces kinds ↔ ∃ k ∈ kinds, k.namespace = ns := by
  have hmem : ns ∈ namespaces kinds ↔ ns ∈ (kinds.map Kind.namespace).insertionSort (· ≤ ·) := by
    rw [namespaces]
    cases (kinds.map Kind.namespace).insertionSort (· ≤ ·) with
    | nil => rfl
    | cons a l => exact mem_destutter'
  rw [hmem, List.mem_insertionSort, List.mem_map]

/-- The namespaces are in order, each of them once. -/
theorem pairwise_namespaces (kinds : List Kind) : (namespaces kinds).Pairwise (· < ·) := by
  have hle : (namespaces kinds).Pairwise (· ≤ ·) :=
    (List.pairwise_insertionSort (· ≤ ·) _).sublist (List.destutter_sublist ..)
  have hne : (namespaces kinds).IsChain (· ≠ ·) := List.isChain_destutter ..
  rw [← List.isChain_iff_pairwise] at hle ⊢
  rw [List.isChain_iff_getElem] at hle hne ⊢
  exact fun i hi => lt_of_le_of_ne (hle i hi) (hne i hi)

/-! ### What the namespaces hold -/

theorem mem_remainder :
    k ∈ remainder groups kinds ns ↔ k ∈ kinds ∧ k.namespace = ns ∧ isDirect k = true ∧ k.id ∉ placed groups := by
  rw [remainder, List.mem_insertionSort, List.mem_filter]
  simp [and_assoc]

/-- A group of a namespace has its kinds that are left, in order, and there is no group where none is. -/
theorem namespaceGroup_eq_some {g : GroupModel} (h : namespaceGroup groups kinds ns = some g) :
    g.name = ns ∧ g.items = (remainder groups kinds ns).map itemOf ∧ g.items ≠ [] ∧
      (g.items.map ItemModel.label).Pairwise (· ≤ ·) := by
  have hsorted : ((remainder groups kinds ns).map Kind.display).Pairwise (· ≤ ·) := by
    rw [List.pairwise_map]
    refine (List.pairwise_insertionSort _ _).imp fun {a b} hab => ?_
    rcases Prod.Lex.toLex_le_toLex.1 hab with hlt | ⟨heq, -⟩
    · exact hlt.le
    · exact heq.le
  rw [namespaceGroup] at h
  split at h
  · cases h
  · rename_i left hleft
    obtain rfl := Option.some.inj h
    refine ⟨rfl, by rfl, ?_, ?_⟩
    · exact fun hnil => hleft (List.map_eq_nil_iff.1 hnil)
    · rw [List.map_map]
      exact hsorted

/-- The items of the groups of the namespaces. -/
theorem flatMap_namespaceGroup (nss : List String) :
    (nss.filterMap (namespaceGroup groups kinds)).flatMap GroupModel.items =
      (nss.flatMap (remainder groups kinds)).map itemOf := by
  induction nss with
  | nil => rfl
  | cons ns nss ih =>
      rw [List.flatMap_cons, List.map_append, ← ih, List.filterMap_cons]
      split
      · rename_i hnone
        rw [namespaceGroup] at hnone
        split at hnone
        · rename_i hnil
          rw [hnil, List.map_nil, List.nil_append]
        · cases hnone
      · rename_i g hg
        rw [List.flatMap_cons, (namespaceGroup_eq_some hg).2.1]

/-- The groups of the namespaces together have every kind that is left, once. -/
theorem perm_remainder (hids : (kinds.map Kind.id).Nodup) :
    ((namespaces kinds).flatMap (remainder groups kinds)).Perm
      (kinds.filter fun k => isDirect k && !(placed groups).contains k.id) := by
  have hkinds : kinds.Nodup := hids.of_map _
  have hremainder : ∀ ns ∈ namespaces kinds, (remainder groups kinds ns).Nodup := by
    intro ns _
    exact (List.perm_insertionSort _ _).nodup_iff.2 (hkinds.filter _)
  have hapart : (namespaces kinds).Pairwise fun ns ns' =>
      (remainder groups kinds ns).Disjoint (remainder groups kinds ns') := by
    refine (pairwise_namespaces kinds).imp fun {ns ns'} hlt k hk hk' => hlt.ne ?_
    rw [← (mem_remainder.1 hk).2.1, (mem_remainder.1 hk').2.1]
  rw [List.perm_ext_iff_of_nodup (List.nodup_flatMap.2 ⟨hremainder, hapart⟩) (hkinds.filter _)]
  intro k
  rw [List.mem_flatMap, List.mem_filter]
  constructor
  · rintro ⟨ns, -, hk⟩
    obtain ⟨hmem, -, hdirect, hnot⟩ := mem_remainder.1 hk
    exact ⟨hmem, by simp [hdirect, hnot]⟩
  · rintro ⟨hmem, hk⟩
    have hleft : isDirect k = true ∧ k.id ∉ placed groups := by simpa using hk
    exact ⟨k.namespace, mem_namespaces.2 ⟨k, hmem, rfl⟩, mem_remainder.2 ⟨hmem, rfl, hleft⟩⟩

/-! ### The whole menu -/

/-- What the items of a menu open, in order. -/
def targets (nav : List NavGroup) : List NavTarget := (nav.flatMap NavGroup.items).map NavItem.target

theorem targets_writeNav (groups : List GroupModel) :
    targets (writeNav groups) = (groups.flatMap GroupModel.items).map targetOf := by
  rw [targets, writeNav, List.flatMap_map, List.map_flatMap, List.map_flatMap]
  exact List.flatMap_congr fun g _ => by rw [List.map_map]; rfl

theorem targetOf_eq_kind {item : ItemModel} {id : String} : targetOf item = .kind id ↔ item.kind = some id := by
  rw [targetOf]
  cases item.kind with
  | some id' => rw [NavTarget.kind.injEq, Option.some.injEq]
  | none =>
      refine iff_of_false (fun h => ?_) fun h => by cases h
      split at h
      all_goals contradiction

/-- How often a kind is placed by hand. -/
theorem count_targets_placed (groups : List GroupModel) (id : String) :
    (targets (writeNav groups)).count (.kind id) = (placed groups).count id := by
  rw [targets_writeNav, placed, List.count, List.countP_map, List.count, List.countP_filterMap]
  refine List.countP_congr fun item _ => ?_
  simp only [Function.comp_apply, beq_iff_eq, targetOf_eq_kind]
  cases item.kind <;> simp

/-- What the groups of the namespaces place is what is left. -/
theorem perm_placed (hids : (kinds.map Kind.id).Nodup) :
    (placed (withNamespaceGroups groups kinds)).Perm
      (placed groups ++ (kinds.filter fun k => isDirect k && !(placed groups).contains k.id).map Kind.id) := by
  have happend : placed (withNamespaceGroups groups kinds) =
      placed groups ++ placed ((namespaces kinds).filterMap (namespaceGroup groups kinds)) := by
    rw [withNamespaceGroups, placed, List.flatMap_append, List.filterMap_append]
    rfl
  have hleft : placed ((namespaces kinds).filterMap (namespaceGroup groups kinds)) =
      ((namespaces kinds).flatMap (remainder groups kinds)).map Kind.id := by
    rw [placed, flatMap_namespaceGroup, List.filterMap_map]
    exact congrFun List.filterMap_eq_map' _
  rw [happend, hleft]
  exact ((perm_remainder hids).map _).append_left _

/-- The kinds of the menu are those that were placed and those that are left. -/
theorem kind_mem_targets (hids : (kinds.map Kind.id).Nodup) {id : String} :
    NavTarget.kind id ∈ targets (writeNav (withNamespaceGroups groups kinds)) ↔
      id ∈ placed groups ∨ ∃ k ∈ kinds, isDirect k = true ∧ k.id ∉ placed groups ∧ k.id = id := by
  rw [← List.count_pos_iff, count_targets_placed, List.count_pos_iff, (perm_placed hids).mem_iff, List.mem_append]
  simp [and_assoc]

theorem eq_of_id (hids : (kinds.map Kind.id).Nodup) {k' : Kind} (hk' : k' ∈ kinds) (hk : k ∈ kinds)
    (heq : k'.id = k.id) : k' = k := List.inj_on_of_nodup_map hids hk' hk heq

/-- A kind is in the menu exactly when it is opened directly. -/
theorem kind_mem_targets_iff (hnone : problems groups kinds pages = []) (hids : (kinds.map Kind.id).Nodup)
    (hk : k ∈ kinds) (hparent : ∀ p, k.parent = some p → (Catalog.kind kinds p).isSome = true) :
    NavTarget.kind k.id ∈ targets (writeNav (withNamespaceGroups groups kinds)) ↔ k.reach kinds = .direct := by
  rw [← isDirect_iff_reach hparent, kind_mem_targets hids]
  constructor
  · rintro (hid | ⟨k', hk', hdirect, -, heq⟩)
    · obtain ⟨k', hk', heq, hdirect⟩ := exists_of_placed hnone hid
      exact eq_of_id hids hk' hk heq ▸ hdirect
    · exact eq_of_id hids hk' hk heq ▸ hdirect
  · intro hdirect
    by_cases hid : k.id ∈ placed groups
    · exact .inl hid
    · exact .inr ⟨k, hk, hdirect, hid, rfl⟩

/-- A kind that is opened directly is placed by hand, or once. -/
theorem count_targets (hids : (kinds.map Kind.id).Nodup) (hk : k ∈ kinds) (hdirect : isDirect k = true) :
    (targets (writeNav (withNamespaceGroups groups kinds))).count (.kind k.id) =
      max 1 ((placed groups).count k.id) := by
  rw [count_targets_placed, (perm_placed hids).count_eq, List.count_append]
  generalize hleft : (kinds.filter fun k => isDirect k && !(placed groups).contains k.id) = left
  have hmem : ∀ k', k' ∈ left ↔ k' ∈ kinds ∧ isDirect k' = true ∧ k'.id ∉ placed groups := by
    intro k'
    rw [← hleft, List.mem_filter]
    simp
  by_cases hid : k.id ∈ placed groups
  · have hnone : k.id ∉ left.map Kind.id := by
      intro hin
      obtain ⟨k', hk', heq⟩ := List.mem_map.1 hin
      exact ((hmem k').1 hk').2.2 (heq ▸ hid)
    have hpos := List.count_pos_iff.2 hid
    rw [List.count_eq_zero_of_not_mem hnone]
    omega
  · have hone : k.id ∈ left.map Kind.id := List.mem_map.2 ⟨k, (hmem k).2 ⟨hk, hdirect, hid⟩, rfl⟩
    have hnodup : (left.map Kind.id).Nodup := hids.sublist (hleft ▸ List.filter_sublist.map _)
    rw [List.count_eq_one_of_mem hnodup hone, List.count_eq_zero_of_not_mem hid, Nat.max_eq_left (Nat.zero_le 1)]

/-- **The menu is complete**: a kind is in it exactly when it is opened directly, as often as it was placed by hand,
or once; and it has no others. -/
theorem menu_complete {quote : String → String} (hok : validate quote groups kinds pages = .ok ())
    (hids : (kinds.map Kind.id).Nodup)
    (hparent : ∀ k ∈ kinds, ∀ p, k.parent = some p → (Catalog.kind kinds p).isSome = true) :
    (∀ k ∈ kinds,
      (NavTarget.kind k.id ∈ targets (writeNav (withNamespaceGroups groups kinds)) ↔ k.reach kinds = .direct) ∧
      (k.reach kinds = .direct →
        (targets (writeNav (withNamespaceGroups groups kinds))).count (.kind k.id) =
          max 1 ((placed groups).count k.id))) ∧
    ∀ id, NavTarget.kind id ∈ targets (writeNav (withNamespaceGroups groups kinds)) → ∃ k ∈ kinds, k.id = id := by
  have hnone := problems_of_validate hok
  refine ⟨fun k hk => ⟨kind_mem_targets_iff hnone hids hk (hparent k hk), fun hreach => ?_⟩, fun id hid => ?_⟩
  · exact count_targets hids hk ((isDirect_iff_reach (hparent k hk)).2 hreach)
  · rcases (kind_mem_targets hids).1 hid with hid | ⟨k, hk, -, -, rfl⟩
    · obtain ⟨k, hk, heq, -⟩ := exists_of_placed hnone hid
      exact ⟨k, hk, heq⟩
    · exact ⟨k, hk, rfl⟩

/-- Virtual machines are placed by hand, images are not, and disks are listed below a machine. -/
def sample : List Kind :=
  [{ id := "disk", «namespace» := "vmm", display := "Disks", listPath := "/vms/\x7bid\x7d/disks", parent := some "vm" },
   { id := "image", «namespace» := "vmm", display := "Images", listPath := "/images" },
   { id := "vm", «namespace» := "vmm", display := "VMs", listPath := "/vms" }]

def sampleGroups : List GroupModel := [{ name := "Compute", items := [{ label := "VMs", kind := some "vm" }] }]

theorem validate_sample : validate id sampleGroups sample ["dashboard"] = .ok () := rfl

theorem nodup_sample : (sample.map Kind.id).Nodup := by decide

theorem parent_sample : ∀ k ∈ sample, ∀ p, k.parent = some p → (Catalog.kind sample p).isSome = true := by
  intro k hk p hp
  simp only [sample, List.mem_cons, List.not_mem_nil, or_false] at hk
  obtain rfl | rfl | rfl := hk
  · obtain rfl := Option.some.inj hp
    rfl
  · cases hp
  · cases hp

theorem menu_complete_sample :
    NavTarget.kind "image" ∈ targets (writeNav (withNamespaceGroups sampleGroups sample)) ∧
    (targets (writeNav (withNamespaceGroups sampleGroups sample))).count (.kind "image") =
      max 1 ((placed sampleGroups).count "image") := by
  have himage : { id := "image", «namespace» := "vmm", display := "Images", listPath := "/images" } ∈ sample :=
    List.mem_cons_of_mem _ List.mem_cons_self
  obtain ⟨hin, hcount⟩ := (menu_complete validate_sample nodup_sample parent_sample).1 _ himage
  exact ⟨hin.2 rfl, hcount rfl⟩

end Nutsh.Generator
