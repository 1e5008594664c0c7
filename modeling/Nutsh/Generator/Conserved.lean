/-
What becomes of the actions of a document.

The actions below `$actions` are looked for in three passes: below the path of the entity of each kind, below
another path with the same end, and where the curator claims what is left.  Each pass has its own rule for what
another has taken.

* `spot`, `spotsOf` — where the actions of the kinds are;
* `Placed` — a path that the rules of the passes take once;
* `parse_perm` — what the first two passes leave;
* `conserves_iff` — no action is lost or claimed twice where each path is placed, and none is claimed twice by
  the curator.
-/
import Nutsh.Generator.Paths
import Nutsh.Generator.Sound

set_option relaxedAutoImplicit false
set_option autoImplicit false

namespace Nutsh.Generator

open Passes (pass accepted modifyFirst)

/-- Where an action is. -/
def spot (a : ActionModel) : String × Method := (a.path, a.method)

/-- Where the actions of the kinds are. -/
def spotsOf (kinds : List KindModel) : List (String × Method) := kinds.flatMap fun k => k.actions.map spot

/-- A path of the document with a POST below `$actions`. -/
structure IsActionPath (doc : Document) (path : String) (item : Json) : Prop where
  mem : (path, item) ∈ doc.paths
  post : (item.get "post").isSome = true
  below : Text.contains "/$actions/" path = true

/-- Every such POST is an action of one kind, once, or is left, once. -/
def Conserves (doc : Document) (kinds : List KindModel) (unattached : List ActionModel) : Prop :=
  ∀ path item, IsActionPath doc path item → (spotsOf kinds ++ unattached.map spot).count (path, .post) = 1

/-- A kind is listed at the path. -/
def ListedAt (doc : Document) (path : String) : Prop := ∃ k ∈ collectListKinds doc, k.listPath = path

/-- The path is one segment behind `$actions` below the path of an entity. -/
def BelowEntity (doc : Document) (path : String) : Prop :=
  ∃ k ∈ collectListKinds doc, ∃ gp, k.getPath = some gp ∧ (actionBelow gp path).isSome = true

/-- The path is that of an entity, which can be changed there. -/
def EditedAt (doc : Document) (path : String) (item : Json) : Prop :=
  (∃ k ∈ collectListKinds doc, k.getPath = some path) ∧
    ((item.get "put").isSome = true ∨ (item.get "patch").isSome = true ∨ (item.get "delete").isSome = true)

/-- One segment stands behind the first `$actions` of the path. -/
def OneSegment (path : String) : Prop :=
  ∃ pre name, Text.splitOnce "/$actions/" path = some (pre, name) ∧ Text.contains "/" name = false

/-- The first pass takes the path once, or leaves it to the second one, which takes it. -/
def Placed (doc : Document) (path : String) (item : Json) : Prop :=
  (ListedAt doc path ∧ ¬ BelowEntity doc path) ∨ (¬ ListedAt doc path ∧ BelowEntity doc path) ∨
    (¬ ListedAt doc path ∧ ¬ BelowEntity doc path ∧ ¬ EditedAt doc path item ∧ OneSegment path)

/-! ### Counting at a path -/

section
variable {paths : List (String × Json)} {path : String} {item : Json}

/-- What the entries of a document give, each at its own path, is at a path at most once. -/
theorem count_filterMap {γ : Type} (give : String × Json → Option γ) (s : γ → String × Method)
    (hgive : ∀ e o, give e = some o → s o = (e.1, .post)) (hnodup : (paths.map Prod.fst).Nodup)
    (hmem : (path, item) ∈ paths) :
    ((paths.filterMap give).map s).count (path, .post) = if (give (path, item)).isSome then 1 else 0 := by
  have hother (l : List (String × Json)) (hl : path ∉ l.map Prod.fst) :
      ((l.filterMap give).map s).count (path, .post) = 0 := by
    refine List.count_eq_zero.2 fun hin => hl ?_
    obtain ⟨o, ho, hspot⟩ := List.mem_map.1 hin
    obtain ⟨e, he, hgiven⟩ := List.mem_filterMap.1 ho
    rw [hgive e o hgiven] at hspot
    exact (Prod.mk.inj hspot).1 ▸ List.mem_map_of_mem he
  obtain ⟨before, after, rfl⟩ := List.append_of_mem hmem
  rw [List.map_append, List.map_cons, List.nodup_append, List.nodup_cons] at hnodup
  obtain ⟨-, ⟨hafter, -⟩, hbefore⟩ := hnodup
  have hnot : path ∉ before.map Prod.fst := fun hin => hbefore _ hin _ List.mem_cons_self rfl
  rw [List.filterMap_append, List.map_append, List.count_append, hother before hnot, List.filterMap_cons]
  cases hgiven : give (path, item) with
  | none => simpa using hother after hafter
  | some o =>
      rw [List.map_cons, hgive _ _ hgiven, List.count_cons_self, hother after hafter]
      rfl

def opSpot (o : Operation) : String × Method := (o.path, o.method)

/-- Where the mutations on the paths of a kind are. -/
def ownSpots (paths : List (String × Json)) (k : KindModel) : List (String × Method) :=
  (ownOperations paths k.listPath k.getPath).map opSpot

theorem lookup_of_nodup (hnodup : (paths.map Prod.fst).Nodup) (hmem : (path, item) ∈ paths) :
    paths.lookup path = some item := IndexMap.lookup_eq_some_of_mem hnodup hmem

/-- The creates, the changes and the actions of a kind. -/
theorem ownSpots_eq (paths : List (String × Json)) (k : KindModel) :
    ownSpots paths k =
      (((paths.lookup k.listPath).bind fun item => (item.get "post").map fun _ =>
        (k.listPath, Method.post)).toList) ++
      (k.getPath.toList.flatMap fun gp =>
        ([("update", Method.put, "put"), ("patch", .patch, "patch"), ("delete", .delete, "delete")].filterMap
          fun (_, method, key) => (paths.lookup gp).bind fun item => (item.get key).map fun _ => (gp, method)) ++
        (paths.filterMap fun (p, item) => (actionBelow gp p).bind fun _ => (item.get "post").map fun _ =>
          (p, Method.post))) := by
  have hcreate : ((paths.lookup k.listPath).bind fun item => (item.get "post").map fun op =>
      ({ name := "create", path := k.listPath, method := .post, item, op } : Operation)).toList.map opSpot =
      ((paths.lookup k.listPath).bind fun item => (item.get "post").map fun _ =>
        (k.listPath, Method.post)).toList := by
    rw [← Option.toList_map, Option.map_bind]
    simp only [Function.comp_def, Option.map_map]
    rfl
  rw [ownSpots]
  cases k.getPath with
  | none => simpa [ownOperations] using hcreate
  | some gp =>
      simp only [ownOperations, List.map_append, hcreate, Option.toList_some, List.flatMap_cons, List.flatMap_nil,
        List.append_nil, List.append_assoc, List.map_filterMap]
      refine congrArg _ (congrArg₂ _ ?_ ?_)
      · refine List.filterMap_congr fun x _ => ?_
        rw [Option.map_bind]
        simp only [Function.comp_def, Option.map_map]
        rfl
      · refine List.filterMap_congr fun e _ => ?_
        rw [actionBelow]
        dsimp only
        split_ifs
        · rfl
        · rw [Option.bind_some, Option.map_map]
          rfl
        · rfl

/-- Whether a path is one segment behind `$actions` below the path of the entities of a kind. -/
def belowKind (path : String) (k : KindModel) : Bool := k.getPath.any fun gp => (actionBelow gp path).isSome

/-- A POST is among the operations of a kind when it is listed there, and when it is below its entities. -/
theorem count_ownSpots (hnodup : (paths.map Prod.fst).Nodup) (hmem : (path, item) ∈ paths)
    (hpost : (item.get "post").isSome = true) (k : KindModel) :
    (ownSpots paths k).count (path, .post) =
      (if k.listPath = path then 1 else 0) + if belowKind path k then 1 else 0 := by
  obtain ⟨op, hop⟩ := Option.isSome_iff_exists.1 hpost
  rw [ownSpots_eq, List.count_append]
  refine congrArg₂ _ ?_ ?_
  · split_ifs with hlist
    · rw [hlist, lookup_of_nodup hnodup hmem, Option.bind_some, hop]
      simp
    · refine List.count_eq_zero.2 fun hin => hlist ?_
      obtain ⟨_, -, hin⟩ := Option.bind_eq_some_iff.1 (Option.mem_toList.1 hin)
      obtain ⟨_, -, heq⟩ := Option.map_eq_some_iff.1 hin
      exact (Prod.mk.inj heq).1
  · cases hgp : k.getPath with
    | none => simp [belowKind, hgp]
    | some gp =>
        have hchanges : ([("update", Method.put, "put"), ("patch", .patch, "patch"),
            ("delete", .delete, "delete")].filterMap fun (_, method, key) => (paths.lookup gp).bind fun item =>
              (item.get key).map fun _ => (gp, method)).count (path, .post) = 0 := by
          refine List.count_eq_zero.2 fun hin => ?_
          obtain ⟨x, hx, hin⟩ := List.mem_filterMap.1 hin
          obtain ⟨_, -, hin⟩ := Option.bind_eq_some_iff.1 hin
          obtain ⟨_, -, heq⟩ := Option.map_eq_some_iff.1 hin
          have hmethod : x.2.1 = .post := (Prod.mk.inj heq).2
          simp only [List.mem_cons, List.not_mem_nil, or_false] at hx
          rcases hx with rfl | rfl | rfl <;> cases hmethod
        have hbelow := count_filterMap (fun (p, item) => (actionBelow gp p).bind fun _ =>
          (item.get "post").map fun _ => (p, Method.post)) (fun o => o) (by
            intro e o ho
            obtain ⟨_, -, ho⟩ := Option.bind_eq_some_iff.1 ho
            obtain ⟨_, -, heq⟩ := Option.map_eq_some_iff.1 ho
            exact heq.symm) hnodup hmem
        rw [List.map_id'] at hbelow
        rw [Option.toList_some, List.flatMap_cons, List.flatMap_nil, List.append_nil, List.count_append, hchanges,
          Nat.zero_add, hbelow, belowKind, hgp, Option.any_some]
        simp only [hop]
        cases actionBelow gp path <;> rfl

/-- A path is among the operations of a kind when it is listed there, below its entities or changes them. -/
theorem exists_mem_ownSpots (hnodup : (paths.map Prod.fst).Nodup) (hmem : (path, item) ∈ paths)
    (hpost : (item.get "post").isSome = true) (k : KindModel) :
    (∃ m, (path, m) ∈ ownSpots paths k) ↔ k.listPath = path ∨ belowKind path k = true ∨
      k.getPath = some path ∧
        ((item.get "put").isSome = true ∨ (item.get "patch").isSome = true ∨
          (item.get "delete").isSome = true) := by
  have hpostIn : (path, .post) ∈ ownSpots paths k ↔ k.listPath = path ∨ belowKind path k = true := by
    rw [← List.count_pos_iff, count_ownSpots hnodup hmem hpost]
    by_cases hlist : k.listPath = path <;> by_cases hbelow : belowKind path k = true <;> simp [hlist, hbelow]
  have hlookup := lookup_of_nodup hnodup hmem
  constructor
  · rintro ⟨m, hm⟩
    by_cases hmethod : m = .post
    · rw [hmethod] at hm
      exact (hpostIn.1 hm).imp_right .inl
    · refine .inr (.inr ?_)
      rw [ownSpots_eq, List.mem_append] at hm
      rcases hm with hm | hm
      · obtain ⟨_, -, hm⟩ := Option.bind_eq_some_iff.1 (Option.mem_toList.1 hm)
        obtain ⟨_, -, heq⟩ := Option.map_eq_some_iff.1 hm
        exact absurd (Prod.mk.inj heq).2.symm hmethod
      · obtain ⟨gp, hgp, hm⟩ := List.mem_flatMap.1 hm
        rcases List.mem_append.1 hm with hm | hm
        · obtain ⟨x, hx, hm⟩ := List.mem_filterMap.1 hm
          obtain ⟨found, hfound, hm⟩ := Option.bind_eq_some_iff.1 hm
          obtain ⟨op, hop, heq⟩ := Option.map_eq_some_iff.1 hm
          obtain rfl := (Prod.mk.inj heq).1
          obtain rfl := Option.some.inj (hlookup.symm.trans hfound)
          refine ⟨Option.mem_toList.1 hgp, ?_⟩
          have hsome := Option.isSome_of_eq_some hop
          simp only [List.mem_cons, List.not_mem_nil, or_false] at hx
          rcases hx with rfl | rfl | rfl
          · exact .inl hsome
          · exact .inr (.inl hsome)
          · exact .inr (.inr hsome)
        · obtain ⟨_, _, hm⟩ := List.mem_filterMap.1 hm
          obtain ⟨_, -, hm⟩ := Option.bind_eq_some_iff.1 hm
          obtain ⟨_, -, heq⟩ := Option.map_eq_some_iff.1 hm
          exact absurd (Prod.mk.inj heq).2.symm hmethod
  · intro h
    rcases h with hlist | hbelow | ⟨hgp, hchange⟩
    · exact ⟨.post, hpostIn.2 (.inl hlist)⟩
    · exact ⟨.post, hpostIn.2 (.inr hbelow)⟩
    · have hin (x : String × Method × String) (hsome : (item.get x.2.2).isSome = true)
          (hx : x ∈ [("update", Method.put, "put"), ("patch", .patch, "patch"), ("delete", .delete, "delete")]) :
          (path, x.2.1) ∈ ownSpots paths k := by
        obtain ⟨op, hop⟩ := Option.isSome_iff_exists.1 hsome
        rw [ownSpots_eq, hgp]
        refine List.mem_append_right _ (List.mem_flatMap.2 ⟨path, by simp, List.mem_append_left _ ?_⟩)
        exact List.mem_filterMap.2 ⟨x, hx, by rw [hlookup]; simp [hop]⟩
      rcases hchange with hput | hpatch | hdelete
      · exact ⟨_, hin ("update", .put, "put") hput (by simp)⟩
      · exact ⟨_, hin ("patch", .patch, "patch") hpatch (by simp)⟩
      · exact ⟨_, hin ("delete", .delete, "delete") hdelete (by simp)⟩

end

/-! ### What the passes leave -/

theorem action_spot {schemas : Json} {name path : String} {method : Method} {item op : Json} {a : ActionModel}
    (h : action schemas name path method item op = .ok a) : spot a = (path, method) := by
  rw [action] at h
  obtain ⟨rate, -, h⟩ := Passes.bind_eq_ok.1 h
  obtain rfl := Except.ok.inj h
  rfl

theorem operations_spots {schemas : Json} {operations : List Operation} {actions : List ActionModel}
    (h : operations.mapM (Operation.action schemas) = .ok actions) :
    actions.map spot = operations.map opSpot := by
  have hall := Passes.forall₂_of_mapM h
  clear h
  induction hall with
  | nil => rfl
  | cons ho _ ih => exact congrArg₂ List.cons (action_spot ho) ih

theorem map_spot_clearUnfetchableEtags (k : KindModel) :
    (clearUnfetchableEtags k).actions.map spot = k.actions.map spot := by
  rw [clearUnfetchableEtags, List.map_map]
  rfl

theorem spots_cleared (k : KindModel) (actions : List ActionModel) :
    ((cleared k actions).actions.map spot).Perm (actions.map spot) := by
  refine ((sortByName_perm _).map _).trans ?_
  rw [map_spot_clearUnfetchableEtags]

theorem withActions_spots {doc : Document} {k k' : KindModel} (h : withActions doc k = .ok k') :
    (k'.actions.map spot).Perm (ownSpots doc.paths k) := by
  rw [withActions, actionsFor] at h
  obtain ⟨sorted, hsorted, h⟩ := Passes.bind_eq_ok.1 h
  obtain ⟨actions, hops, hsorted⟩ := Passes.bind_eq_ok.1 hsorted
  obtain rfl := Except.ok.inj hsorted
  obtain ⟨rate, -, h⟩ := Passes.bind_eq_ok.1 h
  obtain rfl := Except.ok.inj h
  change ((clearUnfetchableEtags { k with actions := sortByName actions }).actions.map spot).Perm _
  rw [map_spot_clearUnfetchableEtags, ownSpots, ← operations_spots hops]
  exact (sortByName_perm actions).map _

theorem flatMap_giveIds (paths : List (String × Json)) (version : String) (taken : List String)
    (kinds : List KindModel) :
    (giveIds version taken kinds).flatMap (ownSpots paths) = kinds.flatMap (ownSpots paths) := by
  induction kinds generalizing taken with
  | nil => rfl
  | cons k kinds ih =>
      rw [giveIds, List.flatMap_cons, List.flatMap_cons, ih]
      rfl

theorem flatMap_assignParents (paths : List (String × Json)) (kinds : List KindModel) :
    (assignParents kinds).flatMap (ownSpots paths) = kinds.flatMap (ownSpots paths) := by
  rw [assignParents, List.flatMap_map]
  congr 1
  funext k
  split_ifs <;> rfl

theorem spots_of_forall₂ {doc : Document} {kinds own : List KindModel}
    (h : List.Forall₂ (fun k k' => withActions doc k = .ok k') kinds own) :
    (spotsOf own).Perm (kinds.flatMap (ownSpots doc.paths)) := by
  induction h with
  | nil => exact .refl _
  | cons hk _ ih => exact (withActions_spots hk).append ih

/-- **The first pass.**  The kinds have the operations on their own paths. -/
theorem own_perm {doc : Document} {own : List KindModel} (h : (listKinds doc).mapM (withActions doc) = .ok own) :
    (spotsOf own).Perm ((collectListKinds doc).flatMap (ownSpots doc.paths)) := by
  have hkinds := spots_of_forall₂ (Passes.forall₂_of_mapM h)
  rw [listKinds, flatMap_assignParents, flatMap_giveIds] at hkinds
  exact hkinds.trans ((List.perm_insertionSort _ _).flatMap_right _)

theorem orphanOf_spot {path : String} {item : Json} {found : String × Operation}
    (h : orphanOf path item = some found) : opSpot found.2 = (path, .post) := by
  obtain ⟨split, -, h⟩ := Option.bind_eq_some_iff.1 h
  dsimp only at h
  split_ifs at h
  obtain ⟨op, -, rfl⟩ := Option.map_eq_some_iff.1 h
  rfl

/-- What a path adds in the second pass. -/
def newcomer (claimed : List String) (e : String × Json) : Option (String × Method) :=
  if claimed.contains e.1 then none else (orphanOf e.1 e.2).map fun _ => (e.1, Method.post)

theorem place_perm (pre : String) (a : ActionModel) (s : List KindModel × List ActionModel) :
    (spotsOf (place pre a s).1 ++ (place pre a s).2.map spot).Perm (spotsOf s.1 ++ s.2.map spot ++ [spot a]) := by
  rcases place_cases pre a s with ⟨hplace, -⟩ | ⟨tail, k, -, hfilter, hplace⟩
  · rw [hplace, List.map_append, List.append_assoc]
    exact .refl _
  · rw [hplace]
    have hmore : ((cleared k (k.actions ++ [a])).actions.map spot).Perm (k.actions.map spot ++ [spot a]) := by
      rw [← List.map_singleton, ← List.map_append]
      exact spots_cleared k _
    have hspots := Passes.flatMap_map_ite_perm (g := fun k => k.actions.map spot)
      (f := fun k => cleared k (k.actions ++ [a])) hfilter hmore
    refine (hspots.append_right _).trans ?_
    rw [List.append_assoc, List.append_assoc]
    exact List.perm_append_comm.append_left _

theorem attachStep_perm {schemas : Json} {claimed : List String} {s t : List KindModel × List ActionModel}
    {e : String × Json} (h : attachStep schemas claimed s e = .ok t) :
    (spotsOf t.1 ++ t.2.map spot).Perm (spotsOf s.1 ++ s.2.map spot ++ (newcomer claimed e).toList) := by
  rw [attachStep] at h
  rw [newcomer]
  split_ifs at h ⊢ with hclaimed
  · rw [Except.ok.inj h, Option.toList_none, List.append_nil]
  · cases horphan : orphanOf e.1 e.2 with
    | none =>
        rw [horphan] at h
        rw [Except.ok.inj h]
        simp
    | some found =>
        rw [horphan] at h
        obtain ⟨a, haction, h⟩ := Passes.bind_eq_ok.1 h
        obtain rfl := Except.ok.inj h
        have hspot : spot a = (e.1, .post) := (action_spot haction).trans (orphanOf_spot horphan)
        have hplace := place_perm found.1 a s
        rw [hspot] at hplace
        exact hplace

theorem left_attachStep {schemas : Json} {claimed : List String} {s t : List KindModel × List ActionModel}
    {e : String × Json} (h : attachStep schemas claimed s e = .ok t) (hs : ∀ a ∈ s.2, a.path ∉ claimed) :
    ∀ a ∈ t.2, a.path ∉ claimed := by
  rw [attachStep] at h
  split_ifs at h with hclaimed
  · rwa [← Except.ok.inj h]
  · cases horphan : orphanOf e.1 e.2 with
    | none =>
        rw [horphan] at h
        rwa [← Except.ok.inj h]
    | some found =>
        rw [horphan] at h
        obtain ⟨a, haction, h⟩ := Passes.bind_eq_ok.1 h
        obtain rfl := Except.ok.inj h
        have hspot : spot a = (e.1, .post) := (action_spot haction).trans (orphanOf_spot horphan)
        rcases place_cases found.1 a s with ⟨hplace, -⟩ | ⟨_, _, -, -, hplace⟩
        · rw [hplace]
          refine List.forall_mem_append.2 ⟨hs, List.forall_mem_singleton.2 ?_⟩
          rw [(Prod.mk.inj hspot).1]
          exact fun hin => hclaimed (List.contains_iff_mem.2 hin)
        · rw [hplace]
          exact hs

/-- **The first two passes.**  What the kinds have and what is left is what is on the paths of the kinds, and
what the second pass finds of the rest. -/
theorem parse_perm {doc : Document} {kinds : List KindModel} {unattached : List ActionModel}
    (h : parseNamespaceFull doc = .ok (kinds, unattached)) :
    ∃ own, (spotsOf own).Perm ((collectListKinds doc).flatMap (ownSpots doc.paths)) ∧
      (spotsOf kinds ++ unattached.map spot).Perm
        (spotsOf own ++ doc.paths.filterMap (newcomer (claimedPaths own))) ∧
      ∀ a ∈ unattached, a.path ∉ claimedPaths own := by
  rw [parseNamespaceFull] at h
  obtain ⟨own, hown, h⟩ := Passes.bind_eq_ok.1 h
  obtain ⟨attached, hattached, h⟩ := Passes.bind_eq_ok.1 h
  rw [attachOrphanActions] at hattached
  obtain ⟨t, hfold, hattached⟩ := Passes.bind_eq_ok.1 hattached
  obtain rfl := Except.ok.inj hattached
  obtain ⟨rfl, rfl⟩ := Prod.mk.inj (Except.ok.inj h)
  have hrun := Passes.exec_of_foldlM hfold
  have hgathered := Passes.exec_gathered
    (fun s : List KindModel × List ActionModel => spotsOf s.1 ++ s.2.map spot)
    (fun e => (newcomer (claimedPaths own) e).toList) (fun s e t hstep => attachStep_perm (ok_of_toOption hstep)) hrun
  have hleft : ∀ a ∈ t.2, a.path ∉ claimedPaths own := Run.exec_inv
    (I := fun s : List KindModel × List ActionModel => ∀ a ∈ s.2, a.path ∉ claimedPaths own)
    (fun s e t hs hstep => left_attachStep (ok_of_toOption hstep) hs) (by simp) hrun
  refine ⟨own, own_perm hown, ?_, fun a ha => hleft a ((List.mem_insertionSort _).1 ha)⟩
  refine (((List.perm_insertionSort _ _).flatMap_right _).append ((List.perm_insertionSort _ _).map _)).trans ?_
  rw [List.filterMap_eq_flatMap_toList]
  dsimp only at hgathered
  rw [List.map_nil, List.append_nil] at hgathered
  exact hgathered

/-! ### What is counted -/

section
variable {doc : Document} {path : String} {item : Json}

theorem claimedPaths_eq (kinds : List KindModel) : claimedPaths kinds = (spotsOf kinds).map Prod.fst := by
  rw [claimedPaths, spotsOf, List.map_flatMap]
  simp only [List.map_map]
  rfl

theorem nodup_paths (hdistinct : (doc.paths.map fun e => normalize e.1).Nodup) : (doc.paths.map Prod.fst).Nodup := by
  refine List.Nodup.of_map normalize ?_
  rwa [List.map_map]

theorem sublist_filterMap {γ : Type} {give : String × Json → Option γ} {key : γ → String}
    (hgive : ∀ e o, give e = some o → key o = e.1) (l : List (String × Json)) :
    ((l.filterMap give).map key).Sublist (l.map Prod.fst) := by
  induction l with
  | nil => exact .slnil
  | cons e l ih =>
      rw [List.filterMap_cons]
      cases hgiven : give e with
      | none => exact ih.cons _
      | some o =>
          rw [List.map_cons, hgive e o hgiven]
          exact ih.cons_cons _

/-- The kinds of a document are listed at paths of their own. -/
theorem nodup_listPaths (hnodup : (doc.paths.map Prod.fst).Nodup) :
    ((collectListKinds doc).map KindModel.listPath).Nodup := by
  refine (sublist_filterMap (fun e k h => ?_) doc.paths).nodup hnodup
  dsimp only at h
  split_ifs at h
  split at h
  · cases h
  · split_ifs at h
    obtain rfl := Option.some.inj h
    rfl

theorem countP_le_one {α : Type} {p : α → Bool} {l : List α}
    (h : l.Pairwise fun a b => ¬ (p a = true ∧ p b = true)) : l.countP p ≤ 1 := by
  induction l with
  | nil => simp
  | cons a l ih =>
      obtain ⟨ha, hl⟩ := List.pairwise_cons.1 h
      by_cases hp : p a = true
      · have hzero : l.countP p = 0 := List.countP_eq_zero.2 fun b hb hpb => ha b hb ⟨hp, hpb⟩
        rw [List.countP_cons_of_pos hp, hzero]
      · rw [List.countP_cons_of_neg hp]
        exact ih hl

/-- One kind at most is listed at a path. -/
theorem countP_listed (hnodup : (doc.paths.map Prod.fst).Nodup) (path : String) :
    (collectListKinds doc).countP (fun k => k.listPath == path) ≤ 1 := by
  refine countP_le_one ((List.pairwise_map.1 (nodup_listPaths hnodup)).imp fun {a b} hne => ?_)
  rintro ⟨ha, hb⟩
  exact hne ((beq_iff_eq.1 ha).trans (beq_iff_eq.1 hb).symm)

/-- Below the entities of one kind at most is a path. -/
theorem countP_below (hdistinct : (doc.paths.map fun e => normalize e.1).Nodup) (path : String) :
    (collectListKinds doc).countP (belowKind path) ≤ 1 := by
  refine countP_le_one ((List.pairwise_map.1 (nodup_listPaths (nodup_paths hdistinct))).imp_of_mem
    fun {a b} hamem hbmem hne => ?_)
  rintro ⟨ha, hb⟩
  obtain ⟨gp, hgp, hname⟩ := (Option.any_eq_true _ _).1 ha
  obtain ⟨gp', hgp', hname'⟩ := (Option.any_eq_true _ _).1 hb
  obtain ⟨name, hname⟩ := Option.isSome_iff_exists.1 hname
  obtain ⟨name', hname'⟩ := Option.isSome_iff_exists.1 hname'
  have hnormal := normalize_eq_of_actionBelow hname hname'
  rw [(of_mem_collectListKinds hamem).2.1] at hgp
  rw [(of_mem_collectListKinds hbmem).2.1] at hgp'
  -- two paths of the document that are one without the names are one
  have hsame : gp = gp' := by
    refine List.inj_on_of_nodup_map ?_ (getPathOf_spec hgp).1 (getPathOf_spec hgp').1 hnormal
    rwa [List.map_map]
  rw [hsame] at hgp
  exact hne (getPath_injective hgp hgp')

theorem count_collected (hnodup : (doc.paths.map Prod.fst).Nodup) (hpath : IsActionPath doc path item)
    (kinds : List KindModel) :
    (kinds.flatMap (ownSpots doc.paths)).count (path, .post) =
      kinds.countP (fun k => k.listPath == path) + kinds.countP (belowKind path) := by
  induction kinds with
  | nil => rfl
  | cons k kinds ih =>
      rw [List.flatMap_cons, List.count_append, ih, count_ownSpots hnodup hpath.mem hpath.post, List.countP_cons,
        List.countP_cons]
      simp only [beq_iff_eq]
      omega

theorem listedAt_iff : ListedAt doc path ↔ 0 < (collectListKinds doc).countP fun k => k.listPath == path := by
  rw [List.countP_pos_iff, ListedAt]
  simp only [beq_iff_eq]

theorem belowEntity_iff : BelowEntity doc path ↔ 0 < (collectListKinds doc).countP (belowKind path) := by
  rw [List.countP_pos_iff, BelowEntity]
  simp only [belowKind, Option.any_eq_true]

/-- The first pass takes a path when a kind is listed there, has it below its entities or changes them there. -/
theorem claimed_iff (hnodup : (doc.paths.map Prod.fst).Nodup) (hpath : IsActionPath doc path item)
    {own : List KindModel} (hown : (spotsOf own).Perm ((collectListKinds doc).flatMap (ownSpots doc.paths))) :
    path ∈ claimedPaths own ↔ ListedAt doc path ∨ BelowEntity doc path ∨ EditedAt doc path item := by
  rw [claimedPaths_eq, (hown.map Prod.fst).mem_iff]
  have hmem (k : KindModel) := exists_mem_ownSpots hnodup hpath.mem hpath.post k
  constructor
  · intro h
    obtain ⟨⟨p, m⟩, hin, rfl⟩ := List.mem_map.1 h
    obtain ⟨k, hk, hspot⟩ := List.mem_flatMap.1 hin
    rcases (hmem k).1 ⟨m, hspot⟩ with hlist | hbelow | ⟨hgp, hchange⟩
    · exact .inl ⟨k, hk, hlist⟩
    · exact .inr (.inl ⟨k, hk, (Option.any_eq_true _ _).1 hbelow⟩)
    · exact .inr (.inr ⟨⟨k, hk, hgp⟩, hchange⟩)
  · intro h
    have hspot : ∃ k ∈ collectListKinds doc, ∃ m, (path, m) ∈ ownSpots doc.paths k := by
      rcases h with ⟨k, hk, hlist⟩ | ⟨k, hk, hbelow⟩ | ⟨⟨k, hk, hgp⟩, hchange⟩
      · exact ⟨k, hk, (hmem k).2 (.inl hlist)⟩
      · exact ⟨k, hk, (hmem k).2 (.inr (.inl ((Option.any_eq_true _ _).2 hbelow)))⟩
      · exact ⟨k, hk, (hmem k).2 (.inr (.inr ⟨hgp, hchange⟩))⟩
    obtain ⟨k, hk, m, hspot⟩ := hspot
    exact List.mem_map.2 ⟨(path, m), List.mem_flatMap.2 ⟨k, hk, hspot⟩, rfl⟩

theorem orphanOf_isSome (hpath : IsActionPath doc path item) :
    (orphanOf path item).isSome = true ↔ OneSegment path := by
  obtain ⟨op, hop⟩ := Option.isSome_iff_exists.1 hpath.post
  rw [orphanOf, OneSegment]
  cases Text.splitOnce "/$actions/" path with
  | none => simp
  | some found =>
      obtain ⟨pre, name⟩ := found
      cases hslash : Text.contains "/" name with
      | true => simp [hslash]
      | false => simp [hslash, hop]

theorem newcomer_spot {claimed : List String} {e : String × Json} {o : String × Method}
    (h : newcomer claimed e = some o) : o = (e.1, .post) := by
  rw [newcomer] at h
  split_ifs at h
  obtain ⟨_, -, rfl⟩ := Option.map_eq_some_iff.1 h
  rfl

theorem count_newcomers (hnodup : (doc.paths.map Prod.fst).Nodup) (hpath : IsActionPath doc path item)
    (claimed : List String) :
    (doc.paths.filterMap (newcomer claimed)).count (path, .post) = 1 ↔ path ∉ claimed ∧ OneSegment path := by
  have hcount := count_filterMap (newcomer claimed) (fun o => o) (fun _ _ => newcomer_spot) hnodup hpath.mem
  rw [List.map_id'] at hcount
  rw [hcount, newcomer, ← orphanOf_isSome hpath]
  by_cases hin : path ∈ claimed <;> simp [hin, Option.isSome_iff_ne_none]

theorem count_newcomers_le (hnodup : (doc.paths.map Prod.fst).Nodup) (hpath : IsActionPath doc path item)
    (claimed : List String) : (doc.paths.filterMap (newcomer claimed)).count (path, .post) ≤ 1 := by
  have hcount := count_filterMap (newcomer claimed) (fun o => o) (fun _ _ => newcomer_spot) hnodup hpath.mem
  rw [List.map_id'] at hcount
  rw [hcount]
  split_ifs <;> simp

/-- A path stands once where it is placed. -/
theorem count_eq_one_iff (hdistinct : (doc.paths.map fun e => normalize e.1).Nodup)
    (hpath : IsActionPath doc path item) {own : List KindModel}
    (hown : (spotsOf own).Perm ((collectListKinds doc).flatMap (ownSpots doc.paths))) :
    (spotsOf own ++ doc.paths.filterMap (newcomer (claimedPaths own))).count (path, .post) = 1 ↔
      Placed doc path item := by
  have hnodup := nodup_paths hdistinct
  have hlisted := countP_listed hnodup path
  have hbelow := countP_below hdistinct path
  have hnew := count_newcomers hnodup hpath (claimedPaths own)
  rw [claimed_iff hnodup hpath hown] at hnew
  rw [List.count_append, hown.count_eq, count_collected hnodup hpath, Placed]
  rw [listedAt_iff, belowEntity_iff] at hnew ⊢
  have hle := count_newcomers_le hnodup hpath (claimedPaths own)
  generalize (collectListKinds doc).countP (fun k => k.listPath == path) = listed at *
  generalize (collectListKinds doc).countP (belowKind path) = below at *
  generalize (doc.paths.filterMap (newcomer (claimedPaths own))).count (path, .post) = new at *
  -- each pass takes the path once at most, and the second one nothing the first one has
  by_cases hone : 0 < listed ∨ 0 < below
  · have hnone : new = 0 := by
      have : new ≠ 1 := fun h => (hnew.1 h).1 (hone.imp_right .inl)
      omega
    rw [hnone]
    constructor
    · intro h
      have hcases : (0 < listed ∧ ¬ 0 < below) ∨ (¬ 0 < listed ∧ 0 < below) := by omega
      exact hcases.imp_right .inl
    · rintro (h | h | h)
      · omega
      · omega
      · exact absurd hone (by omega)
  · obtain ⟨hlist, hbelow'⟩ := not_or.1 hone
    have hzero : listed + below = 0 := by omega
    rw [hzero, Nat.zero_add, hnew]
    constructor
    · rintro ⟨hnot, hsegment⟩
      exact .inr (.inr ⟨hlist, hbelow', fun h => hnot (.inr (.inr h)), hsegment⟩)
    · rintro (h | h | ⟨-, -, hedited, hsegment⟩)
      · exact absurd h.1 hlist
      · exact absurd h.2 hbelow'
      · exact ⟨fun h => h.elim hlist fun h => h.elim hbelow' hedited, hsegment⟩

end

/-! ### Claims -/

/-- The paths the curator claims actions at, one after the other. -/
def claimedBy (overlay : Overlay) : List String := overlay.kinds.entries.flatMap fun e => e.2.extraActions

/-- What is claimed is what is asked for, when all of it is there. -/
theorem map_path_claims {unattached : List ActionModel} {paths : List String}
    (h : ∀ path ∈ paths, path ∈ unattached.map ActionModel.path) :
    (paths.filterMap fun path => unattached.find? fun a => a.path == path).map ActionModel.path = paths := by
  induction paths with
  | nil => rfl
  | cons path paths ih =>
      obtain ⟨hpath, hpaths⟩ := List.forall_mem_cons.1 h
      obtain ⟨a, ha, rfl⟩ := List.mem_map.1 hpath
      obtain ⟨found, hfound⟩ := Option.isSome_iff_exists.1
        (List.find?_isSome.2 ⟨a, ha, beq_self_eq_true a.path⟩ : (unattached.find? fun b => b.path == a.path).isSome)
      have heq : found.path = a.path :=
        beq_iff_eq.1 (List.find?_some (p := fun b : ActionModel => b.path == a.path) hfound)
      rw [List.filterMap_cons, hfound, List.map_cons, ih hpaths, heq]

/-- What an entry claims, when nothing is wrong. -/
theorem claimStep_paths {unattached : List ActionModel} {kinds t : List KindModel} {e : String × KindOverlay}
    (h : accepted (claimStep unattached) kinds e = some t) :
    (claimedPaths t).Perm (claimedPaths kinds ++ e.2.extraActions) ∧
      ∀ path ∈ e.2.extraActions, path ∈ unattached.map ActionModel.path := by
  have hfound : ∀ path ∈ e.2.extraActions, path ∈ unattached.map ActionModel.path := by
    rw [Passes.accepted_eq_some, claimStep] at h
    split_ifs at h with hempty
    · rw [List.isEmpty_iff.1 hempty]
      exact List.forall_mem_nil _
    · split at h
      · cases (Prod.mk.inj h).2
      · have hmissing := List.filter_eq_nil_iff.1 (List.map_eq_nil_iff.1 (Prod.mk.inj h).2)
        intro path hpath
        have hany : (unattached.any fun a => a.path == path) = true := by simpa using hmissing path hpath
        obtain ⟨a, ha, heq⟩ := List.any_eq_true.1 hany
        exact List.mem_map.2 ⟨a, ha, beq_iff_eq.1 heq⟩
  refine ⟨?_, hfound⟩
  have hclaims : (claims unattached e.2).map ActionModel.path = e.2.extraActions := map_path_claims hfound
  rcases claimStep_cases h with ⟨rfl, hempty⟩ | ⟨k, hk, rfl⟩
  · rw [← hclaims, hempty, List.map_nil, List.append_nil]
  · refine Passes.flatMap_modifyFirst_perm (g := fun k => k.actions.map ActionModel.path) hk ?_
    have hspots := (spots_cleared k (k.actions ++ claims unattached e.2)).map Prod.fst
    rw [List.map_map, List.map_map, List.map_append] at hspots
    exact hclaims ▸ hspots

/-- What the curator claims comes to what the kinds have. -/
theorem claimedPaths_claimExtraActions {overlay : Overlay} {kinds t : List KindModel}
    {unattached : List ActionModel} (h : claimExtraActions overlay kinds unattached = .ok t) :
    (claimedPaths t).Perm (claimedPaths kinds ++ claimedBy overlay) ∧
      ∀ path ∈ claimedBy overlay, path ∈ unattached.map ActionModel.path := by
  have hrun := exec_claimExtraActions h
  refine ⟨Passes.exec_gathered claimedPaths (fun e : String × KindOverlay => e.2.extraActions)
    (fun s e t hstep => (claimStep_paths hstep).1) hrun, ?_⟩
  rw [claimedBy]
  clear h
  generalize overlay.kinds.entries = es at hrun
  induction es generalizing kinds with
  | nil => simp
  | cons e es ih =>
      obtain ⟨u, hu, hrun⟩ := Run.exec_cons_eq_some.1 hrun
      rw [List.flatMap_cons]
      exact List.forall_mem_append.2 ⟨(claimStep_paths hu).2, ih hrun⟩

/-- What is left is an action of no kind. -/
theorem count_unattached {doc : Document} {kinds : List KindModel} {unattached : List ActionModel}
    (hnodup : (doc.paths.map Prod.fst).Nodup) (h : parseNamespaceFull doc = .ok (kinds, unattached))
    {a : ActionModel} (ha : a ∈ unattached) : (claimedPaths kinds).count a.path = 0 := by
  obtain ⟨own, -, hperm, hleft⟩ := parse_perm h
  have hcount := (hperm.map Prod.fst).count_eq a.path
  rw [List.map_append, List.map_append, ← claimedPaths_eq, ← claimedPaths_eq, List.count_append, List.count_append,
    List.count_eq_zero.2 (hleft a ha), Nat.zero_add] at hcount
  have hone : 1 ≤ ((unattached.map spot).map Prod.fst).count a.path := by
    rw [List.one_le_count_iff, List.map_map]
    exact List.mem_map_of_mem (f := Prod.fst ∘ spot) ha
  have hnew : ((doc.paths.filterMap (newcomer (claimedPaths own))).map Prod.fst).count a.path ≤ 1 := by
    refine List.nodup_iff_count_le_one.1 ((sublist_filterMap (fun e o ho => ?_) doc.paths).nodup hnodup) _
    exact congrArg Prod.fst (newcomer_spot ho)
  omega

/-- **No action is lost or claimed twice** if and only if each path is taken once by the rules of the passes, and
**none is claimed twice** if and only if the curator claims none twice. -/
theorem conserves_iff {doc : Document} {kinds : List KindModel} {unattached : List ActionModel}
    (hdistinct : (doc.paths.map fun e => normalize e.1).Nodup)
    (h : parseNamespaceFull doc = .ok (kinds, unattached)) :
    (Conserves doc kinds unattached ↔ ∀ path item, IsActionPath doc path item → Placed doc path item) ∧
      ∀ overlay claimed, claimExtraActions overlay kinds unattached = .ok claimed →
        ((∀ a ∈ unattached, (claimedPaths claimed).count a.path ≤ 1) ↔ (claimedBy overlay).Nodup) := by
  constructor
  · obtain ⟨own, hown, hperm, -⟩ := parse_perm h
    refine forall₃_congr fun path item hpath => ?_
    rw [hperm.count_eq]
    exact count_eq_one_iff hdistinct hpath hown
  · intro overlay claimed hclaim
    obtain ⟨hperm, hasked⟩ := claimedPaths_claimExtraActions hclaim
    have hcount : ∀ a ∈ unattached, (claimedPaths claimed).count a.path = (claimedBy overlay).count a.path := by
      intro a ha
      rw [hperm.count_eq, List.count_append, count_unattached (nodup_paths hdistinct) h ha, Nat.zero_add]
    rw [List.nodup_iff_count_le_one]
    constructor
    · intro honce path
      by_cases hpath : path ∈ claimedBy overlay
      · obtain ⟨a, ha, rfl⟩ := List.mem_map.1 (hasked path hpath)
        rw [← hcount a ha]
        exact honce a ha
      · rw [List.count_eq_zero.2 hpath]
        exact Nat.zero_le 1
    · intro hle a ha
      rw [hcount a ha]
      exact hle a.path

/-! ### A document with one kind -/

/-- The virtual machines, and how one of them is read and changed. -/
def vmsKind : KindModel where
  listPath := "/vmm/v4.0/config/vms"
  getPath := some "/vmm/v4.0/config/vms/{extId}"
  schema := ""

theorem collectListKinds_vms : collectListKinds vmsDocument = [vmsKind] := by decide +kernel

/-- The action of the document stands below its entities. -/
theorem conserves_iff_vms : ∃ kinds unattached,
    parseNamespaceFull vmsDocument = .ok (kinds, unattached) ∧ Conserves vmsDocument kinds unattached := by
  have hok : ((parseNamespaceFull vmsDocument).toOption.any fun _ => true) = true := by decide +kernel
  obtain ⟨⟨kinds, unattached⟩, hparse, -⟩ := exists_ok_of_any hok
  have hdistinct : (vmsDocument.paths.map fun e => normalize e.1).Nodup := by decide +kernel
  refine ⟨kinds, unattached, hparse, (conserves_iff hdistinct hparse).1.2 fun path item hpath => ?_⟩
  have hpaths := hpath.mem
  simp only [vmsDocument, List.mem_cons, List.not_mem_nil, or_false] at hpaths
  rcases hpaths with heq | heq | heq
  · obtain ⟨rfl, rfl⟩ := Prod.mk.inj heq
    exact absurd hpath.below (by decide)
  · obtain ⟨rfl, rfl⟩ := Prod.mk.inj heq
    exact absurd hpath.below (by decide)
  · obtain ⟨rfl, rfl⟩ := Prod.mk.inj heq
    refine .inr (.inl ⟨?_, vmsKind, ?_, _, rfl, by decide +kernel⟩)
    · rintro ⟨k, hk, hlist⟩
      rw [collectListKinds_vms, List.mem_singleton] at hk
      rw [hk] at hlist
      exact absurd hlist (by decide)
    · rw [collectListKinds_vms]
      exact List.mem_singleton_self _

/-- The document with an action of two segments. -/
def nestedDocument : Document :=
  { vmsDocument with paths := vmsDocument.paths ++
    [("/vmm/v4.0/config/vms/{extId}/$actions/disks/attach", .obj [("post", .obj [])])] }

/-- An action of two segments is lost. -/
theorem not_conserves : ¬ ∀ doc kinds unattached, (doc.paths.map fun e => normalize e.1).Nodup →
    parseNamespaceFull doc = .ok (kinds, unattached) → Conserves doc kinds unattached := by
  intro h
  have hlost : ((parseNamespaceFull nestedDocument).toOption.any fun parsed =>
      (spotsOf parsed.1 ++ parsed.2.map spot).count
        ("/vmm/v4.0/config/vms/{extId}/$actions/disks/attach", .post) == 0) = true := by decide +kernel
  obtain ⟨⟨kinds, unattached⟩, hparse, hcount⟩ := exists_ok_of_any hlost
  have hone := h nestedDocument kinds unattached (by decide +kernel) hparse
    "/vmm/v4.0/config/vms/{extId}/$actions/disks/attach" (.obj [("post", .obj [])])
    ⟨List.mem_append_right _ (List.mem_singleton_self _), rfl, by decide⟩
  rw [beq_iff_eq, hone] at hcount
  cases hcount

end Nutsh.Generator
