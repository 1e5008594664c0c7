/-
The paths of a spec document.

The path of an entity is that of its list with one placeholder behind it, so the list is told by it.  Paths are
compared without the names of their placeholders.

* `getPathOf_spec` — the path of an entity, by that of its list;
* `of_mem_collectListKinds` — what the kinds of a document are listed at;
* `getPath_injective` — the lists of two entities' paths that are the same are the same;
* `actionBelow`, `normalize_eq_of_actionBelow` — the action a path is below that of an entity, and of which.
-/
import Nutsh.Generator.Parse
import Nutsh.Lib.Replace
import Nutsh.Lib.Split

set_option relaxedAutoImplicit false
set_option autoImplicit false

namespace Nutsh.Generator

theorem startsWith_iff {head s : String} :
    Text.startsWith head s = true ↔ ∃ rest, s.toList = head.toList ++ rest := by
  rw [Text.startsWith, List.isPrefixOf_iff_prefix]
  exact ⟨fun ⟨rest, h⟩ => ⟨rest, h.symm⟩, fun ⟨rest, h⟩ => ⟨rest, h.symm⟩⟩

theorem endsWith_iff {tail s : String} :
    Text.endsWith tail s = true ↔ ∃ front, s.toList = front ++ tail.toList := by
  rw [Text.endsWith, List.isSuffixOf_iff_suffix]
  exact ⟨fun ⟨front, h⟩ => ⟨front, h.symm⟩, fun ⟨front, h⟩ => ⟨front, h.symm⟩⟩

theorem contains_char_iff {c : Char} {s : String} : Text.contains (String.ofList [c]) s = true ↔ c ∈ s.toList := by
  rw [Text.contains_iff, String.toList_ofList, List.singleton_infix_iff]

/-! ### Entities -/

/-- The path of an entity is that of its list and one placeholder. -/
theorem getPathOf_spec {paths : List (String × Json)} {path gp : String} (h : getPathOf paths path = some gp) :
    gp ∈ paths.map Prod.fst ∧
      ∃ name, gp.toList = path.toList ++ '/' :: '{' :: (name ++ ['}']) ∧ '{' ∉ name := by
  obtain ⟨⟨p, item⟩, hfind, rfl⟩ := Option.map_eq_some_iff.1 h
  have hp := List.find?_some hfind
  simp only [Bool.and_eq_true, beq_iff_eq] at hp
  obtain ⟨⟨⟨hstart, hend⟩, hcount⟩, -⟩ := hp
  refine ⟨List.mem_map_of_mem (List.mem_of_find?_eq_some hfind), ?_⟩
  obtain ⟨rest, hrest⟩ := startsWith_iff.1 hstart
  obtain ⟨front, hfront⟩ := endsWith_iff.1 hend
  rw [String.toList_append, List.append_assoc] at hrest
  have hrest : p.toList = path.toList ++ '/' :: '{' :: rest := hrest
  have hfront : p.toList = front ++ ['}'] := hfront
  have hzero : rest.count '{' = 0 := by
    rw [placeholderCount, placeholderCount, hrest, List.count_append, List.count_cons, List.count_cons] at hcount
    simp at hcount
    omega
  have hlast : p.toList.getLast? = some '}' := by rw [hfront, List.getLast?_concat]
  rcases List.eq_nil_or_concat rest with rfl | ⟨name, last, rfl⟩
  · rw [hrest, List.append_cons, List.getLast?_concat] at hlast
    cases hlast
  · rw [List.concat_eq_append] at hrest hzero
    obtain rfl : last = '}' := by
      rw [hrest, ← List.cons_append, ← List.cons_append, ← List.append_assoc, List.getLast?_concat] at hlast
      exact Option.some.inj hlast
    exact ⟨name, hrest, fun hmem => List.count_eq_zero.1 hzero (List.mem_append_left _ hmem)⟩

/-- Two lists with entities at one path are one list. -/
theorem getPath_injective {paths : List (String × Json)} {path path' gp : String}
    (h : getPathOf paths path = some gp) (h' : getPathOf paths path' = some gp) : path = path' := by
  obtain ⟨-, name, hgp, hname⟩ := getPathOf_spec h
  obtain ⟨-, name', hgp', hname'⟩ := getPathOf_spec h'
  have hcut : (path.toList ++ ['/']) ++ '{' :: (name ++ ['}']) =
      (path'.toList ++ ['/']) ++ '{' :: (name' ++ ['}']) := by
    simpa using hgp.symm.trans hgp'
  have hfront := (Split.cut_last hcut (by simpa using hname) (by simpa using hname')).1
  exact String.toList_injective (List.append_inj' hfront rfl).1

/-- A kind of a document, by the path it is listed at. -/
theorem of_mem_collectListKinds {doc : Document} {k : KindModel} (h : k ∈ collectListKinds doc) :
    k.listPath ∈ doc.paths.map Prod.fst ∧ k.getPath = getPathOf doc.paths k.listPath ∧ k.parent = none := by
  obtain ⟨⟨p, found⟩, hmem, h⟩ := List.mem_filterMap.1 h
  dsimp only at h
  split_ifs at h
  split at h
  · cases h
  · split_ifs at h
    obtain rfl := Option.some.inj h
    exact ⟨List.mem_map_of_mem hmem, rfl, rfl⟩

/-! ### Actions below entities -/

/-- The name of the action a path is below the path of an entity, when it is one segment behind `$actions`. -/
def actionBelow (gp path : String) : Option String :=
  let pre := normalize gp ++ "/$actions/"
  if Text.startsWith pre (normalize path) then
    let rest := String.ofList ((normalize path).toList.drop pre.length)
    if Text.contains "/" rest then none else some rest
  else none

theorem actionBelow_eq_some {gp path name : String} : actionBelow gp path = some name ↔
    (normalize path).toList = (normalize gp).toList ++ "/$actions/".toList ++ name.toList ∧ '/' ∉ name.toList := by
  rw [actionBelow]
  have hslash (s : String) : Text.contains "/" s = true ↔ '/' ∈ s.toList := contains_char_iff
  have hpre : ((normalize gp) ++ "/$actions/").toList = (normalize gp).toList ++ "/$actions/".toList :=
    String.toList_append
  constructor
  · intro h
    dsimp only at h
    split_ifs at h with hstart hcontains
    obtain ⟨rest, hrest⟩ := startsWith_iff.1 hstart
    obtain rfl := Option.some.inj h
    rw [hslash] at hcontains
    refine ⟨?_, hcontains⟩
    rw [@String.toList_ofList (List.drop _ _), ← hpre, hrest, ← String.length_toList, List.drop_left]
  · rintro ⟨heq, hname⟩
    have hstart : Text.startsWith (normalize gp ++ "/$actions/") (normalize path) = true :=
      startsWith_iff.2 ⟨name.toList, by rw [heq, hpre]⟩
    have hrest : String.ofList ((normalize path).toList.drop (normalize gp ++ "/$actions/").length) = name := by
      rw [heq, ← hpre, ← String.length_toList, List.drop_left, String.ofList_toList]
    dsimp only
    rw [if_pos hstart, hrest, if_neg ((hslash name).not.2 hname)]

/-- An action stands below one path only. -/
theorem normalize_eq_of_actionBelow {gp gp' path name name' : String} (h : actionBelow gp path = some name)
    (h' : actionBelow gp' path = some name') : normalize gp = normalize gp' := by
  obtain ⟨hpath, hname⟩ := actionBelow_eq_some.1 h
  obtain ⟨hpath', hname'⟩ := actionBelow_eq_some.1 h'
  have hcut : ((normalize gp).toList ++ "/$actions".toList) ++ '/' :: name.toList =
      ((normalize gp').toList ++ "/$actions".toList) ++ '/' :: name'.toList := by
    simpa using hpath.symm.trans hpath'
  exact String.toList_injective (List.append_inj' (Split.cut_last hcut hname hname').1 rfl).1

end Nutsh.Generator
