/-
The placeholders of a path, and what they are filled with.

The braces of a path are paired and not nested when its placeholders fill whole segments.  Filling such a path
depends on it only up to the names of its placeholders, and fills what stands before a place and what stands
behind it by themselves.

* `fillPlaceholders` — a path with its placeholders filled, left to right;
* `WholeSegments`, `Braced` — placeholders that fill segments, braces in pairs;
* `fillList_normalizeList` — the names do not matter;
* `fillList_append` — filling the beginning and the rest;
* `fillPlaceholders_below` — filling a path and what is below it.
-/
import Nutsh.Generator.Parse

set_option relaxedAutoImplicit false
set_option autoImplicit false

namespace Nutsh

open Generator (placeholderCount normalizeList)

/-- The characters with what stands in braces replaced by the values, one after the other. -/
def fillList : List Char → List String → Option (List Char)
  | rest, [] => if '{' ∈ rest then none else some rest
  | rest, v :: values =>
      match Text.splitOnceList ['{'] rest with
      | none => some rest
      | some (before, inside) =>
          match Text.splitOnceList ['}'] inside with
          | none => none
          | some (_, after) => (fillList after values).map fun filled => before ++ v.toList ++ filled

/-- A path with its placeholders replaced by the values, none when they are not as many. -/
def fillPlaceholders (path : String) (values : List String) : Option String :=
  if placeholderCount path ≠ values.length then none else (fillList path.toList values).map String.ofList

/-- A segment that is one placeholder. -/
def IsPlaceholder (segment : List Char) : Prop :=
  ∃ name, segment = '{' :: (name ++ ['}']) ∧ '{' ∉ name ∧ '}' ∉ name

/-- The name stands between the first character and the last. -/
instance (segment : List Char) : Decidable (IsPlaceholder segment) :=
  decidable_of_iff (segment = '{' :: (segment.tail.dropLast ++ ['}']) ∧ '{' ∉ segment.tail.dropLast ∧
      '}' ∉ segment.tail.dropLast) <| by
    constructor
    · exact fun h => ⟨segment.tail.dropLast, h⟩
    · rintro ⟨name, rfl, h⟩
      rw [List.tail_cons, List.dropLast_concat]
      exact ⟨rfl, h⟩

/-- The placeholders of a path fill whole segments. -/
def WholeSegments (path : String) : Prop :=
  ∀ segment ∈ path.toList.splitOn '/', ('{' ∉ segment ∧ '}' ∉ segment) ∨ IsPlaceholder segment

instance (path : String) : Decidable (WholeSegments path) :=
  inferInstanceAs (Decidable (∀ segment ∈ path.toList.splitOn '/',
    ('{' ∉ segment ∧ '}' ∉ segment) ∨ IsPlaceholder segment))

/-- Characters with their braces in pairs, and no brace within a pair. -/
inductive Braced : List Char → Prop
  | nil : Braced []
  | char {c : Char} {cs : List Char} (hopen : c ≠ '{') (hclose : c ≠ '}') (h : Braced cs) : Braced (c :: cs)
  | pair {name cs : List Char} (hopen : '{' ∉ name) (hclose : '}' ∉ name) (h : Braced cs) :
      Braced ('{' :: (name ++ '}' :: cs))

/-! ### Braces in pairs -/

attribute [local simp] normalizeList fillList

theorem braced_of_not_mem {cs : List Char} (hopen : '{' ∉ cs) (hclose : '}' ∉ cs) : Braced cs := by
  induction cs with
  | nil => exact .nil
  | cons c cs ih =>
      obtain ⟨ho, hopen⟩ := not_or.1 (List.mem_cons.not.1 hopen)
      obtain ⟨hc, hclose⟩ := not_or.1 (List.mem_cons.not.1 hclose)
      exact .char (Ne.symm ho) (Ne.symm hc) (ih hopen hclose)

theorem Braced.append {cs ds : List Char} (h : Braced cs) (h' : Braced ds) : Braced (cs ++ ds) := by
  induction h with
  | nil => exact h'
  | char hopen hclose _ ih => exact .char hopen hclose ih
  | pair hopen hclose _ ih =>
      rw [List.cons_append, List.append_assoc, List.cons_append]
      exact .pair hopen hclose ih

theorem Braced.tail {c : Char} {cs : List Char} (hopen : c ≠ '{') (h : Braced (c :: cs)) : Braced cs := by
  cases h with
  | char _ _ h => exact h
  | pair => exact absurd rfl hopen

theorem Braced.behind {name cs : List Char} (hclose : '}' ∉ name) (h : Braced ('{' :: (name ++ '}' :: cs))) :
    Braced cs := by
  obtain ⟨all, hall⟩ : ∃ all, '{' :: (name ++ '}' :: cs) = all := ⟨_, rfl⟩
  rw [hall] at h
  cases h with
  | nil => cases hall
  | char hopen => exact absurd (List.cons.inj hall).1.symm hopen
  | pair _ hclose' h =>
      -- the first closing brace ends both names
      have hsplit := Text.splitOnceList_char (b := cs) hclose
      rw [(List.cons.inj hall).2, Text.splitOnceList_char hclose'] at hsplit
      obtain ⟨-, rfl⟩ := Prod.mk.inj (Option.some.inj hsplit)
      exact h

/-- What stands behind braces in pairs has them in pairs when all has. -/
theorem Braced.of_append {cs ds : List Char} (h : Braced cs) (h' : Braced (cs ++ ds)) : Braced ds := by
  induction h with
  | nil => exact h'
  | char hopen _ _ ih => exact ih (h'.tail hopen)
  | pair _ hclose _ ih =>
      rw [List.cons_append, List.append_assoc, List.cons_append] at h'
      exact ih (h'.behind hclose)

/-- Without an opening brace there is no closing one. -/
theorem Braced.not_mem_close {cs : List Char} (h : Braced cs) (hopen : '{' ∉ cs) : '}' ∉ cs := by
  induction h with
  | nil => exact List.not_mem_nil
  | char _ hclose _ ih =>
      obtain ⟨-, hopen⟩ := not_or.1 (List.mem_cons.not.1 hopen)
      exact fun hmem => (List.mem_cons.1 hmem).elim (fun he => hclose he.symm) (ih hopen)
  | pair => exact absurd List.mem_cons_self hopen

/-- Placeholders that fill segments have their braces in pairs. -/
theorem braced_of_wholeSegments {path : String} (h : WholeSegments path) : Braced path.toList := by
  have hall : ∀ segments : List (List Char), (∀ segment ∈ segments, Braced segment) →
      Braced (['/'].intercalate segments) := by
    intro segments hsegments
    induction segments with
    | nil => exact .nil
    | cons segment segments ih =>
        obtain ⟨hsegment, hsegments⟩ := List.forall_mem_cons.1 hsegments
        cases segments with
        | nil => simpa using hsegment
        | cons next segments =>
            have hslash : Braced ['/'] := .char (by decide) (by decide) .nil
            rw [List.intercalate_cons_cons]
            exact (hsegment.append hslash).append (ih hsegments)
  have hsplit : ['/'].intercalate (path.toList.splitOn '/') = path.toList := List.intercalate_splitOn '/'
  rw [← hsplit]
  refine hall _ fun segment hsegment => ?_
  rcases h segment hsegment with ⟨hopen, hclose⟩ | ⟨name, rfl, hopen, hclose⟩
  · exact braced_of_not_mem hopen hclose
  · exact .pair hopen hclose .nil

/-! ### Paths without the names of their placeholders -/

theorem normalizeList_inside {name cs : List Char} (hopen : '{' ∉ name) (hclose : '}' ∉ name) :
    normalizeList true (name ++ '}' :: cs) = '}' :: normalizeList false cs := by
  induction name with
  | nil => rw [List.nil_append, normalizeList]
  | cons c name ih =>
      obtain ⟨ho, hopen⟩ := not_or.1 (List.mem_cons.not.1 hopen)
      obtain ⟨hc, hclose⟩ := not_or.1 (List.mem_cons.not.1 hclose)
      rw [List.cons_append, normalizeList, if_pos rfl, ih hopen hclose]
      · exact fun he => ho he.symm
      · exact fun he => hc he.symm

theorem normalizeList_char {c : Char} (hopen : c ≠ '{') (hclose : c ≠ '}') (cs : List Char) :
    normalizeList false (c :: cs) = c :: normalizeList false cs := by
  rw [normalizeList, if_neg Bool.false_ne_true]
  · exact hopen
  · exact hclose

theorem normalizeList_pair {name : List Char} (hopen : '{' ∉ name) (hclose : '}' ∉ name) (cs : List Char) :
    normalizeList false ('{' :: (name ++ '}' :: cs)) = '{' :: '}' :: normalizeList false cs := by
  rw [normalizeList, normalizeList_inside hopen hclose]

theorem normalizeList_append {cs : List Char} (h : Braced cs) (ds : List Char) :
    normalizeList false (cs ++ ds) = normalizeList false cs ++ normalizeList false ds := by
  induction h with
  | nil => rw [normalizeList]; rfl
  | char hopen hclose _ ih =>
      rw [List.cons_append, normalizeList_char hopen hclose, normalizeList_char hopen hclose, ih, List.cons_append]
  | pair hopen hclose _ ih =>
      rw [List.cons_append, List.append_assoc, List.cons_append, normalizeList_pair hopen hclose,
        normalizeList_pair hopen hclose, ih]
      rfl

theorem braced_normalizeList {cs : List Char} (h : Braced cs) : Braced (normalizeList false cs) := by
  induction h with
  | nil => exact .nil
  | char hopen hclose _ ih =>
      rw [normalizeList_char hopen hclose]
      exact .char hopen hclose ih
  | pair hopen hclose _ ih =>
      rw [normalizeList_pair hopen hclose]
      exact @Braced.pair [] _ List.not_mem_nil List.not_mem_nil ih

theorem count_normalizeList (inside : Bool) (cs : List Char) :
    (normalizeList inside cs).count '{' = cs.count '{' := by
  induction cs generalizing inside with
  | nil => rw [normalizeList]
  | cons c cs ih =>
      by_cases hopen : c = '{'
      · subst hopen
        rw [normalizeList, List.count_cons_self, List.count_cons_self, ih]
      · by_cases hclose : c = '}'
        · subst hclose
          rw [normalizeList, List.count_cons_of_ne (by decide), List.count_cons_of_ne (by decide), ih]
        · rw [normalizeList]
          · split_ifs
            · rw [ih, List.count_cons_of_ne hopen]
            · rw [List.count_cons_of_ne hopen, ih, List.count_cons_of_ne hopen]
          · exact hopen
          · exact hclose

/-! ### Filling -/

theorem fillList_char {c : Char} (h : c ≠ '{') (cs : List Char) (values : List String) :
    fillList (c :: cs) values = (fillList cs values).map (c :: ·) := by
  cases values with
  | nil =>
      rw [fillList, fillList]
      by_cases hmem : '{' ∈ cs <;> simp [hmem, Ne.symm h]
  | cons v values =>
      rw [fillList, fillList, Text.splitOnceList, if_neg (by simpa using Ne.symm h)]
      cases Text.splitOnceList ['{'] cs with
      | none => rfl
      | some parts =>
          obtain ⟨before, inside⟩ := parts
          simp only [Option.map_some]
          cases Text.splitOnceList ['}'] inside with
          | none => rfl
          | some found => simp only [Option.map_map]; rfl

theorem fillList_pair {name : List Char} (hclose : '}' ∉ name) (cs : List Char) (v : String)
    (values : List String) :
    fillList ('{' :: (name ++ '}' :: cs)) (v :: values) = (fillList cs values).map (v.toList ++ ·) := by
  have hfirst := @Text.splitOnceList_char '{' [] (name ++ '}' :: cs) List.not_mem_nil
  rw [List.nil_append] at hfirst
  rw [fillList, hfirst]
  simp only [Text.splitOnceList_char hclose, List.nil_append]

/-- Braces in pairs, as many as the values, are filled. -/
theorem exists_fillList {cs : List Char} (h : Braced cs) {values : List String}
    (hcount : cs.count '{' = values.length) : ∃ filled, fillList cs values = some filled := by
  induction h generalizing values with
  | nil =>
      obtain rfl := List.length_eq_zero_iff.1 hcount.symm
      exact ⟨[], rfl⟩
  | char hopen _ _ ih =>
      rw [List.count_cons_of_ne hopen] at hcount
      obtain ⟨filled, hfilled⟩ := ih hcount
      exact ⟨_, by rw [fillList_char hopen, hfilled]; rfl⟩
  | pair hopen hclose _ ih =>
      rw [List.count_cons_self, List.count_append, List.count_eq_zero.2 hopen, Nat.zero_add,
        List.count_cons_of_ne (by decide)] at hcount
      cases values with
      | nil => cases hcount
      | cons v values =>
          obtain ⟨filled, hfilled⟩ := ih (Nat.succ.inj hcount)
          exact ⟨_, by rw [fillList_pair hclose, hfilled]; rfl⟩

/-- **The names do not matter.** -/
theorem fillList_normalizeList {cs : List Char} (h : Braced cs) (values : List String) :
    fillList (normalizeList false cs) values = fillList cs values := by
  induction h generalizing values with
  | nil => rfl
  | char hopen hclose _ ih =>
      rw [normalizeList_char hopen hclose, fillList_char hopen, fillList_char hopen, ih]
  | pair hopen hclose _ ih =>
      rw [normalizeList_pair hopen hclose]
      cases values with
      | nil => simp [fillList]
      | cons v values =>
          rw [fillList_pair hclose, ← ih]
          exact @fillList_pair [] List.not_mem_nil _ v values

/-- **The beginning and the rest are filled by themselves.** -/
theorem fillList_append {cs : List Char} (h : Braced cs) {values : List String}
    (hcount : cs.count '{' = values.length) (ds : List Char) (more : List String) :
    fillList (cs ++ ds) (values ++ more) =
      (fillList cs values).bind fun filled => (fillList ds more).map (filled ++ ·) := by
  induction h generalizing values with
  | nil =>
      obtain rfl := List.length_eq_zero_iff.1 hcount.symm
      simp [fillList]
  | char hopen _ _ ih =>
      rw [List.count_cons_of_ne hopen] at hcount
      rw [List.cons_append, fillList_char hopen, fillList_char hopen, ih hcount]
      cases fillList _ values with
      | none => rfl
      | some filled => simp only [Option.bind_some, Option.map_some, Option.map_map]; rfl
  | pair hopen hclose _ ih =>
      rw [List.count_cons_self, List.count_append, List.count_eq_zero.2 hopen, Nat.zero_add,
        List.count_cons_of_ne (by decide)] at hcount
      cases values with
      | nil => cases hcount
      | cons v values =>
          rw [List.cons_append, List.append_assoc, List.cons_append, List.cons_append, fillList_pair hclose,
            fillList_pair hclose, ih (Nat.succ.inj hcount)]
          cases fillList _ values with
          | none => rfl
          | some filled =>
              simp only [Option.bind_some, Option.map_some, Option.map_map, Function.comp_def, List.append_assoc]

/-! ### Paths -/

theorem toList_normalize (path : String) : (Generator.normalize path).toList = normalizeList false path.toList :=
  String.toList_ofList

theorem fillPlaceholders_of_count {path : String} {values : List String} (h : placeholderCount path = values.length) :
    fillPlaceholders path values = (fillList path.toList values).map String.ofList := by
  rw [fillPlaceholders, if_neg (not_not.2 h)]

/-- **A path below another** is filled with what fills the other, and then with what fills the rest. -/
theorem fillPlaceholders_below {path top rest : String} (hpath : Braced path.toList) (htop : Braced top.toList)
    (h : Generator.normalize path = Generator.normalize top ++ "/" ++ rest) {values : List String}
    (hvalues : values.length = placeholderCount path) :
    ∃ entity below, fillPlaceholders top (values.take (placeholderCount top)) = some entity ∧
      fillPlaceholders rest (values.drop (placeholderCount top)) = some below ∧
      fillPlaceholders path values = some (entity ++ "/" ++ below) := by
  have hlist : normalizeList false path.toList = normalizeList false top.toList ++ '/' :: rest.toList := by
    have hlist := congrArg String.toList h
    rwa [String.toList_append, String.toList_append, toList_normalize, toList_normalize, List.append_assoc] at hlist
  have hrest : Braced rest.toList := by
    have hall := braced_normalizeList hpath
    rw [hlist] at hall
    exact ((braced_normalizeList htop).of_append hall).tail (by decide)
  have hsum : placeholderCount path = placeholderCount top + placeholderCount rest := by
    rw [placeholderCount, ← count_normalizeList false path.toList, hlist, List.count_append, count_normalizeList,
      List.count_cons_of_ne (by decide)]
    rfl
  have hfirst : placeholderCount top = (values.take (placeholderCount top)).length := by
    rw [List.length_take, hvalues, hsum, Nat.min_eq_left (Nat.le_add_right _ _)]
  have hsecond : placeholderCount rest = (values.drop (placeholderCount top)).length := by
    rw [List.length_drop, hvalues, hsum, Nat.add_sub_cancel_left]
  obtain ⟨entity, hentity⟩ := exists_fillList htop hfirst
  obtain ⟨below, hbelow⟩ := exists_fillList hrest hsecond
  refine ⟨String.ofList entity, String.ofList below, ?_, ?_, ?_⟩
  · rw [fillPlaceholders_of_count hfirst, hentity]
    rfl
  · rw [fillPlaceholders_of_count hsecond, hbelow]
    rfl
  · have hall : fillList path.toList values = some (entity ++ '/' :: below) := by
      rw [← fillList_normalizeList hpath, hlist, ← List.take_append_drop (placeholderCount top) values,
        fillList_append (braced_normalizeList htop) ((count_normalizeList _ _).trans hfirst),
        fillList_normalizeList htop, hentity, fillList_char (by decide), hbelow]
      rfl
    rw [fillPlaceholders_of_count hvalues.symm, hall, Option.map_some]
    refine congrArg some (String.toList_injective ?_)
    rw [String.toList_append, String.toList_append, @String.toList_ofList (_ ++ _), @String.toList_ofList entity,
      @String.toList_ofList below, List.append_assoc]
    rfl

end Nutsh
