/-
Whether a curated path can be read.

The generator accepts a dotted path when it can follow it through the schema of the kind, and the program
then reads it out of the JSON of an entity.  The two split the path each in its own way: a dot at the end of a
path is nothing to the generator, and an empty segment more to the program.

* `propertyAt`, `resolves` — the walk of the generator;
* `Shaped` — the values of a schema;
* `Reaches` — the properties a list of segments names, however many they are;
* `isSome_propertyAt`, `readable_iff` — what the generator follows, and what some value has, in these terms;
* `resolves_alike_iff` — the two agree but for a path that ends in a dot.
-/
import Mathlib.Data.List.Basic
import Nutsh.Catalog
import Nutsh.Generator.Schema
import Nutsh.Lib.Split

set_option relaxedAutoImplicit false
set_option autoImplicit false

namespace Nutsh.Generator

/-! ### The walk of the generator -/

/-- The first segment of a path, and the rest. -/
def splitFirst (path : String) : Option (String × String) :=
  if path = "" then none else some ((Text.splitOnce "." path).getD (path, ""))

/-- The schema one segment of a path leads to from an arm: of the property, or of its items when the segment
ends in `[]`. -/
def under (schemas : Json) (segment : String) (arm : Json) : Option Json :=
  match Text.stripSuffix "[]" segment with
  | some key => ((propertiesOf schemas arm).lookup key).bind fun prop => (resolve schemas prop).get "items"
  | none => (propertiesOf schemas arm).lookup segment

/-- The schema at a path, within so many steps: the first that some arm leads to at each of them. -/
def propertyAt (schemas : Json) : (left : ℕ) → Json → String → Option Json
  | 0, _, _ => none
  | left + 1, schema, path =>
      match splitFirst path with
      | none => some schema
      | some (segment, rest) =>
          (arms schemas schema).findSome? fun arm =>
            (under schemas segment arm).bind fun next => propertyAt schemas left next rest

/-- The schema at a path of a named one.  The walk is at most eight segments deep. -/
def propertyAtNamed (schemas : Json) (name path : String) : Option Json :=
  (schemas.get name).bind fun schema => propertyAt schemas 9 schema path

/-- Whether a path resolves against a schema. -/
def resolves (schemas : Json) (name path : String) : Bool := (propertyAtNamed schemas name path).isSome

/-! ### The values of a schema -/

section
variable (schemas : Json)

/-- A schema that declares an object, itself or in one of its arms. -/
def DeclaresObject (schema : Json) : Prop :=
  ∃ arm ∈ arms schemas schema, schemaType (resolve schemas arm) = "object" ∨ propertiesOf schemas arm ≠ []

/-- A value shaped by a schema: an object whose members are declared by the schema, by one of the arms of its
`oneOf` or by one of its `anyOf`; an array where the schema has one; anything else where it has neither. -/
inductive Shaped : Json → Json → Prop
  | object {schema : Json} {members : List (String × Json)} (one any : Option Json) (declared : String → Json)
      (object : DeclaresObject schemas schema)
      (hone : ∀ arm ∈ one, arm ∈ armsUnder schemas "oneOf" (resolve schemas schema))
      (hany : ∀ arm ∈ any, arm ∈ armsUnder schemas "anyOf" (resolve schemas schema))
      (distinct : (members.map Prod.fst).Nodup)
      (among : ∀ m ∈ members, ∃ arm ∈ resolve schemas schema :: (one.toList ++ any.toList),
        (propertiesOf schemas arm).lookup m.1 = some (declared m.1))
      (shaped : ∀ m ∈ members, Shaped (declared m.1) m.2) : Shaped schema (.obj members)
  | array {schema item : Json} {items : List Json} (array : (resolve schemas schema).get "items" = some item)
      (shaped : ∀ v ∈ items, Shaped item v) : Shaped schema (.arr items)
  | scalar {schema v : Json} (object : ¬ DeclaresObject schemas schema)
      (array : (resolve schemas schema).get "items" = none) (hobj : v.asObject = none)
      (harr : v.asArray = none) : Shaped schema v

/-- The schemas a segment leads to, from any of the arms. -/
def nexts (schema : Json) (segment : String) : List Json :=
  (arms schemas schema).filterMap (under schemas segment)

/-- The properties the segments name are declared, one below the other. -/
def Reaches : Json → List String → Prop
  | _, [] => True
  | schema, segment :: segments => ∃ next ∈ nexts schemas schema segment, Reaches next segments

/-- The segments a value is read by. -/
def segmentsOf (path : String) : List String := if path = "" then [] else Text.splitChar '.' path

/-- The segments the generator follows: those a value is read by, but for an empty one at the end. -/
def followed (path : String) : List String :=
  if Text.endsWith "." path then (segmentsOf path).dropLast else segmentsOf path

/-- Some value of the schema has a value at the path. -/
def Readable (name path : String) : Prop :=
  ∃ schema, schemas.get name = some schema ∧ ∃ v, Shaped schemas schema v ∧ Path.get v path ≠ []

/-- What the generator accepts can be read, and what can be read in eight segments it accepts. -/
def Agrees (name path : String) : Prop :=
  (resolves schemas name path = true → Readable schemas name path) ∧
    ((segmentsOf path).length ≤ 8 → Readable schemas name path → resolves schemas name path = true)

end

/-! ### The segments of a path -/

theorem splitFirst_of_ne {path : String} (h : path ≠ "") :
    splitFirst path = some ((Text.splitOnce "." path).getD (path, "")) := if_neg h

theorem segmentsOf_of_ne {path : String} (h : path ≠ "") : segmentsOf path = Text.splitChar '.' path := if_neg h

theorem endsWith_dot {path : String} : Text.endsWith "." path = true ↔ path.toList.getLast? = some '.' := by
  rw [Text.endsWith, List.isSuffixOf_iff_suffix, List.getLast?_eq_some_iff]
  constructor
  · rintro ⟨front, h⟩
    exact ⟨front, h.symm⟩
  · rintro ⟨front, h⟩
    exact ⟨front, h.symm⟩

/-- What the generator splits off is the first of the segments it follows. -/
theorem followed_cons {path segment rest : String} (h : splitFirst path = some (segment, rest)) :
    followed path = segment :: followed rest := by
  have hne : path ≠ "" := by
    rintro rfl
    simp [splitFirst] at h
  rw [splitFirst_of_ne hne, Option.some.injEq] at h
  by_cases hdot : '.' ∈ path.toList
  · obtain ⟨a, b, hpath, ha⟩ := List.eq_append_cons_of_mem hdot
    have hsplit : Text.splitOnce "." path = some (String.ofList a, String.ofList b) := by
      rw [Text.splitOnce, hpath, show ".".toList = ['.'] from rfl, Text.splitOnceList_char ha]
      rfl
    rw [hsplit] at h
    obtain ⟨rfl, rfl⟩ := Prod.mk.inj h
    have hsegments : segmentsOf path = String.ofList a :: Text.splitChar '.' (String.ofList b) := by
      rw [segmentsOf_of_ne hne, Text.splitChar, Text.splitChar, hpath,
        List.splitOn_append_cons_self_of_not_mem ha, String.toList_ofList]
      rfl
    rcases eq_or_ne b [] with rfl | hb
    · -- The dot is the last character, and what is behind it an empty segment.
      have hend : Text.endsWith "." path = true := endsWith_dot.2 (by rw [hpath, List.getLast?_concat])
      rw [followed, if_pos hend, hsegments]
      rfl
    · have hne' : String.ofList b ≠ "" := fun he => hb (by simpa using congrArg String.toList he)
      have hend : Text.endsWith "." path = Text.endsWith "." (String.ofList b) := by
        rw [Bool.eq_iff_iff, endsWith_dot, endsWith_dot, String.toList_ofList, hpath,
          List.append_cons, List.getLast?_append_of_ne_nil _ hb]
      have hpieces : Text.splitChar '.' (String.ofList b) ≠ [] := fun he =>
        List.splitOn_ne_nil _ _ (List.map_eq_nil_iff.1 he)
      rw [followed, followed, hend, hsegments, segmentsOf_of_ne hne']
      split
      · exact List.dropLast_cons_of_ne_nil hpieces
      · rfl
  · have hsplit : Text.splitOnce "." path = none := by
      rw [Text.splitOnce, show ".".toList = ['.'] from rfl, Text.splitOnceList_char_of_not_mem hdot]
      rfl
    rw [hsplit] at h
    obtain ⟨rfl, rfl⟩ := Prod.mk.inj h
    have hend : ¬ Text.endsWith "." path = true := fun he =>
      hdot (List.mem_of_getLast? (endsWith_dot.1 he))
    rw [followed, if_neg hend, segmentsOf_of_ne hne, Text.splitChar, List.splitOn_eq_singleton hdot]
    simp [followed, segmentsOf]

/-- A path that ends in a dot has an empty segment behind those the generator follows, and no other has. -/
theorem segmentsOf_eq (path : String) :
    segmentsOf path = followed path ++ (if Text.endsWith "." path then [""] else []) := by
  by_cases hend : Text.endsWith "." path = true
  · obtain ⟨front, hfront⟩ := List.getLast?_eq_some_iff.1 (endsWith_dot.1 hend)
    have hne : path ≠ "" := by
      rintro rfl
      simp at hfront
    have hsegments : segmentsOf path = (front.splitOn '.').map String.ofList ++ [""] := by
      rw [segmentsOf_of_ne hne, Text.splitChar, hfront, Split.splitOn_concat_self, List.map_append]
      rfl
    rw [followed, if_pos hend, if_pos hend, hsegments, List.dropLast_concat]
  · rw [followed, if_neg hend, if_neg hend, List.append_nil]

/-! ### What the generator follows -/

section
variable {schemas : Json}

@[simp] theorem reaches_nil {schema : Json} : Reaches schemas schema [] := trivial

theorem reaches_cons {schema : Json} {segment : String} {segments : List String} :
    Reaches schemas schema (segment :: segments) ↔
      ∃ next ∈ nexts schemas schema segment, Reaches schemas next segments := Iff.rfl

/-- Longer ways pass through their beginnings. -/
theorem Reaches.of_append {more : List String} : ∀ {segments : List String} {schema : Json},
    Reaches schemas schema (segments ++ more) → Reaches schemas schema segments
  | [], _, _ => trivial
  | _ :: _, _, ⟨next, hnext, h⟩ => ⟨next, hnext, h.of_append⟩

theorem isSome_propertyAt {left : ℕ} {schema : Json} {path : String} :
    (propertyAt schemas left schema path).isSome = true ↔
      (followed path).length < left ∧ Reaches schemas schema (followed path) := by
  induction left generalizing schema path with
  | zero => simp [propertyAt]
  | succ left ih =>
      rw [propertyAt]
      cases hsplit : splitFirst path with
      | none =>
          obtain rfl : path = "" := by
            by_contra hne
            simp [splitFirst_of_ne hne] at hsplit
          simp [followed, segmentsOf]
      | some found =>
          obtain ⟨segment, rest⟩ := found
          rw [followed_cons hsplit, List.length_cons, Nat.add_lt_add_iff_right, reaches_cons]
          simp only [List.findSome?_isSome_iff, nexts, List.mem_filterMap]
          constructor
          · rintro ⟨arm, harm, h⟩
            obtain ⟨found, hfound⟩ := Option.isSome_iff_exists.1 h
            obtain ⟨next, hnext, hfound⟩ := Option.bind_eq_some_iff.1 hfound
            obtain ⟨hlength, hreach⟩ := ih.1 (Option.isSome_of_eq_some hfound)
            exact ⟨hlength, next, ⟨arm, harm, hnext⟩, hreach⟩
          · rintro ⟨hlength, next, ⟨arm, harm, hnext⟩, hreach⟩
            exact ⟨arm, harm, by rw [hnext]; exact ih.2 ⟨hlength, hreach⟩⟩

/-! ### What the values have -/

/-- The values a list of segments leads to. -/
def valuesAt (v : Json) (segments : List String) : List Json :=
  segments.foldl (fun current segment => current.flatMap (Path.child segment)) [v]

theorem get_eq (v : Json) (path : String) : Path.get v path = valuesAt v (segmentsOf path) := by
  unfold Path.get segmentsOf
  split <;> rfl

theorem mem_valuesAt_cons {v w : Json} {segment : String} {segments : List String} :
    w ∈ valuesAt v (segment :: segments) ↔ ∃ u ∈ Path.child segment v, w ∈ valuesAt u segments := by
  have hmany : ∀ (segments : List String) (current : List Json),
      w ∈ segments.foldl (fun current segment => current.flatMap (Path.child segment)) current ↔
        ∃ u ∈ current, w ∈ valuesAt u segments := by
    intro segments
    induction segments with
    | nil => simp [valuesAt]
    | cons segment segments ih =>
        intro current
        have hone (u : Json) : w ∈ valuesAt u (segment :: segments) ↔
            ∃ t ∈ Path.child segment u, w ∈ valuesAt t segments := by
          rw [valuesAt, List.foldl_cons, List.flatMap_cons, List.flatMap_nil, List.append_nil, ih]
        rw [List.foldl_cons, ih]
        simp only [hone, List.mem_flatMap]
        constructor
        · rintro ⟨u, ⟨t, ht, hu⟩, h⟩
          exact ⟨t, ht, u, hu, h⟩
        · rintro ⟨t, ht, u, hu, h⟩
          exact ⟨u, ⟨t, ht, hu⟩, h⟩
  rw [valuesAt, List.foldl_cons, List.flatMap_cons, List.flatMap_nil, List.append_nil, hmany]

/-- Every schema has a value. -/
theorem exists_shaped (schema : Json) : ∃ v, Shaped schemas schema v := by
  cases hitems : (resolve schemas schema).get "items" with
  | some item => exact ⟨.arr [], .array hitems (by simp)⟩
  | none =>
      by_cases hobject : DeclaresObject schemas schema
      · exact ⟨.obj [], .object none none (fun _ => .null) hobject (by simp) (by simp) (by simp) (by simp)
          (by simp)⟩
      · exact ⟨.null, .scalar hobject hitems rfl rfl⟩

/-- A property one of the arms declares is the only member of some value. -/
theorem shaped_member {schema arm prop v : Json} {key : String} (harm : arm ∈ arms schemas schema)
    (hprop : (propertiesOf schemas arm).lookup key = some prop) (hv : Shaped schemas prop v) :
    Shaped schemas schema (.obj [(key, v)]) := by
  have hobject : DeclaresObject schemas schema :=
    ⟨arm, harm, .inr fun he => by rw [he] at hprop; exact absurd hprop (by simp)⟩
  have hmember (one any : Option Json)
      (hone : ∀ a ∈ one, a ∈ armsUnder schemas "oneOf" (resolve schemas schema))
      (hany : ∀ a ∈ any, a ∈ armsUnder schemas "anyOf" (resolve schemas schema))
      (hin : arm ∈ resolve schemas schema :: (one.toList ++ any.toList)) :
      Shaped schemas schema (.obj [(key, v)]) :=
    .object one any (fun _ => prop) hobject hone hany (by simp)
      (fun _ hm => ⟨arm, hin, by rwa [List.mem_singleton.1 hm]⟩) (fun _ hm => by rwa [List.mem_singleton.1 hm])
  rcases List.mem_cons.1 harm with rfl | harm
  · exact hmember none none (by simp) (by simp) List.mem_cons_self
  · rcases List.mem_append.1 harm with hone | hany
    · exact hmember (some arm) none (by simpa using hone) (by simp) (by simp)
    · exact hmember none (some arm) (by simp) (by simpa using hany) (by simp)

/-- Where a segment leads to a schema, it leads to each of its values from some value. -/
theorem exists_child {schema next v : Json} {segment : String} (h : next ∈ nexts schemas schema segment)
    (hv : Shaped schemas next v) : ∃ u, Shaped schemas schema u ∧ v ∈ Path.child segment u := by
  obtain ⟨arm, harm, hunder⟩ := List.mem_filterMap.1 h
  unfold under at hunder
  cases hsuffix : Text.stripSuffix "[]" segment with
  | none =>
      rw [hsuffix] at hunder
      exact ⟨_, shaped_member harm hunder hv, by simp [Path.child, hsuffix]⟩
  | some key =>
      rw [hsuffix] at hunder
      obtain ⟨prop, hprop, hitems⟩ := Option.bind_eq_some_iff.1 hunder
      have harray : Shaped schemas prop (.arr [v]) := .array hitems (by simpa using hv)
      exact ⟨_, shaped_member harm hprop harray, by simp [Path.child, hsuffix, Json.asArray]⟩

/-- What a value has under a segment is shaped by a schema the segment leads to. -/
theorem shaped_child {schema u v : Json} {segment : String} (hu : Shaped schemas schema u)
    (hv : v ∈ Path.child segment u) : ∃ next ∈ nexts schemas schema segment, Shaped schemas next v := by
  have hget : ∀ {key : String} {w : Json}, u.get key = some w →
      ∃ arm ∈ arms schemas schema, ∃ prop,
        (propertiesOf schemas arm).lookup key = some prop ∧ Shaped schemas prop w := by
    intro key w hw
    cases hu with
    | object one any declared _ hone hany _ among shaped =>
        obtain ⟨before, after, rfl, -⟩ := List.lookup_eq_some_iff.1 hw
        have hmem : (key, w) ∈ before ++ (key, w) :: after := by simp
        obtain ⟨arm, harm, hprop⟩ := among _ hmem
        refine ⟨arm, ?_, _, hprop, shaped _ hmem⟩
        simp only [List.mem_cons, List.mem_append, Option.mem_toList] at harm
        simp only [arms, List.mem_cons, List.mem_append]
        exact harm.imp_right (Or.imp (hone arm) (hany arm))
    | array _ _ => exact absurd hw (by simp [Json.get])
    | scalar _ _ hobj _ => cases u <;> simp_all [Json.get, Json.asObject]
  unfold Path.child at hv
  cases hsuffix : Text.stripSuffix "[]" segment with
  | none =>
      rw [hsuffix] at hv
      obtain ⟨arm, harm, prop, hprop, hshaped⟩ := hget (Option.mem_toList.1 hv)
      exact ⟨prop, List.mem_filterMap.2 ⟨arm, harm, by rw [under, hsuffix]; exact hprop⟩, hshaped⟩
  | some key =>
      rw [hsuffix] at hv
      obtain ⟨items, hitems, hmem⟩ : ∃ items, (u.get key).bind Json.asArray = some items ∧ v ∈ items := by
        cases h : (u.get key).bind Json.asArray with
        | none => simp [h] at hv
        | some items => exact ⟨items, rfl, by simpa [h] using hv⟩
      obtain ⟨w, hw, harr⟩ := Option.bind_eq_some_iff.1 hitems
      obtain ⟨arm, harm, prop, hprop, hshaped⟩ := hget hw
      cases hshaped with
      | object => simp [Json.asArray] at harr
      | scalar _ _ _ hnot => rw [hnot] at harr; exact absurd harr (by simp)
      | array hitem hall =>
          obtain rfl := Option.some.inj harr
          exact ⟨_, List.mem_filterMap.2 ⟨arm, harm, by rw [under, hsuffix]; simp [hprop, hitem]⟩, hall v hmem⟩

/-- Some value of a schema has a value at the segments when the segments name properties, one below the
other. -/
theorem exists_shaped_valuesAt {segments : List String} {schema : Json} :
    (∃ v, Shaped schemas schema v ∧ ∃ w, w ∈ valuesAt v segments) ↔ Reaches schemas schema segments := by
  induction segments generalizing schema with
  | nil =>
      obtain ⟨v, hv⟩ := @exists_shaped schemas schema
      exact ⟨fun _ => trivial, fun _ => ⟨v, hv, v, by simp [valuesAt]⟩⟩
  | cons segment segments ih =>
      rw [reaches_cons]
      constructor
      · rintro ⟨u, hu, w, hw⟩
        obtain ⟨v, hv, hw⟩ := mem_valuesAt_cons.1 hw
        obtain ⟨next, hnext, hshaped⟩ := shaped_child hu hv
        exact ⟨next, hnext, ih.1 ⟨v, hshaped, w, hw⟩⟩
      · rintro ⟨next, hnext, hreach⟩
        obtain ⟨v, hv, w, hw⟩ := ih.2 hreach
        obtain ⟨u, hu, hchild⟩ := exists_child hnext hv
        exact ⟨u, hu, w, mem_valuesAt_cons.2 ⟨v, hchild, hw⟩⟩

theorem readable_iff {name path : String} : Readable schemas name path ↔
    ∃ schema, schemas.get name = some schema ∧ Reaches schemas schema (segmentsOf path) := by
  unfold Readable
  refine exists_congr fun schema => and_congr_right fun _ => ?_
  rw [← exists_shaped_valuesAt]
  refine exists_congr fun v => and_congr_right fun _ => ?_
  rw [get_eq, ne_eq, List.eq_nil_iff_forall_not_mem, not_forall_not]

theorem resolves_iff {name path : String} : resolves schemas name path = true ↔
    ∃ schema, schemas.get name = some schema ∧
      (followed path).length ≤ 8 ∧ Reaches schemas schema (followed path) := by
  unfold resolves propertyAtNamed
  cases schemas.get name with
  | none => simp
  | some schema => simp [isSome_propertyAt, Nat.lt_succ_iff]

end

/-- The generator and the program agree on a path exactly when it does not end in a dot, or what stands before
the dot is refused, or a property of the empty name is declared behind it. -/
theorem resolves_alike_iff (schemas : Json) (name path : String) : Agrees schemas name path ↔
    ∀ schema, schemas.get name = some schema → Text.endsWith "." path = true → (followed path).length ≤ 8 →
      Reaches schemas schema (followed path) → Reaches schemas schema (followed path ++ [""]) := by
  unfold Agrees
  rw [readable_iff, resolves_iff]
  constructor
  · rintro ⟨hread, -⟩ schema hschema hend hlength hreach
    obtain ⟨found, hfound, h⟩ := hread ⟨schema, hschema, hlength, hreach⟩
    obtain rfl := Option.some.inj (hschema.symm.trans hfound)
    rwa [segmentsOf_eq, if_pos hend] at h
  · intro h
    constructor
    · rintro ⟨schema, hschema, hlength, hreach⟩
      refine ⟨schema, hschema, ?_⟩
      rw [segmentsOf_eq]
      split
      · exact h schema hschema ‹_› hlength hreach
      · simpa using hreach
    · rintro hlength ⟨schema, hschema, hreach⟩
      rw [segmentsOf_eq] at hlength hreach
      rw [List.length_append] at hlength
      exact ⟨schema, hschema, by omega, hreach.of_append⟩

/-- A schema with one property, a name. -/
def namedOnly : Json :=
  .obj [("Vm", .obj [("properties", .obj [("name", .obj [("type", .str "string")])])])]

/-- The generator accepts the path of a property with a dot behind it, and no entity has a value there. -/
theorem not_resolves_alike : ¬ Agrees namedOnly "Vm" "name." := by
  have haccepted : resolves namedOnly "Vm" "name." = true := by decide
  have hsegments : segmentsOf "name." = ["name", ""] := by decide
  rintro ⟨hread, -⟩
  obtain ⟨schema, hschema, hreach⟩ := readable_iff.1 (hread haccepted)
  rw [hsegments] at hreach
  obtain ⟨next, hnext, last, hlast, -⟩ := hreach
  obtain rfl : .obj [("properties", .obj [("name", .obj [("type", .str "string")])])] = schema :=
    Option.some.inj hschema
  have hnexts : nexts namedOnly (.obj [("properties", .obj [("name", .obj [("type", .str "string")])])]) "name" =
      [.obj [("type", .str "string")]] := by rfl
  rw [hnexts] at hnext
  obtain rfl := List.mem_singleton.1 hnext
  have hnone : nexts namedOnly (.obj [("type", .str "string")]) "" = [] := by rfl
  rw [hnone] at hlast
  exact absurd hlast (by simp)

end Nutsh.Generator
