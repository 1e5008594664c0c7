/-
Documents that differ in their secrets only.

Two documents are alike when they have the same shape and the same values but for what stands under a
member that is scrubbed from both.  Alike documents scrub to the same, and what is read of them under
names that hide nothing is the same: the id, and the name of an entity unless it was taken from key
material.

Main definitions:

* `Alike` — documents that differ only under their secret members;
* `Kind.isLegible` — a kind whose id and name are found under names that hide nothing;
* `Exposed` — a document that is named by its key material;
* `blur` — the document with another key.

Main results:

* `scrub_of_alike` — alike documents scrub to the same;
* `nameOf_of_alike` — they have one name, unless key material is the name;
* `nameOf_blur` — and another one when it is.
-/
import Mathlib.Data.List.Forall2
import Nutsh.Cache.Scrub
import Nutsh.Entity

set_option relaxedAutoImplicit false
set_option autoImplicit false

namespace Nutsh.Cache

mutual

/-- Two documents that differ only in the values of their secret members. -/
def Alike : Json → Json → Prop
  | .obj ms, .obj ns => AlikeMembers ms ns
  | .arr vs, .arr ws => AlikeItems vs ws
  | v, w => v = w

def AlikeMembers : List (String × Json) → List (String × Json) → Prop
  | [], [] => True
  | (k, v) :: ms, (l, w) :: ns =>
      k = l ∧ (hides k v = true ∧ hides k w = true ∨ hides k v = false ∧ Alike v w) ∧ AlikeMembers ms ns
  | _, _ => False

def AlikeItems : List Json → List Json → Prop
  | [], [] => True
  | v :: vs, w :: ws => Alike v w ∧ AlikeItems vs ws
  | _, _ => False

end

variable {v w : Json} {ms ns : List (String × Json)} {vs ws : List Json} {k : String}

/-! ### Shapes -/

theorem alike_obj : Alike (.obj ms) w ↔ ∃ ns, w = .obj ns ∧ AlikeMembers ms ns := by
  cases w <;> simp [Alike]

theorem alike_arr : Alike (.arr vs) w ↔ ∃ ws, w = .arr ws ∧ AlikeItems vs ws := by
  cases w <;> simp [Alike]

/-- A document that is neither an object nor an array is alike itself only. -/
theorem alike_scalar (hobj : v.asObject = none) (harr : v.asArray = none) : Alike v w ↔ v = w := by
  cases v with
  | obj ms => cases hobj
  | arr vs => cases harr
  | null => cases w <;> simp [Alike]
  | bool b => cases w <;> simp [Alike]
  | num n => cases w <;> simp [Alike]
  | str s => cases w <;> simp [Alike]

theorem alikeItems_iff : AlikeItems vs ws ↔ List.Forall₂ Alike vs ws := by
  induction vs generalizing ws with
  | nil => cases ws <;> simp [AlikeItems]
  | cons v vs ih =>
      cases ws with
      | nil => simp [AlikeItems]
      | cons w ws => simp [AlikeItems, ih]

theorem asStr_of_alike (h : Alike v w) : v.asStr = w.asStr := by
  cases v with
  | obj ms =>
      obtain ⟨ns, rfl, -⟩ := alike_obj.1 h
      rfl
  | arr vs =>
      obtain ⟨ws, rfl, -⟩ := alike_arr.1 h
      rfl
  | null => rw [(alike_scalar rfl rfl).1 h]
  | bool b => rw [(alike_scalar rfl rfl).1 h]
  | num n => rw [(alike_scalar rfl rfl).1 h]
  | str s => rw [(alike_scalar rfl rfl).1 h]

theorem asArray_of_alike (h : Alike v w) :
    List.Forall₂ Alike (v.asArray.getD []) (w.asArray.getD []) := by
  cases v with
  | obj ms =>
      obtain ⟨ns, rfl, -⟩ := alike_obj.1 h
      exact .nil
  | arr vs =>
      obtain ⟨ws, rfl, hitems⟩ := alike_arr.1 h
      exact alikeItems_iff.1 hitems
  | null => obtain rfl := (alike_scalar rfl rfl).1 h; exact .nil
  | bool b => obtain rfl := (alike_scalar rfl rfl).1 h; exact .nil
  | num n => obtain rfl := (alike_scalar rfl rfl).1 h; exact .nil
  | str s => obtain rfl := (alike_scalar rfl rfl).1 h; exact .nil

/-- Whether a member is hidden does not depend on what alike documents differ in. -/
theorem hides_of_alike (h : Alike v w) : hides k v = hides k w := by
  rw [hides, hides, asStr_of_alike h]

/-! ### Scrubbing -/

mutual

theorem alike_refl : ∀ v : Json, Alike v v
  | .obj ms => alike_obj.2 ⟨ms, rfl, alikeMembers_refl ms⟩
  | .arr vs => alike_arr.2 ⟨vs, rfl, alikeItems_refl vs⟩
  | .null => (alike_scalar rfl rfl).2 rfl
  | .bool _ => (alike_scalar rfl rfl).2 rfl
  | .num _ => (alike_scalar rfl rfl).2 rfl
  | .str _ => (alike_scalar rfl rfl).2 rfl

theorem alikeMembers_refl : ∀ ms : List (String × Json), AlikeMembers ms ms
  | [] => trivial
  | (k, v) :: ms => by
      refine ⟨rfl, ?_, alikeMembers_refl ms⟩
      cases hides k v with
      | true => exact .inl ⟨rfl, rfl⟩
      | false => exact .inr ⟨rfl, alike_refl v⟩

theorem alikeItems_refl : ∀ vs : List Json, AlikeItems vs vs
  | [] => trivial
  | v :: vs => ⟨alike_refl v, alikeItems_refl vs⟩

end

mutual

/-- Alike documents scrub to the same. -/
theorem scrub_of_alike : ∀ (v : Json) {w : Json}, Alike v w → scrub v = scrub w
  | .obj ms, w, h => by
      obtain ⟨ns, rfl, hms⟩ := alike_obj.1 h
      rw [scrub, scrub, scrubMembers_of_alike ms hms]
  | .arr vs, w, h => by
      obtain ⟨ws, rfl, hvs⟩ := alike_arr.1 h
      rw [scrub, scrub, scrubItems_of_alike vs hvs]
  | .null, w, h => by rw [(alike_scalar rfl rfl).1 h]
  | .bool b, w, h => by rw [(alike_scalar rfl rfl).1 h]
  | .num n, w, h => by rw [(alike_scalar rfl rfl).1 h]
  | .str s, w, h => by rw [(alike_scalar rfl rfl).1 h]

theorem scrubMembers_of_alike : ∀ (ms : List (String × Json)) {ns : List (String × Json)},
    AlikeMembers ms ns → scrubMembers ms = scrubMembers ns
  | [], [], _ => rfl
  | (k, v) :: ms, (l, w) :: ns, h => by
      obtain ⟨rfl, hvw, hms⟩ := h
      rw [scrubMembers, scrubMembers, scrubMembers_of_alike ms hms]
      obtain ⟨hv, hw⟩ | ⟨hv, hvw⟩ := hvw
      · rw [hv, hw]
        rfl
      · rw [← hides_of_alike hvw, scrub_of_alike v hvw]
  | [], _ :: _, h => h.elim
  | _ :: _, [], h => h.elim

theorem scrubItems_of_alike : ∀ (vs : List Json) {ws : List Json},
    AlikeItems vs ws → scrubItems vs = scrubItems ws
  | [], [], _ => rfl
  | v :: vs, w :: ws, h => by rw [scrubItems, scrubItems, scrub_of_alike v h.1, scrubItems_of_alike vs h.2]
  | [], _ :: _, h => h.elim
  | _ :: _, [], h => h.elim

end

/-! ### Reading under a name -/

/-- A name under which nothing is scrubbed. -/
def isLegible (name : String) : Bool :=
  Text.startsWith "$" name ||
    (Text.lower name != Text.lower OPAQUE_KEY && !isSecretName name && name != "key")

theorem hides_of_isLegible (h : isLegible k = true) (v : Json) : hides k v = false := by
  rw [isLegible] at h
  rw [hides]
  cases hd : Text.startsWith "$" k with
  | true => rfl
  | false =>
      simp only [hd, Bool.false_or, Bool.and_eq_true, bne_iff_ne, ne_eq, Bool.not_eq_true'] at h
      obtain ⟨⟨hkept, hsecret⟩, hkey⟩ := h
      simp [hkept, hsecret, hkey]

/-- What two alike objects have under one name: nothing both, or values hidden in both or alike. -/
theorem lookup_of_alike (h : AlikeMembers ms ns) (k : String) :
    ms.lookup k = none ∧ ns.lookup k = none ∨
      ∃ v w, ms.lookup k = some v ∧ ns.lookup k = some w ∧
        (hides k v = true ∧ hides k w = true ∨ hides k v = false ∧ Alike v w) := by
  induction ms generalizing ns with
  | nil =>
      cases ns with
      | nil => exact .inl ⟨rfl, rfl⟩
      | cons n ns => exact h.elim
  | cons m ms ih =>
      cases ns with
      | nil => exact h.elim
      | cons n ns =>
          obtain ⟨l, v⟩ := m
          obtain ⟨l', w⟩ := n
          obtain ⟨rfl, hvw, hms⟩ := h
          by_cases hk : k = l
          · subst hk
            exact .inr ⟨v, w, by simp, by simp, hvw⟩
          · simpa [List.lookup_cons, beq_eq_false_iff_ne.2 hk] using ih hms

/-- Under a name that hides nothing alike documents have alike values. -/
theorem get_of_alike (h : Alike v w) (hk : isLegible k = true) : Option.Rel Alike (v.get k) (w.get k) := by
  cases v with
  | obj ms =>
      obtain ⟨ns, rfl, hms⟩ := alike_obj.1 h
      obtain ⟨hv, hw⟩ | ⟨v, w, hv, hw, ⟨hhid, -⟩ | ⟨-, hvw⟩⟩ := lookup_of_alike hms k
      · rw [Json.get_obj, Json.get_obj, hv, hw]
        exact .none
      · rw [hides_of_isLegible hk] at hhid
        cases hhid
      · rw [Json.get_obj, Json.get_obj, hv, hw]
        exact .some hvw
  | arr vs =>
      obtain ⟨ws, rfl, -⟩ := alike_arr.1 h
      exact .none
  | null => obtain rfl := (alike_scalar rfl rfl).1 h; exact .none
  | bool b => obtain rfl := (alike_scalar rfl rfl).1 h; exact .none
  | num n => obtain rfl := (alike_scalar rfl rfl).1 h; exact .none
  | str s => obtain rfl := (alike_scalar rfl rfl).1 h; exact .none

/-- The text under a name. -/
def textAt (v : Json) (k : String) : Option String := (v.get k).bind Json.asStr

theorem bind_asStr_of_rel {a b : Option Json} (h : Option.Rel Alike a b) :
    a.bind Json.asStr = b.bind Json.asStr := by
  cases h with
  | none => rfl
  | some hvw => exact asStr_of_alike hvw

theorem textAt_of_alike (h : Alike v w) (hk : isLegible k = true) : textAt v k = textAt w k :=
  bind_asStr_of_rel (get_of_alike h hk)

/-- The texts under `key` are the same, or both key material. -/
theorem textAt_key_of_alike (h : Alike v w) :
    textAt v "key" = textAt w "key" ∨
      (textAt v "key").any isKeyMaterial = true ∧ (textAt w "key").any isKeyMaterial = true := by
  -- what is hidden under `key` is key material
  have hhides : ∀ v, hides "key" v = true → v.asStr.any isKeyMaterial = true := by
    intro v hv
    have hname : (Text.lower "key" == Text.lower OPAQUE_KEY || isSecretName "key") = false := by
      decide +kernel
    rw [hides, hname] at hv
    simp only [Bool.false_or, beq_self_eq_true, Bool.true_and, Bool.and_eq_true] at hv
    exact hv.2
  cases v with
  | obj ms =>
      obtain ⟨ns, rfl, hms⟩ := alike_obj.1 h
      obtain ⟨hv, hw⟩ | ⟨v, w, hv, hw, ⟨hhid, hhid'⟩ | ⟨-, hvw⟩⟩ := lookup_of_alike hms "key"
      · exact .inl (by rw [textAt, textAt, Json.get_obj, Json.get_obj, hv, hw])
      · refine .inr ⟨?_, ?_⟩
        · rw [textAt, Json.get_obj, hv]
          exact hhides v hhid
        · rw [textAt, Json.get_obj, hw]
          exact hhides w hhid'
      · exact .inl (by rw [textAt, textAt, Json.get_obj, Json.get_obj, hv, hw]; exact asStr_of_alike hvw)
  | arr vs =>
      obtain ⟨ws, rfl, -⟩ := alike_arr.1 h
      exact .inl rfl
  | null => rw [(alike_scalar rfl rfl).1 h]; exact .inl rfl
  | bool b => rw [(alike_scalar rfl rfl).1 h]; exact .inl rfl
  | num n => rw [(alike_scalar rfl rfl).1 h]; exact .inl rfl
  | str s => rw [(alike_scalar rfl rfl).1 h]; exact .inl rfl

/-! ### Reading along a path -/

/-- The property a segment of a path goes through. -/
def segmentKey (segment : String) : String := (Text.stripSuffix "[]" segment).getD segment

theorem items_of_rel {a b : Option Json} (h : Option.Rel Alike a b) :
    List.Forall₂ Alike ((a.bind Json.asArray).getD []) ((b.bind Json.asArray).getD []) := by
  cases h with
  | none => exact .nil
  | some hvw => exact asArray_of_alike hvw

theorem toList_of_rel {a b : Option Json} (h : Option.Rel Alike a b) :
    List.Forall₂ Alike a.toList b.toList := by
  cases h with
  | none => exact .nil
  | some hvw => exact .cons hvw .nil

theorem child_of_alike {segment : String} (h : Alike v w) (hk : isLegible (segmentKey segment) = true) :
    List.Forall₂ Alike (Path.child segment v) (Path.child segment w) := by
  rw [segmentKey] at hk
  cases hs : Text.stripSuffix "[]" segment with
  | some key =>
      rw [hs, Option.getD_some] at hk
      have hchild : ∀ v, Path.child segment v = ((v.get key).bind Json.asArray).getD [] := by
        intro v
        rw [Path.child, hs]
      rw [hchild, hchild]
      exact items_of_rel (get_of_alike h hk)
  | none =>
      rw [hs, Option.getD_none] at hk
      have hchild : ∀ v, Path.child segment v = (v.get segment).toList := by
        intro v
        rw [Path.child, hs]
      rw [hchild, hchild]
      exact toList_of_rel (get_of_alike h hk)

theorem flatMap_of_forall₂ {f : Json → List Json} (hf : ∀ {v w}, Alike v w → List.Forall₂ Alike (f v) (f w))
    (h : List.Forall₂ Alike vs ws) : List.Forall₂ Alike (vs.flatMap f) (ws.flatMap f) := by
  induction h with
  | nil => exact .nil
  | cons hvw _ ih => exact List.rel_append (hf hvw) ih

theorem first_of_alike {path : String} (h : Alike v w)
    (hpath : ∀ segment ∈ Text.splitChar '.' path, isLegible (segmentKey segment) = true) :
    Option.Rel Alike (Path.first v path) (Path.first w path) := by
  -- the induction is on the segments, over the values reached so far
  have hfold : ∀ (segments : List String) {vs ws : List Json},
      (∀ segment ∈ segments, isLegible (segmentKey segment) = true) → List.Forall₂ Alike vs ws →
      List.Forall₂ Alike (segments.foldl (fun current segment => current.flatMap (Path.child segment)) vs)
        (segments.foldl (fun current segment => current.flatMap (Path.child segment)) ws) := by
    intro segments
    induction segments with
    | nil => exact fun _ hvs => hvs
    | cons segment segments ih =>
        intro vs ws hsegs hvs
        have hseg := hsegs segment List.mem_cons_self
        exact ih (fun s hs => hsegs s (List.mem_cons_of_mem _ hs))
          (flatMap_of_forall₂ (fun hvw => child_of_alike hvw hseg) hvs)
  have hget : List.Forall₂ Alike (Path.get v path) (Path.get w path) := by
    rw [Path.get, Path.get]
    split
    · exact .cons h .nil
    · exact hfold _ hpath (.cons h .nil)
  rw [Path.first, Path.first]
  revert hget
  cases Path.get v path <;> cases Path.get w path <;> intro hget <;> cases hget
  · exact .none
  · next hvw _ => exact .some hvw

/-! ### Names -/

/-- A kind whose id and whose curated name are found under names that hide nothing. -/
def legibleKind (kind : Kind) : Bool :=
  isLegible kind.extIdKey && (Text.splitChar '.' kind.namePath).all fun s => isLegible (segmentKey s)

/-- The curated name of a document. -/
def curated (kind : Kind) (raw : Json) : Option String :=
  if kind.namePath = "" then none else (Path.first raw kind.namePath).bind Json.asStr

/-- The properties that are tried for a name before `key`. -/
def beforeKey : List String := nameKeys.takeWhile (· != "key")

/-- A document that is named by its key material: none of what goes before `key` names it. -/
structure Exposed (kind : Kind) (raw : Json) : Prop where
  curated : curated kind raw = none
  before : ∀ k ∈ beforeKey, textAt raw k = none
  material : (textAt raw "key").any isKeyMaterial = true

variable {kind : Kind} {raw raw' : Json}

theorem extIdOf_of_alike (hkind : legibleKind kind = true) (h : Alike raw raw') :
    Entity.extIdOf kind raw = Entity.extIdOf kind raw' := by
  rw [legibleKind, Bool.and_eq_true] at hkind
  exact congrArg (Option.getD · "") (textAt_of_alike h hkind.1)

theorem curated_of_alike (hkind : legibleKind kind = true) (h : Alike raw raw') :
    curated kind raw = curated kind raw' := by
  rw [legibleKind, Bool.and_eq_true, List.all_eq_true] at hkind
  rw [curated, curated]
  split
  · rfl
  · exact bind_asStr_of_rel (first_of_alike h hkind.2)

/-- All names tried but `key` hide nothing. -/
theorem isLegible_of_mem_nameKeys (hk : k ∈ nameKeys) (hne : k ≠ "key") : isLegible k = true :=
  (by decide +kernel : ∀ k ∈ nameKeys, k ≠ "key" → isLegible k = true) k hk hne

theorem nameOf_eq (kind : Kind) (raw : Json) :
    Entity.nameOf kind raw =
      ((curated kind raw).or (nameKeys.findSome? (textAt raw))).getD (Entity.extIdOf kind raw) := rfl

theorem nameKeys_eq : nameKeys = beforeKey ++ "key" :: (nameKeys.dropWhile (· != "key")).tail := by
  decide +kernel

theorem findSome?_congr_of_forall {l : List String} {f g : String → Option String}
    (h : ∀ k ∈ l, f k = g k) : l.findSome? f = l.findSome? g := by
  induction l with
  | nil => rfl
  | cons k l ih =>
      rw [List.findSome?_cons, List.findSome?_cons, h k List.mem_cons_self,
        ih fun k' hk' => h k' (List.mem_cons_of_mem _ hk')]

/-- Alike documents have one name, unless it is key material. -/
theorem nameOf_of_alike (hkind : legibleKind kind = true) (h : Alike raw raw') (hexp : ¬ Exposed kind raw) :
    Entity.nameOf kind raw = Entity.nameOf kind raw' := by
  have hcurated := curated_of_alike hkind h
  have hid := extIdOf_of_alike hkind h
  have hlegible : ∀ k ∈ nameKeys, k ≠ "key" → textAt raw k = textAt raw' k :=
    fun k hk hne => textAt_of_alike h (isLegible_of_mem_nameKeys hk hne)
  rw [nameOf_eq, nameOf_eq, hid, hcurated]
  obtain hkey | ⟨hmaterial, -⟩ := textAt_key_of_alike h
  · rw [findSome?_congr_of_forall fun k hk => ?_]
    by_cases hne : k = "key"
    · rw [hne, hkey]
    · exact hlegible k hk hne
  · -- the key is hidden, so something before it is the name
    cases hc : curated kind raw' with
    | some name => rfl
    | none =>
        have hbefore : ∀ k ∈ beforeKey, textAt raw k = textAt raw' k := by
          intro k hk
          refine hlegible k ?_ ?_
          · rw [nameKeys_eq]
            exact List.mem_append_left _ hk
          · exact (by decide +kernel : ∀ k ∈ beforeKey, k ≠ "key") k hk
        have hsome : (beforeKey.findSome? (textAt raw)).isSome = true := by
          by_contra hnone
          rw [Bool.not_eq_true, Option.isSome_eq_false_iff, Option.isNone_iff_eq_none,
            List.findSome?_eq_none_iff] at hnone
          exact hexp ⟨hcurated.trans hc, hnone, hmaterial⟩
        obtain ⟨name, hname⟩ := Option.isSome_iff_exists.1 hsome
        rw [nameKeys_eq, List.findSome?_append, List.findSome?_append, ← findSome?_congr_of_forall hbefore,
          hname]
        rfl

/-! ### Another key -/

/-- Another value of a key, of the same shape when it is key material. -/
def blurText (s : String) : String := if isKeyMaterial s then s ++ "x" else s

/-- What stands under a name, another text under `key`. -/
def blurAt (k : String) (v : Json) : Json :=
  match k == "key", v with
  | true, .str s => .str (blurText s)
  | _, v => v

/-- The document with another key. -/
def blur : Json → Json
  | .obj ms => .obj (ms.map fun m => (m.1, blurAt m.1 m.2))
  | v => v

theorem startsWith_append {head s t : String} (h : Text.startsWith head s = true) :
    Text.startsWith head (s ++ t) = true := by
  rw [Text.startsWith, List.isPrefixOf_iff_prefix] at h ⊢
  rw [String.toList_append]
  exact h.trans (List.prefix_append _ _)

/-- What is appended to key material leaves it key material. -/
theorem isKeyMaterial_append {s : String} (t : String) (h : isKeyMaterial s = true) :
    isKeyMaterial (s ++ t) = true := by
  simp only [isKeyMaterial, Bool.or_eq_true, decide_eq_true_eq] at h ⊢
  obtain (((h | h) | h) | h) | h := h
  · exact .inl (.inl (.inl (.inl (startsWith_append h))))
  · exact .inl (.inl (.inl (.inr (startsWith_append h))))
  · exact .inl (.inl (.inr (startsWith_append h)))
  · exact .inl (.inr (startsWith_append h))
  · refine .inr ?_
    rw [String.utf8ByteSize_append]
    omega

/-- What is put under a name is hidden as what stood there is, and alike where neither is. -/
theorem alike_blurAt (k : String) (v : Json) :
    hides k v = true ∧ hides k (blurAt k v) = true ∨ hides k v = false ∧ Alike v (blurAt k v) := by
  have hsame : hides k v = true ∧ hides k v = true ∨ hides k v = false ∧ Alike v v := by
    cases hides k v with
    | true => exact .inl ⟨rfl, rfl⟩
    | false => exact .inr ⟨rfl, alike_refl v⟩
  by_cases hk : k = "key"
  · subst hk
    have hhides : ∀ s, hides "key" (.str s) = isKeyMaterial s := by
      intro s
      have hname : (Text.lower "key" == Text.lower OPAQUE_KEY || isSecretName "key") = false := by
        decide +kernel
      rw [hides, hname]
      rfl
    cases v with
    | str s =>
        rw [show blurAt "key" (.str s) = .str (blurText s) from rfl, hhides, hhides, blurText]
        cases hm : isKeyMaterial s with
        | true => exact .inl ⟨rfl, isKeyMaterial_append "x" hm⟩
        | false => exact .inr ⟨rfl, alike_refl _⟩
    | null => exact hsame
    | bool b => exact hsame
    | num n => exact hsame
    | arr vs => exact hsame
    | obj ms => exact hsame
  · have hblur : blurAt k v = v := by
      rw [blurAt]
      intro s htrue
      exact absurd (beq_iff_eq.1 htrue) hk
    rw [hblur]
    exact hsame

theorem alikeMembers_blur (ms : List (String × Json)) :
    AlikeMembers ms (ms.map fun m => (m.1, blurAt m.1 m.2)) := by
  induction ms with
  | nil => trivial
  | cons m ms ih => exact ⟨rfl, alike_blurAt m.1 m.2, ih⟩

/-- The document with another key is alike. -/
theorem alike_blur (raw : Json) : Alike raw (blur raw) := by
  cases raw with
  | obj ms => exact alike_obj.2 ⟨_, rfl, alikeMembers_blur ms⟩
  | null => exact alike_refl _
  | bool b => exact alike_refl _
  | num n => exact alike_refl _
  | str s => exact alike_refl _
  | arr vs => exact alike_refl _

theorem lookup_blur (ms : List (String × Json)) (k : String) :
    (ms.map fun m => (m.1, blurAt m.1 m.2)).lookup k = (ms.lookup k).map (blurAt k) := by
  induction ms with
  | nil => rfl
  | cons m ms ih =>
      rw [List.map_cons, List.lookup_cons, List.lookup_cons]
      cases hk : k == m.1 with
      | true =>
          rw [beq_iff_eq.1 hk]
          rfl
      | false => exact ih

theorem textAt_blur (raw : Json) : textAt (blur raw) "key" = (textAt raw "key").map blurText := by
  cases raw with
  | obj ms =>
      rw [textAt, textAt, blur, Json.get_obj, Json.get_obj, lookup_blur]
      cases ms.lookup "key" with
      | none => rfl
      | some v => cases v <;> rfl
  | null => rfl
  | bool b => rfl
  | num n => rfl
  | str s => rfl
  | arr vs => rfl

/-- A document that is named by its key material has that for its name. -/
theorem nameOf_of_exposed {s : String} (h : Exposed kind raw) (hs : textAt raw "key" = some s) :
    Entity.nameOf kind raw = s := by
  have hbefore : beforeKey.findSome? (textAt raw) = none := List.findSome?_eq_none_iff.2 h.before
  rw [nameOf_eq, h.curated, nameKeys_eq, List.findSome?_append, hbefore, List.findSome?_cons, hs]
  rfl

theorem exposed_blur (hkind : legibleKind kind = true) (h : Exposed kind raw) : Exposed kind (blur raw) where
  curated := (curated_of_alike hkind (alike_blur raw)).symm.trans h.curated
  before k hk := by
    have hne : k ≠ "key" := (by decide +kernel : ∀ k ∈ beforeKey, k ≠ "key") k hk
    have hmem : k ∈ nameKeys := by
      rw [nameKeys_eq]
      exact List.mem_append_left _ hk
    rw [← textAt_of_alike (alike_blur raw) (isLegible_of_mem_nameKeys hmem hne)]
    exact h.before k hk
  material := by
    have hm := h.material
    rw [textAt_blur]
    cases hs : textAt raw "key" with
    | none =>
        rw [hs] at hm
        cases hm
    | some s =>
        rw [hs, Option.any_some] at hm
        rw [Option.map_some, Option.any_some, blurText, if_pos hm]
        exact isKeyMaterial_append "x" hm

/-- A document that is named by its key material has another name with another key. -/
theorem nameOf_blur (hkind : legibleKind kind = true) (h : Exposed kind raw) :
    Entity.nameOf kind (blur raw) ≠ Entity.nameOf kind raw := by
  cases hs : textAt raw "key" with
  | none =>
      have hm := h.material
      rw [hs] at hm
      cases hm
  | some s =>
      have hm : isKeyMaterial s = true := by
        have hm := h.material
        rwa [hs] at hm
      have hblur : textAt (blur raw) "key" = some (s ++ "x") := by
        rw [textAt_blur, hs, Option.map_some, blurText, if_pos hm]
      rw [nameOf_of_exposed (exposed_blur hkind h) hblur, nameOf_of_exposed h hs]
      intro heq
      have hlen : s.length + "x".length = s.length := by rw [← String.length_append, heq]
      exact absurd hlen (Nat.ne_of_gt (Nat.lt_add_of_pos_right (by decide)))

end Nutsh.Cache
