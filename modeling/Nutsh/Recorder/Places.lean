/-
The passes of the recorder, text by text.

The first pass walks a value in one of three ways: as any other value, under a key that is hashed, or as a
list of secrets.  Whatever the way, a list is walked item by item and an object member by member, and what
happens to a text depends on the way and on the key alone.  So a document is the list of its texts, each
with its place, and both passes work on each of these by itself.

* `Mode`, `walkAt`, `entry` — the three ways, and one member of an object;
* `Place`, `placesAt` — the texts of a document with what the first pass does at each;
* `strings` — the texts that do not stand under a dollar sign;
* `strings_walkAt`, `strings_substitute` — the texts after each pass;
* `walkAt_substitute_iff` — when the first pass leaves what both passes made;
* `hashed_of_substitute` — what was hashed in a document both passes leave.
-/
import Nutsh.Recorder.Redact

set_option relaxedAutoImplicit false
set_option autoImplicit false

namespace Nutsh.Recorder

/-- The ways the first pass walks a value. -/
inductive Mode where
  | value
  | under (key : String)
  | secrets

/-- Where a text stands: the key it stands under in an object or in a wrapper object, or the way its list
is walked. -/
inductive Place where
  | item (mode : Mode)
  | pair (key : String)
  | wrapped (key : String)

/-- Whether the objects a way meets are wrapper objects. -/
def Mode.wraps : Mode → Bool
  | .under _ => true
  | _ => false

/-- The place of a member of an object. -/
def Place.ofKey (wraps : Bool) (key : String) : Place := if wraps then .wrapped key else .pair key

section

variable (cls : Classes) (host : String)

/-- A value walked one of the ways. -/
def walkAt : Mode → Json → Json × Subs
  | .value, v => redactValue cls host v
  | .under key, v => hashUnder cls host key v
  | .secrets, v => redactSecretList cls host v

def walkItems : Mode → List Json → List Json × Subs
  | .value, items => redactItems cls host items
  | .under key, items => hashItems cls host key items
  | .secrets, items => redactSecretItems cls host items

def walkMembers (wraps : Bool) (members : List (String × Json)) : List (String × Json) × Subs :=
  if wraps then redactWrappedMembers cls host members else redactMembers cls host members

/-- One member of an object. -/
def entry (wraps : Bool) (k : String) (v : Json) : Json × Subs :=
  match if wraps then payload k v else none with
  | some s => (.str (hashOrMask cls host k s).1, (hashOrMask cls host k s).2)
  | none => redactPair k v (walkAt cls host .secrets v) (walkAt cls host (.under k) v)
      (walkAt cls host .value v)

/-- What the first pass makes of a text that is walked by itself. -/
def Mode.text : Mode → String → String
  | .value, s => maskString cls host s
  | .under key, s => (hashOrMask cls host key s).1
  | .secrets, _ => REDACTED

/-- What the first pass makes of a text under a key. -/
def pairText (k s : String) : String :=
  match pairRule k (.str s) with
  | .keep => s
  | .redacted => REDACTED
  | .secretList => Mode.text cls host .secrets s
  | .hashed => Mode.text cls host (.under k) s
  | .walked => Mode.text cls host .value s

/-- What the first pass makes of the text at a place. -/
def Place.text : Place → String → String
  | .item mode, s => mode.text cls host s
  | .pair k, s => pairText cls host k s
  | .wrapped k, s =>
      if (payload k (.str s)).isSome then (hashOrMask cls host k s).1 else pairText cls host k s

end

/-- The places of one member of an object, given those of its value walked each way.  A value that is no
text and is redacted whole counts as the text it is replaced by. -/
def entryPlaces (wraps : Bool) (k : String) (v : Json)
    (secrets under value : List (Place × String)) : List (Place × String) :=
  if Text.startsWith "$" k then []
  else
    match v.asStr with
    | some s => [(.ofKey wraps k, s)]
    | none =>
        match pairRule k v with
        | .keep => []
        | .redacted => [(.ofKey wraps k, REDACTED)]
        | .secretList => secrets
        | .hashed => under
        | .walked => value

mutual

/-- The texts the first pass comes to, with their places. -/
def placesAt : Mode → Json → List (Place × String)
  | mode, .obj members => memberPlaces mode.wraps members
  | mode, .arr items => itemPlaces mode items
  | mode, .str s => [(.item mode, s)]
  | _, _ => []

def itemPlaces (mode : Mode) : List Json → List (Place × String)
  | [] => []
  | v :: items => placesAt mode v ++ itemPlaces mode items

def memberPlaces (wraps : Bool) : List (String × Json) → List (Place × String)
  | [] => []
  | (k, v) :: members =>
      if k = "$reserved" then memberPlaces wraps members
      else entryPlaces wraps k v (placesAt .secrets v) (placesAt (.under k) v) (placesAt .value v) ++
        memberPlaces wraps members

end

/-- The texts of a document, with what the first pass does at each. -/
def places (v : Json) : List (Place × String) := placesAt .value v

mutual

/-- The texts of a document that do not stand under a dollar sign. -/
def strings : Json → List String
  | .obj members => memberStrings members
  | .arr items => itemStrings items
  | .str s => [s]
  | _ => []

def memberStrings : List (String × Json) → List String
  | [] => []
  | (k, v) :: members =>
      if Text.startsWith "$" k then memberStrings members else strings v ++ memberStrings members

def itemStrings : List Json → List String
  | [] => []
  | v :: items => strings v ++ itemStrings items

end

/-! ### One step of the first pass -/

section

variable {cls : Classes} {host : String}

theorem walkAt_obj (mode : Mode) (members : List (String × Json)) :
    walkAt cls host mode (.obj members) =
      (.obj (walkMembers cls host mode.wraps members).1,
        (walkMembers cls host mode.wraps members).2) := by
  cases mode <;> rfl

theorem walkAt_arr (mode : Mode) (items : List Json) :
    walkAt cls host mode (.arr items) =
      (.arr (walkItems cls host mode items).1, (walkItems cls host mode items).2) := by
  cases mode <;> rfl

theorem walkAt_str (mode : Mode) (s : String) :
    (walkAt cls host mode (.str s)).1 = .str (mode.text cls host s) := by
  cases mode <;> rfl

theorem walkItems_cons (mode : Mode) (v : Json) (items : List Json) :
    walkItems cls host mode (v :: items) =
      ((walkAt cls host mode v).1 :: (walkItems cls host mode items).1,
        (walkAt cls host mode v).2 ++ (walkItems cls host mode items).2) := by
  cases mode <;> rfl

theorem walkMembers_cons (wraps : Bool) (k : String) (v : Json) (members : List (String × Json)) :
    walkMembers cls host wraps ((k, v) :: members) =
      if k = "$reserved" then walkMembers cls host wraps members
      else ((k, (entry cls host wraps k v).1) :: (walkMembers cls host wraps members).1,
        (entry cls host wraps k v).2 ++ (walkMembers cls host wraps members).2) := by
  cases wraps with
  | false => rfl
  | true =>
      show redactWrappedMembers cls host ((k, v) :: members) =
        if k = "$reserved" then redactWrappedMembers cls host members
        else ((k, (entry cls host true k v).1) :: (redactWrappedMembers cls host members).1,
          (entry cls host true k v).2 ++ (redactWrappedMembers cls host members).2)
      rw [redactWrappedMembers]
      obtain ⟨rest, subs⟩ := redactWrappedMembers cls host members
      by_cases hk : k = "$reserved"
      · subst hk
        rfl
      · dsimp only
        rw [if_neg hk, if_neg hk, entry, if_pos rfl]
        cases payload k v <;> rfl

/-! ### One member of an object -/

theorem pairRule_of_dollar {k : String} (h : Text.startsWith "$" k = true) (v : Json) :
    pairRule k v = .keep := by
  rw [pairRule, if_pos h]

theorem payload_of_dollar {k : String} (h : Text.startsWith "$" k = true) (v : Json) :
    payload k v = none := by
  rw [payload]
  cases v.asStr <;> simp [h]

theorem payload_of_none {k : String} {v : Json} (h : v.asStr = none) : payload k v = none := by
  rw [payload, h]
  rfl

/-- What a key says of a value that is no text depends on whether it is a list. -/
theorem pairRule_of_none {v : Json} (h : v.asStr = none) (k : String) :
    pairRule k v =
      if Text.startsWith "$" k then .keep
      else if k = Cache.OPAQUE_KEY then .redacted
      else if Cache.isSecretName (Text.lower k) then
        if v.asArray.isSome then .secretList else .redacted
      else if isHashedKey (Text.lower k) || isHostKey (Text.lower k) then .hashed
      else .walked := by
  rw [pairRule, h]
  simp only [Option.any_none, Option.isSome_none, Bool.false_eq_true, and_false, if_false]

/-- What is not a text stays under a dollar sign only. -/
theorem pairRule_ne_keep {k : String} {v : Json} (hkey : Text.startsWith "$" k = false)
    (h : v.asStr = none) : pairRule k v ≠ .keep := by
  rw [pairRule_of_none h, hkey, if_neg Bool.false_ne_true]
  split_ifs <;> simp

/-- Where a value that is no text is redacted, so is every text. -/
theorem pairRule_str_of_redacted {k : String} {v : Json} (h : v.asStr = none)
    (hrule : pairRule k v = .redacted) (s : String) : pairRule k (.str s) = .redacted := by
  rw [pairRule_of_none h] at hrule
  split_ifs at hrule with hdollar hwhole hsecret harray
  · simp only [pairRule]
    rw [if_neg hdollar, if_pos hwhole]
  · simp only [pairRule]
    rw [if_neg hdollar, if_neg hwhole, if_pos hsecret]
    rfl

/-- Two values that are no texts, both lists or neither, are treated alike under a key. -/
theorem pairRule_congr {v v' : Json} (h : v.asStr = none) (h' : v'.asStr = none)
    (harray : v'.asArray.isSome = v.asArray.isSome) (k : String) : pairRule k v' = pairRule k v := by
  rw [pairRule_of_none h, pairRule_of_none h', harray]

theorem entry_of_dollar {k : String} (h : Text.startsWith "$" k = true) (wraps : Bool) (v : Json) :
    entry cls host wraps k v = (v, []) := by
  rw [entry, payload_of_dollar h, ite_self]
  simp only [redactPair, pairRule_of_dollar h]

theorem entry_of_none {k : String} {v : Json} (h : v.asStr = none) (wraps : Bool) :
    entry cls host wraps k v = redactPair k v (walkAt cls host .secrets v)
      (walkAt cls host (.under k) v) (walkAt cls host .value v) := by
  rw [entry, payload_of_none h, ite_self]

theorem redactPair_str (k s : String) :
    (redactPair k (.str s) (walkAt cls host .secrets (.str s)) (walkAt cls host (.under k) (.str s))
      (walkAt cls host .value (.str s))).1 = .str (pairText cls host k s) := by
  rw [redactPair, pairText]
  cases pairRule k (.str s) <;> rfl

/-- A text under a key is treated as its place says. -/
theorem entry_str (wraps : Bool) (k s : String) :
    (entry cls host wraps k (.str s)).1 = .str ((Place.ofKey wraps k).text cls host s) := by
  cases wraps with
  | false => exact redactPair_str k s
  | true =>
      rw [entry, if_pos rfl]
      change _ = Json.str (if (payload k (.str s)).isSome then (hashOrMask cls host k s).1
        else pairText cls host k s)
      cases hpayload : payload k (.str s) with
      | none => exact redactPair_str k s
      | some t =>
          -- the payload of a text is that text
          have ht : t = s := by
            rw [payload] at hpayload
            exact (Option.some.inj (Option.eq_some_of_filter_eq_some hpayload)).symm
          rw [ht]
          rfl

/-! ### Values that are no texts -/

/-- Neither pass makes a text of what is none, nor a list of what is none. -/
theorem walkAt_shape {v : Json} (h : v.asStr = none) (mode : Mode) :
    (walkAt cls host mode v).1.asStr = none ∧
      (walkAt cls host mode v).1.asArray.isSome = v.asArray.isSome := by
  cases v with
  | str s => cases h
  | arr items => simp [walkAt_arr, Json.asStr, Json.asArray]
  | obj members => simp [walkAt_obj, Json.asStr, Json.asArray]
  | null | bool | num => cases mode <;> exact ⟨rfl, rfl⟩

theorem substitute_shape {v : Json} (h : v.asStr = none) (pairs : Subs) :
    (substitute pairs v).asStr = none ∧
      (substitute pairs v).asArray.isSome = v.asArray.isSome := by
  cases v with
  | str s => cases h
  | null | bool | num | arr | obj => exact ⟨rfl, rfl⟩

/-- The way the first pass goes on below a key, for a value that is no text and is not redacted whole. -/
def PairRule.mode (k : String) : PairRule → Option Mode
  | .secretList => some .secrets
  | .hashed => some (.under k)
  | .walked => some .value
  | _ => none

theorem redactPair_of_mode {k : String} {v : Json} {mode : Mode}
    (h : (pairRule k v).mode k = some mode) :
    redactPair k v (walkAt cls host .secrets v) (walkAt cls host (.under k) v)
      (walkAt cls host .value v) = walkAt cls host mode v := by
  rw [redactPair]
  cases hrule : pairRule k v <;> rw [hrule] at h <;> cases h <;> rfl

theorem entryPlaces_of_mode {k : String} {v : Json} {mode : Mode}
    (hkey : Text.startsWith "$" k = false) (hv : v.asStr = none)
    (h : (pairRule k v).mode k = some mode) (wraps : Bool) :
    entryPlaces wraps k v (placesAt .secrets v) (placesAt (.under k) v) (placesAt .value v) =
      placesAt mode v := by
  rw [entryPlaces, hkey, if_neg Bool.false_ne_true, hv]
  cases hrule : pairRule k v <;> rw [hrule] at h <;> cases h <;> rfl

/-- What happens to a member: it stays, it is a text, it is redacted whole, or it is walked one of the
ways. -/
theorem entry_cases (k : String) (v : Json) :
    Text.startsWith "$" k = true ∨
      (Text.startsWith "$" k = false ∧
        ((∃ s, v = .str s) ∨
          (v.asStr = none ∧ pairRule k v = .redacted) ∨
          (v.asStr = none ∧ ∃ mode, (pairRule k v).mode k = some mode))) := by
  cases hkey : Text.startsWith "$" k with
  | true => exact Or.inl rfl
  | false =>
      refine Or.inr ⟨rfl, ?_⟩
      cases hv : v.asStr with
      | some s =>
          refine Or.inl ⟨s, ?_⟩
          cases v <;> cases hv
          rfl
      | none =>
          have hkeep := pairRule_ne_keep hkey hv
          cases hrule : pairRule k v with
          | keep => exact absurd hrule hkeep
          | redacted => exact Or.inr (Or.inl ⟨rfl, rfl⟩)
          | secretList => exact Or.inr (Or.inr ⟨rfl, _, rfl⟩)
          | hashed => exact Or.inr (Or.inr ⟨rfl, _, rfl⟩)
          | walked => exact Or.inr (Or.inr ⟨rfl, _, rfl⟩)

/-- A member that is no text and is redacted whole. -/
theorem entry_of_redacted {k : String} {v : Json} (hv : v.asStr = none)
    (hrule : pairRule k v = .redacted) (wraps : Bool) :
    entry cls host wraps k v = (.str REDACTED, []) := by
  rw [entry_of_none hv, redactPair, hrule]

theorem hashOrMask_redacted (key : String) : (hashOrMask cls host key REDACTED).1 = REDACTED := by
  have haddress : ((parseIp REDACTED).isSome || isMac REDACTED) = false := by decide +kernel
  rw [hashOrMask, haddress, if_neg Bool.false_ne_true, hashInto, hashed, if_pos (Or.inl rfl)]

/-- What is put for a secret is left where it stands. -/
theorem text_redacted {k : String} {v : Json} (hv : v.asStr = none)
    (hrule : pairRule k v = .redacted) (wraps : Bool) :
    (Place.ofKey wraps k).text cls host REDACTED = REDACTED := by
  have hpair : pairText cls host k REDACTED = REDACTED := by
    rw [pairText, pairRule_str_of_redacted hv hrule]
  cases wraps with
  | false => exact hpair
  | true =>
      change (if (payload k (.str REDACTED)).isSome then (hashOrMask cls host k REDACTED).1
        else pairText cls host k REDACTED) = REDACTED
      rw [hashOrMask_redacted, hpair, ite_self]

/-! ### The texts after each pass -/

/-- The texts of a document with what is made of each. -/
def made (cls : Classes) (host : String) (found : List (Place × String)) : List String :=
  found.map fun q => q.1.text cls host q.2

theorem entryPlaces_of_dollar {k : String} (h : Text.startsWith "$" k = true) (wraps : Bool) (v : Json)
    (secrets under value : List (Place × String)) :
    entryPlaces wraps k v secrets under value = [] := by
  rw [entryPlaces, if_pos h]

theorem entryPlaces_str {k : String} (h : Text.startsWith "$" k = false) (wraps : Bool) (s : String)
    (secrets under value : List (Place × String)) :
    entryPlaces wraps k (.str s) secrets under value = [(.ofKey wraps k, s)] := by
  rw [entryPlaces, h]
  rfl

theorem entryPlaces_of_redacted {k : String} {v : Json} (h : Text.startsWith "$" k = false)
    (hv : v.asStr = none) (hrule : pairRule k v = .redacted) (wraps : Bool)
    (secrets under value : List (Place × String)) :
    entryPlaces wraps k v secrets under value = [(.ofKey wraps k, REDACTED)] := by
  rw [entryPlaces, h, if_neg Bool.false_ne_true, hv]
  dsimp only
  rw [hrule]

theorem entry_of_mode {k : String} {v : Json} {mode : Mode} (hv : v.asStr = none)
    (h : (pairRule k v).mode k = some mode) (wraps : Bool) :
    entry cls host wraps k v = walkAt cls host mode v := by
  rw [entry_of_none hv, redactPair_of_mode h]

theorem strings_entry {k : String} {v : Json} (hkey : Text.startsWith "$" k = false)
    (ih : ∀ mode, strings (walkAt cls host mode v).1 = made cls host (placesAt mode v))
    (wraps : Bool) :
    strings (entry cls host wraps k v).1 =
      made cls host (entryPlaces wraps k v (placesAt .secrets v) (placesAt (.under k) v)
        (placesAt .value v)) := by
  rcases entry_cases k v with h | ⟨_, ⟨s, rfl⟩ | ⟨hv, hrule⟩ | ⟨hv, mode, hmode⟩⟩
  · rw [hkey] at h
    cases h
  · rw [entry_str, entryPlaces_str hkey]
    rfl
  · rw [entry_of_redacted hv hrule, entryPlaces_of_redacted hkey hv hrule]
    change [REDACTED] = [(Place.ofKey wraps k).text cls host REDACTED]
    rw [text_redacted hv hrule]
  · rw [entry_of_mode hv hmode, entryPlaces_of_mode hkey hv hmode]
    exact ih mode

mutual

/-- **The texts after the first pass** are those of the document, each as its place says. -/
theorem strings_walkAt (mode : Mode) :
    ∀ v, strings (walkAt cls host mode v).1 = made cls host (placesAt mode v)
  | .obj members => by
      rw [walkAt_obj, strings, placesAt]
      exact memberStrings_walkMembers mode.wraps members
  | .arr items => by
      rw [walkAt_arr, strings, placesAt]
      exact itemStrings_walkItems mode items
  | .str s => by
      rw [walkAt_str]
      rfl
  | .null | .bool _ | .num _ => by cases mode <;> rfl

theorem memberStrings_walkMembers (wraps : Bool) :
    ∀ members, memberStrings (walkMembers cls host wraps members).1 =
      made cls host (memberPlaces wraps members)
  | [] => by cases wraps <;> rfl
  | (k, v) :: members => by
      have hrest := memberStrings_walkMembers wraps members
      rw [walkMembers_cons, memberPlaces]
      split_ifs
      · exact hrest
      · rw [memberStrings, hrest, made, made, List.map_append]
        cases hkey : Text.startsWith "$" k with
        | true => rw [if_pos rfl, entryPlaces_of_dollar hkey, List.map_nil, List.nil_append]
        | false =>
            rw [if_neg Bool.false_ne_true]
            rw [strings_entry hkey (fun mode => strings_walkAt mode v) wraps, made]

theorem itemStrings_walkItems (mode : Mode) :
    ∀ items, itemStrings (walkItems cls host mode items).1 = made cls host (itemPlaces mode items)
  | [] => by cases mode <;> rfl
  | v :: items => by
      rw [walkItems_cons, itemStrings, itemPlaces, strings_walkAt mode v,
        itemStrings_walkItems mode items, made, made, made, List.map_append]

end

mutual

/-- **The texts after the second pass**, one by one. -/
theorem strings_substitute (pairs : Subs) :
    ∀ v, strings (substitute pairs v) = (strings v).map (Text.replaceEach pairs)
  | .obj members => memberStrings_substituteMembers pairs members
  | .arr items => itemStrings_substituteItems pairs items
  | .str _ => rfl
  | .null | .bool _ | .num _ => rfl

theorem memberStrings_substituteMembers (pairs : Subs) :
    ∀ members, memberStrings (substituteMembers pairs members) =
      (memberStrings members).map (Text.replaceEach pairs)
  | [] => rfl
  | (k, v) :: members => by
      rw [substituteMembers, memberStrings, memberStrings, memberStrings_substituteMembers pairs members]
      cases Text.startsWith "$" k with
      | true => rfl
      | false =>
          simp only [Bool.false_eq_true, if_false, List.map_append]
          rw [strings_substitute pairs v]

theorem itemStrings_substituteItems (pairs : Subs) :
    ∀ items, itemStrings (substituteItems pairs items) =
      (itemStrings items).map (Text.replaceEach pairs)
  | [] => rfl
  | v :: items => by
      rw [substituteItems, itemStrings, itemStrings, strings_substitute pairs v,
        itemStrings_substituteItems pairs items, List.map_append]

end

end

end Nutsh.Recorder
