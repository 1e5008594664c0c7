/-
Every leaf of an entity is shown, by a field that reads it back.

The walk finds a leaf under some keys and writes a dotted path for it, and the field is drawn by reading that
path.  For keys that a path can spell, the path leads back to the very place, so that the cell drawn is that of
the leaf.  A leaf is passed over only for a column that shows it or shows its whole member, and drawn in every
case but in a section of nothing but blank cells.

Main definitions:

* `Path.getAt` — the values at a dotted path, each with its place;
* `IsLeaf`, `Readable`, `Untaken` — a leaf, keys that a path can spell, and a key that no column takes;
* `Draws` — a field is that of the value at a place;
* `Shown`, `LosesNothing` — one leaf is shown, and every leaf is, whatever its keys and its cell.

Main results:

* `Path.getAt_dotted` — what a dotted path leads to;
* `exists_mem_leaves`, `path_of_mem_leaves` — what the walk finds;
* `shows_leaf` — a leaf is shown, and no field of the walk shows anything else for it;
* `not_losesNothing` — not every leaf is.
-/
import Nutsh.Cell.Bidi
import Nutsh.Detail
import Nutsh.Lib.JsonPath

set_option relaxedAutoImplicit false
set_option autoImplicit false

namespace Nutsh

open Json (Step)

/-! ### Dotted paths -/

namespace Path

/-- The values one segment of a path leads to, each with its place. -/
def childAt (segment : String) (found : List Step × Json) : List (List Step × Json) :=
  match Text.stripSuffix "[]" segment with
  | some key =>
      (((found.2.get key).bind Json.asArray).getD []).zipIdx.map fun item =>
        (found.1 ++ [.key key, .item item.2], item.1)
  | none => (found.2.get segment).toList.map fun c => (found.1 ++ [.key segment], c)

/-- Every value at a dotted path, with its place. -/
def getAt (v : Json) (path : String) : List (List Step × Json) :=
  if path = "" then [([], v)]
  else (Text.splitChar '.' path).foldl (fun current segment => current.flatMap (childAt segment)) [([], v)]

theorem map_snd_childAt (segment : String) (found : List Step × Json) :
    (childAt segment found).map Prod.snd = child segment found.2 := by
  rw [childAt, child]
  cases Text.stripSuffix "[]" segment with
  | some key => simp only [List.map_map, Function.comp_def, List.zipIdx_map_fst]
  | none => simp only [List.map_map, Function.comp_def, List.map_id']

/-- The values alone are what the path reads. -/
theorem map_snd_getAt (v : Json) (path : String) : (getAt v path).map Prod.snd = get v path := by
  have hfold : ∀ (segments : List String) (current : List (List Step × Json)),
      (segments.foldl (fun current segment => current.flatMap (childAt segment)) current).map Prod.snd =
        segments.foldl (fun current segment => current.flatMap (child segment)) (current.map Prod.snd) := by
    intro segments
    induction segments with
    | nil => exact fun _ => rfl
    | cons segment segments ih =>
        intro current
        rw [List.foldl_cons, List.foldl_cons, ih]
        congr 1
        rw [List.map_flatMap, List.flatMap_map]
        exact List.flatMap_congr fun found _ => map_snd_childAt segment found
  rw [getAt, get]
  split
  · rfl
  · exact hfold _ _

/-- The path of some keys. -/
def dotted (keys : List String) : String := ".".intercalate keys

theorem splitChar_dotted {keys : List String} (hdot : ∀ k ∈ keys, '.' ∉ k.toList) (hne : keys ≠ []) :
    Text.splitChar '.' (dotted keys) = keys := by
  have hdots : ∀ l ∈ keys.map String.toList, '.' ∉ l := by simpa using hdot
  rw [Text.splitChar, dotted, String.toList_intercalate]
  rw [show ".".toList = ['.'] from rfl, List.splitOn_intercalate '.' hdots (by simpa using hne), List.map_map]
  simp

/-- Keys without `[]` lead to what is under them, and to nothing else. -/
theorem foldl_childAt {keys : List String} (hfan : ∀ k ∈ keys, Text.stripSuffix "[]" k = none) {v w : Json}
    (h : v.walk (keys.map .key) = some w) (place : List Step) :
    keys.foldl (fun current segment => current.flatMap (childAt segment)) [(place, v)] =
      [(place ++ keys.map .key, w)] := by
  induction keys generalizing v place with
  | nil => simpa using h
  | cons k keys ih =>
      obtain ⟨c, hc, h⟩ := Option.bind_eq_some_iff.1 h
      have hget : v.get k = some c := hc
      have hchild : childAt k (place, v) = [(place ++ [.key k], c)] := by
        rw [childAt, hfan k List.mem_cons_self, hget]
        rfl
      rw [List.foldl_cons, List.flatMap_singleton, hchild,
        ih (fun k' hk' => hfan k' (List.mem_cons_of_mem _ hk')) h]
      simp

/-- A dotted path leads to what is under its keys, and to nothing else. -/
theorem getAt_dotted {keys : List String} (hdot : ∀ k ∈ keys, '.' ∉ k.toList)
    (hfan : ∀ k ∈ keys, Text.stripSuffix "[]" k = none) (hne : keys ≠ []) (hblank : keys ≠ [""]) {v w : Json}
    (h : v.walk (keys.map .key) = some w) : getAt v (dotted keys) = [(keys.map .key, w)] := by
  have hsplit := splitChar_dotted hdot hne
  have hpath : dotted keys ≠ "" := by
    intro hempty
    rw [hempty] at hsplit
    exact hblank (hsplit.symm.trans (by decide))
  rw [getAt, if_neg hpath, hsplit, foldl_childAt hfan h, List.nil_append]

end Path

namespace Detail

open Nutsh.Path (dotted getAt)

/-! ### What the walk finds -/

/-- A boolean, a number or a string. -/
def isScalar : Json → Bool
  | .bool _ => true
  | .num _ => true
  | .str _ => true
  | _ => false

/-- The path the walk writes for some keys. -/
def pathOf : String → List String → String
  | front, [] => front
  | front, key :: keys => pathOf (below front key) keys

theorem pathOf_of_ne {front : String} (hfront : front ≠ "") (keys : List String) :
    pathOf front keys = dotted (front :: keys) := by
  induction keys generalizing front with
  | nil => exact String.intercalate_singleton.symm
  | cons key keys ih =>
      have hne : front ++ "." ++ key ≠ "" := by
        intro h
        have := congrArg String.toList h
        simp at this
      rw [pathOf, below, if_neg hfront, ih hne, dotted, dotted, String.intercalate_cons_cons]
      cases keys with
      | nil => simp
      | cons next keys => simp [String.intercalate_cons_cons, String.append_assoc]

/-- Below a key the path is the dotted one, unless an empty key is lost at its beginning. -/
theorem append_pathOf {key first : String} {keys : List String} (h : first = "" → keys = []) :
    key ++ "." ++ pathOf "" (first :: keys) = dotted (key :: first :: keys) := by
  rw [pathOf, below, if_pos rfl, dotted, String.intercalate_cons_cons, ← dotted]
  by_cases hfirst : first = ""
  · rw [hfirst, h hfirst, pathOf, dotted, String.intercalate_singleton]
  · rw [pathOf_of_ne hfirst]

theorem mem_level_iff {deeper : String → Json → List Leaf} {front : String} {members : List (String × Json)}
    {leaf : Leaf} :
    leaf ∈ level deeper front members ↔
      ∃ k v, (k, v) ∈ members ∧ isNoise k = false ∧
        ((isObject v = true ∧ ∃ l ∈ deeper (below front k) v, leaf = { l with keys := k :: l.keys }) ∨
          (isScalar v = true ∧ leaf = { path := below front k, sample := v, keys := [k] }) ∨
          ∃ first rest, v = .arr (first :: rest) ∧ ((first :: rest).all fun v => !isContainer v) = true ∧
            leaf = { path := below front k ++ "[]", sample := first, keys := [k] }) := by
  simp only [level, List.mem_flatMap, Prod.exists]
  refine exists₂_congr fun k v => and_congr_right fun _ => ?_
  cases isNoise k with
  | true => simp
  | false =>
      cases v with
      | null | bool | num | str => simp [isObject, isScalar]
      | obj members =>
          simp only [Bool.false_eq_true, if_false, List.mem_map, isObject, isScalar, true_and, false_and,
            reduceCtorEq, or_false, exists_false]
          exact exists_congr fun l => and_congr_right fun _ => eq_comm
      | arr items =>
          cases items with
          | nil => simp [isObject, isScalar]
          | cons first rest =>
              simp only [isObject, isScalar, Bool.false_eq_true, if_false, false_and, false_or, true_and]
              split
              · rename_i hall
                simp only [List.mem_singleton]
                constructor
                · rintro rfl
                  exact ⟨first, rest, rfl, hall, rfl⟩
                · rintro ⟨first', rest', heq, -, rfl⟩
                  cases heq
                  rfl
              · rename_i hall
                simp only [List.not_mem_nil, false_iff]
                rintro ⟨first', rest', heq, hall', -⟩
                cases heq
                exact hall hall'

/-- What is followed below a level. -/
def deeper : ℕ → String → Json → List Leaf
  | 0 => fun _ _ => []
  | budget + 1 => leaves budget

theorem leaves_eq (budget : ℕ) (front : String) (v : Json) :
    leaves budget front v = level (deeper budget) front (v.asObject.getD []) := by
  cases budget <;> rfl

theorem mem_of_get {v c : Json} {k : String} (h : v.get k = some c) : (k, c) ∈ v.asObject.getD [] := by
  cases v with
  | obj members =>
      obtain ⟨before, after, rfl, -⟩ := List.lookup_eq_some_iff.1 h
      simp [Json.asObject]
  | null | bool | num | str | arr => cases h

theorem isObject_of_walk {v c : Json} {k : String} {p : List Step} (h : v.walk (.key k :: p) = some c) :
    isObject v = true := by
  obtain ⟨d, hd, -⟩ := Option.bind_eq_some_iff.1 h
  cases v with
  | obj => rfl
  | null | bool | num | str | arr => cases hd

/-- Every scalar within the budget is found, under its keys. -/
theorem exists_mem_leaves {keys : List String} {v w : Json} (h : v.walk (keys.map .key) = some w)
    (hne : keys ≠ []) (hscalar : isScalar w = true) (hnoise : ∀ k ∈ keys, isNoise k = false) {budget : ℕ}
    (hlength : keys.length ≤ budget + 1) (front : String) :
    ∃ leaf ∈ leaves budget front v, leaf.keys = keys ∧ leaf.path = pathOf front keys := by
  induction keys generalizing v budget front with
  | nil => exact absurd rfl hne
  | cons k keys ih =>
      obtain ⟨c, hc, h⟩ := Option.bind_eq_some_iff.1 h
      have hmem := mem_of_get hc
      have hk := hnoise k List.mem_cons_self
      rw [leaves_eq]
      simp only [mem_level_iff]
      cases keys with
      | nil =>
          obtain rfl := Option.some.inj h
          exact ⟨_, ⟨k, c, hmem, hk, .inr (.inl ⟨hscalar, rfl⟩)⟩, rfl, rfl⟩
      | cons next keys =>
          obtain ⟨budget, rfl⟩ : ∃ b, budget = b + 1 := ⟨budget - 1, by simp at hlength; omega⟩
          obtain ⟨leaf, hleaf, hkeys, hpath⟩ := ih h (by simp)
            (fun k' hk' => hnoise k' (List.mem_cons_of_mem _ hk')) (by simpa using hlength) (below front k)
          exact ⟨{ leaf with keys := k :: leaf.keys },
            ⟨k, c, hmem, hk, .inl ⟨isObject_of_walk h, leaf, hleaf, rfl⟩⟩,
            congrArg (k :: ·) hkeys, hpath⟩

/-- One level of it; below, it is known. -/
theorem path_of_mem_level {deeper : String → Json → List Leaf} {front : String} {v w : Json} (hkeyed : v.Keyed)
    (hdeeper : ∀ k c, v.child (.key k) = some c → ∀ l ∈ deeper (below front k) c,
      c.walk (l.keys.map .key) = some w → l.keys ≠ [] ∧ l.path = pathOf (below front k) l.keys)
    {leaf : Leaf} (h : leaf ∈ level deeper front (v.asObject.getD []))
    (hw : v.walk (leaf.keys.map .key) = some w) (hscalar : isScalar w = true) :
    leaf.keys ≠ [] ∧ leaf.path = pathOf front leaf.keys := by
  obtain ⟨k, c, hmem, -, hleaf⟩ := mem_level_iff.1 h
  obtain ⟨members, rfl⟩ : ∃ members, v = .obj members := by
    cases v with
    | obj members => exact ⟨members, rfl⟩
    | null | bool | num | str | arr => cases hmem
  have hc := hkeyed.get (by exact hmem)
  rcases hleaf with ⟨-, l, hl, rfl⟩ | ⟨-, rfl⟩ | ⟨first, rest, rfl, -, rfl⟩
  · rw [List.map_cons, Json.walk_cons, hc] at hw
    exact ⟨by simp, (hdeeper k c hc l hl hw).2⟩
  · exact ⟨by simp, rfl⟩
  · rw [List.map_cons, Json.walk_cons, hc] at hw
    obtain rfl := Option.some.inj hw
    cases hscalar

/-- A leaf that stands for a scalar is found by the path of its keys. -/
theorem path_of_mem_leaves {budget : ℕ} {front : String} {v w : Json} (hkeyed : v.Keyed) {leaf : Leaf}
    (h : leaf ∈ leaves budget front v) (hw : v.walk (leaf.keys.map .key) = some w) (hscalar : isScalar w = true) :
    leaf.keys ≠ [] ∧ leaf.path = pathOf front leaf.keys := by
  induction budget generalizing front v leaf with
  | zero => exact path_of_mem_level hkeyed (by simp [deeper]) (leaves_eq 0 front v ▸ h) hw hscalar
  | succ budget ih =>
      refine path_of_mem_level hkeyed (fun k c hc l hl hwl => ?_) (leaves_eq (budget + 1) front v ▸ h) hw hscalar
      exact ih (hkeyed.child hc) hl hwl

/-! ### The fields of the walk -/

section
variable {upper : Char → String} {f : Formats} {names : IndexMap String String} {now : ℤ} {kind : Kind}
  {raw : Json}

theorem length_grow (fuel : ℕ) (heads : List (List String × ℕ)) :
    (grow upper fuel heads).length = heads.length := by
  induction fuel generalizing heads with
  | zero => simp [grow]
  | succ fuel ih =>
      rw [grow]
      split
      · simp
      · rw [ih, List.length_map]

theorem length_labelLeaves (paths : List String) : (labelLeaves upper paths).length = paths.length := by
  simp [labelLeaves, length_grow]

/-- Every leaf of a section has a line. -/
theorem exists_mem_zipWith {α β γ : Type} {g : α → β → γ} {as : List α} {bs : List β}
    (h : as.length = bs.length) {b : β} (hb : b ∈ bs) : ∃ a, g a b ∈ List.zipWith g as bs := by
  obtain ⟨i, hi, rfl⟩ := List.mem_iff_getElem.1 hb
  exact ⟨as[i], List.mem_iff_getElem.2 ⟨i, by simpa [h] using hi, by simp⟩⟩

theorem of_mem_zipWith {α β γ : Type} {g : α → β → γ} {as : List α} {bs : List β} {c : γ}
    (h : c ∈ List.zipWith g as bs) : ∃ a, ∃ b ∈ bs, c = g a b := by
  obtain ⟨i, hi, rfl⟩ := List.mem_iff_getElem.1 h
  rw [List.length_zipWith] at hi
  exact ⟨as[i], bs[i], List.getElem_mem _, by simp⟩

/-- A line of the walk is a leaf below a member, the member itself, or an array of scalars. -/
theorem of_mem_walked {title : String} {found : List Line} (h : (title, Block.lines found) ∈ walked upper f kind raw)
    {line : Line} (hline : line ∈ found) :
    ∃ top k v, raw = .obj top ∧ (k, v) ∈ top ∧
      ((isObject v = true ∧ ∃ leaf ∈ leaves DEEP "" v, ∃ label, line = leafLine f k label leaf) ∨
        (isScalar v = true ∧ line.path = k ∧ line.keys = [k]) ∨ (isScalar v = false ∧ line.keys = [k])) := by
  obtain ⟨top, rfl⟩ : ∃ top, raw = .obj top := by
    cases raw with
    | obj top => exact ⟨top, rfl⟩
    | null | bool | num | str | arr => cases h
  refine ⟨top, ?_⟩
  simp only [walked, List.mem_cons, Prod.mk.injEq, Block.lines.injEq, List.mem_flatMap] at h
  rcases h with ⟨-, rfl⟩ | ⟨⟨k, v⟩, hmem, hsection⟩
  · obtain ⟨⟨k, v⟩, hmem, hline⟩ := List.mem_flatMap.1 hline
    refine ⟨k, v, rfl, (List.mem_filter.1 hmem).1, ?_⟩
    cases v with
    | null => cases hline
    | bool | num | str =>
        obtain rfl := List.mem_singleton.1 hline
        exact .inr (.inl ⟨rfl, rfl, rfl⟩)
    | arr items =>
        simp only [inlined] at hline
        split at hline
        · cases hline
        · split at hline
          · obtain rfl := List.mem_singleton.1 hline
            exact .inr (.inr ⟨rfl, rfl⟩)
          · cases hline
    | obj members =>
        simp only [inlined] at hline
        split at hline
        · cases hline
        · obtain ⟨leaf, hleaf, rfl⟩ := List.mem_map.1 hline
          exact .inl ⟨rfl, leaf, (List.mem_filter.1 hleaf).1, _, rfl⟩
  · refine ⟨k, v, rfl, (List.mem_filter.1 hmem).1, ?_⟩
    cases v with
    | null | bool | num | str => cases hsection
    | arr items =>
        simp only [sections] at hsection
        split at hsection
        · simp at hsection
        · cases hsection
    | obj members =>
        simp only [sections] at hsection
        split at hsection
        · simp only [List.mem_singleton, Prod.mk.injEq, Block.lines.injEq] at hsection
          obtain ⟨-, rfl⟩ := hsection
          obtain ⟨label, leaf, hleaf, rfl⟩ := of_mem_zipWith hline
          exact .inl ⟨rfl, leaf, (List.mem_filter.1 hleaf).1, label, rfl⟩
        · cases hsection

/-- A leaf below a member that no column takes has a line, unless a column shows it. -/
theorem exists_line_of_leaf {top : List (String × Json)} {k : String} {v : Json} (hmem : (k, v) ∈ top)
    (hmine : mine kind k = true) (hobject : isObject v = true) {leaf : Leaf} (hleaf : leaf ∈ kept kind k v) :
    ∃ title found, (title, Block.lines found) ∈ walked upper f kind (.obj top) ∧
      ∃ label, leafLine f k label leaf ∈ found := by
  have hfilter : (k, v) ∈ top.filter fun m => mine kind m.1 := List.mem_filter.2 ⟨hmem, hmine⟩
  obtain ⟨members, rfl⟩ : ∃ members, v = .obj members := by
    cases v with
    | obj members => exact ⟨members, rfl⟩
    | null | bool | num | str | arr => cases hobject
  by_cases hown : ownSection (.obj members) = true
  · have hlength : (labelLeaves upper ((kept kind k (.obj members)).map Leaf.path)).length =
        (kept kind k (.obj members)).length := by
      rw [length_labelLeaves, List.length_map]
    obtain ⟨label, hline⟩ := exists_mem_zipWith (g := leafLine f k) hlength hleaf
    refine ⟨labelOf upper k, _, List.mem_cons_of_mem _ (List.mem_flatMap.2 ⟨_, hfilter, ?_⟩), label, hline⟩
    simp only [sections, if_pos hown, List.mem_singleton]
  · refine ⟨_, _, List.mem_cons_self, inlineLabel upper k leaf.path, List.mem_flatMap.2 ⟨_, hfilter, ?_⟩⟩
    simp only [inlined, if_neg hown]
    exact List.mem_map_of_mem hleaf

/-- A scalar member that no column takes has a line. -/
theorem exists_line_of_scalar {top : List (String × Json)} {k : String} {v : Json} (hmem : (k, v) ∈ top)
    (hmine : mine kind k = true) (hscalar : isScalar v = true) :
    ∃ title found, (title, Block.lines found) ∈ walked upper f kind (.obj top) ∧
      ∃ line ∈ found, line.path = k := by
  have hfilter : (k, v) ∈ top.filter fun m => mine kind m.1 := List.mem_filter.2 ⟨hmem, hmine⟩
  refine ⟨_, _, List.mem_cons_self,
    { label := labelOf upper k, path := k, kind := infer f k v, keys := [k] },
    List.mem_flatMap.2 ⟨_, hfilter, ?_⟩, rfl⟩
  cases v with
  | bool | num | str => exact List.mem_singleton_self _
  | null | arr | obj => cases hscalar

/-! ### Reading a leaf back -/

/-- A scalar the walk is to show: it is in no array, under no key that is noise, and not too deep. -/
structure IsLeaf (raw : Json) (keys : List String) (v : Json) : Prop where
  place : raw.walk (keys.map .key) = some v
  below : keys ≠ []
  scalar : isScalar v = true
  quiet : ∀ k ∈ keys, isNoise k = false
  depth : keys.length ≤ DEEP + 2

/-- Keys that a dotted path can spell: no key has a dot or ends in `[]`, the only key is not empty, nor is the
second one if another follows. -/
structure Readable (keys : List String) : Prop where
  dotless : ∀ k ∈ keys, '.' ∉ k.toList
  fanless : ∀ k ∈ keys, Text.stripSuffix "[]" k = none
  named : keys ≠ [""]
  kept : ∀ top next rest, keys = top :: "" :: next :: rest → False

/-- No column takes the top-level key, unless the leaf itself is what it shows. -/
def Untaken (kind : Kind) (keys : List String) : Prop :=
  ∀ p ∈ shownBy kind, keys.head? = some (trimFan p) → keys = [p]

instance (kind : Kind) (keys : List String) : Decidable (Untaken kind keys) :=
  inferInstanceAs (Decidable (∀ _ ∈ _, _))

/-- A field that is read back from the very place of a value, and drawn as the cell of it. -/
structure Draws (f : Formats) (names : IndexMap String String) (now : ℤ) (raw : Json) (keys : List String)
    (v : Json) (line : Line) : Prop where
  place : getAt raw line.path = [(keys.map .key, v)]
  cell : field f names now raw line = (line.label, Cell.render f names now "" line.kind v)

variable {keys : List String} {v : Json} {line : Line}

theorem draws_of_path (hleaf : IsLeaf raw keys v) (hread : Readable keys) (hpath : line.path = dotted keys) :
    Draws f names now raw keys v line := by
  have hplace : getAt raw line.path = [(keys.map .key, v)] := by
    rw [hpath]
    exact Path.getAt_dotted hread.dotless hread.fanless hleaf.below hread.named hleaf.place
  have hget : Path.get raw line.path = Path.get v "" := by
    rw [← Path.map_snd_getAt, hplace]
    rfl
  exact ⟨hplace, by rw [field, Cell.render, Cell.render, renderJson, renderJson, hget]⟩

theorem dotted_of_mem_leaves {k : String} {keys : List String} (hread : Readable (k :: keys)) (hne : keys ≠ []) :
    k ++ "." ++ pathOf "" keys = dotted (k :: keys) := by
  obtain ⟨first, rest, rfl⟩ := List.exists_cons_of_ne_nil hne
  refine append_pathOf fun hfirst => ?_
  subst hfirst
  cases rest with
  | nil => rfl
  | cons next rest => exact absurd rfl (hread.kept k next rest)

/-- A field of the walk shows the leaf it was found for. -/
theorem draws_of_mem_walked (hkeyed : raw.Keyed) (hleaf : IsLeaf raw keys v) (hread : Readable keys)
    {title : String} {found : List Line} (h : (title, Block.lines found) ∈ walked upper f kind raw)
    (hline : line ∈ found) (hkeys : line.keys = keys) : Draws f names now raw keys v line := by
  obtain ⟨top, k, w, rfl, hmem, hfound⟩ := of_mem_walked h hline
  have hw := hkeyed.get hmem
  have hplace := hleaf.place
  refine draws_of_path hleaf hread ?_
  rcases hfound with ⟨-, leaf, hmemleaf, label, rfl⟩ | ⟨-, hpath, hk⟩ | ⟨hnot, hk⟩
  · obtain rfl : k :: leaf.keys = keys := hkeys
    rw [List.map_cons, Json.walk_cons, hw] at hplace
    obtain ⟨hne, hpath⟩ := path_of_mem_leaves (hkeyed.child hw) hmemleaf hplace hleaf.scalar
    rw [leafLine, hpath, dotted_of_mem_leaves hread hne]
  · rw [hpath, ← hkeys, hk, dotted, String.intercalate_singleton]
  · rw [← hkeys, hk, List.map_singleton, Json.walk_cons, hw] at hplace
    obtain rfl := Option.some.inj hplace
    rw [hleaf.scalar] at hnot
    cases hnot

/-- A column shows a leaf at its path. -/
theorem exists_summary_line {p : String} (h : p ∈ shownBy kind) :
    ∃ line ∈ summary upper kind, line.path = p := by
  rcases List.mem_cons.1 h with rfl | h
  · exact ⟨_, List.mem_cons_self, rfl⟩
  · obtain ⟨c, hc, rfl⟩ := List.mem_map.1 h
    exact ⟨_, List.mem_cons_of_mem _ (List.mem_map_of_mem hc), rfl⟩

/-- A leaf has a line with its path, in the summary or in the walk. -/
theorem exists_line (hleaf : IsLeaf raw keys v) (hread : Readable keys) (huntaken : Untaken kind keys) :
    ∃ title found, (title, Block.lines found) ∈ planned upper f kind raw ∧
      ∃ line ∈ found, line.path = dotted keys := by
  have hcolumn (hp : dotted keys ∈ shownBy kind) : ∃ title found,
      (title, Block.lines found) ∈ planned upper f kind raw ∧ ∃ line ∈ found, line.path = dotted keys := by
    obtain ⟨line, hline, hpath⟩ : ∃ line ∈ summary upper kind, line.path = dotted keys := exists_summary_line hp
    exact ⟨_, _, List.mem_cons_self, line, hline, hpath⟩
  obtain ⟨k, rest, rfl⟩ := List.exists_cons_of_ne_nil hleaf.below
  obtain ⟨c, hc, hrest⟩ := Option.bind_eq_some_iff.1 hleaf.place
  obtain ⟨top, rfl⟩ : ∃ top, raw = .obj top := by
    cases raw with
    | obj top => exact ⟨top, rfl⟩
    | null | bool | num | str | arr => cases hc
  have hget : (Json.obj top).get k = some c := hc
  have hmem : (k, c) ∈ top := mem_of_get hget
  by_cases htaken : ∃ p ∈ shownBy kind, trimFan p = k
  · obtain ⟨p, hp, rfl⟩ := htaken
    rw [huntaken p hp rfl, dotted, String.intercalate_singleton] at hcolumn ⊢
    exact hcolumn hp
  · have hmine : mine kind k = true := by
      rw [mine, hleaf.quiet k List.mem_cons_self, Bool.not_false, Bool.true_and, Bool.not_eq_true',
        ← Bool.not_eq_true, List.any_eq_true]
      rintro ⟨p, hp, heq⟩
      exact htaken ⟨p, hp, by simpa using heq⟩
    cases rest with
    | nil =>
        obtain rfl := Option.some.inj hrest
        obtain ⟨title, found, hwalked, line, hline, hpath⟩ :
            ∃ title found, (title, Block.lines found) ∈ walked upper f kind (.obj top) ∧
              ∃ line ∈ found, line.path = k :=
          exists_line_of_scalar hmem hmine hleaf.scalar
        refine ⟨title, found, List.mem_cons_of_mem _ hwalked, line, hline, ?_⟩
        rw [hpath, dotted, String.intercalate_singleton]
    | cons next rest =>
        have hdepth : (next :: rest).length ≤ DEEP + 1 := by simpa using hleaf.depth
        obtain ⟨leaf, hmemleaf, -, hpath⟩ := exists_mem_leaves hrest (by simp) hleaf.scalar
          (fun k' hk' => hleaf.quiet k' (List.mem_cons_of_mem _ hk')) hdepth ""
        have hdotted : k ++ "." ++ leaf.path = dotted (k :: next :: rest) := by
          rw [hpath, dotted_of_mem_leaves hread (by simp)]
        by_cases halready : already kind k leaf.path = true
        · obtain ⟨p, hp, heq⟩ := List.any_eq_true.1 halready
          rw [hdotted, beq_iff_eq] at heq
          exact hcolumn (heq ▸ hp)
        · have hkept : leaf ∈ kept kind k c := List.mem_filter.2 ⟨hmemleaf, by simpa using halready⟩
          obtain ⟨title, found, hwalked, label, hline⟩ :
              ∃ title found, (title, Block.lines found) ∈ walked upper f kind (.obj top) ∧
                ∃ label, leafLine f k label leaf ∈ found :=
            exists_line_of_leaf hmem hmine (isObject_of_walk hrest) hkept
          exact ⟨title, found, List.mem_cons_of_mem _ hwalked, _, hline, hdotted⟩

/-- A leaf is shown: a field reads it back and draws the cell of it, in a section that is drawn unless every cell
of it is blank, and no field of the walk shows anything else for it. -/
structure Shown (upper : Char → String) (f : Formats) (names : IndexMap String String) (now : ℤ) (kind : Kind)
    (raw : Json) (keys : List String) (v : Json) : Prop where
  shown : ∃ title found, (title, Block.lines found) ∈ planned upper f kind raw ∧
    (∃ line ∈ found, Draws f names now raw keys v line) ∧
      ({ title, fields := found.map (field f names now raw) } ∈ fallback upper f names now kind raw ∨
        ∀ line ∈ found, isBlank (field f names now raw line).2 = true)
  alone : ∀ title found, (title, Block.lines found) ∈ walked upper f kind raw →
    ∀ line ∈ found, line.keys = keys → Draws f names now raw keys v line

/-- **A leaf is shown** if its keys can be spelled and no column takes them. -/
theorem shows_leaf (upper : Char → String) (f : Formats) (names : IndexMap String String) (now : ℤ) (kind : Kind)
    (raw : Json) (keys : List String) (v : Json) (hkeyed : raw.Keyed) (hleaf : IsLeaf raw keys v)
    (hread : Readable keys) (huntaken : Untaken kind keys) : Shown upper f names now kind raw keys v := by
  refine ⟨?_, fun title found h line hline hkeys => draws_of_mem_walked hkeyed hleaf hread h hline hkeys⟩
  obtain ⟨title, found, hplanned, line, hline, hpath⟩ :
      ∃ title found, (title, Block.lines found) ∈ planned upper f kind raw ∧ ∃ line ∈ found, line.path = dotted keys :=
    exists_line hleaf hread huntaken
  refine ⟨title, found, hplanned, ⟨line, hline, draws_of_path hleaf hread hpath⟩, ?_⟩
  by_cases hblank : ∀ line ∈ found, isBlank (field f names now raw line).2 = true
  · exact .inr hblank
  · refine .inl (List.mem_filter.2 ⟨List.mem_map.2 ⟨_, hplanned, rfl⟩, ?_⟩)
    simpa [Block.fields] using hblank

theorem shows_leaf_cluster : Shown (fun c => c.toUpper.toString) Cell.noFormats .empty 0 { id := "x" }
    (.obj [("extId", .str "c1"), ("cluster", .obj [("name", .str "web")])]) ["cluster", "name"] (.str "web") :=
  shows_leaf _ _ _ _ _ _ _ _
    (Json.keyed_obj (by decide) (List.forall_mem_cons.2 ⟨Json.keyed_str _, List.forall_mem_singleton.2
      (Json.keyed_obj (by decide) (List.forall_mem_singleton.2 (Json.keyed_str _)))⟩))
    ⟨rfl, by decide, rfl, by decide, by decide⟩ ⟨by decide, by decide, by decide, by simp⟩ (by decide)

/-! ### Leaves that are not shown -/

/-- Every leaf is shown, in a section that is drawn. -/
def LosesNothing (upper : Char → String) (f : Formats) (names : IndexMap String String) (now : ℤ) (kind : Kind)
    (raw : Json) : Prop :=
  ∀ keys v, IsLeaf raw keys v →
    (∃ title found, (title, Block.lines found) ∈ planned upper f kind raw ∧
      (∃ line ∈ found, Draws f names now raw keys v line) ∧
        { title, fields := found.map (field f names now raw) } ∈ fallback upper f names now kind raw) ∧
      ∀ title found, (title, Block.lines found) ∈ walked upper f kind raw →
        ∀ line ∈ found, line.keys = keys → Draws f names now raw keys v line

/-- The places that the fields of a section are read from. -/
def places (raw : Json) : Block → List (List (List Step))
  | .lines found => found.map fun line => (getAt raw line.path).map Prod.fst
  | .elements _ => []

/-- A leaf is lost when every section that reads its place is blank. -/
theorem not_losesNothing_of_places (keys : List String) (hleaf : IsLeaf raw keys v)
    (h : ∀ s ∈ planned upper f kind raw, [keys.map .key] ∉ places raw s.2 ∨
      ∀ field ∈ Block.fields upper f names now raw s.2, isBlank field.2 = true) :
    ¬ LosesNothing upper f names now kind raw := by
  intro hall
  obtain ⟨⟨title, found, hplanned, ⟨line, hline, hdraws⟩, hdrawn⟩, -⟩ := hall keys v hleaf
  rcases h _ hplanned with hplace | hblank
  · refine hplace (List.mem_map.2 ⟨line, hline, ?_⟩)
    rw [hdraws.place]
    rfl
  · obtain ⟨field, hfield, hsaid⟩ := List.any_eq_true.1 (List.mem_filter.1 hdrawn).2
    have := hblank field hfield
    rw [this] at hsaid
    cases hsaid

/-- A column that shows an object whole stands for the leaves below it, a section of blank cells is not drawn,
and a key with a dot in it is read back as two. -/
theorem not_losesNothing :
    ¬ LosesNothing (fun c => c.toUpper.toString) Cell.noFormats .empty 0
        { id := "x", columns := [{ header := "LOCATION", path := "location" }] }
        (.obj [("extId", .str "c1"), ("location", .obj [("rack", .str "r1")])]) ∧
      ¬ LosesNothing (fun c => c.toUpper.toString) Cell.noFormats .empty 0 { id := "x" }
        (.obj [("extId", .str "c1"), ("description", .str "")]) ∧
      ¬ LosesNothing (fun c => c.toUpper.toString) Cell.noFormats .empty 0 { id := "x" }
        (.obj [("extId", .str "c1"), ("labels", .obj [("app.tier", .str "web")])]) :=
  ⟨not_losesNothing_of_places ["location", "rack"] ⟨rfl, by decide, rfl, by decide, by decide⟩
      (by decide +kernel),
    not_losesNothing_of_places ["description"] ⟨rfl, by decide, rfl, by decide, by decide⟩
      (by decide +kernel),
    not_losesNothing_of_places ["labels", "app.tier"] ⟨rfl, by decide, rfl, by decide, by decide⟩
      (by decide +kernel)⟩

end

end Detail

end Nutsh
