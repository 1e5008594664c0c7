/-
Values laid out in blocks.

A value that is a scalar, or a collection with nothing in it, goes on the line of its key or its dash.  Any other
goes two columns further in, so that the tokens tell by their columns alone where it ends.

Main definitions:

* `Yaml.isInline` — a value that goes on a line;
* `Yaml.layout` — the tokens of a value at a column;
* `Yaml.Each` — what holds of every key of a value, and of every value in it that goes on a line.

Main results:

* `Yaml.node_layout` — the tokens of a value make that value.
-/
import Nutsh.Lib.JsonPath
import Nutsh.Lib.Yaml

set_option relaxedAutoImplicit false
set_option autoImplicit false

namespace Yaml

/-- A value that is written on the line of its key or its dash. -/
def isInline : Json → Bool
  | .obj (_ :: _) => false
  | .arr (_ :: _) => false
  | _ => true

mutual

/-- The tokens of a value at a column. -/
def layout (column : ℕ) : Json → List (ℕ × Token)
  | .obj (m :: members) => layoutMembers column (m :: members)
  | .arr (v :: items) => layoutItems column (v :: items)
  | v => [(column, .scalar v)]

def layoutItems (column : ℕ) : List Json → List (ℕ × Token)
  | [] => []
  | v :: items => (column, .dash) :: (layout (column + 2) v ++ layoutItems column items)

def layoutMembers (column : ℕ) : List (String × Json) → List (ℕ × Token)
  | [] => []
  | (key, v) :: members =>
      (if isInline v then [(column, .entry key (some v))] else (column, .entry key none) :: layout (column + 2) v) ++
        layoutMembers column members

end

section
variable (key : String → Prop) (leaf : Json → Prop)

mutual

/-- Every key of a value is as `key` says, and every value in it that goes on a line as `leaf` says. -/
def Each : Json → Prop
  | .obj (m :: members) => EachMember (m :: members)
  | .arr (v :: items) => EachItem (v :: items)
  | v => leaf v

def EachItem : List Json → Prop
  | [] => True
  | v :: items => Each v ∧ EachItem items

def EachMember : List (String × Json) → Prop
  | [] => True
  | (k, v) :: members => key k ∧ Each v ∧ EachMember members

end

end

section
variable {key key' key₀ : String → Prop} {leaf leaf' leaf₀ : Json → Prop}

mutual

/-- What is the same of every key and of every value on a line is the same of the whole. -/
theorem each_congr (hkey : ∀ k, key₀ k → (key k ↔ key' k))
    (hleaf : ∀ v, isInline v = true → leaf₀ v → (leaf v ↔ leaf' v)) (v : Json) (h : Each key₀ leaf₀ v) :
    Each key leaf v ↔ Each key' leaf' v := by
  match v with
  | .null | .bool _ | .num _ | .str _ | .arr [] | .obj [] => exact hleaf _ rfl h
  | .arr (v :: items) => exact eachItem_congr hkey hleaf (v :: items) h
  | .obj (m :: members) => exact eachMember_congr hkey hleaf (m :: members) h

theorem eachItem_congr (hkey : ∀ k, key₀ k → (key k ↔ key' k))
    (hleaf : ∀ v, isInline v = true → leaf₀ v → (leaf v ↔ leaf' v)) (items : List Json)
    (h : EachItem key₀ leaf₀ items) : EachItem key leaf items ↔ EachItem key' leaf' items := by
  match items with
  | [] => exact Iff.rfl
  | v :: items => exact and_congr (each_congr hkey hleaf v h.1) (eachItem_congr hkey hleaf items h.2)

theorem eachMember_congr (hkey : ∀ k, key₀ k → (key k ↔ key' k))
    (hleaf : ∀ v, isInline v = true → leaf₀ v → (leaf v ↔ leaf' v)) (members : List (String × Json))
    (h : EachMember key₀ leaf₀ members) :
    EachMember key leaf members ↔ EachMember key' leaf' members := by
  match members with
  | [] => exact Iff.rfl
  | (k, v) :: members =>
      exact and_congr (hkey k h.1) <|
        and_congr (each_congr hkey hleaf v h.2.1) (eachMember_congr hkey hleaf members h.2.2)

end

end

/-- What follows a block begins before its column. -/
def Behind (column : ℕ) (rest : List (ℕ × Token)) : Prop := ∀ t ∈ rest.head?, t.1 < column

theorem Behind.mono {column column' : ℕ} {rest : List (ℕ × Token)} (h : Behind column rest)
    (hle : column ≤ column') : Behind column' rest :=
  fun t ht => Nat.lt_of_lt_of_le (h t ht) hle

theorem behind_items {column : ℕ} {rest : List (ℕ × Token)} (h : Behind column rest) (items : List Json) :
    Behind (column + 2) (layoutItems column items ++ rest) := by
  cases items with
  | nil =>
      rw [layoutItems, List.nil_append]
      exact h.mono (by omega)
  | cons v items =>
      intro t ht
      obtain rfl : (column, Token.dash) = t := by simpa [layoutItems] using ht
      exact Nat.lt_add_of_pos_right (by decide)

theorem behind_members {column : ℕ} {rest : List (ℕ × Token)} (h : Behind column rest)
    (members : List (String × Json)) : Behind (column + 2) (layoutMembers column members ++ rest) := by
  cases members with
  | nil =>
      rw [layoutMembers, List.nil_append]
      exact h.mono (by omega)
  | cons m members =>
      intro t ht
      have hcolumn : t.1 = column := by
        rw [layoutMembers] at ht
        split at ht
        · simp only [List.cons_append, List.nil_append, List.head?_cons, Option.mem_some_iff] at ht
          rw [← ht]
        · simp only [List.cons_append, List.head?_cons, Option.mem_some_iff] at ht
          rw [← ht]
      rw [hcolumn]
      exact Nat.lt_add_of_pos_right (by decide)

/-- Nothing is read of a sequence or a mapping that ends here. -/
theorem items_behind {column fuel : ℕ} {rest : List (ℕ × Token)} (h : Behind column rest) :
    items (fuel + 1) column rest = some ([], rest) := by
  cases rest with
  | nil => rw [items]
  | cons t rest =>
      obtain ⟨c, t⟩ := t
      have hc : c < column := h (c, t) rfl
      cases t with
      | dash | entry | scalar => rw [items, if_neg (by omega), if_pos hc]

theorem entries_behind {column fuel : ℕ} {rest : List (ℕ × Token)} (h : Behind column rest) :
    entries (fuel + 1) column rest = some ([], rest) := by
  cases rest with
  | nil => rw [entries]
  | cons t rest =>
      obtain ⟨c, t⟩ := t
      have hc : c < column := h (c, t) rfl
      match t with
      | .dash | .scalar _ | .entry _ none | .entry _ (some _) => rw [entries, if_neg (by omega), if_pos hc]

theorem layout_head (column : ℕ) (v : Json) : ∃ t rest, layout column v = (column, t) :: rest := by
  cases v with
  | null | bool | num | str => exact ⟨_, _, rfl⟩
  | arr items =>
      cases items with
      | nil => exact ⟨_, _, rfl⟩
      | cons v items => exact ⟨_, _, rfl⟩
  | obj members =>
      cases members with
      | nil => exact ⟨_, _, rfl⟩
      | cons m members =>
          rw [layout, layoutMembers]
          split
          · exact ⟨_, _, rfl⟩
          · exact ⟨_, _, rfl⟩

/-- Further in, no sequence stands at the column of its key. -/
theorem least_layout (column : ℕ) (v : Json) (rest : List (ℕ × Token)) :
    least column (layout (column + 2) v ++ rest) = column + 1 := by
  obtain ⟨t, tail, h⟩ := layout_head (column + 2) v
  rw [h, List.cons_append]
  cases t with
  | dash => exact if_neg (by omega)
  | entry | scalar => rfl

/-! ### Reading it back -/

theorem keyed_item {items : List Json} (h : (Json.arr items).Keyed) : ∀ v ∈ items, v.Keyed := by
  intro v hv
  obtain ⟨n, hn, rfl⟩ := List.mem_iff_getElem.1 hv
  have hchild : (Json.arr items).child (.item n) = some items[n] := List.getElem?_eq_getElem hn
  exact h.child hchild

mutual

/-- **The tokens of a value make that value**, with as much fuel as there are tokens to read. -/
theorem node_layout (v : Json) (column first fuel : ℕ) (rest : List (ℕ × Token)) (hkeyed : v.Keyed)
    (hfirst : first ≤ column) (hfuel : 2 * (layout column v).length + 2 ≤ fuel) (hrest : Behind column rest) :
    node fuel first (layout column v ++ rest) = some (v, rest) := by
  obtain ⟨fuel, rfl⟩ : ∃ k, fuel = k + 1 := ⟨fuel - 1, by omega⟩
  have hnot : ¬ column < first := by omega
  match v with
  | .null | .bool _ | .num _ | .str _ | .arr [] | .obj [] =>
      simp only [layout, List.cons_append, List.nil_append]
      rw [node, if_neg hnot]
  | .arr (v :: vs) =>
      have hitems := items_layout (v :: vs) column fuel rest (keyed_item hkeyed)
        (by rw [layout] at hfuel; omega) hrest
      rw [layout]
      rw [layoutItems, List.cons_append] at hitems ⊢
      rw [node, if_neg hnot, hitems, Option.map_some]
  | .obj (m :: ms) =>
      have hmembers : ∀ x ∈ m :: ms, x.2.Keyed := fun x hx => hkeyed.child (hkeyed.get hx)
      have hentries := entries_layout (m :: ms) column fuel rest hmembers
        (by rw [layout] at hfuel; omega) hrest
      have hnodup : ((m :: ms).map Prod.fst).Nodup := hkeyed [] _ rfl
      obtain ⟨key, v⟩ := m
      rw [layout]
      rw [layoutMembers] at hentries ⊢
      by_cases hinline : isInline v = true
      · rw [if_pos hinline] at hentries ⊢
        simp only [List.cons_append, List.nil_append] at hentries ⊢
        rw [node, if_neg hnot, hentries, Option.bind_some, if_pos hnodup]
      · rw [if_neg hinline] at hentries ⊢
        simp only [List.cons_append] at hentries ⊢
        rw [node, if_neg hnot, hentries, Option.bind_some, if_pos hnodup]

theorem items_layout (vs : List Json) (column fuel : ℕ) (rest : List (ℕ × Token)) (hkeyed : ∀ v ∈ vs, v.Keyed)
    (hfuel : 2 * (layoutItems column vs).length + 1 ≤ fuel) (hrest : Behind column rest) :
    items fuel column (layoutItems column vs ++ rest) = some (vs, rest) := by
  obtain ⟨fuel, rfl⟩ : ∃ k, fuel = k + 1 := ⟨fuel - 1, by omega⟩
  match vs with
  | [] => exact items_behind hrest
  | v :: vs =>
      simp only [layoutItems, List.length_cons, List.length_append] at hfuel
      have hnode := node_layout v (column + 2) (column + 1) fuel (layoutItems column vs ++ rest)
        (hkeyed v List.mem_cons_self) (by omega) (by omega) (behind_items hrest vs)
      have hitems := items_layout vs column fuel rest (fun w hw => hkeyed w (List.mem_cons_of_mem _ hw))
        (by omega) hrest
      rw [layoutItems, List.cons_append, List.append_assoc, items, if_neg (Nat.lt_irrefl column),
        if_neg (Nat.lt_irrefl column), hnode, Option.bind_some, hitems, Option.map_some]

theorem entries_layout (ms : List (String × Json)) (column fuel : ℕ) (rest : List (ℕ × Token))
    (hkeyed : ∀ m ∈ ms, m.2.Keyed) (hfuel : 2 * (layoutMembers column ms).length + 1 ≤ fuel)
    (hrest : Behind column rest) :
    entries fuel column (layoutMembers column ms ++ rest) = some (ms, rest) := by
  obtain ⟨fuel, rfl⟩ : ∃ k, fuel = k + 1 := ⟨fuel - 1, by omega⟩
  match ms with
  | [] => exact entries_behind hrest
  | (key, v) :: ms =>
      rw [layoutMembers] at hfuel ⊢
      by_cases hinline : isInline v = true
      · rw [if_pos hinline] at hfuel ⊢
        simp only [List.length_cons, List.length_append, List.length_nil] at hfuel
        have hentries := entries_layout ms column fuel rest (fun m hm => hkeyed m (List.mem_cons_of_mem _ hm))
          (by omega) hrest
        simp only [List.cons_append, List.nil_append]
        rw [entries, if_neg (Nat.lt_irrefl column), if_neg (Nat.lt_irrefl column), hentries, Option.map_some]
      · rw [if_neg hinline] at hfuel ⊢
        simp only [List.length_cons, List.length_append] at hfuel
        have hnode := node_layout v (column + 2) (column + 1) fuel (layoutMembers column ms ++ rest)
          (hkeyed (key, v) List.mem_cons_self) (by omega) (by omega) (behind_members hrest ms)
        have hentries := entries_layout ms column fuel rest (fun m hm => hkeyed m (List.mem_cons_of_mem _ hm))
          (by omega) hrest
        rw [List.cons_append, List.cons_append, entries, if_neg (Nat.lt_irrefl column),
          if_neg (Nat.lt_irrefl column), List.append_assoc]
        simp only [least_layout]
        rw [hnode, Option.bind_some, hentries, Option.map_some]

end

theorem document_layout (v : Json) (hkeyed : v.Keyed) : document (layout 0 v) = some v := by
  have hread := node_layout v 0 0 (2 * (layout 0 v).length + 2) [] hkeyed (Nat.le_refl 0) (Nat.le_refl _)
    (by simp [Behind])
  rw [List.append_nil] at hread
  rw [document, hread]

end Yaml
