/-
Replacing in a text.

One replacement puts a new text for each occurrence of an old one, the leftmost first, and does not look
at what it has written.  A list of replacements is made one after the other, so a later one also works on
what an earlier one wrote, and an earlier one never sees what a later one writes.

Main definitions:

* `Text.replace`, `Text.replaceEach` — one replacement, and a list of them;
* `Text.Spells` — the last replacement that is made writes a text that was replaced.

Main results:

* `Text.contains_iff` — what stands in a text, as an infix of its characters;
* `Text.replace_size` — a replacement changes the size by as much for each occurrence;
* `Text.replaceEach_ne_old` — the shortest old text never comes back from its own replacement;
* `Text.exists_contains_replaceEach_iff` — an old text stands in what a list of replacements makes if and
  only if the last replacement that was made wrote one.
-/
import Nutsh.Lib.Text
import Mathlib.Data.String.Basic
import Mathlib.Data.List.Infix

set_option relaxedAutoImplicit false
set_option autoImplicit false

namespace Text

/-- `new` for each occurrence of `old`, which is not empty; `skip` characters of an occurrence that was
replaced are still to be passed over. -/
def replaceList (old new : List Char) : ℕ → List Char → List Char
  | _, [] => []
  | skip + 1, _ :: s => replaceList old new skip s
  | 0, c :: s =>
      if old.isPrefixOf (c :: s) then new ++ replaceList old new (old.length - 1) s
      else c :: replaceList old new 0 s

/-- The text with `new` for each occurrence of `old`. -/
def replace (old new s : String) : String :=
  String.ofList (replaceList old.toList new.toList 0 s.toList)

/-- The replacements one after the other. -/
def replaceEach : List (String × String) → String → String
  | [], s => s
  | (old, new) :: pairs, s => replaceEach pairs (if contains old s then replace old new s else s)

/-! ### One replacement -/

theorem splitOnceList_isSome {sep : List Char} {s : List Char} :
    (splitOnceList sep s).isSome ↔ sep <:+: s := by
  induction s with
  | nil => cases sep <;> simp [splitOnceList]
  | cons c s ih =>
      rw [splitOnceList, List.infix_cons_iff]
      split
      · rename_i h
        exact iff_of_true rfl (Or.inl (List.isPrefixOf_iff_prefix.1 h))
      · rename_i h
        rw [Option.isSome_map, ih]
        exact ⟨Or.inr, fun h' => h'.resolve_left fun hpre => h (List.isPrefixOf_iff_prefix.2 hpre)⟩

/-- A text stands in another if and only if its characters are an infix of the other's. -/
theorem contains_iff {sub s : String} : contains sub s = true ↔ sub.toList <:+: s.toList :=
  splitOnceList_isSome

theorem contains_self (s : String) : contains s s = true := contains_iff.2 List.infix_rfl

/-- What stands in a text is no longer than it. -/
theorem utf8ByteSize_le_of_contains {sub s : String} (h : contains sub s = true) :
    sub.utf8ByteSize ≤ s.utf8ByteSize := by
  obtain ⟨a, b, hab⟩ := contains_iff.1 h
  have hs : s = String.ofList a ++ sub ++ String.ofList b := by
    apply String.toList_injective
    simp [← hab]
  rw [hs, String.utf8ByteSize_append, String.utf8ByteSize_append]
  omega

/-- A text as long as one that stands in it is that one. -/
theorem eq_of_contains {sub s : String} (h : contains sub s = true)
    (hsize : s.utf8ByteSize ≤ sub.utf8ByteSize) : s = sub := by
  obtain ⟨a, b, hab⟩ := contains_iff.1 h
  have hs : s = String.ofList a ++ sub ++ String.ofList b := by
    apply String.toList_injective
    simp [← hab]
  rw [hs, String.utf8ByteSize_append, String.utf8ByteSize_append] at hsize
  have ha : String.ofList a = "" := String.utf8ByteSize_eq_zero_iff.1 (by omega)
  have hb : String.ofList b = "" := String.utf8ByteSize_eq_zero_iff.1 (by omega)
  rw [hs, ha, hb]
  simp

theorem replaceList_skip (old new : List Char) (skip : ℕ) (s : List Char) :
    replaceList old new skip s = replaceList old new 0 (s.drop skip) := by
  induction s generalizing skip with
  | nil => cases skip <;> rfl
  | cons c s ih =>
      cases skip with
      | zero => rfl
      | succ skip => exact ih skip

/-- The replacement where the old text stands at the beginning. -/
theorem replaceList_append {old new s : List Char} (h : old ≠ []) :
    replaceList old new 0 (old ++ s) = new ++ replaceList old new 0 s := by
  obtain ⟨c, old, rfl⟩ := List.exists_cons_of_ne_nil h
  have hbegins : (c :: old).isPrefixOf (c :: (old ++ s)) = true :=
    List.isPrefixOf_iff_prefix.2 (List.prefix_append _ _)
  rw [List.cons_append, replaceList, if_pos hbegins, replaceList_skip]
  simp

theorem replaceList_cons {old new s : List Char} {c : Char} (h : ¬ old <+: c :: s) :
    replaceList old new 0 (c :: s) = c :: replaceList old new 0 s := by
  rw [replaceList, if_neg (List.isPrefixOf_iff_prefix.not.2 h)]

/-- Each occurrence changes the size by the difference of the two texts. -/
theorem replaceList_size {old : List Char} (h : old ≠ []) (new s : List Char) :
    ∃ m, String.utf8Len (replaceList old new 0 s) + m * String.utf8Len old =
      String.utf8Len s + m * String.utf8Len new ∧ (old <:+: s → 0 < m) := by
  induction hn : s.length using Nat.strong_induction_on generalizing s with
  | _ n ih =>
      cases s with
      | nil => exact ⟨0, by simp [replaceList], fun hwithin => absurd (List.infix_nil.1 hwithin) h⟩
      | cons c s =>
          by_cases hbegins : old <+: c :: s
          · obtain ⟨rest, hrest⟩ := hbegins
            have hlength : rest.length < n := by
              have hold := List.length_pos_of_ne_nil h
              have hsum := congrArg List.length hrest
              rw [List.length_append] at hsum
              omega
            obtain ⟨m, hm, _⟩ := ih rest.length hlength rest rfl
            refine ⟨m + 1, ?_, fun _ => m.succ_pos⟩
            rw [← hrest, replaceList_append h, String.utf8Len_append, String.utf8Len_append,
              Nat.succ_mul, Nat.succ_mul]
            omega
          · obtain ⟨m, hm, hpos⟩ := ih s.length (by simp [← hn]) s rfl
            refine ⟨m, ?_, fun hwithin => ?_⟩
            · rw [replaceList_cons hbegins, String.utf8Len_cons, String.utf8Len_cons]
              omega
            · exact hpos ((List.infix_cons_iff.1 hwithin).resolve_left hbegins)

theorem replace_size {old : String} (h : old ≠ "") (new s : String) :
    ∃ m, (replace old new s).utf8ByteSize + m * old.utf8ByteSize =
      s.utf8ByteSize + m * new.utf8ByteSize ∧ (contains old s = true → 0 < m) := by
  have hsize (t : String) : t.utf8ByteSize = String.utf8Len t.toList := by
    rw [← String.utf8ByteSize_ofList, String.ofList_toList]
  have hnil : old.toList ≠ [] := fun hnil => h (String.toList_eq_nil_iff.1 hnil)
  obtain ⟨m, hm, hpos⟩ := replaceList_size hnil new.toList s.toList
  refine ⟨m, ?_, fun hcontains => hpos (contains_iff.1 hcontains)⟩
  rw [replace, String.utf8ByteSize_ofList, hsize, hsize, hsize]
  exact hm

theorem replace_self {old : String} (h : old ≠ "") (new : String) : replace old new old = new := by
  have hnil : old.toList ≠ [] := fun hnil => h (String.toList_eq_nil_iff.1 hnil)
  have hlist := @replaceList_append _ new.toList [] hnil
  rw [List.append_nil] at hlist
  rw [replace, hlist, replaceList, List.append_nil, String.ofList_toList]

/-! ### One replacement after the other -/

theorem replaceEach_append (front back : List (String × String)) (s : String) :
    replaceEach (front ++ back) s = replaceEach back (replaceEach front s) := by
  induction front generalizing s with
  | nil => rfl
  | cons p front ih => exact ih _

/-- Replacements of texts that do not occur do nothing. -/
theorem replaceEach_of_forall {pairs : List (String × String)} {s : String}
    (h : ∀ p ∈ pairs, contains p.1 s = false) : replaceEach pairs s = s := by
  induction pairs with
  | nil => rfl
  | cons p pairs ih =>
      obtain ⟨hp, h⟩ := List.forall_mem_cons.1 h
      rw [replaceEach, hp]
      exact ih h

/-- **The shortest old text does not come back.**  Where the last of the replacements has an old text no
longer than the others', what the replacements make of its new text is not its old one. -/
theorem replaceEach_ne_old {front : List (String × String)} {old new : String}
    (hshortest : ∀ p ∈ front, old.utf8ByteSize ≤ p.1.utf8ByteSize) (hempty : old ≠ "")
    (hne : old ≠ new) : replaceEach (front ++ [(old, new)]) new ≠ old := by
  intro h
  rw [replaceEach_append] at h
  change (if contains old (replaceEach front new) then replace old new (replaceEach front new)
    else replaceEach front new) = old at h
  rcases Nat.lt_or_ge new.utf8ByteSize old.utf8ByteSize with hlt | hge
  · -- none of the old texts fits into the new one
    have hfront : replaceEach front new = new := by
      refine replaceEach_of_forall fun p hp => ?_
      by_contra hcontains
      have hle := utf8ByteSize_le_of_contains (Bool.eq_true_of_not_eq_false hcontains)
      have := hshortest p hp
      omega
    have hold : contains old new = false := by
      by_contra hcontains
      have hle := utf8ByteSize_le_of_contains (Bool.eq_true_of_not_eq_false hcontains)
      omega
    rw [hfront, hold] at h
    exact hne h.symm
  · have hcontains : contains old (replaceEach front new) = true := by
      by_contra hnot
      rw [if_neg hnot] at h
      rw [h] at hnot
      exact hnot (contains_self old)
    rw [if_pos hcontains] at h
    -- a replacement that does not shorten made the old text only of the old text itself
    obtain ⟨m, hm, _⟩ := replace_size hempty new (replaceEach front new)
    rw [h] at hm
    have hmul : m * old.utf8ByteSize ≤ m * new.utf8ByteSize := Nat.mul_le_mul_left m hge
    have hself := eq_of_contains hcontains (by omega)
    rw [hself, replace_self hempty] at h
    exact hne h.symm

/-- The last replacement that is made in a text writes an old text: its own, or one that was replaced
before. -/
def Spells (pairs : List (String × String)) (s : String) : Prop :=
  ∃ front old new back, pairs = front ++ (old, new) :: back ∧
    contains old (replaceEach front s) = true ∧
    (∀ p ∈ back, contains p.1 (replace old new (replaceEach front s)) = false) ∧
    ∃ p ∈ front ++ [(old, new)], contains p.1 (replace old new (replaceEach front s)) = true

/-- **Where an old text stands in the end.**  It does if and only if the last replacement that was made
wrote one. -/
theorem exists_contains_replaceEach_iff {pairs : List (String × String)} {s : String} :
    (∃ p ∈ pairs, contains p.1 (replaceEach pairs s) = true) ↔ Spells pairs s := by
  constructor
  · induction pairs using List.reverseRecOn with
    | nil =>
        rintro ⟨p, hp, _⟩
        cases hp
    | append_singleton pairs q ih =>
        obtain ⟨old, new⟩ := q
        rintro ⟨p, hp, hcontains⟩
        rw [replaceEach_append] at hcontains
        change contains p.1 (if contains old (replaceEach pairs s) then
          replace old new (replaceEach pairs s) else replaceEach pairs s) = true at hcontains
        cases hold : contains old (replaceEach pairs s) with
        | true =>
            rw [hold, if_pos rfl] at hcontains
            exact ⟨pairs, old, new, [], rfl, hold, by simp, p, hp, hcontains⟩
        | false =>
            -- the last replacement was not made, so one before it was the last
            rw [hold, if_neg Bool.false_ne_true] at hcontains
            have hmem : p ∈ pairs := by
              rcases List.mem_append.1 hp with hp | hp
              · exact hp
              · rw [List.mem_singleton.1 hp, hold] at hcontains
                cases hcontains
            obtain ⟨front, old', new', back, rfl, hmade, hback, hwrote⟩ := ih ⟨p, hmem, hcontains⟩
            refine ⟨front, old', new', back ++ [(old, new)], by simp, hmade, ?_, hwrote⟩
            have hend : replaceEach (front ++ (old', new') :: back) s =
                replace old' new' (replaceEach front s) := by
              rw [replaceEach_append, replaceEach, hmade, if_pos rfl]
              exact replaceEach_of_forall hback
            intro q hq
            rcases List.mem_append.1 hq with hq | hq
            · exact hback q hq
            · rw [List.mem_singleton.1 hq, ← hend]
              exact hold
  · rintro ⟨front, old, new, back, rfl, hmade, hback, p, hp, hwrote⟩
    have hmem : p ∈ front ++ (old, new) :: back := by
      rcases List.mem_append.1 hp with hp | hp
      · exact List.mem_append_left _ hp
      · rw [List.mem_singleton.1 hp]
        exact List.mem_append_right _ List.mem_cons_self
    refine ⟨p, hmem, ?_⟩
    rw [replaceEach_append, replaceEach, hmade, if_pos rfl, replaceEach_of_forall hback]
    exact hwrote

end Text
