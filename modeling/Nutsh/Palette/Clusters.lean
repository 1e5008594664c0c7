/-
The cursor of a line and the clusters around it.

Clusters are read off the whole line from its start, so what an edit puts beside the cursor can join the
characters around it.  Where a cluster ends is told by the two characters around the place alone; an edit leaves
the cursor there unless it puts a joiner before a character that follows, or brings one that takes no cell to
the start of the line.

Main definitions:

* `OnCluster` — where the clusters of a text end, walked from its start;
* `Parted` — two halves of a text that do not share a cluster, by the characters around the cut;
* `Op`, `Input.apply` — the edits and the moves;
* `Input.Apart` — an edit that joins nothing across the cursor.

Main results:

* `onCluster_iff` — a cluster ends where the text is parted;
* `clusterEnd_clusterStart` — a cell to the left and one to the right lead back;
* `Input.parted_apply_iff` — **an edit leaves the cursor between two clusters exactly when it is apart**.
-/
import Nutsh.Palette.Line

set_option relaxedAutoImplicit false
set_option autoImplicit false

namespace Nutsh.Palette

variable (wide : Char → Bool)

/-- Where a cluster ends, or the first one starts, as the line is walked from its start. -/
inductive OnCluster (text : List Char) : ℕ → Prop where
  | start : OnCluster text 0
  | next {position : ℕ} : OnCluster text position → OnCluster text (clusterEnd wide text position)

/-- Halves of a text that do not share a cluster: one of them is empty, or the first does not end in a joiner
and the second begins with a character that takes a cell of its own. -/
def Parted (before after : List Char) : Prop :=
  before = [] ∨ after = [] ∨ before.getLast? ≠ some ZWJ ∧ after.head?.all wide

instance (before after : List Char) : Decidable (Parted wide before after) := by
  unfold Parted
  infer_instance

variable {wide} {text : List Char} {position : ℕ}

/-! ### Where a cluster ends -/

/-- The characters that follow `last` in its cluster are parted from the rest. -/
theorem parted_clusterRest (last : Char) (cs : List Char) :
    Parted wide (last :: cs.take (clusterRest wide (last == ZWJ) cs))
      (cs.drop (clusterRest wide (last == ZWJ) cs)) := by
  induction cs generalizing last with
  | nil => exact .inr (.inl rfl)
  | cons c cs ih =>
      rw [clusterRest]
      split
      · rename_i hbreak
        refine .inr (.inr ⟨?_, ?_⟩)
        · simpa using (Bool.and_eq_true_iff.1 hbreak).1
        · simpa using (Bool.and_eq_true_iff.1 hbreak).2
      · rw [List.take_succ_cons, List.drop_succ_cons]
        rcases ih c with h | h | h
        · cases h
        · exact .inr (.inl h)
        · exact .inr (.inr (by rwa [List.getLast?_cons_cons]))

/-- Nothing is parted inside a cluster. -/
theorem not_parted_of_lt_clusterRest (last : Char) (cs : List Char) {k : ℕ}
    (hk : k < clusterRest wide (last == ZWJ) cs) : ¬ Parted wide (last :: cs.take k) (cs.drop k) := by
  induction cs generalizing last k with
  | nil => exact absurd hk (Nat.not_lt_zero k)
  | cons c cs ih =>
      rw [clusterRest] at hk
      split at hk
      · exact absurd hk (Nat.not_lt_zero k)
      · rename_i hjoined
        cases k with
        | zero =>
            rintro (h | h | ⟨hlast, hwide⟩)
            · cases h
            · cases h
            · exact hjoined (by simpa using ⟨by simpa using hlast, by simpa using hwide⟩)
        | succ k =>
            intro h
            rw [List.take_succ_cons, List.drop_succ_cons] at h
            refine ih c (Nat.lt_of_succ_lt_succ hk) ?_
            rcases h with h | h | h
            · cases h
            · exact .inr (.inl h)
            · exact .inr (.inr (by rwa [List.getLast?_cons_cons] at h))

/-- What stands before the last character decides nothing. -/
theorem parted_append_cons {before : List Char} {c : Char} {cs after : List Char} :
    Parted wide (before ++ c :: cs) after ↔ Parted wide (c :: cs) after := by
  simp [Parted, List.getLast?_append, List.getLast?_cons]

theorem clusterEnd_of_drop {first : Char} {rest : List Char} (h : text.drop position = first :: rest) :
    clusterEnd wide text position = position + 1 + clusterRest wide (first == ZWJ) rest := by
  rw [clusterEnd, h]

/-- The halves of a text some characters behind the one at a position. -/
theorem halves_of_drop {first : Char} {rest : List Char} (h : text.drop position = first :: rest) (k : ℕ) :
    text.take (position + 1 + k) = text.take position ++ first :: rest.take k ∧
      text.drop (position + 1 + k) = rest.drop k := by
  have hlength : (text.take position).length = position := by
    rw [List.length_take, Nat.min_eq_left]
    by_contra hlt
    rw [List.drop_of_length_le (by omega)] at h
    cases h
  have htext : text = text.take position ++ first :: rest := by rw [← h, List.take_append_drop]
  constructor
  · conv_lhs => rw [htext]
    rw [List.take_append, hlength, show position + 1 + k - position = k + 1 by omega, List.take_succ_cons,
      List.take_of_length_le (by omega)]
  · conv_lhs => rw [htext]
    rw [List.drop_append, hlength, show position + 1 + k - position = k + 1 by omega, List.drop_succ_cons,
      List.drop_of_length_le (by omega), List.nil_append]

/-- The end of a cluster parts the text. -/
theorem parted_clusterEnd (position : ℕ) :
    Parted wide (text.take (clusterEnd wide text position)) (text.drop (clusterEnd wide text position)) := by
  cases h : text.drop position with
  | nil =>
      rw [clusterEnd, h]
      exact .inr (.inl h)
  | cons first rest =>
      obtain ⟨htake, hdrop⟩ := halves_of_drop h (clusterRest wide (first == ZWJ) rest)
      rw [clusterEnd_of_drop h, htake, hdrop]
      exact parted_append_cons.2 (parted_clusterRest first rest)

/-- The cluster at a position goes no further than the next place where the text is parted. -/
theorem clusterEnd_le_of_parted {cut : ℕ} (hlt : position < cut) (hcut : cut ≤ text.length)
    (h : Parted wide (text.take cut) (text.drop cut)) :
    position < clusterEnd wide text position ∧ clusterEnd wide text position ≤ cut := by
  cases hdrop : text.drop position with
  | nil =>
      have := congrArg List.length hdrop
      simp only [List.length_drop, List.length_nil] at this
      omega
  | cons first rest =>
      rw [clusterEnd_of_drop hdrop]
      refine ⟨by omega, ?_⟩
      by_contra hover
      obtain ⟨k, rfl⟩ := Nat.exists_eq_add_of_le (Nat.succ_le_of_lt hlt)
      obtain ⟨htake, hdrop'⟩ := halves_of_drop hdrop k
      rw [Nat.succ_eq_add_one, htake, hdrop', parted_append_cons] at h
      exact not_parted_of_lt_clusterRest first rest (by omega) h

/-- **A cluster ends where the text is parted**: the characters around a place tell. -/
theorem onCluster_iff (h : position ≤ text.length) :
    OnCluster wide text position ↔ Parted wide (text.take position) (text.drop position) := by
  constructor
  · intro hon
    cases hon with
    | start => exact .inl rfl
    | next _ => exact parted_clusterEnd _
  · intro hparted
    -- from any cluster before it the walk comes to the place
    suffices hwalk : ∀ left start, OnCluster wide text start → start ≤ position → position - start = left →
        OnCluster wide text position from hwalk _ 0 .start (Nat.zero_le position) rfl
    intro left
    induction left using Nat.strongRecOn with
    | ind left ih =>
        intro start hstart hle hleft
        rcases Nat.lt_or_eq_of_le hle with hlt | rfl
        · obtain ⟨hmore, hend⟩ := clusterEnd_le_of_parted hlt h hparted
          exact ih _ (by omega) _ hstart.next hend rfl
        · exact hstart

/-! ### The start of the cluster before -/

/-- What the walk to a position ends at: a cluster that reaches it. -/
theorem clusterStart_spec (hpos : 0 < position) (h : position ≤ text.length) :
    OnCluster wide text (clusterStart wide text position) ∧ clusterStart wide text position < position ∧
      position ≤ clusterEnd wide text (clusterStart wide text position) := by
  suffices hgo : ∀ fuel start, OnCluster wide text start → start < position → position ≤ start + fuel →
      OnCluster wide text (clusterStart.go wide text position fuel start) ∧
        clusterStart.go wide text position fuel start < position ∧
        position ≤ clusterEnd wide text (clusterStart.go wide text position fuel start) from
    hgo position 0 .start hpos (by omega)
  intro fuel
  induction fuel with
  | zero =>
      intro start _ hlt hfuel
      omega
  | succ fuel ih =>
      intro start hstart hlt hfuel
      rw [clusterStart.go, if_pos hlt]
      split
      · exact ⟨hstart, hlt, ‹_›⟩
      · rename_i hshort
        have hmore : start < clusterEnd wide text start := by
          have hwhole : Parted wide (text.take text.length) (text.drop text.length) := .inr (.inl (by simp))
          exact (clusterEnd_le_of_parted (by omega) (Nat.le_refl _) hwhole).1
        exact ih _ hstart.next (by omega) (by omega)

/-- **A cell to the left and one to the right lead back**, from where a cluster ends. -/
theorem clusterEnd_clusterStart (hpos : 0 < position) (h : position ≤ text.length)
    (hon : OnCluster wide text position) :
    clusterEnd wide text (clusterStart wide text position) = position := by
  obtain ⟨-, hlt, hreach⟩ : OnCluster wide text _ ∧ _ := clusterStart_spec hpos h
  exact Nat.le_antisymm (clusterEnd_le_of_parted hlt h ((onCluster_iff h).1 hon)).2 hreach

/-! ### The edits -/

/-- What is done to a line, by a key or by what accepts a ghost and recalls a line. -/
inductive Op where
  | insert (c : Char)
  | insertStr (s : String)
  | backspace
  | deleteWord
  | deleteToStart
  | left
  | right
  | home
  | «end»
  | set (text : String)
  deriving DecidableEq

namespace Input

variable (wide) in
def apply (i : Input) : Op → Input
  | .insert c => i.insert c
  | .insertStr s => i.insertStr s
  | .backspace => i.backspace
  | .deleteWord => i.deleteWord
  | .deleteToStart => i.deleteToStart
  | .left => left wide i
  | .right => right wide i
  | .home => i.home
  | .end => i.end
  | .set text => set text

@[simp] theorem before_of (before after : List Char) : (of before after).before = before := by
  simp [Input.before, of]

@[simp] theorem after_of (before after : List Char) : (of before after).after = after := by
  simp [Input.after, of]

variable (wide) in
/-- An edit that joins nothing across the cursor: with characters behind it, an insertion does not end in a
joiner, nor bring a character without a cell to what was put at the start, and a deletion leaves no joiner
before it. -/
def Apart (i : Input) : Op → Prop
  | .insert c => i.after = [] ∨ c ≠ ZWJ ∧ (i.before = [] → i.after.head?.all wide)
  | .insertStr s =>
      s = "" ∨ i.after = [] ∨ s.toList.getLast? ≠ some ZWJ ∧ (i.before = [] → i.after.head?.all wide)
  | .backspace => i.after = [] ∨ i.before.dropLast.getLast? ≠ some ZWJ
  | _ => True

theorem apart_insert_iff {i : Input} {c : Char} :
    i.Apart wide (.insert c) ↔ i.after = [] ∨ c ≠ ZWJ ∧ (i.before = [] → i.after.head?.all wide) := Iff.rfl

theorem apart_insertStr_iff {i : Input} {s : String} :
    i.Apart wide (.insertStr s) ↔
      s = "" ∨ i.after = [] ∨ s.toList.getLast? ≠ some ZWJ ∧ (i.before = [] → i.after.head?.all wide) := Iff.rfl

theorem apart_backspace_iff {i : Input} :
    i.Apart wide .backspace ↔ i.after = [] ∨ i.before.dropLast.getLast? ≠ some ZWJ := Iff.rfl

/-- Behind a cursor that is not at the start, a parted text goes on with a character that takes a cell. -/
theorem head_wide {before after : List Char} (h : Parted wide before after) (hne : before ≠ []) :
    after.head?.all wide := by
  rcases h with h | rfl | h
  · exact absurd h hne
  · rfl
  · exact h.2

/-- Characters put before the cursor, the last of them known. -/
theorem parted_insert_iff {i : Input} (h : Parted wide i.before i.after) {cs : List Char} (hcs : cs ≠ []) :
    Parted wide (i.before ++ cs) i.after ↔
      i.after = [] ∨ cs.getLast? ≠ some ZWJ ∧ (i.before = [] → i.after.head?.all wide) := by
  obtain ⟨c, cs, rfl⟩ := List.exists_cons_of_ne_nil hcs
  rw [parted_append_cons]
  constructor
  · rintro (hnil | hnil | ⟨hlast, hwide⟩)
    · cases hnil
    · exact .inl hnil
    · exact .inr ⟨hlast, fun _ => hwide⟩
  · rintro (hnil | ⟨hlast, hwide⟩)
    · exact .inr (.inl hnil)
    · by_cases hstart : i.before = []
      · exact .inr (.inr ⟨hlast, hwide hstart⟩)
      · exact .inr (.inr ⟨hlast, head_wide h hstart⟩)

/-- The word before the cursor goes back to a blank or to the start. -/
theorem parted_deleteWord {i : Input} (h : Parted wide i.before i.after) :
    Parted wide i.deleteWord.before i.deleteWord.after := by
  rw [deleteWord, before_of, after_of]
  have hblank := List.head?_dropWhile_not (· != ' ') (i.before.reverse.dropWhile (· == ' '))
  by_cases hstart : i.before = []
  · exact .inl (by simp [hstart])
  · refine .inr (.inr ⟨?_, head_wide h hstart⟩)
    rw [List.getLast?_reverse]
    intro hjoiner
    rw [hjoiner] at hblank
    exact absurd hblank (by decide)

theorem parted_left (i : Input) : Parted wide (left wide i).before (left wide i).after := by
  rcases Nat.eq_zero_or_pos i.cursor with hstart | hpos
  · have hzero : (left wide i).cursor = 0 := by
      show clusterStart wide i.text.toList i.cursor = 0
      rw [hstart]
      rfl
    exact .inl (by rw [Input.before, hzero, List.take_zero])
  · exact (onCluster_iff (left wide i).within).1 (clusterStart_spec hpos i.within).1

/-- **An edit leaves the cursor between two clusters exactly when it is apart.** -/
theorem parted_apply_iff {i : Input} (h : Parted wide i.before i.after) (op : Op) :
    Parted wide (i.apply wide op).before (i.apply wide op).after ↔ i.Apart wide op := by
  cases op with
  | insert c =>
      rw [apply, insert, before_of, after_of, parted_insert_iff h (List.cons_ne_nil c [])]
      simp [apart_insert_iff]
  | insertStr s =>
      rw [apply, insertStr, before_of, after_of, apart_insertStr_iff]
      by_cases hs : s = ""
      · simpa [hs] using h
      · rw [parted_insert_iff h (by simpa using hs)]
        simp [hs]
  | backspace =>
      rw [apply, backspace, before_of, after_of, apart_backspace_iff]
      constructor
      · rintro (hnil | hnil | hlast)
        · exact .inr (by simp [hnil])
        · exact .inl hnil
        · exact .inr hlast.1
      · rintro (hnil | hlast)
        · exact .inr (.inl hnil)
        · by_cases hstart : i.before = []
          · exact .inl (by simp [hstart])
          · exact .inr (.inr ⟨hlast, head_wide h hstart⟩)
  | deleteWord => exact iff_of_true (parted_deleteWord h) trivial
  | deleteToStart => exact iff_of_true (.inl (by simp [apply, deleteToStart])) trivial
  | left => exact iff_of_true (parted_left i) trivial
  | right => exact iff_of_true (parted_clusterEnd i.cursor) trivial
  | home => exact iff_of_true (.inl rfl) trivial
  | «end» => exact iff_of_true (.inr (.inl (by simp [apply, Input.end, Input.after]))) trivial
  | set text => exact iff_of_true (.inr (.inl (by simp [apply, set, Input.after]))) trivial

end Input

end Nutsh.Palette
