/-
The labels of the leaves of a section are told apart.

Every label begins at the last segment of its path, and a label that is not alone takes one segment more in
each turn.  A turn that grows a label leaves fewer segments to take, so the loop ends; and where it ends a
label that is not alone has no segment left.

Main definitions:

* `lastHeads` — where the labels begin before the first turn;
* `growTurn` — a turn of the loop, over when nothing grew.

Main results:

* `sum_lt_of_growTurn` — a turn takes segments from what is left;
* `grow_of_run` — the labels are those of the end of the loop;
* `labelLeaves_apart` — **the loop ends, and only labels of whole paths are equal**.
-/
import Mathlib.Data.List.NodupEquivFin
import Nutsh.Detail
import Nutsh.Lib.Loop

set_option relaxedAutoImplicit false
set_option autoImplicit false

namespace Nutsh.Detail

variable (upper : Char → String)

/-! ### The turns -/

/-- The segments of each path, and the one its label begins at: the last one. -/
def lastHeads (paths : List String) : List (List String × ℕ) :=
  (paths.map (Text.splitChar '.')).map fun segments => (segments, segments.length - 1)

def headLabels (heads : List (List String × ℕ)) : List String := heads.map fun h => labelFrom upper h.1 h.2

/-- What a turn makes of one path. -/
def growHead (labels : List String) (h : List String × ℕ) : List String × ℕ :=
  if 0 < h.2 && 1 < labels.count (labelFrom upper h.1 h.2) then (h.1, h.2 - 1) else h

/-- A turn: every label that is not alone is grown, by what the labels were before the turn. -/
def growTurn (heads : List (List String × ℕ)) : Option (List (List String × ℕ)) :=
  let next := heads.map (growHead upper (headLabels upper heads))
  if next == heads then none else some next

variable {upper}

@[simp] theorem growHead_fst (labels : List String) (h : List String × ℕ) : (growHead upper labels h).1 = h.1 := by
  rw [growHead]
  split <;> rfl

theorem growHead_eq_or_lt (labels : List String) (h : List String × ℕ) :
    growHead upper labels h = h ∨ (growHead upper labels h).2 < h.2 := by
  rw [growHead]
  split
  · rename_i hgrows
    have hpos : 0 < h.2 := of_decide_eq_true (Bool.and_eq_true_iff.1 hgrows).1
    exact .inr (Nat.sub_lt hpos Nat.one_pos)
  · exact .inl rfl

theorem growTurn_eq_none_iff {heads : List (List String × ℕ)} :
    growTurn upper heads = none ↔ heads.map (growHead upper (headLabels upper heads)) = heads := by
  rw [growTurn]
  split
  · exact ⟨fun _ => eq_of_beq ‹_›, fun _ => rfl⟩
  · rename_i hne
    constructor
    · intro h
      cases h
    · exact fun h => absurd (beq_iff_eq.2 h) hne

theorem growTurn_eq_some {heads next : List (List String × ℕ)} (h : growTurn upper heads = some next) :
    heads.map (growHead upper (headLabels upper heads)) = next ∧ next ≠ heads := by
  rw [growTurn] at h
  split at h
  · cases h
  · rename_i hne
    obtain rfl := Option.some.inj h
    exact ⟨rfl, fun hsame => hne (beq_iff_eq.2 hsame)⟩

/-- The labels after the turns are those of the end of the loop: the last turn needs no fuel. -/
theorem grow_of_run {turns : ℕ} {heads ended : List (List String × ℕ)}
    (h : Loop.run (growTurn upper) (turns + 1) heads = some ended) :
    grow upper turns heads = headLabels upper ended := by
  induction turns generalizing heads with
  | zero =>
      rw [Loop.run] at h
      cases hturn : growTurn upper heads with
      | none =>
          rw [hturn] at h
          obtain rfl := Option.some.inj h
          rfl
      | some next =>
          rw [hturn] at h
          cases h
  | succ turns ih =>
      rw [Loop.run] at h
      cases hturn : growTurn upper heads with
      | none =>
          rw [hturn] at h
          obtain rfl := Option.some.inj h
          have hsame := growTurn_eq_none_iff.1 hturn
          exact if_pos (beq_iff_eq.2 hsame)
      | some next =>
          rw [hturn] at h
          obtain ⟨rfl, hne⟩ := growTurn_eq_some hturn
          exact (if_neg fun hsame => hne (eq_of_beq hsame)).trans (ih h)

/-! ### The segments that are left -/

/-- What is left after a turn is no more than before, and less when any path was changed. -/
theorem sum_map_of_eq_or_lt {g : List String × ℕ → List String × ℕ} (hg : ∀ h, g h = h ∨ (g h).2 < h.2)
    (heads : List (List String × ℕ)) :
    heads.map g = heads ∨ ((heads.map g).map Prod.snd).sum < (heads.map Prod.snd).sum := by
  induction heads with
  | nil => exact .inl rfl
  | cons h heads ih =>
      simp only [List.map_cons, List.sum_cons]
      rcases hg h with hh | hh
      · rcases ih with ih | ih
        · exact .inl (by rw [hh, ih])
        · exact .inr (by rw [hh]; omega)
      · rcases ih with ih | ih
        · exact .inr (by rw [ih]; omega)
        · exact .inr (by omega)

/-- A turn that is not the last takes segments from what is left, and leaves the paths what they are. -/
theorem sum_lt_of_growTurn {heads next : List (List String × ℕ)} (h : growTurn upper heads = some next) :
    next.map Prod.fst = heads.map Prod.fst ∧ (next.map Prod.snd).sum < (heads.map Prod.snd).sum := by
  obtain ⟨rfl, hne⟩ := growTurn_eq_some h
  refine ⟨by simp [Function.comp_def], ?_⟩
  exact (sum_map_of_eq_or_lt (growHead_eq_or_lt _) heads).resolve_left hne

/-! ### The end -/

/-- Where the loop is over a label that is not alone begins at the first segment. -/
theorem snd_eq_zero_of_growTurn {heads : List (List String × ℕ)} (hover : growTurn upper heads = none)
    {h : List String × ℕ} (hmem : h ∈ heads) (htwice : 1 < (headLabels upper heads).count (labelFrom upper h.1 h.2)) :
    h.2 = 0 := by
  have hall := growTurn_eq_none_iff.1 hover
  have hsame : growHead upper (headLabels upper heads) h = id h :=
    List.map_inj_left.1 (hall.trans (List.map_id heads).symm) h hmem
  by_contra hpos
  rw [growHead, if_pos (by simp [htwice, Nat.pos_of_ne_zero hpos])] at hsame
  have hless : h.2 - 1 = h.2 := congrArg Prod.snd hsame
  omega

/-- What stands at two places of a list stands there more than once. -/
theorem one_lt_count_of_getElem? {l : List String} {x : String} {i j : ℕ} (hij : i ≠ j) (hi : l[i]? = some x)
    (hj : l[j]? = some x) : 1 < l.count x := by
  obtain ⟨hil, rfl⟩ := List.getElem?_eq_some_iff.1 hi
  obtain ⟨hjl, hx⟩ := List.getElem?_eq_some_iff.1 hj
  refine List.duplicate_iff_two_le_count.1 (List.duplicate_iff_exists_distinct_get.2 ?_)
  rcases Nat.lt_or_gt_of_ne hij with hlt | hlt
  · exact ⟨⟨i, hil⟩, ⟨j, hjl⟩, hlt, rfl, hx.symm⟩
  · exact ⟨⟨j, hjl⟩, ⟨i, hil⟩, hlt, hx.symm, rfl⟩

/-- Where the loop is over two places with one label begin at the first segment. -/
theorem snd_eq_zero_of_same {heads : List (List String × ℕ)} (hover : growTurn upper heads = none) {i j : ℕ}
    (hij : i ≠ j) {a : List String × ℕ} (ha : heads[i]? = some a)
    (hsame : (headLabels upper heads)[i]? = (headLabels upper heads)[j]?) : a.2 = 0 := by
  have hlabel : (headLabels upper heads)[i]? = some (labelFrom upper a.1 a.2) := by
    rw [headLabels, List.getElem?_map, ha]
    rfl
  exact snd_eq_zero_of_growTurn hover (List.mem_of_getElem? ha)
    (one_lt_count_of_getElem? hij hlabel (hsame ▸ hlabel))

/-- **The loop ends, and only labels of whole paths are equal.**  After any more turns than there are segments
to take the loop is over, at the same end; the labels are those of the end, and of two leaves with equal labels
both begin at the first segment, so that each is the label of a whole path. -/
theorem labelLeaves_apart (upper : Char → String) (paths : List String) :
    ∃ ended, (∀ turns, ((lastHeads paths).map Prod.snd).sum < turns →
        Loop.run (growTurn upper) turns (lastHeads paths) = some ended) ∧
      ended.map Prod.fst = paths.map (Text.splitChar '.') ∧
      labelLeaves upper paths = headLabels upper ended ∧
      ∀ i j (hi : i < paths.length) (hj : j < paths.length), i ≠ j →
        (labelLeaves upper paths)[i]? = (labelLeaves upper paths)[j]? →
        ended[i]? = some (Text.splitChar '.' paths[i], 0) ∧ ended[j]? = some (Text.splitChar '.' paths[j], 0) := by
  obtain ⟨ended, hpaths, hover, hrun⟩ :=
    Loop.run_of_measure
      (I := fun heads => heads.map Prod.fst = paths.map (Text.splitChar '.'))
      (fun heads => (heads.map Prod.snd).sum)
      (fun heads next hI (hturn : growTurn upper heads = some next) =>
        ⟨(sum_lt_of_growTurn hturn).1.trans hI, (sum_lt_of_growTurn hturn).2⟩)
      (s := lastHeads paths) (by simp [lastHeads, Function.comp_def])
  have hlabels : labelLeaves upper paths = headLabels upper ended := grow_of_run (hrun _ (Nat.lt_succ_self _))
  refine ⟨ended, hrun, hpaths, hlabels, ?_⟩
  intro i j hi hj hij heq
  rw [hlabels] at heq
  have hat : ∀ k (hk : k < paths.length), ∃ head, ended[k]? = some (Text.splitChar '.' paths[k], head) := by
    intro k hk
    have hsegments : (ended.map Prod.fst)[k]? = some (Text.splitChar '.' paths[k]) := by
      rw [hpaths, List.getElem?_map, List.getElem?_eq_getElem hk]
      rfl
    rw [List.getElem?_map, Option.map_eq_some_iff] at hsegments
    obtain ⟨⟨segments, head⟩, hk, rfl⟩ := hsegments
    exact ⟨head, hk⟩
  obtain ⟨a, ha⟩ := hat i hi
  obtain ⟨b, hb⟩ := hat j hj
  obtain rfl : a = 0 := snd_eq_zero_of_same hover hij ha heq
  obtain rfl : b = 0 := snd_eq_zero_of_same hover (Ne.symm hij) hb heq.symm
  exact ⟨ha, hb⟩

end Nutsh.Detail
