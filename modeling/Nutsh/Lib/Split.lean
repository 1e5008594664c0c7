/-
The pieces of a list between the occurrences of an element.

* `Split.exists_mem_splitOn_iff` — what the pieces are made of;
* `Split.infix_of_mem_splitOn` — every piece stands in the list;
* `Split.splitOn_concat` — an element that is appended goes into the last piece;
* `Split.cut_last` — where the last occurrence is;
* `Split.Run` — some pieces in a row, and the beginning of the one behind them;
* `Split.run_iff` — where such a run stands in a list of pieces.
-/
import Mathlib.Data.List.Infix

set_option relaxedAutoImplicit false
set_option autoImplicit false

namespace Split

section
variable {α : Type} [BEq α] [LawfulBEq α] {a c : α} {l : List α}

theorem exists_mem_splitOn_iff : (∃ piece ∈ l.splitOn a, c ∈ piece) ↔ c ∈ l ∧ c ≠ a := by
  induction l with
  | nil => simp
  | cons x l ih =>
      rw [List.splitOn_cons_eq_if_modifyHead]
      by_cases hx : x = a
      · subst hx
        simp only [beq_self_eq_true, if_true, List.mem_cons, exists_eq_or_imp, List.not_mem_nil, false_or,
          ih]
        constructor
        · rintro ⟨hc, hne⟩
          exact ⟨.inr hc, hne⟩
        · rintro ⟨rfl | hc, hne⟩
          · exact absurd rfl hne
          · exact ⟨hc, hne⟩
      · cases hl : l.splitOn a with
        | nil => exact absurd hl (List.splitOn_ne_nil a l)
        | cons piece rest =>
            rw [hl] at ih
            simp only [List.mem_cons, exists_eq_or_imp] at ih
            simp only [beq_iff_eq, hx, if_false, List.modifyHead_cons, List.mem_cons, exists_eq_or_imp]
            rw [or_assoc, ih]
            constructor
            · rintro (rfl | ⟨hc, hne⟩)
              · exact ⟨.inl rfl, hx⟩
              · exact ⟨.inr hc, hne⟩
            · rintro ⟨rfl | hc, hne⟩
              · exact .inl rfl
              · exact .inr ⟨hc, hne⟩

/-- The first piece begins the list, and every piece stands in it. -/
theorem prefix_and_infix_of_splitOn {piece : List α} {rest : List (List α)}
    (h : l.splitOn a = piece :: rest) : piece <+: l ∧ ∀ p ∈ rest, p <:+: l := by
  induction l generalizing piece rest with
  | nil =>
      obtain ⟨rfl, rfl⟩ : [] = piece ∧ [] = rest := by simpa using h
      exact ⟨List.nil_prefix, by simp⟩
  | cons x l ih =>
      obtain ⟨first, others, hl⟩ := List.exists_cons_of_ne_nil (List.splitOn_ne_nil a l)
      obtain ⟨hfirst, hothers⟩ := ih hl
      rw [List.splitOn_cons_eq_if_modifyHead, hl] at h
      by_cases hx : x = a
      · simp only [hx, beq_self_eq_true, if_true, List.cons.injEq] at h
        obtain ⟨rfl, rfl⟩ := h
        refine ⟨List.nil_prefix, fun p hp => ?_⟩
        rcases List.mem_cons.1 hp with rfl | hp
        · exact List.infix_cons hfirst.isInfix
        · exact List.infix_cons (hothers p hp)
      · simp only [beq_iff_eq, hx, if_false, List.modifyHead_cons, List.cons.injEq] at h
        obtain ⟨rfl, rfl⟩ := h
        exact ⟨(List.prefix_cons_inj x).2 hfirst, fun p hp => List.infix_cons (hothers p hp)⟩

theorem infix_of_mem_splitOn {piece : List α} (h : piece ∈ l.splitOn a) : piece <:+: l := by
  obtain ⟨first, rest, hl⟩ := List.exists_cons_of_ne_nil (List.splitOn_ne_nil a l)
  obtain ⟨hfirst, hrest⟩ := prefix_and_infix_of_splitOn hl
  rw [hl] at h
  rcases List.mem_cons.1 h with rfl | h
  · exact hfirst.isInfix
  · exact hrest piece h

/-- Another element that is appended goes into the last piece. -/
theorem splitOn_concat (h : c ≠ a) {front : List (List α)} {last : List α}
    (hl : l.splitOn a = front ++ [last]) : (l ++ [c]).splitOn a = front ++ [last ++ [c]] := by
  induction l generalizing front last with
  | nil =>
      obtain ⟨rfl, rfl⟩ : front = [] ∧ last = [] := by
        cases front <;> simp_all
      simp [List.splitOn_cons_eq_if_modifyHead, h]
  | cons x l ih =>
      rw [List.splitOn_cons_eq_if_modifyHead] at hl
      rw [List.cons_append, List.splitOn_cons_eq_if_modifyHead]
      by_cases hx : x = a
      · simp only [hx, beq_self_eq_true, if_true] at hl ⊢
        cases front with
        | nil => exact absurd (List.cons.inj hl).2 (List.splitOn_ne_nil a l)
        | cons piece front =>
            obtain ⟨rfl, hrest⟩ := List.cons.inj hl
            rw [ih hrest, List.cons_append]
      · simp only [beq_iff_eq, hx, if_false] at hl ⊢
        obtain ⟨front', last', hl'⟩ : ∃ front' last', l.splitOn a = front' ++ [last'] :=
          ⟨_, _, (List.dropLast_append_getLast (List.splitOn_ne_nil a l)).symm⟩
        rw [ih hl']
        rw [hl'] at hl
        cases front' with
        | nil =>
            obtain ⟨rfl, rfl⟩ : front = [] ∧ last = x :: last' := by
              cases front <;> simp_all
            rfl
        | cons piece front' =>
            cases front with
            | nil => simp at hl
            | cons p front =>
                simp only [List.cons_append, List.modifyHead_cons, List.cons.injEq] at hl ⊢
                obtain ⟨rfl, hl⟩ := hl
                obtain ⟨rfl, hlast⟩ := List.append_inj' hl rfl
                rw [(List.cons.inj hlast).1]
                exact ⟨rfl, rfl⟩

/-- The element itself, when it is appended, leaves an empty piece behind it. -/
theorem splitOn_concat_self : (l ++ [a]).splitOn a = l.splitOn a ++ [[]] := by
  rw [List.splitOn_append_cons_self, List.splitOn_nil]

omit [BEq α] [LawfulBEq α] in
/-- A list is cut at the last occurrence of an element in one way. -/
theorem cut_last {front front' back back' : List α} (h : front ++ a :: back = front' ++ a :: back')
    (hback : a ∉ back) (hback' : a ∉ back') : front = front' ∧ back = back' := by
  rcases List.append_eq_append_iff.1 h with ⟨more, rfl, hmore⟩ | ⟨more, rfl, hmore⟩
  · cases more with
    | nil => exact ⟨by simp, (List.cons.inj hmore).2⟩
    | cons x more =>
        refine absurd ?_ hback
        rw [(List.cons.inj hmore).2]
        simp
  · cases more with
    | nil => exact ⟨by simp, (List.cons.inj hmore).2.symm⟩
    | cons x more =>
        refine absurd ?_ hback'
        rw [(List.cons.inj hmore).2]
        simp

theorem splitOn_cons_ne (h : c ≠ a) {piece : List α} {rest : List (List α)}
    (hl : l.splitOn a = piece :: rest) : (c :: l).splitOn a = (c :: piece) :: rest := by
  rw [List.splitOn_cons_eq_if_modifyHead, if_neg (by simpa using h), hl]
  rfl

end

/-! ### A run of pieces -/

variable {α : Type} {whole pieces : List (List α)} {last : List α}

/-- The pieces stand in a row, and the one behind them, where one is wanted, begins as it should. -/
def Run (whole : List (List α)) (last : List α) (pieces : List (List α)) : Prop :=
  ∃ before after, pieces = before ++ whole ++ after ∧ (last ≠ [] → ∃ o rest, after = o :: rest ∧ last <+: o)

/-- A run, by the place it begins at. -/
theorem run_iff : Run whole last pieces ↔
    ∃ start, start + whole.length + (if last = [] then 0 else 1) ≤ pieces.length ∧
      (∀ i (h : i < whole.length), pieces[start + i]? = some (whole.get ⟨i, h⟩)) ∧
      (last ≠ [] → ∃ o, pieces[start + whole.length]? = some o ∧ last <+: o) := by
  constructor
  · rintro ⟨before, after, rfl, hlast⟩
    refine ⟨before.length, ?_, fun i h => ?_, fun hne => ?_⟩
    · by_cases hne : last = []
      · simp [hne]
      · obtain ⟨o, rest, rfl, -⟩ := hlast hne
        simp only [hne, if_false, List.length_append, List.length_cons]
        omega
    · rw [List.append_assoc, List.getElem?_append_right (by omega), Nat.add_sub_cancel_left,
        List.getElem?_append_left h]
      simp [h]
    · obtain ⟨o, rest, rfl, hbegins⟩ := hlast hne
      refine ⟨o, ?_, hbegins⟩
      rw [List.getElem?_append_right (by simp)]
      simp
  · rintro ⟨start, hlength, hwhole, hlast⟩
    have hbegins : whole <+: pieces.drop start := by
      refine List.prefix_iff_getElem?.2 fun i h => ?_
      rw [List.getElem?_drop, hwhole i h]
      rfl
    obtain ⟨after, hafter⟩ := hbegins
    refine ⟨pieces.take start, after, ?_, fun hne => ?_⟩
    · rw [List.append_assoc, hafter, List.take_append_drop]
    · obtain ⟨o, ho, hbegin⟩ := hlast hne
      have hat : (pieces.drop start)[whole.length]? = some o := by rw [List.getElem?_drop, ho]
      rw [← hafter, List.getElem?_append_right le_rfl, Nat.sub_self] at hat
      cases after with
      | nil => simp at hat
      | cons x rest => exact ⟨x, rest, rfl, by simpa using (by simpa using hat : x = o) ▸ hbegin⟩

end Split
