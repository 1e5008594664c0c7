/-
What a search finds while its term is typed.

A term that is one character longer finds no more rows as long as it is read as the shorter one was: as
text, whose lower case stands in that of the longer one, or as the octets of an address.  It goes on well
where digits become octets with a dot.  A term of octets that becomes text, though, is looked for in the
middle of an octet as well, and finds rows that the octets did not.

Main definitions:

* `Dotted.Octets` — a term as the octets it is made of;
* `Query.Narrows` — a character appended to a term leaves no row that was not there.

Main results:

* `Dotted.parse_eq_some_iff` — which terms are read as octets, and as which;
* `Dotted.isIn_iff` — octets are in an address as a run of its pieces;
* `Query.narrows_iff` — when a character appended narrows what is found;
* `Query.narrows_of_text` — a term of text is narrowed, unless it ends in an open sigma.
-/
import Nutsh.Lib.Casing
import Nutsh.Lib.Replace
import Nutsh.Lib.Split
import Nutsh.Search

set_option relaxedAutoImplicit false
set_option autoImplicit false

namespace Nutsh

namespace Dotted

variable {term address : String} {whole : List (List Char)} {last : List Char}

/-! ### Octets -/

/-- Digits, at least one. -/
def Octet (o : List Char) : Prop := o ≠ [] ∧ ∀ c ∈ o, c.isDigit = true

instance : DecidablePred Octet := fun _ => inferInstanceAs (Decidable (_ ∧ _))

/-- A term is these whole octets and the digits it ends on. -/
structure Octets (term : String) (whole : List (List Char)) (last : List Char) : Prop where
  split : term.toList.splitOn '.' = whole ++ [last]
  nonempty : whole ≠ []
  octets : ∀ o ∈ whole, Octet o
  digits : ∀ c ∈ last, c.isDigit = true

/-- The octets as a term names them. -/
def ofOctets (whole : List (List Char)) (last : List Char) : Dotted :=
  { whole := whole.map String.ofList
    trailing := if last = [] then none else some (String.ofList last) }

theorem parse_of_octets (h : Octets term whole last) : parse term = some (ofOctets whole last) := by
  have hmem (c : Char) := Split.exists_mem_splitOn_iff (a := '.') (c := c) (l := term.toList)
  obtain ⟨o, rest, rfl⟩ := List.exists_cons_of_ne_nil h.nonempty
  have hdot : '.' ∈ term.toList := by
    by_contra hnot
    have := h.split
    rw [List.splitOn_eq_singleton hnot] at this
    simp at this
  have hdigit : ∃ c ∈ term.toList, c.isDigit = true := by
    obtain ⟨hne, hall⟩ := h.octets o (by simp)
    obtain ⟨c, o', rfl⟩ := List.exists_cons_of_ne_nil hne
    exact ⟨c, ((hmem c).1 ⟨c :: o', by simp [h.split], List.mem_cons_self⟩).1, hall c List.mem_cons_self⟩
  have hall : ∀ c ∈ term.toList, c.isDigit = true ∨ c = '.' := by
    intro c hc
    by_cases hne : c = '.'
    · exact .inr hne
    · obtain ⟨piece, hpiece, hc⟩ := (hmem c).2 ⟨hc, hne⟩
      rw [h.split, List.mem_append, List.mem_singleton] at hpiece
      rcases hpiece with hpiece | rfl
      · exact .inl ((h.octets piece hpiece).2 c hc)
      · exact .inl (h.digits c hc)
  have hnone : ¬ ((o :: rest).map String.ofList).any (· == "") = true := by
    intro hany
    obtain ⟨s, hs, hempty⟩ := List.any_eq_true.1 hany
    obtain ⟨p, hp, rfl⟩ := List.mem_map.1 hs
    exact (h.octets p hp).1 (by simpa using hempty)
  have hpieces : Text.splitChar '.' term = (o :: rest).map String.ofList ++ [String.ofList last] := by
    rw [Text.splitChar, h.split, List.map_append, List.map_singleton]
  rw [parse, if_neg, if_neg, if_neg]
  · rw [hpieces, List.dropLast_concat, List.getLast?_concat]
    by_cases hlast : last = []
    · simp [ofOctets, hlast]
    · simp [ofOctets, hlast, Option.filter]
  · rwa [hpieces, List.dropLast_concat]
  · rw [Bool.not_eq_true', Bool.not_eq_false, List.all_eq_true]
    intro c hc
    simpa using hall c hc
  · simpa [hdot] using hdigit

/-- **The terms that are read as octets**, and as which. -/
theorem parse_eq_some_iff {d : Dotted} :
    parse term = some d ↔ ∃ whole last, Octets term whole last ∧ d = ofOctets whole last := by
  constructor
  · intro h
    have hmem (c : Char) := Split.exists_mem_splitOn_iff (a := '.') (c := c) (l := term.toList)
    simp only [parse] at h
    split at h
    · cases h
    rename_i hboth
    split at h
    · cases h
    rename_i hall
    split at h
    · cases h
    rename_i hnone
    simp only [Bool.or_eq_true, Bool.not_eq_true', not_or, Bool.not_eq_false] at hboth
    simp only [Bool.not_eq_true', Bool.not_eq_false, List.all_eq_true, Bool.or_eq_true, beq_iff_eq] at hall
    obtain ⟨front, last, hsplit⟩ : ∃ front last, term.toList.splitOn '.' = front ++ [last] :=
      ⟨_, _, (List.dropLast_append_getLast (List.splitOn_ne_nil '.' term.toList)).symm⟩
    have hdigits (piece : List Char) (hpiece : piece ∈ front ++ [last]) : ∀ c ∈ piece, c.isDigit = true := by
      intro c hc
      obtain ⟨hc, hne⟩ := (hmem c).1 ⟨piece, hsplit ▸ hpiece, hc⟩
      exact (hall c hc).resolve_right hne
    refine ⟨front, last, ⟨hsplit, ?_, fun o ho => ⟨?_, hdigits o (by simp [ho])⟩, hdigits last (by simp)⟩, ?_⟩
    · rintro rfl
      have hdot : '.' ∈ term.toList := by simpa using hboth.1
      have hjoin : ['.'].intercalate (term.toList.splitOn '.') = term.toList := List.intercalate_splitOn '.'
      rw [hsplit] at hjoin
      have : '.' ∈ last := by simpa [← hjoin] using hdot
      exact absurd rfl ((hmem '.').1 ⟨last, by simp [hsplit], this⟩).2
    · rintro rfl
      refine hnone (List.any_eq_true.2 ⟨"", ?_, rfl⟩)
      rw [Text.splitChar, hsplit, List.map_append, List.map_singleton, List.dropLast_concat]
      exact List.mem_map.2 ⟨[], ho, rfl⟩
    · simp only [Option.some.injEq] at h
      rw [← h, Text.splitChar, hsplit, List.map_append, List.map_singleton, List.dropLast_concat,
        List.getLast?_concat]
      by_cases hlast : last = []
      · simp [ofOctets, hlast]
      · simp [ofOctets, hlast, Option.filter]
  · rintro ⟨whole, last, h, rfl⟩
    exact parse_of_octets h

/-- **Octets are in an address** as a run of its pieces. -/
theorem isIn_iff (hsome : whole ≠ []) :
    (ofOctets whole last).isIn address = true ↔ Split.Run whole last (address.toList.splitOn '.') := by
  rw [Split.run_iff]
  have hpos := List.length_pos_iff.2 hsome
  have hwanted : (ofOctets whole last).whole.length + (if (ofOctets whole last).trailing.isSome then 1 else 0) =
      whole.length + if last = [] then 0 else 1 := by
    by_cases hlast : last = [] <;> simp [ofOctets, hlast]
  simp only [isIn, hwanted]
  have hget (i : ℕ) : (Text.splitChar '.' address)[i]? =
      ((address.toList.splitOn '.')[i]?).map String.ofList := by
    rw [Text.splitChar, List.getElem?_map]
  have hlength : (Text.splitChar '.' address).length = (address.toList.splitOn '.').length := by
    rw [Text.splitChar, List.length_map]
  have hwhole (start : ℕ) : ((ofOctets whole last).whole.zipIdx.all fun o =>
      (Text.splitChar '.' address)[start + o.2]? == some o.1) = true ↔
        ∀ i (h : i < whole.length), (address.toList.splitOn '.')[start + i]? = some (whole.get ⟨i, h⟩) := by
    rw [List.all_eq_true]
    constructor
    · intro h i hi
      have hi' : (String.ofList (whole.get ⟨i, hi⟩), i) ∈ (ofOctets whole last).whole.zipIdx := by
        rw [List.mem_zipIdx_iff_getElem?]
        simp [ofOctets, hi]
      have := h _ hi'
      rw [beq_iff_eq, hget, Option.map_eq_some_iff] at this
      obtain ⟨o, ho, heq⟩ := this
      rw [ho, String.ofList_injective heq]
    · intro h o ho
      rw [List.mem_zipIdx_iff_getElem?] at ho
      simp only [ofOctets, List.getElem?_map, Option.map_eq_some_iff] at ho
      obtain ⟨octet, hoctet, heq⟩ := ho
      obtain ⟨hi, rfl⟩ := List.getElem?_eq_some_iff.1 hoctet
      rw [hget, h _ hi]
      simp [heq]
  have hlast (start : ℕ) : ((ofOctets whole last).trailing.all fun p =>
      ((Text.splitChar '.' address)[start + (ofOctets whole last).whole.length]?).any (Text.startsWith p)) = true ↔
        (last ≠ [] → ∃ o, (address.toList.splitOn '.')[start + whole.length]? = some o ∧ last <+: o) := by
    rw [hget]
    by_cases hlast : last = []
    · simp [ofOctets, hlast]
    · cases hat : (address.toList.splitOn '.')[start + whole.length]? <;>
        simp [ofOctets, hlast, hat, Text.startsWith, List.isPrefixOf_iff_prefix]
  generalize hsize : whole.length + (if last = [] then 0 else 1) = wanted
  split
  · rename_i hshort
    refine iff_of_false (by simp) ?_
    rintro ⟨start, hle, -⟩
    simp only [hlength, Bool.or_eq_true, decide_eq_true_eq] at hshort
    omega
  · rename_i hlong
    rw [List.any_eq_true]
    constructor
    · rintro ⟨start, hstart, h⟩
      rw [Bool.and_eq_true, hwhole, hlast] at h
      rw [List.mem_range, hlength] at hstart
      simp only [hlength, Bool.or_eq_true, decide_eq_true_eq] at hlong
      exact ⟨start, by omega, h⟩
    · rintro ⟨start, hle, h⟩
      refine ⟨start, ?_, ?_⟩
      · rw [List.mem_range, hlength]
        omega
      · rw [Bool.and_eq_true, hwhole, hlast]
        exact h
/-- A term of octets begins with a digit. -/
theorem Octets.exists_cons (h : Octets term whole last) :
    ∃ d rest, term.toList = d :: rest ∧ d.isDigit = true := by
  obtain ⟨o, octets, rfl⟩ := List.exists_cons_of_ne_nil h.nonempty
  obtain ⟨hne, hdigits⟩ := h.octets o (by simp)
  obtain ⟨d, o, rfl⟩ := List.exists_cons_of_ne_nil hne
  obtain ⟨rest, hrest⟩ := (Split.prefix_and_infix_of_splitOn h.split).1
  exact ⟨d, o ++ rest, hrest.symm, hdigits d (by simp)⟩

/-! ### A character appended -/

variable {c : Char}

theorem Octets.push_digit (h : Octets term whole last) (hc : c.isDigit = true) :
    Octets (term.push c) whole (last ++ [c]) where
  split := by
    rw [String.toList_push]
    refine Split.splitOn_concat ?_ h.split
    rintro rfl
    exact absurd hc (by decide)
  nonempty := h.nonempty
  octets := h.octets
  digits := by
    intro d hd
    rcases List.mem_append.1 hd with hd | hd
    · exact h.digits d hd
    · rwa [List.mem_singleton.1 hd]

theorem Octets.push_dot (h : Octets term whole last) (hlast : last ≠ []) :
    Octets (term.push '.') (whole ++ [last]) [] where
  split := by rw [String.toList_push, Split.splitOn_concat_self, h.split]
  nonempty := by simp
  octets := by
    intro o ho
    rcases List.mem_append.1 ho with ho | ho
    · exact h.octets o ho
    · rw [List.mem_singleton.1 ho]
      exact ⟨hlast, h.digits⟩
  digits := by simp

/-- A term is the octets before its last character with that one added, or as it stands. -/
theorem Octets.of_push (h : Octets (term.push c) whole last) :
    (c.isDigit = true ∧ ∃ last', last = last' ++ [c] ∧ Octets term whole last') ∨
      (c = '.' ∧ last = [] ∧ term.toList.splitOn '.' = whole) := by
  have hsplit := h.split
  rw [String.toList_push] at hsplit
  by_cases hc : c = '.'
  · rw [hc, Split.splitOn_concat_self] at hsplit
    obtain ⟨hwhole, hlast⟩ := List.append_inj' hsplit rfl
    exact .inr ⟨hc, (List.cons.inj hlast).1.symm, hwhole⟩
  · obtain ⟨front, last', hterm⟩ : ∃ front last', term.toList.splitOn '.' = front ++ [last'] :=
      ⟨_, _, (List.dropLast_append_getLast (List.splitOn_ne_nil '.' term.toList)).symm⟩
    rw [Split.splitOn_concat hc hterm] at hsplit
    obtain ⟨rfl, hlast⟩ := List.append_inj' hsplit rfl
    obtain rfl : last' ++ [c] = last := (List.cons.inj hlast).1
    refine .inl ⟨h.digits c (by simp), last', rfl, hterm, h.nonempty, h.octets, fun d hd => ?_⟩
    exact h.digits d (by simp [hd])

/-- A term of octets goes on with a digit, or with a dot behind a digit. -/
theorem Octets.isSome_parse_push_iff (h : Octets term whole last) :
    (parse (term.push c)).isSome = true ↔ c.isDigit = true ∨ c = '.' ∧ last ≠ [] := by
  constructor
  · intro hsome
    obtain ⟨d, hd⟩ := Option.isSome_iff_exists.1 hsome
    obtain ⟨whole', last', hpush, -⟩ := parse_eq_some_iff.1 hd
    rcases hpush.of_push with ⟨hc, -⟩ | ⟨hc, -, hterm⟩
    · exact .inl hc
    · refine .inr ⟨hc, ?_⟩
      have hlast : last ∈ whole' := by simp [← hterm, h.split]
      exact (hpush.octets last hlast).1
  · rintro (hc | ⟨rfl, hlast⟩)
    · rw [parse_of_octets (h.push_digit hc)]
      rfl
    · rw [parse_of_octets (h.push_dot hlast)]
      rfl

/-- Nothing stands behind the last dot exactly when the term ends in it. -/
theorem Octets.last_eq_nil_iff (h : Octets term whole last) :
    last = [] ↔ term.toList.getLast? = some '.' := by
  rcases List.eq_nil_or_concat term.toList with hterm | ⟨front, x, hterm⟩
  · have hsplit := h.split
    rw [hterm, List.splitOn_nil] at hsplit
    have happend : [] ++ [[]] = whole ++ [last] := hsplit
    exact absurd (List.append_inj' happend rfl).1.symm h.nonempty
  · rw [List.concat_eq_append] at hterm
    have hsplit := h.split
    rw [hterm] at hsplit ⊢
    rw [List.getLast?_concat, Option.some.injEq]
    by_cases hx : x = '.'
    · rw [hx, Split.splitOn_concat_self] at hsplit
      simp [hx, ← (List.cons.inj (List.append_inj' hsplit rfl).2).1]
    · obtain ⟨pieces, piece, hfront⟩ : ∃ pieces piece, front.splitOn '.' = pieces ++ [piece] :=
        ⟨_, _, (List.dropLast_append_getLast (List.splitOn_ne_nil '.' front)).symm⟩
      rw [Split.splitOn_concat hx hfront] at hsplit
      simp [hx, ← (List.cons.inj (List.append_inj' hsplit rfl).2).1]

/-- A term that becomes octets is a whole one, with a dot behind it. -/
theorem octet_of_parse_push {d : Dotted} (hnone : parse term = none) (h : parse (term.push c) = some d) :
    Octet term.toList ∧ c = '.' ∧ d = ofOctets [term.toList] [] := by
  obtain ⟨whole, last, hpush, rfl⟩ := parse_eq_some_iff.1 h
  rcases hpush.of_push with ⟨-, last', -, hterm⟩ | ⟨hc, rfl, hterm⟩
  · rw [parse_of_octets hterm] at hnone
    cases hnone
  · rcases List.eq_nil_or_concat whole with rfl | ⟨front, o, rfl⟩
    · exact absurd rfl hpush.nonempty
    · cases front with
      | nil =>
          have hjoin : ['.'].intercalate (term.toList.splitOn '.') = term.toList := List.intercalate_splitOn '.'
          obtain rfl : o = term.toList := by simpa [hterm] using hjoin
          exact ⟨hpush.octets _ (by simp), hc, rfl⟩
      | cons p front =>
          rw [List.concat_eq_append] at hterm hpush
          have ho := hpush.octets o (by simp)
          have : Octets term (p :: front) o :=
            ⟨hterm, by simp, fun x hx => hpush.octets x (List.mem_append_left _ hx), ho.2⟩
          rw [parse_of_octets this] at hnone
          cases hnone

/-- Octets that go on as octets are in no more addresses. -/
theorem Octets.isIn_of_push (h : Octets term whole last) {d : Dotted} (hd : parse (term.push c) = some d)
    (hin : d.isIn address = true) : (ofOctets whole last).isIn address = true := by
  rw [isIn_iff h.nonempty]
  obtain hc | ⟨rfl, hlast⟩ := (h.isSome_parse_push_iff (c := c)).1 (by rw [hd]; rfl)
  · rw [parse_of_octets (h.push_digit hc), Option.some.injEq] at hd
    rw [← hd, isIn_iff h.nonempty] at hin
    obtain ⟨before, after, hpieces, hbehind⟩ := hin
    refine ⟨before, after, hpieces, fun _ => ?_⟩
    obtain ⟨o, rest, hafter, hbegins⟩ := hbehind (by simp)
    exact ⟨o, rest, hafter, (List.prefix_append _ _).trans hbegins⟩
  · rw [parse_of_octets (h.push_dot hlast), Option.some.injEq] at hd
    rw [← hd, isIn_iff (by simp)] at hin
    obtain ⟨before, after, hpieces, -⟩ := hin
    refine ⟨before, last :: after, ?_, fun _ => ⟨last, after, rfl, List.prefix_rfl⟩⟩
    simpa using hpieces

/-- Behind the octets of a term that does not go on as octets stands no octet. -/
theorem Octets.split_push (h : Octets term whole last) (hpush : parse (term.push c) = none) :
    ∃ rest, (term.push c).toList.splitOn '.' = whole ++ rest ∧ ∀ o ∈ rest, ¬ Octet o := by
  have hnot : ¬ (c.isDigit = true ∨ c = '.' ∧ last ≠ []) := by
    rw [← h.isSome_parse_push_iff, hpush]
    simp
  obtain ⟨hdigit, hdot⟩ := not_or.1 hnot
  rw [String.toList_push]
  by_cases hc : c = '.'
  · obtain rfl : last = [] := by simpa [hc] using hdot
    refine ⟨[[], []], ?_, by simp [Octet]⟩
    rw [hc, Split.splitOn_concat_self, h.split]
    simp
  · refine ⟨[last ++ [c]], Split.splitOn_concat hc h.split, ?_⟩
    simp only [List.mem_singleton, forall_eq]
    rintro ⟨-, hdigits⟩
    exact hdigit (hdigits c (by simp))

/-- What does not go on as octets is text in an address in which the octets are not: the one that has a
digit in front of it. -/
theorem Octets.not_isIn (h : Octets term whole last) (hpush : parse (term.push c) = none) :
    (ofOctets whole last).isIn (String.ofList ('0' :: (term.push c).toList)) = false := by
  obtain ⟨rest, hsplit, hrest⟩ := h.split_push hpush
  obtain ⟨octet, octets, rfl⟩ := List.exists_cons_of_ne_nil h.nonempty
  rw [List.cons_append] at hsplit
  rw [← Bool.not_eq_true, isIn_iff h.nonempty, String.toList_ofList,
    Split.splitOn_cons_ne (by decide) hsplit]
  rintro ⟨before, after, hpieces, -⟩
  cases before with
  | nil =>
      have hlength := congrArg List.length (List.cons.inj hpieces).1
      simp at hlength
  | cons piece before =>
      simp only [List.cons_append] at hpieces
      -- Behind the first piece there is one octet fewer than the run has.
      have hcount := congrArg (List.countP fun o => decide (Octet o)) (List.cons.inj hpieces).2
      have hall : octets.countP (fun o => decide (Octet o)) = octets.length :=
        List.countP_eq_length.2 fun o ho => by simpa using h.octets o (by simp [ho])
      have hnone : rest.countP (fun o => decide (Octet o)) = 0 :=
        List.countP_eq_zero.2 fun o ho => by simpa using hrest o ho
      have hfirst : Octet octet := h.octets octet (by simp)
      simp only [List.countP_append, List.countP_cons, hall, hnone, decide_eq_true hfirst, if_true] at hcount
      omega

end Dotted

namespace Query

variable (k : Casing) (t : String) (c : Char)

/-- The rows the longer term names are among those the shorter one names. -/
def Narrows : Prop :=
  ∀ e : Entity, (new k.lower (t.push c)).matches k.lower e = true → (new k.lower t).matches k.lower e = true

variable {k t c} {lower : String → String} {q : Query} {e : Entity}

/-- What it takes to be named by a term. -/
theorem matches_iff : q.matches lower e = true ↔ q.needle = "" ∨ containsCi lower q.needle e.name = true ∨
    containsCi lower q.needle e.extId = true ∨
    ((e.raw.get "$context").bind Json.asStr).any (containsCi lower q.needle) = true ∨
    ∃ a ∈ addressesOf e, q.matchesAddress lower a.2 = true := by
  rw [«matches», why]
  split
  · rename_i h
    simp [isEmpty] at h
    simp [h]
  rename_i hne
  have hne : q.needle ≠ "" := by simpa [isEmpty] using hne
  split
  · rename_i h
    simp [h]
  rename_i hname
  split
  · rename_i h
    simp [h]
  rename_i hid
  split
  · rename_i h
    simp [h]
  rename_i hcontext
  simp only [hne, hname, hid, hcontext, Option.isSome_map, List.find?_isSome, false_or, Bool.false_eq_true]

theorem containsCi_trans {needle longer s : String} (h : needle.toList <:+: longer.toList)
    (hs : containsCi lower longer s = true) : containsCi lower needle s = true :=
  Text.contains_iff.2 (h.trans (Text.contains_iff.1 hs))

/-- A term whose needle stands in that of the longer one is narrowed, if it is so in each address. -/
theorem narrows_of (hneedle : (k.lower t).toList <:+: (k.lower (t.push c)).toList)
    (haddress : ∀ address, (new k.lower (t.push c)).matchesAddress k.lower address = true →
      (new k.lower t).matchesAddress k.lower address = true) : Narrows k t c := by
  intro e h
  rcases matches_iff.1 h with h | h | h | h | ⟨a, ha, h⟩
  · refine matches_iff.2 (.inl ?_)
    have hempty : k.lower (t.push c) = "" := h
    rw [hempty] at hneedle
    exact String.toList_eq_nil_iff.1 (List.eq_nil_of_infix_nil hneedle)
  · exact matches_iff.2 (.inr (.inl (containsCi_trans hneedle h)))
  · exact matches_iff.2 (.inr (.inr (.inl (containsCi_trans hneedle h))))
  · refine matches_iff.2 (.inr (.inr (.inr (.inl ?_))))
    rw [Option.any_eq_true] at h ⊢
    obtain ⟨s, hs, hcontains⟩ := h
    exact ⟨s, hs, containsCi_trans hneedle hcontains⟩
  · exact matches_iff.2 (.inr (.inr (.inr (.inr ⟨a, ha, haddress _ h⟩))))

/-- A row of a name. -/
def named (name : String) : Entity := { kind := vmKind, extId := "", name, raw := .obj [] }

/-- A row of an address. -/
def addressed (address : String) : Entity :=
  { kind := { vmKind with columns := [{ header := "IP", path := "ip", kind := .ip }] }
    extId := "", name := "", raw := .obj [("ip", .str address)] }

theorem matches_named (name : String) : q.matches lower (named name) = true ↔
    q.needle = "" ∨ containsCi lower q.needle name = true ∨ containsCi lower q.needle "" = true := by
  simp [matches_iff, named, addressesOf, addresses, vmKind, Json.get]

theorem matches_addressed (address : String) : q.matches lower (addressed address) = true ↔
    q.needle = "" ∨ containsCi lower q.needle "" = true ∨ q.matchesAddress lower address = true := by
  have hsplit : Text.splitChar '.' "ip" = ["ip"] := by decide
  have hplain : Text.stripSuffix "[]" "ip" = none := by decide
  have hpath : Path.get (.obj [("ip", .str address)]) "ip" = [.str address] := by
    simp [Path.get, hsplit, Path.child, hplain, Json.get]
  have haddresses : addressesOf (addressed address) = [("IP", address)] := by
    simp [addressesOf, addresses, addressed, vmKind, hpath, Json.asStr]
  have hcontext : (addressed address).raw.get "$context" = none := rfl
  rw [matches_iff, haddresses, hcontext]
  simp [addressed]

/-- A needle that stands in the longer one narrows what is found, if octets stay octets. -/
theorem narrows_of_octets (hneedle : (k.lower t).toList <:+: (k.lower (t.push c)).toList)
    (hdotted : (Dotted.parse t).isSome = true → c.isDigit = true ∨ c = '.' ∧ t.toList.getLast? ≠ some '.') :
    Narrows k t c := by
  refine narrows_of hneedle fun address h => ?_
  cases ht : Dotted.parse t with
  | some d =>
      obtain ⟨whole, last, hoctets, rfl⟩ := Dotted.parse_eq_some_iff.1 ht
      have hpush := hdotted (by simp [ht])
      rw [ne_eq, ← hoctets.last_eq_nil_iff, ← ne_eq, ← hoctets.isSome_parse_push_iff] at hpush
      obtain ⟨d, hd⟩ := Option.isSome_iff_exists.1 hpush
      simp only [matchesAddress, new, hd, ht] at h ⊢
      exact hoctets.isIn_of_push hd h
  | none =>
      cases hpush : Dotted.parse (t.push c) with
      | none =>
          simp only [matchesAddress, new, hpush, ht] at h ⊢
          exact containsCi_trans hneedle h
      | some d =>
          -- A whole octet of the address is digits, which are in its lower case as they stand.
          obtain ⟨hoctet, -, rfl⟩ := Dotted.octet_of_parse_push ht hpush
          simp only [matchesAddress, new, hpush, ht] at h ⊢
          obtain ⟨before, after, hpieces, -⟩ := (Dotted.isIn_iff (by simp)).1 h
          have hwithin : t.toList <:+: address.toList :=
            Split.infix_of_mem_splitOn (a := '.') (by simp [hpieces])
          have hlower : (k.lower t).toList = t.toList := by
            have := Casing.lowerFrom_digits (k := k) hoctet.2 [] []
            simpa [Casing.lowerFrom] using this
          rw [containsCi, Text.contains_iff, hlower, Casing.lower_toList]
          exact Casing.infix_lowerFrom hoctet.2 [] hwithin

/-- **When a character appended narrows what is found.** -/
theorem narrows_iff (k : Casing) (t : String) (c : Char) : Narrows k t c ↔
    (k.lower t).toList <:+: (k.lower (t.push c)).toList ∧
      ((Dotted.parse t).isSome = true → c.isDigit = true ∨ c = '.' ∧ t.toList.getLast? ≠ some '.') := by
  constructor
  · intro h
    refine ⟨?_, fun hsome => ?_⟩
    · have hlonger : (new k.lower (t.push c)).matches k.lower (named (t.push c)) = true :=
        (matches_named _).2 (.inr (.inl (Text.contains_self _)))
      rcases (matches_named _).1 (h _ hlonger) with hempty | hname | hnone
      · have hempty : k.lower t = "" := hempty
        simp [hempty]
      · exact Text.contains_iff.1 hname
      · have hwithin := Text.contains_iff.1 hnone
        have hnil : (k.lower t).toList = [] := List.eq_nil_of_infix_nil hwithin
        rw [hnil]
        exact List.nil_infix
    · obtain ⟨d, hd⟩ := Option.isSome_iff_exists.1 hsome
      obtain ⟨whole, last, hoctets, rfl⟩ := Dotted.parse_eq_some_iff.1 hd
      rw [ne_eq, ← hoctets.last_eq_nil_iff, ← ne_eq, ← hoctets.isSome_parse_push_iff]
      by_contra hnone
      have hpush : Dotted.parse (t.push c) = none := by simpa using hnone
      have hlonger : (new k.lower (t.push c)).matches k.lower
          (addressed (String.ofList ('0' :: (t.push c).toList))) = true := by
        refine (matches_addressed _).2 (.inr (.inr ?_))
        simp only [matchesAddress, new, hpush, containsCi]
        rw [Text.contains_iff, Casing.lower_toList, Casing.lower_toList, String.toList_ofList,
          Casing.lowerFrom_cons_digit (by decide)]
        exact List.infix_cons List.infix_rfl
      have hneedle : (k.lower t).toList ≠ [] := by
        obtain ⟨d, rest, ht, hdigit⟩ := hoctets.exists_cons
        rw [Casing.lower_toList, ht, Casing.lowerFrom_cons_digit hdigit]
        exact List.cons_ne_nil _ _
      rcases (matches_addressed _).1 (h _ hlonger) with hempty | hname | haddress
      · have hempty : k.lower t = "" := hempty
        exact hneedle (by simp [hempty])
      · exact hneedle (List.eq_nil_of_infix_nil (Text.contains_iff.1 hname))
      · simp only [matchesAddress, new, hd, hoctets.not_isIn hpush] at haddress
        cases haddress
  · rintro ⟨hneedle, hdotted⟩
    exact narrows_of_octets hneedle hdotted

/-- A term of text is narrowed by any character, unless one with a case follows an open sigma. -/
theorem narrows_of_text (ht : Dotted.parse t = none)
    (hsigma : k.ignorableThenCased [c] = true → ¬ k.EndsOpen [] t.toList) : Narrows k t c := by
  refine narrows_of_octets ?_ (by simp [ht])
  rw [Casing.lower_toList, Casing.lower_toList, String.toList_push]
  exact (Casing.lowerFrom_prefix [] t.toList c hsigma).isInfix

/-- Octets that become text find what they did not: with a slash behind it, `92.0.2.0` is in `192.0.2.0/24`. -/
theorem not_narrows : ¬ ∀ (k : Casing) (t : String) (c : Char), Narrows k t c := by
  intro h
  have hlonger : (new Casing.plain.lower "92.0.2.0/").matches Casing.plain.lower
      (addressed "192.0.2.0/24") = true := by
    decide +kernel
  have hshorter := h Casing.plain "92.0.2.0" '/' (addressed "192.0.2.0/24") hlonger
  revert hshorter
  decide +kernel

end Query

end Nutsh
