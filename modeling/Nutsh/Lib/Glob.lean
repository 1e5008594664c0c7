/-
Matching a pattern with stars, with one place to come back to.

A pattern is walked along with the text.  At a star the place is remembered, and when the walk comes to
nothing it is taken up again behind the last star, which swallows one more element.  To remember the last
star is enough: what an earlier one could swallow more, the last one can swallow in its place.  The walk
comes to an end, since either less is left behind the last star, or as much of the text and less of the
pattern.

Main definitions:

* `Glob.Fits` — a text is a pattern with something in place of each star and one element for the rest;
* `Glob.State`, `Glob.step`, `Glob.run` — the walk, and its iterations;
* `Glob.Good` — the text fits from here, or from behind the last star;
* `Glob.weight` — what an iteration makes less of.

Main results:

* `Glob.fits_append` — a pattern without stars takes as many elements as it is long;
* `Glob.step_spec` — an iteration keeps whether the text fits, and makes the weight less;
* `Glob.run_eq_some` — the walk ends, and tells whether the text fits.
-/
import Mathlib.Data.List.Forall2

set_option relaxedAutoImplicit false
set_option autoImplicit false

namespace Glob

variable {P T : Type} (star : P → Bool) (accepts : P → T → Bool)

/-- A text is the pattern with each star replaced by some part, and the others by one element each. -/
def Fits (p : List P) (t : List T) : Prop :=
  ∃ parts : List (List T),
    List.Forall₂ (fun b part => star b = true ∨ ∃ c, part = [c] ∧ accepts b c = true) p parts ∧
      t = parts.flatten

/-- What is left of the pattern and of the text, and, behind a star, the pattern after it and the text from
where it stopped swallowing. -/
structure State (P T : Type) where
  pattern : List P
  text : List T
  last : Option (List P × List T) := none

/-- The last star swallows one more element. -/
def again (s : State P T) : Bool ⊕ State P T :=
  match s.last with
  | some (after, _ :: rest) => .inr { pattern := after, text := rest, last := some (after, rest) }
  | _ => .inl false

/-- One iteration: the answer, or where it goes on. -/
def step (s : State P T) : Bool ⊕ State P T :=
  match s.text, s.pattern with
  -- trailing stars match nothing
  | [], p => .inl (p.all star)
  | _ :: _, [] => again s
  | c :: t, b :: p =>
      if star b then .inr { pattern := p, text := c :: t, last := some (p, c :: t) }
      else if accepts b c then .inr { s with pattern := p, text := t }
      else again s

/-- The answer after so many iterations at most, none when it is not there yet. -/
def run : ℕ → State P T → Option Bool
  | 0, _ => none
  | n + 1, s =>
      match step star accepts s with
      | .inl r => some r
      | .inr s => run n s

variable {star accepts} {p pre : List P} {t : List T} {b : P} {s s' : State P T}

/-! ### What fits -/

@[simp] theorem fits_nil : Fits star accepts [] t ↔ t = [] := by
  simp [Fits]

theorem fits_cons : Fits star accepts (b :: p) t ↔
    ∃ part rest, t = part ++ rest ∧ (star b = true ∨ ∃ c, part = [c] ∧ accepts b c = true) ∧
      Fits star accepts p rest := by
  constructor
  · rintro ⟨parts, h, rfl⟩
    cases h with
    | cons hpart hrest => exact ⟨_, _, List.flatten_cons, hpart, _, hrest, rfl⟩
  · rintro ⟨part, rest, rfl, hpart, parts, hrest, rfl⟩
    exact ⟨part :: parts, .cons hpart hrest, List.flatten_cons.symm⟩

theorem fits_star (hb : star b = true) : Fits star accepts (b :: p) t ↔
    ∃ k ≤ t.length, Fits star accepts p (t.drop k) := by
  rw [fits_cons]
  constructor
  · rintro ⟨part, rest, rfl, -, hrest⟩
    exact ⟨part.length, by simp, by simpa using hrest⟩
  · rintro ⟨k, -, hrest⟩
    exact ⟨t.take k, t.drop k, (List.take_append_drop k t).symm, .inl hb, hrest⟩

theorem fits_one (hb : star b = false) : Fits star accepts (b :: p) t ↔
    ∃ c rest, t = c :: rest ∧ accepts b c = true ∧ Fits star accepts p rest := by
  rw [fits_cons]
  constructor
  · rintro ⟨part, rest, rfl, hpart, hrest⟩
    rcases hpart with hstar | ⟨c, rfl, hc⟩
    · rw [hb] at hstar
      cases hstar
    · exact ⟨c, rest, rfl, hc, hrest⟩
  · rintro ⟨c, rest, rfl, hc, hrest⟩
    exact ⟨[c], rest, rfl, .inr ⟨c, rfl, hc⟩, hrest⟩

theorem fits_all : Fits star accepts p [] ↔ p.all star = true := by
  induction p with
  | nil => simp
  | cons b p ih =>
      cases hb : star b with
      | true => simp [fits_star hb, hb, ih]
      | false => simp [fits_one hb, hb]

/-- A pattern without stars takes as many elements as it is long. -/
theorem fits_append (hpre : ∀ b ∈ pre, star b = false) (h : Fits star accepts (pre ++ p) t) :
    pre.length ≤ t.length ∧ Fits star accepts p (t.drop pre.length) := by
  induction pre generalizing t with
  | nil => exact ⟨Nat.zero_le _, h⟩
  | cons b pre ih =>
      obtain ⟨hb, hpre⟩ := List.forall_mem_cons.1 hpre
      rw [List.cons_append, fits_one hb] at h
      obtain ⟨c, rest, rfl, -, hrest⟩ := h
      obtain ⟨hlength, hfits⟩ := ih hpre hrest
      exact ⟨by simpa using hlength, by simpa using hfits⟩

/-! ### What an iteration keeps -/

/-- The pattern was walked from the last star on, an element of it for one of the text. -/
def Walked (star : P → Bool) (s : State P T) : Prop :=
  ∀ after rest, s.last = some (after, rest) → ∃ pre walked, (∀ b ∈ pre, star b = false) ∧
    after = pre ++ s.pattern ∧ rest = walked ++ s.text ∧ walked.length = pre.length

/-- The text fits from here, or with the last star swallowing more. -/
def Good (star : P → Bool) (accepts : P → T → Bool) (s : State P T) : Prop :=
  Fits star accepts s.pattern s.text ∨
    ∃ after rest, s.last = some (after, rest) ∧
      ∃ k, 0 < k ∧ k ≤ rest.length ∧ Fits star accepts after (rest.drop k)

/-- The patterns are no longer than that. -/
def Within (n : ℕ) (s : State P T) : Prop :=
  s.pattern.length ≤ n ∧ ∀ after rest, s.last = some (after, rest) → after.length ≤ n

/-- What is left of the text behind the last star, and of the pattern, which is no longer than `n`. -/
def weight (n : ℕ) (s : State P T) : ℕ :=
  ((s.last.map fun l => l.2.length).getD s.text.length) * (n + 1) + s.pattern.length

/-- What an iteration that answers says, and what one that goes on keeps. -/
def Spec (star : P → Bool) (accepts : P → T → Bool) (n : ℕ) (s : State P T) : Bool ⊕ State P T → Prop
  | .inl r => r = true ↔ Good star accepts s
  | .inr s' => Walked star s' ∧ Within n s' ∧ weight n s' < weight n s ∧
      (Good star accepts s' ↔ Good star accepts s)

variable {n : ℕ}

/-- Where the text does not fit from here, the last star is all there is. -/
theorem again_spec (hwalked : Walked star s) (hwithin : Within n s) (htext : s.text ≠ [])
    (hnot : ¬ Fits star accepts s.pattern s.text) : Spec star accepts n s (again s) := by
  rw [again]
  split
  · rename_i after c rest hlast
    have hafter := hwithin.2 _ _ hlast
    refine ⟨?_, ⟨hafter, ?_⟩, ?_, ?_⟩
    · rintro _ _ ⟨⟩
      exact ⟨[], [], by simp, rfl, rfl, rfl⟩
    · rintro _ _ ⟨⟩
      exact hafter
    · simp only [weight, hlast, Option.map_some, Option.getD_some, List.length_cons, Nat.succ_mul]
      omega
    · constructor
      · rintro (hfits | ⟨_, _, ⟨⟩, k, hpos, hle, hfits⟩)
        · exact .inr ⟨after, c :: rest, hlast, 1, by simp, by simp, by simpa using hfits⟩
        · exact .inr ⟨after, c :: rest, hlast, k + 1, by simp, by simpa using hle, by simpa using hfits⟩
      · rintro (hfits | ⟨_, _, hlast', k, hpos, hle, hfits⟩)
        · exact absurd hfits hnot
        · rw [hlast] at hlast'
          cases hlast'
          obtain ⟨k, rfl⟩ := Nat.exists_eq_succ_of_ne_zero (Nat.pos_iff_ne_zero.1 hpos)
          cases k with
          | zero => exact .inl (by simpa using hfits)
          | succ k =>
              exact .inr ⟨after, rest, rfl, k + 1, by simp, by simpa using hle, by simpa using hfits⟩
  · rename_i hnone
    refine iff_of_false (by simp) ?_
    rintro (hfits | ⟨after, rest, hlast, -⟩)
    · exact hnot hfits
    · -- There is text left, so there is some behind the last star.
      obtain ⟨pre, walked, -, -, rfl, -⟩ := hwalked after rest hlast
      cases hwhole : walked ++ s.text with
      | nil => exact htext (List.append_eq_nil_iff.1 hwhole).2
      | cons c rest => exact hnone after c rest (by rw [hlast, hwhole])

/-- At a star, whatever an earlier one could swallow more, this one can. -/
theorem star_spec {c : T} (hb : star b = true) (hwalked : Walked star s) (hwithin : Within n s)
    (hpattern : s.pattern = b :: p) (htext : s.text = c :: t) :
    Spec star accepts n s (.inr { pattern := p, text := c :: t, last := some (p, c :: t) }) := by
  have hp : p.length + 1 ≤ n := by simpa [hpattern] using hwithin.1
  refine ⟨?_, ⟨?_, ?_⟩, ?_, ?_⟩
  · rintro _ _ ⟨⟩
    exact ⟨[], [], by simp, rfl, rfl, rfl⟩
  · simp only
    omega
  · rintro _ _ ⟨⟩
    omega
  · have hrest : (c :: t).length ≤ (s.last.map fun l => l.2.length).getD s.text.length := by
      cases hlast : s.last with
      | none => simp [htext]
      | some l =>
          obtain ⟨pre, walked, -, -, hrest, -⟩ := hwalked l.1 l.2 hlast
          simp [hrest, htext]
    have := Nat.mul_le_mul_right (n + 1) hrest
    simp only [weight, hpattern, Option.map_some, Option.getD_some, List.length_cons] at this ⊢
    omega
  · have hhere : Fits star accepts (b :: p) (c :: t) ↔
        ∃ k ≤ (c :: t).length, Fits star accepts p ((c :: t).drop k) := fits_star hb
    constructor
    · rintro (hfits | ⟨_, _, ⟨⟩, k, -, hle, hfits⟩)
      · refine .inl ?_
        rw [hpattern, htext]
        exact hhere.2 ⟨0, Nat.zero_le _, hfits⟩
      · refine .inl ?_
        rw [hpattern, htext]
        exact hhere.2 ⟨k, hle, hfits⟩
    · intro h
      have hfits : Fits star accepts (b :: p) (c :: t) := by
        rcases h with hfits | ⟨after, rest, hlast, k, hpos, hle, hfits⟩
        · rwa [hpattern, htext] at hfits
        · -- The pattern up to here takes as much as it did, from a later place of the text on.
          obtain ⟨pre, walked, hpre, rfl, rfl, hlength⟩ := hwalked after rest hlast
          obtain ⟨hroom, hhit⟩ := fits_append hpre hfits
          rw [hpattern, fits_star hb] at hhit
          obtain ⟨j, hj, hhit⟩ := hhit
          rw [htext] at hroom hj hhit hle
          simp only [List.length_drop, List.length_append, List.drop_drop] at hroom hj hhit hle
          refine hhere.2 ⟨k + j, by omega, ?_⟩
          rw [List.drop_append] at hhit
          have hwalk : walked.drop (k + pre.length + j) = [] := List.drop_eq_nil_of_le (by omega)
          have hsub : k + pre.length + j - walked.length = k + j := by omega
          rwa [hwalk, hsub, List.nil_append] at hhit
      obtain ⟨k, hk, hfits⟩ := hhere.1 hfits
      cases k with
      | zero => exact .inl hfits
      | succ k => exact .inr ⟨p, c :: t, rfl, k + 1, by simp, hk, hfits⟩

/-- An element that is accepted is walked over. -/
theorem accepted_spec {c : T} (hb : star b = false) (hc : accepts b c = true) (hwalked : Walked star s)
    (hwithin : Within n s) (hpattern : s.pattern = b :: p) (htext : s.text = c :: t) :
    Spec star accepts n s (.inr { s with pattern := p, text := t }) := by
  have hp : p.length + 1 ≤ n := by simpa [hpattern] using hwithin.1
  refine ⟨?_, ⟨?_, hwithin.2⟩, ?_, ?_⟩
  · intro after rest hlast
    obtain ⟨pre, walked, hpre, hafter, hrest, hlength⟩ := hwalked after rest hlast
    refine ⟨pre ++ [b], walked ++ [c], ?_, ?_, ?_, by simp [hlength]⟩
    · intro x hx
      rcases List.mem_append.1 hx with hx | hx
      · exact hpre x hx
      · rwa [List.mem_singleton.1 hx]
    · simp [hafter, hpattern]
    · simp [hrest, htext]
  · simp only
    omega
  · cases hlast : s.last with
    | none =>
        simp only [weight, hlast, hpattern, htext, Option.map_none, Option.getD_none, List.length_cons,
          Nat.succ_mul]
        omega
    | some l =>
        simp only [weight, hlast, hpattern, Option.map_some, Option.getD_some, List.length_cons]
        omega
  · have hfits : Fits star accepts p t ↔ Fits star accepts s.pattern s.text := by
      rw [hpattern, htext, fits_one hb]
      constructor
      · intro h
        exact ⟨c, t, rfl, hc, h⟩
      · rintro ⟨_, _, ⟨⟩, -, h⟩
        exact h
    simp only [Good, hfits]

/-- With the text used up, an earlier place has too little of it left. -/
theorem end_spec (hwalked : Walked star s) (htext : s.text = []) :
    s.pattern.all star = true ↔ Good star accepts s := by
  have hall : Fits star accepts s.pattern [] ↔ s.pattern.all star = true := fits_all
  rw [← hall, ← htext]
  constructor
  · exact .inl
  · rintro (hfits | ⟨after, rest, hlast, k, hpos, hle, hfits⟩)
    · exact hfits
    · obtain ⟨pre, walked, hpre, rfl, rfl, hlength⟩ := hwalked after rest hlast
      obtain ⟨hroom, -⟩ := fits_append hpre hfits
      simp only [htext, List.append_nil, List.length_drop] at hroom hle
      omega

/-- **An iteration** answers whether the text fits, or keeps it and makes the weight less. -/
theorem step_spec (hwalked : Walked star s) (hwithin : Within n s) :
    Spec star accepts n s (step star accepts s) := by
  rw [step]
  split
  · rename_i htext
    exact end_spec hwalked htext
  · rename_i c t htext hpattern
    exact again_spec hwalked hwithin (by simp [htext]) (by simp [hpattern, htext])
  · rename_i c t b p htext hpattern
    split
    · rename_i hb
      exact star_spec hb hwalked hwithin hpattern htext
    · rename_i hb
      rw [Bool.not_eq_true] at hb
      split
      · rename_i hc
        exact accepted_spec hb hc hwalked hwithin hpattern htext
      · rename_i hc
        refine again_spec hwalked hwithin (by simp [htext]) ?_
        rw [hpattern, htext, fits_one hb]
        rintro ⟨_, _, ⟨⟩, h, -⟩
        exact hc h

/-- **The walk ends** within as many iterations as the weight says, and tells whether the text fits. -/
theorem run_eq_some (hwalked : Walked star s) (hwithin : Within n s) {fuel : ℕ} (hfuel : weight n s < fuel) :
    ∃ r, run star accepts fuel s = some r ∧ (r = true ↔ Good star accepts s) := by
  induction fuel generalizing s with
  | zero => omega
  | succ fuel ih =>
      have hspec : Spec star accepts n s (step star accepts s) := step_spec hwalked hwithin
      rw [run]
      cases hstep : step star accepts s with
      | inl r =>
          rw [hstep] at hspec
          exact ⟨r, rfl, hspec⟩
      | inr s' =>
          rw [hstep] at hspec
          obtain ⟨hwalked', hwithin', hless, hgood⟩ := hspec
          obtain ⟨r, hr, hiff⟩ := ih hwalked' hwithin' (by omega)
          exact ⟨r, hr, hiff.trans hgood⟩

/-- From the start, the walk tells whether the text is the pattern. -/
theorem run_start {fuel : ℕ} (hfuel : (t.length + 1) * (p.length + 1) ≤ fuel) :
    ∃ r, run star accepts fuel { pattern := p, text := t } = some r ∧ (r = true ↔ Fits star accepts p t) := by
  have hwalked : Walked star ({ pattern := p, text := t } : State P T) := by
    rintro _ _ ⟨⟩
  have hwithin : Within p.length ({ pattern := p, text := t } : State P T) :=
    ⟨Nat.le_refl _, by rintro _ _ ⟨⟩⟩
  have hweight : weight p.length ({ pattern := p, text := t } : State P T) < fuel := by
    simp only [weight, Option.map_none, Option.getD_none]
    rw [Nat.succ_mul] at hfuel
    omega
  obtain ⟨r, hr, hiff⟩ : ∃ r, run star accepts fuel { pattern := p, text := t } = some r ∧
      (r = true ↔ Good star accepts { pattern := p, text := t }) := run_eq_some hwalked hwithin hweight
  refine ⟨r, hr, hiff.trans ?_⟩
  simp [Good]

end Glob
