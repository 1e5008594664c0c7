/-
Operators of several precedences.

An expression is read by descent.  The tightest expressions are atoms and whole expressions in brackets, and
those of each level above are operands of the level below with the operators of that level between them, joined
from the left.  The loops that read this take exactly what the grammar derives: they stop where no operator of
theirs follows, and what they return is the one expression that is derived.

Main definitions:

* `chain` — operands with operators between them, as a loop reads them;
* `Grammar`, `level`, `parse`, `read` — the levels, and what is read of some tokens;
* `Derives` — the expressions of the grammar.

Main results:

* `exact_chain` — a loop over exact operands is exact;
* `exact_level` — every level reads exactly its expressions;
* `parse_eq` — the fuel makes no difference;
* `read_eq_ok_iff` — tokens are read as an expression exactly when it is derived from them;
* `derives_unique` — at most one expression is derived.
-/
import Mathlib.Data.List.Basic

set_option relaxedAutoImplicit false
set_option autoImplicit false

namespace Precedence

variable {τ ε α : Type}

/-- What is read at the front of some tokens and what is left of them, or why nothing is. -/
abbrev Parser (τ ε α : Type) := List τ → Except ε (α × List τ)

/-! ### Loops -/

/-- The loop behind a first operand: `left` is what was read so far. -/
def chainFrom (operand : Parser τ ε α) (op : τ → Option (α → α → α)) : ℕ → α → Parser τ ε α
  | 0, left, ts => .ok (left, ts)
  | _ + 1, left, [] => .ok (left, [])
  | fuel + 1, left, t :: ts =>
      match op t with
      | none => .ok (left, t :: ts)
      | some join =>
          match operand ts with
          | .error e => .error e
          | .ok (right, rest) => chainFrom operand op fuel (join left right) rest

/-- Operands with operators between them; an operator is a token, so there are no more rounds than tokens. -/
def chain (operand : Parser τ ε α) (op : τ → Option (α → α → α)) : Parser τ ε α := fun ts =>
  match operand ts with
  | .error e => .error e
  | .ok (left, rest) => chainFrom operand op rest.length left rest

/-- What operands with operators between them derive. -/
inductive Chain (P : List τ → α → Prop) (op : τ → Option (α → α → α)) : List τ → α → Prop
  | one {us : List τ} {a : α} : P us a → Chain P op us a
  | more {us vs : List τ} {t : τ} {a b : α} {join : α → α → α} :
      Chain P op us a → op t = some join → P vs b → Chain P op (us ++ t :: vs) (join a b)

/-- A parser of up to `n` tokens reads exactly what `P` derives and `S` lets follow. -/
def Exact (n : ℕ) (p : Parser τ ε α) (P : List τ → α → Prop) (S : List τ → Prop) : Prop :=
  ∀ ts, ts.length ≤ n → ∀ a rest, p ts = .ok (a, rest) ↔ ∃ us, ts = us ++ rest ∧ P us a ∧ S rest

/-- No operator of these comes next. -/
def Ends (op : τ → Option (α → α → α)) (rest : List τ) : Prop := ∀ t ∈ rest.head?, op t = none

section Chain

variable {n : ℕ} {operand : Parser τ ε α} {P : List τ → α → Prop} {S : List τ → Prop}
  {op : τ → Option (α → α → α)}

theorem Exact.mono {m : ℕ} (h : Exact n operand P S) (hm : m ≤ n) : Exact m operand P S :=
  fun ts hts => h ts (Nat.le_trans hts hm)

/-- What is left is no longer than what was given. -/
theorem Exact.length_le (h : Exact n operand P S) {ts rest : List τ} {a : α} (hts : ts.length ≤ n)
    (hok : operand ts = .ok (a, rest)) : rest.length ≤ ts.length := by
  obtain ⟨us, rfl, -, -⟩ := (h ts hts a rest).1 hok
  rw [List.length_append]
  omega

/-- More rounds than tokens make no difference. -/
theorem chainFrom_eq (h : Exact n operand P S) {fuel fuel' : ℕ} {left : α} {ts : List τ} (hts : ts.length ≤ n)
    (hfuel : ts.length ≤ fuel) (hfuel' : ts.length ≤ fuel') :
    chainFrom operand op fuel left ts = chainFrom operand op fuel' left ts := by
  induction fuel generalizing fuel' left ts with
  | zero =>
      obtain rfl : ts = [] := List.length_eq_zero_iff.1 (by omega)
      cases fuel' <;> rfl
  | succ fuel ih =>
      cases ts with
      | nil => cases fuel' <;> rfl
      | cons t ts =>
          rw [List.length_cons] at hts hfuel hfuel'
          obtain ⟨fuel', rfl⟩ : ∃ k, fuel' = k + 1 := ⟨fuel' - 1, by omega⟩
          simp only [chainFrom]
          cases hop : op t with
          | none => rfl
          | some join =>
              cases hok : operand ts with
              | error e => rfl
              | ok r =>
                  have hrest := h.length_le (by omega) hok
                  exact ih (by omega) (by omega) (by omega)

/-- Operands that read alike make loops that do. -/
theorem chainFrom_congr (h : Exact n operand P S) {operand' : Parser τ ε α}
    (heq : ∀ ts, ts.length ≤ n → operand ts = operand' ts) {fuel : ℕ} {left : α} {ts : List τ} (hts : ts.length ≤ n) :
    chainFrom operand op fuel left ts = chainFrom operand' op fuel left ts := by
  induction fuel generalizing left ts with
  | zero => rfl
  | succ fuel ih =>
      cases ts with
      | nil => rfl
      | cons t ts =>
          rw [List.length_cons] at hts
          simp only [chainFrom]
          cases op t with
          | none => rfl
          | some join =>
              simp only
              rw [← heq ts (by omega)]
              cases hok : operand ts with
              | error e => rfl
              | ok r => exact ih (Nat.le_trans (h.length_le (by omega) hok) (by omega))

/-- What the loop reads is derived, and where it stops no operator follows. -/
theorem chain_of_chainFrom (h : Exact n operand P S) {fuel : ℕ} {left a : α} {us ts rest : List τ}
    (hts : ts.length ≤ n) (hfuel : ts.length ≤ fuel) (hleft : Chain P op us left) (hs : S ts)
    (hok : chainFrom operand op fuel left ts = .ok (a, rest)) :
    ∃ vs, ts = vs ++ rest ∧ Chain P op (us ++ vs) a ∧ S rest ∧ Ends op rest := by
  induction fuel generalizing left us ts with
  | zero =>
      obtain rfl : ts = [] := List.length_eq_zero_iff.1 (by omega)
      cases hok
      exact ⟨[], rfl, by rwa [List.append_nil], hs, by simp [Ends]⟩
  | succ fuel ih =>
      cases ts with
      | nil =>
          cases hok
          exact ⟨[], rfl, by rwa [List.append_nil], hs, by simp [Ends]⟩
      | cons t ts =>
          rw [List.length_cons] at hts hfuel
          simp only [chainFrom] at hok
          cases hop : op t with
          | none =>
              rw [hop] at hok
              cases hok
              exact ⟨[], rfl, by rwa [List.append_nil], hs, by simpa [Ends] using hop⟩
          | some join =>
              rw [hop] at hok
              cases hright : operand ts with
              | error e => rw [hright] at hok; cases hok
              | ok r =>
                  obtain ⟨b, mid⟩ := r
                  rw [hright] at hok
                  have hmid := h.length_le (by omega) hright
                  obtain ⟨vs, rfl, hvs, hsmid⟩ := (h ts (by omega) b mid).1 hright
                  obtain ⟨ws, rfl, hws, hrest, hends⟩ :=
                    ih (by omega) (by omega) (hleft.more hop hvs) hsmid hok
                  exact ⟨t :: (vs ++ ws), by simp, by simpa using hws, hrest, hends⟩

/-- A derived chain is read up to its end, and from there on. -/
theorem chain_append (h : Exact n operand P S) (hnext : ∀ t rest, op t ≠ none → S (t :: rest)) {us rest : List τ}
    {a : α} (hus : Chain P op us a) (hs : S rest) (hlen : (us ++ rest).length ≤ n) :
    chain operand op (us ++ rest) = chainFrom operand op rest.length a rest := by
  induction hus generalizing rest with
  | one ha =>
      rw [chain, (h _ hlen _ rest).2 ⟨_, rfl, ha, hs⟩]
  | @more us vs t a b join hus hop hb ih =>
      rw [List.append_assoc, List.cons_append] at hlen ⊢
      rw [ih (hnext t _ (by simp [hop])) hlen]
      rw [List.length_append, List.length_cons] at hlen
      simp only [List.length_cons, chainFrom, hop]
      rw [(h (vs ++ rest) (by omega) b rest).2 ⟨vs, rfl, hb, hs⟩]
      rw [List.length_append] at hlen
      exact chainFrom_eq h (by omega) (by simp) (Nat.le_refl _)

/-- **A loop over exact operands is exact**: it reads the chains no operator follows. -/
theorem exact_chain (h : Exact n operand P S) (hnext : ∀ t rest, op t ≠ none → S (t :: rest)) :
    Exact n (chain operand op) (Chain P op) (fun rest => S rest ∧ Ends op rest) := by
  intro ts hts a rest
  constructor
  · intro hok
    rw [chain] at hok
    cases hfirst : operand ts with
    | error e => rw [hfirst] at hok; cases hok
    | ok r =>
        obtain ⟨left, mid⟩ := r
        rw [hfirst] at hok
        have hmid := h.length_le hts hfirst
        obtain ⟨us, rfl, hus, hs⟩ := (h ts hts left mid).1 hfirst
        obtain ⟨vs, rfl, hvs, hrest, hends⟩ :=
          chain_of_chainFrom h (Nat.le_trans hmid hts) (Nat.le_refl _) (.one hus) hs hok
        exact ⟨us ++ vs, by simp, hvs, hrest, hends⟩
  · rintro ⟨us, rfl, hus, hs, hends⟩
    rw [chain_append h hnext hus hs hts]
    cases rest with
    | nil => rfl
    | cons t rest => simp [chainFrom, hends t rfl]

end Chain

/-! ### Grammars -/

/-- The operators of each level, brackets, and how an atom is read; the last three are what an expression is refused
with when its bracket is not closed, when something follows it, and when it has more brackets than tokens. -/
structure Grammar (τ ε α : Type) where
  levels : ℕ
  op : ℕ → τ → Option (α → α → α)
  opening : τ → Bool
  closing : τ → Bool
  atom : Parser τ ε α
  unclosed : Option τ → ε
  extra : τ → ε
  spent : ε

namespace Grammar

variable (g : Grammar τ ε α)

/-- An expression in brackets, read by `inner`, or an atom. -/
def primary (inner : Parser τ ε α) : Parser τ ε α := fun ts =>
  match ts with
  | [] => g.atom []
  | t :: rest =>
      if g.opening t then
        match inner rest with
        | .error e => .error e
        | .ok (_, []) => .error (g.unclosed none)
        | .ok (a, u :: rest) => if g.closing u then .ok (a, rest) else .error (g.unclosed (some u))
      else g.atom (t :: rest)

/-- The expressions of a level, with `inner` for what stands in brackets. -/
def level (inner : Parser τ ε α) : ℕ → Parser τ ε α
  | 0 => g.primary inner
  | k + 1 => chain (level inner k) (g.op k)

/-- An expression with fewer brackets in one another than `fuel`. -/
def parse : ℕ → Parser τ ε α
  | 0 => fun _ => .error g.spent
  | fuel + 1 => g.level (parse fuel) g.levels

/-- The expression that all of the tokens are. -/
def read (ts : List τ) : Except ε α :=
  match g.parse (ts.length + 1) ts with
  | .error e => .error e
  | .ok (a, []) => .ok a
  | .ok (_, t :: _) => .error (g.extra t)

/-- The expressions of a grammar, level by level. -/
inductive Derives (Atom : List τ → α → Prop) : ℕ → List τ → α → Prop
  | atom {us : List τ} {a : α} : Atom us a → Derives Atom 0 us a
  | brackets {us : List τ} {t u : τ} {a : α} :
      g.opening t = true → Derives Atom g.levels us a → g.closing u = true → Derives Atom 0 (t :: (us ++ [u])) a
  | one {k : ℕ} {us : List τ} {a : α} : Derives Atom k us a → Derives Atom (k + 1) us a
  | more {k : ℕ} {us vs : List τ} {t : τ} {a b : α} {join : α → α → α} :
      Derives Atom (k + 1) us a → g.op k t = some join → Derives Atom k vs b →
        Derives Atom (k + 1) (us ++ t :: vs) (join a b)

/-- A grammar whose atoms end where they end, whatever follows, and whose operators, brackets and atoms are told
apart by one token. -/
structure Lawful (Atom : List τ → α → Prop) : Prop where
  atom_iff : ∀ ts a rest, g.atom ts = .ok (a, rest) ↔ ∃ us, ts = us ++ rest ∧ Atom us a
  atom_head : ∀ us a, Atom us a → ∃ t vs, us = t :: vs ∧ g.opening t = false
  op_unique : ∀ j k t, g.op j t ≠ none → g.op k t ≠ none → j = k
  closing_op : ∀ k t, g.closing t = true → g.op k t = none

/-- No operator below the level comes next. -/
def Stops (k : ℕ) (rest : List τ) : Prop := ∀ t ∈ rest.head?, ∀ j < k, g.op j t = none

variable {g} {Atom : List τ → α → Prop} {n k : ℕ}

theorem stops_succ {rest : List τ} : g.Stops (k + 1) rest ↔ g.Stops k rest ∧ Ends (g.op k) rest := by
  constructor
  · intro h
    exact ⟨fun t ht j hj => h t ht j (by omega), fun t ht => h t ht k (by omega)⟩
  · rintro ⟨h, hk⟩ t ht j hj
    obtain hj | rfl := Nat.lt_succ_iff_lt_or_eq.1 hj
    · exact h t ht j hj
    · exact hk t ht

/-- The expressions of a level are the chains of those below it. -/
theorem derives_succ_iff {us : List τ} {a : α} :
    Derives g Atom (k + 1) us a ↔ Chain (Derives g Atom k) (g.op k) us a := by
  constructor
  · intro h
    generalize hj : k + 1 = j at h
    induction h with
    | atom _ => cases hj
    | brackets _ _ _ _ => cases hj
    | one h _ =>
        cases hj
        exact .one h
    | more _ hop hb ih _ =>
        cases hj
        exact (ih rfl).more hop hb
  · intro h
    induction h with
    | one h => exact .one h
    | more _ hop hb ih => exact .more ih hop hb

theorem derives_zero_iff {us : List τ} {a : α} :
    Derives g Atom 0 us a ↔ Atom us a ∨ ∃ vs t u, us = t :: (vs ++ [u]) ∧ g.opening t = true ∧
      Derives g Atom g.levels vs a ∧ g.closing u = true := by
  constructor
  · intro h
    cases h with
    | atom h => exact .inl h
    | @brackets vs t u a ht h hu => exact .inr ⟨vs, t, u, rfl, ht, h, hu⟩
  · rintro (h | ⟨vs, t, u, rfl, ht, h, hu⟩)
    · exact .atom h
    · exact .brackets ht h hu

/-- Brackets and atoms are read exactly when what stands in brackets is. -/
theorem exact_primary (hg : g.Lawful Atom) {inner : Parser τ ε α}
    (hinner : ∀ m < n, Exact m inner (Derives g Atom g.levels) (g.Stops g.levels)) :
    Exact n (g.primary inner) (Derives g Atom 0) (g.Stops 0) := by
  have hzero (rest : List τ) : g.Stops 0 rest := fun t _ j hj => absurd hj (Nat.not_lt_zero j)
  intro ts hts a rest
  cases ts with
  | nil =>
      rw [primary, hg.atom_iff]
      refine ⟨fun ⟨us, hus, h⟩ => ⟨us, hus, .atom h, hzero rest⟩, ?_⟩
      rintro ⟨us, hus, h, -⟩
      obtain ⟨rfl, rfl⟩ := List.append_eq_nil_iff.1 hus.symm
      obtain h | ⟨vs, t, u, hcons, -⟩ := derives_zero_iff.1 h
      · exact ⟨[], hus, h⟩
      · cases hcons
  | cons t ts =>
      rw [List.length_cons] at hts
      cases hopen : g.opening t with
      | false =>
          rw [primary, if_neg (by simp [hopen]), hg.atom_iff]
          refine ⟨fun ⟨us, hus, h⟩ => ⟨us, hus, .atom h, hzero rest⟩, ?_⟩
          rintro ⟨us, hus, h, -⟩
          obtain h | ⟨vs, v, u, rfl, hv, -⟩ := derives_zero_iff.1 h
          · exact ⟨us, hus, h⟩
          · cases (List.cons.inj hus).1
            rw [hv] at hopen
            cases hopen
      | true =>
          have hex := hinner ts.length (by omega) ts (Nat.le_refl _)
          rw [primary, if_pos hopen]
          constructor
          · intro hok
            cases hin : inner ts with
            | error e => rw [hin] at hok; cases hok
            | ok r =>
                obtain ⟨b, left⟩ := r
                rw [hin] at hok
                cases left with
                | nil => cases hok
                | cons u left =>
                    obtain ⟨us, rfl, hus, -⟩ := (hex b (u :: left)).1 hin
                    simp only at hok
                    split at hok
                    · rename_i hu
                      cases hok
                      exact ⟨t :: (us ++ [u]), by simp, .brackets hopen hus hu, hzero rest⟩
                    · cases hok
          · rintro ⟨us, hus, h, -⟩
            obtain h | ⟨vs, v, u, rfl, hv, hvs, hu⟩ := derives_zero_iff.1 h
            · obtain ⟨v, vs, rfl, hv⟩ := hg.atom_head us a h
              cases (List.cons.inj hus).1
              rw [hv] at hopen
              cases hopen
            · obtain ⟨rfl, rfl⟩ := List.cons.inj hus
              have hstops : g.Stops g.levels (u :: rest) := by
                intro w hw j _
                obtain rfl : u = w := Option.some.inj hw
                exact hg.closing_op j u hu
              simp only [List.append_eq, List.append_assoc, List.singleton_append] at hex ⊢
              rw [(hex a (u :: rest)).2 ⟨vs, rfl, hvs, hstops⟩]
              exact if_pos hu

/-- **Every level reads exactly its expressions**, up to where no operator of it follows. -/
theorem exact_level (hg : g.Lawful Atom) {inner : Parser τ ε α}
    (hinner : ∀ m < n, Exact m inner (Derives g Atom g.levels) (g.Stops g.levels)) (k : ℕ) :
    Exact n (g.level inner k) (Derives g Atom k) (g.Stops k) := by
  induction k with
  | zero => exact exact_primary hg hinner
  | succ k ih =>
      have hnext (t : τ) (rest : List τ) (ht : g.op k t ≠ none) : g.Stops k (t :: rest) := by
        intro v hv j hj
        obtain rfl : t = v := Option.some.inj hv
        by_contra hne
        exact absurd (hg.op_unique j k t hne ht) (Nat.ne_of_lt hj)
      intro ts hts a rest
      rw [level, exact_chain ih hnext ts hts a rest]
      simp only [derives_succ_iff, stops_succ]

/-- Brackets within brackets are fewer than tokens. -/
theorem exact_parse (hg : g.Lawful Atom) (fuel : ℕ) :
    ∀ m < fuel, Exact m (g.parse fuel) (Derives g Atom g.levels) (g.Stops g.levels) := by
  induction fuel with
  | zero => exact fun m hm => absurd hm (Nat.not_lt_zero m)
  | succ fuel ih =>
      intro m hm
      exact exact_level hg (fun j hj => ih j (by omega)) g.levels

/-- Levels with the same expressions in brackets read alike. -/
theorem level_congr (hg : g.Lawful Atom) {inner inner' : Parser τ ε α}
    (hinner : ∀ m < n, Exact m inner (Derives g Atom g.levels) (g.Stops g.levels))
    (heq : ∀ ts, ts.length < n → inner ts = inner' ts) {ts : List τ} (hts : ts.length ≤ n) :
    g.level inner k ts = g.level inner' k ts := by
  induction k generalizing ts with
  | zero =>
      cases ts with
      | nil => rfl
      | cons t ts =>
          rw [List.length_cons] at hts
          simp only [level, primary]
          rw [heq ts (by omega)]
  | succ k ih =>
      have hex := exact_level hg hinner k
      simp only [level, chain]
      rw [← ih hts]
      cases hok : g.level inner k ts with
      | error e => rfl
      | ok r => exact chainFrom_congr hex (fun us hus => ih hus) (Nat.le_trans (hex.length_le hts hok) hts)

/-- **What is read does not depend on the fuel**, once there is more of it than tokens. -/
theorem parse_eq (hg : g.Lawful Atom) {fuel fuel' : ℕ} {ts : List τ} (h : ts.length < fuel) (h' : ts.length < fuel') :
    g.parse fuel ts = g.parse fuel' ts := by
  induction fuel generalizing fuel' ts with
  | zero => omega
  | succ fuel ih =>
      obtain ⟨fuel', rfl⟩ : ∃ k, fuel' = k + 1 := ⟨fuel' - 1, by omega⟩
      refine level_congr hg (fun m hm => exact_parse hg fuel m (Nat.lt_of_lt_of_le hm ?_)) ?_ (Nat.le_refl _)
      · omega
      · intro us hus
        exact ih (by omega) (by omega)

/-- **Tokens are read as an expression exactly when it is derived from all of them.** -/
theorem read_eq_ok_iff (hg : g.Lawful Atom) {ts : List τ} {a : α} :
    g.read ts = .ok a ↔ Derives g Atom g.levels ts a := by
  have hex := exact_parse hg (ts.length + 1) ts.length (by omega) ts (Nat.le_refl _)
  rw [read]
  constructor
  · intro hok
    cases hp : g.parse (ts.length + 1) ts with
    | error e => rw [hp] at hok; cases hok
    | ok r =>
        obtain ⟨b, rest⟩ := r
        rw [hp] at hok
        cases rest with
        | nil =>
            cases hok
            obtain ⟨us, rfl, hus, -⟩ := (hex _ []).1 hp
            rwa [List.append_nil]
        | cons t rest => cases hok
  · intro h
    have hstops : g.Stops g.levels [] := fun t ht => by cases ht
    rw [(hex a []).2 ⟨ts, (List.append_nil ts).symm, h, hstops⟩]

/-- **At most one expression is derived** from some tokens. -/
theorem derives_unique (hg : g.Lawful Atom) {ts : List τ} {a b : α} (ha : Derives g Atom g.levels ts a)
    (hb : Derives g Atom g.levels ts b) : a = b :=
  Except.ok.inj (((read_eq_ok_iff hg).2 ha).symm.trans ((read_eq_ok_iff hg).2 hb))

end Grammar

end Precedence
