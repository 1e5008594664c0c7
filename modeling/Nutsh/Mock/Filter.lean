/-
The `$filter` a mock server reads.

A filter is a disjunction of conjunctions of comparisons, brackets around any of them.  The text is cut into
tokens first: a word runs up to a blank, a bracket, a comma or a quote, a string stands between quotes with a
quote in it doubled, and the word right before a string, which names its type, is dropped.  What the grammar at
the head of the source derives is read, as the one tree it derives, and nothing else is.

Main definitions:

* `tokens`, `Lexes` — the tokens of a text, and what a text of some tokens looks like;
* `Parser.primary`, `Parser.and`, `Parser.or`, `Filter.parse` — the parser;
* `Expression` — what the grammar derives;
* `Filter.matches` — whether a row is one of those a filter is for.

Main results:

* `tokens_eq_ok_iff` — the tokens of a text are those it is spelled of;
* `parse_eq_ok_iff` — a filter is read exactly when the grammar derives it.
-/
import Nutsh.Lib.Json
import Nutsh.Lib.OData
import Nutsh.Lib.Passes
import Nutsh.Lib.Precedence
import Nutsh.Lib.Text
import Mathlib.Data.List.TakeWhile

set_option relaxedAutoImplicit false
set_option autoImplicit false

namespace Nutsh.Mock

open OData (Token escape punctuation)
open Passes (bind_eq_ok)

/-! ### Filters -/

inductive Op where
  | eq
  | ne
  | ge
  | le
  | gt
  | lt
  deriving DecidableEq, Repr

/-- The doubles of the program: how one is read from a word, what a number of a document is as one, and how two
compare, which they need not. -/
structure Doubles where
  Double : Type
  parse : String → Option Double
  asF64 : JsonNumber → Option Double
  partialCmp : Double → Double → Option Ordering

/-- Whole numbers of digits for doubles. -/
def Doubles.wholes : Doubles where
  Double := ℕ
  parse s := if s.toList ≠ [] ∧ s.toList.all Char.isDigit then some (Nat.ofDigitChars 10 s.toList 0) else none
  asF64
    | .int n => some n.toNat
    | .float _ => none
  partialCmp a b := some (compareOfLessAndEq a b)

inductive Literal (F : Doubles) where
  /-- A quoted string, the quoted part of an enum literal, or an unquoted instant. -/
  | text (value : String)
  | bool (value : Bool)
  | number (value : F.Double)

inductive Filter (F : Doubles) where
  | and (left right : Filter F)
  | or (left right : Filter F)
  | compare (path : List String) (op : Op) (literal : Literal F)
  | startsWith (path : List String) (start : String)

/-- Why a filter is refused; the message of each is made of what it holds. -/
inductive Complaint where
  /-- A string that does not end, and the byte its quote is at. -/
  | unterminated (start : ℕ)
  | extra (token : Token)
  | expected (token : Token) (got : Option Token)
  | noProperty (got : Option Token)
  | noPrefix (got : Option Token)
  | noOperator (word : String) (got : Option Token)
  | noValue (word : String) (got : Option Token)
  | noExpression (got : Option Token)
  | notPath (word : String)
  | notOperator (word : String)
  | notValue (word : String)
  deriving DecidableEq, Repr

/-! ### Tokens -/

def isBlank (c : Char) : Bool := c == ' ' || c == '\t'

/-- The characters that end a word. -/
def endsWord (c : Char) : Bool := isBlank c || (punctuation c).isSome || c == '\''

/-- The bytes of some characters. -/
def bytes (cs : List Char) : ℕ := (cs.flatMap String.utf8EncodeChar).length

/-- The rest of a string after its opening quote, a doubled quote standing for one. -/
def quoted (start : ℕ) : List Char → List Char → Except Complaint (List Char × List Char)
  | _, [] => .error (.unterminated start)
  | s, c :: cs =>
      if c = '\'' then
        match cs with
        | [] => .ok (s, [])
        | d :: ds => if d = '\'' then quoted start (s ++ ['\'']) ds else .ok (s, d :: ds)
      else quoted start (s ++ [c]) cs

/-- The tokens of what is left of a text of `total` bytes. -/
def tokensFrom (total : ℕ) : ℕ → List Char → Except Complaint (List Token)
  | 0, _ => .ok []
  | _ + 1, [] => .ok []
  | fuel + 1, c :: cs =>
      if isBlank c then tokensFrom total fuel cs
      else
        match punctuation c with
        | some t => (tokensFrom total fuel cs).map (t :: ·)
        | none =>
            let word := (c :: cs).takeWhile (!endsWord ·)
            match (c :: cs).dropWhile (!endsWord ·) with
            | [] => .ok [.word (String.ofList word)]
            | d :: rest =>
                -- a word right before a string names the type of an enum, and only the value is compared
                if d = '\'' then
                  match quoted (total - bytes (d :: rest)) [] rest with
                  | .error e => .error e
                  | .ok (s, rest) => (tokensFrom total fuel rest).map (.literal (String.ofList s) :: ·)
                else (tokensFrom total fuel (d :: rest)).map (.word (String.ofList word) :: ·)

def tokens (input : String) : Except Complaint (List Token) :=
  tokensFrom (bytes input.toList) input.toList.length input.toList

/-! ### The parser -/

/-- A property name. -/
def isIdent (s : String) : Bool :=
  s.toList ≠ [] && s.toList.all fun c => c.isAlphanum || c == '_' || c == '$'

def pathOf (word : String) : Except Complaint (List String) :=
  let segments := Text.splitChar '/' word
  if segments.all isIdent then .ok segments else .error (.notPath word)

def opOf (word : String) : Except Complaint Op :=
  match Text.lower word with
  | "eq" => .ok .eq
  | "ne" => .ok .ne
  | "ge" => .ok .ge
  | "le" => .ok .le
  | "gt" => .ok .gt
  | "lt" => .ok .lt
  | _ => .error (.notOperator word)

/-- An instant in UTC, by its length and the places of its marks. -/
def isInstant (s : String) : Bool :=
  let b := s.toList.flatMap String.utf8EncodeChar
  20 ≤ b.length && b[4]? == some 45 && b[7]? == some 45 && b[10]? == some 84 && Text.endsWith "Z" s

def literalOf (F : Doubles) (word : String) : Except Complaint (Literal F) :=
  if word = "true" then .ok (.bool true)
  else if word = "false" then .ok (.bool false)
  else
    match F.parse word with
    | some n => .ok (.number n)
    | none => if isInstant word then .ok (.text word) else .error (.notValue word)

/-- Whether a token is a word, whatever the case of its letters. -/
def wordIs (word : String) : Token → Bool
  | .word w => Text.lower w == word
  | _ => false

namespace Parser

variable (F : Doubles)

/-- One token and no other. -/
def expect (token : Token) : List Token → Except Complaint (List Token)
  | [] => .error (.expected token none)
  | t :: ts => if t = token then .ok ts else .error (.expected token (some t))

/-- What follows the word `startswith`. -/
def startswith (ts : List Token) : Except Complaint (Filter F × List Token) := do
  let ts ← expect .opening ts
  match ts with
  | .word p :: ts =>
      let path ← pathOf p
      let ts ← expect .comma ts
      match ts with
      | .literal s :: ts =>
          let ts ← expect .closing ts
          return (.startsWith path s, ts)
      | ts => .error (.noPrefix ts.head?)
  | ts => .error (.noProperty ts.head?)

/-- What follows the property of a comparison. -/
def comparison (w : String) (ts : List Token) : Except Complaint (Filter F × List Token) := do
  let path ← pathOf w
  match ts with
  | .word o :: ts =>
      let op ← opOf o
      match ts with
      | .literal s :: ts => return (.compare path op (.text s), ts)
      | .word v :: ts =>
          let literal ← literalOf F v
          return (.compare path op literal, ts)
      | ts => .error (.noValue w ts.head?)
  | ts => .error (.noOperator w ts.head?)

/-- An expression without brackets and operators. -/
def atom : Precedence.Parser Token Complaint (Filter F)
  | .word w :: ts => if wordIs "startswith" (.word w) then startswith F ts else comparison F w ts
  | ts => .error (.noExpression ts.head?)

/-- The levels of the grammar: conjunctions of primaries, and disjunctions of these. -/
def grammar : Precedence.Grammar Token Complaint (Filter F) where
  levels := 2
  op
    | 0, t => if wordIs "and" t then some .and else none
    | 1, t => if wordIs "or" t then some .or else none
    | _, _ => none
  opening t := t == .opening
  closing t := t == .closing
  atom := atom F
  unclosed := .expected .closing
  extra := .extra
  spent := .noExpression none

/-- The three levels, for an expression with fewer brackets in one another than `fuel`. -/
def primary (fuel : ℕ) : Precedence.Parser Token Complaint (Filter F) :=
  (grammar F).level ((grammar F).parse fuel) 0

def and (fuel : ℕ) : Precedence.Parser Token Complaint (Filter F) :=
  (grammar F).level ((grammar F).parse fuel) 1

def or (fuel : ℕ) : Precedence.Parser Token Complaint (Filter F) :=
  (grammar F).level ((grammar F).parse fuel) 2

end Parser

def Filter.parse (F : Doubles) (input : String) : Except Complaint (Filter F) := do
  (Parser.grammar F).read (← tokens input)

/-! ### What a filter matches -/

/-- The value at a path, walking nested objects; `null` counts as absent. -/
def lookup (row : Json) (path : List String) : Option Json :=
  (path.foldlM Json.get row).filter fun v => match v with | .null => false | _ => true

/-- An instant with its fraction padded to nine digits, so that two of them order by time; any other text is its
own key. -/
def instantKey (s : String) : String :=
  if isInstant s then
    let body := String.ofList s.toList.dropLast
    let (head, fraction) := (Text.splitOnce "." body).getD (body, "")
    head ++ "." ++ String.ofList (fraction.toList.rightpad 9 '0') ++ "Z"
  else s

def Op.holds (ordering : Ordering) : Op → Bool
  | .eq => ordering == .eq
  | .ne => ordering != .eq
  | .ge => ordering != .lt
  | .le => ordering != .gt
  | .gt => ordering == .gt
  | .lt => ordering == .lt

variable {F : Doubles}

/-- How a value compares with a literal of its type, `none` where they do not. -/
def orderingOf (v : Json) : Literal F → Option Ordering
  | .bool _ => none
  | .number l =>
      match v with
      | .num n => (F.asF64 n).bind (F.partialCmp · l)
      | _ => none
  | .text l => v.asStr.map fun v => compareOfLessAndEq (instantKey v) (instantKey l)

/-- A comparison; a property the row lacks is `ne` everything and nothing else. -/
def compare (value : Option Json) (op : Op) (literal : Literal F) : Bool :=
  match value with
  | none => op == .ne
  | some v =>
      match v, literal with
      | .bool b, .bool l =>
          match op with
          | .eq => b == l
          | .ne => b != l
          | _ => false
      | v, literal =>
          match orderingOf v literal with
          | some ordering => op.holds ordering
          | none => op == .ne

def Filter.matches (row : Json) : Filter F → Bool
  | .and a b => a.matches row && b.matches row
  | .or a b => a.matches row || b.matches row
  | .startsWith path start => ((lookup row path).bind Json.asStr).any (Text.startsWith start)
  | .compare path op literal => Mock.compare (lookup row path) op literal

/-! ### The text of some tokens -/

/-- What a text of some tokens looks like: blanks anywhere but within them, any type before a string, and behind a
word something that ends it. -/
inductive Lexes : List Char → List Token → Prop
  | done : Lexes [] []
  | blank {c : Char} {cs : List Char} {ts : List Token} : isBlank c = true → Lexes cs ts → Lexes (c :: cs) ts
  | mark {c : Char} {t : Token} {cs : List Char} {ts : List Token} :
      punctuation c = some t → Lexes cs ts → Lexes (c :: cs) (t :: ts)
  | string {kind s cs : List Char} {ts : List Token} :
      (∀ c ∈ kind, endsWord c = false) → cs.head? ≠ some '\'' → Lexes cs ts →
        Lexes (kind ++ '\'' :: (escape s ++ '\'' :: cs)) (.literal (String.ofList s) :: ts)
  | word {w cs : List Char} {ts : List Token} :
      w ≠ [] → (∀ c ∈ w, endsWord c = false) → (∀ c ∈ cs.head?, endsWord c = true ∧ c ≠ '\'') → Lexes cs ts →
        Lexes (w ++ cs) (.word (String.ofList w) :: ts)

theorem escape_cons_quote (s : List Char) : escape ('\'' :: s) = '\'' :: '\'' :: escape s := rfl

theorem escape_cons_ne {c : Char} (hc : c ≠ '\'') (s : List Char) : escape (c :: s) = c :: escape s := by
  simp [escape, hc]

/-- A string ends at the first quote that is not doubled, and what was read of it is not. -/
theorem exists_of_quoted {start : ℕ} {front cs s rest : List Char} (h : quoted start front cs = .ok (s, rest)) :
    ∃ body, cs = escape body ++ '\'' :: rest ∧ s = front ++ body ∧ rest.head? ≠ some '\'' := by
  fun_induction quoted start front cs with
  | case1 => cases h
  | case2 front =>
      cases h
      exact ⟨[], rfl, (List.append_nil _).symm, by simp⟩
  | case3 front ds ih =>
      obtain ⟨body, rfl, rfl, hrest⟩ := ih h
      exact ⟨'\'' :: body, rfl, by simp, hrest⟩
  | case4 front d ds hd =>
      cases h
      exact ⟨[], rfl, (List.append_nil _).symm, by simpa using hd⟩
  | case5 front c cs hc ih =>
      obtain ⟨body, rfl, rfl, hrest⟩ := ih h
      exact ⟨c :: body, by rw [escape_cons_ne hc, List.cons_append], by simp, hrest⟩

theorem quoted_cons_ne {c : Char} (hc : c ≠ '\'') (start : ℕ) (front cs : List Char) :
    quoted start front (c :: cs) = quoted start (front ++ [c]) cs := by
  cases cs <;> simp [quoted, hc]

/-- A string with its quotes doubled is read back. -/
theorem quoted_escape (start : ℕ) (front body : List Char) {rest : List Char} (h : rest.head? ≠ some '\'') :
    quoted start front (escape body ++ '\'' :: rest) = .ok (front ++ body, rest) := by
  induction body generalizing front with
  | nil =>
      cases rest with
      | nil => simp [escape, quoted]
      | cons c rest =>
          have hc : c ≠ '\'' := by simpa using h
          simp [escape, quoted, hc]
  | cons c body ih =>
      by_cases hc : c = '\''
      · subst hc
        have hstep := ih (front ++ ['\''])
        simp only [escape_cons_quote, List.cons_append, quoted, if_true, hstep]
        simp
      · rw [escape_cons_ne hc, List.cons_append, quoted_cons_ne hc, ih]
        simp

theorem endsWord_quote : endsWord '\'' = true := by decide

/-- A word and what follows it. -/
theorem span_word {w cs : List Char} (hw : ∀ c ∈ w, endsWord c = false) (hcs : ∀ c ∈ cs.head?, endsWord c = true) :
    (w ++ cs).takeWhile (!endsWord ·) = w ∧ (w ++ cs).dropWhile (!endsWord ·) = cs := by
  have hall : ∀ c ∈ w, (!endsWord c) = true := fun c hc => by rw [hw c hc]; rfl
  rw [List.takeWhile_append_of_pos hall, List.dropWhile_append_of_pos hall]
  cases cs with
  | nil => simp
  | cons c cs =>
      have hc : endsWord c = true := hcs c rfl
      simp [hc]

theorem map_cons_eq_ok_iff {t : Token} {r : Except Complaint (List Token)} {ts : List Token} :
    r.map (t :: ·) = .ok ts ↔ ∃ us, r = .ok us ∧ ts = t :: us := by
  cases r with
  | error e => simp [Except.map]
  | ok us => simp [Except.map, eq_comm]

/-- What ends a word and is no quote is a blank or a mark. -/
theorem endsWord_iff {c : Char} : endsWord c = true ↔ isBlank c = true ∨ punctuation c ≠ none ∨ c = '\'' := by
  rw [endsWord]
  cases isBlank c <;> cases punctuation c <;> simp

/-- Where a word stops there is something that ends it. -/
theorem endsWord_of_dropWhile {cs rest : List Char} {d : Char}
    (h : cs.dropWhile (!endsWord ·) = d :: rest) : endsWord d = true := by
  have hhead := List.head?_dropWhile_not (!endsWord ·) cs
  rw [h] at hhead
  simpa using hhead

/-- The tokens that are read are spelled by the text. -/
theorem lexes_of_tokensFrom {total fuel : ℕ} {cs : List Char} {ts : List Token} (hfuel : cs.length ≤ fuel)
    (h : tokensFrom total fuel cs = .ok ts) : Lexes cs ts := by
  induction fuel generalizing cs ts with
  | zero =>
      obtain rfl : cs = [] := List.length_eq_zero_iff.1 (by omega)
      cases h
      exact .done
  | succ fuel ih =>
      cases cs with
      | nil =>
          cases h
          exact .done
      | cons c cs =>
          rw [List.length_cons] at hfuel
          rw [tokensFrom] at h
          split at h
          · rename_i hblank
            exact .blank hblank (ih (by omega) h)
          rename_i hblank
          cases hmark : punctuation c with
          | some t =>
              rw [hmark] at h
              obtain ⟨us, hus, rfl⟩ := map_cons_eq_ok_iff.1 h
              exact .mark hmark (ih (by omega) hus)
          | none =>
              rw [hmark] at h
              have hword : ∀ x ∈ (c :: cs).takeWhile (!endsWord ·), endsWord x = false := by
                intro x hx
                simpa using List.mem_takeWhile_imp hx
              have hsplit : (c :: cs).takeWhile (!endsWord ·) ++ (c :: cs).dropWhile (!endsWord ·) = c :: cs :=
                List.takeWhile_append_dropWhile
              have hne (hc : c ≠ '\'') : (c :: cs).takeWhile (!endsWord ·) ≠ [] := by
                have hends : ¬ endsWord c = true := by
                  rw [endsWord_iff]
                  rintro (h | h | h)
                  · exact hblank h
                  · exact h hmark
                  · exact hc h
                simp [hends]
              generalize (c :: cs).takeWhile (!endsWord ·) = word at h hword hsplit hne
              cases hdrop : (c :: cs).dropWhile (!endsWord ·) with
              | nil =>
                  rw [hdrop] at h hsplit
                  cases h
                  rw [← hsplit]
                  refine .word (hne ?_) hword (by simp) .done
                  rintro rfl
                  rw [List.append_nil] at hsplit
                  have := hword '\'' (by rw [hsplit]; exact List.mem_cons_self)
                  rw [endsWord_quote] at this
                  cases this
              | cons d rest =>
                  have hd := endsWord_of_dropWhile hdrop
                  rw [hdrop] at h hsplit
                  have hlen := congrArg List.length hsplit
                  rw [List.length_append, List.length_cons, List.length_cons] at hlen
                  simp only at h
                  split at h
                  · rename_i hquote
                    subst hquote
                    cases hq : quoted (total - bytes ('\'' :: rest)) [] rest with
                    | error e => rw [hq] at h; cases h
                    | ok r =>
                        obtain ⟨s, left⟩ := r
                        rw [hq] at h
                        obtain ⟨us, hus, rfl⟩ := map_cons_eq_ok_iff.1 h
                        obtain ⟨body, rfl, rfl, hleft⟩ := exists_of_quoted hq
                        rw [List.length_append, List.length_cons] at hlen
                        rw [← hsplit]
                        exact .string hword hleft (ih (by omega) hus)
                  · rename_i hquote
                    obtain ⟨us, hus, rfl⟩ := map_cons_eq_ok_iff.1 h
                    have hpos : word ≠ [] := by
                      refine hne ?_
                      rintro rfl
                      cases word with
                      | nil => exact hquote (List.cons.inj hsplit).1
                      | cons x word =>
                          have hx := hword x List.mem_cons_self
                          rw [(List.cons.inj hsplit).1, endsWord_quote] at hx
                          cases hx
                    have hlenpos := List.length_pos_iff.2 hpos
                    rw [← hsplit]
                    refine .word hpos hword (by simpa using ⟨hd, hquote⟩) (ih ?_ hus)
                    rw [List.length_cons]
                    omega

/-- A character that ends no word is neither a blank nor a mark. -/
theorem plain_of_not_endsWord {c : Char} (h : endsWord c = false) : isBlank c = false ∧ punctuation c = none := by
  have hnot : ¬ endsWord c = true := by simp [h]
  rw [endsWord_iff] at hnot
  refine ⟨?_, ?_⟩
  · by_contra hb
    exact hnot (.inl (by simpa using hb))
  · by_contra hp
    exact hnot (.inr (.inl hp))

theorem not_isBlank_of_punctuation {c : Char} {t : Token} (h : punctuation c = some t) : isBlank c = false := by
  by_contra hb
  have hc : c = ' ' ∨ c = '\t' := by
    rw [Bool.not_eq_false] at hb
    simpa [isBlank] using hb
  obtain rfl | rfl := hc <;> cases h

/-- A word and what ends it, at the front of a text. -/
theorem front_word {w cs text : List Char} {c : Char} (hw : ∀ c ∈ w, endsWord c = false)
    (hcs : ∀ c ∈ cs.head?, endsWord c = true) (hfirst : w = [] → ∀ c ∈ cs.head?, c = '\'')
    (htext : w ++ cs = c :: text) :
    isBlank c = false ∧ punctuation c = none ∧ (c :: text).takeWhile (!endsWord ·) = w ∧
      (c :: text).dropWhile (!endsWord ·) = cs := by
  have hc : isBlank c = false ∧ punctuation c = none := by
    cases w with
    | nil =>
        rw [List.nil_append] at htext
        obtain rfl : c = '\'' := hfirst rfl c (by rw [htext]; rfl)
        exact ⟨rfl, rfl⟩
    | cons x w =>
        obtain rfl : x = c := (List.cons.inj htext).1
        exact plain_of_not_endsWord (hw x List.mem_cons_self)
  rw [← htext]
  exact ⟨hc.1, hc.2, span_word hw hcs⟩

/-- A text that spells some tokens is read as them. -/
theorem tokensFrom_of_lexes {total fuel : ℕ} {cs : List Char} {ts : List Token} (h : Lexes cs ts)
    (hfuel : cs.length ≤ fuel) : tokensFrom total fuel cs = .ok ts := by
  induction h generalizing fuel with
  | done => cases fuel <;> rfl
  | @blank c cs ts hblank _ ih =>
      rw [List.length_cons] at hfuel
      obtain ⟨fuel, rfl⟩ : ∃ k, fuel = k + 1 := ⟨fuel - 1, by omega⟩
      rw [tokensFrom, if_pos hblank]
      exact ih (by omega)
  | @mark c t cs ts hmark _ ih =>
      rw [List.length_cons] at hfuel
      obtain ⟨fuel, rfl⟩ : ∃ k, fuel = k + 1 := ⟨fuel - 1, by omega⟩
      rw [tokensFrom, if_neg (by simp [not_isBlank_of_punctuation hmark]), hmark]
      simp only
      rw [ih (by omega)]
      rfl
  | @string kind s cs ts hkind hcs _ ih =>
      have hlen := hfuel
      simp only [List.length_append, List.length_cons] at hlen
      obtain ⟨fuel, rfl⟩ : ∃ k, fuel = k + 1 := ⟨fuel - 1, by omega⟩
      obtain ⟨c, text, htext⟩ := List.exists_cons_of_ne_nil (l := kind ++ '\'' :: (escape s ++ '\'' :: cs)) (by simp)
      obtain ⟨hblank, hmark, htake, hdrop⟩ := front_word hkind (by simp [endsWord_quote]) (by simp) htext
      rw [htext, tokensFrom, if_neg (by simp [hblank]), hmark]
      simp only [htake, hdrop, if_true]
      rw [quoted_escape _ _ _ hcs]
      simp only [List.nil_append]
      rw [ih (by omega)]
      rfl
  | @word w cs ts hne hw hcs _ ih =>
      rw [List.length_append] at hfuel
      have hpos := List.length_pos_iff.2 hne
      obtain ⟨fuel, rfl⟩ : ∃ k, fuel = k + 1 := ⟨fuel - 1, by omega⟩
      obtain ⟨c, text, htext⟩ := List.exists_cons_of_ne_nil (l := w ++ cs) (by simp [hne])
      obtain ⟨hblank, hmark, htake, hdrop⟩ :=
        front_word hw (fun c hc => (hcs c hc).1) (fun h => absurd h hne) htext
      rw [htext, tokensFrom, if_neg (by simp [hblank]), hmark]
      simp only [htake, hdrop]
      have hrest : tokensFrom total fuel cs = .ok ts := ih (by omega)
      cases cs with
      | nil =>
          obtain rfl : ts = [] := by
            cases fuel <;> cases hrest <;> rfl
          rfl
      | cons d rest =>
          simp only
          rw [if_neg (hcs d rfl).2, hrest]
          rfl

/-- **The tokens of a text are those it spells.** -/
theorem tokens_eq_ok_iff {input : String} {ts : List Token} : tokens input = .ok ts ↔ Lexes input.toList ts :=
  ⟨lexes_of_tokensFrom (Nat.le_refl _), fun h => tokensFrom_of_lexes h (Nat.le_refl _)⟩

/-! ### The grammar -/

/-- A path is property names with slashes between them. -/
def IsPath (word : String) (path : List String) : Prop :=
  path ≠ [] ∧ (∀ s ∈ path, isIdent s = true) ∧ word.toList = ['/'].intercalate (path.map String.toList)

/-- The expressions without brackets and operators. -/
inductive Atom (F : Doubles) : List Token → Filter F → Prop
  | startsWith {w p s : String} {path : List String} :
      wordIs "startswith" (.word w) = true → IsPath p path →
        Atom F [.word w, .opening, .word p, .comma, .literal s, .closing] (.startsWith path s)
  | string {w o s : String} {path : List String} {op : Op} :
      wordIs "startswith" (.word w) = false → IsPath w path → opOf o = .ok op →
        Atom F [.word w, .word o, .literal s] (.compare path op (.text s))
  | value {w o v : String} {path : List String} {op : Op} {l : Literal F} :
      wordIs "startswith" (.word w) = false → IsPath w path → opOf o = .ok op → literalOf F v = .ok l →
        Atom F [.word w, .word o, .word v] (.compare path op l)

/-- What the grammar derives: `or`s of `and`s of atoms and of brackets. -/
def Expression (F : Doubles) : List Token → Filter F → Prop := (Parser.grammar F).Derives (Atom F) 2

theorem ofList_map_toList (path : List String) : (path.map String.toList).map String.ofList = path := by
  simp [Function.comp_def]

theorem pathOf_eq_ok_iff {word : String} {path : List String} : pathOf word = .ok path ↔ IsPath word path := by
  rw [pathOf]
  constructor
  · intro h
    split at h
    · rename_i hall
      cases h
      refine ⟨?_, fun s hs => List.all_eq_true.1 hall s hs, ?_⟩
      · simp [Text.splitChar, List.splitOn_ne_nil]
      · simp [Text.splitChar, Function.comp_def, List.intercalate_splitOn]
    · cases h
  · rintro ⟨hne, hall, hword⟩
    have hslash : ∀ l ∈ path.map String.toList, '/' ∉ l := by
      intro l hl hmem
      obtain ⟨s, hs, rfl⟩ := List.mem_map.1 hl
      have hident := hall s hs
      rw [isIdent, Bool.and_eq_true, List.all_eq_true] at hident
      have := hident.2 '/' hmem
      exact absurd this (by decide)
    have hsplit : Text.splitChar '/' word = path := by
      rw [Text.splitChar, hword, List.splitOn_intercalate '/' hslash (by simpa using hne), ofList_map_toList]
    simp only [hsplit]
    exact if_pos (List.all_eq_true.2 hall)

theorem expect_eq_ok_iff {t : Token} {ts rest : List Token} :
    Parser.expect t ts = .ok rest ↔ ts = t :: rest := by
  cases ts with
  | nil => simp [Parser.expect]
  | cons u us =>
      rw [Parser.expect]
      split
      · rename_i h
        simp [h]
      · rename_i h
        simp [h]

variable {f : Filter F} {ts rest : List Token}

theorem startswith_eq_ok_iff : Parser.startswith F ts = .ok (f, rest) ↔
    ∃ p s path, ts = [.opening, .word p, .comma, .literal s, .closing] ++ rest ∧ IsPath p path ∧
      f = .startsWith path s := by
  constructor
  · intro h
    rw [Parser.startswith] at h
    rw [bind_eq_ok] at h
    obtain ⟨us, hopen, h⟩ := h
    obtain rfl := expect_eq_ok_iff.1 hopen
    cases us with
    | nil => cases h
    | cons t us =>
        cases t with
        | word p =>
            rw [bind_eq_ok] at h
            obtain ⟨path, hpath, h⟩ := h
            rw [bind_eq_ok] at h
            obtain ⟨us, hcomma, h⟩ := h
            obtain rfl := expect_eq_ok_iff.1 hcomma
            cases us with
            | nil => cases h
            | cons t us =>
                cases t with
                | literal s =>
                    rw [bind_eq_ok] at h
                    obtain ⟨us, hclose, h⟩ := h
                    obtain rfl := expect_eq_ok_iff.1 hclose
                    cases h
                    exact ⟨p, s, path, rfl, pathOf_eq_ok_iff.1 hpath, rfl⟩
                | word _ | opening | closing | comma => cases h
        | literal _ | opening | closing | comma => cases h
  · rintro ⟨p, s, path, rfl, hpath, rfl⟩
    refine bind_eq_ok.2 ⟨_, expect_eq_ok_iff.2 rfl, bind_eq_ok.2 ⟨_, pathOf_eq_ok_iff.2 hpath, ?_⟩⟩
    exact bind_eq_ok.2 ⟨_, expect_eq_ok_iff.2 rfl, bind_eq_ok.2 ⟨_, expect_eq_ok_iff.2 rfl, rfl⟩⟩

theorem comparison_eq_ok_iff {w : String} : Parser.comparison F w ts = .ok (f, rest) ↔
    ∃ path o op, IsPath w path ∧ opOf o = .ok op ∧
      ((∃ s, ts = [.word o, .literal s] ++ rest ∧ f = .compare path op (.text s)) ∨
        ∃ v l, ts = [.word o, .word v] ++ rest ∧ literalOf F v = .ok l ∧ f = .compare path op l) := by
  constructor
  · intro h
    rw [Parser.comparison] at h
    rw [bind_eq_ok] at h
    obtain ⟨path, hpath, h⟩ := h
    have hpath := pathOf_eq_ok_iff.1 hpath
    cases ts with
    | nil => cases h
    | cons t ts =>
        cases t with
        | word o =>
            rw [bind_eq_ok] at h
            obtain ⟨op, hop, h⟩ := h
            cases ts with
            | nil => cases h
            | cons t ts =>
                cases t with
                | literal s =>
                    cases h
                    exact ⟨path, o, op, hpath, hop, .inl ⟨s, rfl, rfl⟩⟩
                | word v =>
                    rw [bind_eq_ok] at h
                    obtain ⟨l, hl, h⟩ := h
                    cases h
                    exact ⟨path, o, op, hpath, hop, .inr ⟨v, l, rfl, hl, rfl⟩⟩
                | opening | closing | comma => cases h
        | literal _ | opening | closing | comma => cases h
  · rintro ⟨path, o, op, hpath, hop, ⟨s, rfl, rfl⟩ | ⟨v, l, rfl, hl, rfl⟩⟩
    · exact bind_eq_ok.2 ⟨_, pathOf_eq_ok_iff.2 hpath, bind_eq_ok.2 ⟨_, hop, rfl⟩⟩
    · exact bind_eq_ok.2 ⟨_, pathOf_eq_ok_iff.2 hpath,
        bind_eq_ok.2 ⟨_, hop, bind_eq_ok.2 ⟨_, hl, rfl⟩⟩⟩

/-- An expression without brackets and operators ends where it ends, whatever follows. -/
theorem atom_eq_ok_iff : Parser.atom F ts = .ok (f, rest) ↔ ∃ us, ts = us ++ rest ∧ Atom F us f := by
  constructor
  · intro h
    cases ts with
    | nil => cases h
    | cons t ts =>
        cases t with
        | word w =>
            rw [Parser.atom] at h
            split at h
            · rename_i hw
              obtain ⟨p, s, path, rfl, hpath, rfl⟩ := startswith_eq_ok_iff.1 h
              exact ⟨_, rfl, .startsWith hw hpath⟩
            · rename_i hw
              rw [Bool.not_eq_true] at hw
              obtain ⟨path, o, op, hpath, hop, ⟨s, rfl, rfl⟩ | ⟨v, l, rfl, hl, rfl⟩⟩ := comparison_eq_ok_iff.1 h
              · exact ⟨_, rfl, .string hw hpath hop⟩
              · exact ⟨_, rfl, .value hw hpath hop hl⟩
        | literal _ | opening | closing | comma => cases h
  · rintro ⟨us, rfl, h⟩
    cases h with
    | startsWith hw hpath =>
        rw [List.cons_append, Parser.atom, if_pos hw]
        exact startswith_eq_ok_iff.2 ⟨_, _, _, rfl, hpath, rfl⟩
    | string hw hpath hop =>
        rw [List.cons_append, Parser.atom, if_neg (by simp [hw])]
        exact comparison_eq_ok_iff.2 ⟨_, _, _, hpath, hop, .inl ⟨_, rfl, rfl⟩⟩
    | value hw hpath hop hl =>
        rw [List.cons_append, Parser.atom, if_neg (by simp [hw])]
        exact comparison_eq_ok_iff.2 ⟨_, _, _, hpath, hop, .inr ⟨_, _, rfl, hl, rfl⟩⟩

theorem wordIs_iff {word : String} {t : Token} : wordIs word t = true ↔ ∃ w, t = .word w ∧ Text.lower w = word := by
  cases t <;> simp [wordIs]

/-- The words that are operators are told apart, and no bracket is one. -/
theorem lawful (F : Doubles) : (Parser.grammar F).Lawful (Atom F) where
  atom_iff ts f rest := atom_eq_ok_iff
  atom_head us f h := by
    cases h with
    | startsWith => exact ⟨_, _, rfl, rfl⟩
    | string => exact ⟨_, _, rfl, rfl⟩
    | value => exact ⟨_, _, rfl, rfl⟩
  op_unique j k t hj hk := by
    have hword {i : ℕ} (h : (Parser.grammar F).op i t ≠ none) :
        i = 0 ∧ wordIs "and" t = true ∨ i = 1 ∧ wordIs "or" t = true := by
      match i with
      | 0 => exact .inl ⟨rfl, by_contra fun hn => h (if_neg hn)⟩
      | 1 => exact .inr ⟨rfl, by_contra fun hn => h (if_neg hn)⟩
      | i + 2 => exact absurd rfl h
    have hnot (ha : wordIs "and" t = true) (ho : wordIs "or" t = true) : False := by
      obtain ⟨w, rfl, hw⟩ := wordIs_iff.1 ha
      obtain ⟨v, hv, ho⟩ := wordIs_iff.1 ho
      cases hv
      rw [hw] at ho
      exact absurd ho (by decide)
    obtain ⟨rfl, hand⟩ | ⟨rfl, hor⟩ := hword hj
    · obtain ⟨rfl, -⟩ | ⟨rfl, hor⟩ := hword hk
      · rfl
      · exact (hnot hand hor).elim
    · obtain ⟨rfl, hand⟩ | ⟨rfl, -⟩ := hword hk
      · exact (hnot hand hor).elim
      · rfl
  closing_op k t h := by
    obtain rfl : t = .closing := by simpa [Parser.grammar] using h
    match k with
    | 0 => rfl
    | 1 => rfl
    | _ + 2 => rfl

/-- A text that spells an expression is read as it. -/
theorem parse_of_expression {input : String} (hlex : Lexes input.toList ts) (h : Expression F ts f) :
    Filter.parse F input = .ok f :=
  bind_eq_ok.2 ⟨ts, tokens_eq_ok_iff.2 hlex, (Precedence.Grammar.read_eq_ok_iff (lawful F)).2 h⟩

/-- **A filter is read exactly when the grammar derives it** from what its text spells, as the one tree that is
derived; every other text is refused. -/
theorem parse_eq_ok_iff (F : Doubles) (input : String) (f : Filter F) :
    Filter.parse F input = .ok f ↔ ∃ ts, Lexes input.toList ts ∧ Expression F ts f := by
  constructor
  · intro h
    obtain ⟨ts, hts, h⟩ := bind_eq_ok.1 h
    exact ⟨ts, tokens_eq_ok_iff.1 hts, (Precedence.Grammar.read_eq_ok_iff (lawful F)).1 h⟩
  · rintro ⟨ts, hlex, h⟩
    exact parse_of_expression hlex h

end Nutsh.Mock
