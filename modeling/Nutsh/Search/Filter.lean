/-
The filter a term is sent as.

A term is sent to a server as the one literal of an OData filter, a quote in it being doubled.  A kind that
can be filtered by name is asked for the names that begin with the term, any other one for the identifier
the term is, so that but for the literal the filter of a kind is always the same.

Main definitions:

* `odata` — the filter of a kind and a term;
* `asks` — the kinds a search asks for, each with its filter;
* `frame` — the tokens around the literal.

Main results:

* `replace_quote` — doubling the quotes is escaping;
* `tokens_odata` — the tokens of a filter are its frame and the term.
-/
import Nutsh.Lib.OData
import Nutsh.Lib.Replace
import Nutsh.Search

set_option relaxedAutoImplicit false
set_option autoImplicit false

namespace Nutsh.Search

open OData (Token)

/-- The term as it stands between the quotes of a literal. -/
def quote (term : String) : String := Text.replace "'" "''" term

def isHexDigit (c : Char) : Bool := c.isDigit || ('a' ≤ c && c ≤ 'f') || ('A' ≤ c && c ≤ 'F')

/-- Whether a term is a whole identifier. -/
def isUuid (term : String) : Bool :=
  let groups := [8, 4, 4, 4, 12]
  let parts := Text.splitChar '-' term
  parts.length == groups.length &&
    (parts.zip groups).all fun p => p.1.utf8ByteSize == p.2 && p.1.toList.all isHexDigit

/-- The `$filter` a term is sent as to the list of a kind, none when it is matched here instead. -/
def odata (kind : Kind) (q : Query) : Option String :=
  if !kind.filter || q.isEmpty || q.dotted.isSome then none
  else if kind.filterFields.contains "name" then some ("startswith(name,'" ++ quote q.text ++ "')")
  else if kind.filterFields.contains "extId" && isUuid q.text then some ("extId eq '" ++ quote q.text ++ "'")
  else none

/-- A kind a search asks a server for, and the filter that is sent. -/
structure Ask where
  kind : Kind
  filter : Option String

/-- The kinds a term is worth asking about: those that keep an address for one, else those it filters. -/
def asks (catalog : Catalog) (q : Query) : List Ask :=
  if q.isEmpty then []
  else
    (catalog.filter fun k => k.reach catalog == .direct).filterMap fun k =>
      if q.dotted.isSome then (addresses k).head?.map fun _ => { kind := k, filter := none }
      else (odata k q).map fun filter => { kind := k, filter := some filter }

/-! ### What a filter reads -/

/-- The tokens of the filter of a kind before its literal, and those behind it. -/
def frame (kind : Kind) : List Token × List Token :=
  if kind.filterFields.contains "name" then
    ([.word "startswith", .opening, .word "name", .comma], [.closing])
  else ([.word "extId", .word "eq"], [])

/-- Doubling the quotes of a text is escaping it. -/
theorem replace_quote (s : List Char) : Text.replaceList ['\''] ['\'', '\''] 0 s = OData.escape s := by
  induction s with
  | nil => rfl
  | cons c s ih =>
      by_cases hc : c = '\''
      · subst hc
        have hquote : Text.replaceList ['\''] ['\'', '\''] 0 (['\''] ++ s) =
            ['\'', '\''] ++ Text.replaceList ['\''] ['\'', '\''] 0 s := Text.replaceList_append (by simp)
        rw [List.singleton_append] at hquote
        rw [hquote, ih]
        rfl
      · rw [Text.replaceList_cons (by simpa using Ne.symm hc), ih]
        simp [OData.escape, hc]

theorem quote_toList (term : String) : (quote term).toList = OData.escape term.toList := by
  rw [quote, Text.replace, String.toList_ofList]
  exact replace_quote term.toList

/-- A literal behind some tokens and before others is read as the term. -/
theorem tokens_quoted (term : String) {front back : String} {before behind : List Token}
    (hfront : OData.read .between front.toList = (before, .literal []))
    (hback : OData.tokens back = some behind) (hopen : back.toList.head? ≠ some '\'') :
    OData.tokens (front ++ quote term ++ ("'" ++ back)) = some (before ++ .literal term :: behind) := by
  have hlist : (front ++ quote term ++ ("'" ++ back)).toList =
      front.toList ++ (OData.escape term.toList ++ '\'' :: back.toList) := by
    simp [quote_toList]
  have hbehind : OData.run .between back.toList = some behind := hback
  rw [OData.tokens, hlist, OData.run_append, hfront, OData.run_literal _ hopen, hbehind,
    String.ofList_toList]
  rfl

/-- A filter is the quoted term between two texts that are read as the frame of its kind. -/
theorem odata_cases {lower : String → String} {kind : Kind} {term filter : String}
    (h : odata kind (.new lower term) = some filter) :
    ∃ front back, filter = front ++ quote term ++ ("'" ++ back) ∧
      OData.read .between front.toList = ((frame kind).1, .literal []) ∧
        OData.tokens back = some (frame kind).2 ∧ back.toList.head? ≠ some '\'' := by
  rw [odata] at h
  split at h
  · cases h
  split at h
  · rename_i hname
    rw [frame, if_pos hname]
    exact ⟨"startswith(name,'", ")", (Option.some.inj h).symm, by decide +kernel, by decide +kernel, by decide⟩
  split at h
  · rename_i hname hid
    rw [frame, if_neg hname]
    exact ⟨"extId eq '", "", (Option.some.inj h).symm, by decide +kernel, by decide +kernel, by decide⟩
  · cases h

/-- **The tokens of a filter** are those of its kind around the one literal, which is the term. -/
theorem tokens_odata (lower : String → String) (kind : Kind) (term filter : String)
    (h : odata kind (.new lower term) = some filter) :
    OData.tokens filter = some ((frame kind).1 ++ .literal term :: (frame kind).2) := by
  obtain ⟨front, back, rfl, hfront, hback, hopen⟩ := odata_cases h
  exact tokens_quoted term hfront hback hopen

/-- A name with a quote in it. -/
theorem tokens_odata_brien :
    odata { vmKind with filter := true, filterFields := ["name"] } (.new id "o'brien") =
      some "startswith(name,'o''brien')" ∧
    OData.tokens "startswith(name,'o''brien')" =
      some [.word "startswith", .opening, .word "name", .comma, .literal "o'brien", .closing] :=
  have h : odata { vmKind with filter := true, filterFields := ["name"] } (.new id "o'brien") =
      some "startswith(name,'o''brien')" := by decide +kernel
  ⟨h, tokens_odata id _ _ _ h⟩

/-- Every filter a search sends for a term is the frame of its kind around that term. -/
theorem tokens_of_mem_asks (lower : String → String) {catalog : Catalog} {term filter : String} {a : Ask}
    (ha : a ∈ asks catalog (.new lower term)) (hfilter : a.filter = some filter) :
    OData.tokens filter = some ((frame a.kind).1 ++ .literal term :: (frame a.kind).2) := by
  rw [asks] at ha
  split at ha
  · cases ha
  obtain ⟨k, -, hk⟩ := List.mem_filterMap.1 ha
  split at hk
  · obtain ⟨-, -, rfl⟩ := Option.map_eq_some_iff.1 hk
    cases hfilter
  · obtain ⟨sent, hsent, rfl⟩ := Option.map_eq_some_iff.1 hk
    obtain rfl : sent = filter := Option.some.inj hfilter
    obtain ⟨front, back, rfl, hfront, hback, hopen⟩ := odata_cases hsent
    exact tokens_quoted term hfront hback hopen

end Nutsh.Search
