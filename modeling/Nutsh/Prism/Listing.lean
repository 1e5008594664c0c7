/-
A whole list.

A list is asked for page by page.  The first page says, where the server reports it, how many rows there
are, and then all other pages are asked for at once; otherwise page follows page until one is short or
empty.  Both ways end with an error where there are more pages than a client walks, but the second one
also where there are exactly as many and all of them full: it gives up before it asks for the page that
would be empty.

Main definitions:

* `Page`, `pageCount`, `listAll` — one page, the pages that cover a total, and the whole list;
* `serve` — a server whose list does not change;
* `ListsAll` — the list is returned when it fits, and never a part of it.

Main results:

* `walkPages_serve` — what the walk without a total ends with;
* `listsAll_iff` — a list is returned or refused as it should be unless it fills the last page.
-/
import Nutsh.Lib.Pages
import Nutsh.Entity
import Nutsh.Prism.Negotiate

set_option relaxedAutoImplicit false
set_option autoImplicit false

namespace Nutsh.Prism

/-- The rows of one page at most. -/
def PAGE_LIMIT_MAX : ℕ := 100

/-- The pages a client walks at most for one list. -/
def MAX_PAGES : ℕ := 10000

/-! ### The whole list -/

/-- One page, and the number of all rows where the server reports it. -/
structure Page where
  entities : List Entity
  total : Option ℕ

/-- The pages that cover a total, counted in 32 bits. -/
def pageCount (total limit : ℕ) : ℕ := min ((total + (max limit 1 - 1)) / max limit 1) (2 ^ 32 - 1)

/-- The rows of one page that are asked for. -/
def pageLimit (limit : ℕ) : ℕ := min (max limit 1) PAGE_LIMIT_MAX

/-- The walk without a total, at a page with the rows so far; `left` pages may still be asked for. -/
def walkPages (kind : Kind) (limit : ℕ) (listPage : ℕ → Except PrismError Page) :
    ℕ → ℕ → List Entity → Except PrismError (List Entity)
  | left, page, all =>
      if all.length % limit = 0 ∧ all ≠ [] then
        match left with
        | 0 => .error (.decode (kind.id ++ " returned more than " ++ toString MAX_PAGES ++
            " pages without a total"))
        | left + 1 =>
            match listPage page with
            | .error e => .error e
            | .ok next =>
                if next.entities = [] then .ok all
                else walkPages kind limit listPage left (page + 1) (all ++ next.entities)
      else .ok all

/-- The whole list of a kind. -/
def listAll (kind : Kind) (opts : ℕ) (listPage : ℕ → Except PrismError Page) :
    Except PrismError (List Entity) :=
  let limit := pageLimit opts
  match listPage 0 with
  | .error e => .error e
  | .ok first =>
      if !kind.page then .ok first.entities
      else
        match first.total with
        | some total =>
            if limit < total then
              let pages := pageCount total limit
              if MAX_PAGES < pages then
                .error (.decode (kind.id ++ " reported " ++ toString total ++ " rows, which is more than " ++
                  toString MAX_PAGES ++ " pages"))
              else
                match (List.range' 1 (pages - 1)).mapM listPage with
                | .error e => .error e
                | .ok rest => .ok (first.entities ++ rest.flatMap Page.entities)
            else .ok first.entities
        | none => walkPages kind limit listPage (MAX_PAGES - 1) 1 first.entities

/-! ### A list that does not change -/

/-- A server that holds the rows, and reports their number or not. -/
def serve (limit : ℕ) (rows : List Entity) (reports : Bool) (page : ℕ) : Except PrismError Page :=
  .ok { entities := Pages.page limit page rows, total := if reports then some rows.length else none }

/-- The list is returned when it fits in the pages, and refused when it does not. -/
def ListsAll (kind : Kind) (opts : ℕ) (rows : List Entity) (reports : Bool) : Prop :=
  (rows.length ≤ MAX_PAGES * pageLimit opts →
    listAll kind opts (serve (pageLimit opts) rows reports) = .ok rows) ∧
  (MAX_PAGES * pageLimit opts < rows.length →
    ∃ e, listAll kind opts (serve (pageLimit opts) rows reports) = .error e)

variable {kind : Kind} {opts limit : ℕ} {rows : List Entity} {reports : Bool}

theorem pageLimit_pos (opts : ℕ) : 0 < pageLimit opts := by
  have h : 0 < PAGE_LIMIT_MAX := by decide
  rw [pageLimit]
  omega

/-- The pages of a total are too many exactly when the rows do not fit. -/
theorem maxPages_lt_pageCount (hl : 0 < limit) {total : ℕ} :
    MAX_PAGES < pageCount total limit ↔ MAX_PAGES * limit < total := by
  have hmax : max limit 1 = limit := max_eq_left hl
  have hcap : MAX_PAGES < 2 ^ 32 - 1 := by decide
  rw [pageCount, hmax, Nat.lt_min, and_iff_left hcap, Nat.lt_iff_add_one_le, Nat.le_div_iff_mul_le hl,
    Nat.succ_mul]
  omega

/-- The pages of a total that fits cover it. -/
theorem le_pageCount_mul (hl : 0 < limit) {total : ℕ} (hfits : total ≤ MAX_PAGES * limit) :
    total ≤ pageCount total limit * limit := by
  have hmax : max limit 1 = limit := max_eq_left hl
  have hnot : ¬ MAX_PAGES < pageCount total limit := by
    rw [maxPages_lt_pageCount hl]
    omega
  have hcap : MAX_PAGES < 2 ^ 32 - 1 := by decide
  have hceil : pageCount total limit = (total + (limit - 1)) / limit := by
    rw [pageCount, hmax] at hnot ⊢
    omega
  rw [hceil]
  have hdiv := Nat.div_add_mod (total + (limit - 1)) limit
  have hmod := Nat.mod_lt (total + (limit - 1)) hl
  rw [Nat.mul_comm]
  omega

/-- Pages asked for at once. -/
theorem mapM_serve (ps : List ℕ) : ps.mapM (serve limit rows reports) =
    .ok (ps.map fun p => ⟨Pages.page limit p rows, if reports then some rows.length else none⟩) := by
  induction ps with
  | nil => rfl
  | cons p ps ih =>
      rw [List.mapM_cons, ih]
      rfl

theorem walkPages_nil (listPage : ℕ → Except PrismError Page) (left page : ℕ) :
    walkPages kind limit listPage left page [] = .ok [] := by
  cases left <;> simp [walkPages]

/-- The rows end within a page, not at its end. -/
theorem mod_ne_zero {page n : ℕ} (hlow : page * limit < n + limit) (hhigh : n < page * limit) : n % limit ≠ 0 := by
  intro hmod
  obtain ⟨q, rfl⟩ := Nat.dvd_of_mod_eq_zero hmod
  rw [Nat.mul_comm page] at hlow hhigh
  have hlt : q < page := Nat.lt_of_mul_lt_mul_left hhigh
  have hle : limit * (q + 1) ≤ limit * page := Nat.mul_le_mul_left limit hlt
  rw [Nat.mul_succ] at hle
  omega

/-- The walk without a total, at a page before which the rows did not end: it returns the list unless the
list fills the pages left. -/
theorem walkPages_serve (hl : 0 < limit) (left page : ℕ) (hpos : 0 < page)
    (hpage : page * limit < rows.length + limit) :
    (rows.length < (page + left) * limit →
      walkPages kind limit (serve limit rows false) left page (rows.take (page * limit)) = .ok rows) ∧
    ((page + left) * limit ≤ rows.length →
      ∃ e, walkPages kind limit (serve limit rows false) left page (rows.take (page * limit)) = .error e) := by
  induction left generalizing page with
  | zero =>
      rw [Nat.add_zero, walkPages, List.length_take]
      constructor
      · intro hlt
        have hmod := mod_ne_zero hpage hlt
        rw [min_eq_right hlt.le, if_neg fun h => hmod h.1, List.take_of_length_le hlt.le]
      · intro hle
        have hne : rows.take (page * limit) ≠ [] := by
          rw [← List.length_pos_iff, List.length_take, min_eq_left hle]
          exact Nat.mul_pos hpos hl
        rw [min_eq_left hle, Nat.mul_mod_left, if_pos ⟨rfl, hne⟩]
        exact ⟨_, rfl⟩
  | succ left ih =>
      have hsum : (page + (left + 1)) * limit = page * limit + left * limit + limit := by
        rw [Nat.add_mul, Nat.succ_mul, Nat.add_assoc]
      have hnext : (page + 1 + left) * limit = page * limit + left * limit + limit := by
        rw [Nat.add_mul, Nat.succ_mul]
        omega
      rw [walkPages, List.length_take]
      obtain hlt | hle := Nat.lt_or_ge rows.length (page * limit)
      · -- the last page was short
        have hmod := mod_ne_zero hpage hlt
        rw [min_eq_right hlt.le, if_neg fun h => hmod h.1, List.take_of_length_le hlt.le]
        exact ⟨fun _ => rfl, fun hle => by omega⟩
      · have hne : rows.take (page * limit) ≠ [] := by
          rw [← List.length_pos_iff, List.length_take, min_eq_left hle]
          exact Nat.mul_pos hpos hl
        rw [min_eq_left hle, Nat.mul_mod_left, if_pos ⟨rfl, hne⟩]
        simp only [serve]
        obtain heq | hlt := Nat.eq_or_lt_of_le hle
        · -- the list ended with a full page, and the next one is empty
          have hempty : Pages.page limit page rows = [] := (Pages.page_eq_nil_iff hl).2 heq.ge
          rw [if_pos hempty, List.take_of_length_le heq.ge]
          exact ⟨fun _ => rfl, fun hle => by omega⟩
        · have hmore : Pages.page limit page rows ≠ [] := by
            rw [ne_eq, Pages.page_eq_nil_iff hl]
            omega
          rw [if_neg hmore, ← Pages.take_succ_mul, hsum, ← hnext]
          refine ih (page + 1) (Nat.succ_pos page) ?_
          rw [Nat.succ_mul]
          omega

theorem page_zero (l : ℕ) (rows : List Entity) : Pages.page l 0 rows = rows.take l := by
  rw [Pages.page, Nat.zero_mul, List.drop_zero]

/-- Without a total the list is walked. -/
theorem listAll_unreported (hpage : kind.page = true) :
    listAll kind opts (serve (pageLimit opts) rows false) =
      walkPages kind (pageLimit opts) (serve (pageLimit opts) rows false) (MAX_PAGES - 1) 1
        (rows.take (pageLimit opts)) := by
  simp only [listAll, hpage]
  simp [serve, page_zero]

/-- The list is returned, where it fits, and refused, where it does not, unless no total is reported and
the list fills the last page a client walks. -/
theorem listsAll_iff (hpage : kind.page = true) :
    ListsAll kind opts rows reports ↔ ¬ (reports = false ∧ rows.length = MAX_PAGES * pageLimit opts) := by
  have hl : 0 < pageLimit opts := pageLimit_pos opts
  have hmax : (1 + (MAX_PAGES - 1)) * pageLimit opts = MAX_PAGES * pageLimit opts := rfl
  cases reports with
  | false =>
      rw [ListsAll, listAll_unreported hpage]
      cases hrows : rows with
      | nil =>
          have hpos : 0 < MAX_PAGES * pageLimit opts := Nat.mul_pos (by decide) hl
          refine ⟨fun _ h => ?_, fun _ => ⟨fun _ => ?_, fun h => absurd h (Nat.not_lt_zero _)⟩⟩
          · have hzero : 0 = MAX_PAGES * pageLimit opts := h.2
            omega
          · rw [List.take_nil, walkPages_nil]
      | cons e es =>
          rw [← hrows]
          have hlow : 1 * pageLimit opts < rows.length + pageLimit opts := by
            rw [hrows, List.length_cons]
            omega
          obtain ⟨hok, herr⟩ := @walkPages_serve kind _ rows hl (MAX_PAGES - 1) 1 Nat.one_pos hlow
          rw [hmax, Nat.one_mul] at hok herr
          constructor
          · rintro ⟨hfits, -⟩ ⟨-, hfull⟩
            obtain ⟨e, he⟩ := herr hfull.ge
            rw [hfits hfull.le] at he
            cases he
          · intro hnot
            refine ⟨fun hle => hok ?_, fun hlt => herr hlt.le⟩
            obtain heq | hlt := Nat.eq_or_lt_of_le hle
            · exact absurd ⟨rfl, heq⟩ hnot
            · exact hlt
  | true =>
      refine ⟨fun _ h => Bool.noConfusion h.1, fun _ => ?_⟩
      have hlist : listAll kind opts (serve (pageLimit opts) rows true) =
          if pageLimit opts < rows.length then
            if MAX_PAGES < pageCount rows.length (pageLimit opts) then
              .error (.decode (kind.id ++ " reported " ++ toString rows.length ++ " rows, which is more than " ++
                toString MAX_PAGES ++ " pages"))
            else .ok (rows.take (pageLimit opts) ++
              (List.range' 1 (pageCount rows.length (pageLimit opts) - 1)).flatMap fun p =>
                Pages.page (pageLimit opts) p rows)
          else .ok (rows.take (pageLimit opts)) := by
        simp only [listAll, hpage, mapM_serve]
        simp [serve, page_zero, List.flatMap_map]
      rw [ListsAll, hlist]
      by_cases hmore : pageLimit opts < rows.length
      · rw [if_pos hmore]
        constructor
        · intro hfits
          have hcover := le_pageCount_mul hl hfits
          rw [if_neg (by rw [maxPages_lt_pageCount hl]; omega), Pages.flatMap_page, Nat.one_mul]
          have hrest : (rows.drop (pageLimit opts)).length ≤
              (pageCount rows.length (pageLimit opts) - 1) * pageLimit opts := by
            rw [List.length_drop, Nat.sub_mul, Nat.one_mul]
            omega
          rw [List.take_of_length_le hrest, List.take_append_drop]
        · intro hlt
          rw [if_pos ((maxPages_lt_pageCount hl).2 hlt)]
          exact ⟨_, rfl⟩
      · rw [if_neg hmore]
        have hle : rows.length ≤ MAX_PAGES * pageLimit opts :=
          (not_lt.1 hmore).trans (Nat.le_mul_of_pos_left _ (by decide))
        exact ⟨fun _ => by rw [List.take_of_length_le (not_lt.1 hmore)], fun hlt => absurd hlt (not_lt.2 hle)⟩

/-- A list whose total is reported is returned or refused as it should be. -/
theorem listsAll_iff_reported :
    ListsAll { id := "" } 2 (List.replicate 3 (.new { id := "" } .null none)) true :=
  (listsAll_iff rfl).2 fun h => Bool.noConfusion h.1

/-- A list of as many pages as a client walks, all of them full, is refused. -/
theorem not_listsAll : ¬ ∀ (kind : Kind) (opts : ℕ) (rows : List Entity) (reports : Bool), kind.page = true →
    ListsAll kind opts rows reports := by
  intro hall
  let rows := List.replicate (MAX_PAGES * pageLimit 1) (Entity.new { id := "" } .null none)
  have hlen : rows.length = MAX_PAGES * pageLimit 1 := List.length_replicate
  have hok := (hall { id := "" } 1 rows false rfl).1 hlen.le
  have hlow : 1 * pageLimit 1 < rows.length + pageLimit 1 := by
    rw [hlen]
    decide
  obtain ⟨e, he⟩ := (@walkPages_serve { id := "" } _ rows (pageLimit_pos 1) (MAX_PAGES - 1) 1 Nat.one_pos hlow).2
    hlen.ge
  rw [listAll_unreported rfl, ← Nat.one_mul (pageLimit 1)] at hok
  rw [Nat.one_mul] at he hok
  rw [he] at hok
  cases hok

end Nutsh.Prism
