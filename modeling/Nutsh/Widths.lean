/-
The widths of a table's columns.

A frame is split across the columns: those of a fixed width take it first.  A flexible column gets its whole
content when its share by weight covers it, and what it leaves raises the shares of the others.  What remains in
the end is shared by weight, and the cells lost to rounding are handed out one by one.

The sums, products and differences are those of a `u32`; a result that does not fit is an error.

* `ColWidth`, `distributeColumnWidths` — the rules of the columns, and the split;
* `waterfall_spec` — who is granted their content, and that nobody else's share covers it;
* `shareByWeight_spec` — the rest is handed out to the last cell;
* `distribute_spec` — the widths of a split: where they come from and what they sum up to;
* `distribute_fair` — when the fixed widths fit, the widths sum up to the budget, and padding is trimmed first.
-/
import Nutsh.Lib.Shares
import Mathlib.Algebra.BigOperators.Group.List.Basic
import Mathlib.Data.List.Nodup
import Mathlib.Data.List.Sigma

set_option relaxedAutoImplicit false
set_option autoImplicit false

namespace Nutsh.Widths

/-- How the width of a column is decided. -/
inductive ColWidth where
  | exact (width : UInt16)
  | cap (cap : UInt16)
  | flex (weight : UInt16)
  deriving DecidableEq

/-- A sum or a product of `u32`s. -/
def u32 (n : ℕ) : Option ℕ := if n < 2 ^ 32 then some n else none

/-- A difference of `u32`s. -/
def sub32 (n m : ℕ) : Option ℕ := if m ≤ n then some (n - m) else none

def sum32 (cells : List ℕ) : Option ℕ := cells.foldlM (fun total n => u32 (total + n)) 0

/-- A number of cells as a `u16`, the greatest one where it does not fit. -/
def toU16 (n : ℕ) : ℕ := min n 65535

/-- A flexible column: where it stands, its weight, and the cells of its content. -/
structure Flexible where
  index : ℕ
  weight : ℕ
  needed : ℕ

def addCells (widths : List ℕ) (i n : ℕ) : List ℕ := widths.modify i fun w => toU16 (w + toU16 n)

/-- The list with an item replaced by the last one, and that one gone. -/
def swapRemove {α : Type*} (items : List α) (p : ℕ) : List α :=
  match items.getLast? with
  | some last => (items.set p last).dropLast
  | none => []

/-- The first column whose share covers its content. -/
def firstCovered (left total : ℕ) : List Flexible → Option (Option ℕ)
  | [] => some none
  | c :: cs => do
      let product ← u32 (left * c.weight)
      if c.needed ≤ product / total then return some 0
      return (← firstCovered left total cs).map (· + 1)

/-- Grants a column its content as long as some share covers one; a column is taken out by each turn. -/
def waterfall : ℕ → List Flexible → ℕ → List ℕ → Option (List Flexible × ℕ × List ℕ)
  | 0, unsat, left, widths => some (unsat, left, widths)
  | turns + 1, unsat, left, widths => do
      let total ← sum32 (unsat.map Flexible.weight)
      if total = 0 then return (unsat, left, widths)
      match ← firstCovered left total unsat with
      | none => return (unsat, left, widths)
      | some p =>
          let c ← unsat[p]?
          waterfall turns (swapRemove unsat p) (← sub32 left c.needed) (widths.set c.index (toU16 c.needed))

/-- One cell more for each column, as long as there are any left. -/
def handOut : ℕ → List Flexible → List ℕ → List ℕ
  | left + 1, c :: cs, widths => handOut left cs (addCells widths c.index 1)
  | _, _, widths => widths

/-- Gives a column its share of what was left at first, out of what is left now. -/
def giveShare (budget total : ℕ) : ℕ × List ℕ → Flexible → Option (ℕ × List ℕ)
  | (left, widths), c => do
      let share := (← u32 (budget * c.weight)) / total
      return (← sub32 left share, addCells widths c.index share)

def shareByWeight (left : ℕ) (cols : List Flexible) (widths : List ℕ) : Option (List ℕ) := do
  let total ← sum32 (cols.map Flexible.weight)
  if total = 0 then return widths
  let (rest, widths) ← cols.foldlM (giveShare left total) (left, widths)
  return handOut rest cols widths

/-- The width a column takes first. -/
def reserved : ColWidth × UInt16 → ℕ
  | (.exact w, _) => w.toNat
  | (.cap cap, needed) => min needed.toNat cap.toNat
  | (.flex _, _) => 0

/-- The weight a column bids with. -/
def weightOf : ColWidth × UInt16 → ℕ
  | (.flex w, _) => w.toNat
  | _ => 0

def asFlexible : (ColWidth × UInt16) × ℕ → Option Flexible
  | ((.flex w, needed), i) => some { index := i, weight := w.toNat, needed := needed.toNat }
  | _ => none

def flexible (cols : List (ColWidth × UInt16)) : List Flexible := cols.zipIdx.filterMap asFlexible

/-- The budget split across the columns, each given by its rule and the cells of its content. -/
def distributeColumnWidths (budget : UInt16) (cols : List (ColWidth × UInt16)) : Option (List ℕ) := do
  let widths := cols.map reserved
  let fixed ← sum32 widths
  let left := budget.toNat - fixed
  let flex := flexible cols
  let (unsat, left, widths) ← waterfall flex.length flex left widths
  if unsat.isEmpty then shareByWeight left flex widths else shareByWeight left unsat widths

example : distributeColumnWidths 28 [(.flex 6, 10), (.flex 1, 40), (.exact 3, 0)] = some [10, 15, 3] := by decide

/-! ### Sums -/

theorem u32_of_lt {n : ℕ} (h : n < 2 ^ 32) : u32 n = some n := if_pos h

theorem u32_of_le {n : ℕ} (h : 2 ^ 32 ≤ n) : u32 n = none := if_neg (Nat.not_lt.2 h)

theorem sub32_of_le {n m : ℕ} (h : m ≤ n) : sub32 n m = some (n - m) := if_pos h

theorem foldlM_u32 (cells : List ℕ) (total : ℕ) (htotal : total < 2 ^ 32) :
    cells.foldlM (fun total n => u32 (total + n)) total = u32 (total + cells.sum) := by
  induction cells generalizing total with
  | nil => exact (u32_of_lt htotal).symm
  | cons n cells ih =>
      rw [List.foldlM_cons, List.sum_cons, ← Nat.add_assoc]
      rcases Nat.lt_or_ge (total + n) (2 ^ 32) with h | h
      · rw [u32_of_lt h]
        exact ih (total + n) h
      · rw [u32_of_le h, u32_of_le (Nat.le_add_right_of_le h)]
        rfl

theorem sum32_eq (cells : List ℕ) : sum32 cells = u32 cells.sum := by
  rw [sum32, foldlM_u32 cells 0 (by decide), Nat.zero_add]

/-- The share of a column fits: no weight and no budget is more than a `u16`. -/
theorem u32_mul {left weight : ℕ} (hleft : left ≤ 65535) (hweight : weight ≤ 65535) :
    u32 (left * weight) = some (left * weight) :=
  u32_of_lt (by have := Nat.mul_le_mul hleft hweight; omega)

/-! ### Granting cells -/

theorem toU16_of_le {n : ℕ} (h : n ≤ 65535) : toU16 n = n := Nat.min_eq_left h

/-- Cells added to one column after another. -/
def grantAll (grants : List (ℕ × ℕ)) (widths : List ℕ) : List ℕ :=
  grants.foldl (fun widths g => addCells widths g.1 g.2) widths

theorem addCells_eq {widths : List ℕ} {i n w : ℕ} (hw : widths[i]? = some w) (hfit : w + n ≤ 65535) :
    addCells widths i n = widths.set i (w + n) := by
  rw [addCells, List.modify_eq_set_getElem?, hw]
  simp [toU16_of_le (show n ≤ 65535 by omega), toU16_of_le hfit]

theorem sum_set {widths : List ℕ} {i w : ℕ} (n : ℕ) (hw : widths[i]? = some w) :
    (widths.set i n).sum + w = widths.sum + n := by
  induction widths generalizing i with
  | nil => simp at hw
  | cons v widths ih =>
      cases i with
      | zero =>
          have hv : v = w := by simpa using hw
          rw [List.set_cons_zero, List.sum_cons, List.sum_cons, hv]
          omega
      | succ i =>
          have ih := ih (i := i) (by simpa using hw)
          rw [List.set_cons_succ, List.sum_cons, List.sum_cons]
          omega

theorem length_grantAll (grants : List (ℕ × ℕ)) (widths : List ℕ) :
    (grantAll grants widths).length = widths.length := by
  induction grants generalizing widths with
  | nil => rfl
  | cons g grants ih =>
      rw [grantAll, List.foldl_cons]
      exact (ih _).trans (List.length_modify ..)

theorem grantAll_spec {grants : List (ℕ × ℕ)} {widths : List ℕ} (hnodup : (grants.map Prod.fst).Nodup)
    (hfit : ∀ g ∈ grants, ∃ w, widths[g.1]? = some w ∧ w + g.2 ≤ 65535) :
    (grantAll grants widths).sum = widths.sum + (grants.map Prod.snd).sum ∧
      (∀ g ∈ grants, ∀ w, widths[g.1]? = some w → (grantAll grants widths)[g.1]? = some (w + g.2)) ∧
      ∀ i, i ∉ grants.map Prod.fst → (grantAll grants widths)[i]? = widths[i]? := by
  induction grants generalizing widths with
  | nil => exact ⟨rfl, by simp, fun _ _ => rfl⟩
  | cons g grants ih =>
      obtain ⟨hg, hnodup⟩ := List.nodup_cons.1 hnodup
      obtain ⟨w, hw, hle⟩ := hfit g List.mem_cons_self
      have hset : grantAll (g :: grants) widths = grantAll grants (widths.set g.1 (w + g.2)) := by
        rw [grantAll, List.foldl_cons, addCells_eq hw hle, grantAll]
      have hother (i : ℕ) (hi : i ≠ g.1) : (widths.set g.1 (w + g.2))[i]? = widths[i]? :=
        List.getElem?_set_ne hi.symm
      have hne {k : ℕ × ℕ} (hk : k ∈ grants) : k.1 ≠ g.1 := fun h => hg (h ▸ List.mem_map_of_mem hk)
      have hlt : g.1 < widths.length := (List.getElem?_eq_some_iff.1 hw).1
      have hfit' : ∀ k ∈ grants, ∃ v, (widths.set g.1 (w + g.2))[k.1]? = some v ∧ v + k.2 ≤ 65535 := by
        intro k hk
        rw [hother k.1 (hne hk)]
        exact hfit k (List.mem_cons_of_mem g hk)
      obtain ⟨hsum, hgranted, hrest⟩ := ih hnodup hfit'
      rw [hset]
      refine ⟨?_, List.forall_mem_cons.2 ⟨fun v hv => ?_, fun k hk v hv => ?_⟩, fun i hi => ?_⟩
      · have := sum_set (w + g.2) hw
        rw [hsum, List.map_cons, List.sum_cons]
        omega
      · rw [hrest g.1 hg, List.getElem?_set_self hlt, Option.some.inj (hw.symm.trans hv)]
      · exact hgranted k hk v (by rw [hother k.1 (hne hk), hv])
      · rw [List.map_cons, List.mem_cons, not_or] at hi
        rw [hrest i hi.2, hother i hi.1]

/-! ### The rest -/

theorem handOut_eq (left : ℕ) (cols : List Flexible) (widths : List ℕ) :
    handOut left cols widths = grantAll ((cols.take left).map fun c => (c.index, 1)) widths := by
  induction cols generalizing left widths with
  | nil => cases left <;> rfl
  | cons c cols ih =>
      cases left with
      | zero => rfl
      | succ left =>
          rw [handOut, ih]
          rfl

theorem foldlM_giveShare {budget total left : ℕ} {cols : List Flexible} (widths : List ℕ)
    (hbudget : budget ≤ 65535) (hweight : ∀ c ∈ cols, c.weight ≤ 65535)
    (hleft : (cols.map fun c => Shares.share budget total c.weight).sum ≤ left) :
    cols.foldlM (giveShare budget total) (left, widths) =
      some (left - (cols.map fun c => Shares.share budget total c.weight).sum,
        grantAll (cols.map fun c => (c.index, Shares.share budget total c.weight)) widths) := by
  induction cols generalizing left widths with
  | nil => rfl
  | cons c cols ih =>
      rw [List.map_cons, List.sum_cons] at hleft
      have hgive : giveShare budget total (left, widths) c =
          some (left - Shares.share budget total c.weight,
            addCells widths c.index (Shares.share budget total c.weight)) := by
        rw [giveShare, u32_mul hbudget (hweight c List.mem_cons_self)]
        have hsub := sub32_of_le (show Shares.share budget total c.weight ≤ left by omega)
        rw [Shares.share] at hsub ⊢
        simp [hsub]
      rw [List.foldlM_cons, hgive]
      refine (ih _ (fun d hd => hweight d (List.mem_cons_of_mem c hd)) (by omega)).trans ?_
      rw [List.map_cons, List.sum_cons, List.map_cons, ← Nat.sub_sub]
      rfl

/-- Cells given to some columns, each its own number of them. -/
theorem grantAll_map_spec {cols : List Flexible} (cells : Flexible → ℕ) (widths : List ℕ)
    (hnodup : (cols.map Flexible.index).Nodup)
    (hfit : ∀ c ∈ cols, ∃ w, widths[c.index]? = some w ∧ w + cells c ≤ 65535) :
    (grantAll (cols.map fun c => (c.index, cells c)) widths).sum = widths.sum + (cols.map cells).sum ∧
      (∀ c ∈ cols, ∀ w, widths[c.index]? = some w →
        (grantAll (cols.map fun c => (c.index, cells c)) widths)[c.index]? = some (w + cells c)) ∧
      ∀ i, i ∉ cols.map Flexible.index →
        (grantAll (cols.map fun c => (c.index, cells c)) widths)[i]? = widths[i]? := by
  have hfst : (cols.map fun c => (c.index, cells c)).map Prod.fst = cols.map Flexible.index := by
    rw [List.map_map]
    rfl
  have hsnd : (cols.map fun c => (c.index, cells c)).map Prod.snd = cols.map cells := by
    rw [List.map_map]
    rfl
  obtain ⟨hsum, hat, hother⟩ := grantAll_spec (hfst ▸ hnodup) (List.forall_mem_map.2 hfit)
  rw [hsnd] at hsum
  rw [hfst] at hother
  exact ⟨hsum, fun c hc => hat (c.index, cells c) (List.mem_map_of_mem hc), hother⟩

/-- The shares of what is left: together no more than it, and short of it by less than a cell a column. -/
theorem shares_spec {total : ℕ} {cols : List Flexible} (left : ℕ) (hpos : 0 < total)
    (hsum : (cols.map Flexible.weight).sum = total) :
    (cols.map fun c => Shares.share left total c.weight).sum ≤ left ∧
      left - (cols.map fun c => Shares.share left total c.weight).sum < cols.length := by
  have hmap : (cols.map fun c => Shares.share left total c.weight) =
      (cols.map Flexible.weight).map (Shares.share left total) := by
    rw [List.map_map]
    rfl
  rw [hmap, ← List.length_map Flexible.weight]
  exact ⟨Shares.sum_share_le hpos hsum, Shares.sub_sum_share_lt hpos hsum⟩

/-- What is left shared: the shares are given first, and the cells they leave one by one. -/
theorem shareByWeight_eq {left total rest : ℕ} {cols : List Flexible} (widths : List ℕ) (hleft : left ≤ 65535)
    (hweight : ∀ c ∈ cols, c.weight ≤ 65535) (hpos : 0 < total)
    (hsum : (cols.map Flexible.weight).sum = total) (htotal : total < 2 ^ 32)
    (hrest : left - (cols.map fun c => Shares.share left total c.weight).sum = rest) :
    shareByWeight left cols widths = some (grantAll ((cols.take rest).map fun c => (c.index, 1))
      (grantAll (cols.map fun c => (c.index, Shares.share left total c.weight)) widths)) := by
  rw [shareByWeight, sum32_eq, hsum, u32_of_lt htotal]
  simp only [Option.bind_eq_bind, Option.bind_some, if_neg hpos.ne']
  rw [foldlM_giveShare widths hleft hweight (shares_spec left hpos hsum).1, hrest]
  exact congrArg some (handOut_eq ..)

/-- What sharing the rest among some columns comes to: their shares, and one cell more for some. -/
theorem shareByWeight_spec {left : ℕ} {cols : List Flexible} {widths : List ℕ}
    (hnodup : (cols.map Flexible.index).Nodup) (hleft : left ≤ 65535) (hweight : ∀ c ∈ cols, c.weight ≤ 65535)
    (hpos : 0 < (cols.map Flexible.weight).sum) (htotal : (cols.map Flexible.weight).sum < 2 ^ 32)
    (hfit : ∀ c ∈ cols, ∃ w, widths[c.index]? = some w ∧ w + left ≤ 65535) :
    ∃ widths', shareByWeight left cols widths = some widths' ∧ widths'.length = widths.length ∧
      widths'.sum = widths.sum + left ∧
      (∀ c ∈ cols, ∀ w, widths[c.index]? = some w → ∃ extra ≤ 1, widths'[c.index]? =
        some (w + (Shares.share left (cols.map Flexible.weight).sum c.weight + extra))) ∧
      ∀ i, i ∉ cols.map Flexible.index → widths'[i]? = widths[i]? := by
  obtain ⟨total, hsum⟩ : ∃ total, (cols.map Flexible.weight).sum = total := ⟨_, rfl⟩
  rw [hsum] at hpos htotal ⊢
  obtain ⟨hle, hlt⟩ := shares_spec left hpos hsum
  obtain ⟨rest, hrest⟩ : ∃ rest, left - (cols.map fun c => Shares.share left total c.weight).sum = rest := ⟨_, rfl⟩
  rw [hrest] at hlt
  have hshare : ∀ c ∈ cols, Shares.share left total c.weight ≤ left - rest := by
    intro c hc
    have hmem : Shares.share left total c.weight ≤ (cols.map fun c => Shares.share left total c.weight).sum :=
      List.le_sum_of_mem (List.mem_map_of_mem hc)
    omega
  -- the shares first
  have hfirst : ∀ c ∈ cols, ∃ w, widths[c.index]? = some w ∧
      w + Shares.share left total c.weight ≤ 65535 := by
    intro c hc
    obtain ⟨w, hw, hroom⟩ := hfit c hc
    have := hshare c hc
    exact ⟨w, hw, by omega⟩
  obtain ⟨hsum₁, hat₁, hother₁⟩ :=
    grantAll_map_spec (fun c => Shares.share left total c.weight) widths hnodup hfirst
  -- then the rest, one by one
  have hnodup' : ((cols.take rest).map Flexible.index).Nodup := by
    rw [List.map_take]
    exact hnodup.sublist (List.take_sublist ..)
  have hsecond : ∀ c ∈ cols.take rest, ∃ w,
      (grantAll (cols.map fun c => (c.index, Shares.share left total c.weight)) widths)[c.index]? = some w ∧
        w + 1 ≤ 65535 := by
    intro c hc
    have hrestpos : 0 < rest := by
      rcases Nat.eq_zero_or_pos rest with hzero | hpos
      · rw [hzero, List.take_zero] at hc
        exact absurd hc List.not_mem_nil
      · exact hpos
    have hc := List.mem_of_mem_take hc
    obtain ⟨w, hw, hroom⟩ := hfit c hc
    have := hshare c hc
    exact ⟨_, hat₁ c hc w hw, by omega⟩
  obtain ⟨hsum₂, hat₂, hother₂⟩ := grantAll_map_spec (fun _ => 1) _ hnodup' hsecond
  have hones : ((cols.take rest).map fun _ => 1).sum = rest := by
    rw [List.map_const', List.sum_replicate, List.length_take]
    simp
    omega
  refine ⟨_, shareByWeight_eq widths hleft hweight hpos hsum htotal hrest,
    by rw [length_grantAll, length_grantAll], ?_, fun c hc w hw => ?_, fun i hi => ?_⟩
  · rw [hsum₂, hsum₁, hones]
    omega
  · by_cases hone : c ∈ cols.take rest
    · exact ⟨1, le_rfl, hat₂ c hone _ (hat₁ c hc w hw)⟩
    · refine ⟨0, Nat.zero_le 1, ?_⟩
      rw [hother₂ c.index fun h => ?_, hat₁ c hc w hw, Nat.add_zero]
      obtain ⟨d, hd, hdc⟩ := List.mem_map.1 h
      exact hone (List.inj_on_of_nodup_map hnodup (List.mem_of_mem_take hd) hc hdc ▸ hd)
  · rw [hother₂ i fun h => hi (List.map_subset _ (List.take_subset ..) h), hother₁ i hi]

/-! ### The waterfall -/

theorem swapRemove_perm {α : Type*} {items : List α} {p : ℕ} {x : α} (h : items[p]? = some x) :
    (x :: swapRemove items p).Perm items := by
  rcases List.eq_nil_or_concat items with rfl | ⟨front, last, rfl⟩
  · simp at h
  · rw [List.concat_eq_append] at h ⊢
    rw [swapRemove, List.getLast?_append, List.getLast?_singleton, Option.some_or]
    dsimp only
    rcases Nat.lt_or_ge p front.length with hp | hp
    · rw [List.getElem?_append_left hp] at h
      rw [List.set_append_left _ _ hp, List.dropLast_concat]
      have hfront : front.take p ++ x :: front.drop (p + 1) = front := by
        rw [← (List.getElem?_eq_some_iff.1 h).2, List.cons_getElem_drop_succ, List.take_append_drop]
      rw [List.set_eq_take_append_cons_drop, if_pos hp]
      refine .trans ?_ (List.perm_append_comm : ([last] ++ front).Perm (front ++ [last]))
      rw [List.singleton_append]
      refine .trans (.cons x List.perm_middle) ?_
      refine .trans (.swap ..) (.cons last ?_)
      exact .trans List.perm_middle.symm (.of_eq hfront)
    · have hp : p = front.length := by
        have := (List.getElem?_eq_some_iff.1 h).1
        rw [List.length_append, List.length_singleton] at this
        omega
      subst hp
      have hx : last = x := by simpa using h
      rw [hx, List.set_append_right _ _ (le_refl _), Nat.sub_self, List.set_cons_zero, List.dropLast_concat]
      exact (List.perm_append_comm : ([x] ++ front).Perm (front ++ [x]))

theorem firstCovered_spec {left total : ℕ} {cols : List Flexible} (hleft : left ≤ 65535)
    (hweight : ∀ c ∈ cols, c.weight ≤ 65535) :
    (firstCovered left total cols = some none ∧ ∀ c ∈ cols, Shares.share left total c.weight < c.needed) ∨
      ∃ p c, firstCovered left total cols = some (some p) ∧ cols[p]? = some c ∧
        c.needed ≤ Shares.share left total c.weight := by
  induction cols with
  | nil => exact .inl ⟨rfl, by simp⟩
  | cons c cols ih =>
      rw [firstCovered, u32_mul hleft (hweight c List.mem_cons_self)]
      by_cases hcovered : c.needed ≤ left * c.weight / total
      · exact .inr ⟨0, c, by simp [hcovered], rfl, hcovered⟩
      · rcases ih fun d hd => hweight d (List.mem_cons_of_mem c hd) with ⟨hnone, hall⟩ | ⟨p, d, hsome, hd, hle⟩
        · refine .inl ⟨by simp [hcovered, hnone], List.forall_mem_cons.2 ⟨Nat.lt_of_not_ge hcovered, hall⟩⟩
        · exact .inr ⟨p + 1, d, by simp [hcovered, hsome], hd, hle⟩

/-- What the turns keep: those taken out have their content, the others nothing yet, and no cell is lost. -/
structure Poured (flex : List Flexible) (initial : List ℕ) (budget : ℕ) (granted unsat : List Flexible)
    (left : ℕ) (widths : List ℕ) : Prop where
  length : widths.length = initial.length
  sum : widths.sum + left = initial.sum + budget
  perm : (granted ++ unsat).Perm flex
  content : ∀ c ∈ granted, widths[c.index]? = some c.needed
  empty : ∀ c ∈ unsat, widths[c.index]? = some 0
  other : ∀ i, i ∉ flex.map Flexible.index → widths[i]? = initial[i]?
  room : ∀ c ∈ granted, c.needed + left ≤ budget
  le : left ≤ budget

variable {flex granted unsat : List Flexible} {initial widths : List ℕ} {budget left : ℕ}

theorem Poured.grant (h : Poured flex initial budget granted unsat left widths)
    (hnodup : (flex.map Flexible.index).Nodup) (hbudget : budget ≤ 65535) {p : ℕ} {c : Flexible}
    (hc : unsat[p]? = some c) (hle : c.needed ≤ left) :
    Poured flex initial budget (c :: granted) (swapRemove unsat p) (left - c.needed)
      (widths.set c.index (toU16 c.needed)) := by
  have hle' := h.le
  have hperm : (c :: granted ++ swapRemove unsat p).Perm (granted ++ unsat) :=
    .trans List.perm_middle.symm (.append_left granted (swapRemove_perm hc))
  have hmem : c ∈ unsat := List.mem_of_getElem? hc
  have hzero := h.empty c hmem
  have hlt : c.index < widths.length := (List.getElem?_eq_some_iff.1 hzero).1
  have hnodup' : ((c :: (granted ++ swapRemove unsat p)).map Flexible.index).Nodup :=
    (List.Perm.map Flexible.index (hperm.trans h.perm)).nodup_iff.2 hnodup
  have hne {d : Flexible} (hd : d ∈ granted ++ swapRemove unsat p) : c.index ≠ d.index := fun heq =>
    (List.nodup_cons.1 hnodup').1 (heq ▸ List.mem_map_of_mem hd)
  have hstays {d : Flexible} (hd : d ∈ granted ++ swapRemove unsat p) :
      (widths.set c.index (toU16 c.needed))[d.index]? = widths[d.index]? := List.getElem?_set_ne (hne hd)
  rw [toU16_of_le (by omega)] at hstays ⊢
  refine
    { length := (List.length_set ..).trans h.length
      sum := ?_
      perm := hperm.trans h.perm
      content := List.forall_mem_cons.2 ⟨List.getElem?_set_self hlt, fun d hd => ?_⟩
      empty := fun d hd => ?_
      other := fun i hi => ?_
      room := List.forall_mem_cons.2 ⟨by omega, fun d hd => ?_⟩
      le := by omega }
  · have := sum_set c.needed hzero
    have := h.sum
    omega
  · rw [hstays (List.mem_append_left _ hd), h.content d hd]
  · rw [hstays (List.mem_append_right _ hd), h.empty d ((swapRemove_perm hc).mem_iff.1 (List.mem_cons_of_mem c hd))]
  · have hi' : c.index ≠ i := fun heq =>
      hi (heq ▸ List.mem_map_of_mem (h.perm.mem_iff.1 (List.mem_append_right granted hmem)))
    rw [List.getElem?_set_ne hi', h.other i hi]
  · have := h.room d hd
    omega

theorem waterfall_spec (hnodup : (flex.map Flexible.index).Nodup) (hbudget : budget ≤ 65535)
    (hweight : ∀ c ∈ flex, 0 < c.weight ∧ c.weight ≤ 65535) (htotal : (flex.map Flexible.weight).sum < 2 ^ 32)
    {turns : ℕ} (hturns : turns = unsat.length) (h : Poured flex initial budget granted unsat left widths) :
    ∃ granted' unsat' left' widths', waterfall turns unsat left widths = some (unsat', left', widths') ∧
      Poured flex initial budget granted' unsat' left' widths' ∧
      ∀ c ∈ unsat', Shares.share left' (unsat'.map Flexible.weight).sum c.weight < c.needed := by
  induction turns generalizing granted unsat left widths with
  | zero =>
      have hnil : unsat = [] := List.length_eq_zero_iff.1 hturns.symm
      exact ⟨granted, unsat, left, widths, rfl, h, by simp [hnil]⟩
  | succ turns ih =>
      have hmem {c : Flexible} (hc : c ∈ unsat) : c ∈ flex := h.perm.mem_iff.1 (List.mem_append_right granted hc)
      have hsum : (unsat.map Flexible.weight).sum < 2 ^ 32 := by
        have := (h.perm.map Flexible.weight).sum_eq
        rw [List.map_append, List.sum_append] at this
        omega
      have hpos : (unsat.map Flexible.weight).sum ≠ 0 := by
        obtain ⟨c, rest, hunsat⟩ := List.exists_cons_of_length_eq_add_one hturns.symm
        have := (hweight c (hmem (hunsat ▸ List.mem_cons_self))).1
        rw [hunsat, List.map_cons, List.sum_cons]
        omega
      have hleft := h.le.trans hbudget
      rw [waterfall, sum32_eq, u32_of_lt hsum]
      rcases firstCovered_spec hleft fun c hc => (hweight c (hmem hc)).2 with ⟨hnone, hall⟩ | ⟨p, c, hsome, hc, hle⟩
      · exact ⟨granted, unsat, left, widths, by simp [hpos, hnone], h, hall⟩
      · have hcmem := List.mem_of_getElem? hc
        have hneeded : c.needed ≤ left :=
          hle.trans (Shares.share_le (List.le_sum_of_mem (List.mem_map_of_mem hcmem)))
        have hlength : turns = (swapRemove unsat p).length := by
          have := (swapRemove_perm hc).length_eq
          rw [List.length_cons] at this
          omega
        obtain ⟨granted', unsat', left', widths', hrun, hinv, hall⟩ :=
          ih hlength (h.grant hnodup hbudget hc hneeded)
        refine ⟨granted', unsat', left', widths', ?_, hinv, hall⟩
        simp [hpos, hsome, hc, sub32_of_le hneeded, hrun]

/-! ### The flexible columns -/

variable {cols : List (ColWidth × UInt16)}

theorem asFlexible_eq_some {x : (ColWidth × UInt16) × ℕ} {c : Flexible} (h : asFlexible x = some c) :
    x.2 = c.index ∧ ∃ weight needed, x.1 = (.flex weight, needed) ∧ c.weight = weight.toNat ∧
      c.needed = needed.toNat := by
  obtain ⟨⟨rule, needed⟩, i⟩ := x
  cases rule with
  | exact w => cases h
  | cap cap => cases h
  | flex w =>
      have hc := Option.some.inj h
      rw [← hc]
      exact ⟨rfl, w, needed, rfl, rfl, rfl⟩

theorem mem_flexible {c : Flexible} :
    c ∈ flexible cols ↔ ∃ weight needed, cols[c.index]? = some (.flex weight, needed) ∧ c.weight = weight.toNat ∧
      c.needed = needed.toNat := by
  rw [flexible, List.mem_filterMap]
  constructor
  · rintro ⟨x, hx, hc⟩
    obtain ⟨hindex, weight, needed, hcol, hweight, hneeded⟩ := asFlexible_eq_some hc
    refine ⟨weight, needed, ?_, hweight, hneeded⟩
    rw [← hindex, ← hcol]
    exact List.mem_zipIdx_iff_getElem?.1 hx
  · rintro ⟨weight, needed, hcol, hweight, hneeded⟩
    refine ⟨((.flex weight, needed), c.index), List.mem_zipIdx_iff_getElem?.2 hcol, ?_⟩
    rw [asFlexible, ← hweight, ← hneeded]

theorem nodup_flexible (cols : List (ColWidth × UInt16)) : ((flexible cols).map Flexible.index).Nodup := by
  rw [List.Nodup, List.pairwise_map, flexible, List.pairwise_filterMap]
  refine (List.pairwise_map.1 (List.nodup_zipIdx_map_snd cols)).imp fun {x y} hne c hc d hd => ?_
  rw [← (asFlexible_eq_some hc).1, ← (asFlexible_eq_some hd).1]
  exact hne

theorem flexible_le {c : Flexible} (h : c ∈ flexible cols) : c.weight ≤ 65535 ∧ c.needed ≤ 65535 := by
  obtain ⟨weight, needed, hcol, hweight, hneeded⟩ := mem_flexible.1 h
  have := weight.toNat_lt
  have := needed.toNat_lt
  omega

theorem reserved_flexible {c : Flexible} (h : c ∈ flexible cols) : (cols.map reserved)[c.index]? = some 0 := by
  obtain ⟨weight, needed, hcol, hweight, hneeded⟩ := mem_flexible.1 h
  rw [List.getElem?_map, hcol]
  rfl

/-! ### The split -/

/-- The state before the first turn. -/
theorem poured_start (cols : List (ColWidth × UInt16)) (budget : ℕ) :
    Poured (flexible cols) (cols.map reserved) budget [] (flexible cols) budget (cols.map reserved) where
  length := rfl
  sum := rfl
  perm := .refl _
  content := by simp
  empty := fun c hc => reserved_flexible hc
  other := fun i hi => rfl
  room := by simp
  le := le_rfl

theorem sum_weight_flexible (cols : List (ColWidth × UInt16)) :
    ((flexible cols).map Flexible.weight).sum = (cols.map weightOf).sum := by
  have hfrom (k : ℕ) : (((cols.zipIdx k).filterMap asFlexible).map Flexible.weight).sum = (cols.map weightOf).sum := by
    induction cols generalizing k with
    | nil => rfl
    | cons col cols ih =>
        obtain ⟨rule, needed⟩ := col
        rw [List.zipIdx_cons, List.filterMap_cons, List.map_cons, List.sum_cons]
        cases rule with
        | exact w => simpa [asFlexible, weightOf] using ih (k + 1)
        | cap cap => simpa [asFlexible, weightOf] using ih (k + 1)
        | flex w => simpa [asFlexible, weightOf] using ih (k + 1)
  exact hfrom 0

/-- Sharing what is left among some flexible columns. -/
theorem shareByWeight_flexible {others part : List Flexible} {left : ℕ}
    (hpart : (others ++ part).Perm (flexible cols)) (hne : part ≠ []) (hpos : ∀ c ∈ flexible cols, 0 < c.weight)
    (htotal : ((flexible cols).map Flexible.weight).sum < 2 ^ 32) (hleft : left ≤ 65535)
    (hfit : ∀ c ∈ part, ∃ w, widths[c.index]? = some w ∧ w + left ≤ 65535) :
    ∃ widths', shareByWeight left part widths = some widths' ∧ widths'.length = widths.length ∧
      widths'.sum = widths.sum + left ∧
      (∀ c ∈ part, ∀ w, widths[c.index]? = some w → ∃ extra ≤ 1, widths'[c.index]? =
        some (w + (Shares.share left (part.map Flexible.weight).sum c.weight + extra))) ∧
      ∀ i, i ∉ part.map Flexible.index → widths'[i]? = widths[i]? := by
  have hmem {c : Flexible} (hc : c ∈ part) : c ∈ flexible cols := hpart.mem_iff.1 (List.mem_append_right others hc)
  refine shareByWeight_spec ?_ hleft (fun c hc => (flexible_le (hmem hc)).1) ?_ ?_ hfit
  · have hnodup := (hpart.map Flexible.index).nodup_iff.2 (nodup_flexible cols)
    rw [List.map_append] at hnodup
    exact hnodup.of_append_right
  · obtain ⟨c, rest, rfl⟩ := List.exists_cons_of_ne_nil hne
    have := hpos c (hmem List.mem_cons_self)
    rw [List.map_cons, List.sum_cons]
    omega
  · have := (hpart.map Flexible.weight).sum_eq
    rw [List.map_append, List.sum_append] at this
    omega

theorem distribute_spec (budget : UInt16) (hpos : ∀ c ∈ flexible cols, 0 < c.weight)
    (htotal : (cols.map weightOf).sum < 2 ^ 32) (hfixed : (cols.map reserved).sum < 2 ^ 32) :
    ∃ widths, distributeColumnWidths budget cols = some widths ∧ widths.length = cols.length ∧
      (∀ i, i ∉ (flexible cols).map Flexible.index → widths[i]? = (cols.map reserved)[i]?) ∧
      (flexible cols ≠ [] → widths.sum = max budget.toNat (cols.map reserved).sum) ∧
      ((∀ c ∈ flexible cols, ∃ w, widths[c.index]? = some w ∧ c.needed ≤ w) ∨
        ∀ c ∈ flexible cols, ∃ w, widths[c.index]? = some w ∧ w ≤ c.needed) := by
  rw [← sum_weight_flexible] at htotal
  obtain ⟨left, hleft⟩ : ∃ left, budget.toNat - (cols.map reserved).sum = left := ⟨_, rfl⟩
  have hbudget : left ≤ 65535 := by
    have := budget.toNat_lt
    omega
  obtain ⟨granted, unsat, rest, widths, hrun, hpoured, hunsat⟩ :=
    waterfall_spec (nodup_flexible cols) hbudget (fun c hc => ⟨hpos c hc, (flexible_le hc).1⟩) htotal rfl
      (poured_start cols left)
  have hsum := hpoured.sum
  have hle := hpoured.le
  have hsplit : distributeColumnWidths budget cols =
      if unsat.isEmpty then shareByWeight rest (flexible cols) widths else shareByWeight rest unsat widths := by
    rw [distributeColumnWidths, sum32_eq, u32_of_lt hfixed]
    simp only [Option.bind_eq_bind, Option.bind_some, hleft, hrun]
  rw [hsplit]
  by_cases hempty : unsat = []
  · -- everyone has their content, and what is left is padding for all
    subst hempty
    have hgranted {c : Flexible} (hc : c ∈ flexible cols) : c ∈ granted :=
      List.append_nil granted ▸ hpoured.perm.mem_iff.2 hc
    rw [List.isEmpty_nil, if_pos rfl]
    by_cases hflex : flexible cols = []
    · rw [hflex]
      refine ⟨widths, rfl, by rw [hpoured.length, List.length_map], fun i hi => ?_, by simp, by simp⟩
      rw [hflex] at hpoured
      exact hpoured.other i hi
    · obtain ⟨widths', hshare, hlength, hsum', hat, hother⟩ :=
        shareByWeight_flexible (List.Perm.refl ([] ++ flexible cols)) hflex hpos htotal (hle.trans hbudget)
          fun c hc => ⟨c.needed, hpoured.content c (hgranted hc), (hpoured.room c (hgranted hc)).trans hbudget⟩
      refine ⟨widths', hshare, by rw [hlength, hpoured.length, List.length_map], fun i hi => ?_, fun _ => by omega,
        .inl fun c hc => ?_⟩
      · rw [hother i hi, hpoured.other i hi]
      · obtain ⟨extra, hextra, hw⟩ := hat c hc _ (hpoured.content c (hgranted hc))
        exact ⟨_, hw, Nat.le_add_right ..⟩
  · -- nobody's share covers their content, and only those without it get a share
    rw [List.isEmpty_eq_false_iff.2 hempty, if_neg (by simp)]
    have hmem {c : Flexible} (hc : c ∈ unsat) : c ∈ flexible cols :=
      hpoured.perm.mem_iff.1 (List.mem_append_right granted hc)
    obtain ⟨widths', hshare, hlength, hsum', hat, hother⟩ :=
      shareByWeight_flexible hpoured.perm hempty hpos htotal (hle.trans hbudget)
        fun c hc => ⟨0, hpoured.empty c hc, by omega⟩
    refine ⟨widths', hshare, by rw [hlength, hpoured.length, List.length_map], fun i hi => ?_, fun _ => by omega,
      .inr fun c hc => ?_⟩
    · rw [hother i fun h => hi (List.map_subset _ (fun _ => hmem) h), hpoured.other i hi]
    · rcases List.mem_append.1 (hpoured.perm.mem_iff.2 hc) with hc | hc
      · refine ⟨c.needed, ?_, le_rfl⟩
        rw [hother c.index fun h => ?_, hpoured.content c hc]
        have hnodup := (hpoured.perm.map Flexible.index).nodup_iff.2 (nodup_flexible cols)
        rw [List.map_append] at hnodup
        exact hnodup.disjoint (List.mem_map_of_mem hc) h
      · obtain ⟨extra, hextra, hw⟩ := hat c hc 0 (hpoured.empty c hc)
        have := hunsat c hc
        exact ⟨_, hw, by omega⟩

/-- **When the fixed widths fit** and the weights are positive and sum up to a `u32`, the widths sum up to the
budget, and no column is padded beyond its content while another is below its own. -/
theorem distribute_fair (budget : UInt16) (hfit : (cols.map reserved).sum ≤ budget.toNat)
    (hflex : ∃ weight needed, (.flex weight, needed) ∈ cols)
    (hpos : ∀ weight needed, (.flex weight, needed) ∈ cols → 0 < weight)
    (htotal : (cols.map weightOf).sum < 2 ^ 32) :
    ∃ widths, distributeColumnWidths budget cols = some widths ∧ widths.length = cols.length ∧
      widths.sum = budget.toNat ∧
      ∀ i j weight weight' needed needed', cols[i]? = some (.flex weight, needed) →
        cols[j]? = some (.flex weight', needed') →
          ¬ (needed.toNat < widths.getD i 0 ∧ widths.getD j 0 < needed'.toNat) := by
  have hbudget := budget.toNat_lt
  have hpos' : ∀ c ∈ flexible cols, 0 < c.weight := fun c hc => by
    obtain ⟨weight, needed, hcol, hweight, hneeded⟩ := mem_flexible.1 hc
    rw [hweight]
    exact hpos weight needed (List.mem_of_getElem? hcol)
  obtain ⟨widths, hrun, hlength, hother, hsum, hpadded⟩ := distribute_spec budget hpos' htotal (by omega)
  refine ⟨widths, hrun, hlength, ?_, fun i j weight weight' needed needed' hi hj ⟨hover, hunder⟩ => ?_⟩
  · obtain ⟨weight, needed, hmem⟩ := hflex
    obtain ⟨i, hi⟩ := List.getElem?_of_mem hmem
    have hc : { index := i, weight := weight.toNat, needed := needed.toNat } ∈ flexible cols :=
      mem_flexible.2 ⟨weight, needed, hi, rfl, rfl⟩
    rw [hsum (List.ne_nil_of_mem hc)]
    omega
  · have hci : { index := i, weight := weight.toNat, needed := needed.toNat } ∈ flexible cols :=
      mem_flexible.2 ⟨weight, needed, hi, rfl, rfl⟩
    have hcj : { index := j, weight := weight'.toNat, needed := needed'.toNat } ∈ flexible cols :=
      mem_flexible.2 ⟨weight', needed', hj, rfl, rfl⟩
    rw [List.getD_eq_getElem?_getD] at hover hunder
    rcases hpadded with hall | hall
    · obtain ⟨w, hw, hle⟩ := hall _ hcj
      dsimp only at hw hle
      rw [hw, Option.getD_some] at hunder
      omega
    · obtain ⟨w, hw, hle⟩ := hall _ hci
      dsimp only at hw hle
      rw [hw, Option.getD_some] at hover
      omega

theorem distribute_fair_deficit :
    ∃ widths, distributeColumnWidths 28 [(.flex 6, 10), (.flex 1, 15), (.cap 7, 3)] = some widths ∧
      widths.length = 3 ∧ widths.sum = 28 ∧
      ∀ i j weight weight' needed needed',
        [(ColWidth.flex 6, (10 : UInt16)), (.flex 1, 15), (.cap 7, 3)][i]? = some (.flex weight, needed) →
          [(ColWidth.flex 6, (10 : UInt16)), (.flex 1, 15), (.cap 7, 3)][j]? = some (.flex weight', needed') →
            ¬ (needed.toNat < widths.getD i 0 ∧ widths.getD j 0 < needed'.toNat) :=
  distribute_fair 28 (by decide) ⟨6, 10, by decide⟩
    (fun weight needed h => by
      simp only [List.mem_cons, Prod.mk.injEq, ColWidth.flex.injEq, reduceCtorEq, List.not_mem_nil, false_and,
        or_false] at h
      rcases h with ⟨rfl, -⟩ | ⟨rfl, -⟩ <;> decide)
    (by decide)

/-- The weights of too many columns do not sum up to a `u32`; wrapped around, they may sum up to nothing. -/
theorem distribute_overflow (budget : UInt16) (htotal : 2 ^ 32 ≤ (cols.map weightOf).sum) :
    distributeColumnWidths budget cols = none := by
  rw [← sum_weight_flexible] at htotal
  obtain ⟨turns, hturns⟩ : ∃ turns, (flexible cols).length = turns + 1 := by
    refine Nat.exists_eq_succ_of_ne_zero fun hzero => ?_
    rw [List.length_eq_zero_iff.1 hzero] at htotal
    exact absurd htotal (by decide)
  rw [distributeColumnWidths]
  simp only [Option.bind_eq_bind]
  cases sum32 (cols.map reserved) with
  | none => rfl
  | some fixed =>
      rw [Option.bind_some, hturns, waterfall, sum32_eq, u32_of_le htotal]
      rfl

theorem sum_map_replicate (f : ColWidth × UInt16 → ℕ) (first col : ColWidth × UInt16) (n : ℕ) :
    ((first :: List.replicate n col).map f).sum = f first + n * f col := by
  rw [List.map_cons, List.map_replicate, List.sum_cons, List.sum_replicate_nat]

theorem not_distribute_fair : ¬ ∀ (budget : UInt16) (cols : List (ColWidth × UInt16)),
    (cols.map reserved).sum ≤ budget.toNat → (∃ weight needed, (.flex weight, needed) ∈ cols) →
      (∀ weight needed, (.flex weight, needed) ∈ cols → 0 < weight) →
        ∃ widths, distributeColumnWidths budget cols = some widths ∧ widths.sum = budget.toNat := by
  intro h
  obtain ⟨widths, hrun, hsum⟩ := h 10 ((.flex 1, 0) :: List.replicate 65537 (.flex 65535, 0))
    (by rw [sum_map_replicate]; decide)
    ⟨1, 0, List.mem_cons_self⟩
    fun weight needed hcol => by
      rcases List.mem_cons.1 hcol with hcol | hcol
      · rw [ColWidth.flex.inj (Prod.mk.inj hcol).1]
        decide
      · rw [ColWidth.flex.inj (Prod.mk.inj (List.eq_of_mem_replicate hcol)).1]
        decide
  rw [distribute_overflow 10 (by rw [sum_map_replicate]; decide)] at hrun
  cases hrun

end Nutsh.Widths
