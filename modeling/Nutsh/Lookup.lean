/-
Kinds by what is typed for them.

A term names a kind by its id, by an alias, by the beginning of its display name or by a piece of its id,
letters compared without their case.  The kinds it names are ranked by how it names them, those that need
something to be listed behind the others.

* `Catalog.rank` — how a term names a kind;
* `Catalog.lookup` — the kinds a term names, best first.
-/
import Mathlib.Data.Prod.Lex
import Mathlib.Data.String.Basic
import Mathlib.Order.BooleanAlgebra.Defs
import Nutsh.Catalog

set_option relaxedAutoImplicit false
set_option autoImplicit false

namespace Nutsh

/-- Whether two texts differ in the case of their letters at most. -/
def eqIgnoreCase (a b : String) : Bool := Text.lower a == Text.lower b

namespace Catalog

/-- How a term names a kind, the better the lower. -/
def rank (term : String) (k : Kind) : Option ℕ :=
  if eqIgnoreCase k.id term then some 0
  else if k.aliases.any fun a => eqIgnoreCase a term then some (if k.curated then 1 else 2)
  else if Text.startsWith (Text.lower term) (Text.lower k.display) then some 3
  else if Text.contains (Text.lower term) (Text.lower k.id) then some 4
  else none

/-- The place of a kind among those a term names. -/
def place (catalog : Catalog) (r : ℕ) (k : Kind) : ℕ ×ₗ Bool ×ₗ Bool ×ₗ String :=
  toLex (r, toLex (k.reach catalog == .needsParameter,
    toLex (match k.reach catalog with | .fromParent _ => true | _ => false, k.id)))

/-- The kinds a term names, best first. -/
def lookup (catalog : Catalog) (term : String) : List Kind :=
  ((catalog.filterMap fun k => (rank term k).map fun r => (r, k)).mergeSort fun a b =>
    decide (catalog.place a.1 a.2 ≤ catalog.place b.1 b.2)).map Prod.snd

end Catalog

end Nutsh
