import Mathlib.Algebra.Ring.Int.Defs
import Mathlib.Algebra.Ring.Nat
import Parlance.Proofs.Dict
import Parlance.Value.Heap

/-!
# Cells of the Heap

A new cell comes after all others, so what is in the heap stays in it. A value has a
text if its tree is finite and all numbers in it can be written out.

## Main definitions

* `Heap.Extends`: Every cell of the first heap is in the second one and holds the same.

## Theorems

* `Heap.Extends.trans`: An extension of an extension extends.
* `Heap.extends_alloc`: A new cell leaves the old ones as they are.
* `Heap.cell?_alloc_self`: The new cell holds what it was made with.
* `Number.isShort_int`: A whole number is short if it has at most `Numeral.maxDigits` digits.
-/

namespace Parlance

def Value.isFlat : Value → Bool
  | .list _ | .object _ | .method _ => false
  | _ => true

namespace Heap
variable {h h' h'' : Heap} {r : Ref} {c d : Cell} {v : Value}

/-! ### New cells -/

/-- Every cell of the first heap is in the second one and holds the same. -/
def Extends (h h' : Heap) : Prop := ∀ r c, h.cell? r = some c → h'.cell? r = some c

theorem Extends.refl : h.Extends h := fun _ _ => id

/-- An extension of an extension extends. -/
theorem Extends.trans (hh : h.Extends h') (hh' : h'.Extends h'') : h.Extends h'' :=
  fun r c hr => hh' r c (hh r c hr)

/-- A new cell leaves the old ones as they are. -/
theorem extends_alloc (h : Heap) (d : Cell) : h.Extends (h.alloc d).2 := by
  intro r c hr
  obtain ⟨hlt, hget⟩ := Array.getElem?_eq_some_iff.mp hr
  change (h.cells.push d)[r.index]? = some c
  rw [Array.getElem?_push_lt hlt, hget]

/-- The new cell holds what it was made with. -/
theorem cell?_alloc_self (h : Heap) (d : Cell) : (h.alloc d).2.cell? (h.alloc d).1 = some d :=
  Array.getElem?_push_size

theorem size_alloc (h : Heap) (d : Cell) : (h.alloc d).2.cells.size = h.cells.size + 1 :=
  Array.size_push d

/-! ### Cells that change -/

theorem cell?_set_self (hr : h.cell? r = some c) : (h.set r d).cell? r = some d := by
  obtain ⟨hlt, -⟩ := Array.getElem?_eq_some_iff.mp hr
  change (h.cells.setIfInBounds r.index d)[r.index]? = some d
  rw [Array.getElem?_setIfInBounds_self_of_lt hlt]

theorem cell?_set_of_ne {r' : Ref} (hne : r' ≠ r) : (h.set r d).cell? r' = h.cell? r' := by
  refine Array.getElem?_setIfInBounds_ne fun hindex => hne ?_
  cases r
  cases r'
  exact congrArg Ref.mk hindex.symm

theorem fields_set_list {items items' : List Value} (hr : h.cell? r = some (.list items))
    (r' : Ref) : (h.set r (.list items')).fields r' = h.fields r' := by
  by_cases heq : r' = r
  · subst heq
    rw [fields, fields, cell?_set_self hr, hr]
  · rw [fields, fields, cell?_set_of_ne heq]

/-! ### Trees -/

theorem tree_of_isFlat (hv : v.isFlat) : h.tree v = h'.tree v := by
  cases v with
  | list | object | method => cases hv
  | _ => rfl

theorem length_items_of_tree_list (ht : h.tree (.list r) = h'.tree (.list r)) :
    (h.items r).length = (h'.items r).length := by
  have hitems := Tree.list.inj ht
  simpa only [List.length_map] using congrArg List.length hitems

end Heap

/-! ### Numbers that can be written out -/

namespace Number

/-- A whole number is short if it has at most `Numeral.maxDigits` digits. -/
theorem isShort_int {n : Int} : (int n).isShort = true ↔ n.natAbs < 10 ^ Numeral.maxDigits := by
  rw [isShort, decide_eq_true_iff]
  exact Nat.length_toDigits_le_iff (by decide) (by decide)

end Number

namespace Tree

theorem allFinite_map {α : Type} {f : α → Tree} {vs : List α} (h : ∀ v ∈ vs, (f v).isFinite) :
    allFinite (vs.map f) := by
  induction vs with
  | nil => rfl
  | cons v rest ih =>
    obtain ⟨hv, hrest⟩ := List.forall_mem_cons.mp h
    rw [List.map_cons, allFinite, hv, ih hrest, Bool.and_self]

theorem allFieldsFinite_map {α : Type} {f : α → Tree} {es : List (String × α)}
    (h : ∀ e ∈ es, (f e.2).isFinite) : allFieldsFinite (es.map fun e => (e.1, f e.2)) := by
  induction es with
  | nil => rfl
  | cons e rest ih =>
    obtain ⟨he, hrest⟩ := List.forall_mem_cons.mp h
    rw [List.map_cons, allFieldsFinite, he, ih hrest, Bool.and_self]

theorem isShort_number (n : Number) : (number n).isShort = n.isShort := by
  rcases n with n | x
  · rfl
  · change Json.isShort (if x.isFinite then .number (.float x) else .null) = true
    split <;> rfl

theorem isShort_list {ts : List Tree} : (list ts).isShort = true ↔ ∀ t ∈ ts, t.isShort = true := by
  change Json.allShort (plainItems ts) = true ↔ _
  induction ts with
  | nil => exact iff_of_true rfl nofun
  | cons t ts ih =>
    rw [plainItems, Json.allShort, Bool.and_eq_true, ih, List.forall_mem_cons]
    rfl

/-- A method is left out of an object, but has no numbers either. -/
theorem isShort_object {fs : List (String × Tree)} :
    (object fs).isShort = true ↔ ∀ f ∈ fs, f.2.isShort = true := by
  change Json.allFieldsShort (plainFields fs) = true ↔ _
  induction fs with
  | nil => exact iff_of_true rfl nofun
  | cons f fs ih =>
    rw [plainFields, List.forall_mem_cons, ← ih]
    split
    case isTrue =>
      rw [Json.allFieldsShort, Bool.and_eq_true]
      rfl
    case isFalse hdata =>
      have hshort : f.2.isShort = true := by
        cases hf : f.2 with
        | method => rfl
        | _ => exact absurd (hf ▸ rfl) hdata
      exact (and_iff_right hshort).symm

end Tree

namespace Heap
variable {h : Heap} {v : Value} {n : Nat}

/-! ### Texts and numbers -/

theorem writableTree_eq (h : Heap) (v : Value) :
    h.writableTree v = if (h.tree v).isFinite then
      if (h.tree v).isShort then .ok (h.tree v) else .error .badValue
    else .error .endless := by
  rw [writableTree, finiteTree]
  split <;> rfl

/-- A value has a text unless it holds itself or a number that is too long. -/
theorem text_eq (h : Heap) (v : Value) :
    h.text v = if (h.tree v).isFinite then
      if (h.tree v).isShort then .ok (h.tree v).spelled else .error .badValue
    else .error .endless := by
  have hspelled : Except.map Tree.spelled (h.writableTree v) = if (h.tree v).isFinite then
      if (h.tree v).isShort then .ok (h.tree v).spelled else .error .badValue
    else .error .endless := by
    rw [writableTree_eq]
    split
    · split <;> rfl
    · rfl
  cases v with
  | text t => rfl
  | _ => exact hspelled

/-- Which values have a text. -/
theorem exists_text_iff : (∃ t, h.text v = .ok t) ↔ (h.tree v).isFinite ∧ (h.tree v).isShort := by
  rw [text_eq]
  cases (h.tree v).isFinite <;> cases (h.tree v).isShort <;> simp

end Heap
end Parlance
