import Parlance.Proofs.AlikeExec

/-!
# Padding

A text is brought to a length by a fill, which begins anew wherever it is used up and is cut
off where the length is reached. The fill is repeated once more than it goes into what the
text lacks, so there is always something to cut.

## Theorems

* `Text.length_padding`: The padding has the length that is missing.
* `Text.getElem?_padding`: The padding repeats the characters of the fill.
* `Run.pad_cycles`: A padded text has the text at its end, or at its beginning, and otherwise only
  characters of the fill, over and over from its first one; it is as long as was asked for, or as
  the text where that is longer.
* `Run.pad_cycles_cut`: The fill is longer than a character, and is cut off in its second round.
-/

namespace Parlance
open List

namespace Text
variable {text fill : String} {width : Int} {n k : Nat}

theorem length_times : (times fill n).toList.length = n * fill.length := by
  rw [times, String.toList_join, length_flatMap, map_replicate, sum_replicate_nat,
    String.length_toList]

theorem getElem?_times (hk : k < n * fill.length) :
    (times fill n).toList[k]? = fill.toList[k % fill.length]? := by
  rw [times, String.toList_join]
  induction n generalizing k with
  | zero => omega
  | succ n ih =>
    rw [replicate_succ, flatMap_cons]
    by_cases hfirst : k < fill.length
    · rw [getElem?_append_left hfirst, Nat.mod_eq_of_lt hfirst]
    · have hrest : k - fill.length < n * fill.length := by
        rw [Nat.succ_mul] at hk
        omega
      rw [getElem?_append_right (Nat.not_lt.mp hfirst), String.length_toList, ih hrest,
        ← Nat.mod_eq_sub_mod (Nat.not_lt.mp hfirst)]

/-- The padding has the length that is missing. -/
theorem length_padding (hfill : fill ≠ "") :
    (padding text width fill).length = (width - text.length).toNat := by
  have hpos : 0 < fill.length := by
    rw [← String.length_toList, length_pos_iff]
    simpa using hfill
  rw [padding, length_take, length_times, Nat.succ_mul]
  exact Nat.min_eq_left (Nat.le_of_lt (Nat.lt_div_mul_add hpos))

/-- The padding repeats the characters of the fill. -/
theorem getElem?_padding (hk : k < (padding text width fill).length) :
    (padding text width fill)[k]? = fill.toList[k % fill.length]? := by
  rw [padding, length_take, length_times, Nat.lt_min] at hk
  rw [padding, getElem?_take_of_lt hk.1, getElem?_times hk.2]

theorem padding_eq_nil (h : fill = "" ∨ width ≤ text.length) : padding text width fill = [] := by
  rcases h with rfl | hwidth
  · simp [padding, ← length_eq_zero_iff, length_times]
  · rw [padding, Int.toNat_of_nonpos (Int.sub_nonpos_of_le hwidth), take_zero]

end Text

namespace Run
variable {L : Linker} {s s₁ s₂ s₃ : Session} {pos : Position} {side : Side} {e width fill : Expr}
  {out source filling : String} {n : Int}

theorem run_pad (he : (eval L e).run { s with position := some pos } = (.ok (.text source), s₁))
    (hfill : (eval L fill).run s₁ = (.ok (.text filling), s₂))
    (hwidth : (eval L width).run s₂ = (.ok (.int n), s₃)) :
    (exec L (.command pos (.text (.pad side e width fill out)))).run s =
      (.ok .normal, { s₃ with bag := s₃.bag.insert out (.text (match side with
        | .left => Text.padLeft source n filling
        | .right => Text.padRight source n filling)) }) := by
  have hsource : (itemText (.text source)).run s₂ = (.ok source, s₂) := rfl
  have hint : (int (.int n) 0).run s₃ = (.ok n, s₃) := rfl
  refine run_placing_ok (run_normally_ok ?_)
  rw [TextCommand.exec]
  exact (bind_ok he).trans ((bind_ok hfill).trans ((bind_ok hsource).trans
    ((bind_ok hwidth).trans ((bind_ok hint).trans rfl))))

/-- A padded text has the text at its end, or at its beginning, and otherwise only characters of
    the fill, over and over from its first one; it is as long as was asked for, or as the text
    where that is longer. With nothing to fill, or nothing to fill it with, it is the text. -/
theorem pad_cycles (L : Linker) (pos : Position) (side : Side) (e width fill : Expr)
    (out source filling : String) (n : Int) (s s₁ s₂ s₃ : Session)
    (he : (eval L e).run { s with position := some pos } = (.ok (.text source), s₁))
    (hfill : (eval L fill).run s₁ = (.ok (.text filling), s₂))
    (hwidth : (eval L width).run s₂ = (.ok (.int n), s₃)) :
    ∃ (result : String) (padding : List Char),
      (exec L (.command pos (.text (.pad side e width fill out)))).run s =
        (.ok .normal, { s₃ with bag := s₃.bag.insert out (.text result) }) ∧
      result.toList = (match side with
        | .left => padding ++ source.toList
        | .right => source.toList ++ padding) ∧
      (filling ≠ "" → (result.length : Int) = max (source.length : Int) n) ∧
      (∀ k < padding.length, padding[k]? = filling.toList[k % filling.length]?) ∧
      (filling = "" ∨ n ≤ source.length → result = source) := by
  have hchars : (match side with
        | .left => Text.padLeft source n filling
        | .right => Text.padRight source n filling).toList = match side with
        | .left => Text.padding source n filling ++ source.toList
        | .right => source.toList ++ Text.padding source n filling := by
    cases side <;> exact String.toList_ofList
  refine ⟨_, _, run_pad he hfill hwidth, hchars, fun hne => ?_, fun k hk => Text.getElem?_padding hk,
    fun hnone => ?_⟩
  · rw [← String.length_toList, hchars]
    have hlength : (Text.padding source n filling).length = (n - source.length).toNat :=
      Text.length_padding hne
    cases side <;> rw [length_append, String.length_toList, hlength] <;> omega
  · refine String.toList_inj.mp (hchars.trans ?_)
    rw [Text.padding_eq_nil hnone]
    cases side
    · rfl
    · exact append_nil _

/-- The fill is longer than a character, and is cut off in its second round. -/
theorem pad_cycles_cut :
    ∃ (result : String) (padding : List Char),
      (exec .full (.command ⟨1, 1⟩ (.text (.pad .left (.text ⟨1, 10⟩ "7")
        (.number ⟨1, 17⟩ (.int 6)) (.text ⟨1, 24⟩ "abc") "v")))).run {} =
        (.ok .normal, { position := some ⟨1, 1⟩, bag := .ofList [("v", .text "abcab7")] }) ∧
      (result.length : Int) = 6 ∧ result.toList = padding ++ ['7'] ∧ padding[4]? = some 'b' := by
  obtain ⟨result, padding, hrun, hresult, hlength, hpadding, -⟩ := pad_cycles .full ⟨1, 1⟩ .left
    (.text ⟨1, 10⟩ "7") (.number ⟨1, 17⟩ (.int 6)) (.text ⟨1, 24⟩ "abc") "v" "7" "abc" 6 {} _ _ _
    rfl rfl rfl
  have hvalue : some (.text "abcab7") = some (Value.text result) :=
    congrArg (·.2.bag.get? "v") hrun
  cases hvalue
  have hfour : 4 < padding.length := by
    have hsum := congrArg List.length hresult
    rw [length_append] at hsum
    have h6 : "abcab7".toList.length = 6 := rfl
    have h1 : "7".toList.length = 1 := rfl
    omega
  exact ⟨"abcab7", padding, hrun, hlength (by decide), hresult, hpadding 4 hfour⟩

end Run
end Parlance
