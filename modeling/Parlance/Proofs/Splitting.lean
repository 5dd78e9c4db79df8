import Parlance.Proofs.AlikeExec
import Parlance.Proofs.Cells

/-!
# Cutting and Joining

Three operations look for a separator in a text: cutting the text at it, replacing it, and
joining pieces with it. Cutting and replacing walk over the characters in the same way, so a
replacement is nothing but the pieces joined with the new text. Replacing a separator by
itself gives the text back, and with it joining undoes cutting.

## Theorems

* `Text.replaceFrom_eq`: Replacing is cutting and joining.
* `Text.not_infix_splitFrom`: No piece contains the separator: where it would begin in a piece,
  the text would have been cut.
* `Run.run_split`: The function that cuts a text makes a new list of the pieces and changes
  nothing else.
* `Run.split_join_replace`: A text that is cut at a separator comes back when the pieces are
  joined with it, no piece contains a separator that is not empty, and replacing the separator in
  a variable that holds the text gives the pieces joined with the new text.
-/

namespace Parlance
open List String

namespace Text
variable {sep new cs : List Char} {pending : Nat}

theorem splitFrom_ne_nil (sep : List Char) (pending : Nat) (cs : List Char) :
    splitFrom sep pending cs ≠ [] := by
  fun_induction splitFrom sep pending cs <;> simp_all

/-- Replacing is cutting and joining. A match opens a new piece, and any other character goes
    to the piece that is open. -/
theorem replaceFrom_eq (sep new : List Char) (pending : Nat) (cs : List Char) :
    replaceFrom sep new pending cs = new.intercalate (splitFrom sep pending cs) := by
  fun_induction splitFrom sep pending cs with
  | case1 => simp [replaceFrom]
  | case2 pending c cs ih => rw [replaceFrom, ih]
  | case3 c cs h ih =>
    rw [replaceFrom, if_pos h, ih, List.intercalate_cons_of_ne_nil (splitFrom_ne_nil _ _ _),
      nil_append]
  | case4 c cs h piece rest hrest ih =>
    rw [replaceFrom, if_neg h, ih, hrest]
    cases rest <;> simp
  | case5 c cs h hnil ih => exact absurd hnil (splitFrom_ne_nil _ _ _)

theorem replaceFrom_self (hsep : sep ≠ []) (pending : Nat) (cs : List Char) :
    replaceFrom sep sep pending cs = cs.drop pending := by
  have hlength : sep.length - 1 + 1 = sep.length := by
    have := length_pos_iff.mpr hsep
    omega
  fun_induction replaceFrom sep sep pending cs with
  | case1 => simp
  | case2 pending c cs ih => rw [ih, drop_succ_cons]
  | case3 c cs h ih =>
    -- The characters of the match are those of the separator.
    have hmatch := prefix_iff_eq_append.mp ( isPrefixOf_iff_prefix.mp h)
    rw [← hlength, drop_succ_cons] at hmatch
    rw [ih, hmatch, drop_zero]
  | case4 c cs h ih => rw [ih, drop_zero, drop_zero]

theorem head_splitFrom_prefix {piece : List Char} {rest : List (List Char)}
    (h : splitFrom sep pending cs = piece :: rest) : piece <+: cs.drop pending := by
  fun_induction splitFrom sep pending cs generalizing piece rest with
  | case1 => simp_all
  | case2 pending c cs ih => exact ih h
  | case3 c cs _ ih => simp_all
  | case4 c cs _ piece' rest' hrest ih =>
    obtain ⟨rfl, -⟩ := cons.inj h
    exact cons_prefix_cons.mpr ⟨rfl, ih hrest⟩
  | case5 c cs _ hnil => exact absurd hnil (splitFrom_ne_nil _ _ _)

/-- No piece contains the separator: where it would begin in a piece, the text would have
    been cut. -/
theorem not_infix_splitFrom (hsep : sep ≠ []) (pending : Nat) (cs : List Char) :
    ∀ piece ∈ splitFrom sep pending cs, ¬ sep <:+: piece := by
  have hempty : ¬ sep <:+: [] := by rwa [infix_nil]
  fun_induction splitFrom sep pending cs with
  | case1 => exact forall_mem_singleton.mpr hempty
  | case2 pending c cs ih => exact ih
  | case3 c cs _ ih => exact forall_mem_cons.mpr ⟨hempty, ih⟩
  | case4 c cs h piece rest hrest ih =>
    rw [hrest] at ih
    obtain ⟨hpiece, hothers⟩ := forall_mem_cons.mp ih
    refine forall_mem_cons.mpr ⟨fun hinfix => ?_, hothers⟩
    rcases infix_cons_iff.mp hinfix with hhere | hlater
    · have hprefix : c :: piece <+: c :: cs :=
        cons_prefix_cons.mpr ⟨rfl, head_splitFrom_prefix hrest⟩
      exact h ( isPrefixOf_iff_prefix.mpr (hhere.trans hprefix))
    · exact hpiece hlater
  | case5 c cs _ hnil => exact absurd hnil (splitFrom_ne_nil _ _ _)

theorem interleave_eq (new cs : List Char) :
    interleave new cs = new.intercalate (cs.map ([·])) := by
  fun_induction interleave new cs with
  | case1 => rfl
  | case2 c => simp
  | case3 c cs hcs ih =>
    rw [ih, map_cons, List.intercalate_cons_of_ne_nil (by simpa using hcs),
      singleton_append, cons_append]

theorem interleave_nil (cs : List Char) : interleave [] cs = cs := by
  fun_induction interleave [] cs with
  | case1 => rfl
  | case2 c => rfl
  | case3 c cs _ ih => rw [ih, nil_append]

/-! ### Texts -/

theorem replace_eq (text sep new : String) :
    replace text sep new = new.intercalate (split text sep) := by
  refine toList_inj.mp ?_
  rw [toList_intercalate, replace, split]
  split
  · simp [interleave_eq, Function.comp_def]
  · simp [replaceFrom_eq, Function.comp_def]

theorem intercalate_split (text sep : String) : sep.intercalate (split text sep) = text := by
  rw [← replace_eq, replace]
  refine toList_inj.mp ?_
  split
  · rename_i h
    rw [isEmpty_iff.mp h, toList_ofList]
    exact interleave_nil _
  · rename_i h
    have hsep : sep.toList ≠ [] := by simpa using h
    rw [toList_ofList, replaceFrom_self hsep, drop_zero]

theorem not_infix_split {text sep piece : String} (hsep : sep ≠ "") (h : piece ∈ split text sep) :
    ¬ sep.toList <:+: piece.toList := by
  rw [split, if_neg (by simpa using hsep)] at h
  obtain ⟨cs, hcs, rfl⟩ := mem_map.mp h
  rw [toList_ofList]
  exact not_infix_splitFrom (by simpa using hsep) 0 _ cs hcs

end Text

/-! ### The statements -/

namespace Run
variable {L : Linker} {s s₁ s₂ : Session} {text sep : String}

theorem run_itemTexts (texts : List String) (s : Session) :
    (Run.texts itemText (texts.map .text)).run s = (.ok texts, s) := by
  induction texts with
  | nil => rfl
  | cons t rest ih =>
    have hitem : (itemText (.text t)).run s = (.ok t, s) := rfl
    rw [map_cons, Run.texts]
    exact (bind_ok hitem).trans ((bind_ok ih).trans rfl)

theorem run_arrayJoin {r : Ref} {pieces : List String} (glue : String)
    (hitems : s.heap.items r = pieces.map .text) :
    (builtin .arrayJoin [.list r, .text glue]).run s =
      (.ok (.text (glue.intercalate pieces)), s) := by
  have hread : (items r).run s = (.ok (pieces.map .text), s) := hitems ▸ rfl
  have hglue : (Run.text (.text glue)).run s = (.ok glue, s) := rfl
  unfold builtin
  refine (bind_ok hglue).trans ((bind_ok hread).trans ?_)
  exact (bind_ok (run_itemTexts pieces s)).trans rfl

theorem run_replace {old new : Expr} {glue : String} (pos : Position) (source : String)
    (out : Option String) (hsource : s.bag.get? source = some (.text text))
    (hold : (evalText L old).run { s with position := some pos } = (.ok sep, s₁))
    (hnew : (evalText L new).run s₁ = (.ok glue, s₂)) :
    (exec L (.command pos (.text (.replace old new (some source) out)))).run s =
      (.ok .normal, { s₂ with
        bag := s₂.bag.insert (out.getD source) (.text (Text.replace text sep glue)) }) := by
  refine run_placing_ok (run_normally_ok ?_)
  have hvar : (varText source).run { s with position := some pos } =
      (.ok text, { s with position := some pos }) :=
    bind_ok (run_var (s := { s with position := some pos }) hsource)
  rw [TextCommand.exec]
  refine (bind_ok hvar).trans ((bind_ok hold).trans ((bind_ok hnew).trans ?_))
  cases out <;> rfl

/-- The function that cuts a text makes a new list of the pieces and changes nothing else. -/
theorem run_split {v w : Value} (hv : s.heap.text v = .ok text) (hw : s.heap.text w = .ok sep) :
    (builtin .split [v, w]).run s = (.ok (.list ⟨s.heap.cells.size⟩),
      { s with heap := (s.heap.newList ((Text.split text sep).map .text)).2 }) := by
  have htext : (Run.text v).run s = (.ok text, s) := by
    rw [Run.text, bind_ok (run_get s), hv]
    rfl
  have hsep : (Run.text w).run s = (.ok sep, s) := by
    rw [Run.text, bind_ok (run_get s), hw]
    rfl
  unfold builtin
  exact (bind_ok htext).trans ((bind_ok hsep).trans rfl)

/-- A text that is cut at a separator comes back when the pieces are joined with it, no piece
    contains a separator that is not empty, and replacing the separator in a variable that holds
    the text gives the pieces joined with the new text. The statement and the function cut alike. -/
theorem split_join_replace (L : Linker) (pos : Position) (e d : Expr) (out : String)
    (s s₁ s₂ : Session) (text sep : String)
    (he : (evalText L e).run { s with position := some pos } = (.ok text, s₁))
    (hd : (evalText L d).run s₁ = (.ok sep, s₂)) :
    ∃ r s₃, (exec L (.command pos (.text (.split e d (some out))))).run s = (.ok .normal, s₃) ∧
      s₃.bag = s₂.bag.insert out (.list r) ∧
      s₃.heap.items r = (Text.split text sep).map .text ∧ s₂.heap.Extends s₃.heap ∧
      (builtin .arrayJoin [.list r, .text sep]).run s₃ = (.ok (.text text), s₃) ∧
      (sep ≠ "" → ∀ piece ∈ Text.split text sep, ¬ sep.toList <:+: piece.toList) ∧
      (∀ (pos' : Position) (old new : Expr) (source : String) (out' : Option String)
        (s' s₁' s₂' : Session) (glue : String), s'.bag.get? source = some (.text text) →
        (evalText L old).run { s' with position := some pos' } = (.ok sep, s₁') →
        (evalText L new).run s₁' = (.ok glue, s₂') →
        ∃ result, (exec L (.command pos' (.text (.replace old new (some source) out')))).run s' =
            (.ok .normal, { s₂' with bag := s₂'.bag.insert (out'.getD source) (.text result) }) ∧
          (builtin .arrayJoin [.list r, .text glue]).run s₃ = (.ok (.text result), s₃)) ∧
      ∀ (v w : Value) (s' : Session), s'.heap.text v = .ok text → s'.heap.text w = .ok sep →
        ∃ r' h, (builtin .split [v, w]).run s' = (.ok (.list r'), { s' with heap := h }) ∧
          h.items r' = (Text.split text sep).map .text ∧ s'.heap.Extends h ∧
          (builtin .arrayJoin [.list r', .text sep]).run { s' with heap := h } =
            (.ok (.text text), { s' with heap := h }) := by
  let pieces : List Value := (Text.split text sep).map .text
  let s₃ : Session := { s₂ with
    heap := (s₂.heap.newList pieces).2
    bag := s₂.bag.insert out (.list ⟨s₂.heap.cells.size⟩) }
  have hmade (h : Heap) : (h.newList pieces).2.items ⟨h.cells.size⟩ = pieces := by
    have hcell : (h.newList pieces).2.cell? ⟨h.cells.size⟩ = some (.list pieces) :=
      Heap.cell?_alloc_self ..
    rw [Heap.items, hcell]
  have hitems : s₃.heap.items ⟨s₂.heap.cells.size⟩ = pieces := hmade s₂.heap
  refine ⟨⟨s₂.heap.cells.size⟩, s₃, ?_, rfl, hitems, Heap.extends_alloc _ _, ?_, ?_, ?_, ?_⟩
  · refine run_placing_ok (run_normally_ok ?_)
    rw [TextCommand.exec]
    exact (bind_ok he).trans ((bind_ok hd).trans rfl)
  · rw [run_arrayJoin sep hitems, Text.intercalate_split]
  · exact fun hsep piece hpiece => Text.not_infix_split hsep hpiece
  · intro pos' old new source out' s' s₁' s₂' glue hsource hold hnew
    refine ⟨_, run_replace pos' source out' hsource hold hnew, ?_⟩
    rw [run_arrayJoin glue hitems, Text.replace_eq]
  · intro v w s' hv hw
    refine ⟨⟨s'.heap.cells.size⟩, _, run_split hv hw, hmade _, Heap.extends_alloc _ _, ?_⟩
    rw [run_arrayJoin sep (hmade s'.heap), Text.intercalate_split]

/-- Matches that overlap, and empty pieces at both ends. -/
theorem split_join_replace_overlapping :
    let s : Session := { bag := .ofList [("t", .text "aaabaa"), ("p", .text "aa"), ("n", .text "-")] }
    (evalText .full (.name ⟨1, 7⟩ "t")).run { s with position := some ⟨1, 1⟩ } =
        (.ok "aaabaa", { s with position := some ⟨1, 1⟩ }) ∧
      ∃ r s₃ result, s₃.heap.items r = [.text "", .text "ab", .text ""] ∧
        (builtin .arrayJoin [.list r, .text "aa"]).run s₃ = (.ok (.text "aaabaa"), s₃) ∧
        (exec .full (.command ⟨2, 1⟩ (.text (.replace (.name ⟨2, 9⟩ "p") (.name ⟨2, 16⟩ "n")
            (some "t") none)))).run s =
          (.ok .normal, { s with
            position := some ⟨2, 1⟩
            bag := s.bag.insert "t" (.text result) }) ∧
        (builtin .arrayJoin [.list r, .text "-"]).run s₃ = (.ok (.text result), s₃) := by
  intro s
  obtain ⟨r, s₃, -, -, hitems, -, hjoin, -, hreplace, -⟩ :=
    split_join_replace .full ⟨1, 1⟩ (.name ⟨1, 7⟩ "t") (.name ⟨1, 12⟩ "p") "parts" s
      { s with position := some ⟨1, 1⟩ } { s with position := some ⟨1, 1⟩ } "aaabaa" "aa" rfl rfl
  obtain ⟨result, hrun, hpieces⟩ :=
    hreplace ⟨2, 1⟩ (.name ⟨2, 9⟩ "p") (.name ⟨2, 16⟩ "n") "t" none s
      { s with position := some ⟨2, 1⟩ } { s with position := some ⟨2, 1⟩ } "-" rfl rfl rfl
  refine ⟨rfl, r, s₃, result, ?_, hjoin, hrun, hpieces⟩
  rw [hitems]
  decide

end Run
end Parlance
