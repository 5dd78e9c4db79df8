import Parlance.Engine.Eval
import Parlance.Proofs.ReadName

/-!
# Arithmetic from Left to Right

No operator binds closer than another. A chain of operands is joined from the left, link by
link, whatever the spelling of its operators, and it is evaluated in that order.

## Theorems

* `Arithmetic.eval_foldl`: A chain that leans to the left is evaluated from the left.
* `Arithmetic.Chain.folds_left`: Arithmetic is read from left to right, however its operators are
  spelled.
* `Arithmetic.Chain.folds_left_mixed`: The last of three operators divides all that stands before
  it.
-/

namespace Parlance.Arithmetic
open Reader

theorem namesVariable_identifier (w : Core.Identifier) : namesVariable w.face = true := by
  have hlead : leadWords.contains w.text = false := by
    refine w.not_contains fun x hx => ?_
    by_cases hclose : x = "]"
    · rw [hclose]
      decide
    · refine Core.excluded_words x ?_
      simp only [leadWords, List.mem_append, List.mem_cons, List.not_mem_nil, or_false] at hx ⊢
      tauto
  rw [Core.Identifier.face, namesVariable, hlead]
  rfl

/-- A chain that leans to the left is evaluated from the left. -/
theorem eval_foldl (L : Linker) (p : Position) (x : Expr) (ls : List (Operator × Expr)) :
    Run.eval L (ls.foldl (fun left l => .binary p l.1 left l.2) x) = (do
      let v ← Run.eval L x
      ls.foldlM (fun v l => do Run.binary l.1 v (← Run.eval L l.2)) v) := by
  induction ls generalizing x with
  | nil => simp
  | cons l ls ih =>
    rw [List.foldl_cons, ih, Run.eval]
    simp only [bind_assoc, List.foldlM_cons]

/-- Arithmetic is read from left to right, however its operators are spelled. From the tokens
    of a chain the reader of values takes all and gives the left fold of the operands under
    their operators. The fold is evaluated in the same order, so no operator goes before
    another. -/
theorem Chain.folds_left (first : Operand) (links : List (Joint × Operand)) (tokens : List Token)
    (h : tokens.map Token.face = (Chain.mk first links).faces ++ [(.finish, .none)]) :
    ∃ (p : Position) (x : Expr) (ls : List (Operator × Expr)) (c : Cursor),
      value.run (Cursor.ofTokens tokens) =
        (.ok (ls.foldl (fun left l => .binary p l.1 left l.2) x), c) ∧
      c.faces = [(.finish, .none)] ∧ c.faults = [] ∧
      first.Placed x ∧ links.map (·.1.op) = ls.map Prod.fst ∧
      List.Forall₂ Operand.Placed (links.map Prod.snd) (ls.map Prod.snd) ∧
      ∀ L : Linker, Run.eval L (ls.foldl (fun left l => .binary p l.1 left l.2) x) = (do
        let v ← Run.eval L x
        ls.foldlM (fun v l => do Run.binary l.1 v (← Run.eval L l.2)) v) := by
  have hfinish : Core.Starts Core.endsValue [(.finish, .none)] := rfl
  obtain ⟨e, c, hrun, -, hfaces, hfaults, hplaced⟩ :=
    (Chain.mk first links).reads_value hfinish _ trivial (Core.faces_ofTokens h)
  cases hplaced with
  | @mk _ _ x p ls hx hops hoperands =>
    exact ⟨p, x, ls, c, hrun, hfaces, hfaults, hx, hops, hoperands, fun L => eval_foldl L p x ls⟩

/-- The last of three operators divides all that stands before it. -/
theorem Chain.folds_left_mixed : ∃ p q₁ q₂ q₃ q₄ q₅ q₆ c,
    value.run (Cursor.ofTokens (Token.scan "1 + 2 TIMES [total, \"x\"] divided BY -3")) =
      (.ok (.binary p .over (.binary p .times (.binary p .plus (.number q₁ (.int 1))
        (.number q₂ (.int 2))) (.list q₃ [.name q₄ "total", .text q₅ "x"]))
        (.number q₆ (.int (-3)))), c) ∧
      c.faces = [(.finish, .none)] := by
  obtain ⟨p, x, ls, c, hrun, hfaces, -, hx, hops, hls, -⟩ := Chain.folds_left (.number (.int 1))
    [(.sign .plus, .number (.int 2)),
      (.word ⟨"TIMES", by decide⟩ .times (by decide),
        .list [.mk (.name _ (namesVariable_identifier ⟨⟨"total", by decide⟩, by decide⟩)) [],
          .mk (.text "x") []]),
      (.wordBy ⟨"divided", by decide⟩ ⟨"BY", by decide⟩ .over (by decide) (by decide),
        .number (.int (-3)))]
    (Token.scan "1 + 2 TIMES [total, \"x\"] divided BY -3") (by decide)
  -- Three links, and the operators of the chain in their order.
  rcases ls with _ | ⟨⟨o₁, e₁⟩, _ | ⟨⟨o₂, e₂⟩, _ | ⟨⟨o₃, e₃⟩, _ | ⟨l, ls⟩⟩⟩⟩ <;> cases hops
  simp only [List.map_cons, List.map_nil, List.forall₂_cons] at hls
  obtain ⟨h₁, h₂, h₃, -⟩ := hls
  cases hx
  cases h₁
  cases h₃
  cases h₂ with
  | list hes =>
    simp only [List.forall₂_cons_left_iff, List.forall₂_nil_left_iff] at hes
    obtain ⟨y, _, hy, ⟨z, _, hz, rfl, rfl⟩, rfl⟩ := hes
    cases hy.singleton
    cases hz.singleton
    exact ⟨p, _, _, _, _, _, _, c, hrun, hfaces⟩

end Parlance.Arithmetic
