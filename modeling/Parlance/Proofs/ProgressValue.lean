import Parlance.Grammar.Condition
import Parlance.Proofs.Progress

/-!
# Progress on Values, Conditions and Events

Operands and conditions nest to a depth that their readers are given. Every
form of an operand takes a token before it nests, and so does `not`; so at
depth `n` the readers deal with fewer than `n` tokens, and the induction on the
depth loses one token and one level together.

## Theorems

* `Reader.moves_chain`: A chain takes at least what its first operand takes.
* `Reader.calm_listed`: A list of items goes on only as long as items are taken.
* `Reader.Calmly.leaf`: The reader of a leaf moves on past its token.
* `Reader.moves_value`: The reader of a value takes at least one token.
-/

namespace Parlance.Reader
variable {α : Type} {m : Nat}

-- The readers of conditions are long, and so is the search along them.
set_option synthInstance.maxSize 1000

/-! ### Chains -/

instance : Progress .none m (fun o : Option α => o ≠ none) (pure none) :=
  .of_look (fun _ => none) (fun _ => rfl) fun _ h => h rfl

theorem progress_operator : Progress .none m (fun o => o ≠ none) operator := by
  unfold operator
  refine progress_take (fun t ht => isFinish_eq_false fun hk => ?_) (fun t t' => calm_pure)
    fun t => inferInstance
  rw [hk] at ht
  exact absurd ht (by decide)

instance {primary : Reader Expr} [Calm m primary] : Calm m (operands primary) := by
  refine calm_loop (h := progress_operator.bind (Nat.le_succ m) (fun o ho => ?_) fun o ho => ?_)
  · cases o with
    | none => exact absurd rfl ho
    | some op => exact bind_calm
  · rw [Classical.not_not.mp ho]
    exact steps_stop

/-- A chain takes at least what its first operand takes. -/
instance moves_chain {primary : Reader Expr} [Moves m primary] : Moves m (chain primary) := bind_calm
instance {value : Reader Expr} [Moves m value] : Steps m (argument value) := bind_calm

instance calm_argumentsOf {value : Reader Expr} [Moves m value] : Calm m (argumentsOf value) :=
  calm_loop

instance calm_functionCallOf {value : Reader Expr} [Moves m value] :
    Calm m (functionCallOf value) := bind_calm

/-- A list of items goes on only as long as items are taken. -/
instance calm_listed {close : String} {item : Reader α} [Moves m item] :
    Calm m (listed close item) := bind_calm

instance {value : Reader Expr} [Moves m value] : Moves m (entry value) := bind_moves

instance {primary : Reader Expr} [h : Moves m primary] {stops : List String}
    {joins : Bool} : Calm m (unbracketed primary stops joins) := by
  have hitem : Steps m (tryRead primary >>= fun o => pure (o.elim .stop .item)) := by
    refine (progress_tryRead h).bind (Nat.le_succ m) (fun o _ => calm_pure) fun o ho => ?_
    cases o with
    | none => exact steps_stop
    | some e => exact absurd ⟨e, rfl, trivial⟩ ho
  refine calm_loop (h := progress_current fun c e hc he out c' hrun => ?_)
  by_cases hfinish : (c.peek 0).isFinish = true
  · rw [if_pos hfinish] at hrun
    exact steps_stop.run hc he hrun
  rw [if_neg hfinish] at hrun
  split at hrun
  · exact Calmly.advance_bind (n := m) hc (by omega) (Bool.of_not_eq_true hfinish) calm_pure hrun
  split at hrun
  · exact steps_stop.run hc he hrun
  · exact hitem.run hc he hrun

instance {primary : Reader Expr} [Moves m primary] {p : Position}
    {word : String} : Calm m (builtinOperands primary p word) := by
  unfold builtinOperands joinOperands operand twoOperands threeOperands
  split <;> infer_instance

instance {p : Position} : Calm m (fieldOf p) := bind_calm

theorem moves_bracketed {value : Reader Expr} (h : Moves m value) :
    Moves (m + 1) (bracketed value) :=
  Moves.bind moves_expect (Nat.le_refl _) fun _ => calm_listed

theorem moves_braced {value : Reader Expr} (h : Moves m value) : Moves (m + 1) (braced value) :=
  Moves.bind moves_expect (Nat.le_refl _) fun _ => calm_listed

/-- The reader of a leaf moves on past its token. -/
theorem Calmly.leaf {c c' : Cursor} {e : Nat} {out : Except Obstacle Expr} (hc : c.Ends e)
    (hrun : (leaf (c.peek 0)).run c = (out, c')) : Calmly .none e (fun _ => True) c out c' := by
  have he : e < c.index + e + 1 := by omega
  unfold Reader.leaf at hrun
  split at hrun
  case h_5 =>
    have hname : Moves (e + 1) (do
        if (c.peek 0).isWord = true then return Expr.name (c.peek 0).position (← reference)
        else Reader.fail .value) := inferInstance
    exact hname.run hc (by omega) hrun
  all_goals
    rename_i hkind
    refine Calmly.advance_bind (n := e) hc (by omega) (isFinish_eq_false ?_) calm_pure hrun
    rw [hkind]
    decide

theorem moves_primaryOf {primary : Reader Expr} (h : Moves m primary) :
    Moves (m + 1) (primaryOf primary) := by
  have hvalue : Moves m (chain primary) := moves_chain
  refine progress_current fun c e hc he out c' hrun => ?_
  by_cases hfinish : (c.peek 0).isFinish = true
  · rw [if_pos hfinish] at hrun
    exact Progress.fail.run hc he hrun
  have hword := Bool.of_not_eq_true hfinish
  -- Every other way an operand begins takes the token at the cursor first.
  rw [if_neg hfinish] at hrun
  split at hrun
  · have hlist := moves_bracketed hvalue
    exact (bind_moves (Q := fun _ => True)).run hc he hrun
  split at hrun
  · have hobject := moves_braced hvalue
    exact (bind_moves (Q := fun _ => True)).run hc he hrun
  split at hrun
  · exact Calmly.advance_bind (n := m) hc (by omega) hword inferInstance hrun
  rw [bind_ok (show (seesAhead 1 "function").run c
    = (.ok ((c.peek 1).reads "function"), c) from rfl)] at hrun
  split at hrun
  · exact Calmly.advance_bind (n := m) hc (by omega) hword inferInstance hrun
  split at hrun
  · exact Calmly.advance_bind (n := m) hc (by omega) hword inferInstance hrun
  split at hrun
  · exact Calmly.advance_bind (n := m) hc (by omega) hword inferInstance hrun
  · exact Calmly.leaf hc hrun

theorem moves_primaryAt (n : Nat) : Moves n (primaryAt n) := by
  induction n with
  | zero => exact .zero
  | succ n ih => exact moves_primaryOf ih

instance : Moves m primary :=
  progress_budget fun n => (moves_primaryAt n).mono (Nat.min_le_right _ _)

/-- The reader of a value takes at least one token. -/
instance moves_value : Moves m value := moves_chain
instance : Calm m arguments := calm_argumentsOf
instance : Calm m functionCall := calm_functionCallOf
instance : Calm m pair := bind_calm

/-! ### Conditions and events -/

instance : Calm m comparison := by
  unfold comparison negatedComparison acceptNull
  infer_instance

instance {x y : String} : Calm m (seesPair x y) := bind_calm
instance : Calm m advanceTwice := bind_calm

instance {p : Position} {subject : String} : Calm m (subjectCondition p subject) := by
  unfold subjectCondition seesTypeQuestion
  infer_instance

theorem calm_simpleConditionOf {inner : Reader Condition} (h : Calm m inner) :
    Calm (m + 1) (simpleConditionOf inner) := by
  exact Calm.bind calm_current fun t => accept_ite_succ inferInstance inferInstance

theorem calm_simpleConditionAt (n : Nat) : Calm n (simpleConditionAt n) := by
  induction n with
  | zero => exact .zero
  | succ n ih => exact calm_simpleConditionOf ih

instance : Calm m simpleCondition :=
  progress_budget fun n => (calm_simpleConditionAt n).mono (Nat.min_le_right _ _)

theorem progress_connective : Progress .none m (fun o => o ≠ none) connective := by
  unfold connective
  infer_instance

instance : Calm m condition := by
  have hturn : Steps m (do
      match ← connective with
      | none => return .stop
      | some op => return .item (op, ← simpleCondition)) := by
    refine progress_connective.bind (Nat.le_succ m) (fun o ho => ?_) fun o ho => ?_
    · cases o with
      | none => exact absurd rfl ho
      | some op => exact bind_calm
    · rw [Classical.not_not.mp ho]
      exact steps_stop
  unfold condition
  infer_instance

instance : Calm m event := by
  unfold event combatEvent subjectEvent
  infer_instance

end Parlance.Reader
