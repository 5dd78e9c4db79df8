import Parlance.Proofs.Cells
import Parlance.Proofs.Interpolation
import Parlance.Proofs.Quiet

/-!
# Expressions Only Add

An expression that calls no function of a script and draws no random number has no effect
that another one could see. It may make lists and objects, in new cells, and the hosts and the
log may take note of it. The cells that were there, the variables, the worlds and all else
stay. This is so for every kind of expression and condition, and also if it fails.

## Main definitions

* `Expr.uses`: Whether the expression uses such functions of the language only, and functions of a
  script only if it may.
* `Expr.isSettled`: Whether the expression calls no function of a script and draws no random
  number.
* `Comparison.all`: Whether all expressions in the comparison are of a kind.
* `Condition.all`: Whether all expressions in the condition are of a kind.
* `Session.Grown`: The second session has more cells and other notes, and no other difference.

## Theorems

* `Session.Grown.trans`: Growing twice is growing.
* `Session.Grown.bag`: The variables of a session that has grown are as before.
* `Run.within_eval`: An expression stays within a bound that allows the functions it uses.
* `Run.grows_eval`: A settled expression only adds to the session.
-/

namespace Parlance
open World Bool

namespace Expr

mutual

/-- Whether the expression uses such functions of the language only, and functions of a script
    only if it may. -/
def uses (only : Builtin → Bool) (scripts : Bool) : Expr → Bool
  | .list _ es => allUse only scripts es
  | .object _ fs => fieldsUse only scripts fs
  | .binary _ _ left right => uses only scripts left && uses only scripts right
  | .builtin _ fn args => only fn && allUse only scripts args
  | .field _ _ key => uses only scripts key
  | .call _ _ args => scripts && allUse only scripts args
  | _ => true

def allUse (only : Builtin → Bool) (scripts : Bool) : List Expr → Bool
  | [] => true
  | e :: rest => uses only scripts e && allUse only scripts rest

def fieldsUse (only : Builtin → Bool) (scripts : Bool) : List (String × Expr) → Bool
  | [] => true
  | (_, e) :: rest => uses only scripts e && fieldsUse only scripts rest

end

/-- Whether the expression calls no function of a script and draws no random number. -/
abbrev isSettled : Expr → Bool := uses (· != .random) false

end Expr

/-- Whether all expressions in the comparison are of a kind. -/
def Comparison.all (p : Expr → Bool) : Comparison → Bool
  | .less e | .greater e | .equal e | .notEqual e => p e
  | .between low high => p low && p high
  | _ => true

/-- Whether all expressions in the condition are of a kind. -/
def Condition.all (p : Expr → Bool) : Condition → Bool
  | .logical _ _ left right => left.all p && right.all p
  | .not _ c => c.all p
  | .value _ e c => p e && c.all p
  | .property _ _ _ c | .named _ _ c => c.all p
  | .switch _ e _ | .choice _ e | .contains _ _ e | .startsWith _ _ e | .endsWith _ _ e
  | .hasKey _ _ e => p e
  | .bool _ _ | .hasItem _ _ | .hasStatus _ _ _ | .ofType _ _ _ => true

abbrev Comparison.isSettled : Comparison → Bool := Comparison.all Expr.isSettled

abbrev Condition.isSettled : Condition → Bool := Condition.all Expr.isSettled

namespace Session

def bare (s : Session) : Session :=
  { s with
    heap := .empty, diagnostics := #[], log := #[]
    hosts := { s.hosts with journal := #[] } }

/-- The second session has more cells and other notes, and no other difference. -/
structure Grown (s s' : Session) : Prop where
  bare : s'.bare = s.bare
  old : s.heap.Extends s'.heap

theorem Grown.refl (s : Session) : s.Grown s := ⟨rfl, .refl⟩

/-- Growing twice is growing. -/
theorem Grown.trans {s s' s'' : Session} (h : s.Grown s') (h' : s'.Grown s'') : s.Grown s'' :=
  ⟨h'.bare.trans h.bare, h.old.trans h'.old⟩

/-- The variables of a session that has grown are as before. -/
theorem Grown.bag {s s' : Session} (h : s.Grown s') : s'.bag = s.bag :=
  show s'.bare.bag = s.bare.bag from congrArg Session.bag h.bare

theorem Grown.position {s s' : Session} (h : s.Grown s') : s'.position = s.position :=
  show s'.bare.position = s.bare.position from congrArg Session.position h.bare

end Session

namespace Run
variable {α β : Type}

/-- Cells and notes are added, and no more. -/
def Bound.growing : Bound where
  step := Session.Grown
  ends _ := True
  refl := .refl
  trans := .trans
  notes _ _ _ _ := ⟨rfl, .refl⟩
  signals _ := trivial

abbrev Grows (x : Run α) : Prop := Within .growing x

theorem Grows.grown {x : Run α} (h : Grows x) (s : Session) : s.Grown (x.run s).2 := h.steps s

theorem Grows.of_grown {x : Run α} (h : ∀ s : Session, s.Grown (x.run s).2) : Grows x :=
  ⟨h, fun _ _ _ => trivial⟩

instance : Bound.growing.Making where
  list s _ := ⟨rfl, s.heap.extends_alloc _⟩
  object s _ := ⟨rfl, s.heap.extends_alloc _⟩
  journal _ _ := ⟨rfl, .refl⟩

variable {v w : Value} {name t u : String} {args : List Value}

/-! ### Questions to the hosts -/

variable {L : Linker} {B : Bound}

section Making
variable [hB : B.Making]

theorem within_ask (hbare : Within B (askBare name args)) (h : Within B (perform L name args)) :
    Within B (ask L name args) := by
  unfold ask
  infer_instance

instance : Within B (ask L "get_property" [v, w]) :=
  within_ask within_pure (inferInstance : Within B (World.property v w))

instance : Within B (ask L "is_switch" [v]) :=
  within_ask within_pure (inferInstance : Within B (do
    return Value.bool (((← World.read .main).switches.get? (← key v)).getD false)))

instance : Within B (ask L "has_status" [v, w]) :=
  within_ask within_pure (inferInstance : Within B (do
    return Value.bool ((((← World.read .main).statuses.get? (← key v)).getD ∅).contains
      (← key w))))

instance {which : Which} : Within B (keep which "item_count" [v]) :=
  (inferInstance : Within B (do return Value.number (← itemCount which v)))

instance : Within B (askStore "item_count" [v]) := by
  refine .next fun s => ?_
  cases s.hosts.storeHost <;> infer_instance

instance : Within B (property L t u) := within_bind

/-! ### Names and texts -/

instance : Within B (resolve L name) := by
  refine .next fun o => ?_
  cases o <;> infer_instance

instance within_fillIn {ps : List Template.Piece} : Within B (fillIn L ps) := by
  refine ⟨fun s => ?_, fun s e h => ?_⟩ <;>
    obtain ⟨journal, hrun, -⟩ := notes_fillIn (L := L) ps s
  · rw [hrun]
    exact hB.journal s journal
  · rw [hrun] at h
    cases hfilled : s.filled ps <;> rw [hfilled] at h <;> cases h
    exact B.signals nofun

instance : Within B (interpolate L t) := within_fillIn

instance : Within B (readKey L name v) := by
  refine .next fun o => ?_
  cases o <;> infer_instance

end Making

/-! ### Expressions and conditions -/

/-- Within the bound one may also use such functions of the language. -/
class Bound.Using (B : Bound) (only : Builtin → Bool) : Prop extends B.Making where
  builtin {fn : Builtin} {vs : List Value} : only fn → Within B (builtin fn vs)

variable {only : Builtin → Bool}

mutual

/-- An expression stays within a bound that allows the functions it uses. -/
theorem within_eval [hB : B.Using only] : (e : Expr) → e.uses only false → Within B (eval L e)
  | .number _ _, _ | .bool _ _, _ | .null _, _ | .constant _ _, _ | .text _ _, _ | .name _ _, _ => by
    rw [eval]; infer_instance
  | .list _ es, h => by
    have hes := within_evalAll es (by simpa only [Expr.uses] using h)
    rw [eval]; infer_instance
  | .object _ fs, h => by
    have hfs := within_evalFields fs (by simpa only [Expr.uses] using h)
    rw [eval]; infer_instance
  | .binary _ _ left right, h => by
    rw [Expr.uses, and_eq_true] at h
    have hleft := within_eval left h.1
    have hright := within_eval right h.2
    rw [eval]; infer_instance
  | .builtin _ fn es, h => by
    rw [Expr.uses, and_eq_true] at h
    have hes := within_evalAll es h.2
    rw [eval]
    exact hes.bind fun _ => hB.builtin h.1
  | .field _ _ key, h => by
    have hkey := within_eval key (by simpa only [Expr.uses] using h)
    rw [eval]; infer_instance
  | .call _ _ _, h => absurd h (by simp [Expr.uses])

theorem within_evalAll [hB : B.Using only] : (es : List Expr) → Expr.allUse only false es →
    Within B (evalAll L es)
  | [], _ => by rw [evalAll]; infer_instance
  | e :: rest, h => by
    rw [Expr.allUse, and_eq_true] at h
    have he := within_eval e h.1
    have hrest := within_evalAll rest h.2
    rw [evalAll]; infer_instance

theorem within_evalFields [hB : B.Using only] : (fs : List (String × Expr)) →
    Expr.fieldsUse only false fs → Within B (evalFields L fs)
  | [], _ => by rw [evalFields]; infer_instance
  | (_, e) :: rest, h => by
    rw [Expr.fieldsUse, and_eq_true] at h
    have he := within_eval e h.1
    have hrest := within_evalFields rest h.2
    rw [evalFields]; infer_instance

end

instance : Bound.growing.Using (· != .random) := ⟨fun h => within_builtin (bne_iff_ne.mp h)⟩

/-- A settled expression only adds to the session. -/
theorem grows_eval (e : Expr) (he : e.isSettled) : Grows (eval L e) :=
  within_eval e he

theorem grows_meets (c : Comparison) (hc : c.isSettled) : Grows (meets L v c) := by
  cases c with
  | less e | greater e | equal e | notEqual e =>
    have he := grows_eval (L := L) e hc
    unfold meets
    infer_instance
  | between low high =>
    rw [Comparison.isSettled, Comparison.all, and_eq_true] at hc
    have hlow := grows_eval (L := L) low hc.1
    have hhigh := grows_eval (L := L) high hc.2
    unfold meets
    infer_instance
  | _ => unfold meets; infer_instance

instance : Grows (propertyOf L t u) := by
  refine .next fun v => ?_
  cases v <;> infer_instance

instance : Grows (lookUp L name) := by
  refine .next fun o => ?_
  cases o with
  | some v => exact within_pure
  | none =>
    dsimp only
    split
    · infer_instance
    · refine .next fun v => ?_
      cases v with
      | object r =>
        refine .next fun d => ?_
        split <;> infer_instance
      | _ => infer_instance

/-- A settled condition only adds to the session. -/
theorem grows_test (c : Condition) (hc : c.isSettled) : Grows (test L c) := by
  induction c with
  | logical _ op left right ihleft ihright =>
    rw [Condition.isSettled, Condition.all, and_eq_true] at hc
    have hleft := ihleft hc.1
    have hright := ihright hc.2
    cases op <;> rw [test] <;> infer_instance
  | not _ c ih =>
    have h := ih hc
    rw [test]; infer_instance
  | value _ e c =>
    rw [Condition.isSettled, Condition.all, and_eq_true] at hc
    rw [test]
    exact (grows_eval e hc.1).bind fun _ => grows_meets c hc.2
  | property _ _ _ c | named _ _ c =>
    rw [test]
    exact .next fun _ => grows_meets c hc
  | choice _ e =>
    have he := grows_eval (L := L) e hc
    rw [test]
    refine .next fun s => ?_
    cases s.lastChoice <;> unfold evalNumber <;> infer_instance
  | hasKey _ _ e =>
    have he := grows_eval (L := L) e hc
    rw [test]
    refine .next fun v => ?_
    cases v <;> unfold evalText <;> infer_instance
  | contains _ _ e =>
    have he := grows_eval (L := L) e hc
    rw [test]; infer_instance
  | switch _ e _ | startsWith _ _ e | endsWith _ _ e =>
    have he := grows_eval (L := L) e hc
    rw [test]
    unfold evalText
    infer_instance
  | _ => rw [test]; infer_instance

end Run
end Parlance
