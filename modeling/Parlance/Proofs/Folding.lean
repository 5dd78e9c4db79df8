import Parlance.Engine.Rules
import Parlance.Proofs.Magnitude

/-!
# Constants and Evaluation

The arithmetic in a data definition is done while the script is read, by rules of its own. For
sums, differences and products they are those of a running script. Quotients ask one more
question of the divisor, and remainders have no rule at all: where a script would go on with a
number, a data definition is left without a value.

## Main definitions

* `Operator.apply`: What an operator makes of two numbers.
* `Expr.IsArithmetic`: Whole numbers joined by the five operators.
* `Expr.FoldsPlainly`: There is no remainder, and the divisors are ordinary.

## Theorems

* `Run.folds_as_evaluated`: The arithmetic of a data definition is that of a running script as
  long as it has no remainders and divides by numbers that binary64 has.
* `Run.folds_as_evaluated_mixed`: A quotient of a sum is the same in both, and a remainder is not.
-/

namespace Parlance
open Binary

/-- What an operator makes of two numbers. A quotient by zero is zero. -/
def Operator.apply (op : Operator) (a b : Number) : Except Defect Number :=
  match op with
  | .plus => Number.normal <$> a.add b
  | .minus => Number.normal <$> a.sub b
  | .times => Number.normal <$> a.mul b
  | .over => if b.isZero then .ok (.int 0) else Number.normal <$> a.div b
  | .modulo => Number.normal <$> a.mod b
  | .unknown _ => .ok .nan

def Number.isOrdinary (b : Number) : Bool := b.isZero || !b.isVast && !b.nearest.isNaN

namespace Expr

/-- Whole numbers joined by the five operators. -/
inductive IsArithmetic : Expr → Prop
  | int {p n} : IsArithmetic (.number p (.int n))
  | binary {p op left right} : (∀ sign, op ≠ .unknown sign) → IsArithmetic left →
    IsArithmetic right → IsArithmetic (.binary p op left right)

def value : Expr → Except Defect Number
  | .number _ n => .ok n
  | .binary _ op left right => do
    let a ← left.value
    let b ← right.value
    op.apply a.normal b.normal
  | _ => .ok .nan

/-- There is no remainder, and the divisors are ordinary. -/
def FoldsPlainly : Expr → Prop
  | .binary _ op left right => foldable op = true ∧ left.FoldsPlainly ∧ right.FoldsPlainly ∧
    (op = .over → ∀ b, right.value = .ok b → b.normal.isOrdinary = true)
  | _ => True

end Expr

def Json.asValue : Json → Value
  | .number n => .number n
  | .bool b => .bool b
  | .text s => .text s
  | _ => .null

namespace Number
open Float.Model (UnpackedFloat Format)
variable {a b : Number}

theorem foldBinary_over : foldBinary .over a b =
    if b.isZero then .ok (.int 0)
    else if b.isVast then .error .overflow
    else if b.nearest.isNaN then .ok (.int 0)
    else Json.number <$> Operator.apply .over a b := by
  rw [foldBinary, isNaN_bind, Operator.apply]
  by_cases hzero : b.isZero
  · rw [if_pos hzero, if_pos hzero]
    rfl
  · rw [if_neg hzero, if_neg hzero, if_neg hzero]
    split
    · rfl
    · split
      · rfl
      · cases a.div b <;> rfl

theorem foldBinary_eq {op : Operator} (hop : Expr.foldable op = true)
    (hb : op = .over → b.isOrdinary = true) : foldBinary op a b = Json.number <$> op.apply a b := by
  match op with
  | .plus =>
    rw [foldBinary, Operator.apply]
    cases a.add b <;> rfl
  | .minus =>
    rw [foldBinary, Operator.apply]
    cases a.sub b <;> rfl
  | .times =>
    rw [foldBinary, Operator.apply]
    cases a.mul b <;> rfl
  | .over =>
    have hordinary := hb rfl
    rw [isOrdinary, Bool.or_eq_true, Bool.and_eq_true, Bool.not_eq_true',
      Bool.not_eq_true'] at hordinary
    rw [foldBinary_over]
    split
    · rw [Operator.apply, if_pos ‹_›]
      rfl
    · obtain ⟨hvast, hnan⟩ := hordinary.resolve_left ‹_›
      rw [hvast, hnan]
      rfl
  | .modulo | .unknown _ => cases hop

theorem eq_float_of_isNaN (hb : b.nearest.isNaN = true) :
    ∃ y : Float, b = .float y ∧ y.isNaN = true := by
  cases b with
  | int n =>
    rw [nearest, ofInt, isNaN_ofRatio _ Nat.one_pos] at hb
    cases hb
  | float y => exact ⟨y, rfl, hb⟩

theorem dyadic?_of_isNaN {y : Float} (hy : y.isNaN = true) : dyadic? y = none := by
  rw [← Option.not_isSome_iff_eq_none, isSome_dyadic?, isFinite_eq, hy]
  exact Bool.false_ne_true

theorem apply_over_of_isNaN {y : Float} (ha : a.isVast = false) (hy : y.isNaN = true) :
    ∃ x : Float, Operator.apply .over a (.float y) = .ok (.float x) ∧ x.isNaN = true := by
  have hzero : (float y).isZero = false := by rw [isZero, eq, dyadic?_of_isNaN hy]
  have hquotient : a.div (float y) = .ok (.float (a.nearest / y)) := by
    have hrounded : (do return float ((← a.toFloat) / (← (float y).toFloat))) =
        (.ok (float (a.nearest / y)) : Except Defect Number) := by
      rw [toFloat_bind, ha]
      rfl
    cases a <;> exact hrounded
  have hnan : (a.nearest / y).isNaN = true := by
    have hunpack : y.toModel.unpack = .notANumber := UnpackedFloat.isNaN_iff.mp hy
    have hdiv : UnpackedFloat.div Format.binary64 a.nearest.toModel.unpack y.toModel.unpack =
        .notANumber := by
      rw [hunpack]
      cases a.nearest.toModel.unpack <;> rfl
    change (Float.Model.pack (UnpackedFloat.div Format.binary64 a.nearest.toModel.unpack
      y.toModel.unpack)).unpack.isNaN = true
    rw [hdiv]
    decide
  refine ⟨_, ?_, hnan⟩
  rw [Operator.apply, hzero, hquotient]
  change Except.ok (Number.normal (.float _)) = _
  rw [normal, whole?, dyadic?_of_isNaN hnan]

theorem over_of_isNaN (ha : a.isVast = false) (hb : b.nearest.isNaN = true) :
    foldBinary .over a b = .ok (.int 0) ∧
      ∃ x : Float, Operator.apply .over a b = .ok (.float x) ∧ x.isNaN = true := by
  obtain ⟨y, rfl, hy⟩ := eq_float_of_isNaN hb
  refine ⟨?_, apply_over_of_isNaN ha hy⟩
  rw [foldBinary_over, hb]
  split <;> rfl

theorem over_of_limit_le {m n : Int} (hm : m.natAbs < limit)
    (hn : limit ≤ n.natAbs) : foldBinary .over (.int m) (.int n) = .error .overflow ∧
      ∃ q, Operator.apply .over (.int m) (.int n) = .ok q := by
  have hn0 : n ≠ 0 := by
    rintro rfl
    exact Nat.not_lt_of_le hn limit_pos
  have hzero : (int n).isZero = false := beq_eq_false_iff_ne.mpr hn0
  have hvast : (int n).isVast = true := by
    rw [isVast, decide_eq_true_iff]
    exact hn
  have hfits : (int m).div (.int n) ≠ .error .overflow := by
    rw [Ne, div_eq_overflow_iff_whole hn0, Nat.not_le]
    exact hm.trans_le (Nat.le_mul_of_pos_right limit (Int.natAbs_pos.mpr hn0))
  rw [foldBinary_over, hzero, hvast, Operator.apply, hzero]
  refine ⟨rfl, ?_⟩
  cases hdiv : (int m).div (.int n) with
  | error d => exact absurd (hdiv.trans (congrArg _ (Overflows.div.only d hdiv))) hfits
  | ok q => exact ⟨_, rfl⟩

end Number

namespace Expr
variable {e : Expr}

theorem IsArithmetic.overflows (he : e.IsArithmetic) : Overflows e.value := by
  induction he with
  | int => exact .ok
  | binary hop _ _ hl hr =>
    rw [value]
    have happly (op : Operator) (a b : Number) : Overflows (op.apply a b) := by
      have hmap (x : Except Defect Number) [Overflows x] : Overflows (Number.normal <$> x) := by
        rw [map_eq_pure_bind]
        infer_instance
      unfold Operator.apply
      split <;> infer_instance
    infer_instance

theorem IsArithmetic.fold_eq (he : e.IsArithmetic) (h : e.FoldsPlainly) :
    e.fold = Json.number <$> e.value := by
  induction he with
  | int => rfl
  | @binary p op left right _ _ _ hl hr =>
    obtain ⟨hop, hleft, hright, hdivisor⟩ := h
    rw [fold, hop, hl hleft, hr hright, value]
    cases left.value with
    | error d => rfl
    | ok a =>
      cases hb : right.value with
      | error d => rfl
      | ok b => exact Number.foldBinary_eq hop fun hover => hdivisor hover b hb

end Expr

namespace Run
variable {L : Linker} {e : Expr}

theorem binary_number {op : Operator} (hop : ∀ sign, op ≠ .unknown sign) (a b : Number) :
    binary op (.number a) (.number b) = lift (Value.number <$> op.apply a.normal b.normal) := by
  have hbinary : binary op (.number a) (.number b) =
      (do return .number (← arithmetic op a.normal b.normal)) := by
    have hjoins : (op == .plus && (joinsText (.number a) || joinsText (.number b))) = false :=
      Bool.and_false _
    rw [binary, hjoins]
    rfl
  rw [hbinary, Operator.apply.eq_def]
  match op with
  | .plus =>
    rw [arithmetic]
    cases a.normal.add b.normal <;> rfl
  | .minus =>
    rw [arithmetic]
    cases a.normal.sub b.normal <;> rfl
  | .times =>
    rw [arithmetic]
    cases a.normal.mul b.normal <;> rfl
  | .over =>
    rw [arithmetic]
    dsimp only
    split
    · rfl
    · cases a.normal.div b.normal <;> rfl
  | .modulo =>
    rw [arithmetic]
    cases a.normal.mod b.normal <;> rfl
  | .unknown sign => exact absurd rfl (hop sign)

theorem eval_eq_value (he : e.IsArithmetic) : eval L e = lift (Value.number <$> e.value) := by
  induction he with
  | int => rfl
  | @binary p op left right hop _ _ hl hr =>
    rw [eval, hl, hr, Expr.value]
    cases left.value with
    | error d => rfl
    | ok a =>
      cases right.value with
      | error d => rfl
      | ok b => exact binary_number hop a b

/-- The arithmetic of a data definition is that of a running script as long as it has no
    remainders and divides by numbers that binary64 has. A remainder is no value in a data
    definition, and a number in a script. A quotient by an undefined number is zero in a data
    definition and undefined in a script, and for a divisor beyond binary64 the definition
    cannot be read. -/
theorem folds_as_evaluated (L : Linker) (e : Expr) (he : e.IsArithmetic) :
    eval L e = lift (Value.number <$> e.value) ∧
    (e.FoldsPlainly → eval L e = lift (Json.asValue <$> e.fold)) ∧
    (∀ p left right, e = .binary p .modulo left right → e.fold = .ok .null ∧
      (e.value = .error .overflow ∨ ∃ n, e.value = .ok n)) ∧
    ∀ p left right a b, e = .binary p .over left right → left.FoldsPlainly →
      right.FoldsPlainly → left.value = .ok a → right.value = .ok b →
      (a.normal.isVast = false → b.normal.nearest.isNaN = true → e.fold = .ok (.int 0) ∧
        ∃ x : Float, e.value = .ok (.float x) ∧ x.isNaN = true) ∧
      ∀ m n : Int, a.normal = .int m → b.normal = .int n → m.natAbs < limit →
        limit ≤ n.natAbs → e.fold = .error .overflow ∧ ∃ q, e.value = .ok q := by
  have heval : eval L e = lift (Value.number <$> e.value) := eval_eq_value he
  refine ⟨heval, fun hplain => ?_, ?_, ?_⟩
  · rw [heval, he.fold_eq hplain]
    cases e.value <;> rfl
  · rintro p left right rfl
    refine ⟨rfl, ?_⟩
    cases hvalue : (Expr.binary p .modulo left right).value with
    | error d => exact .inl (congrArg _ (he.overflows.only d hvalue))
    | ok n => exact .inr ⟨n, rfl⟩
  · rintro p left right a b rfl hleft hright ha hb
    cases he with
    | binary hop hl hr =>
      have hfold : (Expr.binary p .over left right).fold =
          Number.foldBinary .over a.normal b.normal := by
        rw [Expr.fold, hl.fold_eq hleft, hr.fold_eq hright, ha, hb]
        rfl
      have hvalue : (Expr.binary p .over left right).value =
          Operator.apply .over a.normal b.normal := by
        rw [Expr.value, ha, hb]
        rfl
      rw [hfold, hvalue]
      refine ⟨Number.over_of_isNaN, fun m n hm hn => ?_⟩
      rw [hm, hn]
      exact Number.over_of_limit_le

/-- A quotient of a sum is the same in both, and a remainder is not. -/
theorem folds_as_evaluated_mixed :
    let quotient : Expr := .binary .start .over (.binary .start .plus (.number .start (.int 1))
      (.number .start (.int 2))) (.number .start (.int 4))
    let rest : Expr := .binary .start .modulo (.number .start (.int 7)) (.number .start (.int 2))
    eval .full quotient = lift (Json.asValue <$> quotient.fold) ∧ rest.fold = .ok .null ∧
      rest.value = .ok (.int 1) := by
  intro quotient rest
  have hint (n : Int) : (Expr.number .start (.int n)).IsArithmetic := .int
  have hquotient : quotient.IsArithmetic :=
    .binary (by simp) (.binary (by simp) (hint 1) (hint 2)) (hint 4)
  have hrest : rest.IsArithmetic := .binary (by simp) (hint 7) (hint 2)
  have hfour : (Number.int 4).isVast = false := by
    rw [Number.isVast, decide_eq_false_iff_not, Nat.not_le]
    exact @natAbs_lt_of_whole? (ofInt 4) 4 (by decide)
  have hdivisor : (Number.int 4).normal.isOrdinary = true := by
    rw [Number.normal, Number.isOrdinary, hfour]
    decide
  have hplain : quotient.FoldsPlainly :=
    ⟨rfl, ⟨rfl, trivial, trivial, by simp⟩, trivial, fun _ b hb => Except.ok.inj hb ▸ hdivisor⟩
  exact ⟨(folds_as_evaluated .full quotient hquotient).2.1 hplain,
    ((folds_as_evaluated .full rest hrest).2.2.1 _ _ _ rfl).1, by decide⟩

end Run
end Parlance
