import Parlance.Defect
import Parlance.Number.Decimal
import Parlance.Number.Numeral

/-!
# Numbers

A number of the language is a whole number of any size or a binary64 number.
Whole numbers stay exact among themselves. As soon as a binary64 number takes
part, the whole number is rounded to binary64 first, and one that is too large
for the format is a defect.

Results pass through `Number.normal`, which turns a binary64 number with a
whole value into that whole number, so `2.5 + 2.5` is the whole number five.
-/

namespace Parlance

/-- A whole number of any size, or a binary64 number. -/
inductive Number where
  | int (value : Int)
  | float (value : Float)
deriving DecidableEq

namespace Number

instance : Inhabited Number := ⟨.int 0⟩

def nan : Number := .float Binary.nan

def infinity : Number := .float (Binary.infinity false)

/-- A binary64 number with a whole value becomes that whole number. -/
def normal : Number → Number
  | .int n => .int n
  | .float x => match Binary.whole? x with
    | some n => .int n
    | none => .float x

/-- The nearest binary64 number; a whole number too large for the format is a
    defect. -/
def toFloat : Number → Except Defect Float
  | .int n =>
    let x := Binary.ofInt n
    if x.isInf then .error .overflow else .ok x
  | .float x => .ok x

/-- Whether the number is undefined. Asking this of a whole number too large
    for binary64 is a defect. -/
def isNaN (a : Number) : Except Defect Bool := do
  let x ← a.toFloat
  return x.isNaN

def isInfinite (a : Number) : Except Defect Bool := do
  let x ← a.toFloat
  return x.isInf

def isFinite (a : Number) : Except Defect Bool := do
  let x ← a.toFloat
  return x.isFinite

/-- Applies an operation to whole numbers exactly and to any other pair after
    rounding both to binary64. -/
def lift (whole : Int → Int → Int) (float : Float → Float → Float) (a b : Number) :
    Except Defect Number :=
  match a, b with
  | .int m, .int n => .ok (.int (whole m n))
  | _, _ => do
    let x ← a.toFloat
    let y ← b.toFloat
    return .float (float x y)

def add : Number → Number → Except Defect Number := lift (· + ·) (· + ·)

def sub : Number → Number → Except Defect Number := lift (· - ·) (· - ·)

def mul : Number → Number → Except Defect Number := lift (· * ·) (· * ·)

/-- Equality of values, exact between the two kinds of number. -/
def eq : Number → Number → Bool
  | .int m, .int n => m == n
  | .float x, .float y => x == y
  | .int m, .float x => match Binary.dyadic? x with
    | some d => Binary.compareExact m d == .eq
    | none => false
  | .float x, .int m => match Binary.dyadic? x with
    | some d => Binary.compareExact m d == .eq
    | none => false

/-- Whether the first number is smaller, exact between the two kinds of
    number. Nothing is smaller or larger than the undefined number. -/
def lt : Number → Number → Bool
  | .int m, .int n => m < n
  | .float x, .float y => x < y
  | .int m, .float x => match Binary.dyadic? x with
    | some d => Binary.compareExact m d == .lt
    | none => x > 0
  | .float x, .int m => match Binary.dyadic? x with
    | some d => Binary.compareExact m d == .gt
    | none => x < 0

def isZero (a : Number) : Bool := a.eq (.int 0)

def order (a b : Number) : Int :=
  (if b.lt a then 1 else 0) - (if a.lt b then 1 else 0)

/-- The quotient, for a divisor that is not zero. The quotient of two whole
    numbers is rounded once, from the exact fraction; one beyond the largest
    binary64 number is a defect. -/
def div (a b : Number) : Except Defect Number :=
  match a, b with
  | .int m, .int n =>
    let x := Binary.ofRatio ((m < 0) != (n < 0)) m.natAbs n.natAbs
    if x.isInf then .error .overflow else .ok (.float x)
  | _, _ => do
    let x ← a.toFloat
    let y ← b.toFloat
    return .float (x / y)

/-- The remainder with the sign of the dividend, taken in binary64. Division
    by zero, an infinite dividend and undefined operands give the undefined
    number. -/
def mod (a b : Number) : Except Defect Number := do
  if b.isZero then return nan
  if ← a.isInfinite then return nan
  if ← a.isNaN then return nan
  if ← b.isNaN then return nan
  let x ← a.toFloat
  let y ← b.toFloat
  return .float (Binary.remainder x y)

def abs : Number → Number
  | .int n => .int n.natAbs
  | .float x => .float x.abs

/-- The whole part towards zero. Infinite and undefined numbers have none. -/
def truncate? : Number → Option Int
  | .int n => some n
  | .float x => Binary.truncate? x

/-- The smaller of two numbers, the first when they are equal, and undefined
    when one of them is. -/
def min (a b : Number) : Except Defect Number := do
  if ← a.isNaN then return nan
  if ← b.isNaN then return nan
  return if b.lt a then b else a

/-- The larger of two numbers, the first when they are equal, and undefined
    when one of them is. -/
def max (a b : Number) : Except Defect Number := do
  if ← a.isNaN then return nan
  if ← b.isNaN then return nan
  return if a.lt b then b else a

/-- The digits of a number as a program text shows them: a whole number in
    full, any other number with the fewest digits that read back. -/
def digits : Number → String
  | .int n => toString n
  | .float x => Decimal.ofFloat x

/-- Whether the number can be written out: only a whole number can have too many
    digits for that. -/
def isShort : Number → Bool
  | .int n => (Nat.toDigits 10 n.natAbs).length ≤ Numeral.maxDigits
  | .float _ => true

/-- The spelling of a number as a script shows it. Whole values have no point,
    and the three values that are no numbers have names. -/
def spelled : Number → String
  | .int n => toString n
  | .float x =>
    if x.isNaN then "NaN"
    else if x.isInf then if x > 0 then "Infinity" else "-Infinity"
    else match Binary.whole? x with
      | some n => toString n
      | none => Decimal.ofFloat x

/-- The number that a text stands for. Blanks alone stand for zero, and a text
    that is no number is undefined. -/
def ofText (s : String) : Number :=
  let t := Text.trim s
  if t.isEmpty then .int 0
  else match Numeral.float? t with
    | some x => normal (.float x)
    | none => nan

def ofBool (b : Bool) : Number := .int (if b then 1 else 0)

end Number
end Parlance
