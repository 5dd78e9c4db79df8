import Parlance.Json.Basic
import Parlance.Syntax.Expr

/-!
# Constants in Data Definitions

The properties of a data definition are settled while the script is read. A
literal stands for itself, a name for its own spelling, and arithmetic is done
on the spot; any other expression has no value there.
-/

namespace Parlance

/-- The number that a document stands for. A list stands for its only element,
    and an empty one for zero. -/
def Json.toNumber : Json → Number
  | .null => .int 0
  | .bool b => .ofBool b
  | .number n => n.normal
  | .text s => .ofText s
  | .array [] => .int 0
  | .array [j] => toNumber j
  | _ => .nan

namespace Number

/-- Arithmetic on constants. Division by zero and by an undefined number gives
    zero. An operator without a rule here has no value. -/
def foldBinary (op : Operator) (a b : Number) : Except Defect Json := do
  match op with
  | .plus => return .number (← a.add b).normal
  | .minus => return .number (← a.sub b).normal
  | .times => return .number (← a.mul b).normal
  | .over =>
    if b.isZero then return .int 0
    if ← b.isNaN then return .int 0
    return .number (← a.div b).normal
  | _ => return .null

end Number

namespace Expr

def foldable : Operator → Bool
  | .plus | .minus | .times | .over => true
  | _ => false

def fold : Expr → Except Defect Json
  | .number _ n => .ok (.number n)
  | .bool _ b => .ok (.bool b)
  | .text _ s => .ok (.text s)
  | .name _ s => .ok (.text s)
  | .binary _ op left right => do
    if !foldable op then return .null
    let a ← left.fold
    let b ← right.fold
    Number.foldBinary op a.toNumber b.toNumber
  | _ => .ok .null

def foldNumber (e : Expr) : Except Defect Number := return (← e.fold).toNumber

end Expr
end Parlance
