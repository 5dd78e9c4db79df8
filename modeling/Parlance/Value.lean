import Parlance.Number

/-!
# Values

The values that a running script handles. Lists, objects and bound methods are
shared: a value holds a reference to a cell, and two variables may hold the
same reference.
-/

namespace Parlance

structure Ref where
  index : Nat
deriving DecidableEq, Inhabited

inductive Value where
  | null
  | bool (value : Bool)
  | number (value : Number)
  | text (value : String)
  | list (ref : Ref)
  | object (ref : Ref)
  | method (ref : Ref)
deriving DecidableEq

namespace Value

instance : Inhabited Value := ⟨.null⟩

def int (n : Int) : Value := .number (.int n)

def nat (n : Nat) : Value := .number (.int n)

def ofOption {α : Type} (f : α → Value) : Option α → Value
  | none => .null
  | some a => f a

/-- Whether the value is a number. Truth values are not. -/
def isNumber : Value → Bool
  | .number _ => true
  | _ => false

def number? : Value → Option Number
  | .number n => some n
  | _ => none

def isNull : Value → Bool
  | .null => true
  | _ => false

def isContainer : Value → Bool
  | .list _ | .object _ => true
  | _ => false

def typeName : Value → String
  | .null => "nothing"
  | .bool _ => "boolean"
  | .number _ => "number"
  | .text _ => "string"
  | .list _ => "array"
  | .object _ => "object"
  | .method _ => "function"

/-- The truth of a value: null, false, zero, undefined numbers and the empty
    text are not true. -/
def toBool : Value → Bool
  | .null => false
  | .bool b => b
  | .number (.float x) => !(Number.float x).isZero && !x.isNaN
  | .number n => !n.isZero
  | .text s => !s.isEmpty
  | _ => true

def normal : Value → Value
  | .number n => .number n.normal
  | v => v

end Value
end Parlance
