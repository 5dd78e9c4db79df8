import Parlance.Json.Writer
import Parlance.Value

/-!
# Values as Trees

A value together with everything it holds, unfolded into a tree. A container
that is reached again on the way from the root is not unfolded twice: the tree
says instead how many levels up it stands. A tree without such marks is finite.
Only finite trees have a text, and only if all numbers in them can be written
out.
-/

namespace Parlance

inductive Tree where
  | null
  | bool (value : Bool)
  | number (value : Number)
  | text (value : String)
  | list (items : List Tree)
  | object (fields : List (String × Tree))
  | method (ref : Ref) (name : String)
  | cycle (levels : Nat)

namespace Tree

instance : Inhabited Tree := ⟨.null⟩

mutual

def isFinite : Tree → Bool
  | .list items => allFinite items
  | .object fields => allFieldsFinite fields
  | .cycle _ => false
  | _ => true

def allFinite : List Tree → Bool
  | [] => true
  | t :: rest => isFinite t && allFinite rest

def allFieldsFinite : List (String × Tree) → Bool
  | [] => true
  | (_, t) :: rest => isFinite t && allFieldsFinite rest

end

/-- Whether the value is data. Bound methods are not. -/
def isData : Tree → Bool
  | .method _ _ => false
  | _ => true

mutual

/-- The part of a value that is data: methods are left out of objects and are
    null in lists, and so are the numbers that JSON cannot write. -/
def plain : Tree → Json
  | .null => .null
  | .bool b => .bool b
  | .number (.float x) => if x.isFinite then .number (.float x) else .null
  | .number n => .number n
  | .text s => .text s
  | .list items => .array (plainItems items)
  | .object fields => .object (plainFields fields)
  | .method _ _ => .null
  | .cycle _ => .null

def plainItems : List Tree → List Json
  | [] => []
  | t :: rest => plain t :: plainItems rest

def plainFields : List (String × Tree) → List (String × Json)
  | [] => []
  | (k, t) :: rest => if isData t then (k, plain t) :: plainFields rest else plainFields rest

end

def json (t : Tree) : String := t.plain.compact

/-- Whether all numbers in the value can be written out. -/
def isShort (t : Tree) : Bool := t.plain.isShort

/-- The value, to be written out. -/
def writable (t : Tree) : Except Defect Tree := if t.isShort then .ok t else .error .badValue

mutual

/-- The characters of a value's text, whatever the length of its numbers. -/
def spelled : Tree → String
  | .null => "null"
  | .bool b => if b then "true" else "false"
  | .number n => n.spelled
  | .text s => s
  | .list items => ",".intercalate (itemTexts items)
  | .object fields => json (.object fields)
  | .method _ name => "<method " ++ name ++ ">"
  | .cycle _ => ""

def itemTexts : List Tree → List String
  | [] => []
  | .null :: rest => "" :: itemTexts rest
  | t :: rest => spelled t :: itemTexts rest

end

/-- The text of a value as it is shown: containers are written as JSON. -/
def display : Tree → String
  | .list items => json (.list items)
  | .object fields => json (.object fields)
  | t => spelled t

/-- The number that a value stands for. A list stands for its only item, and an
    empty one for zero. -/
def toNumber : Tree → Except Defect Number
  | .null => .ok (.int 0)
  | .bool b => .ok (.ofBool b)
  | .number n => .ok n.normal
  | .text s => .ok (.ofText s)
  | .list [] => .ok (.int 0)
  | .list [t] => toNumber t
  | .cycle _ => .error .endless
  | _ => .ok .nan

/-- Equality of numbers inside a container, where an undefined number equals
    itself. Values have no identity here, so any two undefined numbers count as
    one that is met twice. -/
def sameNumber (a b : Number) : Bool :=
  a.eq b || match a, b with
    | .float x, .float y => x.isNaN && y.isNaN
    | _, _ => false

mutual

/-- Equality of values inside a container. Truth values equal the numbers they
    stand for, and the order of fields does not matter. -/
def equal : Tree → Tree → Bool
  | .null, .null => true
  | .bool a, .bool b => a == b
  | .bool a, .number n => (Number.ofBool a).eq n
  | .number n, .bool b => n.eq (Number.ofBool b)
  | .number m, .number n => sameNumber m n
  | .text s, .text t => s == t
  | .list xs, .list ys => equalItems xs ys
  | .object xs, .object ys => xs.length == ys.length && equalFields xs ys
  | .method r _, .method r' _ => r == r'
  | _, _ => false

def equalItems : List Tree → List Tree → Bool
  | [], [] => true
  | x :: xs, y :: ys => equal x y && equalItems xs ys
  | _, _ => false

/-- Whether every field of the first object is found in the second with an
    equal value. -/
def equalFields : List (String × Tree) → List (String × Tree) → Bool
  | [], _ => true
  | (k, x) :: xs, ys =>
    (match ys.lookup k with
      | some y => equal x y
      | none => false) && equalFields xs ys

end

def sameType : Tree → Tree → Bool
  | .null, .null | .bool _, .bool _ | .text _, .text _ | .list _, .list _
  | .object _, .object _ | .method _ _, .method _ _ => true
  | _, _ => false

def same (a b : Tree) : Bool :=
  match a, b with
  | .number m, .number n => m.eq n
  | _, _ => sameType a b && equal a b

/-- Equality across types: numbers by value, values of one type by what they hold,
    and all else by the texts, which must then both exist. -/
def looseEqual (a b : Tree) : Except Defect Bool :=
  match a, b with
  | .number m, .number n => .ok (m.eq n)
  | _, _ =>
    if sameType a b && equal a b then .ok true
    else return (← a.writable).spelled == (← b.writable).spelled

def textOrder (s t : String) : Int := if s < t then -1 else if s = t then 0 else 1

/-- The order of two values: texts by code points, all else as numbers.
    Containers and undefined numbers have none. -/
def order? (a b : Tree) : Except Defect (Option Int) := do
  match a, b with
  | .text s, .text t => return some (textOrder s t)
  | .list _, _ | .object _, _ | _, .list _ | _, .object _ => return none
  | _, _ =>
    let x ← a.toNumber
    let y ← b.toNumber
    if ← x.isNaN then return none
    if ← y.isNaN then return none
    return some (x.order y)

/-- Whether the value is empty: null, false, zero, the empty text and the empty
    list are. -/
def isEmpty : Tree → Bool
  | .null => true
  | .bool b => !b
  | .number n => n.isZero
  | .text s => s.isEmpty
  | .list items => items.isEmpty
  | _ => false

end Tree
end Parlance
