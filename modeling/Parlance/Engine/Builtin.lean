import Parlance.Engine.Session
import Parlance.Sequence

/-!
# Operators and Functions of the Language

Arithmetic on values, and the functions that expressions may call. Operands
that are not numbers are read as numbers; `+` puts texts together as soon as
one operand is a text or a container.
-/

namespace Parlance

def Builtin.constant : String → Number
  | "pi" => .float 3.141592653589793
  | "e" => .float 2.718281828459045
  | "tau" => .float 6.283185307179586
  | "infinity" => .infinity
  | "ln2" => .float 0.6931471805599453
  | "ln10" => .float 2.302585092994046
  | "sqrt2" => .float 1.4142135623730951
  | _ => .nan

namespace Number

def round (x : Number) : Except Defect Number := do
  if !(← x.isFinite) then return x
  return match ← x.add (.float 0.5) with
    | .int n => .int n
    | .float y => (Binary.floor? y).elim (.float y) .int

def floor (x : Number) : Except Defect Number := do
  if !(← x.isFinite) then return x
  return match x with
    | .int n => .int n
    | .float y => (Binary.floor? y).elim (.float y) .int

def ceil (x : Number) : Except Defect Number := do
  if !(← x.isFinite) then return x
  return match x with
    | .int n => .int n
    | .float y => (Binary.ceil? y).elim (.float y) .int

/-- The square root; a negative number has none. -/
def sqrt (x : Number) : Except Defect Number := do
  let y ← x.toFloat
  if y.isNaN || y < 0 then return nan
  return normal (.float y.sqrt)

def sign (x : Number) : Except Defect Number := do
  if ← x.isNaN then return nan
  return .int (x.order (.int 0))

def log (x : Number) : Except Defect Number := do
  let y ← x.toFloat
  if y.isNaN || y < 0 then return nan
  if y == 0 then return .float (Binary.infinity true)
  return normal (.float y.log)

def maxExponent : Int := 1024

/-- The power in binary64. Results beyond the format are infinite. -/
def floatPower (x y : Number) : Number :=
  match x.toFloat, y.toFloat with
  | .ok a, .ok b =>
    let r := a.pow b
    if r.isInf && a.isFinite && b.isFinite then infinity else normal (.float r)
  | _, _ => infinity

def power (x y : Number) : Number :=
  match x, y with
  | .int m, .int n =>
    if 0 ≤ n && n ≤ maxExponent then .int (Int.pow m n.toNat)
    else if m = 0 && n < 0 then infinity
    else floatPower x y
  | _, _ => if x.isZero && y.lt (.int 0) then infinity else floatPower x y

/-- A number brought between two bounds; the upper bound wins. -/
def clamp (x low high : Number) : Except Defect Number := do
  return (← (← x.max low).min high).normal

end Number

namespace Run

def joinsText : Value → Bool
  | .text _ | .list _ | .object _ => true
  | _ => false

def arithmetic (op : Operator) (a b : Number) : Run Number := do
  match op with
  | .plus => return (← lift (a.add b)).normal
  | .minus => return (← lift (a.sub b)).normal
  | .times => return (← lift (a.mul b)).normal
  | .over =>
    if b.isZero then return .int 0
    return (← lift (a.div b)).normal
  | .modulo => return (← lift (a.mod b)).normal
  | .unknown sign => fail .language ("unknown operator '" ++ sign ++ "'") none

def binary (op : Operator) (left right : Value) : Run Value := do
  if op == .plus && (joinsText left || joinsText right) then
    return .text ((← text left) ++ (← text right))
  return .number (← arithmetic op (← number left) (← number right))

def findItem (needle : Value) : Nat → List Value → Run (Option Nat)
  | _, [] => return none
  | i, v :: rest => do
    if ← same v needle then return some i else findItem needle (i + 1) rest

/-- Whether a value occurs in another: an item in a list, a name in an object,
    a text in a text. -/
def contains (haystack needle : Value) : Run Bool := do
  match haystack with
  | .list r => return (← findItem needle 0 (← items r)).isSome
  | .object r => return (← fields r).contains (← text needle)
  | .null => return false
  | v =>
    let found ← text needle
    return Text.contains (← text v) found

def indexOf (haystack needle : Value) : Run Int := do
  match haystack with
  | .list r => return ((← findItem needle 0 (← items r)).map Int.ofNat).getD (-1)
  | .null => return -1
  | v =>
    let whole ← text v
    return ((Text.find? whole (← text needle)).map Int.ofNat).getD (-1)

def nth {α : Type} (xs : List α) : Number → Option α
  | .int n => if n < 0 then none else xs[n.toNat]?
  | .float _ => none

def charValue (c : Char) : Value := .text c.toString

/-- The entry of a value under a key. Lists and texts have a length and items
    by number. -/
def entry (container key : Value) : Run Value := do
  match container with
  | .object r => return ((← fields r).get? (← text key)).getD .null
  | .list r =>
    let xs ← items r
    if key == .text "length" then return .nat xs.length
    return (nth xs (← number key)).getD .null
  | .text s =>
    if key == .text "length" then return .nat s.length
    return ((nth s.toList (← number key)).map charValue).getD .null
  | _ => return .null

def length (v : Value) : Run Nat := do
  match v with
  | .list r => return (← items r).length
  | .object r => return (← fields r).size
  | .null => return 0
  | v => return (← text v).length

def itemText (v : Value) : Run String := if v.isNull then return "" else text v

def texts (f : Value → Run String) : List Value → Run (List String)
  | [] => return []
  | v :: rest => do
    let s ← f v
    return s :: (← texts f rest)

/-- The items of a value: none of null, and a value that is no list alone. -/
def asList (v : Value) : Run (List Value) := do
  match v with
  | .null => return []
  | .list r => items r
  | v => return [v]

def slice (source start stop : Value) : Run Value := do
  let first ← int start 0
  let last ← if stop.isNull then pure none else some <$> int stop 0
  match source with
  | .list r => newList (Sequence.slice (← items r) first last)
  | v => return .text (String.ofList (Sequence.slice (← text v).toList first last))

def pairUp : List Value → Run (List (String × Value))
  | k :: v :: rest => do
    let name ← text k
    return (name, v) :: (← pairUp rest)
  | _ => return []

def nextSeed (seed : Nat) : Nat :=
  (seed * 6364136223846793005 + 1442695040888963407) % Nat.pow 2 64

def draw : Run Float := do
  modify fun s => { s with seed := nextSeed s.seed }
  return Binary.ofRatio false ((← get).seed / Nat.pow 2 11) (Nat.pow 2 53)

def random (low high : Number) : Run Number := do
  let finite ← lift low.isFinite
  if !finite || !(← lift high.isFinite) then return .nan
  let width ← lift (do (← high.sub low).add (.int 1))
  let part ← draw
  let offset ← lift (do Number.floor (← (Number.float part).mul width))
  return (← lift (offset.add low)).normal

def giveText (s : String) : Run Value := return .text s

def giveNumber (n : Except Defect Number) : Run Value := return .number (← lift n)

/-- A function on its arguments. Missing arguments are null. -/
def builtin (fn : Builtin) (args : List Value) : Run Value := do
  let a := args[0]?.getD .null
  let b := args[1]?.getD .null
  let c := args[2]?.getD .null
  match fn with
  | .round => giveNumber (← number a).round
  | .floor => giveNumber (← number a).floor
  | .ceil => giveNumber (← number a).ceil
  | .abs => return .number (← number a).abs
  | .sqrt => giveNumber (← number a).sqrt
  | .sign => giveNumber (← number a).sign
  | .log => giveNumber (← number a).log
  | .uppercase => giveText (Text.upper (← text a))
  | .lowercase => giveText (Text.lower (← text a))
  | .trim => giveText (Text.trim (← text a))
  | .length => return .nat (← length a)
  | .count => return .nat (← length a)
  | .power => return .number ((← number a).power (← number b))
  | .min => giveNumber ((← number a).min (← number b))
  | .max => giveNumber ((← number a).max (← number b))
  | .random => return .number (← random (← number a) (← number b))
  | .clamp => giveNumber ((← number a).clamp (← number b) (← number c))
  | .join =>
    let first ← text a
    let second ← itemText b
    if args.length < 3 then giveText (first ++ second)
    else giveText (first ++ (← text c) ++ second)
  | .arrayJoin =>
    let separator ← if args.length < 2 then pure "," else text b
    match a with
    | .list r => giveText (separator.intercalate (← texts itemText (← items r)))
    | v => giveText (← text v)
  | .split =>
    let whole ← text a
    newList ((Text.split whole (← text b)).map .text)
  | .typeOf => giveText a.typeName
  | .indexOf => return .int (← indexOf b a)
  | .slice => slice a b c
  | .array => newList args
  | .object => newObject (.ofList (← pairUp args))

end Run
end Parlance
