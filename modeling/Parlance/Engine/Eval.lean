import Parlance.Engine.Builtin
import Parlance.Engine.Capability
import Parlance.Text.Template

/-!
# Evaluation

The values of expressions and the truth of conditions. Both follow the syntax
tree; only a call of a function leaves it, through the linker.

A call runs the body of the function on a copy of the bag. The copy is put on a
stack before and taken off after, however the call ends, so an expression never
changes the variables of the one who evaluates it.
-/

namespace Parlance
namespace Session

def enter (s : Session) : Session :=
  { s with snapshots := s.bag :: s.snapshots, depth := s.depth + 1 }

def exit (s : Session) : Session :=
  match s.snapshots with
  | [] => { s with depth := s.depth - 1 }
  | saved :: rest => { s with bag := saved, snapshots := rest, depth := s.depth - 1 }

/-- The function under a name. A name with a point may lead into a module. -/
def function? (s : Session) (name : String) : Option Function :=
  match s.functions.get? name with
  | some fn => some fn
  | none => match Text.cut name '.' with
    | (nickname, some member) => ((s.modules.get? nickname).getD ∅).get? member
    | _ => none

end Session

namespace Run

def bindParams : List String → List Value → Run Unit
  | [], _ => pure ()
  | p :: ps, args => do
    setVar p (args.headD .null)
    bindParams ps args.tail

def givenBack : Flow → Value
  | .give v => v
  | _ => .null

/-- Sets the object that a body belongs to and the parameters, and runs the
    body. -/
def bound (L : Linker) (params : List String) (stmts : List Stmt) (args : List Value)
    (this : Option Value) : Run Flow := do
  if let some v := this then setVar "this" v
  bindParams params args
  L.block stmts

def invoke (L : Linker) (params : List String) (stmts : List Stmt) (args : List Value)
    (this : Option Value) : Run Value := do
  let s ← get
  if maxDepth ≤ s.depth then fail .language "maximum call depth exceeded" s.position
  modify Session.enter
  let flow ← ensure (bound L params stmts args this) Session.exit
  return givenBack flow

def callFunction (L : Linker) (name : String) (args : List Value) : Run Value := do
  match (← get).function? name with
  | none =>
    warn ("unknown function '" ++ name ++ "'")
    return .null
  | some fn => invoke L fn.params fn.body args none

/-- The value of a name: a variable, a variable of the world, or the name
    itself. -/
def resolve (L : Linker) (name : String) : Run Value := do
  match ← var? name with
  | some v => return v
  | none =>
    let v ← property L "_vars" name
    return if v.isNull then .text name else v

def fieldText (L : Linker) (owner prop : String) : Run String := do
  let fromWorld : Run String := do
    let v ← property L owner prop
    if v.isNull then return "" else text v
  match ← var owner with
  | .object r => match (← fields r).get? prop with
    | some v => text v
    | none => fromWorld
  | _ => fromWorld

def templateField (L : Linker) (name : String) : Run String := do
  match Text.cut name '.' with
  | (owner, some prop) => fieldText L owner prop
  | (_, none) => match ← var? name with
    | some v => text v
    | none =>
      let v ← property L "player" name
      if v.isNull then return "" else text v

def fillIn (L : Linker) : List Template.Piece → Run String
  | [] => return ""
  | .char c :: rest => return c.toString ++ (← fillIn L rest)
  | .field name :: rest => do
    let s ← templateField L name
    return s ++ (← fillIn L rest)

def interpolate (L : Linker) (s : String) : Run String := fillIn L (Template.pieces s)

/-- The entry of a variable under a key, or the property of an entity when
    there is no such variable. -/
def readKey (L : Linker) (owner : String) (key : Value) : Run Value := do
  match ← var? owner with
  | some v => entry v key
  | none =>
    if (← get).hosts.stage == .absent then return .null
    ask L "get_property" [.text owner, .text (← text key)]

mutual

def eval (L : Linker) : Expr → Run Value
  | .number _ n => return .number n
  | .text _ s => return .text (← interpolate L s)
  | .bool _ b => return .bool b
  | .null _ => return .null
  | .name _ name => resolve L name
  | .list _ es => do newList (← evalAll L es)
  | .object _ fs => do newObject (.ofList (← evalFields L fs))
  | .binary _ op left right => do
    let a ← eval L left
    let b ← eval L right
    binary op a b
  | .builtin _ fn args => do builtin fn (← evalAll L args)
  | .field _ owner key => do readKey L owner (← eval L key)
  | .call _ name args => do callFunction L name (← evalAll L args)
  | .constant _ name => return .number (Builtin.constant name)

def evalAll (L : Linker) : List Expr → Run (List Value)
  | [] => return []
  | e :: rest => do
    let v ← eval L e
    return v :: (← evalAll L rest)

def evalFields (L : Linker) : List (String × Expr) → Run (List (String × Value))
  | [] => return []
  | (k, e) :: rest => do
    let v ← eval L e
    return (k, v) :: (← evalFields L rest)

end

def evalOr (L : Linker) : Option Expr → Run Value
  | none => return .null
  | some e => eval L e

def evalNumber (L : Linker) (e : Expr) : Run Number := do number (← eval L e)

def evalText (L : Linker) (e : Expr) : Run String := do text (← eval L e)

/-- The texts of expressions, each made before the next expression is evaluated. -/
def spellAll (L : Linker) (spell : Value → Run String) : List Expr → Run (List String)
  | [] => return []
  | e :: rest => do
    let s ← spell (← eval L e)
    return s :: (← spellAll L spell rest)

def meets (L : Linker) (v : Value) : Comparison → Run Bool
  | .empty => return (← get).heap.isEmpty v
  | .notEmpty => return !(← get).heap.isEmpty v
  | .present => return !v.isNull
  | .notNothing => return !v.isNull
  | .absent => return v.isNull
  | .nothing => return v.isNull
  | .between low high => do
    let a ← order? v (← eval L low)
    let b ← order? v (← eval L high)
    return match a, b with
      | some a, some b => 0 ≤ a && b ≤ 0
      | _, _ => false
  | .equal e => do looseEqual v (← eval L e)
  | .notEqual e => do return !(← looseEqual v (← eval L e))
  | .less e => do
    return match ← order? v (← eval L e) with
      | some c => c < 0
      | none => false
  | .greater e => do
    return match ← order? v (← eval L e) with
      | some c => 0 < c
      | none => false

def propertyOf (L : Linker) (subject prop : String) : Run Value := do
  match ← var subject with
  | .object r => return ((← fields r).get? prop).getD .null
  | _ => property L subject prop

/-- The value of a name in a condition. A name of two words may also lead to a
    field of an object or to a property of an entity. -/
def lookUp (L : Linker) (name : String) : Run Value := do
  let own : Run Value := property L "_vars" name
  match ← var? name with
  | some v => return v
  | none => match Text.cut name '_' with
    | (_, none) => own
    | (head, some rest) =>
      let fromWorld : Run Value := do
        let v ← property L head rest
        if v.isNull then own else return v
      match ← var head with
      | .object r => match (← fields r).get? rest with
        | some v => return v
        | none => fromWorld
      | _ => fromWorld

def isOfType (v : Value) (type : String) : Run Bool := do
  match type, v with
  | "text", .text _ => return true
  | "text", _ => return false
  | "string", .text _ => return true
  | "string", _ => return false
  | "integer", .number n =>
    if !(← lift n.isFinite) then return false
    return match n with
      | .int _ => true
      | .float x => (Binary.whole? x).isSome
  | "integer", _ => return false
  | _, _ => return v.typeName == type

def test (L : Linker) : Condition → Run Bool
  | .logical _ .and left right => do if ← test L left then test L right else return false
  | .logical _ .or left right => do if ← test L left then return true else test L right
  | .not _ c => do return !(← test L c)
  | .bool _ b => return b
  | .value _ left c => do meets L (← eval L left) c
  | .property _ subject prop c => do meets L (← propertyOf L subject prop) c
  | .named _ name c => do meets L (← lookUp L name) c
  | .switch _ which on => do
    let id ← evalText L which
    let v ← if (← get).hosts.stage == .absent then pure (.bool false)
      else ask L "is_switch" [.text id]
    return v.toBool == on
  | .choice _ e => do
    match (← get).lastChoice with
    | none => return false
    | some chosen => return (← evalNumber L e).eq (.int chosen)
  | .hasItem _ item => do
    if !(← hasStore ("check item " ++ item)) then return false
    let n ← number (← askStore "item_count" [.text item])
    return (Number.int 0).lt n
  | .hasStatus _ entity effect => do
    if (← get).hosts.stage == .absent then return false
    return (← ask L "has_status" [.text entity, .text effect]).toBool
  | .contains _ subject e => do
    let v ← resolve L subject
    contains v (← eval L e)
  | .startsWith _ subject e => do
    let s ← text (← resolve L subject)
    return Text.startsWith s (← evalText L e)
  | .endsWith _ subject e => do
    let s ← text (← resolve L subject)
    return Text.endsWith s (← evalText L e)
  | .hasKey _ subject e => do
    match ← var subject with
    | .object r =>
      let key ← evalText L e
      return (← fields r).contains key
    | _ => return false
  | .ofType _ subject type => do isOfType (← var subject) type

end Run
end Parlance
