import Parlance.Grammar.Name
import Parlance.Syntax.Expr
import Parlance.Text.Case

/-!
# Reading Expressions

A value is a chain of primaries, joined left to right by operators. Primaries
nest: an element of a list, an argument of a call and an operand of a function
are read by the reader of primaries again. The readers of the nested forms take
that reader as an argument, and `Reader.primaryAt` ties them together. Every
form takes a token before it nests, so the number of tokens bounds the depth.
-/

namespace Parlance.Reader

def operator : Reader (Option Operator) := do
  let t ← current
  if t.kind == .operator then
    let _ ← advance
    return some (.ofSign t.spelling)
  if ← accept ["times"] then return some .times
  if ← accept ["multiplied"] then
    pass ["by"]
    return some .times
  if ← accept ["divided"] then
    pass ["by"]
    return some .over
  return none

def operands (primary : Reader Expr) : Reader (List (Operator × Expr)) := loop do
  match ← operator with
  | none => return .stop
  | some op => return .item (op, ← primary)

/-- Primaries joined left to right. All links carry the position of the first
    primary. -/
def chain (primary : Reader Expr) : Reader Expr := do
  let p ← position
  let first ← primary
  let rest ← operands primary
  return rest.foldl (fun left link => .binary p link.1 left link.2) first

def argument (value : Reader Expr) : Reader (Turn Expr) := do
  if (← atFinish) || (← seesKind .keyword) || (← sees "into") || (← atStatement) then
    return .stop
  let arg ← value
  if ← accept ["and", ","] then return .item arg else return .last arg

def argumentsOf (value : Reader Expr) : Reader (List Expr) := loop (argument value)

structure Call where
  name : String
  args : List Expr
  out : Option String

def functionCallOf (value : Reader Expr) : Reader Call := do
  pass ["function"]
  let name ← nameOrText
  let args ← maybe ["with", "args", "params"] (argumentsOf value)
  let out ← maybe ["into"] outName
  return ⟨name, args.getD [], out⟩

/-- Items up to a closing sign, each with a comma after it that may be left
    out. -/
def listed {α : Type} (close : String) (item : Reader α) : Reader (List α) := do
  let items ← loop do
    if (← atFinish) || (← sees close) then return .stop
    let a ← item
    pass [","]
    return .item a
  pass [close]
  return items

def bracketed (value : Reader Expr) : Reader (List Expr) := do
  expect "["
  listed "]" value

def entry (value : Reader Expr) : Reader (String × Expr) := do
  let key ← ident
  pass [":"]
  return (key, ← value)

def braced (value : Reader Expr) : Reader (List (String × Expr)) := do
  expect "\x7b"
  listed "\x7d" (entry value)

/-- The primaries of a list or an object without brackets. It ends at a keyword,
    an action, a stop word or the first thing that is no primary. -/
def unbracketed (primary : Reader Expr) (stops : List String) (joins : Bool) :
    Reader (List Expr) := loop do
  let t ← current
  if t.isFinish then return .stop
  if joins && t.reads "and" then
    let _ ← advance
    return .next
  if t.kind == .keyword || (t.kind == .action && !t.content.isOneOf Grammar.valueActions)
      || (t.kind == .preposition && t.content.isOneOf stops) then
    return .stop
  return (← tryRead primary).elim .stop .item

/-- The function and the arguments that `join` stands for, given the first part,
    the separator and the second part. -/
def joined (first : Expr) : Option Expr → Option Expr → Builtin × List Expr
  | some s, some b => (.join, [first, b, s])
  | some s, none => (.arrayJoin, [first, s])
  | none, some b => (.join, [first, b])
  | none, none => (.join, [first])

def joinOperands (primary : Reader Expr) : Reader (Builtin × List Expr) := do
  let first ← primary
  let separator ← maybe ["with"] primary
  let second ← if ← seesKinds [.text, .identifier, .number] then tryRead primary else pure none
  return joined first separator second

def operand (primary : Reader Expr) : Reader (List Expr) := return [← primary]

def twoOperands (primary : Reader Expr) (words : List String) : Reader (List Expr) := do
  let first ← primary
  pass words
  return [first, ← primary]

def threeOperands (primary : Reader Expr) (words words' : List String) : Reader (List Expr) := do
  let first ← primary
  pass words
  let second ← primary
  pass words'
  return [first, second, ← primary]

def builtinOperands (primary : Reader Expr) (p : Position) (word : String) :
    Reader (Builtin × List Expr) := do
  match word with
  | "round" => return (.round, ← operand primary)
  | "floor" => return (.floor, ← operand primary)
  | "ceil" => return (.ceil, ← operand primary)
  | "abs" => return (.abs, ← operand primary)
  | "sqrt" => return (.sqrt, ← operand primary)
  | "sign" => return (.sign, ← operand primary)
  | "log" => return (.log, ← operand primary)
  | "uppercase" => return (.uppercase, ← operand primary)
  | "lowercase" => return (.lowercase, ← operand primary)
  | "trim" => return (.trim, ← operand primary)
  | "length" =>
    pass ["of"]
    return (.length, ← operand primary)
  | "count" =>
    pass ["of"]
    return (.count, ← operand primary)
  | "power" => return (.power, ← twoOperands primary ["to", "by"])
  | "min" => return (.min, ← twoOperands primary ["and", "or", "with"])
  | "max" => return (.max, ← twoOperands primary ["and", "or", "with"])
  | "random" => return (.random, ← twoOperands primary ["to", "and", "between"])
  | "clamp" => return (.clamp, ← threeOperands primary ["between", "from"] ["and", "to"])
  | "join" => joinOperands primary
  | "split" =>
    let source ← primary
    let separator ← maybe ["by", "on", "with"] primary
    return (.split, [source, separator.getD (.text p " ")])
  | "type" =>
    pass ["of"]
    return (.typeOf, ← operand primary)
  | "index" =>
    pass ["of"]
    return (.indexOf, ← twoOperands primary ["in"])
  | "slice" => return (.slice, ← threeOperands primary ["from"] ["to", "until"])
  | "object" => return (.object, ← unbracketed primary Grammar.objectStops true)
  | _ => return (.array, ← unbracketed primary Grammar.listStops false)

def fieldOf (p : Position) : Reader Expr := do
  pass ["the"]
  let prop ← ident
  let owner ← into ["from", "of"]
  return owner.elim (.name p ("get_" ++ prop)) fun owner => .field p owner (.text p prop)

/-- A literal, or the name of a variable. The cursor stands at the token. -/
def leaf (t : Token) : Reader Expr := do
  let p := t.position
  match t.kind with
  | .null => do
    let _ ← advance
    return .null p
  | .number => do
    let _ ← advance
    return .number p t.number
  | .text => do
    let _ ← advance
    return .text p t.spelling
  | .boolean => do
    let _ ← advance
    return .bool p t.isTrue
  | _ => if t.isWord then return .name p (← reference) else fail .value

def primaryOf (primary : Reader Expr) : Reader Expr := do
  let t ← current
  let p := t.position
  if t.isFinish then fail .anything
  else if t.reads "[" then return .list p (← bracketed (chain primary))
  else if t.reads "\x7b" then return .object p (← braced (chain primary))
  else if t.reads "math" then do
    let _ ← advance
    return .constant p (Text.lower (← ident))
  else if t.reads "call" && (← seesAhead 1 "function") then do
    let _ ← advance
    let call ← functionCallOf (chain primary)
    return .call p call.name call.args
  else if t.isWord && t.content.isOneOf Grammar.functionWords then do
    let _ ← advance
    let (fn, args) ← builtinOperands primary p t.spelling
    return .builtin p fn args
  else if t.reads "get" then do
    let _ ← advance
    fieldOf p
  else leaf t

def primaryAt : Nat → Reader Expr
  | 0 => endless
  | depth + 1 => primaryOf (primaryAt depth)

def primary : Reader Expr := do primaryAt (← budget)

def value : Reader Expr := chain primary

def arguments : Reader (List Expr) := argumentsOf value

def functionCall : Reader Call := functionCallOf value

def pair : Reader (Expr × Expr) := do
  let x ← value
  pass [",", "and"]
  return (x, ← value)

end Parlance.Reader
