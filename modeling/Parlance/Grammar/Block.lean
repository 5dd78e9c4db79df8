import Parlance.Grammar.Party
import Parlance.Grammar.Script
import Parlance.Grammar.System
import Parlance.Grammar.Text

/-!
# Reading Statements with Bodies

The readers here take the reader of bodies as an argument; the program's reader
ties the two together. A body goes on until one of its stop words. The words
`end battle` and `end game` on one line are statements and do not end a body.
-/

namespace Parlance

structure Nest where
  body : List String → Reader (List Stmt)
  branch : Opener

namespace Opener
open Reader

def closedBody (nest : Nest) : Reader (List Stmt) := do
  let body ← nest.body ["end"]
  pass ["end"]
  return body

def branch (nest : Nest) : Opener := fun p => do
  let cond ← condition
  pass ["then"]
  let thenBody ← nest.body ["else", "end"]
  if !(← accept ["else"]) then
    pass ["end"]
    return some (.branch p cond thenBody [])
  let q ← position
  if ← accept ["if"] then
    let inner ← nest.branch q
    return some (.branch p cond thenBody inner.toList)
  return some (.branch p cond thenBody (← closedBody nest))

def times (nest : Nest) : Opener := fun p => do
  if ← seesKind .text then return ← repeated p
  let count ← primary
  pass ["times"]
  return some (.times p count (← closedBody nest))

def whileLoop (nest : Nest) : Opener := fun p => do
  let cond ← condition
  pass ["do", "then"]
  return some (.whileLoop p cond (← closedBody nest))

def forEach (nest : Nest) : Opener := fun p => do
  pass ["each", "every"]
  let item ← ident
  pass ["in", "of", "from"]
  let list ← ident
  pass ["do", "then"]
  return some (.forEach p item list (← closedBody nest))

def giveBack : Opener := fun p => do
  if (← atFinish) || (← seesAny ["end", "else"]) then return some (.giveBack p (.null p))
  if (← position).line > p.line && (← atStatement) then return some (.giveBack p (.null p))
  return some (.giveBack p (← value))

def errorName : Reader String := do
  let t ← current
  if [.identifier, .preposition].contains t.kind
      && !t.content.isOneOf ["then", "end", "if", "repeat", "while"] then ident
  else return "error"

def handler (nest : Nest) : Reader (String × List Stmt) := do
  let failure ← errorName
  pass ["then", "do"]
  return (failure, ← nest.body ["finally", "end"])

def attempt (nest : Nest) : Opener := fun p => do
  let body ← nest.body ["catch", "finally", "end"]
  let handler ← maybe ["catch"] (handler nest)
  let cleanup ← maybe ["finally"] (nest.body ["end"])
  pass ["end"]
  let (failure, handlerBody) := handler.getD ("error", [])
  return some (.attempt p body failure handlerBody cleanup)

def caseTest : Reader CaseTest := do
  if (← seesKind .comparison) || (← sees "not") then return .comparison (← comparison)
  return .value (← value)

/-- The arms of a choice by cases and its default, which may stand anywhere. -/
def arms (nest : Nest) : Nat → List Stmt → Reader (List (CaseTest × List Stmt) × List Stmt)
  | 0, _ => endless
  | n + 1, default => do
    if (← atFinish) || (← sees "end") then return ([], default)
    if ← accept ["on"] then
      let test ← caseTest
      pass ["then", "do"]
      let body ← nest.body ["on", "else", "end"]
      let (rest, default) ← arms nest n default
      return ((test, body) :: rest, default)
    if ← accept ["else"] then return ← arms nest n (← nest.body ["end"])
    return ([], default)

def cases (nest : Nest) : Opener := fun p => do
  let subject ← name ["on", "then", "do"]
  pass ["then", "do"]
  let (found, default) ← arms nest (← budget) []
  pass ["end"]
  return some (.cases p subject found default)

/-- The labels of a choice without bodies. What follows a label that cannot be
    read is left to later statements, from the first label on. -/
def labels : Reader (List String) := do
  let found ← rewindIf (·.any Option.isNone) do
    let first ← tryRead nameOrText
    if first.isNone then return []
    let rest ← loop do
      if !(← accept ["or"]) then return .stop
      let label ← tryRead nameOrText
      if label.isNone then return .last label else return .item label
    return first :: rest
  return found.filterMap id

def choice (nest : Nest) : Opener := fun p => do
  let prompt ← if ← seesKind .text then spelling else pure ""
  if ← sees "option" then
    let options ← loop do
      if !(← accept ["option"]) then return .stop
      let label ← nameOrText
      let body ← nest.body ["end", "option"]
      pass ["end"]
      return .item (label, body)
    pass ["end"]
    return some (.choice p prompt options)
  if (← seesAny ["then", "end"]) || (← atFinish) then return some (.choice p prompt [])
  return some (.choice p prompt ((← labels).map fun l => (l, [])))

def reduce (nest : Nest) : Opener := fun p => do
  let list ← name ["with", "using", "into"]
  let vars ← maybe ["with", "using"] do
    let total ← ident
    pass ["and", ","]
    return (total, ← ident)
  let (total, item) := vars.getD ("acc", "item")
  let initial ← maybe ["starting", "from", "at"] do
    pass ["from", "at"]
    primary
  let out ← maybe ["into"] (name ["then", "do"])
  pass ["then", "do"]
  let body ← closedBody nest
  let out' ← maybe ["into"] outName
  return some (.reduce p list total item (initial.getD (.number p (.int 0))) body
    ((out'.or out).getD "acc"))

def parameter : Reader (Turn String) := do
  if !(← seesKinds [.identifier, .preposition, .action]) || (← atStatement) then return .stop
  let param ← name ["and", "then", "do"]
  if ← accept ["and", ","] then return .item param else return .last param

def defineFunction (nest : Nest) : Opener := fun p => do
  let fn ← nameOrText
  let params ← maybe ["with", "params", "param"] (loop parameter)
  pass ["then", "do"]
  return some (.defineFunction p fn (params.getD []) (← closedBody nest))

def methodParams : Reader (List String) := do
  if ← accept ["no"] then
    pass ["arguments", "params"]
    return []
  loop do
    if (← atFinish) || (← seesAny ["then", "do", "end"]) || (← atStatement) then return .stop
    if ← accept ["and", ","] then return .next
    if ← accept ["arguments", "params"] then return .next
    return .item (← name ["and", "then", "do", "end"])

def method (nest : Nest) (title : String) (isConstructor : Bool) : Reader (Method Stmt) := do
  let params ← maybe ["with"] methodParams
  pass ["then", "do"]
  return ⟨title, params.getD [], ← closedBody nest, isConstructor⟩

def defineClass (nest : Nest) : Opener := fun p => do
  let title ← nameOrText
  let parent ← maybe ["extends", "inherits"] nameOrText
  let properties ← maybe ["with"] (loop do
    if (← atFinish) || (← seesAny ["then", "do", "end", "define", "method"]) then return .stop
    if ← accept ["and", ","] then return .next
    if ← atStatement then return .stop
    return .item (← name ["and", "then", "do", "end", "define", "method"]))
  pass ["then", "do"]
  let methods ← loop do
    if (← atFinish) || (← sees "end") then return .stop
    if !(← accept ["define"]) then
      let _ ← advance
      return .next
    if ← accept ["method"] then return .item (← method nest (← nameOrText) false)
    if ← accept ["constructor"] then return .item (← method nest "constructor" true)
    let _ ← advance
    return .next
  pass ["end"]
  return some (.defineClass p title parent (properties.getD []) methods)

def defineSprite : Opener := fun p => do
  let entity ← ident
  let source ← value
  let width ← value
  give p (.stage (.defineSprite entity source width (← value)))

def defineAnimation : Opener := fun p => do
  let entity ← ident
  let title ← value
  pass ["frames"]
  let frames ← loop do
    if ← seesKind .number then return .item (← advance).number else return .stop
  pass ["fps"]
  let fps ← value
  let looping ← maybe ["loop"] value
  give p (.stage (.defineAnimation entity title frames fps (looping.getD (.bool p true))))

def definition (nest : Nest) : Opener := fun p => do
  let kind ← ident
  if kind == "class" then defineClass nest p
  else if Grammar.dataKinds.contains kind then defineData kind p
  else match kind with
    | "event" =>
      let id ← nameOrText
      return some (.defineEvent p id (← closedBody nest))
    | "zone" => defineZone p
    | "status" => defineStatus p
    | "function" => defineFunction nest p
    | "sprite" => defineSprite p
    | "animation" => defineAnimation p
    | _ => nothing

def ending : Opener := fun p => do
  if ← accept ["battle"] then return ← give p (.party .endBattle)
  if ← accept ["game"] then return ← give p (.stage (.gameState .finish))
  nothing

def routeBody (nest : Nest) (p : Position) (method path : Expr) (words : List String) :
    Reader (Option Stmt) := do
  let request ← into ["with"]
  pass words
  return some (.route p method path (request.getD "request") (← closedBody nest))

def route (nest : Nest) : Opener := fun p => do
  let verb ← value
  let path ← value
  routeBody nest p verb path ["then", "do"]

def seesRoute (ahead : Nat) : Reader Bool := do
  return (← seesAhead ahead "receiving") || (← seesAhead ahead "server")
    || ((← seesAhead ahead "the") && (← seesAhead (ahead + 1) "server"))

def whenRoute (nest : Nest) : Opener := fun p => do
  if !(← seesRoute 0) then return ← nothing
  pass ["the"]
  pass ["server"]
  pass ["receives", "receiving"]
  pass ["a", "an"]
  let verb ← value
  pass ["request"]
  pass ["to", "at", "on"]
  let path ← value
  routeBody nest p verb path ["then"]

def await : Opener := fun p => do
  let q ← position
  if ← accept ["fetch"] then return some (.awaiting p q (← fetchCommand))
  if ← accept ["call"] then
    let (r, c) ← callCommand q
    return some (.awaiting p r c)
  let awaited ← value
  return some (.awaitValue p awaited (← intoName))

def block? (nest : Nest) : String → Option Opener
  | "define" => some (definition nest)
  | "class" => some (defineClass nest)
  | "choice" => some (choice nest)
  | "if" => some (branch nest)
  | "repeat" => some (times nest)
  | "while" => some (whileLoop nest)
  | "for" => some (forEach nest)
  | "break" => some fun p => return some (.breakLoop p)
  | "skip" => some fun p => return some (.skipRound p)
  | "return" => some giveBack
  | "try" => some (attempt nest)
  | "match" => some (cases nest)
  | "reduce" => some (reduce nest)
  | "end" => some ending
  | "when" => some (whenRoute nest)
  | "route" => some (route nest)
  | "await" => some await
  | _ => none

end Opener
end Parlance
