import Parlance.Grammar.Value
import Parlance.Syntax.Event

/-!
# Reading Conditions and Event Patterns

Conditions are joined left to right, without precedence between `and` and `or`.
A condition that begins with a name is told apart by the words after the name.
-/

namespace Parlance.Reader

def acceptNull : Reader Bool := do
  if ← seesKind .null then
    let _ ← advance
    return true
  return false

def negatedComparison : Reader Comparison := do
  if ← accept ["empty"] then return .notEmpty
  if ← accept ["exists"] then return .absent
  if ← acceptNull then return .notNothing
  if ← accept ["equal", "equals"] then pass ["to"]
  return .notEqual (← value)

def comparison : Reader Comparison := do
  if ← accept ["less"] then
    pass ["than"]
    return .less (← value)
  if ← accept ["greater"] then
    pass ["than"]
    return .greater (← value)
  if ← accept ["equal", "equals"] then
    pass ["to"]
    return .equal (← value)
  if ← accept ["above"] then return .greater (← value)
  if ← accept ["below"] then return .less (← value)
  if ← accept ["between"] then
    let low ← value
    expect "and"
    return .between low (← value)
  if ← accept ["empty"] then return .empty
  if ← accept ["exists"] then return .present
  if ← acceptNull then return .nothing
  if ← accept ["not"] then return ← negatedComparison
  return .equal (← value)

def seesPair (first second : String) : Reader Bool := do
  return (← sees first) && (← seesAhead 1 second)

def advanceTwice : Reader Unit := do
  let _ ← advance
  let _ ← advance

def seesTypeQuestion : Reader Bool := do
  return (← sees "is") && (← peek 1).readsAny Grammar.typeWords

def subjectCondition (p : Position) (subject : String) : Reader Condition := do
  if ← accept ["contains"] then return .contains p subject (← value)
  if ← accept ["starts"] then
    pass ["with"]
    return .startsWith p subject (← value)
  if ← accept ["ends"] then
    pass ["with"]
    return .endsWith p subject (← value)
  if ← seesPair "has" "key" then
    advanceTwice
    return .hasKey p subject (← value)
  if ← seesPair "has" "item" then
    advanceTwice
    return .hasItem p (← nameOrText)
  if ← seesTypeQuestion then
    let _ ← advance
    pass ["a", "an"]
    return .ofType p subject (Text.lower (← ident))
  let t ← current
  -- A subject alone asks whether it is worth anything.
  if t.isFinish || t.kind == .punctuation || t.readsAny ["then", "do", "and", "or", "end"] then
    return .named p subject .notEmpty
  if t.kind == .comparison || t.kind == .null
      || t.readsAny ["is", "empty", "exists", "has"] then
    pass ["is", "has", "equals"]
    return .named p subject (← comparison)
  let prop ← ident
  pass ["is", "has"]
  return .property p subject prop (← comparison)

def simpleConditionOf (inner : Reader Condition) : Reader Condition := do
  let t ← current
  let p := t.position
  if ← accept ["not"] then return .not p (← inner)
  if t.kind == .boolean then
    let _ ← advance
    return .bool p t.isTrue
  if t.kind == .number || t.kind == .text then
    let left ← value
    pass ["is"]
    return .value p left (← comparison)
  if ← accept ["switch"] then
    let switch ← value
    pass ["is"]
    return .switch p switch (Text.lower (← ident) == "on")
  if ← accept ["choice"] then
    pass ["is"]
    return .choice p (← value)
  if ← seesPair "has" "item" then
    advanceTwice
    return .hasItem p (← nameOrText)
  if t.readsAny ["player", "enemy"] && (← seesAhead 1 "has") && !(← seesAhead 2 "key")
      && !(← seesAhead 2 "item") then
    advanceTwice
    return .hasStatus p t.spelling (← nameOrText)
  subjectCondition p (← name Grammar.subjectStops)

def simpleConditionAt : Nat → Reader Condition
  | 0 => endless
  | depth + 1 => simpleConditionOf (simpleConditionAt depth)

def simpleCondition : Reader Condition := do simpleConditionAt (← budget)

def connective : Reader (Option Connective) := do
  if ← accept ["and"] then return some .and
  if ← accept ["or"] then return some .or
  return none

def condition : Reader Condition := do
  let p ← position
  let first ← simpleCondition
  let rest ← loop do
    match ← connective with
    | none => return .stop
    | some op => return .item (op, ← simpleCondition)
  return rest.foldl (fun left link => .logical p link.1 left link.2) first

def combatEvent (p : Position) : Reader Event := do
  let t ← current
  if ← accept ["starts"] then
    let attacker ← ident
    return .combatStart p attacker (← ident)
  if ← accept ["hit", "hits"] then
    let attacker ← ident
    return .combatHit p attacker (← ident)
  if ← accept ["defeat", "defeats"] then return .combatDefeat p (← nameOrText)
  return .custom p ("combat:" ++ if t.isWord then t.spelling else "")

def subjectEvent (p : Position) (subject : String) : Reader Event := do
  if ← accept ["touches"] then return .touches p subject (← ident)
  if ← accept ["presses"] then return .presses p subject (Text.lower (← nameOrText))
  if ← accept ["clicks"] then return .clicks p subject
  if ← accept ["enters"] then return .enters p subject (← ident)
  if ← accept ["leaves"] then return .leaves p subject (← ident)
  if ← accept ["becomes"] then return .becomes p subject (← value)
  if ← accept ["levels"] then
    pass ["up"]
    return .custom p (subject ++ ":levelup")
  if ← accept ["uses"] then return .uses p subject (← nameOrText)
  if ← seesAny ["dies", "spawns", "wins", "loses"] then
    return .custom p (subject ++ ":" ++ (← spelling))
  if ← seesKinds [.identifier, .preposition] then
    let prop ← ident
    if ← accept ["is", "has"] then return .condition p subject prop (← comparison)
    return .custom p (subject ++ ":" ++ prop)
  return .custom p subject

def event : Reader Event := do
  let p ← position
  if ← seesAny ["starts", "game"] then
    pass ["game"]
    pass ["starts"]
    return .starts p "game"
  if ← accept ["combat"] then return ← combatEvent p
  pass ["the"]
  subjectEvent p (← ident)

end Parlance.Reader
