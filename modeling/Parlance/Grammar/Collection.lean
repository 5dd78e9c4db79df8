import Parlance.Grammar.Opener

/-!
# Reading Commands on Collections
-/

namespace Parlance.Opener
open Reader

/-- What follows `append`: a value for a list, or a line for a file. -/
def append : Opener := fun p => do
  if ← seesPair "to" "file" then
    advanceTwice
    let path ← value
    let contents ← maybe ["with", "content"] value
    return ← give p (.system (.writeFile path (contents.getD (.text p "")) true))
  let item ← value
  pass ["to", "into"]
  give p (.collection (.append item (← ident)))

def sort : Opener := fun p => do
  let list ← ident
  pass ["ascending"]
  give p (.collection (.sort list (← accept ["descending", "desc"])))

def filterCondition (item : String) : Reader Condition := do
  let t ← current
  let p := t.position
  if t.isFinish || t.kind == .comparison || t.kind == .null
      || t.readsAny ["is", "empty", "exists", "not"] then
    pass ["is", "has", "equals"]
    return .named p item (← comparison)
  if ← accept ["contains"] then return .contains p item (← value)
  if ← accept ["starts"] then
    pass ["with"]
    return .startsWith p item (← value)
  if ← accept ["ends"] then
    pass ["with"]
    return .endsWith p item (← value)
  simpleCondition

def filter : Opener := fun p => do
  let list ← ident
  pass ["where"]
  let item ← ident
  let cond ← filterCondition item
  pass ["into"]
  give p (.collection (.filter list item cond (← ident)))

def merge : Opener := fun p => do
  let first ← ident
  pass ["with"]
  let second ← ident
  pass ["into"]
  give p (.collection (.merge first second (← ident)))

def flatten : Opener := fun p => do
  let list ← ident
  let out ← into ["into"]
  give p (.collection (.flatten list (out.getD list)))

def find : Opener := fun p => do
  let needle ← value
  pass ["in"]
  let list ← ident
  pass ["into"]
  give p (.collection (.find needle list (← ident)))

def result : Reader String := do
  pass ["into"]
  ident

def clockReading? : String → Option ClockReading
  | "time" => some .time
  | "date" => some .date
  | "timestamp" => some .timestamp
  | _ => none

def obtainPart : Opener := fun p => do
  if ← accept ["env"] then
    let key ← value
    return ← give p (.system (.getVariable key (← result)))
  if ← seesAny ["time", "date", "timestamp"] then
    let reading := clockReading? (← spelling)
    return ← give p (.system (.getClock (reading.getD .time) (← result)))
  if ← accept ["key"] then
    let key ← value
    pass ["from", "in"]
    let owner ← ident
    return ← give p (.collection (.getKey owner key (← result)))
  if ← accept ["index"] then
    let index ← value
    pass ["from", "in"]
    let list ← ident
    return ← give p (.collection (.getIndex list index (← result)))
  nothing

def slice : Opener := fun p => do
  let source ← ident
  pass ["from"]
  let start ← value
  pass ["to"]
  let stop ← value
  give p (.collection (.slice source start stop (← result)))

def entries (part : EntryPart) : Opener := fun p => do
  pass ["of"]
  let owner ← ident
  give p (.collection (.entries part owner (← result)))

def indexOf : Opener := fun p => do
  pass ["of"]
  let needle ← value
  pass ["in"]
  let source ← ident
  give p (.collection (.indexOf needle source (← result)))

def transformInline : Reader (Option (Expr × String)) := do
  let expr ← value
  if ← accept ["into"] then return some (expr, ← name ["then", "do", "end", "else"])
  return none

/-- The value and the result of a transformation. The value stands before the
    result, or after it as a body. -/
def transformTo (p : Position) (list item : String) : Reader (Option Stmt) := do
  match ← rewindIf Option.isNone (Option.join <$> tryRead transformInline) with
  | some (expr, out) => give p (.collection (.transform list item expr out))
  | none =>
    let out ← name ["then", "do", "end"]
    pass ["then", "do"]
    let expr ← value
    pass ["end"]
    give p (.collection (.transform list item expr out))

def transform : Opener := fun p => do
  let list ← name ["with", "where", "using", "into", "as"]
  pass ["with", "where", "using"]
  pass ["each"]
  let item ← name ["into", "to", "as", "then", "do"]
  pass ["into", "to", "as"]
  transformTo p list item

def quantify (which : Quantifier) : Opener := fun p => do
  let t ← current
  let item ← if t.kind != .preposition || t.reads "item" then ident else pure "item"
  pass ["in"]
  let list ← name ["is", "has"]
  pass ["is", "has"]
  let asked ← comparison
  pass ["into"]
  give p (.collection (.quantify which item list asked (← outName)))

def copy : Opener := fun p => do
  let source ← name ["into", "to"]
  pass ["into", "to"]
  give p (.collection (.copy source (← outName)))

def combine : Opener := fun p => do
  let sources ← separated ["and", ","] (name ["and", "into", "to"])
  pass ["into", "to"]
  give p (.collection (.combine sources (← outName)))

def collection? : String → Option Opener
  | "append" => some append
  | "sort" => some sort
  | "reverse" => some fun p => do give p (.collection (.reverse (← ident)))
  | "filter" => some filter
  | "merge" => some merge
  | "flatten" => some flatten
  | "find" => some find
  | "get" => some obtainPart
  | "slice" => some slice
  | "keys" => some (entries .keys)
  | "values" => some (entries .values)
  | "index" => some indexOf
  | "transform" => some transform
  | "every" => some (quantify .every)
  | "any" => some (quantify .any)
  | "copy" => some copy
  | "assign" => some combine
  | _ => none

end Parlance.Opener
