import Parlance.Grammar.Opener

/-!
# Reading Commands on Variables
-/

namespace Parlance.Opener
open Reader

def passAssign : Reader Unit := do
  if ← seesKind .assign then
    let _ ← advance
  else if ← accept ["equal", "equals"] then pass ["to"]
  else pass ["to", "be"]

def construct (p : Position) (out : Option String) : Reader (Option Stmt) := do
  let className ← nameOrText
  let args ← maybe ["with"] (loop do
    if (← atFinish) || (← seesAny ["into", "then", "end"]) || (← atStatement) then return .stop
    if ← accept ["and", ","] then return .next
    return .item (← value))
  let target ← maybe ["into"] (name ["then", "end"])
  give p (.script (.create className (args.getD []) (target.or out)))

def assigned (p : Position) (name : String) (make : String → Expr → VariableCommand) :
    Reader (Option Stmt) := do
  let q ← position
  if ← accept ["new"] then construct q (some name)
  else give p (.bag (make name (← value)))

def letVariable : Opener := fun p => do
  let target ← name ["be", "to", "equal", "equals"]
  passAssign
  assigned p target .define

def setVariable : Opener := fun p => do
  if ← accept ["volume"] then
    pass ["to"]
    return ← give p (.stage (.setVolume (← value)))
  if ← seesPair "music" "volume" then
    advanceTwice
    pass ["to"]
    return ← give p (.stage (.setVolume (← value)))
  if ← accept ["formula"] then
    let key ← nameOrText
    pass ["to"]
    return ← give p (.stage (.setFormula key (← value)))
  if ← accept ["tile"] then
    let tile ← value
    pass ["as"]
    pass ["autotile"]
    return ← give p (.stage (.setAutotile tile (← value)))
  if ← accept ["zone"] then
    pass ["to"]
    return ← give p (.stage (.setZone (← value)))
  if ← accept ["key"] then
    let key ← value
    pass ["in", "of"]
    let owner ← ident
    pass ["to", "be"]
    return ← give p (.bag (.setKey owner key (← value)))
  if ← accept ["index"] then
    let index ← value
    pass ["in"]
    let list ← ident
    pass ["to", "be"]
    return ← give p (.bag (.setIndex list index (← value)))
  let target ← name ["to", "be", "equal", "equals"]
  passAssign
  assigned p target .assign

def change (op : Change) : Opener := fun p => do
  let target ← name ["by"]
  pass ["by"]
  give p (.bag (.change op target (← value)))

def bag? : String → Option Opener
  | "let" => some letVariable
  | "set" => some setVariable
  | "increase" => some (change .increase)
  | "decrease" => some (change .decrease)
  | "new" => some fun p => construct p none
  | _ => none

end Parlance.Opener
