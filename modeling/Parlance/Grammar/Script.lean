import Parlance.Grammar.Opener

/-!
# Reading Commands on Definitions
-/

namespace Parlance.Opener
open Reader

/-- A call, after `call` at position `p`. The call of a function is reported at
    the word `function`. -/
def callCommand (p : Position) : Reader (Position × Command) := do
  let q ← position
  if ← sees "function" then
    let call ← functionCall
    return (q, .script (.callFunction call.name call.args call.out))
  if ← accept ["event"] then return (p, .script (.callEvent (← nameOrText)))
  if ← accept ["method"] then
    let method ← nameOrText
    pass ["on"]
    let owner ← ident
    let args ← maybe ["with"] arguments
    let out ← maybe ["into"] outName
    return (p, .script (.callMethod method owner (args.getD []) out))
  let fn ← ident
  let args ← maybe ["with"] arguments
  return (p, .script (.callHost fn (args.getD [])))

def call : Opener := fun p => do
  let (q, c) ← callCommand p
  give q c

def importedNames : Reader (Option (List String × String)) := do
  if !(← seesKinds [.identifier, .action]) then return none
  rewindIf Option.isNone do
    let names ← separated ["and", ","] nameOrText
    if ← accept ["from"] then return some (names, ← nameOrText)
    return none

def importModule : Opener := fun p => do
  match ← importedNames with
  | some (names, file) => give p (.script (.importNames names file))
  | none =>
    let file ← nameOrText
    give p (.script (.importModule file (← maybe ["as"] nameOrText)))

def raiseError : Opener := fun p => do
  pass ["error", "exception"]
  give p (.script (.raiseError (← value)))

def script? : String → Option Opener
  | "call" => some call
  | "import" => some importModule
  | "export" => some fun p => do give p (.script (.exportName (← name ["then", "end"])))
  | "throw" => some raiseError
  | "raise" => some raiseError
  | _ => none

end Parlance.Opener
