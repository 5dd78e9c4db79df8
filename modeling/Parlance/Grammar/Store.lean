import Parlance.Grammar.Opener

/-!
# Reading Commands on What Is Kept
-/

namespace Parlance.Opener
open Reader

def slot : Reader String := do
  if ← seesKinds [.text, .identifier] then nameOrText else return "slot1"

def load : Opener := fun p => do
  if ← accept ["data"] then
    let key ← nameOrText
    return ← give p (.store (.loadData key (← maybe ["into", "to"] nameOrText)))
  if ← accept ["record"] then
    let id ← nameOrText
    pass ["from", "in"]
    let table ← nameOrText
    return ← give p (.store (.loadRecord id table (← maybe ["into", "to"] nameOrText)))
  if ← accept ["scene"] then return ← give p (.stage (.loadScene (← nameOrText)))
  if ← accept ["game"] then
    pass ["from"]
    return ← give p (.store (.loadGame (← slot)))
  if ← accept ["tileset"] then return ← give p (.stage (.loadTileset (← nameOrText)))
  nothing

def save : Opener := fun p => do
  if ← accept ["data"] then
    let key ← nameOrText
    pass ["as", "to"]
    return ← give p (.store (.saveData key (← value)))
  if ← accept ["record"] then
    let id ← nameOrText
    pass ["in", "to"]
    let table ← nameOrText
    return ← give p (.store (.saveRecord id table (← maybe ["with", "as"] value)))
  if ← accept ["game"] then
    pass ["to"]
    return ← give p (.store (.saveGame (← slot)))
  give p (.store (.saveGame "slot1"))

def delete : Opener := fun p => do
  if ← accept ["data"] then return ← give p (.store (.deleteData (← nameOrText)))
  if ← accept ["record"] then
    let id ← nameOrText
    pass ["from", "in"]
    return ← give p (.store (.deleteRecord id (← nameOrText)))
  if ← accept ["game"] then return ← give p (.store (.deleteData ("game:" ++ (← slot))))
  if ← accept ["file"] then return ← give p (.system (.deleteFile (← value)))
  if ← accept ["key"] then
    let key ← value
    pass ["from", "in"]
    return ← give p (.bag (.deleteKey (← ident) key))
  nothing

def store? : String → Option Opener
  | "load" => some load
  | "save" => some save
  | "delete" => some delete
  | _ => none

end Parlance.Opener
