import Parlance.Grammar.Collection

/-!
# Reading Commands on Texts
-/

namespace Parlance.Opener
open Reader

def charAt : Opener := fun p => do
  pass ["at"]
  let index ← value
  pass ["in"]
  let source ← ident
  give p (.text (.charAt source index (← result)))

def repeated : Opener := fun p => do
  let text ← value
  let count ← if ← seesKinds [.number, .identifier] then primary
    else pure (.number p (.int 1))
  pass ["times"]
  give p (.text (.repeated text count (← result)))

def pad : Opener := fun p => do
  let side : Side ← if ← seesAny ["left", "right"] then
      pure (if (← spelling) == "right" then .right else .left)
    else pure .left
  let text ← value
  pass ["to"]
  let width ← value
  let fill ← maybe ["with"] value
  give p (.text (.pad side text width (fill.getD (.text p " ")) (← result)))

def clamp : Opener := fun p => do
  let source ← ident
  pass ["between"]
  let low ← value
  pass ["and"]
  let high ← value
  let out ← into ["into"]
  give p (.text (.clamp source low high (out.getD source)))

def typeOf : Opener := fun p => do
  pass ["of"]
  let source ← ident
  give p (.text (.typeOf source (← result)))

def path (part : PathPart) : Opener := fun p => do
  pass ["path"]
  pass ["of"]
  let pieces ← separated ["and", ","] value
  pass ["into"]
  give p (.text (.path part pieces (← outName)))

def readJson : Opener := fun p => do
  pass ["json"]
  let text ← value
  give p (.text (.readJson text (← into ["into", "to"])))

def writeJson : Opener := fun p => do
  let item ← value
  give p (.text (.writeJson item (← into ["into", "to", "as"])))

def split : Opener := fun p => do
  let text ← value
  let separator ← maybe ["by", "on", "with"] value
  give p (.text (.split text (separator.getD (.text p " ")) (← into ["into", "to"])))

def replace : Opener := fun p => do
  let old ← value
  pass ["with"]
  let new ← value
  let source ← into ["in"]
  give p (.text (.replace old new source (← into ["into", "to"])))

def convert : Opener := fun p => do
  let item ← value
  pass ["to", "as", "into"]
  let target ← if ← seesKinds [.identifier, .preposition] then Text.lower <$> spelling
    else pure "text"
  give p (.text (.convert item target (← into ["into", "to", "as"])))

def flags (default : String) : Reader String := do
  if ← accept ["with", "flags"] then
    pass ["flags"]
    nameOrText
  else return default

def pattern : Opener := fun p => do
  let source ← nameOrText
  let f ← flags ""
  give p (.text (.pattern source f (← intoName)))

def test : Opener := fun p => do
  let text ← value
  pass ["against", "matches", "with"]
  pass ["pattern"]
  let source ← value
  let f ← flags ""
  give p (.text (.test text source f (← intoName)))

def extract : Opener := fun p => do
  let source ← value
  pass ["from"]
  let text ← value
  let f ← flags "g"
  give p (.text (.extract source text f (← intoName)))

def text? : String → Option Opener
  | "char" => some charAt
  | "pad" => some pad
  | "clamp" => some clamp
  | "type" => some typeOf
  | "join" => some (path .join)
  | "basename" => some (path .basename)
  | "dirname" => some (path .dirname)
  | "extension" => some (path .extension)
  | "extname" => some (path .extname)
  | "parse" => some readJson
  | "stringify" => some writeJson
  | "split" => some split
  | "replace" => some replace
  | "convert" => some convert
  | "regex" => some pattern
  | "test" => some test
  | "extract" => some extract
  | _ => none

end Parlance.Opener
