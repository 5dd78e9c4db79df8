import Parlance.Diagnostic
import Parlance.Grammar.Words
import Parlance.Token

/-!
# Readers

A reader takes tokens from a cursor. The cursor stands at a token and never
moves past the end mark. A reader that fails leaves the cursor where it stood
at the fault; only a reader that says so goes back.

Loops run one reader over and over. Each turn takes at least one token, so the
number of tokens bounds the number of turns.
-/

namespace Parlance

inductive Wanted where
  | word (word : String)
  | identifier
  | nameOrText
  | variableName
  | anything
  | reference
  | value
deriving DecidableEq

structure Fault where
  wanted : Wanted
  found : Token
deriving DecidableEq

namespace Fault

def message (f : Fault) : String :=
  match f.wanted with
  | .word w => s!"expected '{w}', got {f.found.describe}"
  | .identifier => s!"expected identifier, got {f.found.describe}"
  | .nameOrText => s!"expected identifier or string, got {f.found.describe}"
  | .variableName => s!"expected variable name, got {f.found.describe}"
  | .anything => "expected value but reached end of input"
  | .reference => s!"expected value, got {f.found.describe}"
  | .value => s!"unexpected {f.found.describe} when expecting a value"

def text (f : Fault) : String := f.message ++ f.found.position.text

def diagnostic (f : Fault) : Diagnostic := ⟨.error, f.message, f.found.position⟩

end Fault

/-- Why a reader stopped: the script does not fit, or a number in it is out of
    range. -/
inductive Obstacle where
  | fault (fault : Fault)
  | defect (defect : Defect)

structure Cursor where
  tokens : Array Token
  index : Nat
  faults : List Fault

def Cursor.ofTokens (ts : List Token) : Cursor := ⟨(Token.closed ts).toArray, 0, []⟩

/-- The token a number of places ahead; the last token stands for all beyond. -/
def Cursor.peek (c : Cursor) (ahead : Nat) : Token :=
  (c.tokens[c.index + ahead]?).getD (c.tokens.back?.getD default)

def Cursor.previous? (c : Cursor) : Option Token :=
  if c.index = 0 then none else c.tokens[c.index - 1]?

abbrev Reader := ExceptT Obstacle (StateM Cursor)

namespace Reader

def peek (ahead : Nat) : Reader Token := return (← get).peek ahead

def current : Reader Token := peek 0

def position : Reader Position := return (← current).position

/-- Takes the token at the cursor. The end mark stays. -/
def advance : Reader Token := do
  let t ← current
  if !t.isFinish then modify fun c => { c with index := c.index + 1 }
  return t

def fail {α : Type} (wanted : Wanted) : Reader α := do throw (.fault ⟨wanted, ← current⟩)

def endless {α : Type} : Reader α := throw (.defect .endless)

def lift {α : Type} : Except Defect α → Reader α
  | .ok a => pure a
  | .error d => throw (.defect d)

def sees (word : String) : Reader Bool := return (← current).reads word

def seesAny (words : List String) : Reader Bool := return (← current).readsAny words

def seesKind (kind : Token.Kind) : Reader Bool := return (← current).kind == kind

def seesKinds (kinds : List Token.Kind) : Reader Bool := return kinds.contains (← current).kind

def atFinish : Reader Bool := return (← current).isFinish

def seesAhead (ahead : Nat) (word : String) : Reader Bool := return (← peek ahead).reads word

/-- Takes the token at the cursor if it is one of these words, and says whether
    it was. -/
def accept (words : List String) : Reader Bool := do
  if ← seesAny words then
    let _ ← advance
    return true
  return false

def pass (words : List String) : Reader Unit := do let _ ← accept words

def expect (word : String) : Reader Unit := do
  if ← sees word then
    let _ ← advance
  else fail (.word word)

def ident : Reader String := do
  let t ← current
  if t.isWord || t.kind == .text || t.kind == .number then return (← advance).spelling
  fail .identifier

def nameOrText : Reader String := do
  let t ← current
  if t.isWord || t.kind == .text then return (← advance).spelling
  fail .nameOrText

def spelling : Reader String := return (← advance).spelling

def mark : Reader Nat := return (← get).index

def backTo (index : Nat) : Reader Unit := modify fun c => { c with index := index }

/-- Runs a reader; a fault in it becomes `none` and takes the cursor back. -/
def tryRead {α : Type} (read : Reader α) : Reader (Option α) := do
  let saved ← mark
  tryCatch (some <$> read) fun
    | .fault _ => do
      backTo saved
      return none
    | .defect d => throw (.defect d)

/-- Runs a reader, and takes the cursor back when the result asks for it. -/
def rewindIf {α : Type} (back : α → Bool) (read : Reader α) : Reader α := do
  let saved ← mark
  let a ← read
  if back a then backTo saved
  return a

/-- Runs a reader; a fault in it is noted and passed over with one token. -/
def recovering {α : Type} (read : Reader (Option α)) : Reader (Option α) :=
  tryCatch read fun
    | .fault f => do
      modify fun c => { c with faults := c.faults ++ [f] }
      let _ ← advance
      return none
    | .defect d => throw (.defect d)

inductive Turn (α : Type) where
  | stop
  | next
  | item (value : α)
  | last (value : α)

def turns {α : Type} (turn : Reader (Turn α)) : Nat → Reader (List α)
  | 0 => endless
  | n + 1 => do
    match ← turn with
    | .stop => return []
    | .next => turns turn n
    | .item a => return a :: (← turns turn n)
    | .last a => return [a]

def budget : Reader Nat := return (← get).tokens.size + 1

def loop {α : Type} (turn : Reader (Turn α)) : Reader (List α) := do turns turn (← budget)

def maybe {α : Type} (words : List String) (read : Reader α) : Reader (Option α) := do
  if ← accept words then return some (← read) else return none

/-- One item and the further ones, each after one of these words. -/
def separated {α : Type} (words : List String) (item : Reader α) : Reader (List α) := do
  let first ← item
  let rest ← loop do
    if ← accept words then return .item (← item) else return .stop
  return first :: rest

end Reader
end Parlance
