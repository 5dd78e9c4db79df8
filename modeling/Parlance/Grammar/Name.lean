import Parlance.Grammar.Reader

/-!
# Names

A name is a run of words, joined by low lines. It ends before a stop word and
before a word that opens a statement. A word opens a statement by its class, or
because it opens a line and is one of the words at which statements begin.

An article before a name is dropped, but only when a word of the name follows:
a script may still call a variable `the`.
-/

namespace Parlance

def Token.opensStatement (t : Token) : Bool :=
  match t.kind with
  | .action => t.content.isOneOf Grammar.statementActions
  | .keyword => t.content.isOneOf Grammar.statementKeywords
  | _ => false

def Token.isOpener (t : Token) : Bool := Grammar.openers.contains t.spelling

namespace Cursor

def atLineStatement (c : Cursor) : Bool :=
  let t := c.peek 0
  t.isWord && t.isOpener && match c.previous? with
    | none => false
    | some before => before.position.line < t.position.line

def atStatement (c : Cursor) : Bool := (c.peek 0).opensStatement || c.atLineStatement

/-- Whether the word after the one at the cursor opens a line and a statement. -/
def lineStatementFollows (c : Cursor) : Bool :=
  (c.peek 0).position.line < (c.peek 1).position.line && (c.peek 1).isOpener

def nameFollows (c : Cursor) (stops : List String) : Bool :=
  let t := c.peek 1
  t.isWord && !c.lineStatementFollows && !t.content.isOneOf stops && !t.opensStatement

def referenceFollows (c : Cursor) : Bool :=
  let t := c.peek 1
  [.identifier, .preposition, .action].contains t.kind && !c.lineStatementFollows
    && !t.content.isOneOf Grammar.referenceStops
    && !(t.kind == .action && t.content.isOneOf Grammar.statementActions)

end Cursor

namespace Reader

def atStatement : Reader Bool := return (← get).atStatement

inductive NameTurn where
  | stop
  | article
  | word
deriving DecidableEq

/-- The words of a name, where `turn` decides on the word at the cursor and is
    told whether it would be the first. -/
def nameWords (turn : Bool → Cursor → NameTurn) : Bool → Nat → Reader (List String)
  | _, 0 => endless
  | first, n + 1 => do
    match turn first (← get) with
    | .stop => return []
    | .article => do
      let _ ← advance
      nameWords turn first n
    | .word => do
      let w ← spelling
      return w :: (← nameWords turn false n)

def nameTurn (stops : List String) (first : Bool) (c : Cursor) : NameTurn :=
  let t := c.peek 0
  if !t.isWord || t.content.isOneOf stops then .stop
  else if !first then if c.atStatement then .stop else .word
  else if t.content.isOneOf Grammar.articles && c.nameFollows stops then .article
  else .word

def name (stops : List String) : Reader String := do
  let words ← nameWords (nameTurn stops) true (← budget)
  if words.isEmpty then fail .variableName
  return "_".intercalate words

def outName : Reader String := name Grammar.outStops

def referenceTurn (first : Bool) (c : Cursor) : NameTurn :=
  let t := c.peek 0
  if !t.isWord || t.kind == .keyword || t.content.isOneOf Grammar.referenceStops then .stop
  else if !first then
    if (t.kind == .action && t.content.isOneOf Grammar.statementActions) || c.atLineStatement
    then .stop else .word
  else if t.content.isOneOf Grammar.referenceArticles && c.referenceFollows then .article
  else .word

def reference : Reader String := do
  let words ← nameWords referenceTurn true (← budget)
  if words.isEmpty then fail .reference
  return "_".intercalate words

def into (words : List String) : Reader (Option String) := maybe words ident

def intoName : Reader (Option String) := maybe ["into"] (name ["then", "end"])

end Reader
end Parlance
