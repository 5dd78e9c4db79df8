import Parlance.Text.Word

/-!
# Templates

A text may hold fields in braces: an opening brace, word characters and points,
and a closing brace. A template is cut into its fields and the characters
between them, in one pass from left to right.
-/

namespace Parlance.Template

inductive Piece where
  | char (c : Char)
  | field (name : String)
deriving DecidableEq

def isFieldChar (c : Char) : Bool := Text.isWordChar c || c == '.'

/-- The name of the field that the characters after an opening brace make, if
    they make one. -/
def fieldName? (cs : List Char) : Option (List Char) :=
  let name := cs.takeWhile isFieldChar
  if !name.isEmpty && (cs.drop name.length).head? == some '\x7d' then some name else none

/-- The pieces of a list of characters, where `pending` characters still belong
    to a field that was read before. -/
def piecesFrom : Nat → List Char → List Piece
  | _, [] => []
  | pending + 1, _ :: cs => piecesFrom pending cs
  | 0, c :: cs =>
    if c = '\x7b' then match fieldName? cs with
      | some name => .field (String.ofList name) :: piecesFrom (name.length + 1) cs
      | none => .char c :: piecesFrom 0 cs
    else .char c :: piecesFrom 0 cs

def pieces (text : String) : List Piece := piecesFrom 0 text.toList

end Parlance.Template
