/-!
# Pieces of a Text

Cutting a text at a separator, replacing one text by another inside a third,
looking for a text, and padding. All of them walk over the characters once and
take the leftmost match that does not overlap the one before.
-/

namespace Parlance.Text

/-- The pieces between matches of a separator, where `pending` characters still
    belong to the last match. -/
def splitFrom (sep : List Char) : Nat → List Char → List (List Char)
  | _, [] => [[]]
  | pending + 1, _ :: cs => splitFrom sep pending cs
  | 0, c :: cs =>
    if sep.isPrefixOf (c :: cs) then [] :: splitFrom sep (sep.length - 1) cs
    else match splitFrom sep 0 cs with
      | piece :: rest => (c :: piece) :: rest
      | [] => [[c]]

/-- The pieces of a text between separators; the empty separator stands between
    all characters. -/
def split (text sep : String) : List String :=
  if sep.isEmpty then text.toList.map (String.ofList [·])
  else (splitFrom sep.toList 0 text.toList).map String.ofList

/-- The characters with every match replaced, where `pending` characters still
    belong to the last match. -/
def replaceFrom (old new : List Char) : Nat → List Char → List Char
  | _, [] => []
  | pending + 1, _ :: cs => replaceFrom old new pending cs
  | 0, c :: cs =>
    if old.isPrefixOf (c :: cs) then new ++ replaceFrom old new (old.length - 1) cs
    else c :: replaceFrom old new 0 cs

def interleave (new : List Char) : List Char → List Char
  | [] => []
  | [c] => [c]
  | c :: cs => c :: (new ++ interleave new cs)

/-- A text with every match of `old` replaced. The empty text matches between
    every two characters. -/
def replace (text old new : String) : String :=
  if old.isEmpty then String.ofList (interleave new.toList text.toList)
  else String.ofList (replaceFrom old.toList new.toList 0 text.toList)

def findFrom (needle : List Char) : Nat → List Char → Option Nat
  | i, [] => if needle.isEmpty then some i else none
  | i, c :: cs => if needle.isPrefixOf (c :: cs) then some i else findFrom needle (i + 1) cs

def find? (text needle : String) : Option Nat := findFrom needle.toList 0 text.toList

def contains (text needle : String) : Bool := (find? text needle).isSome

def startsWith (text start : String) : Bool := start.toList.isPrefixOf text.toList

def endsWith (text finish : String) : Bool := finish.toList.isSuffixOf text.toList

def times (text : String) (n : Nat) : String := String.join (List.replicate n text)

/-- The characters that a text lacks to a length, taken from a repeated fill. -/
def padding (text : String) (width : Int) (fill : String) : List Char :=
  let need := (width - text.length).toNat
  (times fill (need / fill.length + 1)).toList.take need

def padLeft (text : String) (width : Int) (fill : String) : String :=
  String.ofList (padding text width fill ++ text.toList)

def padRight (text : String) (width : Int) (fill : String) : String :=
  String.ofList (text.toList ++ padding text width fill)

/-- A text split at the first match of a character; the second part is absent
    without a match. -/
def cut (text : String) (c : Char) : String × Option String :=
  let cs := text.toList
  match cs.dropWhile (· != c) with
  | [] => (text, none)
  | _ :: rest => (String.ofList (cs.takeWhile (· != c)), some (String.ofList rest))

def dropTail (c : Char) (text : String) : String :=
  String.ofList (text.toList.reverse.dropWhile (· == c)).reverse

end Parlance.Text
