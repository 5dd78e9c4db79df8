import Parlance.Json.Basic

/-!
# Writing JSON

Two layouts are in use: a compact one without blanks, which keeps every
character beyond ASCII as it is, and an indented one in plain ASCII.
-/

namespace Parlance.Json

def hex4 (n : Nat) : List Char :=
  let ds := Nat.toDigits 16 n
  List.replicate (4 - ds.length) '0' ++ ds

def escapeUnit (n : Nat) : List Char := '\\' :: 'u' :: hex4 n

/-- The escape of a character in an ASCII document: its code unit, or the two
    units of a pair beyond the basic plane. -/
def escapeAscii (c : Char) : List Char :=
  let n := c.toNat
  if n < 0x10000 then escapeUnit n
  else escapeUnit (0xd800 + (n - 0x10000) / 0x400) ++ escapeUnit (0xdc00 + (n - 0x10000) % 0x400)

def escapeChar (ascii : Bool) (c : Char) : List Char :=
  if c = '"' then ['\\', '"']
  else if c = '\\' then ['\\', '\\']
  else if c = '\n' then ['\\', 'n']
  else if c = '\r' then ['\\', 'r']
  else if c = '\t' then ['\\', 't']
  else if c.toNat = 12 then ['\\', 'f']
  else if c.toNat = 8 then ['\\', 'b']
  else if c.toNat < 0x20 then escapeUnit c.toNat
  else if ascii && c.toNat > 0x7e then escapeAscii c
  else [c]

def quote (ascii : Bool) (s : String) : List Char :=
  '"' :: s.toList.flatMap (escapeChar ascii) ++ ['"']

def numeral : Number → List Char
  | .int n => (toString n).toList
  | .float x =>
    if x.isNaN then "NaN".toList
    else if x.isInf then (if x > 0 then "Infinity" else "-Infinity").toList
    else (Decimal.ofFloat x).toList

mutual

def compactChars : Json → List Char
  | .null => "null".toList
  | .bool b => (if b then "true" else "false").toList
  | .number n => numeral n
  | .text s => quote false s
  | .array items => '[' :: compactItems items ++ [']']
  | .object fields => '\x7b' :: compactFields fields ++ ['\x7d']

def compactItems : List Json → List Char
  | [] => []
  | [j] => compactChars j
  | j :: rest => compactChars j ++ ',' :: compactItems rest

def compactFields : List (String × Json) → List Char
  | [] => []
  | [(k, j)] => quote false k ++ ':' :: compactChars j
  | (k, j) :: rest => quote false k ++ ':' :: compactChars j ++ ',' :: compactFields rest

end

def compact (j : Json) : String := String.ofList (compactChars j)

def lineStart (depth : Nat) : List Char := '\n' :: List.replicate (2 * depth) ' '

mutual

def indentedChars (depth : Nat) : Json → List Char
  | .null => "null".toList
  | .bool b => (if b then "true" else "false").toList
  | .number n => numeral n
  | .text s => quote true s
  | .array [] => ['[', ']']
  | .array items => '[' :: indentedItems (depth + 1) items ++ lineStart depth ++ [']']
  | .object [] => ['\x7b', '\x7d']
  | .object fields => '\x7b' :: indentedFields (depth + 1) fields ++ lineStart depth ++ ['\x7d']

def indentedItems (depth : Nat) : List Json → List Char
  | [] => []
  | [j] => lineStart depth ++ indentedChars depth j
  | j :: rest => lineStart depth ++ indentedChars depth j ++ ',' :: indentedItems depth rest

def indentedFields (depth : Nat) : List (String × Json) → List Char
  | [] => []
  | [(k, j)] => lineStart depth ++ quote true k ++ ':' :: ' ' :: indentedChars depth j
  | (k, j) :: rest =>
    lineStart depth ++ quote true k ++ ':' :: ' ' :: indentedChars depth j
      ++ ',' :: indentedFields depth rest

end

def indented (j : Json) : String := String.ofList (indentedChars 0 j)

end Parlance.Json
