import Parlance.Dict
import Parlance.Json.Basic

/-!
# Reading JSON

A reader for JSON documents that also takes the names of the three values without numerals. A position
is known by how many characters are left there, and `Json.Fault.message` turns it into line, column and
offset at the end. The reader recurses through nested documents on a budget of twice the number of
characters. Every second step consumes a character, so the budget never runs out.
-/

namespace Parlance.Json

inductive Reason where
  | value
  | name
  | colon
  | comma
  | unterminated
  | control
  | escape
  | unit
  | extra
  | mark
deriving DecidableEq

def Reason.message : Reason → String
  | .value => "Expecting value"
  | .name => "Expecting property name enclosed in double quotes"
  | .colon => "Expecting ':' delimiter"
  | .comma => "Expecting ',' delimiter"
  | .unterminated => "Unterminated string starting at"
  | .control => "Invalid control character at"
  | .escape => "Invalid \\escape"
  | .unit => "Invalid \\uXXXX escape"
  | .extra => "Extra data"
  | .mark => "Unexpected UTF-8 BOM (decode using utf-8-sig)"

structure Fault where
  reason : Reason
  left : Nat
deriving DecidableEq

/-- The text of a fault in a document: reason, line, column and offset. -/
def Fault.message (f : Fault) (document : List Char) : String :=
  let offset := document.length - f.left
  let before := document.take offset
  let line := before.count '\n' + 1
  let column := (before.reverse.takeWhile (· ≠ '\n')).length + 1
  s!"{f.reason.message}: line {line} column {column} (char {offset})"

def isSpace (c : Char) : Bool := c = ' ' || c = '\t' || c = '\n' || c = '\r'

def skipSpace (cs : List Char) : List Char := cs.dropWhile isSpace

def hexValue? (c : Char) : Option Nat :=
  if c.isDigit then some (c.toNat - 0x30)
  else if 'a' ≤ c ∧ c ≤ 'f' then some (c.toNat - 0x57)
  else if 'A' ≤ c ∧ c ≤ 'F' then some (c.toNat - 0x37)
  else none

def unit? (a b c d : Char) : Option Nat := do
  let a ← hexValue? a
  let b ← hexValue? b
  let c ← hexValue? c
  let d ← hexValue? d
  return ((a * 16 + b) * 16 + c) * 16 + d

def shortEscape? (c : Char) : Option Char :=
  match c with
  | '"' => some '"'
  | '\\' => some '\\'
  | '/' => some '/'
  | 'b' => some (Char.ofNat 8)
  | 'f' => some (Char.ofNat 12)
  | 'n' => some '\n'
  | 'r' => some '\r'
  | 't' => some '\t'
  | _ => none

/-- The character of a single code unit. Half of a pair stands for no
    character and is replaced. -/
def unitChar (n : Nat) : Char :=
  if 0xd800 ≤ n ∧ n < 0xe000 then Char.ofNat 0xfffd else Char.ofNat n

def pairChar (high low : Nat) : Char :=
  Char.ofNat (0x10000 + (high - 0xd800) * 0x400 + (low - 0xdc00))

/-- The characters of a first half of a pair that no second half follows. -/
def loneHalf : Option Nat → List Char
  | some high => [unitChar high]
  | none => []

/-- What one more code unit adds to a text whose last unit may be the first
    half of a pair: the characters that are settled, and the half that is
    now open. -/
def joinUnit (half : Option Nat) (u : Nat) : List Char × Option Nat :=
  match half with
  | some high =>
    if 0xdc00 ≤ u ∧ u < 0xe000 then ([pairChar high u], none)
    else if 0xd800 ≤ u ∧ u < 0xdc00 then ([unitChar high], some u)
    else ([unitChar high, unitChar u], none)
  | none => if 0xd800 ≤ u ∧ u < 0xdc00 then ([], some u) else ([unitChar u], none)

/-- The rest of a quoted text after its opening quote. `opening` is how many
    characters were left at that quote, and `half` the first half of a pair
    of code units that has just been read. -/
def quoted (opening : Nat) (half : Option Nat) : List Char → Except Fault (List Char × List Char)
  | [] => .error ⟨.unterminated, opening⟩
  | '"' :: rest => .ok (loneHalf half, rest)
  | ['\\'] => .error ⟨.unterminated, opening⟩
  | '\\' :: 'u' :: a :: b :: c :: d :: rest =>
    match unit? a b c d, rest.isEmpty with
    | some u, false =>
      let (settled, half) := joinUnit half u
      (quoted opening half rest).map fun (cs, left) => (settled ++ cs, left)
    | _, _ => .error ⟨.unit, rest.length + 5⟩
  | '\\' :: 'u' :: rest => .error ⟨.unit, rest.length + 1⟩
  | '\\' :: c :: rest =>
    match shortEscape? c with
    | some image =>
      (quoted opening none rest).map fun (cs, left) => (loneHalf half ++ image :: cs, left)
    | none => .error ⟨.escape, rest.length + 2⟩
  | c :: rest =>
    if c.toNat < 0x20 then .error ⟨.control, rest.length + 1⟩
    else (quoted opening none rest).map fun (cs, left) => (loneHalf half ++ c :: cs, left)

def fractionPart : List Char → List Char × List Char
  | '.' :: c :: rest =>
    if c.isDigit then (c :: rest.takeWhile Char.isDigit, rest.dropWhile Char.isDigit)
    else ([], '.' :: c :: rest)
  | cs => ([], cs)

def exponentPart (cs : List Char) : Option Int × List Char :=
  match cs with
  | e :: rest =>
    if e = 'e' || e = 'E' then
      let (negative, digits) := Numeral.splitSign rest
      let ds := digits.takeWhile Char.isDigit
      if ds.isEmpty then (none, cs)
      else
        let n : Int := Numeral.natOf ds
        (some (if negative then -n else n), digits.dropWhile Char.isDigit)
    else (none, cs)
  | [] => (none, cs)

def signPart : List Char → Bool × List Char
  | '-' :: rest => (true, rest)
  | cs => (false, cs)

/-- The digits before a decimal point. A zero in front stands alone. -/
def wholePart : List Char → List Char
  | '0' :: _ => ['0']
  | cs => cs.takeWhile Char.isDigit

def numeral? (cs : List Char) : Option (Number × List Char) :=
  let (negative, body) := signPart cs
  let whole := wholePart body
  if whole.isEmpty then none
  else
    let rest := body.drop whole.length
    let (fraction, rest) := fractionPart rest
    let (exponent, rest) := exponentPart rest
    let number : Number :=
      if fraction.isEmpty && exponent.isNone then
        let n : Int := Numeral.natOf whole
        .int (if negative then -n else n)
      else
        .float (Numeral.scale negative (Numeral.natOf (whole ++ fraction))
          (exponent.getD 0 - fraction.length))
    some (number, rest)

def afterWord? (word : String) (cs : List Char) : Option (List Char) :=
  let w := word.toList
  if w.isPrefixOf cs then some (cs.drop w.length) else none

def scalar (cs : List Char) : Except Fault (Json × List Char) :=
  match afterWord? "null" cs, afterWord? "true" cs, afterWord? "false" cs, afterWord? "NaN" cs,
      afterWord? "Infinity" cs, afterWord? "-Infinity" cs with
  | some rest, _, _, _, _, _ => .ok (.null, rest)
  | _, some rest, _, _, _, _ => .ok (.bool true, rest)
  | _, _, some rest, _, _, _ => .ok (.bool false, rest)
  | _, _, _, some rest, _, _ => .ok (.number .nan, rest)
  | _, _, _, _, some rest, _ => .ok (.number (.float (Binary.infinity false)), rest)
  | _, _, _, _, _, some rest => .ok (.number (.float (Binary.infinity true)), rest)
  | _, _, _, _, _, _ =>
    match numeral? cs with
    | some (n, rest) => .ok (.number n, rest)
    | none => .error ⟨.value, cs.length⟩

mutual

/-- A document at the head of the list, on a budget of nested steps. -/
def value : Nat → List Char → Except Fault (Json × List Char)
  | 0, cs => .error ⟨.value, cs.length⟩
  | fuel + 1, cs =>
    match cs with
    | '"' :: rest => (quoted cs.length none rest).map fun (s, left) => (.text (String.ofList s), left)
    | '[' :: rest =>
      match skipSpace rest with
      | ']' :: left => .ok (.array [], left)
      | left => (items fuel left).map fun (js, left) => (.array js, left)
    | '\x7b' :: rest =>
      match skipSpace rest with
      | '\x7d' :: left => .ok (.object [], left)
      | left => (fields fuel left).map fun (fs, left) => (.object (Dict.ofList fs).entries, left)
    | _ => scalar cs

def items : Nat → List Char → Except Fault (List Json × List Char)
  | 0, cs => .error ⟨.value, cs.length⟩
  | fuel + 1, cs => do
    let (j, left) ← value fuel cs
    match skipSpace left with
    | ']' :: left => return ([j], left)
    | ',' :: left =>
      let (js, left) ← items fuel (skipSpace left)
      return (j :: js, left)
    | left => .error ⟨.comma, left.length⟩

def fields : Nat → List Char → Except Fault (List (String × Json) × List Char)
  | 0, cs => .error ⟨.value, cs.length⟩
  | fuel + 1, cs => do
    match cs with
    | '"' :: rest =>
      let (key, left) ← quoted cs.length none rest
      match skipSpace left with
      | ':' :: left =>
        let (j, left) ← value fuel (skipSpace left)
        match skipSpace left with
        | '\x7d' :: left => return ([(String.ofList key, j)], left)
        | ',' :: left =>
          let (fs, left) ← fields fuel (skipSpace left)
          return ((String.ofList key, j) :: fs, left)
        | left => .error ⟨.comma, left.length⟩
      | left => .error ⟨.colon, left.length⟩
    | _ => .error ⟨.name, cs.length⟩

end

def readChars (cs : List Char) : Except Fault Json :=
  if cs.head? = some (Char.ofNat 0xfeff) then .error ⟨.mark, cs.length⟩
  else do
    let (j, left) ← value (2 * cs.length + 2) (skipSpace cs)
    let left := skipSpace left
    if left.isEmpty then return j else .error ⟨.extra, left.length⟩

def read (s : String) : Except String Json :=
  (readChars s.toList).mapError fun f => f.message s.toList

end Parlance.Json
