import Parlance.Number.Numeral
import Parlance.Pattern.Scan

/-!
# Escapes in Patterns
-/

namespace Parlance.Pattern
namespace Reading

def isHex (c : Char) : Bool :=
  c.isDigit || ('a' ≤ c && c ≤ 'f') || ('A' ≤ c && c ≤ 'F')

def isOctal (c : Char) : Bool := '0' ≤ c && c ≤ '7'

def digitOf (c : Char) : Nat :=
  if c.isDigit then c.toNat - 0x30
  else if 'a' ≤ c then c.toNat - 0x61 + 10
  else c.toNat - 0x41 + 10

def valueOf (base : Nat) (digits : List Char) : Nat :=
  digits.foldl (fun n c => n * base + digitOf c) 0

/-- The kind of characters of an escape, and whether it is all others. -/
def kindOf? : Char → Option (Kind × Bool)
  | 'd' => some (.digit, false)
  | 'D' => some (.digit, true)
  | 's' => some (.space, false)
  | 'S' => some (.space, true)
  | 'w' => some (.word, false)
  | 'W' => some (.word, true)
  | _ => none

def controlOf? : Char → Option Nat
  | 'a' => some 7
  | 'b' => some 8
  | 'f' => some 12
  | 'n' => some 10
  | 'r' => some 13
  | 't' => some 9
  | 'v' => some 11
  | '\\' => some 92
  | _ => none

def escapeText (c : Char) (digits : List Char) : String := String.ofList ('\\' :: c :: digits)

def hexCode (c : Char) (count : Nat) : Reading Nat := do
  let digits ← takeWhile isHex count
  let whole := escapeText c digits
  if digits.length != count then fail (.incompleteEscape whole) whole.length
  let n := valueOf 16 digits
  if n > 0x10ffff then fail (.badEscape whole) whole.length
  return n

/-- A code point by the name of its character. No names are known. -/
def namedCode : Reading Nat := do
  if !(← eat '\x7b') then fail .missingBrace 0
  let s ← name '\x7d' "character name"
  fail (.undefinedCharacter s) (s.length + 4)

/-- The code point of an escape that is the same everywhere: hexadecimal, named,
    or the character itself. -/
def commonCode (c : Char) : Reading Nat := do
  match c with
  | 'x' => hexCode c 2
  | 'u' => hexCode c 4
  | 'U' => hexCode c 8
  | 'N' => namedCode
  | c => if c.isAlphanum then fail (.badEscape (escapeText c [])) 2 else return c.toNat

def octalCode (digits : List Char) : Reading Nat := do
  let n := valueOf 8 digits
  let whole := String.ofList ('\\' :: digits)
  if n > 0xff then fail (.octalTooLarge whole) whole.length
  return n

def setEscape (c : Char) : Reading SetItem := do
  match controlOf? c, kindOf? c with
  | some n, _ => return .code n
  | none, some (k, negated) => return .kind k negated
  | none, none =>
    if isOctal c then return .code (← octalCode (c :: (← takeWhile isOctal 2)))
    return .code (← commonCode c)

def groupReference (mode : Mode) (digits : List Char) : Reading Node := do
  let index := Numeral.natOf digits
  let st ← get
  if st.nextGroup ≤ index then fail (.noSuchGroup index) digits.length
  if !isClosed st index then fail .openGroup (digits.length + 1)
  checkLookbehind index
  return .again index mode

def charNode (mode : Mode) (code : Nat) : Node := .one (.set false [.code code] mode)

/-- An escape that starts with a digit other than zero: three octal digits are
    a character, and all else is a group. -/
def digitEscape (mode : Mode) (c : Char) : Reading Node := do
  match ← peek with
  | some (.plain d) =>
    if !d.isDigit then groupReference mode [c]
    else
      let _ ← next
      match ← peek with
      | some (.plain e) =>
        if isOctal c && isOctal d && isOctal e then
          let _ ← next
          return charNode mode (← octalCode [c, d, e])
        else groupReference mode [c, d]
      | _ => groupReference mode [c, d]
  | _ => groupReference mode [c]

def escape (flags : Flags) (c : Char) : Reading Node := do
  let mode : Mode := ⟨flags.ignoreCase, flags.ascii⟩
  match c with
  | 'A' => return .anchor .textStart
  | 'Z' => return .anchor .textEnd
  | 'b' => return .anchor (.boundary flags.ascii)
  | 'B' => return .anchor (.notBoundary flags.ascii)
  | '0' => return charNode mode (valueOf 8 (← takeWhile isOctal 2))
  | c =>
    match kindOf? c, controlOf? c with
    | some (k, negated), _ => return .one (.set false [.kind k negated] mode)
    | none, some n => return charNode mode n
    | none, none =>
      if c.isDigit then digitEscape mode c else return charNode mode (← commonCode c)

end Reading
end Parlance.Pattern
