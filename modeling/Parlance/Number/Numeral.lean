import Parlance.Number.Binary
import Parlance.Text.Blank
import Parlance.Text.Digit

/-!
# Numbers Written as Text

A number may be written with the digits of any script, with blanks around it
and with single low lines between digits to group them. `Numeral.plain` brings
all of that to ASCII first, so the two readers, for whole numbers and for
binary64 numbers, see one simple grammar.
-/

namespace Parlance.Numeral

def isAsciiBlank (c : Char) : Bool := c == ' ' || (9 ≤ c.toNat && c.toNat ≤ 13)

/-- One character in its ASCII form: digits of other scripts become ASCII
    digits and their blanks become spaces. Anything else beyond ASCII becomes
    a character that no number contains. -/
def toAscii (c : Char) : Char :=
  if c.toNat < 127 then c
  else if Text.isPadding c then ' '
  else match Text.digitValue? c with
    | some d => Char.ofNat (0x30 + d)
    | none => '?'

def plain (s : String) : List Char := Text.stripWhile isAsciiBlank (s.toList.map toAscii)

/-- Takes the grouping low lines out. Each must stand between two digits;
    `previous` is the character before the list. -/
def ungroup (previous : Char) : List Char → Option (List Char)
  | [] => if previous == '_' then none else some []
  | c :: rest =>
    if c == '_' then
      if previous.isDigit then ungroup c rest else none
    else if previous == '_' && !c.isDigit then none
    else (ungroup c rest).map (c :: ·)

def natOf (ds : List Char) : Nat := ds.foldl (fun n c => 10 * n + (c.toNat - 0x30)) 0

def splitSign : List Char → Bool × List Char
  | '-' :: rest => (true, rest)
  | '+' :: rest => (false, rest)
  | cs => (false, cs)

/-- The most digits that a whole number is read from or written with. -/
def maxDigits : Nat := 4300

/-- The whole number that a text stands for. Zeros in front count as digits, so a text of more
    than `maxDigits` of them stands for none, however small its value. -/
def int? (s : String) : Option Int :=
  match ungroup ' ' (plain s) with
  | none => none
  | some cs =>
    let (negative, ds) := splitSign cs
    if ds.isEmpty || !ds.all Char.isDigit || maxDigits < ds.length then none
    else some (if negative then -(natOf ds : Int) else natOf ds)

/-- The binary64 number nearest to `±mantissa * 10 ^ exponent`. Far outside the
    range of the format the power of ten is not computed. -/
def scale (negative : Bool) (mantissa : Nat) (exponent : Int) : Float :=
  let magnitude := (Nat.toDigits 10 mantissa).length + exponent
  if mantissa = 0 ∨ magnitude < -330 then Binary.ofRatio negative 0 1
  else if magnitude > 310 then Binary.infinity negative
  else if 0 ≤ exponent then Binary.ofRatio negative (mantissa * Nat.pow 10 exponent.toNat) 1
  else Binary.ofRatio negative mantissa (Nat.pow 10 (-exponent).toNat)

def exponent? : List Char → Option Int
  | [] => some 0
  | e :: rest =>
    if e == 'e' || e == 'E' then
      let (negative, ds) := splitSign rest
      if ds.isEmpty || !ds.all Char.isDigit then none
      else some (if negative then -(natOf ds : Int) else natOf ds)
    else none

def decimal? (negative : Bool) (cs : List Char) : Option Float :=
  let whole := cs.takeWhile Char.isDigit
  let rest := cs.dropWhile Char.isDigit
  let (fraction, rest) := match rest with
    | '.' :: r => (r.takeWhile Char.isDigit, r.dropWhile Char.isDigit)
    | r => ([], r)
  if whole.isEmpty && fraction.isEmpty then none
  else (exponent? rest).map fun e =>
    scale negative (natOf (whole ++ fraction)) (e - fraction.length)

def float? (s : String) : Option Float :=
  match ungroup ' ' (plain s) with
  | none => none
  | some cs =>
    let (negative, body) := splitSign cs
    let word := String.ofList (body.map Char.toLower)
    if word == "inf" || word == "infinity" then some (Binary.infinity negative)
    else if word == "nan" then some Binary.nan
    else decimal? negative body

end Parlance.Numeral
