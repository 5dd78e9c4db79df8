import Parlance.Number.Numeral

/-!
# Printing from the Shell

The two commands that print texts: `echo`, which writes its arguments with
blanks between them, and `printf`, which writes a format as often as the
arguments need. Both know escapes with a backslash.
-/

namespace Parlance.Shell

def bytesOf (s : String) : List UInt8 := s.toUTF8.data.toList

def isOctalDigit (c : Char) : Bool := '0' ≤ c && c ≤ '7'

def octalValue (digits : List Char) : Nat :=
  digits.foldl (fun n c => 8 * n + (c.toNat - 0x30)) 0

def escapeByte? : Char → Option UInt8
  | '\\' => some 92
  | 'a' => some 7
  | 'b' => some 8
  | 'f' => some 12
  | 'n' => some 10
  | 'r' => some 13
  | 't' => some 9
  | 'v' => some 11
  | _ => none

/-- A text with its escapes replaced, and whether printing goes on after it.
    Octal numbers have a zero in front. -/
def unescapeFrom : Nat → List Char → List UInt8 × Bool
  | 0, _ | _, [] => ([], true)
  | _ + 1, '\\' :: 'c' :: _ => ([], false)
  | fuel + 1, '\\' :: '0' :: rest =>
    let digits := (rest.take 3).takeWhile isOctalDigit
    let (more, on) := unescapeFrom fuel (rest.drop digits.length)
    ((octalValue digits).toUInt8 :: more, on)
  | fuel + 1, '\\' :: c :: rest =>
    match escapeByte? c with
    | some b =>
      let (more, on) := unescapeFrom fuel rest
      (b :: more, on)
    | none =>
      let (more, on) := unescapeFrom fuel (c :: rest)
      (92 :: more, on)
  | fuel + 1, c :: rest =>
    let (more, on) := unescapeFrom fuel rest
    (bytesOf c.toString ++ more, on)

def unescape (s : String) : List UInt8 × Bool := unescapeFrom (s.length + 1) s.toList

def echo : List String → List UInt8
  | "-n" :: args => (unescape (" ".intercalate args)).1
  | args =>
    let (bytes, on) := unescape (" ".intercalate args)
    if on then bytes ++ [10] else bytes

inductive PrintFault where
  | notNumber (arg : String)
  | notWhollyNumber (arg : String)
  | badDirective (directive : String)
deriving DecidableEq

def PrintFault.message : PrintFault → String
  | .notNumber arg => arg ++ ": expected numeric value"
  | .notWhollyNumber arg => arg ++ ": not completely converted"
  | .badDirective directive => directive ++ ": invalid directive"

structure Directive where
  flags : List Char
  width : Nat
  precision : Option Nat
  letter : Char

/-- The digits of a number to a base of at most sixteen, which may follow a
    mark of the base. -/
def magnitude : List Char → Nat × List Char
  | '0' :: x :: rest =>
    if (x == 'x' || x == 'X') && rest.head?.any isHexDigit then
      let digits := rest.takeWhile isHexDigit
      (digits.foldl (fun n c => 16 * n + hexValue c) 0, rest.dropWhile isHexDigit)
    else
      let digits := (x :: rest).takeWhile isOctalDigit
      (octalValue digits, (x :: rest).dropWhile isOctalDigit)
  | cs => (Numeral.natOf (cs.takeWhile Char.isDigit), cs.dropWhile Char.isDigit)
where
  isHexDigit (c : Char) : Bool :=
    c.isDigit || ('a' ≤ c.toLower && c.toLower ≤ 'f')
  hexValue (c : Char) : Nat :=
    if c.isDigit then c.toNat - 0x30 else c.toLower.toNat - 0x61 + 10

def argNumber (arg : String) : Int × List PrintFault :=
  let (negative, digits) := Numeral.splitSign (arg.toList.dropWhile Numeral.isAsciiBlank)
  let (n, rest) := magnitude digits
  let value : Int := if negative then -n else n
  if !digits.head?.any Char.isDigit then (0, [.notNumber arg])
  else (value, if rest.isEmpty then [] else [.notWhollyNumber arg])

namespace Directive

def fill (d : Directive) (bytes : List UInt8) : List UInt8 :=
  let gap := List.replicate (d.width - bytes.length) 32
  if d.flags.contains '-' then bytes ++ gap else gap ++ bytes

def fillNumber (d : Directive) (sign : String) (digits : List Char) : List UInt8 :=
  let zeros := d.precision.getD 0 - digits.length
  let digits := List.replicate zeros '0' ++ digits
  let room := d.width - (digits.length + sign.length)
  let wide := d.flags.contains '0' && !d.flags.contains '-' && d.precision.isNone
  let digits := if wide then List.replicate room '0' ++ digits else digits
  d.fill (bytesOf (sign ++ String.ofList digits))

def sign (d : Directive) (n : Int) : String :=
  if n < 0 then "-" else if d.flags.contains '+' then "+"
  else if d.flags.contains ' ' then " " else ""

/-- What a number becomes without its sign: negative ones wrap around. -/
def unsigned (n : Int) : Nat := (n % 0x10000000000000000).toNat

/-- What a directive writes for an argument, what is wrong with that, and
    whether printing goes on. -/
def write (d : Directive) (arg : String) : List UInt8 × List PrintFault × Bool :=
  let number (digits : Int → String × List Char) : List UInt8 × List PrintFault × Bool :=
    let (n, faults) := if arg.isEmpty then (0, []) else argNumber arg
    let (s, ds) := digits n
    (d.fillNumber s ds, faults, true)
  let cut (bytes : List UInt8) : List UInt8 := match d.precision with
    | some n => bytes.take n
    | none => bytes
  match d.letter with
  | 's' => (d.fill (cut (bytesOf arg)), [], true)
  | 'b' =>
    let (bytes, on) := unescape arg
    (d.fill (cut bytes), [], on)
  | 'c' => (d.fill ((bytesOf arg).take 1), [], true)
  | 'd' | 'i' => number fun n => (d.sign n, Nat.toDigits 10 n.natAbs)
  | 'u' => number fun n => ("", Nat.toDigits 10 (unsigned n))
  | 'o' => number fun n => ("", Nat.toDigits 8 (unsigned n))
  | 'x' => number fun n => ("", Nat.toDigits 16 (unsigned n))
  | 'X' => number fun n => ("", (Nat.toDigits 16 (unsigned n)).map Char.toUpper)
  | c => ([], [.badDirective ("%" ++ c.toString)], false)

end Directive

def directive? (cs : List Char) : Option (Directive × List Char) :=
  let isFlag (c : Char) : Bool := "-+ #0".toList.contains c
  let flags := cs.takeWhile isFlag
  let cs := cs.dropWhile isFlag
  let width := Numeral.natOf (cs.takeWhile Char.isDigit)
  let cs := cs.dropWhile Char.isDigit
  let (precision, cs) := match cs with
    | '.' :: rest =>
      (some (Numeral.natOf (rest.takeWhile Char.isDigit)), rest.dropWhile Char.isDigit)
    | cs => (none, cs)
  match cs with
  | [] => none
  | letter :: rest => some (⟨flags, width, precision, letter⟩, rest)

structure Printed where
  bytes : List UInt8 := []
  faults : List PrintFault := []
  goesOn : Bool := true
  args : List String := []

def printRound : Nat → List Char → List String → Printed
  | 0, _, args | _, [], args => { args }
  | fuel + 1, '%' :: '%' :: rest, args =>
    let p := printRound fuel rest args
    { p with bytes := 37 :: p.bytes }
  | fuel + 1, '%' :: cs, args =>
    match directive? cs with
    | none => { faults := [.badDirective "%"], goesOn := false }
    | some (d, rest) =>
      let (bytes, faults, on) := d.write (args.headD "")
      if on then
        let p := printRound fuel rest (args.drop 1)
        { p with bytes := bytes ++ p.bytes, faults := faults ++ p.faults }
      else { bytes, faults, goesOn := false }
  | fuel + 1, '\\' :: c :: rest, args =>
    if isOctalDigit c then
      let digits := ((c :: rest).take 3).takeWhile isOctalDigit
      let p := printRound fuel ((c :: rest).drop digits.length) args
      { p with bytes := (octalValue digits).toUInt8 :: p.bytes }
    else match escapeByte? c with
      | some b =>
        let p := printRound fuel rest args
        { p with bytes := b :: p.bytes }
      | none =>
        let p := printRound fuel (c :: rest) args
        { p with bytes := 92 :: p.bytes }
  | fuel + 1, c :: rest, args =>
    let p := printRound fuel rest args
    { p with bytes := bytesOf c.toString ++ p.bytes }

/-- As many rounds through a format as the arguments need. A format that takes
    no arguments is written once. -/
def printRounds (format : List Char) : Nat → List String → Printed
  | 0, args => { args }
  | fuel + 1, args =>
    let p := printRound (format.length + 1) format args
    if p.goesOn && !p.args.isEmpty && p.args.length < args.length then
      let q := printRounds format fuel p.args
      { q with bytes := p.bytes ++ q.bytes, faults := p.faults ++ q.faults }
    else p

def printf (format : String) (args : List String) : Printed :=
  printRounds format.toList (args.length + 1) args

end Parlance.Shell
