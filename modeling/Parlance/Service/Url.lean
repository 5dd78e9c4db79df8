import Parlance.Number.Numeral
import Parlance.Text.Case
import Parlance.Text.Pieces
import Parlance.Text.Utf8

/-!
# Addresses on the Network

An address falls into a scheme, a host, a path, a query and a fragment. Most
texts are taken as they come; only a host in brackets has to be an address of
the newer kind, and a host must not hide one of the signs that end it.
-/

namespace Parlance

structure Url where
  scheme : String
  host : String
  path : String
  query : String
  fragment : String

namespace Url

def isSchemeChar (c : Char) : Bool := c.isAlphanum || c == '+' || c == '-' || c == '.'

/-- Characters that become one of the signs that end a host when a text is
    brought to its compatible form. -/
def hiddenSigns : String := "⁇⁈⁉℀℁℅℆⩴︓︖﹕﹖﹟﹫＃／：？＠"

def isHexDigit (c : Char) : Bool :=
  c.isDigit || ('a' ≤ c && c ≤ 'f') || ('A' ≤ c && c ≤ 'F')

def isOctet (s : String) : Bool :=
  let cs := s.toList
  !cs.isEmpty && cs.all Char.isDigit && cs.length ≤ 3 && (s == "0" || cs.head? != some '0')
    && Numeral.natOf cs ≤ 255

def isFourBytes (s : String) : Bool :=
  let parts := Text.split s "."
  parts.length == 4 && parts.all isOctet

def isGroup (s : String) : Bool :=
  !s.isEmpty && s.toList.all isHexDigit && s.length ≤ 4

/-- Whether the groups of an address have the right number and form. A gap of
    groups may be left out once. -/
def areGroups (parts : List String) : Bool :=
  let inner := (parts.drop 1).dropLast
  if parts.length < 3 || parts.length > 9 then false
  else match inner.findIdx? String.isEmpty with
    | none => parts.length == 8 && parts.all isGroup
    | some i =>
      let before := parts.take (i + 1)
      let after := parts.drop (i + 2)
      let high := if before.head? == some "" then before.drop 1 else before
      let low := if after.getLast? == some "" then after.dropLast else after
      (inner.filter String.isEmpty).length == 1
        && (before.head? != some "" || high.isEmpty)
        && (after.getLast? != some "" || low.isEmpty)
        && high.length + low.length < 8 && (high ++ low).all isGroup

def isAddress (s : String) : Bool :=
  let (address, zone) := Text.cut s '%'
  let parts := Text.split address ":"
  let last := parts.getLast?.getD ""
  let groups :=
    if Text.contains last "." then
      if isFourBytes last then some (parts.dropLast ++ ["0", "0"]) else none
    else some parts
  let zoneFits := match zone with
    | none => true
    | some z => !z.isEmpty && !Text.contains z "%"
  !Text.contains s "/" && zoneFits && parts.length ≥ 3
    && (groups.map areGroups).getD false

/-- Whether a host in brackets is of a kind to come: a version and an address. -/
def isFutureAddress (s : String) : Bool :=
  match s.toList with
  | 'v' :: rest =>
    let version := rest.takeWhile isHexDigit
    match rest.drop version.length with
    | '.' :: c :: more => !version.isEmpty && (c :: more).all (· != '\n')
    | _ => false
  | _ => false

def isHost (host : String) : Bool :=
  let opens := Text.contains host "["
  let closes := Text.contains host "]"
  let inside := (Text.cut ((Text.cut host '[').2.getD "") ']').1
  let bracketsFit :=
    if opens && closes then
      if Text.startsWith inside "v" then isFutureAddress inside else isAddress inside
    else !opens && !closes
  bracketsFit && host.toList.all fun c => !hiddenSigns.contains c

def splitScheme (cs : List Char) : String × List Char :=
  let scheme := cs.takeWhile (· != ':')
  match cs.drop scheme.length with
  | ':' :: rest =>
    if (scheme.head?.map Char.isAlpha).getD false && scheme.all isSchemeChar then
      (Text.lower (String.ofList scheme), rest)
    else ("", cs)
  | _ => ("", cs)

def endsHost (c : Char) : Bool := c == '/' || c == '?' || c == '#'

def splitHost : List Char → String × List Char
  | '/' :: '/' :: rest =>
    let host := rest.takeWhile (!endsHost ·)
    (String.ofList host, rest.drop host.length)
  | cs => ("", cs)

/-- The parts of a text, unless its host is malformed. -/
def split? (text : String) : Option Url :=
  let cs := (text.toList.dropWhile (·.toNat ≤ 0x20)).filter
    fun c => c != '\t' && c != '\r' && c != '\n'
  let (scheme, rest) := splitScheme cs
  let (host, rest) := splitHost rest
  let (rest, fragment) := Text.cut (String.ofList rest) '#'
  let (path, query) := Text.cut rest '?'
  if isHost host then some ⟨scheme, host, path, query.getD "", fragment.getD ""⟩ else none

def hexDigit (c : Char) : Nat :=
  if c.isDigit then c.toNat - 0x30
  else if 'a' ≤ c then c.toNat - 0x61 + 10
  else c.toNat - 0x41 + 10

def unescapeAscii : List Char → List UInt8
  | [] => []
  | '%' :: a :: b :: rest =>
    if isHexDigit a && isHexDigit b then
      (hexDigit a * 16 + hexDigit b).toUInt8 :: unescapeAscii rest
    else 0x25 :: unescapeAscii (a :: b :: rest)
  | c :: rest => c.toNat.toUInt8 :: unescapeAscii rest

/-- The characters with escapes undone, where `ascii` holds the run of ASCII
    characters under way, the last one first. -/
def unescapeFrom (ascii : List Char) : List Char → List Char
  | [] => Utf8.decode (unescapeAscii ascii.reverse)
  | c :: rest =>
    if c.toNat < 0x80 then unescapeFrom (c :: ascii) rest
    else Utf8.decode (unescapeAscii ascii.reverse) ++ c :: unescapeFrom [] rest

def unescape (s : String) : String := String.ofList (unescapeFrom [] s.toList)

/-- A part of a query with its escapes undone; a plus sign is a blank. -/
def unescapeField (s : String) : String :=
  unescape (String.ofList (s.toList.map fun c => if c == '+' then ' ' else c))

/-- The pairs of a query. A field without a value is left out. -/
def queryPairs (query : String) : List (String × String) :=
  (Text.split query "&").filterMap fun field =>
    match Text.cut field '=' with
    | (name, some value) =>
      if value.isEmpty then none else some (unescapeField name, unescapeField value)
    | (_, none) => none

inductive FetchFault where
  | unknownScheme (scheme : String)
  | noHost
  | noFileHost
  | unreachable

def FetchFault.message : FetchFault → String
  | .unknownScheme scheme => "<urlopen error unknown url type: " ++ scheme ++ ">"
  | .noHost => "<urlopen error no host given>"
  | .noFileHost => "<urlopen error ftp error: no host given>"
  | .unreachable => "<urlopen error [Errno -2] Name or service not known>"

/-- An address as it is meant: without blanks around it, angle brackets and the
    word that announces it. -/
def unwrap (text : String) : String :=
  let s := Text.trim text
  let s := if Text.startsWith s "<" && Text.endsWith s ">" && s.length > 1 then
      Text.trim (String.ofList (s.toList.drop 1).dropLast)
    else s
  if Text.startsWith s "URL:" then Text.trim (String.ofList (s.toList.drop 4)) else s

def fetchScheme? (s : String) : Option (String × List Char) :=
  let cs := s.toList
  let scheme := cs.takeWhile fun c => c != '/' && c != ':'
  match cs.drop scheme.length with
  | ':' :: rest => if scheme.isEmpty then none else some (Text.lower (String.ofList scheme), rest)
  | _ => none

def isUsableHost (host : String) : Bool :=
  let cs := host.toList
  let back := cs.reverse.takeWhile fun c => c != ':' && c != ']'
  let port := String.ofList back.reverse
  let hasPort := (cs.reverse.drop back.length).head? == some ':'
  let name := if hasPort then cs.take (cs.length - back.length - 1) else cs
  (!hasPort || port.isEmpty || (Numeral.int? port).isSome)
    && name.all fun c => 0x20 < c.toNat && c.toNat != 0x7f

/-- The scheme, the host and the path of an address to fetch from, if it has
    the form of one. -/
def fetchParts? (text : String) : Option (String × String × String) := do
  let whole := unwrap text
  let (back, rest) := (whole.toList.reverse.takeWhile (· != '#'),
    whole.toList.reverse.dropWhile (· != '#'))
  let s := if rest.isEmpty then String.ofList back.reverse
    else String.ofList (rest.drop 1).reverse
  let (scheme, after) ← fetchScheme? s
  let _ ← split? whole
  let (host, path) := splitHost after
  return (scheme, unescape host, String.ofList path)

end Url
end Parlance
