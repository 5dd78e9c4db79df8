import Parlance.Token.Vocabulary

/-!
# Scanning

The scanner walks over the characters one by one and keeps the position of each, so the position of a
token is a function of the characters before it. At the first character of a lexeme it reads the whole
lexeme ahead and then walks over the rest. Scanning never fails: a character that begins no lexeme is
passed over, and a quoted text that is not closed reaches to the end of the source.
-/

namespace Parlance
namespace Scan

def isDigit (c : Char) : Bool := '0' ≤ c && c ≤ '9'

def isLetter (c : Char) : Bool := ('a' ≤ c && c ≤ 'z') || ('A' ≤ c && c ≤ 'Z') || c == '_'

def isWordPart (c : Char) : Bool := isLetter c || isDigit c

def isOperator (c : Char) : Bool := ['+', '-', '*', '/', '%'].contains c

def isPunctuation (c : Char) : Bool :=
  ['[', ']', '\x7b', '\x7d', '(', ')', ',', ':', ';'].contains c

/-- A lexeme: how many characters it takes, and what it is when it is a token.
    The characters of an unclosed quoted text include the missing quote. -/
structure Lexeme where
  width : Nat
  token : Option (Token.Kind × Token.Content)

/-- The characters up to the closing quote. A quote after a backslash does not
    close, and both characters belong to the text. -/
def quoted : List Char → List Char
  | [] => []
  | '\\' :: '"' :: rest => '\\' :: '"' :: quoted rest
  | c :: rest => if c = '"' then [] else c :: quoted rest

/-- The digits after the first character of a number, with at most one point. -/
def digitRun : Bool → List Char → List Char
  | _, [] => []
  | dotted, c :: rest =>
    if isDigit c then c :: digitRun dotted rest
    else if c = '.' && !dotted then c :: digitRun true rest
    else []

/-- The number that a run of digits with an optional sign and point denotes:
    the nearest binary64 number, as a whole number when its value is whole. -/
def numberOf (cs : List Char) : Number :=
  let (negative, body) := Numeral.splitSign cs
  let whole := body.takeWhile isDigit
  let fraction := (body.dropWhile isDigit).drop 1
  Number.normal (.float (Numeral.scale negative (Numeral.natOf (whole ++ fraction))
    (-(fraction.length : Int))))

def opensRemark : List Char → Bool
  | '#' :: _ => true
  | '/' :: '/' :: _ => true
  | _ => false

def opensNumber : List Char → Bool
  | '-' :: d :: _ => isDigit d
  | c :: _ => isDigit c
  | [] => false

/-- The lexeme at the front of `c :: rest`. -/
def lexeme (c : Char) (rest : List Char) : Lexeme :=
  if Text.isBlank c then ⟨1, none⟩
  else if opensRemark (c :: rest) then ⟨1 + (rest.takeWhile (· != '\n')).length, none⟩
  else if c = '"' then
    let body := quoted rest
    ⟨body.length + 2, some (.text, .text (String.ofList body))⟩
  else if opensNumber (c :: rest) then
    let run := digitRun false rest
    ⟨1 + run.length, some (.number, .number (numberOf (c :: run)))⟩
  else if isOperator c then ⟨1, some (.operator, .text c.toString)⟩
  else if c = '=' then ⟨1, some (.assign, .text "=")⟩
  else if isLetter c then
    let run := rest.takeWhile isWordPart
    ⟨1 + run.length, some (Vocabulary.classify (String.ofList (c :: run)))⟩
  else if isPunctuation c then ⟨1, some (.punctuation, .text c.toString)⟩
  else ⟨1, none⟩

def Lexeme.tokenAt (found : Lexeme) (p : Position) : Option Token :=
  found.token.map fun face => ⟨face.1, face.2, p⟩

/-- The tokens of the characters from a position on, where `pending` characters
    still belong to a lexeme that was read before. Pending characters at the
    end of the source are the missing quote, which still takes a column. -/
def tokensFrom : Position → Nat → List Char → List Token
  | p, pending, [] => [Token.finish ⟨p.line, p.col + pending⟩]
  | p, pending + 1, c :: rest => tokensFrom (p.step c) pending rest
  | p, 0, c :: rest =>
    let found := lexeme c rest
    (found.tokenAt p).toList ++ tokensFrom (p.step c) (found.width - 1) rest

end Scan

def Token.scan (source : String) : List Token := Scan.tokensFrom .start 0 source.toList

end Parlance
