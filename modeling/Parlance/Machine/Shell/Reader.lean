import Parlance.Machine.Shell.Syntax
import Parlance.Number.Numeral

/-!
# Reading Shell Commands

A text is cut into tokens, and the tokens are read line by line: a line runs
before the next one is read. A fault among the characters is a token of its
own, so that the lines before it run.
-/

namespace Parlance.Shell

inductive Token where
  | word (word : Word)
  | stream (number : Nat)
  | op (op : String)
  | newline
  | fault (fault : Fault)
deriving DecidableEq

def isNameChar (c : Char) : Bool := c.isAlphanum || c == '_'

def endsWord (c : Char) : Bool := " \t\n;&|<>()".toList.contains c

def bracedPart (inside : List Char) (quoted : Bool) : Except Fault Part :=
  let name := inside.takeWhile isNameChar
  match inside.dropWhile isNameChar with
  | [] =>
    if inside == ['?'] then .ok (.status quoted)
    else if name.isEmpty then .error .badSubstitution
    else .ok (.value (String.ofList name) "" quoted)
  | ':' :: '-' :: fallback =>
    if name.isEmpty then .error .badSubstitution
    else .ok (.value (String.ofList name) (String.ofList fallback) quoted)
  | ['?'] => if name.isEmpty then .ok (.status quoted) else .error .badSubstitution
  | _ => .error .badSubstitution

/-- What a dollar sign stands for, by the characters after it, and the
    characters that are left. -/
def dollarPart (quoted : Bool) : List Char → Except Fault (Part × List Char)
  | '?' :: rest => .ok (.status quoted, rest)
  | '\x7b' :: rest => do
    let inside := rest.takeWhile (· != '\x7d')
    match rest.dropWhile (· != '\x7d') with
    | [] => throw (.unexpected "end of file")
    | _ :: after => return (← bracedPart inside quoted, after)
  | c :: rest =>
    if c.isAlpha || c == '_' then
      .ok (.value (String.ofList (c :: rest.takeWhile isNameChar)) "" quoted,
        rest.dropWhile isNameChar)
    else if c.isDigit then .ok (.value c.toString "" quoted, rest)
    else .ok (.text "$" quoted, c :: rest)
  | [] => .ok (.text "$" quoted, [])

def quotedParts : Nat → List Char → Except Fault (List Part × List Char)
  | 0, _ | _, [] => .error .unterminatedQuote
  | _ + 1, '"' :: rest => .ok ([], rest)
  | fuel + 1, '\\' :: c :: rest => do
    let (parts, after) ← quotedParts fuel rest
    if c == '\n' then return (parts, after)
    let kept := if "$\"\\".toList.contains c || c == Char.ofNat 0x60 then [c] else ['\\', c]
    return (.text (String.ofList kept) true :: parts, after)
  | fuel + 1, '$' :: rest => do
    let (part, rest) ← dollarPart true rest
    let (parts, after) ← quotedParts fuel rest
    return (part :: parts, after)
  | fuel + 1, c :: rest => do
    let (parts, after) ← quotedParts fuel rest
    return (.text c.toString true :: parts, after)

def wordParts : Nat → List Char → Except Fault (Word × List Char)
  | 0, cs => .ok ([], cs)
  | _, [] => .ok ([], [])
  | fuel + 1, '\\' :: '\n' :: rest => wordParts fuel rest
  | fuel + 1, '\\' :: c :: rest => do
    let (parts, after) ← wordParts fuel rest
    return (.text c.toString true :: parts, after)
  | fuel + 1, '\'' :: rest => do
    match rest.dropWhile (· != '\'') with
    | [] => throw .unterminatedQuote
    | _ :: after =>
      let (parts, after) ← wordParts fuel after
      return (.text (String.ofList (rest.takeWhile (· != '\''))) true :: parts, after)
  | fuel + 1, '"' :: rest => do
    let (inside, rest) ← quotedParts fuel rest
    let (parts, after) ← wordParts fuel rest
    return (.text "" true :: inside ++ parts, after)
  | fuel + 1, '$' :: rest => do
    let (part, rest) ← dollarPart false rest
    let (parts, after) ← wordParts fuel rest
    return (part :: parts, after)
  | fuel + 1, c :: rest => do
    if endsWord c then return ([], c :: rest)
    let (parts, after) ← wordParts fuel rest
    return (.text c.toString false :: parts, after)

def operator? : List Char → Option (String × List Char)
  | ';' :: ';' :: rest => some (";;", rest)
  | '&' :: '&' :: rest => some ("&&", rest)
  | '|' :: '|' :: rest => some ("||", rest)
  | '>' :: '>' :: rest => some (">>", rest)
  | '>' :: '&' :: rest => some (">&", rest)
  | '<' :: '&' :: rest => some ("<&", rest)
  | c :: rest => if ";&|<>()".toList.contains c then some (c.toString, rest) else none
  | [] => none

def startsRedirect : List Char → Bool
  | '<' :: _ | '>' :: _ => true
  | _ => false

def tokensFrom : Nat → List Char → List Token
  | 0, _ | _, [] => []
  | fuel + 1, '\n' :: rest => .newline :: tokensFrom fuel rest
  | fuel + 1, '\\' :: '\n' :: rest => tokensFrom fuel rest
  | fuel + 1, '#' :: rest => tokensFrom fuel (rest.dropWhile (· != '\n'))
  | fuel + 1, c :: rest =>
    if c == ' ' || c == '\t' then tokensFrom fuel rest
    else match operator? (c :: rest) with
      | some (op, rest) => .op op :: tokensFrom fuel rest
      | none =>
        let digits := (c :: rest).takeWhile Char.isDigit
        let after := (c :: rest).dropWhile Char.isDigit
        if !digits.isEmpty && startsRedirect after then
          .stream (Numeral.natOf digits) :: tokensFrom fuel after
        else match wordParts fuel (c :: rest) with
          | .ok (w, rest) => .word w :: tokensFrom fuel rest
          | .error f => [.fault f]

def tokens (text : String) : List Token := tokensFrom (text.length + 1) text.toList

def Token.shown : Token → String
  | .word _ | .stream _ => "word"
  | .op sign => "\"" ++ sign ++ "\""
  | .newline => "newline"
  | .fault _ => "end of file"

def unexpected : List Token → Fault
  | [] => .unexpected "end of file"
  | .fault f :: _ => f
  | t :: _ => .unexpected t.shown

def redirect (stream : Option Nat) (op : String) (w : Word) : Redirect :=
  match op with
  | "<" => .input (stream.getD 0) w
  | ">>" => .output (stream.getD 1) w true
  | ">&" => .duplicate (stream.getD 1) w
  | "<&" => .duplicate (stream.getD 0) w
  | _ => .output (stream.getD 1) w false

def isRedirect (op : String) : Bool := ["<", ">", ">>", ">&", "<&"].contains op

def readCommand : List Token → Command → Except Fault (Command × List Token)
  | .stream n :: .op op :: .word w :: rest, c =>
    readCommand rest { c with redirects := c.redirects ++ [redirect (some n) op w] }
  | .word w :: rest, c => readCommand rest { c with words := c.words ++ [w] }
  | .op op :: rest, c =>
    if isRedirect op then match rest with
      | .word w :: rest =>
        readCommand rest { c with redirects := c.redirects ++ [redirect none op w] }
      | rest => .error (unexpected rest)
    else if c.words.isEmpty && c.redirects.isEmpty then .error (unexpected (.op op :: rest))
    else .ok (c, .op op :: rest)
  | .stream _ :: .op _ :: rest, _ => .error (unexpected rest)
  | rest, c => match rest with
    | .fault f :: _ => .error f
    | rest => if c.words.isEmpty && c.redirects.isEmpty then .error (unexpected rest)
      else .ok (c, rest)

def skipLines : List Token → List Token
  | .newline :: rest => skipLines rest
  | ts => ts

def readCommands : Nat → List Token → Except Fault (List Command × List Token)
  | 0, ts => .error (unexpected ts)
  | fuel + 1, ts => do
    let (c, rest) ← readCommand ts {}
    match rest with
    | .op "|" :: rest =>
      let (more, rest) ← readCommands fuel (skipLines rest)
      return (c :: more, rest)
    | rest => return ([c], rest)

def readPipeline (ts : List Token) : Except Fault (Pipeline × List Token) := do
  let negation : Token := .word [.text "!" false]
  let negated := ts.head? == some negation
  let ts := if negated then ts.drop 1 else ts
  let (commands, rest) ← readCommands (ts.length + 1) ts
  return (⟨negated, commands⟩, rest)

def readPipelines : Nat → Condition → List Token → Except Fault (Script × List Token)
  | 0, _, ts => .error (unexpected ts)
  | fuel + 1, condition, ts => do
    let (p, rest) ← readPipeline ts
    let step (next : Condition) (rest : List Token) : Except Fault (Script × List Token) := do
      let (more, rest) ← readPipelines fuel next rest
      return ((condition, p) :: more, rest)
    match rest with
    | [] => return ([(condition, p)], [])
    | .newline :: rest => return ([(condition, p)], rest)
    | .op "&&" :: rest => step .afterSuccess (skipLines rest)
    | .op "||" :: rest => step .afterFailure (skipLines rest)
    | .op ";" :: rest | .op "&" :: rest =>
      match rest with
      | [] => return ([(condition, p)], [])
      | .newline :: rest => return ([(condition, p)], rest)
      | rest => step .always rest
    | rest => throw (unexpected rest)

def readLine : List Token → Except Fault (Script × List Token)
  | [] => .ok ([], [])
  | .newline :: rest => .ok ([], rest)
  | ts => readPipelines (ts.length + 1) .always ts

end Parlance.Shell
