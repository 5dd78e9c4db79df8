import Parlance.Number
import Parlance.Position

/-!
# Tokens

A script is a flat list of tokens. Every word of a script belongs to one of
several classes, and the words of four of these classes may take part in a
name. A token list always ends with an end mark.
-/

namespace Parlance
namespace Token

inductive Kind where
  | keyword
  | action
  | preposition
  | comparison
  | identifier
  | number
  | text
  | boolean
  | null
  | operator
  | assign
  | punctuation
  | finish
deriving DecidableEq

def Kind.label : Kind → String
  | .keyword => "KEYWORD"
  | .action => "ACTION"
  | .preposition => "PREP"
  | .comparison => "COMPARISON"
  | .identifier => "IDENT"
  | .number => "NUMBER"
  | .text => "STRING"
  | .boolean => "BOOLEAN"
  | .null => "NULL"
  | .operator => "OPERATOR"
  | .assign => "ASSIGN"
  | .punctuation => "PUNCT"
  | .finish => "EOF"

def Kind.all : List Kind :=
  [.keyword, .action, .preposition, .comparison, .identifier, .number, .text, .boolean, .null,
    .operator, .assign, .punctuation, .finish]

def Kind.ofLabel? (label : String) : Option Kind := Kind.all.find? fun k => k.label == label

def Kind.isWord : Kind → Bool
  | .identifier | .preposition | .action | .keyword => true
  | _ => false

inductive Content where
  | none
  | text (value : String)
  | number (value : Number)
  | flag (value : Bool)
deriving DecidableEq

def Content.spelling : Content → String
  | .none => "None"
  | .text s => s
  | .number n => n.digits
  | .flag true => "True"
  | .flag false => "False"

def Content.isText (c : Content) (s : String) : Bool :=
  match c with
  | .text t => t == s
  | _ => false

def Content.isOneOf (c : Content) (words : List String) : Bool :=
  match c with
  | .text t => words.contains t
  | _ => false

end Token

structure Token where
  kind : Token.Kind
  content : Token.Content
  position : Position
deriving DecidableEq

namespace Token

instance : Inhabited Token := ⟨⟨.finish, .none, .start⟩⟩

def finish (p : Position) : Token := ⟨.finish, .none, p⟩

def isFinish (t : Token) : Bool := t.kind == .finish

def isWord (t : Token) : Bool := t.kind.isWord

def spelling (t : Token) : String := t.content.spelling

/-- Whether the token is this word or sign. A quoted text never is. -/
def reads (t : Token) (word : String) : Bool := t.kind != .text && t.content.isText word

/-- Whether the token is one of these words or signs. A quoted text never is. -/
def readsAny (t : Token) (words : List String) : Bool :=
  t.kind != .text && t.content.isOneOf words

def number (t : Token) : Number :=
  match t.content with
  | .number n => n
  | .flag true => .int 1
  | _ => .int 0

def isTrue (t : Token) : Bool := t.content == .flag true

def describe (t : Token) : String :=
  match t.kind with
  | .finish => "end of input"
  | k => s!"'{t.spelling}' ({k.label})"

/-- A token list with an end mark: one is added at the position of the last
    token when there is none. -/
def closed (ts : List Token) : List Token :=
  match ts.getLast? with
  | none => [finish .start]
  | some last => if last.isFinish then ts else ts ++ [finish last.position]

end Token
end Parlance
