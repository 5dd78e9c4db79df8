/-!
# The Syntax of Shell Commands

A script is a list of pipelines, each with the condition under which it runs. A
pipeline is a list of commands, and a command has words and redirections. There
are no compound commands and no substitution of commands.
-/

namespace Parlance.Shell

/-- A part of a word. What a quoted part stands for is not split. -/
inductive Part where
  | text (text : String) (quoted : Bool)
  /-- The value of a variable, or a text instead when it is empty. -/
  | value (name fallback : String) (quoted : Bool)
  | status (quoted : Bool)
deriving DecidableEq

abbrev Word := List Part

inductive Redirect where
  | input (stream : Nat) (path : Word)
  | output (stream : Nat) (path : Word) (append : Bool)
  | duplicate (stream : Nat) (other : Word)
deriving DecidableEq

structure Command where
  words : List Word := []
  redirects : List Redirect := []
deriving DecidableEq

structure Pipeline where
  negated : Bool
  commands : List Command
deriving DecidableEq

inductive Condition where
  | always
  | afterSuccess
  | afterFailure
deriving DecidableEq

abbrev Script := List (Condition × Pipeline)

inductive Fault where
  | unterminatedQuote
  | badSubstitution
  | unexpected (what : String)
deriving DecidableEq

def Fault.message : Fault → String
  | .unterminatedQuote => "Syntax error: Unterminated quoted string"
  | .badSubstitution => "Bad substitution"
  | .unexpected what => "Syntax error: " ++ what ++ " unexpected"

end Parlance.Shell
