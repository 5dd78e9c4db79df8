import Parlance.Position

/-!
# Diagnostics
-/

namespace Parlance

inductive Severity where
  | error
  | warning
deriving DecidableEq

def Severity.word : Severity → String
  | .error => "error"
  | .warning => "warning"

structure Diagnostic where
  severity : Severity
  message : String
  position : Position
deriving DecidableEq

def Diagnostic.text (d : Diagnostic) : String :=
  if d.position.line = 0 then s!"{d.severity.word}: {d.message}"
  else s!"{d.severity.word}: {d.message} at line {d.position.line}"

end Parlance
