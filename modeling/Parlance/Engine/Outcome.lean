import Parlance.Position
import Parlance.Value

/-!
# Outcomes

How a statement ends. It may end normally, leave a loop, begin the next round
of one, or give a value back; that is its flow. Or it may not end by itself at
all: a failure can be caught in a script, while the end of the program and a
defect cannot.
-/

namespace Parlance

inductive Flow where
  | normal
  | leave
  | skip
  | give (value : Value)
deriving DecidableEq

/-- Where a failure comes from. -/
inductive FailureKind where
  | language
  | script
  | host
deriving DecidableEq

/-- A failure that a script can catch. Its text names the place that was known
    when it arose; its position is filled in later if it was not. -/
structure Failure where
  kind : FailureKind
  message : String
  origin : Option Position
  position : Option Position
deriving DecidableEq

namespace Failure

def make (kind : FailureKind) (message : String) (origin : Option Position) : Failure :=
  ⟨kind, message, origin, origin⟩

def text (f : Failure) : String := f.message ++ f.origin.elim "" Position.text

def placed (f : Failure) (p : Position) : Failure :=
  { f with position := f.position.or (some p) }

end Failure

inductive Signal where
  | failure (failure : Failure)
  | exit (code : Int)
  | defect (defect : Defect)
  /-- The chain of calls was cut off. -/
  | exhausted

end Parlance
