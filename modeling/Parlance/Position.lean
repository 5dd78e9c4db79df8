/-!
# Positions in a Source Text
-/

namespace Parlance

structure Position where
  line : Nat
  col : Nat
deriving DecidableEq, Inhabited

namespace Position

def start : Position := ⟨1, 1⟩

/-- The position after a character: a line end opens the next line. -/
def step (p : Position) (c : Char) : Position :=
  if c = '\n' then ⟨p.line + 1, 1⟩ else ⟨p.line, p.col + 1⟩

def stepAll (p : Position) (cs : List Char) : Position := cs.foldl step p

def text (p : Position) : String := s!" at line {p.line} col {p.col}"

end Position
end Parlance
