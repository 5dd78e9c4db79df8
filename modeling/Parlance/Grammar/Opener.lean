import Parlance.Grammar.Condition
import Parlance.Syntax.Statement

/-!
# Readers of Statements

A statement is told by the word that opens it. The reader for such a word
starts after the word and is told its position. It may find that the word opens
nothing, and then gives nothing.
-/

namespace Parlance

/-- Reads a statement after the word that opens it, at the given position. -/
abbrev Opener := Position → Reader (Option Stmt)

namespace Opener

def give (p : Position) (c : Command) : Reader (Option Stmt) := return some (.command p c)

def nothing : Reader (Option Stmt) := return none

end Opener
end Parlance
