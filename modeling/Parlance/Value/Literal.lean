import Parlance.Text.Quoted
import Parlance.Value.Tree

/-!
# Values as Printed

How a terminal shows a value that is not a text: containers are written with
all they hold, texts inside of them are quoted, and a container that holds
itself is left out where it comes again.
-/

namespace Parlance.Tree

/-- What stands for a container that is open already. `path` tells of each open
    container whether it is a list, the nearest first. -/
def omitted (path : List Bool) (levels : Nat) : String :=
  if path[levels - 1]?.getD true then "[...]" else "\x7b...\x7d"

mutual

def literalAt (path : List Bool) : Tree → String
  | .null => "None"
  | .bool b => if b then "True" else "False"
  | .number n => n.digits
  | .text s => Text.quoted s
  | .list items => "[" ++ ", ".intercalate (literalItems (true :: path) items) ++ "]"
  | .object fields =>
    "\x7b" ++ ", ".intercalate (literalFields (false :: path) fields) ++ "\x7d"
  | .method _ name => "<method " ++ name ++ ">"
  | .cycle levels => omitted path levels

def literalItems (path : List Bool) : List Tree → List String
  | [] => []
  | t :: rest => literalAt path t :: literalItems path rest

def literalFields (path : List Bool) : List (String × Tree) → List String
  | [] => []
  | (k, t) :: rest =>
    (Text.quoted k ++ ": " ++ literalAt path t) :: literalFields path rest

end

def literal (t : Tree) : String := literalAt [] t

def printed : Tree → String
  | .text s => s
  | t => t.literal

end Parlance.Tree
