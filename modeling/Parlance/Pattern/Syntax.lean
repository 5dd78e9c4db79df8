import Parlance.Text.Blank
import Parlance.Text.Case
import Parlance.Text.Digit
import Parlance.Text.Word

/-!
# The Syntax of Patterns

A pattern is a list of nodes that match one after the other. Flags have gone
into the nodes: a node knows by itself whether it looks at letter case and
whether it stays within ASCII.
-/

namespace Parlance
namespace Pattern

structure Flags where
  ignoreCase : Bool := false
  multiline : Bool := false
  dotAll : Bool := false
  verbose : Bool := false
  ascii : Bool := false
  unicode : Bool := false
  template : Bool := false
deriving DecidableEq

namespace Flags

def union (a b : Flags) : Flags :=
  ⟨a.ignoreCase || b.ignoreCase, a.multiline || b.multiline, a.dotAll || b.dotAll,
    a.verbose || b.verbose, a.ascii || b.ascii, a.unicode || b.unicode, a.template || b.template⟩

def without (a b : Flags) : Flags :=
  ⟨a.ignoreCase && !b.ignoreCase, a.multiline && !b.multiline, a.dotAll && !b.dotAll,
    a.verbose && !b.verbose, a.ascii && !b.ascii, a.unicode && !b.unicode,
    a.template && !b.template⟩

def meet (a b : Flags) : Bool := a.without b != a

/-- The flags inside a group that turns some on and some off. ASCII and Unicode
    replace each other. -/
def change (flags on off : Flags) : Flags :=
  let base := if on.ascii || on.unicode then { flags with ascii := false, unicode := false }
    else flags
  (base.union on).without off

def ofLetter? : Char → Option Flags
  | 'i' => some { ignoreCase := true }
  | 'm' => some { multiline := true }
  | 's' => some { dotAll := true }
  | 'x' => some { verbose := true }
  | 'a' => some { ascii := true }
  | 'u' => some { unicode := true }
  | 't' => some { template := true }
  | _ => none

end Flags

structure Mode where
  ignoreCase : Bool
  ascii : Bool
deriving DecidableEq

inductive Kind where
  | digit
  | space
  | word
deriving DecidableEq

def Kind.holds (ascii : Bool) (c : Char) : Kind → Bool
  | .digit => if ascii then c.isDigit else (Text.digitValue? c).isSome
  | .space => if ascii then c == ' ' || (9 ≤ c.toNat && c.toNat ≤ 13) else Text.isBlank c
  | .word => if ascii then c.isAlphanum || c == '_' else Text.isWordChar c

/-- An item of a set of characters. Escapes may name code points that no
    character has. -/
inductive SetItem where
  | code (code : Nat)
  | range (low high : Nat)
  | kind (kind : Kind) (negated : Bool)
deriving DecidableEq

inductive CharTest where
  /-- Anything; a line feed only if it says so. -/
  | any (lineFeed : Bool)
  | set (negated : Bool) (items : List SetItem) (mode : Mode)
deriving DecidableEq

inductive Anchor where
  | textStart
  | lineStart
  | textEnd
  | lineEnd
  | lastLineEnd
  | boundary (ascii : Bool)
  | notBoundary (ascii : Bool)
deriving DecidableEq

inductive Greed where
  | greedy
  | reluctant
  | possessive
deriving DecidableEq

inductive Node where
  | one (test : CharTest)
  | anchor (anchor : Anchor)
  | group (index : Option Nat) (body : List Node)
  | branch (options : List (List Node))
  | loop (greed : Greed) (least : Nat) (most : Option Nat) (body : List Node)
  | again (index : Nat) (mode : Mode)
  | conditional (index : Nat) (yes no : List Node)
  | look (behind : Option Nat) (negated : Bool) (body : List Node)
  | atomic (body : List Node)

def maxWidth : Nat := Nat.pow 2 64

abbrev Widths := List (Nat × Nat × Nat)

mutual

def width (groups : Widths) : List Node → Nat × Nat
  | [] => (0, 0)
  | n :: rest =>
    let (a, b) := nodeWidth groups n
    let (c, d) := width groups rest
    (min (a + c) maxWidth, min (b + d) maxWidth)

def nodeWidth (groups : Widths) : Node → Nat × Nat
  | .one _ => (1, 1)
  | .anchor _ => (0, 0)
  | .group _ body => width groups body
  | .branch options => branchWidth groups options
  | .loop _ least most body =>
    let (a, b) := width groups body
    (least * a, match most with
      | none => if b = 0 then 0 else maxWidth
      | some n => n * b)
  | .again index _ => (groups.lookup index).getD (0, 0)
  | .conditional _ yes no =>
    let (a, b) := width groups yes
    let (c, d) := width groups no
    (min a c, max b d)
  | .look _ _ _ => (0, 0)
  | .atomic body => width groups body

def branchWidth (groups : Widths) : List (List Node) → Nat × Nat
  | [] => (maxWidth, 0)
  | option :: rest =>
    let (a, b) := width groups option
    let (c, d) := branchWidth groups rest
    (min a c, max b d)

end
end Pattern

structure Pattern where
  nodes : List Pattern.Node
  groups : Nat

end Parlance
