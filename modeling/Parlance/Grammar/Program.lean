import Parlance.Grammar.Block
import Parlance.Grammar.Stage
import Parlance.Grammar.Store
import Parlance.Grammar.Variable
import Parlance.Token.Scan

/-!
# Reading Programs

A program is a sequence of rules and statements. A fault inside one of them is
noted, one token is passed over, and reading goes on; so reading a program
always ends at the end mark, with a program and the list of faults.
-/

namespace Parlance
namespace Reader

def opener? (nest : Nest) (word : String) : Option Opener :=
  Opener.bag? word <|> Opener.collection? word <|> Opener.text? word <|> Opener.stage? word
    <|> Opener.party? word <|> Opener.store? word <|> Opener.system? word
    <|> Opener.service? word <|> Opener.script? word <|> Opener.block? nest word

/-- A statement, given the readers of what stands inside it. A word that opens
    no statement is passed over. -/
def statementOf (nest : Nest) : Reader (Option Stmt) := do
  let t ← advance
  if !t.isWord then return none
  match opener? nest t.spelling with
  | none => return none
  | some opener => opener t.position

def atBodyEnd (stops : List String) : Reader Bool := do
  let c ← get
  let t := c.peek 0
  let next := c.peek 1
  if !t.readsAny stops then return false
  if t.reads "end" && next.readsAny ["battle", "game"] then
    return next.position.line != t.position.line
  return true

/-- A part of a program as a turn of a loop. A fault in it is passed over. -/
def turnOf {α : Type} (read : Reader (Option α)) : Reader (Turn α) := do
  match ← recovering read with
  | some a => return .item a
  | none => return .next

def bodyOf (statement : Reader (Option Stmt)) (stops : List String) : Reader (List Stmt) :=
  loop do
    if (← atFinish) || (← atBodyEnd stops) then return .stop else turnOf statement

def nestAt : Nat → Nest
  | 0 => ⟨fun _ => endless, fun _ => endless⟩
  | depth + 1 =>
    let inner := nestAt depth
    ⟨bodyOf (statementOf inner), Opener.branch inner⟩

def statement : Reader (Option Stmt) := do statementOf (nestAt (← budget))

def rule (nest : Nest) : Reader Rule := do
  let p ← position
  expect "when"
  let pattern ← event
  expect "then"
  let body ← Opener.closedBody nest
  return ⟨p, pattern, body, none⟩

def part (nest : Nest) : Reader (Option (Rule ⊕ Stmt)) := do
  if (← sees "when") && !(← Opener.seesRoute 1) then return some (.inl (← rule nest))
  return (← statementOf nest).map .inr

abbrev partTurn (nest : Nest) : Reader (Turn (Rule ⊕ Stmt)) := do
  if ← atFinish then return .stop else turnOf (part nest)

def program : Reader Program := do
  let nest := nestAt (← budget)
  let parts ← loop (partTurn nest)
  return ⟨parts.filterMap Sum.getLeft?, parts.filterMap Sum.getRight?⟩

end Reader

/-- What reading a script gives: the program, unless a number in the script is
    out of range, and the faults that were passed over. -/
structure Reading where
  program : Except Defect Program
  faults : List Fault

namespace Program

def ofTokens (ts : List Token) : Reading :=
  match Reader.program.run (Cursor.ofTokens ts) with
  | (.ok p, c) => ⟨.ok p, c.faults⟩
  | (.error (.defect d), c) => ⟨.error d, c.faults⟩
  | (.error (.fault f), c) => ⟨.ok ⟨[], []⟩, c.faults ++ [f]⟩

def ofSource (source : String) : Reading := ofTokens (Token.scan source)

end Program
end Parlance
