import Parlance.Pattern.Fault
import Parlance.Pattern.Syntax

/-!
# Reading Patterns by Signs

A pattern is read sign by sign; a backslash and the character after it are one
sign. The reader always looks one sign ahead, so a backslash at the end is
noticed as soon as the sign before it has been read.
-/

namespace Parlance.Pattern

inductive Sign where
  | plain (char : Char)
  | escaped (char : Char)
deriving DecidableEq

namespace Sign

def text : Sign → String
  | .plain c => c.toString
  | .escaped c => String.ofList ['\\', c]

def size : Sign → Nat
  | .plain _ => 1
  | .escaped _ => 2

end Sign

structure Scan where
  rest : List Char
  pos : Nat := 0
  nextGroup : Nat := 1
  widths : Widths := []
  names : List (String × Nat) := []
  lookbehind : Option Nat := none
  /-- The groups that conditions ask about, with the places where they do. -/
  asked : List (Nat × Nat) := []
  flags : Flags := {}
  /-- The first fault that counts only if there is no other. -/
  late : Option Fault := none

abbrev Reading := ExceptT Obstacle (StateM Scan)

namespace Reading

def peek : Reading (Option Sign) := do
  match (← get).rest with
  | [] => return none
  | '\\' :: c :: _ => return some (.escaped c)
  | c :: _ => return some (.plain c)

def fail {α : Type} (f : Fault) (back : Nat) : Reading α := do
  throw (.fault f (some ((← get).pos - back)))

def checkEnd : Reading Unit := do
  match (← get).rest with
  | ['\\'] => fail .escapeAtEnd 0
  | _ => pure ()

def next : Reading (Option Sign) := do
  match ← peek with
  | none => return none
  | some s =>
    modify fun st => { st with rest := st.rest.drop s.size, pos := st.pos + s.size }
    checkEnd
    return some s

def eat (c : Char) : Reading Bool := do
  if (← peek) == some (.plain c) then
    let _ ← next
    return true
  return false

def takeWhile (p : Char → Bool) : Nat → Reading (List Char)
  | 0 => return []
  | n + 1 => do
    match ← peek with
    | some (.plain c) =>
      if p c then
        let _ ← next
        return c :: (← takeWhile p n)
      else return []
    | _ => return []

def nameUntil (terminator : Char) (what : String) : Nat → String → Reading String
  | 0, name => return name
  | fuel + 1, name => do
    match ← next with
    | none =>
      if name.isEmpty then fail (.missingName what) 0
      else fail (.unterminatedName terminator.toString) name.length
    | some s =>
      if s == .plain terminator then
        if name.isEmpty then fail (.missingName what) 1 else return name
      else nameUntil terminator what fuel (name ++ s.text)

def name (terminator : Char) (what : String) : Reading String := do
  nameUntil terminator what ((← get).rest.length + 1) ""

def isName (s : String) : Bool :=
  match s.toList with
  | [] => false
  | c :: rest => Text.isWordChar c && (Text.digitValue? c).isNone && rest.all Text.isWordChar

def groupName (terminator : Char) : Reading String := do
  let s ← name terminator "group name"
  if isName s then return s else fail (.badGroupName s) (s.length + 1)

def isClosed (st : Scan) (group : Nat) : Bool := (st.widths.lookup group).isSome

def checkLookbehind (group : Nat) : Reading Unit := do
  let st ← get
  match st.lookbehind with
  | none => pure ()
  | some first =>
    if !isClosed st group then fail .openGroup 0
    if first ≤ group then fail .groupInLookbehind 0

end Reading
end Parlance.Pattern
