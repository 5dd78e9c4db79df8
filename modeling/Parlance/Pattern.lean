import Parlance.Pattern.Matcher
import Parlance.Pattern.Reader

/-!
# Patterns

Patterns are found in texts from left to right. The first place where a pattern
matches counts, and there the match that the pattern prefers. Where all matches
are asked for, each starts where the one before it ended; an empty match cannot
follow another one at the same place.
-/

namespace Parlance.Pattern

structure Match where
  start : Nat
  stop : Spot

/-- The match at a place. If `advance` holds it must not be empty. -/
def matchAt (p : Pattern) (text : Array Char) (advance : Bool) (start : Nat) : Option Match :=
  let accept (s : Spot) : Option Spot := if advance && s.pos == start then none else some s
  (matchNodes text p.nodes { pos := start } accept).map (⟨start, ·⟩)

/-- The first match at one of so many places. Only at the first of them it may
    have to be other than empty. -/
def firstWithin (p : Pattern) (text : Array Char) : Nat → Bool → Nat → Option Match
  | 0, _, _ => none
  | count + 1, advance, start =>
    match p.matchAt text advance start with
    | some m => some m
    | none => firstWithin p text count false (start + 1)

def firstFrom (p : Pattern) (text : Array Char) (advance : Bool) (start : Nat) : Option Match :=
  p.firstWithin text (text.size + 1 - start) advance start

def between (text : Array Char) (start stop : Nat) : String :=
  String.ofList (text.extract start stop).toList

def search (p : Pattern) (s : String) : Option (List (Option String)) :=
  let text := s.toList.toArray
  (p.firstFrom text false 0).map fun m =>
    some (between text m.start m.stop.pos) ::
      (List.range p.groups).map fun i =>
        (m.stop.span? (i + 1)).map fun (start, stop) => between text start stop

def matchesFrom (p : Pattern) (text : Array Char) : Nat → Bool → Nat → List Match
  | 0, _, _ => []
  | fuel + 1, advance, start =>
    match p.firstFrom text advance start with
    | none => []
    | some m => m :: matchesFrom p text fuel (m.stop.pos == m.start) m.stop.pos

/-- All matches, as texts. Every second match at least moves on, so twice the
    length bounds their number. -/
def findAll (p : Pattern) (s : String) : List String :=
  let text := s.toList.toArray
  (p.matchesFrom text (2 * text.size + 2) false 0).map fun m =>
    between text m.start m.stop.pos

end Parlance.Pattern
