import Parlance.Pattern.Fold

/-!
# Matching Patterns

A node matches from a spot by handing the spots it can reach, best first, to
what comes after it, until that succeeds. The rest of the pattern is thus a
function from spots to results, and going back to another choice is to call it
again.

A repetition stops when a round after the least number of rounds has not moved
on, so the length of the text bounds the rounds.
-/

namespace Parlance.Pattern

structure Spot where
  pos : Nat
  groups : List (Nat × Nat × Nat) := []

abbrev Rest := Spot → Option Spot

abbrev Step := Spot → Rest → Option Spot

namespace Spot

def span? (s : Spot) (index : Nat) : Option (Nat × Nat) := s.groups.lookup index

def close (s : Spot) (index start : Nat) : Spot :=
  { s with groups := (index, start, s.pos) :: s.groups.filter (·.1 != index) }

end Spot

def wordAt (text : Array Char) (ascii : Bool) (i : Nat) : Bool :=
  match text[i]? with
  | some c => Kind.word.holds ascii c
  | none => false

def atBoundary (text : Array Char) (ascii : Bool) (pos : Nat) : Bool :=
  (0 < pos && wordAt text ascii (pos - 1)) != wordAt text ascii pos

/-- Whether a place is right for an anchor. An empty text has neither word
    boundaries nor places between them. -/
def Anchor.holds (text : Array Char) (pos : Nat) : Anchor → Bool
  | .textStart => pos == 0
  | .lineStart => pos == 0 || text[pos - 1]? == some '\n'
  | .textEnd => pos == text.size
  | .lineEnd => pos == text.size || text[pos]? == some '\n'
  | .lastLineEnd => pos == text.size || (pos + 1 == text.size && text[pos]? == some '\n')
  | .boundary ascii => !text.isEmpty && atBoundary text ascii pos
  | .notBoundary ascii => !text.isEmpty && !atBoundary text ascii pos

def repeatsAt (text : Array Char) (mode : Mode) (start stop pos : Nat) : Bool :=
  let fold (i : Nat) : Option Nat := text[i]?.map mode.fold
  (List.range (stop - start)).all fun i =>
    match fold (start + i), fold (pos + i) with
    | some a, some b => a == b
    | _, _ => false

def mayRepeat (most : Option Nat) (count : Nat) : Bool :=
  match most with
  | none => true
  | some n => count < n

/-- As many rounds as can be, then fewer. `last` is where the last round
    started, if it was more than the least number. -/
def greedyLoop (body : Step) (least : Nat) (most : Option Nat) (rest : Rest) :
    Nat → Nat → Option Nat → Spot → Option Spot
  | 0, _, _, _ => none
  | fuel + 1, count, last, s =>
    if count < least then
      body s (greedyLoop body least most rest fuel (count + 1) last)
    else if mayRepeat most count && last != some s.pos then
      match body s (greedyLoop body least most rest fuel (count + 1) (some s.pos)) with
      | some found => some found
      | none => rest s
    else rest s

def reluctantLoop (body : Step) (least : Nat) (most : Option Nat) (rest : Rest) :
    Nat → Nat → Option Nat → Spot → Option Spot
  | 0, _, _, _ => none
  | fuel + 1, count, last, s =>
    if count < least then
      body s (reluctantLoop body least most rest fuel (count + 1) last)
    else match rest s with
      | some found => some found
      | none =>
        if mayRepeat most count && last != some s.pos then
          body s (reluctantLoop body least most rest fuel (count + 1) (some s.pos))
        else none

def possessiveLoop (body : Step) (least : Nat) (most : Option Nat) :
    Nat → Nat → Option Nat → Spot → Option Spot
  | 0, _, _, s => some s
  | fuel + 1, count, last, s =>
    if count < least then
      (body s some).bind (possessiveLoop body least most fuel (count + 1) last)
    else if mayRepeat most count && last != some s.pos then
      match body s some with
      | some t => possessiveLoop body least most fuel (count + 1) (some s.pos) t
      | none => some s
    else some s

def runLoop (text : Array Char) (greed : Greed) (least : Nat) (most : Option Nat)
    (body : Step) (s : Spot) (rest : Rest) : Option Spot :=
  let fuel := least + text.size + 3
  match greed with
  | .greedy => greedyLoop body least most rest fuel 0 none s
  | .reluctant => reluctantLoop body least most rest fuel 0 none s
  | .possessive => (possessiveLoop body least most fuel 0 none s).bind rest

def lookAround (behind : Option Nat) (negated : Bool) (body : Step) (s : Spot) (rest : Rest) :
    Option Spot :=
  let found := if behind.getD 0 ≤ s.pos then body { s with pos := s.pos - behind.getD 0 } some
    else none
  match found, negated with
  | some t, false => rest { t with pos := s.pos }
  | none, true => rest s
  | _, _ => none

mutual

def matchNode (text : Array Char) : Node → Spot → Rest → Option Spot
  | .one test, s, rest =>
    match text[s.pos]? with
    | some c => if test.holds c then rest { s with pos := s.pos + 1 } else none
    | none => none
  | .anchor a, s, rest => if a.holds text s.pos then rest s else none
  | .group none body, s, rest => matchNodes text body s rest
  | .group (some i) body, s, rest => matchNodes text body s fun t => rest (t.close i s.pos)
  | .branch options, s, rest => matchOptions text options s rest
  | .loop greed least most body, s, rest =>
    runLoop text greed least most (fun t k => matchNodes text body t k) s rest
  | .again i mode, s, rest =>
    match s.span? i with
    | some (start, stop) =>
      if repeatsAt text mode start stop s.pos then rest { s with pos := s.pos + (stop - start) }
      else none
    | none => none
  | .conditional i yes no, s, rest =>
    if (s.span? i).isSome then matchNodes text yes s rest else matchNodes text no s rest
  | .look behind negated body, s, rest =>
    lookAround behind negated (fun t k => matchNodes text body t k) s rest
  | .atomic body, s, rest => (matchNodes text body s some).bind rest

def matchNodes (text : Array Char) : List Node → Spot → Rest → Option Spot
  | [], s, rest => rest s
  | n :: nodes, s, rest => matchNode text n s fun t => matchNodes text nodes t rest

def matchOptions (text : Array Char) : List (List Node) → Spot → Rest → Option Spot
  | [], _, _ => none
  | option :: options, s, rest =>
    match matchNodes text option s rest with
    | some found => some found
    | none => matchOptions text options s rest

end
end Parlance.Pattern
