import Parlance.Pattern.Escape

/-!
# Reading Patterns

The grammar of patterns: alternatives of sequences of items, where an item may
be repeated and a group holds alternatives again.

Every step reads at least one character before it goes deeper or on, so a
multiple of the length of the pattern is fuel enough.
-/

namespace Parlance.Pattern
namespace Reading

def setItem (s : Sign) : Reading SetItem :=
  match s with
  | .plain c => return .code c.toNat
  | .escaped c => setEscape c

def setRange (low high : SetItem) (s t : Sign) : Reading SetItem := do
  match low, high with
  | .code a, .code b =>
    if a ≤ b then return .range a b
    else fail (.badRange s.text t.text) (s.size + 1 + t.size)
  | _, _ => fail (.badRange s.text t.text) (s.size + 1 + t.size)

/-- The items of a set up to its end. A closing bracket right at the start is an
    item. -/
def setItems (here : Nat) : Nat → List SetItem → Reading (List SetItem)
  | 0, found => return found.reverse
  | fuel + 1, found => do
    let unterminated {α : Type} : Reading α := do
      fail .unterminatedSet ((← get).pos - here)
    match ← next with
    | none => unterminated
    | some s =>
      if s == .plain ']' && !found.isEmpty then return found.reverse
      let low ← setItem s
      if !(← eat '-') then setItems here fuel (low :: found)
      else match ← next with
        | none => unterminated
        | some t =>
          if t == .plain ']' then return (low :: found).reverse ++ [.code 0x2d]
          let high ← setItem t
          setItems here fuel ((← setRange low high s t) :: found)

def charSet (flags : Flags) : Reading Node := do
  let here := (← get).pos - 1
  let negated ← eat '^'
  let items ← setItems here ((← get).rest.length + 1) []
  return .one (.set negated items ⟨flags.ignoreCase, flags.ascii⟩)

/-- The letters that are flags, also the one that texts cannot have. -/
def isFlagLetter (c : Char) : Bool := c == 'L' || (Flags.ofLetter? c).isSome

def isLetter : Sign → Bool
  | .plain c => Text.isWordChar c && c != '_' && (Text.digitValue? c).isNone
  | .escaped _ => false

def turnOn (on : Flags) (c : Char) : Reading Flags := do
  match Flags.ofLetter? c with
  | none => fail .flagForBytes 0
  | some flag =>
    let all := on.union flag
    if all.ascii && all.unicode then fail .flagsIncompatible 0
    return all

def flagsOn : Nat → Flags → Char → Reading (Flags × Char)
  | 0, on, c => return (on, c)
  | fuel + 1, on, c => do
    let on ← turnOn on c
    match ← next with
    | none => fail .missingAfterFlags 0
    | some (.plain c) =>
      if c == ')' || c == '-' || c == ':' then return (on, c)
      if isFlagLetter c then flagsOn fuel on c
      else if isLetter (.plain c) then fail .unknownFlag 1
      else fail .missingAfterFlags 1
    | some s => fail .missingAfterFlags s.size

def flagsOff : Nat → Flags → Char → Reading Flags
  | 0, off, _ => return off
  | fuel + 1, off, c => do
    match Flags.ofLetter? c with
    | none => fail .typeFlagOff 0
    | some flag =>
      if flag.ascii || flag.unicode then fail .typeFlagOff 0
      let off := off.union flag
      match ← next with
      | none => fail .missingColon 0
      | some (.plain ':') => return off
      | some (.plain c) =>
        if isFlagLetter c then flagsOff fuel off c
        else if isLetter (.plain c) then fail .unknownFlag 1
        else fail .missingColon 1
      | some s => fail .missingColon s.size

def firstOff : Reading Char := do
  match ← next with
  | none => fail .missingFlag 0
  | some (.plain c) =>
    if isFlagLetter c then return c
    else if isLetter (.plain c) then fail .unknownFlag 1
    else fail .missingFlag 1
  | some s => fail .missingFlag s.size

/-- The flags at the start of a group, from their first sign: those turned on
    and off, or none when they hold for the whole pattern. -/
def inlineFlags (c : Char) : Reading (Option (Flags × Flags)) := do
  let fuel := (← get).rest.length + 1
  let (on, c) ← if c == '-' then pure ({}, c) else flagsOn fuel {} c
  if c == ')' then
    modify fun st => { st with flags := st.flags.union on }
    return none
  if on.template then fail .globalFlagOn 1
  let off ← if c == '-' then do flagsOff fuel {} (← firstOff) else pure {}
  if off.template then fail .globalFlagOff 1
  if on.meet off then fail .flagOnAndOff 1
  return some (on, off)

def maxRounds : Nat := 4294967295

def bound (digits : List Char) : Reading (Option Nat) := do
  if digits.isEmpty then return none
  let n := Numeral.natOf digits
  if maxRounds ≤ n then throw (.defect .overflow)
  return some n

/-- The bounds in braces, whose first has been read; none if the braces do not
    hold bounds, and then nothing more has been read. -/
def braces : Reading (Option (Nat × Option Nat)) := do
  let start ← get
  if start.rest.head? == some '\x7d' then return none
  let length := start.rest.length
  let low ← takeWhile Char.isDigit length
  let high ← if ← eat ',' then takeWhile Char.isDigit length else pure low
  if !(← eat '\x7d') then
    modify fun st => { st with rest := start.rest, pos := start.pos }
    return none
  let least ← bound low
  let most ← bound high
  if let some m := most then
    if m < least.getD 0 then fail .boundsSwapped ((← get).pos - start.pos)
  return some (least.getD 0, most)

def rounds : Char → Reading (Option (Nat × Option Nat))
  | '?' => return some (0, some 1)
  | '*' => return some (0, none)
  | '+' => return some (1, none)
  | _ => braces

def greed : Reading Greed := do
  if ← eat '?' then return .reluctant
  if ← eat '+' then return .possessive
  return .greedy

def loopName : Greed → String
  | .greedy => "MAX_REPEAT"
  | .reluctant => "MIN_REPEAT"
  | .possessive => "POSSESSIVE_REPEAT"

def noteLate (f : Fault) : Reading Unit :=
  modify fun st => { st with late := st.late.or (some f) }

def loopItem (start : Nat) (least : Nat) (most : Option Nat) : List Node → Reading (List Node)
  | [] => do fail .nothingToRepeat ((← get).pos - start)
  | .anchor _ :: _ => do fail .nothingToRepeat ((← get).pos - start)
  | .loop _ _ _ _ :: _ => do fail .repeatedRepeat ((← get).pos - start)
  | item :: before => do
    let g ← greed
    if (← get).flags.template then noteLate (.templateRepeat (loopName g))
    return .loop g least most [item] :: before

def skipComment (start : Nat) : Nat → Reading Unit
  | 0 => pure ()
  | fuel + 1 => do
    match ← next with
    | none => fail .unterminatedComment ((← get).pos - start)
    | some (.plain ')') => pure ()
    | some _ => skipComment start fuel

def skipLine : Nat → Reading Unit
  | 0 => pure ()
  | fuel + 1 => do
    match ← next with
    | none | some (.plain '\n') => pure ()
    | some _ => skipLine fuel

def namedReference (mode : Mode) : Reading Node := do
  let s ← groupName ')'
  let st ← get
  match st.names.lookup s with
  | none => fail (.unknownGroup s) (s.length + 1)
  | some index =>
    if !isClosed st index then fail .openGroup (s.length + 1)
    checkLookbehind index
    return .again index mode

def maxGroups : Nat := 1073741823

def askedGroup : Reading Nat := do
  let s ← name ')' "group name"
  let back := s.length + 1
  if isName s then
    match (← get).names.lookup s with
    | none => fail (.unknownGroup s) back
    | some index => return index
  else match Numeral.int? s with
    | some (.ofNat index) =>
      if index == 0 then fail .badGroupNumber back
      if maxGroups ≤ index then fail (.noSuchGroup index) back
      modify fun st =>
        if (st.asked.lookup index).isSome then st
        else { st with asked := st.asked ++ [(index, st.pos - back)] }
      return index
    | _ => fail (.badGroupName s) back

def openGroup (groupName : Option String) : Reading Nat := do
  let st ← get
  let index := st.nextGroup
  match groupName with
  | none => set { st with nextGroup := index + 1 }
  | some s =>
    match st.names.lookup s with
    | some old => fail (.redefinedGroup s index old) (s.length + 1)
    | none => set { st with nextGroup := index + 1, names := (s, index) :: st.names }
  return index

def closeGroup (index : Nat) (body : List Node) : Reading Unit :=
  modify fun st => { st with widths := (index, width st.widths body) :: st.widths }

def closing (start : Nat) : Reading Unit := do
  if !(← eat ')') then fail .unterminatedGroup ((← get).pos - start)

inductive Opening where
  | kept (name : Option String)
  | flags (on off : Flags)
  | atomic
  | look (behind negated : Bool)
  | condition (index : Nat)
  | done (nodes : List Node)
  | everywhere

def extension (start : Nat) (mode : Mode) : Reading Opening := do
  match ← next with
  | none => fail .unexpectedEnd 0
  | some (.plain 'P') =>
    if ← eat '<' then return .kept (some (← groupName '>'))
    if ← eat '=' then return .done [← namedReference mode]
    match ← next with
    | none => fail .unexpectedEnd 0
    | some s => fail (.unknownExtension ("P" ++ s.text)) (s.size + 2)
  | some (.plain ':') => return .flags {} {}
  | some (.plain '#') =>
    skipComment start ((← get).rest.length + 1)
    return .done []
  | some (.plain '=') => return .look false false
  | some (.plain '!') => return .look false true
  | some (.plain '<') =>
    match ← next with
    | none => fail .unexpectedEnd 0
    | some (.plain '=') => return .look true false
    | some (.plain '!') => return .look true true
    | some s => fail (.unknownExtension ("<" ++ s.text)) (s.size + 2)
  | some (.plain '(') => return .condition (← askedGroup)
  | some (.plain '>') => return .atomic
  | some (.plain c) =>
    if isFlagLetter c || c == '-' then
      match ← inlineFlags c with
      | none => return .everywhere
      | some (on, off) => return .flags on off
    else fail (.unknownExtension c.toString) 2
  | some s => fail (.unknownExtension s.text) (s.size + 1)

def opening (start : Nat) (mode : Mode) : Reading Opening := do
  if ← eat '?' then extension start mode else return .kept none

/-- Whether a character is skipped between the signs of a spread-out pattern. -/
def isFiller (c : Char) : Bool := c == ' ' || (9 ≤ c.toNat && c.toNat ≤ 13)

def startAnchor (flags : Flags) : Anchor := if flags.multiline then .lineStart else .textStart

def endAnchor (flags : Flags) : Anchor := if flags.multiline then .lineEnd else .lastLineEnd

mutual

/-- Alternatives. Flags for the whole pattern may stand at the start of the
    first one, if `outer` holds. -/
def alternatives (outer : Bool) (flags : Flags) : Nat → Reading (List Node)
  | 0 => return []
  | fuel + 1 => do
    let (first, flags) ← sequence outer flags fuel []
    if !(← eat '|') then return first
    let rest ← moreAlternatives flags fuel
    return [.branch (first :: rest)]

def moreAlternatives (flags : Flags) : Nat → Reading (List (List Node))
  | 0 => return []
  | fuel + 1 => do
    let (option, flags) ← sequence false flags fuel []
    if ← eat '|' then return option :: (← moreAlternatives flags fuel)
    return [option]

def sequence (first : Bool) (flags : Flags) : Nat → List Node → Reading (List Node × Flags)
  | 0, found => return (found.reverse, flags)
  | fuel + 1, found => do
    let mode : Mode := ⟨flags.ignoreCase, flags.ascii⟩
    match ← peek with
    | none | some (.plain '|') | some (.plain ')') => return (found.reverse, flags)
    | some s =>
      let start := (← get).pos
      let _ ← next
      match s with
      | .escaped c => sequence first flags fuel ((← escape flags c) :: found)
      | .plain c =>
        if flags.verbose && isFiller c then sequence first flags fuel found
        else if flags.verbose && c == '#' then
          skipLine ((← get).rest.length + 1)
          sequence first flags fuel found
        else match c with
          | '[' => sequence first flags fuel ((← charSet flags) :: found)
          | '.' => sequence first flags fuel (.one (.any flags.dotAll) :: found)
          | '^' => sequence first flags fuel (.anchor (startAnchor flags) :: found)
          | '$' => sequence first flags fuel (.anchor (endAnchor flags) :: found)
          | '?' | '*' | '+' | '\x7b' =>
            match ← rounds c with
            | none => sequence first flags fuel (charNode mode c.toNat :: found)
            | some (least, most) =>
              sequence first flags fuel (← loopItem start least most found)
          | '(' =>
            match ← opening start mode with
            | .everywhere =>
              if !first || !found.isEmpty then fail .lateGlobalFlags ((← get).pos - start)
              sequence first (flags.union (← get).flags) fuel found
            | o => sequence first flags fuel ((← groupBody start flags o fuel) ++ found)
          | c => sequence first flags fuel (charNode mode c.toNat :: found)

def groupBody (start : Nat) (flags : Flags) (o : Opening) : Nat → Reading (List Node)
  | 0 => return []
  | fuel + 1 => do
    match o with
    | .done nodes => return nodes
    | .everywhere => return []
    | .kept groupName =>
      let index ← openGroup groupName
      let body ← alternatives false flags fuel
      closing start
      closeGroup index body
      return [.group (some index) body]
    | .flags on off =>
      let body ← alternatives false (flags.change on off) fuel
      closing start
      return [.group none body]
    | .atomic =>
      let body ← alternatives false flags fuel
      closing start
      return [.atomic body]
    | .look false negated =>
      let body ← alternatives false flags fuel
      closing start
      return [.look none negated body]
    | .look true negated =>
      let outside := (← get).lookbehind
      modify fun st => { st with lookbehind := outside.or (some st.nextGroup) }
      let body ← alternatives false flags fuel
      modify fun st => { st with lookbehind := outside }
      closing start
      let (least, most) := width (← get).widths body
      if least != most then noteLate .variableWidth
      return [.look (some least) negated body]
    | .condition index =>
      checkLookbehind index
      let (yes, _) ← sequence false flags fuel []
      let no ← if ← eat '|' then do
          let (no, _) ← sequence false flags fuel []
          if (← peek) == some (.plain '|') then fail .moreThanTwoBranches 0
          pure no
        else pure []
      closing start
      return [.conditional index yes no]

end

def checkAsked : Reading Unit := do
  let st ← get
  match st.asked.find? fun g => st.nextGroup ≤ g.1 with
  | some (index, place) => throw (.fault (.noSuchGroup index) (some place))
  | none => pure ()

def whole (flags : Flags) : Reading Pattern := do
  checkEnd
  modify fun st => { st with flags }
  let nodes ← alternatives true flags (4 * (← get).rest.length + 4)
  let st ← get
  if st.flags.ascii && st.flags.unicode then throw (.defect .badValue)
  if !st.rest.isEmpty then fail .unbalanced 0
  checkAsked
  if let some f := st.late then throw (.fault f none)
  return ⟨nodes, st.nextGroup - 1⟩

end Reading

def ofText (source : String) (flags : Flags) : Except Obstacle Pattern :=
  ((Reading.whole flags).run { rest := source.toList }).1

end Parlance.Pattern
