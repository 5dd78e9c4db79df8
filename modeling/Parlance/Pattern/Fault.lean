import Parlance.Defect
import Parlance.Text.Quoted

/-!
# Faults in Patterns

Why a text is no pattern, and where. A fault that is found only when the whole
pattern has been read has no place.
-/

namespace Parlance.Pattern

inductive Fault where
  | escapeAtEnd
  | badEscape (escape : String)
  | incompleteEscape (escape : String)
  | missingBrace
  | missingName (what : String)
  | unterminatedName (terminator : String)
  | undefinedCharacter (name : String)
  | octalTooLarge (escape : String)
  | openGroup
  | groupInLookbehind
  | noSuchGroup (index : Nat)
  | unterminatedSet
  | badRange (low high : String)
  | boundsSwapped
  | nothingToRepeat
  | repeatedRepeat
  | unexpectedEnd
  | badGroupName (name : String)
  | unknownGroup (name : String)
  | unknownExtension (letters : String)
  | unterminatedComment
  | unterminatedGroup
  | badGroupNumber
  | moreThanTwoBranches
  | lateGlobalFlags
  | redefinedGroup (name : String) (new old : Nat)
  | flagForBytes
  | flagsIncompatible
  | missingAfterFlags
  | unknownFlag
  | missingFlag
  | missingColon
  | globalFlagOn
  | typeFlagOff
  | globalFlagOff
  | flagOnAndOff
  | unbalanced
  | variableWidth
  | templateRepeat (kind : String)
deriving DecidableEq

def Fault.message : Fault → String
  | .escapeAtEnd => "bad escape (end of pattern)"
  | .badEscape e => "bad escape " ++ e
  | .incompleteEscape e => "incomplete escape " ++ e
  | .missingBrace => "missing \x7b"
  | .missingName what => "missing " ++ what
  | .unterminatedName t => "missing " ++ t ++ ", unterminated name"
  | .undefinedCharacter name => "undefined character name " ++ Text.quoted name
  | .octalTooLarge e => "octal escape value " ++ e ++ " outside of range 0-0o377"
  | .openGroup => "cannot refer to an open group"
  | .groupInLookbehind => "cannot refer to group defined in the same lookbehind subpattern"
  | .noSuchGroup n => "invalid group reference " ++ toString n
  | .unterminatedSet => "unterminated character set"
  | .badRange low high => "bad character range " ++ low ++ "-" ++ high
  | .boundsSwapped => "min repeat greater than max repeat"
  | .nothingToRepeat => "nothing to repeat"
  | .repeatedRepeat => "multiple repeat"
  | .unexpectedEnd => "unexpected end of pattern"
  | .badGroupName name => "bad character in group name " ++ Text.quoted name
  | .unknownGroup name => "unknown group name " ++ Text.quoted name
  | .unknownExtension letters => "unknown extension ?" ++ letters
  | .unterminatedComment => "missing ), unterminated comment"
  | .unterminatedGroup => "missing ), unterminated subpattern"
  | .badGroupNumber => "bad group number"
  | .moreThanTwoBranches => "conditional backref with more than two branches"
  | .lateGlobalFlags => "global flags not at the start of the expression"
  | .redefinedGroup name new old =>
    "redefinition of group name " ++ Text.quoted name ++ " as group " ++ toString new
      ++ "; was group " ++ toString old
  | .flagForBytes => "bad inline flags: cannot use 'L' flag with a str pattern"
  | .flagsIncompatible => "bad inline flags: flags 'a', 'u' and 'L' are incompatible"
  | .missingAfterFlags => "missing -, : or )"
  | .unknownFlag => "unknown flag"
  | .missingFlag => "missing flag"
  | .missingColon => "missing :"
  | .globalFlagOn => "bad inline flags: cannot turn on global flag"
  | .typeFlagOff => "bad inline flags: cannot turn off flags 'a', 'u' and 'L'"
  | .globalFlagOff => "bad inline flags: cannot turn off global flag"
  | .flagOnAndOff => "bad inline flags: flag turned on and off"
  | .unbalanced => "unbalanced parenthesis"
  | .variableWidth => "look-behind requires fixed-width pattern"
  | .templateRepeat kind => "internal: unsupported template operator " ++ kind

/-- Why a pattern cannot be read: a fault in it, at a place or at none, or a
    defect. -/
inductive Obstacle where
  | fault (fault : Fault) (place : Option Nat)
  | defect (defect : Defect)

def lineAndColumn (source : List Char) (place : Nat) : String :=
  let before := source.take place
  let line := before.count '\n' + 1
  let column := (before.reverse.takeWhile (· != '\n')).length + 1
  " (line " ++ toString line ++ ", column " ++ toString column ++ ")"

def report (source : String) (f : Fault) : Option Nat → String
  | none => f.message
  | some n =>
    let cs := source.toList
    f.message ++ " at position " ++ toString n
      ++ (if cs.contains '\n' then lineAndColumn cs n else "")

end Parlance.Pattern
