import Parlance.Pattern.Syntax

/-!
# Comparing Characters

Whether a character passes a test. When letter case is ignored, characters are
compared by their lower case. A few letters have several lower case forms,
which count as one; and a range holds a character if it holds any letter with
the same lower case.
-/

namespace Parlance.Pattern

/-- The lower case letters that count as one, as lists of code points. -/
def variantForms : List (List Nat) := [
  [0x69, 0x131], [0x73, 0x17f], [0xb5, 0x3bc], [0x345, 0x3b9, 0x1fbe], [0x390, 0x1fd3],
  [0x3b0, 0x1fe3], [0x3b2, 0x3d0], [0x3b5, 0x3f5], [0x3b8, 0x3d1], [0x3ba, 0x3f0],
  [0x3c0, 0x3d6], [0x3c1, 0x3f1], [0x3c2, 0x3c3], [0x3c6, 0x3d5], [0x432, 0x1c80],
  [0x434, 0x1c81], [0x43e, 0x1c82], [0x441, 0x1c83], [0x442, 0x1c84, 0x1c85], [0x44a, 0x1c86],
  [0x463, 0x1c87], [0x1c88, 0xa64b], [0x1e61, 0x1e9b], [0xfb05, 0xfb06]]

def variants (n : Nat) : List Nat := (variantForms.find? (·.contains n)).getD [n]

def lowerCode (n : Nat) : Nat :=
  if n < 0x80 then (Char.ofNat n).toLower.toNat
  else if n = 0x130 then 0x69
  else Text.shiftCase Text.lowerRuns n

def sources (n : Nat) : List Nat :=
  let capital := if 0x61 ≤ n && n ≤ 0x7a then [n - 0x20] else []
  let dotted := if n = 0x69 then [0x130] else []
  n :: (capital ++ dotted ++ Text.preimages n Text.lowerRuns)

namespace Mode

def fold (mode : Mode) (c : Char) : Nat :=
  if mode.ignoreCase then (if mode.ascii then c.toLower.toNat else lowerCode c.toNat)
  else c.toNat

def hasCode (mode : Mode) (folded code : Nat) : Bool :=
  if mode.ignoreCase then
    if mode.ascii then folded == (if code < 0x80 then lowerCode code else code)
    else (variants (lowerCode code)).contains folded
  else folded == code

def hasRange (mode : Mode) (folded low high : Nat) : Bool :=
  let within (n : Nat) : Bool := low ≤ n && n ≤ high
  if mode.ignoreCase then
    if mode.ascii then within folded || (0x61 ≤ folded && folded ≤ 0x7a && within (folded - 0x20))
    else (variants folded).any fun n => (sources n).any within
  else within folded

end Mode

def SetItem.holds (mode : Mode) (folded : Nat) : SetItem → Bool
  | .code n => mode.hasCode folded n
  | .range low high => mode.hasRange folded low high
  | .kind k negated => (k.holds mode.ascii (Char.ofNat folded)) != negated

def CharTest.holds (c : Char) : CharTest → Bool
  | .any lineFeed => lineFeed || c != '\n'
  | .set negated items mode => (items.any (·.holds mode (mode.fold c))) != negated

end Parlance.Pattern
