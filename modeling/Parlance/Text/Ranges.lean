/-!
# Sets of Characters as Runs

A Unicode property is a set of code points with long runs, so it is stored as
the lengths of its runs: how many code points are outside the set, how many
then inside it, and so on in turn. The lengths are written in letters, which
stand for the digits in base 26; the last digit of each length is a small letter.
Blanks are passed over.
-/

namespace Parlance.Ranges

/-- The lengths that the letters write, after digits with this value. -/
def lengthsFrom (value : Nat) : List Char → List Nat
  | [] => []
  | c :: cs =>
    if c.isLower then (26 * value + (c.toNat - 97)) :: lengthsFrom 0 cs
    else if c.isUpper then lengthsFrom (26 * value + (c.toNat - 65)) cs
    else lengthsFrom value cs

def lengths (letters : String) : List Nat := lengthsFrom 0 letters.toList

/-- Membership in the set given by the lengths of its runs, the first of them
    outside. -/
def contains : List Nat → Nat → Bool
  | outside :: inside :: rest, c =>
    if c < outside then false
    else if c < outside + inside then true
    else contains rest (c - (outside + inside))
  | _, _ => false

end Parlance.Ranges
