/-!
# Blank Characters

The characters that separate words: the blanks and line ends of all scripts
and the four information separators of ASCII.
-/

namespace Parlance.Text

def isSeparator (c : Char) : Bool := 0x1c ≤ c.toNat && c.toNat ≤ 0x1f

def isPadding (c : Char) : Bool :=
  let n := c.toNat
  (9 ≤ n && n ≤ 13) || n == 0x20 || n == 0x85 || n == 0xa0 || n == 0x1680
    || (0x2000 ≤ n && n ≤ 0x200a) || n == 0x2028 || n == 0x2029 || n == 0x202f
    || n == 0x205f || n == 0x3000

def isBlank (c : Char) : Bool := isPadding c || isSeparator c

/-- The list without the characters at its ends for which `p` holds. -/
def stripWhile (p : Char → Bool) (cs : List Char) : List Char :=
  ((cs.dropWhile p).reverse.dropWhile p).reverse

def trim (s : String) : String := String.ofList (stripWhile isBlank s.toList)

end Parlance.Text
