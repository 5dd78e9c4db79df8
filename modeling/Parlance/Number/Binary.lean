/-!
# Binary64 Numbers as Exact Fractions

Every finite binary64 number is a whole number times a power of two, so each question the library
asks of one is settled in exact integer arithmetic. `Dyadic` is that exact form, `dyadic?` reads it
out of the bit pattern, and `ofRatio` goes back: it rounds a fraction to the nearest binary64
number, a tie to the even one.
-/

namespace Parlance

/-- The exact value `±significand * 2 ^ exponent` of a finite binary64
    number. -/
structure Dyadic where
  negative : Bool
  significand : Nat
  exponent : Int
deriving DecidableEq

namespace Dyadic

def ratio (d : Dyadic) : Nat × Nat :=
  if 0 ≤ d.exponent then (d.significand * Nat.pow 2 d.exponent.toNat, 1)
  else (d.significand, Nat.pow 2 (-d.exponent).toNat)

def numerator (d : Dyadic) : Int :=
  if d.negative then -(d.ratio.1 : Int) else d.ratio.1

end Dyadic

namespace Binary

/-- The exact value of a finite number, read from its bits. Infinities and
    NaN have none. -/
def dyadic? (x : Float) : Option Dyadic :=
  let bits : Nat := x.toBits.toNat
  let negative := bits / Nat.pow 2 63 == 1
  let biased : Nat := bits / Nat.pow 2 52 % Nat.pow 2 11
  let fraction : Nat := bits % Nat.pow 2 52
  if biased = 2047 then none
  else if biased = 0 then some ⟨negative, fraction, -1074⟩
  else some ⟨negative, fraction + Nat.pow 2 52, (biased : Int) - 1075⟩

/-- The number with the given bit pattern, split into its three fields. -/
def ofFields (negative : Bool) (biased fraction : Nat) : Float :=
  let sign := if negative then Nat.pow 2 63 else 0
  Float.ofBits (UInt64.ofNat (sign + biased * Nat.pow 2 52 + fraction))

def infinity (negative : Bool) : Float := ofFields negative 2047 0

def nan : Float := ofFields false 2047 (Nat.pow 2 51)

/-- The binary64 number nearest to `num / den`; of two equally near ones the
    one with the even significand. Fractions beyond the largest finite number
    round to an infinity.

    The first guess `q` of the power of two puts the quotient between `2 ^ 51`
    and `2 ^ 53`, so one correction reaches a significand of 53 bits. -/
def ofRatio (negative : Bool) (num den : Nat) : Float :=
  if num = 0 then ofFields negative 0 0
  else
    let scaled (q : Int) : Nat × Nat :=
      if 0 ≤ q then (num, den * Nat.pow 2 q.toNat) else (num * Nat.pow 2 (-q).toNat, den)
    let guess : Int := (Nat.log2 num : Int) - Nat.log2 den - 52
    let (n, d) := scaled guess
    let q := max (-1074) (if n / d < Nat.pow 2 52 then guess - 1 else guess)
    let (n, d) := scaled q
    let low := n / d
    let twice := 2 * (n % d)
    let m := if twice > d || (twice == d && low % 2 == 1) then low + 1 else low
    let (m, q) := if m = Nat.pow 2 53 then (Nat.pow 2 52, q + 1) else (m, q)
    if q > 971 then infinity negative
    else if m < Nat.pow 2 52 then ofFields negative 0 m
    else ofFields negative (q + 1075).toNat (m - Nat.pow 2 52)

def ofInt (n : Int) : Float := ofRatio (n < 0) n.natAbs 1

/-- The binary64 number with exactly the given dyadic value, when there is
    one; otherwise the nearest. -/
def ofDyadic (d : Dyadic) : Float := ofRatio d.negative d.ratio.1 d.ratio.2

def truncate? (x : Float) : Option Int :=
  (dyadic? x).map fun d => d.numerator.tdiv d.ratio.2

def floor? (x : Float) : Option Int :=
  (dyadic? x).map fun d => d.numerator.fdiv d.ratio.2

def ceil? (x : Float) : Option Int :=
  (dyadic? x).map fun d => -((-d.numerator).fdiv d.ratio.2)

def whole? (x : Float) : Option Int :=
  match dyadic? x with
  | none => none
  | some d =>
    let (n, den) := d.ratio
    if n % den = 0 then some (d.numerator.tdiv den) else none

/-- What is left of `a` after taking away as many whole `b`s as fit. It is
    exact and has the sign of `a`. Callers have excluded a zero or undefined
    `b` and an infinite or undefined `a`. -/
def remainder (a b : Float) : Float :=
  match dyadic? a, dyadic? b with
  | some da, some db =>
    let e := min da.exponent db.exponent
    let na := da.significand * Nat.pow 2 (da.exponent - e).toNat
    let nb := db.significand * Nat.pow 2 (db.exponent - e).toNat
    ofDyadic ⟨da.negative, na % nb, e⟩
  | _, _ => a

/-- How a whole number compares with a finite number. Both sides are exact. -/
def compareExact (n : Int) (d : Dyadic) : Ordering :=
  compare (n * d.ratio.2) d.numerator

end Binary
end Parlance
