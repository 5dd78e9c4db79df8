import Parlance.Number.Binary

/-!
# Shortest Decimal Text

A binary64 number is written with the fewest decimal digits that read back as the same number.
The numbers that round to a given one form an interval, so the task is to find the coarsest
decimal grid with a point inside it. On every grid the only candidates are the two neighbours of
the number itself, and both are tested in exact integer arithmetic.
-/

namespace Parlance

/-- The positive number `0.d₁d₂… * 10 ^ point`. -/
structure Decimal where
  digits : List Char
  point : Int
deriving DecidableEq

namespace Decimal

def digitsOf (n : Nat) : List Char := Nat.toDigits 10 n

/-- How many zeros follow the point of the proper fraction `num / den` before
    its first digit, as far as `fuel` allows. -/
def leadingZeros (num den : Nat) : Nat → Nat
  | 0 => 0
  | fuel + 1 => if num * 10 < den then leadingZeros (num * 10) den fuel + 1 else 0

/-- The place of the point of `num / den`: the number of digits before it, or
    minus the number of zeros after it. No binary64 number has more than 324
    such zeros. -/
def pointOf (num den : Nat) : Int :=
  if den ≤ num then ((digitsOf (num / den)).length : Int)
  else -(leadingZeros num den 400 : Int)

/-- The interval of fractions that round to `significand * 2 ^ exponent`, over
    one denominator: lower end, the number itself, upper end, denominator. The
    gap below a power of two is half as wide as the gap above it. -/
def interval (significand : Nat) (exponent : Int) : Nat × Nat × Nat × Nat :=
  let e := exponent - 2
  let below := if significand = Nat.pow 2 52 ∧ -1074 < exponent then 1 else 2
  let up := Nat.pow 2 e.toNat
  let down := Nat.pow 2 (-e).toNat
  ((4 * significand - below) * up, 4 * significand * up, (4 * significand + 2) * up, down)

/-- The candidate with `n` digits, if one lies in the interval. Of two
    candidates the nearer one is taken, of two equally near ones the even
    one. The ends of the interval belong to it when `closed` holds. -/
def candidate (low value high den : Nat) (closed : Bool) (point : Int) (n : Nat) : Option Nat :=
  let shift := point - n
  let up := Nat.pow 10 (-shift).toNat
  let unit := den * Nat.pow 10 shift.toNat
  let d := value * up / unit
  let inside (k : Nat) : Bool :=
    if closed then low * up ≤ k * unit && k * unit ≤ high * up
    else low * up < k * unit && k * unit < high * up
  let below := inside d
  let above := inside (d + 1)
  let rest := value * up - d * unit
  if below && above then
    if rest * 2 < unit || (rest * 2 == unit && d % 2 == 0) then some d else some (d + 1)
  else if below then some d
  else if above then some (d + 1)
  else none

/-- The first digit count from `n` on with a candidate, and that candidate.
    Seventeen digits always have one. -/
def search (low value high den : Nat) (closed : Bool) (point : Int) (n : Nat) :
    Nat → Option (Nat × Nat)
  | 0 => none
  | fuel + 1 =>
    match candidate low value high den closed point n with
    | some d => some (n, d)
    | none => search low value high den closed point (n + 1) fuel

def trimZeros (ds : List Char) : List Char :=
  (ds.reverse.dropWhile (· == '0')).reverse

/-- The fewest digits that read back as `significand * 2 ^ exponent`, for a
    positive significand. -/
def shortest (significand : Nat) (exponent : Int) : Decimal :=
  let (low, value, high, den) := interval significand exponent
  let point := pointOf value den
  let (n, d) := (search low value high den (significand % 2 == 0) point 1 17).getD (17, 0)
  let ds := digitsOf d
  -- A candidate rounded up to a power of ten has one digit more than its grid.
  ⟨trimZeros ds, if ds.length > n then point + 1 else point⟩

def layout (d : Decimal) : List Char :=
  let count : Int := d.digits.length
  if -4 < d.point ∧ d.point ≤ 16 then
    if d.point ≤ 0 then
      '0' :: '.' :: List.replicate (-d.point).toNat '0' ++ d.digits
    else if count ≤ d.point then
      d.digits ++ List.replicate (d.point - count).toNat '0' ++ ['.', '0']
    else
      d.digits.take d.point.toNat ++ '.' :: d.digits.drop d.point.toNat
  else
    let e := d.point - 1
    let eDigits := digitsOf e.natAbs
    let exponent := if eDigits.length < 2 then '0' :: eDigits else eDigits
    let mark := 'e' :: (if e < 0 then '-' else '+') :: exponent
    match d.digits with
    | [] => mark
    | [c] => c :: mark
    | c :: rest => c :: '.' :: rest ++ mark

/-- The text of a binary64 number: the fewest digits that read back, `nan`,
    `inf` or `-inf`. -/
def ofFloat (x : Float) : String :=
  match Binary.dyadic? x with
  | none => if x.isNaN then "nan" else if x < 0 then "-inf" else "inf"
  | some v =>
    let body := if v.significand = 0 then ['0', '.', '0']
      else layout (shortest v.significand v.exponent)
    String.ofList (if v.negative then '-' :: body else body)

end Decimal
end Parlance
