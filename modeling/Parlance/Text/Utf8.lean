/-!
# Reading Damaged UTF-8

Bytes that are meant to be UTF-8 may be cut off or damaged. The longest part
that could begin a character, but does not become one, is read as a single
replacement character.
-/

namespace Parlance.Utf8

/-- A character of which some bytes have been read: how many are still to come,
    between which bounds the next one must lie, and the value so far. -/
structure Pending where
  missing : Nat
  low : Nat
  high : Nat
  value : Nat

def replacement : Char := Char.ofNat 0xfffd

/-- What a first byte says about its character, unless it stands alone. The
    bounds leave out overlong forms, halves of pairs and what is too large. -/
def lead? (b : Nat) : Option Pending :=
  if 0xc2 ≤ b && b ≤ 0xdf then some ⟨1, 0x80, 0xbf, b - 0xc0⟩
  else if b == 0xe0 then some ⟨2, 0xa0, 0xbf, 0⟩
  else if b == 0xed then some ⟨2, 0x80, 0x9f, 0xd⟩
  else if 0xe1 ≤ b && b ≤ 0xef then some ⟨2, 0x80, 0xbf, b - 0xe0⟩
  else if b == 0xf0 then some ⟨3, 0x90, 0xbf, 0⟩
  else if 0xf1 ≤ b && b ≤ 0xf3 then some ⟨3, 0x80, 0xbf, b - 0xf0⟩
  else if b == 0xf4 then some ⟨3, 0x80, 0x8f, 4⟩
  else none

def start (b : Nat) : List Char × Option Pending :=
  if b < 0x80 then ([Char.ofNat b], none)
  else match lead? b with
    | some p => ([], some p)
    | none => ([replacement], none)

/-- Reads a byte. One that does not continue the character under way starts
    another. -/
def step (b : Nat) : Option Pending → List Char × Option Pending
  | none => start b
  | some p =>
    if p.low ≤ b && b ≤ p.high then
      let value := p.value * 64 + (b - 0x80)
      if p.missing ≤ 1 then ([Char.ofNat value], none)
      else ([], some ⟨p.missing - 1, 0x80, 0xbf, value⟩)
    else
      let (cs, next) := start b
      (replacement :: cs, next)

def decodeFrom : Option Pending → List UInt8 → List Char
  | none, [] => []
  | some _, [] => [replacement]
  | p, b :: rest =>
    let (cs, next) := step b.toNat p
    cs ++ decodeFrom next rest

def decode (bytes : List UInt8) : List Char := decodeFrom none bytes

end Parlance.Utf8
