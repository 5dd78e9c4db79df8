/-!
# Sequences

Cutting and storing by index. An index that is negative in a cut counts from
the end; a store past the end fills the gap.
-/

namespace Parlance.Sequence
variable {α : Type}

def place (n : Nat) (i : Int) : Nat :=
  if i < 0 then (i + n).toNat else min i.toNat n

/-- The items from one index up to another, or up to the end. -/
def slice (xs : List α) (start : Int) (stop : Option Int) : List α :=
  let first := place xs.length start
  let last := match stop with
    | none => xs.length
    | some j => place xs.length j
  (xs.take last).drop first

/-- Stores an item at an index. A store past the end fills the gap with
    `blank`. -/
def store (blank : α) : List α → Nat → α → List α
  | [], 0, a => [a]
  | [], i + 1, a => blank :: store blank [] i a
  | _ :: xs, 0, a => a :: xs
  | x :: xs, i + 1, a => x :: store blank xs i a

end Parlance.Sequence
