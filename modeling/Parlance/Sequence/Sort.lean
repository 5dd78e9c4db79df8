/-!
# Sorting

A stable sort that only asks whether one item goes before another. The answers
need not fit together, so the order of the questions matters: the longest run
at the start is taken as it stands, turned round if it goes strictly down, and
every further item is put in its place by halving. Long lists are merged.
-/

namespace Parlance.Sequence
variable {α : Type}

/-- Where an item goes between two places, found by halving: before the first
    item that it goes before. -/
def search (lt : α → α → Bool) (xs : List α) (item : α) : Nat → Nat → Nat → Nat
  | 0, low, _ => low
  | fuel + 1, low, high =>
    if low < high then
      let middle := low + (high - low) / 2
      match xs[middle]? with
      | some x =>
        if lt item x then search lt xs item fuel low middle
        else search lt xs item fuel (middle + 1) high
      | none => low
    else low

def insertItem (lt : α → α → Bool) (xs : List α) (item : α) : List α :=
  xs.insertIdx (search lt xs item (xs.length + 1) 0 xs.length) item

def runDown (lt : α → α → Bool) : α → List α → Nat
  | _, [] => 0
  | x, y :: rest => if lt y x then runDown lt y rest + 1 else 0

def runUp (lt : α → α → Bool) : α → List α → Nat
  | _, [] => 0
  | x, y :: rest => if lt y x then 0 else runUp lt y rest + 1

/-- A list split into its first run, in ascending order, and the rest. -/
def firstRun (lt : α → α → Bool) : List α → List α × List α
  | [] => ([], [])
  | [x] => ([x], [])
  | x :: y :: rest =>
    if lt y x then
      let n := runDown lt y rest + 2
      (((x :: y :: rest).take n).reverse, (x :: y :: rest).drop n)
    else
      let n := runUp lt y rest + 2
      ((x :: y :: rest).take n, (x :: y :: rest).drop n)

def mergeLength : Nat := 64

def sort (lt : α → α → Bool) (xs : List α) : List α :=
  if xs.length < mergeLength then
    let (run, rest) := firstRun lt xs
    rest.foldl (insertItem lt) run
  else xs.mergeSort fun a b => !lt b a

/-- The list sorted the other way round. Items that neither goes before the
    other keep their order. -/
def sortDown (lt : α → α → Bool) (xs : List α) : List α := (sort lt xs.reverse).reverse

end Parlance.Sequence
