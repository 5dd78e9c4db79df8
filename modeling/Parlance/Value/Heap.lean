import Parlance.Dict
import Parlance.Syntax.Statement
import Parlance.Value.Tree

/-!
# The Heap

The cells behind the references in values. A cell is never freed, so a
reference stays valid and a new cell differs from all before it.

Reading a value as a whole goes through `Heap.tree`, which unfolds it. The path
from the root holds each container at most once, so it is never longer than the
heap, and the size of the heap is fuel enough.
-/

namespace Parlance

inductive Cell where
  | list (items : List Value)
  | object (fields : Dict Value)
  /-- A method of the object it is bound to. -/
  | method (owner : Ref) (method : Method Stmt)

structure Heap where
  cells : Array Cell

namespace Heap

def empty : Heap := ⟨#[]⟩

instance : Inhabited Heap := ⟨empty⟩

def cell? (h : Heap) (r : Ref) : Option Cell := h.cells[r.index]?

def alloc (h : Heap) (c : Cell) : Ref × Heap := (⟨h.cells.size⟩, ⟨h.cells.push c⟩)

def set (h : Heap) (r : Ref) (c : Cell) : Heap := ⟨h.cells.setIfInBounds r.index c⟩

def items (h : Heap) (r : Ref) : List Value :=
  match h.cell? r with
  | some (.list items) => items
  | _ => []

def fields (h : Heap) (r : Ref) : Dict Value :=
  match h.cell? r with
  | some (.object fields) => fields
  | _ => ∅

def method? (h : Heap) (r : Ref) : Option (Ref × Method Stmt) :=
  match h.cell? r with
  | some (.method owner m) => some (owner, m)
  | _ => none

def newList (h : Heap) (items : List Value) : Value × Heap :=
  let (r, h) := h.alloc (.list items)
  (.list r, h)

def newObject (h : Heap) (fields : Dict Value) : Value × Heap :=
  let (r, h) := h.alloc (.object fields)
  (.object r, h)

def levelsUp (r : Ref) (path : List Ref) : Option Nat :=
  (path.findIdx? (· == r)).map (· + 1)

/-- A value unfolded, at most `fuel` levels deep, where `path` holds the open
    containers, the nearest first. -/
def treeAt (h : Heap) : Nat → List Ref → Value → Tree
  | _, _, .null => .null
  | _, _, .bool b => .bool b
  | _, _, .number n => .number n
  | _, _, .text s => .text s
  | _, _, .method r => .method r ((h.method? r).elim "" fun m => m.2.name)
  | 0, _, _ => .cycle 0
  | fuel + 1, path, .list r => match levelsUp r path with
    | some n => .cycle n
    | none => .list ((h.items r).map (treeAt h fuel (r :: path)))
  | fuel + 1, path, .object r => match levelsUp r path with
    | some n => .cycle n
    | none => .object ((h.fields r).entries.map fun e => (e.1, treeAt h fuel (r :: path) e.2))

def tree (h : Heap) (v : Value) : Tree := h.treeAt (h.cells.size + 1) [] v

def finiteTree (h : Heap) (v : Value) : Except Defect Tree :=
  let t := h.tree v
  if t.isFinite then .ok t else .error .endless

/-- The tree of a value that can be written out as a whole. -/
def writableTree (h : Heap) (v : Value) : Except Defect Tree := do (← h.finiteTree v).writable

def text (h : Heap) : Value → Except Defect String
  | .text s => .ok s
  | v => return (← h.writableTree v).spelled

def display (h : Heap) (v : Value) : Except Defect String := return (← h.writableTree v).display

/-- A value as a document to be sent. -/
def document (h : Heap) (v : Value) : Except Defect String := return (← h.writableTree v).json

/-- A value in the interchange format, which knows no longest number. -/
def json (h : Heap) (v : Value) : Except Defect String := return (← h.finiteTree v).json

def plain (h : Heap) (v : Value) : Except Defect Json := return (← h.finiteTree v).plain

def toNumber (h : Heap) : Value → Except Defect Number
  | .number n => .ok n.normal
  | .text s => .ok (.ofText s)
  | v => (h.tree v).toNumber

/-- The whole number that a value stands for, towards zero, or a default when
    it stands for none. -/
def toInt (h : Heap) (v : Value) (default : Int) : Except Defect Int :=
  return (← h.toNumber v).truncate?.getD default

def isEmpty (h : Heap) : Value → Bool
  | .list r => (h.items r).isEmpty
  | .object _ => false
  | v => (h.tree v).isEmpty

def identical : Value → Value → Bool
  | .list r, .list r' => r == r'
  | .object r, .object r' => r == r'
  | _, _ => false

def same (h : Heap) (a b : Value) : Except Defect Bool := do
  if identical a b then return true
  if a.isContainer && b.isContainer then
    return (← h.finiteTree a).same (← h.finiteTree b)
  return (h.tree a).same (h.tree b)

def looseEqual (h : Heap) (a b : Value) : Except Defect Bool := do
  if identical a b then return true
  (← h.finiteTree a).looseEqual (← h.finiteTree b)

def order? (h : Heap) : Value → Value → Except Defect (Option Int)
  | .list _, _ | .object _, _ | _, .list _ | _, .object _ => .ok none
  | a, b => (h.tree a).order? (h.tree b)

mutual

def ofJson (h : Heap) : Json → Value × Heap
  | .null => (.null, h)
  | .bool b => (.bool b, h)
  | .number n => (.number n, h)
  | .text s => (.text s, h)
  | .array items =>
    let (vs, h) := ofJsonItems h items
    h.newList vs
  | .object fields =>
    let (fs, h) := ofJsonFields h fields
    h.newObject (.ofList fs)

def ofJsonItems (h : Heap) : List Json → List Value × Heap
  | [] => ([], h)
  | j :: rest =>
    let (v, h) := ofJson h j
    let (vs, h) := ofJsonItems h rest
    (v :: vs, h)

def ofJsonFields (h : Heap) : List (String × Json) → List (String × Value) × Heap
  | [] => ([], h)
  | (k, j) :: rest =>
    let (v, h) := ofJson h j
    let (vs, h) := ofJsonFields h rest
    ((k, v) :: vs, h)

end
end Heap
end Parlance
