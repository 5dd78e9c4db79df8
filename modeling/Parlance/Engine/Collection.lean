import Parlance.Engine.Eval
import Parlance.Sequence.Sort

/-!
# Commands on Collections
-/

namespace Parlance

/-- What a sort looks at: numbers by value, and texts where one of two items is
    no number. -/
structure SortKey where
  number : Option Number
  text : String

def SortKey.lt (a b : SortKey) : Bool :=
  match a.number, b.number with
  | some m, some n => m.lt n
  | _, _ => a.text < b.text

namespace Run

def sortKeys : List Value → Run (List (SortKey × Value))
  | [] => return []
  | v :: rest => do
    let k : SortKey := ⟨v.number?, ← text v⟩
    return (k, v) :: (← sortKeys rest)

/-- The items with what a sort looks at. Among numbers alone that is no text. -/
def withKeys (vs : List Value) : Run (List (SortKey × Value)) :=
  if vs.all Value.isNumber then return vs.map fun v => (⟨v.number?, ""⟩, v) else sortKeys vs

def sorted (descending : Bool) (vs : List Value) : Run (List Value) := do
  if vs.length < 2 then return vs
  let keyed ← withKeys vs
  let lt (a b : SortKey × Value) : Bool := a.1.lt b.1
  let sort := if descending then Sequence.sortDown lt else Sequence.sort lt
  return (sort keyed).map Prod.snd

mutual

def flattenAt (h : Heap) : Nat → List Value → Except Defect (List Value)
  | _, [] => return []
  | fuel, v :: rest => do
    let head ← flattenOne h fuel v
    return head ++ (← flattenAt h fuel rest)

def flattenOne (h : Heap) : Nat → Value → Except Defect (List Value)
  | 0, .list _ => throw .endless
  | fuel + 1, .list r => flattenAt h fuel (h.items r)
  | _, v => return [v]

end

def flatten (vs : List Value) : Run (List Value) := do
  let h := (← get).heap
  lift (flattenAt h (h.cells.size + 1) vs)

/-- Keeps the items for which a test holds; the item variable holds each in
    turn. -/
def keepIf (item : String) (p : Run Bool) : List Value → Run (List Value)
  | [] => return []
  | v :: rest => do
    setVar item v
    let kept ← p
    let vs ← keepIf item p rest
    return if kept then v :: vs else vs

/-- The values that a computation gives for the items; the item variable holds
    each in turn. -/
def mapItems {α : Type} (item : String) (f : Value → Run α) : List Value → Run (List α)
  | [] => return []
  | v :: rest => do
    setVar item v
    let a ← f v
    return a :: (← mapItems item f rest)

def listItems (v : Value) : Run (List Value) :=
  match v with
  | .list r => items r
  | _ => pure []

def varOrName (name : String) : Run Value := return (← var? name).getD (.text name)

def combineAll : Dict Value → List String → Run (Dict Value)
  | acc, [] => return acc
  | acc, name :: rest => do
    match ← var name with
    | .object r => combineAll (acc.merge (← fields r)) rest
    | _ => combineAll acc rest

def itemAt (v : Value) (i : Int) : Run Value := do
  match v with
  | .list r => return (nth (← items r) (.int i)).getD .null
  | .text s => return ((nth s.toList (.int i)).map charValue).getD .null
  | _ => return .null

end Run

open Run

def CollectionCommand.exec (L : Linker) : CollectionCommand → Run Unit
  | .append e list => do
    let v ← eval L e
    match ← var list with
    | .list r => setItems r ((← items r) ++ [v])
    | .null => setVar list (← newList [v])
    | old => setVar list (← newList [old, v])
  | .take side list => do
    match ← var list with
    | .list r =>
      let vs ← items r
      setItems r (match side with
        | .first => vs.drop 1
        | .last => vs.dropLast)
    | _ => pure ()
  | .sort list descending => do
    match ← var list with
    | .list r => setItems r (← sorted descending (← items r))
    | _ => pure ()
  | .reverse list => do
    match ← var list with
    | .list r => setItems r (← items r).reverse
    | .text s => setVar list (.text (String.ofList s.toList.reverse))
    | _ => pure ()
  | .filter list item cond out => do
    let vs ← listItems (← var list)
    let kept ← keepIf item (test L cond) vs
    setVar out (← newList kept)
  | .merge first second out => do
    let a ← asList (← var first)
    let b ← asList (← var second)
    setVar out (← newList (a ++ b))
  | .flatten list out => do
    let vs ← asList (← var list)
    setVar out (← newList (← Run.flatten vs))
  | .find needle list out => do
    let v ← var list
    let n ← eval L needle
    match v with
    | .list _ => setVar out (.int (← Run.indexOf v n))
    | _ => setVar out (.int (-1))
  | .getKey owner key out => do
    let k ← eval L key
    setVar out (← readKey L owner k)
  | .getIndex list index out => do
    let v ← var list
    let i ← int (← eval L index) (-1)
    setVar out (← itemAt v i)
  | .slice source start stop out => do
    let v ← varOrName source
    let a ← eval L start
    let b ← eval L stop
    setVar out (← Run.slice v a b)
  | .entries part owner out => do
    let d ← match ← var owner with
      | .object r => fields r
      | _ => pure ∅
    setVar out (← newList (match part with
      | .keys => d.keys.map .text
      | .values => d.values))
  | .indexOf needle source out => do
    let v ← varOrName source
    let n ← eval L needle
    setVar out (.int (← Run.indexOf v n))
  | .transform list item e out => do
    let vs ← listItems (← var list)
    let results ← mapItems item (fun _ => eval L e) vs
    setVar out (← newList results)
  | .quantify which item list comparison out => do
    let vs ← asList (← var list)
    let results ← mapItems item (fun v => meets L v comparison) vs
    setVar out (.bool (match which with
      | .every => results.all id
      | .any => results.any id))
  | .copy source out => do
    match ← var source with
    | .list r => setVar out (← newList (← items r))
    | .object r => setVar out (← newObject (← fields r))
    | .null => setVar out (← newObject ∅)
    | v => setVar out v
  | .combine sources out => do
    setVar out (← newObject (← combineAll ∅ sources))

end Parlance
