import Parlance.Engine.Eval

/-!
# Commands on Variables
-/

namespace Parlance
namespace Run

def storeIndex (r : Ref) (index value : Value) : Run Unit := do
  let i ← int index (-1)
  if i < 0 then warn ("invalid index " ++ (← text index))
  else setItems r (Sequence.store .null (← items r) i.toNat value)

def setEntry (r : Ref) (key : String) (value : Value) : Run Unit := do
  setFields r ((← fields r).insert key value)

def setKey (owner : String) (container key value : Value) : Run Unit := do
  match container with
  | .object r => setEntry r (← text key) value
  | .list r => storeIndex r key value
  | .null => setVar owner (← newObject (.ofList [(← text key, value)]))
  | v => warn ("cannot set key on " ++ v.typeName ++ " '" ++ owner ++ "'")

end Run

open Run

def VariableCommand.exec (L : Linker) : VariableCommand → Run Unit
  | .define name e => do setVar name (← eval L e)
  | .assign name e => do setVar name (← eval L e)
  | .change op name e => do
    let old ← number ((← var? name).getD (.int 0))
    let step ← evalNumber L e
    let new ← lift (match op with
      | .increase => old.add step
      | .decrease => old.sub step)
    setVar name (.number new.normal)
  | .setKey owner key e => do
    let container ← var owner
    let k ← eval L key
    Run.setKey owner container k (← eval L e)
  | .setIndex list index e => do
    match ← var list with
    | .list r =>
      let i ← eval L index
      storeIndex r i (← eval L e)
    | _ => warn ("'" ++ list ++ "' is not an array")
  | .deleteKey owner key => do
    match ← var owner with
    | .object r =>
      let k ← evalText L key
      setFields r ((← fields r).erase k)
    | _ => pure ()

end Parlance
