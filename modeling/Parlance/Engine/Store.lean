import Parlance.Engine.Party

/-!
# Commands on the Store
-/

namespace Parlance
namespace Run

/-- A stored text that spells a number, as the number; any other value
    stays. -/
def revive (v : Value) : Value :=
  match v with
  | .text s =>
    if (Text.trim s).isEmpty then v
    else match Number.ofText s with
      | .int n => .int n
      | .float x => if x.isNaN then v else .number (.float x)
  | _ => v

end Run

open Run

def StoreCommand.exec (L : Linker) : StoreCommand → Run Unit
  | .saveData key e => inStore ("save data " ++ key) do
    directStore "save_data" [.text key, ← plain (← eval L e)]
  | .loadData key out => do
    let target := out.getD key
    if ← hasStore ("load data " ++ key) then
      setVar target (revive (← askStore "load_data" [.text key]))
    else setVar target .null
  | .deleteData key => inStore ("delete data " ++ key) (directStore "delete_data" [.text key])
  | .saveRecord id table data => inStore ("save record " ++ id) do
    let v ← match data with
      | some e => eval L e
      | none => var id
    directStore "save_record" [.text table, .text id, ← plain v]
  | .loadRecord id table out => do
    let target := out.getD id
    if ← hasStore ("load record " ++ id) then
      setVar target (← askStore "load_record" [.text table, .text id])
    else setVar target .null
  | .deleteRecord id table => inStore ("delete record " ++ id)
    (directStore "delete_record" [.text table, .text id])
  | .saveGame slot => inStore "save game" do
    let game ← plain (← newObject (← get).bag)
    directStore "save_game" [.text slot, game]
  | .loadGame slot => inStore "load game" do
    match ← askStore "load_game" [.text slot] with
    | .object r =>
      let saved ← fields r
      modify fun s => { s with bag := s.bag.merge saved }
    | _ => warn ("no saved game in slot '" ++ slot ++ "'")

end Parlance
