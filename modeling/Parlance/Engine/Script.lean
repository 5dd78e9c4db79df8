import Parlance.Engine.Class
import Parlance.Engine.Collection
import Parlance.Engine.Module
import Parlance.Engine.Store

/-!
# Commands on Definitions
-/

namespace Parlance
open Run

/-- Runs the body of a defined event where it is called. An unknown event is
    sent to the world. -/
def Run.callEvent (L : Linker) (id : String) : Run Flow := do
  match (← get).definedEvents.get? id with
  | some stmts => L.block stmts
  | none =>
    emitEvent L ("call event " ++ id) ("event:" ++ id) .null
    return .normal

def Run.normally (act : Run Unit) : Run Flow := do
  act
  return .normal

def ScriptCommand.exec (L : Linker) (pos : Position) : ScriptCommand → Run Flow
  | .callHost name args => normally do
    if ← hasStage ("call " ++ name) then
      let vs ← newList (← evalAll L args)
      direct L "call_function" [.text name, vs]
  | .callEvent id => Run.callEvent L id
  | .callFunction name args out => normally do
    let vs ← evalAll L args
    setOut out (← Run.callFunction L name vs)
  | .callMethod method owner args out => normally (Run.callMethod L method owner args out)
  | .create className args out => normally do
    let vs ← evalAll L args
    setOut out (← instantiate L className vs)
  | .importModule file nickname => normally (importAs L file nickname)
  | .importNames names file => normally (Run.importNames L names file)
  | .exportName name => normally (Run.exportName name)
  | .raiseError e => do
    let message ← display (← eval L e)
    fail .script message (some pos)

end Parlance
