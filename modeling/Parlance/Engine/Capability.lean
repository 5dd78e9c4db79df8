import Parlance.Engine.World

/-!
# Asking the Hosts

A statement that needs a capability asks for it first. Without it, the reason
is noted and the statement goes on without effect.
-/

namespace Parlance.Run

def lacking (capability op : String) : Run Unit :=
  warn ("no " ++ capability ++ " capability: cannot " ++ op)

/-- Whether a capability is there; if not, it is noted what for. -/
def capable (isThere : Hosts → Bool) (capability op : String) : Run Bool := do
  if isThere (← get).hosts then return true
  lacking capability op
  return false

abbrev hasStage : String → Run Bool := capable (fun h => h.stage != .absent) "entity"

abbrev hasStore : String → Run Bool := capable (fun h => h.storeHost != .absent) "persistence"

abbrev hasMachine : String → Run Bool := capable (fun h => h.machine != .absent) "process"

abbrev hasNetwork : String → Run Bool :=
  capable (fun h => match h.network with
    | .absent => false
    | _ => true) "network"

abbrev hasDatabase : String → Run Bool :=
  capable (fun h => match h.database with
    | .absent => false
    | _ => true) "database"

abbrev hasSockets : String → Run Bool := capable (fun h => h.sockets != .absent) "socket"

def noteStage (name : String) (args : List Noted) : Run Unit := do
  if (← get).hosts.record then note name args

def askBare (name : String) (args : List Value) : Run Value := do
  match name, args with
  | "is_switch", _ => return .bool false
  | "has_status", _ => return .bool false
  | "show_choice", _ => return .int 0
  | "call_function", fn :: _ => World.unknown (← text fn)
  | _, _ => return .null

/-- A call on the world. Commands look first whether there is one. -/
def ask (L : Linker) (name : String) (args : List Value) : Run Value := do
  let s ← get
  if s.hosts.stage == .absent then throw (.defect .noHost)
  noteStage name (args.map fun v => .value (s.heap.tree v))
  if s.hosts.stage == .bare then askBare name args else World.perform L name args

def direct (L : Linker) (name : String) (args : List Value) : Run Unit := do
  let _ ← ask L name args

def property (L : Linker) (entity prop : String) : Run Value := do
  if (← get).hosts.stage == .absent then return .null
  ask L "get_property" [.text entity, .text prop]

def askStore (name : String) (args : List Value) : Run Value := do
  match (← get).hosts.storeHost with
  | .absent => return .null
  | .bare => throw (.defect .notProvided)
  | .separate => World.keep .separate name args
  | .world =>
    let h := (← get).heap
    noteStage name (args.map fun v => .value (h.tree v))
    World.keep .main name args

end Parlance.Run
