import Parlance.Engine.Machine

/-!
# Modules

A module is a script of its own. Importing it runs its statements outside of
rules; its rules are not taken over. What it defined is found by comparing the
variables and functions before and after.
-/

namespace Parlance

structure Module where
  vars : Dict Value
  functions : Dict Function

namespace Module

/-- The variables that are new or have another value. Values are compared, not their places in
    memory, so a variable that was set again to an equal number or text counts as untouched. -/
def newVars (before after : Dict Value) : Dict Value :=
  after.filter fun k v => before.get? k != some v

def newFunctions (before after : Dict Function) : Dict Function :=
  after.filter fun k f => (before.get? k).map Function.stamp != some f.stamp

/-- The part of a module that it exports. A module without exports hides
    nothing. -/
def visible (m : Module) (exports : List String) : Module :=
  if exports.isEmpty then m
  else ⟨m.vars.filter fun k _ => exports.contains k,
    m.functions.filter fun k _ => exports.contains k⟩

def fileName (name : String) : String :=
  if Text.endsWith name ".hl" || Text.endsWith name ".es" then name else name ++ ".hl"

end Module

def Files.folderPath (f : Files) : String := "/" ++ "/".intercalate f.folder

namespace Session

def enterModule (s : Session) (file : String) (isolated : Bool) : Session :=
  { s with
    exports := some []
    importing := file :: s.importing
    snapshots := if isolated then s.bag :: s.snapshots else s.snapshots }

def exitModule (before : Session) (file : String) (isolated : Bool) (s : Session) : Session :=
  let s := { s with
    exports := before.exports
    importing := s.importing.filter fun f => f != file }
  if isolated then match s.snapshots with
    | [] => s
    | saved :: rest => { s with bag := saved, snapshots := rest }
  else s

end Session

namespace Run

def moduleBytes (f : Files) (path : String) : Run (Option ByteArray) :=
  if path.toList.contains '\x00' then pure none
  else match f.file? path with
    | .ok found => pure found
    | .error _ => throw (.defect .fileSystem)

def moduleText (file : String) : Run (Option String) := do
  let h ← machine
  let folder := (← get).options.moduleFolder.getD h.files.folderPath
  let path := Path.tidy (Path.append folder (Module.fileName file))
  match ← moduleBytes h.files path with
  | some bytes => return some (← decode bytes)
  | none =>
    log .debug .platform ("module not found: " ++ path)
    return none

def noteFaults (faults : List Fault) : Run Unit := do
  for f in faults do
    log .warning .parse f.text

def loadModule (file : String) : Run (Option Program) := do
  if !(← hasMachine ("import " ++ file)) then return none
  match ← moduleText file with
  | none =>
    warn ("module not found: " ++ file)
    return none
  | some source =>
    let reading := Program.ofSource source
    noteFaults reading.faults
    let program ← lift reading.program
    modify fun s => { s with
      diagnostics := s.diagnostics ++ (reading.faults.map Fault.diagnostic).toArray }
    return some program

/-- Runs the statements of a module, and gives the variables that it set and the
    names that it exports. -/
def moduleBody (L : Linker) (program : Program) (before : Session) :
    Run (Dict Value × List String) := do
  let _ ← L.block program.main
  let s ← get
  return (Module.newVars before.bag s.bag, s.exports.getD [])

def runModule (L : Linker) (program : Program) (file : String) (isolated : Bool) : Run Module := do
  let before ← get
  modify fun s => s.enterModule file isolated
  let (vars, exports) ← ensure (moduleBody L program before)
    (Session.exitModule before file isolated)
  let functions := Module.newFunctions before.functions (← get).functions
  return (Module.mk vars functions).visible exports

def importModule (L : Linker) (file : String) (isolated : Bool) : Run (Option Module) := do
  if (← get).importing.contains file then
    warn ("circular import of " ++ file)
    return none
  match ← loadModule file with
  | none => return none
  | some program =>
    log .debug .runtime ("import " ++ file)
    return some (← runModule L program file isolated)

def importAs (L : Linker) (file : String) (nickname : Option String) : Run Unit := do
  match ← importModule L file nickname.isSome, nickname with
  | some m, some name =>
    modify fun s => { s with modules := s.modules.insert name m.functions }
    setVar name (← newObject m.vars)
  | _, _ => pure ()

def takeNames (m : Module) (file : String) : List String → Run Unit
  | [] => pure ()
  | name :: rest => do
    match m.vars.get? name with
    | some v => setVar name v
    | none =>
      if !m.functions.contains name then
        warn ("module " ++ file ++ " has no name '" ++ name ++ "'")
    takeNames m file rest

def importNames (L : Linker) (names : List String) (file : String) : Run Unit := do
  match ← importModule L file true with
  | none => pure ()
  | some m => takeNames m file names

def exportName (name : String) : Run Unit :=
  modify fun s => { s with exports := s.exports.map fun names => names ++ [name] }

end Run
end Parlance
