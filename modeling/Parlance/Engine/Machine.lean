import Parlance.Engine.Text

/-!
# Commands on the Machine

Files, the environment, the clock and other programs. What goes wrong with a
file is noted and the script goes on; only a command of the shell without a
variable for its result fails.
-/

namespace Parlance
namespace Run

def machine : Run Hosts := do
  let h := (← get).hosts
  if h.machine == .here then return h else throw (.defect .notProvided)

def files : Run Files := return (← machine).files

def setFiles (f : Files) : Run Unit := modifyHosts fun h => { h with files := f }

def checkPath (path : String) : Run Unit :=
  if path.toList.contains '\x00' then throw (.defect .badValue) else pure ()

def fileFail {α : Type} (op path : String) (fault : FileFault) : Run α :=
  hostFail ("cannot " ++ op ++ " '" ++ path ++ "': " ++ fault.message)

def readBytes (path : String) : Run ByteArray := do
  let f ← files
  checkPath path
  match f.read path with
  | .ok bytes => return bytes
  | .error fault => fileFail "read file" path fault

/-- Bytes as a text, with every line end as a single line feed. -/
def decode (bytes : ByteArray) : Run String :=
  match decodeText bytes with
  | some s => pure (String.ofList (unifyLines s.toList))
  | none => throw (.defect .notText)

def readText (path : String) : Run String := do decode (← readBytes path)

def changeFiles (op path : String) (change : Files → Except FileFault Files) : Run Unit := do
  let f ← files
  checkPath path
  match change f with
  | .ok f => setFiles f
  | .error fault => fileFail op path fault

def writeText (path contents : String) (append : Bool) : Run Unit :=
  changeFiles "write file" path fun f =>
    if append then f.append path (contents ++ "\n").toUTF8 else f.write path contents.toUTF8

def createFolder (path : String) : Run Unit := do
  let f ← files
  checkPath path
  let (f, fault) := f.makeFolder path
  setFiles f
  match fault with
  | none => pure ()
  | some fault => fileFail "create folder" path fault

def listFolder (path : String) : Run (List String) := do
  let f ← files
  checkPath path
  match f.list path with
  | .ok names => return names
  | .error fault => fileFail "list" path fault

def fileIsThere (path : String) : Run Bool := do
  let f ← files
  if path.toList.contains '\x00' then return false
  match f.isThere path with
  | .ok b => return b
  | .error _ => throw (.defect .fileSystem)

def orWarn (act : Run Unit) (otherwise : Run Unit) : Run Unit := do
  match ← attempt act with
  | .ok _ => pure ()
  | .error f =>
    if f.kind == .host then
      otherwise
      warn f.message
    else throw (.failure f)

def execute (command : String) : Run (Except (String × Int) String) := do
  let h ← machine
  log .debug .platform ("execute: " ++ command)
  checkPath command
  let result := h.shell h.files h.environment command
  setFiles result.files
  let out ← decode result.out
  let err ← decode result.err
  if result.status == 0 then return .ok (Text.trim out)
  let message := Text.trim err
  return .error (if message.isEmpty then "Command failed: " ++ command else message,
    result.status)

def shellCommand (command : Value) (out : Option String) (keepStatus : Bool) : Run Unit := do
  if !(← hasMachine "run command") then setOut out .null
  else match ← execute (← text command) with
    | .ok printed => setOut out (.text printed)
    | .error (message, status) =>
      let fallback ← if keepStatus then
          newObject (.ofList [("error", .text message), ("code", .int status)])
        else pure (.text message)
      hostFailure (.make .host message none) out fallback

/-- What the clock shows. There is no clock here, so it stands still at the
    start of its count. -/
def clock : ClockReading → Value
  | .time => .text "00:00:00"
  | .date => .text "1970-01-01"
  | .timestamp => .int 0

end Run

open Run

def SystemCommand.exec (L : Linker) : SystemCommand → Run Unit
  | .readFile path out => do
    if !(← hasMachine "read file") then setOut out .null
    else orWarn (do setOut out (.text (← readText (← evalText L path)))) (setOut out .null)
  | .writeFile path contents append => do
    if ← hasMachine "write file" then
      orWarn (do
        let p ← evalText L path
        writeText p (← evalText L contents) append) (pure ())
  | .deleteFile path => do
    if ← hasMachine "delete file" then
      orWarn (do
        let p ← evalText L path
        changeFiles "delete file" p fun f => f.delete p) (pure ())
  | .listFiles path out => do
    if !(← hasMachine "list files") then setVar out (← newList [])
    else orWarn (do
      let names ← listFolder (← evalText L path)
      setVar out (← newList (names.map .text))) (do setVar out (← newList []))
  | .fileExists path out => do
    if ← hasMachine "check file" then
      setVar out (.bool (← fileIsThere (← evalText L path)))
    else setVar out (.bool false)
  | .createFolder path => do
    if ← hasMachine "create folder" then
      orWarn (do Run.createFolder (← evalText L path)) (pure ())
  | .getVariable key out => do
    if ← hasMachine "read environment" then
      let k ← evalText L key
      let h ← machine
      setVar out (.ofOption .text (h.environment.get? k))
    else setVar out .null
  | .getClock reading out => setVar out (clock reading)
  | .exit e => do
    let code ← int (← eval L e) 0
    if ← hasMachine "exit" then
      Run.log .debug .runtime ("exit " ++ (← text (.int code)))
      let _ ← machine
      throw (.exit code)
  | .run e out => do shellCommand (← eval L e) out false
  | .shell _ e out => do shellCommand (← eval L e) out true

end Parlance
