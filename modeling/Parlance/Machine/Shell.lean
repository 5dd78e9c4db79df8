import Parlance.Machine.Shell.Program
import Parlance.Machine.Shell.Reader

/-!
# The Shell

Running shell commands on the files of a machine. Words are expanded, streams
are redirected from left to right, and then the program of the first word runs.
The commands of a pipeline run one after the other, each on what the one before
has written.
-/

namespace Parlance

structure ShellResult where
  files : Files
  status : Int
  out : ByteArray
  err : ByteArray

namespace Shell

def isSeparator (c : Char) : Bool := c == ' ' || c == '\t' || c == '\n'

structure Fields where
  done : List String := []
  current : Option String := none

namespace Fields

def close (f : Fields) : Fields := ⟨f.done ++ f.current.toList, none⟩

def add (f : Fields) (s : String) : Fields := { f with current := some (f.current.getD "" ++ s) }

def addSplit (f : Fields) (cs : List Char) : Fields :=
  cs.foldl (fun f c => if isSeparator c then f.close else f.add c.toString) f

end Fields

def expandPart (st : State) : Part → String × Bool
  | .text s _ => (s, true)
  | .value name fallback quoted =>
    let value := (st.bindings.get? name).getD ""
    (if value.isEmpty then fallback else value, quoted)
  | .status quoted => (toString st.status, quoted)

def fields (st : State) (w : Word) : List String :=
  (w.foldl (fun (f : Fields) part =>
    let (s, whole) := expandPart st part
    if whole then f.add s else f.addSplit s.toList) {}).close.done

def expand (st : State) (w : Word) : String := String.join (w.map fun p => (expandPart st p).1)

def assignment? (st : State) (w : Word) : Option (String × String) :=
  let isPlain : Part → Bool
    | .text _ quoted => !quoted
    | _ => false
  let name := (w.takeWhile isPlain).flatMap fun p => (expandPart st p).1.toList
  let before := name.takeWhile (· != '=')
  match before, name.contains '=' with
  | c :: rest, true =>
    if (c.isAlpha || c == '_') && rest.all isNameChar then
      some (String.ofList before, String.ofList ((expand st w).toList.drop (before.length + 1)))
    else none
  | _, _ => none

def openOutput (s : Streams) (stream : Nat) (path : String) (append : Bool) :
    Work (Option Streams) := do
  if path == "/dev/null" then return some (s.lead stream .nowhere)
  let st ← get
  let opened := do
    let place ← st.files.target path
    return (place, ← st.files.store place ByteArray.empty append)
  match opened with
  | .ok (place, files) =>
    set { st with files }
    return some (s.lead stream (.file place))
  | .error fault =>
    let why := match fault with
      | .missing | .notFolder => "Directory nonexistent"
      | fault => fault.message
    s.report ("cannot create " ++ path ++ ": " ++ why)
    return none

def applyRedirect (s : Streams) : Redirect → Work (Option Streams)
  | .input _ w => do
    let st ← get
    let path := expand st w
    if path == "/dev/null" then return some { s with input := ByteArray.empty }
    match st.files.read path with
    | .ok input => return some { s with input }
    | .error fault =>
      let why := match fault with
        | .missing => "No such file"
        | fault => fault.message
      s.report ("cannot open " ++ path ++ ": " ++ why)
      return none
  | .output stream w append => do openOutput s stream (expand (← get) w) append
  | .duplicate stream w => do
    let other := expand (← get) w
    if other == "-" then
      return some { s with sinks := s.sinks.filter (·.1 != stream) }
    let known := if other.toList.all Char.isDigit
      then s.sinks.lookup (Numeral.natOf other.toList) else none
    match known with
    | some sink => return some (s.lead stream sink)
    | none =>
      s.report (other ++ ": Bad file descriptor")
      return none

def applyRedirects (s : Streams) : List Redirect → Work (Option Streams)
  | [] => return some s
  | r :: rest => do
    match ← applyRedirect s r with
    | some s => applyRedirects s rest
    | none => return none

def runProgram (name : String) (args : List String) (s : Streams) : Work Nat := do
  match program? name with
  | some program => program args s
  | none =>
    if name.toList.contains '/' && ((← get).files.node name).toOption.isSome then
      s.report (name ++ ": Permission denied")
      return 126
    s.report (name ++ ": not found")
    return 127

/-- Runs a command. Assignments before its name hold while it runs, and stay
    when there is no name. -/
def runCommand (c : Command) (s : Streams) : Work Nat := do
  let st ← get
  let assignments := (c.words.map (assignment? st)).takeWhile Option.isSome
  let args := (c.words.drop assignments.length).flatMap (fields st)
  match ← applyRedirects s c.redirects with
  | none => return 2
  | some s =>
    let bindings := (← get).bindings
    let assigned := assignments.reduceOption.foldl (fun d a => d.insert a.1 a.2) bindings
    modify fun st => { st with bindings := assigned }
    match args with
    | [] => return 0
    | name :: args =>
      let status ← runProgram name args s
      if !assignments.isEmpty then modify fun st => { st with bindings }
      return status

/-- Runs the commands of a pipeline on what is read. All but a command on its
    own run apart: the shell keeps its variables and its folder. -/
def runCommands (input : ByteArray) : List Command → Work Nat
  | [] => return 0
  | [c] => runCommand c { input }
  | c :: rest => do
    let _ ← runCommand c { input, sinks := [(1, .pipe), (2, .err)] }
    let written := (← get).pipe
    modify fun st => { st with pipe := ByteArray.empty, finished := false }
    runCommands written rest

def runPipeline (p : Pipeline) : Work Unit := do
  let before ← get
  let status ← runCommands ByteArray.empty p.commands
  let status := if p.negated then (if status == 0 then 1 else 0) else status
  modify fun st =>
    if p.commands.length > 1 then
      { st with status, bindings := before.bindings, finished := before.finished
                files := { st.files with folder := before.files.folder } }
    else { st with status }

def Condition.holds (status : Nat) : Condition → Bool
  | .always => true
  | .afterSuccess => status == 0
  | .afterFailure => status != 0

def runScript : Script → Work Unit
  | [] => pure ()
  | (condition, p) :: rest => do
    let st ← get
    if !st.finished then
      if condition.holds st.status then runPipeline p
      runScript rest

def runLines : Nat → List Token → Work Unit
  | 0, _ | _, [] => pure ()
  | fuel + 1, ts => do
    match readLine ts with
    | .error fault =>
      Streams.report {} fault.message
      modify fun st => { st with status := 2 }
    | .ok (script, rest) =>
      runScript script
      if !(← get).finished then
        modify fun st => { st with line := st.line + 1 }
        runLines fuel rest

/-- What a command leaves behind. The working folder is the same after it, and
    the first argument of the shell is its own path. -/
def run (files : Files) (environment : Dict String) (command : String) : ShellResult :=
  let ts := tokens command
  let bindings := environment.insert "0" "/bin/sh"
  let st := ((runLines (ts.length + 1) ts).run { files, bindings }).2
  ⟨{ st.files with folder := files.folder }, st.status, st.out, st.err⟩

end Shell
end Parlance
