import Parlance.Engine.Playthrough

/-!
# The Command Line

Read from the left, the arguments fall into groups, an option with its value or
a word alone, and the first group that is wrong, or that asks for help, decides.
An option with a value may be given again; the last one counts.
-/

namespace Parlance

structure Arguments where
  file : String
  event : String := "starts:game"
  parseOnly : Bool := false
  whileLimit : Option Int := none
  database : Option String := none
  verbose : Bool := false

inductive Refusal where
  | help
  | version
  | missingValue (option : String)
  | notWhole (value : String)
  | notPositive
  | unknownFlag (flag : String)
  | extraFile (file : String)
  | noFile
deriving DecidableEq

namespace Arguments

/-- The options that take a value. -/
inductive Valued where
  | event
  | whileLimit
  | database
deriving DecidableEq

def Valued.word : Valued → String
  | .event => "--event"
  | .whileLimit => "--while-limit"
  | .database => "--db"

def valued? (word : String) : Option Valued :=
  [.event, .whileLimit, .database].find? (·.word == word)

/-- An option with the value behind it, or a word alone. -/
inductive Group where
  | pair (option : Valued) (value : String)
  | lone (word : String)
deriving DecidableEq

def groups : List String → List Group
  | [] => []
  | [word] => [.lone word]
  | word :: next :: rest => match valued? word with
    | some option => .pair option next :: groups rest
    | none => .lone word :: groups (next :: rest)

/-- Takes a group, and tells whether a file has been named by now. -/
def take (a : Arguments) (named : Bool) : Group → Except Refusal (Arguments × Bool)
  | .pair .event value => .ok ({ a with event := value }, named)
  | .pair .database value => .ok ({ a with database := some value }, named)
  | .pair .whileLimit value => match Numeral.int? value with
    | none => .error (.notWhole value)
    | some n => if n ≤ 0 then .error .notPositive else .ok ({ a with whileLimit := some n }, named)
  | .lone word =>
    if word == "--help" || word == "-h" then .error .help
    else if word == "--version" then .error .version
    else if word == "--parse" then .ok ({ a with parseOnly := true }, named)
    else if word == "--verbose" || word == "-v" then .ok ({ a with verbose := true }, named)
    else if (valued? word).isSome then .error (.missingValue word)
    else if Text.startsWith word "-" then .error (.unknownFlag word)
    else if named then .error (.extraFile word)
    else .ok ({ a with file := word }, true)

def takeAll (a : Arguments) (named : Bool) : List Group → Except Refusal Arguments
  | [] => if named then .ok a else .error .noFile
  | g :: gs => do
    let (a, named) ← a.take named g
    takeAll a named gs

def parse (args : List String) : Except Refusal Arguments :=
  takeAll { file := "" } false (groups args)

end Arguments

structure Exit where
  code : Int
  out : String := ""
  err : String := ""
  files : Files

namespace CommandLine

def usage : String := String.join ([
  "hyperian [OPTIONS] FILE",
  "",
  "Options:",
  "  --event KEY         Event to trigger after the top level runs (default starts:game)",
  "  --parse             Print the parsed program as JSON and exit",
  "  --while-limit N     Stop while loops after N iterations",
  "  --db PATH           SQLite database file for query/insert/select",
  "  --verbose           Log debug output to stderr",
  "  --version           Show the version and exit",
  "  --help              Show this help message"].map (· ++ "\n"))

def errorLine (message : String) : String := "error: " ++ message ++ "\n"

def refuse (files : Files) : Refusal → Exit
  | .help => { code := 0, out := usage, files }
  | .version => { code := 0, out := "hyperian 0.1.0\n", files }
  | .missingValue option => usageError (option ++ " requires an argument")
  | .notWhole value => usageError ("--while-limit expects an integer, got '" ++ value ++ "'")
  | .notPositive => usageError "--while-limit must be positive"
  | .unknownFlag flag => usageError ("unknown flag '" ++ flag ++ "'")
  | .extraFile file => usageError ("unexpected argument '" ++ file ++ "'")
  | .noFile => usageError "no input file"
where
  usageError (message : String) : Exit := { code := 2, err := errorLine message, files }

def isShown (verbose : Bool) (e : LogEntry) : Bool :=
  verbose || e.level == .warning || e.level == .error

def logText (verbose : Bool) (log : List LogEntry) : String :=
  String.join ((log.filter (isShown verbose)).map fun e => "hyperian: " ++ e.message ++ "\n")

def scriptBytes? (files : Files) (path : String) : Option ByteArray :=
  if path.isEmpty || Text.endsWith path "/" then none else (files.read path).toOption

/-- The settings of a run. Modules are looked for beside the script. -/
def options (files : Files) (environment : Dict String) (a : Arguments) :
    Except OptionFault Options := do
  let o ← Options.ofEnvironment environment.get?
  return { o with
    whileLimit := a.whileLimit.getD o.whileLimit
    databasePath := a.database.getD o.databasePath
    moduleFolder := some (Path.folder (Path.normal (Path.append files.folderPath a.file))) }

def printOutline (files : Files) (source : String) : Except Signal Exit :=
  let reading := Program.ofSource source
  match reading.program with
  | .error d => .error (.defect d)
  | .ok p => .ok {
      code := 0
      out := p.outline.indented ++ "\n"
      err := logText false (reading.faults.map fun f => ⟨.warning, .parse, f.text⟩)
      files }

def runScript (files : Files) (environment : Dict String) (source : String) (a : Arguments)
    (o : Options) : Except Signal Exit := do
  let hosts : Hosts := {
    network := .offline
    database := .canned []
    files
    environment
    tileSize := o.tileSize
    echo := true }
  let p ← Playthrough.ofSource { options := o, hosts } source (some a.event)
  return {
    code := p.exitCode
    out := String.join (p.session.hosts.printed.toList.map (· ++ "\n"))
    err := logText a.verbose p.session.log.toList
    files := p.session.hosts.files }

def run (files : Files) (environment : Dict String) (args : List String) : Except Signal Exit :=
  match Arguments.parse args with
  | .error r => .ok (refuse files r)
  | .ok a => match scriptBytes? files a.file with
    | none => .ok { code := 1, err := errorLine ("cannot open '" ++ a.file ++ "'"), files }
    | some bytes => match decodeText bytes with
      | none => .ok { code := 1, err := errorLine ("invalid utf-8 in '" ++ a.file ++ "'"), files }
      | some source =>
        if a.parseOnly then printOutline files source
        else match options files environment a with
          | .error f => .ok { code := 2, err := errorLine f.message, files }
          | .ok o => runScript files environment source a o

end CommandLine
end Parlance
