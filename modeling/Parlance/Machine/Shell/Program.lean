import Parlance.Machine.Shell.Printf
import Parlance.Machine.Shell.State

/-!
# Programs of the Shell

The commands that a shell knows: printing, files and folders, tests, variables
and the end. A program works on its arguments and gives a status, which is zero
for success.
-/

namespace Parlance.Shell

abbrev Program := List String → Streams → Work Nat

def constantly (status : Nat) : Program := fun _ _ => return status

/-- Runs a program on each of its arguments; one failure is enough to fail. -/
def onEach (act : String → Streams → Work Bool) : Program := fun args s =>
  args.foldlM (fun status arg => return if ← act arg s then status else 1) 0

def changing (change : Files → Except FileFault Files) (wrong : String) (s : Streams) :
    Work Bool := do
  let st ← get
  match change st.files with
  | .ok files =>
    set { st with files }
    return true
  | .error fault =>
    s.complain (wrong ++ ": " ++ fault.message)
    return false

def options (args : List String) : List Char × List String :=
  let isOption (a : String) : Bool := a.length > 1 && a.toList.head? == some '-'
  ((args.filter isOption).flatMap fun a => a.toList.drop 1, args.filter (!isOption ·))

def cat : Program := fun args s => do
  if args.isEmpty then
    s.put 1 s.input
    return 0
  onEach (fun path s => do
    if path == "-" then
      s.put 1 s.input
      return true
    if path == "/dev/null" then return true
    match (← get).files.read path with
    | .ok bytes =>
      s.put 1 bytes
      return true
    | .error fault =>
      s.complain ("cat: " ++ path ++ ": " ++ fault.message)
      return false) args s

def ls : Program := fun args s => do
  let (letters, paths) := options args
  let several := paths.length > 1
  let paths := if paths.isEmpty then ["."] else paths
  paths.foldlM (fun status path => do
    let files := (← get).files
    match files.node path, files.list path with
    | .ok (.folder _), .ok names =>
      let shown := if letters.contains 'a' then "." :: ".." :: names
        else names.filter fun n => n.toList.head? != some '.'
      s.lines ((if several then [path ++ ":"] else []) ++ shown)
      return status
    | .ok (.file _), _ =>
      s.lines [path]
      return status
    | .error fault, _ | _, .error fault =>
      s.complain ("ls: cannot access '" ++ path ++ "': " ++ fault.message)
      return 2) 0

def mkdir : Program := fun args s =>
  let (letters, paths) := options args
  onEach (fun path => changing (fun files =>
    if letters.contains 'p' then match files.makeFolder path with
      | (files, none) => .ok files
      | (_, some fault) => .error fault
    else do
      let place ← files.target path
      if (files.root.at? place).isSome then throw .alreadyThere
      return files.put place (some (.folder [])))
    ("mkdir: cannot create directory ‘" ++ path ++ "’")) paths s

def rm : Program := fun args s =>
  let (letters, paths) := options args
  let deep := letters.contains 'r' || letters.contains 'R'
  onEach (fun path => changing (fun files =>
    match files.locate path with
    | .ok place =>
      if deep then .ok (files.put place none) else files.delete path
    | .error fault => if letters.contains 'f' then .ok files else .error fault)
    ("rm: cannot remove '" ++ path ++ "'")) paths s

def touch : Program :=
  onEach fun path => changing (fun files => do
    let place ← files.target path
    if (files.root.at? place).isSome then return files
    files.store place ByteArray.empty true) ("touch: cannot touch '" ++ path ++ "'")

def cd : Program := fun args s => do
  let st ← get
  let path := args.headD ((st.bindings.get? "HOME").getD "")
  let found := do
    let place ← st.files.locate path
    match st.files.root.at? place with
    | some (.folder _) => return place
    | _ => throw FileFault.notFolder
  match found with
  | .ok folder =>
    set { st with files := { st.files with folder } }
    return 0
  | .error _ =>
    s.report ("cd: can't cd to " ++ path)
    return 2

def printfProgram : Program := fun args s => do
  match args with
  | [] =>
    s.report "printf: usage: printf format [arg ...]"
    return 2
  | format :: args =>
    let p := printf format args
    s.put 1 ⟨p.bytes.toArray⟩
    p.faults.forM fun f => s.report ("printf: " ++ f.message)
    let isBad : PrintFault → Bool
      | .badDirective _ => true
      | _ => false
    return if p.faults.any isBad then 2 else if p.faults.isEmpty then 0 else 1

def exit : Program := fun args s => do
  modify fun st => { st with finished := true }
  match args with
  | [] => return (← get).status
  | arg :: _ =>
    if !arg.isEmpty && arg.toList.all Char.isDigit then
      return Numeral.natOf arg.toList % 256
    s.report ("exit: Illegal number: " ++ arg)
    return 2

def setVariables : Program := fun args _ => do
  args.forM fun arg =>
    let name := arg.toList.takeWhile (· != '=')
    match arg.toList.dropWhile (· != '=') with
    | [] => pure ()
    | _ :: value => modify fun st =>
      { st with bindings := st.bindings.insert (String.ofList name) (String.ofList value) }
  return 0

def unsetVariables : Program := fun args _ => do
  args.forM fun name => modify fun st => { st with bindings := st.bindings.erase name }
  return 0

def compareNumbers? (a b : Int) : String → Option Bool
  | "-eq" => some (a == b)
  | "-ne" => some (a != b)
  | "-lt" => some (a < b)
  | "-le" => some (a ≤ b)
  | "-gt" => some (b < a)
  | "-ge" => some (b ≤ a)
  | _ => none

def evalTest (files : Files) : List String → Option Bool
  | [] => some false
  | "!" :: rest => (evalTest files rest).map (!·)
  | [a] => some !a.isEmpty
  | [op, a] =>
    let node := (files.node a).toOption
    match op with
    | "-n" => some !a.isEmpty
    | "-z" => some a.isEmpty
    | "-e" => some node.isSome
    | "-f" => some (node.any (!·.isFolder))
    | "-d" => some (node.any (·.isFolder))
    | _ => none
  | [a, "=", b] => some (a == b)
  | [a, "!=", b] => some (a != b)
  | [a, op, b] => do compareNumbers? (← Numeral.int? a) (← Numeral.int? b) op
  | _ => none

def test : Program := fun args s => do
  match evalTest (← get).files args with
  | some true => return 0
  | some false => return 1
  | none =>
    s.report ("test: " ++ args.headD "" ++ ": unexpected operator")
    return 2

def program? : String → Option Program
  | "echo" => some fun args s => do
    s.put 1 ⟨(echo args).toArray⟩
    return 0
  | "printf" => some printfProgram
  | "true" | ":" | "sleep" => some (constantly 0)
  | "false" => some (constantly 1)
  | "exit" => some exit
  | "cat" => some cat
  | "ls" => some ls
  | "mkdir" => some mkdir
  | "rm" => some rm
  | "touch" => some touch
  | "cd" => some cd
  | "pwd" => some fun _ s => do
    s.lines ["/" ++ "/".intercalate (← get).files.folder]
    return 0
  | "test" => some test
  | "[" => some fun args s => test args.dropLast s
  | "export" => some setVariables
  | "unset" => some unsetVariables
  | _ => none

end Parlance.Shell
