import Parlance.CommandLine

/-!
# The Program

The files below the working folder and the environment are read, the command
line runs on them, and what it has printed and changed is written back. All
decisions are those of `CommandLine.run`.
-/

namespace Parlance
namespace CommandLine

partial def loadEntries (entries : Array IO.FS.DirEntry) : IO Node := do
  let mut nodes : Array (String × Node) := #[]
  for e in entries do
    let node ← if ← e.path.isDir then loadEntries (← e.path.readDir)
      else do pure (Node.file (← IO.FS.readBinFile e.path))
    nodes := nodes.push (e.fileName, node)
  return .folder nodes.toList

def loadFiles : IO Files := do
  let here ← IO.currentDir
  let folder := Path.parts here.toString
  let node ← loadEntries (← here.readDir)
  return ⟨folder.foldr (fun name n => .folder [(name, n)]) node, folder⟩

def loadEnvironment : IO (Dict String) := do
  let bytes ← IO.FS.readBinFile "/proc/self/environ"
  let entries := ((decodeText bytes).getD "").splitOn "\x00"
  return .ofList (entries.filterMap fun e => match Text.cut e '=' with
    | (name, some value) => some (name, value)
    | (_, none) => none)

def saveFiles (before after : Files) : IO Unit := do
  let old := before.listing
  let new := after.listing
  for (path, contents) in new do
    match contents, old.lookup path with
    | none, none => IO.FS.createDirAll path
    | some bytes, some (some same) => if bytes != same then IO.FS.writeBinFile path bytes
    | some bytes, _ => IO.FS.writeBinFile path bytes
    | none, some _ => pure ()
  for (path, contents) in old do
    if contents.isSome && (new.lookup path).isNone then IO.FS.removeFile path

def perform (args : List String) : IO UInt32 := do
  let files ← loadFiles
  match run files (← loadEnvironment) args with
  | .error _ =>
    (← IO.getStderr).putStrLn "error: the script cannot be run"
    return 1
  | .ok e =>
    saveFiles files e.files
    (← IO.getStdout).putStr e.out
    (← IO.getStderr).putStr e.err
    return (e.code % 256).toNat.toUInt32

end CommandLine
end Parlance

def main (args : List String) : IO UInt32 := Parlance.CommandLine.perform args
