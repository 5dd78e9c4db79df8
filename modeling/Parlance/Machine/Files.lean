import Parlance.Machine.Path

/-!
# Files

The files and folders of a machine as a tree, and the working folder in it.
Every operation walks down from the root, or from the working folder when the
path is relative, and may fail on the way.
-/

namespace Parlance

inductive FileFault where
  | missing
  | isFolder
  | notFolder
  | alreadyThere
  | nameTooLong
deriving DecidableEq

def FileFault.message : FileFault → String
  | .missing => "No such file or directory"
  | .isFolder => "Is a directory"
  | .notFolder => "Not a directory"
  | .alreadyThere => "File exists"
  | .nameTooLong => "File name too long"

inductive Node where
  | file (contents : ByteArray)
  | folder (entries : List (String × Node))

namespace Node

instance : Inhabited Node := ⟨.folder []⟩

def isFolder : Node → Bool
  | .folder _ => true
  | .file _ => false

def child? (n : Node) (name : String) : Option Node :=
  match n with
  | .folder entries => entries.lookup name
  | .file _ => none

def at? : Node → List String → Option Node
  | n, [] => some n
  | n, name :: rest => match n.child? name with
    | none => none
    | some c => at? c rest

def setEntry (name : String) (node : Option Node) : List (String × Node) → List (String × Node)
  | [] => match node with
    | none => []
    | some n => [(name, n)]
  | (k, m) :: rest =>
    if k = name then match node with
      | none => rest
      | some n => (k, n) :: rest
    else (k, m) :: setEntry name node rest

/-- Changes the node below a folder, by its steps from there. Folders on the
    way must be there. -/
def put (node : Option Node) : List String → Node → Node
  | [], n => node.getD n
  | [name], .folder entries => .folder (setEntry name node entries)
  | name :: rest, .folder entries => match entries.lookup name with
    | none => .folder entries
    | some c => .folder (setEntry name (some (put node rest c)) entries)
  | _, n => n

/-- The paths of all nodes below a folder with the contents of the files, in
    the order of the entries. -/
def listing : Node → List (List String × Option ByteArray)
  | .file contents => [([], some contents)]
  | .folder entries => ([], none) :: below entries
where
  below : List (String × Node) → List (List String × Option ByteArray)
    | [] => []
    | (name, n) :: rest => (listing n).map (fun p => (name :: p.1, p.2)) ++ below rest

end Node

structure Files where
  root : Node
  folder : List String

namespace Files

def maxName : Nat := 255

/-- Walks along the steps of a path; `here` is the place so far. A step from a
    file fails, and so does a step to what is not there. -/
def walk (root : Node) (here : List String) : List String → Except FileFault (List String)
  | [] => .ok here
  | step :: rest =>
    match root.at? here with
    | some (.folder entries) =>
      if step == ".." then walk root here.dropLast rest
      else if step.utf8ByteSize > maxName then .error .nameTooLong
      else if (entries.lookup step).isSome then walk root (here ++ [step]) rest
      else .error .missing
    | some (.file _) => .error .notFolder
    | none => .error .missing

def base (f : Files) (path : String) : List String :=
  if Path.isAbsolute path then [] else f.folder

def locate (f : Files) (path : String) : Except FileFault (List String) :=
  walk f.root (f.base path) (Path.parts path)

def node (f : Files) (path : String) : Except FileFault Node := do
  match f.root.at? (← f.locate path) with
  | some n => return n
  | none => throw .missing

/-- The place of a name in a folder, whether or not something is there. -/
def entryPlace (f : Files) (parent : List String) (name : String) :
    Except FileFault (List String) :=
  match f.root.at? parent with
  | some (.folder _) =>
    if name.utf8ByteSize > maxName then .error .nameTooLong else .ok (parent ++ [name])
  | _ => .error .notFolder

/-- The place that a path names, whether or not something is there. Its folder
    must be there. -/
def target (f : Files) (path : String) : Except FileFault (List String) := do
  match Path.name? path with
  | none => f.locate path
  | some name => f.entryPlace (← walk f.root (f.base path) (Path.parts path).dropLast) name

def put (f : Files) (place : List String) (node : Option Node) : Files :=
  { f with root := f.root.put node place }

def read (f : Files) (path : String) : Except FileFault ByteArray := do
  match ← f.node path with
  | .file contents => return contents
  | .folder _ => throw .isFolder

def store (f : Files) (place : List String) (contents : ByteArray) (keep : Bool) :
    Except FileFault Files :=
  match f.root.at? place with
  | some (.folder _) => .error .isFolder
  | some (.file old) =>
    .ok (f.put place (some (.file (if keep then old ++ contents else contents))))
  | none => .ok (f.put place (some (.file contents)))

/-- The place of the file that a path names. A path that ends in no name stands
    for a folder. -/
def filePlace (f : Files) (path : String) : Except FileFault (List String) := do
  let place ← f.target path
  if (Path.name? path).isNone then throw .isFolder
  return place

def write (f : Files) (path : String) (contents : ByteArray) : Except FileFault Files := do
  f.store (← f.filePlace path) contents false

/-- Writes at the end of a file. The path is taken literally: it must not be
    empty, and it must not ask for a folder. -/
def append (f : Files) (path : String) (contents : ByteArray) : Except FileFault Files := do
  if path.isEmpty then throw .missing
  let place ← f.filePlace path
  if Path.asksForFolder path then
    match f.root.at? place with
    | some (.file _) => throw .notFolder
    | some (.folder _) => throw .isFolder
    | none => throw (if Text.endsWith path "/" then .isFolder else .missing)
  f.store place contents true

def delete (f : Files) (path : String) : Except FileFault Files := do
  let place ← f.locate path
  match f.root.at? place with
  | some (.file _) => return f.put place none
  | some (.folder _) => throw .isFolder
  | none => throw .missing

/-- Whether a path leads to something. A name that is too long is a fault. -/
def isThere (f : Files) (path : String) : Except FileFault Bool :=
  match f.node path with
  | .ok _ => .ok true
  | .error .nameTooLong => .error .nameTooLong
  | .error _ => .ok false

def file? (f : Files) (path : String) : Except FileFault (Option ByteArray) :=
  match f.node path with
  | .ok (.file contents) => .ok (some contents)
  | .error .nameTooLong => .error .nameTooLong
  | _ => .ok none

def list (f : Files) (path : String) : Except FileFault (List String) := do
  match ← f.node path with
  | .folder entries => return (entries.map Prod.fst).mergeSort fun a b => !(b < a)
  | .file _ => throw .notFolder

def makeSteps (f : Files) (here : List String) : List String → Files × Option FileFault
  | [] => (f, none)
  | step :: rest =>
    if step == ".." then makeSteps f here.dropLast rest
    else if step.utf8ByteSize > maxName then (f, some .nameTooLong)
    else
      let place := here ++ [step]
      match f.root.at? place with
      | some (.folder _) => makeSteps f place rest
      | some (.file _) => (f, some (if rest.isEmpty then .alreadyThere else .notFolder))
      | none => makeSteps (f.put place (some (.folder []))) place rest

/-- Makes a folder and the folders above it. The folders made before a fault
    stay. -/
def makeFolder (f : Files) (path : String) : Files × Option FileFault :=
  makeSteps f (f.base path) (Path.parts path)

def listing (f : Files) : List (String × Option ByteArray) :=
  match f.root.at? f.folder with
  | none => []
  | some n => (n.listing.filter fun e => !e.1.isEmpty).map fun e =>
      ("/".intercalate e.1 ++ (if e.2.isNone then "/" else ""), e.2)

end Files

def decodeText (bytes : ByteArray) : Option String := String.fromUTF8? bytes

def unifyLines : List Char → List Char
  | [] => []
  | '\r' :: '\n' :: rest => '\n' :: unifyLines rest
  | '\r' :: rest => '\n' :: unifyLines rest
  | c :: rest => c :: unifyLines rest

end Parlance
