import Parlance.Text.Pieces

/-!
# Paths

Paths are texts with slashes. The functions here look at the text only, never
at the files behind it.
-/

namespace Parlance.Path

def isAbsolute (path : String) : Bool := Text.startsWith path "/"

/-- One path continued by another. A path from the root replaces all before
    it. -/
def append (path next : String) : String :=
  if isAbsolute next then next
  else if path.isEmpty || Text.endsWith path "/" then path ++ next
  else path ++ "/" ++ next

def join : List String → String
  | [] => ""
  | first :: rest => rest.foldl append first

/-- The root that a path starts at. Exactly two slashes are kept. -/
def root (path : String) : String :=
  if !isAbsolute path then ""
  else if Text.startsWith path "//" && !Text.startsWith path "///" then "//"
  else "/"

/-- One step of simplification: `kept` holds the steps so far, the last one
    first. A step up takes the last step away, unless there is none or it is a
    step up itself. -/
def simplify (rooted : Bool) (kept : List String) (step : String) : List String :=
  if step == "" || step == "." then kept
  else if step != ".." then step :: kept
  else match kept with
    | [] => if rooted then [] else [".."]
    | last :: rest => if last == ".." then ".." :: kept else rest

def normal (path : String) : String :=
  let r := root path
  let steps := (Text.split path "/").foldl (simplify (r != "")) []
  let text := r ++ "/".intercalate steps.reverse
  if text.isEmpty then "." else text

def lastPart (path : String) : String :=
  String.ofList (path.toList.reverse.takeWhile (· != '/')).reverse

/-- What stands before the last slash, without slashes at its end unless it is
    all slashes. -/
def folder (path : String) : String :=
  let head := String.ofList (path.toList.reverse.dropWhile (· != '/')).reverse
  let trimmed := Text.dropTail '/' head
  if trimmed.isEmpty then head else trimmed

/-- The last part of a path from its last point on. Points at the start of the
    part do not count. -/
def extension (path : String) : String :=
  let back := (lastPart path).toList.reverse
  let tail := back.takeWhile (· != '.')
  let before := back.drop (tail.length + 1)
  if tail.length == back.length || before.all (· == '.') then ""
  else String.ofList ('.' :: tail.reverse)

/-- A text without a suffix that is not all of it. The empty suffix stands for
    the whole text. -/
def dropSuffix (part suffix : String) : String :=
  if !Text.endsWith part suffix || part == suffix then part
  else if suffix.isEmpty then ""
  else String.ofList (part.toList.take (part.length - suffix.length))

/-- The last part of a path, without slashes at the end of the path and without
    a suffix. -/
def basename (path : String) (suffix : Option String) : String :=
  let part := lastPart (Text.dropTail '/' path)
  match suffix with
  | none => part
  | some s => dropSuffix part s

def dirname (path : String) : String :=
  let f := folder (Text.dropTail '/' path)
  if f.isEmpty then "." else f

/-- The steps of a path. Empty steps and steps to the same place do not count. -/
def parts (path : String) : List String :=
  (Text.split path "/").filter fun p => p != "" && p != "."

/-- The name that a path ends in. A step up is no name. -/
def name? (path : String) : Option String := (parts path).getLast?.filter (· != "..")

/-- Whether a slash at the end of a path asks for a folder, also with a point
    after it. -/
def asksForFolder (path : String) : Bool := Text.endsWith path "/" || Text.endsWith path "/."

/-- A path in the form in which it is shown: without empty steps and steps to
    the same place. -/
def tidy (path : String) : String :=
  let text := root path ++ "/".intercalate (parts path)
  if text.isEmpty then "." else text

end Parlance.Path
