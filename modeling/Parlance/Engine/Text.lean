import Parlance.Engine.Eval
import Parlance.Json.Reader
import Parlance.Pattern

/-!
# Commands on Texts
-/

namespace Parlance
namespace Run

def varText (name : String) : Run String := do itemText (← var name)

/-- A number made whole, towards zero. Infinite and undefined numbers stay. -/
def whole (n : Number) : Run Number := do
  if !(← lift n.isFinite) then return n
  return (n.truncate?.map Number.int).getD n

/-- A value turned into another type; an unknown type stands for text. -/
def convert (v : Value) (type : String) : Run Value := do
  match type, v with
  | "number", v => return .number (← number v)
  | "integer", v => return .number (← whole (← number v))
  | "boolean", v => return .bool v.toBool
  | "array", .list r => return .list r
  | "array", v => newList (← asList v)
  | _, v => return .text (← text v)

def pathPart (part : PathPart) (pieces : List String) : String :=
  let first := pieces.headD ""
  match part with
  | .join => if pieces.isEmpty then "." else Path.normal (Path.join pieces)
  | .basename => Path.basename first pieces[1]?
  | .dirname => Path.dirname first
  | .extension | .extname => Path.extension first

def repetitions (count : Number) : Run Nat := do
  if !(← lift count.isFinite) then return 0
  return match ← lift count.floor with
    | .int n => n.toNat
    | .float _ => 0

/-- A pattern that an object holds, or else the value as the text of a pattern;
    flags that are given win over those that the object holds. -/
def patternParts (v : Value) (flags : String) : Run (String × String) := do
  let given (source : Value) (held : Value) : Run (String × String) := do
    let own ← if flags.isEmpty && held.toBool && !(← get).heap.isEmpty held then text held
      else pure ""
    return (← text source, if flags.isEmpty then own else flags)
  match v with
  | .object r =>
    let d ← fields r
    match d.get? "pattern" with
    | some source => given source ((d.get? "flags").getD .null)
    | none => return (← text v, flags)
  | v => return (← text v, flags)

/-- A compiled pattern, and whether all matches are asked for. -/
def compile (v : Value) (flags : String) : Run (Pattern × Bool) := do
  let (source, letters) ← patternParts v flags
  let has (c : Char) : Bool := letters.toList.contains c
  let flags : Pattern.Flags :=
    { ignoreCase := has 'i', multiline := has 'm', dotAll := has 's' }
  match Pattern.ofText source flags with
  | .ok p => return (p, has 'g')
  | .error (.fault f place) =>
    hostFail ("invalid regular expression '" ++ source ++ "': " ++ Pattern.report source f place)
  | .error (.defect d) => throw (.defect d)

def orHostFailure {α : Type} (act : Run α) (out : Option String) (fallback : Failure → Run Value)
    (go : α → Run Unit) : Run Unit := do
  match ← attempt act with
  | .ok a => go a
  | .error f =>
    if f.kind == .host then hostFailure f out (← fallback f) else throw (.failure f)

def extracted (p : Pattern) (all : Bool) (s : String) : List Value :=
  if all then (p.findAll s).map .text
  else ((p.search s).getD []).map (Value.ofOption .text)

end Run

open Run

def TextCommand.exec (L : Linker) : TextCommand → Run Unit
  | .charAt source index out => do
    let s ← varText source
    let i ← int (← eval L index) (-1)
    setVar out (.text (((nth s.toList (.int i)).map Char.toString).getD ""))
  | .repeated e count out => do
    let n ← repetitions (← evalNumber L count)
    let s ← evalText L e
    setVar out (.text (Text.times s n))
  | .pad side e width fill out => do
    let s ← eval L e
    let f ← eval L fill
    let source ← itemText s
    let n ← int (← eval L width) 0
    let filling ← if f.isNull then pure " " else Run.text f
    setVar out (.text (match side with
      | .left => Text.padLeft source n filling
      | .right => Text.padRight source n filling))
  | .clamp source low high out => do
    let n ← number ((← var? source).getD (.int 0))
    let a ← evalNumber L low
    let b ← evalNumber L high
    setVar out (.number (← lift (n.clamp a b)))
  | .typeOf source out => do setVar out (.text (← var source).typeName)
  | .split e separator out => do
    let s ← evalText L e
    let pieces := Text.split s (← evalText L separator)
    setOut out (← newList (pieces.map .text))
  | .replace old new source out => do
    let s ← match source with
      | some name => varText name
      | none => pure ""
    let a ← evalText L old
    let b ← evalText L new
    setOut (out <|> source) (.text (Text.replace s a b))
  | .convert e type out => do
    let v ← Run.convert (← eval L e) type
    setOut (out <|> match e with
      | .name _ name => some name
      | _ => none) v
  | .readJson e out => do
    let s ← evalText L e
    match Json.read s with
    | .ok j => do setOut out (← ofJson j)
    | .error message => hostFailure (.make .host ("invalid JSON: " ++ message) none) out .null
  | .writeJson e out => do
    setOut out (.text (← json (← eval L e)))
  | .path part pieces out => do
    setVar out (.text (pathPart part (← spellAll L Run.text pieces)))
  | .pattern source flags out => do
    orHostFailure (compile (.text source) flags) out (fun _ => return .null) fun _ => do
      setOut out (← newObject (.ofList [("pattern", .text source), ("flags", .text flags)]))
  | .test e source flags out => do
    orHostFailure (do compile (← eval L source) flags) out (fun _ => return .bool false) fun p => do
      let s ← evalText L e
      setOut out (.bool (p.1.search s).isSome)
  | .extract source e flags out => do
    orHostFailure (do compile (← eval L source) flags) out (fun _ => newList []) fun p => do
      let s ← evalText L e
      setOut out (← newList (extracted p.1 p.2 s))

end Parlance
