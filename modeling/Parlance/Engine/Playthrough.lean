import Parlance.Engine.Rules

/-!
# Playthroughs
-/

namespace Parlance

structure Playthrough where
  session : Session
  failures : List Failure
  exitCode : Int

namespace Playthrough

def script (source : String) (event : Option String) : Run (List Failure × Option Signal) := do
  let failures ← Run.load .full source
  match event with
  | none => return (failures, none)
  | some key => fun s =>
    match (Run.trigger .full key).run s with
    | (.ok more, s) => (.ok (failures ++ more, none), s)
    | (.error signal, s) => (.ok (failures, some signal), s)

def stopped (s : Session) (failures : List Failure) : Signal → Except Signal Playthrough
  | .exit code => .ok ⟨s, failures, code⟩
  | signal => .error signal

/-- Runs a script. The exit code tells whether it failed, unless the script
    gives one. -/
def ofSource (start : Session) (source : String) (event : Option String) :
    Except Signal Playthrough :=
  match (script source event).run start with
  | (.ok (failures, none), s) => .ok ⟨s, failures, if failures.isEmpty then 0 else 1⟩
  | (.ok (failures, some signal), s) => stopped s failures signal
  | (.error signal, s) => stopped s [] signal

end Playthrough
end Parlance
