import Parlance.Dict
import Parlance.Machine.Files

/-!
# The State of a Shell
-/

namespace Parlance.Shell

inductive Sink where
  | out
  | err
  | pipe
  | nowhere
  | file (place : List String)
deriving DecidableEq

structure State where
  files : Files
  bindings : Dict String
  status : Nat := 0
  line : Nat := 1
  finished : Bool := false
  out : ByteArray := ByteArray.empty
  err : ByteArray := ByteArray.empty
  pipe : ByteArray := ByteArray.empty

structure Streams where
  input : ByteArray := ByteArray.empty
  sinks : List (Nat × Sink) := [(1, .out), (2, .err)]

abbrev Work := StateM State

def State.write (st : State) (bytes : ByteArray) : Sink → State
  | .out => { st with out := st.out ++ bytes }
  | .err => { st with err := st.err ++ bytes }
  | .pipe => { st with pipe := st.pipe ++ bytes }
  | .nowhere => st
  | .file place => match st.files.store place bytes true with
    | .ok files => { st with files }
    | .error _ => st

namespace Streams

def put (s : Streams) (stream : Nat) (bytes : ByteArray) : Work Unit := do
  match s.sinks.lookup stream with
  | some sink => modify (·.write bytes sink)
  | none => pure ()

def lines (s : Streams) (texts : List String) : Work Unit :=
  s.put 1 (String.join (texts.map (· ++ "\n"))).toUTF8

def complain (s : Streams) (message : String) : Work Unit := s.put 2 (message ++ "\n").toUTF8

def report (s : Streams) (message : String) : Work Unit := do
  s.complain ("/bin/sh: " ++ toString (← get).line ++ ": " ++ message)

def lead (s : Streams) (stream : Nat) (sink : Sink) : Streams :=
  { s with sinks := (stream, sink) :: s.sinks.filter (·.1 != stream) }

end Streams
end Parlance.Shell
