import Parlance.Dict
import Parlance.Machine.Shell
import Parlance.Value.Tree

/-!
# Hosts

What a session runs on. Six capabilities may be there or not: a world for
entities and output, a store, the machine, a network, a database and sockets.
Each of them may also be a bare one, which refuses what it should answer.
-/

namespace Parlance

structure World where
  entities : Dict (Value × Value) := ∅
  props : Dict (Dict Value) := ∅
  switches : Dict Bool := ∅
  store : Dict Value := ∅
  records : Dict (Dict Value) := ∅
  statuses : Dict (Dict Value) := ∅
  lines : Array Value := #[]
  events : Array (Value × Value) := #[]
  running : Bool := true

inductive Stage where
  | absent
  /-- A world that takes every call and does nothing. -/
  | bare
  | world
deriving DecidableEq

inductive StoreHost where
  | absent
  | bare
  | world
  | separate
deriving DecidableEq

inductive MachineHost where
  | absent
  | bare
  | here
deriving DecidableEq

inductive NetworkHost where
  | absent
  | bare
  /-- A network that reaches nothing but checks addresses. -/
  | offline
  /-- A network that answers known requests, and knows ports in use. -/
  | canned (replies : List (String × String × Value)) (busy : List Int)

inductive DatabaseHost where
  | absent
  | bare
  | canned (replies : List (String × Value))

inductive SocketHost where
  | absent
  | bare
  | noted
deriving DecidableEq

inductive Noted where
  | value (tree : Tree)
  | body (types : List String)

structure Note where
  name : String
  args : List Noted

inductive Notice where
  | dialogue (text speaker : Tree)
  | choice (prompt labels : Tree)
  | log (message : Tree)
  | event (name data : Tree)

structure Callbacks where
  dialogue : Bool := false
  choice : Bool := false
  log : Bool := false
  event : Bool := false
  /-- Whether an event also fires the rules for its name. -/
  fires : Bool := false

/-- What a session runs on. The program that runs commands of the shell is one of the parts, since
    the machine may have any. -/
structure Hosts where
  stage : Stage := .world
  world : World := {}
  storeHost : StoreHost := .world
  separate : World := {}
  machine : MachineHost := .here
  network : NetworkHost := .absent
  database : DatabaseHost := .absent
  sockets : SocketHost := .absent
  files : Files := ⟨.folder [], []⟩
  environment : Dict String := ∅
  shell : Files → Dict String → String → ShellResult := Shell.run
  tileSize : Int := 32
  echo : Bool := false
  printed : Array String := #[]
  record : Bool := false
  journal : Array Note := #[]
  callbacks : Callbacks := {}
  notices : Array Notice := #[]
  choices : List Value := []

end Parlance
