import Parlance.Engine.Host
import Parlance.Engine.Outcome
import Parlance.Grammar.Program
import Parlance.Options
import Parlance.Service.Response

/-!
# Sessions

The state of a running script: its variables, its definitions, what is under
way, and the hosts.

The bag of variables is copied before a call and put back after it. The copies
form a stack, and the number of calls under way is bounded.
-/

namespace Parlance

/-- A function that a script defines. Every definition has a stamp of its own,
    so a later definition under the same name can be told apart. -/
structure Function where
  params : List String
  body : List Stmt
  stamp : Nat

structure ClassDef where
  name : String
  parent : Option String
  properties : List String
  methods : Dict (Method Stmt)
  maker : Option (Method Stmt)

structure Route where
  method : String
  path : String
  request : String
  body : List Stmt

inductive LogLevel where
  | debug
  | info
  | warning
  | error
deriving DecidableEq

def LogLevel.word : LogLevel → String
  | .debug => "DEBUG"
  | .info => "INFO"
  | .warning => "WARNING"
  | .error => "ERROR"

inductive LogChannel where
  | parse
  | runtime
  | host
  | platform
deriving DecidableEq

def LogChannel.name : LogChannel → String
  | .parse => "hyperian.parse"
  | .runtime => "hyperian.runtime"
  | .host => "hyperian.host"
  | .platform => "hyperian.platform"

structure LogEntry where
  level : LogLevel
  channel : LogChannel
  message : String

structure Session where
  heap : Heap := .empty
  bag : Dict Value := ∅
  snapshots : List (Dict Value) := []
  depth : Nat := 0
  importing : List String := []
  /-- The names that the module under way exports; none outside of modules. -/
  exports : Option (List String) := none
  inRequest : Bool := false
  response : Option Response := none
  position : Option Position := none
  program : Option Program := none
  eventRules : Dict (List Rule) := ∅
  conditionRules : List Rule := []
  functions : Dict Function := ∅
  classes : Dict ClassDef := ∅
  definedEvents : Dict (List Stmt) := ∅
  modules : Dict (Dict Function) := ∅
  routes : List Route := []
  parseDiagnostics : Array Diagnostic := #[]
  diagnostics : Array Diagnostic := #[]
  lastChoice : Option Int := none
  options : Options := {}
  hosts : Hosts := {}
  log : Array LogEntry := #[]
  seed : Nat := 1
  stamp : Nat := 0

/-- A computation on a session. What it did before a signal stays done. -/
abbrev Run := ExceptT Signal (StateM Session)

namespace Run

def maxDepth : Nat := 64

def lift {α : Type} : Except Defect α → Run α
  | .ok a => pure a
  | .error d => throw (.defect d)

def fail {α : Type} (kind : FailureKind) (message : String) (origin : Option Position) : Run α :=
  throw (.failure (.make kind message origin))

def hostFail {α : Type} (message : String) : Run α := fail .host message none

/-- Runs a computation and then changes the state, however it ended. -/
def ensure {α : Type} (act : Run α) (after : Session → Session) : Run α := fun s =>
  let (result, s) := act.run s
  (result, after s)

/-- Runs a computation and gives its failure, if it has one, as a value. Other
    signals go on. -/
def attempt {α : Type} (act : Run α) : Run (Except Failure α) := fun s =>
  match act.run s with
  | (.ok a, s) => (.ok (.ok a), s)
  | (.error (.failure f), s) => (.ok (.error f), s)
  | (.error signal, s) => (.error signal, s)

def modifyHosts (f : Hosts → Hosts) : Run Unit := modify fun s => { s with hosts := f s.hosts }

def log (level : LogLevel) (channel : LogChannel) (message : String) : Run Unit :=
  modify fun s => { s with log := s.log.push ⟨level, channel, message⟩ }

def warn (message : String) : Run Unit := do
  let d : Diagnostic := ⟨.warning, message, (← get).position.getD ⟨0, 0⟩⟩
  modify fun s => { s with diagnostics := s.diagnostics.push d }
  log .warning .runtime d.text

def report (f : Failure) : Run Unit := do
  let d : Diagnostic := ⟨.error, f.message, f.position.getD ⟨0, 0⟩⟩
  modify fun s => { s with diagnostics := s.diagnostics.push d }
  log .error .runtime f.text

def var? (name : String) : Run (Option Value) := return (← get).bag.get? name

def var (name : String) : Run Value := return ((← get).bag.get? name).getD .null

def setVar (name : String) (value : Value) : Run Unit :=
  modify fun s => { s with bag := s.bag.insert name value }

def setOut (out : Option String) (value : Value) : Run Unit :=
  match out with
  | none => pure ()
  | some name => setVar name value

def newList (items : List Value) : Run Value :=
  modifyGet fun s =>
    let (v, h) := s.heap.newList items
    (v, { s with heap := h })

def newObject (fields : Dict Value) : Run Value :=
  modifyGet fun s =>
    let (v, h) := s.heap.newObject fields
    (v, { s with heap := h })

def ofJson (j : Json) : Run Value :=
  modifyGet fun s =>
    let (v, h) := s.heap.ofJson j
    (v, { s with heap := h })

def setItems (r : Ref) (items : List Value) : Run Unit :=
  modify fun s => { s with heap := s.heap.set r (.list items) }

def setFields (r : Ref) (fields : Dict Value) : Run Unit :=
  modify fun s => { s with heap := s.heap.set r (.object fields) }

def items (r : Ref) : Run (List Value) := return (← get).heap.items r

def fields (r : Ref) : Run (Dict Value) := return (← get).heap.fields r

def text (v : Value) : Run String := do lift ((← get).heap.text v)

def display (v : Value) : Run String := do lift ((← get).heap.display v)

def document (v : Value) : Run String := do lift ((← get).heap.document v)

def json (v : Value) : Run String := do lift ((← get).heap.json v)

/-- The part of a value that is data, as a new value. -/
def plain (v : Value) : Run Value := do ofJson (← lift ((← get).heap.plain v))

def number (v : Value) : Run Number := do lift ((← get).heap.toNumber v)

def int (v : Value) (default : Int) : Run Int := do lift ((← get).heap.toInt v default)

def same (a b : Value) : Run Bool := do lift ((← get).heap.same a b)

def looseEqual (a b : Value) : Run Bool := do lift ((← get).heap.looseEqual a b)

def order? (a b : Value) : Run (Option Int) := do lift ((← get).heap.order? a b)

def tree (v : Value) : Run Tree := return (← get).heap.tree v

def note (name : String) (args : List Noted) : Run Unit :=
  modifyHosts fun h => { h with journal := h.journal.push ⟨name, args⟩ }

def tell (n : Notice) : Run Unit :=
  modifyHosts fun h => { h with notices := h.notices.push n }

/-- Hands a failed host operation to the variable for its result, or lets it
    fail when there is none. -/
def hostFailure (f : Failure) (out : Option String) (fallback : Value) : Run Unit :=
  match out with
  | none => throw (.failure f)
  | some name => do
    setVar name fallback
    warn f.message

end Run

/-- What a statement needs from the rest of a session: a way to run a block
    that it reaches through a name, such as the body of a function, an event, a
    module or a rule. -/
structure Linker where
  block : List Stmt → Run Flow

end Parlance
