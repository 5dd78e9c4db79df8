import Parlance.Engine.Exec

/-!
# The Rules of a Session

Rules are filed under the key of their event; rules that wait for a condition
are kept apart, in order. A rule may carry a tag, by which it is taken out
again.
-/

namespace Parlance
namespace Session

def addRule (s : Session) (r : Rule) : Session :=
  match r.event.key? with
  | none => { s with conditionRules := s.conditionRules ++ [r] }
  | some key =>
    { s with eventRules := s.eventRules.insert key ((s.eventRules.get? key).getD [] ++ [r]) }

/-- The rules under the keys without those that carry a tag. A key without
    rules is taken out. -/
def untagged (tag : Option String) (rules : Dict (List Rule)) : Dict (List Rule) :=
  (rules.map fun rs => rs.filter fun r => r.tag != tag).filter fun _ rs => !rs.isEmpty

def ruleCount (s : Session) : Nat :=
  s.eventRules.values.foldl (fun n rules => n + rules.length) s.conditionRules.length

def removeRules (s : Session) (tag : Option String) : Session :=
  { s with
    eventRules := untagged tag s.eventRules
    conditionRules := s.conditionRules.filter fun r => r.tag != tag }

def setProgram (s : Session) (p : Program) : Session :=
  p.rules.foldl addRule { s with program := some p, eventRules := ∅, conditionRules := [] }

end Session

namespace Run

def sceneTag : String := "scene"

def read (source : String) : Run Program := do
  let reading := Program.ofSource source
  noteFaults reading.faults
  let program ← lift reading.program
  modify fun s => { s with
    parseDiagnostics := s.parseDiagnostics ++ (reading.faults.map Fault.diagnostic).toArray }
  return program

def runMain (L : Linker) : Run (List Failure) := do
  match (← get).program with
  | none => return []
  | some p => return (← body L p.main).toList

def load (L : Linker) (source : String) : Run (List Failure) := do
  let p ← read source
  modify fun s => s.setProgram p
  log .debug .runtime (s!"loaded {p.rules.length} rules, {p.main.length} init statements")
  runMain L

def removeRules (tag : Option String) : Run Nat := do
  let before := (← get).ruleCount
  modify fun s => s.removeRules tag
  return before - (← get).ruleCount

def unloadScene : Run Nat := removeRules (some sceneTag)

def loadScene (L : Linker) (source : String) : Run (List Failure) := do
  let p ← read source
  let _ ← unloadScene
  modify fun s => p.rules.foldl (fun s r => s.addRule { r with tag := some sceneTag }) s
  return (← body L p.main).toList

def holds (L : Linker) : Event → Run Bool
  | .condition _ subject prop c => do meets L (← propertyOf L subject prop) c
  | _ => return false

def poll (L : Linker) (r : Rule) : Run (Option Failure) := do
  match ← attempt (holds L r.event) with
  | .error f =>
    report f
    return some f
  | .ok false => return none
  | .ok true => body L r.body

def pollAll (L : Linker) : List Rule → Run (List Failure)
  | [] => return []
  | r :: rest => do
    let f ← poll L r
    return f.toList ++ (← pollAll L rest)

def tick (L : Linker) : Run (List Failure) := do pollAll L (← get).conditionRules

def routeFor? (s : Session) (method path : String) : Option Route :=
  s.routes.find? fun r => r.method == method && r.path == path

def follow (L : Linker) (route : Route) (request : Value) : Run Response := do
  let before ← get
  modify fun s => { s with inRequest := true, response := none }
  let (err, response) ← ensure (do
    setVar route.request request
    let err ← body L route.body
    return (err, (← get).response))
    fun s => { s with inRequest := before.inRequest, response := before.response }
  match response, err with
  | some r, _ => return r
  | none, some f =>
    return ⟨500, "application/json", (Json.object [("error", .text f.message)]).compact.toUTF8⟩
  | none, none => return Response.noContent

def handleRequest (L : Linker) (request : Value) : Run Response := do
  let part (name : String) : Run String := do
    match request with
    | .object r => text (((← fields r).get? name).getD .null)
    | _ => text .null
  let method := Text.upper (← part "method")
  let path ← part "url"
  match routeFor? (← get) method path with
  | none => return Response.notFound
  | some route => follow L route request

/-- The reply to what a client has sent, as it is handed over to be sent. -/
def answerClient (tooDeep : String → Bool) (handler : Value → Run Response) (method target : String)
    (headers : List (String × String)) (content : ByteArray) : Run Reply := do
  let request ← lift (Request.ofClient tooDeep method target headers content)
  return (← handler (← ofJson request.json)).reply

def handleClient (L : Linker) (tooDeep : String → Bool) :
    String → String → List (String × String) → ByteArray → Run Reply :=
  answerClient tooDeep (handleRequest L)

end Run
end Parlance
