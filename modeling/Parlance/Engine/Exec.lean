import Parlance.Engine.Script
import Parlance.Engine.Service
import Parlance.Syntax.Outline

/-!
# Executing Statements

Statements run by recursion on their structure. What lies outside of it, the
body of a function, an event, a module or a rule that is reached by name, is
run through the linker.
-/

namespace Parlance

def Command.exec (L : Linker) (pos : Position) : Command → Run Flow
  | .bag c => Run.normally (c.exec L)
  | .collection c => Run.normally (c.exec L)
  | .text c => Run.normally (c.exec L)
  | .stage c => Run.normally (c.exec L)
  | .party c => Run.normally (c.exec L)
  | .store c => Run.normally (c.exec L)
  | .system c => Run.normally (c.exec L)
  | .service c => Run.normally (c.exec L)
  | .script c => c.exec L pos

namespace Run

def placing (pos : Position) (act : Run Flow) : Run Flow := fun s =>
  match act.run { s with position := some pos } with
  | (.error (.failure f), s) => (.error (.failure (f.placed pos)), s)
  | result => result

def round (act : Run Flow) : Run (Option Flow) := do
  match ← act with
  | .leave => return some .normal
  | .give v => return some (.give v)
  | _ => return none

def times (act : Run Flow) : Nat → Run Flow
  | 0 => return .normal
  | n + 1 => do
    match ← round act with
    | some flow => return flow
    | none => times act n

def whileLoop (limit : Int) (cond : Run Bool) (act : Run Flow) : Nat → Run Flow
  | 0 => do
    if ← cond then warn ("while loop stopped after " ++ toString limit ++ " iterations")
    return .normal
  | n + 1 => do
    if !(← cond) then return .normal
    match ← round act with
    | some flow => return flow
    | none => whileLoop limit cond act n

/-- Runs a body for each item; the variable holds each in turn. The result is
    there only if the body ended the loop. -/
def forItems (item : String) (act : Run Flow) : List Value → Run (Option Flow)
  | [] => return none
  | v :: rest => do
    setVar item v
    match ← round act with
    | some flow => return some flow
    | none => forItems item act rest

def handled (act : Run Flow) (errorName : String) (handler : Run Flow) : Run Flow := do
  match ← attempt act with
  | .ok flow => return flow
  | .error f =>
    log .debug .runtime ("caught: " ++ f.text)
    setVar errorName (.text f.message)
    handler

/-- Runs a cleanup after a body, however the body ended. A flow of the cleanup
    replaces that of the body, but it does not stop a signal. -/
def cleaned (act cleanup : Run Flow) : Run Flow := fun s =>
  let (result, s) := act.run s
  match cleanup.run s with
  | (.error signal, s) => (.error signal, s)
  | (.ok .normal, s) => (result, s)
  | (.ok flow, s) => (result.map fun _ => flow, s)

def defineEvent (id : String) (stmts : List Stmt) : Run Unit := do
  modify fun s => { s with definedEvents := s.definedEvents.insert id stmts }
  if (← get).hosts.stage != .absent then
    noteStage "define_event" [.value (.text id), .body (stmts.map Stmt.typeName)]

def defineFunction (name : String) (params : List String) (stmts : List Stmt) : Run Unit :=
  modify fun s => { s with
    functions := s.functions.insert name ⟨params, stmts, s.stamp⟩
    stamp := s.stamp + 1 }

def interpolateAll (L : Linker) : List String → Run (List String)
  | [] => return []
  | s :: rest => do
    let shown ← interpolate L s
    return shown :: (← interpolateAll L rest)

def choose (L : Linker) (prompt : String) (labels : List String) : Run Int := do
  let shown ← interpolateAll L labels
  let question ← interpolate L prompt
  let answer ← ask L "show_choice" [.text question, ← newList (shown.map .text)]
  let index ← int answer (-1)
  modify fun s => { s with lastChoice := some index }
  direct L "set_property" [.text "_vars", .text "_lastChoice", .int index]
  return index

def fits (L : Linker) (subject : Value) : CaseTest → Run Bool
  | .value e => do looseEqual subject (← eval L e)
  | .comparison c => meets L subject c

mutual

def exec (L : Linker) : Stmt → Run Flow
  | .command pos c => placing pos (c.exec L pos)
  | .awaiting pos innerPos c => placing pos (placing innerPos (c.exec L innerPos))
  | .awaitValue pos e out => placing pos do
    setOut out (← eval L e)
    return .normal
  | .defineEvent pos id stmts => placing pos do
    defineEvent id stmts
    return .normal
  | .choice pos prompt options => placing pos do
    if !(← hasStage "show choice") then return .normal
    let index ← choose L prompt (options.map Prod.fst)
    if index < 0 then return .normal
    execOption L index.toNat options
  | .branch pos cond thenBody elseBody => placing pos do
    if ← test L cond then execBlock L thenBody else execBlock L elseBody
  | .times pos count stmts => placing pos do
    times (execBlock L stmts) (← int (← eval L count) 0).toNat
  | .whileLoop pos cond stmts => placing pos do
    let limit := (← get).options.whileLimit
    whileLoop limit (test L cond) (execBlock L stmts) limit.toNat
  | .forEach pos item list stmts => placing pos do
    let vs ← asList (← var list)
    return (← forItems item (execBlock L stmts) vs).getD .normal
  | .breakLoop pos => placing pos (return .leave)
  | .skipRound pos => placing pos (return .skip)
  | .giveBack pos e => placing pos do return .give (← eval L e)
  | .attempt pos stmts errorName handler cleanup => placing pos (
    let inner := handled (execBlock L stmts) errorName (execBlock L handler)
    match cleanup with
    | none => inner
    | some stmts => cleaned inner (execBlock L stmts))
  | .cases pos subject arms default => placing pos do
    let v ← resolve L subject
    match ← execArms L v arms with
    | some flow => return flow
    | none => execBlock L default
  | .defineFunction pos name params stmts => placing pos do
    defineFunction name params stmts
    return .normal
  | .reduce pos list total item initial stmts out => placing pos do
    setVar total (← eval L initial)
    let vs ← listItems (← var list)
    match ← forItems item (execBlock L stmts) vs with
    | some (.give v) => return .give v
    | _ =>
      setVar out (← var total)
      return .normal
  | .route pos method path request stmts => placing pos do
    let m := Text.upper (← evalText L method)
    let p ← evalText L path
    modify fun s => { s with routes := s.routes ++ [⟨m, p, request, stmts⟩] }
    log .debug .runtime ("route " ++ m ++ " " ++ p)
    return .normal
  | .defineClass pos name parent properties methods => placing pos do
    defineClass name parent properties methods
    return .normal

def execBlock (L : Linker) : List Stmt → Run Flow
  | [] => return .normal
  | st :: rest => do
    match ← exec L st with
    | .normal => execBlock L rest
    | flow => return flow

def execOption (L : Linker) : Nat → List (String × List Stmt) → Run Flow
  | _, [] => return .normal
  | 0, (_, stmts) :: _ => execBlock L stmts
  | n + 1, _ :: rest => execOption L n rest

def execArms (L : Linker) (subject : Value) : List (CaseTest × List Stmt) → Run (Option Flow)
  | [] => return none
  | (t, stmts) :: rest => do
    if ← fits L subject t then return some (← execBlock L stmts)
    else execArms L subject rest

end
end Run

namespace Linker

def ofDepth : Nat → Linker
  | 0 => ⟨fun _ => throw .exhausted⟩
  | depth + 1 => ⟨fun stmts => Run.execBlock (ofDepth depth) stmts⟩

/-- A depth that only a chain of events or modules without end reaches. -/
def maxDepth : Nat := 2000

def full : Linker := ofDepth maxDepth

end Linker
end Parlance
