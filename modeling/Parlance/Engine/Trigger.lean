import Parlance.Engine.Session

/-!
# Firing Rules

A body that runs for a rule stands for itself: a failure in it ends it, is
reported, and does not keep other bodies from running.
-/

namespace Parlance.Run

def body (L : Linker) (stmts : List Stmt) : Run (Option Failure) := do
  match ← attempt (L.block stmts) with
  | .ok _ => return none
  | .error f =>
    report f
    return some f

def bodies (L : Linker) : List (List Stmt) → Run (List Failure)
  | [] => return []
  | b :: rest => do
    let f ← body L b
    let fs ← bodies L rest
    return f.toList ++ fs

def rulesFor (s : Session) (key : String) : List Rule := (s.eventRules.get? key).getD []

def trigger (L : Linker) (key : String) : Run (List Failure) := do
  log .debug .runtime ("trigger " ++ key)
  bodies L ((rulesFor (← get) key).map Rule.body)

end Parlance.Run
