import Parlance.Syntax.Command
import Parlance.Syntax.Event

/-!
# Statements and Programs

A statement is a command or has bodies of its own. A program is a list of rules
and the statements outside of rules.
-/

namespace Parlance

structure Method (β : Type) where
  name : String
  params : List String
  body : List β
  isConstructor : Bool

inductive CaseTest where
  | value (value : Expr)
  | comparison (comparison : Comparison)

inductive Stmt where
  | command (pos : Position) (command : Command)
  | awaiting (pos innerPos : Position) (inner : Command)
  | awaitValue (pos : Position) (value : Expr) (out : Option String)
  | defineEvent (pos : Position) (id : String) (body : List Stmt)
  | choice (pos : Position) (prompt : String) (options : List (String × List Stmt))
  | branch (pos : Position) (cond : Condition) (thenBody elseBody : List Stmt)
  | times (pos : Position) (count : Expr) (body : List Stmt)
  | whileLoop (pos : Position) (cond : Condition) (body : List Stmt)
  | forEach (pos : Position) (item list : String) (body : List Stmt)
  | breakLoop (pos : Position)
  | skipRound (pos : Position)
  | giveBack (pos : Position) (value : Expr)
  | attempt (pos : Position) (body : List Stmt) (errorName : String) (handler : List Stmt)
      (cleanup : Option (List Stmt))
  | cases (pos : Position) (subject : String) (arms : List (CaseTest × List Stmt))
      (default : List Stmt)
  | defineFunction (pos : Position) (name : String) (params : List String) (body : List Stmt)
  | reduce (pos : Position) (list total item : String) (initial : Expr) (body : List Stmt)
      (out : String)
  | route (pos : Position) (method path : Expr) (request : String) (body : List Stmt)
  | defineClass (pos : Position) (name : String) (parent : Option String)
      (properties : List String) (methods : List (Method Stmt))

namespace Stmt

instance : Inhabited Stmt := ⟨.breakLoop .start⟩

def position : Stmt → Position
  | .command p _ | .awaiting p _ _ | .awaitValue p _ _ | .defineEvent p _ _ | .choice p _ _
  | .branch p _ _ _ | .times p _ _ | .whileLoop p _ _ | .forEach p _ _ _ | .breakLoop p
  | .skipRound p | .giveBack p _ | .attempt p _ _ _ _ | .cases p _ _ _ | .defineFunction p _ _ _
  | .reduce p _ _ _ _ _ _ | .route p _ _ _ _ | .defineClass p _ _ _ _ => p

end Stmt

/-- A body that runs when its event occurs. The tag says what brought the rule
    in, so that it can be taken out again. -/
structure Rule where
  pos : Position
  event : Event
  body : List Stmt
  tag : Option String

structure Program where
  rules : List Rule
  main : List Stmt

end Parlance
