import Parlance.Syntax.Expr

/-!
# Conditions

A condition holds or does not. Its leaves compare a subject, which is a
variable, a property of an entity or an expression, with what a comparison
asks for.
-/

namespace Parlance

inductive Comparison where
  | less (bound : Expr)
  | greater (bound : Expr)
  | equal (other : Expr)
  | notEqual (other : Expr)
  | between (low high : Expr)
  | empty
  | notEmpty
  | present
  | absent
  | nothing
  | notNothing

def Comparison.name : Comparison → String
  | .less _ => "less"
  | .greater _ => "greater"
  | .equal _ => "equal"
  | .notEqual _ => "notEqual"
  | .between _ _ => "between"
  | .empty => "empty"
  | .notEmpty => "notEmpty"
  | .present => "exists"
  | .absent => "notExists"
  | .nothing => "nothing"
  | .notNothing => "notNothing"

inductive Connective where
  | and
  | or
deriving DecidableEq

def Connective.word : Connective → String
  | .and => "and"
  | .or => "or"

inductive Condition where
  | logical (pos : Position) (op : Connective) (left right : Condition)
  | not (pos : Position) (cond : Condition)
  | bool (pos : Position) (value : Bool)
  | value (pos : Position) (left : Expr) (comparison : Comparison)
  | property (pos : Position) (subject prop : String) (comparison : Comparison)
  | named (pos : Position) (name : String) (comparison : Comparison)
  | switch (pos : Position) (switch : Expr) (on : Bool)
  | choice (pos : Position) (value : Expr)
  | hasItem (pos : Position) (item : String)
  | hasStatus (pos : Position) (entity effect : String)
  | contains (pos : Position) (subject : String) (value : Expr)
  | startsWith (pos : Position) (subject : String) (value : Expr)
  | endsWith (pos : Position) (subject : String) (value : Expr)
  | hasKey (pos : Position) (subject : String) (key : Expr)
  | ofType (pos : Position) (subject typeName : String)

end Parlance
