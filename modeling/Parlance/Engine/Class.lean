import Parlance.Engine.Variable

/-!
# Classes

A class takes over what its parent has when it is defined, so a later change of
the parent does not reach it. An object of a class is an object like any other;
its methods are entries that are bound to it.
-/

namespace Parlance
namespace ClassDef

def bare (name : String) : ClassDef := ⟨name, none, [], ∅, none⟩

def child (name parent : String) (base : ClassDef) : ClassDef :=
  ⟨name, some parent, base.properties, base.methods, base.maker⟩

def addName (names : List String) (name : String) : List String :=
  if name ∈ names then names else names ++ [name]

def addMethod (c : ClassDef) (m : Method Stmt) : ClassDef :=
  if m.isConstructor then { c with maker := some m }
  else { c with methods := c.methods.insert m.name m }

def extend (c : ClassDef) (properties : List String) (methods : List (Method Stmt)) : ClassDef :=
  methods.foldl addMethod { c with properties := properties.foldl addName c.properties }

end ClassDef

namespace Run

/-- What a class starts with. A parent that is unknown, or the class itself,
    is noted and left out. -/
def classBase (name : String) : Option String → Run ClassDef
  | none => return .bare name
  | some parent => do
    if parent = name then
      warn ("class '" ++ name ++ "' cannot extend itself")
      return .bare name
    match (← get).classes.get? parent with
    | none =>
      warn ("unknown parent class '" ++ parent ++ "' for '" ++ name ++ "'")
      return .bare name
    | some base => return .child name parent base

def defineClass (name : String) (parent : Option String) (properties : List String)
    (methods : List (Method Stmt)) : Run Unit := do
  let c := (← classBase name parent).extend properties methods
  modify fun s => { s with classes := s.classes.insert name c }

/-- The properties of a new object with the arguments for them; missing
    arguments are null. -/
def propertyFields : Dict Value → List String → List Value → Dict Value
  | d, [], _ => d
  | d, p :: ps, args => propertyFields (d.insert p (args.headD .null)) ps args.tail

def bindMethods (r : Ref) : List (Method Stmt) → Run Unit
  | [] => pure ()
  | m :: rest => do
    let bound ← modifyGet fun s =>
      let (b, h) := s.heap.alloc (.method r m)
      (b, { s with heap := h })
    setEntry r m.name (.method bound)
    bindMethods r rest

def instantiate (L : Linker) (name : String) (args : List Value) : Run Value := do
  match (← get).classes.get? name with
  | none =>
    warn ("unknown class '" ++ name ++ "'")
    return .null
  | some c =>
    let start : Dict Value := .ofList [("__class__", .text c.name)]
    match ← newObject (propertyFields start c.properties args) with
    | .object r =>
      if let some m := c.maker then
        let _ ← invoke L m.params m.body args (some (.object r))
      bindMethods r c.methods.values
      return .object r
    | v => return v

/-- The method that a value has under a name, with the object that it is bound
    to. -/
def boundMethod? (owner : Value) (name : String) : Run (Option (Ref × Method Stmt)) := do
  match owner with
  | .object r => match (← fields r).get? name with
    | some (.method m) => return (← get).heap.method? m
    | _ => return none
  | _ => return none

def callMethod (L : Linker) (method owner : String) (args : List Expr) (out : Option String) :
    Run Unit := do
  match ← boundMethod? (← var owner) method with
  | none =>
    warn ("no method '" ++ method ++ "' on '" ++ owner ++ "'")
    setOut out .null
  | some (r, m) =>
    let vs ← evalAll L args
    setOut out (← invoke L m.params m.body vs (some (.object r)))

end Run
end Parlance
