import Parlance.Number
import Parlance.Position

/-!
# Expressions

The expressions of the language, each with the position of its first token.
Arithmetic has no precedence: a chain of operators leans to the left.
-/

namespace Parlance

/-- An operator of arithmetic. A token list made by hand may hold a sign that
    has no meaning. -/
inductive Operator where
  | plus
  | minus
  | times
  | over
  | modulo
  | unknown (sign : String)
deriving DecidableEq

namespace Operator

def sign : Operator → String
  | .plus => "+"
  | .minus => "-"
  | .times => "*"
  | .over => "/"
  | .modulo => "%"
  | .unknown s => s

def ofSign (s : String) : Operator :=
  match s with
  | "+" => .plus
  | "-" => .minus
  | "*" => .times
  | "/" => .over
  | "%" => .modulo
  | s => .unknown s

end Operator

inductive Builtin where
  | round
  | floor
  | ceil
  | abs
  | sqrt
  | sign
  | log
  | uppercase
  | lowercase
  | trim
  | length
  | count
  | power
  | min
  | max
  | random
  | clamp
  | join
  | arrayJoin
  | split
  | typeOf
  | indexOf
  | slice
  | array
  | object
deriving DecidableEq

def Builtin.name : Builtin → String
  | .round => "round"
  | .floor => "floor"
  | .ceil => "ceil"
  | .abs => "abs"
  | .sqrt => "sqrt"
  | .sign => "sign"
  | .log => "log"
  | .uppercase => "uppercase"
  | .lowercase => "lowercase"
  | .trim => "trim"
  | .length => "length"
  | .count => "count"
  | .power => "power"
  | .min => "min"
  | .max => "max"
  | .random => "random"
  | .clamp => "clamp"
  | .join => "join"
  | .arrayJoin => "arrayJoin"
  | .split => "split"
  | .typeOf => "typeOf"
  | .indexOf => "indexOf"
  | .slice => "slice"
  | .array => "array"
  | .object => "object"

inductive Expr where
  | number (pos : Position) (value : Number)
  /-- A text; the fields in braces are filled in when it is evaluated. -/
  | text (pos : Position) (value : String)
  | bool (pos : Position) (value : Bool)
  | null (pos : Position)
  | list (pos : Position) (items : List Expr)
  | object (pos : Position) (fields : List (String × Expr))
  /-- A variable; a name without a variable stands for itself. -/
  | name (pos : Position) (name : String)
  | binary (pos : Position) (op : Operator) (left right : Expr)
  | builtin (pos : Position) (fn : Builtin) (args : List Expr)
  | field (pos : Position) (owner : String) (key : Expr)
  | call (pos : Position) (name : String) (args : List Expr)
  | constant (pos : Position) (name : String)

namespace Expr

instance : Inhabited Expr := ⟨.null .start⟩

def position : Expr → Position
  | .number p _ | .text p _ | .bool p _ | .null p | .list p _ | .object p _ | .name p _
  | .binary p _ _ _ | .builtin p _ _ | .field p _ _ | .call p _ _ | .constant p _ => p

end Expr
end Parlance
