import Parlance.Number.Decimal
import Parlance.Number.Numeral

/-!
# Options

The settings of a session and how the environment changes them. A variable that
is set must hold a usable value; the first that does not is reported.
-/

namespace Parlance

/-- The settings of a session. No module folder means the working folder. -/
structure Options where
  whileLimit : Int := 10000
  tileSize : Int := 32
  databasePath : String := "hyperianlang.db"
  moduleFolder : Option String := none
  httpTimeout : Float := 10

inductive OptionFault where
  | notWhole (name value : String)
  | notPositive (name : String)
  | emptyPath (name : String)
  | notSeconds (name value : String)
deriving DecidableEq

def OptionFault.message : OptionFault → String
  | .notWhole name value => s!"{name}: expected an integer, got '{value}'"
  | .notPositive name => s!"{name} must be positive"
  | .emptyPath name => s!"{name} must not be empty"
  | .notSeconds name value => s!"{name}: expected seconds, got '{value}'"

namespace Options

def positive (name value : String) : Except OptionFault Int :=
  match Numeral.int? value with
  | none => .error (.notWhole name value)
  | some n => if n ≤ 0 then .error (.notPositive name) else .ok n

def path (name value : String) : Except OptionFault String :=
  let p := Text.trim value
  if p.isEmpty then .error (.emptyPath name) else .ok p

def seconds (name value : String) : Except OptionFault Float :=
  match Numeral.float? value with
  | none => .error (.notSeconds name value)
  | some x => if x ≤ 0 then .error (.notPositive name) else .ok x

def setting {α : Type} (env : String → Option String) (name : String)
    (read : String → String → Except OptionFault α) (default : α) : Except OptionFault α :=
  match env name with
  | none => .ok default
  | some value => read name value

def ofEnvironment (env : String → Option String) : Except OptionFault Options := do
  let defaults : Options := {}
  let whileLimit ← setting env "HYPERIAN_WHILE_LIMIT" positive defaults.whileLimit
  let tileSize ← setting env "HYPERIAN_TILE_SIZE" positive defaults.tileSize
  let databasePath ← setting env "HYPERIAN_DB" path defaults.databasePath
  let httpTimeout ← setting env "HYPERIAN_HTTP_TIMEOUT" seconds defaults.httpTimeout
  return { whileLimit, tileSize, databasePath, httpTimeout,
           moduleFolder := env "HYPERIAN_MODULE_DIR" }

end Options
end Parlance
