import Parlance.Engine.Trigger
import Parlance.Value.Literal

/-!
# The World

What the default world does with a call. A script may call every one of these
operations by name and with any values, so an operation checks the number and
the kinds of what it is given.
-/

namespace Parlance.World
open Run

inductive Which where
  | main
  | separate
deriving DecidableEq

def read (which : Which) : Run World := do
  let h := (← get).hosts
  return match which with
    | .main => h.world
    | .separate => h.separate

def change (which : Which) (f : World → World) : Run Unit :=
  modifyHosts fun h => match which with
    | .main => { h with world := f h.world }
    | .separate => { h with separate := f h.separate }

def badArguments {α : Type} : Run α := throw (.defect .badArguments)

/-- The name that a value stands for as a key. Containers cannot be keys. -/
def key (v : Value) : Run String := do
  if v.isContainer then badArguments else text v

def textArg : Value → Run String
  | .text s => pure s
  | _ => badArguments

def numberArg : Value → Run Number
  | .number n => pure n
  | .bool b => pure (.ofBool b)
  | _ => badArguments

/-- Whether an argument counts as nothing: null, false, zero and whatever is
    empty. -/
def isVoid (v : Value) : Run Bool := do
  let h := (← get).heap
  return match v with
    | .object r => (h.fields r).entries.isEmpty
    | v => h.isEmpty v

def orZero (v : Value) : Run Value := do
  return if ← isVoid v then .int 0 else v

/-- The elements of an argument: the items of a list, the characters of a text,
    the names in an object. -/
def elements : Value → Run (List Value)
  | .list r => items r
  | .text s => return s.toList.map fun c => .text c.toString
  | .object r => return (← fields r).keys.map .text
  | _ => badArguments

/-- The sum of two values of one kind. A list is continued in place. -/
def plus : Value → Value → Run Value
  | .text s, .text t => pure (.text (s ++ t))
  | .list r, v => do
    setItems r ((← items r) ++ (← elements v))
    return .list r
  | a, b => do return .number (← lift ((← numberArg a).add (← numberArg b)))

def write (line : Value) : Run Unit := do
  change .main fun w => { w with lines := w.lines.push line }
  if (← get).hosts.echo then
    let shown ← tree line
    modifyHosts fun h => { h with printed := h.printed.push shown.printed }

def logLine (message : Value) : Run Unit := do
  if (← get).hosts.callbacks.log then
    change .main fun w => { w with lines := w.lines.push message }
    tell (.log (← tree message))
  else write message

def dialogue (said speaker : Value) : Run Unit := do
  if (← get).hosts.callbacks.dialogue then
    tell (.dialogue (← tree said) (← tree speaker))
  else
    let line ← textArg said
    if ← isVoid speaker then write (.text line)
    else write (.text ("[" ++ (← textArg speaker) ++ "]: " ++ line))

def nextChoice : Run Value := do
  match (← get).hosts.choices with
  | [] => return .int 0
  | c :: rest =>
    modifyHosts fun h => { h with choices := rest }
    return c

def showOptions : Nat → List Value → Run Unit
  | _, [] => pure ()
  | i, o :: rest => do
    write (.text ("  " ++ toString (i + 1) ++ ". " ++ (← textArg o)))
    showOptions (i + 1) rest

/-- Asks for a choice. Without an owner to ask, it is the first option. -/
def choose (prompt options : Value) : Run Value := do
  if (← get).hosts.callbacks.choice then
    tell (.choice (← tree prompt) (← tree options))
    nextChoice
  else
    if !(← isVoid prompt) then write prompt
    showOptions 0 (← elements options)
    return .int 0

def tellEvent (L : Linker) (name data : Value) : Run Unit := do
  tell (.event (← tree name) (← tree data))
  if (← get).hosts.callbacks.fires then
    let _ ← trigger L (← text name)

def emit (L : Linker) (name data : Value) : Run Unit := do
  change .main fun w => { w with events := w.events.push (name, data) }
  if (← get).hosts.callbacks.event then tellEvent L name data

def property (entity prop : Value) : Run Value := do
  let w ← read .main
  let e ← key entity
  let p ← key prop
  match p, w.entities.get? e with
  | "x", some place => return place.1
  | "y", some place => return place.2
  | _, _ => return (((w.props.get? e).getD ∅).get? p).getD .null

def setProperty (entity prop : Value) (value : Value) : Run Unit := do
  let e ← key entity
  let p ← key prop
  change .main fun w =>
    { w with props := w.props.insert e (((w.props.get? e).getD ∅).insert p value) }

def spawn (entity x y : Value) : Run Unit := do
  let e ← key entity
  let place := (← orZero x, ← orZero y)
  change .main fun w =>
    { w with
      entities := w.entities.insert e place
      props := if w.props.contains e then w.props else w.props.insert e ∅ }

def move (entity x y : Value) (relative : Bool) : Run Unit := do
  let e ← key entity
  match (← read .main).entities.get? e with
  | none => pure ()
  | some (x', y') =>
    let newX ← if relative then plus x' x else pure x
    change .main fun w => { w with entities := w.entities.insert e (newX, y') }
    let newY ← if relative then plus y' y else pure y
    change .main fun w => { w with entities := w.entities.insert e (newX, newY) }

def destroy (entity : Value) : Run Unit := do
  let e ← key entity
  change .main fun w => { w with entities := w.entities.erase e, props := w.props.erase e }

def putData (which : Which) (k : String) (v : Value) : Run Unit :=
  change which fun w => { w with store := w.store.insert k v }

def itemCount (which : Which) (item : Value) : Run Number := do
  number (((← read which).store.get? ("inv:" ++ (← textArg item))).getD .null)

def keep (which : Which) (name : String) (args : List Value) : Run Value := do
  match name, args with
  | "save_data", [k, v] =>
    putData which (← key k) (← plain v)
    return .null
  | "load_data", [k] => return ((← read which).store.get? (← key k)).getD .null
  | "delete_data", [k] =>
    let k ← key k
    change which fun w => { w with store := w.store.erase k }
    return .null
  | "add_item", [item, quantity] =>
    let total ← plus (.number (← itemCount which item)) quantity
    putData which ("inv:" ++ (← textArg item)) total
    return .null
  | "remove_item", [item, quantity] =>
    let rest ← lift ((← itemCount which item).sub (← numberArg quantity))
    putData which ("inv:" ++ (← textArg item))
      (.number (if (Number.int 0).lt rest then rest else .int 0))
    return .null
  | "item_count", [item] => return .number (← itemCount which item)
  | "save_record", [table, id, data] =>
    let t ← key table
    let i ← key id
    let v ← plain data
    change which fun w =>
      { w with records := w.records.insert t (((w.records.get? t).getD ∅).insert i v) }
    return .null
  | "load_record", [table, id] =>
    return ((((← read which).records.get? (← key table)).getD ∅).get? (← key id)).getD .null
  | "delete_record", [table, id] =>
    let t ← key table
    let i ← key id
    match (← read which).records.get? t with
    | none => pure ()
    | some rows => change which fun w => { w with records := w.records.insert t (rows.erase i) }
    return .null
  | "save_game", [slot, game] =>
    putData which ("game:" ++ (← textArg slot)) (← plain game)
    return .null
  | "load_game", [slot] =>
    match (← read which).store.get? ("game:" ++ (← textArg slot)) with
    | some (.object r) => newObject (← fields r)
    | _ => return .null
  | _, _ => badArguments

def keeping : List (String × Nat) :=
  [("save_data", 2), ("load_data", 1), ("delete_data", 1), ("add_item", 2), ("remove_item", 2),
    ("item_count", 1), ("save_record", 3), ("load_record", 2), ("delete_record", 2),
    ("save_game", 2), ("load_game", 1)]

def silent : List (String × Nat) :=
  [("apply_impulse", 3), ("apply_force", 3), ("wait", 1), ("play_sound", 1), ("stop_sound", 1),
    ("stop_all_sounds", 0), ("play_music", 2), ("stop_music", 0), ("set_volume", 1),
    ("load_tileset", 1), ("screen_shake", 2), ("screen_flash", 2), ("screen_tint", 2),
    ("define_sprite", 4), ("define_animation", 5), ("play_animation", 2), ("stop_animation", 1),
    ("heal", 2), ("recover", 1), ("give_exp", 1), ("give_gold", 1), ("add_to_party", 1),
    ("remove_from_party", 1), ("change_map", 3), ("change_gold", 2), ("change_stat", 4),
    ("change_level", 3), ("change_exp", 3), ("change_class", 2), ("change_encounter_rate", 1),
    ("learn_skill", 2), ("forget_skill", 2), ("equip_item", 2), ("set_formula", 2),
    ("set_autotile", 2), ("set_zone", 1), ("define_data", 3), ("define_event", 2),
    ("define_zone", 2), ("define_status", 3)]

def acting : List (String × Nat) :=
  [("spawn_entity", 3), ("destroy_entity", 1), ("show_entity", 1), ("hide_entity", 1),
    ("freeze_entity", 1), ("unfreeze_entity", 1), ("move_entity", 4), ("get_property", 2),
    ("set_property", 3), ("is_switch", 1), ("turn_on_switch", 1), ("turn_off_switch", 1),
    ("log", 1), ("show_dialogue", 3), ("show_choice", 2), ("emit_event", 2),
    ("call_function", 2), ("end_game", 0), ("win_game", 0), ("lose_game", 0),
    ("restart_game", 0), ("load_scene", 1), ("apply_status", 3), ("has_status", 2)]

def isOwners (c : Callbacks) : String → Bool
  | "on_dialogue" => c.dialogue
  | "on_choice" => c.choice
  | "on_log" => c.log
  | "on_event" => c.event
  | _ => false

def isKnown (c : Callbacks) (name : String) : Bool :=
  ((acting.lookup name <|> silent.lookup name) <|> keeping.lookup name).isSome || isOwners c name

def unknown (name : String) : Run Value := do
  log .warning .host ("unknown host function: " ++ name)
  return .null

def tellOwner (L : Linker) (name : String) (args : List Value) : Run Value := do
  match name, args with
  | "on_dialogue", [said, speaker] =>
    tell (.dialogue (← tree said) (← tree speaker))
    return .null
  | "on_choice", [prompt, options] =>
    tell (.choice (← tree prompt) (← tree options))
    nextChoice
  | "on_log", [message] =>
    tell (.log (← tree message))
    return .null
  | "on_event", [event, data] =>
    tellEvent L event data
    return .null
  | _, _ => badArguments

/-- The operations that change or show something. A call by name is left to
    `inner`. -/
def act (L : Linker) (inner : String → List Value → Run Value) (name : String)
    (args : List Value) : Run Value := do
  match name, args with
  | "spawn_entity", [e, x, y] => spawn e x y; return .null
  | "destroy_entity", [e] => destroy e; return .null
  | "show_entity", [e] => setProperty e (.text "visible") (.bool true); return .null
  | "hide_entity", [e] => setProperty e (.text "visible") (.bool false); return .null
  | "freeze_entity", [e] => setProperty e (.text "frozen") (.bool true); return .null
  | "unfreeze_entity", [e] => setProperty e (.text "frozen") (.bool false); return .null
  | "move_entity", [e, x, y, relative] => move e x y (!(← isVoid relative)); return .null
  | "get_property", [e, p] => property e p
  | "set_property", [e, p, v] => setProperty e p v; return .null
  | "is_switch", [s] => return .bool (((← read .main).switches.get? (← key s)).getD false)
  | "turn_on_switch", [s] =>
    let s ← key s
    change .main fun w => { w with switches := w.switches.insert s true }
    return .null
  | "turn_off_switch", [s] =>
    let s ← key s
    change .main fun w => { w with switches := w.switches.insert s false }
    return .null
  | "log", [message] => logLine message; return .null
  | "show_dialogue", [said, speaker, _] => dialogue said speaker; return .null
  | "show_choice", [prompt, options] => choose prompt options
  | "emit_event", [event, data] => emit L event data; return .null
  | "call_function", [fn, given] =>
    let fn ← textArg fn
    if isKnown (← get).hosts.callbacks fn then inner fn (← elements given) else unknown fn
  | "end_game", [] => change .main fun w => { w with running := false }; return .null
  | "win_game", [] =>
    change .main fun w => { w with running := false }
    write (.text "[HLRuntime] Game won!")
    return .null
  | "lose_game", [] =>
    change .main fun w => { w with running := false }
    write (.text "[HLRuntime] Game over.")
    return .null
  | "restart_game", [] => write (.text "[HLRuntime] Restart requested."); return .null
  | "load_scene", [scene] =>
    write (.text ("[HLRuntime] Load scene: " ++ (← textArg scene)))
    return .null
  | "apply_status", [effect, target, duration] =>
    let e ← key effect
    let t ← key target
    change .main fun w =>
      { w with statuses := w.statuses.insert t (((w.statuses.get? t).getD ∅).insert e duration) }
    return .null
  | "has_status", [entity, effect] =>
    return .bool ((((← read .main).statuses.get? (← key entity)).getD ∅).contains (← key effect))
  | _, _ => badArguments

def performWith (L : Linker) (inner : String → List Value → Run Value) (name : String)
    (args : List Value) : Run Value :=
  if (acting.lookup name).isSome then act L inner name args
  else if (keeping.lookup name).isSome then keep .main name args
  else if silent.lookup name == some args.length then return .null
  else badArguments

def callAt (L : Linker) : Nat → String → List Value → Run Value
  | 0, _, _ => throw (.defect .endless)
  | depth + 1, name, args =>
    do
      let c := (← get).hosts.callbacks
      if isOwners c name then tellOwner L name args
      else if isKnown c name then performWith L (callAt L depth) name args
      else unknown name

def callFunction (L : Linker) (name : String) (args : List Value) : Run Value := do
  callAt L ((← get).heap.cells.size + 1) name args

def perform (L : Linker) (name : String) (args : List Value) : Run Value :=
  performWith L (callFunction L) name args

end Parlance.World
