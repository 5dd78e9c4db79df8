import Parlance.Engine.Eval

/-!
# Commands on the Stage

A command asks the world to do something. It evaluates its operands first, from
left to right, and only when there is a world; the name of a shop alone is
evaluated in any case.
-/

namespace Parlance
namespace Run

def numberValue (L : Linker) (e : Expr) : Run Value := return .number (← evalNumber L e)

def textValue (L : Linker) (e : Expr) : Run Value := return .text (← evalText L e)

def nameValue (name : Option String) : Value := .ofOption .text name

def onStage (op : String) (act : Run Unit) : Run Unit := do
  if ← hasStage op then act

def emitEvent (L : Linker) (op name : String) (data : Value) : Run Unit :=
  onStage op (direct L "emit_event" [.text name, data])

def tileSize : Run Int := do
  let h := (← get).hosts
  return if h.stage == .world then h.tileSize else 32

def coordinate (L : Linker) (scale : Int) (e : Expr) : Run Value := do
  let n ← lift ((← evalNumber L e).mul (.int scale))
  return .number n.normal

end Run

def EntityAction.operation (a : EntityAction) : String := a.word ++ "_entity"

def GameAction.operation (a : GameAction) : String := a.word ++ "_game"

open Run

def StageCommand.exec (L : Linker) : StageCommand → Run Unit
  | .move entity x y relative => onStage ("move " ++ entity) do
    let a ← numberValue L x
    let b ← numberValue L y
    direct L "move_entity" [.text entity, a, b, .bool relative]
  | .teleport entity x y => onStage ("teleport " ++ entity) do
    let a ← numberValue L x
    let b ← numberValue L y
    direct L "move_entity" [.text entity, a, b, .bool false]
  | .spawn entity x y onTile => onStage ("spawn " ++ entity) do
    let scale ← if onTile then tileSize else pure 1
    let a ← coordinate L scale x
    let b ← coordinate L scale y
    direct L "spawn_entity" [.text entity, a, b]
  | .act action entity => onStage (action.word ++ " " ++ entity)
    (direct L action.operation [.text entity])
  | .play kind e entity looping => onStage ("play " ++ kind) do
    let name ← textValue L e
    match kind with
    | "sound" => direct L "play_sound" [name]
    | "music" => direct L "play_music" [name, .bool looping]
    | "animation" => direct L "play_animation" [nameValue entity, name]
    | _ => direct L "emit_event" [.text ("play:" ++ kind), name]
  | .stop kind e entity => onStage ("stop " ++ kind) do
    match kind with
    | "all" => direct L "stop_all_sounds" []
    | "music" => direct L "stop_music" []
    | "animation" => direct L "stop_animation" [nameValue entity]
    | _ =>
      let name ← match e with
        | some e => textValue L e
        | none => pure .null
      direct L "stop_sound" [name]
  | .push kind entity x y => onStage ("apply " ++ kind.word) do
    let a ← numberValue L x
    let b ← numberValue L y
    direct L ("apply_" ++ kind.word) [.text entity, a, b]
  | .applyStatus effect target duration => onStage ("apply " ++ effect) do
    let d ← numberValue L duration
    direct L "apply_status" [.text effect, .text target, d]
  | .defineSprite entity source width height => onStage "define sprite" do
    let s ← textValue L source
    let w ← numberValue L width
    let h ← numberValue L height
    direct L "define_sprite" [.text entity, s, w, h]
  | .defineAnimation entity name frames fps looping => onStage "define animation" do
    let n ← textValue L name
    let fs ← newList (frames.map .number)
    let f ← numberValue L fps
    let l ← eval L looping
    direct L "define_animation" [.text entity, n, fs, f, .bool l.toBool]
  | .shake intensity duration => onStage "shake screen" do
    let i ← numberValue L intensity
    let d ← numberValue L duration
    direct L "screen_shake" [i, d]
  | .flash color duration => onStage "flash screen" do
    let c ← textValue L color
    let d ← numberValue L duration
    direct L "screen_flash" [c, d]
  | .tint color alpha => onStage "tint screen" do
    let c ← textValue L color
    let a ← numberValue L alpha
    direct L "screen_tint" [c, a]
  | .loadTileset source => onStage "load tileset" (direct L "load_tileset" [.text source])
  | .setVolume e => onStage "set volume" do direct L "set_volume" [← numberValue L e]
  | .setFormula key e => onStage "set formula" do
    direct L "set_formula" [.text key, ← eval L e]
  | .setAutotile tile name => onStage "set autotile" do
    let t ← eval L tile
    direct L "set_autotile" [t, ← eval L name]
  | .setZone zone => onStage "set zone" do direct L "set_zone" [← eval L zone]
  | .print message => onStage "print" do
    direct L "log" [.text (← display (← eval L message))]
  | .log values => onStage "log" do
    direct L "log" [.text (" ".intercalate (← spellAll L display values))]
  | .wait duration => onStage "wait" do direct L "wait" [← numberValue L duration]
  | .say e speaker portrait => onStage "show dialogue" do
    direct L "show_dialogue" [← textValue L e, .text speaker, .text portrait]
  | .emit event entity => emitEvent L ("emit " ++ event) event (nameValue entity)
  | .gameState action => onStage (action.word ++ " game") (direct L action.operation [])
  | .loadScene scene => onStage ("load scene " ++ scene) (direct L "load_scene" [.text scene])
  | .openMenu tab => emitEvent L "open menu" "menu:open" (.text tab)
  | .openShop name => do emitEvent L "open shop" "shop:open" (← textValue L name)
  | .openFormulaEditor => emitEvent L "open formula editor" "formula:editor" (.text "")
  | .gameOver => emitEvent L "open game over" "game:over" (.text "")
  | .turnSwitch on switch => onStage "turn switch" do
    let id ← textValue L switch
    direct L (if on then "turn_on_switch" else "turn_off_switch") [id]
  | .toggleInventory => emitEvent L "toggle inventory" "inventory:toggle" (.text "")
  | .toggle target => emitEvent L ("toggle " ++ target) ("toggle:" ++ target) (.text "")

end Parlance
