import Parlance.Engine.Stage

/-!
# Commands on the Party

Commands on the characters of a game. The world is asked for all of them but
for items, which are kept in the store.
-/

namespace Parlance
namespace Run

def zoneEntry (e : ZoneEntry) : Json :=
  .object [("enemy", .text e.enemy), ("weight", .number e.weight)]

def turnEffect (e : TurnEffect) : Json :=
  .object [("op", .text e.op), ("amount", e.amount), ("text", e.text)]

def inStore (op : String) (act : Run Unit) : Run Unit := do
  if ← hasStore op then act

def directStore (name : String) (args : List Value) : Run Unit := do
  let _ ← askStore name args

end Run

def PartyChange.operation : PartyChange → String
  | .add => "add_to_party"
  | .remove => "remove_from_party"

open Run

def PartyCommand.exec (L : Linker) : PartyCommand → Run Unit
  | .battleEnemies enemies music => onStage "start battle" do
    let ids ← newList (← evalAll L enemies)
    if let some e := music then
      direct L "play_music" [← textValue L e, .bool true]
    direct L "emit_event" [.text "battle:start", .text (← document ids)]
  | .battle attacker defender =>
    emitEvent L "start combat" "combat:start" (.text (attacker ++ ":" ++ defender))
  | .attack attacker defender =>
    emitEvent L "attack" "combat:attack" (.text (attacker ++ ":" ++ defender))
  | .endBattle => emitEvent L "end battle" "combat:end" (.text "")
  | .addItem item quantity => inStore ("add item " ++ item) do
    directStore "add_item" [.text item, ← numberValue L quantity]
  | .removeItem item quantity => inStore ("remove item " ++ item) do
    directStore "remove_item" [.text item, ← numberValue L quantity]
  | .giveExperience amount => onStage "give exp" do
    direct L "give_exp" [← numberValue L amount]
  | .giveGold amount => onStage "give gold" do
    direct L "give_gold" [← numberValue L amount]
  | .party change member => onStage (change.word ++ " party member")
    (direct L change.operation [.text member])
  | .heal target amount => onStage ("heal " ++ target) do
    let n ← match amount with
      | some e => numberValue L e
      | none => pure .null
    direct L "heal" [.text target, n]
  | .recover target => onStage ("recover " ++ target) (direct L "recover" [.text target])
  | .changeMap map place => onStage "change map" do
    match place with
    | none => direct L "change_map" [.text map, .null, .null]
    | some (x, y) =>
      let a ← numberValue L x
      let b ← numberValue L y
      direct L "change_map" [.text map, a, b]
  | .changeClass entity className => onStage "change class"
    (direct L "change_class" [.text entity, .text className])
  | .changeLevel entity amount relative => onStage "change level" do
    direct L "change_level" [.text entity, ← numberValue L amount, .bool relative]
  | .changeExperience entity amount relative => onStage "change exp" do
    direct L "change_exp" [.text entity, ← numberValue L amount, .bool relative]
  | .changeGold amount relative => onStage "change gold" do
    direct L "change_gold" [← numberValue L amount, .bool relative]
  | .changeGauge gauge entity amount relative => onStage ("change " ++ gauge.word) do
    direct L "change_stat"
      [.text gauge.word, .text entity, ← numberValue L amount, .bool relative]
  | .changeEncounterRate e => onStage "change encounter rate" do
    direct L "change_encounter_rate" [← numberValue L e]
  | .skill change name target => onStage (change.word ++ " skill " ++ name)
    (direct L (change.word ++ "_skill") [.text name, .text target])
  | .equip item slot => onStage "equip item" do
    direct L "equip_item" [← textValue L item, nameValue slot]
  | .defineData kind id props => onStage ("define " ++ kind) do
    direct L "define_data" [.text kind, .text id, ← ofJson (.object props)]
  | .defineZone id entries => onStage "define zone" do
    direct L "define_zone" [.text id, ← ofJson (.array (entries.map zoneEntry))]
  | .defineStatus id props effects => onStage "define status" do
    let p ← ofJson (.object props)
    direct L "define_status" [.text id, p, ← ofJson (.array (effects.map turnEffect))]

end Parlance
