import Parlance.Dict
import Parlance.Grammar.Fold
import Parlance.Grammar.Opener

/-!
# Reading Commands on Characters

Commands on the party, its belongings and its fights, and the definitions of
the data behind them. The properties in a definition are constants.
-/

namespace Parlance.Opener
open Reader

def battle : Opener := fun p => do
  if ← seesKind .text then
    let first ← value
    let rest ← loop do
      if !(← accept ["and", ","]) then return .stop
      if ← seesKinds [.text, .identifier] then return .item (← value) else return .next
    let music ← if ← seesPair "with" "music" then do
        advanceTwice
        some <$> value
      else pure none
    return ← give p (.party (.battleEnemies (first :: rest) music))
  let attacker ← ident
  pass ["with"]
  give p (.party (.battle attacker (← ident)))

def attack : Opener := fun p => do
  let attacker ← ident
  give p (.party (.attack attacker (← ident)))

def quantity : Reader Expr := do
  if (← seesAny ["quantity", "x"]) || (← seesKind .number) then
    pass ["quantity", "x"]
    value
  else return .number (← position) (.int 1)

def addItem : Opener := fun p => do
  pass ["item"]
  let item ← nameOrText
  let amount ← quantity
  pass ["to"]
  pass ["inventory"]
  give p (.party (.addItem item amount))

def removeItem : Opener := fun p => do
  pass ["item"]
  let item ← nameOrText
  let amount ← quantity
  pass ["from"]
  pass ["inventory"]
  give p (.party (.removeItem item amount))

def seesPartyAfter (word : String) : Reader Bool := do
  return (← seesAhead 1 word) && (← seesAhead 2 "party")

def member (change : PartyChange) : Opener := fun p => do
  let who ← nameOrText
  advanceTwice
  give p (.party (.party change who))

def add : Opener := fun p => do
  pass ["member"]
  if ← seesPartyAfter "to" then member .add p else addItem p

def amountThenUnit (p : Position) (make : Expr → PartyCommand) : Reader (Option Stmt) := do
  let amount ← value
  let _ ← advance
  give p (.party (make amount))

def bestow : Opener := fun p => do
  if ← seesKind .number then
    if (← seesAhead 1 "exp") || (← seesAhead 1 "experience") then
      return ← amountThenUnit p .giveExperience
    if ← seesAhead 1 "gold" then return ← amountThenUnit p .giveGold
  if ← accept ["exp", "experience"] then
    return ← give p (.party (.giveExperience (← value)))
  if ← accept ["gold"] then return ← give p (.party (.giveGold (← value)))
  if ← seesPartyAfter "to" then member .add p else addItem p

def remove : Opener := fun p => do
  if ← seesAny ["first", "last"] then
    let side : ListEnd := if (← spelling) == "first" then .first else .last
    pass ["from", "of"]
    return ← give p (.collection (.take side (← ident)))
  pass ["member"]
  if ← seesPartyAfter "from" then member .remove p else removeItem p

def equip : Opener := fun p => do
  let item ← value
  pass ["in"]
  let slot ← if ← seesKinds [.identifier, .text] then do
      let s ← nameOrText
      pass ["slot"]
      pure (some s)
    else pure none
  give p (.party (.equip item slot))

def heal : Opener := fun p => do
  if ← accept ["all"] then return ← give p (.party (.heal "all" none))
  let target ← nameOrText
  give p (.party (.heal target (← maybe ["by", "for"] value)))

def recover : Opener := fun p => do
  if (← atFinish) || (← seesAny ["then", "end"]) || (← atStatement) then
    return ← give p (.party (.recover "all"))
  give p (.party (.recover (← nameOrText)))

def byOrTo : Reader Bool := do
  let relative ← sees "by"
  pass ["by", "to"]
  return relative

def changeOf (p : Position) (make : String → Expr → Bool → PartyCommand) :
    Reader (Option Stmt) := do
  let entity ← nameOrText
  let relative ← byOrTo
  give p (.party (make entity (← value) relative))

def changeWorld : Opener := fun p => do
  match ← ident with
  | "map" =>
    pass ["to"]
    let map ← nameOrText
    give p (.party (.changeMap map (← maybe ["at"] pair)))
  | "class" =>
    let entity ← nameOrText
    pass ["to"]
    give p (.party (.changeClass entity (← nameOrText)))
  | "level" => changeOf p .changeLevel
  | "exp" => changeOf p .changeExperience
  | "experience" => changeOf p .changeExperience
  | "gold" =>
    let relative ← byOrTo
    give p (.party (.changeGold (← value) relative))
  | "hp" => changeOf p (.changeGauge .hp)
  | "mp" => changeOf p (.changeGauge .mp)
  | "tp" => changeOf p (.changeGauge .tp)
  | "encounter" =>
    pass ["rate"]
    pass ["to"]
    give p (.party (.changeEncounterRate (← value)))
  | _ => nothing

def skill (change : SkillChange) : Opener := fun p => do
  pass ["skill"]
  let title ← nameOrText
  let target ← maybe ["for"] nameOrText
  give p (.party (.skill change title (target.getD "player")))

def constant : Reader Json := do lift (← value).fold

def constantNumber : Reader Number := do lift (← value).foldNumber

def push (props : Dict Json) (key : String) (items : List Json) : Dict Json :=
  match props.get? key with
  | some (.array old) => props.insert key (.array (old ++ items))
  | _ => props.insert key (.array items)

def statistics : Reader (Dict Json) := do
  let entries ← loop do
    let t ← current
    match Grammar.statistics.lookup (Text.lower t.spelling) with
    | some stat =>
      if t.isWord then
        let _ ← advance
        return .item (stat, Json.number (← constantNumber))
      return .stop
    | none => return .stop
  return .ofList entries

def property (props : Dict Json) : Reader (Dict Json) := do
  let key ← nameOrText
  match key with
  | "drops" =>
    let item ← nameOrText
    let rate ← maybe ["at", "rate"] constantNumber
    return push props key
      [.object [("id", .text item), ("rate", .number (rate.getD (.float 0.1)))]]
  | "skills" =>
    let titles ← loop do
      let t ← current
      if t.kind == .text || (t.kind == .identifier && !t.readsAny Grammar.dataStops) then
        return .item (← nameOrText)
      return .stop
    return push props key (titles.map .text)
  | "initStats" => return props.insert key (.object (← statistics).entries)
  | "growth" => return props.insert key (.object (← statistics).entries)
  | _ => return props.insert key (← constant)

/-- Threads a state through at most so many turns until the definition ends. -/
def dataTurns {σ : Type} (step : σ → Reader σ) : Nat → σ → Reader σ
  | 0, _ => endless
  | n + 1, s => do
    if (← atFinish) || (← seesAny Grammar.dataStops) then return s
    dataTurns step n (← step s)

def untilDataEnd {σ : Type} (step : σ → Reader σ) (s : σ) : Reader σ := do
  dataTurns step (← budget) s

def defineData (kind : String) : Opener := fun p => do
  let id ← nameOrText
  let props ← untilDataEnd property ∅
  pass ["end"]
  give p (.party (.defineData kind id props.entries))

def defineZone : Opener := fun p => do
  let id ← nameOrText
  let entries ← untilDataEnd (fun (entries : List ZoneEntry) => do
    let enemy ← nameOrText
    let weight ← maybe ["at", "weight"] constantNumber
    return entries ++ [⟨enemy, weight.getD (.int 1)⟩]) []
  pass ["end"]
  give p (.party (.defineZone id entries))

def turnEffect : Reader (Option TurnEffect) := do
  match ← ident with
  | "deal" =>
    let amount ← value
    let percent ← accept ["percent"]
    pass ["damage", "hp"]
    return some ⟨if percent then "dealPercent" else "dealFlat", ← lift amount.fold, .null⟩
  | "restore" =>
    let amount ← value
    let percent ← accept ["percent"]
    let onMagic ← sees "mp"
    pass ["hp", "mp"]
    let op := match onMagic, percent with
      | true, true => "restoreMpPercent"
      | true, false => "restoreMpFlat"
      | false, true => "healPercent"
      | false, false => "healFlat"
    return some ⟨op, ← lift amount.fold, .null⟩
  | "drain" =>
    let amount ← value
    let onMagic ← sees "mp"
    pass ["hp", "mp"]
    return some ⟨if onMagic then "drainMp" else "dealFlat", ← lift amount.fold, .null⟩
  | "message" => message
  | "print" => message
  | "say" => message
  | _ => return none
where
  message : Reader (Option TurnEffect) := do
    let text ← value
    if ← accept ["as"] then
      if ← seesKind .identifier then let _ ← advance
    return some ⟨"message", .null, ← lift text.fold⟩

def statusPart (parts : Dict Json × List TurnEffect) : Reader (Dict Json × List TurnEffect) := do
  let key ← nameOrText
  if key == "each" then
    pass ["turn"]
    let effects ← untilDataEnd (fun (effects : List TurnEffect) => do
      return effects ++ (← turnEffect).toList) []
    pass ["end"]
    return (parts.1, parts.2 ++ effects)
  return (parts.1.insert key (← constant), parts.2)

def defineStatus : Opener := fun p => do
  let id ← nameOrText
  let (props, effects) ← untilDataEnd statusPart (∅, [])
  pass ["end"]
  give p (.party (.defineStatus id props.entries effects))

def party? : String → Option Opener
  | "battle" => some battle
  | "attack" => some attack
  | "add" => some add
  | "give" => some bestow
  | "grant" => some bestow
  | "remove" => some remove
  | "take" => some removeItem
  | "equip" => some equip
  | "heal" => some heal
  | "recover" => some recover
  | "change" => some changeWorld
  | "learn" => some (skill .learn)
  | "forget" => some (skill .forget)
  | _ => none

end Parlance.Opener
