import Parlance.Grammar.Opener

/-!
# Reading Commands on the Stage
-/

namespace Parlance.Opener
open Reader

def move : Opener := fun p => do
  let entity ← ident
  let absolute ← accept ["to"]
  if !absolute then pass ["by"]
  let (x, y) ← pair
  give p (.stage (.move entity x y !absolute))

def teleport : Opener := fun p => do
  let entity ← ident
  pass ["to"]
  let (x, y) ← pair
  give p (.stage (.teleport entity x y))

def spawn : Opener := fun p => do
  let entity ← ident
  pass ["at"]
  let onTile ← accept ["tile"]
  let (x, y) ← pair
  give p (.stage (.spawn entity x y onTile))

def act (action : EntityAction) : Opener := fun p => do
  give p (.stage (.act action (← ident)))

def play : Opener := fun p => do
  let looping ← accept ["looping"]
  let kind ← ident
  if kind == "animation" then
    let title ← nameOrText
    pass ["on"]
    return ← give p (.stage (.play kind (.text p title) (some (← ident)) false))
  give p (.stage (.play kind (.text p (← nameOrText)) none looping))

def stop : Opener := fun p => do
  if !(← seesKinds [.identifier, .preposition]) then
    return ← give p (.stage (.stop "sound" none none))
  let kind ← ident
  if kind == "all" then
    pass ["sounds", "music", "sound"]
    return ← give p (.stage (.stop "all" none none))
  if kind == "animation" then
    pass ["on"]
    let entity ← if ← seesKinds [.identifier, .text] then some <$> ident else pure none
    return ← give p (.stage (.stop kind none entity))
  let title ← if ← seesKinds [.identifier, .text] then some <$> value else pure none
  give p (.stage (.stop kind title none))

def apply : Opener := fun p => do
  let kind ← ident
  let push (k : Push) : Reader (Option Stmt) := do
    let entity ← ident
    let (x, y) ← pair
    give p (.stage (.push k entity x y))
  match kind with
  | "impulse" => push .impulse
  | "force" => push .force
  | effect =>
    pass ["to"]
    let target ← ident
    let duration ← maybe ["for"] do
      let d ← value
      pass ["turns", "turn"]
      return d
    give p (.stage (.applyStatus effect target (duration.getD (.number p (.int 3)))))

def numberOr (default : Expr) : Reader Expr := do
  if ← seesKind .number then value else return default

def shake : Opener := fun p => do
  let intensity ← numberOr (.number p (.int 6))
  pass ["for", "seconds"]
  let duration ← numberOr (.number p (.float 0.5))
  give p (.stage (.shake intensity duration))

/-- The nearest whole number from 0 to 255. Infinite and undefined numbers have
    none. -/
def channelOf (n : Number) : Except Defect Nat := do
  match ← n.normal.add (.float 0.5) with
  | .int n => return (max 0 (min 255 n)).toNat
  | .float x => match Binary.floor? x with
    | some n => return (max 0 (min 255 n)).toNat
    | none => .error (if x.isNaN then .badValue else .overflow)

def channel : Reader Nat := do lift (channelOf (← advance).number)

def hexPair (n : Nat) : String :=
  String.ofList [Nat.digitChar (n / 16), Nat.digitChar (n % 16)]

def flashColor (p : Position) : Reader Expr := do
  if ← seesKind .text then return ← value
  if !(← seesKind .number) then return .text p "#ffffff"
  let red ← channel
  let green ← if ← seesKind .number then channel else pure 255
  let blue ← if ← seesKind .number then channel else pure 255
  return .text p ("#" ++ hexPair red ++ hexPair green ++ hexPair blue)

def flash : Opener := fun p => do
  let color ← flashColor p
  pass ["for", "seconds"]
  let duration ← numberOr (.number p (.float 0.3))
  give p (.stage (.flash color duration))

def tint : Opener := fun p => do
  let color ← value
  let alpha ← numberOr (.number p (.int 50))
  give p (.stage (.tint color alpha))

/-- What follows `log`. Further values stand on the same line. -/
def log : Opener := fun p => do
  let first ← value
  let rest ← loop do
    let t ← current
    if t.position.line == p.line
        && [.identifier, .text, .number, .boolean, .preposition].contains t.kind
        && !t.readsAny ["end", "then", "else"] then
      return .item (← value)
    return .stop
  give p (.stage (.log (first :: rest)))

def wait : Opener := fun p => do
  let duration ← value
  pass ["seconds"]
  give p (.stage (.wait duration))

def say : Opener := fun p => do
  let text ← nameOrText
  let speaker ← maybe ["as"] nameOrText
  let portrait ← if ← seesPair "with" "portrait" then do
      advanceTwice
      nameOrText
    else pure ""
  give p (.stage (.say (.text p text) (speaker.getD "") portrait))

def emit : Opener := fun p => do
  let event ← nameOrText
  give p (.stage (.emit event (← into ["on", "from"])))

def gameState (action : GameAction) : Opener := fun p => do
  pass ["game"]
  give p (.stage (.gameState action))

def openWindow : Opener := fun p => do
  let what ← ident
  match what with
  | "shop" =>
    let title ← if ← seesKinds [.text, .identifier] then value else pure (.text p "")
    give p (.stage (.openShop title))
  | "formula" =>
    pass ["editor"]
    give p (.stage .openFormulaEditor)
  | "game" =>
    if ← accept ["over"] then give p (.stage .gameOver)
    else give p (.stage (.openMenu what))
  | _ => give p (.stage (.openMenu what))

def turn : Opener := fun p => do
  let on := Text.lower (← ident) == "on"
  pass ["switch"]
  give p (.stage (.turnSwitch on (← value)))

def toggle : Opener := fun p => do
  if ← accept ["inventory"] then return ← give p (.stage .toggleInventory)
  give p (.stage (.toggle (← ident)))

def stage? : String → Option Opener
  | "move" => some move
  | "teleport" => some teleport
  | "spawn" => some spawn
  | "destroy" => some (act .destroy)
  | "show" => some (act .reveal)
  | "hide" => some (act .hide)
  | "freeze" => some (act .freeze)
  | "unfreeze" => some (act .unfreeze)
  | "play" => some play
  | "stop" => some stop
  | "apply" => some apply
  | "shake" => some shake
  | "flash" => some flash
  | "tint" => some tint
  | "print" => some fun p => do give p (.stage (.print (← value)))
  | "log" => some log
  | "wait" => some wait
  | "say" => some say
  | "emit" => some emit
  | "win" => some (gameState .win)
  | "lose" => some (gameState .lose)
  | "restart" => some (gameState .restart)
  | "open" => some openWindow
  | "turn" => some turn
  | "toggle" => some toggle
  | _ => none

end Parlance.Opener
