import Parlance.Json.Basic
import Parlance.Syntax.Condition

/-!
# Commands

A command is a statement without a body. Commands are sorted by what they act
on: variables and collections, texts and other values, the stage on which a
game plays, its characters, what is kept between games, the machine, services
over a network, and the definitions of a script.
-/

namespace Parlance

inductive Change where
  | increase
  | decrease
deriving DecidableEq

def Change.word : Change → String
  | .increase => "increase"
  | .decrease => "decrease"

inductive ListEnd where
  | first
  | last
deriving DecidableEq

def ListEnd.word : ListEnd → String
  | .first => "first"
  | .last => "last"

inductive EntryPart where
  | keys
  | values
deriving DecidableEq

def EntryPart.word : EntryPart → String
  | .keys => "keys"
  | .values => "values"

inductive Quantifier where
  | every
  | any
deriving DecidableEq

def Quantifier.word : Quantifier → String
  | .every => "every"
  | .any => "any"

inductive Side where
  | left
  | right
deriving DecidableEq

def Side.word : Side → String
  | .left => "left"
  | .right => "right"

inductive PathPart where
  | join
  | basename
  | dirname
  | extension
  | extname
deriving DecidableEq

def PathPart.word : PathPart → String
  | .join => "join"
  | .basename => "basename"
  | .dirname => "dirname"
  | .extension => "extension"
  | .extname => "extname"

inductive EntityAction where
  | destroy
  | reveal
  | hide
  | freeze
  | unfreeze
deriving DecidableEq

def EntityAction.word : EntityAction → String
  | .destroy => "destroy"
  | .reveal => "show"
  | .hide => "hide"
  | .freeze => "freeze"
  | .unfreeze => "unfreeze"

inductive GameAction where
  | win
  | lose
  | restart
  | finish
deriving DecidableEq

def GameAction.word : GameAction → String
  | .win => "win"
  | .lose => "lose"
  | .restart => "restart"
  | .finish => "end"

inductive Push where
  | impulse
  | force
deriving DecidableEq

def Push.word : Push → String
  | .impulse => "impulse"
  | .force => "force"

inductive PartyChange where
  | add
  | remove
deriving DecidableEq

def PartyChange.word : PartyChange → String
  | .add => "add"
  | .remove => "remove"

inductive SkillChange where
  | learn
  | forget
deriving DecidableEq

def SkillChange.word : SkillChange → String
  | .learn => "learn"
  | .forget => "forget"

inductive Gauge where
  | hp
  | mp
  | tp
deriving DecidableEq

def Gauge.word : Gauge → String
  | .hp => "hp"
  | .mp => "mp"
  | .tp => "tp"

inductive ClockReading where
  | time
  | date
  | timestamp
deriving DecidableEq

def ClockReading.word : ClockReading → String
  | .time => "time"
  | .date => "date"
  | .timestamp => "timestamp"

inductive ShellVerb where
  | execute
  | shell
deriving DecidableEq

def ShellVerb.word : ShellVerb → String
  | .execute => "execute"
  | .shell => "shell"

/-- Commands on variables and on entries of objects and lists. -/
inductive VariableCommand where
  | define (name : String) (value : Expr)
  | assign (name : String) (value : Expr)
  | change (op : Change) (name : String) (value : Expr)
  | setKey (owner : String) (key value : Expr)
  | setIndex (list : String) (index value : Expr)
  | deleteKey (owner : String) (key : Expr)

inductive CollectionCommand where
  | append (value : Expr) (list : String)
  | take (side : ListEnd) (list : String)
  | sort (list : String) (descending : Bool)
  | reverse (list : String)
  | filter (list item : String) (cond : Condition) (out : String)
  | merge (first second out : String)
  | flatten (list out : String)
  | find (needle : Expr) (list out : String)
  | getKey (owner : String) (key : Expr) (out : String)
  | getIndex (list : String) (index : Expr) (out : String)
  | slice (source : String) (start stop : Expr) (out : String)
  | entries (part : EntryPart) (owner out : String)
  | indexOf (needle : Expr) (source out : String)
  | transform (list item : String) (expr : Expr) (out : String)
  | quantify (which : Quantifier) (item list : String) (comparison : Comparison) (out : String)
  | copy (source out : String)
  | combine (sources : List String) (out : String)

inductive TextCommand where
  | charAt (source : String) (index : Expr) (out : String)
  | repeated (text count : Expr) (out : String)
  | pad (side : Side) (text width fill : Expr) (out : String)
  | clamp (source : String) (low high : Expr) (out : String)
  | typeOf (source out : String)
  | split (text separator : Expr) (out : Option String)
  | replace (old new : Expr) (source out : Option String)
  | convert (value : Expr) (target : String) (out : Option String)
  | readJson (text : Expr) (out : Option String)
  | writeJson (value : Expr) (out : Option String)
  | path (part : PathPart) (pieces : List Expr) (out : String)
  | pattern (pattern flags : String) (out : Option String)
  | test (text pattern : Expr) (flags : String) (out : Option String)
  | extract (pattern text : Expr) (flags : String) (out : Option String)

/-- Commands on the stage: entities, sounds, the screen and what is said. -/
inductive StageCommand where
  | move (entity : String) (x y : Expr) (relative : Bool)
  | teleport (entity : String) (x y : Expr)
  | spawn (entity : String) (x y : Expr) (onTile : Bool)
  | act (action : EntityAction) (entity : String)
  | play (kind : String) (name : Expr) (entity : Option String) (looping : Bool)
  | stop (kind : String) (name : Option Expr) (entity : Option String)
  | push (kind : Push) (entity : String) (x y : Expr)
  | applyStatus (effect target : String) (duration : Expr)
  | defineSprite (entity : String) (source width height : Expr)
  | defineAnimation (entity : String) (name : Expr) (frames : List Number) (fps looping : Expr)
  | shake (intensity duration : Expr)
  | flash (color duration : Expr)
  | tint (color alpha : Expr)
  | loadTileset (source : String)
  | setVolume (value : Expr)
  | setFormula (key : String) (expr : Expr)
  | setAutotile (tile name : Expr)
  | setZone (zone : Expr)
  | print (message : Expr)
  | log (values : List Expr)
  | wait (duration : Expr)
  | say (text : Expr) (speaker portrait : String)
  | emit (event : String) (entity : Option String)
  | gameState (action : GameAction)
  | loadScene (scene : String)
  | openMenu (tab : String)
  | openShop (name : Expr)
  | openFormulaEditor
  | gameOver
  | turnSwitch (on : Bool) (switch : Expr)
  | toggleInventory
  | toggle (target : String)

/-- One thing that a status does on every turn. -/
structure TurnEffect where
  op : String
  amount : Json
  text : Json

/-- One enemy of a zone with its share of the encounters. -/
structure ZoneEntry where
  enemy : String
  weight : Number

/-- Commands on the characters of a game, their belongings and their fights. -/
inductive PartyCommand where
  | battleEnemies (enemies : List Expr) (music : Option Expr)
  | battle (attacker defender : String)
  | attack (attacker defender : String)
  | endBattle
  | addItem (item : String) (quantity : Expr)
  | removeItem (item : String) (quantity : Expr)
  | giveExperience (amount : Expr)
  | giveGold (amount : Expr)
  | party (change : PartyChange) (member : String)
  | heal (target : String) (amount : Option Expr)
  | recover (target : String)
  | changeMap (map : String) (place : Option (Expr × Expr))
  | changeClass (entity className : String)
  | changeLevel (entity : String) (amount : Expr) (relative : Bool)
  | changeExperience (entity : String) (amount : Expr) (relative : Bool)
  | changeGold (amount : Expr) (relative : Bool)
  | changeGauge (gauge : Gauge) (entity : String) (amount : Expr) (relative : Bool)
  | changeEncounterRate (value : Expr)
  | skill (change : SkillChange) (skill target : String)
  | equip (item : Expr) (slot : Option String)
  | defineData (kind id : String) (props : List (String × Json))
  | defineZone (id : String) (entries : List ZoneEntry)
  | defineStatus (id : String) (props : List (String × Json)) (effects : List TurnEffect)

inductive StoreCommand where
  | saveData (key : String) (value : Expr)
  | loadData (key : String) (out : Option String)
  | deleteData (key : String)
  | saveRecord (id table : String) (data : Option Expr)
  | loadRecord (id table : String) (out : Option String)
  | deleteRecord (id table : String)
  | saveGame (slot : String)
  | loadGame (slot : String)

inductive SystemCommand where
  | readFile (path : Expr) (out : Option String)
  | writeFile (path contents : Expr) (append : Bool)
  | deleteFile (path : Expr)
  | listFiles (path : Expr) (out : String)
  | fileExists (path : Expr) (out : String)
  | createFolder (path : Expr)
  | getVariable (key : Expr) (out : String)
  | getClock (reading : ClockReading) (out : String)
  | exit (code : Expr)
  | run (command : Expr) (out : Option String)
  | shell (verb : ShellVerb) (command : Expr) (out : Option String)

inductive ServiceCommand where
  | fetch (url : Expr) (method : String) (body : Option Expr) (out : Option String)
  | serve (port : Expr)
  | respond (status body : Expr) (contentType : Option Expr)
  | serveFile (path : Expr)
  | query (sql : Expr) (params : Option Expr) (out : Option String)
  | insertRow (table : Option String) (data : Option Expr)
  | selectRows (columns : Option (List String)) (table : String) (condition limit offset : Option Expr)
      (out : Option String)
  | connect (url : Expr) (out : Option String)
  | broadcast (message : Expr) (target : String) (room : Option String)

/-- Commands that reach what scripts, modules and hosts define. -/
inductive ScriptCommand where
  | callHost (name : String) (args : List Expr)
  | callEvent (id : String)
  | callFunction (name : String) (args : List Expr) (out : Option String)
  | callMethod (method owner : String) (args : List Expr) (out : Option String)
  | create (className : String) (args : List Expr) (out : Option String)
  | importModule (file : String) (nickname : Option String)
  | importNames (names : List String) (file : String)
  | exportName (name : String)
  | raiseError (message : Expr)

/-- A statement without a body. -/
inductive Command where
  | bag (command : VariableCommand)
  | collection (command : CollectionCommand)
  | text (command : TextCommand)
  | stage (command : StageCommand)
  | party (command : PartyCommand)
  | store (command : StoreCommand)
  | system (command : SystemCommand)
  | service (command : ServiceCommand)
  | script (command : ScriptCommand)

end Parlance
