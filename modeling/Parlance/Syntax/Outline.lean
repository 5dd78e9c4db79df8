import Parlance.Syntax.Statement

/-!
# Outlines

A program as a JSON document. Every node is an object that names its type
first, then its position if it has one, then its parts; parts that are absent
are `null`, and so are numbers that JSON cannot write.
-/

namespace Parlance
namespace Outline

instance : Coe String Json := ⟨.text⟩
instance : Coe Bool Json := ⟨.bool⟩
instance : Coe (List String) Json := ⟨.texts⟩
instance : Coe (Option String) Json := ⟨Json.optional .text⟩

def position (p : Position) : Json := .object [("line", .nat p.line), ("col", .nat p.col)]

/-- The names of the parts are given as one text. -/
def part (type names : String) (values : List Json) : Json :=
  .object (("_type", type) :: (names.splitOn " ").zip values)

def node (type : String) (p : Position) (names : String) (values : List Json) : Json :=
  part type ("pos " ++ names) (position p :: values)

def number : Number → Json
  | .int n => .int n
  | .float x => if x.isFinite then .number (.float x) else .null

def tree : Json → Json
  | .number n => number n
  | .array items => .array (trees items)
  | .object entries => .object (treeEntries entries)
  | j => j
where
  trees : List Json → List Json
    | [] => []
    | j :: rest => tree j :: trees rest
  treeEntries : List (String × Json) → List (String × Json)
    | [] => []
    | (k, j) :: rest => (k, tree j) :: treeEntries rest

end Outline

open Outline

def Expr.outline : Expr → Json
  | .number p n => node "NumberLit" p "value" [Outline.number n]
  | .text p s => node "StringLit" p "value" [s]
  | .bool p b => node "BoolLit" p "value" [b]
  | .null p => node "NullLit" p "" []
  | .list p items => node "ArrayLit" p "elements" [.array (outlines items)]
  | .object p fields => node "ObjectLit" p "pairs" [.array (pairs fields)]
  | .name p word => node "Ident" p "name" [word]
  | .binary p op left right =>
    node "BinaryOp" p "op left right" [op.sign, outline left, outline right]
  | .builtin p fn args => node "FuncExpr" p "fn args" [fn.name, .array (outlines args)]
  | .field p owner key => node "GetKey" p "obj key" [owner, outline key]
  | .call p fn args => node "CallExpr" p "name args" [fn, .array (outlines args)]
  | .constant p word => node "MathConst" p "name" [word]
where
  outlines : List Expr → List Json
    | [] => []
    | e :: rest => outline e :: outlines rest
  pairs : List (String × Expr) → List Json
    | [] => []
    | (k, e) :: rest =>
      part "ObjectPair" "key value" [k, outline e] :: pairs rest

instance : Coe Expr Json := ⟨Expr.outline⟩
instance : Coe (Option Expr) Json := ⟨Json.optional Expr.outline⟩
instance : Coe (List Expr) Json := ⟨fun es => .array (es.map Expr.outline)⟩

def Comparison.outline (c : Comparison) : Json :=
  let (value, low, high) : Option Expr × Option Expr × Option Expr := match c with
    | .less e | .greater e | .equal e | .notEqual e => (some e, none, none)
    | .between low high => (none, some low, some high)
    | _ => (none, none, none)
  part "Comparison" "op value low high" [c.name, value, low, high]

instance : Coe Comparison Json := ⟨Comparison.outline⟩

def Condition.outline : Condition → Json
  | .logical p op left right =>
    node "Logical" p "op left right" [op.word, outline left, outline right]
  | .not p c => node "Not" p "cond" [outline c]
  | .bool p b => node "BoolCond" p "value" [b]
  | .value p left c => node "ValueCompare" p "left comparison" [left, c]
  | .property p subject prop c =>
    node "PropCondition" p "subject prop comparison" [subject, prop, c]
  | .named p name c => node "VarCondition" p "name comparison" [name, c]
  | .switch p which on => node "SwitchCond" p "switch on" [which, on]
  | .choice p e => node "ChoiceIs" p "value" [e]
  | .hasItem p item => node "HasItem" p "item" [item]
  | .hasStatus p entity effect => node "HasStatus" p "entity effect" [entity, effect]
  | .contains p subject e => node "Contains" p "subject value" [subject, e]
  | .startsWith p subject e => node "StartsWith" p "subject value" [subject, e]
  | .endsWith p subject e => node "EndsWith" p "subject value" [subject, e]
  | .hasKey p subject key => node "HasKey" p "subject key" [subject, key]
  | .ofType p subject typeName => node "TypeCheck" p "subject type_name" [subject, typeName]

instance : Coe Condition Json := ⟨Condition.outline⟩

def Event.outline : Event → Json
  | .starts p subject => node "Starts" p "subject" [subject]
  | .touches p subject object => node "Touches" p "subject object" [subject, object]
  | .presses p subject key => node "Presses" p "subject key" [subject, key]
  | .clicks p subject => node "Clicks" p "subject" [subject]
  | .enters p subject zone => node "Enters" p "subject zone" [subject, zone]
  | .leaves p subject zone => node "Leaves" p "subject zone" [subject, zone]
  | .becomes p subject value => node "Becomes" p "subject value" [subject, value]
  | .combatStart p attacker defender =>
    node "CombatStart" p "attacker defender" [attacker, defender]
  | .combatHit p attacker defender => node "CombatHit" p "attacker defender" [attacker, defender]
  | .combatDefeat p entity => node "CombatDefeat" p "entity" [entity]
  | .uses p subject item => node "Uses" p "subject item" [subject, item]
  | .condition p subject prop c =>
    node "ConditionEvent" p "subject prop comparison" [subject, prop, c]
  | .custom p name => node "CustomEvent" p "name" [name]

def VariableCommand.node : VariableCommand → String × String × List Json
  | .define name value => ("LetStmt", "name value", [name, value])
  | .assign name value => ("SetStmt", "name value", [name, value])
  | .change op name value => ("ModifyStmt", "op name value", [op.word, name, value])
  | .setKey owner key value => ("SetKey", "obj key value", [owner, key, value])
  | .setIndex list index value => ("SetIndex", "arr index value", [list, index, value])
  | .deleteKey owner key => ("DeleteKey", "obj key", [owner, key])

def CollectionCommand.node : CollectionCommand → String × String × List Json
  | .append value list => ("AppendStmt", "value name", [value, list])
  | .take side list => ("ArrayTake", "end name", [side.word, list])
  | .sort list descending => ("SortStmt", "name descending", [list, descending])
  | .reverse list => ("ReverseStmt", "name", [list])
  | .filter list item cond out => ("FilterStmt", "arr item_var cond out", [list, item, cond, out])
  | .merge first second out => ("MergeStmt", "a b out", [first, second, out])
  | .flatten list out => ("FlattenStmt", "arr out", [list, out])
  | .find needle list out => ("FindStmt", "needle arr out", [needle, list, out])
  | .getKey owner key out => ("GetKeyStmt", "obj key out", [owner, key, out])
  | .getIndex list index out => ("GetIndex", "arr index out", [list, index, out])
  | .slice source start stop out => ("SliceStmt", "src start end out", [source, start, stop, out])
  | .entries part owner out => ("KeysValues", "which obj out", [part.word, owner, out])
  | .indexOf needle source out => ("IndexOfStmt", "needle src out", [needle, source, out])
  | .transform list item expr out =>
    ("TransformStmt", "arr item_var expr out", [list, item, expr, out])
  | .quantify which item list comparison out =>
    ("EveryAny", "which item_var arr comparison out", [which.word, item, list, comparison, out])
  | .copy source out => ("CopyStmt", "src out", [source, out])
  | .combine sources out => ("AssignStmt", "sources out", [sources, out])

def TextCommand.node : TextCommand → String × String × List Json
  | .charAt source index out => ("CharAt", "src index out", [source, index, out])
  | .repeated text count out => ("RepeatStr", "text count out", [text, count, out])
  | .pad side text width fill out =>
    ("PadStmt", "direction src length fill out", [side.word, text, width, fill, out])
  | .clamp source low high out => ("ClampStmt", "src low high out", [source, low, high, out])
  | .typeOf source out => ("TypeOfStmt", "src out", [source, out])
  | .split text separator out => ("SplitStr", "text sep variable", [text, separator, out])
  | .replace old new source out =>
    ("ReplaceStr", "old new in_var variable", [old, new, source, out])
  | .convert value target out => ("Convert", "value to_type variable", [value, target, out])
  | .readJson text out => ("ParseJson", "text variable", [text, out])
  | .writeJson value out => ("Stringify", "value variable", [value, out])
  | .path part pieces out => ("PathOp", "op parts out", [part.word, pieces, out])
  | .pattern source flags out => ("RegexStmt", "pattern flags variable", [source, flags, out])
  | .test text regex flags out =>
    ("RegexTest", "text pattern flags variable", [text, regex, flags, out])
  | .extract regex text flags out =>
    ("RegexExtract", "pattern text flags variable", [regex, text, flags, out])

def StageCommand.node : StageCommand → String × String × List Json
  | .move entity x y relative => ("MoveStmt", "entity x y relative", [entity, x, y, relative])
  | .teleport entity x y => ("TeleportStmt", "entity x y", [entity, x, y])
  | .spawn entity x y onTile => ("SpawnStmt", "entity x y use_tile", [entity, x, y, onTile])
  | .act action entity => ("EntityStmt", "action entity", [action.word, entity])
  | .play kind name entity looping =>
    ("PlayStmt", "kind name entity loop", [kind, name, entity, looping])
  | .stop kind name entity => ("StopStmt", "kind name entity", [kind, name, entity])
  | .push kind entity x y => ("ApplyForce", "kind entity x y", [kind.word, entity, x, y])
  | .applyStatus effect target duration =>
    ("ApplyStatus", "effect target duration", [effect, target, duration])
  | .defineSprite entity source width height =>
    ("DefineSprite", "entity src frame_w frame_h", [entity, source, width, height])
  | .defineAnimation entity name frames fps looping =>
    ("DefineAnimation", "entity name frames fps loop", [entity, name,
      .array (frames.map Outline.number), fps, looping])
  | .shake intensity duration => ("ScreenShake", "intensity duration", [intensity, duration])
  | .flash color duration => ("ScreenFlash", "color duration", [color, duration])
  | .tint color alpha => ("ScreenTint", "color alpha", [color, alpha])
  | .loadTileset source => ("LoadTileset", "src", [source])
  | .setVolume value => ("SetVolume", "value", [value])
  | .setFormula key expr => ("SetFormula", "key expr", [key, expr])
  | .setAutotile tile name => ("SetAutotile", "tile tile_name", [tile, name])
  | .setZone zone => ("SetZone", "zone", [zone])
  | .print message => ("PrintStmt", "message", [message])
  | .log values => ("LogStmt", "values", [values])
  | .wait duration => ("WaitStmt", "duration", [duration])
  | .say text speaker portrait => ("SayStmt", "text speaker portrait", [text, speaker, portrait])
  | .emit event entity => ("EmitStmt", "event entity", [event, entity])
  | .gameState action => ("GameState", "action", [action.word])
  | .loadScene scene => ("LoadScene", "scene_id", [scene])
  | .openMenu tab => ("OpenMenu", "tab", [tab])
  | .openShop name => ("OpenShop", "name", [name])
  | .openFormulaEditor => ("OpenFormulaEditor", "", [])
  | .gameOver => ("GameOver", "", [])
  | .turnSwitch on switch => ("TurnSwitch", "on switch", [on, switch])
  | .toggleInventory => ("ToggleInventory", "", [])
  | .toggle target => ("ToggleStmt", "target", [target])

def TurnEffect.outline (e : TurnEffect) : Json :=
  part "TurnOp" "op amount text" [e.op, tree e.amount, tree e.text]

def ZoneEntry.outline (e : ZoneEntry) : Json :=
  part "ZoneEntry" "enemy weight" [e.enemy, Outline.number e.weight]

def PartyCommand.node : PartyCommand → String × String × List Json
  | .battleEnemies enemies music => ("BattleEnemy", "enemies music", [enemies, music])
  | .battle attacker defender => ("BattleStmt", "attacker defender", [attacker, defender])
  | .attack attacker defender => ("AttackStmt", "attacker defender", [attacker, defender])
  | .endBattle => ("EndBattle", "", [])
  | .addItem item quantity => ("AddItem", "item quantity", [item, quantity])
  | .removeItem item quantity => ("RemoveItem", "item quantity", [item, quantity])
  | .giveExperience amount => ("GiveExp", "amount", [amount])
  | .giveGold amount => ("GiveGold", "amount", [amount])
  | .party change member => ("PartyStmt", "action member", [change.word, member])
  | .heal target amount => ("HealStmt", "target amount", [target, amount])
  | .recover target => ("RecoverStmt", "target", [target])
  | .changeMap map place =>
    ("ChangeMap", "map_id x y", [map, place.map Prod.fst, place.map Prod.snd])
  | .changeClass entity className => ("ChangeClass", "entity class_id", [entity, className])
  | .changeLevel entity amount relative =>
    ("ChangeLevel", "entity amount relative", [entity, amount, relative])
  | .changeExperience entity amount relative =>
    ("ChangeExp", "entity amount relative", [entity, amount, relative])
  | .changeGold amount relative => ("ChangeGold", "amount relative", [amount, relative])
  | .changeGauge gauge entity amount relative =>
    ("ChangeStat", "stat entity amount relative", [gauge.word, entity, amount, relative])
  | .changeEncounterRate value => ("ChangeEncounterRate", "value", [value])
  | .skill change name target => ("SkillStmt", "action skill target", [change.word, name, target])
  | .equip item slot => ("EquipItem", "item slot", [item, slot])
  | .defineData kind id props =>
    ("DefineData", "kind data_id props", [kind, id, tree (.object props)])
  | .defineZone id entries =>
    ("DefineZone", "zone_id entries", [id, .array (entries.map ZoneEntry.outline)])
  | .defineStatus id props effects =>
    ("DefineStatus", "status_id props turn_ops", [id, tree (.object props),
      .array (effects.map TurnEffect.outline)])

def StoreCommand.node : StoreCommand → String × String × List Json
  | .saveData key value => ("SaveData", "key value", [key, value])
  | .loadData key out => ("LoadData", "key variable", [key, out])
  | .deleteData key => ("DeleteData", "key", [key])
  | .saveRecord id table data => ("SaveRecord", "record_id table data", [id, table, data])
  | .loadRecord id table out => ("LoadRecord", "record_id table variable", [id, table, out])
  | .deleteRecord id table => ("DeleteRecord", "record_id table", [id, table])
  | .saveGame slot => ("SaveGame", "slot", [slot])
  | .loadGame slot => ("LoadGame", "slot", [slot])

def SystemCommand.node : SystemCommand → String × String × List Json
  | .readFile path out => ("ReadFile", "path variable", [path, out])
  | .writeFile path contents append =>
    ("WriteFile", "path contents append", [path, contents, append])
  | .deleteFile path => ("DeleteFile", "path", [path])
  | .listFiles path out => ("ListFiles", "path out", [path, out])
  | .fileExists path out => ("FileExists", "path out", [path, out])
  | .createFolder path => ("CreateFolder", "path", [path])
  | .getVariable key out => ("GetEnv", "key out", [key, out])
  | .getClock reading out => ("GetClock", "what out", [reading.word, out])
  | .exit code => ("ExitStmt", "code", [code])
  | .run command out => ("RunCommand", "cmd out", [command, out])
  | .shell verb command out => ("ExecCommand", "verb command variable", [verb.word, command, out])

def ServiceCommand.node : ServiceCommand → String × String × List Json
  | .fetch url method body out => ("FetchUrl", "url method body variable", [url, method, body, out])
  | .serve port => ("ServeStmt", "port", [port])
  | .respond status body contentType =>
    ("RespondStmt", "status body content_type", [status, body, contentType])
  | .serveFile path => ("ServeFile", "path", [path])
  | .query sql params out => ("DbQuery", "sql params variable", [sql, params, out])
  | .insertRow table data => ("DbInsert", "table data", [table, data])
  | .selectRows columns table condition limit offset out =>
    ("DbSelect", "columns table where limit offset variable", [Json.optional .texts columns,
      table, condition, limit, offset, out])
  | .connect url out => ("ConnectSocket", "url variable", [url, out])
  | .broadcast message target room => ("Broadcast", "message target room", [message, target, room])

def ScriptCommand.node : ScriptCommand → String × String × List Json
  | .callHost name args => ("HostCall", "fn args", [name, args])
  | .callEvent id => ("CallEvent", "event_id", [id])
  | .callFunction name args out => ("CallFunction", "name args out", [name, args, out])
  | .callMethod method owner args out =>
    ("CallMethod", "method obj args out", [method, owner, args, out])
  | .create className args out =>
    ("NewInstance", "class_name args variable", [className, args, out])
  | .importModule file nickname => ("ImportStmt", "file alias", [file, nickname])
  | .importNames names file => ("ImportFrom", "names file", [names, file])
  | .exportName name => ("ExportStmt", "name", [name])
  | .raiseError message => ("ThrowStmt", "message", [message])

def Command.node : Command → String × String × List Json
  | .bag c => c.node
  | .collection c => c.node
  | .text c => c.node
  | .stage c => c.node
  | .party c => c.node
  | .store c => c.node
  | .system c => c.node
  | .service c => c.node
  | .script c => c.node

def Command.outline (p : Position) (c : Command) : Json :=
  let (type, names, values) := c.node
  Outline.node type p names values

def Stmt.typeName : Stmt → String
  | .command _ c => c.node.1
  | .awaiting _ _ _ | .awaitValue _ _ _ => "AwaitStmt"
  | .defineEvent _ _ _ => "DefineEvent"
  | .choice _ _ _ => "ChoiceStmt"
  | .branch _ _ _ _ => "IfStmt"
  | .times _ _ _ => "RepeatStmt"
  | .whileLoop _ _ _ => "WhileStmt"
  | .forEach _ _ _ _ => "ForEach"
  | .breakLoop _ => "BreakStmt"
  | .skipRound _ => "SkipStmt"
  | .giveBack _ _ => "ReturnStmt"
  | .attempt _ _ _ _ _ => "TryStmt"
  | .cases _ _ _ _ => "MatchStmt"
  | .defineFunction _ _ _ _ => "DefineFunction"
  | .reduce _ _ _ _ _ _ _ => "ReduceStmt"
  | .route _ _ _ _ _ => "RouteStmt"
  | .defineClass _ _ _ _ _ => "DefineClass"

/-- The value and the comparison, one of which is absent. -/
def CaseTest.values : CaseTest → List Json
  | .value e => [e, .null]
  | .comparison c => [.null, c]

def Stmt.outline : Stmt → Json
  | .command p c => c.outline p
  | .awaiting p q inner => node "AwaitStmt" p "inner value variable" [inner.outline q, .null, .null]
  | .awaitValue p value out => node "AwaitStmt" p "inner value variable" [.null, value, out]
  | .defineEvent p id body => node "DefineEvent" p "event_id body" [id, .array (outlines body)]
  | .choice p prompt options =>
    node "ChoiceStmt" p "prompt options" [prompt, .array (optionOutlines options)]
  | .branch p cond thenBody elseBody =>
    node "IfStmt" p "cond then_body else_body" [cond, .array (outlines thenBody),
      .array (outlines elseBody)]
  | .times p count body => node "RepeatStmt" p "count body" [count, .array (outlines body)]
  | .whileLoop p cond body => node "WhileStmt" p "cond body" [cond, .array (outlines body)]
  | .forEach p item list body =>
    node "ForEach" p "var iterable body" [item, list, .array (outlines body)]
  | .breakLoop p => node "BreakStmt" p "" []
  | .skipRound p => node "SkipStmt" p "" []
  | .giveBack p value => node "ReturnStmt" p "value" [value]
  | .attempt p body errorName handler cleanup =>
    node "TryStmt" p "body error_var catch_body finally_body"
      [.array (outlines body), errorName, .array (outlines handler), match cleanup with
        | none => .null
        | some stmts => .array (outlines stmts)]
  | .cases p subject arms default =>
    node "MatchStmt" p "subject cases default" [subject, .array (armOutlines arms),
      .array (outlines default)]
  | .defineFunction p name params body =>
    node "DefineFunction" p "name params body" [name, params, .array (outlines body)]
  | .reduce p list total item initial body out =>
    node "ReduceStmt" p "arr acc_var item_var initial body out" [list, total, item, initial,
      .array (outlines body), out]
  | .route p method path request body =>
    node "RouteStmt" p "method path req_var body" [method, path, request, .array (outlines body)]
  | .defineClass p name parent properties methods =>
    node "DefineClass" p "name parent properties methods" [name, parent, properties,
      .array (methodOutlines methods)]
where
  outlines : List Stmt → List Json
    | [] => []
    | s :: rest => outline s :: outlines rest
  optionOutlines : List (String × List Stmt) → List Json
    | [] => []
    | (label, body) :: rest =>
      part "ChoiceOption" "label body" [label, .array (outlines body)] :: optionOutlines rest
  armOutlines : List (CaseTest × List Stmt) → List Json
    | [] => []
    | (test, body) :: rest =>
      part "MatchCase" "body value comparison" (.array (outlines body) :: test.values) ::
        armOutlines rest
  methodOutlines : List (Method Stmt) → List Json
    | [] => []
    | ⟨name, params, body, isConstructor⟩ :: rest =>
      part "MethodDef" "name params body is_constructor" [name, params, .array (outlines body),
        isConstructor] :: methodOutlines rest

def Stmt.listOutline (stmts : List Stmt) : Json := .array (Stmt.outline.outlines stmts)

def Rule.outline (r : Rule) : Json :=
  node "Rule" r.pos "event body tag" [r.event.outline, Stmt.listOutline r.body, r.tag]

def Program.outline (p : Program) : Json :=
  .object [("rules", .array (p.rules.map Rule.outline)), ("init", Stmt.listOutline p.main)]

end Parlance
