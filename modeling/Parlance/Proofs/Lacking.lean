import Parlance.Proofs.AlikeExec
import Parlance.Proofs.Literals

/-!
# Capabilities that Are Missing

A session may run without a world, a store, a machine, a network, a database and sockets. A
statement that needs one of them then does nothing but to note a warning, which says what is
missing and what for. A variable for its result is set to null, an empty list or false.

Most statements look for the capability before they evaluate their operands. A few evaluate an
operand first: the code of `exit`, a port, a command of the shell, the name of a shop.

## Main definitions

* `Capability`: What a statement may need of the hosts.
* `Hosts.Lacking`: None of the capabilities is there.
* `Blank`: What stands for no result.
* `Need`: A capability that is needed, what it is needed for, and the variable for the result with
  what it is set to without it.
* `Need.Settles`: In the second session the variable for the result has been blanked, and no other
  variable has changed.

## Theorems

* `Run.exec_declines`: Without any of the capabilities, a statement that needs one completes.
* `Run.exec_declines_shop`: Files are listed and a shop is opened, without hosts.
-/

namespace Parlance
open ScriptCommand Command

/-! ### Capabilities -/

/-- What a statement may need of the hosts. -/
inductive Capability where
  | entity
  | persistence
  | process
  | network
  | database
  | socket
deriving DecidableEq

namespace Capability

def word : Capability → String
  | .entity => "entity"
  | .persistence => "persistence"
  | .process => "process"
  | .network => "network"
  | .database => "database"
  | .socket => "socket"

def message (c : Capability) (operation : String) : String :=
  "no " ++ c.word ++ " capability: cannot " ++ operation

def check : Capability → String → Run Bool
  | .entity => Run.hasStage
  | .persistence => Run.hasStore
  | .process => Run.hasMachine
  | .network => Run.hasNetwork
  | .database => Run.hasDatabase
  | .socket => Run.hasSockets

end Capability

/-- None of the capabilities is there. -/
structure Hosts.Lacking (h : Hosts) : Prop where
  stage : h.stage = .absent
  store : h.storeHost = .absent
  machine : h.machine = .absent
  network : h.network = .absent
  database : h.database = .absent
  sockets : h.sockets = .absent

/-- What stands for no result. -/
inductive Blank where
  | null
  | no
  | empty

def Blank.Shows (h : Heap) (v : Value) : Blank → Prop
  | .null => v = .null
  | .no => v = .bool false
  | .empty => ∃ r, v = .list r ∧ h.cell? r = some (.list [])

/-- A capability that is needed, what it is needed for, and the variable for the result
    with what it is set to without it. -/
structure Need where
  capability : Capability
  operation : String
  out : Option (String × Blank) := none

def Need.message (n : Need) : String := n.capability.message n.operation

/-- In the second session the variable for the result has been blanked, and no other
    variable has changed. -/
def Need.Settles (n : Need) (s s' : Session) : Prop :=
  match n.out with
  | none => s'.bag = s.bag
  | some (out, blank) => ∃ v, blank.Shows s'.heap v ∧ s'.bag = s.bag.insert out v

/-! ### The needs of commands -/

def StageCommand.task : StageCommand → String
  | .move entity _ _ _ => "move " ++ entity
  | .teleport entity _ _ => "teleport " ++ entity
  | .spawn entity _ _ _ => "spawn " ++ entity
  | .act action entity => action.word ++ " " ++ entity
  | .play kind _ _ _ => "play " ++ kind
  | .stop kind _ _ => "stop " ++ kind
  | .push kind _ _ _ => "apply " ++ kind.word
  | .applyStatus effect _ _ => "apply " ++ effect
  | .defineSprite _ _ _ _ => "define sprite"
  | .defineAnimation _ _ _ _ _ => "define animation"
  | .shake _ _ => "shake screen"
  | .flash _ _ => "flash screen"
  | .tint _ _ => "tint screen"
  | .loadTileset _ => "load tileset"
  | .setVolume _ => "set volume"
  | .setFormula _ _ => "set formula"
  | .setAutotile _ _ => "set autotile"
  | .setZone _ => "set zone"
  | .print _ => "print"
  | .log _ => "log"
  | .wait _ => "wait"
  | .say _ _ _ => "show dialogue"
  | .emit event _ => "emit " ++ event
  | .gameState action => action.word ++ " game"
  | .loadScene scene => "load scene " ++ scene
  | .openMenu _ => "open menu"
  | .openShop _ => "open shop"
  | .openFormulaEditor => "open formula editor"
  | .gameOver => "open game over"
  | .turnSwitch _ _ => "turn switch"
  | .toggleInventory => "toggle inventory"
  | .toggle target => "toggle " ++ target

/-- What the command needs. Items are kept in the store. -/
def PartyCommand.need : PartyCommand → Need
  | .battleEnemies _ _ => ⟨.entity, "start battle", none⟩
  | .battle _ _ => ⟨.entity, "start combat", none⟩
  | .attack _ _ => ⟨.entity, "attack", none⟩
  | .endBattle => ⟨.entity, "end battle", none⟩
  | .addItem item _ => ⟨.persistence, "add item " ++ item, none⟩
  | .removeItem item _ => ⟨.persistence, "remove item " ++ item, none⟩
  | .giveExperience _ => ⟨.entity, "give exp", none⟩
  | .giveGold _ => ⟨.entity, "give gold", none⟩
  | .party change _ => ⟨.entity, change.word ++ " party member", none⟩
  | .heal target _ => ⟨.entity, "heal " ++ target, none⟩
  | .recover target => ⟨.entity, "recover " ++ target, none⟩
  | .changeMap _ _ => ⟨.entity, "change map", none⟩
  | .changeClass _ _ => ⟨.entity, "change class", none⟩
  | .changeLevel _ _ _ => ⟨.entity, "change level", none⟩
  | .changeExperience _ _ _ => ⟨.entity, "change exp", none⟩
  | .changeGold _ _ => ⟨.entity, "change gold", none⟩
  | .changeGauge gauge _ _ _ => ⟨.entity, "change " ++ gauge.word, none⟩
  | .changeEncounterRate _ => ⟨.entity, "change encounter rate", none⟩
  | .skill change name _ => ⟨.entity, change.word ++ " skill " ++ name, none⟩
  | .equip _ _ => ⟨.entity, "equip item", none⟩
  | .defineData kind _ _ => ⟨.entity, "define " ++ kind, none⟩
  | .defineZone _ _ => ⟨.entity, "define zone", none⟩
  | .defineStatus _ _ _ => ⟨.entity, "define status", none⟩

def StoreCommand.need : StoreCommand → Need
  | .saveData key _ => ⟨.persistence, "save data " ++ key, none⟩
  | .loadData key out => ⟨.persistence, "load data " ++ key, some (out.getD key, .null)⟩
  | .deleteData key => ⟨.persistence, "delete data " ++ key, none⟩
  | .saveRecord id _ _ => ⟨.persistence, "save record " ++ id, none⟩
  | .loadRecord id _ out => ⟨.persistence, "load record " ++ id, some (out.getD id, .null)⟩
  | .deleteRecord id _ => ⟨.persistence, "delete record " ++ id, none⟩
  | .saveGame _ => ⟨.persistence, "save game", none⟩
  | .loadGame _ => ⟨.persistence, "load game", none⟩

def SystemCommand.need? : SystemCommand → Option Need
  | .readFile _ out => some ⟨.process, "read file", out.map (·, .null)⟩
  | .writeFile _ _ _ => some ⟨.process, "write file", none⟩
  | .deleteFile _ => some ⟨.process, "delete file", none⟩
  | .listFiles _ out => some ⟨.process, "list files", some (out, .empty)⟩
  | .fileExists _ out => some ⟨.process, "check file", some (out, .no)⟩
  | .createFolder _ => some ⟨.process, "create folder", none⟩
  | .getVariable _ out => some ⟨.process, "read environment", some (out, .null)⟩
  | .getClock _ _ => none
  | .exit _ => some ⟨.process, "exit", none⟩
  | .run _ out => some ⟨.process, "run command", out.map (·, .null)⟩
  | .shell _ _ out => some ⟨.process, "run command", out.map (·, .null)⟩

def Session.port (L : Linker) (s : Session) (e : Expr) : Int :=
  match ((do Run.int (← Run.eval L e) 0 : Run Int).run s).1 with
  | .ok port => port
  | .error _ => 0

/-- What the command needs. A response needs nothing, and a file is only looked for
    where a request has no response yet. -/
def ServiceCommand.need? (L : Linker) (s : Session) : ServiceCommand → Option Need
  | .fetch _ _ _ out => some ⟨.network, "fetch", out.map (·, .null)⟩
  | .serve port => some ⟨.network, "listen on port " ++ toString (s.port L port), none⟩
  | .respond _ _ _ => none
  | .serveFile _ =>
    if s.inRequest && s.response.isNone then some ⟨.process, "serve file", none⟩ else none
  | .query _ _ out => some ⟨.database, "query", out.map (·, .null)⟩
  | .insertRow _ _ => some ⟨.database, "insert", none⟩
  | .selectRows _ _ _ _ _ out => some ⟨.database, "select", out.map (·, .empty)⟩
  | .connect _ out => some ⟨.socket, "connect", out.map (·, .null)⟩
  | .broadcast _ _ _ => some ⟨.socket, "broadcast", none⟩

/-- What the command needs. The body of an event and a module that is being imported
    need nothing to be found. -/
def ScriptCommand.need? (s : Session) : ScriptCommand → Option Need
  | .callHost name _ => some ⟨.entity, "call " ++ name, none⟩
  | .callEvent id =>
    if s.definedEvents.contains id then none else some ⟨.entity, "call event " ++ id, none⟩
  | .importModule file _ | .importNames _ file =>
    if s.importing.contains file then none else some ⟨.process, "import " ++ file, none⟩
  | _ => none

def Command.need? (L : Linker) (s : Session) : Command → Option Need
  | .stage c => some ⟨.entity, c.task, none⟩
  | .party c => some c.need
  | .store c => some c.need
  | .system c => c.need?
  | .service c => c.need? L s
  | .script c => c.need? s
  | _ => none

/-- What the statement needs in a session, with the place where it is noted. -/
def Stmt.need? (L : Linker) (s : Session) : Stmt → Option (Position × Need)
  | .command pos c | .awaiting _ pos c =>
    (c.need? L { s with position := some pos }).map (pos, ·)
  | .choice pos _ _ => some (pos, ⟨.entity, "show choice", none⟩)
  | _ => none

def Command.early? : Command → Option Expr
  | .stage (.openShop e) => some e
  | .system (.exit e) | .system (.run e _) | .system (.shell _ e _) => some e
  | .service (.serve e) => some e
  | _ => none

def Stmt.early? : Stmt → Option Expr
  | .command _ c | .awaiting _ _ c => c.early?
  | _ => none

/-! ### Computations that decline -/

namespace Run
variable {α β : Type} {L : Linker} {s : Session} {need : Need}

theorem run_capable {isThere : Hosts → Bool} (h : isThere s.hosts = false) (word op : String) :
    (capable isThere word op).run s =
      (.ok false, s.warned ("no " ++ word ++ " capability: cannot " ++ op)) := by
  rw [capable, bind_ok (run_get s), h]
  rfl

theorem run_check (hs : s.hosts.Lacking) (c : Capability) (operation : String) :
    (c.check operation).run s = (.ok false, s.warned (c.message operation)) := by
  obtain ⟨hstage, hstore, hmachine, hnetwork, hdatabase, hsockets⟩ := hs
  cases c <;> rw [Capability.check] <;> refine run_capable ?_ _ operation <;> simp_all

/-- The computation gives a result, and all that it does is to note the missing
    capability and to settle the variable for its result. -/
def Declines (act : Run α) (a : α) (need : Need) (s : Session) : Prop :=
  ∃ s', act.run s = (.ok a, s') ∧
    s'.diagnostics = s.diagnostics.push ⟨.warning, need.message, s.position.getD ⟨0, 0⟩⟩ ∧
    need.Settles s s' ∧ s.heap.Extends s'.heap

theorem Declines.of_warned {act : Run α} {a : α} {c : Capability} {operation : String}
    (h : act.run s = (.ok a, s.warned (c.message operation))) :
    Declines act a ⟨c, operation, none⟩ s :=
  ⟨_, h, rfl, rfl, .refl⟩

theorem Declines.after {x : Run α} {P : Heap → α → Prop} {f : α → Run β} {b : β}
    (hx : Makes x P s) (hf : ∀ a h, P h a → x.run s = (.ok a, { s with heap := h }) →
      Declines (f a) b need { s with heap := h }) :
    Declines (x >>= f) b need s := by
  obtain ⟨a, h, hrun, hh, ha⟩ := hx
  obtain ⟨s', hrun', hdiagnostics, hsettles, hh'⟩ := hf a h ha hrun
  exact ⟨s', (bind_ok hrun).trans hrun', hdiagnostics, hsettles, hh.trans hh'⟩

theorem Declines.normally {act : Run Unit} (h : Declines act () need s) :
    Declines (normally act) .normal need s := by
  obtain ⟨s', hrun, hrest⟩ := h
  exact ⟨s', run_normally_ok hrun, hrest⟩

theorem declines_check (hs : s.hosts.Lacking) (c : Capability) (operation : String)
    {f : Bool → Run α} {a : α} (hf : f false = pure a) :
    Declines (c.check operation >>= f) a ⟨c, operation, none⟩ s := by
  refine .of_warned ?_
  rw [bind_ok (run_check hs c operation), hf]
  rfl

theorem declines_setVar (hs : s.hosts.Lacking) (c : Capability) (operation : String)
    {f : Bool → Run Unit} {out : String} {v : Value} {blank : Blank} (hf : f false = setVar out v)
    (hv : ∀ h, blank.Shows h v) :
    Declines (c.check operation >>= f) () ⟨c, operation, some (out, blank)⟩ s := by
  have hrun := bind_ok (f := f) (run_check hs c operation)
  rw [hf] at hrun
  exact ⟨_, hrun.trans rfl, rfl, ⟨v, hv _, rfl⟩, .refl⟩

theorem declines_setList (hs : s.hosts.Lacking) (c : Capability) (operation : String)
    {f : Bool → Run Unit} {out : String} (hf : f false = newList [] >>= setVar out) :
    Declines (c.check operation >>= f) () ⟨c, operation, some (out, .empty)⟩ s := by
  have hrun := bind_ok (f := f) (run_check hs c operation)
  have hnew := s.heap.cell?_alloc_self (.list [])
  rw [hf] at hrun
  exact ⟨_, hrun.trans rfl, rfl, ⟨_, ⟨_, rfl, hnew⟩, rfl⟩, s.heap.extends_alloc _⟩

theorem declines_setOut (hs : s.hosts.Lacking) (c : Capability) (operation : String)
    (out : Option String) (act : Run Unit) :
    Declines (do if !(← c.check operation) then setOut out .null else act) ()
      ⟨c, operation, out.map (·, .null)⟩ s := by
  cases out with
  | none => exact declines_check hs c operation rfl
  | some x => exact declines_setVar hs c operation rfl fun _ => rfl

theorem declines_onStage (hs : s.hosts.Lacking) (operation : String) (act : Run Unit) :
    Declines (onStage operation act) () ⟨.entity, operation, none⟩ s :=
  declines_check hs .entity operation rfl

theorem declines_inStore (hs : s.hosts.Lacking) (operation : String) (act : Run Unit) :
    Declines (inStore operation act) () ⟨.persistence, operation, none⟩ s :=
  declines_check hs .persistence operation rfl

end Run

open Run
variable {L : Linker} {s : Session} {need : Need}

/-! ### Commands -/

theorem StageCommand.declines (hs : s.hosts.Lacking) (c : StageCommand)
    (hearly : ∀ e, (stage c).early? = some e → e.LiteralIn s) :
    Declines (c.exec L) () ⟨.entity, c.task, none⟩ s := by
  cases c with
  | openShop name =>
    have hname := makes_evalText (L := L) hs.stage (hearly name rfl)
    have hvalue : Makes (textValue L name) (fun _ _ => True) s :=
      hname.bind fun _ _ _ _ => .pure trivial
    exact .after hvalue fun _ h _ _ => declines_onStage (s := { s with heap := h }) hs _ _
  | _ => exact declines_onStage hs _ _

theorem PartyCommand.declines (hs : s.hosts.Lacking) (c : PartyCommand) :
    Declines (c.exec L) () c.need s := by
  cases c with
  | addItem | removeItem => exact declines_inStore hs _ _
  | _ => exact declines_onStage hs _ _

theorem StoreCommand.declines (hs : s.hosts.Lacking) (c : StoreCommand) :
    Declines (c.exec L) () c.need s := by
  cases c with
  | loadData | loadRecord => exact declines_setVar hs .persistence _ rfl fun _ => rfl
  | _ => exact declines_inStore hs _ _

theorem Run.declines_shellCommand (hs : s.hosts.Lacking) {e : Expr} (he : e.LiteralIn s)
    (out : Option String) (keepStatus : Bool) :
    Declines (do shellCommand (← eval L e) out keepStatus) ()
      ⟨.process, "run command", out.map (·, .null)⟩ s :=
  .after (makes_eval hs.stage he) fun _ h _ _ =>
    declines_setOut (s := { s with heap := h }) hs .process _ out _

theorem SystemCommand.declines (hs : s.hosts.Lacking) (c : SystemCommand)
    (hearly : ∀ e, (system c).early? = some e → e.LiteralIn s) (hneed : c.need? = some need) :
    Declines (c.exec L) () need s := by
  cases c <;> cases hneed
  case readFile path out => exact declines_setOut hs .process _ out _
  case run e out => exact declines_shellCommand hs (hearly e rfl) out _
  case shell verb e out => exact declines_shellCommand hs (hearly e rfl) out _
  case listFiles path out => exact declines_setList hs .process _ rfl
  case fileExists | getVariable => exact declines_setVar hs .process _ rfl fun _ => rfl
  case exit e =>
    -- The code of `exit` is a number before the machine is looked for.
    have hcode := makes_evalInt (L := L) hs.stage (hearly e rfl)
    rw [SystemCommand.exec, ← bind_assoc]
    exact .after hcode fun code h _ _ =>
      declines_check (s := { s with heap := h }) hs .process _ rfl
  all_goals exact declines_check hs .process _ rfl

theorem Run.declines_serveFile (hs : s.hosts.Lacking) (hrequest : s.inRequest)
    (hresponse : s.response.isNone) (path : Expr) :
    Declines (answer "serve file" (fileResponse L path)) () ⟨.process, "serve file", none⟩ s := by
  have hfile : (fileResponse L path).run s =
      (.ok none, s.warned (Capability.process.message "serve file")) :=
    (bind_ok (run_check hs .process _)).trans rfl
  refine .of_warned ?_
  rw [answer, bind_ok (run_get s), hrequest, hresponse]
  exact (bind_ok hfile).trans rfl

theorem ServiceCommand.declines (hs : s.hosts.Lacking) (c : ServiceCommand)
    (hearly : ∀ e, (service c).early? = some e → e.LiteralIn s)
    (hneed : c.need? L s = some need) : Declines (c.exec L) () need s := by
  cases c
  case serveFile path =>
    -- The request is under way and has no response, so the file is looked for.
    rw [ServiceCommand.need?] at hneed
    split at hneed
    case isTrue hopen =>
      cases hneed
      rw [Bool.and_eq_true] at hopen
      exact declines_serveFile hs hopen.1 hopen.2 path
    case isFalse => cases hneed
  all_goals cases hneed
  case fetch url method body out => exact declines_setOut hs .network _ out _
  case query sql params out => exact declines_setOut hs .database _ out _
  case connect url out => exact declines_setOut hs .socket _ out _
  case serve e =>
    have hport := makes_evalInt (L := L) hs.stage (hearly e rfl)
    rw [ServiceCommand.exec, ← bind_assoc]
    refine .after hport fun port h hshort hrun => ?_
    rw [Session.port, hrun]
    -- The port is written into the warning.
    have htext : h.text (.int port) = .ok (toString port) :=
      (Heap.text_eq h _).trans (if_pos hshort)
    have hport : Makes (text (.int port)) (fun _ t => t = toString port) { s with heap := h } :=
      .of_run (run_text (s := { s with heap := h }) htext) rfl
    refine .after hport ?_
    rintro _ h rfl -
    exact declines_check (s := { s with heap := h }) hs .network _ rfl
  case selectRows columns table condition limit offset out =>
    cases out with
    -- The list is made even where no variable takes it.
    | none =>
      exact ⟨_, (bind_ok (run_check hs .database _)).trans rfl, rfl, rfl, s.heap.extends_alloc _⟩
    | some x => exact declines_setList hs .database _ rfl
  case insertRow table data => exact declines_check hs .database _ rfl
  case broadcast message target room => exact declines_check hs .socket _ rfl

theorem Run.run_importModule (hs : s.hosts.Lacking) {file : String}
    (hfile : s.importing.contains file = false) (isolated : Bool) :
    (importModule L file isolated).run s =
      (.ok none, s.warned (Capability.process.message ("import " ++ file))) := by
  have hload : (loadModule file).run s =
      (.ok none, s.warned (Capability.process.message ("import " ++ file))) :=
    (bind_ok (run_check hs .process _)).trans rfl
  rw [importModule, bind_ok (run_get s), if_neg (by rw [hfile]; exact Bool.false_ne_true)]
  exact (bind_ok hload).trans rfl

theorem ScriptCommand.declines (hs : s.hosts.Lacking) (pos : Position) (c : ScriptCommand)
    (hneed : c.need? s = some need) : Declines (c.exec L pos) .normal need s := by
  cases c
  case callHost name args =>
    cases hneed
    exact .normally (declines_check hs .entity _ rfl)
  case callEvent id =>
    -- The event is not defined, so the world is asked.
    rw [need?] at hneed
    split at hneed
    case isTrue => cases hneed
    case isFalse hid =>
      cases hneed
      have hnone : s.definedEvents.get? id = none := by
        simpa [Dict.contains] using hid
      rw [exec, Run.callEvent]
      refine .of_warned ?_
      rw [bind_ok (run_get s), hnone]
      exact (bind_ok ((bind_ok (run_check hs .entity _)).trans rfl)).trans rfl
  case importModule file nickname =>
    rw [need?] at hneed
    split at hneed
    case isTrue => cases hneed
    case isFalse hfile =>
      cases hneed
      have hmodule := run_importModule (L := L) hs (eq_false_of_ne_true hfile) nickname.isSome
      exact .normally (.of_warned ((bind_ok hmodule).trans rfl))
  case importNames names file =>
    rw [need?] at hneed
    split at hneed
    case isTrue => cases hneed
    case isFalse hfile =>
      cases hneed
      have hmodule := run_importModule (L := L) hs (eq_false_of_ne_true hfile) true
      exact .normally (.of_warned ((bind_ok hmodule).trans rfl))
  all_goals cases hneed

theorem Command.declines (hs : s.hosts.Lacking) (pos : Position) (c : Command)
    (hearly : ∀ e, c.early? = some e → e.LiteralIn s) (hneed : c.need? L s = some need) :
    Declines (c.exec L pos) .normal need s := by
  cases c with
  | bag | collection | text => cases hneed
  | stage c =>
    cases hneed
    exact (c.declines hs hearly).normally
  | party c =>
    cases hneed
    exact (c.declines hs).normally
  | store c =>
    cases hneed
    exact (c.declines hs).normally
  | system c => exact (c.declines hs hearly hneed).normally
  | service c => exact (c.declines hs hearly hneed).normally
  | script c => exact c.declines hs pos hneed

/-! ### Statements -/

namespace Run

theorem run_command_declines (hs : s.hosts.Lacking) {pos : Position} {c : Command}
    (hearly : ∀ e, c.early? = some e → e.LiteralIn s)
    (hneed : c.need? L { s with position := some pos } = some need) :
    ∃ s', (placing pos (c.exec L pos)).run s = (.ok .normal, s') ∧
      s'.diagnostics = s.diagnostics.push ⟨.warning, need.message, pos⟩ ∧
      need.Settles s s' ∧ s.heap.Extends s'.heap := by
  obtain ⟨s', hrun, hrest⟩ := c.declines (s := { s with position := some pos }) hs pos hearly hneed
  exact ⟨s', run_placing_ok hrun, hrest⟩

/-- Without any of the capabilities, a statement that needs one completes. It notes one
    warning, at its place, which names the capability and what it was needed for. The
    variable for its result is set to null, to an empty list or to false; every other
    variable is as it was, with all that is in it. -/
theorem exec_declines (L : Linker) (st : Stmt) (s : Session) (pos : Position) (need : Need)
    (hs : s.hosts.Lacking) (hneed : st.need? L s = some (pos, need))
    (hearly : ∀ e, st.early? = some e → e.LiteralIn s) :
    ∃ s', (exec L st).run s = (.ok .normal, s') ∧
      s'.diagnostics = s.diagnostics.push
        ⟨.warning, "no " ++ need.capability.word ++ " capability: cannot " ++ need.operation, pos⟩ ∧
      need.Settles s s' ∧ s.heap.Extends s'.heap := by
  cases st with
  | command place c =>
    obtain ⟨need', hneed', heq⟩ := Option.map_eq_some_iff.mp hneed
    cases heq
    rw [exec]
    exact run_command_declines hs hearly hneed'
  | awaiting outer place c =>
    obtain ⟨need', hneed', heq⟩ := Option.map_eq_some_iff.mp hneed
    cases heq
    rw [exec]
    -- What is waited for has a place of its own, and the warning is noted there.
    obtain ⟨s', hrun, hrest⟩ := run_command_declines (s := { s with position := some outer })
      hs hearly hneed'
    exact ⟨s', run_placing_ok hrun, hrest⟩
  | choice place prompt options =>
    cases hneed
    rw [exec]
    have hstage := run_check (s := { s with position := some pos }) hs .entity "show choice"
    exact ⟨_, run_placing_ok ((bind_ok hstage).trans rfl), rfl, rfl, .refl⟩
  | _ => cases hneed

/-- Files are listed and a shop is opened, without hosts. -/
theorem exec_declines_shop :
    let hosts : Hosts := { stage := .absent, storeHost := .absent, machine := .absent }
    let s : Session := { bag := .ofList [("x", .text "old"), ("y", .int 1)], hosts }
    let list : Stmt := .command ⟨1, 1⟩ (.system (.listFiles (.name ⟨1, 12⟩ "y") "x"))
    let shop : Stmt := .awaiting ⟨2, 1⟩ ⟨2, 7⟩ (.stage (.openShop (.text ⟨2, 17⟩ "shop \x7by\x7d")))
    (s.hosts.Lacking ∧
      list.need? .full s = some (⟨1, 1⟩, ⟨.process, "list files", some ("x", .empty)⟩) ∧
      shop.need? .full s = some (⟨2, 7⟩, ⟨.entity, "open shop", none⟩) ∧
      (Expr.text ⟨2, 17⟩ "shop \x7by\x7d").LiteralIn s) ∧
    (∃ s', (exec .full list).run s = (.ok .normal, s') ∧
      s'.diagnostics = #[⟨.warning, "no process capability: cannot list files", ⟨1, 1⟩⟩] ∧
      ∃ r, s'.heap.cell? r = some (.list []) ∧
        s'.bag = .ofList [("x", .list r), ("y", .int 1)]) ∧
    ∃ s', (exec .full shop).run s = (.ok .normal, s') ∧
      s'.diagnostics = #[⟨.warning, "no entity capability: cannot open shop", ⟨2, 7⟩⟩] ∧
      s'.bag = s.bag := by
  intro hosts s list shop
  have hs : s.hosts.Lacking := ⟨rfl, rfl, rfl, rfl, rfl, rfl⟩
  have hshop : (Expr.text ⟨2, 17⟩ "shop \x7by\x7d").LiteralIn s := by
    intro name hname v hv
    have hpieces : Template.pieces "shop \x7by\x7d" =
        [.char 's', .char 'h', .char 'o', .char 'p', .char ' ', .field "y"] := by decide
    obtain rfl : name = "y" := by simpa [hpieces] using hname
    cases hv
    exact ⟨"1", rfl⟩
  obtain ⟨s₁, hlisted, hnoted, ⟨v, ⟨r, rfl, hr⟩, hbag⟩, -⟩ :=
    exec_declines .full list s ⟨1, 1⟩ _ hs rfl nofun
  obtain ⟨s₂, hopened, hnoted', hbag', -⟩ :=
    exec_declines .full shop s ⟨2, 7⟩ _ hs rfl fun e he => by cases he; exact hshop
  exact ⟨⟨hs, rfl, rfl, hshop⟩, ⟨s₁, hlisted, hnoted, r, hr, hbag⟩, s₂, hopened, hnoted', hbag'⟩

end Run
end Parlance
