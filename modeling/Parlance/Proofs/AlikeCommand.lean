import Parlance.Proofs.AlikeEval

/-!
# Commands Go Alike

The commands that reach no block by a name: on variables, collections, texts, the
stage, the party, the store, the machine and services. A linker comes into such a
command only through the expressions that it evaluates. All else in it is quiet, and
found to be so along the text of the command.

## Theorems

* `Run.Alike.onStage`: A command on the stage is as alike as what it does there.
* `Run.Alike.inStore`: A command on the store is as alike as what it does there.
* `alike_partyCommand`: A command on the party leaves alone what it does not write.
* `alike_storeCommand`: A command on the store leaves alone what it does not write.
-/

namespace Parlance
variable {R : Regime} [hR : R.Lawful] {whole : Bool} {L L' : Linker} [hL : Linker.Alike R L L']

namespace Run
variable {v w : Value} {name op path url : String} {vs : List Value} {α : Type}
  {act act' : Run Unit} {e : Option Expr}
variable {B : Bound} {item flags method : String} {out : Option String}

/-! ### Variables and collections -/

instance {r : Ref} : Quiet (storeIndex r v w) := within_bind
instance {r : Ref} {key : String} : Quiet (setEntry r key v) := within_bind

omit hR in
instance {owner : String} {container : Value} : Obeys R false (setKey owner container v w) := by
  unfold setKey
  cases container <;> infer_instance

instance : Within B (sortKeys vs) := by
  induction vs with
  | nil => exact within_pure
  | cons v rest ih =>
    rw [sortKeys]
    infer_instance

instance : Within B (withKeys vs) := by
  unfold withKeys
  split <;> infer_instance

omit hR in
instance {p p' : Run Bool} [Alike R false p p'] :
    Alike R false (keepIf item p vs) (keepIf item p' vs) := by
  induction vs with
  | nil =>
    rw [keepIf, keepIf]
    infer_instance
  | cons v rest ih =>
    rw [keepIf, keepIf]
    infer_instance

omit hR in
instance {f f' : Value → Run α} [∀ v, Alike R false (f v) (f' v)] :
    Alike R false (mapItems item f vs) (mapItems item f' vs) := by
  induction vs <;> rw [mapItems, mapItems] <;> infer_instance

instance : Quiet (listItems v) := by
  unfold listItems
  split <;> infer_instance

instance {acc : Dict Value} {names : List String} : Quiet (combineAll acc names) := by
  induction names generalizing acc with
  | nil => exact within_pure
  | cons name rest ih =>
    rw [combineAll]
    refine .next fun v => ?_
    cases v <;> infer_instance

instance {i : Int} : Quiet (itemAt v i) := by
  unfold itemAt
  cases v <;> infer_instance

/-! ### Texts -/

instance {type : String} : Quiet (convert v type) := by
  unfold convert Run.whole
  split <;> infer_instance

instance : Quiet (patternParts v flags) := by
  unfold patternParts
  cases v with
  | object r =>
    refine .next fun d => ?_
    cases d.get? "pattern" <;> infer_instance
  | _ => infer_instance

instance : Quiet (compile v flags) := by
  refine .next fun parts => ?_
  dsimp only
  split <;> infer_instance

omit hR in
instance {act act' : Run α} {fallback fallback' : Failure → Run Value} {go go' : α → Run Unit}
    [Alike R false act act'] [∀ f, Alike R false (fallback f) (fallback' f)]
    [∀ a, Alike R false (go a) (go' a)] :
    Alike R false (orHostFailure act out fallback go) (orHostFailure act' out fallback' go') := by
  refine .next fun r => ?_
  cases r <;> infer_instance

/-! ### The stage and the party -/

instance {e : Expr} : Alike R whole (numberValue L e) (numberValue L' e) := alike_bind
instance {e : Expr} : Alike R whole (textValue L e) (textValue L' e) := alike_bind

omit hR in
/-- A command on the stage is as alike as what it does there. -/
theorem Alike.onStage (hact : Alike R whole act act') :
    Alike R whole (onStage op act) (onStage op act') := by
  unfold Run.onStage
  infer_instance

instance [hact : Alike R whole act act'] :
    Alike R whole (onStage op act) (onStage op act') := hact.onStage

instance : Alike R false (emitEvent L op name v) (emitEvent L' op name v) := by
  simp (disch := decide) only [emitEvent, direct_eq_directly]
  infer_instance

instance {spell : Value → Run String} [∀ v, Quiet (spell v)] {es : List Expr} :
    Alike R whole (spellAll L spell es) (spellAll L' spell es) := by
  induction es <;> rw [spellAll, spellAll] <;> infer_instance

omit hR in
/-- A command on the store is as alike as what it does there. -/
theorem Alike.inStore (hact : Alike R whole act act') :
    Alike R whole (inStore op act) (inStore op act') := by
  unfold Run.inStore
  infer_instance

instance [hact : Alike R whole act act'] :
    Alike R whole (inStore op act) (inStore op act') := hact.inStore

omit hR in
theorem alike_directStore {args : List Value}
    (h : ∀ which, Obeys R false (World.keep which name args)) :
    Obeys R false (directStore name args) := by
  have hask : Obeys R false (askStore name args) := alike_askStore h
  unfold directStore
  infer_instance

/-! ### The machine -/

instance : Within B machine := within_bind
instance : Quiet files := within_bind
instance {f : Files} : Quiet (setFiles f) := quiet_modifyHosts
instance : Quiet (checkPath path) := within_ite
instance {fault : FileFault} : Quiet (fileFail op path fault : Run α) := within_hostFail

instance : Quiet (readBytes path) := by
  refine .next fun f => .next fun _ => ?_
  split <;> infer_instance

instance {bytes : ByteArray} : Within B (decode bytes) := by
  unfold decode
  split <;> infer_instance

instance quiet_changeFiles {change : Files → Except FileFault Files} :
    Quiet (changeFiles op path change) := by
  refine .next fun f => .next fun _ => ?_
  split <;> infer_instance

instance {contents : String} {append : Bool} :
    Quiet (writeText path contents append) := quiet_changeFiles

instance : Quiet (createFolder path) := by
  refine .next fun f => .next fun _ => ?_
  dsimp only
  refine .next fun _ => ?_
  split <;> infer_instance

instance : Quiet (listFolder path) := by
  refine .next fun f => .next fun _ => ?_
  split <;> infer_instance

instance : Quiet (fileIsThere path) := by
  refine .next fun f => ?_
  split
  · infer_instance
  · cases f.isThere path <;> infer_instance

omit hR in
instance {otherwise otherwise' : Run Unit} [Alike R false act act']
    [Alike R false otherwise otherwise'] :
    Alike R false (orWarn act otherwise) (orWarn act' otherwise') := by
  refine .next fun r => ?_
  cases r <;> infer_instance

instance {command : String} : Quiet (execute command) := within_bind

omit hR in
instance {keepStatus : Bool} : Obeys R false (shellCommand v out keepStatus) := by
  refine .next fun there => ?_
  split
  · infer_instance
  · refine .next fun command => .next fun r => ?_
    rcases r with ⟨message, status⟩ | printed <;> infer_instance

/-! ### Services -/

instance {fault : Url.FetchFault} : Quiet (refuse url fault) :=
  within_hostFail

instance {scheme host : String} : Quiet (reach url scheme host path) := by
  unfold reach
  split <;> infer_instance

instance : Quiet (requestOffline method url v) := by
  unfold requestOffline
  split <;> cases Url.fetchParts? url <;> infer_instance

instance : Quiet (request method url v) := by
  refine .next fun s => ?_
  split
  case h_4 replies _ _ =>
    refine .next fun t => .next fun _ => ?_
    split <;> infer_instance
  all_goals infer_instance

instance {port : Int} : Quiet (listen port) := by
  refine .next fun s => ?_
  split <;> infer_instance

instance {sql : String} {params : List Value} : Quiet (query sql params) := by
  refine .next fun s => ?_
  split
  case h_3 replies _ =>
    refine .next fun s => .next fun _ => ?_
    cases replies.lookup sql <;> infer_instance
  all_goals infer_instance

instance {n : Option Int} : Within B (intText? n) := by
  cases n
  · exact within_pure
  · exact within_bind

instance {columns : List String} {limit offset : Option Int} :
    Quiet (selectRows name columns op limit offset) := by
  refine .next fun s => ?_
  split <;> infer_instance

instance : Alike R whole (evalInt? L e) (evalInt? L' e) := by
  cases e <;> rw [evalInt?, evalInt?] <;> infer_instance

instance : Alike R whole (evalText? L e) (evalText? L' e) := by
  cases e <;> rw [evalText?, evalText?] <;> infer_instance

instance : Alike R whole (evalItems L e) (evalItems L' e) := by
  cases e <;> rw [evalItems, evalItems] <;> infer_instance

instance {table : String} : Quiet (insertRow table v) := by
  unfold insertRow
  cases v <;> infer_instance

instance : Quiet (rowList v) := by
  unfold rowList
  split <;> infer_instance

instance : Quiet (messageText v) := by
  unfold messageText
  split <;> infer_instance

omit hR in
instance {act act' : Run (Option Response)} [hact : Alike R whole act act'] :
    Alike R whole (answer op act) (answer op act') := by
  refine Alike.bind_get fun s hhere hcode => ?_
  split
  · exact .of_quiet inferInstance
  · split
    case isTrue hnone =>
      obtain ⟨hsame, hkept, hends, hleads⟩ := hact.run s hhere hcode
      rcases hrun : act.run s with ⟨e | _ | r, s'⟩ <;> rw [hrun] at hsame hkept hends hleads
      · refine ⟨by rw [bind_error hsame, bind_error hrun], ?_, fun he => ?_, ?_⟩ <;>
          rw [bind_error hrun]
        · exact hkept
        · exact fun h => hends he (congrArg Except.error (Except.error.inj h))
        · exact hleads
      · refine ⟨by rw [bind_ok hsame, bind_ok hrun], ?_, fun _ => ?_, ?_⟩ <;> rw [bind_ok hrun]
        · exact hkept
        · exact nofun
        · exact hleads
      -- There was no response before, so none is lost.
      · refine ⟨by rw [bind_ok hsame, bind_ok hrun], ?_, fun _ => ?_, ?_⟩ <;> rw [bind_ok hrun]
        · refine ⟨hkept.frame, hkept.bag, fun h => ?_, fun h => ?_, hkept.store, hkept.events,
            hkept.cells⟩
          · have h' := hkept.bodies h
            exact ⟨h'.functions, h'.modules, h'.classes, h'.methods⟩
          · rw [Option.isNone_iff_eq_none.mp hnone] at h
            cases h
        · exact nofun
        · exact hleads
    case isFalse => exact .of_quiet inferInstance

instance {path : Expr} : Alike R whole (fileResponse L path) (fileResponse L' path) := by
  refine .next fun there => ?_
  split
  · infer_instance
  · refine .next fun p => .next fun r => ?_
    cases r <;> infer_instance

end Run

open Run

/-! ### Commands without a linker of their own -/

instance {c : VariableCommand} : Alike R false (c.exec L) (c.exec L') := by
  cases c <;> simp only [VariableCommand.exec]
  case setIndex | deleteKey =>
    refine .next fun v => ?_
    cases v <;> infer_instance
  all_goals infer_instance

instance {c : CollectionCommand} : Alike R false (c.exec L) (c.exec L') := by
  cases c <;> simp only [CollectionCommand.exec, sorted, flatten, varOrName]
  case append =>
    refine .next fun v => .next fun w => ?_
    cases w <;> infer_instance
  case take | sort | reverse | entries | copy =>
    refine .next fun v => ?_
    cases v <;> infer_instance
  case find =>
    refine .next fun v => .next fun n => ?_
    cases v <;> infer_instance
  all_goals infer_instance

instance {c : TextCommand} : Alike R false (c.exec L) (c.exec L') := by
  cases c <;> simp only [TextCommand.exec, varText, repetitions]
  case replace source out =>
    cases source <;> infer_instance
  case readJson =>
    refine .next fun s => ?_
    cases Json.read s <;> infer_instance
  all_goals infer_instance

instance {c : StageCommand} : Alike R false (c.exec L) (c.exec L') := by
  cases c <;>
    simp (disch := decide) only [StageCommand.exec, direct_eq_directly, coordinate, tileSize]
  case act action _ =>
    cases action <;> simp (disch := decide) only [direct_eq_directly] <;> infer_instance
  case play =>
    refine Alike.onStage (.next fun v => ?_)
    split <;> infer_instance
  case stop e _ =>
    refine Alike.onStage ?_
    split
    case h_4 => cases e <;> infer_instance
    all_goals infer_instance
  case push kind _ _ _ =>
    cases kind <;> simp (disch := decide) only [direct_eq_directly] <;> infer_instance
  case gameState action =>
    cases action <;> simp (disch := decide) only [direct_eq_directly] <;> infer_instance
  case turnSwitch on _ =>
    cases on <;> simp (disch := decide) only [direct_eq_directly] <;> infer_instance
  all_goals infer_instance

/-- A command on the party leaves alone what it does not write. -/
theorem alike_partyCommand {c : PartyCommand} (hc : ∀ k, R.spared k → c.writes k = false) :
    Alike R false (c.exec L) (c.exec L') := by
  cases c <;> simp (disch := decide) only [PartyCommand.exec, direct_eq_directly]
  case battleEnemies music => cases music <;> infer_instance
  case addItem item _ =>
    have hadd (v : Value) : Obeys R false (directStore "add_item" [.text item, v]) :=
      alike_directStore fun _ => World.alike_keep_addItem fun k hk => ne_of_beq_false (hc k hk)
    infer_instance
  case removeItem item _ =>
    have hremove (v : Value) : Obeys R false (directStore "remove_item" [.text item, v]) :=
      alike_directStore fun _ => World.alike_keep_removeItem fun k hk => ne_of_beq_false (hc k hk)
    infer_instance
  case party change _ =>
    cases change <;> simp (disch := decide) only [direct_eq_directly] <;> infer_instance
  case heal amount => cases amount <;> infer_instance
  case changeMap place => cases place <;> infer_instance
  case skill change _ _ =>
    cases change <;> simp (disch := decide) only [direct_eq_directly] <;> infer_instance
  all_goals infer_instance

/-- A command on the store leaves alone what it does not write. -/
theorem alike_storeCommand {c : StoreCommand} (hc : ∀ k, R.spared k → c.writes k = false) :
    Alike R false (c.exec L) (c.exec L') := by
  cases c <;> simp only [StoreCommand.exec]
  case saveData key _ =>
    have hsave (v : Value) : Obeys R false (directStore "save_data" [.text key, v]) :=
      alike_directStore fun _ => World.alike_keep_saveData fun k hk => ne_of_beq_false (hc k hk)
    infer_instance
  case deleteData key =>
    have hdelete : Obeys R false (directStore "delete_data" [.text key]) :=
      alike_directStore fun _ => World.alike_keep_deleteData fun k hk => ne_of_beq_false (hc k hk)
    infer_instance
  case saveRecord id table data =>
    have hsave (v : Value) : Obeys R false (directStore "save_record" [.text table, .text id, v]) :=
      alike_directStore fun _ => World.alike_keep_saveRecord fun k hk => ne_of_beq_false (hc k hk)
    cases data <;> infer_instance
  case deleteRecord id table =>
    have hdelete : Obeys R false (directStore "delete_record" [.text table, .text id]) :=
      alike_directStore fun _ => World.alike_keep_deleteRecord fun k hk => ne_of_beq_false (hc k hk)
    infer_instance
  case saveGame slot =>
    have hsave (v : Value) : Obeys R false (directStore "save_game" [.text slot, v]) :=
      alike_directStore fun _ => World.alike_keep_saveGame fun k hk => ne_of_beq_false (hc k hk)
    infer_instance
  case loadGame =>
    have hmerge {saved : Dict Value} :
        Alike R false (modify fun s => { s with bag := s.bag.merge saved } : Run Unit)
          (modify fun s => { s with bag := s.bag.merge saved }) := alike_modifyBag
    refine Alike.inStore (.next fun v => ?_)
    cases v <;> infer_instance
  all_goals infer_instance

instance {c : SystemCommand} : Alike R false (c.exec L) (c.exec L') := by
  cases c <;> simp only [SystemCommand.exec, readText]
  case exit => exact .next fun v => .next fun code => inferInstance
  all_goals infer_instance

instance {c : ServiceCommand} : Alike R false (c.exec L) (c.exec L') := by
  cases c <;> simp only [ServiceCommand.exec]
  case insertRow table _ => cases table <;> infer_instance
  all_goals infer_instance

end Parlance
