import Mathlib.Data.List.InsertIdx
import Parlance.Proofs.NormalEval

/-!
# Commands Keep Numbers Normal

A command brings numbers into the session from what it evaluates, from what the hosts answer,
and from documents and sums. `Command.Regulated` names what it takes for all of them to be
normal: no document is read, no entity is moved by a distance, the count of an item is not
loaded as data, and no operation is called by name that could do one of these.

## Main definitions

* `Command.Regulated`: Commands of the kind bring in normal numbers only.

## Theorems

* `Run.direct_eq_steadily`: A steady operation is called as such.
* `keeps_stageCommand`: A command on the stage keeps numbers normal if it moves no entity by a
  distance.
* `keeps_systemCommand`: A command on the machine keeps numbers normal, unless it changes files
  and those need not be normal.
-/

namespace Parlance

set_option synthInstance.maxSize 4000

variable {K : Command → Prop}

/-- Commands of the kind bring in normal numbers only. -/
class Command.Regulated (K : Command → Prop) : Prop where
  readJson : ∀ e out, ¬K (.text (.readJson e out))
  move : ∀ entity x y relative, K (.stage (.move entity x y relative)) → relative = false
  loadData : ∀ key out, K (.store (.loadData key out)) → World.isCount key = false
  callHost : ∀ name args, K (.script (.callHost name args)) → World.isSteady name = true
  files : ∀ c c', K c → c.imports = true → K c' → c'.changesFiles = false

/-! ### Lists -/

namespace Sequence
variable {α : Type} [Normality K α] {a : α} {xs : List α} {lt : α → α → Bool}

instance {i : Nat} {blank : α} [Normal K blank] [hxs : Normal K xs]
    [Normal K a] : Normal K (store blank xs i a) := by
  induction i generalizing xs with
  | zero =>
    cases xs with
    | nil =>
      rw [store]
      infer_instance
    | cons x rest =>
      obtain ⟨-, hrest⟩ := normal_cons_iff.mp hxs
      rw [store]
      infer_instance
  | succ i ih =>
    cases xs with
    | nil =>
      rw [store]
      infer_instance
    | cons x rest =>
      obtain ⟨hx, hrest⟩ := normal_cons_iff.mp hxs
      rw [store]
      infer_instance

instance [hxs : Normal K xs] : Normal K (firstRun lt xs) := by
  have htake (n : Nat) : Normal K (xs.take n) := hxs.of_subset fun _ => List.mem_of_mem_take
  fun_cases firstRun lt xs <;> infer_instance

instance [hxs : Normal K xs] [ha : Normal K a] : Normal K (insertItem lt xs a) := by
  refine ⟨fun b hb => ?_⟩
  rcases List.eq_or_mem_of_mem_insertIdx hb with rfl | hb
  · exact ha
  · exact hxs.out b hb

instance normal_sort [hxs : Normal K xs] : Normal K (sort lt xs) := by
  have hmerged : Normal K (xs.mergeSort fun a b => !lt b a) :=
    hxs.of_subset fun _ => List.mem_mergeSort.mp
  unfold sort
  infer_instance

instance normal_sortDown [Normal K xs] : Normal K (sortDown lt xs) := by
  unfold sortDown
  infer_instance

end Sequence

namespace Run
variable {L : Linker} [hL : L.Keeping K] {v w : Value} {name op path url : String}
  {args vs : List Value} {r : Ref} {α : Type} {x : Run Unit}
variable {fuel : Nat} {item flags method : String} {out : Option String}

/-! ### Variables and collections -/

instance [Normal K w] : Keeps K (storeIndex r v w) := keeps_bind
instance {key : String} [Normal K v] : Keeps K (setEntry r key v) := keeps_bind

instance {owner : String} {key : Value} [Normal K w] : Keeps K (setKey owner v key w) := by
  unfold setKey
  split <;> infer_instance

instance [hvs : Normal K vs] : Keeps K (sortKeys vs) := by
  revert hvs
  induction vs with
  | nil => exact keeps_pure
  | cons v rest ih =>
    intro hvs
    obtain ⟨hv, hrest⟩ := normal_cons_iff.mp hvs
    rw [sortKeys]
    infer_instance

instance [Normal K vs] : Keeps K (withKeys vs) := by
  unfold withKeys
  split <;> infer_instance

instance {descending : Bool} [Normal K vs] : Keeps K (sorted descending vs) := by
  have hsort {keyed : List (SortKey × Value)} {lt : SortKey × Value → SortKey × Value → Bool}
      [Normal K keyed] :
      Normal K ((if descending then Sequence.sortDown lt else Sequence.sort lt) keyed) := by
    cases descending
    · exact Sequence.normal_sort
    · exact Sequence.normal_sortDown
  unfold sorted
  infer_instance

theorem normal_flattenAt_of_forall {h : Heap}
    (hone : ∀ v, Normal K v → Normal K (flattenOne h fuel v)) (hvs : Normal K vs) :
    Normal K (flattenAt h fuel vs) := by
  induction vs with
  | nil =>
    rw [flattenAt]
    infer_instance
  | cons v rest ih =>
    obtain ⟨hv, hrest⟩ := normal_cons_iff.mp hvs
    have hhead := hone v hv
    have htail := ih hrest
    rw [flattenAt]
    infer_instance

theorem normal_flattenOne {h : Heap} (hh : Normal K h) (hv : Normal K v) :
    Normal K (flattenOne h fuel v) := by
  induction fuel generalizing v with
  | zero =>
    cases v with
    | list r =>
      rw [flattenOne]
      infer_instance
    | _ =>
      unfold flattenOne
      infer_instance
  | succ fuel ih =>
    cases v with
    | list r =>
      rw [flattenOne]
      exact normal_flattenAt_of_forall (fun v hv => ih hv) inferInstance
    | _ =>
      unfold flattenOne
      infer_instance

instance [hvs : Normal K vs] : Keeps K (flatten vs) := by
  have hflat (s : Held K Session) (fuel : Nat) : Normal K (flattenAt s.1.heap fuel vs) :=
    normal_flattenAt_of_forall (fun v hv => normal_flattenOne inferInstance hv) hvs
  unfold flatten
  infer_instance

instance {p : Run Bool} [Keeps K p] [hvs : Normal K vs] : Keeps K (keepIf item p vs) := by
  revert hvs
  induction vs with
  | nil => exact keeps_pure
  | cons v rest ih =>
    intro hvs
    obtain ⟨hv, hrest⟩ := normal_cons_iff.mp hvs
    rw [keepIf]
    infer_instance

instance [Normality K α] {f : Value → Run α}
    [∀ v, Keeps K (f v)] [hvs : Normal K vs] : Keeps K (mapItems item f vs) := by
  revert hvs
  induction vs with
  | nil => exact keeps_pure
  | cons v rest ih =>
    intro hvs
    obtain ⟨hv, hrest⟩ := normal_cons_iff.mp hvs
    rw [mapItems]
    infer_instance

instance keeps_listItems : Keeps K (listItems v) := by
  unfold listItems
  split <;> infer_instance

instance {d : Dict Value} {names : List String} [Normal K d] : Keeps K (combineAll d names) := by
  induction names generalizing d with
  | nil => exact keeps_pure
  | cons name rest ih =>
    rw [combineAll]
    refine keeps_var.bind fun v => ?_
    cases v.1 <;> infer_instance

instance {i : Int} : Keeps K (itemAt v i) := by
  have hchar (c : Char) : Normal K (charValue c) := Value.normal_text
  unfold itemAt
  split <;> infer_instance

/-! ### Texts -/

instance {type : String} [Normal K v] : Keeps K (convert v type) := by
  unfold convert whole
  split <;> infer_instance

instance keeps_patternParts : Keeps K (patternParts v flags) := by
  unfold patternParts
  cases v with
  | object r =>
    refine keeps_fields.bind fun d => ?_
    cases d.1.get? "pattern" <;> infer_instance
  | _ => infer_instance

instance : Keeps K (compile v flags) := by
  refine keeps_patternParts.bind fun parts => ?_
  dsimp only
  split <;> infer_instance

instance [Normality K α] {x : Run α}
    {fallback : Failure → Run Value} {go : α → Run Unit} [Keeps K x]
    [∀ f, Keeps K (fallback f)] [hgo : ∀ a : Held K α, Keeps K (go a.1)] :
    Keeps K (orHostFailure x out fallback go) := by
  refine keeps_attempt.bind fun ⟨result, hresult⟩ => ?_
  cases result with
  | ok a => exact hgo ⟨a, hresult.out a rfl⟩
  | error f => infer_instance

/-! ### The world and the store -/

def steadily (L : Linker) (name : String) (args : List Value) : Run Unit :=
  if World.isSteady name then direct L name args else pure ()

omit hL in
/-- A steady operation is called as such. -/
theorem direct_eq_steadily (h : World.isSteady name = true) :
    direct L name args = steadily L name args := (if_pos h).symm

instance [Normal K args] : Keeps K (steadily L name args) := by
  unfold steadily direct
  split
  case isTrue h =>
    have hask : Preserves K (ask L name args) := preserves_ask h
    infer_instance
  case isFalse => infer_instance

instance {e : Expr} [Normal K e] : Keeps K (numberValue L e) := keeps_bind
instance keeps_evalTextValue {e : Expr} [Normal K e] : Keeps K (textValue L e) := keeps_bind
instance {o : Option String} : Normal K (nameValue o) := Value.normal_ofOption
instance keeps_onStage [Keeps K x] : Keeps K (onStage op x) := keeps_bind

instance [Normal K v] : Keeps K (emitEvent L op name v) := by
  rw [emitEvent, direct_eq_steadily (by decide)]
  infer_instance

instance {spell : Value → Run String} [∀ v, Keeps K (spell v)] {es : List Expr}
    [h : Normal K es] : Keeps K (spellAll L spell es) := by
  revert h
  induction es with
  | nil => exact keeps_pure
  | cons e rest ih =>
    intro h
    obtain ⟨he, hrest⟩ := normal_cons_iff.mp h
    rw [spellAll]
    infer_instance

instance {e : ZoneEntry} [Normal K e] : Normal K (zoneEntry e) := by
  unfold zoneEntry
  infer_instance

instance {e : TurnEffect} [Normal K e] : Normal K (turnEffect e) := by
  unfold turnEffect
  infer_instance

instance keeps_inStore [Keeps K x] : Keeps K (inStore op x) := keeps_bind

instance [Normal K args] : Keeps K (directStore name args) := by
  unfold directStore
  infer_instance

instance [hv : Normal K v] : Normal K (revive v) := by
  unfold revive
  split
  · rename_i s
    have hnumber : Normal K (Number.ofText s) := inferInstance
    split
    · infer_instance
    · split
      · infer_instance
      · rename_i x hx
        rw [hx] at hnumber
        infer_instance
  · infer_instance

/-! ### The machine -/

instance keeps_machine : Keeps K machine := keeps_bind
instance keeps_files : Keeps K files := keeps_bind

instance {reading : ClockReading} : Normal K (clock reading) := by
  cases reading <;> exact ⟨rfl⟩

instance keeps_checkPath : Keeps K (checkPath path) := keeps_ite

instance keeps_fileFail [Normality K α] {fault : FileFault} :
    Keeps K (fileFail op path fault : Run α) := keeps_hostFail

instance : Keeps K (readBytes path) := by
  refine keeps_files.bind fun f => keeps_checkPath.toPreserves.bind fun _ => ?_
  cases f.1.read path <;> infer_instance

instance {bytes : ByteArray} : Keeps K (decode bytes) := by
  unfold decode
  split <;> infer_instance

instance : Keeps K (listFolder path) := by
  refine keeps_files.bind fun f => keeps_checkPath.toPreserves.bind fun _ => ?_
  cases f.1.list path <;> infer_instance

instance : Keeps K (fileIsThere path) := by
  refine keeps_files.bind fun f => ?_
  split
  · infer_instance
  · cases f.1.isThere path <;> infer_instance

instance {y : Run Unit} [Keeps K x] [Keeps K y] : Keeps K (orWarn x y) := by
  refine keeps_attempt.bind fun ⟨result, _⟩ => ?_
  cases result <;> infer_instance

section Files

/-! Files may change where no script is read from them. -/

variable (hno : ∀ f : Files, Normal K f)

include hno

theorem keeps_setFiles {f : Files} : Keeps K (setFiles f) := by
  have hf := hno f
  unfold setFiles
  infer_instance

theorem keeps_changeFiles {op path : String} {f : Files → Except FileFault Files} :
    Keeps K (changeFiles op path f) := by
  refine keeps_files.bind fun fs => keeps_checkPath.toPreserves.bind fun _ => ?_
  cases f fs.1 with
  | ok f => exact keeps_setFiles hno
  | error fault => exact keeps_fileFail

theorem keeps_createFolder {path : String} : Keeps K (createFolder path) := by
  refine keeps_files.bind fun f => keeps_checkPath.toPreserves.bind fun _ => ?_
  rcases f.1.makeFolder path with ⟨f', fault⟩
  refine (keeps_setFiles hno).toPreserves.bind fun _ => ?_
  cases fault <;> infer_instance

theorem keeps_execute {command : String} : Keeps K (execute command) := by
  have hset (f : Files) : Keeps K (setFiles f) := keeps_setFiles hno
  unfold execute
  infer_instance

theorem keeps_shellCommand {keepStatus : Bool} : Keeps K (shellCommand v out keepStatus) := by
  refine keeps_capable.bind fun there => ?_
  split
  · infer_instance
  · refine keeps_text.bind fun command => (keeps_execute hno).bind fun result => ?_
    cases result.1 <;> infer_instance

end Files

/-! ### Services -/

instance {fault : Url.FetchFault} : Keeps K (refuse url fault) := keeps_hostFail

instance {scheme host : String} : Keeps K (reach url scheme host path) := by
  unfold reach
  split <;> infer_instance

instance : Keeps K (requestOffline method url v) := by
  unfold requestOffline
  rcases Url.fetchParts? url with _ | ⟨scheme, host, path⟩ <;> infer_instance

instance : Keeps K (request method url v) := by
  refine keeps_get.bind fun s => ?_
  have hnetwork : Normal K s.1.hosts.network := inferInstance
  cases hn : s.1.hosts.network with
  | canned replies busy =>
    rw [hn] at hnetwork
    have hreplies : Normal K replies := hnetwork.out.part
    dsimp only
    cases hf : replies.find? fun r => r.1 == method && r.2.1 == url with
    | none => infer_instance
    | some r =>
      have hr : Normal K r := normal_find?.out r hf
      infer_instance
  | _ => infer_instance

instance {port : Int} : Keeps K (listen port) := by
  refine keeps_get.bind fun s => ?_
  cases s.1.hosts.network <;> infer_instance

instance {sql : String} : Keeps K (query sql vs) := by
  refine keeps_get.bind fun s => ?_
  have hdatabase : Normal K s.1.hosts.database := inferInstance
  cases hd : s.1.hosts.database with
  | canned replies =>
    rw [hd] at hdatabase
    have hreplies : Normal K replies := hdatabase.out.part
    dsimp only
    cases hf : replies.lookup sql with
    | none => infer_instance
    | some v =>
      have hv : Normal K v := normal_lookup.out v hf
      infer_instance
  | _ => infer_instance

instance {n : Option Int} : Keeps K (intText? n) := by
  cases n <;> unfold intText? <;> infer_instance

instance {table condition : String} {columns : List String} {limit offset : Option Int} :
    Keeps K (selectRows table columns condition limit offset) := by
  refine keeps_get.bind fun s => ?_
  cases s.1.hosts.database <;> infer_instance

section Operands
variable {o : Option Expr} [h : Normal K o]

instance : Keeps K (evalInt? L o) := by
  cases o with
  | none => exact keeps_pure
  | some e =>
    have he := h.some_inv
    rw [evalInt?]
    infer_instance

instance : Keeps K (evalText? L o) := by
  cases o with
  | none => exact keeps_pure
  | some e =>
    have he := h.some_inv
    rw [evalText?]
    infer_instance

instance : Keeps K (evalItems L o) := by
  cases o with
  | none => exact keeps_pure
  | some e =>
    have he := h.some_inv
    rw [evalItems]
    infer_instance

end Operands

instance {table : String} : Keeps K (insertRow table v) := by
  unfold insertRow
  split <;> infer_instance

instance : Keeps K (rowList v) := by
  unfold rowList
  split <;> infer_instance

instance : Keeps K (messageText v) := by
  unfold messageText
  split <;> infer_instance

instance {x : Run (Option Response)} [hx : Keeps K x] : Keeps K (answer op x) := by
  refine keeps_get.bind fun s => ?_
  split
  · infer_instance
  · split
    · exact hx.bind_option inferInstance fun r => inferInstance
    · infer_instance

instance {path : Expr} [Normal K path] : Keeps K (fileResponse L path) := by
  refine keeps_capable.bind fun there => ?_
  split
  · infer_instance
  · refine keeps_evalText.bind fun p => keeps_attempt.bind fun result => ?_
    cases result.1 <;> infer_instance

end Run

section Commands
variable {L : Linker} [hL : L.Keeping K]
open Run

instance {c : VariableCommand} [h : Normal K c] : Keeps K (c.exec L) := by
  have hpart := @h.out.part
  cases c <;> rw [VariableCommand.exec]
  case setIndex | deleteKey =>
    refine keeps_var.bind fun v => ?_
    cases v.1 <;> infer_instance
  all_goals infer_instance

instance {c : CollectionCommand} [h : Normal K c] : Keeps K (c.exec L) := by
  have hpart := @h.out.part
  cases c <;> simp only [CollectionCommand.exec, varOrName]
  case append e list =>
    refine keeps_eval.bind fun v => keeps_var.bind fun ⟨old, hold⟩ => ?_
    cases old <;> infer_instance
  case take side list =>
    refine keeps_var.bind fun v => ?_
    cases side <;> cases v.1 <;> infer_instance
  case sort | reverse =>
    refine keeps_var.bind fun v => ?_
    cases v.1 <;> infer_instance
  case find =>
    refine keeps_var.bind fun v => keeps_eval.bind fun n => ?_
    cases v.1 <;> infer_instance
  case entries part owner out =>
    refine keeps_var.bind fun v => ?_
    cases part <;> cases v.1 <;> infer_instance
  case copy =>
    refine keeps_var.bind fun ⟨v, hv⟩ => ?_
    cases v <;> infer_instance
  all_goals infer_instance

theorem keeps_textCommand {c : TextCommand} (h : Normal K c)
    (hc : ∀ e out, c ≠ .readJson e out) : Keeps K (c.exec L) := by
  have hpart := @h.out.part
  cases c <;> simp only [TextCommand.exec, varText, repetitions, extracted]
  case readJson e out => exact absurd rfl (hc e out)
  case replace source _ => cases source <;> infer_instance
  case pad side _ _ _ _ => cases side <;> infer_instance
  all_goals infer_instance

/-- A command on the stage keeps numbers normal if it moves no entity by a distance. -/
theorem keeps_stageCommand {c : StageCommand} (h : Normal K c)
    (hc : ∀ entity x y relative, c = .move entity x y relative → relative = false) :
    Keeps K (c.exec L) := by
  have hpart := @h.out.part
  have hmove (entity : String) (x y : Held K Value) :
      Keeps K (direct L "move_entity" [.text entity, x.1, y.1, .bool false]) := by
    have hask : Preserves K (ask L "move_entity" [.text entity, x.1, y.1, .bool false]) :=
      preserves_ask_of_perform World.preserves_perform_move
    unfold direct
    infer_instance
  cases c
  case move entity x y relative =>
    obtain rfl := hc entity x y relative rfl
    rw [StageCommand.exec]
    infer_instance
  -- All other calls on the world are steady, which is decided from their names.
  all_goals
    simp (disch := decide) only [StageCommand.exec, direct_eq_steadily, coordinate, tileSize]
  case act action _ =>
    cases action <;> simp (disch := decide) only [direct_eq_steadily] <;> infer_instance
  case play =>
    refine @keeps_onStage _ _ _ (keeps_evalTextValue.bind fun v => ?_)
    split <;> infer_instance
  case stop e _ =>
    refine @keeps_onStage _ _ _ ?_
    split
    case h_4 =>
      cases e with
      | none => infer_instance
      | some e =>
        have he : Normal K e := Normal.some_inv hpart
        infer_instance
    all_goals infer_instance
  case push kind _ _ _ =>
    cases kind <;> simp (disch := decide) only [direct_eq_steadily] <;> infer_instance
  case gameState action =>
    cases action <;> simp (disch := decide) only [direct_eq_steadily] <;> infer_instance
  case turnSwitch on _ =>
    cases on <;> simp (disch := decide) only [direct_eq_steadily] <;> infer_instance
  all_goals infer_instance

instance {c : PartyCommand} [h : Normal K c] : Keeps K (c.exec L) := by
  have hpart := @h.out.part
  cases c <;> simp (disch := decide) only [PartyCommand.exec, direct_eq_steadily]
  case battleEnemies music =>
    cases music with
    | none => infer_instance
    | some e =>
      have he : Normal K e := Normal.some_inv hpart
      infer_instance
  case party change _ =>
    cases change <;> simp (disch := decide) only [direct_eq_steadily] <;> infer_instance
  case heal amount =>
    cases amount with
    | none => infer_instance
    | some e =>
      have he : Normal K e := Normal.some_inv hpart
      infer_instance
  case changeMap place =>
    cases place with
    | none => infer_instance
    | some place =>
      have hplace : Normal K place := Normal.some_inv hpart
      infer_instance
  case skill change _ _ =>
    cases change <;> simp (disch := decide) only [direct_eq_steadily] <;> infer_instance
  all_goals infer_instance

theorem keeps_storeCommand {c : StoreCommand} (h : Normal K c)
    (hc : ∀ key out, c = .loadData key out → World.isCount key = false) : Keeps K (c.exec L) := by
  have hpart := @h.out.part
  cases c <;> rw [StoreCommand.exec]
  case loadData key out =>
    have hload : Keeps K (askStore "load_data" [.text key]) :=
      keeps_askStore fun _ => World.keeps_loadData (hc key out rfl)
    infer_instance
  case loadRecord id table out =>
    have hload : Keeps K (askStore "load_record" [.text table, .text id]) :=
      keeps_askStore fun _ => World.keeps_loadRecord
    infer_instance
  case saveRecord data =>
    cases data with
    | none => infer_instance
    | some e =>
      have he : Normal K e := Normal.some_inv hpart
      infer_instance
  case loadGame slot =>
    -- Only the fields of the answer are looked at, and these are in the heap.
    refine @keeps_inStore _ _ _ (preserves_askStore.bind fun v => ?_)
    cases v <;> infer_instance
  all_goals infer_instance

/-- A command on the machine keeps numbers normal, unless it changes files and those need not be normal. -/
theorem keeps_systemCommand {c : SystemCommand} (h : Normal K c)
    (hc : Command.changesFiles (.system c) = true → ∀ f : Files, Normal K f) :
    Keeps K (c.exec L) := by
  have hpart := @h.out.part
  cases c <;> simp only [SystemCommand.exec, readText]
  case writeFile path contents append =>
    have hwrite {p s : String} : Keeps K (writeText p s append) :=
      keeps_changeFiles (hc rfl)
    infer_instance
  case deleteFile path =>
    have hdelete {op p : String} {f : Files → Except FileFault Files} :
        Keeps K (changeFiles op p f) := keeps_changeFiles (hc rfl)
    infer_instance
  case createFolder path =>
    have hcreate {p : String} : Keeps K (Run.createFolder p) := keeps_createFolder (hc rfl)
    infer_instance
  case run e out =>
    have hshell {v : Value} : Keeps K (shellCommand v out false) :=
      keeps_shellCommand (hc rfl)
    infer_instance
  case shell verb e out =>
    have hshell {v : Value} : Keeps K (shellCommand v out true) :=
      keeps_shellCommand (hc rfl)
    infer_instance
  all_goals infer_instance

instance {c : ServiceCommand} [h : Normal K c] : Keeps K (c.exec L) := by
  have hpart := @h.out.part
  cases c <;> unfold ServiceCommand.exec
  case insertRow table data => cases table <;> infer_instance
  all_goals infer_instance

end Commands
end Parlance
