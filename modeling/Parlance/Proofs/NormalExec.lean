import Parlance.Proofs.NormalCommand
import Parlance.Proofs.NormalProgram
import Parlance.Proofs.Operation

/-!
# Scripts Keep Numbers Normal

Modules, classes, statements and the operations on a session. Statements follow the structure
of the code, and what is reached by name is normal because everything in the session is.

## Main definitions

* `Session.Operation.IsOf`: The commands of the script are of the kind, and a request holds no
  other numbers than normal ones.

## Theorems

* `Run.keeps_importModule`: Importing a module keeps the session normal if imports are of the
  kind.
* `Run.keeps_execBlock`: A normal block keeps the session normal.
* `Run.keeps_read`: Reading a source whose commands are of the kind gives a normal program.
-/

namespace Parlance
open Stmt ClassDef Program Command Keeps

set_option synthInstance.maxSize 4000

variable {K : Command → Prop} {m : Module}

/-! ### Modules -/

instance : Normality K Module := ⟨fun m => Normal K m.vars ∧ Normal K m.functions⟩

instance {vars : Dict Value} {functions : Dict Function} [h : Normal K vars]
    [h' : Normal K functions] : Normal K (Module.mk vars functions) := ⟨⟨h, h'⟩⟩

instance [h : Normal K m] : Normal K m.vars := h.out.1
instance [h : Normal K m] : Normal K m.functions := h.out.2
instance {exports : List String} [Normal K m] : Normal K (m.visible exports) := normal_ite

namespace Session
variable {s before : Session} {file : String} {isolated : Bool}

instance [Normal K s] : Normal K (s.enterModule file isolated) := by
  unfold enterModule
  infer_instance

instance [hs : Normal K s] : Normal K (exitModule before file isolated s) := by
  unfold exitModule
  dsimp only
  split
  · split
    · infer_instance
    · rename_i saved rest h
      obtain ⟨hsaved, hrest⟩ := normal_cons_iff.mp (h ▸ hs.out.snapshots)
      infer_instance
  · infer_instance

end Session

namespace Run
variable {L : Linker} [hL : L.Keeping K] {file name : String} {names : List String}

instance {faults : List Fault} : Keeps K (noteFaults faults) := by
  unfold noteFaults
  simp only [bind_pure_unit]
  induction faults with
  | nil => exact keeps_pure
  | cons f rest ih =>
    rw [List.forIn_cons]
    refine bind inferInstance fun step => ?_
    rcases step.1 with b | b
    · infer_instance
    · exact ih

theorem moduleBytes_cases (f : Files) (path : String) :
    (∃ d, moduleBytes f path = throw (.defect d)) ∨ ∃ found, moduleBytes f path = pure found ∧
        ∀ bytes, found = some bytes → f.file? path = .ok (some bytes) := by
  unfold moduleBytes
  split
  · exact .inr ⟨none, rfl, fun bytes h => by cases h⟩
  · cases hfile : f.file? path with
    | error fault => exact .inl ⟨.fileSystem, rfl⟩
    | ok found => exact .inr ⟨found, rfl, fun bytes h => h ▸ rfl⟩

theorem decode_cases (bytes : ByteArray) : (∃ d, decode bytes = throw (.defect d)) ∨
      ∃ s, decodeText bytes = some s ∧
        decode bytes = pure (String.ofList (unifyLines s.toList)) := by
  unfold decode
  cases decodeText bytes with
  | none => exact .inl ⟨.notText, rfl⟩
  | some s => exact .inr ⟨s, rfl, rfl⟩

theorem keeps_moduleText_bind {β : Type} [Normality K β] {k : Option String → Run β}
    (himports : ∃ c, K c ∧ c.imports = true) (hnone : Keeps K (k none))
    (hsome : ∀ source, Normal K (ofSource source).program → Keeps K (k (some source))) :
    Keeps K (moduleText file >>= k) := by
  unfold moduleText
  simp only [bind_assoc]
  refine keeps_machine.bind fun h => keeps_get.bind fun s => ?_
  have hfiles : Normal K h.1.files := inferInstance
  generalize Path.tidy _ = path
  rcases moduleBytes_cases h.1.files path with ⟨d, hthrow⟩ | ⟨found, hfound, hfile⟩
  · rw [hthrow]
    exact keeps_throw (e := Signal.defect d)
  rw [hfound, pure_bind]
  cases found with
  | none =>
    simp only [bind_assoc, pure_bind]
    infer_instance
  | some bytes =>
    rcases decode_cases bytes with ⟨d, hthrow⟩ | ⟨text, hdecode, hpure⟩
    · simp only [hthrow]
      exact keeps_throw (e := Signal.defect d)
    · simp only [hpure, pure_bind]
      refine hsome _ ⟨fun p hp => ?_⟩
      exact hfiles.out himports _ ⟨path, bytes, text, hfile bytes rfl, hdecode, rfl⟩ p hp

theorem keeps_loadModule (himports : ∃ c, K c ∧ c.imports = true) : Keeps K (loadModule file) := by
  refine keeps_capable.bind fun there => ?_
  split
  · infer_instance
  · exact keeps_moduleText_bind himports inferInstance fun source hprogram => inferInstance

instance {p : Program} {isolated : Bool} [Normal K p] : Keeps K (runModule L p file isolated) := by
  unfold runModule Module.newFunctions moduleBody Module.newVars
  infer_instance

/-- Importing a module keeps the session normal if imports are of the kind. -/
theorem keeps_importModule (himports : ∃ c, K c ∧ c.imports = true) {isolated : Bool} :
    Keeps K (importModule L file isolated) := by
  refine keeps_get.bind fun s => ?_
  split
  · infer_instance
  · exact (keeps_loadModule himports).bind_option inferInstance fun p => inferInstance

theorem keeps_importAs (himports : ∃ c, K c ∧ c.imports = true) {nickname : Option String} :
    Keeps K (importAs L file nickname) := by
  refine (keeps_importModule himports).bind_option inferInstance fun m => ?_
  cases nickname <;> infer_instance

instance {m : Module} [Normal K m] : Keeps K (takeNames m file names) := by
  induction names with
  | nil => exact keeps_pure
  | cons name rest ih =>
    rw [takeNames]
    cases hget : m.vars.get? name with
    | none => infer_instance
    | some v =>
      have hv : Normal K v := normal_get?.out v hget
      infer_instance

theorem keeps_importNames (himports : ∃ c, K c ∧ c.imports = true) :
    Keeps K (importNames L names file) := by
  unfold importNames
  exact (keeps_importModule himports).bind_option inferInstance fun m => inferInstance

/-! ### Classes -/

instance : Normal K (bare name) := by
  unfold bare
  infer_instance

instance {parent : String} {c : ClassDef} [Normal K c] : Normal K (child name parent c) := by
  unfold child
  infer_instance

instance {c : ClassDef} {properties : List String} {methods : List (Method Stmt)}
    [Normal K c] [Normal K methods] : Normal K (c.extend properties methods) := by
  unfold extend addMethod
  infer_instance

instance {parent : Option String} : Keeps K (classBase name parent) := by
  cases parent with
  | none => exact keeps_pure
  | some parent =>
    rw [classBase]
    split
    · infer_instance
    · refine keeps_get.bind fun s => ?_
      cases hget : s.1.classes.get? parent with
      | none => infer_instance
      | some c =>
        have hc : Normal K c := normal_get?.out c hget
        infer_instance

instance {d : Dict Value} {args : List Value} [hd : Normal K d]
    [Normal K args] : Normal K (propertyFields d names args) := by
  induction names generalizing d args with
  | nil => exact hd
  | cons p ps ih =>
    rw [propertyFields]
    infer_instance

instance {r : Ref} {ms : List (Method Stmt)} [h : Normal K ms] : Keeps K (bindMethods r ms) := by
  revert h
  induction ms with
  | nil => exact keeps_pure
  | cons m rest ih =>
    intro h
    obtain ⟨hm, hrest⟩ := normal_cons_iff.mp h
    have halloc (s : Held K Session) : Normal K (s.1.heap.alloc (.method r m)).2 :=
      Heap.normal_alloc inferInstance inferInstance
    rw [bindMethods]
    infer_instance

instance {args : List Value} [Normal K args] : Keeps K (instantiate L name args) := by
  refine keeps_get.bind fun s => ?_
  cases hget : s.1.classes.get? name with
  | none => infer_instance
  | some c =>
    have hc : Normal K c := normal_get?.out c hget
    refine keeps_newObject.bind fun ⟨v, hv⟩ => ?_
    cases v with
    | object r =>
      dsimp only
      cases hmaker : c.maker with
      | none => infer_instance
      | some m =>
        have hm : Normal K m := normal_class_maker.out m hmaker
        infer_instance
    | _ => infer_instance

instance keeps_boundMethod? {v : Value} : Keeps K (boundMethod? v name) := by
  unfold boundMethod?
  cases v with
  | object r =>
    refine keeps_fields.bind fun d => ?_
    split <;> infer_instance
  | _ => infer_instance

instance {method owner : String} {args : List Expr} {out : Option String}
    [Normal K args] : Keeps K (callMethod L method owner args out) := by
  unfold callMethod
  exact keeps_var.bind fun v => keeps_boundMethod?.bind_option inferInstance
    fun bound => inferInstance

/-! ### Commands -/

instance {id : String} : Keeps K (callEvent L id) := by
  refine keeps_get.bind fun s => ?_
  cases hget : s.1.definedEvents.get? id with
  | none => infer_instance
  | some stmts =>
    have hstmts : Normal K stmts := normal_get?.out stmts hget
    infer_instance

instance keeps_normally {x : Run Unit} [Keeps K x] : Keeps K (normally x) := keeps_bind

end Run

section Commands
variable {L : Linker} [hL : L.Keeping K]
open Run

theorem keeps_scriptCommand {c : ScriptCommand} {pos : Position} (h : Normal K c)
    (himports : imports (.script c) = true → ∃ c, K c ∧ c.imports = true)
    (hcall : ∀ name args, c = .callHost name args → World.isSteady name = true) :
    Keeps K (c.exec L pos) := by
  have hpart := @h.out.part
  cases c <;> simp only [ScriptCommand.exec, exportName]
  case callHost name args =>
    have hdirect (v : Held K Value) : Keeps K (direct L "call_function" [.text name, v.1]) := by
      have hask : Preserves K (ask L "call_function" [.text name, v.1]) :=
        preserves_ask_of_perform (World.preserves_perform_call (hcall name args rfl))
      unfold direct
      infer_instance
    infer_instance
  case importModule file nickname =>
    have himport : Keeps K (importAs L file nickname) := keeps_importAs (himports rfl)
    infer_instance
  case importNames names file =>
    have himport : Keeps K (Run.importNames L names file) :=
      keeps_importNames (himports rfl)
    infer_instance
  all_goals infer_instance

instance [hK : Regulated K] {c : Command} {pos : Position}
    [h : Normal K c] : Keeps K (c.exec L pos) := by
  obtain ⟨hkind, hpieces⟩ := h.out
  have hpart := @hpieces.part
  cases c with
  | text c =>
    have hexec : Keeps K (c.exec L) := keeps_textCommand hpart fun e out he =>
      hK.readJson e out (he ▸ hkind)
    exact keeps_normally
  | stage c =>
    have hexec : Keeps K (c.exec L) := keeps_stageCommand hpart
      fun entity x y relative he => hK.move entity x y relative (he ▸ hkind)
    exact keeps_normally
  | store c =>
    have hexec : Keeps K (c.exec L) := keeps_storeCommand hpart
      fun key out he => hK.loadData key out (he ▸ hkind)
    exact keeps_normally
  | system c =>
    have hexec : Keeps K (c.exec L) := keeps_systemCommand hpart fun hchanges f => by
      -- Where files change, nothing is read from them.
      refine ⟨fun ⟨c', hc', himports⟩ => ?_⟩
      have := hK.files c' _ hc' himports hkind
      rw [hchanges] at this
      cases this
    exact keeps_normally
  | script c =>
    exact keeps_scriptCommand hpart (fun himports => ⟨_, hkind, himports⟩)
      fun name args he => hK.callHost name args (he ▸ hkind)
  | _ => exact keeps_normally

end Commands

/-! ### Statements -/

namespace Run
variable {x y : Run Flow} [hx : Keeps K x]

instance keeps_placing {pos : Position} : Keeps K (placing pos x) := by
  refine .of_run fun s hs => ?_
  have hstart : Normal K { s with position := some pos } := inferInstance
  obtain ⟨hresult, hstate⟩ := (hx.run hstart).out
  have hrun : (placing pos x).run s = (match x.run { s with position := some pos } with
      | (.error (.failure f), s) => (.error (.failure (f.placed pos)), s)
      | result => result) := rfl
  rw [hrun]
  split
  · rename_i f s' h
    rw [h] at hstate
    exact ⟨⟨normal_error, hstate⟩⟩
  · exact ⟨⟨hresult, hstate⟩⟩

instance keeps_round : Keeps K (round x) := by
  refine hx.bind fun ⟨flow, hflow⟩ => ?_
  cases flow with
  | give v =>
    have hv : Normal K v := hflow.out
    infer_instance
  | _ => infer_instance

instance {n : Nat} : Keeps K (times x n) := by
  induction n with
  | zero => exact keeps_pure
  | succ n ih =>
    rw [times]
    exact keeps_round.bind_option ih fun flow => inferInstance

instance {limit : Int} {cond : Run Bool} {n : Nat} [hcond : Keeps K cond] :
    Keeps K (whileLoop limit cond x n) := by
  induction n with
  | zero =>
    rw [whileLoop]
    infer_instance
  | succ n ih =>
    rw [whileLoop]
    refine hcond.bind fun b => ?_
    split
    · infer_instance
    · exact keeps_round.bind_option ih fun flow => inferInstance

instance keeps_forItems {item : String} {vs : List Value} [hvs : Normal K vs] :
    Keeps K (forItems item x vs) := by
  revert hvs
  induction vs with
  | nil => exact keeps_pure
  | cons v rest ih =>
    intro hvs
    obtain ⟨hv, hrest⟩ := normal_cons_iff.mp hvs
    rw [forItems]
    exact keeps_setVar.toPreserves.bind fun _ => keeps_round.bind_option ih
      fun flow => inferInstance

instance {errorName : String} [Keeps K y] : Keeps K (handled x errorName y) := by
  refine keeps_attempt.bind fun ⟨result, hresult⟩ => ?_
  cases result with
  | ok flow =>
    have hflow : Normal K flow := hresult.out flow rfl
    infer_instance
  | error f => infer_instance

instance [hy : Keeps K y] : Keeps K (cleaned x y) := by
  refine .of_run fun s hs => ?_
  obtain ⟨hresult, hstate⟩ := (hx.run hs).out
  obtain ⟨hflow, hafter⟩ := (hy.run hstate).out
  have hrun : (cleaned x y).run s = (match y.run (x.run s).2 with
      | (.error signal, s) => (.error signal, s)
      | (.ok .normal, s') => ((x.run s).1, s')
      | (.ok flow, s') => ((x.run s).1.map fun _ => flow, s')) := rfl
  rw [hrun]
  rcases h : y.run (x.run s).2 with ⟨signal | flow, s'⟩ <;> rw [h] at hflow hafter
  · exact ⟨⟨normal_error, hafter⟩⟩
  · have hflow : Normal K flow := hflow.out flow rfl
    cases flow with
    | normal => exact ⟨⟨hresult, hafter⟩⟩
    | _ =>
      refine ⟨⟨?_, hafter⟩⟩
      cases (x.run s).1 with
      | error e => exact normal_error
      | ok a => exact @normal_ok _ _ _ _ _ hflow

omit hx

variable {L : Linker} [hL : L.Keeping K]

instance {texts : List String} : Keeps K (interpolateAll L texts) := by
  induction texts with
  | nil => exact keeps_pure
  | cons s rest ih =>
    rw [interpolateAll]
    infer_instance

instance {prompt : String} {labels : List String} : Keeps K (choose L prompt labels) := by
  have hask (question : String) (shown : Held K Value) :
      Preserves K (ask L "show_choice" [.text question, shown.1]) := preserves_ask (by decide)
  have hset (index : Int) : Keeps K
      (direct L "set_property" [.text "_vars", .text "_lastChoice", .int index]) := by
    rw [direct_eq_steadily (by decide)]
    infer_instance
  unfold choose
  infer_instance

instance {v : Value} {t : CaseTest} [h : Normal K t] : Keeps K (fits L v t) := by
  have hpart := @h.out.part
  cases t <;> rw [fits] <;> infer_instance

omit hL in
mutual

theorem keeps_exec [L.Keeping K] [Regulated K] : (st : Stmt) → Normal K st → Keeps K (exec L st)
  | .command _ c, h | .awaiting _ _ c, h => by
    have hc : Normal K c := (normal_iff_pieces.mp h).part
    rw [exec]
    infer_instance
  | .awaitValue _ e _, h | .giveBack _ e, h => by
    have he : Normal K e := (normal_iff_pieces.mp h).part
    rw [exec]
    infer_instance
  | .defineEvent _ id body, h => by
    have hbody : Normal K body := (normal_iff_pieces.mp h).part
    rw [exec, defineEvent]
    infer_instance
  | .choice _ prompt options, h => by
    have hoption (n : Nat) : Keeps K (execOption L n options) :=
      keeps_execOption n options (normal_iff_pieces.mp h).part
    rw [exec]
    infer_instance
  | .branch _ cond thenBody elseBody, h => by
    have hpieces := normal_iff_pieces.mp h
    have hcond : Normal K cond := hpieces.part
    have hthen : Keeps K (execBlock L thenBody) := keeps_execBlock thenBody hpieces.part
    have helse : Keeps K (execBlock L elseBody) := keeps_execBlock elseBody hpieces.part
    rw [exec]
    infer_instance
  | .times _ asked body, h | .whileLoop _ asked body, h => by
    have hpieces := normal_iff_pieces.mp h
    have hasked : Normal K asked := hpieces.part
    have hbody : Keeps K (execBlock L body) := keeps_execBlock body hpieces.part
    rw [exec]
    infer_instance
  | .forEach _ item list body, h => by
    have hbody : Keeps K (execBlock L body) :=
      keeps_execBlock body (normal_iff_pieces.mp h).part
    rw [exec]
    infer_instance
  | .breakLoop _, _ | .skipRound _, _ => by
    rw [exec]
    infer_instance
  | .attempt _ body errorName handler none, h => by
    have hpieces := normal_iff_pieces.mp h
    have hbody : Keeps K (execBlock L body) := keeps_execBlock body hpieces.part
    have hhandler : Keeps K (execBlock L handler) := keeps_execBlock handler hpieces.part
    rw [exec]
    infer_instance
  | .attempt _ body errorName handler (some cleanup), h => by
    have hpieces := normal_iff_pieces.mp h
    have hbody : Keeps K (execBlock L body) := keeps_execBlock body hpieces.part
    have hhandler : Keeps K (execBlock L handler) := keeps_execBlock handler hpieces.part
    have hcleanup : Keeps K (execBlock L cleanup) :=
      keeps_execBlock cleanup (Normal.some_inv hpieces.part)
    rw [exec]
    infer_instance
  | .cases _ subject arms default, h => by
    have hpieces := normal_iff_pieces.mp h
    have harms (v : Value) : Keeps K (execArms L v arms) :=
      keeps_execArms v arms hpieces.part
    have hdefault : Keeps K (execBlock L default) := keeps_execBlock default hpieces.part
    rw [exec]
    exact @keeps_placing _ _ (keeps_resolve.bind fun v =>
      (harms v.1).bind_option hdefault fun flow => inferInstance) _
  | .defineFunction _ name params body, h => by
    have hbody : Normal K body := (normal_iff_pieces.mp h).part
    rw [exec, defineFunction]
    infer_instance
  | .reduce _ list total item initial body out, h => by
    have hpieces := normal_iff_pieces.mp h
    have hinitial : Normal K initial := hpieces.part
    have hbody : Keeps K (execBlock L body) := keeps_execBlock body hpieces.part
    rw [exec]
    -- Only a value that is given back leaves before the end.
    refine @keeps_placing _ _ (keeps_eval.bind fun v =>
      keeps_setVar.toPreserves.bind fun _ => keeps_var.bind fun xs =>
        keeps_listItems.bind fun vs => keeps_forItems.bind fun ⟨o, ho⟩ => ?_) _
    dsimp only
    split
    · have hflow := ho.some_inv
      infer_instance
    · infer_instance
  | .route _ method path request body, h => by
    have hpieces := normal_iff_pieces.mp h
    have hmethod : Normal K method := hpieces.part
    have hpath : Normal K path := hpieces.part
    have hbody : Normal K body := hpieces.part
    rw [exec]
    infer_instance
  | .defineClass _ name parent properties methods, h => by
    have hmethods : Normal K methods := (normal_iff_pieces.mp h).part
    rw [exec, defineClass]
    infer_instance

/-- A normal block keeps the session normal. -/
theorem keeps_execBlock [L.Keeping K] [Regulated K] : (stmts : List Stmt) → Normal K stmts →
    Keeps K (execBlock L stmts)
  | [], _ => by
    rw [execBlock]
    infer_instance
  | st :: rest, h => by
    obtain ⟨hst, hrest⟩ := normal_cons_iff.mp h
    rw [execBlock]
    refine (keeps_exec st hst).bind fun ⟨flow, hflow⟩ => ?_
    cases flow with
    | normal => exact keeps_execBlock rest hrest
    | _ => infer_instance

theorem keeps_execOption [L.Keeping K] [Regulated K] : (n : Nat) →
    (options : List (String × List Stmt)) → Normal K options → Keeps K (execOption L n options)
  | _, [], _ => by
    rw [execOption]
    infer_instance
  | 0, (_, stmts) :: _, h => by
    rw [execOption]
    exact keeps_execBlock stmts (normal_cons_iff.mp h).1.out.2
  | n + 1, (_, _) :: rest, h => by
    rw [execOption]
    exact keeps_execOption n rest (normal_cons_iff.mp h).2

theorem keeps_execArms [L.Keeping K] [Regulated K] (v : Value) :
    (arms : List (CaseTest × List Stmt)) → Normal K arms → Keeps K (execArms L v arms)
  | [], _ => by
    rw [execArms]
    infer_instance
  | (t, stmts) :: rest, h => by
    obtain ⟨harm, hrest⟩ := normal_cons_iff.mp h
    have htest : Normal K t := harm.out.1
    have hbody : Keeps K (execBlock L stmts) := keeps_execBlock stmts harm.out.2
    have hothers : Keeps K (execArms L v rest) := keeps_execArms v rest hrest
    rw [execArms]
    infer_instance

end
end Run

instance [Command.Regulated K] {depth : Nat} : (Linker.ofDepth depth).Keeping K := by
  induction depth with
  | zero => exact ⟨fun _ => keeps_throw⟩
  | succ depth ih => exact ⟨fun body => Run.keeps_execBlock body.1 body.2⟩

/-! ### Operations -/

namespace Session
variable {s : Session} [hs : Normal K s]

instance {r : Rule} [Normal K r] : Normal K (s.addRule r) := by
  unfold addRule
  split <;> infer_instance

instance {tag : Option String} : Normal K (s.removeRules tag) := by
  unfold removeRules untagged
  infer_instance

instance {p : Program} [Normal K p] : Normal K (s.setProgram p) := by
  unfold setProgram
  infer_instance

end Session

namespace Run
variable {L : Linker} [hL : L.Keeping K] {source : String}

/-- Reading a source whose commands are of the kind gives a normal program. -/
theorem keeps_read {source : String} (h : ∀ p, (ofSource source).program = .ok p →
    ∀ c ∈ p.commands, K c) : Keeps K (read source) := by
  have hprogram : Normal K (ofSource source).program :=
    ⟨fun p hp => normal_of_commands (normal_ofSource hp) (h p hp)⟩
  unfold read
  infer_instance

instance : Keeps K (runMain L) := by
  refine keeps_get.bind fun s => ?_
  cases hprogram : s.1.program with
  | none => infer_instance
  | some p =>
    have hp : Normal K p := normal_session_program.out p hprogram
    infer_instance

theorem keeps_load (h : Keeps K (read source)) : Keeps K (load L source) := by
  unfold load
  infer_instance

instance {tag : Option String} : Keeps K (removeRules tag) := keeps_bind

theorem keeps_loadScene (h : Keeps K (read source)) : Keeps K (loadScene L source) := by
  unfold loadScene unloadScene
  infer_instance

instance {e : Event} [h : Normal K e] : Keeps K (holds L e) := by
  have hpart := @h.out.part
  cases e <;> unfold holds <;> infer_instance

instance {r : Rule} [Normal K r] : Keeps K (poll L r) := by
  refine keeps_attempt.bind fun ⟨result, _⟩ => ?_
  rcases result with f | _ | _ <;> infer_instance

instance {rs : List Rule} [h : Normal K rs] : Keeps K (pollAll L rs) := by
  revert h
  induction rs with
  | nil => exact keeps_pure
  | cons r rest ih =>
    intro h
    obtain ⟨hr, hrest⟩ := normal_cons_iff.mp h
    rw [pollAll]
    infer_instance

instance : Keeps K (tick L) := keeps_bind

instance {route : Route} {request : Value} [Normal K route]
    [Normal K request] : Keeps K (follow L route request) := by
  refine keeps_get.bind fun before => keeps_modify.toPreserves.bind fun _ =>
    keeps_ensure.bind_pair fun err response => ?_
  cases err.1 <;> cases response.1 <;> infer_instance

instance {request : Value} [Normal K request] : Keeps K (handleRequest L request) := by
  unfold handleRequest
  refine bind ?_ fun method => bind ?_ fun path => keeps_get.bind fun s => ?_
  case refine_3 =>
    cases hroute : routeFor? s.1 (Text.upper method.1) path.1 with
    | none => infer_instance
    | some route =>
      have hr : Normal K route := normal_find?.out route hroute
      infer_instance
  all_goals cases request <;> infer_instance

end Run

namespace Session.Operation

/-- The commands of the script are of the kind, and a request holds no other numbers than
    normal ones. -/
def IsOf (K : Command → Prop) : Operation → Prop
  | .load source | .loadScene source =>
    ∀ p, (ofSource source).program = .ok p → ∀ c ∈ p.commands, K c
  | .request value => value.normal = value
  | _ => True

variable [hK : Regulated K] {n : Nat} {s : Session}

theorem normal_after {op : Operation} (hop : op.IsOf K) (hs : Normal K s) :
    Normal K (op.after (.ofDepth n) s) := by
  have hrun : Preserves K (op.run (.ofDepth n)) := by
    cases op with
    | load source =>
      have hload := Run.keeps_load (L := .ofDepth n) (Run.keeps_read hop)
      rw [run]
      infer_instance
    | loadScene source =>
      have hload := Run.keeps_loadScene (L := .ofDepth n) (Run.keeps_read hop)
      rw [run]
      infer_instance
    | unloadScene =>
      rw [run, Run.unloadScene]
      infer_instance
    | request value =>
      have hvalue : Normal K value := ⟨hop⟩
      rw [run]
      infer_instance
    | _ =>
      rw [run]
      infer_instance
  exact hrun.state s hs

theorem normal_afterAll {ops : List Operation} (hops : ∀ op ∈ ops, op.IsOf K) (hs : Normal K s) :
    Normal K (afterAll (.ofDepth n) s ops) := by
  induction ops generalizing s with
  | nil => exact hs
  | cons op rest ih =>
    obtain ⟨hop, hrest⟩ := List.forall_mem_cons.mp hops
    exact ih hrest (normal_after hop hs)

end Session.Operation
end Parlance
