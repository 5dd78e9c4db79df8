import Parlance.Proofs.Frame
import Parlance.Proofs.Normality

/-!
# Normal Syntax Trees

What is asked of documents and of syntax trees: all numbers in them are in normal form, and
the commands in statements are of the kind `K`. Expressions and documents are asked by
recursion; a condition, a command and a statement are asked for their parts.

## Main definitions

* `Condition.own`: What a condition holds itself, without the conditions inside it.
* `Command.IsNormal`: The command is of the kind that is asked for, and its numbers are normal.
* `Stmt.own`: What a statement holds itself, without the bodies inside it.
* `Steady`: What is asked of the values of the type does not depend on the kind of commands.
* `Follows`: The parts are as asked for one kind of commands if they are for another.

## Theorems

* `Condition.normal_iff_pieces`: A condition is normal if its pieces are.
* `Stmt.normal_iff_pieces`: A statement is normal if its pieces are.
* `Steady.of_pieces`: A kind of syntax whose pieces follow one another from kind to kind of
  command is steady.
-/

namespace Parlance
open List Condition
variable {K : Command → Prop} {α : Type} {body : List Stmt}
variable {n : Number} {c : Condition} {params : List String} {ps : List (Part K)}

/-! ### Documents -/

inductive Json.IsNormal : Json → Prop
  | null : IsNormal .null
  | bool {b : Bool} : IsNormal (.bool b)
  | number {n : Number} : n.normal = n → IsNormal (.number n)
  | text {s : String} : IsNormal (.text s)
  | array {items : List Json} : (∀ j ∈ items, IsNormal j) → IsNormal (.array items)
  | object {fields : List (String × Json)} : (∀ f ∈ fields, IsNormal f.2) →
    IsNormal (.object fields)

namespace Json

instance : Normality K Json := ⟨IsNormal⟩

variable {j : Json} {items : List Json} {fields : List (String × Json)}

instance normal_null : Normal K null := ⟨.null⟩
instance normal_bool {b : Bool} : Normal K (bool b) := ⟨.bool⟩
instance normal_text {s : String} : Normal K (text s) := ⟨.text⟩
instance normal_number [h : Normal K n] : Normal K (number n) := ⟨.number h.out⟩
instance normal_int {n : Int} : Normal K (int n) := normal_number

instance [h : Normal K items] : Normal K (array items) :=
  ⟨.array fun j hj => (h.out j hj).out⟩

instance normal_object [h : Normal K fields] : Normal K (object fields) :=
  ⟨.object fun f hf => (h.out f hf).out.2.out⟩

theorem normal_of_array (h : Normal K (array items)) : Normal K items := by
  cases h.out with
  | array hitems => exact ⟨fun j hj => ⟨hitems j hj⟩⟩

instance normal_toNumber {j : Json} : Normal K j.toNumber := by
  fun_induction toNumber j <;> infer_instance

end Json

instance : Normality K ZoneEntry := ⟨fun e => Normal K e.weight⟩

instance {enemy : String} {weight : Number} [h : Normal K weight] :
    Normal K (ZoneEntry.mk enemy weight) := ⟨h⟩

instance {e : ZoneEntry} [h : Normal K e] : Normal K e.weight := h.out
instance : Normality K TurnEffect := ⟨fun e => Normal K e.amount ∧ Normal K e.text⟩

instance {op : String} {amount text : Json} [h : Normal K amount]
    [h' : Normal K text] : Normal K (TurnEffect.mk op amount text) := ⟨⟨h, h'⟩⟩

instance {e : TurnEffect} [h : Normal K e] : Normal K e.amount := h.out.1
instance {e : TurnEffect} [h : Normal K e] : Normal K e.text := h.out.2

/-! ### Expressions -/

inductive Expr.IsNormal : Expr → Prop
  | number {p : Position} {n : Number} : n.normal = n → IsNormal (.number p n)
  | text {p : Position} {s : String} : IsNormal (.text p s)
  | bool {p : Position} {b : Bool} : IsNormal (.bool p b)
  | null {p : Position} : IsNormal (.null p)
  | list {p : Position} {es : List Expr} : (∀ e ∈ es, IsNormal e) → IsNormal (.list p es)
  | object {p : Position} {fs : List (String × Expr)} : (∀ f ∈ fs, IsNormal f.2) →
    IsNormal (.object p fs)
  | name {p : Position} {s : String} : IsNormal (.name p s)
  | binary {p : Position} {op : Operator} {left right : Expr} : IsNormal left →
    IsNormal right → IsNormal (.binary p op left right)
  | builtin {p : Position} {fn : Builtin} {args : List Expr} : (∀ e ∈ args, IsNormal e) →
    IsNormal (.builtin p fn args)
  | field {p : Position} {owner : String} {key : Expr} : IsNormal key →
    IsNormal (.field p owner key)
  | call {p : Position} {name : String} {args : List Expr} : (∀ e ∈ args, IsNormal e) →
    IsNormal (.call p name args)
  | constant {p : Position} {name : String} : IsNormal (.constant p name)

namespace Expr
variable {op : Operator}

instance : Normality K Expr := ⟨IsNormal⟩

variable {p : Position} {e left right : Expr} {es : List Expr} {fs : List (String × Expr)}
  {s : String}

instance normal_number [h : Normal K n] : Normal K (number p n) := ⟨.number h.out⟩
instance normal_text : Normal K (text p s) := ⟨.text⟩
instance normal_bool {b : Bool} : Normal K (bool p b) := ⟨.bool⟩
instance normal_null : Normal K (null p) := ⟨.null⟩
instance : Normal K (name p s) := ⟨.name⟩
instance normal_constant : Normal K (constant p s) := ⟨.constant⟩

instance normal_list [h : Normal K es] : Normal K (list p es) :=
  ⟨.list fun e he => (h.out e he).out⟩

instance normal_object [h : Normal K fs] : Normal K (object p fs) :=
  ⟨.object fun f hf => (h.out f hf).out.2.out⟩

instance [hl : Normal K left] [hr : Normal K right] :
    Normal K (binary p op left right) := ⟨.binary hl.out hr.out⟩

instance {fn : Builtin} [h : Normal K es] : Normal K (builtin p fn es) :=
  ⟨.builtin fun e he => (h.out e he).out⟩

instance {owner : String} [h : Normal K e] : Normal K (field p owner e) :=
  ⟨.field h.out⟩

instance normal_call [h : Normal K es] : Normal K (call p s es) :=
  ⟨.call fun e he => (h.out e he).out⟩

instance {a b : Number} : Normal K (Number.foldBinary op a b) := by
  unfold Number.foldBinary
  split <;> infer_instance

theorem normal_fold {e : Expr} (h : Normal K e) : Normal K e.fold := by
  cases h.out with
  | number hn => exact @normal_ok _ _ _ _ _ ⟨.number hn⟩
  | _ =>
    unfold fold
    infer_instance

instance : Normal K e.foldNumber := by
  unfold foldNumber
  infer_instance

end Expr

/-! ### Conditions and events -/

@[reducible]
def Comparison.pieces (K : Command → Prop) : Comparison → List (Part K)
  | .less e | .greater e | .equal e | .notEqual e => [⟨e⟩]
  | .between low high => [⟨low⟩, ⟨high⟩]
  | _ => []

instance : Normality K Comparison := ⟨fun x => AllNormal (x.pieces K)⟩
instance {x : Comparison} [h : AllNormal (x.pieces K)] : Normal K x := ⟨h⟩

/-- What a condition holds itself, without the conditions inside it. -/
@[reducible]
def Condition.own (K : Command → Prop) : Condition → List (Part K)
  | .value _ e c => [⟨e⟩, ⟨c⟩]
  | .property _ _ _ c | .named _ _ c => [⟨c⟩]
  | .switch _ e _ | .choice _ e | .contains _ _ e | .startsWith _ _ e | .endsWith _ _ e
  | .hasKey _ _ e => [⟨e⟩]
  | _ => []

def Condition.IsNormal (K : Command → Prop) : Condition → Prop
  | .logical _ _ left right => left.IsNormal K ∧ right.IsNormal K
  | .not _ c => c.IsNormal K
  | c => AllNormal (c.own K)

instance : Normality K Condition := ⟨IsNormal K⟩

@[reducible]
def Condition.pieces (K : Command → Prop) : Condition → List (Part K)
  | .logical _ _ left right => [⟨left⟩, ⟨right⟩]
  | .not _ c => [⟨c⟩]
  | c => c.own K

/-- A condition is normal if its pieces are. -/
theorem Condition.normal_iff_pieces : Normal K c ↔ AllNormal (c.pieces K) := by
  cases c with
  | logical p op left right =>
    refine ⟨fun h => ?_, fun h => ?_⟩
    · have hleft : Normal K left := ⟨h.out.1⟩
      have hright : Normal K right := ⟨h.out.2⟩
      infer_instance
    · have hleft : Normal K left := h.part
      have hright : Normal K right := h.part
      exact ⟨⟨hleft.out, hright.out⟩⟩
  | not p c =>
    refine ⟨fun h => ?_, fun h => ?_⟩
    · have hc : Normal K c := ⟨h.out⟩
      infer_instance
    · have hc : Normal K c := h.part
      exact ⟨hc.out⟩
  | _ => exact ⟨fun h => h.out, fun h => ⟨h⟩⟩

instance [h : AllNormal (c.pieces K)] : Normal K c :=
  normal_iff_pieces.mpr h

@[reducible]
def Event.pieces (K : Command → Prop) : Event → List (Part K)
  | .becomes _ _ e => [⟨e⟩]
  | .condition _ _ _ c => [⟨c⟩]
  | _ => []

instance : Normality K Event := ⟨fun x => AllNormal (x.pieces K)⟩
instance {x : Event} [h : AllNormal (x.pieces K)] : Normal K x := ⟨h⟩

@[reducible]
def CaseTest.pieces (K : Command → Prop) : CaseTest → List (Part K)
  | .value e => [⟨e⟩]
  | .comparison c => [⟨c⟩]

instance : Normality K CaseTest := ⟨fun x => AllNormal (x.pieces K)⟩
instance {x : CaseTest} [h : AllNormal (x.pieces K)] : Normal K x := ⟨h⟩

/-! ### Commands -/

@[reducible]
def VariableCommand.pieces (K : Command → Prop) : VariableCommand → List (Part K)
  | .define _ e | .assign _ e | .change _ _ e | .deleteKey _ e => [⟨e⟩]
  | .setKey _ e e' | .setIndex _ e e' => [⟨e⟩, ⟨e'⟩]

instance : Normality K VariableCommand := ⟨fun x => AllNormal (x.pieces K)⟩
instance {x : VariableCommand} [h : AllNormal (x.pieces K)] : Normal K x := ⟨h⟩

@[reducible]
def CollectionCommand.pieces (K : Command → Prop) : CollectionCommand → List (Part K)
  | .append e _ | .find e _ _ | .getKey _ e _ | .getIndex _ e _ | .indexOf e _ _
  | .transform _ _ e _ => [⟨e⟩]
  | .slice _ e e' _ => [⟨e⟩, ⟨e'⟩]
  | .filter _ _ c _ => [⟨c⟩]
  | .quantify _ _ _ c _ => [⟨c⟩]
  | _ => []

instance : Normality K CollectionCommand := ⟨fun x => AllNormal (x.pieces K)⟩
instance {x : CollectionCommand} [h : AllNormal (x.pieces K)] : Normal K x := ⟨h⟩

@[reducible]
def TextCommand.pieces (K : Command → Prop) : TextCommand → List (Part K)
  | .charAt _ e _ | .convert e _ _ | .readJson e _ | .writeJson e _ => [⟨e⟩]
  | .repeated e e' _ | .clamp _ e e' _ | .split e e' _ | .replace e e' _ _ | .test e e' _ _
  | .extract e e' _ _ => [⟨e⟩, ⟨e'⟩]
  | .pad _ e e' e'' _ => [⟨e⟩, ⟨e'⟩, ⟨e''⟩]
  | .path _ es _ => [⟨es⟩]
  | _ => []

instance : Normality K TextCommand := ⟨fun x => AllNormal (x.pieces K)⟩
instance {x : TextCommand} [h : AllNormal (x.pieces K)] : Normal K x := ⟨h⟩

@[reducible]
def StageCommand.pieces (K : Command → Prop) : StageCommand → List (Part K)
  | .move _ x y _ | .teleport _ x y | .spawn _ x y _ | .push _ _ x y => [⟨x⟩, ⟨y⟩]
  | .play _ e _ _ | .applyStatus _ _ e | .setVolume e | .setFormula _ e | .setZone e | .print e
  | .wait e | .say e _ _ | .openShop e | .turnSwitch _ e => [⟨e⟩]
  | .stop _ e _ => [⟨e⟩]
  | .defineSprite _ e e' e'' => [⟨e⟩, ⟨e'⟩, ⟨e''⟩]
  | .defineAnimation _ e ns e' e'' => [⟨e⟩, ⟨ns⟩, ⟨e'⟩, ⟨e''⟩]
  | .shake e e' | .flash e e' | .tint e e' | .setAutotile e e' => [⟨e⟩, ⟨e'⟩]
  | .log es => [⟨es⟩]
  | _ => []

instance : Normality K StageCommand := ⟨fun x => AllNormal (x.pieces K)⟩
instance {x : StageCommand} [h : AllNormal (x.pieces K)] : Normal K x := ⟨h⟩

@[reducible]
def PartyCommand.pieces (K : Command → Prop) : PartyCommand → List (Part K)
  | .battleEnemies es e => [⟨es⟩, ⟨e⟩]
  | .addItem _ e | .removeItem _ e | .giveExperience e | .giveGold e | .changeLevel _ e _
  | .changeExperience _ e _ | .changeGold e _ | .changeGauge _ _ e _ | .changeEncounterRate e
  | .equip e _ => [⟨e⟩]
  | .heal _ e => [⟨e⟩]
  | .changeMap _ place => [⟨place⟩]
  | .defineData _ _ props => [⟨props⟩]
  | .defineZone _ entries => [⟨entries⟩]
  | .defineStatus _ props effects => [⟨props⟩, ⟨effects⟩]
  | _ => []

instance : Normality K PartyCommand := ⟨fun x => AllNormal (x.pieces K)⟩
instance {x : PartyCommand} [h : AllNormal (x.pieces K)] : Normal K x := ⟨h⟩

@[reducible]
def StoreCommand.pieces (K : Command → Prop) : StoreCommand → List (Part K)
  | .saveData _ e => [⟨e⟩]
  | .saveRecord _ _ e => [⟨e⟩]
  | _ => []

instance : Normality K StoreCommand := ⟨fun x => AllNormal (x.pieces K)⟩
instance {x : StoreCommand} [h : AllNormal (x.pieces K)] : Normal K x := ⟨h⟩

@[reducible]
def SystemCommand.pieces (K : Command → Prop) : SystemCommand → List (Part K)
  | .readFile e _ | .deleteFile e | .listFiles e _ | .fileExists e _ | .createFolder e
  | .getVariable e _ | .exit e | .run e _ | .shell _ e _ => [⟨e⟩]
  | .writeFile e e' _ => [⟨e⟩, ⟨e'⟩]
  | .getClock _ _ => []

instance : Normality K SystemCommand := ⟨fun x => AllNormal (x.pieces K)⟩
instance {x : SystemCommand} [h : AllNormal (x.pieces K)] : Normal K x := ⟨h⟩

@[reducible]
def ServiceCommand.pieces (K : Command → Prop) : ServiceCommand → List (Part K)
  | .fetch e _ body _ => [⟨e⟩, ⟨body⟩]
  | .serve e | .serveFile e | .connect e _ | .broadcast e _ _ => [⟨e⟩]
  | .respond e e' type => [⟨e⟩, ⟨e'⟩, ⟨type⟩]
  | .query e params _ => [⟨e⟩, ⟨params⟩]
  | .insertRow _ data => [⟨data⟩]
  | .selectRows _ _ condition limit offset _ => [⟨condition⟩, ⟨limit⟩, ⟨offset⟩]

instance : Normality K ServiceCommand := ⟨fun x => AllNormal (x.pieces K)⟩
instance {x : ServiceCommand} [h : AllNormal (x.pieces K)] : Normal K x := ⟨h⟩

@[reducible]
def ScriptCommand.pieces (K : Command → Prop) : ScriptCommand → List (Part K)
  | .callHost _ args | .callFunction _ args _ | .callMethod _ _ args _ | .create _ args _ =>
    [⟨args⟩]
  | .raiseError e => [⟨e⟩]
  | _ => []

instance : Normality K ScriptCommand := ⟨fun x => AllNormal (x.pieces K)⟩
instance {x : ScriptCommand} [h : AllNormal (x.pieces K)] : Normal K x := ⟨h⟩

@[reducible]
def Command.pieces (K : Command → Prop) : Command → List (Part K)
  | .bag c => [⟨c⟩]
  | .collection c => [⟨c⟩]
  | .text c => [⟨c⟩]
  | .stage c => [⟨c⟩]
  | .party c => [⟨c⟩]
  | .store c => [⟨c⟩]
  | .system c => [⟨c⟩]
  | .service c => [⟨c⟩]
  | .script c => [⟨c⟩]

/-- The command is of the kind that is asked for, and its numbers are normal. -/
structure Command.IsNormal (K : Command → Prop) (c : Command) : Prop where
  kind : K c
  pieces : AllNormal (c.pieces K)

instance : Normality K Command := ⟨Command.IsNormal K⟩

def Command.Any : Command → Prop := fun _ => True

instance {c : Command} [h : AllNormal (c.pieces Command.Any)] : Normal Command.Any c :=
  ⟨⟨trivial, h⟩⟩

/-! ### Statements -/

namespace Stmt

/-- What a statement holds itself, without the bodies inside it. -/
@[reducible]
def own (K : Command → Prop) : Stmt → List (Part K)
  | .command _ c | .awaiting _ _ c => [⟨c⟩]
  | .awaitValue _ e _ | .times _ e _ | .giveBack _ e | .reduce _ _ _ _ e _ _ => [⟨e⟩]
  | .branch _ c _ _ | .whileLoop _ c _ => [⟨c⟩]
  | .cases _ _ arms _ => [⟨arms.map Prod.fst⟩]
  | .route _ e e' _ _ => [⟨e⟩, ⟨e'⟩]
  | _ => []

instance : Normality K Stmt := ⟨fun st => ∀ part ∈ st.parts, AllNormal (part.own K)⟩

end Stmt

instance : Normality K (Method Stmt) := ⟨fun m => Normal K m.body⟩

instance normal_method {name : String} {isConstructor : Bool}
    [h : Normal K body] : Normal K (Method.mk name params body isConstructor) := ⟨h⟩

instance {m : Method Stmt} [h : Normal K m] : Normal K m.body := h.out

namespace Stmt
variable {st : Stmt}

@[reducible]
def pieces (K : Command → Prop) : Stmt → List (Part K)
  | .command _ c | .awaiting _ _ c => [⟨c⟩]
  | .awaitValue _ e _ | .giveBack _ e => [⟨e⟩]
  | .defineEvent _ _ body | .forEach _ _ _ body | .defineFunction _ _ _ body => [⟨body⟩]
  | .choice _ _ options => [⟨options⟩]
  | .branch _ c body body' => [⟨c⟩, ⟨body⟩, ⟨body'⟩]
  | .times _ e body | .reduce _ _ _ _ e body _ => [⟨e⟩, ⟨body⟩]
  | .whileLoop _ c body => [⟨c⟩, ⟨body⟩]
  | .breakLoop _ | .skipRound _ => []
  | .attempt _ body _ handler cleanup => [⟨body⟩, ⟨handler⟩, ⟨cleanup⟩]
  | .cases _ _ arms body => [⟨arms⟩, ⟨body⟩]
  | .route _ e e' _ body => [⟨e⟩, ⟨e'⟩, ⟨body⟩]
  | .defineClass _ _ _ _ methods => [⟨methods⟩]

theorem normal_iff : Normal K st ↔ ∀ part ∈ st.parts, AllNormal (part.own K) :=
  ⟨fun h => h.out, fun h => ⟨h⟩⟩

theorem normal_block_iff {body : List Stmt} :
    Normal K body ↔ ∀ part ∈ blockParts body, AllNormal (part.own K) := by
  induction body with
  | nil => exact ⟨fun _ => forall_mem_nil _, fun _ => normal_nil⟩
  | cons st rest ih =>
    rw [normal_cons_iff, blockParts, forall_mem_append, normal_iff, ih]

theorem normal_options_iff {options : List (String × List Stmt)} :
    Normal K options ↔ ∀ part ∈ optionParts options, AllNormal (part.own K) := by
  induction options with
  | nil => exact ⟨fun _ => forall_mem_nil _, fun _ => normal_nil⟩
  | cons option rest ih =>
    rw [normal_cons_iff, optionParts, forall_mem_append, ← normal_block_iff, ih]
    exact and_congr_left' ⟨fun h => h.out.2, fun h => ⟨⟨inferInstance, h⟩⟩⟩

theorem normal_arms_iff {arms : List (CaseTest × List Stmt)} : Normal K arms ↔
      Normal K (arms.map Prod.fst) ∧ ∀ part ∈ armParts arms, AllNormal (part.own K) := by
  induction arms with
  | nil => exact ⟨fun _ => ⟨normal_nil, forall_mem_nil _⟩, fun _ => normal_nil⟩
  | cons arm rest ih =>
    rw [normal_cons_iff, armParts, forall_mem_append, ← normal_block_iff, ih, map_cons,
      normal_cons_iff]
    have harm : Normal K arm ↔ Normal K arm.1 ∧ Normal K arm.2 := ⟨fun h => h.out, fun h => ⟨h⟩⟩
    rw [harm]
    tauto

theorem normal_methods_iff {methods : List (Method Stmt)} :
    Normal K methods ↔ ∀ part ∈ methodParts methods, AllNormal (part.own K) := by
  induction methods with
  | nil => exact ⟨fun _ => forall_mem_nil _, fun _ => normal_nil⟩
  | cons m rest ih =>
    rw [normal_cons_iff, methodParts, forall_mem_append, ← normal_block_iff, ih]
    exact and_congr_left' ⟨fun h => h.out, fun h => ⟨h⟩⟩

theorem allNormal_cons_iff [Normality K α] {a : α} :
    AllNormal (⟨a⟩ :: ps) ↔ Normal K a ∧ AllNormal ps :=
  ⟨fun h => ⟨h.part, ⟨fun p hp => h.out p (mem_cons_of_mem _ hp)⟩⟩,
    fun ⟨_, _⟩ => allNormal_cons⟩

/-- A statement is normal if its pieces are. -/
theorem normal_iff_pieces : Normal K st ↔ AllNormal (st.pieces K) := by
  have hnil : AllNormal ([] : List (Part K)) := allNormal_nil
  rw [normal_iff]
  cases st with
  | attempt pos body errorName handler cleanup =>
    -- Whether there is a cleanup decides which bodies stand inside.
    cases cleanup with
    | none =>
      have hnone : Normal K (none : Option (List Stmt)) := normal_none
      simp only [parts, pieces, own, allNormal_cons_iff, forall_mem_cons,
        forall_mem_append, normal_block_iff, hnil, hnone, true_and, and_true]
    | some stmts =>
      have hsome : Normal K (some stmts) ↔ Normal K stmts :=
        ⟨Normal.some_inv, fun _ => normal_some⟩
      simp only [parts, pieces, own, allNormal_cons_iff, forall_mem_cons, hsome,
        forall_mem_append, normal_block_iff, hnil, true_and, and_true, and_assoc]
  | _ =>
    simp only [parts, pieces, own, allNormal_cons_iff, forall_mem_cons,
      forall_mem_append, not_mem_nil, IsEmpty.forall_iff, implies_true,
      normal_block_iff, normal_options_iff, normal_arms_iff, normal_methods_iff, hnil, true_and,
      and_true, and_assoc]

instance [h : AllNormal (st.pieces K)] : Normal K st :=
  normal_iff_pieces.mpr h

end Stmt

/-! ### Code -/

instance : Normality K Function := ⟨fun f => Normal K f.body⟩
instance {stamp : Nat} [h : Normal K body] : Normal K (Function.mk params body stamp) := ⟨h⟩
instance {f : Function} [h : Normal K f] : Normal K f.body := h.out
instance : Normality K ClassDef := ⟨fun c => Normal K c.methods ∧ Normal K c.maker⟩

instance {name : String} {parent : Option String} {properties : List String}
    {methods : Dict (Method Stmt)} {maker : Option (Method Stmt)} [h : Normal K methods]
    [h' : Normal K maker] : Normal K (ClassDef.mk name parent properties methods maker) := ⟨⟨h, h'⟩⟩

instance {c : ClassDef} [h : Normal K c] : Normal K c.methods := h.out.1
instance normal_class_maker {c : ClassDef} [h : Normal K c] : Normal K c.maker := h.out.2
instance : Normality K Route := ⟨fun r => Normal K r.body⟩

instance {method path request : String} [h : Normal K body] :
    Normal K (Route.mk method path request body) := ⟨h⟩

instance {r : Route} [h : Normal K r] : Normal K r.body := h.out
instance : Normality K Rule := ⟨fun r => Normal K r.event ∧ Normal K r.body⟩

instance {pos : Position} {event : Event} {tag : Option String} [h : Normal K event]
    [h' : Normal K body] : Normal K (Rule.mk pos event body tag) := ⟨⟨h, h'⟩⟩

instance {r : Rule} [h : Normal K r] : Normal K r.event := h.out.1
instance {r : Rule} [h : Normal K r] : Normal K r.body := h.out.2
instance : Normality K Program := ⟨fun p => Normal K p.rules ∧ Normal K p.main⟩

instance {rules : List Rule} {main : List Stmt} [h : Normal K rules]
    [h' : Normal K main] : Normal K (Program.mk rules main) := ⟨⟨h, h'⟩⟩

instance {p : Program} [h : Normal K p] : Normal K p.rules := h.out.1
instance {p : Program} [h : Normal K p] : Normal K p.main := h.out.2

/-! ### Kinds of commands -/

/-- What is asked of the values of the type does not depend on the kind of commands. -/
class Steady (α : Type) [∀ K, Normality K α] : Prop where
  imp : ∀ {K K' : Command → Prop} {a : α}, Normal K a → Normal K' a

/-- The parts are as asked for one kind of commands if they are for another. -/
class Follows {K K' : Command → Prop} (ps : List (Part K)) (ps' : List (Part K')) : Prop where
  imp : AllNormal ps → AllNormal ps'

section Steady
variable {K' : Command → Prop} {β : Type} [∀ K, Normality K α] [∀ K, Normality K β]

instance : Follows ([] : List (Part K)) ([] : List (Part K')) :=
  ⟨fun _ => allNormal_nil⟩

instance [hα : Steady α] {a : α} {ps' : List (Part K')}
    [hps : Follows ps ps'] : Follows (⟨a⟩ :: ps) (⟨a⟩ :: ps') where
  imp h := by
    obtain ⟨ha, hrest⟩ := Stmt.allNormal_cons_iff.mp h
    exact Stmt.allNormal_cons_iff.mpr ⟨hα.imp ha, hps.imp hrest⟩

instance steady_number : Steady Number := ⟨fun h => ⟨h.out⟩⟩
instance : Steady String := ⟨fun _ => inferInstance⟩

instance [hα : Steady α] : Steady (List α) :=
  ⟨fun h => ⟨fun a ha => hα.imp (h.out a ha)⟩⟩

instance [hα : Steady α] : Steady (Option α) :=
  ⟨fun h => ⟨fun a ha => hα.imp (h.out a ha)⟩⟩

instance [hα : Steady α] [hβ : Steady β] : Steady (α × β) :=
  ⟨fun h => ⟨⟨hα.imp h.out.1, hβ.imp h.out.2⟩⟩⟩

instance steady_json : Steady Json := ⟨fun h => ⟨h.out⟩⟩
instance : Steady Expr := ⟨fun h => ⟨h.out⟩⟩
instance : Steady ZoneEntry := ⟨fun h => ⟨steady_number.imp h.out⟩⟩

instance : Steady TurnEffect :=
  ⟨fun h => ⟨⟨steady_json.imp h.out.1, steady_json.imp h.out.2⟩⟩⟩

/-- A kind of syntax whose pieces follow one another from kind to kind of command is steady. -/
theorem Steady.of_pieces {γ : Type} {pieces : ∀ K : Command → Prop, γ → List (Part K)}
    (h : ∀ {K K' : Command → Prop} (a : γ), Follows (pieces K a) (pieces K' a)) :
    @Steady γ fun K => ⟨fun a => AllNormal (pieces K a)⟩ :=
  letI (K : Command → Prop) : Normality K γ := ⟨fun a => AllNormal (pieces K a)⟩
  ⟨fun ha => ⟨(h _).imp ha.out⟩⟩

instance : Steady Comparison := .of_pieces fun c => by cases c <;> infer_instance

instance : Steady Condition where
  imp {K K' c} h := by
    rw [normal_iff_pieces] at h ⊢
    induction c with
    | logical p op left right ihl ihr =>
      have hleft := normal_iff_pieces.mpr (ihl (normal_iff_pieces.mp h.part))
      have hright := normal_iff_pieces.mpr (ihr (normal_iff_pieces.mp h.part))
      infer_instance
    | not p c ih =>
      have hc := normal_iff_pieces.mpr (ih (normal_iff_pieces.mp h.part))
      infer_instance
    | _ => exact Follows.imp h

instance : Steady CaseTest := .of_pieces fun t => by cases t <;> infer_instance
instance steady_event : Steady Event := .of_pieces fun e => by cases e <;> infer_instance
instance : Steady VariableCommand := .of_pieces fun c => by cases c <;> infer_instance
instance : Steady CollectionCommand := .of_pieces fun c => by cases c <;> infer_instance
instance : Steady TextCommand := .of_pieces fun c => by cases c <;> infer_instance
instance : Steady StageCommand := .of_pieces fun c => by cases c <;> infer_instance
instance : Steady PartyCommand := .of_pieces fun c => by cases c <;> infer_instance
instance : Steady StoreCommand := .of_pieces fun c => by cases c <;> infer_instance
instance : Steady SystemCommand := .of_pieces fun c => by cases c <;> infer_instance
instance : Steady ServiceCommand := .of_pieces fun c => by cases c <;> infer_instance
instance : Steady ScriptCommand := .of_pieces fun c => by cases c <;> infer_instance

end Steady

def Stmt.command? : Stmt → Option Command
  | .command _ c | .awaiting _ _ c => some c
  | _ => none

/-- The commands in a block, with those in the bodies inside it. -/
def Stmt.commands (body : List Stmt) : List Command := (blockParts body).filterMap command?

def Program.commands (p : Program) : List Command :=
  Stmt.commands p.main ++ p.rules.flatMap fun r => Stmt.commands r.body

section Kinds
variable {K' : Command → Prop} {body : List Stmt}

theorem Command.normal_of_kind {c : Command} (h : Normal K c) (hc : K' c) : Normal K' c := by
  have hpieces : Follows (c.pieces K) (c.pieces K') := by cases c <;> infer_instance
  exact ⟨⟨hc, hpieces.imp h.out.pieces⟩⟩

theorem Stmt.own_of_kind {st : Stmt} (h : AllNormal (st.own K))
    (hst : ∀ c, st.command? = some c → K' c) : AllNormal (st.own K') := by
  cases st with
  | command pos c | awaiting pos innerPos c =>
    exact @allNormal_cons _ _ _ _ _ (Command.normal_of_kind h.part (hst c rfl)) allNormal_nil
  | _ => exact Follows.imp h

theorem Stmt.normal_of_commands (h : Normal K body) (hbody : ∀ c ∈ commands body, K' c) :
    Normal K' body := by
  rw [normal_block_iff] at h ⊢
  intro part hpart
  exact own_of_kind (h part hpart) fun c hc => hbody c (mem_filterMap.mpr ⟨part, hpart, hc⟩)

theorem Program.normal_of_commands {p : Program} (h : Normal K p) (hp : ∀ c ∈ p.commands, K' c) :
    Normal K' p := by
  obtain ⟨hmain, hrules⟩ := forall_mem_append.mp hp
  obtain ⟨hrulesK, hmainK⟩ := h.out
  refine ⟨⟨⟨fun r hr => ?_⟩, Stmt.normal_of_commands hmainK hmain⟩⟩
  obtain ⟨hevent, hbody⟩ := (hrulesK.out r hr).out
  refine ⟨⟨steady_event.imp hevent, Stmt.normal_of_commands hbody fun c hc => ?_⟩⟩
  exact hrules c (mem_flatMap.mpr ⟨r, hr, hc⟩)

end Kinds
end Parlance
