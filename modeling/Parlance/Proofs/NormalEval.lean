import Parlance.Proofs.NormalSession
import Parlance.Proofs.Quiet

/-!
# Evaluation Gives Normal Numbers

The operations of the world and of its store, the functions of the language, expressions and
conditions. The world gives back what it was given, but for two of its operations: a move by a
distance leaves the sum of two numbers as it is, and a call by name may ask for such a move.

## Main definitions

* `Linker.Keeping`: Blocks with normal code run so that the state stays normal.
* `World.isSteady`: The operation neither moves an entity nor calls another one by name.

## Theorems

* `Run.preserves_ask`: Asking the world for a steady operation keeps the session normal.
* `Run.keeps_askStore`: The store answers with normal numbers if both of its worlds do.
* `Run.keeps_eval`: An expression with normal numbers gives one, and keeps the session normal.
-/

namespace Parlance

set_option synthInstance.maxSize 4000

variable {K : Command → Prop}

/-- Blocks with normal code run so that the state stays normal. -/
class Linker.Keeping (K : Command → Prop) (L : Linker) : Prop where
  block : ∀ body : Held K (List Stmt), Keeps K (L.block body.1)

namespace Run
variable {L : Linker} [hL : L.Keeping K]

instance {body : List Stmt} [h : Normal K body] : Keeps K (L.block body) :=
  hL.block ⟨body, h⟩

/-! ### Firing rules -/

instance keeps_body {stmts : List Stmt} [Normal K stmts] : Keeps K (body L stmts) := by
  refine keeps_attempt.bind fun ⟨result, _⟩ => ?_
  cases result <;> infer_instance

instance {bs : List (List Stmt)} [h : Normal K bs] : Keeps K (bodies L bs) := by
  revert h
  induction bs with
  | nil => exact keeps_pure
  | cons b rest ih =>
    intro h
    obtain ⟨hb, hrest⟩ := normal_cons_iff.mp h
    rw [bodies]
    infer_instance

instance {key : String} : Keeps K (trigger L key) := by
  unfold trigger rulesFor
  infer_instance

end Run

/-! ### The world -/

namespace World
open Run
variable {L : Linker} [hL : L.Keeping K] {which : Which} {v w x y : Value} {name : String}
  {args : List Value} {inner : String → List Value → Run Value}
variable {k : String}

instance keeps_read : Keeps K (read which) := by
  unfold read
  cases which <;> infer_instance

instance {f : World → World} [hf : ∀ w : Held K World, Normal K (f w.1)] :
    Keeps K (change which f) := by
  have hmain (h : Held K Hosts) : Normal K (f h.1.world) := hf ⟨_, inferInstance⟩
  have hseparate (h : Held K Hosts) : Normal K (f h.1.separate) := hf ⟨_, inferInstance⟩
  unfold change
  cases which <;> infer_instance

instance {α : Type} [Normality K α] : Keeps K (badArguments : Run α) := keeps_throw
instance keeps_key : Keeps K (key v) := keeps_ite

instance keeps_textArg : Keeps K (textArg v) := by
  unfold textArg
  split <;> infer_instance

instance : Keeps K (isVoid v) := keeps_bind

instance [Normal K v] : Keeps K (elements v) := by
  unfold elements
  split <;> infer_instance

instance : Preserves K (numberArg v) := by
  unfold numberArg
  split <;> infer_instance

instance [Normal K w] : Preserves K (plus v w) := by
  unfold plus
  split <;> infer_instance

instance : Keeps K (write v) := keeps_bind

instance : Preserves K nextChoice := by
  refine keeps_get.bind_preserves fun s => ?_
  cases s.1.hosts.choices <;> infer_instance

instance {i : Nat} {options : List Value} : Keeps K (showOptions i options) := by
  induction options generalizing i with
  | nil => exact keeps_pure
  | cons o rest ih =>
    rw [showOptions]
    infer_instance

instance : Keeps K (tellEvent L v w) := keeps_bind

instance keeps_property : Keeps K (World.property v w) := by
  refine keeps_read.bind fun w' => keeps_key.bind fun e => keeps_key.bind fun p => ?_
  -- Two properties are the place of an entity, and the others are kept by name.
  split
  · rename_i place _ hp
    have hplace : Normal K place := normal_get?.out place hp
    infer_instance
  · rename_i place _ hp
    have hplace : Normal K place := normal_get?.out place hp
    infer_instance
  · infer_instance

instance [Normal K x] [Normal K y] : Keeps K (move v x y false) := by
  refine keeps_key.bind fun e => keeps_read.bind fun w => ?_
  cases hp : w.1.entities.get? e.1 with
  | none => infer_instance
  | some place =>
    have hplace : Normal K place := normal_get?.out place hp
    simp only [Bool.false_eq_true, if_false]
    infer_instance

/-! ### The store -/

instance [Normal K v] : Keeps K (putData which k v) := by
  unfold putData
  infer_instance

instance {item : String} : Keeps K (putData which ("inv:" ++ item) v) := by
  unfold putData
  infer_instance

instance [hargs : Normal K args] : Preserves K (keep which name args) := by
  have hitem {v : Value} [Among v args] : Normal K v := hargs.item
  unfold keep itemCount
  split
  case h_9 table id =>
    refine keeps_key.bind_preserves fun t => keeps_key.bind_preserves fun i =>
      keeps_read.bind_preserves fun w => ?_
    cases hr : w.1.records.get? t.1 with
    | none => infer_instance
    | some rows =>
      have hrows : Normal K rows := normal_get?.out rows hr
      infer_instance
  case h_11 slot =>
    refine keeps_read.bind_preserves fun w => keeps_textArg.bind_preserves fun name => ?_
    split <;> infer_instance
  all_goals infer_instance

theorem keeps_loadData (hk : isCount k = false) :
    Keeps K (keep which "load_data" [.text k]) := by
  have hkeep : keep which "load_data" [.text k] =
      (do return ((← read which).store.get? k).getD .null) := rfl
  rw [hkeep]
  refine keeps_read.bind fun w => ?_
  have hget : Normal K (w.1.store.get? k) := normal_kept_get? inferInstance hk
  infer_instance

instance keeps_loadRecord {table id : String} :
    Keeps K (keep which "load_record" [.text table, .text id]) := by
  have hkeep : keep which "load_record" [.text table, .text id] =
      (do return (((← read which).records.get? table).getD ∅).get? id |>.getD .null) := rfl
  rw [hkeep]
  infer_instance

/-! ### Operations by name -/

/-- The operation neither moves an entity nor calls another one by name. -/
def isSteady (name : String) : Bool := name != "move_entity" && name != "call_function"

instance : Keeps K (unknown name) := keeps_bind

instance : Preserves K (tellOwner L name args) := by
  unfold tellOwner
  split <;> infer_instance

theorem preserves_act (hname : isSteady name = true) (hargs : Normal K args) :
    Preserves K (act L inner name args) := by
  have hitem {v : Value} [Among v args] : Normal K v := hargs.item
  unfold act logLine dialogue choose emit setProperty spawn orZero destroy
  split
  -- A move, and a call by name.
  case h_7 | h_17 => exact absurd hname (by decide)
  all_goals infer_instance

theorem preserves_performWith (hname : isSteady name = true) (hargs : Normal K args) :
    Preserves K (performWith L inner name args) := by
  have hact : Preserves K (act L inner name args) := preserves_act hname hargs
  unfold performWith
  infer_instance

theorem preserves_callFunction (hname : isSteady name = true) (hargs : Normal K args) :
    Preserves K (callFunction L name args) := by
  have hcall (n : Nat) : Preserves K (callAt L n name args) := by
    cases n with
    | zero => exact inferInstanceAs (Preserves K (throw (.defect .endless) : Run Value))
    | succ n =>
      have hperform : Preserves K (performWith L (callAt L n) name args) :=
        preserves_performWith hname hargs
      rw [callAt]
      infer_instance
  unfold callFunction
  infer_instance

theorem preserves_perform (hname : isSteady name = true) (hargs : Normal K args) :
    Preserves K (perform L name args) := preserves_performWith hname hargs

omit hL in
theorem preserves_perform_move [Normal K x] [Normal K y] :
    Preserves K (perform L "move_entity" [v, x, y, .bool false]) := by
  have hperform : perform L "move_entity" [v, x, y, .bool false] =
      (do let _ ← get; move v x y false; return .null) := rfl
  rw [hperform]
  infer_instance

theorem preserves_perform_call (hname : isSteady name = true) [Normal K v] :
    Preserves K (perform L "call_function" [.text name, v]) := by
  have hcall (args : Held K (List Value)) : Preserves K (callFunction L name args.1) :=
    preserves_callFunction hname args.2
  have hperform : perform L "call_function" [.text name, v] = (do
      if isKnown (← get).hosts.callbacks name then callFunction L name (← elements v)
      else unknown name) := rfl
  rw [hperform]
  infer_instance

end World

namespace Run
variable {L : Linker} [hL : L.Keeping K] {v w : Value} {name prop : String}
  {args vs : List Value} {s : Session}
variable {op : Operator} {owner : String} {c : Condition}

/-! ### Asking the hosts -/

instance keeps_capable {isThere : Hosts → Bool} {capability op : String} :
    Keeps K (capable isThere capability op) := by
  unfold capable lacking
  infer_instance

instance {noted : List Noted} : Keeps K (noteStage name noted) := keeps_bind

instance : Keeps K (askBare name args) := by
  unfold askBare
  split <;> infer_instance

omit hL in
theorem preserves_ask_of_perform (h : Preserves K (World.perform L name args)) :
    Preserves K (ask L name args) := by
  unfold ask
  infer_instance

/-- Asking the world for a steady operation keeps the session normal. -/
theorem preserves_ask (hname : World.isSteady name = true) [hargs : Normal K args] :
    Preserves K (ask L name args) := preserves_ask_of_perform (World.preserves_perform hname hargs)

instance : Keeps K (ask L "get_property" [v, w]) := by
  have hperform : World.perform L "get_property" [v, w] = World.property v w := rfl
  unfold ask
  rw [hperform]
  infer_instance

instance keeps_property {entity : String} : Keeps K (property L entity prop) := keeps_bind

instance preserves_askStore [Normal K args] : Preserves K (askStore name args) := by
  refine keeps_get.bind_preserves fun s => ?_
  cases s.1.hosts.storeHost <;> infer_instance

/-- The store answers with normal numbers if both of its worlds do. -/
theorem keeps_askStore (h : ∀ which, Keeps K (World.keep which name args)) :
    Keeps K (askStore name args) := by
  refine keeps_get.bind fun s => ?_
  have hmain := h .main
  have hseparate := h .separate
  cases s.1.hosts.storeHost <;> infer_instance

/-! ### Functions of the language -/

instance {a b : Number} : Keeps K (arithmetic op a b) := by
  unfold arithmetic
  split <;> infer_instance

instance : Keeps K (binary op v w) := keeps_ite

instance {i : Nat} : Keeps K (findItem v i vs) := by
  induction vs generalizing i with
  | nil => exact keeps_pure
  | cons w rest ih =>
    rw [findItem]
    infer_instance

instance : Keeps K (contains v w) := by
  unfold contains
  split <;> infer_instance

instance : Keeps K (indexOf v w) := by
  unfold indexOf
  split <;> infer_instance

instance {α : Type} [Normality K α] {xs : List α} {n : Number} [Normal K xs] :
    Normal K (nth xs n) := by
  cases n with
  | int n =>
    rw [nth]
    infer_instance
  | float x => exact normal_none

instance keeps_entry : Keeps K (entry v w) := by
  have hchar (c : Char) : Normal K (charValue c) := Value.normal_text
  unfold entry
  split <;> infer_instance

instance : Keeps K (length v) := by
  unfold length
  split <;> infer_instance

instance : Keeps K (itemText v) := keeps_ite

instance {f : Value → Run String} [∀ v, Keeps K (f v)] : Keeps K (texts f vs) := by
  induction vs with
  | nil => exact keeps_pure
  | cons v rest ih =>
    rw [texts]
    infer_instance

instance [Normal K v] : Keeps K (asList v) := by
  unfold asList
  split <;> infer_instance

instance {xs : List Value} {start : Int} {stop : Option Int} [h : Normal K xs] :
    Normal K (Sequence.slice xs start stop) :=
  h.of_subset fun _ hv => List.mem_of_mem_take (List.mem_of_mem_drop hv)

instance {start stop : Value} : Keeps K (slice v start stop) := by
  unfold slice
  cases v <;> infer_instance

instance [h : Normal K vs] : Keeps K (pairUp vs) := by
  revert h
  fun_induction pairUp vs with
  | case1 k v rest ih =>
    intro h
    obtain ⟨-, hrest⟩ := normal_cons_iff.mp h
    obtain ⟨hv, hrest⟩ := normal_cons_iff.mp hrest
    infer_instance
  | case2 => exact keeps_pure

instance {fn : Builtin} [Normal K args] : Keeps K (builtin fn args) := by
  unfold builtin giveText random draw giveNumber
  cases fn with
  | arrayJoin => cases args[0]?.getD .null <;> infer_instance
  | _ => infer_instance

/-! ### Calls -/

instance [Normal K s] : Normal K s.enter := by
  unfold Session.enter
  infer_instance

instance [hs : Normal K s] : Normal K s.exit := by
  unfold Session.exit
  split
  · infer_instance
  · rename_i saved rest h
    obtain ⟨hsaved, hrest⟩ := normal_cons_iff.mp (h ▸ hs.out.snapshots)
    infer_instance

instance normal_function? [Normal K s] : Normal K (s.function? name) := by
  unfold Session.function?
  split
  · rename_i f hf
    have hfunction : Normal K f := normal_get?.out f hf
    infer_instance
  · split <;> infer_instance

instance {params : List String} {args : List Value} [Normal K args] :
    Keeps K (bindParams params args) := by
  induction params generalizing args with
  | nil => exact keeps_pure
  | cons p ps ih =>
    rw [bindParams]
    infer_instance

instance {flow : Flow} [h : Normal K flow] : Normal K (givenBack flow) := by
  cases flow with
  | give v => exact h.out
  | _ => exact Value.normal_null

section Calls
variable {params : List String} {stmts : List Stmt} {this : Option Value} [hstmts : Normal K stmts]
  [hargs : Normal K args] [hthis : Normal K this]

instance : Keeps K (bound L params stmts args this) := by
  unfold bound
  cases this with
  | none => infer_instance
  | some v =>
    have hv := hthis.some_inv
    infer_instance

instance : Keeps K (invoke L params stmts args this) := keeps_bind

end Calls

instance [Normal K args] : Keeps K (callFunction L name args) := by
  refine keeps_get.bind fun s => ?_
  cases hf : s.1.function? name with
  | none => infer_instance
  | some fn =>
    have hfn : Normal K fn := normal_function?.out fn hf
    infer_instance

/-! ### Names and templates -/

instance keeps_resolve : Keeps K (resolve L name) := by
  unfold resolve
  exact keeps_var?.bind_option inferInstance fun v => inferInstance

instance : Keeps K (fieldText L owner prop) := by
  refine keeps_var.bind fun v => ?_
  cases v.1 with
  | object r =>
    refine keeps_fields.bind fun d => ?_
    cases d.1.get? prop <;> infer_instance
  | _ => infer_instance

instance : Keeps K (templateField L name) := by
  unfold templateField
  split
  · infer_instance
  · refine keeps_var?.bind fun o => ?_
    cases o.1 <;> infer_instance

instance keeps_fillIn {pieces : List Template.Piece} : Keeps K (fillIn L pieces) := by
  induction pieces with
  | nil =>
    rw [fillIn]
    infer_instance
  | cons piece rest ih => cases piece <;> rw [fillIn] <;> infer_instance

instance {s : String} : Keeps K (interpolate L s) := keeps_fillIn

instance {key : Value} : Keeps K (readKey L owner key) := by
  refine keeps_var?.bind fun o => ?_
  cases o.1 <;> infer_instance

/-! ### Expressions -/

section Expressions
variable {e : Expr} {es : List Expr} {fs : List (String × Expr)}

omit hL in
theorem keeps_evalAll_of_forall (h : ∀ e ∈ es, Keeps K (eval L e)) : Keeps K (evalAll L es) := by
  induction es with
  | nil =>
    rw [evalAll]
    infer_instance
  | cons e rest ih =>
    obtain ⟨he, hrest⟩ := List.forall_mem_cons.mp h
    have hvalues := ih hrest
    rw [evalAll]
    infer_instance

omit hL in
theorem keeps_evalFields_of_forall (h : ∀ f ∈ fs, Keeps K (eval L f.2)) :
    Keeps K (evalFields L fs) := by
  induction fs with
  | nil =>
    rw [evalFields]
    infer_instance
  | cons f rest ih =>
    obtain ⟨he, hrest⟩ := List.forall_mem_cons.mp h
    have hvalues := ih hrest
    rw [evalFields]
    infer_instance

/-- An expression with normal numbers gives one, and keeps the session normal. -/
instance keeps_eval [he : Normal K e] : Keeps K (eval L e) := by
  have hnormal := he.out
  clear he
  induction hnormal with
  | @number p n hn =>
    have hn : Normal K n := ⟨hn⟩
    rw [eval]
    infer_instance
  | list _ ih =>
    have hes := keeps_evalAll_of_forall ih
    rw [eval]
    infer_instance
  | object _ ih =>
    have hfs := keeps_evalFields_of_forall ih
    rw [eval]
    infer_instance
  | builtin _ ih | call _ ih =>
    have hargs := keeps_evalAll_of_forall ih
    rw [eval]
    infer_instance
  | _ =>
    rw [eval]
    infer_instance

instance [h : Normal K es] : Keeps K (evalAll L es) :=
  keeps_evalAll_of_forall fun e he =>
    have := h.out e he
    keeps_eval

instance {o : Option Expr} [h : Normal K o] : Keeps K (evalOr L o) := by
  cases o with
  | none => exact keeps_pure
  | some e =>
    have he := h.some_inv
    exact keeps_eval

instance [Normal K e] : Keeps K (evalNumber L e) := keeps_bind
instance keeps_evalText [Normal K e] : Keeps K (evalText L e) := keeps_bind

end Expressions

/-! ### Conditions -/

instance {c : Comparison} [h : Normal K c] : Keeps K (meets L v c) := by
  have hpart := @h.out.part
  cases c <;> rw [meets] <;> infer_instance

instance {subject : String} : Keeps K (propertyOf L subject prop) := by
  refine keeps_var.bind fun v => ?_
  cases v.1 <;> infer_instance

instance : Keeps K (lookUp L name) := by
  refine keeps_var?.bind_option ?_ fun v => inferInstance
  dsimp only
  split
  · infer_instance
  · rename_i head rest h
    refine keeps_var.bind fun v => ?_
    cases v.1 with
    | object r =>
      refine keeps_fields.bind fun d => ?_
      cases hg : d.1.get? rest with
      | none => infer_instance
      | some w =>
        have hw : Normal K w := normal_get?.out w hg
        infer_instance
    | _ => infer_instance

instance {type : String} : Keeps K (isOfType v type) := by
  unfold isOfType
  split <;> infer_instance

theorem keeps_test_of_normal (h : Normal K c) : Keeps K (test L c) := by
  rw [Condition.normal_iff_pieces] at h
  induction c with
  | logical p op left right ihl ihr =>
    have hleft := ihl (Condition.normal_iff_pieces.mp h.part)
    have hright := ihr (Condition.normal_iff_pieces.mp h.part)
    cases op <;> rw [test] <;> infer_instance
  | not p c ih =>
    have hc := ih (Condition.normal_iff_pieces.mp h.part)
    rw [test]
    infer_instance
  | switch p e on =>
    have he : Normal K e := h.part
    have hask (id : String) : Preserves K (ask L "is_switch" [.text id]) :=
      preserves_ask (by decide)
    rw [test]
    infer_instance
  | choice p e =>
    have he : Normal K e := h.part
    rw [test]
    refine keeps_get.bind fun s => ?_
    cases s.1.lastChoice <;> infer_instance
  | hasStatus p entity effect =>
    have hask : Preserves K (ask L "has_status" [.text entity, .text effect]) :=
      preserves_ask (by decide)
    rw [test]
    infer_instance
  | hasKey p subject e =>
    have he : Normal K e := h.part
    rw [test]
    refine keeps_var.bind fun v => ?_
    cases v.1 <;> infer_instance
  | _ =>
    have hpart := @h.part
    rw [test]
    infer_instance

instance [h : Normal K c] : Keeps K (test L c) :=
  keeps_test_of_normal h

end Run
end Parlance
