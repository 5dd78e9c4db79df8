import Parlance.Proofs.NormalSyntax
import Parlance.Proofs.OutOfRange

/-!
# Reading Gives Normal Numbers

The numbers of a script are rounded and brought into normal form when it is cut into tokens.
Readers take numbers from tokens, write a few of their own, and fold constants; so what they
read is normal.

## Main definitions

* `Reader.Turn.IsNormal`: The item of a turn is as asked, if there is one.

## Theorems

* `Reader.keeps_loop`: A loop of normal turns gives normal items.
* `Reader.keeps_optionally`: What is read only behind a word is as normal as what is read.
-/

namespace Parlance
variable {t : Token} {p : Position} {ts : List Token} {index ahead : Nat}

-- A reader of the grammar is long, and the instance is about as long as the reader.
set_option synthInstance.maxSize 4000

variable {K : Command → Prop} {α : Type}

/-! ### Tokens -/

instance : Normality K Token := ⟨fun t => Normal K t.number⟩
instance [h : Normal K t] : Normal K t.number := h.out

instance Scan.normal_numberOf {cs : List Char} : Normal K (Scan.numberOf cs) := by
  unfold Scan.numberOf
  infer_instance

namespace Token

theorem normal_of_content (h : ∀ n, t.content = .number n → Normal K n) : Normal K t := by
  refine ⟨?_⟩
  change Normal K t.number
  unfold number
  split
  · exact h _ ‹_›
  · infer_instance
  · infer_instance

instance normal_finish : Normal K (finish p) := normal_of_content nofun

instance {source : String} : Normal K (scan source) := by
  refine ⟨fun t ht => normal_of_content fun n hn => ?_⟩
  obtain ⟨ds, rfl⟩ := isScanned_of_mem ht n hn
  exact Scan.normal_numberOf

instance normal_closed [Normal K ts] : Normal K (closed ts) := by
  unfold closed
  split <;> infer_instance

end Token

/-! ### Cursors -/

namespace Cursor
variable {c : Cursor}

instance : Normality K Cursor := ⟨fun c => Normal K c.tokens.toList⟩
instance {faults : List Fault} [h : Normal K c] : Normal K (mk c.tokens index faults) := ⟨h.out⟩

instance [Normal K ts] : Normal K (ofTokens ts) :=
  ⟨Token.normal_closed⟩

instance [h : Normal K c] : Normal K (c.peek ahead) := by
  have hmem (t : Token) (ht : t ∈ c.tokens) : Normal K t :=
    h.out.out t (Array.mem_toList_iff.mpr ht)
  have hnext : Normal K c.tokens[c.index + ahead]? :=
    ⟨fun t ht => hmem t (Array.mem_of_getElem? ht)⟩
  have hlast : Normal K c.tokens.back? := ⟨fun t ht => hmem t (Array.mem_of_back? ht)⟩
  have hdefault : Normal K (default : Token) := Token.normal_finish
  unfold peek
  infer_instance

end Cursor

namespace Reader
variable {depth : Nat}

/-! ### Readers of tokens -/

variable {words : List String} {word : String} [Normality K α] {read : Reader α}
  {turn : Reader (Turn α)}

instance keeps_peek : Keeps K (peek ahead) := keeps_bind
instance keeps_current : Keeps K current := keeps_peek
instance keeps_position : Keeps K position := keeps_bind
instance keeps_advance : Keeps K advance := keeps_bind
instance keeps_fail {wanted : Wanted} : Keeps K (fail wanted : Reader α) := keeps_bind
instance keeps_endless : Keeps K (endless : Reader α) := keeps_throw

instance keeps_lift {x : Except Defect α} [hx : Normal K x] : Keeps K (lift x) := by
  cases x with
  | error d => exact keeps_throw
  | ok a => exact @keeps_pure _ _ _ _ _ _ _ (hx.out a rfl)

instance : Keeps K (sees word) := keeps_bind
instance : Keeps K (seesAny words) := keeps_bind
instance {kind : Token.Kind} : Keeps K (seesKind kind) := keeps_bind
instance {kinds : List Token.Kind} : Keeps K (seesKinds kinds) := keeps_bind
instance : Keeps K atFinish := keeps_bind
instance : Keeps K (seesAhead ahead word) := keeps_bind
instance : Keeps K (accept words) := keeps_bind
instance : Keeps K (pass words) := keeps_bind
instance : Keeps K (expect word) := keeps_bind
instance keeps_identifier : Keeps K ident := keeps_bind
instance keeps_nameOrText : Keeps K nameOrText := keeps_bind
instance : Keeps K spelling := keeps_bind
instance keeps_mark : Keeps K mark := keeps_bind

instance : Keeps K (backTo index) := by
  unfold backTo
  infer_instance

instance : Keeps K budget := keeps_bind

/-! ### Combinators -/

instance [Keeps K read] : Keeps K (tryRead read) := by
  refine keeps_mark.bind fun saved => @keeps_tryCatch _ _ _ _ _ _ _ _ inferInstance
    fun o => ?_
  cases o <;> infer_instance

instance {back : α → Bool} [Keeps K read] : Keeps K (rewindIf back read) := keeps_bind

instance keeps_recovering {read : Reader (Option α)} [h : Keeps K read] :
    Keeps K (recovering read) := by
  refine @keeps_tryCatch _ _ _ _ _ _ _ _ h fun o => ?_
  cases o <;> infer_instance

/-- The item of a turn is as asked, if there is one. -/
def Turn.IsNormal (K : Command → Prop) [Normality K α] : Turn α → Prop
  | .stop | .next => True
  | .item a | .last a => Normal K a

instance : Normality K (Turn α) := ⟨Turn.IsNormal K⟩
instance : Normal K (.stop : Turn α) := ⟨trivial⟩
instance : Normal K (.next : Turn α) := ⟨trivial⟩
instance {a : α} [h : Normal K a] : Normal K (Turn.item a) := ⟨h⟩
instance {a : α} [h : Normal K a] : Normal K (Turn.last a) := ⟨h⟩

instance [h : Keeps K turn] {n : Nat} : Keeps K (turns turn n) := by
  induction n with
  | zero => exact keeps_endless
  | succ n ih =>
    rw [turns]
    refine h.bind fun ⟨t, ht⟩ => ?_
    cases t with
    | stop | next => infer_instance
    | item a | last a =>
      have ha : Normal K a := ht.out
      infer_instance

/-- A loop of normal turns gives normal items. -/
instance keeps_loop [Keeps K turn] : Keeps K (loop turn) := keeps_bind
/-- What is read only behind a word is as normal as what is read. -/
instance keeps_optionally [Keeps K read] : Keeps K (maybe words read) := keeps_bind
instance {item : Reader α} [Keeps K item] : Keeps K (separated words item) := keeps_bind

/-! ### Names -/

instance : Keeps K atStatement := keeps_bind

instance {turn : Bool → Cursor → NameTurn} {first : Bool} {n : Nat} :
    Keeps K (nameWords turn first n) := by
  induction n generalizing first with
  | zero => exact keeps_endless
  | succ n ih =>
    rw [nameWords]
    refine keeps_get.bind fun c => ?_
    cases turn first c.1 <;> infer_instance

instance keeps_name : Keeps K (name words) := keeps_bind
instance : Keeps K outName := keeps_name
instance : Keeps K (into words) := keeps_optionally
instance : Keeps K intoName := keeps_optionally

/-! ### Values -/

section Values
variable {primary value : Reader Expr} [hprimary : Keeps K primary] [hvalue : Keeps K value]

instance keeps_operator : Keeps K operator := keeps_bind

instance : Keeps K (operands primary) := by
  refine @keeps_loop _ _ _ _ (keeps_operator.bind fun op => ?_)
  cases op.1 <;> infer_instance

instance keeps_chain : Keeps K (chain primary) := keeps_bind
instance : Keeps K (argument value) := keeps_bind
instance keeps_argumentsOf : Keeps K (argumentsOf value) := keeps_loop
instance : Normality K Call := ⟨fun c => Normal K c.args⟩
instance {c : Call} [h : Normal K c] : Normal K c.args := h.out

instance normal_call {s : String} {args : List Expr} {out : Option String} [h : Normal K args] :
    Normal K (Call.mk s args out) := ⟨h⟩

instance keeps_functionCallOf : Keeps K (functionCallOf value) := keeps_bind
instance keeps_entry : Keeps K (entry value) := keeps_bind

instance {first : Expr} {s b : Option Expr} [Normal K first] [hs : Normal K s]
    [hb : Normal K b] : Normal K (joined first s b) := by
  cases s with
  | none =>
    cases b with
    | none => exact normal_pair
    | some b =>
      have := hb.some_inv
      exact normal_pair
  | some s =>
    have := hs.some_inv
    cases b with
    | none => exact normal_pair
    | some b =>
      have := hb.some_inv
      exact normal_pair

instance keeps_builtinOperands : Keeps K (builtinOperands primary p word) := by
  unfold builtinOperands unbracketed joinOperands operand twoOperands threeOperands
  split <;> infer_instance

instance [Normal K t] : Keeps K (leaf t) := by
  unfold leaf reference
  dsimp only
  split <;> infer_instance

instance keeps_primaryOf : Keeps K (primaryOf primary) := by
  have hbuiltin (t : Token) (p : Position) : Keeps K (do
      let (fn, args) ← builtinOperands primary p t.spelling
      return .builtin p fn args : Reader Expr) :=
    keeps_builtinOperands.bind_pair fun fn args => inferInstance
  unfold primaryOf bracketed braced fieldOf listed
  infer_instance

end Values

instance : Keeps K (primaryAt depth) := by
  induction depth with
  | zero => exact keeps_endless
  | succ depth ih => exact keeps_primaryOf

instance : Keeps K primary := keeps_bind
instance : Keeps K value := keeps_chain
instance : Keeps K arguments := keeps_argumentsOf
instance : Keeps K functionCall := keeps_functionCallOf
instance : Keeps K pair := keeps_bind

/-! ### Conditions and event patterns -/

instance : Keeps K comparison := by
  unfold comparison negatedComparison acceptNull
  infer_instance

instance {second : String} : Keeps K (seesPair word second) := keeps_bind
instance : Keeps K advanceTwice := keeps_bind

instance keeps_simpleConditionOf {inner : Reader Condition} [Keeps K inner] :
    Keeps K (simpleConditionOf inner) := by
  unfold simpleConditionOf subjectCondition seesTypeQuestion
  infer_instance

instance : Keeps K (simpleConditionAt depth) := by
  induction depth with
  | zero => exact keeps_endless
  | succ depth ih => exact keeps_simpleConditionOf

instance keeps_simpleCondition : Keeps K simpleCondition := keeps_bind
instance keeps_connective : Keeps K connective := keeps_bind

instance : Keeps K condition := by
  exact keeps_position.bind fun p => keeps_simpleCondition.bind fun first =>
    (@keeps_loop _ _ _ _ (keeps_connective.bind_option inferInstance
      fun op => inferInstance)).bind fun rest => inferInstance

instance : Keeps K event := by
  unfold event combatEvent subjectEvent
  infer_instance

end Reader
end Parlance
