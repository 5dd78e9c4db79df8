import Parlance.Proofs.NormalReading

/-!
# Programs Have Normal Numbers

The readers of statements, one after the other. Each of them reads values, conditions and
names, and puts them into a command; so what it gives is normal, and commands of all kinds may
come out of it. Bodies are read by the same readers one level down.

## Theorems

* `Opener.keeps_importModule`: The reader of an import gives a normal statement.
* `Opener.keeps_branch`: The reader of a branch gives normal statements.
* `Program.normal_ofSource`: All numbers in a program that was read are normal.
-/

namespace Parlance

-- A reader of the grammar is long, and the instance is about as long as the reader.
set_option synthInstance.maxSize 4000

open Command (Any)
open Reader

namespace Opener
variable {p : Position} {word : String} {o : Opener}

instance {c : Command} [Normal Any c] : Keeps Any (give p c) := by
  unfold give
  infer_instance

instance : Keeps Any nothing := keeps_pure

theorem keeps_bag? (h : bag? word = some o) : Keeps Any (o p) := by
  delta bag? letVariable setVariable change passAssign assigned construct at h
  split at h <;> cases h <;> infer_instance

/-! ### Collections -/

instance : Keeps Any result := keeps_bind

instance {list item : String} : Keeps Any (transformTo p list item) := by
  unfold transformTo transformInline
  exact Keeps.bind_option inferInstance inferInstance fun pair => inferInstance

theorem keeps_collection? (h : collection? word = some o) : Keeps Any (o p) := by
  delta collection? append sort filter merge flatten find obtainPart slice entries indexOf transform
    quantify copy combine filterCondition at h
  split at h <;> cases h <;> infer_instance

/-! ### Texts -/

theorem keeps_text? (h : text? word = some o) : Keeps Any (o p) := by
  delta text? charAt pad clamp typeOf path readJson writeJson split replace convert pattern test
    extract flags at h
  split at h <;> cases h <;> infer_instance

/-! ### The stage

A few readers write fractions of their own, which are no whole numbers. -/

instance : Keeps Any (apply p) := by
  refine keeps_identifier.bind fun kind => ?_
  dsimp only
  split <;> infer_instance

instance : Keeps Any (openWindow p) := by
  refine keeps_identifier.bind fun what => ?_
  split <;> infer_instance

theorem keeps_stage? (h : stage? word = some o) : Keeps Any (o p) := by
  have hduration : Normal Any (Number.float 0.5) := Number.normal_float_iff.mpr (by decide)
  have hflash : Normal Any (Number.float 0.3) := Number.normal_float_iff.mpr (by decide)
  delta stage? move teleport spawn act play stop shake flash tint log wait say emit gameState turn
    toggle numberOr flashColor channel at h
  split at h <;> cases h <;> infer_instance

/-! ### Characters -/

instance : Keeps Any byOrTo := keeps_bind

instance {make : String → Expr → Bool → PartyCommand}
    [∀ (entity : String) (e : Held Any Expr) (relative : Bool),
      Normal Any (make entity e.1 relative)] : Keeps Any (changeOf p make) := keeps_bind

instance : Keeps Any (changeWorld p) := by
  refine keeps_identifier.bind fun what => ?_
  split <;> infer_instance

theorem keeps_party? (h : party? word = some o) : Keeps Any (o p) := by
  delta party? battle attack add bestow remove equip heal recover skill addItem removeItem
    seesPartyAfter member amountThenUnit quantity at h
  split at h <;> cases h <;> infer_instance

/-! ### Data definitions -/

instance : Keeps Any constant := by
  have hfold (e : Held Any Expr) : Normal Any e.1.fold := Expr.normal_fold e.2
  unfold constant
  infer_instance

instance : Keeps Any constantNumber := keeps_bind

instance : Keeps Any statistics := by
  refine (@keeps_loop _ _ _ _ (keeps_current.bind fun t => ?_)).bind
    fun entries => inferInstance
  cases Grammar.statistics.lookup (Text.lower t.1.spelling) <;> infer_instance

instance {props : Dict Json} {key : String} {items : List Json}
    [Normal Any props] [Normal Any items] : Normal Any (push props key items) := by
  have hget : Normal Any (props.get? key) := normal_get?
  unfold push
  split
  · rename_i old hold
    rw [hold] at hget
    have := Json.normal_of_array hget.some_inv
    infer_instance
  · infer_instance

instance keeps_property {props : Dict Json} [Normal Any props] : Keeps Any (property props) := by
  have hrate : Normal Any (Number.float 0.1) := Number.normal_float_iff.mpr (by decide)
  refine keeps_nameOrText.bind fun key => ?_
  split <;> infer_instance

section Loops
variable {σ : Type} [Normality Any σ] {step : σ → Reader σ} {s : σ}

instance [h : ∀ s : Held Any σ, Keeps Any (step s.1)] {n : Nat}
    [hs : Normal Any s] : Keeps Any (dataTurns step n s) := by
  induction n generalizing s with
  | zero => exact keeps_endless
  | succ n ih =>
    have hstep : Keeps Any (step s) := h ⟨s, hs⟩
    rw [dataTurns]
    infer_instance

instance [∀ s : Held Any σ, Keeps Any (step s.1)]
    [Normal Any s] : Keeps Any (untilDataEnd step s) := keeps_bind

end Loops

instance : Keeps Any turnEffect := by
  have hfold (e : Held Any Expr) : Normal Any e.1.fold := Expr.normal_fold e.2
  unfold turnEffect turnEffect.message
  refine keeps_identifier.bind fun what => ?_
  split <;> infer_instance

/-! ### What is kept, the machine and services -/

theorem keeps_store? (h : store? word = some o) : Keeps Any (o p) := by
  delta store? load save delete slot at h
  split at h <;> cases h <;> infer_instance

theorem keeps_system? (h : system? word = some o) : Keeps Any (o p) := by
  delta system? readFile writeFile exit run shell listFiles fileExists create server seesServer at h
  split at h <;> cases h <;> infer_instance

instance : Keeps Any fetchCommand := keeps_bind
instance : Keeps Any intoTable := keeps_bind

instance : Keeps Any (insert p) := by
  refine keeps_optionally.bind fun table => ?_
  cases table.1 <;> infer_instance

theorem keeps_service? (h : service? word = some o) : Keeps Any (o p) := by
  delta service? start post send serve respond connect broadcast query select response columns
    server seesServer at h
  split at h <;> cases h <;> infer_instance

/-! ### Calls, modules and errors -/

instance : Keeps Any (callCommand p) := keeps_bind
instance keeps_importedNames : Keeps Any importedNames := keeps_bind

/-- The reader of an import gives a normal statement. -/
instance keeps_importModule : Keeps Any (importModule p) := by
  refine keeps_importedNames.bind fun names => ?_
  cases names.1 <;> infer_instance

theorem keeps_script? (h : script? word = some o) : Keeps Any (o p) := by
  delta script? call raiseError at h
  split at h <;> cases h <;> infer_instance

/-! ### Statements with bodies -/

instance {ahead : Nat} : Keeps Any (seesRoute ahead) := keeps_bind

end Opener

class Nest.Keeping (nest : Nest) : Prop where
  body : ∀ stops, Keeps Any (nest.body stops)
  branch : ∀ p, Keeps Any (nest.branch p)

namespace Opener
variable {p : Position} {word : String} {o : Opener} {nest : Nest} [hnest : nest.Keeping]

instance keeps_body {stops : List String} : Keeps Any (nest.body stops) := hnest.body stops
instance : Keeps Any (nest.branch p) := hnest.branch p
instance : Keeps Any (closedBody nest) := keeps_bind
/-- The reader of a branch gives normal statements. -/
instance keeps_branch : Keeps Any (branch nest p) := keeps_bind

instance {default : List Stmt} {n : Nat} [Normal Any default] :
    Keeps Any (arms nest n default) := by
  induction n generalizing default with
  | zero => exact keeps_endless
  | succ n ih =>
    rw [arms, caseTest]
    infer_instance

instance : Keeps Any (defineClass nest p) := by
  unfold defineClass method methodParams
  infer_instance

instance : Keeps Any (definition nest p) := by
  unfold definition defineData defineZone defineStatus statusPart defineSprite defineAnimation
    defineFunction parameter
  refine keeps_identifier.bind fun kind => ?_
  split
  · infer_instance
  · split
    · infer_instance
    · split <;> infer_instance

theorem keeps_block? (h : block? nest word = some o) : Keeps Any (o p) := by
  delta block? giveBack ending await times repeated whileLoop forEach attempt handler errorName
    cases choice labels reduce route whenRoute routeBody at h
  split at h <;> cases h <;> infer_instance

end Opener

/-! ### Programs -/

namespace Reader
variable {nest : Nest} [hnest : nest.Keeping] {α : Type} [Normality Any α]

theorem keeps_opener? {word : String} {o : Opener} {p : Position}
    (h : opener? nest word = some o) : Keeps Any (o p) := by
  simp only [opener?, Option.orElse_eq_orElse, Option.orElse_eq_or, Option.or_eq_some_iff] at h
  rcases h with h | ⟨-, h | ⟨-, h | ⟨-, h | ⟨-, h | ⟨-, h | ⟨-, h | ⟨-, h | ⟨-, h | ⟨-, h⟩⟩⟩⟩⟩⟩⟩⟩⟩
  · exact Opener.keeps_bag? h
  · exact Opener.keeps_collection? h
  · exact Opener.keeps_text? h
  · exact Opener.keeps_stage? h
  · exact Opener.keeps_party? h
  · exact Opener.keeps_store? h
  · exact Opener.keeps_system? h
  · exact Opener.keeps_service? h
  · exact Opener.keeps_script? h
  · exact Opener.keeps_block? h

instance : Keeps Any (statementOf nest) := by
  refine keeps_advance.bind fun t => ?_
  split
  · infer_instance
  · cases h : opener? nest t.1.spelling with
    | none => exact keeps_pure
    | some o => exact keeps_opener? h

instance {read : Reader (Option α)} [Keeps Any read] : Keeps Any (turnOf read) := by
  unfold turnOf
  exact keeps_recovering.bind_option inferInstance fun a => inferInstance

instance keeps_bodyOf {statement : Reader (Option Stmt)} {stops : List String}
    [Keeps Any statement] : Keeps Any (bodyOf statement stops) := by
  unfold bodyOf atBodyEnd
  infer_instance

instance {depth : Nat} : (nestAt depth).Keeping := by
  induction depth with
  | zero => exact ⟨fun _ => keeps_endless, fun _ => keeps_endless⟩
  | succ depth ih => exact ⟨fun _ => keeps_bodyOf, fun _ => Opener.keeps_branch⟩

instance keeps_program : Keeps Any program := by
  unfold program partTurn part rule
  infer_instance

end Reader

/-- All numbers in a program that was read are normal. -/
theorem Program.normal_ofSource {source : String} {p : Program}
    (h : (ofSource source).program = .ok p) : Normal Any p := by
  have hrun := (keeps_program.run (K := Any) (s := Cursor.ofTokens (Token.scan source))
    inferInstance).out.1
  rw [ofSource, ofTokens] at h
  split at h
  · rename_i p' c hp
    rw [hp] at hrun
    cases h
    exact hrun.out p rfl
  · cases h
  · cases h
    infer_instance

end Parlance
