import Parlance.Proofs.RoundTrip

/-!
# Choices Under `else`

The second body of a choice may stand below a line that is only `else`, and may begin with a choice of
its own. The reader does not look where a line ends: `else` with `if` below it is `else if`. Such a
chain of choices has a single `end`, so the outer choice is over where the inner one is. The statements
below it are outside, and the `end` that was written for the outer choice is passed over, without a
fault.

## Main definitions

* `Core.branchText`: The text of a choice whose second body stands below a line `else`, with
  statements after it.
* `Core.regroup`: How such a choice is read: if its second body begins with a choice, that one is
  all of the second body.

## Theorems

* `Core.ofSource_branchText`: The text of a choice with `else` on a line of its own is read
  without a fault, and the statements after it stay outside of it.
-/

namespace Parlance
open List

namespace Core
open Reader
variable {fs gs rest : List Token.Face} {nest : Nest} {n : Nat}
variable {f : Token.Face} (cond : Condition) (stmts thenBody elseBody after : List Stmt)

/-- The text of a choice whose second body stands below a line `else`, with statements
    after it. -/
def branchText (cond : Condition) (thenBody elseBody after : List Stmt) : String :=
  String.ofList (Spelling.layout (branchLines cond thenBody elseBody ++ linesOf after))

/-- How such a choice is read: if its second body begins with a choice, that one
    is all of the second body. -/
def regroup (cond : Condition) (thenBody : List Stmt) : List Stmt → List Stmt
  | .branch c t e :: more => .branch cond thenBody [.branch c t e] :: more
  | elseBody => [.branch cond thenBody elseBody]

def BeginsWithBranch : List Stmt → Prop
  | .branch _ _ _ :: _ => True
  | _ => False

theorem regroup_of_not_begins {cond : Condition} {thenBody elseBody : List Stmt}
    (h : ¬ BeginsWithBranch elseBody) :
    regroup cond thenBody elseBody = [.branch cond thenBody elseBody] := by
  unfold regroup
  split
  · exact absurd trivial h
  · rfl

theorem length_regroup_eq_one_iff : (regroup cond thenBody elseBody).length = 1
      ↔ (BeginsWithBranch elseBody → elseBody.length = 1) := by
  unfold regroup
  split
  · simp [BeginsWithBranch]
  · rename_i h
    simp only [length_singleton, true_iff]
    intro hbegins
    unfold BeginsWithBranch at hbegins
    split at hbegins
    · exact absurd rfl (h _ _ _ _)
    · exact hbegins.elim

theorem regroup_eq_of_length {cond : Condition} {thenBody elseBody : List Stmt}
    (h : (regroup cond thenBody elseBody).length = 1) :
    regroup cond thenBody elseBody = [.branch cond thenBody elseBody] := by
  unfold regroup at h ⊢
  split
  · simp_all
  · rfl

/-! ### On faces -/

def branchFaces (cond : Condition) (thenBody elseBody : List Stmt) : List Token.Face :=
  shown cond.spell ++ (.keyword, .text "then") :: (shown (thenBody.flatMap Stmt.spell)
    ++ (shown (if elseBody.isEmpty then [] else elseLine elseBody ++ elseBody.flatMap Stmt.spell)
      ++ [endFace]))

theorem shown_branch :
    shown (Stmt.branch cond thenBody elseBody).spell =
      (.keyword, .text "if") :: branchFaces cond thenBody elseBody := by
  simp only [Stmt.spell, Stmt.lines, block, flatten_cons, flatten_append,
    flatten_elseLines, flatten_nil, append_nil, flatten_linesOf, shown_cons,
    shown_append, face_word, Vocabulary.classify_words, cons_append, append_assoc,
    nil_append, branchFaces]
  rfl

theorem reads_branch_chain {inner : Nest} {m : Nat} (hnest : ReadsBodies nest n)
    (hbranch : nest.branch = Opener.branch inner) (hinner : ReadsBodies inner m) (p : Position)
    (cond c : Condition) (thenBody t e : List Stmt)
    (hthen : (thenBody.flatMap Stmt.spell).length ≤ n)
    (hlen : (Stmt.branch c t e).spell.length ≤ m) (hrest : StartsWith lineFaces rest) :
    Reads (Opener.branch nest p) (shown cond.spell ++ (.keyword, .text "then")
      :: (shown (thenBody.flatMap Stmt.spell) ++ (.keyword, .text "else")
        :: (shown (Stmt.branch c t e).spell ++ rest))) rest
      (Stmt.branch cond thenBody [.branch c t e]).Given := by
  rw [← length_shown, shown_branch, branchFaces] at hlen
  simp only [length_cons, length_append, length_shown] at hlen
  have helse : (e.flatMap Stmt.spell).length ≤ m := by
    cases e with
    | nil => simp
    | cons s e =>
      rw [isEmpty_cons, if_neg Bool.false_ne_true, length_append] at hlen
      omega
  refine reads_toElse hnest p cond thenBody hthen fun d ts q hd hts => ?_
  have hread := reads_branch hinner q c t e (by omega) helse hrest
  rw [shown_branch, branchFaces, hbranch]
  simp only [cons_append, append_assoc, nil_append]
  refine .take rfl (hread.bind ?_)
  rintro _ ⟨s, rfl, hs⟩
  exact .pure ⟨_, rfl, .branch hd hts (.cons hs .nil)⟩

theorem reads_end (hrest : StartsWith lineFaces rest) :
    Reads (statementOf nest) (endFace :: rest) rest (fun o => o = none) := by
  refine reads_statementOf (o := Opener.ending) rfl rfl fun p => ?_
  obtain ⟨g, fs, rfl, hg⟩ := hrest.cons
  have hleave := (leaves_of_line g (of_decide_eq_true hg)).2.2.2.1
  refine .leave (readsAny_of_subset (by simp) hleave) ?_
  exact .leave (readsAny_of_subset (by simp) hleave) (.pure rfl)

/-! ### Programs -/

theorem reads_turnOf_statement {s : Stmt} (hf : f ∈ statementFaces)
    (hread : Reads (statementOf nest) (f :: fs) gs s.Given) :
    Reads (partTurn nest) (f :: fs) gs
      (fun t => ∃ q, t = .item q ∧ PartPlaced (.inr s) q) := by
  have hfinish : f.1 ≠ .finish := (leaves_of_statement f hf).1
  refine .atFinish (.no (beq_false_of_ne hfinish) ?_)
  refine reads_turnOf (reads_part_of_statement hf hread) ?_ ?_
  · rintro q ⟨_, ⟨rfl⟩, hq⟩
    exact ⟨q, rfl, hq⟩
  · rintro ⟨_, h, _⟩
    cases h

theorem reads_turnOf_end (hrest : StartsWith lineFaces rest) :
    Reads (partTurn nest) (endFace :: rest) rest
      (fun t => t = .next) := by
  have hpart : Reads (part nest) (endFace :: rest) rest (fun o => o = none) := by
    refine .sees (reads_seesRoute.bind fun b _ => .no rfl ((reads_end hrest).bind ?_))
    rintro _ rfl
    exact .pure rfl
  refine .atFinish (.no rfl (reads_turnOf hpart ?_ fun _ => rfl))
  intro q hq
  cases hq

theorem flatMap_spellPart : (stmts.map .inr).flatMap spellPart = stmts.flatMap Stmt.spell := by
  rw [flatMap_map]
  rfl

theorem reads_statements {k : Nat}
    (hlen : (stmts.flatMap Stmt.spell).length ≤ n) (hk : stmts.length + 1 ≤ k) :
    Reads (turns (partTurn (nestAt (n + 1))) k)
      (shown (stmts.flatMap Stmt.spell) ++ [(.finish, .none)]) [(.finish, .none)]
      (Forall₂ PartPlaced (stmts.map .inr)) := by
  rw [← flatMap_spellPart] at hlen ⊢
  refine (reads_parts (stmts.map .inr) hlen startsWith_finish reads_parts_finish
    (by simpa using hk)).imp ?_
  rintro _ ⟨qs, _, rfl, hqs, rfl⟩
  rwa [append_nil]

theorem reads_statements_end {k : Nat}
    (hlen : (stmts.flatMap Stmt.spell).length ≤ n) (hafter : (after.flatMap Stmt.spell).length ≤ n)
    (hk : stmts.length + (after.length + 2) ≤ k) :
    Reads (turns (partTurn (nestAt (n + 1))) k)
      (shown (stmts.flatMap Stmt.spell)
        ++ endFace :: (shown (after.flatMap Stmt.spell) ++ [(.finish, .none)])) [(.finish, .none)]
      (Forall₂ PartPlaced ((stmts ++ after).map .inr)) := by
  have hline : StartsWith lineFaces
      (endFace :: (shown (after.flatMap Stmt.spell) ++ [(.finish, .none)])) :=
    decide_eq_true (by decide)
  -- The `end` takes a turn of its own, which gives no statement.
  have hrest : ∀ k, after.length + 2 ≤ k → Reads
      (turns (partTurn (nestAt (n + 1))) k)
      (endFace :: (shown (after.flatMap Stmt.spell) ++ [(.finish, .none)])) [(.finish, .none)]
      (Forall₂ PartPlaced (after.map .inr)) := by
    intro k hk
    obtain ⟨k, rfl⟩ : ∃ m, k = m + 1 := ⟨k - 1, by omega⟩
    exact .turns_next (reads_turnOf_end (startsWith_body after startsWith_finish))
      (reads_statements after hafter (by omega))
  rw [← flatMap_spellPart] at hlen ⊢
  refine (reads_parts (stmts.map .inr) hlen hline hrest (by simpa using hk)).imp ?_
  rintro _ ⟨qs, qs', rfl, hqs, hqs'⟩
  rw [map_append]
  exact rel_append hqs hqs'

theorem faces_branchLines :
    Spelling.faces (branchLines cond thenBody elseBody ++ linesOf after) =
      (.keyword, .text "if") :: (shown cond.spell ++ (.keyword, .text "then")
        :: (shown (thenBody.flatMap Stmt.spell) ++ (.keyword, .text "else")
          :: (shown (elseBody.flatMap Stmt.spell)
            ++ endFace :: shown (after.flatMap Stmt.spell)))) := by
  have hshown : ∀ lines, Spelling.faces lines = shown lines.flatten := fun _ => rfl
  simp only [hshown, branchLines, block, flatten_cons, flatten_append, flatten_linesOf,
    shown_cons, shown_append, face_word, Vocabulary.classify_words, cons_append,
    append_assoc, nil_append]
  rfl

theorem reads_program_cons {s : Stmt} {stmts : List Stmt} (hf : f ∈ statementFaces)
    (hfirst : ∀ n, fs.length < n → Reads (statementOf (nestAt (n + 1))) (f :: fs) gs s.Given)
    (hrest : ∀ n k, fs.length < n → fs.length < k + 1 → Reads
      (turns (partTurn (nestAt (n + 1))) k)
      gs [(.finish, .none)] (Forall₂ PartPlaced (stmts.map .inr))) :
    Reads program (f :: fs) [(.finish, .none)] (Program.Placed ⟨[], s :: stmts⟩) := by
  refine .budget fun n hn => ?_
  rw [length_cons] at hn
  obtain ⟨n, rfl⟩ : ∃ m, n = m + 1 := ⟨n - 1, by omega⟩
  have hloop : Reads (loop (partTurn (nestAt (n + 1)))) (f :: fs) [(.finish, .none)]
      (Forall₂ PartPlaced ((s :: stmts).map .inr)) := by
    refine .budget fun k hk => ?_
    rw [length_cons] at hk
    obtain ⟨k, rfl⟩ : ∃ m, k = m + 1 := ⟨k - 1, by omega⟩
    refine (ReadsOn.turns_item (reads_turnOf_statement hf (hfirst n (by omega)))
      (hrest n k (by omega) (by omega))).imp ?_
    rintro _ ⟨q, qs, rfl, hq, hqs⟩
    exact .cons hq hqs
  exact hloop.bind fun qs hqs => .pure (Program.placed_of_parts ⟨[], s :: stmts⟩ hqs)

theorem starts_of_not_begins {elseBody : List Stmt} (h : ¬ BeginsWithBranch elseBody) :
    Starts (fun g => !g.readsAny ["if"])
      (shown (elseBody.flatMap Stmt.spell) ++ endFace :: rest) := by
  cases elseBody with
  | nil => rfl
  | cons s body =>
    obtain ⟨fs, hshown⟩ := s.shown_spell
    rw [flatMap_cons, shown_append, hshown]
    cases s with
    | branch cond thenBody elseBody => exact absurd trivial h
    | change op w e => cases op <;> rfl
    | _ => rfl

theorem length_le_spell : stmts.length ≤ (stmts.flatMap Stmt.spell).length := by
  rw [← flatMap_spellPart, ← length_map (f := Sum.inr)]
  exact length_parts_le _

theorem reads_branchLines :
    Reads program (Spelling.faces (branchLines cond thenBody elseBody ++ linesOf after)
      ++ [(.finish, .none)]) [(.finish, .none)]
      (Program.Placed ⟨[], regroup cond thenBody elseBody ++ after⟩) := by
  have hif : ∀ nest, opener? nest "if" = some (Opener.branch nest) := fun _ => rfl
  have hnest : ∀ n, ReadsBodies (nestAt (n + 1)) n := fun n =>
    reads_bodyOf (readsStatements_nestAt n) (fun fs => reads_do _) _
  have hafter := length_le_spell after
  have hline : StartsWith lineFaces (shown (after.flatMap Stmt.spell) ++ [(.finish, .none)]) :=
    startsWith_body after startsWith_finish
  rw [faces_branchLines]
  simp only [cons_append, append_assoc]
  by_cases h : BeginsWithBranch elseBody
  · unfold BeginsWithBranch at h
    split at h
    · rename_i c t e more
      have hmore := length_le_spell more
      rw [flatMap_cons, shown_append, append_assoc, regroup, cons_append]
      refine @reads_program_cons _ (shown (more.flatMap Stmt.spell)
        ++ endFace :: (shown (after.flatMap Stmt.spell) ++ [(.finish, .none)])) _ _ _
        (by decide) (fun n hn => ?_) (fun n k hn hk => ?_)
      · simp only [length_cons, length_append, length_shown] at hn
        obtain ⟨n, rfl⟩ : ∃ m, n = m + 1 := ⟨n - 1, by omega⟩
        refine reads_statementOf (hif _) rfl fun p => ?_
        refine reads_branch_chain (hnest (n + 1)) rfl (hnest n) p cond c thenBody t e
          (by omega) (by omega) ?_
        exact startsWith_body more (decide_eq_true (by decide))
      · simp only [length_cons, length_append, length_shown] at hn hk
        exact reads_statements_end more after (by omega) (by omega) (by omega)
    · exact h.elim
  · rw [regroup_of_not_begins h, singleton_append]
    refine @reads_program_cons _ (shown (after.flatMap Stmt.spell) ++ [(.finish, .none)]) _ _ _
      (by decide) (fun n hn => ?_) (fun n k hn hk => ?_)
    · simp only [length_cons, length_append, length_shown] at hn
      refine reads_statementOf (hif _) rfl fun p => ?_
      exact reads_branch_else (hnest n) p cond thenBody elseBody false (by omega) (by omega)
        (starts_of_not_begins h) hline
    · simp only [length_cons, length_append, length_shown] at hn hk
      exact reads_statements after (by omega) (by omega)

/-- The text of a choice with `else` on a line of its own is read without a fault, and
    the statements after it stay outside of it. The choice is the one that was written
    exactly if its second body does not begin with a choice that has statements after
    it. Otherwise that inner choice is all of the second body, and the statements after
    it follow the outer choice. -/
theorem ofSource_branchText (cond : Condition) (thenBody elseBody after : List Stmt) :
    ∃ program, Program.ofSource (branchText cond thenBody elseBody after) = ⟨.ok program, []⟩
      ∧ Program.Placed ⟨[], regroup cond thenBody elseBody ++ after⟩ program
      ∧ (Program.Placed ⟨[], .branch cond thenBody elseBody :: after⟩ program
        ↔ (BeginsWithBranch elseBody → elseBody.length = 1)) := by
  have hfaces := faces_ofTokens_layout (branchLines cond thenBody elseBody ++ linesOf after)
  obtain ⟨program, c, hrun, -, -, hfaults, hplaced⟩ :=
    reads_branchLines cond thenBody elseBody after _ trivial hfaces
  refine ⟨program, ?_, hplaced, ?_⟩
  · rw [Program.ofSource, Program.ofTokens, branchText, hrun]
    exact congrArg (Reading.mk (.ok program)) hfaults
  · rw [← length_regroup_eq_one_iff cond thenBody]
    constructor
    -- Both groupings have as many statements as were read.
    · intro hwritten
      have hlen := hplaced.main.length_eq.trans hwritten.main.length_eq.symm
      simp only [length_append, length_cons] at hlen
      omega
    · intro hlen
      rw [regroup_eq_of_length hlen] at hplaced
      exact hplaced

end Core
end Parlance
