import Mathlib.Data.List.Perm.Subperm
import Parlance.Proofs.Recovery

/-!
# The Order of Faults

Statements nest through their bodies, and the reader of bodies is given a depth. A statement
takes the word that opens it before it reads a body, so at depth `n` the readers deal with fewer
than `n` tokens, and one induction on the depth (`Reader.orderly_nestAt`) covers all statements.

An end mark is expected to have no content. One that has, such as the word `into`, is found
twice: a body ends at it with a fault, and the statement around the body takes it for a word of
its own and fails at it again.

## Main definitions

* `Nest.Orderly`: With fewer than `m` tokens before the end mark, what stands inside a statement
  is read in order; the rest of a choice is read after two words.
* `Reader.Causes.data`: A definition at the cursor, after its first word, holds a constant that is
  out of range.
* `Reader.Causes.statement`: The statement at the cursor is a flash with a channel out of range,
  or a definition of data with a constant out of range.
* `Reader.Complete`: A run that fails by no fault, and ends at an end mark if it does not fail.
* `Reader.Operation`: The readers that a program is read with.

## Theorems

* `Opener.orderly_arms`: The arms of a choice by cases, by induction on their bound.
* `Reader.advances_statementOf`: A statement takes the word that opens it, so what stands inside
  has one token fewer.
* `Reader.complete_turns`: A loop over parts of a program ends at an end mark only, by induction
  on its bound.
* `Program.readInOrder`: Every token list that ends in an end mark is read in order up to its
  first end mark, if that one has no text.
-/

namespace Parlance
open Opener Token Program List Nat Reader
variable {ts : List Token}

/-! ### Statements with bodies -/

/-- With fewer than `m` tokens before the end mark, what stands inside a
    statement is read in order; the rest of a choice is read after two words. -/
class Nest.Orderly (N : Causes) (m : Nat) (nest : Nest) : Prop where
  body : ∀ stops, Reader.Orderly N m (fun _ => False) (nest.body stops)
  still : ∀ stops, Still (nest.body stops)
  branch : ∀ p, Reader.Orderly N (m - 1) (fun _ => False) (nest.branch p)

namespace Opener
open Reader
variable {N : Causes} {m : Nat} {nest : Nest} [hnest : nest.Orderly N m] {p : Position} {w : String} {o : Opener}

set_option synthInstance.maxSize 1000

instance {stops : List String} : Orderly N m (fun _ => False) (nest.body stops) :=
  hnest.body stops

instance : Orderly N m (fun _ => False) (closedBody nest) := orderly_bind

instance orderly_branch : Orderly N m (fun _ => False) (branch nest p) := by
  have hinner : ∀ q, Orderly N (m - 1) (fun _ => False) (nest.branch q) := hnest.branch
  refine Calm.bind_orderly inferInstance fun cond => Calm.bind_orderly inferInstance fun _ => ?_
  refine (hnest.body _).bind (le_succ m) (fun _ h => h.elim) (fun thenBody _ => ?_)
    fun _ => inferInstance
  refine orderly_accept_not_ite_of (le_succ m) inferInstance ?_
  refine Calm.bind_orderly inferInstance fun q => ?_
  exact orderly_accept_ite_of (n := m - 1) (by omega) inferInstance inferInstance

instance : Calm m (repeated p) := bind_calm
instance : Orderly N m (fun _ => False) (times nest p) := orderly_bind_calm
instance : Orderly N m (fun _ => False) (whileLoop nest p) := orderly_bind_calm
instance : Orderly N m (fun _ => False) (forEach nest p) := orderly_bind_calm

instance : Orderly N m (fun _ => False) (attempt nest p) := by
  unfold attempt handler
  infer_instance

instance (n : Nat) (default : List Stmt) : Still (arms nest n default) := by
  cases n with
  | zero => exact still_endless
  | succ n => exact still_atFinish_or

/-- The arms of a choice by cases, by induction on their bound. Each arm begins
    with a word. -/
theorem orderly_arms (n : Nat) (default : List Stmt) :
    Orderly N (min m n) (fun _ => False) (arms nest n default) := by
  induction n generalizing default with
  | zero => exact Orderly.zero.mono (min_le_right _ _)
  | succ n ih =>
    have hbody : ∀ stops, Orderly N (min m n) (fun _ => False) (nest.body stops) :=
      fun stops => (hnest.body stops).mono (min_le_left _ _)
    rw [arms]
    refine Calm.bind_orderly inferInstance fun b => Calm.bind_orderly inferInstance fun b' => ?_
    split
    · infer_instance
    · refine orderly_accept_ite_of (n := min m n) (by omega) inferInstance ?_
      exact orderly_accept_ite_of (n := min m n) (by omega) inferInstance inferInstance

instance : Orderly N m (fun _ => False) (cases nest p) := by
  refine Calm.bind_orderly inferInstance fun subject => Calm.bind_orderly inferInstance fun _ => ?_
  refine orderly_budget fun n => ?_
  refine (orderly_arms n []).bind (le_succ _) (fun _ h => h.elim) (fun _ _ => ?_) fun _ => ?_
  · infer_instance
  · infer_instance

instance : Orderly N m (fun _ => False) (choice nest p) := orderly_bind_calm
instance : Orderly N m (fun _ => False) (reduce nest p) := orderly_bind_calm
instance : Orderly N m (fun _ => False) (defineFunction nest p) := orderly_bind_calm

instance {verb path : Expr} {words : List String} :
    Orderly N m (fun _ => False) (routeBody nest p verb path words) := orderly_bind_calm

instance : Orderly N m (fun _ => False) (route nest p) := orderly_bind_calm
instance {ahead : Nat} : Looks (seesRoute ahead) := looks_bind

instance : Orderly N m (fun _ => False) (whenRoute nest p) := by
  refine Calm.bind_orderly inferInstance fun isRoute => ?_
  split <;> infer_instance

instance : Orderly N m (fun _ => False) (defineClass nest p) := by
  unfold defineClass method
  infer_instance

def holdsConstants (kind : String) : Bool :=
  Grammar.dataKinds.contains kind || kind == "zone" || kind == "status"

end Opener

namespace Reader

/-- A definition at the cursor, after its first word, holds a constant that is out of
    range. -/
def Causes.data : Causes := fun c d =>
  holdsConstants (c.peek 0).spelling = true ∧ Causes.constant.From c d

theorem run_identifier_ok {c c' : Cursor} {s : String} (h : ident.run c = (.ok s, c')) :
    s = (c.peek 0).spelling ∧ c' = c.next := by
  rw [ident, bind_ok (run_current c)] at h
  split at h
  · rw [bind_ok (run_advance c)] at h
    cases h
    exact ⟨rfl, rfl⟩
  · cases h

end Reader

namespace Opener
variable {N : Causes} {m : Nat} {nest : Nest} [hnest : nest.Orderly N m] {p : Position} {w : String}
  {o : Opener}

theorem orderly_ofKind (kind : String) :
    Orderly (fun c d => N c d ∨ holdsConstants kind = true ∧ Causes.constant c d) m
      (fun _ => False) (if kind == "class" then defineClass nest p
        else if Grammar.dataKinds.contains kind then defineData kind p
        else match kind with
          | "event" => do
            let id ← nameOrText
            return some (.defineEvent p id (← closedBody nest))
          | "zone" => defineZone p
          | "status" => defineStatus p
          | "function" => defineFunction nest p
          | "sprite" => defineSprite p
          | "animation" => defineAnimation p
          | _ => nothing) := by
  have hbody {r : Reader (Option Stmt)} (h : Orderly N m (fun _ => False) r) :
      Orderly (fun c d => N c d ∨ holdsConstants kind = true ∧ Causes.constant c d) m
        (fun _ => False) r :=
    h.weaken fun _ _ hd => Causes.from_of (.inl hd)
  have hdata {r : Reader (Option Stmt)} (hkind : holdsConstants kind = true)
      (h : Progress .constant m (fun _ => False) r) :
      Orderly (fun c d => N c d ∨ holdsConstants kind = true ∧ Causes.constant c d) m
        (fun _ => False) r :=
    orderly_of_progress (h := h.weaken fun _ _ hd => Causes.from_of (.inr ⟨hkind, hd⟩))
  split
  · exact hbody inferInstance
  · split
    · rename_i hkind
      refine hdata ?_ inferInstance
      rw [holdsConstants, hkind, Bool.true_or, Bool.true_or]
    · split
      case h_2 | h_3 => exact hdata (by decide) inferInstance
      all_goals exact hbody inferInstance

theorem orderly_definition (hN : ∀ c d, Causes.constant c d → N c d) :
    Orderly N m (fun _ => False) (definition nest p) := by
  refine (of_none (h := moves_identifier)).bind_orderly (le_succ m) (fun kind _ => ?_)
    fun _ h => absurd trivial h
  exact (orderly_ofKind (N := N) kind).weaken fun c d hd =>
    Causes.from_of (hd.elim id fun hconstant => hN c d hconstant.2)

theorem caused_definition {c c' : Cursor} {e : Nat} {d : Defect} (hc : c.Ends e)
    (he : e < c.index + m) (hrun : (definition nest p).run c = (.error (.defect d), c')) :
    N.From c d ∨ Causes.data c d := by
  have hkind : Moves m ident := moves_identifier
  rcases hfirst : ident.run c with ⟨o | kind, c₁⟩
  · rw [definition, bind_error hfirst] at hrun
    cases hrun
    exact ((hkind.run hc he hfirst).caused d rfl).elim
  rw [definition, bind_ok hfirst] at hrun
  have hmoved := (hkind.run hc he hfirst).moved
  have hle := hmoved.le
  have hrest := (orderly_ofKind (N := N) (m := m) kind).run (hc.moved hmoved) (by omega) hrun
  obtain ⟨c₂, htokens, hle', hd⟩ := (hrest.caused d rfl).moved hmoved
  obtain ⟨rfl, -⟩ := run_identifier_ok hfirst
  rcases hd with hd | ⟨hkind, hd⟩
  · exact .inl ⟨c₂, htokens, hle', hd⟩
  · exact .inr ⟨hkind, c₂, htokens, hle', hd⟩

theorem orderly_block? (h : block? nest w = some o) (hdefine : w ≠ "define") :
    Orderly N m (fun _ => False) (o p) := by
  delta block? at h
  split at h <;> cases h <;> first | infer_instance | exact absurd rfl hdefine

end Opener

namespace Reader
variable {m : Nat} {nest : Nest} {c c' : Cursor} {α : Type}

theorem orderly_opener? {N : Causes} [nest.Orderly N m] {w : String} {o : Opener} {p : Position}
    (h : opener? nest w = some o) (hflash : w ≠ "flash") (hdefine : w ≠ "define") :
    Orderly N m (fun _ => False) (o p) := by
  simp only [opener?, Option.orElse_eq_orElse, Option.orElse_eq_or, Option.or_eq_some_iff] at h
  rcases h with h | ⟨-, h | ⟨-, h | ⟨-, h | ⟨-, h | ⟨-, h | ⟨-, h | ⟨-, h | ⟨-, h | ⟨-, h⟩⟩⟩⟩⟩⟩⟩⟩⟩
  · exact orderly_of_progress (h := of_none (h := calm_bag? h))
  · exact orderly_of_progress (h := of_none (h := calm_collection? h))
  · exact orderly_of_progress (h := of_none (h := calm_text? h))
  · exact orderly_of_progress (h := of_none (h := calm_stage? h hflash))
  · exact orderly_of_progress (h := of_none (h := calm_party? h))
  · exact orderly_of_progress (h := of_none (h := calm_store? h))
  · exact orderly_of_progress (h := of_none (h := calm_system? h))
  · exact orderly_of_progress (h := of_none (h := calm_service? h))
  · exact orderly_of_progress (h := of_none (h := calm_script? h))
  · exact orderly_block? h hdefine

theorem opener?_flash (nest : Nest) : opener? nest "flash" = some flash := rfl

theorem opener?_define (nest : Nest) : opener? nest "define" = some (definition nest) := rfl

/-- The statement at the cursor is a flash with a channel out of range, or a definition
    of data with a constant out of range. -/
def Causes.statement : Causes := fun c d =>
  (c.peek 0).isWord = true ∧
    ((c.peek 0).spelling = "flash" ∧ Causes.color 3 c.next d ∨
      (c.peek 0).spelling = "define" ∧ Causes.data c.next d)

theorem Causes.number_of_statement {d : Defect} (h : Causes.statement c d) :
    Causes.number.From c d := by
  have hnext {N : Causes} (h : N.From c.next d) (hN : ∀ c, N c d → Causes.number c d) :
      Causes.number.From c d := by
    obtain ⟨c₁, htokens, hle, hd⟩ := h
    exact ⟨c₁, htokens.trans c.tokens_next, le_trans c.le_next hle, hN c₁ hd⟩
  rcases h.2 with ⟨-, hcolor⟩ | ⟨-, hdata⟩
  · exact hnext (Causes.channel_of_color hcolor) fun _ => .inr
  · exact hnext hdata.2 fun _ => .inl

theorem orderly_opened [nest.Orderly .number m] (w : String) (p : Position) :
    Orderly .number m (fun _ => False) (match opener? nest w with
      | none => return none
      | some opener => opener p) := by
  cases h : opener? nest w with
  | none => infer_instance
  | some opener =>
    by_cases hflash : w = "flash"
    · cases (hflash ▸ opener?_flash nest).symm.trans h
      refine orderly_of_progress (h := progress_flash.weaken fun _ _ hd => ?_)
      exact Causes.from_of (.inr hd)
    by_cases hdefine : w = "define"
    · cases (hdefine ▸ opener?_define nest).symm.trans h
      exact orderly_definition fun _ _ => .inl
    · exact orderly_opener? h hflash hdefine

theorem orderly_afterFirst [nest.Orderly .number m] (t : Token) :
    Orderly .number m (fun _ => False) (if !t.isWord then return none else
      match opener? nest t.spelling with
      | none => return none
      | some opener => opener t.position) := by
  split
  · infer_instance
  · exact orderly_opened _ _

theorem orderly_number (h : nest.Orderly .statement m) : nest.Orderly .number m where
  body stops := (h.body stops).weaken fun _ _ => Causes.number_of_statement
  still := h.still
  branch p := (h.branch p).weaken fun _ _ => Causes.number_of_statement

/-- A statement takes the word that opens it, so what stands inside has one token
    fewer. Its defects are its own or those of a statement inside. -/
theorem advances_statementOf [hnest : nest.Orderly .statement m] :
    Advances .statement (m + 1) (statementOf nest) where
  run {c e out c'} hc hlt he hrun := by
    have hnumber : nest.Orderly .number m := orderly_number hnest
    have hfirst : Advances .number (m + 1) (statementOf nest) :=
      advances_advance_bind (le_refl _) orderly_afterFirst
    refine (hfirst.run hc hlt he hrun).recause fun d hd => ?_
    subst hd
    have hmoved := hc.moved_next
    have hc' := hc.moved hmoved
    have he' : e < c.next.index + m := by
      have := hc.lt_next hlt
      omega
    rw [statementOf, bind_ok (run_advance c)] at hrun
    by_cases hword : (c.peek 0).isWord = true
    · rw [hword, if_neg (by decide)] at hrun
      cases hopener : opener? nest (c.peek 0).spelling with
      | none =>
        rw [hopener] at hrun
        cases hrun
      | some opener =>
        rw [hopener] at hrun
        by_cases hflash : (c.peek 0).spelling = "flash"
        · cases (hflash ▸ opener?_flash nest).symm.trans hopener
          exact ⟨c, rfl, le_refl _, hword, .inl ⟨hflash, (stops_flash hc').mp ⟨c', hrun⟩⟩⟩
        by_cases hdefine : (c.peek 0).spelling = "define"
        · cases (hdefine ▸ opener?_define nest).symm.trans hopener
          rcases caused_definition (N := .statement) hc' he' hrun with hinside | hdata
          · exact hinside.moved hmoved
          · exact ⟨c, rfl, le_refl _, hword, .inr ⟨hdefine, hdata⟩⟩
        · have horder := (orderly_opener? (N := .statement) hopener hflash hdefine).run hc' he' hrun
          exact (horder.caused d rfl).moved hmoved
    · rw [Bool.eq_false_iff.mpr hword, if_pos (by decide)] at hrun
      cases hrun

instance orderly_nestAt (depth : Nat) : (nestAt depth).Orderly .statement depth := by
  induction depth with
  | zero => exact ⟨fun _ => .zero, fun _ => still_endless, fun _ => .zero⟩
  | succ depth ih =>
    have hstatement : Advances .statement (depth + 1) (statementOf (nestAt depth)) :=
      advances_statementOf
    exact ⟨fun stops => orderly_loop, fun stops => still_loop, 
      fun p => orderly_branch (m := depth)⟩

theorem orderly_rule {N : Causes} [nest.Orderly N m] :
    Orderly N (m + 1) (fun _ => True) (rule nest) := by
  refine Calm.bind_orderly inferInstance fun p => ?_
  exact (of_none (h := moves_expect)).bind_orderly (le_refl _) (fun _ _ => inferInstance)
    fun _ h => absurd trivial h

theorem advances_part [nest.Orderly .statement m] : Advances .statement (m + 1) (part nest) := by
  refine advances_bind_looks inferInstance fun b => advances_bind_looks inferInstance fun b' => ?_
  split
  · refine Advances.bind ⟨fun hc _ he hrun => ?_⟩ (fun _ => inferInstance) fun _ => inferInstance
    exact orderly_rule.run hc he hrun
  · exact advances_statementOf.bind (fun _ => inferInstance) fun _ => inferInstance

instance orderly_program : Orderly .statement m (fun _ => False) program := by
  refine orderly_budget fun n => ?_
  have hpart : Advances .statement (min m n) (part (nestAt n)) :=
    (advances_part (m := n)).mono (by omega)
  infer_instance

/-! ### The end of a program -/

theorem run_turnOf (r : Reader (Option α)) (c : Cursor) :
    (turnOf r).run c = match r.run c with
      | (.ok (some a), c') => (.ok (.item a), c')
      | (.ok none, c') => (.ok .next, c')
      | (.error (.fault f), c') => (.ok .next, c'.recovered f)
      | (.error (.defect d), c') => (.error (.defect d), c') := by
  rw [turnOf, run_bind, run_recovering]
  rcases r.run c with ⟨(f | d) | (_ | a), c'⟩ <;> rfl

/-- A run that fails by no fault, and ends at an end mark if it does not fail. -/
def Complete {α : Type} (out : Except Obstacle α) (c' : Cursor) : Prop :=
  (∃ a, out = .ok a ∧ (c'.peek 0).isFinish = true) ∨ ∃ d, out = .error (.defect d)

theorem Complete.bind_pure {β : Type} {x : Reader α} {f : α → β} {out : Except Obstacle β}
    (h : ∀ {o c₁}, x.run c = (o, c₁) → Complete o c₁)
    (hrun : (x >>= fun a => pure (f a)).run c = (out, c')) : Complete out c' := by
  rcases hx : x.run c with ⟨o | a, c₁⟩
  · rw [bind_error hx] at hrun
    cases hrun
    rcases h hx with ⟨a, ha, -⟩ | ⟨d, hd⟩
    · cases ha
    · cases hd
      exact .inr ⟨d, rfl⟩
  · rw [bind_ok hx] at hrun
    cases hrun
    rcases h hx with ⟨-, -, hfinish⟩ | ⟨d, hd⟩
    · exact .inl ⟨_, rfl, hfinish⟩
    · cases hd

/-- A loop over parts of a program ends at an end mark only, by induction on its
    bound. -/
theorem complete_turns (r : Reader (Option α)) (n : Nat) {out : Except Obstacle (List α)}
    (hrun : (turns (do if ← atFinish then return .stop else turnOf r) n).run c = (out, c')) :
    Complete out c' := by
  induction n generalizing c c' out with
  | zero =>
    cases hrun
    exact .inr ⟨_, rfl⟩
  | succ n ih =>
    rw [run_turns_succ, bind_ok (show atFinish.run c = (.ok (c.peek 0).isFinish, c) from rfl)]
      at hrun
    cases hfinish : (c.peek 0).isFinish with
    | true =>
      rw [hfinish] at hrun
      cases hrun
      exact .inl ⟨_, rfl, hfinish⟩
    | false =>
      rw [hfinish, if_neg Bool.false_ne_true, run_turnOf] at hrun
      -- After a fault, a part left out and a part that is read, the loop goes on.
      rcases hr : r.run c with ⟨(f | d) | (_ | a), c₁⟩
      · rw [hr] at hrun
        exact ih hrun
      · rw [hr] at hrun
        cases hrun
        exact .inr ⟨_, rfl⟩
      · rw [hr] at hrun
        exact ih hrun
      · rw [hr] at hrun
        exact Complete.bind_pure ih hrun

theorem complete_program {out : Except Obstacle Program} (hrun : program.run c = (out, c')) :
    Complete out c' := by
  rw [program, bind_ok (run_budget c)] at hrun
  exact Complete.bind_pure (fun h => complete_turns _ _ h) hrun

/-! ### Operations of the grammar -/

/-- The readers that a program is read with. Those that nest may nest as deep as
    there are tokens. -/
inductive Operation : {α : Type} → Reader α → Prop where
  | advance : Operation advance
  | accept (words : List String) : Operation (accept words)
  | expect (word : String) : Operation (expect word)
  | identifier : Operation ident
  | nameOrText : Operation nameOrText
  | name (stops : List String) : Operation (name stops)
  | reference : Operation reference
  | primary : Operation primary
  | value : Operation value
  | comparison : Operation comparison
  | condition : Operation condition
  | event : Operation event
  | opened (word : String) (p : Position) :
    Operation (do
      match opener? (nestAt (← budget)) word with
      | none => return none
      | some opener => opener p)
  | statement : Operation statement
  | body (stops : List String) : Operation (do (nestAt (← budget)).body stops)
  | rule : Operation (do rule (nestAt (← budget)))
  | program : Operation program

theorem Operation.orderly {r : Reader α} (h : Operation r) :
    Orderly .number m (fun _ => False) r := by
  have hnest (n : Nat) : (nestAt n).Orderly .number n := orderly_number (orderly_nestAt n)
  cases h with
  | opened word p =>
    exact orderly_budget fun n => (orderly_opened word p).mono (min_le_right m n)
  | statement =>
    refine orderly_budget fun n => Orderly.mono ?_ (min_le_right m n)
    exact Calm.bind_orderly inferInstance orderly_afterFirst
  | body stops =>
    exact orderly_budget fun n => ((hnest n).body stops).mono (min_le_right m n)
  | rule =>
    refine orderly_budget fun n => ⟨fun hc he hrun => ?_⟩
    exact ((orderly_rule (m := n)).run hc (by omega) hrun).imp fun _ h => h.elim
  | program => exact orderly_program.weaken fun _ _ => Causes.number_of_statement
  | _ => infer_instance

theorem advances_statement : Advances .statement m statement where
  run {c e out c'} hc hlt he hrun := by
    obtain ⟨t, ht, -, -⟩ := hc.mark
    have hsize := (Array.getElem?_eq_some_iff.mp ht).1
    rw [statement, bind_ok (run_budget c)] at hrun
    exact (advances_statementOf (m := c.tokens.size + 1)).run hc hlt (by omega) hrun

end Reader

/-! ### Reading token lists -/

/-- How a token list with its first end mark at a place is read. -/
structure Program.ReadInOrder (ts : List Token) (e : Nat) : Prop where
  /-- The place is that of the first end mark. -/
  first : ts.findIdx? isFinish = some e
  /-- A statement before the mark takes a token, or fails without going back. -/
  statement : ∀ c out c', c.tokens = ts.toArray → c.index < e →
    Reader.statement.run c = (out, c') →
      (∀ s, out = .ok s → c.index < c'.index) ∧
      ∀ f, out = .error (.fault f) → c.index ≤ c'.index
  /-- No operation goes back or past the mark, and none is cut off. -/
  bounded : ∀ {α : Type} (r : Reader α), Reader.Operation r → ∀ c out c',
    c.tokens = ts.toArray → c.index ≤ e → r.run c = (out, c') →
      c'.tokens = c.tokens ∧ c.index ≤ c'.index ∧ c'.index ≤ e ∧ out ≠ .error (.defect .endless)
  /-- A program ends at the mark unless a number is out of range. -/
  ends : ∃ out c', Reader.program.run (Cursor.ofTokens ts) = (out, c') ∧
    (ofTokens ts).faults = c'.faults ∧
    ((∃ p, out = .ok p ∧ c'.index = e) ∨ ∃ d, out = .error (.defect d) ∧ d ≠ .endless)
  /-- The faults stand at tokens of strictly increasing place. -/
  places : ∃ places : List Nat, places.Pairwise (· < ·) ∧
    (ofTokens ts).faults.map (fun f => some f.found) = places.map fun i => ts[i]?
  /-- There are at most as many faults as tokens. -/
  count : (ofTokens ts).faults.length ≤ ts.length

theorem Cursor.Ends.of_findIdx? {e : Nat}
    (hplain : ∀ t, ts.find? isFinish = some t → ∀ w, t.content ≠ .text w)
    (hfirst : ts.findIdx? isFinish = some e) {c : Cursor} (htokens : c.tokens = ts.toArray)
    (hle : c.index ≤ e) : c.Ends e := by
  obtain ⟨hlt, hfinish, hbefore⟩ := List.findIdx?_eq_some_iff_getElem.mp hfirst
  have hfind : ts.find? isFinish = some ts[e] :=
    find?_eq_some_iff_getElem.mpr
      ⟨hfinish, e, hlt, rfl, fun j hj => by simpa using hbefore j hj⟩
  refine ⟨hle, ⟨ts[e], ?_, hfinish, hplain _ hfind⟩, fun i t _ hi ht => ?_⟩
  · rw [htokens, List.getElem?_toArray, getElem?_eq_getElem hlt]
  · rw [htokens, List.getElem?_toArray] at ht
    obtain ⟨hi', rfl⟩ := List.getElem?_eq_some_iff.mp ht
    exact Bool.eq_false_iff.mpr (hbefore i hi)

theorem Token.length_le_of_places {places : List Nat} (hsorted : places.Pairwise (· < ·))
    (hfilled : ∀ i ∈ places, i < ts.length) : places.length ≤ ts.length := by
  have hnodup : places.Nodup := hsorted.imp ne_of_lt
  have hsubset : places ⊆ range ts.length := fun i hi => mem_range.mpr (hfilled i hi)
  simpa only [length_range] using (subperm_of_subset hnodup hsubset).length_le

theorem Token.closed_of_getLast? {t : Token} (h : ts.getLast? = some t)
    (hfinish : t.isFinish = true) : closed ts = ts := by
  rw [closed, h]
  exact if_pos hfinish

/-- Every token list that ends in an end mark is read in order up to its first end
    mark, if that one has no text. -/
theorem Program.readInOrder {ts : List Token} (hends : ∃ t, ts.getLast? = some t ∧ t.isFinish = true)
    (hplain : ∀ t, ts.find? isFinish = some t → ∀ w, t.content ≠ .text w) : ∃ e, ReadInOrder ts e := by
  obtain ⟨last, hlast, hfinish⟩ := hends
  have hsome : (ts.findIdx? isFinish).isSome = true := by
    rw [List.findIdx?_isSome]
    exact List.any_eq_true.mpr ⟨last, List.mem_of_getLast? hlast, hfinish⟩
  obtain ⟨e, hfirst⟩ := Option.isSome_iff_exists.mp hsome
  have hstart : Cursor.ofTokens ts = ⟨ts.toArray, 0, []⟩ := by
    rw [Cursor.ofTokens, closed_of_getLast? hlast hfinish]
  have hc : (Cursor.ofTokens ts).Ends e := by
    rw [hstart]
    exact .of_findIdx? hplain hfirst rfl (Nat.zero_le e)
  rcases hrun : Reader.program.run (Cursor.ofTokens ts) with ⟨out, c'⟩
  have horder := (orderly_program (m := e + 1)).run hc (by omega) hrun
  have hc' := hc.moved horder.moved
  have hfaults : (ofTokens ts).faults = c'.faults := by
    rcases complete_program hrun with ⟨p, rfl, -⟩ | ⟨d, rfl⟩ <;> rw [ofTokens, hrun]
  obtain ⟨places, hplaces, -⟩ := horder.noted
  have hfound : (ofTokens ts).faults.map (fun f => some f.found)
      = places.map fun i => ts[i]? := by
    obtain ⟨new, hnew, htokens⟩ := hplaces.faults
    simpa only [hfaults, hnew, hstart, List.nil_append, List.getElem?_toArray] using htokens
  refine ⟨e, hfirst, fun c out c' htokens hlt hrun => ?_, fun r hr c out c' htokens hle hrun => ?_,
    ⟨out, c', hrun, hfaults, ?_⟩, ⟨places, hplaces.sorted, hfound⟩, ?_⟩
  · have h := (advances_statement (m := e + 1)).run (.of_findIdx? hplain hfirst htokens (Nat.le_of_lt hlt)) hlt
      (by omega) hrun
    exact ⟨fun s hs => h.takes s hs trivial, fun _ _ => h.moved.le⟩
  · have h := (hr.orderly (m := e + 1)).run (.of_findIdx? hplain hfirst htokens hle)
      (by omega) hrun
    exact ⟨h.moved.tokens, h.moved.le, h.moved.bound, h.finite⟩
  · rcases complete_program hrun with ⟨p, rfl, hmark⟩ | ⟨d, rfl⟩
    · exact .inl ⟨p, rfl, hc'.isFinish_iff.mp hmark⟩
    · exact .inr ⟨d, rfl, fun hd => horder.finite (by rw [hd])⟩
  · have hlength := congrArg List.length hfound
    rw [List.length_map, List.length_map] at hlength
    rw [hlength]
    refine length_le_of_places hplaces.sorted fun i hi => ?_
    rcases hplaces.before i hi with h | ⟨h, -⟩
    · have := horder.moved.bound
      have := (List.findIdx?_eq_some_iff_getElem.mp hfirst).1
      omega
    · exact h ▸ (List.findIdx?_eq_some_iff_getElem.mp hfirst).1

/-- The words `repeat 2 times let let` and an end mark: the body is not closed, its
    first statement has no name to set, and its second one has none either. -/
theorem Program.readInOrder_open_body :
    let ts : List Token := [⟨.keyword, .text "repeat", ⟨1, 1⟩⟩, ⟨.number, .number (.int 2), ⟨1, 8⟩⟩,
      ⟨.keyword, .text "times", ⟨1, 10⟩⟩, ⟨.keyword, .text "let", ⟨1, 16⟩⟩,
      ⟨.punctuation, .text ",", ⟨1, 20⟩⟩, ⟨.keyword, .text "let", ⟨1, 22⟩⟩, .finish ⟨1, 25⟩]
    (∃ t, ts.getLast? = some t ∧ t.isFinish = true) ∧
      (∀ t, ts.find? isFinish = some t → ∀ w, t.content ≠ .text w) ∧
      (ofTokens ts).faults.length = 2 ∧ ∃ e, ReadInOrder ts e := by
  intro ts
  have hends : ∃ t, ts.getLast? = some t ∧ t.isFinish = true := ⟨_, rfl, rfl⟩
  have hplain : ∀ t, ts.find? isFinish = some t → ∀ w, t.content ≠ .text w := by
    rintro t ⟨⟩ w ⟨⟩
  exact ⟨hends, hplain, by decide, readInOrder hends hplain⟩

def Token.endsInto : List Token :=
  [⟨.action, .text "reduce", ⟨1, 1⟩⟩, ⟨.identifier, .text "xs", ⟨1, 8⟩⟩,
    ⟨.keyword, .text "do", ⟨1, 11⟩⟩, ⟨.action, .text "print", ⟨1, 14⟩⟩,
    ⟨.finish, .text "into", ⟨1, 19⟩⟩]

/-- The end mark is found at the end of the body and once more after it. -/
theorem Program.not_readInOrder_into : (∃ t, endsInto.getLast? = some t ∧ t.isFinish = true) ∧
      ¬∃ e, ReadInOrder endsInto e := by
  refine ⟨⟨_, rfl, rfl⟩, fun ⟨e, h⟩ => ?_⟩
  obtain ⟨places, hsorted, hplaces⟩ := h.places
  have htwice : (ofTokens endsInto).faults.map (fun f => some f.found)
      = [endsInto[4]?, endsInto[4]?] := by decide
  have honce : ∀ i, endsInto[i]? = endsInto[4]? → i = 4 := by
    intro i hi
    have hlt : i < 5 := (List.getElem?_eq_some_iff.mp hi).1
    revert hi
    revert i
    decide
  rw [htwice] at hplaces
  rcases places with _ | ⟨i, _ | ⟨j, rest⟩⟩
  · exact absurd (congrArg List.length hplaces) (by decide)
  · exact absurd (congrArg List.length hplaces) (by simp)
  · simp only [List.map_cons, List.cons.injEq] at hplaces
    have hlt : i < j := (List.pairwise_cons.mp hsorted).1 j List.mem_cons_self
    rw [honce i hplaces.1.symm, honce j hplaces.2.1.symm] at hlt
    exact Nat.lt_irrefl 4 hlt

end Parlance
