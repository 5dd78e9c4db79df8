import Parlance.Proofs.ReadBlock

/-!
# Reading Is the Inverse of Printing

A program of the core language that is printed and read again is the program
that was printed, up to positions, and no fault is noted on the way.

## Theorems

* `Core.Rule.shown_spell`: How a rule is spelled.
* `Core.reads_parts`: Rules and statements are read one after the other, as many as there are
  turns for.
* `Core.ofSource_of_statement`: A text that is one statement is a program of one statement.
* `Core.ofSource_print`: Reading the text of a printed program gives the program back, with no
  fault.
-/

namespace Parlance
open List Token

namespace Core
open Reader
variable {fs gs rest : List Face} {nest : Nest} {n : Nat}

/-! ### Rules -/

def Rule.spell (r : Rule) : Line := r.lines.flatten

/-- How a rule is spelled. -/
theorem Rule.shown_spell (r : Rule) :
    shown r.spell = (.keyword, .text "when") :: (shown r.event.spell
      ++ (.keyword, .text "then") :: (shown (r.body.flatMap Stmt.spell) ++ [endFace])) := by
  simp only [Rule.spell, Rule.lines, block, flatten_cons, flatten_append,
    flatten_nil, append_nil, flatten_linesOf, shown_cons, shown_append, face_word,
    Vocabulary.classify_words, cons_append, append_assoc, nil_append]
  rfl

theorem reads_rule (hnest : ReadsBodies nest n) (r : Rule)
    (hlen : (r.body.flatMap Stmt.spell).length ≤ n) (hrest : StartsWith lineFaces rest) :
    Reads (rule nest) (shown r.spell ++ rest) rest r.Placed := by
  rw [r.shown_spell]
  simp only [cons_append, append_assoc, nil_append]
  refine .position fun p => .expect rfl ?_
  refine (reads_event r.event).bind fun e he => .expect rfl ?_
  refine (reads_closedBody hnest false hlen hrest).bind fun ss hss => ?_
  exact .pure ⟨he, hss, rfl⟩

theorem Event.spell_starts (e : Event) (rest : List Face) :
    Starts (fun g => !g.readsAny ["receiving", "server", "the"]) (shown e.spell ++ rest) := by
  cases e with
  | starts =>
    simp only [Event.spell, shown_cons, face_word, Vocabulary.classify_words]
    rfl
  | _ =>
    rw [Event.spell, shown_cons, Plain.face_spell, cons_append, Starts,
      Plain.leaves _ (by decide)]
    rfl

theorem reads_seesRoute_false {f g : Face}
    (hg : g.readsAny ["receiving", "server", "the"] = false) :
    Reads (Opener.seesRoute 1) (f :: g :: fs) (f :: g :: fs) (fun b => b = false) := by
  have hleave : ∀ x ∈ ["receiving", "server", "the"], g.reads x = false := by
    intro x hx
    rw [reads_eq_readsAny]
    exact readsAny_of_subset (fun y hy => mem_singleton.mp hy ▸ hx) hg
  refine .seesNext (.seesNext (.seesNext (.seesAhead fun b => .pure ?_)))
  rw [hleave _ (by simp), hleave _ (by simp), hleave _ (by simp)]
  rfl

theorem reads_seesRoute : Reads (Opener.seesRoute 1) fs fs (fun _ => True) :=
  .seesAhead fun _ => .seesAhead fun _ => .seesAhead fun _ => .seesAhead fun _ => .pure trivial

abbrev PartPlaced : Rule ⊕ Stmt → Parlance.Rule ⊕ Parlance.Stmt → Prop :=
  Sum.LiftRel Rule.Placed Stmt.Placed

theorem reads_part_rule (hnest : ReadsBodies nest n) (r : Rule)
    (hlen : (r.body.flatMap Stmt.spell).length ≤ n) (hrest : StartsWith lineFaces rest) :
    Reads (part nest) (shown r.spell ++ rest) rest
      (fun o => ∃ q, o = some q ∧ PartPlaced (.inl r) q) := by
  have hread := reads_rule hnest r hlen hrest
  rw [r.shown_spell] at hread ⊢
  simp only [cons_append, append_assoc, nil_append] at hread ⊢
  obtain ⟨g, fs, hshown, hg⟩ := (r.event.spell_starts ((.keyword, .text "then")
    :: (shown (r.body.flatMap Stmt.spell) ++ endFace :: rest))).cons
  rw [hshown] at hread ⊢
  refine .sees ((reads_seesRoute_false (by simpa using hg)).bind fun b hb => ?_)
  refine .yes (by rw [hb]; rfl) (hread.bind fun q hq => .pure ⟨_, rfl, .inl hq⟩)

theorem reads_part_of_statement {f : Face} {s : Stmt} (hf : f ∈ statementFaces)
    (hread : Reads (statementOf nest) (f :: fs) gs s.Given) : Reads (part nest) (f :: fs) gs
      (fun o => ∃ q, o = some q ∧ PartPlaced (.inr s) q) := by
  have hwhen : f.reads "when" = false := (leaves_of_statement f hf).2.2
  refine .sees (reads_seesRoute.bind fun b _ => .no (by rw [hwhen]; rfl) (hread.bind ?_))
  rintro _ ⟨t, rfl, ht⟩
  exact .pure ⟨_, rfl, .inr ht⟩

theorem reads_part_statement (hnest : ReadsStatements (statementOf nest) n) (s : Stmt)
    (hlen : s.spell.length ≤ n) (hrest : StartsWith lineFaces rest) :
    Reads (part nest) (shown s.spell ++ rest) rest
      (fun o => ∃ q, o = some q ∧ PartPlaced (.inr s) q) := by
  have hread := hnest s rest hlen hrest
  obtain ⟨g, fs, hshown, hg⟩ := (s.starts rest).cons
  rw [hshown] at hread ⊢
  exact reads_part_of_statement (of_decide_eq_true hg) hread

/-! ### Programs -/

def Program.parts (p : Program) : List (Rule ⊕ Stmt) := p.rules.map .inl ++ p.main.map .inr

def spellPart : Rule ⊕ Stmt → Line := Sum.elim Rule.spell Stmt.spell

theorem faces_lines (p : Program) :
    Spelling.faces p.lines = p.parts.flatMap fun q => shown (spellPart q) := by
  have hrules : (p.rules.flatMap Rule.lines).flatten = p.rules.flatMap Rule.spell := by
    rw [flatMap_def, flatten_flatten, map_map, flatMap_def]
    rfl
  rw [Spelling.faces, Program.lines, flatten_append, hrules, flatten_linesOf, Program.parts,
    flatMap_append, flatMap_map, flatMap_map, map_append]
  exact congrArg₂ (· ++ ·) (shown_flatMap Rule.spell p.rules) (shown_flatMap Stmt.spell p.main)

theorem Program.placed_of_parts (p : Program) {qs : List (Parlance.Rule ⊕ Parlance.Stmt)}
    (h : Forall₂ PartPlaced p.parts qs) :
    p.Placed ⟨qs.filterMap Sum.getLeft?, qs.filterMap Sum.getRight?⟩ := by
  have hrules : p.parts.filterMap Sum.getLeft? = p.rules := by
    simp [Program.parts, filterMap_append, filterMap_map, Function.comp_def]
  have hmain : p.parts.filterMap Sum.getRight? = p.main := by
    simp [Program.parts, filterMap_append, filterMap_map, Function.comp_def]
  have hleft : Forall₂ Rule.Placed (p.parts.filterMap Sum.getLeft?)
      (qs.filterMap Sum.getLeft?) := by
    refine rel_filterMap (fun _ _ hq => ?_) h
    cases hq with
    | inl hr => exact .some hr
    | inr hs => exact .none
  have hright : Forall₂ Stmt.Placed (p.parts.filterMap Sum.getRight?)
      (qs.filterMap Sum.getRight?) := by
    refine rel_filterMap (fun _ _ hq => ?_) h
    cases hq with
    | inl hr => exact .none
    | inr hs => exact .some hs
  rw [hrules] at hleft
  rw [hmain] at hright
  exact ⟨hleft, hright⟩

theorem part_starts (q : Rule ⊕ Stmt) (fs : List Face) :
    StartsWith ((.keyword, .text "when") :: statementFaces) (shown (spellPart q) ++ fs) := by
  cases q with
  | inl r =>
    rw [spellPart, Sum.elim_inl, r.shown_spell]
    exact decide_eq_true mem_cons_self
  | inr s => exact (s.starts fs).imp fun g hg => by simp [of_decide_eq_true hg]

theorem line_of_part : ∀ g ∈ (.keyword, .text "when") :: statementFaces,
    g ∈ lineFaces ∧ g.1 ≠ .finish := by
  decide

theorem reads_part (q : Rule ⊕ Stmt) (hlen : (spellPart q).length ≤ n)
    (hrest : StartsWith lineFaces rest) :
    Reads (part (nestAt (n + 1))) (shown (spellPart q) ++ rest) rest
      (fun o => ∃ q', o = some q' ∧ PartPlaced q q') := by
  cases q with
  | inl r =>
    have hnest : ReadsBodies (nestAt (n + 1)) n :=
      reads_bodyOf (readsStatements_nestAt n) (fun fs => reads_do _) _
    refine reads_part_rule hnest r ?_ hrest
    have hshown := congrArg length r.shown_spell
    rw [length_shown] at hshown
    rw [spellPart, Sum.elim_inl, hshown] at hlen
    simp only [length_cons, length_append, length_shown] at hlen
    omega
  | inr s =>
    rw [spellPart, Sum.elim_inr] at hlen
    exact reads_part_statement (readsStatements_nestAt (n + 1)) s (by omega) hrest

theorem reads_turnOf_part (q : Rule ⊕ Stmt) (hlen : (spellPart q).length ≤ n)
    (hrest : StartsWith lineFaces rest) :
    Reads (partTurn (nestAt (n + 1)))
      (shown (spellPart q) ++ rest) rest
      (fun t => ∃ q', t = .item q' ∧ PartPlaced q q') := by
  have hread := reads_part q hlen hrest
  obtain ⟨g, gs, hshown, hg⟩ := (part_starts q rest).cons
  rw [hshown] at hread ⊢
  refine .atFinish (.no (beq_false_of_ne (line_of_part g (of_decide_eq_true hg)).2) ?_)
  refine reads_turnOf hread ?_ ?_
  · rintro r ⟨_, ⟨rfl⟩, hr⟩
    exact ⟨r, rfl, hr⟩
  · rintro ⟨_, h, _⟩
    cases h

theorem length_parts_le (parts : List (Rule ⊕ Stmt)) :
    parts.length ≤ (parts.flatMap spellPart).length := by
  refine length_le_length_flatMap parts fun q _ hq => ?_
  have hstarts := part_starts q []
  rw [hq] at hstarts
  exact hstarts

/-- Rules and statements are read one after the other, as many as there are turns for. -/
theorem reads_parts {Q : List (Parlance.Rule ⊕ Parlance.Stmt) → Prop} {m k : Nat}
    (parts : List (Rule ⊕ Stmt)) (hlen : (parts.flatMap spellPart).length ≤ n)
    (hrest : StartsWith lineFaces rest)
    (hloop : ∀ k, m ≤ k → Reads
      (turns (partTurn (nestAt (n + 1))) k) rest gs Q)
    (hk : parts.length + m ≤ k) :
    Reads (turns (partTurn (nestAt (n + 1))) k)
      (shown (parts.flatMap spellPart) ++ rest) gs
      (fun qs => ∃ qs' qs'', qs = qs' ++ qs''
        ∧ Forall₂ PartPlaced parts qs' ∧ Q qs'') := by
  rw [shown_flatMap]
  refine ReadsOn.turns_items_append (G := StartsWith lineFaces) hloop hrest parts
    (fun q _ fs => (part_starts q fs).imp fun g hg => ?_) (fun q hq fs hfs => ?_) k hk
  · exact decide_eq_true (line_of_part g (of_decide_eq_true hg)).1
  · exact reads_turnOf_part q ((length_le_flatMap hq).trans hlen) hfs

theorem reads_parts_finish (k : Nat) (hk : 1 ≤ k) :
    Reads (turns (partTurn nest) k)
      [(.finish, .none)] [(.finish, .none)] (fun qs => qs = []) := by
  obtain ⟨k, rfl⟩ : ∃ m, k = m + 1 := ⟨k - 1, by omega⟩
  exact .turns_stop (.atFinish (.yes rfl (.pure rfl)))

theorem startsWith_finish : StartsWith lineFaces [(.finish, .none)] :=
  decide_eq_true (by decide)

theorem reads_program (p : Program) :
    Reads program (Spelling.faces p.lines ++ [(.finish, .none)]) [(.finish, .none)] p.Placed := by
  rw [faces_lines, ← shown_flatMap]
  have hcount := length_parts_le p.parts
  refine .budget fun n hn => ?_
  rw [length_append, length_shown] at hn
  obtain ⟨n, rfl⟩ : ∃ m, n = m + 1 := ⟨n - 1, by omega⟩
  refine .bind (.budget fun m hm => ?_) fun qs hqs => .pure (p.placed_of_parts hqs)
  rw [length_append, length_shown] at hm
  refine (reads_parts p.parts (by omega) startsWith_finish reads_parts_finish (by omega)).imp ?_
  rintro _ ⟨qs, _, rfl, hqs, rfl⟩
  rwa [append_nil]

theorem run_turn_of_statement {c c' : Cursor} {f : Face} {s : Parlance.Stmt}
    (hfaces : c.faces = f :: fs) (hf : f.1 ≠ .finish ∧ f.reads "when" = false)
    (hrun : (statementOf nest).run c = (.ok (some s), c')) :
    (partTurn nest).run c =
      (.ok (.item (.inr s)), c') := by
  obtain ⟨p, hp⟩ := Cursor.peek_zero hfaces
  have hfinish : atFinish.run c = (.ok (f.1 == .finish), c) := by
    rw [show atFinish.run c = (.ok (c.peek 0).isFinish, c) from rfl, hp]
    rfl
  have hwhen : (sees "when").run c = (.ok false, c) := by
    rw [show (sees "when").run c = (.ok ((c.peek 0).reads "when"), c) from rfl, hp,
      show (f.token p).reads "when" = false from hf.2]
  have hpart : (part nest).run c = (.ok (some (.inr s)), c') := by
    obtain ⟨b, hroute⟩ : ∃ b, (Opener.seesRoute 1).run c = (.ok b, c) := ⟨_, rfl⟩
    rw [part, bind_ok hwhen, bind_ok hroute, if_neg (by simp), bind_ok hrun]
    rfl
  rw [partTurn, bind_ok hfinish, if_neg (by simp [hf.1]), turnOf, bind_ok (by rw [run_recovering, hpart])]
  rfl

/-- A text that is one statement is a program of one statement. -/
theorem ofSource_of_statement {source : String} {f : Face} {P : Parlance.Stmt → Prop}
    (hfaces : (Cursor.ofTokens (scan source)).faces = f :: fs)
    (hf : f.1 ≠ .finish ∧ f.reads "when" = false)
    (hread : ∀ n, fs.length < n → ∃ o c',
      (statementOf (nestAt n)).run (Cursor.ofTokens (scan source)) = (.ok o, c')
        ∧ c'.tokens = (Cursor.ofTokens (scan source)).tokens ∧ c'.faces = [(.finish, .none)]
        ∧ c'.faults = [] ∧ ∃ s, o = some s ∧ P s) :
    ∃ s, Program.ofSource source = ⟨.ok ⟨[], [s]⟩, []⟩ ∧ P s := by
  rw [Program.ofSource, Program.ofTokens]
  generalize Cursor.ofTokens (scan source) = c at hfaces hread ⊢
  have hlen := c.length_faces_le
  rw [hfaces, length_cons] at hlen
  obtain ⟨_, c', hrun, -, hend, hfaults, s, rfl, hs⟩ := hread (c.tokens.size + 1) (by omega)
  have hturn := run_turn_of_statement hfaces hf hrun
  obtain ⟨m, hm⟩ : ∃ m, c.tokens.size = m + 1 := ⟨c.tokens.size - 1, by omega⟩
  -- After the statement the loop stops at the end mark.
  have hstop := @reads_parts_finish (nestAt (c.tokens.size + 1)) (m + 1) (by omega)
  obtain ⟨_, c'', hrest, -, -, hfaults', rfl⟩ := hstop c' trivial hend
  rw [← hm] at hrest
  have hloop : (loop (partTurn (nestAt (c.tokens.size + 1)))).run c =
      (.ok [.inr s], c'') := by
    unfold loop
    rw [bind_ok (run_budget c), run_turns_succ, hturn]
    exact bind_ok hrest
  have hprogram : program.run c = (.ok ⟨[], [s]⟩, c'') := by
    rw [program, bind_ok (run_budget c), bind_ok hloop]
    rfl
  rw [hprogram]
  exact ⟨s, congrArg (Reading.mk (.ok ⟨[], [s]⟩)) (hfaults'.trans hfaults), hs⟩

theorem faces_ofTokens_scan (p : Program) :
    (Cursor.ofTokens (scan p.print)).faces = Spelling.faces p.lines ++ [(.finish, .none)] :=
  faces_ofTokens_layout p.lines

/-- Reading the text of a printed program gives the program back, with no
    fault. -/
theorem ofSource_print (p : Program) :
    ∃ program, Program.ofSource p.print = ⟨.ok program, []⟩ ∧ p.Placed program := by
  obtain ⟨program, c, hrun, -, -, hfaults, hplaced⟩ := reads_program p _ trivial (faces_ofTokens_scan p)
  refine ⟨program, ?_, hplaced⟩
  rw [Program.ofSource, Program.ofTokens, hrun]
  exact congrArg (Reading.mk (.ok program)) hfaults

end Core
end Parlance
