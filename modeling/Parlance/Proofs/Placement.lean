import Parlance.Proofs.Lexis

/-!
# Where Tokens Stand

The scanner counts lines and columns while it walks. `Position.after` says what the counts
should be, by looking back from a place in the source: the line ends before it, and the
characters since the last one. The two agree character by character, so they agree at every
lexeme of a cut, and the positions increase with the places.

A line end is a blank, and no complete lexeme looks beyond one. So a cut of a text goes on
behind a line end with the cut of any other text, whose tokens have moved down.

## Main definitions

* `Position.after`: The position behind a text: one line more for each line end in it, and one
  column more for each character since the last line end.
* `Position.Before`: Lines come first, and columns within a line.
* `Token.StandsAt`: The token begins at the place in the source: from there on the characters of
  its lexeme stand, and its position is the one behind the characters before.

## Theorems

* `Token.scan_positions`: The positions of tokens are exact.
* `Scan.endsInText_iff`: The missing quote takes a column, so the end mark shows whether there is
  one.
* `Token.scan_append_line`: Texts with a line end between them are scanned apart, if the first one
  does not end inside a quoted text: its tokens come first without the end mark, then those of the
  second text, as many lines down as the first one has.
* `Token.scan_append_line_sign`: A quoted text with a quote and a remark in it, and a sign right
  before the line end.
-/

namespace Parlance
open Position List Scan Prod Nat
variable (n : Nat) (p : Position)

namespace Position
variable {q : Position} (before : List Char)

/-- The position behind a text: one line more for each line end in it, and one column more
    for each character since the last line end. -/
def after (before : List Char) : Position :=
  ⟨1 + before.count '\n', 1 + (before.reverse.takeWhile (· != '\n')).length⟩

theorem after_concat (c : Char) : after (before ++ [c]) = (after before).step c := by
  by_cases hc : c = '\n'
  · subst hc
    simp [after, step, add_assoc]
  · simp [after, step, hc, add_assoc]

theorem after_append (cs : List Char) : after (before ++ cs) = (after before).stepAll cs := by
  induction cs generalizing before with
  | nil => rw [append_nil]; rfl
  | cons c cs ih =>
    rw [append_cons, ih, after_concat]
    rfl

theorem stepAll_start (cs : List Char) : start.stepAll cs = after cs := (after_append [] cs).symm

/-- Lines come first, and columns within a line. -/
def Before (p q : Position) : Prop := p.line < q.line ∨ p.line = q.line ∧ p.col < q.col

theorem Before.trans {p r : Position} (h : p.Before q) (h' : q.Before r) : p.Before r := by
  unfold Before at *
  omega

theorem before_step (c : Char) : p.Before (p.step c) := by
  unfold step Before
  split
  · exact .inl (lt_succ_self _)
  · exact .inr ⟨rfl, lt_succ_self _⟩

theorem before_stepAll {cs : List Char} (h : cs ≠ []) (p : Position) : p.Before (p.stepAll cs) := by
  induction cs generalizing p with
  | nil => exact absurd rfl h
  | cons c cs ih =>
    cases cs with
    | nil => exact before_step p c
    | cons d cs => exact (before_step p c).trans (ih (cons_ne_nil d cs) (p.step c))

theorem before_take {source : List Char} {i j : Nat} (hij : i < j) (hj : j ≤ source.length) :
    (after (source.take i)).Before (after (source.take j)) := by
  have hsplit := take_append_drop i (source.take j)
  rw [take_take, min_eq_left hij.le] at hsplit
  rw [← hsplit, after_append]
  refine before_stepAll (fun hnil => ?_) _
  have hlen := congrArg length hnil
  rw [length_drop, length_take, length_nil] at hlen
  omega

theorem Before.endOf {p : Position} (h : p.Before q) (closed : Bool) :
    p.Before (Scan.endOf closed q) := by
  unfold Before Scan.endOf at *
  dsimp only
  omega

end Position

/-- The token begins at the place in the source: from there on the characters of its lexeme
    stand, and its position is the one behind the characters before. -/
structure Token.StandsAt (source : List Char) (t : Token) (i : Nat) : Prop where
  lexeme : ∃ closed cs rest, source.drop i = cs ++ rest ∧ Lexes closed cs (some t.face) rest
  position : t.position = after (source.take i)

namespace Scan.Cut
variable {closed : Bool} {cs : List Char} {ps : List Piece}

theorem exists_spots (h : Cut closed cs ps) (before : List Char) : ∃ spots : List (Nat × Token),
      placed (after before) ps = spots.map snd ∧
      (spots.map snd).map Token.face = ps.filterMap Piece.face ∧ (spots.map fst).Pairwise (· < ·) ∧
      ∀ spot ∈ spots, (before.length ≤ spot.1 ∧ spot.1 < (before ++ cs).length) ∧
        spot.2.StandsAt (before ++ cs) spot.1 := by
  induction h generalizing before with
  | finish => exact ⟨[], rfl, rfl, .nil, forall_mem_nil _⟩
  | @next closed closed' cs rest f ps h hrest ih =>
    obtain ⟨spots, hplaced, hfaces, hincreasing, hstands⟩ := ih (before ++ cs)
    rw [after_append] at hplaced
    have hlen := length_pos_of_ne_nil h.ne_nil
    -- All later places are behind this lexeme.
    have hlater : ∀ spot ∈ spots,
        (before.length < spot.1 ∧ spot.1 < (before ++ (cs ++ rest)).length) ∧
          spot.2.StandsAt (before ++ (cs ++ rest)) spot.1 := by
      intro spot hspot
      obtain ⟨⟨hlow, hhigh⟩, hat⟩ := hstands spot hspot
      rw [append_assoc] at hhigh hat
      rw [length_append] at hlow
      exact ⟨⟨by omega, hhigh⟩, hat⟩
    cases f with
    | none =>
      refine ⟨spots, ?_, hfaces, hincreasing, fun spot hspot => ?_⟩
      · rw [placed, hplaced]
        rfl
      · obtain ⟨⟨hlow, hhigh⟩, hat⟩ := hlater spot hspot
        exact ⟨⟨hlow.le, hhigh⟩, hat⟩
    | some face =>
      let here : Token := ⟨face.1, face.2, after before⟩
      have hhere : here.StandsAt (before ++ (cs ++ rest)) before.length := by
        refine ⟨⟨closed, cs, rest, drop_left, h⟩, ?_⟩
        rw [take_left]
      refine ⟨(before.length, here) :: spots, ?_, ?_, ?_, ?_⟩
      · rw [placed, hplaced]
        rfl
      · rw [map_cons, map_cons, hfaces]
        rfl
      · rw [map_cons, pairwise_cons]
        exact ⟨forall_mem_map.mpr fun spot hspot => (hlater spot hspot).1.1, hincreasing⟩
      · refine forall_mem_cons.mpr ⟨⟨⟨le_rfl, ?_⟩, hhere⟩, fun spot hspot => ?_⟩
        · simp only [length_append]
          omega
        · obtain ⟨⟨hlow, hhigh⟩, hat⟩ := hlater spot hspot
          exact ⟨⟨hlow.le, hhigh⟩, hat⟩

end Scan.Cut

namespace Token

/-- The positions of tokens are exact. There is one place in the source for each token, in
    increasing order; the lexeme of the token stands there, and its position is the one that
    the characters before it make. The tokens are all of those of the source and one end mark,
    each further on than the one before. -/
theorem scan_positions (source : String) : ∃ (spots : List (Nat × Token)) (q : Position),
      scan source = spots.map snd ++ [finish q] ∧ (∀ spot ∈ spots, spot.2.isFinish = false) ∧
      (spots.map fst).Pairwise (· < ·) ∧
      (∀ spot ∈ spots, spot.1 < source.length ∧ spot.2.StandsAt source.toList spot.1) ∧
      (scan source).Pairwise (fun t u => t.position.Before u.position) ∧
      ∃ closed ps, Cut closed source.toList ps ∧
        (spots.map snd).map face = ps.filterMap Piece.face ∧
        q = Scan.endOf closed (after source.toList) := by
  obtain ⟨closed, ps, hcut⟩ := exists_cut source.toList
  obtain ⟨spots, hplaced, hfaces, hincreasing, hstands⟩ := hcut.exists_spots []
  rw [nil_append] at hstands
  have hscan : scan source =
      spots.map snd ++ [finish (Scan.endOf closed (after source.toList))] := by
    rw [scan, hcut.tokensFrom_eq, stepAll_start, ← hplaced]
    rfl
  refine ⟨spots, _, hscan, ?_, hincreasing, ?_, ?_, closed, ps, hcut, hfaces, rfl⟩
  · intro spot hspot
    obtain ⟨_, _, _, _, hlexes⟩ := (hstands spot hspot).2.lexeme
    exact beq_false_of_ne hlexes.face_cases.1
  · intro spot hspot
    obtain ⟨⟨_, hlt⟩, hat⟩ := hstands spot hspot
    exact ⟨by rwa [← String.length_toList], hat⟩
  · rw [hscan, pairwise_append, pairwise_map]
    rw [pairwise_map] at hincreasing
    refine ⟨hincreasing.imp_of_mem fun {a b} ha hb hlt => ?_, pairwise_singleton _ _, ?_⟩
    · rw [(hstands a ha).2.position, (hstands b hb).2.position]
      exact before_take hlt (hstands b hb).1.2.le
    · intro t ht u hu
      obtain ⟨spot, hspot, rfl⟩ := mem_map.mp ht
      obtain ⟨⟨_, hlt⟩, hat⟩ := hstands spot hspot
      have hend := before_take hlt le_rfl
      rw [take_length, ← hat.position] at hend
      rw [mem_singleton.mp hu]
      exact hend.endOf closed

end Token

/-! ### Line ends -/

namespace Scan

def EndsInText (cs : List Char) : Prop := ∃ ps, Cut false cs ps

/-- The missing quote takes a column, so the end mark shows whether there is one. -/
theorem endsInText_iff {cs : List Char} : EndsInText cs ↔
      (tokensFrom .start 0 cs).getLast? ≠ some (Token.finish (after cs)) := by
  have hlast {closed : Bool} {ps : List Piece} (h : Cut closed cs ps) :
      (tokensFrom .start 0 cs).getLast? = some (Token.finish (endOf closed (after cs))) := by
    rw [h.tokensFrom_eq, getLast?_concat, stepAll_start]
  constructor
  · rintro ⟨ps, hcut⟩ heq
    rw [hlast hcut] at heq
    have hcol : (after cs).col + 1 = (after cs).col :=
      congrArg (fun t => t.position.col) (Option.some.inj heq)
    omega
  · intro hne
    obtain ⟨closed, ps, hcut⟩ := exists_cut cs
    cases closed with
    | true => exact absurd (hlast hcut) hne
    | false => exact ⟨ps, hcut⟩

instance {cs : List Char} : Decidable (EndsInText cs) := decidable_of_iff _ endsInText_iff.symm

theorem exists_cut_of_not_endsInText {cs : List Char} (h : ¬EndsInText cs) :
    ∃ ps, Cut true cs ps := by
  obtain ⟨closed, ps, hcut⟩ := exists_cut cs
  cases closed with
  | true => exact ⟨ps, hcut⟩
  | false => exact absurd ⟨ps, hcut⟩ h

theorem Cut.append_line {closed : Bool} {cs more : List Char} {ps qs : List Piece}
    (h : Cut true cs ps) (hmore : Cut closed more qs) :
    Cut closed (cs ++ '\n' :: more) (ps ++ ⟨['\n'], none⟩ :: qs) := by
  generalize htrue : true = complete at h
  induction h with
  | finish => exact .next (.blank (by decide)) hmore
  | @next closed₁ closed₂ cs rest f ps h hrest ih =>
    obtain ⟨rfl, rfl⟩ := Bool.and_eq_true_iff.mp htrue.symm
    rw [append_assoc]
    exact .next h.append_line (ih rfl)

theorem placed_append (ps qs : List Piece) :
    placed p (ps ++ qs) = placed p ps ++ placed (p.stepAll (ps.flatMap Piece.chars)) qs := by
  induction ps generalizing p with
  | nil => rfl
  | cons piece ps ih =>
    rw [cons_append, placed, placed, ih, append_assoc, flatMap_cons,
      stepAll, stepAll, stepAll, foldl_append]

theorem Cut.flatMap_chars {closed : Bool} {cs : List Char} {ps : List Piece}
    (h : Cut closed cs ps) : ps.flatMap Piece.chars = cs := by
  induction h with
  | finish => rfl
  | next _ _ ih => rw [flatMap_cons, ih]

end Scan

namespace Position

def down (n : Nat) (p : Position) : Position := ⟨p.line + n, p.col⟩

theorem down_step (c : Char) : (p.down n).step c = (p.step c).down n := by
  unfold step down
  split
  · rw [add_right_comm]
  · rfl

theorem down_stepAll (cs : List Char) : (p.down n).stepAll cs = (p.stepAll cs).down n := by
  induction cs generalizing p with
  | nil => rfl
  | cons c cs ih =>
    have hstep := ih (p.step c)
    rw [← down_step] at hstep
    exact hstep

theorem after_line (cs : List Char) : after (cs ++ ['\n']) = start.down (1 + cs.count '\n') := by
  rw [after_concat, step, if_pos rfl]
  exact congrArg (mk · 1) (add_comm _ _)

end Position

namespace Token

def down (n : Nat) (t : Token) : Token := { t with position := t.position.down n }

theorem down_placed (ps : List Piece) : placed (p.down n) ps = (placed p ps).map (down n) := by
  induction ps generalizing p with
  | nil => rfl
  | cons piece ps ih =>
    obtain ⟨cs, f⟩ := piece
    rw [placed, placed, down_stepAll, ih, map_append]
    cases f <;> rfl

/-- Texts with a line end between them are scanned apart, if the first one does not end
    inside a quoted text: its tokens come first without the end mark, then those of the second
    text, as many lines down as the first one has. -/
theorem scan_append_line (a b : String) (h : ¬EndsInText a.toList) :
    scan (a ++ "\n" ++ b) =
      (scan a).dropLast ++ (scan b).map (down (1 + a.toList.count '\n')) := by
  obtain ⟨ps, hps⟩ := exists_cut_of_not_endsInText h
  obtain ⟨closed, qs, hqs⟩ := exists_cut b.toList
  have hcut := hps.append_line hqs
  have hsource : (a ++ "\n" ++ b).toList = a.toList ++ '\n' :: b.toList := by simp
  -- The second text begins below the first one, in the first column.
  have hbelow : ((start).stepAll a.toList).step '\n' =
      start.down (1 + a.toList.count '\n') := by
    rw [← after_line, after_concat, stepAll_start]
  have hend : start.stepAll (a.toList ++ '\n' :: b.toList) =
      (start.stepAll b.toList).down (1 + a.toList.count '\n') := by
    rw [← down_stepAll, ← hbelow]
    exact foldl_append
  rw [scan, hsource, hcut.tokensFrom_eq, placed_append, hps.flatMap_chars, hend, scan,
    hps.tokensFrom_eq, dropLast_concat, scan, hqs.tokensFrom_eq, map_append,
    ← down_placed, ← hbelow, append_assoc]
  rfl

/-- A quoted text with a quote and a remark in it, and a sign right before the line end. -/
theorem scan_append_line_sign :
    ¬EndsInText "say \"a // \\\" b\" -".toList ∧
      scan ("say \"a // \\\" b\" -" ++ "\n" ++ "5 // \"") =
        (scan "say \"a // \\\" b\" -").dropLast ++ (scan "5 // \"").map (down 1) :=
  have h : ¬EndsInText "say \"a // \\\" b\" -".toList := by decide
  ⟨h, scan_append_line _ _ h⟩

end Token
end Parlance
