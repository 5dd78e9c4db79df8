import Parlance.Proofs.Lexis
import Parlance.Proofs.ReadOrder

/-!
# Numbers out of Range

Two statements work out numbers while they are read. A `flash` rounds the channels of its colour,
and an infinite channel cannot be rounded. A definition of data works out constants, and a sum or
a quotient may leave the range of binary64. Nothing else fails: a fault is passed over at the
statement or rule where it occurs, so no fault escapes.

## Main definitions

* `Token.IsInfinite`: The token stands for an infinite number: it has too many digits for
  binary64.
* `Token.IsScanned`: The number of the token, if it is one, stands in a script.
* `Cursor.FlashOutOfRange`: The statement at the cursor is a flash, and one of the numbers in a
  row behind it, up to the third, is infinite.
* `Cursor.DataOutOfRange`: The statement at the cursor defines data, and some value behind it has
  a constant that is out of range.
* `Cursor.Scanned`: The tokens around the cursor are those of a script.

## Theorems

* `Program.readUnlessOutOfRange`: Every script is read, with its faults passed over, unless the
  number of a colour or of a definition of data is out of range.
-/

namespace Parlance
open Binary Token List Number Opener Reader

/-! ### Numbers of a script -/

namespace Scan

theorem isNaN_scale (negative : Bool) (mantissa : Nat) (exponent : Int) :
    (Numeral.scale negative mantissa exponent).isNaN = false := by
  unfold Numeral.scale
  dsimp only
  split
  · exact isNaN_ofRatio negative Nat.one_pos
  split
  · cases negative <;> decide
  split
  · exact isNaN_ofRatio negative Nat.one_pos
  · exact isNaN_ofRatio negative (Nat.pow_pos (by decide))

theorem numberOf_cases (cs : List Char) : (∃ n, numberOf cs = .int n ∧ n.natAbs < limit) ∨
      ∃ x, numberOf cs = .float x ∧ x.isNaN = false := by
  unfold numberOf normal
  dsimp only
  split
  · rename_i n hwhole
    exact .inl ⟨n, rfl, natAbs_lt_of_whole? hwhole⟩
  · exact .inr ⟨_, rfl, isNaN_scale _ _ _⟩

end Scan

namespace Token

/-- The token stands for an infinite number: it has too many digits for binary64. -/
def IsInfinite (t : Token) : Prop := ∃ x, t.content = .number (.float x) ∧ x.isInf = true

/-- The number of the token, if it is one, stands in a script. -/
def IsScanned (t : Token) : Prop := ∀ n, t.content = .number n → ∃ cs, n = Scan.numberOf cs

theorem spelling_of_reads {t : Token} {w : String} (h : t.reads w = true) : t.spelling = w := by
  rw [reads, Bool.and_eq_true] at h
  cases hcontent : t.content with
  | text s =>
    rw [hcontent] at h
    rw [spelling, hcontent]
    exact beq_iff_eq.mp h.2
  | none | number | flag =>
    rw [hcontent] at h
    cases h.2

theorem scan_eq (source : String) :
    ∃ ts q, scan source = ts ++ [finish q] ∧ ∀ t ∈ ts, t.isFinish = false ∧ t.IsScanned := by
  obtain ⟨closed, ps, hcut⟩ := Scan.exists_cut source.toList
  refine ⟨_, _, hcut.tokensFrom_eq .start, fun t ht => ?_⟩
  obtain ⟨_, _, _, hlexes⟩ := hcut.exists_lexes_of_mem ht
  obtain ⟨hkind, hnumber⟩ := hlexes.face_cases
  exact ⟨isFinish_eq_false hkind, hnumber⟩

theorem isScanned_of_mem {source : String} {t : Token} (h : t ∈ scan source) : t.IsScanned := by
  obtain ⟨ts, q, heq, hts⟩ := scan_eq source
  rw [heq] at h
  rcases mem_append.mp h with h | h
  · exact (hts t h).2
  · cases mem_singleton.mp h
    nofun

end Token

namespace Opener
variable {x : Float}

/-! ### Channels -/

theorem channelOf_eq {n : Number} (h : n.normal.add (.float 0.5) = .ok (.float x)) :
    channelOf n = match floor? x with
      | some k => .ok (max 0 (min 255 k)).toNat
      | none => .error (if x.isNaN then .badValue else .overflow) := by
  rw [channelOf, h]
  change (match floor? x with | some k => _ | none => _) = _
  cases floor? x <;> rfl

theorem channelOf_of_add {n : Number} (h : n.normal.add (.float 0.5) = .ok (.float x))
    (hx : x.isFinite = true) : ∃ k, channelOf n = .ok k := by
  rw [← isSome_dyadic?, Option.isSome_iff_exists] at hx
  obtain ⟨d, hd⟩ := hx
  rw [channelOf_eq h, floor?, hd]
  exact ⟨_, rfl⟩

theorem channelOf_int {n : Int} (hn : n.natAbs < limit) : ∃ k, channelOf (.int n) = .ok k := by
  have hfinite : (ofInt n).isFinite = true := by
    refine isFinite_ofRatio _ Nat.one_pos ?_
    rwa [Nat.mul_one]
  have hadd : (int n).normal.add (.float 0.5) = .ok (.float (ofInt n + 0.5)) := by
    have htoFloat : (int n).toFloat = .ok (ofInt n) := by
      rw [toFloat, isInf_of_isFinite hfinite]
      rfl
    change (do
      let x ← (int n).toFloat
      let y ← (float 0.5).toFloat
      return float (x + y)) = _
    rw [htoFloat]
    rfl
  exact channelOf_of_add hadd (isFinite_add_half hfinite)

theorem channelOf_float {d : Defect} :
    channelOf (.float x) = .error d ↔
      x.isFinite = false ∧ d = if x.isNaN then .badValue else .overflow := by
  cases hwhole : whole? x with
  | some n =>
    have hfinite : x.isFinite = true := by
      rw [← isSome_dyadic?]
      cases hd : dyadic? x with
      | none =>
        rw [whole?, hd] at hwhole
        cases hwhole
      | some d => rfl
    have hnormal : (float x).normal = .int n := by rw [normal, hwhole]
    obtain ⟨k, hk⟩ := channelOf_int (natAbs_lt_of_whole? hwhole)
    rw [channelOf, hnormal]
    change channelOf (.int n) = _ ↔ _
    rw [hk, hfinite]
    exact iff_of_false (by rintro ⟨⟩) fun h => absurd h.1 (by decide)
  | none =>
    have hadd : (float x).normal.add (.float 0.5) = .ok (.float (x + 0.5)) := by
      rw [normal, hwhole]
      rfl
    cases hfinite : x.isFinite with
    | true =>
      obtain ⟨k, hk⟩ := channelOf_of_add hadd (isFinite_add_half hfinite)
      rw [hk]
      exact iff_of_false (by rintro ⟨⟩) fun h => absurd h.1 (by decide)
    | false =>
      obtain ⟨hnan, hhalf⟩ := isNaN_add_half hfinite
      rw [← isSome_dyadic?, Option.isSome_eq_false_iff, Option.isNone_iff_eq_none] at hhalf
      rw [channelOf_eq hadd, floor?, hhalf, hnan]
      simp only [Option.map_none, Except.error.injEq, true_and]
      exact eq_comm

theorem channelOf_number {t : Token} {d : Defect} (ht : t.IsScanned) :
    channelOf t.number = .error d ↔ d = .overflow ∧ t.IsInfinite := by
  have hint {n : Int} (hn : n.natAbs < limit) (hnumber : t.number = .int n)
      (hcontent : ∀ x, t.content ≠ .number (.float x)) :
      channelOf t.number = .error d ↔ d = .overflow ∧ t.IsInfinite := by
    obtain ⟨k, hk⟩ := channelOf_int hn
    rw [hnumber, hk]
    exact iff_of_false nofun fun ⟨_, x, hx, _⟩ => hcontent x hx
  have hone : (1 : Int).natAbs < limit ∧ (0 : Int).natAbs < limit := by
    have := natAbs_lt_of_whole? (x := 1.0) (n := 1) (by decide)
    exact ⟨this, by omega⟩
  cases hcontent : t.content with
  | number n =>
    obtain ⟨cs, rfl⟩ := ht n hcontent
    have hnumber : t.number = Scan.numberOf cs := by rw [number, hcontent]
    rcases Scan.numberOf_cases cs with ⟨n, hn, hlt⟩ | ⟨x, hx, hnan⟩
    · refine hint hlt (hnumber.trans hn) fun x hx => ?_
      rw [hcontent, hn] at hx
      cases hx
    · rw [hnumber, hx, channelOf_float, isFinite_eq, hnan]
      constructor
      · rintro ⟨hinf, rfl⟩
        exact ⟨rfl, x, by rw [hcontent, hx], by simpa using hinf⟩
      · rintro ⟨rfl, y, hy, hinf⟩
        rw [hcontent, hx] at hy
        cases hy
        exact ⟨by simpa using hinf, rfl⟩
  | none | text => exact hint hone.2 (by rw [number, hcontent]) (by simp [hcontent])
  | flag b =>
    cases b with
    | true => exact hint hone.1 (by rw [number, hcontent]) (by simp [hcontent])
    | false => exact hint hone.2 (by rw [number, hcontent]) (by simp [hcontent])

end Opener

/-! ### Statements out of range -/

namespace Cursor

/-- The statement at the cursor is a flash, and one of the numbers in a row behind it, up to
    the third, is infinite. -/
def FlashOutOfRange (c : Cursor) : Prop :=
  (c.peek 0).isWord = true ∧ (c.peek 0).spelling = "flash" ∧
    ∃ k < 3, (∀ j ≤ k, (c.peek (j + 1)).kind = .number) ∧ (c.peek (k + 1)).IsInfinite

/-- The statement at the cursor defines data, and some value behind it has a constant that is
    out of range. -/
def DataOutOfRange (c : Cursor) : Prop :=
  (c.peek 0).isWord = true ∧ (c.peek 0).spelling = "define" ∧
    holdsConstants (c.peek 1).spelling = true ∧
    ∃ c₁ e c₂, c₁.tokens = c.tokens ∧ c.index < c₁.index ∧
      value.run c₁ = (.ok e, c₂) ∧ e.fold = .error .overflow

/-- The tokens around the cursor are those of a script. -/
def Scanned (c : Cursor) : Prop := ∀ k, (c.peek k).IsScanned

theorem scanned_of_tokens {c : Cursor} {source : String}
    (h : c.tokens = (scan source).toArray) : c.Scanned := by
  intro k
  rw [peek, h, getElem?_toArray, back?_toArray]
  cases hget : (scan source)[c.index + k]? with
  | some t => exact isScanned_of_mem (mem_of_getElem? hget)
  | none =>
    cases hlast : (scan source).getLast? with
    | some t => exact isScanned_of_mem (mem_of_getLast? hlast)
    | none =>
      rintro _ ⟨⟩

theorem Scanned.next {c : Cursor} (h : c.Scanned) : c.next.Scanned := by
  intro k
  unfold Cursor.next
  split
  · exact h k
  · rw [peek, Nat.add_right_comm]
    exact h (k + 1)

end Cursor

namespace Reader
variable {c : Cursor} {d : Defect}

theorem Causes.color_iff {n : Nat} (hc : c.Scanned) : Causes.color n c d ↔ d = .overflow ∧
      ∃ k < n, (∀ j ≤ k, (c.peek j).kind = .number) ∧ (c.peek k).IsInfinite := by
  induction n generalizing c with
  | zero => exact iff_of_false id fun ⟨_, k, hk, _⟩ => absurd hk (Nat.not_lt_zero k)
  | succ n ih =>
    rw [Causes.color, channelOf_number (hc 0)]
    have hnext (hkind : (c.peek 0).kind = .number) (k : Nat) : c.next.peek k = c.peek (k + 1) :=
      c.peek_next (isFinish_eq_false (by rw [hkind]; decide)) k
    constructor
    · rintro ⟨hkind, ⟨rfl, hinf⟩ | ⟨_, -, hcolor⟩⟩
      · refine ⟨rfl, 0, Nat.succ_pos n, fun j hj => ?_, hinf⟩
        rw [Nat.le_zero.mp hj]
        exact hkind
      · obtain ⟨rfl, k, hk, hrow, hinf⟩ := (ih hc.next).mp hcolor
        refine ⟨rfl, k + 1, Nat.succ_lt_succ hk, fun j hj => ?_, hnext hkind k ▸ hinf⟩
        cases j with
        | zero => exact hkind
        | succ j => exact hnext hkind j ▸ hrow j (Nat.le_of_succ_le_succ hj)
    · rintro ⟨rfl, k, hk, hrow, hinf⟩
      have hkind := hrow 0 (Nat.zero_le k)
      refine ⟨hkind, ?_⟩
      cases hchannel : channelOf (c.peek 0).number with
      | error d => exact .inl ⟨rfl, ((channelOf_number (hc 0)).mp hchannel).2⟩
      | ok a =>
        -- The first channel is rounded, so it is not the infinite one.
        cases k with
        | zero =>
          rw [(channelOf_number (hc 0)).mpr ⟨rfl, hinf⟩] at hchannel
          cases hchannel
        | succ k =>
          refine .inr ⟨a, rfl, (ih hc.next).mpr ⟨rfl, k, Nat.lt_of_succ_lt_succ hk, ?_, ?_⟩⟩
          · intro j hj
            rw [hnext hkind]
            exact hrow (j + 1) (Nat.succ_le_succ hj)
          · rw [hnext hkind]
            exact hinf

theorem Causes.outOfRange_of_statement (hc : c.Scanned) (h : Causes.statement c d) :
    d = .overflow ∧ (c.FlashOutOfRange ∨ c.DataOutOfRange) := by
  obtain ⟨hword, ⟨hflash, hcolor⟩ | ⟨hdefine, hkind, c₁, htokens, hle, e, c₂, hvalue, hfold⟩⟩ := h
  · have hnext := c.peek_next (isFinish_of_isWord hword)
    obtain ⟨rfl, k, hk, hrow, hinf⟩ := (Causes.color_iff hc.next).mp hcolor
    exact ⟨rfl, .inl ⟨hword, hflash, k, hk, fun j hj => hnext j ▸ hrow j hj, hnext k ▸ hinf⟩⟩
  · have hnext := c.peek_next (isFinish_of_isWord hword)
    obtain rfl := Overflows.fold.only d hfold
    have hlt : c.index < c.next.index := by
      rw [Cursor.next, isFinish_of_isWord hword]
      exact Nat.lt_succ_self _
    refine ⟨rfl, .inr ⟨hword, hdefine, hnext 0 ▸ hkind, c₁, e, c₂, htokens.trans c.tokens_next, ?_,
      hvalue, hfold⟩⟩
    exact Nat.lt_of_lt_of_le hlt hle

theorem Causes.overflow_of_number (hc : c.Scanned) (h : Causes.number c d) : d = .overflow := by
  rcases h with ⟨e, -, -, hfold⟩ | hchannel
  · exact Overflows.fold.only d hfold
  · exact ((channelOf_number (hc 0)).mp hchannel).1

theorem stops_of_flashOutOfRange {nest : Nest} {e : Nat} (hc : c.Ends e) (hscan : c.Scanned)
    (h : c.FlashOutOfRange) : Stops (statementOf nest) c .overflow := by
  obtain ⟨hword, hflash, k, hk, hrow, hinf⟩ := h
  have hnext := c.peek_next (isFinish_of_isWord hword)
  have hcolor : Causes.color 3 c.next .overflow := by
    refine (Causes.color_iff hscan.next).mpr ⟨rfl, k, hk, fun j hj => ?_, ?_⟩
    · rw [hnext]
      exact hrow j hj
    · rw [hnext]
      exact hinf
  obtain ⟨c', hrun⟩ := (stops_flash (p := (c.peek 0).position) (hc.moved hc.moved_next)).mpr hcolor
  refine ⟨c', ?_⟩
  rw [statementOf, bind_ok (run_advance c), hword, hflash, opener?_flash]
  exact hrun

/-! ### Parts of a program -/

theorem stops_part {nest : Nest} (hwhen : (c.peek 0).reads "when" = false)
    (h : Stops (statementOf nest) c d) : Stops (part nest) c d := by
  obtain ⟨c', hrun⟩ := h
  have hsees : (sees "when").run c = (.ok false, c) := by
    change (Except.ok ((c.peek 0).reads "when"), c) = _
    rw [hwhen]
  obtain ⟨b, hroute⟩ := (inferInstance : Looks (seesRoute 1)).run c
  refine ⟨c', ?_⟩
  rw [part, bind_ok hsees, bind_ok hroute, Bool.false_and, if_neg Bool.false_ne_true]
  exact bind_error hrun

/-- The cursors at which the parts of a program begin, from one of them on. A part is
    read, or it has a fault and one more token is passed over. -/
inductive Boundary (nest : Nest) : Cursor → Cursor → Prop
  | here (c : Cursor) : Boundary nest c c
  | read {c c' c₁ : Cursor} {o : Option (Rule ⊕ Stmt)} (hmark : (c.peek 0).isFinish = false)
    (hrun : (part nest).run c = (.ok o, c')) (h : Boundary nest c' c₁) : Boundary nest c c₁
  | fault {c c' c₁ : Cursor} {f : Fault} (hmark : (c.peek 0).isFinish = false)
    (hrun : (part nest).run c = (.error (.fault f), c')) (h : Boundary nest (c'.recovered f) c₁) :
    Boundary nest c c₁

theorem stops_pure {α β : Type} {x : Reader α} {f : α → β} :
    Stops (x >>= fun a => pure (f a)) c d ↔ Stops x c d := by
  rw [stops_bind]
  refine or_iff_left ?_
  rintro ⟨a, c₁, -, c', hrun⟩
  cases hrun

section Turns
variable {nest : Nest} {n : Nat} {c c' : Cursor} {d : Defect}

theorem not_stops_turns (hmark : (c.peek 0).isFinish = true) :
    ¬Stops (turns (partTurn nest) (n + 1)) c d := by
  rintro ⟨c', hrun⟩
  have hfinish : atFinish.run c = (.ok (c.peek 0).isFinish, c) := rfl
  rw [run_turns_succ, partTurn, bind_ok hfinish, hmark] at hrun
  cases hrun

theorem run_partTurn (hmark : (c.peek 0).isFinish = false) :
    (partTurn nest).run c = (turnOf (part nest)).run c := by
  have hfinish : atFinish.run c = (.ok (c.peek 0).isFinish, c) := rfl
  rw [partTurn, bind_ok hfinish, hmark]
  rfl

theorem stops_turns_read {o : Option (Rule ⊕ Stmt)} (hmark : (c.peek 0).isFinish = false)
    (hrun : (part nest).run c = (.ok o, c')) :
    Stops (turns (partTurn nest) (n + 1)) c d ↔ Stops (turns (partTurn nest) n) c' d := by
  cases o with
  | none =>
    unfold Stops
    rw [run_turns_succ, run_partTurn hmark, run_turnOf, hrun]
  | some a =>
    refine Iff.trans ?_ (stops_pure (f := (a :: ·)))
    unfold Stops
    rw [run_turns_succ, run_partTurn hmark, run_turnOf, hrun]

theorem stops_turns_fault {f : Fault} (hmark : (c.peek 0).isFinish = false)
    (hrun : (part nest).run c = (.error (.fault f), c')) :
    Stops (turns (partTurn nest) (n + 1)) c d ↔
      Stops (turns (partTurn nest) n) (c'.recovered f) d := by
  unfold Stops
  rw [run_turns_succ, run_partTurn hmark, run_turnOf, hrun]

theorem stops_turns_defect (hmark : (c.peek 0).isFinish = false) (h : Stops (part nest) c d) :
    Stops (turns (partTurn nest) (n + 1)) c d := by
  obtain ⟨c', hrun⟩ := h
  refine ⟨c', ?_⟩
  rw [run_turns_succ, run_partTurn hmark, run_turnOf, hrun]

theorem exists_boundary (hd : d ≠ .endless) (h : Stops (turns (partTurn nest) n) c d) :
    ∃ c₁, Boundary nest c c₁ ∧ (c₁.peek 0).isFinish = false ∧ Stops (part nest) c₁ d := by
  induction n generalizing c with
  | zero =>
    obtain ⟨c', hrun⟩ := h
    cases hrun
    exact absurd rfl hd
  | succ n ih =>
    cases hmark : (c.peek 0).isFinish with
    | true => exact absurd h (not_stops_turns hmark)
    | false =>
      rcases hrun : (part nest).run c with ⟨(f | d') | o, c'⟩
      · obtain ⟨c₁, hboundary, hpart⟩ := ih ((stops_turns_fault hmark hrun).mp h)
        exact ⟨c₁, .fault hmark hrun hboundary, hpart⟩
      · obtain ⟨c₂, hstops⟩ := h
        rw [run_turns_succ, run_partTurn hmark, run_turnOf, hrun] at hstops
        cases hstops
        exact ⟨c, .here c, hmark, c', hrun⟩
      · obtain ⟨c₁, hboundary, hpart⟩ := ih ((stops_turns_read hmark hrun).mp h)
        exact ⟨c₁, .read hmark hrun hboundary, hpart⟩

theorem Boundary.stops_turns {c₁ : Cursor} (h : Boundary nest c c₁)
    (hmark : (c₁.peek 0).isFinish = false) (hpart : Stops (part nest) c₁ d) (n : Nat) :
    Stops (turns (partTurn nest) n) c d ∨ Stops (turns (partTurn nest) n) c .endless := by
  induction h generalizing n with
  | here c =>
    cases n with
    | zero => exact .inr ⟨c, rfl⟩
    | succ n => exact .inl (stops_turns_defect hmark hpart)
  | @read c c' c₁ o hmark' hrun _ ih =>
    cases n with
    | zero => exact .inr ⟨c, rfl⟩
    | succ n =>
      rw [stops_turns_read hmark' hrun, stops_turns_read hmark' hrun]
      exact ih hmark hpart n
  | @fault c c' c₁ f hmark' hrun _ ih =>
    cases n with
    | zero => exact .inr ⟨c, rfl⟩
    | succ n =>
      rw [stops_turns_fault hmark' hrun, stops_turns_fault hmark' hrun]
      exact ih hmark hpart n

theorem stops_program : Stops program c d ↔
    Stops (turns (partTurn (nestAt (c.tokens.size + 1))) (c.tokens.size + 1)) c d := by
  have hbudget : budget.run c = (.ok (c.tokens.size + 1), c) := rfl
  have hrun : Stops program c d ↔ Stops (do
      let parts ← turns (partTurn (nestAt (c.tokens.size + 1))) (c.tokens.size + 1)
      return (⟨parts.filterMap Sum.getLeft?, parts.filterMap Sum.getRight?⟩ : Program)) c d := by
    unfold Stops
    rw [program, bind_ok hbudget]
    rfl
  exact hrun.trans stops_pure

end Turns

theorem Boundary.moved {n e : Nat} {c₁ : Cursor} (h : Boundary (nestAt n) c c₁) (hc : c.Ends e)
    (he : e < c.index + n + 1) : c.Moved e c₁ := by
  have hpart : Advances .statement (n + 1) (part (nestAt n)) := advances_part
  induction h with
  | here c => exact .refl hc
  | read hmark hrun _ ih =>
    have hmoved := (hpart.run hc (hc.lt_of_not_finish hmark) he hrun).moved
    have hle := hmoved.le
    exact hmoved.trans (ih (hc.moved hmoved) (by omega))
  | @fault _ _ _ f hmark hrun _ ih =>
    have hmoved := (hpart.run hc (hc.lt_of_not_finish hmark) he hrun).moved
    have hmoved' := hmoved.trans ((hc.moved hmoved).moved_recovered (f := f))
    have hle := hmoved'.le
    exact hmoved'.trans (ih (hc.moved hmoved') (by omega))

end Reader

/-! ### Reading scripts -/

theorem Token.closed_scan_eq (source : String) : closed (scan source) = scan source := by
  obtain ⟨ts, q, heq, -⟩ := scan_eq source
  refine closed_of_getLast? (t := finish q) ?_ rfl
  rw [heq, getLast?_concat]

theorem Cursor.Ends.of_scan {c : Cursor} {source : String}
    (htokens : c.tokens = (scan source).toArray) (hlt : c.index < c.tokens.size) :
    c.Ends (c.tokens.size - 1) := by
  obtain ⟨ts, q, heq, hts⟩ := scan_eq source
  have hsize : c.tokens.size = ts.length + 1 := by
    rw [htokens, heq, size_toArray, length_append, length_singleton]
  rw [hsize, Nat.add_sub_cancel]
  refine ⟨by omega, ⟨finish q, ?_, rfl, fun _ h => by cases h⟩, fun i t _ hi ht => ?_⟩
  · rw [htokens, heq, getElem?_toArray, getElem?_concat_length]
  · rw [htokens, heq, getElem?_toArray, getElem?_append_left hi] at ht
    exact (hts t (mem_of_getElem? ht)).1

namespace Program
variable {source : String} {d : Defect}

abbrev start (source : String) : Cursor := Cursor.ofTokens (scan source)

abbrev nest (source : String) : Nest := nestAt ((start source).tokens.size + 1)

/-- How a script is read. -/
structure ReadUnlessOutOfRange (source : String) : Prop where
  /-- There is a program, with the faults that were passed over, or a number is out of range. -/
  returns : (∃ p, (ofSource source).program = .ok p) ∨
    (ofSource source).program = .error .overflow
  /-- No fault escapes. -/
  recovers : ∀ f c, Reader.program.run (start source) ≠ (.error (.fault f), c)
  /-- No reader fails but with a fault or a number out of range. -/
  readers : ∀ {α : Type} (r : Reader α), Operation r → ∀ c d,
    c.tokens = (start source).tokens → c.index < c.tokens.size → Stops r c d → d = .overflow
  /-- The number belongs to a colour or to a definition of data. -/
  caused : (ofSource source).program = .error .overflow →
    ∃ c : Cursor, c.tokens = (start source).tokens ∧ (c.FlashOutOfRange ∨ c.DataOutOfRange)
  /-- A script is out of range if one of its parts is. -/
  parts : (ofSource source).program = .error .overflow ↔
    ∃ c, Boundary (nest source) (start source) c ∧ (c.peek 0).isFinish = false ∧
      Stops (part (nest source)) c .overflow
  /-- A part with such a colour is out of range. -/
  flash : ∀ c, Boundary (nest source) (start source) c → c.FlashOutOfRange →
    (ofSource source).program = .error .overflow

theorem start_tokens (source : String) : (start source).tokens = (scan source).toArray := by
  rw [start, Cursor.ofTokens, closed_scan_eq]

theorem start_ends (source : String) : (start source).Ends ((start source).tokens.size - 1) := by
  obtain ⟨ts, q, heq, -⟩ := scan_eq source
  refine .of_scan (start_tokens source) ?_
  rw [start_tokens, heq, size_toArray, length_append]
  exact Nat.succ_pos _

theorem program_eq_error_iff :
    (ofSource source).program = .error d ↔ Stops Reader.program (start source) d := by
  rcases hrun : Reader.program.run (start source) with ⟨o | p, c⟩
  · rcases complete_program hrun with ⟨p, hp, -⟩ | ⟨d', hd'⟩
    · cases hp
    · cases hd'
      rw [ofSource, ofTokens, hrun, Stops, hrun]
      constructor
      · rintro ⟨⟩
        exact ⟨c, rfl⟩
      · rintro ⟨c', hc'⟩
        cases hc'
        rfl
  · rw [ofSource, ofTokens, hrun, Stops, hrun]
    refine iff_of_false (by rintro ⟨⟩) ?_
    rintro ⟨c', hc'⟩
    cases hc'

theorem caused_of_stops (h : Stops Reader.program (start source) d) :
    d ≠ .endless ∧ Causes.statement.From (start source) d := by
  obtain ⟨c', hrun⟩ := h
  have hends := start_ends source
  have hbound : (start source).tokens.size - 1 <
      (start source).index + ((start source).tokens.size + 1) := by omega
  have horder := orderly_program.run hends hbound hrun
  exact ⟨fun hd => horder.finite (by rw [hd]), horder.caused d rfl⟩

theorem stops_iff_part (hd : d ≠ .endless) : Stops Reader.program (start source) d ↔
      ∃ c, Boundary (nest source) (start source) c ∧ (c.peek 0).isFinish = false ∧
        Stops (part (nest source)) c d := by
  constructor
  · intro h
    exact exists_boundary hd (stops_program.mp h)
  · rintro ⟨c, hboundary, hmark, hpart⟩
    rcases hboundary.stops_turns hmark hpart ((start source).tokens.size + 1) with h | h
    · exact stops_program.mpr h
    · exact absurd rfl (caused_of_stops (stops_program.mpr h)).1

theorem scanned_of_tokens {c : Cursor} (h : c.tokens = (start source).tokens) : c.Scanned :=
  Cursor.scanned_of_tokens (h.trans (start_tokens source))

/-- Every script is read, with its faults passed over, unless the number of a colour or of a
    definition of data is out of range. -/
theorem readUnlessOutOfRange (source : String) : ReadUnlessOutOfRange source := by
  have hstart := start_ends source
  have hcause {d : Defect} (h : Stops Reader.program (start source) d) :
      d = .overflow ∧ ∃ c : Cursor, c.tokens = (start source).tokens ∧
        (c.FlashOutOfRange ∨ c.DataOutOfRange) := by
    obtain ⟨c, htokens, -, hstatement⟩ := (caused_of_stops h).2
    obtain ⟨hd, hrange⟩ := Causes.outOfRange_of_statement (scanned_of_tokens htokens) hstatement
    exact ⟨hd, c, htokens, hrange⟩
  have hparts : (ofSource source).program = .error .overflow ↔ _ :=
    program_eq_error_iff.trans (stops_iff_part (by decide))
  refine ⟨?_, fun f c hrun => ?_, fun r hr c d htokens hlt hstops => ?_,
    fun h => (hcause (program_eq_error_iff.mp h)).2, hparts, fun c hboundary hflash => ?_⟩
  · cases hprogram : (ofSource source).program with
    | ok p => exact .inl ⟨p, rfl⟩
    | error d =>
      obtain ⟨rfl, -⟩ := hcause (program_eq_error_iff.mp hprogram)
      exact .inr rfl
  · rcases complete_program hrun with ⟨p, hp, -⟩ | ⟨d, hd⟩
    · cases hp
    · cases hd
  · obtain ⟨c', hrun⟩ := hstops
    have hends := Cursor.Ends.of_scan (htokens.trans (start_tokens source)) hlt
    have horder := (hr.orderly (m := c.tokens.size)).run hends (by omega) hrun
    obtain ⟨c₁, htokens', -, hnumber⟩ := horder.caused d rfl
    exact Causes.overflow_of_number (scanned_of_tokens (htokens'.trans htokens)) hnumber
  · have hmoved := hboundary.moved hstart (by omega)
    have hmark := isFinish_of_isWord hflash.1
    refine hparts.mpr ⟨c, hboundary, hmark, stops_part ?_ ?_⟩
    · exact Bool.eq_false_iff.mpr fun hwhen => absurd (hflash.2.1.symm.trans
        (spelling_of_reads hwhen)) (by decide)
    · exact stops_of_flashOutOfRange (hstart.moved hmoved) (scanned_of_tokens hmoved.tokens) hflash

end Program
end Parlance
