import Mathlib.Order.Bounds.Basic
import Parlance.Grammar.Name
import Parlance.Proofs.Reader

/-!
# The Extent of a Name

What a name takes in depends on the stop words of its reader, the words that open statements,
and the lines of the tokens. The reader asks for them in two places: behind an article it looks
one token ahead, behind a word it looks at the cursor. The two questions are shown to be one
(`Token.goesOn`).

From where the reader begins, articles are left out as long as the name goes on behind them. The
next word is the first of the name, and it may be any word that is no stop word, even one that
opens a statement. The name ends at the first token with which it does not go on.

## Main definitions

* `Token.goesOn`: Whether a name goes on with the token at an index, behind the one before it:
  with a word that is no stop word, opens no statement, and is none of the openers on a later
  line.
* `Token.NameSpan`: The extent of a name that is read from an index `p` on: what stands from `p`
  to `q` is left out, and the words of the name stand from `q` to `r`.
* `Token.Closed`: The end mark is no word, so a word has a token behind it.

## Theorems

* `Reader.run_nameWords_behind`: Words behind a word are taken up to the first token with which
  the name does not go on.
* `Reader.run_nameWords_first`: Articles are left out and words are taken.
* `Reader.name_spans`: The reader of names fails on a token that is no word or is a stop word, and
  does not move.
-/

namespace Parlance
open List Nat Bool

namespace Token

def isNameWord (stops : List String) (t : Token) : Bool := t.isWord && !t.content.isOneOf stops

def isArticle (t : Token) : Bool := t.content.isOneOf Grammar.articles

/-- Whether a name goes on with the token at an index, behind the one before it: with a word
    that is no stop word, opens no statement, and is none of the openers on a later line. -/
def goesOn (stops : List String) (ts : List Token) (i : Nat) : Bool :=
  let t := ts.getD i default
  t.isNameWord stops && !t.opensStatement
    && !(t.isOpener && (ts.getD (i - 1) default).position.line < t.position.line)

/-- The extent of a name that is read from an index `p` on: what stands from `p` to `q` is
    left out, and the words of the name stand from `q` to `r`. -/
structure NameSpan (stops : List String) (ts : List Token) (p q r : Nat) : Prop where
  le : p ≤ q
  /-- What is left out are articles, and the name goes on behind each of them. -/
  articles : ∀ i, p ≤ i → i < q →
    (ts.getD i default).isArticle = true ∧ goesOn stops ts (i + 1) = true
  /-- The first word is no article that is to be left out. -/
  first : ¬ ((ts.getD q default).isArticle = true ∧ goesOn stops ts (q + 1) = true)
  /-- The name ends at the first token behind its first word with which it does not go on. -/
  least : IsLeast {i | q < i ∧ goesOn stops ts i = false} r

/-- The end mark is no word, so a word has a token behind it. -/
def Closed (ts : List Token) : Prop := ∃ before t, ts = before ++ [t] ∧ t.isWord = false

theorem closed_closed (ts : List Token) : Closed (closed ts) := by
  have hmark : ∀ t : Token, t.isFinish = true → t.isWord = false := by
    intro t h
    rw [isFinish, beq_iff_eq] at h
    rw [isWord, h]
    rfl
  unfold closed
  rcases hlast : ts.getLast? with _ | t
  · exact ⟨[], _, rfl, hmark _ rfl⟩
  · obtain ⟨before, rfl⟩ := getLast?_eq_some_iff.mp hlast
    by_cases h : t.isFinish = true
    · exact ⟨before, t, by simp [h], hmark t h⟩
    · exact ⟨before ++ [t], finish t.position, by simp [h], hmark _ rfl⟩

variable {stops : List String} {ts : List Token} {i p q r : Nat}

theorem Closed.lt_of_isWord (hts : Closed ts) (h : (ts.getD i default).isWord = true) :
    i + 1 < ts.length := by
  obtain ⟨before, t, rfl, ht⟩ := hts
  rw [length_append, length_singleton]
  by_contra hlt
  -- A token that is not before the mark is the mark, or there is none.
  rcases lt_or_ge before.length i with hi | hi
  · rw [getD_eq_getElem?_getD, getElem?_eq_none (by simp; omega)] at h
    exact absurd h (by decide)
  · obtain rfl : i = before.length := by omega
    simp [ht] at h

theorem isWord_of_isNameWord {t : Token} (h : t.isNameWord stops = true) : t.isWord = true := by
  rw [isNameWord, Bool.and_eq_true] at h
  exact h.1

theorem isNameWord_of_goesOn (h : goesOn stops ts i = true) :
    (ts.getD i default).isNameWord stops = true := by
  simp only [goesOn, Bool.and_eq_true] at h
  exact h.1.1

theorem NameSpan.isNameWord (h : NameSpan stops ts p q r)
    (hp : (ts.getD p default).isNameWord stops = true) (hi : p ≤ i) (hr : i < r) :
    (ts.getD i default).isNameWord stops = true := by
  rcases eq_or_lt_of_le hi with rfl | hlt
  · exact hp
  -- Every token behind the first one is one with which the name goes on.
  · refine isNameWord_of_goesOn ?_
    rcases lt_or_ge q i with hq | hq
    · by_contra hnot
      exact absurd (h.least.2 ⟨hq, eq_false_iff.mpr hnot⟩) (by omega)
    · have := (h.articles (i - 1) (by omega) (by omega)).2
      rwa [Nat.sub_add_cancel (by omega)] at this

theorem NameSpan.unique {q' r' : Nat} (h : NameSpan stops ts p q r)
    (h' : NameSpan stops ts p q' r') : q' = q ∧ r' = r := by
  have hq : q' = q := by
    rcases lt_trichotomy q q' with hlt | heq | hlt
    · exact absurd (h'.articles q h.le hlt) h.first
    · exact heq.symm
    · exact absurd (h.articles q' h'.le hlt) h'.first
  subst hq
  exact ⟨rfl, h'.least.unique h.least⟩

end Token

namespace Cursor
variable {ts : List Token} {faults : List Fault} {i k : Nat}

theorem peek_eq (h : i + k < ts.length) :
    (Cursor.mk ts.toArray i faults).peek k = ts.getD (i + k) default := by
  simp [peek, getD, getElem?_eq_getElem h]

theorem next_eq (hi : i < ts.length) (h : (ts.getD i default).isWord = true) :
    (Cursor.mk ts.toArray i faults).next = ⟨ts.toArray, i + 1, faults⟩ := by
  have hfinish : ((Cursor.mk ts.toArray i faults).peek 0).isFinish = false := by
    rw [peek_eq hi, Token.isFinish]
    refine beq_false_of_ne fun hkind => ?_
    rw [Token.isWord, Nat.add_zero] at *
    rw [hkind] at h
    exact absurd h (by decide)
  rw [next, hfinish]
  rfl

end Cursor

namespace Reader
open Token
variable {stops : List String} {ts : List Token} {faults : List Fault} {i n : Nat}

/-! ### One token -/

theorem nameFollows_eq (hi : i + 1 < ts.length) :
    (Cursor.mk ts.toArray i faults).nameFollows stops = goesOn stops ts (i + 1) := by
  simp only [Cursor.nameFollows, Cursor.lineStatementFollows, goesOn, isNameWord,
    Cursor.peek_eq hi, Cursor.peek_eq (k := 0) (Nat.lt_of_succ_lt hi), Nat.add_zero,
    Nat.add_sub_cancel]
  generalize ts.getD (i + 1) default = t
  generalize decide ((ts.getD i default).position.line < t.position.line) = later
  cases t.isWord <;> cases t.content.isOneOf stops <;> cases t.opensStatement <;>
    cases t.isOpener <;> cases later <;> rfl

theorem nameTurn_first (hi : i + 1 < ts.length)
    (hword : (ts.getD i default).isNameWord stops = true) :
    nameTurn stops true ⟨ts.toArray, i, faults⟩ =
      if (ts.getD i default).isArticle && goesOn stops ts (i + 1) then .article else .word := by
  simp only [isNameWord, Bool.and_eq_true, Bool.not_eq_true'] at hword
  simp only [nameTurn, nameFollows_eq hi, Cursor.peek_eq (k := 0) (Nat.lt_of_succ_lt hi),
    Nat.add_zero, hword.1, hword.2, isArticle]
  rfl

theorem nameTurn_behind (hi : i + 1 < ts.length) :
    nameTurn stops false ⟨ts.toArray, i + 1, faults⟩ =
      if goesOn stops ts (i + 1) then .word else .stop := by
  have hprevious : (Cursor.mk ts.toArray (i + 1) faults).previous? = some (ts.getD i default) := by
    simp [Cursor.previous?, getD, getElem?_eq_getElem (Nat.lt_of_succ_lt hi)]
  simp only [nameTurn, Cursor.atStatement, Cursor.atLineStatement, hprevious, goesOn, isNameWord,
    Cursor.peek_eq (k := 0) hi, Nat.add_zero, Nat.add_sub_cancel]
  generalize ts.getD (i + 1) default = t
  generalize decide ((ts.getD i default).position.line < t.position.line) = later
  cases t.isWord <;> cases t.content.isOneOf stops <;> cases t.opensStatement <;>
    cases t.isOpener <;> cases later <;> rfl

/-! ### Runs of words -/

theorem run_spelling_bind {α : Type} (f : String → Reader α) (hi : i < ts.length)
    (h : (ts.getD i default).isWord = true) : (spelling >>= f).run ⟨ts.toArray, i, faults⟩ =
      (f (ts.getD i default).spelling).run ⟨ts.toArray, i + 1, faults⟩ := by
  have hadvance := run_advance ⟨ts.toArray, i, faults⟩
  rw [Cursor.next_eq hi h, Cursor.peek_eq hi, Nat.add_zero] at hadvance
  refine bind_ok ?_
  rw [spelling, bind_ok hadvance]
  rfl

theorem extract_eq_cons {α : Type} (a : α) {l : List α} {q r : Nat} (hq : q < r)
    (hr : r ≤ l.length) : l.extract q r = l.getD q a :: l.extract (q + 1) r := by
  have hlt : q < l.length := by omega
  rw [extract_eq_take_drop, extract_eq_take_drop, drop_eq_getElem_cons hlt,
    show r - q = r - (q + 1) + 1 by omega, take_succ_cons]
  simp [hlt]

/-- Words behind a word are taken up to the first token with which the name does not go on.
    By induction on the bound of the loop, which exceeds the number of tokens ahead. -/
theorem run_nameWords_behind (hts : Closed ts) (hi : i + 1 < ts.length)
    (hn : ts.length ≤ i + n) :
    ∃ r, IsLeast {j | i < j ∧ goesOn stops ts j = false} r ∧ r < ts.length ∧
      (nameWords (nameTurn stops) false n).run ⟨ts.toArray, i + 1, faults⟩ =
        (.ok ((ts.extract (i + 1) r).map Token.spelling), ⟨ts.toArray, r, faults⟩) := by
  induction n generalizing i with
  | zero => omega
  | succ n ih =>
    have hget : (get : Reader Cursor).run ⟨ts.toArray, i + 1, faults⟩ =
      (.ok ⟨ts.toArray, i + 1, faults⟩, ⟨ts.toArray, i + 1, faults⟩) := rfl
    rw [nameWords, bind_ok hget, nameTurn_behind hi]
    by_cases hgo : goesOn stops ts (i + 1) = true
    · rw [if_pos hgo]
      have hword := isWord_of_isNameWord (isNameWord_of_goesOn hgo)
      have hlt := hts.lt_of_isWord hword
      obtain ⟨r, hleast, hr, hrun⟩ := ih hlt (by omega)
      -- The name goes on with this token, so the first one where it does not lies behind.
      refine ⟨r, ⟨⟨Nat.lt_of_succ_lt hleast.1.1, hleast.1.2⟩, ?_⟩, hr, ?_⟩
      · rintro j ⟨hj, hstop⟩
        refine hleast.2 ⟨lt_of_le_of_ne hj ?_, hstop⟩
        rintro rfl
        rw [hgo] at hstop
        cases hstop
      · rw [run_spelling_bind _ hi hword, bind_ok hrun, extract_eq_cons default hleast.1.1 hr.le,
          map_cons]
        rfl
    · rw [if_neg hgo]
      refine ⟨i + 1, ⟨⟨lt_succ_self i, eq_false_iff.mpr hgo⟩, ?_⟩, hi, ?_⟩
      · rintro j ⟨hj, -⟩
        exact hj
      · rw [extract_eq_take_drop, Nat.sub_self, take_zero]
        rfl

/-- Articles are left out and words are taken. By induction on the bound: an article that is
    left out leaves a name that begins one token later. -/
theorem run_nameWords_first (hts : Closed ts) (hword : (ts.getD i default).isNameWord stops = true)
    (hn : ts.length < i + n) : ∃ q r, NameSpan stops ts i q r ∧ r < ts.length ∧
      (nameWords (nameTurn stops) true n).run ⟨ts.toArray, i, faults⟩ =
        (.ok ((ts.extract q r).map Token.spelling), ⟨ts.toArray, r, faults⟩) := by
  have hisWord := isWord_of_isNameWord hword
  have hi := hts.lt_of_isWord hisWord
  induction n generalizing i with
  | zero => omega
  | succ n ih =>
    have hget : (get : Reader Cursor).run ⟨ts.toArray, i, faults⟩ =
      (.ok ⟨ts.toArray, i, faults⟩, ⟨ts.toArray, i, faults⟩) := rfl
    rw [nameWords, bind_ok hget, nameTurn_first hi hword]
    by_cases hskip : ((ts.getD i default).isArticle && goesOn stops ts (i + 1)) = true
    · rw [if_pos hskip]
      rw [Bool.and_eq_true] at hskip
      have hnext := isNameWord_of_goesOn hskip.2
      have hlater := isWord_of_isNameWord hnext
      obtain ⟨q, r, hspan, hr, hrun⟩ := ih hnext (by omega) hlater (hts.lt_of_isWord hlater)
      refine ⟨q, r, ⟨le_of_succ_le hspan.le, ?_, hspan.first, hspan.least⟩, hr, ?_⟩
      · intro j hj hq
        rcases eq_or_lt_of_le hj with rfl | hlt
        · exact hskip
        · exact hspan.articles j hlt hq
      · rw [bind_ok (run_advance _), Cursor.next_eq (Nat.lt_of_succ_lt hi) hisWord]
        exact hrun
    · rw [if_neg hskip]
      rw [Bool.and_eq_true] at hskip
      obtain ⟨r, hleast, hr, hrun⟩ := @run_nameWords_behind stops ts faults i n hts hi (by omega)
      refine ⟨i, r, ⟨le_refl i, fun j hj hq => absurd hq (by omega), hskip, hleast⟩, hr, ?_⟩
      rw [run_spelling_bind _ (Nat.lt_of_succ_lt hi) hisWord, bind_ok hrun,
        extract_eq_cons default hleast.1.1 hr.le, map_cons]
      rfl

/-! ### Names -/

theorem run_name_error (hi : i < ts.length) (hword : (ts.getD i default).isNameWord stops = false) :
    (name stops).run ⟨ts.toArray, i, faults⟩ =
      (.error (.fault ⟨.variableName, ts.getD i default⟩), ⟨ts.toArray, i, faults⟩) := by
  have hturn : nameTurn stops true ⟨ts.toArray, i, faults⟩ = .stop := by
    rw [nameTurn, Cursor.peek_eq hi, Nat.add_zero]
    refine if_pos ?_
    rw [isNameWord, Bool.and_eq_false_iff] at hword
    rcases hword with h | h
    · rw [h]
      rfl
    · rw [(Bool.not_eq_false' _).mp h, Bool.or_true]
  have hnone : (nameWords (nameTurn stops) true (ts.length + 1)).run ⟨ts.toArray, i, faults⟩ =
      (.ok [], ⟨ts.toArray, i, faults⟩) := by
    have hget : (get : Reader Cursor).run ⟨ts.toArray, i, faults⟩ =
      (.ok ⟨ts.toArray, i, faults⟩, ⟨ts.toArray, i, faults⟩) := rfl
    rw [nameWords, bind_ok hget, hturn]
    rfl
  rw [name, bind_ok (run_budget _), size_toArray, bind_ok hnone, fail]
  change (Except.error (Obstacle.fault ⟨_, Cursor.peek _ 0⟩), _) = _
  rw [Cursor.peek_eq hi, Nat.add_zero]

theorem run_name_ok (hts : Closed ts) (hword : (ts.getD i default).isNameWord stops = true) :
    ∃ q r, NameSpan stops ts i q r ∧ r < ts.length ∧
      (name stops).run ⟨ts.toArray, i, faults⟩ =
        (.ok ("_".intercalate ((ts.extract q r).map Token.spelling)), ⟨ts.toArray, r, faults⟩) := by
  obtain ⟨q, r, hspan, hr, hrun⟩ :=
    @run_nameWords_first stops ts faults i (ts.length + 1) hts hword (by omega)
  refine ⟨q, r, hspan, hr, ?_⟩
  -- There is a first word, so the name is not empty.
  rw [name, bind_ok (run_budget _), size_toArray, bind_ok hrun,
    extract_eq_cons default hspan.least.1.1 hr.le]
  rfl

/-- The reader of names fails on a token that is no word or is a stop word, and does not
    move. From any other token on it takes in articles and words by the description, of which
    there is one, and none of them is a stop word. -/
theorem name_spans (tokens : List Token) (p : Fin (closed tokens).length) (faults : List Fault)
    (stops : List String) :
    let ts := closed tokens
    let c : Cursor := ⟨ts.toArray, p, faults⟩
    ((∃ f c', (name stops).run c = (.error (.fault f), c')) ↔ ts[p].isNameWord stops = false) ∧
    (ts[p].isNameWord stops = false →
      (name stops).run c = (.error (.fault ⟨.variableName, ts[p]⟩), c)) ∧
    (ts[p].isNameWord stops = true → ∃ q r, NameSpan stops ts p q r ∧ r < ts.length ∧
      (name stops).run c = (.ok ("_".intercalate ((ts.extract q r).map Token.spelling)),
        ⟨ts.toArray, r, faults⟩) ∧
      (∀ i, p ≤ i → i < r → (ts.getD i default).isNameWord stops = true) ∧
      ∀ q' r', NameSpan stops ts p q' r' → q' = q ∧ r' = r) := by
  intro ts c
  have hts : Closed ts := closed_closed tokens
  have htoken : ts[p] = ts.getD p default := by simp [ts]
  rw [htoken]
  refine ⟨⟨?_, ?_⟩, run_name_error p.isLt, ?_⟩
  · rintro ⟨f, c', hrun⟩
    by_contra hword
    obtain ⟨q, r, -, -, hname⟩ :=
      @run_name_ok stops ts faults p hts (eq_true_of_not_eq_false hword)
    rw [hname] at hrun
    cases hrun
  · intro hword
    exact ⟨_, _, run_name_error p.isLt hword⟩
  · intro hword
    obtain ⟨q, r, hspan, hr, hrun⟩ := @run_name_ok stops ts faults p hts hword
    exact ⟨q, r, hspan, hr, hrun, fun i => hspan.isNameWord hword, fun q' r' => hspan.unique⟩

end Reader
end Parlance
