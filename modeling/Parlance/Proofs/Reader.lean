import Parlance.Grammar.Reader

/-!
# Running Readers

What the readers of a single token do to a cursor, as equations on the result
of a run. A reader is a computation on a cursor, so a run gives an outcome and
the cursor it ended at; every later argument about readers goes through these
equations and never through the monad.

## Main definitions

* `Cursor.next`: The cursor after its token has been taken.

## Theorems

* `Reader.run_bind`: How a sequence of readers runs.
* `Reader.bind_ok`: A sequence whose first reader gives a value goes on with it.
* `Reader.bind_error`: A sequence whose first reader meets an obstacle ends with it.
* `Reader.run_advance`: Advancing gives the next token and moves behind it.
-/

namespace Parlance
variable (c : Cursor)

/-- The cursor after its token has been taken. The end mark stays. -/
def Cursor.next (c : Cursor) : Cursor :=
  if (c.peek 0).isFinish then c else { c with index := c.index + 1 }

theorem Cursor.faults_next : c.next.faults = c.faults := by
  unfold next
  split <;> rfl

theorem Cursor.tokens_next : c.next.tokens = c.tokens := by
  unfold next
  split <;> rfl

theorem Cursor.le_next : c.index ≤ c.next.index := by
  unfold next
  split
  · exact Nat.le_refl _
  · exact Nat.le_succ _

theorem Cursor.peek_next {c : Cursor} (h : (c.peek 0).isFinish = false) (k : Nat) :
    c.next.peek k = c.peek (k + 1) := by
  unfold next
  rw [h, if_neg Bool.false_ne_true]
  simp only [peek, Nat.add_assoc, Nat.add_comm 1]

namespace Reader
variable {α β : Type} {c' : Cursor} {f : α → Reader β} (r : Reader α)

/-- How a sequence of readers runs. -/
theorem run_bind (f : α → Reader β) (c : Cursor) :
    (r >>= f).run c = match r.run c with
      | (.ok a, c') => (f a).run c' | (.error e, c') => (.error e, c') := by
  change (match r.run c with
    | (a, s) => (ExceptT.bindCont f a) s) = _
  rcases r.run c with ⟨_ | _, _⟩ <;> rfl

/-- A sequence whose first reader gives a value goes on with it. -/
theorem bind_ok {r : Reader α} {c : Cursor} {a : α}
    (h : r.run c = (.ok a, c')) : (r >>= f).run c = (f a).run c' := by
  rw [run_bind, h]

/-- A sequence whose first reader meets an obstacle ends with it. -/
theorem bind_error {r : Reader α} {c : Cursor} {e : Obstacle}
    (h : r.run c = (.error e, c')) : (r >>= f).run c = (.error e, c') := by
  rw [run_bind, h]

theorem run_budget : budget.run c = (.ok (c.tokens.size + 1), c) := rfl

theorem run_current : current.run c = (.ok (c.peek 0), c) := rfl

/-- Advancing gives the next token and moves behind it. -/
theorem run_advance : advance.run c = (.ok (c.peek 0), c.next) := by
  unfold advance Cursor.next
  rw [bind_ok (run_current c)]
  by_cases h : (c.peek 0).isFinish
  · rw [if_pos h, h]
    rfl
  · rw [if_neg h, Bool.eq_false_iff.mpr h]
    rfl

theorem run_accept (ws : List String) (c : Cursor) :
    (accept ws).run c =
      if (c.peek 0).readsAny ws then (.ok true, c.next) else (.ok false, c) := by
  have hsees : (seesAny ws).run c = (.ok ((c.peek 0).readsAny ws), c) := rfl
  unfold accept
  rw [bind_ok hsees]
  by_cases h : (c.peek 0).readsAny ws
  · rw [if_pos h, if_pos h, bind_ok (run_advance c)]
    rfl
  · rw [if_neg h, if_neg h]
    rfl

theorem run_expect (w : String) (c : Cursor) :
    (expect w).run c =
      if (c.peek 0).reads w then (.ok (), c.next)
      else (.error (.fault ⟨.word w, c.peek 0⟩), c) := by
  have hsees : (sees w).run c = (.ok ((c.peek 0).reads w), c) := rfl
  unfold expect
  rw [bind_ok hsees]
  by_cases h : (c.peek 0).reads w
  · rw [if_pos h, if_pos h, bind_ok (run_advance c)]
    rfl
  · rw [if_neg h, if_neg h]
    rfl

theorem run_map (f : α → β) (r : Reader α) (c : Cursor) :
    (f <$> r).run c = match r.run c with
      | (.ok a, c') => (.ok (f a), c')
      | (.error e, c') => (.error e, c') := by
  rw [map_eq_pure_bind, run_bind]
  rcases r.run c with ⟨_ | _, _⟩ <;> rfl

theorem run_tryCatch (h : Obstacle → Reader α) (c : Cursor) :
    (tryCatch r h).run c = match r.run c with
      | (.ok a, c') => (.ok a, c') | (.error e, c') => (h e).run c' := by
  have hbind : ∀ (x : StateM Cursor (Except Obstacle α)) f,
      (x >>= f : StateM Cursor (Except Obstacle α)) c = f (x c).1 (x c).2 := fun _ _ => rfl
  rw [ExceptT.run_tryCatch, hbind]
  rcases r.run c with ⟨_ | _, _⟩ <;> rfl

theorem run_tryRead (c : Cursor) :
    (tryRead r).run c = match r.run c with
      | (.ok a, c') => (.ok (some a), c')
      | (.error (.fault _), c') => (.ok none, { c' with index := c.index })
      | (.error (.defect d), c') => (.error (.defect d), c') := by
  have hmark : mark.run c = (.ok c.index, c) := rfl
  unfold tryRead
  rw [bind_ok hmark, run_tryCatch, run_map]
  rcases r.run c with ⟨(f | d) | a, c'⟩ <;> rfl

theorem run_rewindIf (back : α → Bool) (r : Reader α) (c : Cursor) :
    (rewindIf back r).run c = match r.run c with
      | (.ok a, c') => (.ok a, if back a then { c' with index := c.index } else c')
      | (.error o, c') => (.error o, c') := by
  unfold rewindIf
  rw [bind_ok (show mark.run c = (.ok c.index, c) from rfl), run_bind]
  rcases r.run c with ⟨o | a, c'⟩
  · rfl
  · cases hback : back a <;> simp only [hback] <;> rfl

theorem run_recovering (r : Reader (Option α)) (c : Cursor) :
    (recovering r).run c = match r.run c with
      | (.ok a, c') => (.ok a, c')
      | (.error (.fault f), c') =>
        (.ok none, Cursor.next { c' with faults := c'.faults ++ [f] })
      | (.error (.defect d), c') => (.error (.defect d), c') := by
  unfold recovering
  rw [run_tryCatch]
  rcases r.run c with ⟨(f | d) | a, c'⟩
  · change (advance >>= fun _ => pure none).run { c' with faults := c'.faults ++ [f] } = _
    rw [bind_ok (run_advance _)]
    rfl
  · rfl
  · rfl

theorem run_turns_succ (turn : Reader (Turn α)) (n : Nat) (c : Cursor) :
    (turns turn (n + 1)).run c = match turn.run c with
      | (.ok .stop, c') => (.ok [], c')
      | (.ok .next, c') => (turns turn n).run c'
      | (.ok (.item a), c') => (turns turn n >>= fun as => pure (a :: as)).run c'
      | (.ok (.last a), c') => (.ok [a], c')
      | (.error e, c') => (.error e, c') := by
  rw [turns, run_bind]
  rcases turn.run c with ⟨e | t, c'⟩
  · rfl
  · cases t <;> rfl

end Reader
end Parlance
