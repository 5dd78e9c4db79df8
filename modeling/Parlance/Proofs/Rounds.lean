import Parlance.Proofs.Unwinding

/-!
# Loops, Round by Round

A body can do anything to the session: change the list that the loop goes over, rebind the
variable of the loop, or make the condition hold for ever. What a loop does is said for all
bodies at once, by its rounds. Each begins where the one before it has left the session, and
then the loop goes on, or it ends with what the round came to.

A loop with a condition has a cap. The loop without one is given by two rules
(`Loop.Unbounded`). Beyond the cap a loop is cut off with a warning, and this is the only way in
which the cap is seen.

## Main definitions

* `Loop.closing`: What the ending of its body means for a loop: its own ending, or nothing where
  the loop goes on.
* `Loop.Iteration`: A round of a loop over values: the value, the session in which the body
  begins, and the ending of the body.
* `Loop.Iterated`: A loop over values has made rounds, from a session on, and this came out.
* `Loop.forAll`: The loop over values as a statement runs it: without an ending of its own it ends
  normally.
* `Loop.Turn`: A turn of a loop with a condition: the session in which the condition is tested,
  the outcome of the test, and the ending of the body if it ran.

## Theorems

* `Loop.iterated_forAll`: The rounds of a loop over values.
* `Loop.capped_whileLoop`: The turns of a loop that may run its body so many times.
* `Run.forEach_iterates`: A loop over a variable goes over the values that the variable had when
  the loop began, whatever its body does to them.
* `Run.while_capped`: A loop with a condition tests it at most once more often than it may run its
  body, and runs its body no more often than that.
-/

namespace Parlance
open Run List Guard

namespace Loop

/-- What the ending of its body means for a loop: its own ending, or nothing where the loop
    goes on. A break ends the loop normally, and a skip ends no more than the round. -/
def closing : Except Signal Flow → Option (Except Signal Flow)
  | .ok .normal | .ok .skip => none
  | .ok .leave => some (.ok .normal)
  | .ok (.give v) => some (.ok (.give v))
  | .error signal => some (.error signal)

theorem run_round (act : Run Flow) (s : Session) : (Run.round act).run s =
      ((closing (act.run s).1).elim (.ok none) (·.map some), (act.run s).2) := by
  rw [Run.round, run_bind]
  rcases act.run s with ⟨signal | (_ | _ | _ | v), s₁⟩ <;> rfl

/-! ### Loops over values -/

def binding (item : String) (v : Value) (s : Session) : Session :=
  { s with bag := s.bag.insert item v }

/-- A round of a loop over values: the value, the session in which the body begins, and the
    ending of the body. -/
structure Iteration where
  value : Value
  before : Session
  ending : Ending

def Iteration.leftBy (start : Session) (its : List Iteration) : Session :=
  its.foldl (fun _ it => it.ending.2) start

/-- A loop over values has made rounds, from a session on, and this came out. -/
structure Iterated (item : String) (act : Run Flow) (vs : List Value) (start : Session)
    (e : Ending) (its : List Iteration) : Prop where
  /-- Every round is a run of the body. -/
  genuine : ∀ it ∈ its, it.ending = act.run it.before
  /-- A round begins where the rounds before it have left the session, with the variable set. -/
  chained : ∀ earlier it later, its = earlier ++ it :: later →
    it.before = binding item it.value (Iteration.leftBy start earlier)
  /-- The variable holds the value of the round when the body begins. -/
  bound : ∀ it ∈ its, it.before.bag.get? item = some it.value
  /-- There is one round for each value, in order, and the loop ends normally; or the body
      ends the loop in one round, and the values behind have no round. -/
  outcome : (its.map Iteration.value = vs ∧ (∀ it ∈ its, closing it.ending.1 = none) ∧
      e = (.ok .normal, Iteration.leftBy start its)) ∨
    ∃ earlier it unvisited r, its = earlier ++ [it] ∧
      vs = its.map Iteration.value ++ unvisited ∧ (∀ u ∈ earlier, closing u.ending.1 = none) ∧
      closing it.ending.1 = some r ∧ e = (r, it.ending.2)

/-- The loop over values as a statement runs it: without an ending of its own it ends
    normally. -/
def forAll (item : String) (act : Run Flow) (vs : List Value) : Run Flow :=
  return (← forItems item act vs).getD .normal

variable {item : String} {act : Run Flow} {vs : List Value} {s : Session}

theorem run_forAll_cons (v : Value) :
    (forAll item act (v :: vs)).run s =
      match closing (act.run (binding item v s)).1 with
      | some r => (r, (act.run (binding item v s)).2)
      | none => (forAll item act vs).run (act.run (binding item v s)).2 := by
  have hset : (setVar item v).run s = (.ok (), binding item v s) := rfl
  rw [forAll, run_bind, forItems, bind_ok hset, run_bind, run_round]
  cases closing (act.run (binding item v s)).1 with
  | none => rw [forAll, run_bind]; rfl
  | some r => cases r <;> rfl

theorem split_cons {α : Type} {a : α} {as earlier later : List α} {b : α}
    (h : a :: as = earlier ++ b :: later) :
    (earlier = [] ∧ b = a) ∨ ∃ earlier', earlier = a :: earlier' ∧ as = earlier' ++ b :: later := by
  cases earlier with
  | nil => exact .inl ⟨rfl, (cons.inj h).1.symm⟩
  | cons c earlier' =>
    obtain ⟨rfl, hrest⟩ := cons.inj h
    exact .inr ⟨earlier', rfl, hrest⟩

theorem split_singleton {α : Type} {a b : α} {earlier later : List α}
    (h : [a] = earlier ++ b :: later) : earlier = [] ∧ b = a := by
  rcases split_cons h with h | ⟨earlier', -, hrest⟩
  · exact h
  · exact absurd hrest (by simp)

/-- The rounds of a loop over values. By induction on the values: the rounds for the values
    behind the first one begin where its round has left the session. -/
theorem iterated_forAll (item : String) (act : Run Flow) (vs : List Value) (s : Session) :
    ∃ its, Iterated item act vs s ((forAll item act vs).run s) its := by
  induction vs generalizing s with
  | nil =>
    refine ⟨[], ?_, ?_, ?_, .inl ⟨rfl, ?_, rfl⟩⟩
    · intro it hit
      cases hit
    · intro earlier it later h
      exact absurd h (by simp)
    · intro it hit
      cases hit
    · intro it hit
      cases hit
  | cons v rest ih =>
    have hget : (binding item v s).bag.get? item = some v := Dict.get?_insert_self ..
    rw [run_forAll_cons]
    cases hclosing : closing (act.run (binding item v s)).1 with
    | some r =>
      -- The body ends the loop, so this round is the last.
      refine ⟨[⟨v, binding item v s, act.run (binding item v s)⟩], ?_, ?_, ?_, .inr ?_⟩
      · intro it hit
        rw [mem_singleton.mp hit]
      · intro earlier it later h
        obtain ⟨rfl, rfl⟩ := split_singleton h
        rfl
      · intro it hit
        rw [mem_singleton.mp hit]
        exact hget
      · exact ⟨[], _, rest, r, rfl, rfl, forall_mem_nil _, hclosing, rfl⟩
    | none =>
      obtain ⟨its, h⟩ := ih (act.run (binding item v s)).2
      refine ⟨⟨v, binding item v s, act.run (binding item v s)⟩ :: its, ?_, ?_, ?_, ?_⟩
      · exact forall_mem_cons.mpr ⟨rfl, h.genuine⟩
      · intro earlier it later hsplit
        rcases split_cons hsplit with ⟨rfl, rfl⟩ | ⟨earlier', rfl, hrest⟩
        · rfl
        · exact h.chained earlier' it later hrest
      · exact forall_mem_cons.mpr ⟨hget, h.bound⟩
      · rcases h.outcome with ⟨hvalues, hopen, hend⟩ |
          ⟨earlier, it, unvisited, r, hits, hvalues, hopen, hlast, hend⟩
        · refine .inl ⟨?_, forall_mem_cons.mpr ⟨hclosing, hopen⟩, hend⟩
          rw [map_cons, hvalues]
        · subst hits
          refine .inr ⟨_ :: earlier, it, unvisited, r, rfl, ?_,
            forall_mem_cons.mpr ⟨hclosing, hopen⟩, hlast, hend⟩
          rw [hvalues, map_cons, cons_append]

/-! ### Loops with a condition -/

/-- A turn of a loop with a condition: the session in which the condition is tested, the
    outcome of the test, and the ending of the body if it ran. -/
structure Turn where
  before : Session
  tested : Except Signal Bool × Session
  body : Option Ending

namespace Turn

/-- What the turn means for the loop: its ending, or nothing where the loop goes on. -/
def closing? (t : Turn) : Option (Except Signal Flow) :=
  match t.tested.1 with
  | .error signal => some (.error signal)
  | .ok false => some (.ok .normal)
  | .ok true => t.body.bind fun e => closing e.1

def left (t : Turn) : Session := t.body.elim t.tested.2 Prod.snd

def leftBy (start : Session) (turns : List Turn) : Session := turns.foldl (fun _ t => t.left) start

end Turn

section Condition
variable (cond : Run Bool) (act : Run Flow)

/-- The turn that begins in a session. The body runs if the condition holds, in the session
    that the test has left. -/
def turn (s : Session) : Turn where
  before := s
  tested := cond.run s
  body := match (cond.run s).1 with
    | .ok true => some (act.run (cond.run s).2)
    | _ => none

/-- The loop without a cap, with its turns and its ending. -/
inductive Unbounded : Session → List Turn → Ending → Prop where
  | last {s : Session} {r : Except Signal Flow} :
    (turn cond act s).closing? = some r →
      Unbounded s [turn cond act s] (r, (turn cond act s).left)
  | next {s : Session} {turns : List Turn} {e : Ending} :
    (turn cond act s).closing? = none → Unbounded (turn cond act s).left turns e →
      Unbounded s (turn cond act s :: turns) e

/-- The body lets the loop go on so many times, and then the condition holds again. -/
def Overruns : Nat → Session → Prop
  | 0, s => (cond.run s).1 = .ok true
  | n + 1, s => (turn cond act s).closing? = none ∧ Overruns n (turn cond act s).left

/-- A loop that is cut off after a number of rounds has made turns, from a session on, and
    this came out. -/
structure Capped (n : Nat) (message : String) (start : Session) (e : Ending)
    (turns : List Turn) : Prop where
  /-- Every turn tests the condition, and the body runs only where it holds. -/
  genuine : ∀ t ∈ turns, t.tested = cond.run t.before ∧
    ∀ b ∈ t.body, t.tested.1 = .ok true ∧ b = act.run t.tested.2
  /-- A turn begins where the turns before it have left the session. -/
  chained : ∀ earlier t later, turns = earlier ++ t :: later → t.before = Turn.leftBy start earlier
  /-- The condition is tested once more often than the body may run. -/
  tests : turns.length ≤ n + 1
  /-- The body runs no more often than that. -/
  bodies : (turns.filterMap Turn.body).length ≤ n
  /-- A loop that would go on makes all of its rounds. It is cut off after one more test, and
      one warning is noted. -/
  overrun : Overruns cond act n start → ∃ whole t, turns = whole ++ [t] ∧ whole.length = n ∧
    (∀ u ∈ whole, u = turn cond act u.before ∧ u.closing? = none) ∧
    t.tested.1 = .ok true ∧ t.body = none ∧ e = (.ok .normal, t.left.warned message)
  /-- Any other loop is the loop without a cap, and notes nothing of its own. -/
  within : ¬ Overruns cond act n start → Unbounded cond act start turns e ∧
    e.2 = Turn.leftBy start turns ∧
    ∀ turns' e', Unbounded cond act start turns' e' → turns' = turns ∧ e' = e

end Condition

variable {cond : Run Bool} {turns turns' : List Turn} {e e' : Ending} {n : Nat}

theorem turn_body {b : Ending} (h : b ∈ (turn cond act s).body) :
    (cond.run s).1 = .ok true ∧ b = act.run (cond.run s).2 := by
  rw [turn, Option.mem_def] at h
  rcases htest : (cond.run s).1 with signal | (_ | _) <;> simp only [htest] at h
  · cases h
  · cases h
  · exact ⟨rfl, (Option.some.inj h).symm⟩

theorem turn_of_ne (h : (cond.run s).1 ≠ .ok true) :
    turn cond act s = ⟨s, cond.run s, none⟩ ∧ (turn cond act s).closing? ≠ none := by
  rw [turn, Turn.closing?]
  rcases htest : (cond.run s).1 with signal | (_ | _)
  · exact ⟨rfl, by simp⟩
  · exact ⟨rfl, by simp⟩
  · exact absurd htest h

theorem Unbounded.left_eq (h : Unbounded cond act s turns e) : e.2 = Turn.leftBy s turns := by
  induction h with
  | last _ => rfl
  | next _ _ ih => exact ih

theorem Unbounded.unique (h : Unbounded cond act s turns e) (h' : Unbounded cond act s turns' e') :
    turns' = turns ∧ e' = e := by
  induction h generalizing turns' e' with
  | last hclosing =>
    cases h' with
    | last hclosing' =>
      rw [hclosing] at hclosing'
      rw [Option.some.inj hclosing']
      exact ⟨rfl, rfl⟩
    | next hclosing' _ =>
      rw [hclosing] at hclosing'
      cases hclosing'
  | next hclosing _ ih =>
    cases h' with
    | last hclosing' =>
      rw [hclosing] at hclosing'
      cases hclosing'
    | next _ hrest' =>
      obtain ⟨rfl, rfl⟩ := ih hrest'
      exact ⟨rfl, rfl⟩

theorem Unbounded.only (h : Unbounded cond act s turns e) :
    Unbounded cond act s turns e ∧ e.2 = Turn.leftBy s turns ∧
      ∀ turns' e', Unbounded cond act s turns' e' → turns' = turns ∧ e' = e :=
  ⟨h, h.left_eq, fun _ _ => h.unique⟩

def stopped (limit : Int) : String := "while loop stopped after " ++ toString limit ++ " iterations"

theorem run_whileLoop_zero (limit : Int) :
    (whileLoop limit cond act 0).run s = match cond.run s with
      | (.ok true, s₁) => (.ok .normal, s₁.warned (stopped limit))
      | (.ok false, s₁) => (.ok .normal, s₁)
      | (.error signal, s₁) => (.error signal, s₁) := by
  rw [whileLoop, run_bind]
  rcases cond.run s with ⟨signal | (_ | _), s₁⟩ <;> rfl

theorem run_whileLoop_succ (limit : Int) :
    (whileLoop limit cond act (n + 1)).run s = match (turn cond act s).closing? with
      | some r => (r, (turn cond act s).left)
      | none => (whileLoop limit cond act n).run (turn cond act s).left := by
  rw [whileLoop, run_bind]
  simp only [turn, Turn.closing?, Turn.left]
  rcases cond.run s with ⟨signal | (_ | _), s₁⟩
  · rfl
  · rfl
  · simp only [Bool.not_true, Bool.false_eq_true, if_false, Option.bind_some, Option.elim_some]
    rw [run_bind, run_round]
    rcases closing (act.run s₁).1 with _ | (signal | flow) <;> rfl

theorem capped_zero (limit : Int) (cond : Run Bool) (act : Run Flow) (s : Session) :
    Capped cond act 0 (stopped limit) s ((whileLoop limit cond act 0).run s)
      [⟨s, cond.run s, none⟩] where
  genuine t ht := by
    rw [mem_singleton.mp ht]
    exact ⟨rfl, by simp⟩
  chained earlier t later h := by
    obtain ⟨rfl, rfl⟩ := split_singleton h
    rfl
  tests := by simp
  bodies := by simp
  overrun h := by
    have htest : cond.run s = (.ok true, (cond.run s).2) := Prod.ext h rfl
    refine ⟨[], _, rfl, rfl, forall_mem_nil _, h, rfl, ?_⟩
    rw [run_whileLoop_zero, htest]
    rfl
  within h := by
    have hnot : (cond.run s).1 ≠ .ok true := h
    obtain ⟨hturn, hclosing⟩ := @turn_of_ne act s cond hnot
    obtain ⟨r, hr⟩ := Option.ne_none_iff_exists'.mp hclosing
    -- The test does not hold, so the loop without a cap ends with it too.
    have hlast : Unbounded cond act s [⟨s, cond.run s, none⟩] (r, (cond.run s).2) := by
      have := Unbounded.last hr
      rwa [hturn] at this
    have hrun : (whileLoop limit cond act 0).run s = (r, (cond.run s).2) := by
      rw [hturn, Turn.closing?] at hr
      rw [run_whileLoop_zero]
      rcases htest : cond.run s with ⟨signal | (_ | _), s₁⟩ <;> rw [htest] at hr hnot
      · rw [← Option.some.inj hr]
      · rw [← Option.some.inj hr]
      · exact absurd rfl hnot
    rw [hrun]
    exact hlast.only

theorem capped_last {limit : Int} {r : Except Signal Flow}
    (hclosing : (turn cond act s).closing? = some r) :
    Capped cond act (n + 1) (stopped limit) s ((whileLoop limit cond act (n + 1)).run s)
      [turn cond act s] where
  genuine t ht := by
    rw [mem_singleton.mp ht]
    exact ⟨rfl, fun b hb => turn_body hb⟩
  chained earlier t later h := by
    obtain ⟨rfl, rfl⟩ := split_singleton h
    rfl
  tests := by simp
  bodies := Nat.le_trans (length_filterMap_le _ _) (by simp)
  overrun h := by
    have := h.1
    rw [hclosing] at this
    cases this
  within _ := by
    rw [run_whileLoop_succ, hclosing]
    exact (Unbounded.last hclosing).only

theorem Capped.cons {limit : Int} (hclosing : (turn cond act s).closing? = none)
    (h : Capped cond act n (stopped limit) (turn cond act s).left
      ((whileLoop limit cond act n).run (turn cond act s).left) turns) :
    Capped cond act (n + 1) (stopped limit) s ((whileLoop limit cond act (n + 1)).run s)
      (turn cond act s :: turns) := by
  -- The loop goes on only after a body that has run.
  obtain ⟨b, hb⟩ : ∃ b, (turn cond act s).body = some b := by
    by_cases htest : (cond.run s).1 = .ok true
    · exact ⟨_, by rw [turn, htest]⟩
    · exact absurd hclosing (turn_of_ne htest).2
  have hbodies : ((turn cond act s :: turns).filterMap Turn.body).length =
      (turns.filterMap Turn.body).length + 1 := by
    rw [filterMap_cons, hb, length_cons]
  rw [run_whileLoop_succ, hclosing]
  refine ⟨?_, ?_, ?_, ?_, ?_, ?_⟩
  · exact forall_mem_cons.mpr ⟨⟨rfl, fun b hb => turn_body hb⟩, h.genuine⟩
  · intro earlier t later hsplit
    rcases split_cons hsplit with ⟨rfl, rfl⟩ | ⟨earlier', rfl, hrest⟩
    · rfl
    · exact h.chained earlier' t later hrest
  · have := h.tests
    rw [length_cons]
    omega
  · have := h.bodies
    omega
  · rintro ⟨-, hrest⟩
    obtain ⟨whole, t, rfl, hlen, hwhole, hlast⟩ := h.overrun hrest
    exact ⟨_ :: whole, t, rfl, by rw [length_cons, hlen],
      forall_mem_cons.mpr ⟨⟨rfl, hclosing⟩, hwhole⟩, hlast⟩
  · intro hnot
    obtain ⟨hloop, -⟩ := h.within fun hrest => hnot ⟨hclosing, hrest⟩
    exact (Unbounded.next hclosing hloop).only

/-- The turns of a loop that may run its body so many times. By induction on that number:
    after a turn there is one round less to make. -/
theorem capped_whileLoop (limit : Int) (cond : Run Bool) (act : Run Flow) (n : Nat) (s : Session) :
    ∃ turns, Capped cond act n (stopped limit) s ((whileLoop limit cond act n).run s) turns := by
  induction n generalizing s with
  | zero => exact ⟨_, capped_zero limit cond act s⟩
  | succ n ih =>
    cases hclosing : (turn cond act s).closing? with
    | some r => exact ⟨_, capped_last hclosing⟩
    | none =>
      obtain ⟨turns, h⟩ := ih (turn cond act s).left
      exact ⟨_, h.cons hclosing⟩

end Loop

/-! ### The statements -/

/-- The values that a loop over a variable takes: none for null, the items of a list, and
    any other value alone. -/
def Session.elements (s : Session) (name : String) : List Value :=
  match (s.bag.get? name).getD .null with
  | .null => []
  | .list r => s.heap.items r
  | v => [v]

namespace Run

/-- A loop over a variable goes over the values that the variable had when the loop began,
    whatever its body does to them. -/
theorem forEach_iterates (L : Linker) (pos : Position) (item list : String) (body : List Stmt)
    (s : Session) :
    ∃ its e, Loop.Iterated item (execBlock L body) (s.elements list) { s with position := some pos }
        e its ∧
      (exec L (.forEach pos item list body)).run s = e.placed pos := by
  obtain ⟨its, h⟩ := Loop.iterated_forAll item (execBlock L body) (s.elements list)
    { s with position := some pos }
  refine ⟨its, _, h, ?_⟩
  rw [exec, run_placing_eq]
  refine congrArg (Ending.placed pos) ?_
  have hvar : (var list).run { s with position := some pos } =
      (.ok ((s.bag.get? list).getD .null), { s with position := some pos }) := rfl
  have hlist : (asList ((s.bag.get? list).getD .null)).run { s with position := some pos } =
      (.ok (s.elements list), { s with position := some pos }) := by
    rw [Session.elements]
    cases (s.bag.get? list).getD .null <;> rfl
  rw [bind_ok hvar, bind_ok hlist, Loop.forAll]

/-- A loop with a condition tests it at most once more often than it may run its body, and
    runs its body no more often than that. It is the loop without a cap, unless that one would
    go on: then it ends with one warning. -/
theorem while_capped (L : Linker) (pos : Position) (cond : Condition) (body : List Stmt)
    (s : Session) :
    ∃ turns e, Loop.Capped (test L cond) (execBlock L body) s.options.whileLimit.toNat
        (Loop.stopped s.options.whileLimit) { s with position := some pos } e turns ∧
      (exec L (.whileLoop pos cond body)).run s = e.placed pos := by
  obtain ⟨turns, h⟩ := Loop.capped_whileLoop s.options.whileLimit (test L cond) (execBlock L body)
    s.options.whileLimit.toNat { s with position := some pos }
  refine ⟨turns, _, h, ?_⟩
  rw [exec, run_placing_eq, bind_ok (run_get _)]

end Run
end Parlance
