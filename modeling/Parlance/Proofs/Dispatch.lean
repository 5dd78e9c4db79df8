import Parlance.Proofs.Serving

/-!
# Rules in Their Turn

A key that fires gives every rule under it one turn, and a look at the rules that wait for a
condition gives each of them one. Which rules these are is settled before the first turn. In its
turn a rule runs its body, if it has no condition or its condition holds.

A turn begins in the session that the turn before it has left, with all that was done there before
a failure. A failure costs the rule the rest of its turn and comes out in the list. Whatever else
ends a turn before its time ends all turns.

## Main definitions

* `Session.reported`: The session with a failure noted: one diagnostic with its message and its
  position, and one line in the log.
* `Visit`: The turn of a rule: where it began, how it ended and where.
* `Visit.left`: The session that the turn has left, with its failure noted.
* `Rule.Fires`: The turn of a rule under a key: its body runs, with whatever flow.
* `Rule.Polls`: The turn of a rule that waits for a condition.

## Theorems

* `Session.dispatched_in_order`: Rules have their turns in order.
-/

namespace Parlance
open Run List Rule

/-- The session with a failure noted: one diagnostic with its message and its position, and
    one line in the log. -/
def Session.reported (s : Session) (f : Failure) : Session :=
  { s with
    diagnostics := s.diagnostics.push ⟨.error, f.message, f.position.getD ⟨0, 0⟩⟩
    log := s.log.push ⟨.error, .runtime, f.text⟩ }

/-- The turn of a rule: where it began, how it ended and where. -/
structure Visit where
  rule : Rule
  before : Session
  result : Except Signal Unit
  after : Session

namespace Visit

def failure? (v : Visit) : Option Failure :=
  match v.result with
  | .error (.failure f) => some f
  | _ => none

def signal? (v : Visit) : Option Signal :=
  match v.result with
  | .ok _ | .error (.failure _) => none
  | .error signal => some signal

/-- The session that the turn has left, with its failure noted. -/
def left (v : Visit) : Session := v.failure?.elim v.after v.after.reported

def leftBy (start : Session) (visits : List Visit) : Session := visits.foldl (fun _ v => v.left) start

end Visit

namespace Rule

abbrev Ending := Except Signal Unit × Session

/-- The turn of a rule under a key: its body runs, with whatever flow. -/
inductive Fires (n : Nat) (r : Rule) : Session → Ending → Prop where
  | ran {result : Except Signal Flow} {s s' : Session} :
    (execBlock (.ofDepth n) r.body).run s = (result, s') → Fires n r s (result.map fun _ => (), s')

/-- The turn of a rule that waits for a condition. -/
inductive Polls (n : Nat) (r : Rule) : Session → Ending → Prop where
  | idle {s s' : Session} :
    (holds (.ofDepth (n + 1)) r.event).run s = (.ok false, s') → Polls n r s (.ok (), s')
  | fired {s s₁ : Session} {e : Ending} :
    (holds (.ofDepth (n + 1)) r.event).run s = (.ok true, s₁) → r.Fires n s₁ e → Polls n r s e
  | stuck {signal : Signal} {s s' : Session} :
    (holds (.ofDepth (n + 1)) r.event).run s = (.error signal, s') →
      Polls n r s (.error signal, s')

/-- Rules have had their turns, from a session on, and this came out. -/
structure Dispatched (turn : Rule → Session → Ending → Prop) (rules : List Rule) (start : Session)
    (ending : Except Signal (List Failure) × Session) (visits : List Visit) : Prop where
  genuine : ∀ v ∈ visits, turn v.rule v.before (v.result, v.after)
  /-- A turn begins where the turns before it have left the session. -/
  chained : ∀ earlier v later, visits = earlier ++ v :: later → v.before = Visit.leftBy start earlier
  final : ending.2 = Visit.leftBy start visits
  /-- Every rule has one turn, in order, and the failures come out; or a signal that is no
      failure ends a turn, it comes out, and the rules behind have no turn. -/
  outcome : (visits.map Visit.rule = rules ∧ (∀ v ∈ visits, v.signal? = none) ∧
      ending.1 = .ok (visits.filterMap Visit.failure?)) ∨
    ∃ earlier v unvisited signal, visits = earlier ++ [v] ∧
      rules = visits.map Visit.rule ++ unvisited ∧ (∀ u ∈ earlier, u.signal? = none) ∧
      v.signal? = some signal ∧ ending.1 = .error signal

/-! ### One turn after the other -/

variable {turn : Rule → Session → Ending → Prop} {rules : List Rule} {visits : List Visit}
  {ending : Except Signal (List Failure) × Session} {v : Visit}

theorem dispatched_nil (start : Session) : Dispatched turn [] start (.ok [], start) [] where
  genuine := forall_mem_nil _
  chained earlier v later h := by
    have hlength := congrArg List.length h
    simp at hlength
  final := rfl
  outcome := .inl ⟨rfl, forall_mem_nil _, rfl⟩

theorem dispatched_singleton {signal : Signal} (hv : v.signal? = some signal)
    (hturn : turn v.rule v.before (v.result, v.after)) (hleft : v.left = v.after) :
    Dispatched turn (v.rule :: rules) v.before (.error signal, v.after) [v] where
  genuine := forall_mem_singleton.mpr hturn
  chained earlier w later h := by
    cases earlier with
    | nil =>
      cases h
      rfl
    | cons u earlier => simp at h
  final := hleft.symm
  outcome := .inr ⟨[], v, rules, signal, rfl, rfl, forall_mem_nil _, hv, rfl⟩

theorem Dispatched.cons (hv : v.signal? = none) (hturn : turn v.rule v.before (v.result, v.after))
    (h : Dispatched turn rules v.left ending visits) :
    Dispatched turn (v.rule :: rules) v.before (ending.1.map (v.failure?.toList ++ ·), ending.2)
      (v :: visits) where
  genuine := forall_mem_cons.mpr ⟨hturn, h.genuine⟩
  chained earlier w later hvisits := by
    cases earlier with
    | nil =>
      cases hvisits
      rfl
    | cons u earlier =>
      obtain ⟨rfl, hrest⟩ := cons_eq_cons.mp hvisits
      exact h.chained earlier w later hrest
  final := h.final
  outcome := by
    rcases h.outcome with
      ⟨hall, hnone, hok⟩ | ⟨earlier, w, unvisited, signal, rfl, hrules, hnone, hw, herror⟩
    · refine .inl ⟨by rw [map_cons, hall], forall_mem_cons.mpr ⟨hv, hnone⟩, ?_⟩
      rw [hok, filterMap_cons]
      cases v.failure? <;> rfl
    · refine .inr ⟨v :: earlier, w, unvisited, signal, rfl, ?_,
        forall_mem_cons.mpr ⟨hv, hnone⟩, hw, ?_⟩
      · rw [hrules, map_cons, cons_append]
      · rw [herror]
        rfl

theorem exists_dispatched {task : Rule → Run Unit} (htask : ∀ r s, turn r s ((task r).run s))
    (rules : List Rule) (s : Session) :
    ∃ visits, Dispatched turn rules s ((serve (rules.map task)).run s) visits := by
  induction rules generalizing s with
  | nil => exact ⟨[], dispatched_nil s⟩
  | cons r rest ih =>
    have hturn := htask r s
    rw [map_cons, run_serve_cons]
    rcases hrun : (task r).run s with ⟨result, s₁⟩
    rw [hrun] at hturn
    rcases result with (f | n | d | _) | _
    case ok =>
      obtain ⟨visits, h⟩ := ih s₁
      have hcons := h.cons (v := ⟨r, s, .ok (), s₁⟩) rfl hturn
      have hsame (e : Except Signal (List Failure)) : e.map ([] ++ ·) = e := by cases e <;> rfl
      exact ⟨_, hsame ((serve (rest.map task)).run s₁).1 ▸ hcons⟩
    case error.failure =>
      obtain ⟨visits, h⟩ := ih (s₁.reported f)
      exact ⟨_, h.cons (v := ⟨r, s, .error (.failure f), s₁⟩) rfl hturn⟩
    all_goals exact ⟨_, dispatched_singleton (v := ⟨r, s, .error _, s₁⟩) rfl hturn rfl⟩

/-! ### The turns of rules -/

theorem fires_blockTask (n : Nat) (r : Rule) (s : Session) :
    r.Fires n s ((blockTask (.ofDepth (n + 1)) r.body).run s) := by
  rcases hrun : ((Linker.ofDepth (n + 1)).block r.body).run s with ⟨signal | flow, s'⟩
  · rw [blockTask, bind_error hrun]
    exact .ran hrun
  · rw [blockTask, bind_ok hrun]
    exact .ran hrun

theorem polls_ruleTask (n : Nat) (r : Rule) (s : Session) :
    r.Polls n s ((ruleTask (.ofDepth (n + 1)) r).run s) := by
  rcases hholds : (holds (.ofDepth (n + 1)) r.event).run s with ⟨signal | _ | _, s₁⟩
  · rw [ruleTask, bind_error hholds]
    exact .stuck hholds
  · rw [ruleTask, bind_ok hholds]
    exact .idle hholds
  · rw [ruleTask, bind_ok hholds]
    exact .fired hholds (fires_blockTask n r s₁)

end Rule

/-- Rules have their turns in order. A key that fires is logged, and then the rules that stand
    under it run; a look at the rules that wait for a condition polls them all. This is so for
    every depth to which names are followed. -/
theorem Session.dispatched_in_order (n : Nat) (s : Session) :
    (∀ key, ∃ visits, Dispatched (Fires n) ((s.eventRules.get? key).getD [])
      { s with log := s.log.push ⟨.debug, .runtime, "trigger " ++ key⟩ }
      ((Run.trigger (.ofDepth (n + 1)) key).run s) visits) ∧
    ∃ visits, Dispatched (Polls n) s.conditionRules s
      ((tick (.ofDepth (n + 1))).run s) visits := by
  refine ⟨fun key => ?_, ?_⟩
  · have htrigger := Entry.run_eq_serve (.ofDepth (n + 1)) (.trigger key) s
    obtain ⟨visits, h⟩ := exists_dispatched (fires_blockTask n) (rulesFor s key)
      (Entry.start s (.trigger key))
    refine ⟨visits, ?_⟩
    change Dispatched _ _ _ ((Entry.run (.ofDepth (n + 1)) (.trigger key)).run s) visits
    rw [htrigger]
    exact h
  · have htick := Entry.run_eq_serve (.ofDepth (n + 1)) .tick s
    obtain ⟨visits, h⟩ := exists_dispatched (polls_ruleTask n) s.conditionRules s
    refine ⟨visits, ?_⟩
    change Dispatched _ _ _ ((Entry.run (.ofDepth (n + 1)) .tick).run s) visits
    rw [htick]
    exact h

end Parlance
