import Parlance.Proofs.AlikeExec

/-!
# Runs That End

A body is found under a name, so the syntax alone does not bound a run: functions
call each other and themselves. What bounds it is the limit on nested calls. Without
events and modules, and with hosts that fire no rules, a block is reached by a call
only. So a linker is followed as deep as calls may nest and no deeper. What it does
below cannot be told, and no run is cut off.

## Main definitions

* `Regime.calling`: No events and no modules are run and no rules fire, and with this many calls
  more the limit is reached.
* `Linker.above`: The linker that follows names to a depth and leaves the rest to another one.

## Theorems

* `Linker.alike_above`: Two linkers that both follow names at least so deep go alike, whatever
  lies below them.
* `Run.execBlock_ends`: A block without events and modules ends, if the bodies that calls can
  reach have none either and no rules fire: it has an outcome, not a cut, and every linker that is
  followed as deep as calls may still nest leads to it, whatever lies below.
* `Run.execBlock_ends_runaway`: A function that does nothing but call itself ends.
-/

namespace Parlance
open Run

namespace Regime

/-- No events and no modules are run and no rules fire, and with this many calls
    more the limit is reached. -/
def calling (n : Nat) : Regime where
  allowed st := st.links = false
  reached st := st.links = false
  here f := maxDepth ≤ f.depth + n ∧ f.callbacks.fires = false
  inside f := maxDepth < f.depth + n ∧ f.depth ≤ maxDepth ∧ f.callbacks.fires = false
  ends := True
  spared _ := False

instance {n : Nat} : (calling n).Free := ⟨fun _ _ => trivial⟩

instance {n : Nat} : (calling n).Lawful where
  call s hs hlt := by
    obtain ⟨hn, hfires⟩ := hs
    refine ⟨?_, hlt, hfires⟩
    change maxDepth < s.depth + 1 + n
    exact Nat.add_right_comm _ _ _ ▸ Nat.lt_succ_of_le hn
  fires f hf hfires := by
    rw [hf.2] at hfires
    cases hfires
  links st hst hlinks := by
    have hst : st.links = false := hst
    rw [hst] at hlinks
    cases hlinks
  reached _ := id
  spares _ _ _ := nofun

end Regime

namespace Linker

/-- The linker that follows names to a depth and leaves the rest to another one. -/
def above (below : Linker) : Nat → Linker
  | 0 => below
  | depth + 1 => ⟨fun stmts => execBlock (above below depth) stmts⟩

theorem ofDepth_eq_above (n : Nat) : ofDepth n = (ofDepth 0).above n := by
  induction n with
  | zero => rfl
  | succ n ih => exact congrArg (fun L : Linker => (⟨execBlock L⟩ : Linker)) ih

/-- Two linkers that both follow names at least so deep go alike, whatever lies
    below them. At depth zero no block begins: a call would exceed the limit. -/
theorem alike_above (below below' : Linker) {k n n' : Nat} (hn : k ≤ n) (hn' : k ≤ n') :
    Linker.Alike (.calling k) (below.above n) (below'.above n') := by
  induction k generalizing n n' with
  | zero => exact ⟨fun _ _ s hs _ => absurd hs.1 (Nat.not_lt_of_le hs.2.1)⟩
  | succ k ih =>
    obtain ⟨m, rfl⟩ := Nat.exists_eq_add_of_le' hn
    obtain ⟨m', rfl⟩ := Nat.exists_eq_add_of_le' hn'
    have := ih (Nat.le_add_left k m) (Nat.le_add_left k m')
    refine ⟨fun stmts hstmts s hs hbodies => ?_⟩
    -- A block that begins inside at `k + 1` is run here with `k` calls left.
    have hblock : Run.Alike (.calling k) false (execBlock (below.above (m + k)) stmts)
        (execBlock (below'.above (m' + k)) stmts) := alike_execBlock stmts hstmts
    obtain ⟨hsame, hkept, hends, hleads⟩ :=
      hblock.run s ⟨Nat.le_of_lt_succ hs.1, hs.2.2⟩ hbodies
    exact ⟨hsame, hkept, hends, hleads⟩

end Linker

/-- A block without events and modules ends, if the bodies that calls can reach have
    none either and no rules fire: it has an outcome, not a cut, and every linker that
    is followed as deep as calls may still nest leads to it, whatever lies below. The
    linker of a session is one of them. -/
theorem Run.execBlock_ends (stmts : List Stmt) (s : Session)
    (hstmts : Stmt.Throughout (·.links = false) stmts) (hbodies : s.Bodies (·.links = false))
    (hfires : s.hosts.callbacks.fires = false) : ∃ result s', result ≠ .error .exhausted ∧
      (execBlock .full stmts).run s = (result, s') ∧
      ∀ (below : Linker) (n : Nat), maxDepth ≤ s.depth + n →
        (execBlock (below.above n) stmts).run s = (result, s') := by
  have hrun (below : Linker) (n : Nat) (hn : maxDepth ≤ s.depth + n) :
      AlikeAt (.calling (maxDepth - s.depth)) false (execBlock .full stmts)
        (execBlock (below.above n) stmts) s := by
    have hfull : maxDepth - s.depth ≤ Linker.maxDepth := Nat.le_trans (Nat.sub_le ..) (by decide)
    have hdepth : maxDepth - s.depth ≤ n := by omega
    have hhere : maxDepth ≤ s.depth + (maxDepth - s.depth) := by omega
    have := Linker.alike_above (.ofDepth 0) below hfull hdepth
    rw [Linker.full, Linker.ofDepth_eq_above]
    exact (alike_execBlock stmts hstmts).run s ⟨hhere, hfires⟩ hbodies
  refine ⟨_, _, ?_, rfl, fun below n hn => (hrun below n hn).same⟩
  exact (hrun .full maxDepth (Nat.le_add_left ..)).ends trivial

/-- A function that does nothing but call itself ends. -/
theorem Run.execBlock_ends_runaway :
    let call : Stmt := .command ⟨1, 1⟩ (.script (.callFunction "f" [] none))
    let s : Session := { functions := .ofList [("f", ⟨[], [call], 0⟩)] }
    (Stmt.Throughout (·.links = false) [call] ∧ s.Bodies (·.links = false) ∧
      s.hosts.callbacks.fires = false) ∧
    ∃ result s', result ≠ .error .exhausted ∧
      (execBlock .full [call]).run s = (result, s') ∧
      ∀ (below : Linker) (n : Nat), maxDepth ≤ s.depth + n →
        (execBlock (below.above n) [call]).run s = (result, s') := by
  intro call s
  have hcall : Stmt.Throughout (·.links = false) [call] := by
    intro part hpart
    obtain rfl := List.mem_singleton.mp hpart
    rfl
  have hbodies : s.Bodies (·.links = false) := by
    refine ⟨fun f hf => ?_, nofun, nofun, fun r owner m hr => ?_⟩
    · obtain rfl := List.mem_singleton.mp hf
      exact hcall
    · cases hr
  exact ⟨⟨hcall, hbodies, rfl⟩, execBlock_ends [call] s hcall hbodies rfl⟩

end Parlance
