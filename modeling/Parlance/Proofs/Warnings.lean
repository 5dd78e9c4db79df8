import Parlance.Proofs.Watch

/-!
# Where Warnings Point

A warning is given at the statement under way, and a statement is under way from where it
begins until the next one begins. A statement that runs a block is not under way again when
the block has ended, so what it warns of then is shown at the last statement of the block.

## Main definitions

* `Stmt.Runs`: What a statement runs besides itself: the blocks in it, the command it waits for,
  and the blocks that it reaches by a name.
* `Stmt.Moves`: The second mark is the one after such a run, if the first one is the one before
  it.
* `Regime.marking`: All statements may run, and a block does what is said to the mark of a
  session.

## Theorems

* `Session.Mark.Trail.told`: Blocks that leave the mark as it is can be left out.
* `Run.Alike.marking`: A block that a statement runs is one thing that may happen to the mark.
* `Run.warnings_until_moved`: The warnings that a statement gives itself are at its position until
  a block that it runs moves the position, and from then on they are where that block has left it.
* `Run.warnings_until_moved_index`: A store below the list gives its one warning where the
  statement is.
-/

namespace Parlance
open Run

namespace Session.Mark
variable {B : Mark → Mark → Prop} {m m' : Mark} {own : List Diagnostic}

/-- Blocks that leave the mark as it is can be left out. -/
theorem Trail.told (h : Trail B m own m') (hB : ∀ m m', B m m' → m' = m) :
    Trail (fun _ _ => False) m own m' := by
  induction h with
  | start => exact .start
  | warning _ message ih => exact ih.warning message
  | error _ hd ih => exact ih.error hd
  | block _ hblock ih => exact hB _ _ hblock ▸ ih

theorem Trail.position_eq (h : Trail (fun _ _ => False) m own m') :
    m'.position = m.position ∧ ∀ d ∈ own, d.position = m.position.getD ⟨0, 0⟩ := by
  induction h with
  | start => exact ⟨rfl, nofun⟩
  | warning _ message ih =>
    refine ⟨ih.1, List.forall_mem_append.mpr ⟨ih.2, fun d hd => ?_⟩⟩
    rw [List.mem_singleton.mp hd, ← ih.1]
    rfl
  | error _ _ ih => exact ih
  | block _ hblock => exact hblock.elim

end Session.Mark

/-- What a statement runs besides itself: the blocks in it, the command it waits for, and the
    blocks that it reaches by a name. -/
inductive Stmt.Runs (L : Linker) (st : Stmt) : Run Flow → Prop
  | inner {stmts : List Stmt} (h : stmts ∈ st.inner) : Runs L st (execBlock L stmts)
  | awaited {c : Stmt} (h : c ∈ st.awaited) : Runs L st (exec L c)
  | reached (stmts : List Stmt) : Runs L st (L.block stmts)

/-- The second mark is the one after such a run, if the first one is the one before it. -/
def Stmt.Moves (L : Linker) (st : Stmt) (m m' : Session.Mark) : Prop :=
  ∃ (act : Run Flow) (s : Session), st.Runs L act ∧ s.mark = m ∧ (act.run s).2.mark = m'

theorem Stmt.eq_of_moves {st : Stmt} (hinner : st.inner = []) (hawaited : st.awaited = [])
    (m m' : Session.Mark) (h : st.Moves (.ofDepth 0) m m') : m' = m := by
  obtain ⟨act, s, hact, rfl, rfl⟩ := h
  cases hact with
  | inner h => exact absurd (hinner ▸ h) List.not_mem_nil
  | awaited h => exact absurd (hawaited ▸ h) List.not_mem_nil
  | reached => rfl

namespace Regime

/-- All statements may run, and a block does what is said to the mark of a session. -/
def marking (B : Session.Mark → Session.Mark → Prop) : Regime :=
  { watching fun _ => True with moves := B }

variable {B : Session.Mark → Session.Mark → Prop}

theorem open_marking : (marking B).Open :=
  ⟨fun _ => trivial, fun _ _ => trivial, fun _ _ _ _ => trivial, fun _ _ _ => trivial⟩

instance : (marking B).Lawful :=
  ⟨fun _ _ _ => trivial, fun _ hf _ => open_marking.arms hf, fun _ _ _ => .inl open_marking,
    fun _ => id, fun _ _ _ => nofun⟩

end Regime

namespace Run

theorem Placed.leads {R : Regime} {whole : Bool} {pos : Position} {x x' : Run Flow} {s : Session}
    (h : Placed R whole pos x x') (hhere : R.here s.frame) (hcode : R.Carried s) :
    Session.Mark.Leads R.moves ⟨some pos, s.diagnostics⟩ (x.run s).2.mark := by
  obtain ⟨hact⟩ := h
  rw [snd_run_placing]
  exact (hact.run { s with position := some pos } hhere
    (hcode.imp (fun h => ⟨h.functions, h.modules, h.classes, h.methods⟩) id)).leads

variable {L : Linker} {st : Stmt} {act : Run Flow}

/-- A block that a statement runs is one thing that may happen to the mark. -/
theorem Alike.marking (hact : Obeys (.watching fun _ => True) false act) (h : st.Runs L act) :
    Obeys (.marking (st.Moves L)) false act where
  run s hhere hcode :=
    have ⟨hsame, hkept, hends, _⟩ := hact.run s hhere hcode
    ⟨hsame, hkept, hends, .of_block ⟨act, s, h, rfl, rfl⟩⟩

theorem leads_exec (L : Linker) [hL : Linker.Alike (.watching fun _ => True) L L] (st : Stmt)
    (s : Session) : Session.Mark.Leads (st.Moves L) ⟨some st.position, s.diagnostics⟩
      ((exec L st).run s).2.mark := by
  have hlinkers : Linker.Alike (.marking (st.Moves L)) L L := ⟨fun stmts hstmts =>
    have hblock : Obeys (.watching fun _ => True) false (L.block stmts) := ⟨hL.block stmts hstmts⟩
    (hblock.marking (.reached stmts)).run⟩
  have hinner {stmts : List Stmt} (h : stmts ∈ st.inner) :
      Obeys (.marking (st.Moves L)) false (execBlock L stmts) :=
    (alike_execBlock stmts fun _ _ => trivial).marking (.inner h)
  have hawaited {c : Stmt} (h : c ∈ st.awaited) :
      Obeys (.marking (st.Moves L)) false (exec L c) :=
    (alike_exec c fun _ _ => trivial).marking (.awaited h)
  have hplaced : Placed (.marking (st.Moves L)) false st.position (exec L st) (exec L st) :=
    placed_exec st (fun _ _ => trivial) (fun _ => hinner) (fun _ => hawaited)
  exact hplaced.leads trivial (.of_forall (fun _ => trivial) s)

/-- The warnings that a statement gives itself are at its position until a block that it runs
    moves the position, and from then on they are where that block has left it. A statement
    that has no block in it, and reaches none by a name (so that it does not matter how names
    are followed), gives all of its warnings at its position. -/
theorem warnings_until_moved (n : Nat) (st : Stmt) (s : Session) :
    (∃ own, Session.Mark.Trail (st.Moves (.ofDepth n)) ⟨some st.position, s.diagnostics⟩ own
      ((exec (.ofDepth n) st).run s).2.mark) ∧
    (st.inner = [] → st.awaited = [] → (∀ L, (exec L st).run s = (exec (.ofDepth n) st).run s) →
      ∃ own, Session.Mark.Trail (fun _ _ => False) ⟨some st.position, s.diagnostics⟩ own
        ((exec (.ofDepth n) st).run s).2.mark ∧ ∀ d ∈ own, d.position = st.position) := by
  refine ⟨leads_exec (.ofDepth n) st s, fun hinner hawaited hnames => ?_⟩
  obtain ⟨own, htrail⟩ := leads_exec (.ofDepth 0) st s
  rw [← hnames (.ofDepth 0)]
  have htold := htrail.told (Stmt.eq_of_moves hinner hawaited)
  exact ⟨own, htold, htold.position_eq.2⟩

/-- A store below the list gives its one warning where the statement is. -/
theorem warnings_until_moved_index :
    let st : Stmt := .command ⟨1, 1⟩ (.bag (.setIndex "a" (.number ⟨1, 11⟩ (.int (-1))) (.null ⟨1, 20⟩)))
    let s : Session := { heap := ⟨#[.list []]⟩, bag := .ofList [("a", .list ⟨0⟩)] }
    ((exec (.ofDepth 0) st).run s).2.diagnostics = #[⟨.warning, "invalid index -1", ⟨1, 1⟩⟩] ∧
      ∃ own, Session.Mark.Trail (fun _ _ => False) ⟨some st.position, s.diagnostics⟩ own
        ((exec (.ofDepth 0) st).run s).2.mark ∧ ∀ d ∈ own, d.position = st.position :=
  ⟨rfl, (warnings_until_moved 0 _ _).2 rfl rfl fun _ => rfl⟩

/-- A loop that is cut off after one round is shown at the last statement of its body. -/
theorem warnings_until_moved_cut :
    ((exec (.ofDepth 0) (.whileLoop ⟨1, 1⟩ (.bool ⟨1, 7⟩ true) [.skipRound ⟨2, 3⟩])).run
        { options := { whileLimit := 1 } }).2.diagnostics =
      #[⟨.warning, "while loop stopped after 1 iterations", ⟨2, 3⟩⟩] := rfl

end Run
end Parlance
