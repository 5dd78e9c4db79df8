import Parlance.Proofs.AlikeExec

/-!
# The Scope of Break and Skip

A loop of any kind takes what its body asks of it and hands on no more than a value that is given
back. So it is enough to look at blocks that have no break and no skip outside of their loops.

The syntax alone does not settle it. The body of an event runs as part of the block that calls
it, and it comes from a table that every statement may write to, also inside a call. What has to
be kept along a run is therefore that all events of the table close their loops, and that nothing
which may still run defines one that does not.

## Main definitions

* `Flow.Settled`: The flow asks for nothing of a loop around it: the end is normal, or a value is
  given back.
* `Stmt.closed`: Whether every break and skip of the statement lies inside a loop of it.
* `Stmt.isScoped`: Whether an event that the statement defines has a closed body, and no module is
  taken in.
* `Stmt.LoopClosed`: The block closes its loops, and so do all the events that are defined
  anywhere in it.
* `Session.Frame.Scoped`: Every rule that stands in the frame defines closed events only, if rules
  can fire during a run.

## Theorems

* `Run.break_and_skip_scoped`: Break and skip stay inside the block that they are written in: a
  block that closes its loops ends normally or gives a value, and it defines no event that would
  not.
* `Run.break_and_skip_scoped_gate`: An event is called whose body leaves a loop of its own and
  gives a value.
* `Run.not_settled_of_rule`: Where the host fires rules, a rule can bring in an event that breaks
  off the block which calls it, although no event, function or method of the session does so.
-/

namespace Parlance
open Session List Stmt Bool Regime Run

/-- The flow asks for nothing of a loop around it: the end is normal, or a value is given
    back. -/
def Flow.Settled (flow : Flow) : Prop := flow = .normal ∨ ∃ v, flow = .give v

theorem Flow.settled_normal : Flow.normal.Settled := .inl rfl

theorem Flow.settled_give (v : Value) : (Flow.give v).Settled := .inr ⟨v, rfl⟩

/-! ### Closed blocks -/

namespace Stmt

mutual

/-- Whether every break and skip of the statement lies inside a loop of it. A body that
    the statement only defines does not run in its place. -/
def closed : Stmt → Bool
  | .breakLoop _ | .skipRound _ => false
  | .choice _ _ options => optionsClosed options
  | .branch _ _ thenBody elseBody => blockClosed thenBody && blockClosed elseBody
  | .attempt _ body _ handler none => blockClosed body && blockClosed handler
  | .attempt _ body _ handler (some cleanup) =>
    blockClosed body && blockClosed handler && blockClosed cleanup
  | .cases _ _ arms default => armsClosed arms && blockClosed default
  | _ => true

def blockClosed : List Stmt → Bool
  | [] => true
  | st :: rest => closed st && blockClosed rest

def optionsClosed : List (String × List Stmt) → Bool
  | [] => true
  | (_, body) :: rest => blockClosed body && optionsClosed rest

def armsClosed : List (CaseTest × List Stmt) → Bool
  | [] => true
  | (_, body) :: rest => blockClosed body && armsClosed rest

end

/-- Whether an event that the statement defines has a closed body, and no module is taken
    in. -/
def isScoped : Stmt → Bool
  | .defineEvent _ _ body => blockClosed body
  | st => !st.imports

abbrev Scoped (st : Stmt) : Prop := st.isScoped = true

/-- The block closes its loops, and so do all the events that are defined anywhere in
    it. -/
structure LoopClosed (block : List Stmt) : Prop where
  closed : blockClosed block = true
  events : Throughout Scoped block

instance (block : List Stmt) : Decidable (LoopClosed block) :=
  decidable_of_iff (blockClosed block = true ∧ ∀ st ∈ blockParts block, st.Scoped)
    ⟨fun h => ⟨h.1, h.2⟩, fun h => ⟨h.closed, h.events⟩⟩

def isLoop : Stmt → Bool
  | .times _ _ _ | .whileLoop _ _ _ | .forEach _ _ _ _ | .reduce _ _ _ _ _ _ _ => true
  | _ => false

theorem loopClosed_iff_event {pos : Position} {id : String} {body : List Stmt} :
    LoopClosed body ↔ ∀ part ∈ (defineEvent pos id body).parts, part.Scoped := by
  rw [parts, forall_mem_cons]
  exact ⟨fun h => ⟨h.closed, h.events⟩, fun h => ⟨h.1, h.2⟩⟩

end Stmt

/-- Every rule that stands in the frame defines closed events only, if rules can fire during
    a run. -/
def Session.Frame.Scoped (f : Frame) : Prop :=
  f.callbacks.fires = true → ∀ rs ∈ f.eventRules.values, ∀ r ∈ rs,
    Stmt.Throughout Stmt.Scoped r.body

/-- The events of the session close their loops, and so do the events that functions,
    methods and the rules that can fire during a run define. -/
structure Session.Scoped (s : Session) : Prop where
  events : ∀ body ∈ s.definedEvents.values, Stmt.LoopClosed body
  bodies : s.Bodies Stmt.Scoped
  rules : s.frame.Scoped

/-! ### The regime -/

/-- No module is taken in, and the body of an event that is defined is closed. -/
def Regime.scoping : Regime where
  allowed := Stmt.Scoped
  reached := Stmt.Scoped
  here := Frame.Scoped
  inside := Frame.Scoped
  ends := False
  spared _ := False
  followed := true

theorem Stmt.Scoped.imports_eq_false {st : Stmt} (h : st.Scoped) : st.imports = false := by
  cases st with
  | defineEvent pos id body => rfl
  | _ => exact (not_eq_true' _).mp h

instance : scoping.Free := ⟨fun _ _ => trivial⟩

instance : scoping.Lawful where
  call _ hs _ := hs
  fires _ hf hfires := ⟨hf, hf hfires⟩
  links _ hst _ := .inr ⟨hst.imports_eq_false, rfl, fun _ => id⟩
  reached _ := id
  spares _ _ _ := False.elim

theorem Session.scoped_iff_carried {s : Session} :
    s.Scoped ↔ scoping.here s.frame ∧ scoping.Carried s := by
  -- An event that is closed might come from any statement that defines it.
  refine ⟨fun h => ⟨h.rules, h.bodies, fun body hbody => ?_⟩, fun ⟨hrules, hbodies, hevents⟩ =>
    ⟨fun body hbody => ?_, hbodies, hrules⟩⟩
  · exact ⟨⟨0, 0⟩, "", loopClosed_iff_event.mp (h.events body hbody)⟩
  · obtain ⟨pos, id, hparts⟩ := hevents body hbody
    exact loopClosed_iff_event.mpr hparts

namespace Run
variable {α β : Type} {C : Session → Prop} {Q : α → Prop} {x : Run α} {act : Run Flow}

/-! ### What a computation yields -/

def Retains (C : Session → Prop) (x : Run α) : Prop := ∀ s, C s → C (x.run s).2

/-- From sessions of a kind, a value with the property is yielded, or none. -/
def Yields (C : Session → Prop) (Q : α → Prop) (x : Run α) : Prop :=
  ∀ s, C s → ∀ a, (x.run s).1 = .ok a → Q a

abbrev Settles (C : Session → Prop) (x : Run Flow) : Prop := Yields C Flow.Settled x

theorem retains_of_alike (h : Obeys .scoping false x) : Retains Scoped x := by
  intro s hs
  obtain ⟨hrules, hcode⟩ := scoped_iff_carried.mp hs
  obtain ⟨-, hkept, -⟩ := h.run s hrules hcode
  exact scoped_iff_carried.mpr ⟨hkept.frame ▸ hrules, carried_of_kept hkept hcode⟩

theorem retains_true : Retains (fun _ => True) x := fun _ _ => trivial

theorem Yields.anywhere (h : Yields (fun _ => True) Q x) : Yields C Q x :=
  fun s _ => h s trivial

theorem yields_pure {a : α} (h : Q a) : Yields C Q (pure a) := by
  intro s _ b hrun
  cases hrun
  exact h

theorem yields_fail {kind : FailureKind} {message : String} {pos : Option Position} :
    Yields C Q (fail kind message pos) := fun _ _ _ => nofun

theorem Yields.bind {P : β → Prop} {x : Run β} {f : β → Run α} (hkeeps : Retains C x)
    (hx : Yields C P x) (hf : ∀ b, P b → Yields C Q (f b)) : Yields C Q (x >>= f) := by
  intro s hs a hrun
  have hs₁ := hkeeps s hs
  have hb := hx s hs
  rw [run_bind] at hrun
  rcases hxs : x.run s with ⟨e | b, s₁⟩ <;> rw [hxs] at hrun hs₁ hb
  · cases hrun
  · exact hf b (hb b rfl) s₁ hs₁ a hrun

theorem Yields.after {x : Run β} {f : β → Run α} (hkeeps : Retains C x)
    (hf : ∀ b, Yields C Q (f b)) : Yields C Q (x >>= f) :=
  .bind (P := fun _ => True) hkeeps (fun _ _ _ _ => trivial) fun b _ => hf b

theorem settles_normally (act : Run Unit) : Settles C (normally act) :=
  Yields.anywhere (.after retains_true fun _ => yields_pure Flow.settled_normal)

theorem Settles.placing {pos : Position}
    (hC : ∀ s : Session, C s → C { s with position := some pos }) (h : Settles C act) :
    Settles C (placing pos act) := by
  intro s hs flow hrun
  rw [run_placing] at hrun
  split at hrun
  · cases hrun
  · exact h _ (hC s hs) flow hrun

theorem Settles.placed {pos : Position} (h : Settles Scoped act) :
    Settles Scoped (Run.placing pos act) :=
  h.placing fun _ hs => ⟨hs.events, ⟨hs.bodies.functions, hs.bodies.modules, hs.bodies.classes,
    hs.bodies.methods⟩, hs.rules⟩

/-! ### Loops -/

theorem yields_round (act : Run Flow) :
    Yields (fun _ => True) (fun r => ∀ flow ∈ r, flow.Settled) (round act) := by
  refine .after retains_true fun flow => ?_
  cases flow with
  | normal | skip => exact yields_pure nofun
  | leave => exact yields_pure fun _ h => Option.some.inj h ▸ Flow.settled_normal
  | give v => exact yields_pure fun _ h => Option.some.inj h ▸ Flow.settled_give v

theorem settles_next {next : Run Flow} (hnext : Settles (fun _ => True) next) :
    Settles (fun _ => True) (do
      match ← round act with
      | some flow => return flow
      | none => next) := by
  refine .bind retains_true (yields_round act) fun r hr => ?_
  cases r with
  | none => exact hnext
  | some flow => exact yields_pure (hr flow rfl)

theorem settles_times (act : Run Flow) (n : Nat) : Settles (fun _ => True) (times act n) := by
  induction n with
  | zero => exact yields_pure Flow.settled_normal
  | succ n ih => exact settles_next ih

theorem settles_whileLoop (limit : Int) (cond : Run Bool) (act : Run Flow) (n : Nat) :
    Settles (fun _ => True) (whileLoop limit cond act n) := by
  induction n with
  | zero =>
    refine .after retains_true fun holds => ?_
    cases holds with
    | false => exact yields_pure Flow.settled_normal
    | true => exact .after retains_true fun _ => yields_pure Flow.settled_normal
  | succ n ih =>
    refine .after retains_true fun holds => ?_
    cases holds with
    | false => exact yields_pure Flow.settled_normal
    | true => exact settles_next ih

theorem yields_forItems (item : String) (act : Run Flow) (vs : List Value) :
    Yields (fun _ => True) (fun r => ∀ flow ∈ r, flow.Settled) (forItems item act vs) := by
  induction vs with
  | nil => exact yields_pure nofun
  | cons v rest ih =>
    refine .after retains_true fun _ => .bind retains_true (yields_round act) fun r hr => ?_
    cases r with
    | none => exact ih
    | some flow => exact yields_pure hr

theorem settles_loop (L : Linker) {st : Stmt} (hst : st.isLoop = true) :
    Settles (fun _ => True) (exec L st) := by
  cases st with
  | times pos count body =>
    rw [exec]
    exact Settles.placing (fun _ => id) (.after retains_true fun _ => .after retains_true fun _ =>
      settles_times _ _)
  | whileLoop pos cond body =>
    rw [exec]
    exact Settles.placing (fun _ => id) (.after retains_true fun _ => settles_whileLoop _ _ _ _)
  | forEach pos item list body =>
    rw [exec]
    refine Settles.placing (fun _ => id) (.after retains_true fun _ => .after retains_true fun vs =>
      .bind retains_true (yields_forItems item _ vs) fun r hr => ?_)
    cases r with
    | none => exact yields_pure Flow.settled_normal
    | some flow => exact yields_pure (hr flow rfl)
  | reduce pos list total item initial body out =>
    rw [exec]
    refine Settles.placing (fun _ => id) (.after retains_true fun _ => .after retains_true fun _ =>
      .after retains_true fun _ => .after retains_true fun vs => .after retains_true fun r => ?_)
    -- A value that is given back ends the statement, any other end of the loop does not.
    split
    · exact yields_pure (Flow.settled_give _)
    · exact .after retains_true fun _ => .after retains_true fun _ => yields_pure Flow.settled_normal
  | _ => cases hst

theorem settles_handled {handler : Run Flow} {errorName : String}
    [hact : Obeys .scoping false act] (hsettles : Settles Scoped act)
    (hhandler : Settles Scoped handler) : Settles Scoped (handled act errorName handler) := by
  have hattempt : Yields Scoped (fun r => ∀ flow, r = .ok flow → flow.Settled)
      (attempt act) := by
    intro s hs r hrun flow hr
    subst hr
    have hflow := hsettles s hs
    rw [run_attempt] at hrun
    rcases hact : act.run s with ⟨(f | n | d | _) | flow', s₁⟩ <;> rw [hact] at hrun hflow <;>
      cases hrun
    exact hflow flow rfl
  refine Yields.bind (retains_of_alike inferInstance) hattempt fun r hr => ?_
  cases r with
  | ok flow => exact yields_pure (hr flow rfl)
  | error f =>
    -- The handler begins where the body failed, and all events are still closed there.
    exact .after (retains_of_alike inferInstance) fun _ =>
      .after (retains_of_alike inferInstance) fun _ => hhandler

theorem settles_cleaned {cleanup : Run Flow} [hact : Obeys .scoping false act]
    (hsettles : Settles Scoped act) (hcleanup : Settles Scoped cleanup) :
    Settles Scoped (cleaned act cleanup) := by
  intro s hs flow hrun
  have hflow := hsettles s hs
  -- The cleanup begins where the body ended, with a flow or without.
  have hflow' := hcleanup _ (retains_of_alike hact s hs)
  rw [run_cleaned] at hrun
  rcases hc : cleanup.run (act.run s).2 with ⟨e | flow', s₂⟩ <;> rw [hc] at hrun hflow'
  · cases hrun
  · rcases ha : (act.run s).1 with e | flow₁ <;> rw [ha] at hrun hflow
    · cases flow' <;> cases hrun
    · cases flow' with
      | normal => exact hflow flow hrun
      | leave | skip | give v =>
        cases hrun
        exact hflow' _ rfl

/-! ### Statements -/

/-- The linker runs a block that closes its loops to a settled end. -/
class SettlesBlocks (L : Linker) : Prop where
  block {stmts : List Stmt} : Stmt.LoopClosed stmts → Settles Scoped (L.block stmts)

section Statements
variable {L : Linker}

theorem settles_callEvent [hlink : SettlesBlocks L] (id : String) : Settles Scoped (callEvent L id) := by
  intro s hs flow hrun
  rw [callEvent, bind_ok (run_get s)] at hrun
  rcases hevent : s.definedEvents.get? id with _ | stmts <;> simp only [hevent] at hrun
  · exact Yields.after (C := fun _ => True) retains_true
      (fun _ => yields_pure Flow.settled_normal) s trivial flow hrun
  · exact hlink.block (hs.events stmts (Dict.mem_values_of_get? hevent)) s hs flow hrun

theorem settles_command [SettlesBlocks L] (c : Command) (pos : Position) :
    Settles Scoped (c.exec L pos) := by
  cases c with
  | script c =>
    cases c with
    | callEvent id => exact settles_callEvent id
    | raiseError e =>
      exact Yields.anywhere (.after retains_true fun _ => .after retains_true fun _ => yields_fail)
    | _ => exact settles_normally _
  | _ => exact settles_normally _

mutual

theorem settles_exec [SettlesBlocks L] [Linker.Alike .scoping L L] : (st : Stmt) →
    st.closed = true → (∀ part ∈ st.parts, part.Scoped) → Settles Scoped (exec L st)
  | .command _ c, _, _ => by
    rw [exec]
    exact (settles_command c _).placed
  | .awaiting _ _ c, _, _ => by
    rw [exec]
    exact (settles_command c _).placed.placed
  | .awaitValue _ _ _, _, _ => by
    rw [exec]
    exact Settles.placed (Yields.anywhere (.after retains_true fun _ => .after retains_true fun _ =>
      yields_pure Flow.settled_normal))
  | .defineEvent _ _ _, _, _ | .defineFunction _ _ _ _, _, _ | .defineClass _ _ _ _ _, _, _ => by
    rw [exec]
    exact Settles.placed (Yields.anywhere (.after retains_true fun _ =>
      yields_pure Flow.settled_normal))
  | .route _ _ _ _ _, _, _ => by
    rw [exec]
    exact Settles.placed (Yields.anywhere (.after retains_true fun _ => .after retains_true fun _ =>
      .after retains_true fun _ => .after retains_true fun _ => yields_pure Flow.settled_normal))
  | .giveBack _ _, _, _ => by
    rw [exec]
    exact Settles.placed (Yields.anywhere (.after retains_true fun v =>
      yields_pure (Flow.settled_give v)))
  | .breakLoop _, h, _ | .skipRound _, h, _ => nomatch h
  -- Nothing is asked of the body of a loop.
  | .times _ _ _, _, _ | .whileLoop _ _ _, _, _ | .forEach _ _ _ _, _, _
  | .reduce _ _ _ _ _ _ _, _, _ => (settles_loop L rfl).anywhere
  | .choice _ prompt options, h, hscoped => by
    simp only [parts, forall_mem_cons] at hscoped
    rw [exec]
    refine Settles.placed (Yields.after (retains_of_alike inferInstance) fun shown => ?_)
    split
    · exact yields_pure Flow.settled_normal
    · refine Yields.after (retains_of_alike inferInstance) fun index => ?_
      split
      · exact yields_pure Flow.settled_normal
      · exact settles_execOption _ options h hscoped.2
  | .branch _ cond thenBody elseBody, h, hscoped => by
    simp only [closed, and_eq_true] at h
    simp only [parts, forall_mem_cons, forall_mem_append] at hscoped
    rw [exec]
    refine Settles.placed (Yields.after (retains_of_alike inferInstance) fun holds => ?_)
    split
    · exact settles_execBlock thenBody h.1 hscoped.2.1
    · exact settles_execBlock elseBody h.2 hscoped.2.2
  | .attempt _ body errorName handler none, h, hscoped => by
    simp only [closed, and_eq_true] at h
    simp only [parts, forall_mem_cons, forall_mem_append] at hscoped
    have hbody : Obeys .scoping false (execBlock L body) := alike_execBlock body hscoped.2.1
    rw [exec]
    exact (settles_handled (settles_execBlock body h.1 hscoped.2.1)
      (settles_execBlock handler h.2 hscoped.2.2)).placed
  | .attempt _ body errorName handler (some cleanup), h, hscoped => by
    simp only [closed, and_eq_true] at h
    simp only [parts, forall_mem_cons, forall_mem_append] at hscoped
    have hbody : Obeys .scoping false (execBlock L body) := alike_execBlock body hscoped.2.1.1
    have hhandler : Obeys .scoping false (execBlock L handler) :=
      alike_execBlock handler hscoped.2.1.2
    rw [exec]
    exact (settles_cleaned (settles_handled (settles_execBlock body h.1.1 hscoped.2.1.1)
      (settles_execBlock handler h.1.2 hscoped.2.1.2))
      (settles_execBlock cleanup h.2 hscoped.2.2)).placed
  | .cases _ subject arms default, h, hscoped => by
    simp only [closed, and_eq_true] at h
    simp only [parts, forall_mem_cons, forall_mem_append] at hscoped
    have harms (v : Value) : Obeys .scoping false (execArms L v arms) :=
      alike_execArms v arms hscoped.2.1
    rw [exec]
    refine Settles.placed (Yields.after (retains_of_alike inferInstance) fun v =>
      .bind (retains_of_alike inferInstance) (settles_execArms v arms h.1 hscoped.2.1) fun r hr => ?_)
    cases r with
    | none => exact settles_execBlock default h.2 hscoped.2.2
    | some flow => exact yields_pure (hr flow rfl)

theorem settles_execBlock [SettlesBlocks L] [Linker.Alike .scoping L L] : (stmts : List Stmt) →
    blockClosed stmts = true → Stmt.Throughout Stmt.Scoped stmts → Settles Scoped (execBlock L stmts)
  | [], _, _ => by
    rw [execBlock]
    exact yields_pure Flow.settled_normal
  | st :: rest, h, hscoped => by
    simp only [blockClosed, and_eq_true] at h
    simp only [Stmt.Throughout, blockParts, forall_mem_append] at hscoped
    have hst : Obeys .scoping false (exec L st) := alike_exec st hscoped.1
    rw [execBlock]
    -- The next statement finds closed events only, whatever the one before has defined.
    refine Yields.bind (retains_of_alike hst) (settles_exec st h.1 hscoped.1) fun flow hflow => ?_
    cases flow with
    | normal => exact settles_execBlock rest h.2 hscoped.2
    | _ => exact yields_pure hflow

theorem settles_execOption [SettlesBlocks L] [Linker.Alike .scoping L L] : (n : Nat) →
    (options : List (String × List Stmt)) → optionsClosed options = true →
    (∀ part ∈ optionParts options, part.Scoped) →
    Settles Scoped (execOption L n options)
  | _, [], _, _ => by
    rw [execOption]
    exact yields_pure Flow.settled_normal
  | 0, (_, body) :: _, h, hscoped => by
    simp only [optionsClosed, and_eq_true] at h
    simp only [optionParts, forall_mem_append] at hscoped
    rw [execOption]
    exact settles_execBlock body h.1 hscoped.1
  | n + 1, (_, _) :: rest, h, hscoped => by
    simp only [optionsClosed, and_eq_true] at h
    simp only [optionParts, forall_mem_append] at hscoped
    rw [execOption]
    exact settles_execOption n rest h.2 hscoped.2

theorem settles_execArms [SettlesBlocks L] [Linker.Alike .scoping L L] (v : Value) :
    (arms : List (CaseTest × List Stmt)) → armsClosed arms = true →
    (∀ part ∈ armParts arms, part.Scoped) →
    Yields Scoped (fun r => ∀ flow ∈ r, flow.Settled) (execArms L v arms)
  | [], _, _ => by
    rw [execArms]
    exact yields_pure nofun
  | (t, body) :: rest, h, hscoped => by
    simp only [armsClosed, and_eq_true] at h
    simp only [armParts, forall_mem_append] at hscoped
    have hbody : Obeys .scoping false (execBlock L body) := alike_execBlock body hscoped.1
    rw [execArms]
    refine Yields.after (retains_of_alike inferInstance) fun fitting => ?_
    split
    · exact .bind (retains_of_alike hbody) (settles_execBlock body h.1 hscoped.1) fun flow hflow =>
        yields_pure fun _ h => Option.some.inj h ▸ hflow
    · exact settles_execArms v rest h.2 hscoped.2

end
end Statements
end Run

/-! ### Linkers -/

namespace Linker

instance {n : Nat} : Linker.Alike .scoping (ofDepth n) (ofDepth n) := by
  induction n with
  | zero => exact ⟨fun _ _ _ _ _ => ⟨rfl, .refl, False.elim, .refl⟩⟩
  | succ n ih =>
    refine ⟨fun stmts hstmts s hs hcode => ?_⟩
    have hblock : Run.Alike .scoping false (execBlock (ofDepth n) stmts)
        (execBlock (ofDepth n) stmts) := alike_execBlock stmts hstmts
    exact hblock.run s hs hcode

theorem settles_block (n : Nat) {stmts : List Stmt} (h : Stmt.LoopClosed stmts) :
    Settles Scoped ((ofDepth n).block stmts) := by
  induction n generalizing stmts with
  | zero => exact fun _ _ _ => nofun
  | succ n ih =>
    have hlink : SettlesBlocks (ofDepth n) := ⟨ih⟩
    exact settles_execBlock stmts h.closed h.events

end Linker

namespace Run

/-- Break and skip stay inside the block that they are written in: a block that closes its
    loops ends normally or gives a value, and it defines no event that would not. A loop
    never hands them on, whatever its body does. -/
theorem break_and_skip_scoped (n : Nat) :
    (∀ (stmts : List Stmt) (s : Session), Stmt.LoopClosed stmts → s.Scoped →
      (∀ flow, ((execBlock (.ofDepth n) stmts).run s).1 = .ok flow → flow.Settled) ∧
        ((execBlock (.ofDepth n) stmts).run s).2.Scoped) ∧
    ∀ (L : Linker) (st : Stmt) (s : Session), st.isLoop = true →
      ∀ flow, ((exec L st).run s).1 = .ok flow → flow.Settled := by
  refine ⟨fun stmts s hstmts hs => ⟨?_, ?_⟩, fun L st s hst => settles_loop L hst s trivial⟩
  · exact Linker.settles_block (n + 1) hstmts s hs
  · have hblock : Obeys .scoping false (execBlock (.ofDepth n) stmts) :=
      alike_execBlock stmts hstmts.events
    exact retains_of_alike hblock s hs

/-- An event is called whose body leaves a loop of its own and gives a value. -/
theorem break_and_skip_scoped_gate :
    let gate : List Stmt :=
      [.forEach ⟨2, 3⟩ "x" "xs" [.breakLoop ⟨3, 5⟩], .giveBack ⟨5, 3⟩ (.null ⟨5, 10⟩)]
    let stmts : List Stmt := [.command ⟨7, 1⟩ (.script (.callEvent "gate"))]
    let s : Session := {
      bag := (∅ : Dict Value).insert "xs" (.bool true)
      definedEvents := (∅ : Dict (List Stmt)).insert "gate" gate }
    (Stmt.LoopClosed stmts ∧ s.Scoped) ∧
      ((execBlock (.ofDepth 1) stmts).run s).1 = .ok (.give .null) ∧ (Flow.give .null).Settled ∧
      ((execBlock (.ofDepth 1) stmts).run s).2.Scoped := by
  intro gate stmts s
  have hstmts : Stmt.LoopClosed stmts := by decide
  have hs : s.Scoped := by
    refine ⟨?_, ⟨nofun, nofun, nofun, fun _ _ _ h => nomatch h⟩, nofun⟩
    intro body hbody
    obtain rfl := mem_singleton.mp hbody
    decide
  have hrun : ((execBlock (.ofDepth 1) stmts).run s).1 = .ok (.give .null) := by rfl
  obtain ⟨hsettled, hscoped⟩ := (break_and_skip_scoped 1).1 stmts s hstmts hs
  exact ⟨⟨hstmts, hs⟩, hrun, hsettled _ hrun, hscoped⟩

/-- Where the host fires rules, a rule can bring in an event that breaks off the block
    which calls it, although no event, function or method of the session does so. -/
theorem not_settled_of_rule :
    let rule : Rule := ⟨⟨1, 1⟩, .custom ⟨1, 6⟩ "boom",
      [.defineEvent ⟨2, 3⟩ "gate" [.breakLoop ⟨3, 5⟩]], none⟩
    let s : Session := {
      hosts.callbacks.event := true
      hosts.callbacks.fires := true
      eventRules := (∅ : Dict (List Rule)).insert "boom" [rule] }
    let stmts : List Stmt := [.command ⟨1, 1⟩ (.stage (.emit "boom" none)),
      .command ⟨2, 1⟩ (.script (.callEvent "gate"))]
    Stmt.LoopClosed stmts ∧ (∀ body ∈ s.definedEvents.values, Stmt.LoopClosed body) ∧
      s.Bodies Stmt.Scoped ∧ ((execBlock .full stmts).run s).1 = .ok .leave := by
  intro rule s stmts
  have hrun : ((execBlock .full stmts).run s).1 = .ok .leave := by rfl
  exact ⟨by decide, nofun, ⟨nofun, nofun, nofun, fun _ _ _ h => nomatch h⟩, hrun⟩

end Run
end Parlance
