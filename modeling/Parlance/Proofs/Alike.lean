import Parlance.Proofs.Quiet

/-!
# Runs that Go Alike

A block that is reached through a name is run by the linker, and a linker follows names to
some depth only. What does a run keep, and does it matter how the linker goes on from where it
is? One relation answers both: two computations, the same but for their linkers, go alike if
they give the same result in the same session, and keep what is to be kept.

`Regime` holds the terms. An open regime allows every statement and may say something about
the frame wherever a block begins; with two linkers that agree only there, running alike says
that blocks begin nowhere else. A closed regime forbids the statements that run an event or a
module, so that every block is one call deeper than the one who makes the call.

## Main definitions

* `Stmt.links`: Whether the statement runs an event or a module, or waits for one.
* `Stmt.imports`: Whether the statement takes in a module, or waits for one.
* `Regime`: The terms under which statements run.
* `Regime.Open`: All statements may be reached, and a block may begin right where a statement
  runs, in a module and in a request.
* `Regime.Follows`: The events are followed, and the body of one may begin right where a statement
  runs.

## Theorems

* `Regime.Open.arms`: Where everything is open, all arms are.
* `Regime.Carried.imp`: What is carried stays so if the change keeps the bodies and the events.
* `Run.Alike.bind`: Two sequences of computations that are alike step by step are alike.
* `Run.Alike.next`: The first step is found by inference; what follows it is given.
-/

namespace Parlance

def ScriptCommand.links : ScriptCommand → Bool
  | .callEvent _ | .importModule _ _ | .importNames _ _ => true
  | _ => false

/-- Whether the statement runs an event or a module, or waits for one. -/
def Stmt.links : Stmt → Bool
  | .command _ (.script c) | .awaiting _ _ (.script c) => c.links
  | _ => false

def ScriptCommand.imports : ScriptCommand → Bool
  | .importModule _ _ | .importNames _ _ => true
  | _ => false

/-- Whether the statement takes in a module, or waits for one. -/
def Stmt.imports : Stmt → Bool
  | .command _ (.script c) | .awaiting _ _ (.script c) => c.imports
  | _ => false

/-- The terms under which statements run. -/
structure Regime where
  /-- The statements that may run. -/
  allowed : Stmt → Prop
  /-- The statements that may stand in a block that is reached by a name. -/
  reached : Stmt → Prop
  /-- What holds of the frame where a statement runs. -/
  here : Session.Frame → Prop
  /-- What holds of the frame where a block begins that is reached by a name. -/
  inside : Session.Frame → Prop
  /-- Whether no run may be cut off. -/
  ends : Prop
  /-- The slots of the store that nothing writes to. -/
  spared : Slot → Prop
  /-- Whether the statements that defined the events are among those that may be
      reached. -/
  followed : Bool := false
  /-- What a block may do to the mark of a session. -/
  moves : Session.Mark → Session.Mark → Prop := fun _ _ => True

namespace Regime

/-- All statements may be reached, and a block may begin right where a statement
    runs, in a module and in a request. -/
structure Open (R : Regime) : Prop where
  reached : ∀ st, R.reached st
  inside : ∀ f, R.here f → R.inside f
  module : ∀ s file isolated, R.here s.frame → R.inside (Session.enterModule s file isolated).frame
  request : ∀ (s : Session) (r : Option Response), R.here s.frame →
    R.here { s with inRequest := true, response := r }.frame

/-- The events are followed, and the body of one may begin right where a statement
    runs. -/
structure Follows (R : Regime) : Prop where
  followed : R.followed = true
  inside : ∀ f, R.here f → R.inside f

/-- The rules may be reached, and the body of one may begin right where a statement
    runs. -/
structure Arms (R : Regime) (f : Session.Frame) : Prop where
  inside : R.inside f
  rules : ∀ rs ∈ f.eventRules.values, ∀ r ∈ rs, Stmt.Throughout R.reached r.body

/-- Where everything is open, all arms are. -/
theorem Open.arms {R : Regime} (ho : R.Open) {f : Session.Frame} (hf : R.here f) : R.Arms f :=
  ⟨ho.inside f hf, fun _ _ _ _ st _ => ho.reached st⟩

/-- A call leads inside. A regime in which a module may be taken in is open, and one in
    which events may be called is open or follows them. No statement that may run writes to
    a slot that is spared. -/
class Lawful (R : Regime) : Prop where
  call : ∀ s : Session, R.here s.frame → s.depth < Run.maxDepth → R.inside s.enter.frame
  fires : ∀ f, R.here f → f.callbacks.fires = true → R.Arms f
  links : ∀ st, R.allowed st → st.links = true → R.Open ∨ st.imports = false ∧ R.Follows
  reached : ∀ st, R.allowed st → R.reached st
  spares : ∀ st k, R.allowed st → R.spared k → st.writes k = false

/-- A block may do anything to the mark of a session. -/
class Free (R : Regime) : Prop where
  moves : ∀ m m', R.moves m m'

/-- What is known of the code in a session: the bodies that a call can reach, and the
    events where they are followed. -/
def Carried (R : Regime) (s : Session) : Prop :=
  match R.followed with
  | false => s.Bodies R.reached
  | true => s.Bodies R.reached ∧ s.Events R.reached

namespace Carried
variable {R : Regime} {s s' : Session}

theorem of_forall (h : ∀ st, R.reached st) (s : Session) : R.Carried s := by
  unfold Carried
  split
  · exact .of_forall h s
  · exact ⟨.of_forall h s, .of_forall h s⟩

theorem bodies (h : R.Carried s) : s.Bodies R.reached := by
  unfold Carried at h
  split at h
  · exact h
  · exact h.1

theorem events (h : R.Carried s) (hR : R.followed = true) : s.Events R.reached := by
  unfold Carried at h
  rw [hR] at h
  exact h.2

/-- What is carried stays so if the change keeps the bodies and the events. -/
theorem imp (h : R.Carried s) (hbodies : s.Bodies R.reached → s'.Bodies R.reached)
    (hevents : s.Events R.reached → s'.Events R.reached) : R.Carried s' := by
  unfold Carried at h ⊢
  split at h
  · exact hbodies h
  · exact ⟨hbodies h.1, hevents h.2⟩

end Carried
end Regime

namespace Run
variable {α β : Type} {R : Regime} {whole : Bool} {a x x' : Run α} {s : Session} {f f' : α → Run β}

/-- From this session on, the two computations do the same, what is asked for is
    kept, and a cut is excluded where the regime says so. -/
structure AlikeAt (R : Regime) (whole : Bool) (a a' : Run α) (s : Session) : Prop where
  same : a'.run s = a.run s
  kept : s.Kept R.reached R.spared whole (a.run s).2
  ends : R.ends → (a.run s).1 ≠ .error .exhausted
  leads : s.mark.Leads R.moves (a.run s).2.mark

/-- Wherever the regime lets a statement run, the two computations do the same
    and keep what is asked for. -/
class Alike (R : Regime) (whole : Bool) (a a' : Run α) : Prop where
  run : ∀ s : Session, R.here s.frame → R.Carried s → AlikeAt R whole a a' s

abbrev Obeys (R : Regime) (whole : Bool) (x : Run α) : Prop := Alike R whole x x

theorem Alike.forget {a' : Run α} (h : Alike R whole a a') : Alike R false a a' where
  run s hhere hcode :=
    have ⟨hsame, hkept, hends, hleads⟩ := h.run s hhere hcode
    ⟨hsame, ⟨hkept.frame, nofun, hkept.bodies, hkept.response, hkept.store, hkept.events,
      hkept.cells⟩, hends, hleads⟩

theorem alikeAt_here {P : Session.Frame → Prop} {a' : Run α} :
    AlikeAt { R with here := P } whole a a' s ↔ AlikeAt R whole a a' s :=
  ⟨fun h => ⟨h.same, h.kept, h.ends, h.leads⟩, fun h => ⟨h.same, h.kept, h.ends, h.leads⟩⟩

theorem carried_of_kept {s' : Session} (h : s.Kept R.reached R.spared whole s')
    (hcode : R.Carried s) : R.Carried s' := hcode.imp h.bodies h.events

/-! ### Sequences -/

theorem AlikeAt.bind {x x' : Run α} {f f' : α → Run β} {s : Session} (hx : AlikeAt R whole x x' s)
    (hf : ∀ a s', s.Kept R.reached R.spared whole s' → x.run s = (.ok a, s') →
      AlikeAt R whole (f a) (f' a) s') : AlikeAt R whole (x >>= f) (x' >>= f') s := by
  obtain ⟨hsame, hkept, hends, hleads⟩ := hx
  -- An outcome that is no value ends both sequences where they are. With a value, the
  -- next two start from the one session that both have left.
  rcases hrun : x.run s with ⟨e | a, s'⟩ <;>
    rw [hrun] at hsame hkept hends hleads
  · refine ⟨?_, ?_, fun he => ?_, ?_⟩
    · rw [bind_error hsame, bind_error hrun]
    · rw [bind_error hrun]
      exact hkept
    · rw [bind_error hrun]
      exact fun h => hends he (congrArg Except.error (Except.error.inj h))
    · rw [bind_error hrun]
      exact hleads
  · have hnext := hf a s' hkept hrun
    refine ⟨?_, ?_, fun he => ?_, ?_⟩
    · rw [bind_ok hsame, bind_ok hrun]
      exact hnext.same
    · rw [bind_ok hrun]
      exact hkept.trans hnext.kept
    · rw [bind_ok hrun]
      exact hnext.ends he
    · rw [bind_ok hrun]
      exact hleads.trans hnext.leads

theorem AlikeAt.of_quiet (h : Quiet a) : AlikeAt R whole a a s :=
  ⟨rfl, (h.kept _ _ s).of_whole, fun _ => h.ends s, (h.told s).leads⟩

instance (priority := low) alike_of_quiet [h : Quiet a] : Obeys R whole a where
  run _ _ _ := .of_quiet h

/-- Two sequences of computations that are alike step by step are alike. -/
theorem Alike.bind (hx : Alike R whole x x') (hf : ∀ a, Alike R whole (f a) (f' a)) :
    Alike R whole (x >>= f) (x' >>= f') where
  run s hhere hcode := (hx.run s hhere hcode).bind fun a s' hkept _ =>
    (hf a).run s' (hkept.frame ▸ hhere) (carried_of_kept hkept hcode)

/-- The first step is found by inference; what follows it is given. -/
theorem Alike.next [hx : Alike R whole x x'] (hf : ∀ a, Alike R whole (f a) (f' a)) :
    Alike R whole (x >>= f) (x' >>= f') := hx.bind hf

instance alike_bind [hx : Alike R whole x x'] [hf : ∀ a, Alike R whole (f a) (f' a)] :
    Alike R whole (x >>= f) (x' >>= f') := hx.bind hf

theorem Alike.bind_get {f f' : Session → Run β}
    (hf : ∀ s : Session, R.here s.frame → R.Carried s → AlikeAt R whole (f s) (f' s) s) :
    Alike R whole (get >>= f) (get >>= f') where
  run s hhere hcode := by
    refine (AlikeAt.of_quiet within_get).bind fun a s' _ hrun => ?_
    rw [run_get] at hrun
    cases hrun
    exact hf s hhere hcode

instance {p : Prop} [Decidable p] {y y' : Run α} [hx : Alike R whole x x']
    [hy : Alike R whole y y'] : Alike R whole (if p then x else y) (if p then x' else y') := by
  by_cases h : p
  · rw [if_pos h, if_pos h]
    exact hx
  · rw [if_neg h, if_neg h]
    exact hy

instance [hx : Alike R whole x x'] : Alike R whole (attempt x) (attempt x') where
  run s hhere hcode := by
    obtain ⟨hsame, hkept, hends, hleads⟩ := hx.run s hhere hcode
    refine ⟨?_, ?_, fun he h => hends he (run_attempt_exhausted h), ?_⟩
    · rw [run_attempt, run_attempt, hsame]
    · rw [snd_run_attempt]
      exact hkept
    · rw [snd_run_attempt]
      exact hleads

theorem AlikeAt.within {inner : Bool} {x x' : Run α} {k k' : α → Run β}
    {enter leave : Session → Session} {s : Session} (hx : AlikeAt R inner x x' (enter s))
    (hleave : ∀ s', (enter s).Kept R.reached R.spared inner s' →
      s.Kept R.reached R.spared whole (leave s'))
    (henter : (enter s).mark = s.mark) (hmark : ∀ s', (leave s').mark = s'.mark)
    (hk : ∀ a s', s.Kept R.reached R.spared whole s' → AlikeAt R whole (k a) (k' a) s') :
    AlikeAt R whole (modify enter >>= fun _ => ensure x leave >>= k)
      (modify enter >>= fun _ => ensure x' leave >>= k') s := by
  -- What is undone at the end is undone however the computation ends.
  have hin : AlikeAt R whole (modify enter >>= fun _ => ensure x leave)
      (modify enter >>= fun _ => ensure x' leave) s := by
    refine ⟨?_, ?_, fun he => ?_, ?_⟩
    · rw [bind_ok (run_modify _ s), bind_ok (run_modify _ s), run_ensure, run_ensure, hx.same]
    · rw [bind_ok (run_modify _ s), run_ensure]
      exact hleave _ hx.kept
    · rw [bind_ok (run_modify _ s), run_ensure]
      exact hx.ends he
    · rw [bind_ok (run_modify _ s), run_ensure, hmark, ← henter]
      exact hx.leads
  simpa only [bind_assoc] using hin.bind fun a s' hkept _ => hk a s' hkept

/-! ### Variables -/

theorem alike_modifyBag {f : Session → Dict Value} :
    Alike R false (modify fun s => { s with bag := f s } : Run Unit)
      (modify fun s => { s with bag := f s }) where
  run _ _ _ := ⟨rfl, ⟨rfl, nofun, fun h => ⟨h.functions, h.modules, h.classes, h.methods⟩,
    fun _ => rfl, fun _ _ => rfl, id, Nat.le_refl _⟩, fun _ => nofun, .refl⟩

instance {name : String} {v : Value} : Obeys R false (setVar name v) := alike_modifyBag

instance {out : Option String} {v : Value} : Obeys R false (setOut out v) := by
  unfold setOut
  cases out <;> infer_instance

instance {f : Failure} {out : Option String} {fallback : Value} :
    Obeys R false (hostFailure f out fallback) := by
  unfold hostFailure
  cases out <;> infer_instance

end Run

class Linker.Alike (R : Regime) (L L' : Linker) : Prop where
  block : ∀ stmts, Stmt.Throughout R.reached stmts → ∀ s : Session, R.inside s.frame →
    R.Carried s → Run.AlikeAt R false (L.block stmts) (L'.block stmts) s

end Parlance
