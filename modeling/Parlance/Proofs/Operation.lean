import Parlance.Engine.Rules
import Parlance.Proofs.Watch

/-!
# Operations on a Session

What the owner of a session asks of it: to take in a script or a scene, to take out rules, to run
the statements outside of rules, to fire a key, to poll the rules that wait for a condition, to
answer a request.

An operation may put in and take out rules before it runs anything; `Session.Operation.settled` is
the session with this done.

## Main definitions

* `Session.Operation`: What the owner of a session asks of it.
* `Session.changedBy`: What there is, changed by what a script holds.
* `Session.Operation.settled`: The session with the rules changed as an operation asks.

## Theorems

* `Run.run_read`: Reading a source leaves the frame of the session as it is.
* `Run.run_removeRules`: Removing rules tells how many there were.
* `Session.Operation.within_run`: What holds of the frame at the start of an operation holds all
  along.
* `Session.Operation.frame_after`: After an operation the frame is the one that it has settled.
-/

namespace Parlance
open Run

namespace Session

/-- What the owner of a session asks of it. -/
inductive Operation where
  | load (source : String)
  | loadScene (source : String)
  | unloadScene
  | removeRules (tag : Option String)
  | main
  | trigger (key : String)
  | tick
  | request (value : Value)

namespace Operation

def run (L : Linker) : Operation → Run Unit
  | .load source => do let _ ← Run.load L source
  | .loadScene source => do let _ ← Run.loadScene L source
  | .unloadScene => do let _ ← Run.unloadScene
  | .removeRules tag => do let _ ← Run.removeRules tag
  | .main => do let _ ← runMain L
  | .trigger key => do let _ ← Run.trigger L key
  | .tick => do let _ ← Run.tick L
  | .request value => do let _ ← handleRequest L value

def after (L : Linker) (s : Session) (op : Operation) : Session := ((op.run L).run s).2

def afterAll (L : Linker) (s : Session) (ops : List Operation) : Session := ops.foldl (after L) s

end Operation

def addScene (s : Session) (p : Program) : Session :=
  p.rules.foldl (fun s r => s.addRule { r with tag := some sceneTag }) s

/-- What there is, changed by what a script holds. A script that cannot be read
    changes nothing. -/
def changedBy {α : Type} (there : α) (change : Program → α) : Except Defect Program → α
  | .ok p => change p
  | .error _ => there

/-- The session with the rules changed as an operation asks. -/
def Operation.settled (s : Session) : Operation → Session
  | .load source => changedBy s s.setProgram (Program.ofSource source).program
  | .loadScene source =>
    changedBy s (s.removeRules (some sceneTag)).addScene (Program.ofSource source).program
  | .unloadScene => s.removeRules (some sceneTag)
  | .removeRules tag => s.removeRules tag
  | _ => s

/-! ### Rules and the frame -/

section Rules
variable {s s' : Session} (h : s.frame = s'.frame)

include h

theorem frame_addRule (r : Rule) : (s.addRule r).frame = (s'.addRule r).frame := by
  simp only [frame, Frame.mk.injEq] at h
  unfold addRule
  split <;> simp only [frame, h]

theorem frame_foldl_addRule (f : Rule → Rule) (rs : List Rule) :
    (rs.foldl (fun s r => s.addRule (f r)) s).frame =
      (rs.foldl (fun s r => s.addRule (f r)) s').frame := by
  induction rs generalizing s s' with
  | nil => exact h
  | cons r rest ih => exact ih (frame_addRule h (f r))

theorem frame_setProgram (p : Program) : (s.setProgram p).frame = (s'.setProgram p).frame := by
  refine frame_foldl_addRule ?_ id p.rules
  simp only [frame, Frame.mk.injEq] at h ⊢
  simp only [h, and_self]

theorem frame_removeRules (tag : Option String) :
    (s.removeRules tag).frame = (s'.removeRules tag).frame := by
  simp only [frame, Frame.mk.injEq] at h
  simp only [removeRules, frame, h]

theorem frame_addScene (p : Program) : ((s.removeRules (some sceneTag)).addScene p).frame =
      ((s'.removeRules (some sceneTag)).addScene p).frame :=
  frame_foldl_addRule (frame_removeRules h _) _ p.rules

end Rules
end Session

/-! ### Operations go alike -/

namespace Run
variable {R : Regime} [hR : R.Lawful] {L L' : Linker} [hL : Linker.Alike R L L']

theorem run_noteFaults (faults : List Fault) (s : Session) :
    ((noteFaults faults).run s).1 = .ok () := by
  unfold noteFaults
  simp only [bind_pure_unit]
  induction faults generalizing s with
  | nil => rfl
  | cons f rest ih =>
    rw [List.forIn_cons]
    exact ih _

/-- Reading a source leaves the frame of the session as it is. -/
theorem run_read (source : String) (s : Session) :
    ∃ s₁, s₁.frame = s.frame ∧ (read source).run s =
      (match (Program.ofSource source).program with
        | .ok p => .ok p
        | .error d => .error (.defect d), s₁) := by
  unfold read
  -- What the text is read as does not depend on the session.
  generalize Program.ofSource source = reading
  have hquiet : Quiet (noteFaults reading.faults) := inferInstance
  have hnote := run_noteFaults reading.faults s
  have hkept := hquiet.kept (fun _ => True) (fun _ => False) s
  rcases hrun : (noteFaults reading.faults).run s with ⟨result, s'⟩
  rw [hrun] at hnote hkept
  cases hnote
  rw [bind_ok hrun]
  cases reading.program with
  | error d => exact ⟨s', hkept.frame, rfl⟩
  | ok p =>
    refine ⟨_, ?_, rfl⟩
    exact hkept.frame

omit hR in
theorem alike_runMain (ho : R.Open) : Alike R false (runMain L) (runMain L') := by
  refine .next fun s => ?_
  rcases s.program with _ | p
  · infer_instance
  · have hbody : Alike R false (body L p.main) (body L' p.main) := alike_body ho
    infer_instance

instance {e : Event} : Alike R false (holds L e) (holds L' e) := by
  unfold holds
  split <;> infer_instance

theorem alike_poll (ho : R.Open) {r : Rule} : Alike R false (poll L r) (poll L' r) := by
  have hbody : Alike R false (body L r.body) (body L' r.body) := alike_body ho
  refine .next fun result => ?_
  rcases result with f | _ | _ <;> infer_instance

theorem alike_pollAll (ho : R.Open) {rs : List Rule} :
    Alike R false (pollAll L rs) (pollAll L' rs) := by
  induction rs with
  | nil =>
    rw [pollAll, pollAll]
    infer_instance
  | cons r rest ih =>
    have hpoll : Alike R false (poll L r) (poll L' r) := alike_poll ho
    rw [pollAll, pollAll]
    infer_instance

theorem alike_tick (ho : R.Open) : Alike R false (tick L) (tick L') := by
  have hpoll {rs : List Rule} : Alike R false (pollAll L rs) (pollAll L' rs) := alike_pollAll ho
  unfold tick
  infer_instance

omit hR in
theorem alike_follow (ho : R.Open) {route : Route} {request : Value} :
    Alike R false (follow L route request) (follow L' route request) := by
  refine Alike.bind_get fun s hhere hbodies => ?_
  have hbody : Alike R false (body L route.body) (body L' route.body) := alike_body ho
  have hinner : Alike R false
      (do
        setVar route.request request
        let err ← body L route.body
        return (err, (← get).response))
      (do
        setVar route.request request
        let err ← body L' route.body
        return (err, (← get).response)) := inferInstance
  -- The flag and the response are set before the body runs, and put back after it.
  have hrun := hinner.run { s with inRequest := true, response := none } (ho.request s none hhere)
    (.of_forall ho.reached _)
  refine hrun.within (fun s' h => ⟨?_, fun h => absurd h Bool.false_ne_true,
    fun _ => .of_forall ho.reached _, fun _ => rfl, h.store, h.events, h.cells⟩) rfl
    (fun _ => rfl) fun result _ _ => ?_
  · have hframe := h.frame
    simp only [Session.frame, Session.Frame.mk.injEq] at hframe ⊢
    obtain ⟨hsnapshots, hdepth, himporting, -, hrest⟩ := hframe
    exact ⟨hsnapshots, hdepth, himporting, trivial, hrest⟩
  · rcases result with ⟨_ | f, _ | r⟩ <;> exact .of_quiet inferInstance

omit hR in
theorem alike_handleRequest (ho : R.Open) {request : Value} :
    Alike R false (handleRequest L request) (handleRequest L' request) := by
  have hfollow {route : Route} : Alike R false (follow L route request) (follow L' route request) :=
    alike_follow ho
  refine Alike.bind ?method fun method => Alike.bind ?path fun path =>
    .next fun s => ?_
  -- A request that is no object has neither a method nor a path.
  case method | path => cases request <;> infer_instance
  cases routeFor? s (Text.upper method) path <;> infer_instance

/-- Removing rules tells how many there were. -/
theorem run_removeRules (tag : Option String) (s : Session) : (removeRules tag).run s =
      (.ok (s.ruleCount - (s.removeRules tag).ruleCount), s.removeRules tag) := rfl

end Run

namespace Session.Operation
variable {P : Frame → Prop} [hP : Regime.Watchable P] {L L' : Linker}
  [hL : Linker.Alike (.watching P) L L'] {s : Session}

theorem alike_run (op : Operation) (hs : P (op.settled s).frame) :
    (op.run L').run s = (op.run L).run s ∧ (op.after L s).frame = (op.settled s).frame := by
  have ho : (Regime.watching P).Open := Regime.open_watching
  cases op with
  | load source =>
    obtain ⟨s₁, hframe, hread⟩ := run_read source s
    -- Reading notes faults but keeps the frame, and the frame holds all rules.
    simp only [after, run, Run.load, settled, bind_assoc] at hs ⊢
    generalize (Program.ofSource source).program = program at hread hs ⊢
    rcases program with d | p <;> simp only [changedBy] at hs ⊢
    · rw [bind_error hread, bind_error hread]
      exact ⟨rfl, hframe⟩
    · rw [← frame_setProgram hframe p] at hs ⊢
      have hmain : Alike (.watching P) false (runMain L) (runMain L') := alike_runMain ho
      rw [bind_ok hread, bind_ok hread, bind_ok (run_modify _ s₁), bind_ok (run_modify _ s₁)]
      exact (Alike.next fun _ => inferInstance).same_frame hs
  | loadScene source =>
    obtain ⟨s₁, hframe, hread⟩ := run_read source s
    simp only [after, run, Run.loadScene, Run.unloadScene, settled, bind_assoc] at hs ⊢
    generalize (Program.ofSource source).program = program at hread hs ⊢
    rcases program with d | p <;> simp only [changedBy] at hs ⊢
    · rw [bind_error hread, bind_error hread]
      exact ⟨rfl, hframe⟩
    · rw [← frame_addScene hframe p] at hs ⊢
      have hbody : Alike (.watching P) false (body L p.main) (body L' p.main) := alike_body ho
      rw [bind_ok hread, bind_ok hread, bind_ok (run_removeRules _ s₁),
        bind_ok (run_removeRules _ s₁), bind_ok (run_modify _ (s₁.removeRules _)),
        bind_ok (run_modify _ (s₁.removeRules _))]
      exact (Alike.next fun _ => inferInstance).same_frame hs
  | unloadScene => exact ⟨rfl, rfl⟩
  | removeRules tag => exact ⟨rfl, rfl⟩
  | main => exact ((alike_runMain ho).bind fun _ => inferInstance).same_frame hs
  | trigger key => exact ((alike_trigger ho).bind fun _ => inferInstance).same_frame hs
  | tick => exact ((alike_tick ho).bind fun _ => inferInstance).same_frame hs
  | request value => exact ((alike_handleRequest ho).bind fun _ => inferInstance).same_frame hs

omit hL in
/-- What holds of the frame at the start of an operation holds all along. -/
theorem within_run (n : Nat) (op : Operation) (hs : P (op.settled s).frame) :
    Linker.Within P n op.run s := by
  intro L hL
  have := Linker.alike_agreesWhere hL
  exact (alike_run op hs).1

/-- After an operation the frame is the one that it has settled. -/
theorem frame_after (n : Nat) (op : Operation) (s : Session) :
    (op.after (.ofDepth n) s).frame = (op.settled s).frame := by
  have hrun : (op.run (.ofDepth n)).run s = (op.run (.ofDepth n)).run s ∧
      (op.after (.ofDepth n) s).frame = (op.settled s).frame :=
    alike_run (P := fun _ => True) op trivial
  exact hrun.2

end Session.Operation
end Parlance
