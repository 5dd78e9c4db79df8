import Parlance.Proofs.AlikeScript

/-!
# Statements Go Alike

All statements, by induction on their structure. A loop repeats a body that goes
alike, so it goes alike itself, by induction on the number of its rounds; a cleanup
runs where the body before it ended, however that was.

## Main definitions

* `Run.Placed`: Two statements at one position that go alike once the session is there.
* `Stmt.inner`: The blocks in a statement that run when it does.
* `Stmt.awaited`: The command that a statement waits for.

## Theorems

* `Stmt.blockParts_inner`: The parts of a block in a statement are parts of the statement, and it
  has more.
* `Run.placed_exec`: A statement goes alike where it stands if the blocks in it do.
-/

namespace Parlance
open List
variable {stmts : List Stmt} {options : List (String × List Stmt)}
  {arms : List (CaseTest × List Stmt)}

namespace Run
variable {α : Type} {R : Regime} {whole : Bool} {pos : Position} {act act' : Run Flow} {s : Session}
variable {s' : Session} {cleanup : Run Flow}

/-! ### Statements around statements -/

theorem run_placing (pos : Position) (act : Run Flow) (s : Session) :
    (placing pos act).run s = match act.run { s with position := some pos } with
      | (.error (.failure f), s') => (.error (.failure (f.placed pos)), s')
      | result => result := rfl

theorem run_placing_ok {flow : Flow}
    (h : act.run { s with position := some pos } = (.ok flow, s')) :
    (placing pos act).run s = (.ok flow, s') := by
  rw [run_placing, h]

theorem run_normally_ok {act : Run Unit} (h : act.run s = (.ok (), s')) :
    (normally act).run s = (.ok .normal, s') := by
  rw [normally, bind_ok h]
  rfl

theorem snd_run_placing (pos : Position) (act : Run Flow) (s : Session) :
    ((placing pos act).run s).2 = (act.run { s with position := some pos }).2 := by
  rw [run_placing]
  rcases act.run { s with position := some pos } with ⟨(f | n | d | _) | a, s'⟩ <;> rfl

theorem run_placing_exhausted (h : ((placing pos act).run s).1 = .error .exhausted) :
    (act.run { s with position := some pos }).1 = .error .exhausted := by
  rw [run_placing] at h
  rcases hact : act.run { s with position := some pos } with ⟨(f | n | d | _) | a, s'⟩ <;>
    rw [hact] at h <;> cases h

/-- Two statements at one position that go alike once the session is there. -/
inductive Placed (R : Regime) (whole : Bool) (pos : Position) : Run Flow → Run Flow → Prop
  | placing {act act' : Run Flow} (hact : Alike R whole act act') :
    Placed R whole pos (placing pos act) (placing pos act')

theorem Placed.alike [hfree : R.Free] {st st' : Run Flow} (h : Placed R whole pos st st') :
    Alike R whole st st' where
  run s hhere hcode := by
    obtain ⟨hact⟩ := h
    obtain ⟨hsame, hkept, hends, -⟩ := hact.run { s with position := some pos } hhere
      (hcode.imp (fun h => ⟨h.functions, h.modules, h.classes, h.methods⟩) id)
    refine ⟨?_, ?_, fun he h => hends he (run_placing_exhausted h), .of_block (hfree.moves _ _)⟩
    · rw [run_placing, run_placing, hsame]
    · rw [snd_run_placing]
      exact ⟨hkept.frame, hkept.bag, fun h =>
        hkept.bodies ⟨h.functions, h.modules, h.classes, h.methods⟩, hkept.response, hkept.store,
        hkept.events, hkept.cells⟩

instance {handler handler' : Run Flow} {errorName : String}
    [Alike R false act act'] [Alike R false handler handler'] :
    Alike R false (handled act errorName handler) (handled act' errorName handler') := by
  refine .next fun r => ?_
  cases r <;> infer_instance

theorem run_cleaned (act cleanup : Run Flow) (s : Session) :
    (cleaned act cleanup).run s = match cleanup.run (act.run s).2 with
      | (.error signal, s') => (.error signal, s')
      | (.ok .normal, s') => ((act.run s).1, s')
      | (.ok flow, s') => ((act.run s).1.map fun _ => flow, s') := rfl

theorem snd_run_cleaned (act cleanup : Run Flow) (s : Session) :
    ((cleaned act cleanup).run s).2 = (cleanup.run (act.run s).2).2 := by
  rw [run_cleaned]
  rcases cleanup.run (act.run s).2 with ⟨e | (_ | _ | _ | _), s'⟩ <;> rfl

theorem run_cleaned_exhausted (h : ((cleaned act cleanup).run s).1 = .error .exhausted) :
    (act.run s).1 = .error .exhausted ∨ (cleanup.run (act.run s).2).1 = .error .exhausted := by
  rw [run_cleaned] at h
  rcases hc : cleanup.run (act.run s).2 with ⟨e | flow, s'⟩ <;> rw [hc] at h
  · exact .inr h
  · rcases ha : (act.run s).1 with e | flow' <;> rw [ha] at h
    · cases flow <;> exact .inl h
    · cases flow <;> cases h

instance {cleanup' : Run Flow} [hact : Alike R whole act act']
    [hcleanup : Alike R whole cleanup cleanup'] :
    Alike R whole (cleaned act cleanup) (cleaned act' cleanup') where
  run s hhere hcode := by
    obtain ⟨hsame, hkept, hends, hleads⟩ := hact.run s hhere hcode
    -- The cleanup starts where the body ended, whatever its outcome.
    obtain ⟨hsame', hkept', hends', hleads'⟩ :=
      hcleanup.run (act.run s).2 (hkept.frame ▸ hhere) (carried_of_kept hkept hcode)
    refine ⟨?_, ?_, fun he h => ?_, ?_⟩
    · rw [run_cleaned, run_cleaned, hsame, hsame']
    · rw [snd_run_cleaned]
      exact hkept.trans hkept'
    · exact (run_cleaned_exhausted h).elim (hends he) (hends' he)
    · rw [snd_run_cleaned]
      exact hleads.trans hleads'

/-! ### Loops -/

instance [Alike R whole act act'] : Alike R whole (round act) (round act') := by
  refine .next fun flow => ?_
  cases flow <;> infer_instance

instance [Alike R whole act act'] {n : Nat} : Alike R whole (times act n) (times act' n) := by
  induction n with
  | zero =>
    rw [times, times]
    infer_instance
  | succ n ih =>
    rw [times, times]
    refine .next fun r => ?_
    cases r <;> infer_instance

instance {limit : Int} {cond cond' : Run Bool} [Alike R whole cond cond']
    [Alike R whole act act'] {n : Nat} :
    Alike R whole (whileLoop limit cond act n) (whileLoop limit cond' act' n) := by
  induction n with
  | zero =>
    rw [whileLoop, whileLoop]
    infer_instance
  | succ n ih =>
    rw [whileLoop, whileLoop]
    refine .next fun holds => ?_
    split
    · infer_instance
    · refine .next fun r => ?_
      cases r <;> infer_instance

instance {item : String} [Alike R false act act'] {vs : List Value} :
    Alike R false (forItems item act vs) (forItems item act' vs) := by
  induction vs with
  | nil =>
    rw [forItems, forItems]
    infer_instance
  | cons v rest ih =>
    rw [forItems, forItems]
    refine .next fun _ => .next fun r => ?_
    cases r <;> infer_instance

theorem alike_defineEvent {id : String}
    (h : ∀ part ∈ (Stmt.defineEvent pos id stmts).parts, R.reached part) :
    Obeys R whole (defineEvent id stmts) := by
  have hdefine : Alike R whole
      (modify fun s => { s with definedEvents := s.definedEvents.insert id stmts } : Run Unit)
      (modify fun s => { s with definedEvents := s.definedEvents.insert id stmts }) := by
    refine ⟨fun s _ _ => ⟨rfl, ⟨rfl, fun _ => rfl, fun h => ?_, fun _ => rfl, fun _ _ => rfl,
      fun hevents body hbody => ?_, Nat.le_refl _⟩, fun _ => nofun, .refl⟩⟩
    · exact ⟨h.functions, h.modules, h.classes, h.methods⟩
    · rcases Dict.mem_values_insert hbody with rfl | hbody
      · exact ⟨pos, id, h⟩
      · exact hevents body hbody
  unfold defineEvent
  infer_instance

theorem alike_defineFunction {name : String} {params : List String}
    (hstmts : Stmt.Throughout R.reached stmts) :
    Obeys R whole (defineFunction name params stmts) where
  run s _ _ := by
    refine ⟨rfl, ⟨rfl, fun _ => rfl, fun h => ⟨?_, h.modules, h.classes, h.methods⟩,
      fun _ => rfl, fun _ _ => rfl, id, Nat.le_refl _⟩, fun _ => nofun, .refl⟩
    intro f hf
    rcases Dict.mem_values_insert hf with rfl | hf
    · exact hstmts
    · exact h.functions f hf

end Run

/-! ### Statements -/

theorem Stmt.throughout_of_methodParts {p : Stmt → Prop} {ms : List (Method Stmt)}
    (h : ∀ st ∈ methodParts ms, p st) : ∀ m ∈ ms, Throughout p m.body := by
  induction ms with
  | nil => exact nofun
  | cons m rest ih =>
    simp only [methodParts, forall_mem_append] at h
    intro m' hm
    rcases mem_cons.mp hm with rfl | hm
    · exact h.1
    · exact ih h.2 m' hm

namespace Stmt

/-- The blocks in a statement that run when it does. -/
def inner : Stmt → List (List Stmt)
  | .choice _ _ options => options.map Prod.snd
  | .branch _ _ thenBody elseBody => [thenBody, elseBody]
  | .times _ _ body | .whileLoop _ _ body | .forEach _ _ _ body
  | .reduce _ _ _ _ _ body _ => [body]
  | .attempt _ body _ handler cleanup => body :: handler :: cleanup.toList
  | .cases _ _ arms default => default :: arms.map Prod.snd
  | _ => []

/-- The command that a statement waits for. -/
def awaited : Stmt → List Stmt
  | .awaiting _ pos c => [.command pos c]
  | _ => []

theorem blockParts_sublist_optionParts
    {o : String × List Stmt} (h : o ∈ options) : (blockParts o.2).Sublist (optionParts options) := by
  induction options with
  | nil => cases h
  | cons o' rest ih =>
    rw [optionParts]
    rcases mem_cons.mp h with rfl | h
    · exact sublist_append_left ..
    · exact (ih h).trans (sublist_append_right ..)

theorem blockParts_sublist_armParts
    {a : CaseTest × List Stmt} (h : a ∈ arms) : (blockParts a.2).Sublist (armParts arms) := by
  induction arms with
  | nil => cases h
  | cons a' rest ih =>
    rw [armParts]
    rcases mem_cons.mp h with rfl | h
    · exact sublist_append_left ..
    · exact (ih h).trans (sublist_append_right ..)

/-- The parts of a block in a statement are parts of the statement, and it has more. -/
theorem blockParts_inner {st : Stmt} (h : stmts ∈ st.inner) :
    (st :: blockParts stmts).Sublist st.parts := by
  cases st with
  | choice pos prompt options =>
    obtain ⟨o, ho, rfl⟩ := mem_map.mp h
    exact (blockParts_sublist_optionParts ho).cons_cons _
  | cases pos subject arms default =>
    rcases mem_cons.mp h with rfl | h
    · exact (sublist_append_right ..).cons_cons _
    · obtain ⟨a, ha, rfl⟩ := mem_map.mp h
      exact ((blockParts_sublist_armParts ha).trans (sublist_append_left ..)).cons_cons _
  | branch pos cond thenBody elseBody =>
    rcases mem_cons.mp h with rfl | h
    · exact (sublist_append_left ..).cons_cons _
    · obtain rfl := mem_singleton.mp h
      exact (sublist_append_right ..).cons_cons _
  | times | whileLoop | forEach | reduce =>
    obtain rfl := mem_singleton.mp h
    exact .refl _
  | attempt pos body errorName handler cleanup =>
    cases cleanup <;> simp [inner] at h <;> grind [parts]
  | _ => cases h

end Stmt

variable {R : Regime} [hR : R.Lawful] {whole : Bool} {L L' : Linker} [hL : Linker.Alike R L L']

namespace Run
variable (st : Stmt)

instance {ts : List String} : Alike R whole (interpolateAll L ts) (interpolateAll L' ts) := by
  induction ts <;> rw [interpolateAll, interpolateAll] <;> infer_instance

instance {prompt : String} {labels : List String} :
    Alike R false (choose L prompt labels) (choose L' prompt labels) := by
  have hask (args : List Value) : Alike R false (ask L "show_choice" args)
      (ask L' "show_choice" args) := alike_ask_of (.of_not_mayWrite (by decide)) nofun
  simp (disch := decide) only [choose, direct_eq_directly]
  refine .next fun shown => .next fun question => ?_
  infer_instance

instance {v : Value} {t : CaseTest} : Alike R whole (fits L v t) (fits L' v t) := by
  cases t <;> rw [fits, fits] <;> infer_instance

omit hR hL in
theorem alike_execOption_of
    (h : ∀ o ∈ options, Alike R false (execBlock L o.2) (execBlock L' o.2)) (n : Nat) :
    Alike R false (execOption L n options) (execOption L' n options) := by
  induction options generalizing n with
  | nil =>
    rw [execOption, execOption]
    infer_instance
  | cons o rest ih =>
    have h := forall_mem_cons.mp h
    cases n <;> rw [execOption, execOption]
    · exact h.1
    · exact ih h.2 _

theorem alike_execArms_of
    (h : ∀ a ∈ arms, Alike R false (execBlock L a.2) (execBlock L' a.2)) (v : Value) :
    Alike R false (execArms L v arms) (execArms L' v arms) := by
  induction arms with
  | nil =>
    rw [execArms, execArms]
    infer_instance
  | cons a rest ih =>
    have h := forall_mem_cons.mp h
    have hstmts := h.1
    have hrest := ih h.2
    rw [execArms, execArms]
    infer_instance

/-- A statement goes alike where it stands if the blocks in it do. -/
theorem placed_exec (h : ∀ part ∈ st.parts, R.allowed part)
    (hinner : ∀ stmts ∈ st.inner, Alike R false (execBlock L stmts) (execBlock L' stmts))
    (hawaited : ∀ c ∈ st.awaited, Alike R false (exec L c) (exec L' c)) :
    Placed R false st.position (exec L st) (exec L' st) := by
  have hst := h _ (Stmt.mem_parts_self _)
  cases st with
  | command pos c =>
    have hc : Alike R false (c.exec L pos) (c.exec L' pos) :=
      alike_command (hR.links _ hst) fun k => hR.spares _ k hst
    rw [exec, exec]
    exact .placing hc
  | awaiting pos innerPos c =>
    have hc := hawaited (.command innerPos c) (mem_singleton_self _)
    rw [exec, exec] at hc
    rw [exec, exec]
    exact .placing hc
  | awaitValue | breakLoop | skipRound | giveBack | route =>
    -- The body of a route is reached by a request, which needs an open regime.
    rw [exec, exec]
    exact .placing inferInstance
  | defineEvent pos id stmts =>
    have hdefine : Obeys R false (defineEvent id stmts) :=
      alike_defineEvent fun part hpart => hR.reached _ (h part hpart)
    rw [exec, exec]
    exact .placing inferInstance
  | choice pos prompt options =>
    have hoption (n : Nat) := alike_execOption_of (forall_mem_map.mp hinner) n
    rw [exec, exec]
    exact .placing inferInstance
  | branch pos cond thenBody elseBody =>
    simp only [Stmt.inner, forall_mem_cons] at hinner
    obtain ⟨hthen, helse, -⟩ := hinner
    rw [exec, exec]
    exact .placing inferInstance
  | times | whileLoop | forEach =>
    have hbody := hinner _ (mem_singleton_self _)
    rw [exec, exec]
    exact .placing inferInstance
  | attempt pos body errorName handler cleanup =>
    simp only [Stmt.inner, forall_mem_cons] at hinner
    obtain ⟨hbody, hhandler, hcleanup⟩ := hinner
    cases cleanup with
    | none =>
      rw [exec, exec]
      exact .placing inferInstance
    | some stmts =>
      have hcleanup := hcleanup stmts (mem_singleton_self _)
      rw [exec, exec]
      exact .placing inferInstance
  | cases pos subject arms default =>
    simp only [Stmt.inner, forall_mem_cons] at hinner
    have hdefault := hinner.1
    have harms := alike_execArms_of (forall_mem_map.mp hinner.2)
    rw [exec, exec]
    refine .placing (.next fun v => .next fun r => ?_)
    cases r <;> infer_instance
  | defineFunction pos name params body =>
    simp only [Stmt.parts, forall_mem_cons] at h
    have hdefine : Obeys R false (defineFunction name params body) :=
      alike_defineFunction fun part hpart => hR.reached _ (h.2 part hpart)
    rw [exec, exec]
    exact .placing inferInstance
  | reduce pos list total item initial body out =>
    have hbody := hinner _ (mem_singleton_self _)
    rw [exec, exec]
    refine .placing (.next fun v => .next fun _ => .next fun xs => .next fun vs =>
      .next fun r => ?_)
    split <;> infer_instance
  | defineClass pos name parent properties methods =>
    simp only [Stmt.parts, forall_mem_cons] at h
    have hdefine : Obeys R false (defineClass name parent properties methods) :=
      alike_defineClass (Stmt.throughout_of_methodParts fun part hpart =>
        hR.reached _ (h.2 part hpart))
    rw [exec, exec]
    exact .placing inferInstance

variable [R.Free]

theorem alike_exec_of (h : ∀ part ∈ st.parts, R.allowed part)
    (hinner : ∀ stmts ∈ st.inner, Alike R false (execBlock L stmts) (execBlock L' stmts)) :
    Alike R false (exec L st) (exec L' st) := by
  refine (placed_exec st h hinner fun c hc => ?_).alike
  cases st with
  | awaiting pos innerPos c =>
    -- Waiting for a command links where the command itself does.
    obtain rfl := mem_singleton.mp hc
    have hst := h _ (Stmt.mem_parts_self _)
    have hlinks : (Stmt.command innerPos c).links = true →
        R.Open ∨ (Stmt.command innerPos c).imports = false ∧ R.Follows := by
      have := hR.links _ hst
      cases c <;> exact this
    have hc : Alike R false (c.exec L innerPos) (c.exec L' innerPos) :=
      alike_command hlinks fun k => hR.spares _ k hst
    rw [exec, exec]
    exact (Placed.placing hc).alike
  | _ => cases hc

theorem alike_execBlock (stmts : List Stmt) (h : Stmt.Throughout R.allowed stmts) :
    Alike R false (execBlock L stmts) (execBlock L' stmts) := by
  induction hn : (Stmt.blockParts stmts).length using Nat.strongRecOn generalizing stmts with
  | ind n ih =>
    cases stmts with
    | nil =>
      rw [execBlock, execBlock]
      infer_instance
    | cons st rest =>
      simp only [Stmt.Throughout, Stmt.blockParts, forall_mem_append] at h
      rw [Stmt.blockParts, length_append] at hn
      have hst : Alike R false (exec L st) (exec L' st) := by
        refine alike_exec_of st h.1 fun inner hinner => ?_
        have hsub := Stmt.blockParts_inner hinner
        have hlt : (Stmt.blockParts inner).length < st.parts.length := hsub.length_le
        exact ih _ (by omega) inner (fun part hpart => h.1 part (hsub.subset (.tail _ hpart))) rfl
      have hrest : Alike R false (execBlock L rest) (execBlock L' rest) :=
        ih _ (by have := length_pos_of_mem st.mem_parts_self; omega) rest h.2 rfl
      rw [execBlock, execBlock]
      refine .next fun flow => ?_
      cases flow <;> infer_instance

theorem alike_exec (h : ∀ part ∈ st.parts, R.allowed part) :
    Alike R false (exec L st) (exec L' st) :=
  alike_exec_of st h fun _ hinner => alike_execBlock _ fun part hpart =>
    h part ((Stmt.blockParts_inner hinner).subset (.tail _ hpart))

theorem alike_execArms (v : Value) (arms : List (CaseTest × List Stmt))
    (h : ∀ part ∈ Stmt.armParts arms, R.allowed part) :
    Alike R false (execArms L v arms) (execArms L' v arms) :=
  alike_execArms_of (fun _ ha => alike_execBlock _ fun part hpart =>
    h part ((Stmt.blockParts_sublist_armParts ha).subset hpart)) v

end Run
end Parlance
