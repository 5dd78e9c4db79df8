import Parlance.Proofs.AlikeCommand

/-!
# Classes, Modules and Calls Go Alike

The commands that reach what scripts define. Classes and bound methods hold
bodies, so a statement that makes one has to pass the property of its bodies on:
from the class to its child, from the class to the methods of an object, and from
there to the call.

## Theorems

* `Session.Kept.exitModule`: The session after a module has the frame from before, if the module
  kept its own and its file was not under way; and the bag, where the module ran on a copy.
* `Run.alike_importModule`: Importing a module runs the same code under both linkers.
* `alike_command`: Every command is alike under two linkers that are, with what it takes for
  commands that follow names.
-/

namespace Parlance
open List Stmt ClassDef Dict
variable {R : Regime} [hR : R.Lawful] {whole : Bool} {L L' : Linker} [hL : Linker.Alike R L L']
variable {p : Stmt → Prop} {s s' : Session} {pos : Position}

namespace Run
variable {α β : Type} {name file : String} {args : List Value} {parent : Option String}
  {properties : List String} {ms : List (Method Stmt)}
variable {c : ClassDef} {faults : List Fault}

theorem Alike.bind_of {R : Regime} {x x' : Run α} {f f' : α → Run β} (Q : α → Prop)
    (hx : Alike R whole x x') (hQ : ∀ s a s', s.Bodies R.reached → x.run s = (.ok a, s') → Q a)
    (hf : ∀ a, Q a → Alike R whole (f a) (f' a)) : Alike R whole (x >>= f) (x' >>= f') where
  run s hhere hcode := (hx.run s hhere hcode).bind fun a s' hkept hrun =>
    (hf a (hQ s a s' hcode.bodies hrun)).run s' (hkept.frame ▸ hhere) (carried_of_kept hkept hcode)

/-! ### Classes -/

instance : Quiet (classBase name parent) := by
  cases parent with
  | none => exact within_pure
  | some parent =>
    rw [classBase]
    split
    · infer_instance
    · refine .next fun s => ?_
      split <;> infer_instance

theorem throughout_classBase
    (hbodies : s.Bodies p) (h : (classBase name parent).run s = (.ok c, s')) :
    ∀ m ∈ c.allMethods, Throughout p m.body := by
  have hbare : ∀ m ∈ (bare name).allMethods, Throughout p m.body := nofun
  cases parent with
  | none =>
    cases h
    exact hbare
  | some parent =>
    rw [classBase] at h
    split at h
    · cases h
      exact hbare
    · rw [bind_ok (run_get s)] at h
      split at h
      · cases h
        exact hbare
      case h_2 base hbase =>
        cases h
        exact hbodies.classes base (mem_values_of_get? hbase)

theorem mem_allMethods_extend {m : Method Stmt}
    (h : m ∈ (c.extend properties ms).allMethods) : m ∈ c.allMethods ∨ m ∈ ms := by
  suffices hadd : ∀ (ms : List (Method Stmt)) (d : ClassDef),
      m ∈ (ms.foldl addMethod d).allMethods → m ∈ d.allMethods ∨ m ∈ ms from
    hadd ms { c with properties := properties.foldl addName c.properties } h
  intro ms
  induction ms with
  | nil => exact fun _ h => .inl h
  | cons m' rest ih =>
    intro d h
    rcases ih _ h with h | h
    · unfold addMethod at h
      -- The maker is kept apart from the other methods.
      split at h
      · simp only [allMethods, Option.toList_some, mem_append,
          mem_singleton] at h
        rcases h with h | rfl
        · exact .inl (mem_append_left _ h)
        · exact .inr mem_cons_self
      · simp only [allMethods, mem_append] at h
        rcases h with h | h
        · rcases mem_values_insert h with rfl | h
          · exact .inr mem_cons_self
          · exact .inl (mem_append_left _ h)
        · exact .inl (mem_append_right _ h)
    · exact .inr (mem_cons_of_mem _ h)

omit hR in
theorem alike_defineClass (hms : ∀ m ∈ ms, Throughout R.reached m.body) :
    Obeys R whole (defineClass name parent properties ms) := by
  refine Alike.bind_of (fun c => ∀ m ∈ c.allMethods, Throughout R.reached m.body)
    inferInstance (fun s c s' => throughout_classBase) fun c hc => ⟨fun s _ _ => ?_⟩
  -- The class is the one new entry. Its bodies are its own and those it starts with.
  refine ⟨rfl, ⟨rfl, fun _ => rfl, fun h => ⟨h.functions, h.modules, ?_, h.methods⟩,
    fun _ => rfl, fun _ _ => rfl, id, Nat.le_refl _⟩, fun _ => nofun, .refl⟩
  intro d hd m hm
  rcases mem_values_insert hd with rfl | hd
  · exact (mem_allMethods_extend hm).elim (hc m) (hms m)
  · exact h.classes d hd m hm

omit hR in
theorem alike_bindMethods {r : Ref} (hms : ∀ m ∈ ms, Throughout R.reached m.body) :
    Obeys R whole (bindMethods r ms) := by
  induction ms with
  | nil =>
    rw [bindMethods]
    infer_instance
  | cons m rest ih =>
    have halloc : Alike R whole
        (modifyGet fun s => ((s.heap.alloc (.method r m)).1,
          { s with heap := (s.heap.alloc (.method r m)).2 }) : Run Ref)
        (modifyGet fun s => ((s.heap.alloc (.method r m)).1,
          { s with heap := (s.heap.alloc (.method r m)).2 })) := by
      refine ⟨fun s _ _ => ⟨rfl, ⟨rfl, fun _ => rfl, fun h => ?_, fun _ => rfl, fun _ _ => rfl,
        id, s.heap.size_le_alloc _⟩, fun _ => nofun, .refl⟩⟩
      refine ⟨h.functions, h.modules, h.classes, h.methods.alloc fun owner m' hm => ?_⟩
      cases hm
      exact hms m mem_cons_self
    have hrest := ih fun m' hm => hms m' (mem_cons_of_mem _ hm)
    rw [bindMethods]
    exact halloc.bind fun _ => inferInstance

instance : Alike R whole (instantiate L name args) (instantiate L' name args) := by
  refine Alike.bind_get fun s hhere hcode => ?_
  rcases hc : s.classes.get? name with _ | c
  · exact .of_quiet inferInstance
  · have hms := hcode.bodies.classes c (mem_values_of_get? hc)
    have hmethods {r : Ref} : Obeys R whole (bindMethods r c.methods.values) :=
      alike_bindMethods fun m hm => hms m (mem_append_left _ hm)
    refine (Alike.next fun v => ?_).run s hhere hcode
    cases v with
    | object r =>
      rcases hm : c.maker with _ | m
      · infer_instance
      · have hinvoke : Alike R whole (invoke L m.params m.body args (some (.object r)))
            (invoke L' m.params m.body args (some (.object r))) :=
          alike_invoke (hms m (mem_append_right _
            (by rw [hm]; exact mem_singleton_self m)))
        infer_instance
    | _ => infer_instance

instance {v : Value} : Quiet (boundMethod? v name) := by
  unfold boundMethod?
  split
  · refine .next fun d => ?_
    split <;> infer_instance
  · infer_instance

theorem throughout_boundMethod? {v : Value} {o : Option (Ref × Method Stmt)}
    (hbodies : s.Bodies p) (h : (boundMethod? v name).run s = (.ok o, s')) :
    ∀ r m, o = some (r, m) → Throughout p m.body := by
  rintro r m rfl
  unfold boundMethod? at h
  split at h
  case h_1 r' =>
    -- The field of the object has to lead to a cell with a method.
    rw [fields, bind_ok (by rw [bind_ok (run_get s)]; rfl)] at h
    split at h
    case h_1 ref _ =>
      rw [bind_ok (run_get s)] at h
      have hm : s.heap.method? ref = some (r, m) := Except.ok.inj (Prod.mk.inj h).1
      unfold Heap.method? at hm
      split at hm
      case h_1 owner m' hcell =>
        cases hm
        exact hbodies.methods ref r m hcell
      case h_2 => cases hm
    case h_2 => cases h
  case h_2 => cases h

instance {method owner : String} {es : List Expr} {out : Option String} :
    Alike R false (callMethod L method owner es out) (callMethod L' method owner es out) := by
  refine .next fun v => ?_
  refine Alike.bind_of (fun o => ∀ r m, o = some (r, m) → Throughout R.reached m.body)
    inferInstance (fun s o s' => throughout_boundMethod?) fun o ho => ?_
  rcases o with _ | ⟨r, m⟩
  · infer_instance
  · have hinvoke {vs : List Value} : Alike R false (invoke L m.params m.body vs (some (.object r)))
        (invoke L' m.params m.body vs (some (.object r))) := alike_invoke (ho r m rfl)
    infer_instance

/-! ### Modules -/

variable {B : Bound}

instance {f : Files} {path : String} : Within B (moduleBytes f path) := by
  unfold moduleBytes
  split
  · infer_instance
  · split <;> infer_instance

instance : Within B (moduleText file) := by
  unfold moduleText
  refine .next fun h => .next fun s =>
    .next fun o => ?_
  cases o <;> infer_instance

instance : Within B (noteFaults faults) := within_bind

instance : Within B (modify fun s => { s with
    diagnostics := s.diagnostics ++ (faults.map Fault.diagnostic).toArray } : Run Unit) := by
  refine ⟨fun s => B.notes s _ s.log (Session.Mark.told_append fun d hd => ?_), fun _ _ => nofun⟩
  obtain ⟨fault, -, rfl⟩ := mem_map.mp hd
  rfl

instance : Within B (loadModule file) := by
  unfold loadModule
  refine .next fun there => ?_
  split
  · infer_instance
  · refine .next fun o => ?_
    cases o <;> infer_instance

end Run

/-- The session after a module has the frame from before, if the module kept its
    own and its file was not under way; and the bag, where the module ran on a
    copy. -/
theorem Session.Kept.exitModule {K : Slot → Prop}
    {file : String} {isolated : Bool} (hfile : file ∉ s.importing)
    (h : (s.enterModule file isolated).Kept p K false s') :
    s.Kept p K isolated (Session.exitModule s file isolated s') := by
  have hframe := h.frame
  simp only [Session.frame, Session.enterModule, Session.Frame.mk.injEq] at hframe
  obtain ⟨hsnapshots, hdepth, himporting, hrequest, hprogram, hevents, hconditions,
    hoptions, hcallbacks, hstore⟩ := hframe
  -- The file was not under way before, so its one entry is the one that goes.
  have hout : s'.importing.filter (fun f => f != file) = s.importing := by
    rw [himporting, filter_cons_of_neg (by simp)]
    refine filter_eq_self.mpr fun f hf => ?_
    have hne : f ≠ file := fun h => hfile (h ▸ hf)
    simpa using hne
  have hbodies (hs : s.Bodies p) : s'.Bodies p :=
    h.bodies ⟨hs.functions, hs.modules, hs.classes, hs.methods⟩
  -- Only a module that is isolated leaves a copy of the bag on top, and gets it back.
  cases isolated with
  | true =>
    rw [if_pos rfl] at hsnapshots
    simp only [Session.exitModule, if_true, hsnapshots]
    refine ⟨?_, fun _ => rfl, fun hs => ?_, h.response, h.store, h.events, h.cells⟩
    · simp only [Session.frame, hout, hdepth, hrequest, hprogram, hevents, hconditions,
        hoptions, hcallbacks, hstore]
    · have hs' := hbodies hs
      exact ⟨hs'.functions, hs'.modules, hs'.classes, hs'.methods⟩
  | false =>
    rw [if_neg Bool.false_ne_true] at hsnapshots
    simp only [Session.exitModule, Bool.false_eq_true, if_false]
    refine ⟨?_, fun h => absurd h Bool.false_ne_true, fun hs => ?_, h.response, h.store, h.events, h.cells⟩
    · simp only [Session.frame, hsnapshots, hout, hdepth, hrequest, hprogram, hevents,
        hconditions, hoptions, hcallbacks, hstore]
    · have hs' := hbodies hs
      exact ⟨hs'.functions, hs'.modules, hs'.classes, hs'.methods⟩

namespace Run
variable {file : String} {isolated : Bool} {names : List String}

omit hR in
theorem alikeAt_runModule (ho : R.Open) {program : Program}
    (hfile : file ∉ s.importing) (hhere : R.here s.frame) :
    AlikeAt R isolated (runModule L program file isolated)
      (runModule L' program file isolated) s := by
  have hblock := hL.block program.main (fun st _ => ho.reached st) (s.enterModule file isolated)
    (ho.module s file isolated hhere) (.of_forall ho.reached _)
  have hbody : AlikeAt R false (moduleBody L program s) (moduleBody L' program s)
      (s.enterModule file isolated) :=
    hblock.bind fun _ _ _ _ => .of_quiet inferInstance
  refine (AlikeAt.of_quiet within_get).bind fun before s₁ _ hrun => ?_
  rw [run_get] at hrun
  cases hrun
  refine hbody.within (fun s' h => h.exitModule hfile) rfl (fun s' => ?_)
    fun _ _ _ => .of_quiet inferInstance
  simp only [Session.exitModule]
  repeat' split
  all_goals rfl

omit hR in
/-- Importing a module runs the same code under both linkers. -/
theorem alike_importModule (ho : R.Open) :
    Alike R isolated (importModule L file isolated) (importModule L' file isolated) := by
  refine Alike.bind_get fun s hhere _ => ?_
  split
  · exact .of_quiet inferInstance
  case isFalse hfile =>
    -- Reading the module and writing to the log keep the list of files under way.
    refine AlikeAt.bind (.of_quiet inferInstance) fun o s₁ hkept₁ _ => ?_
    cases o with
    | none => exact .of_quiet inferInstance
    | some program =>
      refine AlikeAt.bind (.of_quiet inferInstance) fun _ s₂ hkept₂ _ => ?_
      have hframe : s₂.frame = s.frame := hkept₂.frame.trans hkept₁.frame
      have himporting : s₂.importing = s.importing := congrArg Session.Frame.importing hframe
      have hrun : AlikeAt R isolated (runModule L program file isolated)
          (runModule L' program file isolated) s₂ := by
        refine alikeAt_runModule ho ?_ (hframe ▸ hhere)
        rw [himporting]
        simpa using hfile
      exact hrun.bind fun _ _ _ _ => .of_quiet inferInstance

omit hR in
theorem alike_importAs (ho : R.Open) {nickname : Option String} :
    Alike R false (importAs L file nickname) (importAs L' file nickname) := by
  refine Alike.bind (alike_importModule ho).forget fun o => ?_
  -- The functions of a module are new bodies, and an open regime allows all of them.
  have hmodules {f : Session → Dict (Dict Function)} :
      Alike R false (modify fun s => { s with modules := f s } : Run Unit)
        (modify fun s => { s with modules := f s }) :=
    ⟨fun s _ _ => ⟨rfl, ⟨rfl, fun h => absurd h Bool.false_ne_true,
      fun _ => .of_forall ho.reached _, fun _ => rfl, fun _ _ => rfl, id, Nat.le_refl _⟩,
      fun _ h => (by cases h), .refl⟩⟩
  split <;> infer_instance

omit hR in
instance {m : Module} : Obeys R false (takeNames m file names) := by
  induction names with
  | nil =>
    rw [takeNames]
    infer_instance
  | cons name rest ih =>
    rw [takeNames]
    cases m.vars.get? name <;> infer_instance

omit hR in
theorem alike_importNames (ho : R.Open) :
    Alike R false (importNames L names file) (importNames L' names file) := by
  refine Alike.bind (alike_importModule ho).forget fun o => ?_
  cases o <;> infer_instance

instance {name : String} : Quiet (exportName name) := quiet_modify

/-! ### Commands -/

theorem alike_callEvent (h : R.Open ∨ R.Follows) {id : String} :
    Alike R false (callEvent L id) (callEvent L' id) := by
  have hin : ∀ f, R.here f → R.inside f := h.elim Regime.Open.inside Regime.Follows.inside
  refine Alike.bind_get fun s hhere hcode => ?_
  rcases hevent : s.definedEvents.get? id with _ | stmts
  · have hemit : Alike R false
        (do emitEvent L ("call event " ++ id) ("event:" ++ id) .null; return Flow.normal)
        (do emitEvent L' ("call event " ++ id) ("event:" ++ id) .null; return Flow.normal) :=
      inferInstance
    exact hemit.run s hhere hcode
  · have hstmts : Throughout R.reached stmts := by
      rcases h with ho | hfollows
      · exact fun st _ => ho.reached st
      · obtain ⟨pos, id', hparts⟩ := hcode.events hfollows.followed stmts
          (mem_values_of_get? hevent)
        exact fun st hst => hparts st (mem_cons_of_mem _ hst)
    exact (alike_block hin hstmts).run s hhere hcode

omit hR in
instance {act act' : Run Unit} [Alike R whole act act'] :
    Alike R whole (normally act) (normally act') := alike_bind

end Run

open Run

theorem alike_scriptCommand {c : ScriptCommand}
    (hc : c.links = true → R.Open ∨ c.imports = false ∧ R.Follows)
    (hw : ∀ k, R.spared k → c.writes k = false) : Alike R false (c.exec L pos) (c.exec L' pos) := by
  have hopen (hlinks : c.links = true) (himports : c.imports = true) : R.Open :=
    (hc hlinks).resolve_right fun h => Bool.false_ne_true (h.1.symm.trans himports)
  cases c <;> simp only [ScriptCommand.exec]
  case callHost name args =>
    have hcall (v : Value) : Alike R false (direct L "call_function" [.text name, v])
        (direct L' "call_function" [.text name, v]) := alike_direct_call hw
    infer_instance
  case callEvent id => exact alike_callEvent ((hc rfl).imp_right And.right)
  case importModule file nickname =>
    have himport : Alike R false (importAs L file nickname) (importAs L' file nickname) :=
      alike_importAs (hopen rfl rfl)
    infer_instance
  case importNames names file =>
    have himport : Alike R false (importNames L names file) (importNames L' names file) :=
      alike_importNames (hopen rfl rfl)
    infer_instance
  all_goals infer_instance

/-- Every command is alike under two linkers that are, with what it takes for commands that follow
    names. -/
theorem alike_command {c : Command} (hc : (command pos c).links = true →
      R.Open ∨ (command pos c).imports = false ∧ R.Follows)
    (hw : ∀ k, R.spared k → c.writes k = false) : Alike R false (c.exec L pos) (c.exec L' pos) := by
  cases c <;> simp only [Command.exec]
  case party c =>
    have : Alike R false (c.exec L) (c.exec L') := alike_partyCommand hw
    infer_instance
  case store c =>
    have : Alike R false (c.exec L) (c.exec L') := alike_storeCommand hw
    infer_instance
  case script c => exact alike_scriptCommand hc hw
  all_goals infer_instance

end Parlance
