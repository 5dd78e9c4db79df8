import Parlance.Proofs.Snapshots

/-!
# Importing Modules

The top level of a module may do whatever a script can: assign to every name, define functions, and
also import further modules. What an import does is therefore said by the session in which the
top level ends, and by its outcome. There is no such session if the module is being imported
already, is missing or cannot be read.

An isolated import takes over nothing from that session but the bindings it was asked for, since
the bag comes from a copy. Functions are defined in the table of the session, which is no copy,
and what a module exports decides only which of them stand behind its nickname.

## Main definitions

* `Run.Bound.noting`: Only the notes for the user may change: diagnostics and log.
* `Session.topLevel`: How the top level of a module ends that is imported from a session, and in
  which session.
* `Module.found`: What a module made available: the variables and functions that are not what they
  were before it, as far as they are exported.
* `Run.TakesOver`: What is done with a module that was found writes bindings to the bag and leaves
  functions and exports alone; without a module nothing is done.
* `Session.BindsNickname`: What an import under a nickname does to the bag, given how the top
  level ended: the nickname is bound to a new object of what was found, or nothing is written.

## Theorems

* `Run.run_importModule_of_some`: An import ends as the top level does.
* `Run.snd_run_import`: The session after an import: notes are taken, or the top level has run and
  the session was taken back, and what was found is taken over if the top level came to its end.
* `Session.isolated_import_takes`: Isolated imports do not leak variables.
* `Session.exports_limit_members_only`: Exports limit the members of a nickname and nothing else.
-/

namespace Parlance
open Run Session

namespace Run
variable {α : Type}

/-- Only the notes for the user may change: diagnostics and log. -/
def Bound.noting : Bound where
  step s s' := ∃ d l, s' = { s with diagnostics := d, log := l }
  ends _ := True
  refl s := ⟨s.diagnostics, s.log, rfl⟩
  trans := by
    rintro _ _ _ ⟨d, l, rfl⟩ ⟨d', l', rfl⟩
    exact ⟨d', l', rfl⟩
  notes _ d l _ := ⟨d, l, rfl⟩
  signals _ := trivial

abbrev OnlyNotes (x : Run α) : Prop := Within .noting x

end Run

/-! ### The top level of a module -/

/-- How the top level of a module ends that is imported from a session, and in which
    session. There is none if the module is being imported already, is missing or cannot be
    read. -/
def Session.topLevel (L : Linker) (file : String) (isolated : Bool) (s : Session) :
    Option (Except Signal Flow × Session) :=
  if s.importing.contains file then none
  else match (loadModule file).run s with
    | (.ok (some program), s₁) =>
      let s₁ := { s₁ with log := s₁.log.push ⟨.debug, .runtime, "import " ++ file⟩ }
      some ((L.block program.main).run (s₁.enterModule file isolated))
    | _ => none

/-- What a module made available: the variables and functions that are not what they were
    before it, as far as they are exported. -/
def Module.found (before after : Session) : Module :=
  (Module.mk (Module.newVars before.bag after.bag)
    (Module.newFunctions before.functions after.functions)).visible (after.exports.getD [])

def Module.bindings (m : Module) (names : List String) : List (String × Value) :=
  names.filterMap fun name => (m.vars.get? name).map fun v => (name, v)

theorem Module.fst_mem_of_mem_bindings {m : Module} {names : List String} {b : String × Value}
    (h : b ∈ m.bindings names) : b.1 ∈ names := by
  obtain ⟨name, hname, hb⟩ := List.mem_filterMap.mp h
  obtain ⟨v, -, rfl⟩ := Option.map_eq_some_iff.mp hb
  exact hname

namespace Session

theorem exitModule_eq (before : Session) (file : String) (isolated : Bool) (s : Session) :
    ∃ bag snapshots importing, before.exitModule file isolated s =
      { s with bag, snapshots, importing, exports := before.exports } := by
  dsimp only [exitModule]
  split
  · split <;> exact ⟨_, _, _, rfl⟩
  · exact ⟨_, _, _, rfl⟩

variable (before : Session) (file : String) (isolated : Bool) (s : Session)

@[simp] theorem exports_exitModule :
    (before.exitModule file isolated s).exports = before.exports := by
  obtain ⟨_, _, _, h⟩ := exitModule_eq before file isolated s
  rw [h]

@[simp] theorem heap_exitModule : (before.exitModule file isolated s).heap = s.heap := by
  obtain ⟨_, _, _, h⟩ := exitModule_eq before file isolated s
  rw [h]

@[simp] theorem functions_exitModule :
    (before.exitModule file isolated s).functions = s.functions := by
  obtain ⟨_, _, _, h⟩ := exitModule_eq before file isolated s
  rw [h]

@[simp] theorem modules_exitModule : (before.exitModule file isolated s).modules = s.modules := by
  obtain ⟨_, _, _, h⟩ := exitModule_eq before file isolated s
  rw [h]

end Session

namespace Run
variable {L : Linker} {file : String} {isolated : Bool} {s s₂ : Session} {r : Except Signal Flow}

theorem run_runModule {program : Program}
    (h : (L.block program.main).run (s.enterModule file isolated) = (r, s₂)) :
    (runModule L program file isolated).run s =
      (r.map fun _ => Module.found s s₂, s.exitModule file isolated s₂) := by
  rw [runModule, bind_ok (run_get s), bind_ok (run_modify _ s), run_bind, run_ensure, moduleBody,
    run_bind, h]
  cases r with
  | error e => rfl
  | ok flow =>
    -- The functions are looked at after the module was left, the variables before.
    change (Except.ok ((Module.mk _ (Module.newFunctions s.functions
      (s.exitModule file isolated s₂).functions)).visible _), _) = _
    rw [functions_exitModule]
    rfl

theorem run_importModule_of_none (h : s.topLevel L file isolated = none) :
    (∀ m, ((importModule L file isolated).run s).1 ≠ .ok (some m)) ∧
      ∃ d l, ((importModule L file isolated).run s).2 = { s with diagnostics := d, log := l } := by
  rw [topLevel] at h
  rw [importModule, bind_ok (run_get s)]
  split at h
  case isTrue hfile =>
    have hwarn : OnlyNotes (do
        warn ("circular import of " ++ file)
        return (none : Option Module)) := inferInstance
    rw [if_pos hfile]
    exact ⟨fun _ => nofun, hwarn.steps s⟩
  case isFalse hfile =>
    have hnotes := (inferInstance : OnlyNotes (loadModule file)).steps s
    rw [if_neg hfile]
    rcases hload : (loadModule file).run s with ⟨e | _ | program, s₁⟩ <;> rw [hload] at h hnotes
    · rw [bind_error hload]
      exact ⟨fun _ => nofun, hnotes⟩
    · rw [bind_ok hload]
      exact ⟨fun _ => nofun, hnotes⟩
    · cases h

/-- An import ends as the top level does. What it found is told from the session in which
    the top level ended, and the session is taken back to the one who imports. -/
theorem run_importModule_of_some (h : s.topLevel L file isolated = some (r, s₂)) :
    (importModule L file isolated).run s =
      (r.map fun _ => some (Module.found s s₂), s.exitModule file isolated s₂) := by
  rw [topLevel] at h
  rw [importModule, bind_ok (run_get s)]
  split at h
  case isTrue => cases h
  case isFalse hfile =>
    obtain ⟨d, l, hnotes⟩ := (inferInstance : OnlyNotes (loadModule file)).steps s
    rw [if_neg hfile]
    rcases hload : (loadModule file).run s with ⟨e | _ | program, s₁⟩ <;> rw [hload] at h hnotes
    · cases h
    · cases h
    -- Reading took notes only, so what the module is compared with is the session itself.
    · obtain rfl : s₁ = _ := hnotes
      have hblock := Option.some.inj h
      rw [bind_ok hload]
      refine (bind_ok (run_modify _ _)).trans ?_
      rw [run_bind, run_runModule hblock]
      cases r <;> rfl

/-! ### Taking over -/

/-- What is done with a module that was found writes bindings to the bag and leaves
    functions and exports alone; without a module nothing is done. -/
structure TakesOver (bindings : Module → Heap → List (String × Value))
    (f : Option Module → Run Unit) : Prop where
  none : f none = pure ()
  bag : ∀ m s, ((f (some m)).run s).2.bag =
    (bindings m s.heap).foldl (fun bag b => bag.insert b.1 b.2) s.bag
  functions : ∀ m s, ((f (some m)).run s).2.functions = s.functions
  exports : ∀ m s, ((f (some m)).run s).2.exports = s.exports

theorem importAs_eq_bind (L : Linker) (file nickname : String) :
    ∃ f, importAs L file (some nickname) = importModule L file true >>= f ∧
      TakesOver (fun m h => [(nickname, (h.newObject m.vars).1)]) f ∧
      ∀ m s, ((f (some m)).run s).2.heap = (s.heap.newObject m.vars).2 ∧
        ((f (some m)).run s).2.modules = s.modules.insert nickname m.functions :=
  ⟨_, rfl, ⟨rfl, fun _ _ => rfl, fun _ _ => rfl, fun _ _ => rfl⟩, fun _ _ => ⟨rfl, rfl⟩⟩

theorem importAs_none_eq_bind (L : Linker) (file : String) :
    ∃ f, importAs L file none = importModule L file false >>= f ∧ TakesOver (fun _ _ => []) f :=
  ⟨_, rfl, rfl, fun _ _ => rfl, fun _ _ => rfl, fun _ _ => rfl⟩

theorem run_takeNames (m : Module) (file : String) (names : List String) (s : Session) :
    ∃ d l, (takeNames m file names).run s = (.ok (),
      { s with
        bag := (m.bindings names).foldl (fun bag b => bag.insert b.1 b.2) s.bag
        diagnostics := d, log := l }) := by
  induction names generalizing s with
  | nil => exact ⟨s.diagnostics, s.log, rfl⟩
  | cons name rest ih =>
    rw [takeNames, Module.bindings, List.filterMap_cons]
    rcases m.vars.get? name with _ | v
    · simp only [Option.map_none]
      split
      · exact ih (s.warned _)
      · exact ih s
    · exact ih { s with bag := s.bag.insert name v }

theorem importNames_eq_bind (L : Linker) (file : String) (names : List String) :
    ∃ f, importNames L names file = importModule L file true >>= f ∧
      TakesOver (fun m _ => m.bindings names) f ∧
      ∀ m s, ((f (some m)).run s).2.modules = s.modules := by
  refine ⟨_, rfl, ⟨rfl, fun m s => ?_, fun m s => ?_, fun m s => ?_⟩, fun m s => ?_⟩
  -- All that is asked for stands in the session after the names were taken.
  all_goals
    obtain ⟨d, l, hrun⟩ := run_takeNames m file names s
    simp only [hrun]

/-- The session after an import: notes are taken, or the top level has run and the session
    was taken back, and what was found is taken over if the top level came to its end. -/
theorem snd_run_import {f : Option Module → Run Unit} (hf : f none = pure ()) (L : Linker)
    (file : String) (isolated : Bool) (s : Session) :
    match s.topLevel L file isolated with
    | none => ∃ d l, ((importModule L file isolated >>= f).run s).2 =
        { s with diagnostics := d, log := l }
    | some (.error _, s₂) => ((importModule L file isolated >>= f).run s).2 =
        s.exitModule file isolated s₂
    | some (.ok _, s₂) => ((importModule L file isolated >>= f).run s).2 =
        ((f (some (Module.found s s₂))).run (s.exitModule file isolated s₂)).2 := by
  rcases htop : s.topLevel L file isolated with _ | ⟨e | flow, s₂⟩
  · obtain ⟨hnone, d, l, hs⟩ := run_importModule_of_none htop
    refine ⟨d, l, ?_⟩
    rw [run_bind]
    -- The import fails or finds no module, and then nothing is taken over.
    rcases hrun : (importModule L file isolated).run s with ⟨e | _ | m, s'⟩ <;>
      rw [hrun] at hnone hs
    · exact hs
    · simp only [hf]
      exact hs
    · exact absurd rfl (hnone m)
  · rw [bind_error (run_importModule_of_some htop)]
  · rw [bind_ok (run_importModule_of_some htop)]

theorem snd_run_normally (act : Run Unit) (s : Session) :
    ((normally act).run s).2 = (act.run s).2 := by
  rw [normally, run_bind]
  rcases act.run s with ⟨e | _, s'⟩ <;> rfl

theorem snd_run_command {L : Linker} {pos : Position} {c : ScriptCommand} {act : Run Unit}
    (h : c.exec L pos = normally act) (s : Session) :
    ((exec L (.command pos (.script c))).run s).2 =
      (act.run { s with position := some pos }).2 := by
  rw [exec, snd_run_placing, Command.exec, h, snd_run_normally]

theorem bag_exitModule {n : Nat} {file : String} {s : Session}
    (h : s.topLevel (.ofDepth n) file true = some (r, s₂)) :
    (s.exitModule file true s₂).bag = s.bag := by
  -- An isolated import as a whole keeps the bag, and it ends where the module is left.
  have himport : Obeys (.watching fun _ => True) true (importModule (.ofDepth n) file true) :=
    alike_importModule Regime.open_watching
  have hbag := leavesBag_of_alike himport s
  rwa [run_importModule_of_some h] at hbag

end Run

namespace Session
variable {bindings : Module → Heap → List (String × Value)} {f : Option Module → Run Unit}

/-- The bag after an isolated import: the bindings are written if the top level came to its
    end, and nothing is written otherwise. -/
theorem bag_import (hf : TakesOver bindings f) (n : Nat) (file : String) (s : Session) :
    ((importModule (.ofDepth n) file true >>= f).run s).2.bag =
      match s.topLevel (.ofDepth n) file true with
      | some (.ok _, s₂) => (bindings (Module.found s s₂) s₂.heap).foldl
          (fun bag b => bag.insert b.1 b.2) s.bag
      | _ => s.bag := by
  have hs := snd_run_import hf.none (.ofDepth n) file true s
  rcases htop : s.topLevel (.ofDepth n) file true with _ | ⟨e | flow, s₂⟩ <;> rw [htop] at hs
  · obtain ⟨d, l, hs⟩ := hs
    rw [hs]
  · rw [hs]
    exact bag_exitModule htop
  · rw [hs, hf.bag, bag_exitModule htop, heap_exitModule]

theorem exports_import (hf : TakesOver bindings f) (L : Linker) (file : String) (isolated : Bool)
    (s : Session) : ((importModule L file isolated >>= f).run s).2.exports = s.exports := by
  have hs := snd_run_import hf.none L file isolated s
  rcases htop : s.topLevel L file isolated with _ | ⟨e | flow, s₂⟩ <;> rw [htop] at hs
  · obtain ⟨d, l, hs⟩ := hs
    rw [hs]
  · rw [hs, exports_exitModule]
  · rw [hs, hf.exports, exports_exitModule]

/-- What an import under a nickname does to the bag, given how the top level ended: the
    nickname is bound to a new object of what was found, or nothing is written. -/
def BindsNickname (top : Option (Except Signal Flow × Session)) (nickname : String)
    (s s' : Session) : Prop :=
  match top with
  | some (.ok _, s₂) =>
    let object := s₂.heap.newObject (Module.found s s₂).vars
    s'.bag = s.bag.insert nickname object.1 ∧ s'.heap = object.2
  | _ => s'.bag = s.bag

/-- What an import of names does to the bag, given how the top level ended: those of the
    names are bound that were found, or nothing is written. -/
def BindsNames (top : Option (Except Signal Flow × Session)) (names : List String)
    (s s' : Session) : Prop :=
  match top with
  | some (.ok _, s₂) =>
    let bindings := (Module.found s s₂).bindings names
    (∀ b ∈ bindings, b.1 ∈ names) ∧
      s'.bag = bindings.foldl (fun bag b => bag.insert b.1 b.2) s.bag
  | _ => s'.bag = s.bag

theorem bindsNickname_importAs (n : Nat) (file nickname : String) (s : Session) :
    s.BindsNickname (s.topLevel (.ofDepth n) file true) nickname
      ((importAs (.ofDepth n) file (some nickname)).run s).2 := by
  obtain ⟨f, heq, hf, htaken⟩ := importAs_eq_bind (.ofDepth n) file nickname
  have hs := snd_run_import hf.none (.ofDepth n) file true s
  have hbag := bag_import hf n file s
  rw [heq]
  rcases htop : s.topLevel (.ofDepth n) file true with _ | ⟨e | flow, s₂⟩ <;> rw [htop] at hs hbag
  · exact hbag
  · exact hbag
  · refine ⟨hbag, ?_⟩
    rw [hs, (htaken _ _).1, heap_exitModule]

theorem bindsNames_importNames (n : Nat) (file : String) (names : List String) (s : Session) :
    s.BindsNames (s.topLevel (.ofDepth n) file true) names
      ((importNames (.ofDepth n) names file).run s).2 := by
  obtain ⟨f, heq, hf, -⟩ := importNames_eq_bind (.ofDepth n) file names
  have hbag := bag_import hf n file s
  rw [heq]
  rcases htop : s.topLevel (.ofDepth n) file true with _ | ⟨e | flow, s₂⟩ <;> rw [htop] at hbag
  · exact hbag
  · exact hbag
  · exact ⟨fun _ => Module.fst_mem_of_mem_bindings, hbag⟩

/-- Isolated imports do not leak variables. An import under a nickname writes one binding, to
    a new object of the variables that the module made available, and an import of names
    writes bindings for these names only. Nothing is written if the module is missing, is
    being imported already or raises. Every import puts back what is being imported and what
    the one who imports exports. -/
theorem isolated_import_takes (n : Nat) (pos : Position) (file : String) (s : Session) :
    let top := topLevel (.ofDepth n) file true { s with position := some pos }
    let after (c : ScriptCommand) : Session :=
      ((exec (.ofDepth n) (.command pos (.script c))).run s).2
    (∀ nickname, s.BindsNickname top nickname (after (.importModule file (some nickname)))) ∧
    (∀ names, s.BindsNames top names (after (.importNames names file))) ∧
    (∀ nickname, (after (.importModule file nickname)).importing = s.importing ∧
      (after (.importModule file nickname)).exports = s.exports) ∧
    ∀ names, (after (.importNames names file)).importing = s.importing ∧
      (after (.importNames names file)).exports = s.exports := by
  intro top after
  have himporting (c : ScriptCommand) : (after c).importing = s.importing :=
    congrArg Frame.importing (Linker.frame_exec n (.command pos (.script c)) s)
  have has (nickname : Option String) : after (.importModule file nickname) =
      ((importAs (.ofDepth n) file nickname).run { s with position := some pos }).2 :=
    snd_run_command rfl s
  have hnames (names : List String) : after (.importNames names file) =
      ((importNames (.ofDepth n) names file).run { s with position := some pos }).2 :=
    snd_run_command rfl s
  refine ⟨fun nickname => ?_, fun names => ?_, fun nickname => ⟨himporting _, ?_⟩,
    fun names => ⟨himporting _, ?_⟩⟩
  · rw [has]
    exact bindsNickname_importAs n file nickname _
  · rw [hnames]
    exact bindsNames_importNames n file names _
  · rcases nickname with _ | nickname
    · obtain ⟨f, heq, hf⟩ := importAs_none_eq_bind (.ofDepth n) file
      rw [has, heq]
      exact exports_import hf ..
    · obtain ⟨f, heq, hf, -⟩ := importAs_eq_bind (.ofDepth n) file nickname
      rw [has, heq]
      exact exports_import hf ..
  · obtain ⟨f, heq, hf, -⟩ := importNames_eq_bind (.ofDepth n) file names
    rw [hnames, heq]
    exact exports_import hf ..

/-! ### Functions -/

/-- The session in which the top level of a module ended, or the one it would have begun
    in. -/
def leftBy (s : Session) (top : Option (Except Signal Flow × Session)) : Session :=
  (top.map Prod.snd).getD s

theorem get?_found_functions {before after : Session} {member : String}
    (hexports : after.exports.getD [] ≠ []) (hmember : member ∉ after.exports.getD []) :
    (Module.found before after).functions.get? member = none := by
  rw [Module.found, Module.visible, if_neg (by rwa [List.isEmpty_iff])]
  refine Dict.get?_filter_eq_none fun _ => ?_
  simpa using hmember

theorem left_import {β : Type} (part : Session → β)
    (hf : f none = pure ()) (htake : ∀ m s, part ((f (some m)).run s).2 = part s)
    (hexit : ∀ before file isolated s, part (exitModule before file isolated s) = part s)
    (hnotes : ∀ (s : Session) d l, part { s with diagnostics := d, log := l } = part s)
    (L : Linker) (file : String) (isolated : Bool) (s : Session) :
    part ((importModule L file isolated >>= f).run s).2 =
      part (s.leftBy (s.topLevel L file isolated)) := by
  have hs := snd_run_import hf L file isolated s
  rcases htop : s.topLevel L file isolated with _ | ⟨e | flow, s₂⟩ <;> rw [htop] at hs
  · obtain ⟨d, l, hs⟩ := hs
    rw [hs]
    exact hnotes s d l
  · rw [hs]
    exact hexit ..
  · rw [hs, htake]
    exact hexit ..

theorem functions_import (hf : TakesOver bindings f) (L : Linker) (file : String) (isolated : Bool)
    (s : Session) : ((importModule L file isolated >>= f).run s).2.functions =
      (s.leftBy (s.topLevel L file isolated)).functions :=
  left_import functions hf.none hf.functions functions_exitModule (fun _ _ _ => rfl) ..

theorem modules_importAs (L : Linker) (file nickname : String) (s : Session) :
    ((importAs L file (some nickname)).run s).2.modules = match s.topLevel L file true with
      | some (.ok _, s₂) => s₂.modules.insert nickname (Module.found s s₂).functions
      | _ => (s.leftBy (s.topLevel L file true)).modules := by
  obtain ⟨f, heq, hf, htaken⟩ := importAs_eq_bind L file nickname
  have hs := snd_run_import hf.none L file true s
  rw [heq]
  rcases htop : s.topLevel L file true with _ | ⟨e | flow, s₂⟩ <;> rw [htop] at hs
  · obtain ⟨d, l, hs⟩ := hs
    rw [hs]
    rfl
  · rw [hs]
    exact modules_exitModule ..
  · rw [hs, (htaken _ _).2, modules_exitModule]

theorem function?_of_functions {s : Session} {name : String} {f : Function}
    (h : s.functions.get? name = some f) : s.function? name = some f := by
  rw [function?, h]

/-- Exports limit the members of a nickname and nothing else. Functions that stand in the
    table where the top level of a module ends are reachable by their plain names after every
    isolated import, exported, asked for or not, and also if the import did not succeed.
    Behind the nickname stand those that are new and exported. -/
theorem exports_limit_members_only (n : Nat) (pos : Position) (file : String) (s : Session) :
    let start : Session := { s with position := some pos }
    let top := start.topLevel (.ofDepth n) file true
    let left := start.leftBy top
    let after (c : ScriptCommand) : Session :=
      ((exec (.ofDepth n) (.command pos (.script c))).run s).2
    (∀ names nickname name f, left.functions.get? name = some f →
      (after (.importNames names file)).function? name = some f ∧
        (after (.importModule file (some nickname))).function? name = some f) ∧
    (∀ names name, (after (.importNames names file)).function? name = left.function? name) ∧
    (∀ nickname, (after (.importModule file (some nickname))).functions = left.functions ∧
      (after (.importModule file (some nickname))).modules = match top with
        | some (.ok _, s₂) => s₂.modules.insert nickname (Module.found s s₂).functions
        | _ => left.modules) ∧
    ∀ flow s₂ nickname member, top = some (.ok flow, s₂) → s₂.exports.getD [] ≠ [] →
      member ∉ s₂.exports.getD [] →
      (((after (.importModule file (some nickname))).modules.get? nickname).getD ∅).get? member =
        none := by
  intro start top left after
  have has (nickname : String) : (after (.importModule file (some nickname))).functions =
      left.functions ∧ (after (.importModule file (some nickname))).modules = match top with
        | some (.ok _, s₂) => s₂.modules.insert nickname (Module.found s s₂).functions
        | _ => left.modules := by
    obtain ⟨f, heq, hf, -⟩ := importAs_eq_bind (.ofDepth n) file nickname
    rw [show after _ = _ from snd_run_command rfl s]
    exact ⟨heq ▸ functions_import hf .., modules_importAs (.ofDepth n) file nickname start⟩
  have hnames (names : List String) : (after (.importNames names file)).functions =
      left.functions ∧ (after (.importNames names file)).modules = left.modules := by
    obtain ⟨f, heq, hf, hmodules⟩ := importNames_eq_bind (.ofDepth n) file names
    rw [show after _ = _ from snd_run_command rfl s, heq]
    exact ⟨functions_import hf .., left_import modules hf.none hmodules modules_exitModule
      (fun _ _ _ => rfl) ..⟩
  -- A plain name is looked up in the table first, and the table is the one that was left.
  refine ⟨fun names nickname name f hf => ⟨?_, ?_⟩, fun names name => ?_, has,
    fun flow s₂ nickname member htop hexports hmember => ?_⟩
  · exact function?_of_functions ((hnames names).1 ▸ hf)
  · exact function?_of_functions ((has nickname).1 ▸ hf)
  · rw [function?, function?, (hnames names).1, (hnames names).2]
  · rw [(has nickname).2, htop]
    simp only [Dict.get?_insert_self, Option.getD_some]
    exact get?_found_functions hexports hmember

/-- A module exports one name, and the function that it keeps to itself is reachable. -/
theorem exports_limit_members_only_hidden :
    let source := "export a\ndefine function g\nend"
    let s : Session := { hosts.files := ⟨.folder [("lib.hl", .file source.toUTF8)], []⟩ }
    let after : Session := ((exec (.ofDepth 1) (.command ⟨1, 1⟩
      (.script (.importModule "lib" (some "p"))))).run s).2
    s.function? "g" = none ∧ (∃ f, after.function? "g" = some f) ∧
      ((after.modules.get? "p").getD ∅).get? "g" = none := by
  intro source s after
  -- The module is read and run once.
  have htop : (topLevel (.ofDepth 1) "lib" true { s with position := some ⟨1, 1⟩ }).any
      (fun p => p.1.toOption == some .normal && p.2.exports == some ["a"] &&
        (p.2.functions.get? "g").isSome) = true := by decide +kernel
  obtain ⟨⟨e | flow, s₂⟩, htop, hleft⟩ := (Option.any_eq_true ..).mp htop
  · cases hleft
  simp only [Bool.and_eq_true, beq_iff_eq, Option.isSome_iff_exists] at hleft
  obtain ⟨⟨-, hexports⟩, f, hf⟩ := hleft
  obtain ⟨hreach, -, -, hmembers⟩ := exports_limit_members_only 1 ⟨1, 1⟩ "lib" s
  rw [htop] at hreach
  refine ⟨rfl, ⟨f, (hreach [] "p" "g" f hf).2⟩, hmembers flow s₂ "p" "g" htop ?_ ?_⟩
  · rw [hexports]
    exact List.cons_ne_nil _ _
  · rw [hexports]
    decide

end Session
end Parlance
