import Mathlib.Data.List.Nodup
import Parlance.Proofs.Cells
import Parlance.Proofs.Watch

/-!
# Inheritance

A class copies what its parent has when it is defined, and adds its own. Looking things up from
the class along its parents gives the same. The chain of the parents is read off the declarations
alone. A parent counts only if it was declared before its child, so the chain ends.

An object of a class gets its properties first, then its constructor runs, and then its methods
are bound to it.

## Main definitions

* `ClassDecl.lineage`: The class under a name and its ancestors, the nearest first.
* `ClassDecl.complaints`: All that is noted about parents, where the declarations are given with
  the latest first.
* `ClassDef.Merges`: The class has what the chain has: each property where it comes first, from
  the top of the chain down, and each method and the constructor from the nearest that declares
  it.
* `Session.Declares`: The classes of the session are those of the declarations, which are given
  with the latest first, and what there was to note about them is noted.
* `Session.born`: The session with a new object of a class, before its constructor runs.

## Theorems

* `Session.inheritance_walks_up`: Classes are declared one after the other, each name once.
-/

namespace Parlance
open List Dict
variable (ms : List (Method Stmt))

structure ClassDecl where
  pos : Position
  name : String
  parent : Option String
  properties : List String
  methods : List (Method Stmt)

namespace ClassDecl

def stmt (d : ClassDecl) : Stmt := .defineClass d.pos d.name d.parent d.properties d.methods

def method? (name : String) (d : ClassDecl) : Option (Method Stmt) :=
  (d.methods.filter fun m => !m.isConstructor && m.name == name).getLast?

def maker? (d : ClassDecl) : Option (Method Stmt) := (d.methods.filter (·.isConstructor)).getLast?

/-- The class under a name and its ancestors, the nearest first. The declarations are given
    with the latest first. -/
def lineage : List ClassDecl → String → List ClassDecl
  | [], _ => []
  | d :: earlier, name =>
    if d.name = name then d :: d.parent.elim [] (lineage earlier) else lineage earlier name

def complaint? (earlier : List ClassDecl) (d : ClassDecl) : Option String :=
  d.parent.bind fun parent =>
    if parent = d.name then some ("class '" ++ d.name ++ "' cannot extend itself")
    else if (lineage earlier parent).isEmpty then
      some ("unknown parent class '" ++ parent ++ "' for '" ++ d.name ++ "'")
    else none

/-- All that is noted about parents, where the declarations are given with the latest
    first. -/
def complaints : List ClassDecl → List Diagnostic
  | [] => []
  | d :: earlier =>
    complaints earlier ++ ((d.complaint? earlier).map fun text => ⟨.warning, text, d.pos⟩).toList

variable {ds : List ClassDecl} {a d : ClassDecl} {name : String}

theorem lineage_eq_nil (h : name ∉ ds.map (·.name)) : lineage ds name = [] := by
  induction ds with
  | nil => rfl
  | cons d earlier ih =>
    rw [map_cons, mem_cons, not_or] at h
    rw [lineage, if_neg (Ne.symm h.1), ih h.2]

theorem lineage_ne_nil (h : name ∈ ds.map (·.name)) : lineage ds name ≠ [] := by
  induction ds with
  | nil => cases h
  | cons d earlier ih =>
    rw [lineage]
    split
    · exact cons_ne_nil _ _
    case isFalse hne => exact ih ((mem_cons.mp h).resolve_left (Ne.symm hne))

theorem lineage_of_mem (hnames : (ds.map (·.name)).Nodup) (ha : a ∈ lineage ds name) :
    ∃ before after, lineage ds name = before ++ a :: after ∧ lineage ds a.name = a :: after := by
  induction ds generalizing name with
  | nil => cases ha
  | cons d earlier ih =>
    rw [map_cons, nodup_cons] at hnames
    -- An ancestor among the earlier declarations does not have the name of the last one.
    have hearlier {name} (ha : a ∈ lineage earlier name) : ∃ before after,
        lineage earlier name = before ++ a :: after ∧
          lineage (d :: earlier) a.name = a :: after := by
      obtain ⟨before, after, hchain, hown⟩ := ih hnames.2 ha
      have hne : d.name ≠ a.name := fun h =>
        cons_ne_nil _ _ (hown.symm.trans (lineage_eq_nil (h ▸ hnames.1)))
      exact ⟨before, after, hchain, by rw [lineage, if_neg hne, hown]⟩
    rw [lineage] at ha ⊢
    split at ha
    case isTrue hname =>
      rw [if_pos hname]
      rcases mem_cons.mp ha with rfl | ha
      · exact ⟨[], _, rfl, by rw [lineage, if_pos rfl]⟩
      · rcases hparent : d.parent with _ | parent <;> rw [hparent] at ha
        · cases ha
        · obtain ⟨before, after, hrest, hown⟩ := hearlier ha
          exact ⟨d :: before, after, congrArg (d :: ·) hrest, hown⟩
    case isFalse hname =>
      rw [if_neg hname]
      exact hearlier ha

end ClassDecl

/-! ### Putting a class together -/

namespace ClassDef
open ClassDecl
variable {c : ClassDef} {chain : List ClassDecl}

/-- The class has what the chain has: each property where it comes first, from the top of the
    chain down, and each method and the constructor from the nearest that declares it. -/
structure Merges (c : ClassDef) (chain : List ClassDecl) : Prop where
  properties : c.properties = (chain.reverse.flatMap (·.properties)).eraseDups
  methods : ∀ name, c.methods.get? name = chain.findSome? (method? name)
  maker : c.maker = chain.findSome? maker?
  named : ∀ e ∈ c.methods.entries, e.2.name = e.1

theorem merges_bare (name : String) : (bare name).Merges [] :=
  ⟨rfl, fun _ => rfl, rfl, nofun⟩

theorem foldl_addName (names ps : List String) :
    ps.foldl addName names.eraseDups = (names ++ ps).eraseDups := by
  induction ps generalizing names with
  | nil => rw [foldl_nil, append_nil]
  | cons p ps ih =>
    have hadd : addName names.eraseDups p = (names ++ [p]).eraseDups := by
      rw [addName, eraseDups_append]
      by_cases hp : p ∈ names <;> simp [removeAll, eraseDups_cons, hp]
    rw [foldl_cons, hadd, ih, append_assoc, singleton_append]

theorem nodup_foldl_addName {names : List String} (h : names.Nodup) (ps : List String) :
    (ps.foldl addName names).Nodup := by
  induction ps generalizing names with
  | nil => exact h
  | cons p ps ih =>
    refine ih ?_
    unfold addName
    split
    · exact h
    case isFalse hp =>
      refine nodup_append.mpr ⟨h, by simp, fun a ha b hb hab => hp ?_⟩
      rwa [← mem_singleton.mp hb, ← hab]

theorem Merges.nodup_properties (h : c.Merges chain) : c.properties.Nodup := by
  rw [h.properties, ← nil_append (flatMap _ _), ← foldl_addName]
  exact nodup_foldl_addName nodup_nil _

theorem getLast?_filter_cons (p : Method Stmt → Bool) (m : Method Stmt) (ms : List (Method Stmt)) :
    ((m :: ms).filter p).getLast? =
      (ms.filter p).getLast?.or (if p m then some m else none) := by
  rw [filter_cons]
  split
  · rw [getLast?_cons]
    cases (ms.filter p).getLast? <;> rfl
  · rw [Option.or_none]

theorem findSome?_cons_or {β : Type} (f : ClassDecl → Option β) (d : ClassDecl) :
    (d :: chain).findSome? f = (f d).or (chain.findSome? f) := by
  rw [findSome?_cons]
  cases f d <;> rfl

theorem get?_foldl_addMethod (c : ClassDef) (name : String) :
    (ms.foldl addMethod c).methods.get? name =
      (ms.filter fun m => !m.isConstructor && m.name == name).getLast?.or (c.methods.get? name) := by
  induction ms generalizing c with
  | nil => rfl
  | cons m ms ih =>
    rw [foldl_cons, ih, getLast?_filter_cons, Option.or_assoc]
    congr 1
    rw [addMethod]
    by_cases hm : m.isConstructor = true
    · simp [hm]
    · by_cases hname : m.name = name
      · simp [hm, hname]
      · simp [hm, hname, get?_insert_of_ne _ (Ne.symm hname)]

theorem maker_foldl_addMethod (c : ClassDef) :
    (ms.foldl addMethod c).maker = (ms.filter (·.isConstructor)).getLast?.or c.maker := by
  induction ms generalizing c with
  | nil => rfl
  | cons m ms ih =>
    rw [foldl_cons, ih, getLast?_filter_cons, Option.or_assoc]
    congr 1
    rw [addMethod]
    by_cases hm : m.isConstructor = true <;> simp [hm]

theorem foldl_addMethod_keeps {c : ClassDef} (hnamed : ∀ e ∈ c.methods.entries, e.2.name = e.1) :
    (ms.foldl addMethod c).properties = c.properties ∧ (ms.foldl addMethod c).name = c.name ∧
      (ms.foldl addMethod c).parent = c.parent ∧
      ∀ e ∈ (ms.foldl addMethod c).methods.entries, e.2.name = e.1 := by
  induction ms generalizing c with
  | nil => exact ⟨rfl, rfl, rfl, hnamed⟩
  | cons m ms ih =>
    rw [foldl_cons, addMethod]
    split
    · exact ih hnamed
    · refine ih (c := { c with methods := c.methods.insert m.name m }) fun e he => ?_
      rcases mem_insertEntry he with rfl | he
      · rfl
      · exact hnamed e he

theorem merges_extend (h : c.Merges chain) (d : ClassDecl) :
    (c.extend d.properties d.methods).Merges (d :: chain) := by
  obtain ⟨hproperties, -, -, hnamed⟩ := foldl_addMethod_keeps d.methods
    (c := { c with properties := d.properties.foldl addName c.properties }) h.named
  refine ⟨?_, fun name => ?_, ?_, hnamed⟩
  · rw [extend, hproperties, h.properties, foldl_addName, reverse_cons, flatMap_append,
      flatMap_singleton]
  · rw [extend, get?_foldl_addMethod, findSome?_cons_or, h.methods]
    rfl
  · rw [extend, maker_foldl_addMethod, findSome?_cons_or, h.maker]
    rfl

theorem name_extend (h : c.Merges chain) (d : ClassDecl) :
    (c.extend d.properties d.methods).name = c.name ∧
      (c.extend d.properties d.methods).parent = c.parent :=
  have hkeeps := foldl_addMethod_keeps d.methods
    (c := { c with properties := d.properties.foldl addName c.properties }) h.named
  ⟨hkeeps.2.1, hkeeps.2.2.1⟩

end ClassDef

/-! ### Declarations that run -/

namespace Session
open ClassDecl

/-- The classes of the session are those of the declarations, which are given with the latest
    first, and what there was to note about them is noted. -/
structure Declares (before : List Diagnostic) (ds : List ClassDecl) (s : Session) : Prop where
  noted : s.diagnostics.toList = before ++ complaints ds
  unknown : ∀ name, lineage ds name = [] → s.classes.get? name = none
  known : ∀ name d ancestors, lineage ds name = d :: ancestors → ∃ c, s.classes.get? name = some c ∧
    c.name = name ∧ c.parent = ancestors.head?.map (·.name) ∧ c.Merges (d :: ancestors)

end Session

theorem ClassDecl.name_of_lineage {ds ancestors : List ClassDecl} {name : String} {d : ClassDecl}
    (h : lineage ds name = d :: ancestors) : d.name = name := by
  induction ds with
  | nil => cases h
  | cons d' earlier ih =>
    rw [lineage] at h
    split at h
    case isTrue hname => exact (cons.inj h).1 ▸ hname
    case isFalse => exact ih h

namespace Run
open ClassDecl Session
variable {L : Linker} {before : List Diagnostic} {earlier : List ClassDecl} {d : ClassDecl}
  {s : Session}

theorem run_classBase (h : s.Declares before earlier) (hnew : lineage earlier d.name = []) :
    ∃ base, (classBase d.name d.parent).run s = (.ok base, (d.complaint? earlier).elim s s.warned) ∧
      base.name = d.name ∧ base.parent = (d.parent.elim [] (lineage earlier)).head?.map (·.name) ∧
      base.Merges (d.parent.elim [] (lineage earlier)) := by
  unfold complaint?
  rcases d.parent with _ | parent
  · exact ⟨_, rfl, rfl, rfl, ClassDef.merges_bare _⟩
  simp only [Option.elim_some, Option.bind_some, classBase]
  by_cases hself : parent = d.name
  · subst hself
    rw [if_pos rfl, if_pos rfl, hnew]
    exact ⟨_, rfl, rfl, rfl, ClassDef.merges_bare _⟩
  rw [if_neg hself, if_neg hself]
  rcases hchain : lineage earlier parent with _ | ⟨p, ancestors⟩
  · refine ⟨.bare d.name, (bind_ok (run_get s)).trans ?_, rfl, rfl, ClassDef.merges_bare _⟩
    rw [h.unknown parent hchain]
    rfl
  · obtain ⟨c, hc, -, -, hmerges⟩ := h.known parent p ancestors hchain
    refine ⟨.child d.name parent c, (bind_ok (run_get s)).trans ?_, rfl, ?_, ?_⟩
    · rw [hc]
      rfl
    · exact congrArg some (name_of_lineage hchain).symm
    · exact ⟨hmerges.properties, hmerges.methods, hmerges.maker, hmerges.named⟩

theorem run_declare (h : s.Declares before earlier) (hnew : d.name ∉ earlier.map (·.name)) :
    ∃ s', (exec L d.stmt).run s = (.ok .normal, s') ∧ s'.Declares before (d :: earlier) := by
  have hplaced : Declares before earlier { s with position := some d.pos } :=
    ⟨h.noted, h.unknown, h.known⟩
  obtain ⟨base, hbase, hname, hparent, hmerges⟩ := run_classBase hplaced (lineage_eq_nil hnew)
  let s₁ : Session := (d.complaint? earlier).elim { s with position := some d.pos }
    (Session.warned { s with position := some d.pos })
  have hclasses : s₁.classes = s.classes := by
    simp only [s₁]
    cases d.complaint? earlier <;> rfl
  let c := base.extend d.properties d.methods
  refine ⟨{ s₁ with classes := s₁.classes.insert d.name c }, ?_, ?_, fun name hchain => ?_,
    fun name d' ancestors hchain => ?_⟩
  · exact run_placing_ok (bind_ok (a := ()) ((bind_ok hbase).trans rfl))
  · change s₁.diagnostics.toList = _
    rw [complaints, ← append_assoc, ← h.noted]
    simp only [s₁]
    cases d.complaint? earlier <;> simp [Session.warned]
  · change (s₁.classes.insert d.name c).get? name = none
    rw [lineage] at hchain
    split at hchain
    · cases hchain
    case isFalse hne => rw [get?_insert_of_ne _ (Ne.symm hne), hclasses, h.unknown name hchain]
  · change ∃ c', (s₁.classes.insert d.name c).get? name = some c' ∧ _
    rw [lineage] at hchain
    split at hchain
    case isTrue hown =>
      subst hown
      obtain ⟨rfl, rfl⟩ := cons.inj hchain
      have hextend := ClassDef.name_extend hmerges d
      exact ⟨c, get?_insert_self .., hextend.1.trans hname, hextend.2.trans hparent,
        ClassDef.merges_extend hmerges d⟩
    case isFalse hne =>
      rw [get?_insert_of_ne _ (Ne.symm hne), hclasses]
      exact h.known name d' ancestors hchain

theorem run_declareAll (ds : List ClassDecl) (h : s.Declares before earlier)
    (hnames : ((ds.reverse ++ earlier).map (·.name)).Nodup) :
    ∃ s', (execBlock L (ds.map (·.stmt))).run s = (.ok .normal, s') ∧
      s'.Declares before (ds.reverse ++ earlier) := by
  induction ds generalizing s earlier with
  | nil => exact ⟨s, rfl, h⟩
  | cons d ds ih =>
    rw [reverse_cons, append_assoc, singleton_append] at hnames ⊢
    have hnew : d.name ∉ earlier.map (·.name) := by
      rw [map_append, nodup_append, map_cons] at hnames
      exact (nodup_cons.mp hnames.2.1).1
    obtain ⟨s₁, hrun, hs₁⟩ := run_declare (L := L) h hnew
    obtain ⟨s', hrest, hs'⟩ := ih hs₁ hnames
    exact ⟨s', by rw [map_cons, execBlock, bind_ok hrun, hrest], hs'⟩

end Run

/-! ### Objects -/

theorem get?_propertyFields {ps : List String} (hps : ps.Nodup) (d : Dict Value)
    (args : List Value) : (∀ p ∉ ps, (Run.propertyFields d ps args).get? p = d.get? p) ∧
      ∀ (i : Nat) p, ps[i]? = some p →
        (Run.propertyFields d ps args).get? p = some (args[i]?.getD .null) := by
  induction ps generalizing d args with
  | nil => exact ⟨fun _ _ => rfl, fun i p h => by cases h⟩
  | cons p ps ih =>
    obtain ⟨hp, hps⟩ := nodup_cons.mp hps
    obtain ⟨hother, hown⟩ := ih hps (d.insert p (args.headD .null)) args.tail
    refine ⟨fun q hq => ?_, fun i q hi => ?_⟩ <;> rw [Run.propertyFields]
    · rw [mem_cons, not_or] at hq
      rw [hother q hq.2, get?_insert_of_ne _ hq.1]
    · cases i with
      | zero =>
        cases hi
        rw [hother p hp, get?_insert_self]
        cases args <;> rfl
      | succ i =>
        rw [hown i q hi]
        cases args <;> rfl

namespace Heap
variable {h : Heap} {r : Ref} {m m' : Method Stmt}

def bindMethod (r : Ref) (h : Heap) (m : Method Stmt) : Heap :=
  let (b, h) := h.alloc (.method r m)
  h.set r (.object ((h.fields r).insert m.name (.method b)))

def Binds (h : Heap) (r : Ref) (m : Method Stmt) : Prop :=
  ∃ b, b ≠ r ∧ (h.fields r).get? m.name = some (.method b) ∧ h.cell? b = some (.method r m)

theorem size_bindMethod : (h.bindMethod r m).cells.size = h.cells.size + 1 := by
  simp [bindMethod, set, alloc]

theorem bindMethod_spec (hr : r.index < h.cells.size) :
    (∀ b c, b ≠ r → (h.alloc (.method r m)).2.cell? b = some c →
      (h.bindMethod r m).cell? b = some c) ∧
    (h.bindMethod r m).fields r = (h.fields r).insert m.name (.method ⟨h.cells.size⟩) := by
  have hcell : (h.alloc (.method r m)).2.cell? r = h.cell? r := by
    simp [cell?, alloc, Array.getElem?_push, Nat.ne_of_lt hr]
  have hsome : (h.alloc (.method r m)).2.cell? r = some h.cells[r.index] := by
    rw [hcell]
    exact Array.getElem?_eq_getElem hr
  refine ⟨fun b c hb hc => (cell?_set_of_ne hb).trans hc, ?_⟩
  rw [bindMethod, fields, cell?_set_self hsome]
  simp only [fields, hcell]
  rfl

theorem binds_bindMethod (hr : r.index < h.cells.size) (m : Method Stmt) :
    (h.bindMethod r m).Binds r m := by
  obtain ⟨hcell, hfields⟩ := bindMethod_spec (m := m) hr
  have hne : (⟨h.cells.size⟩ : Ref) ≠ r := fun heq => Nat.lt_irrefl _ (heq ▸ hr)
  exact ⟨_, hne, by rw [hfields, get?_insert_self], hcell _ _ hne (cell?_alloc_self ..)⟩

theorem Binds.other (hm : h.Binds r m) (hr : r.index < h.cells.size) (hne : m.name ≠ m'.name) :
    (h.bindMethod r m').Binds r m := by
  obtain ⟨b, hb, hentry, hbound⟩ := hm
  obtain ⟨hcell, hfields⟩ := bindMethod_spec (m := m') hr
  exact ⟨b, hb, by rw [hfields, get?_insert_of_ne _ hne, hentry],
    hcell b _ hb (extends_alloc h _ b _ hbound)⟩

theorem Binds.others (hm : h.Binds r m) (hr : r.index < h.cells.size)
    (hms : m.name ∉ ms.map (·.name)) : (ms.foldl (bindMethod r) h).Binds r m := by
  induction ms generalizing h with
  | nil => exact hm
  | cons m' ms ih =>
    rw [map_cons, mem_cons, not_or] at hms
    exact ih (hm.other hr hms.1) (by rw [size_bindMethod]; omega) hms.2

theorem binds_foldl {ms : List (Method Stmt)} (hr : r.index < h.cells.size)
    (hms : (ms.map (·.name)).Nodup) : ∀ m ∈ ms, (ms.foldl (bindMethod r) h).Binds r m := by
  induction ms generalizing h with
  | nil => exact forall_mem_nil _
  | cons m ms ih =>
    obtain ⟨hm, hms⟩ := nodup_cons.mp hms
    have hr' : r.index < (h.bindMethod r m).cells.size := by
      rw [size_bindMethod]
      omega
    exact forall_mem_cons.mpr ⟨(binds_bindMethod hr m).others ms hr' hm, ih hr' hms⟩

end Heap

/-- The session with a new object of a class, before its constructor runs. -/
def Session.born (s : Session) (c : ClassDef) (args : List Value) : Session :=
  let start : Dict Value := .ofList [("__class__", .text c.name)]
  { s with heap := (s.heap.newObject (Run.propertyFields start c.properties args)).2 }

namespace Run

def construct (L : Linker) (c : ClassDef) (r : Ref) (args : List Value) : Run Unit :=
  match c.maker with
  | none => pure ()
  | some m => do let _ ← invoke L m.params m.body args (some (.object r))

variable {L : Linker} {s : Session} {c : ClassDef} {name : String} {args : List Value}

theorem run_bindMethods (r : Ref) (ms : List (Method Stmt)) (s : Session) :
    (bindMethods r ms).run s = (.ok (), { s with heap := ms.foldl (Heap.bindMethod r) s.heap }) := by
  induction ms generalizing s with
  | nil => rfl
  | cons m ms ih => exact ih { s with heap := s.heap.bindMethod r m }

theorem run_instantiate (hc : s.classes.get? name = some c) : (instantiate L name args).run s =
      (construct L c ⟨s.heap.cells.size⟩ args >>= fun _ =>
        bindMethods ⟨s.heap.cells.size⟩ c.methods.values >>= fun _ =>
          pure (.object ⟨s.heap.cells.size⟩)).run (s.born c args) := by
  refine (bind_ok (run_get s)).trans ?_
  rw [hc, construct]
  have hnew : (newObject (propertyFields (.ofList [("__class__", .text c.name)]) c.properties
      args)).run s = (.ok (.object ⟨s.heap.cells.size⟩), s.born c args) := rfl
  refine (bind_ok hnew).trans ?_
  dsimp only
  cases c.maker with
  | none => rfl
  | some m => simp only [bind_assoc, pure_bind]

theorem lt_size_construct (n : Nat) (r : Ref) (hr : r.index < s.heap.cells.size) :
    r.index < ((construct (.ofDepth n) c r args).run s).2.heap.cells.size := by
  have hconstruct : Obeys (.watching fun _ => True) true (construct (.ofDepth n) c r args) := by
    unfold construct
    rcases c.maker with _ | m
    · infer_instance
    · exact Alike.bind (alike_invoke fun _ _ => trivial) fun _ => inferInstance
  exact Nat.lt_of_lt_of_le hr
    (hconstruct.run s trivial (.of_forall (fun _ => trivial) _)).kept.cells

/-- A new object of a class under the name has the arguments under its properties, in their
    order, when its constructor begins. It is given back unless the constructor fails, and then
    it has all methods of the class, bound to itself. -/
structure MakesObject (L : Linker) (name : String) (c : ClassDef) (s : Session) (args : List Value)
    (r : Ref) : Prop where
  properties : ∀ (i : Nat) p, c.properties[i]? = some p →
    ((s.born c args).heap.fields r).get? p = some (args[i]?.getD .null)
  fails : ∀ e u, (construct L c r args).run (s.born c args) = (.error e, u) →
    (instantiate L name args).run s = (.error e, u)
  binds : ∀ u, (construct L c r args).run (s.born c args) = (.ok (), u) →
    ∃ u', (instantiate L name args).run s = (.ok (.object r), u') ∧
      ∀ method m, c.methods.get? method = some m →
        ∃ b, (u'.heap.fields r).get? method = some (.method b) ∧ u'.heap.method? b = some (r, m)

theorem makesObject (n : Nat) {chain : List ClassDecl} (hmerges : c.Merges chain)
    (hc : s.classes.get? name = some c) (args : List Value) :
    MakesObject (.ofDepth n) name c s args ⟨s.heap.cells.size⟩ where
  properties i p hp := by
    have hcell : (s.born c args).heap.cell? ⟨s.heap.cells.size⟩ = some (.object (propertyFields
        (.ofList [("__class__", .text c.name)]) c.properties args)) := Heap.cell?_alloc_self ..
    rw [Heap.fields, hcell]
    exact (get?_propertyFields hmerges.nodup_properties _ args).2 i p hp
  fails e u hrun := (run_instantiate hc).trans (bind_error hrun)
  binds u hrun := by
    refine ⟨_, (run_instantiate hc).trans
      ((bind_ok hrun).trans (bind_ok (run_bindMethods _ _ u))), fun method m hm => ?_⟩
    have hsize : s.heap.cells.size < u.heap.cells.size := by
      have hborn : s.heap.cells.size < (s.born c args).heap.cells.size :=
        Nat.lt_of_lt_of_eq (Nat.lt_succ_self _) (Heap.size_alloc ..).symm
      have hlt := @lt_size_construct (s.born c args) c args n ⟨s.heap.cells.size⟩ hborn
      rwa [hrun] at hlt
    -- The methods stand under their own names, and those are distinct.
    have hkeys : c.methods.values.map (·.name) = c.methods.entries.map Prod.fst := by
      rw [values, map_map]
      exact map_congr_left hmerges.named
    obtain ⟨before, after, hentries, -⟩ := lookup_eq_some_iff.mp hm
    have hentry : (method, m) ∈ c.methods.entries := by simp [hentries]
    obtain ⟨b, -, hfield, hbound⟩ := Heap.binds_foldl (h := u.heap) (r := ⟨s.heap.cells.size⟩) hsize
      (hkeys ▸ c.methods.distinct) m (mem_map_of_mem hentry)
    rw [hmerges.named _ hentry] at hfield
    exact ⟨b, hfield, by rw [Heap.method?, hbound]⟩

end Run

/-- Classes are declared one after the other, each name once. Then a class has the properties of
    its ancestors and its own, from the top down and each where it comes first, so those of an
    ancestor are at the beginning; a method is the last one of the nearest in the chain that
    declares it, and so is the constructor. A parent that is not declared before is noted and
    does not count. -/
theorem Session.inheritance_walks_up (n : Nat) (ds : List ClassDecl)
    (hnames : (ds.map (·.name)).Nodup) (s : Session) (hs : s.classes = ∅) :
    ∃ s', (Run.execBlock (.ofDepth n) (ds.map (·.stmt))).run s = (.ok .normal, s') ∧
      s'.diagnostics.toList = s.diagnostics.toList ++ ClassDecl.complaints ds.reverse ∧
      ∀ d ∈ ds, ∃ c chain, chain = ClassDecl.lineage ds.reverse d.name ∧
        s'.classes.get? d.name = some c ∧ c.name = d.name ∧
        c.parent = chain.tail.head?.map (·.name) ∧
        c.properties = (chain.reverse.flatMap (·.properties)).eraseDups ∧
        (∀ a ∈ chain, ∃ c', s'.classes.get? a.name = some c' ∧ c'.properties <+: c.properties) ∧
        (∀ name, c.methods.get? name = chain.findSome? (ClassDecl.method? name)) ∧
        c.maker = chain.findSome? ClassDecl.maker? ∧
        ∀ (t : Session) (args : List Value), t.classes.get? d.name = some c →
          Run.MakesObject (.ofDepth n) d.name c t args ⟨t.heap.cells.size⟩ := by
  have hstart : s.Declares s.diagnostics.toList [] :=
    ⟨(append_nil _).symm, fun name _ => by rw [hs]; rfl, fun _ _ _ h => by cases h⟩
  have hreverse : (ds.reverse.map (·.name)).Nodup := by
    rw [map_reverse, nodup_reverse]
    exact hnames
  obtain ⟨s', hrun, hs'⟩ := Run.run_declareAll (L := .ofDepth n) ds hstart
    (by rwa [append_nil])
  rw [append_nil] at hs'
  refine ⟨s', hrun, hs'.noted, fun d hd => ?_⟩
  have hmem : d.name ∈ ds.reverse.map (·.name) := mem_map_of_mem (mem_reverse.mpr hd)
  obtain ⟨d', ancestors, hchain⟩ := exists_cons_of_ne_nil (ClassDecl.lineage_ne_nil hmem)
  obtain ⟨c, hc, hname, hparent, hmerges⟩ := hs'.known _ _ _ hchain
  refine ⟨c, d' :: ancestors, hchain.symm, hc, hname, hparent, hmerges.properties, fun a ha => ?_,
    hmerges.methods, hmerges.maker, fun t args ht => Run.makesObject n hmerges ht args⟩
  obtain ⟨before, after, hparts, hown⟩ := ClassDecl.lineage_of_mem hreverse (hchain ▸ ha)
  obtain ⟨c', hc', -, -, hmerges'⟩ := hs'.known _ _ _ hown
  refine ⟨c', hc', ?_⟩
  rw [hmerges.properties, hmerges'.properties, ← hchain, hparts, reverse_append,
    flatMap_append, eraseDups_append]
  exact prefix_append _ _

/-- A class, one below it that repeats a property and has a method of its own, and one whose
    parent is not there. -/
def ClassDecl.animals : List ClassDecl :=
  [⟨⟨1, 1⟩, "animal", none, ["name", "legs"], [⟨"speak", [], [], false⟩]⟩,
    ⟨⟨2, 1⟩, "dog", some "animal", ["legs", "owner"], [⟨"speak", ["twice"], [], false⟩]⟩,
    ⟨⟨3, 1⟩, "cod", some "fish", ["fins"], []⟩]

theorem Session.inheritance_walks_up_animals :
    (ClassDecl.animals.map (·.name)).Nodup ∧ ({} : Session).classes = ∅ ∧
    ∃ s', (Run.execBlock (.ofDepth 1) (ClassDecl.animals.map (·.stmt))).run {} = (.ok .normal, s') ∧
      s'.diagnostics.toList = [⟨.warning, "unknown parent class 'fish' for 'cod'", ⟨3, 1⟩⟩] ∧
      ∃ c, s'.classes.get? "dog" = some c ∧ c.properties = ["name", "legs", "owner"] ∧
        c.methods.get? "speak" = some ⟨"speak", ["twice"], [], false⟩ := by
  refine ⟨by decide, rfl, ?_⟩
  obtain ⟨s', hrun, hnoted, hclasses⟩ :=
    Session.inheritance_walks_up 1 ClassDecl.animals (by decide) {} rfl
  obtain ⟨c, chain, rfl, hc, -, -, hproperties, -, hmethods, -⟩ :=
    hclasses _ (mem_cons_of_mem _ (mem_cons_self ..))
  exact ⟨s', hrun, hnoted, c, hc, hproperties, hmethods "speak"⟩

end Parlance
