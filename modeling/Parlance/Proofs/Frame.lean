import Parlance.Proofs.Slot

/-!
# What a Run Leaves Alone

A session holds much that a statement may change. The rest is its frame: the saved copies of
the bag and the number of calls under way, which a call changes and puts back, and the rules,
which only the owner of a session changes.

Six facts are carried along every run. Expressions leave the bag alone. The bodies that a call
can reach come from statements that have run, and so do those of events. A response stays. A
place of the store stays as it is unless a command writes to it. Warnings are given at the
statement under way.

## Main definitions

* `ClassDef.allMethods`: The methods of a class with the one that makes objects.
* `Heap.Bodies`: The property holds of all parts of all methods on the heap.
* `Session.Events`: Every event comes from a statement of which all parts have the property.
* `Session.Frame`: The part of a session that no statement changes.
* `Session.Kept`: The second session has the frame of the first one, its response if there is one,
  and its bag as well where that is asked for.

## Theorems

* `Session.Kept.trans`: What two changes keep, both of them keep.
* `Session.Mark.Leads.trans`: Trails of marks are joined end to end.
* `Run.bind_ok`: A sequence whose first step gives a value goes on with it.
* `Run.Within.bind`: Two computations within a bound, in sequence, are within it.
-/

namespace Parlance
open Except Stmt

/-! ### The parts of a statement -/

namespace Stmt

mutual

def parts : Stmt → List Stmt
  | .command pos c => [.command pos c]
  | .awaiting pos innerPos c => [.awaiting pos innerPos c]
  | .awaitValue pos e out => [.awaitValue pos e out]
  | .defineEvent pos id body => .defineEvent pos id body :: blockParts body
  | .choice pos prompt options => .choice pos prompt options :: optionParts options
  | .branch pos cond thenBody elseBody =>
    .branch pos cond thenBody elseBody :: (blockParts thenBody ++ blockParts elseBody)
  | .times pos count body => .times pos count body :: blockParts body
  | .whileLoop pos cond body => .whileLoop pos cond body :: blockParts body
  | .forEach pos item list body => .forEach pos item list body :: blockParts body
  | .breakLoop pos => [.breakLoop pos]
  | .skipRound pos => [.skipRound pos]
  | .giveBack pos e => [.giveBack pos e]
  | .attempt pos body errorName handler none =>
    .attempt pos body errorName handler none :: (blockParts body ++ blockParts handler)
  | .attempt pos body errorName handler (some cleanup) =>
    .attempt pos body errorName handler (some cleanup) ::
      (blockParts body ++ blockParts handler ++ blockParts cleanup)
  | .cases pos subject arms default =>
    .cases pos subject arms default :: (armParts arms ++ blockParts default)
  | .defineFunction pos name params body =>
    .defineFunction pos name params body :: blockParts body
  | .reduce pos list total item initial body out =>
    .reduce pos list total item initial body out :: blockParts body
  | .route pos method path request body => .route pos method path request body :: blockParts body
  | .defineClass pos name parent properties methods =>
    .defineClass pos name parent properties methods :: methodParts methods

def blockParts : List Stmt → List Stmt
  | [] => []
  | st :: rest => parts st ++ blockParts rest

def optionParts : List (String × List Stmt) → List Stmt
  | [] => []
  | (_, body) :: rest => blockParts body ++ optionParts rest

def armParts : List (CaseTest × List Stmt) → List Stmt
  | [] => []
  | (_, body) :: rest => blockParts body ++ armParts rest

def methodParts : List (Method Stmt) → List Stmt
  | [] => []
  | ⟨_, _, body, _⟩ :: rest => blockParts body ++ methodParts rest

end

def Throughout (p : Stmt → Prop) (body : List Stmt) : Prop := ∀ st ∈ blockParts body, p st

theorem mem_parts_self (st : Stmt) : st ∈ st.parts := by
  cases st with
  | attempt pos body errorName handler cleanup => cases cleanup <;> simp [parts]
  | _ => simp [parts]

end Stmt

/-! ### Bodies in a session -/

/-- The methods of a class with the one that makes objects. -/
def ClassDef.allMethods (c : ClassDef) : List (Method Stmt) := c.methods.values ++ c.maker.toList

namespace Heap
variable {P : Heap → Prop}

def KeptByData (P : Heap → Prop) : Prop :=
  ∀ h c, (∀ owner m, c ≠ .method owner m) → P h → P (h.alloc c).2

mutual

theorem KeptByData.ofJson (hP : KeptByData P) : (j : Json) → {h : Heap} → P h → P (h.ofJson j).2
  | .null, _, hh | .bool _, _, hh | .number _, _, hh | .text _, _, hh => by
    simpa only [Heap.ofJson] using hh
  | .array items, _, hh => by
    simpa only [Heap.ofJson, newList] using hP _ (.list _) nofun (hP.ofJsonItems items hh)
  | .object fields, _, hh => by
    simpa only [Heap.ofJson, newObject] using hP _ (.object _) nofun (hP.ofJsonFields fields hh)

theorem KeptByData.ofJsonItems (hP : KeptByData P) :
    (js : List Json) → {h : Heap} → P h → P (h.ofJsonItems js).2
  | [], _, hh => by simpa only [Heap.ofJsonItems] using hh
  | j :: rest, _, hh => by
    simpa only [Heap.ofJsonItems] using hP.ofJsonItems rest (hP.ofJson j hh)

theorem KeptByData.ofJsonFields (hP : KeptByData P) :
    (fs : List (String × Json)) → {h : Heap} → P h → P (h.ofJsonFields fs).2
  | [], _, hh => by simpa only [Heap.ofJsonFields] using hh
  | (_, j) :: rest, _, hh => by
    simpa only [Heap.ofJsonFields] using hP.ofJsonFields rest (hP.ofJson j hh)

end

theorem size_le_alloc (h : Heap) (c : Cell) : h.cells.size ≤ (h.alloc c).2.cells.size := by
  simp [alloc]

theorem size_le_set (h : Heap) (r : Ref) (c : Cell) : h.cells.size ≤ (h.set r c).cells.size := by
  simp [set]

theorem size_le_ofJson (h : Heap) (j : Json) : h.cells.size ≤ (h.ofJson j).2.cells.size :=
  have hgrows : KeptByData (h.cells.size ≤ ·.cells.size) :=
    fun h' c _ hle => Nat.le_trans hle (h'.size_le_alloc c)
  hgrows.ofJson j (Nat.le_refl _)

end Heap

/-- The property holds of all parts of all methods on the heap. -/
def Heap.Bodies (p : Stmt → Prop) (h : Heap) : Prop :=
  ∀ r owner m, h.cell? r = some (.method owner m) → Throughout p m.body

namespace Heap.Bodies
variable {p : Stmt → Prop} {h : Heap}

theorem alloc (hh : h.Bodies p) {c : Cell}
    (hc : ∀ owner m, c = .method owner m → Throughout p m.body) : (h.alloc c).2.Bodies p := by
  intro r owner m hr
  change (h.cells.push c)[r.index]? = some (.method owner m) at hr
  -- The reference leads to the new cell or to an old one.
  rw [Array.getElem?_push] at hr
  split at hr
  · exact hc owner m (Option.some.inj hr)
  · exact hh r owner m hr

theorem newList (hh : h.Bodies p) (items : List Value) : (h.newList items).2.Bodies p :=
  hh.alloc nofun

theorem newObject (hh : h.Bodies p) (fields : Dict Value) : (h.newObject fields).2.Bodies p :=
  hh.alloc nofun

theorem set (hh : h.Bodies p) (r : Ref) {c : Cell} (hc : ∀ owner m, c ≠ .method owner m) :
    (h.set r c).Bodies p := by
  intro r' owner m hr
  change (h.cells.setIfInBounds r.index c)[r'.index]? = some (.method owner m) at hr
  -- The cell at the reference is data now, and the others are as before.
  rw [Array.getElem?_setIfInBounds] at hr
  split at hr
  · split at hr
    · exact absurd (Option.some.inj hr) (hc owner m)
    · cases hr
  · exact hh r' owner m hr

theorem ofJson (hh : h.Bodies p) (j : Json) : (h.ofJson j).2.Bodies p :=
  have hdata : KeptByData (Heap.Bodies p) := fun _ _ hc hh => hh.alloc fun owner m h =>
    absurd h (hc owner m)
  hdata.ofJson j hh

end Heap.Bodies

namespace Session

structure Bodies (p : Stmt → Prop) (s : Session) : Prop where
  functions : ∀ f ∈ s.functions.values, Throughout p f.body
  modules : ∀ d ∈ s.modules.values, ∀ f ∈ d.values, Throughout p f.body
  classes : ∀ c ∈ s.classes.values, ∀ m ∈ c.allMethods, Throughout p m.body
  methods : s.heap.Bodies p

theorem Bodies.of_forall {p : Stmt → Prop} (hp : ∀ st, p st) (s : Session) : s.Bodies p where
  functions _ _ st _ := hp st
  modules _ _ _ _ st _ := hp st
  classes _ _ _ _ st _ := hp st
  methods _ _ _ _ st _ := hp st

/-- Every event comes from a statement of which all parts have the property. -/
def Events (p : Stmt → Prop) (s : Session) : Prop :=
  ∀ body ∈ s.definedEvents.values, ∃ pos id, ∀ part ∈ (defineEvent pos id body).parts, p part

theorem Events.of_forall {p : Stmt → Prop} (hp : ∀ st, p st) (s : Session) : s.Events p :=
  fun _ _ => ⟨.start, "", fun part _ => hp part⟩

/-! ### What is kept -/

/-- The part of a session that no statement changes. -/
structure Frame where
  snapshots : List (Dict Value)
  depth : Nat
  importing : List String
  inRequest : Bool
  program : Option Program
  eventRules : Dict (List Rule)
  conditionRules : List Rule
  options : Options
  callbacks : Callbacks
  storeHost : StoreHost

def frame (s : Session) : Frame :=
  ⟨s.snapshots, s.depth, s.importing, s.inRequest, s.program, s.eventRules, s.conditionRules,
    s.options, s.hosts.callbacks, s.hosts.storeHost⟩

/-- The second session has the frame of the first one, its response if there is one,
    and its bag as well where that is asked for. A property of the bodies in the first
    one is one of those in the second, and so for events. The store has the same in the
    slots of `K`. No cell is gone. -/
structure Kept (p : Stmt → Prop) (K : Slot → Prop) (whole : Bool) (s s' : Session) : Prop where
  frame : s'.frame = s.frame
  bag : whole = true → s'.bag = s.bag
  bodies : s.Bodies p → s'.Bodies p
  response : s.response.isSome → s'.response = s.response
  store : ∀ k, K k → s'.saved? k = s.saved? k
  events : s.Events p → s'.Events p
  cells : s.heap.cells.size ≤ s'.heap.cells.size

variable {p : Stmt → Prop} {K : Slot → Prop} {whole : Bool} {s s' s'' : Session}

theorem Kept.refl : Kept p K whole s s :=
  ⟨rfl, fun _ => rfl, id, fun _ => rfl, fun _ _ => rfl, id, Nat.le_refl _⟩

/-- What two changes keep, both of them keep. -/
theorem Kept.trans (h : Kept p K whole s s') (h' : Kept p K whole s' s'') :
    Kept p K whole s s'' where
  frame := h'.frame.trans h.frame
  bag hw := (h'.bag hw).trans (h.bag hw)
  bodies := h'.bodies ∘ h.bodies
  response hr := (h'.response (h.response hr ▸ hr)).trans (h.response hr)
  store k hk := (h'.store k hk).trans (h.store k hk)
  events := h'.events ∘ h.events
  cells := Nat.le_trans h.cells h'.cells

theorem Kept.of_whole (h : Kept p K true s s') : Kept p K whole s s' :=
  ⟨h.frame, fun _ => h.bag rfl, h.bodies, h.response, h.store, h.events, h.cells⟩

/-- The session with a warning at the statement under way. -/
def warned (s : Session) (message : String) : Session :=
  let d : Diagnostic := ⟨.warning, message, s.position.getD ⟨0, 0⟩⟩
  { s with
    diagnostics := s.diagnostics.push d
    log := s.log.push ⟨.warning, .runtime, d.text⟩ }

/-! ### What is told -/

/-- Where a session is in its script, and what it has told the user. -/
structure Mark where
  position : Option Position
  diagnostics : Array Diagnostic

def mark (s : Session) : Mark := ⟨s.position, s.diagnostics⟩

namespace Mark

def noted (m : Mark) (d : Diagnostic) : Mark := { m with diagnostics := m.diagnostics.push d }

/-- A warning at the statement under way. -/
def warning (m : Mark) (message : String) : Diagnostic :=
  ⟨.warning, message, m.position.getD ⟨0, 0⟩⟩

/-- From the first mark to the second one, the warnings in the list were given, each at the
    statement under way, and between them errors were noted and blocks were run. -/
inductive Trail (B : Mark → Mark → Prop) (m : Mark) : List Diagnostic → Mark → Prop
  | start : Trail B m [] m
  | warning {own : List Diagnostic} {m' : Mark} (h : Trail B m own m') (message : String) :
    Trail B m (own ++ [m'.warning message]) (m'.noted (m'.warning message))
  | error {own : List Diagnostic} {m' : Mark} {d : Diagnostic} (h : Trail B m own m')
    (hd : d.severity = .error) : Trail B m own (m'.noted d)
  | block {own : List Diagnostic} {m' m'' : Mark} (h : Trail B m own m') (hblock : B m' m'') :
    Trail B m own m''

def Leads (B : Mark → Mark → Prop) (m m' : Mark) : Prop := ∃ own, Trail B m own m'

/-- No block was run. -/
def Told (m m' : Mark) : Prop := m.Leads (fun _ _ => False) m'

variable {B : Mark → Mark → Prop} {m m' m'' : Mark}

theorem Leads.refl : m.Leads B m := ⟨[], .start⟩

theorem Leads.of_eq (h : m' = m) : m.Leads B m' := h ▸ .refl

/-- Trails of marks are joined end to end. -/
theorem Leads.trans (h : m.Leads B m') (h' : m'.Leads B m'') : m.Leads B m'' := by
  obtain ⟨own', h'⟩ := h'
  induction h' with
  | start => exact h
  | warning _ message ih => exact ih.imp' (· ++ _) fun _ h => h.warning message
  | error _ hd ih => exact ih.imp fun _ h => h.error hd
  | block _ hblock ih => exact ih.imp fun _ h => h.block hblock

theorem Leads.of_block (h : B m m') : m.Leads B m' := ⟨[], Trail.start.block h⟩

theorem Told.leads (h : m.Told m') : m.Leads B m' := by
  obtain ⟨own, h⟩ := h
  induction h with
  | start => exact .refl
  | warning _ message ih => exact ih.imp' (· ++ _) fun _ h => h.warning message
  | error _ hd ih => exact ih.imp fun _ h => h.error hd
  | block _ hblock => exact hblock.elim

theorem told_append {ds : List Diagnostic} (h : ∀ d ∈ ds, d.severity = .error) :
    m.Told { m with diagnostics := m.diagnostics ++ ds.toArray } := by
  induction ds generalizing m with
  | nil => exact ⟨[], by simpa using Trail.start⟩
  | cons d ds ih =>
    have hd : m.Told (m.noted d) := ⟨[], Trail.start.error (h d List.mem_cons_self)⟩
    have hds := ih (m := m.noted d) fun d' hd' => h d' (List.mem_cons_of_mem _ hd')
    simpa [Told, noted] using hd.trans hds

end Mark
end Session

namespace Run
variable {α β : Type} {x : Run α} {s : Session} {f : α → Run β} {e : Signal} {args : List Noted}

/-! ### Runs -/

theorem run_bind (x : Run α) (f : α → Run β) (s : Session) :
    (x >>= f).run s = match x.run s with
      | (.ok a, s') => (f a).run s'
      | (.error e, s') => (.error e, s') := by
  change ExceptT.bindCont f (x.run s).1 (x.run s).2 = _
  rcases x.run s with ⟨_ | _, _⟩ <;> rfl

/-- A sequence whose first step gives a value goes on with it. -/
theorem bind_ok {s' : Session} {a : α} (h : x.run s = (.ok a, s')) :
    (x >>= f).run s = (f a).run s' := by
  rw [run_bind, h]

theorem bind_error {s' : Session} (h : x.run s = (.error e, s')) :
    (x >>= f).run s = (.error e, s') := by
  rw [run_bind, h]

theorem ok_of_bind {u : Session} {b : β} (h : (x >>= f).run s = (.ok b, u)) :
    ∃ a s', x.run s = (.ok a, s') ∧ (f a).run s' = (.ok b, u) := by
  rw [run_bind] at h
  rcases hx : x.run s with ⟨e | a, s'⟩ <;> rw [hx] at h
  · cases h
  · exact ⟨a, s', rfl, h⟩

theorem run_get (s : Session) : (get : Run Session).run s = (.ok s, s) := rfl

theorem run_modify (f : Session → Session) (s : Session) :
    (modify f : Run Unit).run s = (.ok (), f s) := rfl

theorem run_var {name : String} {v : Value} (h : s.bag.get? name = some v) :
    (var name).run s = (.ok v, s) := by
  change (ok ((s.bag.get? name).getD .null), s) = _
  rw [h]
  rfl

theorem run_items {r : Ref} {vs : List Value} (h : s.heap.cell? r = some (.list vs)) :
    (items r).run s = (.ok vs, s) := by
  change (ok (s.heap.items r), s) = _
  rw [Heap.items, h]

theorem run_warn (message : String) (s : Session) :
    (warn message).run s = (.ok (), s.warned message) := rfl

theorem run_attempt (x : Run α) (s : Session) :
    (attempt x).run s = match x.run s with
      | (.ok a, s') => (.ok (.ok a), s')
      | (.error (.failure f), s') => (.ok (.error f), s')
      | (.error e, s') => (.error e, s') := rfl

theorem snd_run_attempt (x : Run α) (s : Session) : ((attempt x).run s).2 = (x.run s).2 := by
  rw [run_attempt]
  rcases x.run s with ⟨(f | n | d | _) | a, s'⟩ <;> rfl

theorem run_attempt_exhausted (h : ((attempt x).run s).1 = .error .exhausted) :
    (x.run s).1 = .error .exhausted := by
  rw [run_attempt] at h
  rcases hx : x.run s with ⟨(f | n | d | _) | a, s'⟩ <;> rw [hx] at h <;> cases h

theorem run_ensure (x : Run α) (after : Session → Session) (s : Session) :
    (ensure x after).run s = ((x.run s).1, after (x.run s).2) := rfl

/-! ### Computations within a bound -/

/-- What a computation may do to the session, and the signals that may end it. -/
structure Bound where
  step : Session → Session → Prop
  ends : Signal → Prop
  refl (s : Session) : step s s
  trans {s s' s'' : Session} : step s s' → step s' s'' → step s s''
  notes (s : Session) (diagnostics : Array Diagnostic) (log : Array LogEntry)
    (h : s.mark.Told ⟨s.position, diagnostics⟩) : step s { s with diagnostics, log }
  signals {e : Signal} : e ≠ .exhausted → ends e

/-- Within the bound one may also make lists and objects, and the hosts may take note of it. -/
class Bound.Making (B : Bound) : Prop where
  list (s : Session) (items : List Value) : B.step s { s with heap := (s.heap.newList items).2 }
  object (s : Session) (d : Dict Value) : B.step s { s with heap := (s.heap.newObject d).2 }
  journal (s : Session) (journal : Array Note) :
    B.step s { s with hosts := { s.hosts with journal } }

/-- The computation stays within the bound, however it ends. -/
class Within (B : Bound) (x : Run α) : Prop where
  steps : ∀ s : Session, B.step s (x.run s).2
  signals : ∀ (s : Session) (e : Signal), (x.run s).1 = .error e → B.ends e

section Within
variable {B : Bound} {x y : Run α}

instance within_pure {a : α} : Within B (pure a) := ⟨B.refl, fun _ _ => nofun⟩

theorem within_throw (he : e ≠ .exhausted) : Within B (throw e : Run α) :=
  ⟨B.refl, fun _ _ h => error.inj h ▸ B.signals he⟩

instance within_throw_failure {f : Failure} : Within B (throw (.failure f) : Run α) :=
  within_throw nofun

instance {code : Int} : Within B (throw (.exit code) : Run α) := within_throw nofun

instance within_throw_defect {d : Defect} : Within B (throw (.defect d) : Run α) :=
  within_throw nofun

instance within_get : Within B (get : Run Session) := ⟨B.refl, fun _ _ => nofun⟩

/-- Two computations within a bound, in sequence, are within it. -/
theorem Within.bind (hx : Within B x) (hf : ∀ a, Within B (f a)) : Within B (x >>= f) := by
  refine ⟨fun s => ?_, fun s e h => ?_⟩ <;> have hsteps := hx.steps s <;>
    rcases hrun : x.run s with ⟨e' | a, s₁⟩ <;> rw [hrun] at hsteps
  · rw [bind_error hrun]
    exact hsteps
  · rw [bind_ok hrun]
    exact B.trans hsteps ((hf a).steps s₁)
  · rw [bind_error hrun] at h
    exact hx.signals s e (hrun ▸ congrArg error (error.inj h))
  · rw [bind_ok hrun] at h
    exact (hf a).signals s₁ e h

/-- The first step is found by inference; what follows it is given. -/
theorem Within.next [hx : Within B x] (hf : ∀ a, Within B (f a)) : Within B (x >>= f) := hx.bind hf

instance within_bind [hx : Within B x] [hf : ∀ a, Within B (f a)] : Within B (x >>= f) := hx.bind hf

instance {f : α → β} [Within B x] : Within B (f <$> x) := by
  rw [map_eq_pure_bind]
  infer_instance

instance within_ite {p : Prop} [Decidable p] [hx : Within B x] [hy : Within B y] :
    Within B (if p then x else y) := by
  split
  · exact hx
  · exact hy

instance {xs : List β} {b : α} {f : β → α → Run (ForInStep α)}
    [∀ x b, Within B (f x b)] : Within B (forIn xs b f) := by
  induction xs generalizing b with
  | nil => exact within_pure
  | cons x xs ih =>
    rw [List.forIn_cons]
    refine .next fun r => ?_
    -- A turn ends the loop or hands a value on to the rest.
    cases r with
    | done b => exact within_pure
    | yield b => exact ih

variable {message name : String} {r : Ref} {v w : Value}

instance {x : Except Defect α} : Within B (lift x) := by
  cases x with
  | ok a => exact within_pure
  | error d => exact within_throw_defect

instance within_fail {kind : FailureKind} {origin : Option Position} :
    Within B (fail kind message origin : Run α) := within_throw_failure

instance within_hostFail : Within B (hostFail message : Run α) := within_fail

instance {level : LogLevel} {channel : LogChannel} : Within B (log level channel message) :=
  ⟨fun s => B.notes s s.diagnostics _ .refl, fun _ _ => nofun⟩

instance within_warn : Within B (warn message) :=
  ⟨fun s => B.notes s _ _ ⟨_, .warning .start message⟩, fun _ _ => nofun⟩

instance {f : Failure} : Within B (report f) :=
  ⟨fun s => B.notes s _ _ ⟨_, .error .start rfl⟩, fun _ _ => nofun⟩

instance : Within B (var? name) := within_bind
instance : Within B (var name) := within_bind
instance : Within B (items r) := within_bind
instance : Within B (fields r) := within_bind
instance : Within B (text v) := within_bind
instance : Within B (display v) := within_bind
instance : Within B (document v) := within_bind
instance : Within B (json v) := within_bind
instance : Within B (number v) := within_bind
instance {default : Int} : Within B (int v default) := within_bind
instance : Within B (same v w) := within_bind
instance : Within B (looseEqual v w) := within_bind
instance : Within B (order? v w) := within_bind
instance : Within B (tree v) := within_bind

end Within

section Making
variable {B : Bound} [hB : B.Making]

instance {items : List Value} : Within B (newList items) :=
  ⟨fun s => hB.list s items, fun _ _ => nofun⟩

instance {d : Dict Value} : Within B (newObject d) := ⟨fun s => hB.object s d, fun _ _ => nofun⟩

instance {name : String} : Within B (note name args) :=
  ⟨fun s => hB.journal s _, fun _ _ => nofun⟩

end Making

/-! ### Quiet computations -/

/-- All that can be kept is kept, no block is run, and there is no cut. -/
def Bound.quiet : Bound where
  step s s' := (∀ (p : Stmt → Prop) (K : Slot → Prop), s.Kept p K true s') ∧ s.mark.Told s'.mark
  ends e := e ≠ .exhausted
  refl _ := ⟨fun _ _ => .refl, .refl⟩
  trans h h' := ⟨fun p K => (h.1 p K).trans (h'.1 p K), h.2.trans h'.2⟩
  notes _ _ _ htold := ⟨fun _ _ => ⟨rfl, fun _ => rfl,
    fun h => ⟨h.functions, h.modules, h.classes, h.methods⟩, fun _ => rfl, fun _ _ => rfl, id,
    Nat.le_refl _⟩, htold⟩
  signals := id

abbrev Quiet (x : Run α) : Prop := Within .quiet x

section Quiet
variable {x : Run α}

theorem Quiet.of_kept (h : ∀ (p : Stmt → Prop) (K : Slot → Prop) (s : Session),
    s.Kept p K true (x.run s).2) (hmark : ∀ s : Session, (x.run s).2.mark = s.mark)
    (hends : ∀ s : Session, (x.run s).1 ≠ .error .exhausted) : Quiet x :=
  ⟨fun s => ⟨fun p K => h p K s, .of_eq (hmark s)⟩, fun s _ hrun he => hends s (he ▸ hrun)⟩

theorem Quiet.kept (h : Quiet x) (p : Stmt → Prop) (K : Slot → Prop) (s : Session) :
    s.Kept p K true (x.run s).2 := (h.steps s).1 p K

theorem Quiet.told (h : Quiet x) (s : Session) : s.mark.Told (x.run s).2.mark := (h.steps s).2

theorem Quiet.ends (h : Quiet x) (s : Session) : (x.run s).1 ≠ .error .exhausted :=
  fun hrun => h.signals s _ hrun rfl

instance quiet_modify {exports : Session → Option (List String)}
    {routes : Session → List Route} {parseDiagnostics : Session → Array Diagnostic}
    {lastChoice : Session → Option Int} {log : Session → Array LogEntry}
    {seed stamp : Session → Nat} :
    Quiet (modify fun s => ⟨s.heap, s.bag, s.snapshots, s.depth, s.importing, exports s,
      s.inRequest, s.response, s.position, s.program, s.eventRules, s.conditionRules, s.functions,
      s.classes, s.definedEvents, s.modules, routes s, parseDiagnostics s, s.diagnostics,
      lastChoice s, s.options, s.hosts, log s, seed s, stamp s⟩ : Run Unit) :=
  .of_kept (fun _ _ _ => ⟨rfl, fun _ => rfl,
    fun h => ⟨h.functions, h.modules, h.classes, h.methods⟩, fun _ => rfl, fun _ _ => rfl, id,
    Nat.le_refl _⟩) (fun _ => rfl) fun _ => nofun

theorem kept_modifyHosts {p : Stmt → Prop} {K : Slot → Prop} {f : Hosts → Hosts} {s : Session}
    (hcallbacks : (f s.hosts).callbacks = s.hosts.callbacks)
    (hhost : (f s.hosts).storeHost = s.hosts.storeHost)
    (hstore : ∀ k, K k → (f s.hosts).saved? k = s.hosts.saved? k) :
    s.Kept p K true ((modifyHosts f).run s).2 where
  frame := by
    change Session.frame { s with hosts := f s.hosts } = s.frame
    rw [Session.frame, hcallbacks, hhost]
    rfl
  bag _ := rfl
  bodies h := ⟨h.functions, h.modules, h.classes, h.methods⟩
  response _ := rfl
  store k hk := hstore k hk
  events := id
  cells := Nat.le_refl _

instance quiet_modifyHosts {stage : Hosts → Stage} {machine : Hosts → MachineHost}
    {network : Hosts → NetworkHost} {database : Hosts → DatabaseHost}
    {sockets : Hosts → SocketHost} {files : Hosts → Files} {environment : Hosts → Dict String}
    {shell : Hosts → Files → Dict String → String → ShellResult} {tileSize : Hosts → Int}
    {echo : Hosts → Bool} {printed : Hosts → Array String} {record : Hosts → Bool}
    {journal : Hosts → Array Note} {notices : Hosts → Array Notice}
    {choices : Hosts → List Value} :
    Quiet (modifyHosts fun h => ⟨stage h, h.world, h.storeHost, h.separate, machine h, network h,
      database h, sockets h, files h, environment h, shell h, tileSize h, echo h, printed h,
      record h, journal h, h.callbacks, notices h, choices h⟩) :=
  .of_kept (fun _ _ _ => kept_modifyHosts rfl rfl fun _ _ => rfl) (fun _ => rfl) fun _ => nofun

theorem quiet_modifyHeap {f : Session → α × Heap}
    (hf : ∀ (p : Stmt → Prop) (s : Session), s.heap.Bodies p → (f s).2.Bodies p)
    (hcells : ∀ s : Session, s.heap.cells.size ≤ (f s).2.cells.size) :
    Quiet (modifyGet fun s => ((f s).1, { s with heap := (f s).2 }) : Run α) :=
  .of_kept (fun p _ s => ⟨rfl, fun _ => rfl,
    fun h => ⟨h.functions, h.modules, h.classes, hf p s h.methods⟩, fun _ => rfl, fun _ _ => rfl,
    id, hcells s⟩) (fun _ => rfl) fun _ => nofun

instance : Bound.quiet.Making where
  list s items :=
    (quiet_modifyHeap (fun _ _ h => h.newList items) fun s => s.heap.size_le_alloc _).steps s
  object s d :=
    (quiet_modifyHeap (fun _ _ h => h.newObject d) fun s => s.heap.size_le_alloc _).steps s
  journal s journal :=
    (inferInstance : Quiet (modifyHosts fun h => { h with journal })).steps s

end Quiet

/-! ### Primitives -/

section Primitives
variable {r : Ref}

instance {j : Json} : Quiet (ofJson j) :=
  quiet_modifyHeap (fun _ _ h => h.ofJson j) fun s => s.heap.size_le_ofJson j

instance {v : Value} : Quiet (plain v) := within_bind

instance {items : List Value} : Quiet (setItems r items) :=
  quiet_modifyHeap (f := fun s => ((), s.heap.set r (.list items))) (fun _ _ h => h.set r nofun)
    fun s => s.heap.size_le_set r _

instance {fields : Dict Value} : Quiet (setFields r fields) :=
  quiet_modifyHeap (f := fun s => ((), s.heap.set r (.object fields))) (fun _ _ h => h.set r nofun)
    fun s => s.heap.size_le_set r _

instance {n : Notice} : Quiet (tell n) := quiet_modifyHosts

-- What is inferred of a long text stays small if this is found in one step.
instance {name : String} : Quiet (note name args) := quiet_modifyHosts

end Primitives
end Run
end Parlance
