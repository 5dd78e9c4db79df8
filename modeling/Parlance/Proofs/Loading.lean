import Parlance.Proofs.AlikeExec
import Parlance.Proofs.Cells
import Parlance.Proofs.Interpolation

/-!
# Loading from the Store

A save takes a copy: what goes into the store is made anew from the data of the value. A load
takes none, so a list or an object that was loaded is the one that the store keeps. The object
of a saved game is copied when it is loaded, but the lists and objects in its fields are not.

So a slot holds the same value as long as no statement writes to it, and a second load gives
that value again.

## Main definitions

* `StoreCommand.loaded`: The variables that the command sets where its slot holds a value or none.
* `Session.Gains`: Variables were set, and neither the store nor a cell of the heap has changed.
* `Linker.sparing`: Like the linker of the same depth, but a block with a statement that may write
  to the slot is not run.
* `Linker.Spares`: The block has no statement that may write to the slot, and it comes by no block
  that has one: a linker that does not run those makes no difference.

## Theorems

* `Run.loads_share`: A load sets its variables to the value in the slot itself.
* `Run.loads_share_list`: A list is loaded, appended to and loaded again.
-/

namespace Parlance
open Run StoreCommand Heap

/-! ### Loads -/

namespace StoreCommand

def source? : StoreCommand → Option Slot
  | .loadData key _ => some (.data key)
  | .loadRecord id table _ => some (.record table id)
  | .loadGame slot => some (.game slot)
  | _ => none

/-- The variables that the command sets where its slot holds a value or none. -/
def loaded (h : Heap) (held : Option Value) : StoreCommand → Dict Value
  | .loadData key out => .ofList [(out.getD key, revive (held.getD .null))]
  | .loadRecord id _ out => .ofList [(out.getD id, held.getD .null)]
  | .loadGame _ => match held with
    | some (.object r) => h.fields r
    | _ => ∅
  | _ => ∅

def yields (h : Heap) (held : Option Value) (load : StoreCommand) : Dict Tree :=
  (load.loaded h held).map h.tree

end StoreCommand

/-- Variables were set, and neither the store nor a cell of the heap has changed. -/
structure Session.Gains (d : Dict Value) (s s' : Session) : Prop where
  bag : s'.bag = s.bag.merge d
  host : s'.hosts.storeHost = s.hosts.storeHost
  store : ∀ k, s'.saved? k = s.saved? k
  heap : s.heap.Extends s'.heap

namespace Run
variable {L : Linker} {s : Session}

theorem run_askStore (hs : s.hosts.storeHost = .world) (name : String) (args : List Value) :
    ∃ journal, (askStore name args).run s =
      (World.keep .main name args).run { s with hosts := { s.hosts with journal } } := by
  obtain ⟨journal, hnote⟩ := run_noteStage name (args.map fun v => .value (s.heap.tree v)) s
  refine ⟨journal, ?_⟩
  rw [askStore, bind_ok (run_get s), hs]
  dsimp only
  rw [bind_ok (run_get s), bind_ok hnote]
  rfl

theorem run_hasStore (hs : s.hosts.storeHost = .world) (op : String) :
    (hasStore op).run s = (.ok true, s) := by
  rw [hasStore, capable, bind_ok (run_get s), hs]
  rfl

theorem run_keep_loadData (key : String) (s : Session) :
    (World.keep .main "load_data" [.text key]).run s =
      (.ok ((s.hosts.world.held? (.data key)).getD .null), s) := rfl

theorem run_keep_loadRecord (table id : String) (s : Session) :
    (World.keep .main "load_record" [.text table, .text id]).run s =
      (.ok ((s.hosts.world.held? (.record table id)).getD .null), s) := rfl

theorem run_keep_loadGame (slot : String) (s : Session) :
    (World.keep .main "load_game" [.text slot]).run s =
      match s.hosts.world.held? (.game slot) with
      | some (.object r) => (newObject (s.heap.fields r)).run s
      | _ => (.ok .null, s) := by
  change (match s.hosts.world.held? (.game slot) with
    | some (.object r) => fields r >>= newObject
    | _ => pure .null : Run Value).run s = _
  rcases s.hosts.world.held? (.game slot) with _ | v
  · rfl
  · cases v <;> rfl

theorem run_inStore (hs : s.hosts.storeHost = .world) (op : String) (act : Run Unit) :
    (inStore op act).run s = act.run s := by
  rw [inStore, bind_ok (run_hasStore hs op), if_pos rfl]

theorem saved?_journal (h : Hosts) (journal : Array Note) (k : Slot) :
    { h with journal }.saved? k = h.saved? k := by
  unfold Hosts.saved?
  cases h.storeHost <;> rfl

theorem run_loadGame (hs : s.hosts.storeHost = .world) (slot : String) :
    ∃ s', (StoreCommand.exec L (.loadGame slot)).run s = (.ok (), s') ∧
      s.Gains (StoreCommand.loaded s.heap (s.hosts.world.held? (.game slot)) (.loadGame slot))
        s' := by
  obtain ⟨journal, hask⟩ := run_askStore hs "load_game" [.text slot]
  rw [run_keep_loadGame] at hask
  dsimp only at hask
  have hkept := saved?_journal s.hosts journal
  -- Without a game there is a warning, and no variable is set.
  have hnone (h : (askStore "load_game" [.text slot]).run s =
      (.ok .null, { s with hosts := { s.hosts with journal } })) :
      ∃ s', (StoreCommand.exec L (.loadGame slot)).run s = (.ok (), s') ∧ s.Gains ∅ s' :=
    ⟨_, (run_inStore hs _ _).trans ((bind_ok h).trans (run_warn _ _)), rfl, rfl, hkept,
      .refl⟩
  generalize s.hosts.world.held? (.game slot) = held at hask ⊢
  rcases held with _ | v
  · exact hnone hask
  · cases v
    case object r =>
      have hcopy := s.heap.cell?_alloc_self (.object (s.heap.fields r))
      refine ⟨_, (run_inStore hs _ _).trans ((bind_ok hask).trans (run_modify _ _)), ?_, rfl, hkept,
        s.heap.extends_alloc _⟩
      change s.bag.merge (Heap.fields (s.heap.alloc (.object (s.heap.fields r))).2
        (s.heap.alloc (.object (s.heap.fields r))).1) = s.bag.merge (s.heap.fields r)
      rw [Heap.fields, hcopy]
    all_goals exact hnone hask

theorem run_loading (hs : s.hosts.storeHost = .world) {load : StoreCommand} {k : Slot}
    (hload : load.source? = some k) :
    ∃ s', (load.exec L).run s = (.ok (), s') ∧ s.Gains (load.loaded s.heap (s.saved? k)) s' := by
  have hsaved : s.saved? k = s.hosts.world.held? k := by
    rw [Session.saved?, Hosts.saved?, hs]
  rw [hsaved]
  cases load <;> cases hload
  case loadData key out =>
    obtain ⟨journal, hask⟩ := run_askStore hs "load_data" [.text key]
    rw [run_keep_loadData] at hask
    exact ⟨_, (bind_ok (run_hasStore hs _)).trans (bind_ok hask), rfl, rfl,
      saved?_journal s.hosts journal, .refl⟩
  case loadRecord row table out =>
    obtain ⟨journal, hask⟩ := run_askStore hs "load_record" [.text table, .text row]
    rw [run_keep_loadRecord] at hask
    exact ⟨_, (bind_ok (run_hasStore hs _)).trans (bind_ok hask), rfl, rfl,
      saved?_journal s.hosts journal, .refl⟩
  case loadGame slot => exact run_loadGame hs slot

theorem run_load (hs : s.hosts.storeHost = .world) {load : StoreCommand} {k : Slot}
    (hload : load.source? = some k) (pos : Position) :
    ∃ s', (exec L (.command pos (.store load))).run s = (.ok .normal, s') ∧
      s.Gains (load.loaded s.heap (s.saved? k)) s' := by
  have hplaced : { s with position := some pos }.hosts.storeHost = .world := hs
  obtain ⟨s', hrun, hgains⟩ := run_loading hplaced hload
  exact ⟨s', run_placing_ok (run_normally_ok hrun), hgains.bag, hgains.host, hgains.store,
    hgains.heap⟩

end Run

/-! ### Runs that do not write -/

def Regime.sparing (k : Slot) : Regime where
  allowed st := st.writes k = false
  reached _ := True
  here _ := True
  inside _ := True
  ends := False
  spared := (· = k)

theorem Regime.open_sparing {k : Slot} : (Regime.sparing k).Open :=
  ⟨fun _ => trivial, fun _ _ => trivial, fun _ _ _ _ => trivial, fun _ _ _ => trivial⟩

instance {k : Slot} : (Regime.sparing k).Free := ⟨fun _ _ => trivial⟩

instance Regime.lawful_sparing {k : Slot} : (Regime.sparing k).Lawful where
  call _ _ _ := trivial
  fires _ hf _ := open_sparing.arms hf
  links _ _ _ := .inl open_sparing
  reached _ _ := trivial
  spares st k' hst hk' := by
    obtain rfl : k' = k := hk'
    exact hst

namespace Linker
variable {k : Slot} {n : Nat} {stmts : List Stmt} {s : Session}

/-- Like the linker of the same depth, but a block with a statement that may write to
    the slot is not run. -/
def sparing (k : Slot) : Nat → Linker
  | 0 => ofDepth 0
  | n + 1 => ⟨fun stmts => if (Stmt.blockParts stmts).all fun st => !st.writes k
      then execBlock (sparing k n) stmts else throw .exhausted⟩

instance : Linker.Alike (.sparing k) (sparing k n) (sparing k n) := by
  induction n with
  | zero => exact ⟨fun _ _ _ _ _ => ⟨rfl, .refl, False.elim, .refl⟩⟩
  | succ n ih =>
    refine ⟨fun stmts _ s hs hbodies => ?_⟩
    simp only [sparing]
    by_cases hstmts : (Stmt.blockParts stmts).all fun st => !st.writes k
    · rw [if_pos hstmts]
      have hallowed : Stmt.Throughout (·.writes k = false) stmts := by
        simpa [Stmt.Throughout] using hstmts
      exact (alike_execBlock stmts hallowed).run s hs hbodies
    · rw [if_neg hstmts]
      exact ⟨rfl, .refl, False.elim, .refl⟩

/-- The block has no statement that may write to the slot, and it comes by no block that
    has one: a linker that does not run those makes no difference. -/
structure Spares (k : Slot) (n : Nat) (stmts : List Stmt) (s : Session) : Prop where
  block : Stmt.Throughout (·.writes k = false) stmts
  reached : (execBlock (sparing k n) stmts).run s = (execBlock (ofDepth n) stmts).run s

theorem Spares.saved (h : Spares k n stmts s) :
    ((execBlock (ofDepth n) stmts).run s).2.saved? k = s.saved? k ∧
      ((execBlock (ofDepth n) stmts).run s).2.hosts.storeHost = s.hosts.storeHost := by
  have hblock : Run.Alike (.sparing k) false (execBlock (sparing k n) stmts)
      (execBlock (sparing k n) stmts) := alike_execBlock stmts h.block
  have hkept := (hblock.run s trivial (.of_forall (fun _ => trivial) _)).kept
  rw [← h.reached]
  exact ⟨hkept.store k rfl, congrArg Session.Frame.storeHost hkept.frame⟩

end Linker

/-! ### Two loads -/

theorem Value.isFlat_revive {v : Value} (hv : v.isFlat) : (revive v).isFlat := by
  cases v with
  | text t =>
    rw [revive]
    split
    · rfl
    · split
      · rfl
      · split <;> rfl
  | _ => exact hv

namespace StoreCommand

theorem yields_of_isFlat {load : StoreCommand} {h h' : Heap} {held : Option Value}
    (hheld : ∀ v, held = some v → v.isFlat) : load.yields h held = load.yields h' held := by
  have hflat : (held.getD .null).isFlat := by
    cases held with
    | none => rfl
    | some v => exact hheld v rfl
  cases load with
  | loadData key out =>
    exact congrArg (fun t => (.ofList [(out.getD key, t)] : Dict Tree))
      (tree_of_isFlat (Value.isFlat_revive hflat))
  | loadRecord row table out =>
    exact congrArg (fun t => (.ofList [(out.getD row, t)] : Dict Tree)) (tree_of_isFlat hflat)
  | loadGame slot =>
    rcases held with _ | v
    · rfl
    · cases v with
      | object r => cases hflat
      | _ => rfl
  | _ => rfl

theorem yields_ne {load : StoreCommand} {h : Heap} {held : Option Value} {x : String} {r : Ref}
    {items items' : List Value} (hx : (x, .list r) ∈ (load.loaded h held).entries)
    (hr : h.cell? r = some (.list items)) (hlength : items'.length ≠ items.length) :
    load.yields (h.set r (.list items')) held ≠ load.yields h held := by
  -- The same variables are set to the same values, one of which is the list.
  have hloaded : load.loaded (h.set r (.list items')) held = load.loaded h held := by
    cases load with
    | loadGame slot =>
      rcases held with _ | v
      · rfl
      · cases v with
        | object r' => exact h.fields_set_list hr r'
        | _ => rfl
    | _ => rfl
  intro hyields
  rw [yields, yields, hloaded] at hyields
  have hentries := congrArg Dict.entries hyields
  have htree := List.map_inj_left.mp hentries _ hx
  have hitems := length_items_of_tree_list (congrArg Prod.snd htree)
  rw [Heap.items, Heap.items, Heap.cell?_set_self hr, hr] at hitems
  exact hlength hitems

end StoreCommand

namespace Run
variable {L : Linker} {s : Session}

theorem run_append {x : String} {r : Ref} {items : List Value} (hx : s.bag.get? x = some (.list r))
    (hr : s.heap.cell? r = some (.list items)) (pos pos' : Position) (m : Number) :
    (execBlock L [.command pos (.collection (.append (.number pos' m) x))]).run s =
      (.ok .normal, { s with
        position := some pos
        heap := s.heap.set r (.list (items ++ [.number m])) }) := by
  have happend : (CollectionCommand.exec L (.append (.number pos' m) x)).run
      { s with position := some pos } = (.ok (), { s with
        position := some pos
        heap := s.heap.set r (.list (items ++ [.number m])) }) := by
    have hvar : (var x).run { s with position := some pos } =
        (.ok (.list r), { s with position := some pos }) := by
      change (Except.ok ((s.bag.get? x).getD .null), _) = _
      rw [hx]
      rfl
    have hitems : s.heap.items r = items := by
      rw [Heap.items, hr]
    rw [CollectionCommand.exec, eval, pure_bind]
    refine (bind_ok hvar).trans ?_
    rw [← hitems]
    rfl
  rw [execBlock]
  exact (bind_ok (run_placing_ok (run_normally_ok happend))).trans rfl

/-- A load sets its variables to the value in the slot itself. A block that does not write
    to the slot leaves that value there, so a second load gives it again, and shows the
    same if it is flat. A list is shared: it may be changed through the variable, and the
    second load does not show what the first one did. -/
theorem loads_share (n : Nat) (k : Slot) (s : Session) (load : StoreCommand) (pos : Position)
    (hs : s.hosts.storeHost = .world) (hload : load.source? = some k) :
    ∃ s₁, (exec (.ofDepth n) (.command pos (.store load))).run s = (.ok .normal, s₁) ∧
      s.Gains (load.loaded s.heap (s.saved? k)) s₁ ∧
      (∀ stmts again pos', Linker.Spares k n stmts s₁ → again.source? = some k →
        ∃ s₂ s₃, ((execBlock (.ofDepth n) stmts).run s₁).2 = s₂ ∧ s₂.saved? k = s.saved? k ∧
          (exec (.ofDepth n) (.command pos' (.store again))).run s₂ = (.ok .normal, s₃) ∧
          s₂.Gains (again.loaded s₂.heap (s.saved? k)) s₃ ∧ ((∀ v, s.saved? k = some v → v.isFlat) →
            again.yields s₂.heap (s.saved? k) = again.yields s₁.heap (s.saved? k))) ∧
      ∀ x r items pos' m, (x, .list r) ∈ (load.loaded s₁.heap (s.saved? k)).entries →
        s₁.bag.get? x = some (.list r) → s₁.heap.cell? r = some (.list items) →
        Linker.Spares k n [.command pos' (.collection (.append (.number pos' m) x))] s₁ ∧
          ∃ s₂, (execBlock (.ofDepth n)
              [.command pos' (.collection (.append (.number pos' m) x))]).run s₁ =
                (.ok .normal, s₂) ∧
            load.yields s₂.heap (s.saved? k) ≠ load.yields s₁.heap (s.saved? k) := by
  obtain ⟨s₁, hrun, hgains⟩ := run_load hs hload pos
  refine ⟨s₁, hrun, hgains, fun stmts again pos' hspares hagain => ?_, ?_⟩
  -- The first load and the block both keep the slot, so the second load finds it as it was.
  · obtain ⟨hsaved, hhost⟩ := hspares.saved
    rw [hgains.store k] at hsaved
    rw [hgains.host, hs] at hhost
    obtain ⟨s₃, hrun', hgains'⟩ := run_load hhost hagain pos'
    rw [hsaved] at hgains'
    exact ⟨_, s₃, rfl, hsaved, hrun', hgains', yields_of_isFlat⟩
  -- Appending runs no other block, so it is the same with every linker.
  · intro x r items pos' m hentry hx hr
    have happend (L : Linker) := @run_append L s₁ x r items hx hr pos' pos' m
    refine ⟨⟨?_, (happend _).trans (happend _).symm⟩, _, happend _, ?_⟩
    · intro st hst
      obtain rfl := List.mem_singleton.mp hst
      rfl
    · refine yields_ne hentry hr ?_
      rw [List.length_append]
      exact Nat.succ_ne_self _

/-- A list is loaded, appended to and loaded again. -/
theorem loads_share_list :
    let s : Session :=
      { heap := ⟨#[.list [.int 1]]⟩
        hosts := { storeHost := .world, world := { store := .ofList [("k", .list ⟨0⟩)] } } }
    let load : StoreCommand := .loadData "k" (some "a")
    let append : Stmt := .command ⟨2, 1⟩ (.collection (.append (.number ⟨2, 1⟩ (.int 2)) "a"))
    (s.hosts.storeHost = .world ∧ load.source? = some (.data "k") ∧
      s.saved? (.data "k") = some (.list ⟨0⟩)) ∧
    ∃ s₁ s₂ s₃, (exec .full (.command ⟨1, 1⟩ (.store load))).run s = (.ok .normal, s₁) ∧
      (execBlock .full [append]).run s₁ = (.ok .normal, s₂) ∧
      (exec .full (.command ⟨3, 1⟩ (.store load))).run s₂ = (.ok .normal, s₃) ∧
      load.yields s₂.heap (some (.list ⟨0⟩)) ≠ load.yields s₁.heap (some (.list ⟨0⟩)) := by
  intro s load append
  have hsaved : s.saved? (.data "k") = some (.list ⟨0⟩) := rfl
  obtain ⟨s₁, hfirst, hgains, hagain, hshared⟩ :=
    loads_share Linker.maxDepth (.data "k") s load ⟨1, 1⟩ rfl rfl
  have hbag : s₁.bag.get? "a" = some (.list ⟨0⟩) := congrArg (·.get? "a") hgains.bag
  obtain ⟨hspares, s₂, happend, hne⟩ := hshared "a" ⟨0⟩ [.int 1] ⟨2, 1⟩ (.int 2)
    (List.mem_singleton.mpr rfl) hbag (hgains.heap _ _ rfl)
  obtain ⟨s₂', s₃, hblock, -, hsecond, -⟩ := hagain [append] load ⟨3, 1⟩ hspares rfl
  rw [happend] at hblock
  subst hblock
  exact ⟨⟨rfl, rfl, hsaved⟩, s₁, s₂, s₃, hfirst, happend, hsecond, hne⟩

end Run
end Parlance
