import Parlance.Proofs.NormalSyntax
import Parlance.Proofs.Unfolding

/-!
# Sessions with Normal Numbers

What is asked of the state of a script: all numbers in the heap, in the variables and in what
the hosts keep are normal, and all code that can be reached from it has commands of the kind
`K` and normal numbers. Nothing is asked of what is only written and never read back, such as
the lines that were shown.

## Main definitions

* `Tree.IsNormal`: All numbers in the tree are normal.
* `World.isCount`: Whether it is counted under a key how many of an item there are.
* `World.kept`: What a store keeps, but for the counts of items.
* `World.IsNormal`: What a world holds and gives back is normal.
* `Session.IsNormal`: All values and all code in a session are normal.

## Theorems

* `Heap.normal_cell?`: The cells of a normal heap are normal.
* `Run.keeps_attempt`: An attempt gives the value or the failure of what is attempted, and keeps
  what it keeps.
* `Run.keeps_var`: The value of a variable is normal.
-/

namespace Parlance

-- A session has many parts, and the instance for a changed one goes through all of them.
set_option synthInstance.maxSize 4000

variable {K : Command → Prop} {α : Type}

/-! ### The heap -/

@[reducible]
def Cell.pieces (K : Command → Prop) : Cell → List (Part K)
  | .list items => [⟨items⟩]
  | .object fields => [⟨fields⟩]
  | .method _ m => [⟨m⟩]

instance : Normality K Cell := ⟨fun c => AllNormal (c.pieces K)⟩
instance normal_cell {c : Cell} [h : AllNormal (c.pieces K)] : Normal K c := ⟨h⟩
instance : Normality K Heap := ⟨fun h => ∀ c ∈ h.cells, Normal K c⟩

namespace Heap
variable {h : Heap} {r : Ref} {c : Cell} {v : Value} {items : List Value} {fields : Dict Value}

instance normal_empty : Normal K empty := ⟨fun c hc => absurd hc (Array.not_mem_empty c)⟩

theorem normal_alloc (hh : Normal K h) (hc : Normal K c) : Normal K (h.alloc c).2 := by
  refine ⟨fun c' hc' => ?_⟩
  rcases Array.mem_push.mp hc' with hc' | rfl
  · exact hh.out c' hc'
  · exact hc

instance [hh : Normal K h] [hc : Normal K c] : Normal K (h.set r c) := by
  refine ⟨fun c' hc' => ?_⟩
  rcases Array.mem_or_eq_of_mem_setIfInBounds hc' with hc' | rfl
  · exact hh.out c' hc'
  · exact hc

/-- The cells of a normal heap are normal. -/
instance normal_cell? [hh : Normal K h] : Normal K (h.cell? r) :=
  ⟨fun c hc => hh.out c (Array.mem_of_getElem? hc)⟩

instance normal_items [Normal K h] : Normal K (h.items r) := by
  unfold Heap.items
  split
  · rename_i items hitems
    exact (normal_cell?.out _ hitems).out.part
  · exact normal_nil

instance normal_fields [Normal K h] : Normal K (h.fields r) := by
  unfold Heap.fields
  split
  · rename_i fields hfields
    exact (normal_cell?.out _ hfields).out.part
  · exact Parlance.normal_empty

instance [Normal K h] : Normal K (h.method? r) := by
  unfold method?
  split
  · rename_i owner m hm
    have hmethod : Normal K m := (normal_cell?.out _ hm).out.part
    infer_instance
  · exact normal_none

instance normal_newList [hh : Normal K h] [Normal K items] : Normal K (h.newList items) :=
  ⟨⟨Value.normal_list, normal_alloc hh normal_cell⟩⟩

instance normal_newObject [hh : Normal K h] [Normal K fields] : Normal K (h.newObject fields) :=
  ⟨⟨Value.normal_object, normal_alloc hh normal_cell⟩⟩

theorem normal_ofJsonItems_of_forall {items : List Json} (hh : Normal K h)
    (hitems : ∀ j ∈ items, ∀ h : Heap, Normal K h → Normal K (h.ofJson j)) :
    Normal K (h.ofJsonItems items) := by
  induction items generalizing h with
  | nil =>
    rw [ofJsonItems]
    infer_instance
  | cons j rest ih =>
    obtain ⟨hj, hrest⟩ := List.forall_mem_cons.mp hitems
    obtain ⟨hvalue, hheap⟩ := (hj h hh).out
    obtain ⟨hvalues, hheap'⟩ := (ih hheap hrest).out
    rw [ofJsonItems]
    exact normal_pair

theorem normal_ofJsonFields_of_forall {fields : List (String × Json)} (hh : Normal K h)
    (hfields : ∀ f ∈ fields, ∀ h : Heap, Normal K h → Normal K (h.ofJson f.2)) :
    Normal K (h.ofJsonFields fields) := by
  induction fields generalizing h with
  | nil =>
    rw [ofJsonFields]
    infer_instance
  | cons f rest ih =>
    obtain ⟨hf, hrest⟩ := List.forall_mem_cons.mp hfields
    obtain ⟨hvalue, hheap⟩ := (hf h hh).out
    obtain ⟨hvalues, hheap'⟩ := (ih hheap hrest).out
    rw [ofJsonFields]
    exact normal_pair

instance {j : Json} [hh : Normal K h] [hj : Normal K j] : Normal K (h.ofJson j) := by
  -- The induction is on why the document is normal, and the heap grows along the way.
  have hnormal := hj.out
  clear hj
  induction hnormal generalizing h with
  | @number n hn =>
    have hn : Normal K n := ⟨hn⟩
    rw [ofJson]
    infer_instance
  | array _ ih =>
    obtain ⟨hitems, hheap⟩ := (normal_ofJsonItems_of_forall hh fun j hj h hh =>
      @ih j hj h hh).out
    rw [ofJson]
    exact normal_newList
  | object _ ih =>
    obtain ⟨hfields, hheap⟩ := (normal_ofJsonFields_of_forall hh fun f hf h hh =>
      @ih f hf h hh).out
    rw [ofJson]
    exact normal_newObject
  | _ =>
    rw [ofJson]
    infer_instance

end Heap

/-! ### Unfolded values -/

/-- All numbers in the tree are normal. -/
inductive Tree.IsNormal : Tree → Prop
  | null : IsNormal .null
  | bool {b : Bool} : IsNormal (.bool b)
  | number {n : Number} : n.normal = n → IsNormal (.number n)
  | text {s : String} : IsNormal (.text s)
  | list {items : List Tree} : (∀ t ∈ items, IsNormal t) → IsNormal (.list items)
  | object {fields : List (String × Tree)} : (∀ f ∈ fields, IsNormal f.2) →
    IsNormal (.object fields)
  | method {r : Ref} {name : String} : IsNormal (.method r name)
  | cycle {levels : Nat} : IsNormal (.cycle levels)

namespace Tree

theorem normal_plainItems_of_forall {items : List Tree} (h : ∀ t ∈ items, Normal K t.plain) :
    Normal K (plainItems items) := by
  induction items with
  | nil =>
    rw [plainItems]
    infer_instance
  | cons t rest ih =>
    obtain ⟨ht, hrest⟩ := List.forall_mem_cons.mp h
    have htail := ih hrest
    rw [plainItems]
    infer_instance

theorem normal_plainFields_of_forall {fields : List (String × Tree)}
    (h : ∀ f ∈ fields, Normal K f.2.plain) : Normal K (plainFields fields) := by
  induction fields with
  | nil =>
    rw [plainFields]
    infer_instance
  | cons f rest ih =>
    obtain ⟨hf, hrest⟩ := List.forall_mem_cons.mp h
    have htail := ih hrest
    rw [plainFields]
    infer_instance

theorem normal_plain {t : Tree} (h : t.IsNormal) : Normal K t.plain := by
  induction h with
  | @number n hn =>
    have hn : Normal K n := ⟨hn⟩
    cases n <;> unfold plain <;> infer_instance
  | list _ ih =>
    have hitems := normal_plainItems_of_forall ih
    rw [plain]
    infer_instance
  | object _ ih =>
    have hfields := normal_plainFields_of_forall ih
    rw [plain]
    infer_instance
  | _ =>
    rw [plain]
    infer_instance

instance normal_toNumber {t : Tree} : Normal K t.toNumber := by
  fun_induction toNumber t <;> infer_instance

end Tree

namespace Heap
variable {h : Heap} {v : Value}

theorem isNormal_treeAt (hh : Normal K h) {fuel : Nat} {path : List Ref} (hv : Normal K v) :
    (h.treeAt fuel path v).IsNormal := by
  induction fuel generalizing path v with
  | zero =>
    cases v with
    | null => exact .null
    | bool b => exact .bool
    | number n => exact .number (Value.normal_number_iff.mp hv).out
    | text s => exact .text
    | method r => exact .method
    | list r | object r => exact .cycle
  | succ fuel ih =>
    cases v with
    | null => exact .null
    | bool b => exact .bool
    | number n => exact .number (Value.normal_number_iff.mp hv).out
    | text s => exact .text
    | method r => exact .method
    | list r =>
      rw [treeAt]
      cases levelsUp r path with
      | some n => exact .cycle
      | none =>
        refine .list fun t ht => ?_
        obtain ⟨w, hw, rfl⟩ := List.mem_map.mp ht
        have hitems : Normal K (h.items r) := normal_items
        exact ih (hitems.out w hw)
    | object r =>
      rw [treeAt]
      cases levelsUp r path with
      | some n => exact .cycle
      | none =>
        refine .object fun f hf => ?_
        obtain ⟨e, he, rfl⟩ := List.mem_map.mp hf
        have hfields : Normal K (h.fields r) := normal_fields
        exact ih (hfields.out e he)

instance normal_plain [hh : Normal K h] [hv : Normal K v] : Normal K (h.plain v) := by
  unfold plain finiteTree
  dsimp only
  split
  · exact @normal_ok _ _ _ _ _ (Tree.normal_plain (isNormal_treeAt hh hv))
  · exact normal_error

instance normal_toNumber : Normal K (h.toNumber v) := by
  unfold toNumber
  split <;> infer_instance

end Heap

/-! ### Hosts -/

def Command.imports : Command → Bool
  | .script (.importModule _ _) | .script (.importNames _ _) => true
  | _ => false

def Command.changesFiles : Command → Bool
  | .system (.writeFile _ _ _) | .system (.deleteFile _) | .system (.createFolder _)
  | .system (.run _ _) | .system (.shell _ _ _) => true
  | _ => false

def Files.Holds (f : Files) (source : String) : Prop :=
  ∃ path bytes s, f.file? path = .ok (some bytes) ∧ decodeText bytes = some s ∧
    source = String.ofList (unifyLines s.toList)

instance : Normality K Files :=
  ⟨fun f => (∃ c, K c ∧ c.imports = true) → ∀ source, f.Holds source →
    ∀ p, (Program.ofSource source).program = .ok p → Normal K p⟩

@[reducible]
def NetworkHost.pieces (K : Command → Prop) : NetworkHost → List (Part K)
  | .canned replies _ => [⟨replies⟩]
  | _ => []

instance : Normality K NetworkHost := ⟨fun x => AllNormal (x.pieces K)⟩

@[reducible]
def DatabaseHost.pieces (K : Command → Prop) : DatabaseHost → List (Part K)
  | .canned replies => [⟨replies⟩]
  | _ => []

instance : Normality K DatabaseHost := ⟨fun x => AllNormal (x.pieces K)⟩

namespace World

/-- Whether it is counted under a key how many of an item there are. -/
def isCount (key : String) : Bool := Text.startsWith key "inv:"

/-- What a store keeps, but for the counts of items. -/
def kept (store : Dict Value) : Dict Value := store.filter fun k _ => !isCount k

theorem isCount_append (item : String) : isCount ("inv:" ++ item) = true := by
  rw [isCount, Text.startsWith, String.toList_append]
  exact List.isPrefixOf_iff_prefix.mpr (List.prefix_append _ _)

section Kept
variable {store : Dict Value} {k item : String} {v : Value}

theorem normal_kept_iff : Normal K (kept store) ↔
    ∀ e ∈ store.entries, isCount e.1 = false → Normal K e.2 := by
  have hmem (e : String × Value) :
      e ∈ (kept store).entries ↔ e ∈ store.entries ∧ isCount e.1 = false := by
    rw [kept, Dict.filter, List.mem_filter, Bool.not_eq_true']
  refine ⟨fun h e he hcount => h.out e ((hmem e).mpr ⟨he, hcount⟩), fun h => ⟨fun e he => ?_⟩⟩
  exact h e ((hmem e).mp he).1 ((hmem e).mp he).2

theorem normal_kept_insert_of (h : Normal K (kept store)) (hv : isCount k = false → Normal K v) :
    Normal K (kept (store.insert k v)) := by
  rw [normal_kept_iff] at h ⊢
  intro e he hcount
  rcases Dict.mem_insertEntry he with rfl | he
  · exact hv hcount
  · exact h e he hcount

instance [h : Normal K (kept store)] [hv : Normal K v] :
    Normal K (kept (store.insert k v)) := normal_kept_insert_of h fun _ => hv

instance [h : Normal K (kept store)] :
    Normal K (kept (store.insert ("inv:" ++ item) v)) := by
  refine normal_kept_insert_of h fun hcount => ?_
  rw [isCount_append] at hcount
  cases hcount

instance [h : Normal K (kept store)] : Normal K (kept (store.erase k)) := by
  rw [normal_kept_iff] at h ⊢
  exact fun e he => h e (List.mem_of_mem_filter he)

theorem normal_kept_get? (h : Normal K (kept store)) (hk : isCount k = false) :
    Normal K (store.get? k) := by
  refine ⟨fun v hv => ?_⟩
  obtain ⟨before, after, hentries, -⟩ := List.lookup_eq_some_iff.mp hv
  exact normal_kept_iff.mp h (k, v) (by simp [hentries]) hk

end Kept
end World

/-- What a world holds and gives back is normal. -/
structure World.IsNormal (K : Command → Prop) (w : World) : Prop where
  entities : Normal K w.entities
  props : Normal K w.props
  kept : Normal K (kept w.store)
  records : Normal K w.records

instance : Normality K World := ⟨World.IsNormal K⟩

structure Hosts.IsNormal (K : Command → Prop) (h : Hosts) : Prop where
  world : Normal K h.world
  separate : Normal K h.separate
  network : Normal K h.network
  database : Normal K h.database
  files : Normal K h.files

instance : Normality K Hosts := ⟨Hosts.IsNormal K⟩

section Hosts
variable {w w' : World} {h : Hosts}

instance [hw : Normal K w] : Normal K w.entities := hw.out.entities
instance [hw : Normal K w] : Normal K w.props := hw.out.props
instance [hw : Normal K w] : Normal K (World.kept w.store) := hw.out.kept
instance [hw : Normal K w] : Normal K w.records := hw.out.records
instance [hh : Normal K h] : Normal K h.world := hh.out.world
instance [hh : Normal K h] : Normal K h.separate := hh.out.separate
instance [hh : Normal K h] : Normal K h.network := hh.out.network
instance [hh : Normal K h] : Normal K h.database := hh.out.database
instance [hh : Normal K h] : Normal K h.files := hh.out.files

instance {entities : Dict (Value × Value)} {switches : Dict Bool}
    {props records statuses : Dict (Dict Value)} {store : Dict Value} {lines : Array Value}
    {events : Array (Value × Value)} {running : Bool} [he : Normal K entities] [hp : Normal K props]
    [hk : Normal K (World.kept store)] [hr : Normal K records] :
    Normal K (World.mk entities props switches store records statuses lines events running) :=
  ⟨⟨he, hp, hk, hr⟩⟩

instance {files : Files} {network : NetworkHost} {database : DatabaseHost}
    {stage : Stage} {storeHost : StoreHost} {machine : MachineHost} {sockets : SocketHost}
    {environment : Dict String} {shell : Files → Dict String → String → ShellResult}
    {tileSize : Int} {echo record : Bool} {printed : Array String} {journal : Array Note}
    {callbacks : Callbacks} {notices : Array Notice} {choices : List Value}
    [hw : Normal K w] [hw' : Normal K w'] [hn : Normal K network] [hd : Normal K database]
    [hf : Normal K files] :
    Normal K (Hosts.mk stage w storeHost w' machine network database sockets files environment
      shell tileSize echo printed record journal callbacks notices choices) :=
  ⟨⟨hw, hw', hn, hd, hf⟩⟩

end Hosts

/-! ### Sessions -/

/-- All values and all code in a session are normal. -/
structure Session.IsNormal (K : Command → Prop) (s : Session) : Prop where
  heap : Normal K s.heap
  bag : Normal K s.bag
  snapshots : Normal K s.snapshots
  program : Normal K s.program
  eventRules : Normal K s.eventRules
  conditionRules : Normal K s.conditionRules
  functions : Normal K s.functions
  classes : Normal K s.classes
  definedEvents : Normal K s.definedEvents
  modules : Normal K s.modules
  routes : Normal K s.routes
  hosts : Normal K s.hosts

instance : Normality K Session := ⟨Session.IsNormal K⟩

section Session
variable {s : Session} [hs : Normal K s]

instance : Normal K s.heap := hs.out.heap
instance : Normal K s.bag := hs.out.bag
instance : Normal K s.snapshots := hs.out.snapshots
instance normal_session_program : Normal K s.program := hs.out.program
instance : Normal K s.eventRules := hs.out.eventRules
instance : Normal K s.conditionRules := hs.out.conditionRules
instance : Normal K s.functions := hs.out.functions
instance : Normal K s.classes := hs.out.classes
instance : Normal K s.definedEvents := hs.out.definedEvents
instance : Normal K s.modules := hs.out.modules
instance : Normal K s.routes := hs.out.routes
instance : Normal K s.hosts := hs.out.hosts

omit hs in
instance {heap : Heap} {bag : Dict Value} {snapshots : List (Dict Value)}
    {depth seed stamp : Nat} {importing : List String} {exports : Option (List String)}
    {inRequest : Bool} {response : Option Response} {position : Option Position}
    {program : Option Program} {eventRules : Dict (List Rule)} {conditionRules : List Rule}
    {functions : Dict Function} {classes : Dict ClassDef} {definedEvents : Dict (List Stmt)}
    {modules : Dict (Dict Function)} {routes : List Route} {parseDiagnostics : Array Diagnostic}
    {diagnostics : Array Diagnostic} {lastChoice : Option Int} {options : Options} {hosts : Hosts}
    {log : Array LogEntry} [hheap : Normal K heap] [hbag : Normal K bag]
    [hsnapshots : Normal K snapshots] [hprogram : Normal K program] [hevent : Normal K eventRules]
    [hcondition : Normal K conditionRules] [hfunctions : Normal K functions]
    [hclasses : Normal K classes] [hdefined : Normal K definedEvents] [hmodules : Normal K modules]
    [hroutes : Normal K routes] [hhosts : Normal K hosts] :
    Normal K (Session.mk heap bag snapshots depth importing exports inRequest response position
      program eventRules conditionRules functions classes definedEvents modules routes
      parseDiagnostics diagnostics lastChoice options hosts log seed stamp) :=
  ⟨⟨hheap, hbag, hsnapshots, hprogram, hevent, hcondition, hfunctions, hclasses, hdefined, hmodules,
    hroutes, hhosts⟩⟩

end Session

/-! ### Parts of computations -/

def Flow.IsNormal (K : Command → Prop) : Flow → Prop
  | .give v => Normal K v
  | _ => True

instance : Normality K Flow := ⟨Flow.IsNormal K⟩

namespace Flow

instance : Normal K normal := ⟨trivial⟩
instance : Normal K leave := ⟨trivial⟩
instance : Normal K skip := ⟨trivial⟩
instance {v : Value} [h : Normal K v] : Normal K (give v) := ⟨h⟩

end Flow

namespace Run
variable [Normality K α] {x : Run α} {message : String}

instance {α : Type} {a : α} : Preserves K (pure a : Run α) := ⟨fun _ hs => hs⟩

instance {α : Type} {x : Except Defect α} : Preserves K (lift x) := by
  cases x <;> exact ⟨fun _ hs => hs⟩

instance keeps_lift {x : Except Defect α} [hx : Normal K x] : Keeps K (lift x) := by
  cases x with
  | error d => exact keeps_throw
  | ok a => exact @keeps_pure _ _ _ _ _ _ _ (hx.out a rfl)

instance keeps_fail {kind : FailureKind} {origin : Option Position} :
    Keeps K (fail kind message origin : Run α) := keeps_throw

instance keeps_hostFail : Keeps K (hostFail message : Run α) :=
  keeps_throw

instance keeps_ensure {after : Session → Session} [hx : Keeps K x]
    [hafter : ∀ s : Held K Session, Normal K (after s.1)] : Keeps K (ensure x after) := by
  refine .of_run fun s hs => ?_
  obtain ⟨hresult, hstate⟩ := (hx.run hs).out
  exact ⟨⟨hresult, hafter ⟨_, hstate⟩⟩⟩

/-- An attempt gives the value or the failure of what is attempted, and keeps what it keeps. -/
instance keeps_attempt [hx : Keeps K x] : Keeps K (attempt x) := by
  refine .of_run fun s hs => ?_
  obtain ⟨hresult, hstate⟩ := (hx.run hs).out
  have hrun : (attempt x).run s = (match x.run s with
      | (.ok a, s) => (.ok (.ok a), s)
      | (.error (.failure f), s) => (.ok (.error f), s)
      | (.error signal, s) => (.error signal, s)) := rfl
  rw [hrun]
  rcases hx : x.run s with ⟨signal | a, s'⟩ <;> rw [hx] at hresult hstate
  · cases signal with
    | failure f => exact ⟨⟨@normal_ok _ _ _ _ _ normal_error, hstate⟩⟩
    | _ => exact ⟨⟨normal_error, hstate⟩⟩
  · have ha : Normal K a := hresult.out a rfl
    exact ⟨⟨normal_ok, hstate⟩⟩

instance {f : Hosts → Hosts} [hf : ∀ h : Held K Hosts, Normal K (f h.1)] :
    Keeps K (modifyHosts f) := by
  have hhosts (s : Held K Session) : Normal K (f s.1.hosts) := hf ⟨s.1.hosts, inferInstance⟩
  unfold modifyHosts
  infer_instance

instance {level : LogLevel} {channel : LogChannel} : Keeps K (log level channel message) := by
  unfold log
  infer_instance

instance : Keeps K (warn message) := keeps_bind
instance {f : Failure} : Keeps K (report f) := keeps_bind

instance {name : String} {args : List Noted} : Keeps K (note name args) := by
  unfold note
  infer_instance

instance {n : Notice} : Keeps K (tell n) := by
  unfold tell
  infer_instance

/-! ### Variables and cells -/

variable {name : String} {v w : Value} {r : Ref} {items : List Value} {fields : Dict Value}

instance keeps_var? : Keeps K (var? name) := keeps_bind
/-- The value of a variable is normal. -/
instance keeps_var : Keeps K (var name) := keeps_bind

instance keeps_setVar [Normal K v] : Keeps K (setVar name v) := by
  unfold setVar
  infer_instance

instance {out : Option String} [Normal K v] : Keeps K (setOut out v) := by
  cases out with
  | none => exact keeps_pure
  | some name => exact keeps_setVar

instance {f : Failure} {out : Option String} [Normal K v] : Keeps K (hostFailure f out v) := by
  unfold hostFailure
  cases out <;> infer_instance

instance [Normal K items] : Keeps K (newList items) := by
  unfold newList
  infer_instance

instance keeps_newObject [Normal K fields] : Keeps K (newObject fields) := by
  unfold newObject
  infer_instance

instance {j : Json} [Normal K j] : Keeps K (ofJson j) := by
  unfold ofJson
  infer_instance

instance [Normal K items] : Keeps K (setItems r items) := by
  unfold setItems
  infer_instance

instance [Normal K fields] : Keeps K (setFields r fields) := by
  unfold setFields
  infer_instance

instance : Keeps K (Run.items r) := keeps_bind
instance keeps_fields : Keeps K (Run.fields r) := keeps_bind

/-! ### What values stand for -/

instance keeps_text : Keeps K (text v) := keeps_bind
instance : Keeps K (display v) := keeps_bind
instance : Keeps K (document v) := keeps_bind
instance : Keeps K (json v) := keeps_bind
instance [Normal K v] : Keeps K (plain v) := keeps_bind
instance : Keeps K (number v) := keeps_bind
instance {default : Int} : Keeps K (int v default) := keeps_bind
instance : Keeps K (same v w) := keeps_bind
instance : Keeps K (looseEqual v w) := keeps_bind
instance : Keeps K (order? v w) := keeps_bind
instance : Keeps K (tree v) := keeps_bind

end Run
end Parlance
