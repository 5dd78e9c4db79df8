import Parlance.Proofs.Interchange
import Parlance.Proofs.NormalExec

/-!
# Whole Numbers in the Bag

A number with a whole value may stand as a whole number or as a fraction. The two are equal, but
their texts are not. Literals, operators and functions always give the first form. Where scripts
use nothing else, the variables never lead to the second one.

Four commands bring in numbers as they come. They read a document, move an entity by a distance,
load the count of an item as data, or have the world do such a thing by its name. Scripts without
them are tidy, which can be told from their text. Scripts that are read from files have to be tidy
too, and no script may change files.

## Main definitions

* `Command.isTidy`: The command brings in normal numbers only, and it does not read scripts, or
  does not change files where other commands read scripts.
* `Program.isTidy`: All commands of the script are tidy, if it can be read.
* `Heap.Reaches`: The second value can be reached from the first through lists and objects.
* `Hosts.IsFresh`: Nothing is in the worlds, and all answers are normal.
* `Hosts.HasTidyFiles`: The scripts in the files are tidy, if scripts may be read from there.

## Theorems

* `Session.Operation.whole?_of_reaches`: Whatever tidy operations do one after the other, the bag
  leads to no whole number in the form of a fraction.
* `Session.Operation.whole?_of_reaches_pi`: One script puts a fraction into a list, and another
  keeps a text that becomes a whole number.
-/

namespace Parlance
open Program List Bool World
variable {imports : Bool}

namespace Command
variable {c : Command}

def bringsNormal : Command → Bool
  | .text (.readJson _ _) => false
  | .stage (.move _ _ _ relative) => !relative
  | .store (.loadData key _) => !isCount key
  | .script (.callHost name _) => isSteady name
  | _ => true

/-- The command brings in normal numbers only, and it does not read scripts, or does not change
    files where other commands read scripts. -/
def isTidy (imports : Bool) (c : Command) : Bool :=
  c.bringsNormal && if imports then !c.changesFiles else !c.imports

theorem bringsNormal_of_isTidy (h : c.isTidy imports = true) :
    c.bringsNormal = true := (and_eq_true_iff.mp h).1

theorem eq_true_of_imports (h : c.isTidy imports = true)
    (hc : c.imports = true) : imports = true := by
  cases imports with
  | true => rfl
  | false =>
    have hnot : (!c.imports) = true := (and_eq_true_iff.mp h).2
    rw [hc] at hnot
    cases hnot

instance : Regulated (isTidy imports · = true) where
  readJson _ _ h := Bool.false_ne_true (bringsNormal_of_isTidy h)
  move _ _ _ relative h := (not_eq_true' relative).mp (bringsNormal_of_isTidy h)
  loadData key _ h := (not_eq_true' (isCount key)).mp (bringsNormal_of_isTidy h)
  callHost _ _ h := bringsNormal_of_isTidy h
  files c c' h hc h' := by
    obtain rfl := eq_true_of_imports h hc
    exact (not_eq_true' c'.changesFiles).mp (and_eq_true_iff.mp h').2

end Command

/-- All commands of the script are tidy, if it can be read. -/
def Program.isTidy (imports : Bool) (source : String) : Bool :=
  match (ofSource source).program with
  | .ok p => p.commands.all (Command.isTidy imports)
  | .error _ => true

theorem Program.forall_commands_of_isTidy {source : String} {p : Program}
    (h : isTidy imports source = true) (hp : (ofSource source).program = .ok p) :
    ∀ c ∈ p.commands, c.isTidy imports = true := by
  unfold isTidy at h
  rw [hp] at h
  exact all_eq_true.mp h

/-! ### What can be reached -/

namespace Heap

/-- The second value can be reached from the first through lists and objects. -/
inductive Reaches (h : Heap) (u : Value) : Value → Prop
  | refl : Reaches h u u
  | step {v w : Value} {r : Ref} : Reaches h u v → v.ref? = some r → w ∈ h.parts r → Reaches h u w

variable {K : Command → Prop} {h : Heap} {u v : Value}

theorem normal_parts (hh : Normal K h) {r : Ref} (hv : v ∈ h.parts r) : Normal K v := by
  unfold parts at hv
  split at hv
  · rename_i items hc
    have hitems : Normal K items := (normal_cell?.out _ hc).out.part
    exact hitems.out v hv
  · rename_i fields hc
    have hfields : Normal K fields := (normal_cell?.out _ hc).out.part
    exact normal_dict_iff.mp hfields v hv
  · cases hv

theorem Reaches.normal (hr : h.Reaches u v) (hh : Normal K h) (hu : Normal K u) : Normal K v := by
  induction hr with
  | refl => exact hu
  | step _ _ hw _ => exact normal_parts hh hw

end Heap

namespace Session

def Reaches (s : Session) (v : Value) : Prop := ∃ u ∈ s.bag.values, s.heap.Reaches u v

theorem Reaches.normal {K : Command → Prop} {s : Session} {v : Value} (h : s.Reaches v)
    (hs : Normal K s) : Normal K v := by
  obtain ⟨u, hu, hreach⟩ := h
  exact hreach.normal hs.out.heap (normal_dict_iff.mp hs.out.bag u hu)

end Session

/-! ### Where a session begins -/

namespace Hosts

def replies (h : Hosts) : List Value :=
  (match h.network with
    | .canned replies _ => replies.map fun (_, _, v) => v
    | _ => []) ++
  match h.database with
    | .canned replies => replies.map fun (_, v) => v
    | _ => []

/-- Nothing is in the worlds, and all answers are normal. -/
structure IsFresh (h : Hosts) : Prop where
  world : h.world = {}
  separate : h.separate = {}
  replies : ∀ v ∈ h.replies, v.normal = v

/-- The scripts in the files are tidy, if scripts may be read from there. -/
def HasTidyFiles (imports : Bool) (h : Hosts) : Prop :=
  imports = true → ∀ source, h.files.Holds source → Program.isTidy imports source = true

variable {K : Command → Prop} {h : Hosts}

theorem normal_network (hh : ∀ v ∈ h.replies, v.normal = v) : Normal K h.network := by
  cases hn : h.network with
  | canned replies busy =>
    have hreplies : Normal K replies := by
      refine ⟨fun r hr => ?_⟩
      have hmem : r.2.2 ∈ h.replies := by
        rw [Hosts.replies, hn]
        exact mem_append_left _ (mem_map_of_mem hr)
      have hv : Normal K r.2.2 := ⟨hh _ hmem⟩
      exact inferInstanceAs (Normal K (r.1, r.2.1, r.2.2))
    exact ⟨inferInstance⟩
  | absent | bare | offline => exact ⟨inferInstance⟩

theorem normal_database (hh : ∀ v ∈ h.replies, v.normal = v) : Normal K h.database := by
  cases hd : h.database with
  | canned replies =>
    have hreplies : Normal K replies := by
      refine ⟨fun r hr => ?_⟩
      have hmem : r.2 ∈ h.replies := by
        rw [Hosts.replies, hd]
        exact mem_append_right _ (mem_map_of_mem hr)
      have hv : Normal K r.2 := ⟨hh _ hmem⟩
      exact inferInstanceAs (Normal K (r.1, r.2))
    exact ⟨inferInstance⟩
  | absent | bare => exact ⟨inferInstance⟩

theorem IsFresh.normal (hh : h.IsFresh) (hfiles : Normal K h.files) : Normal K h := by
  have hkept : Normal K (kept ∅) := normal_kept_iff.mpr (List.forall_mem_nil _)
  have hblank : Normal K ({} : World) := inferInstance
  refine ⟨?_, ?_, normal_network hh.replies, normal_database hh.replies, hfiles⟩
  · rw [hh.world]
    exact hblank
  · rw [hh.separate]
    exact hblank

theorem HasTidyFiles.normal (hh : h.HasTidyFiles imports) :
    Normal (Command.isTidy imports · = true) h.files := by
  refine ⟨?_⟩
  rintro ⟨c, hc, hreads⟩ source hholds p hp
  have htidy := hh (Command.eq_true_of_imports hc hreads) source hholds
  exact normal_of_commands (normal_ofSource hp)
    (forall_commands_of_isTidy htidy hp)

end Hosts

/-! ### What a session does to numbers -/

namespace Session.Operation

/-- The script of the operation is tidy, and a request is with a normal value. -/
def IsTidy (imports : Bool) : Operation → Prop
  | .load source | .loadScene source => Program.isTidy imports source = true
  | .request value => value.normal = value
  | _ => True

theorem IsTidy.isOf {op : Operation} (h : op.IsTidy imports) :
    op.IsOf (Command.isTidy imports · = true) := by
  cases op with
  | load source | loadScene source => exact fun p => forall_commands_of_isTidy h
  | request value => exact h
  | _ => trivial

theorem normal_afterAll_of_isTidy {options : Options} {hosts : Hosts}
    {ops : List Operation} (n : Nat) (hhosts : hosts.IsFresh) (hfiles : hosts.HasTidyFiles imports)
    (hops : ∀ op ∈ ops, op.IsTidy imports) :
    Normal (Command.isTidy imports · = true) (afterAll (.ofDepth n) { options, hosts } ops) := by
  have hnormal := hhosts.normal hfiles.normal
  exact normal_afterAll (fun op hop => (hops op hop).isOf) inferInstance

/-- Whatever tidy operations do one after the other, the bag leads to no whole number in the
    form of a fraction. Reading a single document is enough to put one there. -/
theorem whole?_of_reaches {imports : Bool} {options : Options} {hosts : Hosts}
    {ops : List Operation} {n : Nat} (hhosts : hosts.IsFresh) (hfiles : hosts.HasTidyFiles imports)
    (hops : ∀ op ∈ ops, op.IsTidy imports) :
    let s := afterAll (.ofDepth n) { options, hosts } ops
    (∀ x, s.Reaches (.number (.float x)) → Binary.whole? x = none) ∧
      ∀ (pos pos' : Position) (source name : String) (m : Int), m.natAbs ≤ 2 ^ 53 →
        s.bag.get? source = some (.text (toString m ++ "e0")) →
        ∃ x s', (Run.exec (.ofDepth n) (.command pos
            (.text (.readJson (.name pos' source) (some name))))).run s = (.ok .normal, s') ∧
          s'.Reaches (.number (.float x)) ∧ Binary.whole? x = some m := by
  intro s
  refine ⟨fun x hx => ?_, fun pos pos' source name m hm hsource => ?_⟩
  · have hnumber := hx.normal (normal_afterAll_of_isTidy n hhosts hfiles hops)
    exact Number.normal_float_iff.mp (Value.normal_number_iff.mp hnumber)
  · obtain ⟨x, hread, hwhole⟩ := Json.read_exponent hm
    refine ⟨x, _, Run.run_parse pos pos' source name hsource hread, ?_, hwhole⟩
    exact ⟨_, Dict.mem_values_of_get? (Dict.get?_insert_self _ _ _), .refl⟩

set_option maxRecDepth 4000 in
/-- One script puts a fraction into a list, and another keeps a text that becomes a whole
    number. -/
theorem whole?_of_reaches_pi :
    let s := afterAll .full {} [load "let x be [math pi]", load "let t be \"2e0\""]
    (s.Reaches (.number (.float 3.141592653589793)) ∧ Binary.whole? 3.141592653589793 = none) ∧
      ∃ x s', (Run.exec .full (.command ⟨1, 1⟩
          (.text (.readJson (.name ⟨1, 12⟩ "t") (some "y"))))).run s = (.ok .normal, s') ∧
        s'.Reaches (.number (.float x)) ∧ Binary.whole? x = some 2 := by
  intro s
  have hfresh : ({} : Hosts).IsFresh := ⟨rfl, rfl, List.forall_mem_nil _⟩
  have hlist : Value.list ⟨0⟩ ∈ s.bag.values := by decide
  have hpi : Value.number (.float 3.141592653589793) ∈ s.heap.parts ⟨0⟩ := by decide
  have hreach : s.Reaches (.number (.float 3.141592653589793)) := ⟨_, hlist, .step .refl rfl hpi⟩
  have htext : s.bag.get? "t" = some (.text (toString (2 : Int) ++ "e0")) := by decide
  have hscript : Program.isTidy false "let x be [math pi]" = true := by decide
  have hscript' : Program.isTidy false "let t be \"2e0\"" = true := by decide
  have hops : ∀ op ∈ [load "let x be [math pi]", load "let t be \"2e0\""], op.IsTidy false :=
    List.forall_mem_cons.mpr ⟨hscript, List.forall_mem_singleton.mpr hscript'⟩
  obtain ⟨hnormal, hread⟩ := @whole?_of_reaches false {} {} _ Linker.maxDepth hfresh
    (absurd · Bool.false_ne_true) hops
  exact ⟨⟨hreach, hnormal _ hreach⟩, hread ⟨1, 1⟩ ⟨1, 12⟩ "t" "y" 2 (by decide) htext⟩

end Session.Operation
end Parlance
