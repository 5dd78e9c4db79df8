import Parlance.Proofs.AlikeExec
import Parlance.Proofs.Document
import Parlance.Proofs.LooseEquality
import Parlance.Proofs.Unfolding

/-!
# Values as JSON Texts and Back

A script turns a value into a JSON text with one statement and a text into a value with
another. Of a value without fractions nothing is lost that a text can carry: what comes
back is the data of the value. Methods and the numbers without a numeral are no data. They
are null, and a field with a method is left out.

## Main definitions

* `Tree.kept`: The data of a value.
* `Tree.isPure`: Whether a value holds neither methods nor numbers without a numeral.
* `Heap.Portable`: The values that are made of null, truth values, whole numbers, numbers without
  a numeral, texts, methods, lists and objects.

## Theorems

* `Run.run_stringify_parse`: A value without fractions that does not hold itself is written as a
  standard JSON text, and reading the text gives its data, which is the value again if it is data
  all through.
* `Run.run_stringify_parse_object`: An object with a list, a method and an undefined number.
-/

namespace Parlance
open List

namespace Tree

mutual

/-- The data of a value. Methods and numbers without a numeral are null, and a field with a
    method is left out. -/
def kept : Tree → Tree
  | .number (.float x) => if x.isNaN || x.isInf then .null else .number (.float x)
  | .method _ _ => .null
  | .list items => .list (keptItems items)
  | .object fields => .object (keptFields fields)
  | t => t

def keptItems : List Tree → List Tree
  | [] => []
  | t :: rest => kept t :: keptItems rest

def keptFields : List (String × Tree) → List (String × Tree)
  | [] => []
  | (_, .method _ _) :: rest => keptFields rest
  | (k, t) :: rest => (k, kept t) :: keptFields rest

end

mutual

/-- Whether a value holds neither methods nor numbers without a numeral. -/
def isPure : Tree → Bool
  | .number (.float x) => !(x.isNaN || x.isInf)
  | .method _ _ => false
  | .list items => allPure items
  | .object fields => allFieldsPure fields
  | _ => true

def allPure : List Tree → Bool
  | [] => true
  | t :: rest => isPure t && allPure rest

def allFieldsPure : List (String × Tree) → Bool
  | [] => true
  | (_, t) :: rest => isPure t && allFieldsPure rest

end

mutual

theorem kept_of_isPure : (t : Tree) → t.isPure → t.kept = t
  | .null, _ | .bool _, _ | .text _, _ | .cycle _, _ | .number (.int _), _ => rfl
  | .number (.float x), h => by
    rw [isPure, Bool.not_eq_true'] at h
    rw [kept, h]
    rfl
  | .list items, h => congrArg Tree.list (keptItems_of_allPure items h)
  | .object fields, h => congrArg Tree.object (keptFields_of_allFieldsPure fields h)

theorem keptItems_of_allPure : (ts : List Tree) → allPure ts → keptItems ts = ts
  | [], _ => rfl
  | t :: rest, h => by
    have h := Bool.and_eq_true_iff.mp h
    rw [keptItems, kept_of_isPure t h.1, keptItems_of_allPure rest h.2]

theorem keptFields_of_allFieldsPure :
    (fs : List (String × Tree)) → allFieldsPure fs → keptFields fs = fs
  | [], _ => rfl
  | (k, t) :: rest, h => by
    have h := Bool.and_eq_true_iff.mp h
    rw [keptFields, kept_of_isPure t h.1, keptFields_of_allFieldsPure rest h.2]
    rintro r name rfl
    cases h.1

end
end Tree

namespace Json

mutual

def tree : Json → Tree
  | .null => .null
  | .bool b => .bool b
  | .number n => .number n
  | .text s => .text s
  | .array items => .list (treeItems items)
  | .object fields => .object (treeFields fields)

def treeItems : List Json → List Tree
  | [] => []
  | j :: rest => tree j :: treeItems rest

def treeFields : List (String × Json) → List (String × Tree)
  | [] => []
  | (k, j) :: rest => (k, tree j) :: treeFields rest

end
end Json

namespace Tree

mutual

theorem tree_plain : (t : Tree) → t.isFinite → t.plain.tree = t.kept
  | .null, _ | .bool _, _ | .text _, _ | .number (.int _), _ | .method _ _, _ => rfl
  | .number (.float x), _ => by
    rw [plain, kept, Binary.isFinite_eq]
    cases x.isNaN || x.isInf <;> rfl
  | .list items, h => congrArg Tree.list (treeItems_plainItems items h)
  | .object fields, h => congrArg Tree.object (treeFields_plainFields fields h)

theorem treeItems_plainItems :
    (ts : List Tree) → allFinite ts → Json.treeItems (plainItems ts) = keptItems ts
  | [], _ => rfl
  | t :: rest, h => by
    have h := Bool.and_eq_true_iff.mp h
    rw [plainItems, Json.treeItems, keptItems, tree_plain t h.1, treeItems_plainItems rest h.2]

theorem treeFields_plainFields : (fs : List (String × Tree)) → allFieldsFinite fs →
      Json.treeFields (plainFields fs) = keptFields fs
  | [], _ => rfl
  | (k, t) :: rest, h => by
    have h := Bool.and_eq_true_iff.mp h
    have hrest := treeFields_plainFields rest h.2
    have ht := tree_plain t h.1
    cases t with
    | method r name =>
      rw [plainFields, keptFields]
      exact hrest
    | _ =>
      rw [plainFields, isData, if_pos rfl, Json.treeFields, hrest, ht, keptFields]
      all_goals exact nofun

end

theorem plainItems_eq_map (ts : List Tree) : plainItems ts = ts.map plain := by
  induction ts with
  | nil => rfl
  | cons t rest ih => rw [plainItems, map_cons, ih]

theorem plainFields_eq_map (fs : List (String × Tree)) :
    plainFields fs = (fs.filter fun f => f.2.isData).map fun f => (f.1, f.2.plain) := by
  induction fs with
  | nil => rfl
  | cons f rest ih =>
    obtain ⟨k, t⟩ := f
    rw [plainFields, filter_cons, ih]
    split <;> rfl

end Tree

namespace Json

theorem allExact_iff (js : List Json) : allExact js ↔ ∀ j ∈ js, j.isExact := by
  induction js with
  | nil => simp [allExact]
  | cons j rest ih => rw [allExact, Bool.and_eq_true, ih, forall_mem_cons]

theorem allFieldsExact_iff (fs : List (String × Json)) :
    allFieldsExact fs ↔ ∀ f ∈ fs, f.2.isExact := by
  induction fs with
  | nil => simp [allFieldsExact]
  | cons f rest ih => rw [allFieldsExact, Bool.and_eq_true, ih, forall_mem_cons]

end Json

namespace Heap

/-- The values that are made of null, truth values, whole numbers, numbers without a numeral,
    texts, methods, lists and objects. -/
inductive Portable (h : Heap) : Value → Prop where
  | null : Portable h .null
  | bool (b : Bool) : Portable h (.bool b)
  | int (n : Int) : Portable h (.number (.int n))
  | float {x : Float} (hx : x.isNaN || x.isInf) : Portable h (.number (.float x))
  | text (s : String) : Portable h (.text s)
  | method {r owner : Ref} {m : Method Stmt} (hcell : h.cell? r = some (.method owner m)) :
    Portable h (.method r)
  | list {r : Ref} {items : List Value} (hcell : h.cell? r = some (.list items))
    (hitems : ∀ v ∈ items, Portable h v) : Portable h (.list r)
  | object {r : Ref} {fields : Dict Value} (hcell : h.cell? r = some (.object fields))
    (hkeys : fields.keys.Nodup) (hfields : ∀ v ∈ fields.values, Portable h v) :
    Portable h (.object r)

namespace Portable
variable {h h' : Heap} {v : Value}

theorem extend (hv : h.Portable v) (hh : h.Extends h') : h'.Portable v := by
  induction hv with
  | null => exact .null
  | bool b => exact .bool b
  | int n => exact .int n
  | float hx => exact .float hx
  | text s => exact .text s
  | method hcell => exact .method (hh _ _ hcell)
  | list hcell _ ih => exact .list (hh _ _ hcell) ih
  | object hcell hkeys _ ih => exact .object (hh _ _ hcell) hkeys ih

theorem acyclic (hv : h.Portable v) : h.Acyclic v := by
  induction hv with
  | @list r items hcell _ ih =>
    rintro _ ⟨⟩
    refine .intro r fun r' ⟨w, hw, hr'⟩ => ?_
    rw [parts, hcell] at hw
    exact ih w hw r' hr'
  | @object r fields hcell _ _ ih =>
    rintro _ ⟨⟩
    refine .intro r fun r' ⟨w, hw, hr'⟩ => ?_
    rw [parts, hcell] at hw
    exact ih w hw r' hr'
  | _ => rintro _ ⟨⟩

theorem tree_list {r : Ref} {items : List Value} (hv : h.Portable (.list r))
    (hcell : h.cell? r = some (.list items)) : h.tree (.list r) = .list (items.map h.tree) := by
  rw [hv.acyclic.tree_list, Heap.items, hcell]

theorem tree_object {r : Ref} {fields : Dict Value} (hv : h.Portable (.object r))
    (hcell : h.cell? r = some (.object fields)) :
    h.tree (.object r) = .object (fields.entries.map fun e => (e.1, h.tree e.2)) := by
  rw [hv.acyclic.tree_object, Heap.fields, hcell]

theorem tree_eq (hv : h.Portable v) (hh : h.Extends h') : h'.tree v = h.tree v := by
  induction hv with
  | @method r owner m hcell =>
    have hmethod : h'.method? r = h.method? r := by rw [method?, method?, hcell, hh _ _ hcell]
    change Tree.method r _ = Tree.method r _
    rw [hmethod]
  | @list r items hcell hitems ih =>
    have hv := Portable.list hcell hitems
    rw [hv.tree_list hcell, (hv.extend hh).tree_list (hh _ _ hcell)]
    exact congrArg Tree.list (map_congr_left ih)
  | @object r fields hcell hkeys hfields ih =>
    have hv := Portable.object hcell hkeys hfields
    rw [hv.tree_object hcell, (hv.extend hh).tree_object (hh _ _ hcell)]
    refine congrArg Tree.object (map_congr_left fun e he => ?_)
    exact congrArg (Prod.mk e.1) (ih e.2 (mem_map_of_mem he))
  | _ => rfl

theorem isExact_plain (hv : h.Portable v) : (h.tree v).plain.isExact := by
  induction hv with
  | null | bool | int | text | method => rfl
  | @float x hx =>
    change (if x.isFinite then Json.number (.float x) else Json.null).isExact
    rw [Binary.isFinite_eq, hx]
    rfl
  | @list r items hcell hitems ih =>
    rw [(Portable.list hcell hitems).tree_list hcell]
    change Json.allExact (Tree.plainItems _)
    rw [Tree.plainItems_eq_map, Json.allExact_iff]
    intro j hj
    obtain ⟨t, ht, rfl⟩ := mem_map.mp hj
    obtain ⟨w, hw, rfl⟩ := mem_map.mp ht
    exact ih w hw
  | @object r fields hcell hkeys hfields ih =>
    rw [(Portable.object hcell hkeys hfields).tree_object hcell]
    change (Json.object (Tree.plainFields _)).isExact
    rw [Tree.plainFields_eq_map]
    refine Bool.and_eq_true_iff.mpr ⟨decide_eq_true ?_, ?_⟩
    -- The fields that are left have their names once, for all fields have.
    · rw [map_map]
      refine Nodup.sublist (filter_sublist.map _) ?_
      rw [map_map]
      exact hkeys
    · rw [Json.allFieldsExact_iff]
      intro f hf
      obtain ⟨f', hf', rfl⟩ := mem_map.mp hf
      obtain ⟨e, he, rfl⟩ := mem_map.mp (mem_filter.mp hf').1
      exact ih e.2 (mem_map_of_mem he)

end Portable

/-! ### Documents in new cells -/

mutual

theorem ofJson_spec : (j : Json) → j.isExact → (h : Heap) →
    h.Extends (h.ofJson j).2 ∧ (h.ofJson j).2.Portable (h.ofJson j).1 ∧
      (h.ofJson j).2.tree (h.ofJson j).1 = j.tree
  | .null, _, _ => ⟨.refl, .null, rfl⟩
  | .bool b, _, _ => ⟨.refl, .bool b, rfl⟩
  | .number (.int n), _, _ => ⟨.refl, .int n, rfl⟩
  | .text s, _, _ => ⟨.refl, .text s, rfl⟩
  | .array items, hj, h => by
    obtain ⟨hext, hportable, htree⟩ := ofJsonItems_spec items hj h
    rw [ofJson]
    generalize h.ofJsonItems items = made at hext hportable htree
    obtain ⟨vs, h₁⟩ := made
    have hnew := h₁.extends_alloc (.list vs)
    have hcell := h₁.cell?_alloc_self (.list vs)
    have hlist := Portable.list hcell fun v hv => (hportable v hv).extend hnew
    refine ⟨hext.trans hnew, hlist, (hlist.tree_list hcell).trans ?_⟩
    rw [Json.tree, ← htree]
    exact congrArg Tree.list (map_congr_left fun v hv => (hportable v hv).tree_eq hnew)
  | .object fields, hj, h => by
    obtain ⟨hkeys, hfields⟩ := Bool.and_eq_true_iff.mp hj
    obtain ⟨hext, hnames, hportable, htree⟩ := ofJsonFields_spec fields hfields h
    rw [ofJson]
    generalize h.ofJsonFields fields = made at hext hnames hportable htree
    obtain ⟨es, h₁⟩ := made
    have hnodup : (es.map Prod.fst).Nodup := hnames ▸ of_decide_eq_true hkeys
    have hentries : (Dict.ofList es).entries = es := Dict.entries_ofList hnodup
    have hnew := h₁.extends_alloc (.object (.ofList es))
    have hcell := h₁.cell?_alloc_self (.object (.ofList es))
    have hobject := Portable.object hcell (by rw [Dict.keys, hentries]; exact hnodup)
      fun v hv => by
        rw [Dict.values, hentries] at hv
        obtain ⟨e, he, rfl⟩ := mem_map.mp hv
        exact (hportable e he).extend hnew
    refine ⟨hext.trans hnew, hobject, (hobject.tree_object hcell).trans ?_⟩
    rw [Json.tree, ← htree, hentries]
    refine congrArg Tree.object (map_congr_left fun e he => ?_)
    exact congrArg (Prod.mk e.1) ((hportable e he).tree_eq hnew)

theorem ofJsonItems_spec : (js : List Json) → Json.allExact js → (h : Heap) →
    h.Extends (h.ofJsonItems js).2 ∧ (∀ v ∈ (h.ofJsonItems js).1, (h.ofJsonItems js).2.Portable v) ∧
      (h.ofJsonItems js).1.map (h.ofJsonItems js).2.tree = Json.treeItems js
  | [], _, _ => ⟨.refl, nofun, rfl⟩
  | j :: rest, hj, h => by
    obtain ⟨hj, hrest⟩ := Bool.and_eq_true_iff.mp hj
    obtain ⟨hext, hportable, htree⟩ := ofJson_spec j hj h
    obtain ⟨hext', hportable', htree'⟩ := ofJsonItems_spec rest hrest (h.ofJson j).2
    rw [ofJsonItems]
    refine ⟨hext.trans hext', forall_mem_cons.mpr ⟨hportable.extend hext', hportable'⟩, ?_⟩
    rw [map_cons, htree', hportable.tree_eq hext', htree, Json.treeItems]

theorem ofJsonFields_spec : (fs : List (String × Json)) → Json.allFieldsExact fs → (h : Heap) →
    h.Extends (h.ofJsonFields fs).2 ∧ (h.ofJsonFields fs).1.map Prod.fst = fs.map Prod.fst ∧
      (∀ e ∈ (h.ofJsonFields fs).1, (h.ofJsonFields fs).2.Portable e.2) ∧
      ((h.ofJsonFields fs).1.map fun e => (e.1, (h.ofJsonFields fs).2.tree e.2)) =
        Json.treeFields fs
  | [], _, _ => ⟨.refl, rfl, nofun, rfl⟩
  | (k, j) :: rest, hj, h => by
    obtain ⟨hj, hrest⟩ := Bool.and_eq_true_iff.mp hj
    obtain ⟨hext, hportable, htree⟩ := ofJson_spec j hj h
    obtain ⟨hext', hnames, hportable', htree'⟩ := ofJsonFields_spec rest hrest (h.ofJson j).2
    rw [ofJsonFields]
    refine ⟨hext.trans hext', ?_, forall_mem_cons.mpr ⟨hportable.extend hext', hportable'⟩, ?_⟩
    · rw [map_cons, map_cons, hnames]
    · rw [map_cons, htree', hportable.tree_eq hext', htree, Json.treeFields]

end
end Heap

/-! ### Equality -/

namespace Tree

theorem allPure_iff (ts : List Tree) : allPure ts ↔ ∀ t ∈ ts, t.isPure := by
  induction ts with
  | nil => simp [allPure]
  | cons t rest ih => rw [allPure, Bool.and_eq_true, ih, forall_mem_cons]

theorem allFieldsPure_iff (fs : List (String × Tree)) : allFieldsPure fs ↔ ∀ f ∈ fs, f.2.isPure := by
  induction fs with
  | nil => simp [allFieldsPure]
  | cons f rest ih => rw [allFieldsPure, Bool.and_eq_true, ih, forall_mem_cons]

theorem not_isPure_float {x : Float} (hx : x.isNaN || x.isInf) :
    ¬(Tree.number (.float x)).isPure := by
  rw [isPure, hx]
  exact Bool.false_ne_true

theorem equalItems_self {ts : List Tree} (h : ∀ t ∈ ts, t.equal t) : equalItems ts ts := by
  induction ts with
  | nil => rfl
  | cons t rest ih =>
    obtain ⟨ht, hrest⟩ := forall_mem_cons.mp h
    rw [equalItems, ht, ih hrest, Bool.and_self]

end Tree

namespace Heap
variable {h : Heap} {v w : Value}

theorem Portable.equal_self (hv : h.Portable v) (hpure : (h.tree v).isPure) :
    (h.tree v).equal (h.tree v) := by
  induction hv with
  | null => rfl
  | bool b => exact beq_self_eq_true b
  | int n =>
    change ((n == n) || false) = true
    rw [beq_self_eq_true, Bool.true_or]
  | float hx => exact absurd hpure (Tree.not_isPure_float hx)
  | text s => exact beq_self_eq_true s
  | method => cases hpure
  | @list r items hcell hitems ih =>
    rw [(Portable.list hcell hitems).tree_list hcell] at hpure ⊢
    have hpure := (Tree.allPure_iff _).mp hpure
    refine Tree.equalItems_self fun t ht => ?_
    obtain ⟨w, hw, rfl⟩ := mem_map.mp ht
    exact ih w hw (hpure _ ht)
  | @object r fields hcell hkeys hfields ih =>
    rw [(Portable.object hcell hkeys hfields).tree_object hcell] at hpure ⊢
    have hpure := (Tree.allFieldsPure_iff _).mp hpure
    rw [Tree.equal, beq_self_eq_true, Bool.true_and]
    refine Tree.equalFields_iff.mpr fun f hf => ?_
    obtain ⟨e, he, rfl⟩ := mem_map.mp hf
    refine ⟨_, ?_, ih e.2 (mem_map_of_mem he) (hpure _ hf)⟩
    have hget : (fields.map h.tree).get? e.1 = some (h.tree e.2) := by
      rw [Dict.get?_map, Dict.get?_of_mem he]
      rfl
    exact hget

theorem Portable.same (hv : h.Portable v) (hw : h.Portable w) (hpure : (h.tree v).isPure)
    (htree : h.tree w = h.tree v) : h.same v w = .ok true := by
  have hself : (h.tree v).same (h.tree v) = true := by
    have hequal := hv.equal_self hpure
    cases hv with
    | int n => exact beq_self_eq_true n
    | float hx => exact absurd hpure (Tree.not_isPure_float hx)
    | _ => exact hequal
  rw [Heap.same, hv.acyclic.finiteTree, hw.acyclic.finiteTree, htree]
  split
  · rfl
  · split
    · exact congrArg Except.ok hself
    · exact congrArg Except.ok hself

end Heap

/-! ### The statements -/

namespace Run
variable {L : Linker} {s s' : Session}

theorem run_stringify {e : Expr} {v : Value} {t : String} (pos : Position) (name : String)
    (he : (eval L e).run { s with position := some pos } = (.ok v, s'))
    (ht : s'.heap.json v = .ok t) :
    (exec L (.command pos (.text (.writeJson e (some name))))).run s =
      (.ok .normal, { s' with bag := s'.bag.insert name (.text t) }) := by
  refine run_placing_ok (run_normally_ok ?_)
  have hjson : (json v).run s' = (.ok t, s') := by
    refine (bind_ok (run_get s')).trans ?_
    rw [ht]
    rfl
  rw [TextCommand.exec]
  exact (bind_ok he).trans (bind_ok hjson)

theorem run_parse {t : String} {j : Json} (pos pos' : Position) (source name : String)
    (hsource : s.bag.get? source = some (.text t)) (hread : Json.read t = .ok j) :
    (exec L (.command pos (.text (.readJson (.name pos' source) (some name))))).run s =
      (.ok .normal, { s with
        position := some pos
        heap := (s.heap.ofJson j).2
        bag := s.bag.insert name (s.heap.ofJson j).1 }) := by
  have hvar : (resolve L source).run { s with position := some pos } =
      (.ok (.text t), { s with position := some pos }) := by
    have hget : (var? source).run { s with position := some pos } =
        (.ok (some (.text t)), { s with position := some pos }) := by
      rw [← hsource]
      rfl
    exact bind_ok hget
  have htext : (evalText L (.name pos' source)).run { s with position := some pos } =
      (.ok t, { s with position := some pos }) := by
    rw [evalText, eval]
    exact bind_ok hvar
  refine run_placing_ok (run_normally_ok ?_)
  rw [TextCommand.exec]
  refine (bind_ok htext).trans ?_
  rw [hread]
  rfl

/-- A value without fractions that does not hold itself is written as a standard JSON text,
    and reading the text gives its data, which is the value again if it is data all
    through. -/
theorem run_stringify_parse (L : Linker) (pos pos' pos'' : Position) (e : Expr) (a b : String)
    (s s' : Session) (v : Value)
    (he : (eval L e).run { s with position := some pos } = (.ok v, s')) (hv : s'.heap.Portable v) :
    ∃ t j w h, s'.heap.json v = .ok t ∧ Json.IsStandard t ∧ s'.heap.plain v = .ok j ∧
      Json.read t = .ok j ∧ s'.heap.ofJson j = (w, h) ∧
      (execBlock L [.command pos (.text (.writeJson e (some a))),
        .command pos' (.text (.readJson (.name pos'' a) (some b)))]).run s =
          (.ok .normal, { s' with
            position := some pos'
            heap := h
            bag := (s'.bag.insert a (.text t)).insert b w }) ∧
      s'.heap.Extends h ∧ h.tree v = s'.heap.tree v ∧ h.tree w = (h.tree v).kept ∧
      ((h.tree v).isPure → h.tree w = h.tree v ∧ h.same v w = .ok true) := by
  have hfinite := hv.acyclic.finiteTree
  have hexact := hv.isExact_plain
  have hjson : s'.heap.json v = .ok (s'.heap.tree v).json := by
    rw [Heap.json, hfinite]
    rfl
  have hplain : s'.heap.plain v = .ok (s'.heap.tree v).plain := by
    rw [Heap.plain, hfinite]
    rfl
  have hread : Json.read (s'.heap.tree v).json = .ok (s'.heap.tree v).plain :=
    Json.read_compact hexact
  obtain ⟨hext, hportable, htree⟩ := Heap.ofJson_spec _ hexact s'.heap
  have hkept := htree.trans (Tree.tree_plain _ hv.acyclic.isFinite_tree)
  have hsame := hv.tree_eq hext
  refine ⟨_, _, _, _, hjson, Json.isStandard_compact hexact, hplain, hread, rfl, ?_, hext, hsame,
    ?_, fun hpure => ?_⟩
  · have hget := Dict.get?_insert_self s'.bag a (.text (s'.heap.tree v).json)
    rw [execBlock]
    refine (bind_ok (run_stringify pos a he hjson)).trans ?_
    rw [execBlock]
    exact (bind_ok (run_parse pos' pos'' a b hget hread)).trans rfl
  · rw [hkept, hsame]
  · have heq : (s'.heap.ofJson (s'.heap.tree v).plain).2.tree
        (s'.heap.ofJson (s'.heap.tree v).plain).1 =
          (s'.heap.ofJson (s'.heap.tree v).plain).2.tree v := by
      rw [hkept, hsame, Tree.kept_of_isPure _ (hsame ▸ hpure)]
    exact ⟨heq, (hv.extend hext).same hportable hpure heq⟩

/-- An object with a list, a method and an undefined number. -/
theorem run_stringify_parse_object :
    let fields : Dict Value := ⟨[("m", .method ⟨2⟩), ("a \"b\"", .list ⟨1⟩)], by decide⟩
    let items : List Value := [.int (-5), .text "é\n", .number .nan, .method ⟨2⟩]
    let s : Session :=
      { bag := .ofList [("x", .object ⟨0⟩)]
        heap := ⟨#[.object fields, .list items, .method ⟨0⟩ ⟨"m", [], [], false⟩]⟩ }
    (s.heap.Portable (.object ⟨0⟩) ∧ (eval .full (.name ⟨1, 11⟩ "x")).run
        { s with position := some ⟨1, 1⟩ } = (.ok (.object ⟨0⟩), { s with position := some ⟨1, 1⟩ })) ∧
      ∃ t w h, Json.IsStandard t ∧
        (execBlock .full [.command ⟨1, 1⟩ (.text (.writeJson (.name ⟨1, 11⟩ "x") (some "s"))),
          .command ⟨2, 1⟩ (.text (.readJson (.name ⟨2, 12⟩ "s") (some "y")))]).run s =
            (.ok .normal, { s with
              position := some ⟨2, 1⟩
              heap := h
              bag := (s.bag.insert "s" (.text t)).insert "y" w }) ∧
        h.tree w = .object [("a \"b\"", .list [.number (.int (-5)), .text "é\n", .null, .null])] := by
  intro fields items s
  have hmethod : s.heap.Portable (.method ⟨2⟩) := .method rfl
  have hnan : (Binary.nan.isNaN || Binary.nan.isInf) = true := by decide
  have hlist : s.heap.Portable (.list ⟨1⟩) := by
    refine .list (show s.heap.cell? ⟨1⟩ = some (.list items) from rfl) fun v hv => ?_
    simp only [items, mem_cons, not_mem_nil, or_false] at hv
    rcases hv with rfl | rfl | rfl | rfl
    exacts [.int _, .text _, .float hnan, hmethod]
  have hobject : s.heap.Portable (.object ⟨0⟩) := by
    refine .object (show s.heap.cell? ⟨0⟩ = some (.object fields) from rfl) (by decide)
      fun v hv => ?_
    rcases mem_pair.mp hv with rfl | rfl
    exacts [hmethod, hlist]
  obtain ⟨t, j, w, h, -, hstandard, -, -, -, hrun, -, hsame, hkept, -⟩ :=
    run_stringify_parse .full ⟨1, 1⟩ ⟨2, 1⟩ ⟨2, 12⟩ (.name ⟨1, 11⟩ "x") "s" "y" s
      { s with position := some ⟨1, 1⟩ } (.object ⟨0⟩) rfl hobject
  refine ⟨⟨hobject, rfl⟩, t, w, h, hstandard, hrun, ?_⟩
  rw [hkept, hsame]
  change Tree.kept (.object [("m", .method ⟨2⟩ "m"), ("a \"b\"", .list [.number (.int (-5)),
    .text "é\n", .number .nan, .method ⟨2⟩ "m"])]) = _
  simp only [Tree.kept, Tree.keptFields, Tree.keptItems, Number.nan, hnan, if_true]

end Run
end Parlance
