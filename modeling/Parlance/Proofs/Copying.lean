import Mathlib.Logic.Basic
import Parlance.Proofs.AlikeExec
import Parlance.Proofs.Growth

/-!
# Copies of Collections

A copy is a new cell with the items or fields of the old one. Some statements change the cell in place,
and others put a new list or object under the name, as one that appends to an object does. Either way
the name of the copy stands for a cell that was made after the copy was asked for, and no cell from
before is touched.

## Main definitions

* `Heap.Holds`: The value holds its items or fields in the cell.
* `Value.Beyond`: The value is no collection, or one beyond the first `n` cells.
* `Session.Apart`: There are `n` cells, and the variable stands for none of them.
* `Session.Spared`: The first `n` cells and all variables but one are as before.
* `Run.Bound.sparing`: The first `n` cells are left alone as long as the variable stands for none
  of them, and so are the other variables.

## Theorems

* `Run.within_var_bind`: The value of the variable is beyond the cells that are left alone.
* `Run.within_edits`: Every such statement leaves the first cells and the other variables alone.
* `Run.sparing_foldl`: A run of such statements, one after the other and whatever becomes of each.
* `Run.copy_independent`: A copy has what the original has, and whatever is put into it, taken out
  of it or moved in it afterwards, the original keeps its name and its items or fields.
-/

namespace Parlance
variable {vs : List Value}

/-- The value holds its items or fields in the cell. -/
inductive Heap.Holds (h : Heap) : Value → Cell → Prop
  | list {r : Ref} {items : List Value} : h.cell? r = some (.list items) →
    Holds h (.list r) (.list items)
  | object {r : Ref} {fields : Dict Value} : h.cell? r = some (.object fields) →
    Holds h (.object r) (.object fields)

theorem Heap.Holds.imp {h h' : Heap} {v : Value} {c : Cell} (hv : h.Holds v c)
    (hcell : ∀ r, h.cell? r = some c → h'.cell? r = some c) : h'.Holds v c := by
  cases hv with
  | list hr => exact .list (hcell _ hr)
  | object hr => exact .object (hcell _ hr)

/-- The value is no collection, or one beyond the first `n` cells. -/
def Value.Beyond (n : Nat) : Value → Prop
  | .list r | .object r => n ≤ r.index
  | _ => True

namespace Session

/-- There are `n` cells, and the variable stands for none of them. -/
structure Apart (n : Nat) (name : String) (s : Session) : Prop where
  cells : n ≤ s.heap.cells.size
  value : ((s.bag.get? name).getD .null).Beyond n

/-- The first `n` cells and all variables but one are as before. -/
structure Spared (n : Nat) (name : String) (s s' : Session) : Prop where
  cells : ∀ r : Ref, r.index < n → s'.heap.cell? r = s.heap.cell? r
  vars : ∀ x, x ≠ name → s'.bag.get? x = s.bag.get? x

end Session

namespace Run
variable {α : Type} {n : Nat} {b : String} {r : Ref} {s : Session} {d : Dict Value}

/-- The first `n` cells are left alone as long as the variable stands for none of them, and so
    are the other variables. -/
def Bound.sparing (n : Nat) (name : String) : Bound where
  step s s' := s.Apart n name → s'.Apart n name ∧ s.Spared n name s'
  ends _ := True
  refl _ h := ⟨h, fun _ _ => rfl, fun _ _ => rfl⟩
  trans h h' hs := by
    obtain ⟨hs', hspared⟩ := h hs
    obtain ⟨hs'', hspared'⟩ := h' hs'
    exact ⟨hs'', fun r hr => (hspared'.cells r hr).trans (hspared.cells r hr),
      fun x hx => (hspared'.vars x hx).trans (hspared.vars x hx)⟩
  notes _ _ _ _ h := ⟨⟨h.cells, h.value⟩, fun _ _ => rfl, fun _ _ => rfl⟩
  signals _ := trivial

theorem within_sparing {x : Run α} (h : ∀ s : Session, (Bound.sparing n b).step s (x.run s).2) :
    Within (.sparing n b) x := ⟨h, fun _ _ _ => trivial⟩

theorem sparing_alloc {bag : Dict Value} (c : Cell) (hs : s.Apart n b)
    (hvalue : ((bag.get? b).getD .null).Beyond n)
    (hvars : ∀ x, x ≠ b → bag.get? x = s.bag.get? x) :
    Session.Apart n b { s with heap := (s.heap.alloc c).2, bag } ∧
      s.Spared n b { s with heap := (s.heap.alloc c).2, bag } := by
  refine ⟨⟨Nat.le_trans hs.cells (s.heap.size_le_alloc c), hvalue⟩, fun r hr => ?_, hvars⟩
  have hold : r.index < s.heap.cells.size := Nat.lt_of_lt_of_le hr hs.cells
  exact (Array.getElem?_push_lt hold).trans (Array.getElem?_eq_getElem hold).symm

instance : (Bound.sparing n b).Making where
  list _ _ hs := sparing_alloc _ hs hs.value fun _ _ => rfl
  object _ _ hs := sparing_alloc _ hs hs.value fun _ _ => rfl
  journal _ _ hs := ⟨⟨hs.cells, hs.value⟩, fun _ _ => rfl, fun _ _ => rfl⟩

instance : (Bound.sparing n b).Using fun _ => true where
  builtin {fn vs} _ := by
    by_cases hfn : fn = .random
    · have hseed {f : Session → Nat} :
          Within (.sparing n b) (modify fun s => { s with seed := f s } : Run Unit) :=
        within_sparing fun _ hs => ⟨⟨hs.cells, hs.value⟩, fun _ _ => rfl, fun _ _ => rfl⟩
      have hrandom {low high : Number} : Within (.sparing n b) (random low high) := by
        unfold random draw
        infer_instance
      subst hfn
      unfold builtin
      infer_instance
    · exact within_builtin hfn

/-- The value of the variable is beyond the cells that are left alone. -/
theorem within_var_bind {f : Value → Run α}
    (hf : ∀ v : Value, Fact (v.Beyond n) → Within (.sparing n b) (f v)) :
    Within (.sparing n b) (var b >>= f) :=
  within_sparing fun s hs => (hf _ ⟨hs.value⟩).steps s hs

theorem sparing_set (hr : n ≤ r.index) (c : Cell) (hs : s.Apart n b) :
    Session.Apart n b { s with heap := s.heap.set r c } ∧
      s.Spared n b { s with heap := s.heap.set r c } := by
  refine ⟨⟨Nat.le_trans hs.cells (s.heap.size_le_set r c), hs.value⟩, fun r' hr' => ?_,
    fun _ _ => rfl⟩
  exact Heap.cell?_set_of_ne fun h => absurd (h ▸ hr') (Nat.not_lt.mpr hr)

instance [h : Fact ((Value.list r).Beyond n)] :
    Within (.sparing n b) (setItems r vs) := within_sparing fun _ => sparing_set h.out (.list vs)

instance [h : Fact ((Value.object r).Beyond n)] :
    Within (.sparing n b) (setFields r d) := within_sparing fun _ => sparing_set h.out (.object d)

instance {t : String} : Within (.sparing n b) (setVar b (.text t)) :=
  within_sparing fun s hs => ⟨⟨hs.cells, (s.bag.get?_insert_self b (.text t)).symm ▸ trivial⟩,
    fun _ _ => rfl, fun _ hx => Dict.get?_insert_of_ne _ hx _⟩

instance : Within (.sparing n b) (newList vs >>= fun v => setVar b v) :=
  within_sparing fun _ hs => sparing_alloc (.list vs) hs
    (by rw [Dict.get?_insert_self]; exact hs.cells) fun _ hx => Dict.get?_insert_of_ne _ hx _

instance : Within (.sparing n b) (newObject d >>= fun v => setVar b v) :=
  within_sparing fun _ hs => sparing_alloc (.object d) hs
    (by rw [Dict.get?_insert_self]; exact hs.cells) fun _ hx => Dict.get?_insert_of_ne _ hx _

end Run

/-- The expression calls no function of a script. -/
abbrev Expr.CallFree (e : Expr) : Prop := e.uses (fun _ => true) false

/-- The statement changes the collection of a variable, or puts another in its place. -/
inductive Stmt.Edits (b : String) : Stmt → Prop
  | append {pos : Position} {e : Expr} (he : e.CallFree) :
    Edits b (.command pos (.collection (.append e b)))
  | setIndex {pos : Position} {i e : Expr} (hi : i.CallFree) (he : e.CallFree) :
    Edits b (.command pos (.bag (.setIndex b i e)))
  | setKey {pos : Position} {k e : Expr} (hk : k.CallFree) (he : e.CallFree) :
    Edits b (.command pos (.bag (.setKey b k e)))
  | deleteKey {pos : Position} {k : Expr} (hk : k.CallFree) :
    Edits b (.command pos (.bag (.deleteKey b k)))
  | take {pos : Position} {side : ListEnd} : Edits b (.command pos (.collection (.take side b)))
  | sort {pos : Position} {descending : Bool} :
    Edits b (.command pos (.collection (.sort b descending)))
  | reverse {pos : Position} : Edits b (.command pos (.collection (.reverse b)))

namespace Run
variable {L : Linker} {n : Nat} {b : String} {s : Session} {st : Stmt} {body : List Stmt}

theorem within_callFree {e : Expr} (he : e.CallFree) : Within (.sparing n b) (eval L e) :=
  within_eval e he

theorem within_command {act : Run Unit} {pos : Position} (h : Within (.sparing n b) act) :
    Within (.sparing n b) (placing pos (normally act)) := by
  refine within_sparing fun s hs => ?_
  rw [snd_run_placing]
  have hact : Within (.sparing n b) (normally act) := within_bind
  obtain ⟨hs', hspared⟩ := hact.steps { s with position := some pos } ⟨hs.cells, hs.value⟩
  exact ⟨hs', hspared.cells, hspared.vars⟩

instance {B : Bound} {descending : Bool} : Within B (sorted descending vs) := by
  unfold sorted
  infer_instance

/-- Every such statement leaves the first cells and the other variables alone. -/
theorem within_edits (h : st.Edits b) : Within (.sparing n b) (exec L st) := by
  -- The kind of the old value decides whether its cell changes or a new one is made.
  cases h with
  | append he =>
    rw [exec]
    refine within_command ((within_callFree he).bind fun v => within_var_bind fun old hold => ?_)
    cases old <;> infer_instance
  | setIndex hi he =>
    have hi := within_callFree (n := n) (b := b) (L := L) hi
    have he := within_callFree (n := n) (b := b) (L := L) he
    rw [exec]
    refine within_command (within_var_bind fun old hold => ?_)
    unfold storeIndex
    cases old <;> infer_instance
  | setKey hk he =>
    have hk := within_callFree (n := n) (b := b) (L := L) hk
    have he := within_callFree (n := n) (b := b) (L := L) he
    rw [exec]
    refine within_command (within_var_bind fun old hold => ?_)
    unfold setKey storeIndex setEntry
    cases old <;> infer_instance
  | deleteKey hk =>
    have hk := within_callFree (n := n) (b := b) (L := L) hk
    rw [exec]
    refine within_command (within_var_bind fun old hold => ?_)
    unfold evalText
    cases old <;> infer_instance
  | take | sort | reverse =>
    rw [exec]
    refine within_command (within_var_bind fun old hold => ?_)
    cases old <;> infer_instance

/-- A run of such statements, one after the other and whatever becomes of each. -/
theorem sparing_foldl (hbody : ∀ st ∈ body, st.Edits b) (s : Session) :
    (Bound.sparing n b).step s (body.foldl (fun s st => ((exec L st).run s).2) s) := by
  induction body generalizing s with
  | nil => exact Bound.refl _ s
  | cons st rest ih =>
    obtain ⟨hst, hrest⟩ := List.forall_mem_cons.mp hbody
    exact Bound.trans _ ((within_edits hst).steps s) (ih hrest _)

theorem within_execBlock (hbody : ∀ st ∈ body, st.Edits b) :
    Within (.sparing n b) (execBlock L body) := by
  induction body with
  | nil => exact within_pure
  | cons st rest ih =>
    obtain ⟨hst, hrest⟩ := List.forall_mem_cons.mp hbody
    have hblock := ih hrest
    rw [execBlock]
    refine (within_edits hst).bind fun flow => ?_
    cases flow <;> infer_instance

/-- The copy is a new cell with what the old one holds. -/
theorem run_copy {a : String} {v : Value} {c : Cell} (pos : Position) (b : String)
    (ha : s.bag.get? a = some v) (hv : s.heap.Holds v c) :
    ∃ w : Value, (exec L (.command pos (.collection (.copy a b)))).run s =
        (.ok .normal, { s with
          position := some pos, heap := (s.heap.alloc c).2, bag := s.bag.insert b w }) ∧
      w.Beyond s.heap.cells.size ∧ (s.heap.alloc c).2.Holds w c := by
  have hvar : (var a).run { s with position := some pos } = (.ok v, { s with position := some pos }) :=
    run_var ha
  cases hv with
  | @list r items hr =>
    have hitems : (Run.items r).run { s with position := some pos } =
        (.ok items, { s with position := some pos }) := run_items hr
    refine ⟨.list ⟨s.heap.cells.size⟩, run_placing_ok (run_normally_ok ?_), Nat.le_refl _,
      .list (Heap.cell?_alloc_self _ _)⟩
    exact (bind_ok hvar).trans ((bind_ok hitems).trans rfl)
  | @object r fields hr =>
    refine ⟨.object ⟨s.heap.cells.size⟩, run_placing_ok (run_normally_ok ?_), Nat.le_refl _,
      .object (Heap.cell?_alloc_self _ _)⟩
    have hfields : (Run.fields r).run { s with position := some pos } =
        (.ok fields, { s with position := some pos }) := by
      change (Except.ok (s.heap.fields r), _) = _
      rw [Heap.fields, hr]
    exact (bind_ok hvar).trans ((bind_ok hfields).trans rfl)

/-- A copy has what the original has, and whatever is put into it, taken out of it or moved in
    it afterwards, the original keeps its name and its items or fields. -/
theorem copy_independent (L : Linker) (pos : Position) (a b : String) (hne : a ≠ b) (s : Session)
    (v : Value) (c : Cell) (ha : s.bag.get? a = some v) (hv : s.heap.Holds v c) :
    ∃ w s₁, (exec L (.command pos (.collection (.copy a b)))).run s = (.ok .normal, s₁) ∧
      s₁.bag.get? b = some w ∧ s₁.heap.Holds w c ∧ ∀ body : List Stmt, (∀ st ∈ body, st.Edits b) →
        ∀ s', s' = body.foldl (fun s st => ((exec L st).run s).2) s₁ ∨
          s' = ((execBlock L body).run s₁).2 → s'.bag.get? a = some v ∧ s'.heap.Holds v c := by
  obtain ⟨w, hrun, hw, hcopy⟩ := run_copy (L := L) pos b ha hv
  refine ⟨w, _, hrun, Dict.get?_insert_self .., hcopy, fun body hbody s' hs' => ?_⟩
  have hstep : (Bound.sparing s.heap.cells.size b).step { s with
      position := some pos, heap := (s.heap.alloc c).2, bag := s.bag.insert b w } s' := by
    rcases hs' with rfl | rfl
    · exact sparing_foldl hbody _
    · exact (within_execBlock hbody).steps _
  obtain ⟨-, hspared⟩ := hstep ⟨s.heap.size_le_alloc c, by rwa [Dict.get?_insert_self]⟩
  refine ⟨?_, hv.imp fun r hr => ?_⟩
  · rw [hspared.vars a hne, Dict.get?_insert_of_ne _ hne, ha]
  · obtain ⟨hlt, -⟩ := Array.getElem?_eq_some_iff.mp hr
    rw [hspared.cells r hlt]
    exact Heap.extends_alloc _ _ r c hr

/-- The copy of a list is written beyond its end, turned around and shortened. -/
theorem copy_independent_list :
    let s : Session := { heap := ⟨#[.list [.int 1, .int 2]]⟩, bag := .ofList [("a", .list ⟨0⟩)] }
    let body : List Stmt := [
      .command ⟨2, 1⟩ (.bag (.setIndex "b" (.number ⟨2, 11⟩ (.int 4)) (.null ⟨2, 18⟩))),
      .command ⟨3, 1⟩ (.collection (.reverse "b")),
      .command ⟨4, 1⟩ (.collection (.take .last "b"))]
    ∃ s₁, (exec .full (.command ⟨1, 1⟩ (.collection (.copy "a" "b")))).run s =
        (.ok .normal, s₁) ∧
      ((execBlock .full body).run s₁).2.bag.get? "a" = some (.list ⟨0⟩) ∧
      ((execBlock .full body).run s₁).2.heap.Holds (.list ⟨0⟩) (.list [.int 1, .int 2]) := by
  intro s body
  obtain ⟨w, s₁, hrun, -, -, hkept⟩ := copy_independent .full ⟨1, 1⟩ "a" "b" (by decide) s
    (.list ⟨0⟩) (.list [.int 1, .int 2]) rfl (.list rfl)
  refine ⟨s₁, hrun, hkept body ?_ _ (.inr rfl)⟩
  simp only [body, List.forall_mem_cons]
  exact ⟨.setIndex rfl rfl, .reverse, .take, List.forall_mem_nil _⟩

end Run
end Parlance
