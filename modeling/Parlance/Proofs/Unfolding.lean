import Mathlib.Data.List.Nodup
import Mathlib.Logic.Relation
import Parlance.Proofs.Cells

/-!
# Unfolding Values

`Heap.tree` carries the containers that are open and fuel for one level per cell, since a value may
hold itself. Of a value that does not, neither is to be seen: its tree is made of the trees of its
parts, and is finite. A container that is open holds all that is inside it, so on the way down all open
ones are different cells. There are no more of them than cells, and the fuel lasts.

## Main definitions

* `Heap.Acyclic`: Going from containers to what is in them comes to an end.
* `Heap.Open`: The unfolding has come to a value by way of the open containers, and has fuel for
  as many more as there are cells left.

## Theorems

* `Heap.Open.step`: One step into a container leaves the rest of the fuel and lengthens the path.
* `Heap.Acyclic.tree_list`: The tree of a list is the list of the trees.
* `Heap.Acyclic.tree_object`: The tree of an object has the trees of its fields.
* `Heap.Acyclic.finiteTree`: A value that does not hold itself has a finite tree.
-/

namespace Parlance
open List

def Value.ref? : Value → Option Ref
  | .list r | .object r => some r
  | _ => none

namespace Heap

def parts (h : Heap) (r : Ref) : List Value :=
  match h.cell? r with
  | some (.list items) => items
  | some (.object fields) => fields.values
  | _ => []

def Inside (h : Heap) (r' r : Ref) : Prop := ∃ v ∈ h.parts r, v.ref? = some r'

/-- Going from containers to what is in them comes to an end. -/
def Acyclic (h : Heap) (v : Value) : Prop := ∀ r, v.ref? = some r → Acc h.Inside r

variable {h h' : Heap} {r : Ref} {v : Value} {fuel fuel' : Nat} {path path' : List Ref}

theorem mem_parts_of_mem_items (hv : v ∈ h.items r) : v ∈ h.parts r := by
  revert hv
  rw [items, parts]
  rcases h.cell? r with _ | (items | fields | ⟨owner, m⟩)
  · exact id
  · exact id
  · exact fun hv => absurd hv not_mem_nil
  · exact id

theorem mem_parts_of_mem_fields (hv : v ∈ (h.fields r).values) : v ∈ h.parts r := by
  revert hv
  rw [fields, parts]
  rcases h.cell? r with _ | (items | fields | ⟨owner, m⟩)
  · exact id
  · exact fun hv => absurd hv not_mem_nil
  · exact id
  · exact id

theorem lt_size_of_mem_parts (hv : v ∈ h.parts r) : r.index < h.cells.size := by
  rw [parts] at hv
  rcases hr : h.cell? r with _ | c
  · rw [hr] at hv
    cases hv
  · exact (Array.getElem?_eq_some_iff.mp hr).1

theorem not_transGen_self (hr : Acc h.Inside r) : ¬Relation.TransGen h.Inside r r := by
  have hacc := hr.transGen
  clear hr
  induction hacc with
  | intro r _ ih => exact fun hself => ih r hself hself

theorem Acyclic.of_mem (hr : Acc h.Inside r) (hv : v ∈ h.parts r) : h.Acyclic v :=
  fun _ hr' => hr.inv ⟨v, hv, hr'⟩

/-- The unfolding has come to a value by way of the open containers, and has fuel for as many
    more as there are cells left. -/
structure Open (h : Heap) (fuel : Nat) (path : List Ref) (v : Value) : Prop where
  nodup : path.Nodup
  bound : ∀ p ∈ path, p.index < h.cells.size
  fuel : h.cells.size < fuel + path.length
  above : ∀ p ∈ path, ∀ r, v.ref? = some r → Relation.TransGen h.Inside r p

theorem open_root (h : Heap) (v : Value) : h.Open (h.cells.size + 1) [] v :=
  ⟨.nil, nofun, Nat.lt_succ_self _, nofun⟩

namespace Open

theorem fuel_pos (ho : h.Open fuel path v) : 0 < fuel := by
  have hsub : path.map Ref.index ⊆ range h.cells.size := by
    intro n hn
    obtain ⟨p, hp, rfl⟩ := mem_map.mp hn
    exact mem_range.mpr (ho.bound p hp)
  have hnodup : (path.map Ref.index).Nodup :=
    ho.nodup.map fun _ _ heq => congrArg Ref.mk heq
  have hlength := Nodup.length_le_of_subset hnodup hsub
  rw [length_map, length_range] at hlength
  have := ho.fuel
  omega

theorem levelsUp_eq_none (ho : h.Open fuel path v) (hr : v.ref? = some r) (hv : h.Acyclic v) :
    levelsUp r path = none := by
  have hnone : path.findIdx? (· == r) = none := by
    rw [findIdx?_eq_none_iff]
    intro p hp
    refine beq_eq_false_iff_ne.mpr fun heq => ?_
    have hself : Relation.TransGen h.Inside r r := heq ▸ ho.above p hp r hr
    exact not_transGen_self (hv r hr) hself
  rw [levelsUp, hnone, Option.map_none]

/-- One step into a container leaves the rest of the fuel and lengthens the path. -/
theorem step {w : Value} (ho : h.Open (fuel + 1) path v) (hr : v.ref? = some r) (hv : h.Acyclic v)
    (hw : w ∈ h.parts r) : h.Open fuel (r :: path) w where
  nodup := by
    refine nodup_cons.mpr ⟨fun hmem => ?_, ho.nodup⟩
    exact not_transGen_self (hv r hr) (ho.above r hmem r hr)
  bound := by
    intro p hp
    rcases mem_cons.mp hp with rfl | hp
    · exact lt_size_of_mem_parts hw
    · exact ho.bound p hp
  fuel := by
    have := ho.fuel
    rw [length_cons]
    omega
  above := by
    intro p hp r' hr'
    have hinside : h.Inside r' r := ⟨w, hw, hr'⟩
    rcases mem_cons.mp hp with rfl | hp
    · exact .single hinside
    · exact .head hinside (ho.above p hp r hr)

end Open

namespace Acyclic

theorem treeAt_eq (hv : h.Acyclic v) (ho : h.Open fuel path v) (ho' : h.Open fuel' path' v) :
    h.treeAt fuel path v = h.treeAt fuel' path' v := by
  induction fuel generalizing v path path' fuel' with
  | zero => exact absurd ho.fuel_pos (Nat.lt_irrefl 0)
  | succ fuel ih =>
    obtain ⟨fuel', rfl⟩ := Nat.exists_eq_succ_of_ne_zero (Nat.ne_of_gt ho'.fuel_pos)
    cases v with
    | list r =>
      rw [treeAt, treeAt, ho.levelsUp_eq_none rfl hv, ho'.levelsUp_eq_none rfl hv]
      refine congrArg Tree.list (List.map_congr_left fun w hw => ?_)
      have hw := mem_parts_of_mem_items hw
      exact ih (.of_mem (hv r rfl) hw) (ho.step rfl hv hw) (ho'.step rfl hv hw)
    | object r =>
      rw [treeAt, treeAt, ho.levelsUp_eq_none rfl hv, ho'.levelsUp_eq_none rfl hv]
      refine congrArg Tree.object (List.map_congr_left fun e he => ?_)
      have hw := mem_parts_of_mem_fields (List.mem_map_of_mem he)
      exact congrArg (Prod.mk e.1)
        (ih (.of_mem (hv r rfl) hw) (ho.step rfl hv hw) (ho'.step rfl hv hw))
    | _ => rfl

/-- The tree of a list is the list of the trees. -/
theorem tree_list (hv : h.Acyclic (.list r)) :
    h.tree (.list r) = .list ((h.items r).map h.tree) := by
  have ho := open_root h (.list r)
  rw [tree, treeAt, ho.levelsUp_eq_none rfl hv]
  refine congrArg Tree.list (List.map_congr_left fun w hw => ?_)
  have hw := mem_parts_of_mem_items hw
  exact treeAt_eq (.of_mem (hv r rfl) hw) (ho.step rfl hv hw) (open_root h w)

/-- The tree of an object has the trees of its fields. -/
theorem tree_object (hv : h.Acyclic (.object r)) :
    h.tree (.object r) = .object ((h.fields r).entries.map fun e => (e.1, h.tree e.2)) := by
  have ho := open_root h (.object r)
  rw [tree, treeAt, ho.levelsUp_eq_none rfl hv]
  refine congrArg Tree.object (List.map_congr_left fun e he => ?_)
  have hw := mem_parts_of_mem_fields (List.mem_map_of_mem he)
  exact congrArg (Prod.mk e.1)
    (treeAt_eq (.of_mem (hv r rfl) hw) (ho.step rfl hv hw) (open_root h e.2))

theorem isFinite_treeAt (hv : h.Acyclic v) (ho : h.Open fuel path v) :
    (h.treeAt fuel path v).isFinite := by
  induction fuel generalizing v path with
  | zero => exact absurd ho.fuel_pos (Nat.lt_irrefl 0)
  | succ fuel ih =>
    cases v with
    | list r =>
      rw [treeAt, ho.levelsUp_eq_none rfl hv]
      refine Tree.allFinite_map fun w hw => ?_
      have hw := mem_parts_of_mem_items hw
      exact ih (.of_mem (hv r rfl) hw) (ho.step rfl hv hw)
    | object r =>
      rw [treeAt, ho.levelsUp_eq_none rfl hv]
      refine Tree.allFieldsFinite_map fun e he => ?_
      have hw := mem_parts_of_mem_fields (List.mem_map_of_mem he)
      exact ih (.of_mem (hv r rfl) hw) (ho.step rfl hv hw)
    | _ => rfl

theorem isFinite_tree (hv : h.Acyclic v) : (h.tree v).isFinite :=
  hv.isFinite_treeAt (open_root h v)

/-- A value that does not hold itself has a finite tree. -/
theorem finiteTree (hv : h.Acyclic v) : h.finiteTree v = .ok (h.tree v) :=
  if_pos hv.isFinite_tree

end Acyclic
end Heap
end Parlance
