import Parlance.Dict

/-!
# Entries of Dictionaries

## Theorems

* `Dict.mem_values_of_get?`: What is found under a key is among the values.
* `Dict.mem_values_insert`: The values after an insertion are the new one and old ones.
* `Dict.entries_ofList`: A dictionary made of entries with different keys has these entries, in
  their order.
* `Dict.get?_map`: Looking up commutes with a map over the values.
-/

namespace Parlance
open List

namespace Dict
variable {α : Type} {d : Dict α} {k : String} {v w : α} {p : String → α → Bool}
  {es : List (String × α)}

/-- What is found under a key is among the values. -/
theorem mem_values_of_get? (h : d.get? k = some v) : v ∈ d.values := by
  obtain ⟨before, after, hentries, -⟩ := lookup_eq_some_iff.mp h
  simp [values, hentries]

/-- The values after an insertion are the new one and old ones. -/
theorem mem_values_insert (h : v ∈ (d.insert k w).values) : v = w ∨ v ∈ d.values := by
  obtain ⟨e, he, rfl⟩ := mem_map.mp h
  rcases mem_insertEntry he with rfl | he
  · exact .inl rfl
  · exact .inr (mem_map_of_mem he)

theorem mem_values_erase (h : v ∈ (d.erase k).values) : v ∈ d.values := by
  obtain ⟨e, he, rfl⟩ := mem_map.mp h
  exact mem_map_of_mem (mem_filter.mp he).1

theorem mem_values_foldl_insert (h : v ∈ (es.foldl (fun acc p => acc.insert p.1 p.2) d).values) :
    v ∈ d.values ∨ v ∈ es.map Prod.snd := by
  induction es generalizing d with
  | nil => exact .inl h
  | cons e rest ih =>
    rcases ih h with hd | hrest
    · rcases mem_values_insert hd with rfl | hd
      · exact .inr mem_cons_self
      · exact .inl hd
    · exact .inr (mem_cons_of_mem _ hrest)

theorem get?_filter_eq_none (hp : ∀ v, p k v = false) : (d.filter p).get? k = none := by
  rcases hget : (d.filter p).get? k with _ | v
  · rfl
  · obtain ⟨before, after, hentries, -⟩ := lookup_eq_some_iff.mp hget
    have hmem : (k, v) ∈ (d.filter p).entries := by simp [hentries]
    exact absurd (mem_filter.mp hmem).2 (by simp [hp])

/-! ### Distinct names -/

theorem get?_of_mem (h : (k, v) ∈ d.entries) : d.get? k = some v := by
  obtain ⟨before, after, hentries⟩ := append_of_mem h
  have hd := d.distinct
  refine lookup_eq_some_iff.mpr ⟨before, after, hentries, fun e he => ?_⟩
  rw [hentries, map_append, nodup_append] at hd
  have hne := hd.2.2 e.1 (mem_map_of_mem he) k (by simp)
  exact bne_iff_ne.mpr hne.symm

theorem mem_keys_of_get? (h : d.get? k = some v) : k ∈ d.keys := by
  obtain ⟨before, after, hentries, -⟩ := lookup_eq_some_iff.mp h
  simp [keys, hentries]

theorem insertEntry_of_notMem (hk : k ∉ es.map Prod.fst) : insertEntry k v es = es ++ [(k, v)] := by
  induction es with
  | nil => rfl
  | cons e rest ih =>
    rw [map_cons, mem_cons, not_or] at hk
    rw [insertEntry, if_neg hk.1, cons_append, ih hk.2]

theorem entries_foldl_insert (hes : ((d.entries ++ es).map Prod.fst).Nodup) :
    (es.foldl (fun acc p => acc.insert p.1 p.2) d).entries = d.entries ++ es := by
  induction es generalizing d with
  | nil => rw [append_nil, foldl_nil]
  | cons e rest ih =>
    have hk : e.1 ∉ d.entries.map Prod.fst := fun hmem => by
      rw [map_append, nodup_append] at hes
      exact hes.2.2 _ hmem _ (mem_cons_self ..) rfl
    have hentries : (d.insert e.1 e.2).entries = d.entries ++ [e] := insertEntry_of_notMem hk
    rw [append_cons, ← hentries] at hes ⊢
    rw [foldl_cons, ih hes]

/-- A dictionary made of entries with different keys has these entries, in their order. -/
theorem entries_ofList (hes : (es.map Prod.fst).Nodup) : (ofList es).entries = es :=
  entries_foldl_insert (d := empty) hes

/-- Looking up commutes with a map over the values. -/
theorem get?_map {β : Type} (f : α → β) : (d.map f).get? k = (d.get? k).map f := by
  simp only [get?, map]
  generalize d.entries = es
  induction es with
  | nil => rfl
  | cons e rest ih =>
    rw [map_cons, lookup_cons, lookup_cons]
    cases k == e.1 with
    | true => rfl
    | false => exact ih

theorem get?_filter : (d.filter p).get? k = (d.get? k).filter (p k) := by
  rcases hget : (d.filter p).get? k with _ | v
  · refine .symm (Option.filter_eq_none_iff.mpr fun v hv hp => ?_)
    obtain ⟨before, after, hentries, -⟩ := lookup_eq_some_iff.mp hv
    have hmem : (k, v) ∈ (d.filter p).entries :=
      mem_filter.mpr ⟨by simp [hentries], hp⟩
    rw [get?_of_mem hmem] at hget
    cases hget
  · obtain ⟨before, after, hentries, -⟩ := lookup_eq_some_iff.mp hget
    have hmem : (k, v) ∈ (d.filter p).entries := by simp [hentries]
    obtain ⟨hd, hp⟩ := mem_filter.mp hmem
    exact .symm (Option.filter_eq_some_iff.mpr ⟨get?_of_mem hd, hp⟩)

end Dict
end Parlance
