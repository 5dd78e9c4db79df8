/-!
# Dictionaries in Insertion Order

A finite map from names to values that remembers the order in which its names
arrived. Writing to a name that is present keeps its place; a name that is
taken out and written again goes to the end.
-/

namespace Parlance
open List Prod

/-- A map from names to values, in the order of insertion. -/
@[ext]
structure Dict (α : Type) where
  entries : List (String × α)
  distinct : (entries.map fst).Nodup

namespace Dict
variable {α : Type} {es : List (String × α)} {k' k : String} (d : Dict α)

def empty : Dict α := ⟨[], nodup_nil⟩

instance : EmptyCollection (Dict α) := ⟨empty⟩
instance : Inhabited (Dict α) := ⟨empty⟩

def get? (d : Dict α) (k : String) : Option α := d.entries.lookup k

def contains (d : Dict α) (k : String) : Bool := (d.get? k).isSome

/-- Writes a value into a list of entries, in place when the name is present
    and at the end otherwise. -/
def insertEntry (k : String) (v : α) : List (String × α) → List (String × α)
  | [] => [(k, v)]
  | (k', v') :: rest => if k = k' then (k, v) :: rest else (k', v') :: insertEntry k v rest

theorem mem_insertEntry {v : α} {e : String × α}
    (h : e ∈ insertEntry k v es) : e = (k, v) ∨ e ∈ es := by
  induction es with
  | nil => exact .inl (mem_singleton.mp h)
  | cons e' rest ih =>
    rw [insertEntry] at h
    split at h
    · exact (mem_cons.mp h).imp_right (mem_cons_of_mem _)
    · rcases mem_cons.mp h with rfl | h
      · exact .inr mem_cons_self
      · exact (ih h).imp_right (mem_cons_of_mem _)

theorem nodup_insertEntry {v : α}
    (h : (es.map fst).Nodup) : ((insertEntry k v es).map fst).Nodup := by
  induction es with
  | nil => simp [insertEntry]
  | cons e rest ih =>
    obtain ⟨he, hrest⟩ := nodup_cons.mp h
    rw [insertEntry]
    split
    case isTrue hk =>
      subst hk
      exact h
    case isFalse hk =>
      refine nodup_cons.mpr ⟨fun hmem => ?_, ih hrest⟩
      obtain ⟨e', he', heq⟩ := mem_map.mp hmem
      rcases mem_insertEntry he' with rfl | he'
      · exact hk heq
      · exact he (heq ▸ mem_map_of_mem he')

theorem nodup_filter {p : String × α → Bool}
    (h : (es.map fst).Nodup) : ((es.filter p).map fst).Nodup :=
  h.sublist (filter_sublist.map fst)

def insert (d : Dict α) (k : String) (v : α) : Dict α :=
  ⟨insertEntry k v d.entries, nodup_insertEntry d.distinct⟩

def erase (d : Dict α) (k : String) : Dict α :=
  ⟨d.entries.filter fun e => e.1 != k, nodup_filter d.distinct⟩

def merge (d e : Dict α) : Dict α := e.entries.foldl (fun acc p => acc.insert p.1 p.2) d

/-- The map with the given entries, where a later entry for a name replaces
    the value of an earlier one. -/
def ofList (entries : List (String × α)) : Dict α :=
  entries.foldl (fun acc p => acc.insert p.1 p.2) empty

def keys (d : Dict α) : List String := d.entries.map fst

def values (d : Dict α) : List α := d.entries.map snd

def size (d : Dict α) : Nat := d.entries.length

def map {β : Type} (f : α → β) (d : Dict α) : Dict β :=
  ⟨d.entries.map fun e => (e.1, f e.2), by simpa [Function.comp_def] using d.distinct⟩

def filter (p : String → α → Bool) (d : Dict α) : Dict α :=
  ⟨d.entries.filter fun e => p e.1 e.2, nodup_filter d.distinct⟩

theorem lookup_insertEntry_self (k : String) (v : α) (es : List (String × α)) :
    (insertEntry k v es).lookup k = some v := by
  induction es with
  | nil => simp [insertEntry]
  | cons e rest ih =>
    obtain ⟨k', v'⟩ := e
    by_cases h : k = k'
    · simp [insertEntry, h]
    · have hb : (k == k') = false := beq_eq_false_iff_ne.mpr h
      simp [insertEntry, h, lookup_cons, hb, ih]

theorem lookup_insertEntry_of_ne (h : k' ≠ k) (v : α)
    (es : List (String × α)) : (insertEntry k v es).lookup k' = es.lookup k' := by
  have hb : (k' == k) = false := beq_eq_false_iff_ne.mpr h
  induction es with
  | nil => simp [insertEntry, lookup_cons, hb]
  | cons e rest ih =>
    obtain ⟨k'', v''⟩ := e
    by_cases hk : k = k''
    · subst hk
      simp [insertEntry, lookup_cons, hb]
    · simp [insertEntry, hk, lookup_cons, ih]

@[simp] theorem get?_insert_self (k : String) (v : α) : (d.insert k v).get? k = some v :=
  lookup_insertEntry_self k v d.entries

theorem get?_insert_of_ne (h : k' ≠ k) (v : α) : (d.insert k v).get? k' = d.get? k' :=
  lookup_insertEntry_of_ne h v d.entries

theorem get?_erase_of_ne (h : k' ≠ k) : (d.erase k).get? k' = d.get? k' := by
  simp only [get?, erase]
  generalize d.entries = es
  induction es with
  | nil => rfl
  | cons e rest ih =>
    obtain ⟨k'', v''⟩ := e
    by_cases hk : k'' = k
    · have hb : (k' == k'') = false := beq_eq_false_iff_ne.mpr (hk ▸ h)
      rw [filter_cons_of_neg (by simp [hk]), ih]
      simp [lookup_cons, hb]
    · rw [filter_cons_of_pos (by simp [hk])]
      simp only [lookup_cons, ih]

end Dict
end Parlance
