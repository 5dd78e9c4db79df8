import Parlance.Engine.Rules
import Parlance.Proofs.Dict
import Parlance.Proofs.Rounding

/-!
# Numbers in Normal Form

A binary64 number with a whole value has two forms, and `Number.normal` picks the one as a whole
number. Whether numbers are in normal form is a question about everything that holds one: values,
documents, syntax trees, and through them the whole state of a script.

`Normality` says for each type what is asked of its values, and `Normal` that it holds. Types
without numbers ask for nothing. Commands are also asked to be of a kind `K`, since what is known
of a run depends on the commands that may run.

## Main definitions

* `Normality`: What is asked of the values of a type, where commands have to be of the kind `K`.
* `Normal`: The value is as asked of the values of its type.
* `Held`: A value that is as asked.
* `Among`: The value is one of these.
* `Preserves`: From normal states the computation leads to normal states, however it ends.

## Theorems

* `Normal.item`: An item of a normal list is normal.
* `Keeps.run`: What a computation leaves and gives is normal if it began normal.
* `Keeps.bind`: Two computations in sequence, where the second may use that the value of the first
  is normal.
* `Preserves.bind`: The first of two computations gives a value of which nothing is known.
-/

namespace Parlance
open List

/-- What is asked of the values of a type, where commands have to be of the kind `K`. -/
class Normality (K : Command → Prop) (α : Type) where
  holds : α → Prop

/-- The value is as asked of the values of its type. -/
class Normal (K : Command → Prop) {α : Type} [Normality K α] (a : α) : Prop where
  out : @Normality.holds K α _ a

/-- A value that is as asked. Rules that go on with such a value take it together with the
    proof, where the class inference finds it. -/
abbrev Held (K : Command → Prop) (α : Type) [Normality K α] : Type := { a : α // Normal K a }

variable {K : Command → Prop} {ε σ α β : Type}

instance [Normality K α] {a : Held K α} : Normal K a.1 := a.2

/-- Nothing is asked of types that hold no numbers. -/
instance (priority := low) Normality.trivial : Normality K α := ⟨fun _ => True⟩
instance (priority := low) normal_trivial {a : α} : @Normal K α .trivial a := ⟨True.intro⟩

section Among

universe u

variable {γ : Type u} {a b : γ} {xs : List γ}

/-- The value is one of these. -/
class Among (a : γ) (xs : List γ) : Prop where
  mem : a ∈ xs

instance : Among a (a :: xs) := ⟨mem_cons_self⟩
instance [h : Among a xs] : Among a (b :: xs) := ⟨mem_cons_of_mem _ h.mem⟩

end Among

/-! ### Containers -/

section Containers
variable [Normality K α] [Normality K β] {f : α → β} {es : List (String × α)}

instance Normality.list : Normality K (List α) := ⟨fun xs => ∀ x ∈ xs, Normal K x⟩
instance Normality.option : Normality K (Option α) := ⟨fun o => ∀ a, o = some a → Normal K a⟩
instance : Normality K (α × β) := ⟨fun p => Normal K p.1 ∧ Normal K p.2⟩

instance Normality.sum : Normality K (α ⊕ β) :=
  ⟨fun x => (∀ a, x = .inl a → Normal K a) ∧ ∀ b, x = .inr b → Normal K b⟩

instance Normality.except : Normality K (Except ε α) := ⟨fun x => ∀ a, x = .ok a → Normal K a⟩
instance : Normality K (Dict α) := ⟨fun d => ∀ e ∈ d.entries, Normal K e.2⟩

variable {a : α} {b : β} {xs ys : List α} {o : Option α} {d : Dict α} {k : String}

instance normal_ite {p : Prop} [Decidable p] {a' : α} [ha : Normal K a] [ha' : Normal K a'] :
    Normal K (if p then a else a') := by
  split
  · exact ha
  · exact ha'

instance normal_nil : Normal K ([] : List α) := ⟨forall_mem_nil _⟩

theorem normal_cons_iff : Normal K (a :: xs) ↔ Normal K a ∧ Normal K xs :=
  ⟨fun h => have ⟨ha, hxs⟩ := forall_mem_cons.mp h.out; ⟨ha, ⟨hxs⟩⟩,
    fun h => ⟨forall_mem_cons.mpr ⟨h.1, h.2.out⟩⟩⟩

instance [ha : Normal K a] [hxs : Normal K xs] : Normal K (a :: xs) :=
  normal_cons_iff.mpr ⟨ha, hxs⟩

/-- An item of a normal list is normal. -/
theorem Normal.item (h : Normal K xs) [hmem : Among a xs] : Normal K a := h.out a hmem.mem

theorem Normal.of_subset (h : Normal K xs) (hys : ∀ y ∈ ys, y ∈ xs) : Normal K ys :=
  ⟨fun y hy => h.out y (hys y hy)⟩

instance [hxs : Normal K xs] [hys : Normal K ys] : Normal K (xs ++ ys) :=
  ⟨forall_mem_append.mpr ⟨hxs.out, hys.out⟩⟩

instance [h : Normal K xs] : Normal K xs.reverse :=
  h.of_subset fun _ => mem_reverse.mp

instance {n : Nat} [h : Normal K xs] : Normal K (xs.drop n) :=
  h.of_subset fun _ => mem_of_mem_drop

instance [h : Normal K xs] : Normal K xs.dropLast :=
  h.of_subset fun _ => mem_of_mem_dropLast

instance [h : Normal K xs] : Normal K xs.tail :=
  h.of_subset fun _ => mem_of_mem_tail

instance {p : α → Bool} [h : Normal K xs] : Normal K (xs.filter p) :=
  h.of_subset fun _ => mem_of_mem_filter

instance [h : Normal K xs] [ha : Normal K a] : Normal K (xs.headD a) := by
  cases xs with
  | nil => exact ha
  | cons x rest =>
    obtain ⟨hx, -⟩ := normal_cons_iff.mp h
    exact hx

instance [h : Normal K xs] [hf : ∀ a : Held K α, Normal K (f a.1)] : Normal K (xs.map f) := by
  refine ⟨fun b hb => ?_⟩
  obtain ⟨a, ha, rfl⟩ := mem_map.mp hb
  exact hf ⟨a, h.out a ha⟩

instance {f : α → Option β} [h : Normal K xs]
    [hf : ∀ a : Held K α, Normal K (f a.1)] : Normal K (xs.filterMap f) := by
  refine ⟨fun b hb => ?_⟩
  obtain ⟨a, ha, hab⟩ := mem_filterMap.mp hb
  exact (hf ⟨a, h.out a ha⟩).out b hab

instance {f : β → α → β} [h : Normal K xs] [hb : Normal K b]
    [hf : ∀ (b : Held K β) (a : Held K α), Normal K (f b.1 a.1)] : Normal K (xs.foldl f b) := by
  -- The instance is about the list of the induction, and changes with it.
  revert h
  induction xs generalizing b with
  | nil => exact hb
  | cons x rest ih =>
    intro h
    obtain ⟨hx, hrest⟩ := normal_cons_iff.mp h
    have hfirst := hf ⟨b, hb⟩ ⟨x, hx⟩
    exact ih

instance {i : Nat} [h : Normal K xs] : Normal K xs[i]? :=
  ⟨fun a ha => h.out a (mem_of_getElem? ha)⟩

instance normal_find? {p : α → Bool} [h : Normal K xs] : Normal K (xs.find? p) :=
  ⟨fun a ha => h.out a (mem_of_find?_eq_some ha)⟩

instance normal_none : Normal K (none : Option α) := ⟨nofun⟩
instance normal_some [h : Normal K a] : Normal K (some a) := ⟨fun _ ha => Option.some.inj ha ▸ h⟩

theorem Normal.some_inv (h : Normal K (some a)) : Normal K a := h.out a rfl

instance [h : Normal K o] [ha : Normal K a] : Normal K (o.getD a) := by
  cases o with
  | none => exact ha
  | some b => exact h.some_inv

instance [h : Normal K o] : Normal K o.toList :=
  ⟨fun a ha => h.out a (Option.mem_toList.mp ha)⟩

instance [h : Normal K o] [hf : ∀ a : Held K α, Normal K (f a.1)] : Normal K (o.map f) := by
  cases o with
  | none => exact normal_none
  | some a => exact @normal_some _ _ _ _ (hf ⟨a, h.some_inv⟩)

instance [h : Normal K o] [hb : Normal K b] [hf : ∀ a : Held K α, Normal K (f a.1)] :
    Normal K (o.elim b f) := by
  cases o with
  | none => exact hb
  | some a => exact hf ⟨a, h.some_inv⟩

instance {o : Option (Option α)} [h : Normal K o] : Normal K o.join := by
  cases o with
  | none => exact normal_none
  | some a => exact h.some_inv

instance normal_pair [ha : Normal K a] [hb : Normal K b] : Normal K (a, b) := ⟨⟨ha, hb⟩⟩
instance {p : α × β} [h : Normal K p] : Normal K p.1 := h.out.1
instance {p : α × β} [h : Normal K p] : Normal K p.2 := h.out.2

instance [ha : Normal K a] : Normal K (.inl a : α ⊕ β) :=
  ⟨⟨fun _ h => Sum.inl.inj h ▸ ha, nofun⟩⟩

instance [hb : Normal K b] : Normal K (.inr b : α ⊕ β) :=
  ⟨⟨nofun, fun _ h => Sum.inr.inj h ▸ hb⟩⟩

instance {x : α ⊕ β} [h : Normal K x] : Normal K x.getLeft? :=
  ⟨fun a ha => h.out.1 a (Sum.getLeft?_eq_some_iff.mp ha)⟩

instance {x : α ⊕ β} [h : Normal K x] : Normal K x.getRight? :=
  ⟨fun b hb => h.out.2 b (Sum.getRight?_eq_some_iff.mp hb)⟩

/-! ### Maps -/

instance normal_empty : Normal K (∅ : Dict α) := ⟨forall_mem_nil _⟩

theorem normal_dict_iff : Normal K d ↔ ∀ a ∈ d.values, Normal K a := by
  refine ⟨fun h a ha => ?_, fun h => ⟨fun e he => h e.2 (mem_map.mpr ⟨e, he, rfl⟩)⟩⟩
  obtain ⟨e, he, rfl⟩ := mem_map.mp ha
  exact h.out e he

instance [h : Normal K d] : Normal K d.values := ⟨normal_dict_iff.mp h⟩

instance [h : Normal K d] : Normal K d.entries :=
  ⟨fun e he => ⟨⟨inferInstance, h.out e he⟩⟩⟩

instance normal_get? [h : Normal K d] : Normal K (d.get? k) :=
  ⟨fun a ha => normal_dict_iff.mp h a (Dict.mem_values_of_get? ha)⟩

instance normal_lookup [h : Normal K es] : Normal K (es.lookup k) where
  out a ha := by
    obtain ⟨before, after, rfl, -⟩ := lookup_eq_some_iff.mp ha
    exact (h.out (k, a) (by simp)).out.2

instance [h : Normal K d] [ha : Normal K a] : Normal K (d.insert k a) := by
  refine normal_dict_iff.mpr fun b hb => ?_
  rcases Dict.mem_values_insert hb with rfl | hb
  · exact ha
  · exact normal_dict_iff.mp h b hb

instance [h : Normal K d] : Normal K (d.erase k) :=
  normal_dict_iff.mpr fun b hb => normal_dict_iff.mp h b (Dict.mem_values_erase hb)

instance {p : String → α → Bool} [h : Normal K d] : Normal K (d.filter p) :=
  ⟨fun e he => h.out e (mem_of_mem_filter he)⟩

instance [h : Normal K d] [hf : ∀ a : Held K α, Normal K (f a.1)] : Normal K (d.map f) := by
  refine ⟨fun e he => ?_⟩
  obtain ⟨e', he', rfl⟩ := mem_map.mp he
  exact hf ⟨e'.2, h.out e' he'⟩

instance {d' : Dict α} [Normal K d] [Normal K d'] : Normal K (d.merge d') := by
  unfold Dict.merge
  infer_instance

instance [Normal K es] : Normal K (Dict.ofList es) := by
  have : Normal K (Dict.empty : Dict α) := normal_empty
  unfold Dict.ofList
  infer_instance

/-! ### Results that may be missing -/

instance normal_ok [h : Normal K a] : Normal K (.ok a : Except ε α) :=
  ⟨fun _ ha => Except.ok.inj ha ▸ h⟩

instance normal_error {e : ε} : Normal K (.error e : Except ε α) := ⟨nofun⟩
instance {e : ε} : Normal K (throw e : Except ε α) := normal_error
instance [Normal K a] : Normal K (pure a : Except ε α) := normal_ok

instance normal_except_bind {x : Except ε α} {f : α → Except ε β} [h : Normal K x]
    [hf : ∀ a : Held K α, Normal K (f a.1)] : Normal K (x >>= f) := by
  cases x with
  | error e => exact normal_error
  | ok a => exact hf ⟨a, h.out a rfl⟩

instance (priority := low) normal_except_bind_of_forall {x : Except ε α} {f : α → Except ε β}
    [hf : ∀ a, Normal K (f a)] : Normal K (x >>= f) := by
  cases x with
  | error e => exact normal_error
  | ok a => exact hf a

end Containers

/-! ### Containers without numbers -/

section Free
variable [Normality K α] [h : ∀ a : α, Normal K a]

instance (priority := low) normal_list_of_forall {xs : List α} : Normal K xs := ⟨fun a _ => h a⟩
instance (priority := low) normal_option_of_forall {o : Option α} : Normal K o := ⟨fun a _ => h a⟩

instance (priority := low) normal_except_of_forall {x : Except ε α} : Normal K x :=
  ⟨fun a _ => h a⟩

end Free

/-! ### Computations -/

/-- From normal states the computation leads to normal states, however it ends. -/
class Preserves (K : Command → Prop) [Normality K σ] (x : ExceptT ε (StateM σ) α) : Prop where
  state : ∀ s : σ, Normal K s → Normal K (x.run s).2

/-- From normal states the computation leads to normal states, and its result is normal. -/
class Keeps (K : Command → Prop) [Normality K σ] [Normality K α]
    (x : ExceptT ε (StateM σ) α) : Prop extends Preserves K x where
  result : ∀ s : σ, Normal K s → Normal K (x.run s).1

section Computations
variable [Normality K σ] [Normality K α] [Normality K β] {x y : ExceptT ε (StateM σ) α}
  {f : α → ExceptT ε (StateM σ) β}

theorem Keeps.of_run (h : ∀ s : σ, Normal K s → @Normal K (Except ε α × σ) _ (x.run s)) :
    Keeps K x where
  state s hs := (h s hs).out.2
  result s hs := (h s hs).out.1

/-- What a computation leaves and gives is normal if it began normal. -/
theorem Keeps.run (h : Keeps K x) {s : σ} (hs : Normal K s) :
    @Normal K (Except ε α × σ) _ (x.run s) :=
  ⟨⟨h.result s hs, h.state s hs⟩⟩

theorem run_bindCont {s : σ} : (x >>= f).run s = ExceptT.bindCont f (x.run s).1 (x.run s).2 := rfl

instance keeps_pure {a : α} [Normal K a] : Keeps K (pure a : ExceptT ε (StateM σ) α) where
  state _ hs := hs
  result _ _ := normal_ok

instance keeps_throw {e : ε} : Keeps K (throw e : ExceptT ε (StateM σ) α) where
  state _ hs := hs
  result _ _ := normal_error

/-- Two computations in sequence, where the second may use that the value of the first is normal.
    -/
theorem Keeps.bind (hx : Keeps K x) (hf : ∀ a : Held K α, Keeps K (f a.1)) : Keeps K (x >>= f) := by
  refine .of_run fun s hs => ?_
  rw [run_bindCont]
  obtain ⟨hresult, hstate⟩ := (hx.run hs).out
  rcases h : x.run s with ⟨e | a, s'⟩ <;> rw [h] at hresult hstate
  · exact ⟨⟨normal_error, hstate⟩⟩
  · exact (hf ⟨a, hresult.out a rfl⟩).run hstate

instance keeps_bind [hx : Keeps K x] [hf : ∀ a : Held K α, Keeps K (f a.1)] :
    Keeps K (x >>= f) := hx.bind hf

theorem Keeps.bind_pair {γ : Type} [Normality K γ] {x : ExceptT ε (StateM σ) (α × β)}
    {f : α × β → ExceptT ε (StateM σ) γ} (hx : Keeps K x)
    (hf : ∀ (a : Held K α) (b : Held K β), Keeps K (f (a.1, b.1))) : Keeps K (x >>= f) :=
  hx.bind fun ⟨(a, b), h⟩ => hf ⟨a, h.out.1⟩ ⟨b, h.out.2⟩

theorem Keeps.bind_option {x : ExceptT ε (StateM σ) (Option α)}
    {f : Option α → ExceptT ε (StateM σ) β} (hx : Keeps K x) (hnone : Keeps K (f none))
    (hsome : ∀ a : Held K α, Keeps K (f (some a.1))) : Keeps K (x >>= f) := by
  refine hx.bind fun ⟨o, ho⟩ => ?_
  cases o with
  | none => exact hnone
  | some a => exact hsome ⟨a, ho.some_inv⟩

omit [Normality K α] in
/-- The first of two computations gives a value of which nothing is known. -/
theorem Preserves.bind (hx : Preserves K x) (hf : ∀ a, Keeps K (f a)) : Keeps K (x >>= f) := by
  refine .of_run fun s hs => ?_
  rw [run_bindCont]
  have hstate := hx.state s hs
  rcases h : x.run s with ⟨e | a, s'⟩ <;> rw [h] at hstate
  · exact ⟨⟨normal_error, hstate⟩⟩
  · exact (hf a).run hstate

instance (priority := low) keeps_bind_of_forall [hx : Preserves K x]
    [hf : ∀ a, Keeps K (f a)] : Keeps K (x >>= f) := hx.bind hf

instance (priority := high) keeps_discard {y : ExceptT ε (StateM σ) β} [hx : Preserves K x]
    [hy : Keeps K y] : Keeps K (x >>= fun _ => y) := hx.bind fun _ => hy

omit [Normality K β] in
theorem Keeps.bind_preserves (hx : Keeps K x) (hf : ∀ a : Held K α, Preserves K (f a.1)) :
    Preserves K (x >>= f) where
  state s hs := by
    rw [run_bindCont]
    obtain ⟨hresult, hstate⟩ := (hx.run hs).out
    rcases h : x.run s with ⟨e | a, s'⟩ <;> rw [h] at hresult hstate
    · exact hstate
    · exact (hf ⟨a, hresult.out a rfl⟩).state s' hstate

instance [hx : Keeps K x] [hf : ∀ a : Held K α, Preserves K (f a.1)] :
    Preserves K (x >>= f) := hx.bind_preserves hf

instance (priority := low) preserves_bind_of_forall [hx : Preserves K x]
    [hf : ∀ a, Preserves K (f a)] : Preserves K (x >>= f) where
  state s hs := by
    rw [run_bindCont]
    have hstate := hx.state s hs
    rcases h : x.run s with ⟨e | a, s'⟩ <;> rw [h] at hstate
    · exact hstate
    · exact (hf a).state s' hstate

instance {f : α → β} [Keeps K x] [∀ a : Held K α, Normal K (f a.1)] : Keeps K (f <$> x) := by
  rw [map_eq_pure_bind]
  infer_instance

instance keeps_ite {p : Prop} [Decidable p] [hx : Keeps K x] [hy : Keeps K y] :
    Keeps K (if p then x else y) := by
  split
  · exact hx
  · exact hy

instance {p : Prop} [Decidable p] [hx : Preserves K x] [hy : Preserves K y] :
    Preserves K (if p then x else y) := by
  split
  · exact hx
  · exact hy

/-- What follows a question looks at the answer once. Without this rule the class inference
    would carry the answer through all that follows. -/
instance (priority := high) keeps_branch {q : ExceptT ε (StateM σ) Bool} [hq : Keeps K q]
    [Keeps K x] [Keeps K y] :
    Keeps K (q >>= fun b => if b = true then x else y) := hq.bind fun _ => keeps_ite

instance keeps_tryCatch {h : ε → ExceptT ε (StateM σ) α} [hx : Keeps K x]
    [hh : ∀ e, Keeps K (h e)] : Keeps K (tryCatch x h) := by
  refine .of_run fun s hs => ?_
  have hbind (y : StateM σ (Except ε α)) (g : Except ε α → StateM σ (Except ε α)) :
      (y >>= g) s = g (y s).1 (y s).2 := rfl
  rw [ExceptT.run_tryCatch, hbind]
  obtain ⟨hresult, hstate⟩ := (hx.run hs).out
  -- The handler starts where the computation stopped, and nothing is undone.
  change @Normal K (Except ε α × σ) _ ((match (x.run s).1 with
    | .ok a => pure (.ok a)
    | .error e => (h e).run : StateM σ (Except ε α)) (x.run s).2)
  rcases hrun : x.run s with ⟨e | a, s'⟩ <;> rw [hrun] at hresult hstate
  · exact (hh e).run hstate
  · exact ⟨⟨hresult, hstate⟩⟩

instance keeps_get : Keeps K (get : ExceptT ε (StateM σ) σ) where
  state _ hs := hs
  result _ hs := @normal_ok _ _ _ _ _ hs

instance keeps_modify {f : σ → σ} [hf : ∀ s : Held K σ, Normal K (f s.1)] :
    Keeps K (modify f : ExceptT ε (StateM σ) PUnit) where
  state s hs := hf ⟨s, hs⟩
  result _ _ := normal_ok

instance {f : σ → α × σ} [hf : ∀ s : Held K σ, Normal K (f s.1)] :
    Keeps K (modifyGet f : ExceptT ε (StateM σ) α) where
  state s hs := (hf ⟨s, hs⟩).out.2
  result s hs := @normal_ok _ _ _ _ _ (hf ⟨s, hs⟩).out.1

end Computations

/-! ### Parts -/

/-- A part of something, of which it is known what is asked. -/
structure Part (K : Command → Prop) where
  {type : Type}
  [normality : Normality K type]
  value : type

/-- All of the parts are as asked. -/
class AllNormal (ps : List (Part K)) : Prop where
  out : ∀ p ∈ ps, @Normal K p.type p.normality p.value

instance allNormal_nil : AllNormal ([] : List (Part K)) := ⟨forall_mem_nil _⟩

instance allNormal_cons [Normality K α] {a : α} {ps : List (Part K)} [ha : Normal K a]
    [hps : AllNormal ps] : AllNormal (⟨a⟩ :: ps) := ⟨forall_mem_cons.mpr ⟨ha, hps.out⟩⟩

theorem AllNormal.part {ps : List (Part K)} (h : AllNormal ps) {type : Type} [Normality K type]
    {value : type} [hmem : Among (Part.mk value) ps] : Normal K value := h.out _ hmem.mem

/-! ### Numbers -/

namespace Binary
open Float.Model (UnpackedFloat Format)
open Float.Model.UnpackedFloat

theorem fields_pack_abs (u : UnpackedFloat) :
    unpackExponent (pack Format.binary64 u.abs) = unpackExponent (pack Format.binary64 u) ∧
      unpackMantissa (pack Format.binary64 u.abs) = unpackMantissa (pack Format.binary64 u) := by
  cases u with
  | notANumber => exact ⟨rfl, rfl⟩
  | infinity s => simp only [UnpackedFloat.abs, pack, packedInfinity, unpackExponent_packComponents,
      unpackMantissa_packComponents, and_self]
  | zero s => simp only [UnpackedFloat.abs, pack, packedZero, unpackExponent_packComponents,
      unpackMantissa_packComponents, and_self]
  | finite s m e hm =>
    simp only [UnpackedFloat.abs, pack, packedInfinity]
    split
    · simp only [unpackExponent_packComponents, unpackMantissa_packComponents, and_self]
    · split <;> simp only [unpackExponent_packComponents, unpackMantissa_packComponents, and_self]

theorem dyadic?_abs (x : Float) :
    ∃ negative, dyadic? x.abs = (dyadic? x).map fun d => ⟨negative, d.significand, d.exponent⟩ := by
  -- The bits of a number are what its parts pack to, so the fields can be compared on those.
  have hbits : pack Format.binary64 (unpack Format.binary64 x.toBits.toBitVec) =
      x.toBits.toBitVec := pack_unpack_of_valid x.toModel.valid
  obtain ⟨hexponent, hmantissa⟩ := fields_pack_abs (unpack Format.binary64 x.toBits.toBitVec)
  rw [hbits] at hexponent hmantissa
  have hbiased : x.abs.toBits.toNat / 2 ^ 52 % 2 ^ 11 = x.toBits.toNat / 2 ^ 52 % 2 ^ 11 := by
    rw [← toNat_unpackExponent, ← toNat_unpackExponent]
    exact congrArg BitVec.toNat hexponent
  have hfraction : x.abs.toBits.toNat % 2 ^ 52 = x.toBits.toNat % 2 ^ 52 := by
    rw [← toNat_unpackMantissa, ← toNat_unpackMantissa]
    exact congrArg BitVec.toNat hmantissa
  refine ⟨x.abs.toBits.toNat / 2 ^ 63 == 1, ?_⟩
  simp only [dyadic?, Nat.pow_eq, hbiased, hfraction]
  split
  · rfl
  · split <;> rfl

theorem whole?_abs {x : Float} (h : whole? x = none) : whole? x.abs = none := by
  obtain ⟨negative, habs⟩ := dyadic?_abs x
  unfold whole? at h ⊢
  rw [habs]
  cases hd : dyadic? x with
  | none => rfl
  | some d =>
    rw [hd] at h
    -- Whether the value is whole is a question about the fraction without its sign.
    have hratio : Dyadic.ratio ⟨negative, d.significand, d.exponent⟩ = d.ratio := rfl
    simp only [Option.map_some, hratio]
    simp only at h
    split at h
    · cases h
    · rename_i hne
      rw [if_neg hne]

end Binary

namespace Number

instance : Normality K Number := ⟨fun n => n.normal = n⟩

variable {x y z : Number}

theorem normal_float_iff {y : Float} : Normal K (float y) ↔ Binary.whole? y = none := by
  have hiff : Normal K (float y) ↔ (float y).normal = float y := ⟨(·.out), (⟨·⟩)⟩
  rw [hiff, normal]
  cases Binary.whole? y with
  | none => simp only
  | some n => simp only [reduceCtorEq]

instance normal_int {n : Int} : Normal K (int n) := ⟨rfl⟩

instance : Normal K x.normal := by
  cases x with
  | int n => exact normal_int
  | float y =>
    rw [normal]
    cases h : Binary.whole? y with
    | none => exact normal_float_iff.mpr h
    | some n => exact normal_int

instance : Normal K nan := ⟨(by decide : nan.normal = nan)⟩

instance normal_infinity {negative : Bool} : Normal K (float (Binary.infinity negative)) :=
  normal_float_iff.mpr (by cases negative <;> decide)

instance : Normal K infinity := normal_infinity

instance normal_constant {name : String} : Normal K (Builtin.constant name) := by
  unfold Builtin.constant
  split <;> first | infer_instance | exact normal_float_iff.mpr (by decide)

instance {b : Bool} : Normal K (ofBool b) := normal_int

instance {s : String} : Normal K (ofText s) := by
  unfold ofText
  dsimp only
  split
  · infer_instance
  · split <;> infer_instance

theorem normal_of_dyadic?_eq_none {y : Float} (h : Binary.dyadic? y = none) : Normal K (float y) :=
  normal_float_iff.mpr (by rw [Binary.whole?, h])

theorem normal_wholePart {y : Float} {part : Float → Option Int} {f : Dyadic → Int}
    (hpart : part y = (Binary.dyadic? y).map f) : Normal K ((part y).elim (float y) int) := by
  rw [hpart]
  cases h : Binary.dyadic? y with
  | none => exact normal_of_dyadic?_eq_none h
  | some d => exact normal_int

instance {y : Float} : Normal K ((Binary.floor? y).elim (float y) int) :=
  normal_wholePart rfl

instance {y : Float} : Normal K ((Binary.ceil? y).elim (float y) int) :=
  normal_wholePart rfl

instance [h : Normal K x] : Normal K x.abs := by
  cases x with
  | int n => exact normal_int
  | float y => exact normal_float_iff.mpr (Binary.whole?_abs (normal_float_iff.mp h))

instance [Normal K x] : Normal K x.round := by
  have hpart (sum : Number) : Normal K (match sum with
      | .int n => .int n
      | .float y => (Binary.floor? y).elim (.float y) .int : Number) := by
    cases sum <;> infer_instance
  unfold round
  infer_instance

instance [Normal K x] : Normal K x.floor := by
  unfold floor
  cases x <;> infer_instance

instance [Normal K x] : Normal K x.ceil := by
  unfold ceil
  cases x <;> infer_instance

instance : Normal K x.sqrt := normal_except_bind
instance : Normal K x.sign := normal_except_bind
instance : Normal K x.log := normal_except_bind

instance : Normal K (x.power y) := by
  have hfloat : Normal K (floatPower x y) := by
    unfold floatPower
    split <;> infer_instance
  unfold power
  split <;> infer_instance

instance [Normal K x] [Normal K y] : Normal K (x.min y) := normal_except_bind
instance [Normal K x] [Normal K y] : Normal K (x.max y) := normal_except_bind

instance : Normal K (x.clamp y z) := by
  unfold clamp
  infer_instance

end Number

/-! ### Values -/

instance : Normality K Value := ⟨fun v => v.normal = v⟩

namespace Value
variable {r : Ref}

theorem normal_number_iff {n : Number} : Normal K (number n) ↔ Normal K n :=
  ⟨fun h => ⟨number.inj h.out⟩, fun h => ⟨congrArg number h.out⟩⟩

instance normal_number {n : Number} [h : Normal K n] : Normal K (number n) :=
  normal_number_iff.mpr h

instance normal_null : Normal K null := ⟨rfl⟩
instance normal_bool {b : Bool} : Normal K (bool b) := ⟨rfl⟩
instance normal_text {s : String} : Normal K (text s) := ⟨rfl⟩
instance normal_list : Normal K (list r) := ⟨rfl⟩
instance normal_object : Normal K (object r) := ⟨rfl⟩
instance normal_method : Normal K (method r) := ⟨rfl⟩
instance normal_int {n : Int} : Normal K (int n) := ⟨rfl⟩
instance {n : Nat} : Normal K (nat n) := ⟨rfl⟩

instance normal_ofOption {f : α → Value} {o : Option α} [hf : ∀ a, Normal K (f a)] :
    Normal K (ofOption f o) := by
  cases o with
  | none => exact normal_null
  | some a => exact hf a

end Value
end Parlance
