import Parlance.Proofs.Exact
import Parlance.Proofs.Interpolation
import Parlance.Proofs.Unfolding

/-!
# Literal Operands

A literal has a value in every session, and making it changes nothing but for new
cells: a list or an object is made anew each time. The value does not hold itself, and
no number in it is too long, so it has a text, and so has the whole number it stands
for.

## Main definitions

* `Expr.isLiteral`: Whether the expression is a literal, its texts have no fields and its numbers
  can be written out.
* `Expr.LiteralIn`: The expression is a literal.
* `Heap.Built`: The value is flat and no long number, or a container whose parts are such values.
* `Run.Makes`: The computation gives a result with the property, and the session is the same but
  for new cells.

## Theorems

* `Number.isShort_truncate?`: The whole part of a binary64 number is never too long.
* `Heap.Built.acyclic`: What is built of literals does not hold itself.
* `Heap.Built.isShort`: What is built of literals is short enough to be written out.
* `Run.Makes.bind`: Two computations that only make cells, in sequence.
-/

namespace Parlance
open Template List Heap

/-! ### Literals -/

def Template.Piece.isChar : Piece → Bool
  | .char _ => true
  | .field _ => false

namespace Expr

mutual

/-- Whether the expression is a literal, its texts have no fields and its numbers can be
    written out. -/
def isLiteral : Expr → Bool
  | .number _ n => n.isShort
  | .bool _ _ | .null _ => true
  | .text _ t => (pieces t).all Piece.isChar
  | .list _ es => allLiteral es
  | .object _ fs => allFieldsLiteral fs
  | _ => false

def allLiteral : List Expr → Bool
  | [] => true
  | e :: rest => isLiteral e && allLiteral rest

def allFieldsLiteral : List (String × Expr) → Bool
  | [] => true
  | (_, e) :: rest => isLiteral e && allFieldsLiteral rest

end
end Expr

/-- The expression is a literal. If it is a text, its fields may name values that have a
    text. -/
def Expr.LiteralIn (s : Session) : Expr → Prop
  | .text _ t => ∀ name, .field name ∈ pieces t →
    ∀ v, s.fieldValue? name = some v → ∃ u, s.heap.text v = .ok u
  | e => e.isLiteral

/-! ### Values of literals -/

namespace Number
variable {n : Number} {i : Int}

/-- The whole part of a binary64 number is never too long. -/
theorem isShort_truncate? (hn : n.isShort = true) (h : n.truncate? = some i) :
    (int i).isShort = true := by
  rcases n with n | x
  · cases h
    exact hn
  · obtain ⟨d, hd, rfl⟩ := Option.map_eq_some_iff.mp h
    obtain ⟨hsignificand, -, hexponent⟩ := Binary.bounds_of_dyadic? hd
    have hnumerator : d.numerator.natAbs = d.ratio.1 := by
      rw [Dyadic.numerator]
      split <;> simp
    have hratio : d.ratio.1 < 10 ^ (53 + d.exponent.toNat) := by
      rw [Binary.ratio_eq d.negative d.significand d.exponent, Nat.pow_add]
      exact Nat.mul_lt_mul_of_lt_of_le (hsignificand.trans_le (Nat.pow_le_pow_left (by decide) _))
        (Nat.pow_le_pow_left (by decide) _) (by positivity)
    rw [isShort_int]
    calc (d.numerator.tdiv d.ratio.2).natAbs ≤ d.ratio.1 := by
          rw [Int.natAbs_tdiv, hnumerator]
          exact Nat.div_le_self _ _
      _ < 10 ^ (53 + d.exponent.toNat) := hratio
      _ ≤ 10 ^ Numeral.maxDigits := Nat.pow_le_pow_right (by decide) (by
          rw [Numeral.maxDigits]
          omega)

theorem isShort_normal (hn : n.isShort = true) : n.normal.isShort = true := by
  rcases n with n | x
  · exact hn
  · rw [normal]
    split
    case h_1 i hwhole =>
      refine isShort_truncate? (n := .float x) rfl ?_
      rw [Binary.whole?] at hwhole
      rw [truncate?, Binary.truncate?]
      split at hwhole
      · cases hwhole
      · next d hd =>
        rw [hd, ← hwhole]
        dsimp only at hwhole ⊢
        split at hwhole
        · next hmod => rw [if_pos hmod]; rfl
        · cases hwhole
    case h_2 => rfl

theorem isShort_ofText (s : String) : (ofText s).isShort = true := by
  unfold ofText
  dsimp only
  split
  · rfl
  · split
    · exact isShort_normal rfl
    · rfl

end Number

theorem Tree.toNumber_of_isShort : (t : Tree) → t.isFinite → t.isShort →
    ∃ n, t.toNumber = .ok n ∧ n.isShort
  | .null, _, _ | .object _, _, _ | .method _ _, _, _ | .list [], _, _
  | .list (_ :: _ :: _), _, _ => ⟨_, rfl, rfl⟩
  | .bool b, _, _ => ⟨_, rfl, by cases b <;> rfl⟩
  | .text s, _, _ => ⟨_, rfl, Number.isShort_ofText s⟩
  | .number n, _, h => ⟨_, rfl, Number.isShort_normal (isShort_number n ▸ h)⟩
  | .list [t], hfinite, h => by
    rw [isFinite, allFinite, Bool.and_eq_true] at hfinite
    rw [toNumber]
    exact toNumber_of_isShort t hfinite.1 (isShort_list.mp h t mem_cons_self)

namespace Heap
variable {h h' : Heap} {v : Value}

/-- The value is flat and no long number, or a container whose parts are such values. -/
inductive Built (h : Heap) : Value → Prop
  | flat {v : Value} (hv : v.isFlat) (hshort : ∀ n, v = .number n → n.isShort) : Built h v
  | list {r : Ref} {items : List Value} (hcell : h.cell? r = some (.list items))
    (hitems : ∀ v ∈ items, Built h v) : Built h (.list r)
  | object {r : Ref} {fields : Dict Value} (hcell : h.cell? r = some (.object fields))
    (hfields : ∀ v ∈ fields.values, Built h v) : Built h (.object r)

namespace Built

theorem extend (hv : h.Built v) (hh : h.Extends h') : h'.Built v := by
  induction hv with
  | flat hv hshort => exact .flat hv hshort
  | list hcell _ ih => exact .list (hh _ _ hcell) ih
  | object hcell _ ih => exact .object (hh _ _ hcell) ih

/-- What is built of literals does not hold itself. -/
theorem acyclic (hv : h.Built v) : h.Acyclic v := by
  have hparts {r : Ref} {vs : List Value} (hr : h.parts r = vs) (ih : ∀ v ∈ vs, h.Acyclic v) :
      Acc h.Inside r := by
    refine .intro r ?_
    rintro r' ⟨v, hv, hr'⟩
    exact ih v (hr ▸ hv) r' hr'
  induction hv with
  | @flat v hv =>
    intro r hr
    cases v <;> first | cases hr; done | cases hv
  | list hcell _ ih =>
    rintro r ⟨⟩
    exact hparts (by rw [parts, hcell]) ih
  | object hcell _ ih =>
    rintro r ⟨⟩
    exact hparts (by rw [parts, hcell]) ih

/-- What is built of literals is short enough to be written out. -/
theorem isShort (hv : h.Built v) : (h.tree v).isShort = true := by
  induction hv with
  | @flat v hv hshort =>
    cases v with
    | number n => exact (Tree.isShort_number n).trans (hshort n rfl)
    | list | object | method => cases hv
    | _ => rfl
  | list hcell hitems ih =>
    rw [(Built.list hcell hitems).acyclic.tree_list, Tree.isShort_list, items, hcell]
    intro t ht
    obtain ⟨v, hv, rfl⟩ := mem_map.mp ht
    exact ih v hv
  | object hcell hfields ih =>
    rw [(Built.object hcell hfields).acyclic.tree_object, Tree.isShort_object, fields, hcell]
    intro f hf
    obtain ⟨e, he, rfl⟩ := mem_map.mp hf
    exact ih e.2 (mem_map_of_mem he)

theorem exists_text (hv : h.Built v) : ∃ t, h.text v = .ok t :=
  exists_text_iff.mpr ⟨hv.acyclic.isFinite_tree, hv.isShort⟩

theorem exists_toInt (hv : h.Built v) : ∃ i, h.toInt v 0 = .ok i ∧ (Number.int i).isShort := by
  have hnumber : ∃ n, h.toNumber v = .ok n ∧ n.isShort := by
    cases v with
    | number n => exact ⟨_, rfl, Number.isShort_normal (Tree.isShort_number n ▸ hv.isShort)⟩
    | text t => exact ⟨_, rfl, Number.isShort_ofText t⟩
    | _ => exact Tree.toNumber_of_isShort _ hv.acyclic.isFinite_tree hv.isShort
  obtain ⟨n, hn, hshort⟩ := hnumber
  refine ⟨n.truncate?.getD 0, by rw [toInt, hn]; rfl, ?_⟩
  cases htruncate : n.truncate? with
  | none => rfl
  | some i => exact Number.isShort_truncate? hshort htruncate

end Built
end Heap

namespace Run
variable {α β : Type} {L : Linker} {s : Session} {P : Heap → α → Prop} {e : Expr}

/-! ### Computations that make values -/

/-- The computation gives a result with the property, and the session is the same but
    for new cells. -/
def Makes (x : Run α) (P : Heap → α → Prop) (s : Session) : Prop :=
  ∃ a h, x.run s = (.ok a, { s with heap := h }) ∧ s.heap.Extends h ∧ P h a

theorem Makes.of_run {x : Run α} {a : α} (hx : x.run s = (.ok a, s)) (ha : P s.heap a) :
    Makes x P s :=
  ⟨a, s.heap, hx, .refl, ha⟩

theorem Makes.pure {a : α} (ha : P s.heap a) : Makes (pure a) P s :=
  .of_run rfl ha

/-- Two computations that only make cells, in sequence. -/
theorem Makes.bind {x : Run α} {f : α → Run β} {Q : Heap → β → Prop} (hx : Makes x P s)
    (hf : ∀ a h, s.heap.Extends h → P h a → Makes (f a) Q { s with heap := h }) :
    Makes (x >>= f) Q s := by
  obtain ⟨a, h, hrun, hh, ha⟩ := hx
  obtain ⟨b, h', hrun', hh', hb⟩ := hf a h hh ha
  exact ⟨b, h', (bind_ok hrun).trans hrun', hh.trans hh', hb⟩

theorem makes_newList {items : List Value} (hitems : ∀ v ∈ items, s.heap.Built v) :
    Makes (newList items) Built s := by
  have hh := s.heap.extends_alloc (.list items)
  exact ⟨_, _, rfl, hh, .list (s.heap.cell?_alloc_self _) fun v hv => (hitems v hv).extend hh⟩

theorem makes_newObject {d : Dict Value} (hd : ∀ v ∈ d.values, s.heap.Built v) :
    Makes (newObject d) Built s := by
  have hh := s.heap.extends_alloc (.object d)
  exact ⟨_, _, rfl, hh, .object (s.heap.cell?_alloc_self _) fun v hv => (hd v hv).extend hh⟩

/-! ### Templates -/

theorem run_text {v : Value} {t : String} (ht : s.heap.text v = .ok t) :
    (text v).run s = (.ok t, s) := by
  rw [text, bind_ok (run_get s), ht]
  rfl

theorem exists_fieldText (hstage : s.hosts.stage = .absent) {name : String}
    (hname : ∀ v, s.fieldValue? name = some v → ∃ u, s.heap.text v = .ok u) :
    ∃ t, s.fieldText name = .ok t := by
  rw [Session.fieldText]
  cases hv : s.fieldValue? name with
  | some v => exact hname v hv
  | none =>
    dsimp only
    rw [Session.property, hstage]
    exact ⟨"", rfl⟩

theorem run_fillIn (hstage : s.hosts.stage = .absent) {ps : List Piece}
    (hps : ∀ name, .field name ∈ ps →
      ∀ v, s.fieldValue? name = some v → ∃ u, s.heap.text v = .ok u) :
    ∃ t, (fillIn L ps).run s = (.ok t, s) := by
  have hfilled : ∃ t, s.filled ps = .ok t := by
    induction ps with
    | nil => exact ⟨"", rfl⟩
    | cons p rest ih =>
      obtain ⟨t, ht⟩ := ih fun name hname => hps name (mem_cons_of_mem _ hname)
      cases p with
      | char c => exact ⟨_, by rw [Session.filled, ht]; rfl⟩
      | field name =>
        obtain ⟨t', ht'⟩ := exists_fieldText hstage (hps name mem_cons_self)
        exact ⟨_, by rw [Session.filled, ht, ht']; rfl⟩
  obtain ⟨t, ht⟩ := hfilled
  obtain ⟨journal, hrun, hjournal⟩ := notes_fillIn (L := L) ps s
  refine ⟨t, ?_⟩
  rw [hrun, ht, hjournal hstage]
  rfl

theorem makes_template (hstage : s.hosts.stage = .absent) (pos : Position) {t : String}
    (ht : ∀ name, .field name ∈ pieces t →
      ∀ v, s.fieldValue? name = some v → ∃ u, s.heap.text v = .ok u) :
    Makes (eval L (.text pos t)) Built s := by
  obtain ⟨filled, hfilled⟩ := run_fillIn (L := L) hstage ht
  rw [eval]
  exact .of_run ((bind_ok hfilled).trans rfl) (.flat rfl nofun)

/-! ### Literals -/

mutual

theorem makes_literal (L : Linker) : (e : Expr) → e.isLiteral → ∀ {s : Session},
    s.hosts.stage = .absent → Makes (eval L e) Built s
  | .number _ _, he, _, _ => .of_run rfl (.flat rfl fun _ heq => Value.number.inj heq ▸ he)
  | .bool _ _, _, _, _ | .null _, _, _, _ => .of_run rfl (.flat rfl nofun)
  | .text _ t, he, s, hstage => by
    rw [Expr.isLiteral, all_eq_true] at he
    have hfields : ∀ name, .field name ∈ pieces t →
        ∀ v, s.fieldValue? name = some v → ∃ u, s.heap.text v = .ok u :=
      fun name hname => absurd (he _ hname) Bool.false_ne_true
    exact makes_template hstage _ hfields
  | .list _ es, he, s, hstage => by
    rw [eval]
    rw [Expr.isLiteral] at he
    exact (makes_allLiteral L es he hstage).bind fun vs h _ hvs => makes_newList hvs
  | .object _ fs, he, s, hstage => by
    rw [eval]
    rw [Expr.isLiteral] at he
    refine (makes_allFieldsLiteral L fs he hstage).bind fun vs h _ hvs => makes_newObject ?_
    intro v hv
    rcases Dict.mem_values_foldl_insert hv with hv | hv
    · cases hv
    · obtain ⟨f, hf, rfl⟩ := mem_map.mp hv
      exact hvs f hf

theorem makes_allLiteral (L : Linker) : (es : List Expr) → Expr.allLiteral es → ∀ {s : Session},
    s.hosts.stage = .absent → Makes (evalAll L es) (fun h vs => ∀ v ∈ vs, h.Built v) s
  | [], _, _, _ => .of_run rfl nofun
  | e :: rest, he, s, hstage => by
    rw [Expr.allLiteral, Bool.and_eq_true] at he
    rw [evalAll]
    refine (makes_literal L e he.1 hstage).bind fun v h _ hv => ?_
    refine Makes.bind (s := { s with heap := h }) (makes_allLiteral L rest he.2 hstage)
      fun vs h' hh' hvs => .pure ?_
    intro w hw
    -- The first item was made before the others, and is still there.
    rcases mem_cons.mp hw with rfl | hw
    · exact hv.extend hh'
    · exact hvs w hw

theorem makes_allFieldsLiteral (L : Linker) : (fs : List (String × Expr)) →
    Expr.allFieldsLiteral fs → ∀ {s : Session}, s.hosts.stage = .absent →
    Makes (evalFields L fs) (fun h vs => ∀ f ∈ vs, h.Built f.2) s
  | [], _, _, _ => .of_run rfl nofun
  | (k, e) :: rest, he, s, hstage => by
    rw [Expr.allFieldsLiteral, Bool.and_eq_true] at he
    rw [evalFields]
    refine (makes_literal L e he.1 hstage).bind fun v h _ hv => ?_
    refine Makes.bind (s := { s with heap := h }) (makes_allFieldsLiteral L rest he.2 hstage)
      fun vs h' hh' hvs => .pure ?_
    intro f hf
    rcases mem_cons.mp hf with rfl | hf
    · exact hv.extend hh'
    · exact hvs f hf

end

theorem makes_eval (hstage : s.hosts.stage = .absent) (he : e.LiteralIn s) :
    Makes (eval L e) Built s := by
  cases e with
  | text pos t => exact makes_template hstage pos he
  | _ => exact makes_literal L _ he hstage

theorem makes_evalText (hstage : s.hosts.stage = .absent) (he : e.LiteralIn s) :
    Makes (evalText L e) (fun _ _ => True) s := by
  refine (makes_eval hstage he).bind fun v h _ hv => ?_
  obtain ⟨t, ht⟩ := hv.exists_text
  exact .of_run (run_text ht) trivial

theorem makes_evalInt (hstage : s.hosts.stage = .absent) (he : e.LiteralIn s) :
    Makes (do int (← eval L e) 0) (fun _ i => (Number.int i).isShort) s := by
  refine (makes_eval hstage he).bind fun v h _ hv => ?_
  obtain ⟨i, hi, hshort⟩ := hv.exists_toInt
  refine .of_run (a := i) ?_ hshort
  rw [int, bind_ok (run_get _)]
  change (lift (h.toInt v 0)).run _ = _
  rw [hi]
  rfl

end Run
end Parlance
