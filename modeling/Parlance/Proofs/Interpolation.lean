import Parlance.Proofs.Frame

/-!
# Filling in Templates

A text is scanned once, from left to right. Where a field stands, the text of what it names
comes out, and the scan goes on behind it; every other character comes out as it is. What has
come out is not scanned again.

## Main definitions

* `Template.Begins`: The characters begin with a field, and the rest stands behind it.
* `Template.Scan`: The pieces of a text, from left to right.
* `Session.property`: A property of an entity, null without a world that has properties.
* `Session.fieldValue?`: The value that a field of a template names, where there is no world.
* `Session.fieldKeys`: The variable, the entity and the property of the entity that a field names.

## Theorems

* `Run.interpolate_single_pass`: Filling in is a single pass.
-/

namespace Parlance
open Template List

namespace Template
variable {cs as bs name rest : List Char} {ps qs : List Piece}

/-- The characters begin with a field, and the rest stands behind it. -/
structure Begins (name rest cs : List Char) : Prop where
  eq : cs = '\x7b' :: (name ++ '\x7d' :: rest)
  nonempty : name ≠ []
  chars : ∀ c ∈ name, isFieldChar c = true

/-- The pieces of a text, from left to right. -/
inductive Scan : List Char → List Piece → Prop
  | done : Scan [] []
  | field {name rest cs : List Char} {ps : List Piece} : Begins name rest cs → Scan rest ps →
    Scan cs (.field (.ofList name) :: ps)
  | char {c : Char} {cs : List Char} {ps : List Piece} :
    (∀ name rest, ¬Begins name rest (c :: cs)) → Scan cs ps → Scan (c :: cs) (.char c :: ps)

theorem fieldName?_of_begins (h : Begins name rest ('\x7b' :: cs)) :
    fieldName? cs = some name ∧ cs.drop (name.length + 1) = rest := by
  obtain rfl : cs = name ++ '\x7d' :: rest := (cons_inj_right _).mp h.eq
  have htake : (name ++ '\x7d' :: rest).takeWhile isFieldChar = name := by
    rw [takeWhile_append_of_pos h.chars, takeWhile_cons_of_neg (by decide),
      append_nil]
  refine ⟨?_, by simp⟩
  simp [fieldName?, htake, h.nonempty]

theorem begins_of_fieldName? (h : fieldName? cs = some name) :
    Begins name (cs.drop (name.length + 1)) ('\x7b' :: cs) := by
  simp only [fieldName?, Option.ite_none_right_eq_some, Bool.and_eq_true, Bool.not_eq_true',
    isEmpty_eq_false_iff, beq_iff_eq, Option.some.injEq] at h
  obtain ⟨⟨hne, hclose⟩, hname⟩ := h
  rw [hname] at hne hclose
  refine ⟨?_, hne, fun c hc => all_eq_true.mp all_takeWhile c (hname ▸ hc)⟩
  obtain ⟨rest, hrest⟩ := head?_eq_some_iff.mp hclose
  obtain ⟨behind, hbehind⟩ := takeWhile_prefix isFieldChar (l := cs)
  rw [hname] at hbehind
  rw [← hbehind, drop_left] at hrest
  rw [← hbehind, hrest]
  simp

theorem piecesFrom_eq (n : Nat) (cs : List Char) : piecesFrom n cs = piecesFrom 0 (cs.drop n) := by
  induction n generalizing cs with
  | zero => rfl
  | succ n ih =>
    cases cs with
    | nil => rfl
    | cons c cs => exact ih cs

theorem scan_piecesFrom (n : Nat) (cs : List Char) : Scan (cs.drop n) (piecesFrom n cs) := by
  fun_induction piecesFrom n cs with
  | case1 n =>
    rw [drop_nil]
    exact .done
  | case2 n c cs ih => exact ih
  | case3 cs name hname ih => exact .field (begins_of_fieldName? hname) ih
  | case4 cs hname ih =>
    refine .char (fun name rest h => ?_) ih
    cases hname.symm.trans (fieldName?_of_begins h).1
  | case5 c cs hc ih => exact .char (fun name rest h => hc (cons_eq_cons.mp h.eq).1) ih

theorem Scan.eq_piecesFrom (h : Scan cs ps) : ps = piecesFrom 0 cs := by
  induction h with
  | done => rfl
  | field hbegins _ ih =>
    obtain rfl := hbegins.eq
    obtain ⟨hname, hrest⟩ := fieldName?_of_begins hbegins
    rw [piecesFrom, if_pos rfl, hname]
    dsimp only
    rw [piecesFrom_eq, hrest, ih]
  | @char c cs ps hnone _ ih =>
    rw [piecesFrom, ih]
    split
    case isTrue hc =>
      subst hc
      split
      case h_1 name hname => exact absurd (begins_of_fieldName? hname) (hnone _ _)
      case h_2 => rfl
    case isFalse => rfl

def Apart (as bs : List Char) : Prop :=
  ∀ before after name rest, as = before ++ after → after ≠ [] → Begins name rest (after ++ bs) →
    ∃ rest', Begins name rest' after

theorem Scan.append (ha : Scan as ps) (hb : Scan bs qs) (h : Apart as bs) :
    Scan (as ++ bs) (ps ++ qs) := by
  induction ha with
  | done => exact hb
  | @field name rest cs ps hbegins _ ih =>
    obtain ⟨rfl, hne, hchars⟩ := hbegins
    refine .field ⟨by simp, hne, hchars⟩ (ih fun before after name' rest' heq => ?_)
    exact h ('\x7b' :: (name ++ '\x7d' :: before)) after name' rest' (by simp [heq])
  | @char c cs ps hnone _ ih =>
    refine .char (fun name rest hbegins => ?_) (ih fun before after name rest heq => ?_)
    · obtain ⟨rest', hrest'⟩ := h [] (c :: cs) name rest rfl (cons_ne_nil _ _) hbegins
      exact hnone name rest' hrest'
    · exact h (c :: before) after name rest (by simp [heq])

end Template

def World.lookup (w : World) (entity prop : String) : Value :=
  match prop, w.entities.get? entity with
  | "x", some place => place.1
  | "y", some place => place.2
  | _, _ => (((w.props.get? entity).getD ∅).get? prop).getD .null

namespace Session
variable {s' : Session}

/-- A property of an entity, null without a world that has properties. -/
def property (s : Session) (entity prop : String) : Value :=
  if s.hosts.stage = .world then s.hosts.world.lookup entity prop else .null

/-- The value that a field of a template names, where there is no world. -/
def fieldValue? (s : Session) (name : String) : Option Value :=
  match Text.cut name '.' with
  | (owner, some prop) => match s.bag.get? owner with
    | some (.object r) => (s.heap.fields r).get? prop
    | _ => none
  | (_, none) => s.bag.get? name

/-- The variable, the entity and the property of the entity that a field names. -/
def fieldKeys (name : String) : String × String × String :=
  match Text.cut name '.' with
  | (owner, some prop) => (owner, owner, prop)
  | (_, none) => (name, "player", name)

def fieldText (s : Session) (name : String) : Except Defect String :=
  match s.fieldValue? name with
  | some v => s.heap.text v
  | none =>
    let v := s.property (fieldKeys name).2.1 (fieldKeys name).2.2
    if v.isNull then .ok "" else s.heap.text v

def filled (s : Session) : List Piece → Except Defect String
  | [] => .ok ""
  | .char c :: rest => return c.toString ++ (← s.filled rest)
  | .field name :: rest => return (← s.fieldText name) ++ (← s.filled rest)

def noted (s : Session) (journal : Array Note) : Session :=
  { s with hosts := { s.hosts with journal } }

theorem filled_congr {s : Session} {ps : List Piece}
    (h : ∀ name, .field name ∈ ps → s'.fieldText name = s.fieldText name) :
    s'.filled ps = s.filled ps := by
  induction ps with
  | nil => rfl
  | cons p rest ih =>
    have hrest := ih fun name hname => h name (mem_cons_of_mem p hname)
    cases p with
    | char c => rw [filled, filled, hrest]
    | field name => rw [filled, filled, hrest, h name mem_cons_self]

theorem fieldText_congr {s : Session} {name : String} (hheap : s'.heap = s.heap)
    (hbag : s'.bag.get? (fieldKeys name).1 = s.bag.get? (fieldKeys name).1)
    (hproperty : s'.property (fieldKeys name).2.1 (fieldKeys name).2.2 =
      s.property (fieldKeys name).2.1 (fieldKeys name).2.2) :
    s'.fieldText name = s.fieldText name := by
  have hvalue : s'.fieldValue? name = s.fieldValue? name := by
    unfold fieldKeys at hbag
    rw [fieldValue?, fieldValue?, hheap]
    rcases hcut : Text.cut name '.' with ⟨owner, _ | prop⟩ <;> rw [hcut] at hbag <;>
      simp only [hbag]
  rw [fieldText, fieldText, hvalue, hproperty, hheap]

end Session

namespace Run
variable {α β : Type} {L : Linker} {s : Session}
variable {x : Run α} {r : Except Defect α} (entity prop : String)

theorem run_noteStage (name : String) (args : List Noted) (s : Session) :
    ∃ journal, (noteStage name args).run s = (.ok (), s.noted journal) := by
  rw [noteStage, bind_ok (run_get s)]
  by_cases hrecord : s.hosts.record = true
  · rw [if_pos hrecord]
    exact ⟨_, rfl⟩
  · rw [if_neg hrecord]
    exact ⟨s.hosts.journal, rfl⟩

/-- The computation has this outcome, and all that it does is to take notes of calls, if
    there is a world. -/
def Notes (x : Run α) (r : Except Defect α) (s : Session) : Prop :=
  ∃ journal, x.run s = (r.mapError .defect, s.noted journal) ∧
    (s.hosts.stage = .absent → journal = s.hosts.journal)

theorem notes_of_run (h : x.run s = (r.mapError .defect, s)) :
    Notes x r s := ⟨s.hosts.journal, h, fun _ => rfl⟩

theorem Notes.of_run_eq {y : Run α} (h : x.run s = y.run s) (hy : Notes y r s) : Notes x r s := by
  obtain ⟨journal, hrun, hjournal⟩ := hy
  exact ⟨journal, h.trans hrun, hjournal⟩

theorem Notes.bind {f : α → Run β} {g : α → Except Defect β} (hx : Notes x r s)
    (hf : ∀ a journal, Notes (f a) (g a) (s.noted journal)) : Notes (x >>= f) (r >>= g) s := by
  obtain ⟨journal, hrun, hjournal⟩ := hx
  cases r with
  | error d => exact ⟨journal, bind_error hrun, hjournal⟩
  | ok a =>
    obtain ⟨journal', hrun', hjournal'⟩ := hf a journal
    exact ⟨journal', (bind_ok hrun).trans hrun', fun h => (hjournal' h).trans (hjournal h)⟩

theorem notes_text (v : Value) (s : Session) : Notes (text v) (s.heap.text v) s := by
  refine notes_of_run ?_
  rw [text, bind_ok (run_get s)]
  cases s.heap.text v <;> rfl

theorem run_worldProperty (s : Session) : (World.property (.text entity) (.text prop)).run s =
      (.ok (s.hosts.world.lookup entity prop), s) := by
  change (match prop, s.hosts.world.entities.get? entity with
    | "x", some place => pure place.1
    | "y", some place => pure place.2
    | _, _ => pure ((((s.hosts.world.props.get? entity).getD ∅).get? prop).getD .null) :
      Run Value).run s = _
  unfold World.lookup
  generalize s.hosts.world.entities.get? entity = place
  split <;> rfl

theorem notes_property (s : Session) :
    Notes (property L entity prop) (.ok (s.property entity prop)) s := by
  obtain ⟨journal, hnote⟩ := run_noteStage "get_property"
    [.value (s.heap.tree (.text entity)), .value (s.heap.tree (.text prop))] s
  rw [property, Session.property]
  cases hstage : s.hosts.stage with
  | absent =>
    refine notes_of_run ?_
    rw [bind_ok (run_get s), hstage]
    rfl
  | bare =>
    refine ⟨journal, ?_, fun h => absurd (hstage.symm.trans h) (by decide)⟩
    rw [bind_ok (run_get s), hstage, if_neg (by decide), ask, bind_ok (run_get s), hstage]
    exact (bind_ok hnote).trans rfl
  | world =>
    refine ⟨journal, ?_, fun h => absurd (hstage.symm.trans h) (by decide)⟩
    rw [bind_ok (run_get s), hstage, if_neg (by decide), ask, bind_ok (run_get s), hstage]
    exact (bind_ok hnote).trans (run_worldProperty entity prop _)

theorem notes_fromWorld (s : Session) :
    Notes (do let v ← property L entity prop; if v.isNull then return "" else text v)
      (let v := s.property entity prop; if v.isNull then .ok "" else s.heap.text v) s := by
  refine Notes.bind (g := fun v => if v.isNull then .ok "" else s.heap.text v)
    (notes_property entity prop s) fun v journal => ?_
  split
  · exact notes_of_run rfl
  · exact notes_text _ _

theorem notes_templateField (name : String) (s : Session) :
    Notes (templateField L name) (s.fieldText name) s := by
  have hvar (x : String) : (var x).run s = (.ok ((s.bag.get? x).getD .null), s) := rfl
  have hvar? (x : String) : (var? x).run s = (.ok (s.bag.get? x), s) := rfl
  rw [templateField, Session.fieldText, Session.fieldValue?, Session.fieldKeys]
  rcases Text.cut name '.' with ⟨owner, _ | prop⟩
  · refine .of_run_eq (bind_ok (hvar? name)) ?_
    dsimp only
    cases s.bag.get? name with
    | none => exact notes_fromWorld _ _ s
    | some v => exact notes_text v s
  -- Only an object among the variables has entries; all else is asked of the world.
  · dsimp only
    rw [fieldText]
    refine .of_run_eq (bind_ok (hvar owner)) ?_
    rcases s.bag.get? owner with _ | (_ | _ | _ | _ | _ | r | _)
    case some.object =>
      have hfields : (fields r).run s = (.ok (s.heap.fields r), s) := rfl
      refine .of_run_eq (bind_ok hfields) ?_
      dsimp only
      cases (s.heap.fields r).get? prop with
      | none => exact notes_fromWorld _ _ s
      | some v => exact notes_text v s
    all_goals exact notes_fromWorld _ _ s

theorem notes_fillIn (ps : List Piece) (s : Session) : Notes (fillIn L ps) (s.filled ps) s := by
  induction ps generalizing s with
  | nil => exact notes_of_run rfl
  | cons p rest ih =>
    cases p with
    | char c => exact (ih s).bind fun t journal => notes_of_run rfl
    | field name =>
      refine (notes_templateField name s).bind fun t journal => ?_
      have hfilled : (s.noted journal).filled rest = s.filled rest :=
        Session.filled_congr fun _ _ => rfl
      exact (hfilled ▸ ih (s.noted journal)).bind fun t' journal' => notes_of_run rfl

theorem fillIn_append (L : Linker) (ps qs : List Piece) :
    fillIn L (ps ++ qs) = (do return (← fillIn L ps) ++ (← fillIn L qs)) := by
  induction ps with
  | nil => simp only [nil_append, fillIn, pure_bind, String.empty_append, bind_pure]
  | cons p rest ih =>
    cases p <;>
      simp only [cons_append, fillIn, ih, bind_assoc, pure_bind, String.append_assoc]

theorem fillIn_of_scan {cs : List Char} {ps : List Piece} (h : Scan cs ps)
    (hps : ∀ name, .field name ∉ ps) : fillIn L ps = pure (String.ofList cs) := by
  induction h with
  | done => rfl
  | field => exact absurd mem_cons_self (hps _)
  | char _ _ ih =>
    rw [fillIn, ih fun name hname => hps name (mem_cons_of_mem _ hname), String.ofList_cons]
    rfl

/-- Filling in is a single pass. A text has one list of pieces, from a scan that goes on
    behind each field; the outcome is the texts of the pieces put together, and apart from notes
    of calls nothing happens. It stays the same in a session where the variables and the
    properties that the fields name are the same. Without fields the text stays as it is, and
    texts that no field crosses can be filled in apart. -/
theorem interpolate_single_pass (L : Linker) (t : String) :
    (∃ ps, (∀ qs, Scan t.toList qs ↔ qs = ps) ∧
      (∀ s : Session, ∃ journal, (interpolate L t).run s =
        ((s.filled ps).mapError .defect, s.noted journal)) ∧
      ((∀ name, .field name ∉ ps) → interpolate L t = pure t) ∧
      ∀ (L' : Linker) (s s' : Session), s'.heap = s.heap →
        (∀ name, .field name ∈ ps →
          s'.bag.get? (Session.fieldKeys name).1 = s.bag.get? (Session.fieldKeys name).1 ∧
          s'.property (Session.fieldKeys name).2.1 (Session.fieldKeys name).2.2 =
            s.property (Session.fieldKeys name).2.1 (Session.fieldKeys name).2.2) →
        ((interpolate L' t).run s').1 = ((interpolate L t).run s).1) ∧
    ∀ a b, t = a ++ b → Apart a.toList b.toList →
      interpolate L t = (do return (← interpolate L a) ++ (← interpolate L b)) := by
  have hscan (u : String) : Scan u.toList (pieces u) :=
    scan_piecesFrom 0 u.toList
  refine ⟨⟨pieces t, fun qs => ⟨Scan.eq_piecesFrom, ?_⟩, fun s => ?_,
    fun hnone => ?_, fun L' s s' hheap hsame => ?_⟩, ?_⟩
  · rintro rfl
    exact hscan t
  · obtain ⟨journal, hrun, -⟩ := notes_fillIn (L := L) (pieces t) s
    exact ⟨journal, hrun⟩
  · rw [interpolate, fillIn_of_scan (hscan t) hnone, String.ofList_toList]
  · obtain ⟨journal, hrun, -⟩ := notes_fillIn (L := L) (pieces t) s
    obtain ⟨journal', hrun', -⟩ := notes_fillIn (L := L') (pieces t) s'
    have hfilled : s'.filled (pieces t) = s.filled (pieces t) :=
      Session.filled_congr fun name hname =>
        Session.fieldText_congr hheap (hsame name hname).1 (hsame name hname).2
    rw [interpolate, interpolate, hrun, hrun', hfilled]
  · rintro a b rfl hapart
    have happend := ((hscan a).append (hscan b) hapart).eq_piecesFrom
    rw [← String.toList_append] at happend
    rw [interpolate, pieces, ← happend, fillIn_append]
    rfl

end Run
end Parlance
