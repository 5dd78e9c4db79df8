import Parlance.Proofs.AlikeExec
import Parlance.Proofs.Growth

/-!
# Collections Item by Item

A command that goes through a list has a variable for the item. All rounds run on the same
variables, and the output is written last, maybe over the list itself. What the command comes to
is still what a function on lists gives: each item is looked at with the variables from before the
command and the item variable set to it (`Run.letting`), and the results are mapped or folded. For
settled expressions this has no effect but new cells and notes, so no round sees what the rounds
before it have done.

## Main definitions

* `Dict.setAll`: The map with some values written into it, one after the other.
* `Session.Sets`: The second session is the first one with new values for some variables, with
  more cells and with other notes.
* `Session.under`: The session at a place of the program, with these variables.
* `Run.letting`: Runs a computation at a place of the program with some variables set, and undoes
  both.
* `Run.Realizes`: The statement ends normally where the computation gives a value, and an output
  is made of the value.

## Theorems

* `Run.run_mapItems`: Going through a list with a variable for the item.
* `Run.collections_itemwise`: The list in a variable is filtered, transformed, asked about or
  reduced into another variable.
* `Run.collections_itemwise_numbers`: A list is filtered into its own variable and summed up.
-/

namespace Parlance
open Dict List Session

namespace Dict
variable {α : Type} {k k' : String} {v v' w : α}

/-- The map with some values written into it, one after the other. -/
def setAll (d : Dict α) (vars : List (String × α)) : Dict α :=
  vars.foldl (fun d e => d.insert e.1 e.2) d

theorem insertEntry_self (es : List (String × α)) :
    insertEntry k w (insertEntry k v es) = insertEntry k w es := by
  induction es with
  | nil => simp [insertEntry]
  | cons e rest ih =>
    by_cases h : k = e.1
    · simp [insertEntry, h]
    · simp [insertEntry, h, ih]

theorem insert_insert (d : Dict α) : (d.insert k v).insert k w = d.insert k w :=
  Dict.ext (insertEntry_self _)

theorem insert_insert_of_ne (d : Dict α) (h : k ≠ k') :
    ((d.insert k v).insert k' w).insert k v' = (d.insert k v').insert k' w := by
  refine Dict.ext ?_
  simp only [insert]
  induction d.entries with
  | nil => simp [insertEntry, h.symm]
  | cons e rest ih =>
    by_cases hk : k = e.1
    · have hk' : k' ≠ e.1 := fun hk' => h (hk.trans hk'.symm)
      simp [insertEntry, hk, hk']
    · by_cases hk' : k' = e.1
      · simp [insertEntry, hk, hk', insertEntry_self]
      · simp [insertEntry, hk, hk', ih]

end Dict

/-- The second session is the first one with new values for some variables, with more cells and
    with other notes. -/
structure Session.Sets (names : List String) (s s' : Session) : Prop where
  others : ∀ name ∉ names, s'.bag.get? name = s.bag.get? name
  rest : { s'.bare with position := s.position, bag := s.bag } = s.bare
  old : s.heap.Extends s'.heap

/-- The session at a place of the program, with these variables. -/
def Session.under (s : Session) (p : Position) (d : Dict Value) : Session :=
  { s with position := some p, bag := d }

namespace Run
variable {α β : Type} {L : Linker} {p : Position} {item : String} {s u : Session}
variable {d : Dict Value} {vars : List (String × Value)} {x : Run α} {q : Position} {acc : String}
  {e : Expr} (as : List α)

/-- Runs a computation at a place of the program with some variables set, and undoes both. -/
def letting (p : Position) (vars : List (String × Value)) (x : Run α) : Run α := fun s =>
  let (a, s') := x.run (s.under p (s.bag.setAll vars))
  (a, { s' with position := s.position, bag := s.bag })

instance [hx : Grows x] : Grows (letting p vars x) :=
  .of_grown fun s =>
    have h := hx.grown (s.under p (s.bag.setAll vars))
    ⟨congrArg (fun t : Session => { t with position := s.position, bag := s.bag }) h.bare, h.old⟩

instance grows_mapM {f : α → Run β} [∀ a, Grows (f a)] : Grows (as.mapM f) := by
  induction as with
  | nil => exact within_pure
  | cons a rest ih =>
    rw [mapM_cons]
    infer_instance

instance grows_foldlM {f : β → α → Run β} [∀ b a, Grows (f b a)] {b : β} :
    Grows (as.foldlM f b) := by
  induction as generalizing b with
  | nil => exact within_pure
  | cons a rest ih =>
    rw [foldlM_cons]
    infer_instance

theorem run_of_letting [hx : Grows x] {a : α} (h : (letting p vars x).run s = (.ok a, u)) :
    u.bag = s.bag ∧ x.run (s.under p (s.bag.setAll vars)) =
      (.ok a, u.under p (s.bag.setAll vars)) := by
  have hgrown := hx.grown (s.under p (s.bag.setAll vars))
  rcases hrun : x.run (s.under p (s.bag.setAll vars)) with ⟨result, t⟩
  have hletting : (letting p vars x).run s =
      (result, { t with position := s.position, bag := s.bag }) := by
    change (letting p vars x) s = _
    rw [letting, hrun]
  rw [hrun] at hgrown
  cases hletting.symm.trans h
  refine ⟨rfl, congrArg (Prod.mk _) ?_⟩
  have hbag : t.bag = s.bag.setAll vars := hgrown.bag
  have hposition : t.position = some p := hgrown.position
  rw [under, ← hbag, ← hposition]

/-- Going through a list with a variable for the item. By induction on the items: what the
    variables are beside the one for the item stays the same. -/
theorem run_mapItems {f : Value → Run α} [∀ v, Grows (f v)] (xs : List Value) {as : List α}
    (hd : ∀ v, d.insert item v = s.bag.insert item v)
    (h : (xs.mapM fun x => letting p [(item, x)] (f x)).run s = (.ok as, u)) :
    ∃ d', (mapItems item f xs).run (s.under p d) = (.ok as, u.under p d') ∧
      ∀ v, d'.insert item v = s.bag.insert item v := by
  induction xs generalizing s as d with
  | nil =>
    cases h
    exact ⟨d, rfl, hd⟩
  | cons x rest ih =>
    rw [mapM_cons] at h
    obtain ⟨a, s₁, hx, h⟩ := ok_of_bind h
    obtain ⟨bs, s₂, hrest, h⟩ := ok_of_bind h
    cases h
    obtain ⟨hbag, hrun⟩ := run_of_letting hx
    obtain ⟨d', hmap, hd'⟩ := ih (d := s.bag.insert item x)
      (fun v => by rw [hbag, insert_insert]) hrest
    refine ⟨d', ?_, hbag ▸ hd'⟩
    have hset : (setVar item x).run (s.under p d) = (.ok (), s.under p (s.bag.insert item x)) := by
      rw [← hd]
      rfl
    rw [mapItems]
    exact (bind_ok hset).trans ((bind_ok hrun).trans (bind_ok hmap))

theorem run_round_assign {c : Value} (hrun : (eval L e).run (s.under q d) = (.ok c, u.under q d)) :
    (round (execBlock L [.command q (.bag (.assign acc e))])).run (s.under p d) =
      (.ok none, u.under q (d.insert acc c)) := by
  have hassign : (VariableCommand.exec L (.assign acc e)).run (s.under q d) =
      (.ok (), u.under q (d.insert acc c)) := bind_ok hrun
  have hbody : (execBlock L [.command q (.bag (.assign acc e))]).run (s.under p d) =
      (.ok .normal, u.under q (d.insert acc c)) := by
    rw [execBlock, exec]
    exact bind_ok (run_placing_ok (run_normally_ok hassign))
  exact bind_ok hbody

theorem run_forItems (hne : acc ≠ item) [Grows (eval L e)] (xs : List Value) {a b : Value}
    (hd : ∀ v, d.insert item v = (s.bag.insert acc a).insert item v)
    (h : (xs.foldlM (fun a x => letting q [(acc, a), (item, x)] (eval L e)) a).run s = (.ok b, u)) :
    ∃ q' d', (forItems item (execBlock L [.command q (.bag (.assign acc e))]) xs).run
        (s.under p d) = (.ok none, u.under q' d') ∧
      ∀ v, d'.insert item v = (s.bag.insert acc b).insert item v := by
  induction xs generalizing s a d p with
  | nil =>
    cases h
    exact ⟨p, d, rfl, hd⟩
  | cons x rest ih =>
    rw [foldlM_cons] at h
    obtain ⟨c, s₁, hx, hrest⟩ := ok_of_bind h
    obtain ⟨hbag, hrun⟩ := run_of_letting hx
    obtain ⟨q', d', hfor, hd'⟩ := ih (p := q) (d := ((s.bag.insert acc a).insert item x).insert acc c)
      (fun v => by rw [hbag, insert_insert_of_ne _ hne, insert_insert]) hrest
    refine ⟨q', d', ?_, hbag ▸ hd'⟩
    have hset : (setVar item x).run (s.under p d) =
        (.ok (), s.under p ((s.bag.insert acc a).insert item x)) := by
      rw [← hd]
      rfl
    rw [forItems]
    exact (bind_ok hset).trans ((bind_ok (run_round_assign hrun)).trans hfor)

def chosen (xs : List Value) (answers : List Bool) : List Value :=
  ((xs.zip answers).filter (·.2)).map (·.1)

theorem keepIf_eq (test : Run Bool) (xs : List Value) :
    keepIf item test xs = do
      let answers ← mapItems item (fun _ => test) xs
      return chosen xs answers := by
  induction xs with
  | nil => simp [keepIf, mapItems, chosen]
  | cons x rest ih =>
    simp only [keepIf, mapItems, ih, bind_assoc, pure_bind, chosen, zip_cons_cons,
      filter_cons]
    congr 1
    funext _
    congr 1
    funext b
    cases b <;> rfl

/-- The statement ends normally where the computation gives a value, and an output is made of
    the value. The computation itself only adds cells and notes. -/
def Realizes (L : Linker) (σ : Session) (st : Stmt) (names : List String) (out : String) (x : Run α)
    (P : α → Value → Heap → Prop) : Prop :=
  ∀ a s, x.run σ = (.ok a, s) → σ.Grown s ∧ ∃ τ v, (exec L st).run σ = (.ok .normal, τ) ∧
    σ.Sets names τ ∧ s.heap.Extends τ.heap ∧ τ.bag.get? out = some v ∧ P a v τ.heap

theorem get?_of_insert {d' : Dict Value} {name : String}
    (h : ∀ v, d'.insert item v = d.insert item v) (hne : name ≠ item) :
    d'.get? name = d.get? name := by
  have hget := congrArg (·.get? name) (h .null)
  simpa only [get?_insert_of_ne _ hne] using hget

theorem sets_under {σ : Session} (hs : σ.Grown s) {h : Heap} (hh : s.heap.Extends h)
    {names : List String} (hd : ∀ name ∉ names, d.get? name = σ.bag.get? name) :
    σ.Sets names (under { s with heap := h } p d) where
  others := hd
  rest := congrArg (fun t : Session => { t with position := σ.position, bag := σ.bag }) hs.bare
  old := hs.old.trans hh

section Commands
variable {σ : Session} {list out : String} {r : Ref} {xs : List Value}

theorem run_overItems (hlist : s.bag.get? list = some (.list r))
    (hxs : s.heap.cell? r = some (.list xs)) {k : Value → Run β} {k' : List Value → Run β}
    (hk : k (.list r) = items r >>= k') : (var list >>= k).run s = (k' xs).run s := by
  rw [bind_ok (run_var hlist), hk, bind_ok (run_items hxs)]

theorem realizes_mapItems (f : Value → Run α) [∀ v, Grows (f v)] {c : CollectionCommand}
    {P : List α → Value → Heap → Prop} (finish : List Value → List α → Run Value)
    (hc : ∃ k, c.exec L = var list >>= k ∧ k (.list r) = items r >>= fun vs => do
      let as ← mapItems item f vs
      setVar out (← finish vs as))
    (hfinish : ∀ as s, ∃ v h, (finish xs as).run s = (.ok v, { s with heap := h }) ∧
      s.heap.Extends h ∧ P as v h)
    (hlist : σ.bag.get? list = some (.list r)) (hxs : σ.heap.cell? r = some (.list xs)) :
    Realizes L σ (.command p (.collection c)) [item, out] out
      (xs.mapM fun x => letting p [(item, x)] (f x)) P := by
  intro as s hrun
  have hgrown : σ.Grown s := by
    have := (grows_mapM (f := fun x => letting p [(item, x)] (f x)) xs).grown σ
    rwa [hrun] at this
  obtain ⟨d, hmap, hd⟩ := run_mapItems xs (d := σ.bag) (fun _ => rfl) hrun
  obtain ⟨v, h, hfin, hh, hP⟩ := hfinish as (s.under p d)
  refine ⟨hgrown, under { s with heap := h } p (d.insert out v), v, ?_, ?_, hh, ?_, hP⟩
  · rw [exec]
    obtain ⟨k, hexec, hk⟩ := hc
    refine run_placing_ok (run_normally_ok ?_)
    rw [hexec]
    exact (run_overItems (s := σ.under p σ.bag) hlist hxs hk).trans
      ((bind_ok hmap).trans (bind_ok hfin))
  · refine sets_under hgrown hh fun name hname => ?_
    simp only [mem_cons, not_mem_nil, or_false, not_or] at hname
    rw [get?_insert_of_ne _ hname.2, get?_of_insert hd hname.1]
  · exact get?_insert_self ..

theorem realizes_reduce {init : Expr} (hitem : acc ≠ item)
    (hacc : acc ≠ list) [Grows (eval L init)] [Grows (eval L e)]
    (hlist : σ.bag.get? list = some (.list r)) (hxs : σ.heap.cell? r = some (.list xs)) :
    Realizes L σ (.reduce p list acc item init [.command q (.bag (.assign acc e))] out)
      [item, acc, out] out (do
        let a ← letting p [] (eval L init)
        xs.foldlM (fun a x => letting q [(acc, a), (item, x)] (eval L e)) a) fun a v _ => v = a := by
  intro b s hrun
  obtain ⟨a, s₁, hfirst, hfold⟩ := ok_of_bind hrun
  have hgrown₁ : σ.Grown s₁ := by
    have hgrows : Grows (letting p [] (eval L init)) := inferInstance
    have := hgrows.grown σ
    rwa [hfirst] at this
  have hgrown : s₁.Grown s := by
    have := (grows_foldlM (f := fun a x => letting q [(acc, a), (item, x)] (eval L e)) xs
      (b := a)).grown s₁
    rwa [hfold] at this
  obtain ⟨hbag, heval⟩ := run_of_letting hfirst
  obtain ⟨q', d, hfor, hd⟩ := run_forItems (p := p) hitem xs (d := σ.bag.insert acc a)
    (fun v => by rw [hbag]) hfold
  rw [hbag] at hd
  have hget : d.get? acc = some b := by rw [get?_of_insert hd hitem, get?_insert_self]
  refine ⟨hgrown₁.trans hgrown, s.under q' (d.insert out b), b, ?_, ?_, .refl,
    get?_insert_self .., rfl⟩
  · rw [exec]
    refine run_placing_ok ((bind_ok heval).trans ?_)
    have hset : (setVar acc a).run (s₁.under p σ.bag) = (.ok (), s₁.under p (σ.bag.insert acc a)) := rfl
    refine (bind_ok hset).trans ?_
    refine Eq.trans (run_overItems (s := s₁.under p (σ.bag.insert acc a))
      ((get?_insert_of_ne _ hacc.symm _).trans hlist) (hgrown₁.old _ _ hxs) rfl)
      ((bind_ok hfor).trans ?_)
    change (Except.ok Flow.normal, s.under q' (d.insert out ((d.get? acc).getD .null))) = _
    rw [hget]
    rfl
  · refine sets_under (h := s.heap) (hgrown₁.trans hgrown) .refl fun name hname => ?_
    simp only [mem_cons, not_mem_nil, or_false, not_or] at hname
    rw [get?_insert_of_ne _ hname.2.2, get?_of_insert hd hname.1,
      get?_insert_of_ne _ hname.2.1]

end Commands

/-- The list in a variable is filtered, transformed, asked about or reduced into another
    variable. What is written there is what filtering, mapping, asking and folding give for the
    answers on the items alone, in the order of the items. Nothing else is changed but the
    variables of the loop; the list itself is as before, also if the output takes its name. -/
theorem collections_itemwise (L : Linker) (p : Position) (list item out : String) (σ : Session)
    (r : Ref) (xs : List Value) (hlist : σ.bag.get? list = some (.list r))
    (hxs : σ.heap.cell? r = some (.list xs)) :
    (∀ c : Condition, c.isSettled →
      Realizes L σ (.command p (.collection (.filter list item c out))) [item, out] out
        (xs.mapM fun x => letting p [(item, x)] (test L c)) fun bs v h =>
          ∃ q, v = .list q ∧ h.cell? q = some (.list (chosen xs bs))) ∧
    (∀ e : Expr, e.isSettled →
      Realizes L σ (.command p (.collection (.transform list item e out))) [item, out] out
        (xs.mapM fun x => letting p [(item, x)] (eval L e)) fun vs v h =>
          ∃ q, v = .list q ∧ h.cell? q = some (.list vs)) ∧
    (∀ c : Comparison, c.isSettled → ∀ which,
      Realizes L σ (.command p (.collection (.quantify which item list c out))) [item, out] out
        (xs.mapM fun x => letting p [(item, x)] (meets L x c)) fun bs v _ =>
          v = .bool (match which with
            | .every => bs.all id
            | .any => bs.any id)) ∧
    ∀ (acc : String) (q : Position) (init e : Expr), acc ≠ item → acc ≠ list →
      init.isSettled → e.isSettled →
      Realizes L σ (.reduce p list acc item init [.command q (.bag (.assign acc e))] out)
        [item, acc, out] out (do
          let a ← letting p [] (eval L init)
          xs.foldlM (fun a x => letting q [(acc, a), (item, x)] (eval L e)) a) fun a v _ =>
          v = a := by
  refine ⟨fun c hc => ?_, fun e he => ?_, fun c hc which => ?_, ?_⟩
  · have := grows_test (L := L) c hc
    refine realizes_mapItems (fun _ => test L c) (fun vs bs => newList (chosen vs bs))
      ⟨_, rfl, ?_⟩ (fun bs s => ⟨_, _, rfl, s.heap.extends_alloc _, _, rfl,
        s.heap.cell?_alloc_self _⟩) hlist hxs
    simp only [listItems, keepIf_eq, bind_assoc, pure_bind]
  · have := grows_eval (L := L) e he
    exact realizes_mapItems (fun _ => eval L e) (fun _ => newList) ⟨_, rfl, rfl⟩
      (fun vs s => ⟨_, _, rfl, s.heap.extends_alloc _, _, rfl, s.heap.cell?_alloc_self _⟩) hlist hxs
  · have (v : Value) := grows_meets (L := L) (v := v) c hc
    exact realizes_mapItems (fun v => meets L v c)
      (fun _ bs => pure (.bool (match which with
        | .every => bs.all id
        | .any => bs.any id))) ⟨_, rfl, rfl⟩ (fun bs s => ⟨_, _, rfl, .refl, rfl⟩) hlist hxs
  · intro acc q init e hitem hacc hinit he
    have := grows_eval (L := L) init hinit
    have := grows_eval (L := L) e he
    exact realizes_reduce hitem hacc hlist hxs

/-- A list is filtered into its own variable and summed up. -/
theorem collections_itemwise_numbers :
    let xs : List Value := [.int 1, .null, .int 3]
    let σ : Session := { heap := ⟨#[.list xs]⟩, bag := .ofList [("xs", .list ⟨0⟩)] }
    let total := .command .start (.bag (.assign "t"
      (.binary .start .plus (.name .start "t") (.name .start "x"))))
    σ.bag.get? "xs" = some (.list ⟨0⟩) ∧ σ.heap.cell? ⟨0⟩ = some (.list xs) ∧
    (∃ τ q, (exec (.ofDepth 0) (.command .start (.collection (.filter "xs" "x"
        (.named .start "x" .present) "xs")))).run σ = (.ok .normal, τ) ∧
      σ.Sets ["x", "xs"] τ ∧ τ.bag.get? "xs" = some (.list q) ∧
      τ.heap.cell? q = some (.list [.int 1, .int 3])) ∧
    ∃ τ, (exec (.ofDepth 0) (.reduce .start "xs" "t" "x" (.number .start (.int 0)) [total] "sum")).run σ =
      (.ok .normal, τ) ∧ σ.Sets ["x", "t", "sum"] τ ∧ τ.bag.get? "sum" = some (.int 4) := by
  intro xs σ total
  have hlist : σ.bag.get? "xs" = some (.list ⟨0⟩) := rfl
  have hxs : σ.heap.cell? ⟨0⟩ = some (.list xs) := rfl
  have hanswers : ((xs.mapM fun x => letting .start [("x", x)] (test (.ofDepth 0)
      (.named .start "x" .present))).run σ).1 = .ok [true, false, true] := by rfl
  have hsum : ((do
      let a ← letting .start [] (eval (.ofDepth 0) (.number .start (.int 0)))
      xs.foldlM (fun a x => letting .start [("t", a), ("x", x)] (eval (.ofDepth 0)
        (.binary .start .plus (.name .start "t") (.name .start "x")))) a).run σ).1 =
      .ok (.int 4) := by rfl
  have hpair {γ : Type} {result : Except Signal γ × Session} {a : γ} (h : result.1 = .ok a) :
      result = (.ok a, result.2) := Prod.ext h rfl
  refine ⟨hlist, hxs, ?_, ?_⟩
  · obtain ⟨hfilter, -⟩ := collections_itemwise (.ofDepth 0) .start "xs" "x" "xs" σ ⟨0⟩ xs hlist hxs
    obtain ⟨-, τ, v, hrun, hsets, -, hout, q, rfl, hcell⟩ :=
      hfilter _ rfl _ _ (hpair hanswers)
    exact ⟨τ, q, hrun, hsets, hout, hcell⟩
  · obtain ⟨-, -, -, hreduce⟩ :=
      collections_itemwise (.ofDepth 0) .start "xs" "x" "sum" σ ⟨0⟩ xs hlist hxs
    obtain ⟨-, τ, v, hrun, hsets, -, hout, rfl⟩ :=
      hreduce "t" .start _ _ (by decide) (by decide) rfl rfl _ _ (hpair hsum)
    exact ⟨τ, hrun, hsets, hout⟩

end Run
end Parlance
