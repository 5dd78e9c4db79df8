import Parlance.Proofs.AlikeStore
import Parlance.Proofs.Dict

/-!
# Expressions Go Alike

A call runs the body of a function inside: the copy of the bag goes on the stack
before, comes off after, and becomes the bag again. So a call keeps the bag even
though its body does not, and with it every expression and every condition does.

## Main definitions

* `Regime.Harmless`: A call on the world by this name writes to no slot that is spared.
* `Run.directly`: A call on the world by a name that writes nothing, or no call.

## Theorems

* `Session.Kept.exit`: The session after a call has the frame and the bag from before, if the body
  kept its own frame: the bag is the topmost copy.
-/

namespace Parlance
open World
variable {R : Regime} [hR : R.Lawful] {whole : Bool} {L L' : Linker} [hL : Linker.Alike R L L']

namespace Run

/-! ### Firing rules -/

section Firing

omit hR

variable {stmts : List Stmt} {key : String}

theorem alike_block (hin : ∀ f, R.here f → R.inside f) (hstmts : Stmt.Throughout R.reached stmts) :
    Alike R false (L.block stmts) (L'.block stmts) where
  run s hhere hcode := hL.block stmts hstmts s (hin _ hhere) hcode

theorem alike_body_of (hin : ∀ f, R.here f → R.inside f)
    (hstmts : Stmt.Throughout R.reached stmts) : Alike R false (body L stmts) (body L' stmts) := by
  have hblock : Alike R false (L.block stmts) (L'.block stmts) := alike_block hin hstmts
  refine .next fun r => ?_
  cases r <;> infer_instance

theorem alike_body (ho : R.Open) : Alike R false (body L stmts) (body L' stmts) :=
  alike_body_of ho.inside fun st _ => ho.reached st

theorem alike_bodies {bs : List (List Stmt)} (hin : ∀ f, R.here f → R.inside f)
    (hbs : ∀ b ∈ bs, Stmt.Throughout R.reached b) : Alike R false (bodies L bs) (bodies L' bs) := by
  induction bs with
  | nil =>
    rw [bodies, bodies]
    infer_instance
  | cons b rest ih =>
    obtain ⟨hb, hrest⟩ := List.forall_mem_cons.mp hbs
    have hbody : Alike R false (body L b) (body L' b) := alike_body_of hin hb
    have hbodies := ih hrest
    rw [bodies, bodies]
    infer_instance

theorem alike_trigger_of (harms : ∀ f, R.here f → R.Arms f) :
    Alike R false (trigger L key) (trigger L' key) := by
  refine .next fun _ => Alike.bind_get fun s hhere hcode => ?_
  have hbodies : Alike R false (bodies L ((rulesFor s key).map Rule.body))
      (bodies L' ((rulesFor s key).map Rule.body)) := by
    refine alike_bodies (fun f hf => (harms f hf).inside) fun b hb => ?_
    obtain ⟨r, hr, rfl⟩ := List.mem_map.mp hb
    rcases hrules : s.eventRules.get? key with _ | rs
    · rw [rulesFor, hrules] at hr
      cases hr
    · rw [rulesFor, hrules] at hr
      exact (harms _ hhere).rules rs (Dict.mem_values_of_get? hrules) r hr
  exact hbodies.run s hhere hcode

theorem alike_trigger (ho : R.Open) : Alike R false (trigger L key) (trigger L' key) :=
  alike_trigger_of fun _ => ho.arms

end Firing
end Run

/-- A call on the world by this name writes to no slot that is spared. -/
def Regime.Harmless (R : Regime) (name : String) : Prop :=
  ∀ k, R.spared k → mayWrite name = false

omit hR in
theorem Regime.Harmless.of_not_mayWrite {name : String} (h : mayWrite name = false) :
    R.Harmless name := fun _ _ => h

omit hR in
theorem Regime.Harmless.all {name : String} (h : R.Harmless name) (hname : name = "call_function")
    (name' : String) : R.Harmless name' := by
  subst hname
  exact fun k hk => absurd (h k hk) (by decide)

namespace World
open Run
variable {v w : Value} {name : String} {args : List Value}
  {inner inner' : String → List Value → Run Value}

omit hR in
theorem alike_keep {which : Which} (h : R.Harmless name) :
    Obeys R whole (keep which name args) := by
  by_cases hwriter : name ∈ writers
  · have hmay : mayWrite name = true := by simp [mayWrite, hwriter]
    refine alike_keep_of_loose fun k hk => ?_
    exact Bool.false_ne_true ((h k hk).symm.trans hmay)
  · have : Quiet (keep which name args) := quiet_keep hwriter
    infer_instance

instance : Alike R false (tellEvent L v w) (tellEvent L' v w) := by
  refine .next fun name => .next fun data =>
    .next fun _ => Alike.bind_get fun s hhere hcode => ?_
  split
  case isTrue hfires =>
    -- The rules run where they fire, and there the regime is one in which they do.
    let firing : Regime := { R with here := fun f => R.here f ∧ f.callbacks.fires = true }
    have hlinkers : Linker.Alike firing L L' := ⟨fun stmts hstmts s hs hcode =>
      alikeAt_here.mpr (hL.block stmts hstmts s hs hcode)⟩
    have htrigger {key : String} : Alike firing false (trigger L key) (trigger L' key) :=
      alike_trigger_of fun f hf =>
        have harms := hR.fires f hf.1 hf.2
        ⟨harms.inside, harms.rules⟩
    have htell : Alike firing false (do let _ ← trigger L (← text v))
        (do let _ ← trigger L' (← text v)) := inferInstance
    exact alikeAt_here.mp (htell.run s ⟨hhere, hfires⟩ hcode)
  case isFalse => exact .of_quiet inferInstance

instance : Alike R false (tellOwner L name args) (tellOwner L' name args) := by
  unfold tellOwner
  split <;> infer_instance

theorem alike_act
    (hinner : name = "call_function" → ∀ n as, Alike R false (inner n as) (inner' n as))
    (hname : whole = true → name ≠ "emit_event" ∧ name ≠ "call_function") :
    Alike R whole (act L inner name args) (act L' inner' name args) := by
  unfold act logLine dialogue choose emit setProperty spawn orZero destroy
  split
  -- An event fires rules, and these may change the bag.
  case h_16 =>
    cases whole with
    | true => exact absurd rfl (hname rfl).1
    | false => infer_instance
  -- A call by name may lead to an event.
  case h_17 =>
    cases whole with
    | true => exact absurd rfl (hname rfl).2
    | false =>
      have hcall := hinner rfl
      infer_instance
  all_goals infer_instance

theorem alike_performWith (hharmless : R.Harmless name)
    (hinner : name = "call_function" → ∀ n as, Alike R false (inner n as) (inner' n as))
    (hname : whole = true → name ≠ "emit_event" ∧ name ≠ "call_function") :
    Alike R whole (performWith L inner name args) (performWith L' inner' name args) := by
  have hact : Alike R whole (act L inner name args) (act L' inner' name args) :=
    alike_act hinner hname
  have hkeep : Obeys R whole (keep .main name args) := alike_keep hharmless
  unfold performWith
  infer_instance

theorem alike_callAt (hharmless : R.Harmless name) {n : Nat} :
    Alike R false (callAt L n name args) (callAt L' n name args) := by
  induction n generalizing name args with
  | zero =>
    rw [callAt, callAt]
    infer_instance
  | succ n ih =>
    have hperform : Alike R false (performWith L (callAt L n) name args)
        (performWith L' (callAt L' n) name args) :=
      alike_performWith hharmless (fun hcall n _ => ih (hharmless.all hcall n)) nofun
    rw [callAt, callAt]
    infer_instance

theorem alike_callFunction (hharmless : R.Harmless name) :
    Alike R false (callFunction L name args) (callFunction L' name args) := by
  have hcall {n : Nat} : Alike R false (callAt L n name args) (callAt L' n name args) :=
    alike_callAt hharmless
  unfold callFunction
  infer_instance

theorem alike_perform (hharmless : R.Harmless name)
    (hname : whole = true → name ≠ "emit_event" ∧ name ≠ "call_function") :
    Alike R whole (perform L name args) (perform L' name args) :=
  alike_performWith hharmless (fun hcall n _ => alike_callFunction (hharmless.all hcall n)) hname

theorem alike_perform_call (hharmless : R.Harmless name) :
    Alike R false (perform L "call_function" [.text name, v])
      (perform L' "call_function" [.text name, v]) := by
  have hcall (as : List Value) : Alike R false (callFunction L name as) (callFunction L' name as) :=
    alike_callFunction hharmless
  have hperform (M : Linker) : perform M "call_function" [.text name, v] = (do
      if isKnown (← get).hosts.callbacks name then callFunction M name (← elements v)
      else unknown name) := rfl
  rw [hperform, hperform]
  infer_instance

end World

/-- The session after a call has the frame and the bag from before, if the body
    kept its own frame: the bag is the topmost copy. -/
theorem Session.Kept.exit {p : Stmt → Prop} {K : Slot → Prop} {s s' : Session}
    (h : s.enter.Kept p K false s') : s.Kept p K true s'.exit := by
  have hframe := h.frame
  simp only [Session.frame, Session.enter, Session.Frame.mk.injEq] at hframe
  obtain ⟨hsnapshots, hdepth, himporting, hrequest, hprogram, hevents, hconditions,
    hoptions, hcallbacks, hstore⟩ := hframe
  have hbodies (hs : s.Bodies p) : s'.Bodies p :=
    h.bodies ⟨hs.functions, hs.modules, hs.classes, hs.methods⟩
  unfold Session.exit
  -- The body kept the copies, so the topmost one is that from the beginning of the call.
  rw [hsnapshots]
  refine ⟨?_, fun _ => rfl, fun hs => ?_, h.response, h.store, h.events, h.cells⟩
  · simp only [Session.frame, hdepth, himporting, hrequest, hprogram, hevents, hconditions,
      hoptions, hcallbacks, hstore, Nat.add_sub_cancel]
  · have hs' := hbodies hs
    exact ⟨hs'.functions, hs'.modules, hs'.classes, hs'.methods⟩

namespace Run
variable {name prop : String} {args : List Value} {v : Value} {e : Expr}

/-! ### Asking the hosts -/

theorem alike_ask_of (hharmless : R.Harmless name)
    (hname : whole = true → name ≠ "emit_event" ∧ name ≠ "call_function") :
    Alike R whole (ask L name args) (ask L' name args) := by
  have hperform : Alike R whole (perform L name args) (perform L' name args) :=
    alike_perform hharmless hname
  unfold ask
  infer_instance

theorem alike_direct (hharmless : R.Harmless name) :
    Alike R false (direct L name args) (direct L' name args) := by
  have hask : Alike R false (ask L name args) (ask L' name args) := alike_ask_of hharmless nofun
  unfold direct
  infer_instance

/-- A call on the world by a name that writes nothing, or no call. -/
def directly (L : Linker) (name : String) (args : List Value) : Run Unit :=
  if mayWrite name then pure () else direct L name args

omit hR hL in
theorem direct_eq_directly (h : mayWrite name = false) :
    direct L name args = directly L name args := by
  rw [directly, h]
  rfl

instance : Alike R false (directly L name args) (directly L' name args) := by
  unfold directly
  split
  · infer_instance
  case isFalse h => exact alike_direct (.of_not_mayWrite (eq_false_of_ne_true h))

theorem alike_direct_call (hharmless : R.Harmless name) :
    Alike R false (direct L "call_function" [.text name, v])
      (direct L' "call_function" [.text name, v]) := by
  have hperform : Alike R false (perform L "call_function" [.text name, v])
      (perform L' "call_function" [.text name, v]) := alike_perform_call hharmless
  unfold direct ask
  infer_instance

instance :
    Alike R whole (ask L "get_property" args) (ask L' "get_property" args) :=
  alike_ask_of (.of_not_mayWrite (by decide)) fun _ => ⟨by decide, by decide⟩

instance : Alike R whole (ask L "is_switch" args) (ask L' "is_switch" args) :=
  alike_ask_of (.of_not_mayWrite (by decide)) fun _ => ⟨by decide, by decide⟩

instance : Alike R whole (ask L "has_status" args) (ask L' "has_status" args) :=
  alike_ask_of (.of_not_mayWrite (by decide)) fun _ => ⟨by decide, by decide⟩

instance {entity : String} :
    Alike R whole (property L entity prop) (property L' entity prop) := alike_bind

/-! ### Calls -/

omit hR hL in
instance {params : List String} : Obeys R false (bindParams params args) := by
  induction params generalizing args with
  | nil =>
    rw [bindParams]
    infer_instance
  | cons p ps ih =>
    rw [bindParams]
    infer_instance

section Invoke
variable {params : List String} {stmts : List Stmt} {args : List Value} {this : Option Value}

omit hR in
theorem alike_bound (hstmts : Stmt.Throughout R.reached stmts) :
    Alike { R with here := R.inside } false (bound L params stmts args this)
      (bound L' params stmts args this) := by
  have hblock : Alike { R with here := R.inside } false (L.block stmts) (L'.block stmts) :=
    ⟨fun s hinside hcode => alikeAt_here.mpr (hL.block stmts hstmts s hinside hcode)⟩
  unfold bound
  cases this <;> infer_instance

theorem alike_invoke (hstmts : Stmt.Throughout R.reached stmts) :
    Alike R whole (invoke L params stmts args this) (invoke L' params stmts args this) := by
  refine Alike.bind_get fun s hhere hcode => ?_
  split
  -- At the limit the call fails. Below it the body begins one call deeper, where the
  -- regime says what holds inside.
  · exact AlikeAt.bind (.of_quiet inferInstance) fun _ _ _ hrun => nomatch hrun
  case isFalse hdepth =>
    have hbound : Alike { R with here := R.inside } false (bound L params stmts args this)
        (bound L' params stmts args this) := alike_bound hstmts
    have hcode' : R.Carried s.enter :=
      hcode.imp (fun h => ⟨h.functions, h.modules, h.classes, h.methods⟩) id
    have hbody : AlikeAt R false (bound L params stmts args this) (bound L' params stmts args this)
        s.enter :=
      alikeAt_here.mp (hbound.run s.enter (hR.call s hhere (Nat.lt_of_not_le hdepth)) hcode')
    refine hbody.within (fun s' h => h.exit.of_whole) rfl (fun s' => ?_)
      fun _ _ _ => .of_quiet inferInstance
    unfold Session.exit
    split <;> rfl

end Invoke

omit hR hL in
theorem throughout_of_function? {p : Stmt → Prop} {s : Session} {f : Function}
    (hbodies : s.Bodies p) (h : s.function? name = some f) : Stmt.Throughout p f.body := by
  unfold Session.function? at h
  split at h
  case h_1 fn hfn =>
    cases h
    exact hbodies.functions _ (Dict.mem_values_of_get? hfn)
  case h_2 =>
    split at h
    -- A name with a dot leads into a module.
    case h_1 nickname member _ =>
      rcases hd : s.modules.get? nickname with _ | d
      · rw [hd] at h
        cases h
      · rw [hd] at h
        exact hbodies.modules d (Dict.mem_values_of_get? hd) f (Dict.mem_values_of_get? h)
    case h_2 => cases h

instance alike_callFunction :
    Alike R whole (callFunction L name args) (callFunction L' name args) := by
  refine Alike.bind_get fun s hhere hcode => ?_
  rcases hf : s.function? name with _ | f
  · exact .of_quiet inferInstance
  · exact (alike_invoke (throughout_of_function? hcode.bodies hf)).run s hhere hcode

/-! ### Names and texts -/

instance : Alike R whole (resolve L name) (resolve L' name) := by
  refine .next fun o => ?_
  cases o <;> infer_instance

instance {owner : String} : Alike R whole (fieldText L owner prop) (fieldText L' owner prop) := by
  unfold fieldText
  refine .next fun v => ?_
  cases v with
  | object r =>
    refine .next fun d => ?_
    cases d.get? prop <;> infer_instance
  | _ => infer_instance

instance : Alike R whole (templateField L name) (templateField L' name) := by
  unfold templateField
  split
  · infer_instance
  · refine .next fun o => ?_
    cases o <;> infer_instance

instance alike_fillIn {pieces : List Template.Piece} :
    Alike R whole (fillIn L pieces) (fillIn L' pieces) := by
  induction pieces with
  | nil =>
    rw [fillIn, fillIn]
    infer_instance
  | cons piece rest ih => cases piece <;> rw [fillIn, fillIn] <;> infer_instance

instance {s : String} : Alike R whole (interpolate L s) (interpolate L' s) := alike_fillIn

instance {owner : String} {key : Value} :
    Alike R whole (readKey L owner key) (readKey L' owner key) := by
  refine .next fun o => ?_
  cases o <;> infer_instance

/-! ### Expressions and conditions -/

omit hR hL in
mutual

theorem alike_eval_of [R.Lawful] [Linker.Alike R L L'] : (e : Expr) →
    Alike R whole (eval L e) (eval L' e)
  | .number _ _ | .bool _ _ | .null _ | .constant _ _ => by
    rw [eval, eval]
    infer_instance
  | .text _ _ | .name _ _ => by
    rw [eval, eval]
    infer_instance
  | .list _ es => by
    have hes := alike_evalAll_of es
    rw [eval, eval]
    infer_instance
  | .object _ fs => by
    have hfs := alike_evalFields_of fs
    rw [eval, eval]
    infer_instance
  | .binary _ _ left right => by
    have hleft := alike_eval_of left
    have hright := alike_eval_of right
    rw [eval, eval]
    infer_instance
  | .builtin _ _ args => by
    have hargs := alike_evalAll_of args
    rw [eval, eval]
    infer_instance
  | .field _ _ key => by
    have hkey := alike_eval_of key
    rw [eval, eval]
    infer_instance
  | .call _ _ args => by
    have hargs := alike_evalAll_of args
    rw [eval, eval]
    infer_instance

theorem alike_evalAll_of [R.Lawful] [Linker.Alike R L L'] : (es : List Expr) →
    Alike R whole (evalAll L es) (evalAll L' es)
  | [] => by
    rw [evalAll, evalAll]
    infer_instance
  | e :: rest => by
    have he := alike_eval_of e
    have hrest := alike_evalAll_of rest
    rw [evalAll, evalAll]
    infer_instance

theorem alike_evalFields_of [R.Lawful] [Linker.Alike R L L'] : (fs : List (String × Expr)) →
    Alike R whole (evalFields L fs) (evalFields L' fs)
  | [] => by
    rw [evalFields, evalFields]
    infer_instance
  | (_, e) :: rest => by
    have he := alike_eval_of e
    have hrest := alike_evalFields_of rest
    rw [evalFields, evalFields]
    infer_instance

end

instance : Alike R whole (eval L e) (eval L' e) := alike_eval_of e

instance {es : List Expr} : Alike R whole (evalAll L es) (evalAll L' es) :=
  alike_evalAll_of es

instance {e : Option Expr} : Alike R whole (evalOr L e) (evalOr L' e) := by
  cases e <;> rw [evalOr, evalOr] <;> infer_instance

instance : Alike R whole (evalNumber L e) (evalNumber L' e) := alike_bind
instance : Alike R whole (evalText L e) (evalText L' e) := alike_bind

instance {c : Comparison} : Alike R whole (meets L v c) (meets L' v c) := by
  cases c <;> rw [meets, meets] <;> infer_instance

instance {subject : String} :
    Alike R whole (propertyOf L subject prop) (propertyOf L' subject prop) := by
  refine .next fun v => ?_
  cases v <;> infer_instance

instance : Alike R whole (lookUp L name) (lookUp L' name) := by
  unfold lookUp
  refine .next fun o => ?_
  cases o with
  | some v => infer_instance
  | none =>
    dsimp only
    split
    · infer_instance
    · refine .next fun v => ?_
      cases v with
      | object r =>
        refine .next fun d => ?_
        split <;> infer_instance
      | _ => infer_instance

instance {c : Condition} : Alike R whole (test L c) (test L' c) := by
  induction c with
  | logical _ op left right hleft hright => cases op <;> rw [test, test] <;> infer_instance
  | not _ c ih =>
    rw [test, test]
    infer_instance
  | choice _ e =>
    rw [test, test]
    refine .next fun s => ?_
    cases s.lastChoice <;> infer_instance
  | hasKey _ subject e =>
    rw [test, test]
    refine .next fun v => ?_
    cases v <;> infer_instance
  | _ =>
    rw [test, test]
    infer_instance

end Run
end Parlance
