import Parlance.Proofs.Operation

/-!
# Calls Leave No Trace

A call, an isolated module and a request put something under way and take it back
when they end, however they end. So what is under way is the same after a statement
as before it, and the same after an operation, and the number of calls under way
never exceeds the limit on the way.

## Main definitions

* `Session.UnderWay`: What calls, modules and requests put under way.
* `Run.LeavesBag`: The bag is the same afterwards, however the computation ends.
* `Run.bagWith`: The bag with a result, if there is a name for it.
* `Run.Returns`: On success the bag has a value under the name for the result and is the same
  otherwise; without success it is the same.

## Theorems

* `Session.underWay_kept`: What is under way is the same after a statement as before, contents of
  the copies included, however the statement ends; on the way the number of calls never exceeds
  the limit, or what it was.
* `Session.bag_kept`: Expressions, conditions and texts keep the bag of the one who evaluates
  them, and so does a call of a function, of a bound method or of a constructor, whatever its body
  does.
-/

namespace Parlance
open Run

namespace Session

/-- What calls, modules and requests put under way. -/
structure UnderWay where
  snapshots : List (Dict Value)
  depth : Nat
  importing : List String
  inRequest : Bool

def underWay (s : Session) : UnderWay := ⟨s.snapshots, s.depth, s.importing, s.inRequest⟩

theorem underWay_of_frame {s s' : Session} (h : s.frame = s'.frame) : s.underWay = s'.underWay := by
  simp only [frame, Frame.mk.injEq] at h
  simp only [underWay, h]

@[simp] theorem underWay_addRule (s : Session) (r : Rule) :
    (s.addRule r).underWay = s.underWay := by
  unfold addRule
  split <;> rfl

theorem underWay_foldl_addRule (f : Rule → Rule) (rs : List Rule) (s : Session) :
    (rs.foldl (fun s r => s.addRule (f r)) s).underWay = s.underWay := by
  induction rs generalizing s with
  | nil => rfl
  | cons r rest ih => exact (ih _).trans (underWay_addRule s (f r))

theorem underWay_settled (op : Operation) (s : Session) : (op.settled s).underWay = s.underWay := by
  cases op with
  | load source =>
    rw [Operation.settled]
    cases (Program.ofSource source).program with
    | error d => rfl
    | ok p => exact underWay_foldl_addRule id p.rules _
  | loadScene source =>
    rw [Operation.settled]
    cases (Program.ofSource source).program with
    | error d => rfl
    | ok p => exact underWay_foldl_addRule _ p.rules _
  | _ => rfl

theorem underWay_after (n : Nat) (op : Operation) (s : Session) :
    (op.after (.ofDepth n) s).underWay = s.underWay :=
  (underWay_of_frame (op.frame_after n s)).trans (underWay_settled op s)

theorem underWay_afterAll (n : Nat) (ops : List Operation) (s : Session) :
    (Operation.afterAll (.ofDepth n) s ops).underWay = s.underWay := by
  induction ops generalizing s with
  | nil => rfl
  | cons op rest ih => exact (ih _).trans (underWay_after n op s)

/-- What is under way is the same after a statement as before, contents of the copies
    included, however the statement ends; on the way the number of calls never exceeds
    the limit, or what it was. The same holds after operations of all kinds, so no copy
    of the bag is left behind by a session that began without. -/
theorem underWay_kept (n : Nat) : (∀ (st : Stmt) (s : Session),
      ((exec (.ofDepth n) st).run s).2.underWay = s.underWay ∧
        Linker.Within (·.depth ≤ max s.depth maxDepth) n (exec · st) s) ∧
    (∀ (s : Session) (ops : List Operation),
      (Operation.afterAll (.ofDepth n) s ops).underWay = s.underWay ∧
        ∀ op : Operation, Linker.Within (·.depth ≤ max s.depth maxDepth) n op.run
          (Operation.afterAll (.ofDepth n) s ops)) ∧
    ∀ (options : Options) (hosts : Hosts) (ops : List Operation),
      (Operation.afterAll (.ofDepth n) { options, hosts } ops).snapshots.length = 0 := by
  refine ⟨fun st s => ⟨underWay_of_frame (Linker.frame_exec n st s), ?_⟩,
    fun s ops => ⟨underWay_afterAll n ops s, fun op => op.within_run n ?_⟩, fun options hosts ops => ?_⟩
  · exact Linker.within_exec n st (Nat.le_max_left _ _)
  -- The rules change before a block begins, and the number of calls does not.
  · have hdepth := congrArg UnderWay.depth
      ((underWay_settled op _).trans (underWay_afterAll n ops s))
    exact Nat.le_trans (Nat.le_of_eq hdepth) (Nat.le_max_left _ _)
  · have hsnapshots := congrArg UnderWay.snapshots (underWay_afterAll n ops { options, hosts })
    exact congrArg List.length hsnapshots

end Session

namespace Run
variable {α β : Type} {out : Option String}

/-- The bag is the same afterwards, however the computation ends. -/
def LeavesBag (x : Run α) : Prop := ∀ s : Session, (x.run s).2.bag = s.bag

/-- The bag with a result, if there is a name for it. -/
def bagWith (out : Option String) (v : Value) (bag : Dict Value) : Dict Value :=
  match out with
  | none => bag
  | some name => bag.insert name v

/-- On success the bag has a value under the name for the result and is the same
    otherwise; without success it is the same. -/
def Returns (out : Option String) (x : Run α) : Prop :=
  ∀ s : Session, match x.run s with
    | (.ok _, s') => ∃ v, s'.bag = bagWith out v s.bag
    | (.error _, s') => s'.bag = s.bag

theorem leavesBag_of_alike {x : Run α} (h : Obeys (.watching fun _ => True) true x) : LeavesBag x :=
  fun s => (h.run s trivial (.of_forall (fun _ => trivial) _)).kept.bag rfl

theorem returns_setOut (v : Value) : Returns out (setOut out v) := by
  intro s
  cases out <;> exact ⟨v, rfl⟩

theorem LeavesBag.bind {x : Run α} {f : α → Run β} (hx : LeavesBag x)
    (hf : ∀ a, Returns out (f a)) : Returns out (x >>= f) := by
  intro s
  have hbag := hx s
  rcases hrun : x.run s with ⟨e | a, s'⟩ <;> rw [hrun] at hbag
  · rw [bind_error hrun]
    exact hbag
  · rw [bind_ok hrun, ← hbag]
    exact hf a s'

theorem Returns.normally {act : Run Unit} (h : Returns out act) : Returns out (normally act) := by
  intro s
  have hs := h s
  unfold Run.normally
  rcases hrun : act.run s with ⟨e | a, s'⟩ <;> rw [hrun] at hs
  · rw [bind_error hrun]
    exact hs
  · rw [bind_ok hrun]
    exact hs

theorem Returns.placing {act : Run Flow} (pos : Position) (h : Returns out act) :
    Returns out (placing pos act) := by
  intro s
  have hs := h { s with position := some pos }
  rw [run_placing]
  rcases hrun : act.run { s with position := some pos } with ⟨(f | n | d | _) | a, s'⟩ <;>
    rw [hrun] at hs <;> exact hs

variable (n : Nat)

theorem returns_callMethod (method owner : String) (args : List Expr) :
    Returns out (callMethod (.ofDepth n) method owner args out) := by
  refine LeavesBag.bind (leavesBag_of_alike inferInstance) fun v =>
    LeavesBag.bind (leavesBag_of_alike inferInstance) fun o => ?_
  rcases o with _ | ⟨r, m⟩
  · exact LeavesBag.bind (leavesBag_of_alike inferInstance) fun _ => returns_setOut _
  · refine LeavesBag.bind (leavesBag_of_alike inferInstance) fun vs =>
      LeavesBag.bind (leavesBag_of_alike ?_) fun v => returns_setOut v
    exact alike_invoke fun _ _ => trivial

end Run

/-- Expressions, conditions and texts keep the bag of the one who evaluates them, and so
    does a call of a function, of a bound method or of a constructor, whatever its body
    does. A statement that calls changes the name for the result only, and nothing if
    it does not succeed. -/
theorem Session.bag_kept (n : Nat) : (∀ e, LeavesBag (eval (.ofDepth n) e)) ∧
    (∀ c, LeavesBag (test (.ofDepth n) c)) ∧ (∀ t, LeavesBag (interpolate (.ofDepth n) t)) ∧
    (∀ name args, LeavesBag (callFunction (.ofDepth n) name args)) ∧
    (∀ name args, LeavesBag (instantiate (.ofDepth n) name args)) ∧
    (∀ params stmts args this, LeavesBag (invoke (.ofDepth n) params stmts args this)) ∧
    (∀ pos name args out, Returns out
      (exec (.ofDepth n) (.command pos (.script (.callFunction name args out))))) ∧
    (∀ pos method owner args out, Returns out
      (exec (.ofDepth n) (.command pos (.script (.callMethod method owner args out))))) ∧
    ∀ pos name args out, Returns out
      (exec (.ofDepth n) (.command pos (.script (.create name args out)))) := by
  refine ⟨fun e => leavesBag_of_alike inferInstance, fun c => leavesBag_of_alike inferInstance,
    fun t => leavesBag_of_alike inferInstance, fun name args => leavesBag_of_alike inferInstance,
    fun name args => leavesBag_of_alike inferInstance,
    fun params stmts args this => leavesBag_of_alike (alike_invoke fun _ _ => trivial),
    fun pos name args out => ?_, fun pos method owner args out => ?method,
    fun pos name args out => ?_⟩ <;> rw [exec]
  case method => exact (returns_callMethod n method owner args).normally.placing pos
  all_goals
    refine Returns.placing pos (Returns.normally ?_)
    exact LeavesBag.bind (leavesBag_of_alike inferInstance) fun vs =>
      LeavesBag.bind (leavesBag_of_alike inferInstance) fun v => returns_setOut v

end Parlance
