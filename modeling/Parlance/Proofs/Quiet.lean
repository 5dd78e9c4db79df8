import Parlance.Proofs.Frame

/-!
# Quiet Operations

The operations of the hosts that run no script, and the operators and functions
of the language, are quiet. An operation of a world may change the world and the
heap; an operator reads values and makes new ones.

## Theorems

* `World.kept_change`: A change of a world keeps what it leaves in its place.
* `World.mark_change`: A change of a world gives no diagnostic.
* `Run.within_builtin`: A function of the language stays within the bound, unless it draws a
  random number.
-/

namespace Parlance
variable {name : String}

namespace World
open Run
variable {B : Bound} {α : Type} {v w x y : Value} {which : Which} {f : World → World} {s : Session}

instance within_read : Within B (read which) := within_bind

def Which.world (h : Hosts) : Which → World
  | .main => h.world
  | .separate => h.separate

/-- A change of a world keeps what it leaves in its place. -/
theorem kept_change {p : Stmt → Prop} {K : Slot → Prop}
    (hf : ∀ k, K k → (f (which.world s.hosts)).held? k = (which.world s.hosts).held? k) :
    s.Kept p K true ((change which f).run s).2 := by
  refine kept_modifyHosts (by cases which <;> rfl) (by cases which <;> rfl) fun k hk => ?_
  -- The store may be in the world that changes, or in the other one.
  unfold Hosts.saved?
  cases which <;> cases s.hosts.storeHost <;> first | exact hf k hk | rfl

/-- A change of a world gives no diagnostic. -/
theorem mark_change : ((change which f).run s).2.mark = s.mark := by
  cases which <;> rfl

instance {entities : World → Dict (Value × Value)} {props : World → Dict (Dict Value)}
    {switches : World → Dict Bool} {statuses : World → Dict (Dict Value)}
    {lines : World → Array Value} {events : World → Array (Value × Value)}
    {running : World → Bool} :
    Quiet (change which fun w => ⟨entities w, props w, switches w, w.store, w.records, statuses w,
      lines w, events w, running w⟩) :=
  .of_kept (fun _ _ _ => kept_change fun k _ => by cases k <;> rfl)
    (fun _ => mark_change) fun _ => nofun

instance : Within B (badArguments : Run α) := within_throw_defect
instance : Within B (key v) := within_ite

instance : Within B (textArg v) := by
  unfold textArg
  split <;> infer_instance

instance : Within B (numberArg v) := by
  unfold numberArg
  split <;> infer_instance

instance : Within B (isVoid v) := within_bind

instance : Within B (elements v) := by
  unfold elements
  split <;> infer_instance

instance : Quiet (plus v w) := by
  unfold plus
  split <;> infer_instance

instance : Quiet (write v) := within_bind

instance : Quiet nextChoice := by
  refine .next fun s => ?_
  split <;> infer_instance

instance {i : Nat} {options : List Value} : Quiet (showOptions i options) := by
  induction options generalizing i with
  | nil => exact within_pure
  | cons o rest ih =>
    rw [showOptions]
    infer_instance

instance : Within B (property v w) := by
  refine .next fun here => .next fun e =>
    .next fun p => ?_
  split <;> infer_instance

instance {relative : Bool} : Quiet (move v x y relative) := by
  refine .next fun e => .next fun here => ?_
  split <;> infer_instance

instance : Within B (itemCount which v) := within_bind
instance : Quiet (unknown name) := within_bind

end World

namespace Run
variable {B : Bound} [B.Making] {v w : Value} {op : String} {vs : List Value}
variable {capability : String} {fn : Builtin}

instance : Within B (lacking capability op) := within_warn

instance within_capable {isThere : Hosts → Bool} :
    Within B (capable isThere capability op) := within_bind

instance {args : List Noted} : Within B (noteStage name args) := within_bind

instance {args : List Value} : Quiet (askBare name args) := by
  unfold askBare
  split <;> infer_instance

/-! ### Operators and functions -/

instance {op : Operator} {a b : Number} : Within B (arithmetic op a b) := by
  unfold arithmetic
  split <;> infer_instance

instance {op : Operator} : Within B (binary op v w) := within_ite

instance {i : Nat} : Within B (findItem w i vs) := by
  induction vs generalizing i with
  | nil => exact within_pure
  | cons v rest ih =>
    rw [findItem]
    infer_instance

instance : Within B (contains v w) := by
  unfold contains
  split <;> infer_instance

instance : Within B (indexOf v w) := by
  unfold indexOf
  split <;> infer_instance

instance : Within B (entry v w) := by
  unfold entry
  split <;> infer_instance

instance : Within B (length v) := by
  unfold length
  split <;> infer_instance

instance : Within B (itemText v) := within_ite

instance {f : Value → Run String} [∀ v, Within B (f v)] : Within B (texts f vs) := by
  induction vs with
  | nil => exact within_pure
  | cons v rest ih =>
    rw [texts]
    infer_instance

instance : Within B (asList v) := by
  unfold asList
  split <;> infer_instance

instance {stop : Value} : Within B (slice v w stop) := by
  unfold slice
  cases v <;> infer_instance

instance : Within B (pairUp vs) := by
  fun_induction pairUp vs with
  | case1 k v rest ih => infer_instance
  | case2 => exact within_pure

instance {s : String} : Within B (giveText s) := within_pure
instance {n : Except Defect Number} : Within B (giveNumber n) := within_bind

instance {s : String} : Within B (isOfType v s) := by
  unfold isOfType
  split <;> infer_instance

/-- A function of the language stays within the bound, unless it draws a random number. -/
theorem within_builtin (hfn : fn ≠ .random) : Within B (builtin fn vs) := by
  cases fn
  case random => exact absurd rfl hfn
  case arrayJoin =>
    unfold builtin
    dsimp only
    generalize vs[0]?.getD .null = a
    cases a <;> infer_instance
  all_goals
    unfold builtin
    infer_instance

instance {low high : Number} : Quiet (random low high) := by
  unfold random draw
  infer_instance

instance : Quiet (builtin fn vs) := by
  by_cases hfn : fn = .random
  · subst hfn
    unfold builtin
    infer_instance
  · exact within_builtin hfn

end Run
end Parlance
