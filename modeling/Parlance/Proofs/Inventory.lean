import Mathlib.Logic.Function.Basic
import Parlance.Proofs.Loading

/-!
# Counts of Items

A statement that gives an item adds its quantity to the count, and one that takes an item
away subtracts it. The quantity is an expression, so it may come to any number. Taking away
stops at zero; giving does not, so a negative quantity may leave a negative count behind.

## Main definitions

* `Trade`: A statement that gives an item or takes it away, and what its quantity comes to.
* `Trade.Comes`: The quantity comes to the amount where the statement stands, and finding that out
  leaves the counts alone.
* `Trading`: Each of the trades comes to its amount when it is its turn.
* `Session.Stocks`: The store is that of the world, and it has these counts of items.

## Theorems

* `Run.item_counts`: From an empty store on, every statement that gives an item or takes it away
  changes the count of that item and no other.
* `Run.item_counts_potions`: Five are given, seven are taken, one is given back with a minus.
* `Run.item_counts_below_zero`: Giving minus five potions leaves minus five of them.
-/

namespace Parlance

/-- A statement that gives an item or takes it away, and what its quantity comes to. -/
structure Trade where
  pos : Position
  gain : Bool
  item : String
  quantity : Expr
  amount : Int

namespace Trade

def stmt (t : Trade) : Stmt :=
  .command t.pos (.party
    (if t.gain then .addItem t.item t.quantity else .removeItem t.item t.quantity))

def total (t : Trade) (count : Int) : Int :=
  if t.gain then count + t.amount else max 0 (count - t.amount)

def apply (counts : String → Int) (t : Trade) : String → Int :=
  Function.update counts t.item (t.total (counts t.item))

def tally (trades : List Trade) : String → Int := trades.foldl apply fun _ => 0

variable {trades : List Trade} {t : Trade} {n : Nat}

theorem tally_take_succ (h : trades[n]? = some t) :
    tally (trades.take (n + 1)) = apply (tally (trades.take n)) t := by
  rw [List.take_add_one, h, tally, List.foldl_append]
  rfl

theorem tally_nonneg_iff : (∀ n item, 0 ≤ tally (trades.take n) item) ↔
    ∀ n t, trades[n]? = some t → t.gain = true → 0 ≤ tally (trades.take n) t.item + t.amount := by
  refine ⟨fun h n t ht hgain => ?_, fun h n => ?_⟩
  · have hitem := h (n + 1) t.item
    rwa [tally_take_succ ht, apply, Function.update_self, total, if_pos hgain] at hitem
  · induction n with
    | zero => exact fun _ => Int.le_refl 0
    | succ n ih =>
      intro item
      cases ht : trades[n]? with
      | none =>
        rw [List.take_add_one, ht, Option.toList_none, List.append_nil]
        exact ih item
      | some t =>
        rw [tally_take_succ ht, apply]
        by_cases hitem : item = t.item
        · subst hitem
          rw [Function.update_self, total]
          split
          case isTrue hgain => exact h n t ht hgain
          case isFalse => exact Int.le_max_left 0 _
        · rw [Function.update_of_ne hitem]
          exact ih item

/-- The quantity comes to the amount where the statement stands, and finding that out leaves
    the counts alone. -/
def Comes (L : Linker) (s : Session) (t : Trade) : Prop :=
  ∃ s', (Run.evalNumber L t.quantity).run { s with position := some t.pos } =
      (.ok (.int t.amount), s') ∧ s'.hosts.storeHost = s.hosts.storeHost ∧
    ∀ item, s'.hosts.world.held? (.item item) = s.hosts.world.held? (.item item)

end Trade

/-- Each of the trades comes to its amount when it is its turn. -/
inductive Trading (L : Linker) : Session → List Trade → Prop
  | nil {s : Session} : Trading L s []
  | cons {s : Session} {t : Trade} {rest : List Trade} : t.Comes L s →
    Trading L ((Run.exec L t.stmt).run s).2 rest → Trading L s (t :: rest)

theorem Trading.take {L : Linker} {s : Session} {trades : List Trade} (h : Trading L s trades)
    (n : Nat) : Trading L s (trades.take n) := by
  induction h generalizing n with
  | nil =>
    rw [List.take_nil]
    exact .nil
  | cons ht _ ih =>
    cases n with
    | zero => exact .nil
    | succ n => exact .cons ht (ih n)

/-- The store is that of the world, and it has these counts of items. -/
structure Session.Stocks (s : Session) (counts : String → Int) : Prop where
  host : s.hosts.storeHost = .world
  items : ∀ item, (s.hosts.world.held? (.item item)).getD (.int 0) = .int (counts item)

namespace Run
variable {L : Linker} {s : Session} {counts : String → Int}

theorem run_itemCount (hs : s.Stocks counts) (item : String) :
    (World.itemCount .main (.text item)).run s = (.ok (.int (counts item)), s) := by
  have hitem := hs.items item
  have hrun : (World.itemCount .main (.text item)).run s =
      (number ((s.hosts.world.held? (.item item)).getD .null)).run s := rfl
  rw [hrun]
  cases hheld : s.hosts.world.held? (.item item) with
  | none =>
    rw [hheld] at hitem
    obtain hzero : 0 = counts item := Number.int.inj (Value.number.inj hitem)
    rw [← hzero]
    rfl
  | some v =>
    rw [hheld] at hitem
    obtain rfl : v = .int (counts item) := hitem
    rfl

theorem stocks_putData (hs : s.Stocks counts) (item : String) (n : Int) :
    ((World.putData .main ("inv:" ++ item) (.int n)).run s).2.Stocks
      (Function.update counts item n) := by
  refine ⟨hs.host, fun item' => ?_⟩
  by_cases h : item' = item
  · subst h
    rw [Function.update_self]
    exact congrArg (Option.getD · _) (s.hosts.world.store.get?_insert_self _ _)
  · have hslot : Slot.item item' ≠ .item item := by simpa [Slot.item] using h
    rw [Function.update_of_ne h, ← hs.items item']
    exact congrArg (Option.getD · _) (s.hosts.world.held?_insert_data hslot _)

theorem run_keep_trade (hs : s.Stocks counts) (t : Trade) :
    ∃ s', (World.keep .main (if t.gain then "add_item" else "remove_item")
      [.text t.item, .int t.amount]).run s = (.ok .null, s') ∧ s'.Stocks (t.apply counts) := by
  refine ⟨_, ?_, stocks_putData hs t.item (t.total (counts t.item))⟩
  have hcount := run_itemCount hs t.item
  by_cases hgain : t.gain = true
  · have hkeep : World.keep .main "add_item" [.text t.item, .int t.amount] = (do
        let total ← World.plus (.number (← World.itemCount .main (.text t.item))) (.int t.amount)
        World.putData .main ("inv:" ++ t.item) total
        return .null) := rfl
    rw [if_pos hgain, hkeep, bind_ok hcount, Trade.total, if_pos hgain]
    rfl
  · have hkeep : World.keep .main "remove_item" [.text t.item, .int t.amount] = (do
        let rest ← lift ((← World.itemCount .main (.text t.item)).sub (.int t.amount))
        World.putData .main ("inv:" ++ t.item)
          (.number (if (Number.int 0).lt rest then rest else .int 0))
        return .null) := rfl
    have hfloor (n : Int) : (if (Number.int 0).lt (.int n) then Number.int n else .int 0) =
        .int (max 0 n) := by
      simp only [Number.lt, decide_eq_true_iff]
      split <;> congr 1 <;> omega
    rw [if_neg hgain, hkeep, bind_ok hcount, Trade.total, if_neg hgain]
    change (do
      World.putData .main ("inv:" ++ t.item) (.number (if (Number.int 0).lt _ then _ else _))
      return .null : Run Value).run s = _
    rw [hfloor]
    rfl

theorem run_trade (hs : s.Stocks counts) {t : Trade} (ht : t.Comes L s) :
    ∃ s', (exec L t.stmt).run s = (.ok .normal, s') ∧ s'.Stocks (t.apply counts) := by
  obtain ⟨s₁, hrun, hhost, hheld⟩ := ht
  have hs₁ : s₁.Stocks counts := ⟨hhost.trans hs.host, fun item => hheld item ▸ hs.items item⟩
  obtain ⟨journal, hask⟩ := run_askStore hs₁.host
    (if t.gain then "add_item" else "remove_item") [.text t.item, .int t.amount]
  obtain ⟨s', hkeep, hs'⟩ := run_keep_trade (s := { s₁ with hosts := { s₁.hosts with journal } })
    ⟨hs₁.host, hs₁.items⟩ t
  refine ⟨s', ?_, hs'⟩
  rw [Trade.stmt, exec]
  refine run_placing_ok (run_normally_ok ?_)
  have hvalue : (numberValue L t.quantity).run { s with position := some t.pos } =
      (.ok (.int t.amount), s₁) := bind_ok hrun
  have hdirect := bind_ok (f := fun _ => pure ()) (hask.trans hkeep)
  have hhere : { s with position := some t.pos }.hosts.storeHost = .world := hs.host
  have hact (op name : String) (h : (directStore name [.text t.item, .int t.amount]).run s₁ =
      (.ok (), s')) : (inStore op (numberValue L t.quantity >>= fun v =>
        directStore name [.text t.item, v])).run { s with position := some t.pos } =
      (.ok (), s') := by
    rw [run_inStore hhere, bind_ok hvalue, h]
  by_cases hgain : t.gain = true
  · rw [if_pos hgain] at hdirect ⊢
    exact hact _ "add_item" hdirect
  · rw [if_neg hgain] at hdirect ⊢
    exact hact _ "remove_item" hdirect

theorem run_trades {trades : List Trade} (h : Trading L s trades) (hs : s.Stocks counts) :
    ∃ s', (execBlock L (trades.map Trade.stmt)).run s = (.ok .normal, s') ∧
      s'.Stocks (trades.foldl Trade.apply counts) := by
  induction h generalizing counts with
  | nil => exact ⟨_, rfl, hs⟩
  | cons ht _ ih =>
    obtain ⟨s₁, hrun, hs₁⟩ := run_trade hs ht
    rw [hrun] at ih
    obtain ⟨s', hrest, hs'⟩ := ih hs₁
    refine ⟨s', ?_, hs'⟩
    rw [List.map_cons, execBlock, bind_ok hrun]
    exact hrest

/-- From an empty store on, every statement that gives an item or takes it away changes the
    count of that item and no other. What is taken away stops at zero. What is given is added as
    it is, so no count is ever negative if and only if no statement gives so much less than
    nothing that the sum is. -/
theorem item_counts (L : Linker) {s : Session} {trades : List Trade}
    (hhost : s.hosts.storeHost = .world) (hempty : s.hosts.world.store = ∅)
    (h : Trading L s trades) :
    (∀ n, ∃ s', (execBlock L ((trades.take n).map Trade.stmt)).run s = (.ok .normal, s') ∧
      ∀ item, (World.itemCount .main (.text item)).run s' =
        (.ok (.int (Trade.tally (trades.take n) item)), s')) ∧
    (∀ n t, trades[n]? = some t → ∀ item, Trade.tally (trades.take (n + 1)) item =
      if item ≠ t.item then Trade.tally (trades.take n) item
      else if t.gain then Trade.tally (trades.take n) item + t.amount
      else max 0 (Trade.tally (trades.take n) item - t.amount)) ∧
    ((∀ n item, 0 ≤ Trade.tally (trades.take n) item) ↔
      ∀ n t, trades[n]? = some t → t.gain = true →
        0 ≤ Trade.tally (trades.take n) t.item + t.amount) := by
  have hs : s.Stocks fun _ => 0 := by
    refine ⟨hhost, fun item => ?_⟩
    change (s.hosts.world.store.get? _).getD _ = _
    rw [hempty]
    rfl
  refine ⟨fun n => ?_, fun n t ht item => ?_, Trade.tally_nonneg_iff⟩
  · obtain ⟨s', hrun, hs'⟩ := run_trades (h.take n) hs
    exact ⟨s', hrun, run_itemCount hs'⟩
  · rw [Trade.tally_take_succ ht, Trade.apply]
    by_cases hitem : item = t.item
    · rw [if_neg (not_not.mpr hitem), hitem, Function.update_self, Trade.total]
    · rw [if_pos hitem, Function.update_of_ne hitem]

/-- Five are given, seven are taken, one is given back with a minus. -/
theorem item_counts_potions :
    let L : Linker := .ofDepth 0
    let number (n : Int) : Expr := .number ⟨1, 1⟩ (.int n)
    let trades : List Trade := [⟨⟨1, 1⟩, true, "potion", number 5, 5⟩,
      ⟨⟨2, 1⟩, false, "potion", number 7, 7⟩, ⟨⟨3, 1⟩, false, "herb", number (-2), -2⟩]
    ∃ s', (execBlock L (trades.map Trade.stmt)).run {} = (.ok .normal, s') ∧
      (World.itemCount .main (.text "potion")).run s' = (.ok (.int 0), s') ∧
      (World.itemCount .main (.text "herb")).run s' = (.ok (.int 2), s') := by
  intro L number trades
  have h : Trading L {} trades := .cons ⟨_, rfl, rfl, fun _ => rfl⟩
    (.cons ⟨_, rfl, rfl, fun _ => rfl⟩ (.cons ⟨_, rfl, rfl, fun _ => rfl⟩ .nil))
  obtain ⟨s', hrun, hcount⟩ := (item_counts L rfl rfl h).1 3
  exact ⟨s', hrun, hcount "potion", hcount "herb"⟩

/-- Giving minus five potions leaves minus five of them. -/
theorem item_counts_below_zero :
    ((do
      let _ ← exec (.ofDepth 0) (.command ⟨1, 1⟩ (.party (.addItem "potion" (.number ⟨1, 1⟩ (.int (-5))))))
      World.itemCount .main (.text "potion") : Run Number).run {}).1 = .ok (.int (-5)) := rfl

end Run
end Parlance
