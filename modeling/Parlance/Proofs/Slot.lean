import Parlance.Engine.Exec

/-!
# Places of a Store

A store keeps values under keys and in the rows of tables. Games and the numbers of
items are kept under keys of their own, so a key or a row is all there is.

## Main definitions

* `Slot`: A place of a store: a key, or a row of a table.
* `World.mayWrite`: Whether a call on the world by this name may write to its store.

## Theorems

* `World.held?_insert_data`: Data that is written leaves the other slots alone.
* `World.held?_erase_data`: Data that is deleted leaves the other slots alone.
* `World.held?_insert_record`: A record that is written leaves the other slots alone.
-/

namespace Parlance

/-- A place of a store: a key, or a row of a table. -/
inductive Slot where
  | data (key : String)
  | record (table id : String)
deriving DecidableEq

def Slot.item (name : String) : Slot := .data ("inv:" ++ name)

def Slot.game (name : String) : Slot := .data ("game:" ++ name)

namespace World

def held? (w : World) : Slot → Option Value
  | .data key => w.store.get? key
  | .record table id => ((w.records.get? table).getD ∅).get? id

def writers : List String :=
  ["save_data", "delete_data", "add_item", "remove_item", "save_record", "delete_record",
    "save_game"]

/-- Whether a call on the world by this name may write to its store. -/
def mayWrite (name : String) : Bool := writers.contains name || name == "call_function"

section Entries
variable (w : World) {k : Slot} {key table id : String}

/-- Data that is written leaves the other slots alone. -/
theorem held?_insert_data (h : k ≠ .data key) (v : Value) :
    { w with store := w.store.insert key v }.held? k = w.held? k := by
  cases k with
  | data key' => exact w.store.get?_insert_of_ne (fun hk => h (congrArg Slot.data hk)) v
  | record table id => rfl

/-- Data that is deleted leaves the other slots alone. -/
theorem held?_erase_data (h : k ≠ .data key) :
    { w with store := w.store.erase key }.held? k = w.held? k := by
  cases k with
  | data key' => exact w.store.get?_erase_of_ne (fun hk => h (congrArg Slot.data hk))
  | record table id => rfl

/-- A record that is written leaves the other slots alone. -/
theorem held?_insert_record (h : k ≠ .record table id) {rows : Dict Value}
    (hrows : ∀ id', id' ≠ id → rows.get? id' = ((w.records.get? table).getD ∅).get? id') :
    { w with records := w.records.insert table rows }.held? k = w.held? k := by
  cases k with
  | data key => rfl
  | record table' id' =>
    simp only [held?]
    by_cases htable : table' = table
    · subst htable
      rw [Dict.get?_insert_self, Option.getD_some]
      exact hrows id' fun hid => h (congrArg (Slot.record table') hid)
    · rw [w.records.get?_insert_of_ne htable]

end Entries
end World

/-! ### Commands that write -/

def PartyCommand.writes (k : Slot) : PartyCommand → Bool
  | .addItem item _ | .removeItem item _ => k == .item item
  | _ => false

def StoreCommand.writes (k : Slot) : StoreCommand → Bool
  | .saveData key _ | .deleteData key => k == .data key
  | .saveRecord id table _ | .deleteRecord id table => k == .record table id
  | .saveGame slot => k == .game slot
  | _ => false

def ScriptCommand.writes (_ : Slot) : ScriptCommand → Bool
  | .callHost name _ => World.mayWrite name
  | _ => false

def Command.writes (k : Slot) : Command → Bool
  | .party c => c.writes k
  | .store c => c.writes k
  | .script c => c.writes k
  | _ => false

def Stmt.writes (k : Slot) : Stmt → Bool
  | .command _ c | .awaiting _ _ c => c.writes k
  | _ => false

def Hosts.saved? (h : Hosts) (k : Slot) : Option Value :=
  match h.storeHost with
  | .world => h.world.held? k
  | .separate => h.separate.held? k
  | .absent | .bare => none

def Session.saved? (s : Session) (k : Slot) : Option Value := s.hosts.saved? k

end Parlance
