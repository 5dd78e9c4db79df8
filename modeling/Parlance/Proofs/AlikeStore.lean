import Parlance.Proofs.Alike

/-!
# Writing to the Store

An operation of a store writes to one slot at most, and keeps all others. Which slot
it is shows in its arguments, which are texts in every command.

## Theorems

* `World.alike_change`: A change of a world leaves alone what it keeps in its place.
* `World.run_read`: Looking at a world changes nothing.
* `World.quiet_keep`: An operation of the store that is no writer changes nothing in it.
* `Run.quiet_askStore`: An operation that writes nothing leaves no trace in the store.
-/

namespace Parlance
variable {R : Regime} {whole : Bool}

namespace World
open Run
variable {which : Which} {name : String} {args : List Value} {v : Value}

/-- A change of a world leaves alone what it keeps in its place. -/
theorem alike_change {f : World → World} (hf : ∀ w k, R.spared k → (f w).held? k = w.held? k) :
    Obeys R whole (change which f) where
  run _ _ _ := ⟨rfl, (kept_change fun k => hf _ k).of_whole, fun _ => nofun, .of_eq mark_change⟩

theorem alike_putData {key : String} (h : ∀ k, R.spared k → k ≠ .data key) :
    Obeys R whole (putData which key v) :=
  alike_change fun w k hk => w.held?_insert_data (h k hk) v

/-- Looking at a world changes nothing. -/
theorem run_read (s : Session) : (read which).run s = (.ok (which.world s.hosts), s) := rfl

theorem alike_keep_of_loose (hloose : ∀ k, ¬ R.spared k) :
    Obeys R whole (keep which name args) := by
  have hchange {f : World → World} : Obeys R whole (change which f) :=
    alike_change fun w k hk => absurd hk (hloose k)
  unfold keep putData
  split
  case h_9 =>
    refine .next fun t => .next fun i =>
      .next fun here => ?_
    split <;> infer_instance
  case h_11 =>
    refine .next fun slot => .next fun here => ?_
    split <;> infer_instance
  all_goals infer_instance

/-- An operation of the store that is no writer changes nothing in it. -/
theorem quiet_keep (h : name ∉ writers) : Quiet (keep which name args) := by
  unfold keep
  split
  case h_1 | h_3 | h_4 | h_5 | h_7 | h_9 | h_10 => exact absurd (by decide) h
  case h_11 =>
    refine .next fun slot => .next fun here => ?_
    split <;> infer_instance
  all_goals infer_instance

/-! ### The operations that write -/

theorem key_text (s : String) : key (.text s) = pure s := rfl

theorem textArg_text (s : String) : textArg (.text s) = pure s := rfl

section Data
variable {key : String}

theorem alike_keep_saveData (h : ∀ k, R.spared k → k ≠ .data key) :
    Obeys R whole (keep which "save_data" [.text key, v]) := by
  have hput (v : Value) : Obeys R whole (putData which key v) := alike_putData h
  change Obeys R whole (do putData which key (← plain v); return Value.null)
  infer_instance

theorem alike_keep_deleteData (h : ∀ k, R.spared k → k ≠ .data key) :
    Obeys R whole (keep which "delete_data" [.text key]) := by
  have herase : Obeys R whole (change which fun w => { w with store := w.store.erase key }) :=
    alike_change fun w k hk => w.held?_erase_data (h k hk)
  change Obeys R whole (do change which fun w => { w with store := w.store.erase key }; return Value.null)
  infer_instance

theorem alike_keep_addItem (h : ∀ k, R.spared k → k ≠ .item key) :
    Obeys R whole (keep which "add_item" [.text key, v]) := by
  have hput (v : Value) : Obeys R whole (putData which ("inv:" ++ key) v) := alike_putData h
  change Obeys R whole (do
    putData which ("inv:" ++ key) (← plus (.number (← itemCount which (.text key))) v); return Value.null)
  infer_instance

theorem alike_keep_removeItem (h : ∀ k, R.spared k → k ≠ .item key) :
    Obeys R whole (keep which "remove_item" [.text key, v]) := by
  have hput (v : Value) : Obeys R whole (putData which ("inv:" ++ key) v) := alike_putData h
  simp only [keep, textArg_text, pure_bind]
  infer_instance

theorem alike_keep_saveGame (h : ∀ k, R.spared k → k ≠ .game key) :
    Obeys R whole (keep which "save_game" [.text key, v]) := by
  have hput (v : Value) : Obeys R whole (putData which ("game:" ++ key) v) := alike_putData h
  change Obeys R whole (do putData which ("game:" ++ key) (← plain v); return Value.null)
  infer_instance

end Data

section Records
variable {table id : String}

theorem alike_keep_saveRecord (h : ∀ k, R.spared k → k ≠ .record table id) :
    Obeys R whole (keep which "save_record" [.text table, .text id, v]) := by
  have hchange (v : Value) : Obeys R whole
      (change which fun w => { w with
        records := w.records.insert table (((w.records.get? table).getD ∅).insert id v) }) :=
    alike_change fun w k hk => w.held?_insert_record (h k hk) fun _ hid =>
      Dict.get?_insert_of_ne _ hid v
  simp only [keep, key_text, pure_bind]
  infer_instance

theorem alike_keep_deleteRecord (h : ∀ k, R.spared k → k ≠ .record table id) :
    Obeys R whole (keep which "delete_record" [.text table, .text id]) := by
  simp only [keep, key_text, pure_bind]
  refine ⟨fun s _ _ => (AlikeAt.of_quiet within_read).bind fun here s' _ hrun => ?_⟩
  rw [run_read] at hrun
  cases hrun
  rcases hrows : (which.world s.hosts).records.get? table with _ | rows
  · exact .of_quiet inferInstance
  · have hchange : AlikeAt R whole
        (change which fun w => { w with records := w.records.insert table (rows.erase id) })
        (change which fun w => { w with records := w.records.insert table (rows.erase id) }) s := by
      refine ⟨rfl, (kept_change fun k hk => ?_).of_whole, fun _ => nofun, .of_eq mark_change⟩
      refine held?_insert_record _ (h k hk) fun id' hid => ?_
      rw [hrows]
      exact rows.get?_erase_of_ne hid
    exact hchange.bind fun _ _ _ _ => .of_quiet inferInstance

end Records
end World

namespace Run
variable {name : String} {args : List Value}

theorem alike_askStore (h : ∀ which, Obeys R whole (World.keep which name args)) :
    Obeys R whole (askStore name args) := by
  refine .next fun s => ?_
  split <;> infer_instance

/-- An operation that writes nothing leaves no trace in the store. -/
theorem quiet_askStore (h : name ∉ World.writers) : Quiet (askStore name args) := by
  have hkeep (which : World.Which) : Quiet (World.keep which name args) := World.quiet_keep h
  refine .next fun s => ?_
  split <;> infer_instance

instance : Quiet (askStore "item_count" args) := quiet_askStore (by decide)
instance : Quiet (askStore "load_data" args) := quiet_askStore (by decide)
instance : Quiet (askStore "load_record" args) := quiet_askStore (by decide)
instance : Quiet (askStore "load_game" args) := quiet_askStore (by decide)

end Run
end Parlance
