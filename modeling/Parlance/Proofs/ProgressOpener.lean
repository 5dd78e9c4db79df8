import Parlance.Proofs.Magnitude
import Parlance.Proofs.ProgressValue

/-!
# Progress on Statements without Bodies

The words that open statements are listed in tables, one for each domain of commands. A row's
reader is a short text over names, values and conditions, so one fact for each table covers its
rows: whatever opens a statement there is calm after the word.

Definitions of data work out constants while they are read, and `flash` works out the channels
of a colour. These are the only defects of a reader, and they have causes: `Causes.constant` and
`Causes.channel`.

## Main definitions

* `Reader.Causes.color`: One of the next channels is out of range, and those before it are not.

## Theorems

* `Overflows.fold`: Folding an expression fails for the size of a number only.
* `Reader.stops_bind`: A sequence stops where its first step does or where the second does after
  it.
* `Opener.stops_flash`: Where the reader of a flash stops for a number.
-/

namespace Parlance
variable {e : Expr}

/-! ### Constants -/

namespace Overflows

instance foldBinary {op : Operator} {a b : Number} : Overflows (Number.foldBinary op a b) := by
  unfold Number.foldBinary Number.sub Number.mul
  split <;> infer_instance

/-- Folding an expression fails for the size of a number only. -/
instance fold : Overflows e.fold := by
  fun_induction Expr.fold e <;> infer_instance

instance foldNumber : Overflows e.foldNumber := bind

end Overflows

theorem Expr.fold_of_foldNumber {d : Defect} (h : e.foldNumber = .error d) : e.fold = .error d := by
  cases hfold : e.fold with
  | error d' =>
    rw [foldNumber, hfold] at h
    cases h
    rfl
  | ok j =>
    rw [foldNumber, hfold] at h
    cases h

namespace Reader
namespace Causes

def fold (e : Expr) : Causes := fun _ d => e.fold = .error d

def constant : Causes := fun c d => ∃ e c', value.run c = (.ok e, c') ∧ e.fold = .error d

def channel : Causes := fun c d => Opener.channelOf (c.peek 0).number = .error d

def number : Causes := fun c d => constant c d ∨ channel c d

/-- One of the next channels is out of range, and those before it are not. Channels are
    numbers in a row, at most so many. -/
def color : Nat → Causes
  | 0, _, _ => False
  | n + 1, c, d => (c.peek 0).kind = .number ∧
    (Opener.channelOf (c.peek 0).number = .error d ∨
      ∃ k, Opener.channelOf (c.peek 0).number = .ok k ∧ color n c.next d)

theorem channel_of_color {n : Nat} {c : Cursor} {d : Defect} (h : color n c d) :
    channel.From c d := by
  induction n generalizing c with
  | zero => exact h.elim
  | succ n ih =>
    rcases h.2 with hchannel | ⟨k, -, hcolor⟩
    · exact from_of hchannel
    · obtain ⟨c₁, htokens, hle, hd⟩ := ih hcolor
      exact ⟨c₁, htokens.trans c.tokens_next, Nat.le_trans c.le_next hle, hd⟩

end Causes

def Stops {α : Type} (r : Reader α) (c : Cursor) (d : Defect) : Prop :=
  ∃ c', r.run c = (.error (.defect d), c')

variable {α β : Type} {m : Nat}

/-- A sequence stops where its first step does or where the second does after it. -/
theorem stops_bind {x : Reader α} {f : α → Reader β} {c : Cursor} {d : Defect} :
    Stops (x >>= f) c d ↔ Stops x c d ∨ ∃ a c₁, x.run c = (.ok a, c₁) ∧ Stops (f a) c₁ d := by
  constructor
  · rintro ⟨c', hrun⟩
    rcases hx : x.run c with ⟨o | a, c₁⟩
    · rw [bind_error hx] at hrun
      cases hrun
      exact .inl ⟨c', hx⟩
    · rw [bind_ok hx] at hrun
      exact .inr ⟨a, c₁, rfl, c', hrun⟩
  · rintro (⟨c', hx⟩ | ⟨a, c₁, hx, c', hrun⟩)
    · exact ⟨c', bind_error hx⟩
    · exact ⟨c', (bind_ok hx).trans hrun⟩

theorem Calm.not_stops {r : Reader α} [h : Calm m r] {c : Cursor} {e : Nat} {d : Defect}
    (hc : c.Ends e) (he : e < c.index + m) : ¬Stops r c d :=
  fun ⟨_, hrun⟩ => ((h.run hc he hrun).caused d rfl).elim

instance : Progress (.fold e) m (fun _ => False) (lift e.fold) :=
  progress_lift Overflows.fold.finite fun _ _ hd => hd

instance : Progress (.fold e) m (fun _ => False) (lift e.foldNumber) :=
  progress_lift Overflows.foldNumber.finite fun _ _ hd => Expr.fold_of_foldNumber hd

instance {f : Expr → Reader β} {Q : β → Prop}
    [hf : ∀ e, Progress (.fold e) m (fun _ => False) (f e)] :
    Progress .constant m Q (value >>= f) :=
  Moves.bind_caused moves_value hf fun _ e c₁ _ hrun ⟨_, _, _, hd⟩ =>
    Causes.from_of ⟨e, c₁, hrun, hd⟩

end Reader

namespace Opener
open Reader
variable {m n : Nat} {p : Position} {w : String} {o : Opener} {c : Cursor} {d : Defect} {N : Causes}

set_option synthInstance.maxSize 4000

instance {c : Command} : Calm m (give p c) := by
  unfold give
  infer_instance

instance : Calm m nothing := by
  unfold nothing
  infer_instance

instance : Calm m passAssign := bind_calm

theorem calm_bag? (h : bag? w = some o) : Calm m (o p) := by
  delta bag? letVariable setVariable change assigned construct at h
  split at h <;> cases h <;> infer_instance

/-! ### Collections and texts -/

instance : Moves m result := bind_calm
instance : Calm m transformInline := bind_calm

instance {list item : String} : Calm m (transformTo p list item) := by
  refine Calm.bind inferInstance fun o => ?_
  split <;> infer_instance

theorem calm_collection? (h : collection? w = some o) : Calm m (o p) := by
  delta collection? append sort filter merge flatten find obtainPart slice entries indexOf transform
    quantify copy combine filterCondition at h
  split at h <;> cases h <;> infer_instance

theorem calm_text? (h : text? w = some o) : Calm m (o p) := by
  delta text? charAt pad clamp typeOf path readJson writeJson split replace convert pattern test
    extract flags at h
  split at h <;> cases h <;> infer_instance

/-! ### The stage -/

instance {default : Expr} : Calm m (numberOr default) := bind_calm

theorem channelOf_ne_endless (n : Number) : channelOf n ≠ .error .endless := by
  unfold channelOf
  intro h
  cases hadd : n.normal.add (.float 0.5) with
  | error d =>
    rw [hadd] at h
    cases h
    exact Overflows.add.finite hadd
  | ok a =>
    rw [hadd] at h
    rcases a with n | x
    · cases h
    · dsimp only [bind, Except.bind] at h
      split at h
      · cases h
      · split at h <;> cases h

instance : Progress .channel m (fun _ => False) channel where
  run {c e out c'} hc he hrun := by
    have hlift : Progress (fun _ d => channelOf (c.peek 0).number = .error d) (m + 1)
        (fun _ => False) (lift (channelOf (c.peek 0).number)) :=
      progress_lift (channelOf_ne_endless _) fun _ _ hd => hd
    rw [channel, bind_ok (run_advance c)] at hrun
    have hmoved := hc.moved_next
    have hle := hmoved.le
    have h := hlift.run (hc.moved hmoved) (by omega) hrun
    refine ⟨hmoved.trans h.moved, h.faults.trans c.faults_next, h.located, h.finite, ?_,
      fun _ _ hf => hf.elim⟩
    intro d hd
    obtain ⟨_, _, _, hchannel⟩ := h.caused d hd
    exact Causes.from_of hchannel

instance progress_flashColor : Progress .channel m (fun _ => False) (flashColor p) := bind_calm
instance progress_flash : Progress .channel m (fun _ => False) (flash p) := bind_calm

theorem run_channel (c : Cursor) :
    channel.run c = match channelOf (c.peek 0).number with
      | .ok n => (.ok n, c.next)
      | .error d => (.error (.defect d), c.next) := by
  rw [channel, bind_ok (run_advance c)]
  cases channelOf (c.peek 0).number <;> rfl

theorem stops_channel : Stops channel c d ↔ channelOf (c.peek 0).number = .error d := by
  unfold Stops
  rw [run_channel]
  cases channelOf (c.peek 0).number with
  | error d' =>
    constructor
    · rintro ⟨c', hrun⟩
      cases hrun
      rfl
    · intro h
      cases h
      exact ⟨c.next, rfl⟩
  | ok n => exact iff_of_false (fun ⟨_, hrun⟩ => by cases hrun) nofun

theorem run_channel_ok {c' : Cursor} :
    channel.run c = (.ok n, c') ↔ channelOf (c.peek 0).number = .ok n ∧ c' = c.next := by
  rw [run_channel]
  cases channelOf (c.peek 0).number with
  | error d => exact iff_of_false (fun hrun => by cases hrun) nofun
  | ok n' =>
    constructor
    · intro hrun
      cases hrun
      exact ⟨rfl, rfl⟩
    · rintro ⟨h, rfl⟩
      cases h
      rfl

theorem stops_channel_bind {β : Type} {k : Nat → Reader β} (hkind : (c.peek 0).kind = .number)
    (hk : ∀ a, Stops (k a) c.next d ↔ Causes.color n c.next d) :
    Stops (channel >>= k) c d ↔ Causes.color (n + 1) c d := by
  rw [stops_bind, stops_channel, Causes.color]
  simp only [run_channel_ok, hkind, true_and]
  refine or_congr_right ⟨?_, ?_⟩
  · rintro ⟨a, _, ⟨ha, rfl⟩, hstops⟩
    exact ⟨a, ha, (hk a).mp hstops⟩
  · rintro ⟨a, ha, hcolor⟩
    exact ⟨a, c.next, ⟨ha, rfl⟩, (hk a).mpr hcolor⟩

theorem stops_channelOr {β : Type} {k : Nat → Reader β}
    (hk : ∀ a c', Stops (k a) c' d ↔ Causes.color n c' d) :
    Stops (do
      let a ← if ← seesKind .number then channel else pure 255
      k a) c d ↔ Causes.color (n + 1) c d := by
  have hsees : (seesKind .number).run c = (.ok ((c.peek 0).kind == .number), c) := rfl
  have hrun {r : Bool → Reader β} : Stops (seesKind .number >>= r) c d ↔
      Stops (r ((c.peek 0).kind == .number)) c d := by
    unfold Stops
    rw [bind_ok hsees]
  rw [hrun]
  by_cases hkind : (c.peek 0).kind = .number
  · rw [if_pos (beq_iff_eq.mpr hkind)]
    exact stops_channel_bind hkind fun a => hk a c.next
  · rw [if_neg (by rwa [beq_iff_eq]), Causes.color]
    refine (hk 255 c).trans (iff_of_false ?_ fun h => hkind h.1)
    cases n with
    | zero => exact id
    | succ n => exact fun h => hkind h.1

theorem stops_flashColor {e : Nat} (hc : c.Ends e) :
    Stops (flashColor p) c d ↔ Causes.color 3 c d := by
  have hsees (k : Token.Kind) : (seesKind k).run c = (.ok ((c.peek 0).kind == k), c) := rfl
  have hpure {a : Expr} {c' : Cursor} : ¬Stops (pure a : Reader Expr) c' d := by
    rintro ⟨c₁, hrun⟩
    cases hrun
  unfold flashColor
  by_cases htext : (c.peek 0).kind = .text
  · refine iff_of_false ?_ fun h => absurd (h.1.symm.trans htext) (by decide)
    rintro ⟨c', hrun⟩
    rw [bind_ok (hsees _), if_pos (beq_iff_eq.mpr htext)] at hrun
    exact Calm.not_stops (m := e + 1) (r := value) hc (by omega) ⟨c', hrun⟩
  by_cases hkind : (c.peek 0).kind = .number
  · have hrun : Stops (flashColor p) c d ↔ Stops (do
        let red ← channel
        let green ← if ← seesKind .number then channel else pure 255
        let blue ← if ← seesKind .number then channel else pure 255
        pure (Expr.text p ("#" ++ hexPair red ++ hexPair green ++ hexPair blue))) c d := by
      unfold Stops flashColor
      rw [bind_ok (hsees _), if_neg (by rwa [beq_iff_eq]), bind_ok (hsees _), hkind]
      rfl
    refine hrun.trans (stops_channel_bind hkind fun red => ?_)
    refine stops_channelOr fun green c' => stops_channelOr fun blue c' => ?_
    exact iff_of_false hpure id
  · refine iff_of_false ?_ fun h => hkind h.1
    rintro ⟨c', hrun⟩
    rw [bind_ok (hsees _), if_neg (by rwa [beq_iff_eq]), bind_ok (hsees _),
      beq_false_of_ne hkind] at hrun
    cases hrun

/-- Where the reader of a flash stops for a number. -/
theorem stops_flash {e : Nat} (hc : c.Ends e) : Stops (flash p) c d ↔ Causes.color 3 c d := by
  rw [← stops_flashColor (p := p) hc, flash, stops_bind]
  refine or_iff_left ?_
  rintro ⟨a, c₁, hcolor, hstops⟩
  have hmoved := ((progress_flashColor (m := e + 1)).run hc (by omega) hcolor).moved
  have hle := hmoved.le
  exact Calm.not_stops (m := e + 1) (hc.moved hmoved) (by omega) hstops

instance : Calm m (apply p) := by
  refine Calm.bind inferInstance fun kind => ?_
  dsimp only
  split <;> infer_instance

instance : Calm m (openWindow p) := by
  refine Calm.bind inferInstance fun what => ?_
  split <;> infer_instance

theorem calm_stage? (h : stage? w = some o) (hflash : w ≠ "flash") : Calm m (o p) := by
  delta stage? move teleport spawn act play stop shake tint log wait say emit gameState turn
    toggle at h
  split at h <;> cases h <;> first | infer_instance | exact absurd rfl hflash

/-! ### Characters -/

instance : Calm m (seesPartyAfter w) := bind_calm
instance {change : PartyChange} : Calm m (member change p) := bind_calm
instance {make : Expr → PartyCommand} : Calm m (amountThenUnit p make) := bind_calm
instance : Calm m byOrTo := bind_calm
instance {make : String → Expr → Bool → PartyCommand} : Calm m (changeOf p make) := bind_calm

instance : Calm m (changeWorld p) := by
  refine Calm.bind inferInstance fun what => ?_
  split <;> infer_instance

theorem calm_party? (h : party? w = some o) : Calm m (o p) := by
  delta party? battle attack add bestow remove equip heal recover skill addItem quantity removeItem
    at h
  split at h <;> cases h <;> infer_instance

/-! ### Data definitions -/

instance : Progress .constant m (fun _ => True) constant := by
  unfold constant
  infer_instance

instance : Progress .constant m (fun _ => True) constantNumber := by
  unfold constantNumber
  infer_instance

instance : Progress .constant m (fun _ => False) statistics := by
  refine Calm.bind (calm_loop (h := Calm.bind inferInstance fun t => ?_))
    fun entries => inferInstance
  split <;> infer_instance

instance {props : Dict Json} : Progress .constant m (fun _ => True) (property props) := by
  refine Moves.bind inferInstance (Nat.le_succ m) fun key => ?_
  split <;> infer_instance

instance : Progress .constant m (fun _ => True) turnEffect := by
  unfold turnEffect turnEffect.message
  refine Moves.bind inferInstance (Nat.le_succ m) fun what => ?_
  split <;> infer_instance

theorem calm_dataTurns {σ : Type} {step : σ → Reader σ}
    (h : ∀ s, Progress N m (fun _ => True) (step s)) (n : Nat) (s : σ) :
    Progress N (min m n) (fun _ => False) (dataTurns step n s) := by
  induction n generalizing s with
  | zero => exact Progress.zero.mono (Nat.min_le_right _ _)
  | succ n ih =>
    rw [dataTurns]
    refine Calm.bind inferInstance fun b => Calm.bind inferInstance fun b' => ?_
    split
    · infer_instance
    · exact Moves.bind ((h s).mono (Nat.min_le_left _ _)) (n := min m n) (by omega) ih

instance {σ : Type} {step : σ → Reader σ} [h : ∀ s, Progress N m (fun _ => True) (step s)] {s : σ} :
    Progress N m (fun _ => False) (untilDataEnd step s) :=
  progress_budget fun n => calm_dataTurns h n s

instance {parts : Dict Json × List TurnEffect} :
    Progress .constant m (fun _ => True) (statusPart parts) := bind_moves

instance {kind : String} : Progress .constant m (fun _ => False) (defineData kind p) := bind_calm
instance : Progress .constant m (fun _ => False) (defineZone p) := bind_calm
instance : Progress .constant m (fun _ => False) (defineStatus p) := bind_calm

/-! ### What is kept, the machine and services -/

theorem calm_store? (h : store? w = some o) : Calm m (o p) := by
  delta store? load save delete slot at h
  split at h <;> cases h <;> infer_instance

instance : Calm m (server p) := bind_calm
instance : Calm m seesServer := bind_calm

theorem calm_system? (h : system? w = some o) : Calm m (o p) := by
  delta system? readFile writeFile exit run shell listFiles fileExists create at h
  split at h <;> cases h <;> infer_instance

instance : Calm m fetchCommand := bind_calm
instance : Calm m (response p) := bind_calm
instance : Calm m intoTable := bind_calm

instance : Calm m (insert p) := by
  refine Calm.bind inferInstance fun table => ?_
  split <;> infer_instance

instance : Calm m columns := bind_calm

theorem calm_service? (h : service? w = some o) : Calm m (o p) := by
  delta service? start post send serve respond connect broadcast query select at h
  split at h <;> cases h <;> infer_instance

/-! ### Calls, modules and errors -/

instance : Calm m importedNames := bind_calm

instance : Calm m (importModule p) := by
  refine Calm.bind inferInstance fun names => ?_
  split <;> infer_instance

theorem calm_script? (h : script? w = some o) : Calm m (o p) := by
  delta script? call raiseError callCommand at h
  split at h <;> cases h <;> infer_instance

/-! ### Statements and parts of statements without bodies -/

instance : Calm m (giveBack p) := bind_calm
instance : Calm m errorName := bind_calm
instance : Calm m caseTest := bind_calm
instance : Calm m labels := bind_calm
instance : Steps m parameter := bind_calm
instance : Calm m methodParams := bind_calm
instance : Calm m (defineSprite p) := bind_calm

instance : Calm m (defineAnimation p) := by
  have hframe : Steps m (do
      if ← seesKind .number then return .item (← advance).number else return .stop) := by
    refine progress_seesKind (by decide) (fun t => calm_pure) steps_stop
  unfold defineAnimation
  infer_instance

instance : Calm m (ending p) := bind_calm
instance {ahead : Nat} : Calm m (seesRoute ahead) := bind_calm

instance : Calm m (await p) := by
  unfold await callCommand
  infer_instance

end Opener
end Parlance
