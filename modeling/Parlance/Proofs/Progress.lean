import Parlance.Grammar.Name
import Parlance.Proofs.Reader

/-!
# Progress of Readers

A cursor never goes past the first end mark. A reader that looks for a word would take an end
mark with that content, and yet the cursor stays there; a script gives its end marks no
content, and `Cursor.Ends` asks for that.

Loops and nested readers have a bound on their turns that exceeds the number of tokens before
the end mark. So a loop is cut off only if one of its turns takes no token and yet goes on.
`Reader.Progress` says that a reader is well behaved as long as fewer than `m` tokens stand
before the end mark, and names the results with which it must have taken a token: none of
them (`Calm`), all of them (`Moves`), or those with which a loop goes on (`Steps`).

## Main definitions

* `Cursor.Ends`: The first end mark from the cursor on stands at this place, and it has no
  content.
* `Cursor.Moved`: The second cursor is the first one moved on, at most to this place.
* `Reader.Causes`: The defects that may come up, each at the cursors where it may.
* `Reader.Calmly`: What a reader without bodies may do: it moves the cursor on, at most to the end
  mark, notes no fault, fails at the token where it stops or with a defect that has a cause, and
  is never cut off.
* `Reader.Progress`: With fewer than `m` tokens before the end mark, the reader does what a reader
  without bodies may do.

## Theorems

* `Reader.Calmly.bind`: Readers in sequence, where the first or the second makes the progress.
* `Reader.Progress.bind`: Where the first part took a token the second part need not, and it has
  one token fewer to deal with.
* `Reader.Calm.bind`: After a reader that need not move on, the second must do what is asked.
* `Reader.Moves.bind`: Once the first reader has moved on, the second need not.
-/

namespace Parlance
open Token

/-! ### Cursors before an end mark -/

namespace Cursor

/-- The first end mark from the cursor on stands at this place, and it has no
    content. -/
structure Ends (c : Cursor) (e : Nat) : Prop where
  le : c.index ≤ e
  mark : ∃ t, c.tokens[e]? = some t ∧ t.isFinish = true ∧ ∀ w, t.content ≠ .text w
  clear : ∀ i t, c.index ≤ i → i < e → c.tokens[i]? = some t → t.isFinish = false

/-- The second cursor is the first one moved on, at most to this place. -/
structure Moved (e : Nat) (c c' : Cursor) : Prop where
  tokens : c'.tokens = c.tokens
  le : c.index ≤ c'.index
  bound : c'.index ≤ e

variable {c c' c'' : Cursor} {e : Nat}

theorem Moved.refl (h : c.Ends e) : Moved e c c := ⟨rfl, Nat.le_refl _, h.le⟩

theorem Moved.trans (h : Moved e c c') (h' : Moved e c' c'') : Moved e c c'' :=
  ⟨h'.tokens.trans h.tokens, Nat.le_trans h.le h'.le, h'.bound⟩

theorem Ends.moved (h : c.Ends e) (hm : Moved e c c') : c'.Ends e where
  le := hm.bound
  mark := by
    rw [hm.tokens]
    exact h.mark
  clear i t hi he ht := by
    rw [hm.tokens] at ht
    exact h.clear i t (Nat.le_trans hm.le hi) he ht

theorem Ends.getElem?_index (h : c.Ends e) : c.tokens[c.index]? = some (c.peek 0) := by
  obtain ⟨t, ht, -, -⟩ := h.mark
  have hlt : c.index < c.tokens.size :=
    Nat.lt_of_le_of_lt h.le (Array.getElem?_eq_some_iff.mp ht).1
  rw [peek, Nat.add_zero, Array.getElem?_eq_getElem hlt]
  rfl

theorem Ends.isFinish_iff (h : c.Ends e) : (c.peek 0).isFinish = true ↔ c.index = e := by
  have hpeek := h.getElem?_index
  constructor
  · intro hfinish
    rcases Nat.lt_or_eq_of_le h.le with hlt | heq
    · rw [h.clear c.index _ (Nat.le_refl _) hlt hpeek] at hfinish
      exact absurd hfinish (by decide)
    · exact heq
  · rintro rfl
    obtain ⟨t, ht, hfinish, -⟩ := h.mark
    rw [hpeek, Option.some.injEq] at ht
    rw [ht, hfinish]

theorem Ends.lt_of_text (h : c.Ends e) {w : String} (hw : (c.peek 0).content = .text w) :
    c.index < e := by
  refine Nat.lt_of_le_of_ne h.le fun heq => ?_
  obtain ⟨t, ht, -, hplain⟩ := h.mark
  rw [← heq, h.getElem?_index, Option.some.injEq] at ht
  exact hplain w (ht ▸ hw)

theorem Ends.lt_of_readsAny (h : c.Ends e) {ws : List String}
    (hws : (c.peek 0).readsAny ws = true) : c.index < e := by
  cases hcontent : (c.peek 0).content
  case text => exact h.lt_of_text hcontent
  all_goals simp [Token.readsAny, hcontent, Token.Content.isOneOf] at hws

theorem Ends.lt_of_reads (h : c.Ends e) {w : String} (hw : (c.peek 0).reads w = true) :
    c.index < e := by
  cases hcontent : (c.peek 0).content
  case text => exact h.lt_of_text hcontent
  all_goals simp [Token.reads, hcontent, Token.Content.isText] at hw

theorem Ends.lt_of_not_finish (h : c.Ends e) (hf : (c.peek 0).isFinish = false) : c.index < e := by
  refine Nat.lt_of_le_of_ne h.le fun heq => ?_
  rw [h.isFinish_iff.mpr heq] at hf
  exact absurd hf (by decide)

theorem Ends.next_eq (h : c.Ends e) (hlt : c.index < e) :
    c.next = { c with index := c.index + 1 } := by
  refine if_neg fun hf => ?_
  have := h.isFinish_iff.mp hf
  omega

theorem Ends.next_at (h : c.Ends e) (heq : c.index = e) : c.next = c :=
  if_pos (h.isFinish_iff.mpr heq)

theorem Ends.moved_next (h : c.Ends e) : Moved e c c.next := by
  rcases Nat.lt_or_eq_of_le h.le with hlt | heq
  · rw [h.next_eq hlt]
    exact ⟨rfl, Nat.le_succ _, hlt⟩
  · rw [h.next_at heq]
    exact .refl h

theorem Ends.lt_next (h : c.Ends e) (hlt : c.index < e) : c.index < c.next.index := by
  rw [h.next_eq hlt]
  exact Nat.lt_succ_self _

end Cursor

namespace Reader
variable {α β : Type} {N : Causes} {c : Cursor} {d : Defect}

/-! ### Readers that make progress -/

/-- The defects that may come up, each at the cursors where it may. -/
abbrev Causes := Cursor → Defect → Prop

def Causes.none : Causes := fun _ _ => False

def Causes.From (N : Causes) (c : Cursor) (d : Defect) : Prop :=
  ∃ c₁, c₁.tokens = c.tokens ∧ c.index ≤ c₁.index ∧ N c₁ d

theorem Causes.from_of (h : N c d) : N.From c d :=
  ⟨c, rfl, Nat.le_refl _, h⟩

theorem Causes.From.trans {N' : Causes} (h : N'.From c d) (hN : ∀ c, N' c d → N.From c d) :
    N.From c d := by
  obtain ⟨c₁, htokens, hle, hd⟩ := h
  obtain ⟨c₂, htokens', hle', hd'⟩ := hN c₁ hd
  exact ⟨c₂, htokens'.trans htokens, Nat.le_trans hle hle', hd'⟩

theorem Causes.From.moved {c' : Cursor} {e : Nat} (hm : c.Moved e c') (h : N.From c' d) :
    N.From c d := by
  obtain ⟨c₁, htokens, hle, hd⟩ := h
  exact ⟨c₁, htokens.trans hm.tokens, Nat.le_trans hm.le hle, hd⟩

theorem Causes.From.elim {p : Prop} (h : Causes.none.From c d) : p := by
  obtain ⟨_, _, _, hd⟩ := h
  exact hd.elim

/-- What a reader without bodies may do: it moves the cursor on, at most to the
    end mark, notes no fault, fails at the token where it stops or with a defect
    that has a cause, and is never cut off. When its result is one of these, it
    takes at least one token. -/
structure Calmly (N : Causes) (e : Nat) (P : α → Prop) (c : Cursor) (out : Except Obstacle α)
    (c' : Cursor) : Prop where
  moved : c.Moved e c'
  faults : c'.faults = c.faults
  located : ∀ f, out = .error (.fault f) → f.found = c'.peek 0
  finite : out ≠ .error (.defect .endless)
  caused : ∀ d, out = .error (.defect d) → N.From c d
  takes : ∀ a, out = .ok a → P a → c.index < c'.index

section Outcomes
variable {N : Causes} {e : Nat} {P : α → Prop} {c c' : Cursor}

theorem Calmly.ok {a : α} (hmoved : c.Moved e c') (hfaults : c'.faults = c.faults)
    (htakes : P a → c.index < c'.index) : Calmly N e P c (.ok a) c' where
  moved := hmoved
  faults := hfaults
  located _ h := by cases h
  finite h := by cases h
  caused _ h := by cases h
  takes b h hb := by
    cases h
    exact htakes hb

theorem Calmly.error {o : Obstacle} (hmoved : c.Moved e c') (hfaults : c'.faults = c.faults)
    (hlocated : ∀ f, o = .fault f → f.found = c'.peek 0) (hfinite : o ≠ .defect .endless)
    (hcaused : ∀ d, o = .defect d → N.From c d) : Calmly N e P c (.error o) c' where
  moved := hmoved
  faults := hfaults
  located f h := by
    cases h
    exact hlocated f rfl
  finite h := by
    cases h
    exact hfinite rfl
  caused d h := by
    cases h
    exact hcaused d rfl
  takes _ h := by cases h

theorem Calmly.failed {P' : β → Prop} {o : Obstacle} (h : Calmly N e P c (.error o) c') :
    Calmly N e P' c (.error o) c' :=
  .error h.moved h.faults (fun f hf => h.located f (by rw [hf])) (fun hd => h.finite (by rw [hd]))
    fun d hd => h.caused d (by rw [hd])

theorem Calmly.fault {w : Wanted} (hc : c.Ends e) :
    Calmly N e P c (.error (.fault ⟨w, c.peek 0⟩)) c :=
  .error (.refl hc) rfl (fun f h => by cases h; rfl) (fun h => by cases h) fun d h => by cases h

end Outcomes

/-- With fewer than `m` tokens before the end mark, the reader does what a reader
    without bodies may do. -/
class Progress (N : Causes) (m : Nat) (P : α → Prop) (r : Reader α) : Prop where
  run : ∀ {c e out c'}, c.Ends e → e < c.index + m → r.run c = (out, c') → Calmly N e P c out c'

abbrev Calm (m : Nat) (r : Reader α) : Prop := Progress .none m (fun _ => False) r

abbrev Moves (m : Nat) (r : Reader α) : Prop := Progress .none m (fun _ => True) r

def Turn.goesOn : Turn α → Prop
  | .next | .item _ => True
  | .stop | .last _ => False

abbrev Steps (m : Nat) (turn : Reader (Turn α)) : Prop := Progress .none m Turn.goesOn turn

section Rules
variable {N : Causes} {m n e : Nat} {P : α → Prop} {Q : β → Prop} {r x : Reader α}
  {f : α → Reader β} {c c' : Cursor} {out : Except Obstacle β} {w : String} {ws : List String}
  {A B : Reader β} {k : Token → Reader β} {turn : Reader (Turn α)}

theorem Progress.mono (h : Progress N m P r) (hn : n ≤ m) : Progress N n P r where
  run hc he := h.run hc (by omega)

theorem Progress.zero : Progress N 0 P r where
  run hc he _ := absurd hc.le (Nat.not_le_of_lt he)

theorem Progress.imp {P' : α → Prop} (h : Progress N m P r) (hp : ∀ a, P' a → P a) :
    Progress N m P' r where
  run hc he hrun := by
    have h := h.run hc he hrun
    exact ⟨h.moved, h.faults, h.located, h.finite, h.caused,
      fun a ha hp' => h.takes a ha (hp a hp')⟩

theorem Progress.of_look (look : Cursor → α) (h : ∀ c, r.run c = (.ok (look c), c))
    (hlook : ∀ c, ¬P (look c)) : Progress N m P r where
  run {c e out c'} hc _ hrun := by
    rw [h c] at hrun
    cases hrun
    exact .ok (.refl hc) rfl fun hp => absurd hp (hlook _)

instance Progress.fail {w : Wanted} : Progress N m P (fail w : Reader α) where
  run {c e out c'} hc _ hrun := by
    cases hrun
    exact .fault hc

/-- Readers in sequence, where the first or the second makes the progress. -/
theorem Calmly.bind {x : Reader α} {f : α → Reader β} {c c' : Cursor} {e : Nat}
    {out : Except Obstacle β} (hrun : (x >>= f).run c = (out, c'))
    (hx : ∀ {o c₁}, x.run c = (o, c₁) → Calmly N e P c o c₁)
    (hf : ∀ {a c₁}, Calmly N e P c (.ok a) c₁ → (f a).run c₁ = (out, c') →
      Calmly N e (fun b => Q b ∧ ¬P a) c₁ out c') : Calmly N e Q c out c' := by
  rcases hx' : x.run c with ⟨o | a, c₁⟩
  · rw [bind_error hx'] at hrun
    cases hrun
    exact (hx hx').failed
  · rw [bind_ok hx'] at hrun
    have h := hx hx'
    have hk := hf h hrun
    refine ⟨h.moved.trans hk.moved, hk.faults.trans h.faults, hk.located, hk.finite,
      fun d hd => (hk.caused d hd).moved h.moved, fun b hb hq => ?_⟩
    by_cases ha : P a
    · exact Nat.lt_of_lt_of_le (h.takes a rfl ha) hk.moved.le
    · exact Nat.lt_of_le_of_lt h.moved.le (hk.takes b hb ⟨hq, ha⟩)

/-- Where the first part took a token the second part need not, and it has one
    token fewer to deal with. -/
theorem Progress.bind (hx : Progress N m P x) (hn : m ≤ n + 1)
    (hf : ∀ a, P a → Progress N n (fun _ => False) (f a)) (hf' : ∀ a, ¬P a → Progress N m Q (f a)) :
    Progress N m Q (x >>= f) where
  run {c e out c'} hc he hrun := by
    refine Calmly.bind hrun (fun h => hx.run hc he h) fun {a c₁} h hrun' => ?_
    have hc' := hc.moved h.moved
    have hle := h.moved.le
    by_cases ha : P a
    · have hlt := h.takes a rfl ha
      exact ((hf a ha).imp fun b hb => hb.2 ha).run hc' (by omega) hrun'
    · exact ((hf' a ha).imp fun b hb => hb.1).run hc' (by omega) hrun'

instance (priority := low) of_none [h : Progress .none m P r] : Progress N m P r where
  run hc he hrun := by
    have h := h.run hc he hrun
    exact ⟨h.moved, h.faults, h.located, h.finite, fun d hd => (h.caused d hd).elim, h.takes⟩

/-- After a reader that need not move on, the second must do what is asked. -/
theorem Calm.bind (hx : Progress N m (fun _ => False) x) (hf : ∀ a, Progress N m Q (f a)) :
    Progress N m Q (x >>= f) :=
  Progress.bind hx (Nat.le_succ m) (fun _ h => h.elim) fun a _ => hf a

instance bind_calm [hx : Progress N m (fun _ => False) x] [hf : ∀ a, Progress N m Q (f a)] :
    Progress N m Q (x >>= f) := Calm.bind hx hf

/-- Once the first reader has moved on, the second need not. -/
theorem Moves.bind (hx : Progress N m (fun _ => True) x) (hn : m ≤ n + 1)
    (hf : ∀ a, Progress N n (fun _ => False) (f a)) : Progress N m Q (x >>= f) :=
  Progress.bind hx hn (fun a _ => hf a) fun _ h => absurd trivial h

instance bind_moves [hx : Progress N m (fun _ => True) x]
    [hf : ∀ a, Progress N m (fun _ => False) (f a)] : Progress N m Q (x >>= f) :=
  Moves.bind hx (Nat.le_succ m) hf

instance (priority := low) of_moves [h : Progress N m (fun _ => True) r] : Progress N m P r :=
  h.imp fun _ _ => trivial

instance {p : Prop} [Decidable p] {a b : Reader α} [ha : Progress N m P a]
    [hb : Progress N m P b] : Progress N m P (if p then a else b) := by
  split
  · exact ha
  · exact hb

instance calm_pure {a : α} : Progress N m (fun _ => False) (pure a) :=
  .of_look (fun _ => a) (fun _ => rfl) fun _ h => h

instance steps_stop : Progress N m Turn.goesOn (pure .stop : Reader (Turn α)) :=
  .of_look (fun _ => .stop) (fun _ => rfl) fun _ h => h

instance {f : α → β} [Progress N m (fun _ => False) x] :
    Progress N m (fun _ => False) (f <$> x) := by
  rw [map_eq_pure_bind]
  infer_instance

instance {f : α → β} [Progress N m (fun _ => True) x] : Progress N m (fun _ => True) (f <$> x) := by
  rw [map_eq_pure_bind]
  infer_instance

theorem Calmly.recause {N' : Causes} {out : Except Obstacle α} (h : Calmly N' e P c out c')
    (hN : ∀ d, out = .error (.defect d) → N.From c d) : Calmly N e P c out c' :=
  ⟨h.moved, h.faults, h.located, h.finite, hN, h.takes⟩

theorem Progress.weaken {N' : Causes} (h : Progress N' m P r) (hN : ∀ c d, N' c d → N.From c d) :
    Progress N m P r where
  run hc he hrun := (h.run hc he hrun).recause fun d hd =>
    ((h.run hc he hrun).caused d hd).trans fun c => hN c d

theorem Moves.bind_caused {N' : α → Causes} (hx : Moves m x)
    (hf : ∀ a, Progress (N' a) m (fun _ => False) (f a))
    (hN : ∀ c a c₁ d, x.run c = (.ok a, c₁) → (N' a).From c₁ d → N.From c d) :
    Progress N m Q (x >>= f) where
  run {c e out c'} hc he hrun := by
    have hx' : Progress (fun _ _ => True) m (fun _ => True) x := of_none
    have hcalm := (Moves.bind (Q := Q) hx' (Nat.le_succ m) fun a =>
      (hf a).weaken fun _ _ _ => Causes.from_of trivial).run hc he hrun
    refine hcalm.recause fun d hd => ?_
    subst hd
    rcases hfirst : x.run c with ⟨o | a, c₁⟩
    · rw [bind_error hfirst] at hrun
      cases hrun
      exact ((hx.run hc he hfirst).caused d rfl).elim
    · rw [bind_ok hfirst] at hrun
      have hmoved := (hx.run hc he hfirst).moved
      have hle := hmoved.le
      exact hN c a c₁ d hfirst (((hf a).run (hc.moved hmoved) (by omega) hrun).caused d rfl)

/-! ### Readers of a token -/

instance : Calm m (get : Reader Cursor) := .of_look id (fun _ => rfl) fun _ h => h
instance calm_peek {k : Nat} : Calm m (peek k) := .of_look (·.peek k) (fun _ => rfl) fun _ h => h
instance calm_current : Calm m current := calm_peek
instance : Calm m position := bind_calm
instance : Calm m (sees w) := bind_calm
instance : Calm m (seesAny ws) := bind_calm
instance {k : Kind} : Calm m (seesKind k) := bind_calm
instance {ks : List Kind} : Calm m (seesKinds ks) := bind_calm
instance : Calm m atFinish := bind_calm
instance {k : Nat} : Calm m (seesAhead k w) := bind_calm
instance : Calm m atStatement := bind_calm

theorem Calmly.advance {out : Except Obstacle Token} (hc : c.Ends e)
    (hrun : advance.run c = (out, c')) : Calmly N e (fun t => t.isFinish = false) c out c' := by
  rw [run_advance] at hrun
  cases hrun
  exact .ok hc.moved_next c.faults_next fun hf => hc.lt_next (hc.lt_of_not_finish hf)

instance : Calm m advance where
  run hc _ hrun := by
    have h := Calmly.advance (N := .none) hc hrun
    exact ⟨h.moved, h.faults, h.located, h.finite, h.caused, fun _ _ hf => hf.elim⟩

theorem progress_accept (ws : List String) : Progress N m (fun b => b = true) (accept ws) where
  run {c e out c'} hc _ hrun := by
    rw [run_accept] at hrun
    by_cases h : (c.peek 0).readsAny ws = true
    · rw [if_pos h] at hrun
      cases hrun
      exact .ok hc.moved_next c.faults_next fun _ => hc.lt_next (hc.lt_of_readsAny h)
    · rw [if_neg h] at hrun
      cases hrun
      exact .ok (.refl hc) rfl fun htrue => absurd htrue (by decide)

instance : Calm m (accept ws) :=
  (progress_accept ws).imp fun _ h => h.elim

theorem accept_ite_succ (hA : Progress N m (fun _ => False) A) (hB : Progress N (m + 1) Q B) :
    Progress N (m + 1) Q (accept ws >>= fun b => if b = true then A else B) := by
  refine (progress_accept ws).bind (Nat.le_refl _) (fun b hb => ?_) fun b hb => ?_
  · rw [if_pos hb]
    exact hA
  · rw [if_neg hb]
    exact hB

instance [hA : Progress N m (fun _ => False) A] [hB : Progress N m Q B] :
    Progress N m Q (accept ws >>= fun b => if b = true then A else B) := by
  refine (progress_accept ws).bind (Nat.le_succ m) (fun b hb => ?_) fun b hb => ?_
  · rw [if_pos hb]
    exact hA
  · rw [if_neg hb]
    exact hB

instance [hA : Progress N m Q A] [hB : Progress N m (fun _ => False) B] :
    Progress N m Q (accept ws >>= fun b => if (!b) = true then A else B) := by
  refine (progress_accept ws).bind (Nat.le_succ m) (fun b hb => ?_) fun b hb => ?_
  · rw [if_neg (by rw [hb]; decide)]
    exact hB
  · rw [if_pos (by simpa using hb)]
    exact hA

instance : Calm m (pass ws) := bind_calm

instance calm_optionally [Progress N m (fun _ => False) r] :
    Progress N m (fun _ => False) (maybe ws r) := bind_calm

instance moves_expect : Moves m (expect w) where
  run {c e out c'} hc _ hrun := by
    rw [run_expect] at hrun
    by_cases h : (c.peek 0).reads w = true
    · rw [if_pos h] at hrun
      cases hrun
      exact .ok hc.moved_next c.faults_next fun _ => hc.lt_next (hc.lt_of_reads h)
    · rw [if_neg h] at hrun
      cases hrun
      exact .fault hc

theorem progress_current {k : Token → Reader β} (h : ∀ c e, c.Ends e → e < c.index + m →
      ∀ out c', (k (c.peek 0)).run c = (out, c') → Calmly N e Q c out c') :
    Progress N m Q (current >>= k) where
  run {c e out c'} hc he hrun := h c e hc he out c' (by rwa [bind_ok (run_current c)] at hrun)

theorem Calmly.advance_bind (hc : c.Ends e) (he : e < c.index + n + 1)
    (hf : (c.peek 0).isFinish = false) (hk : Progress N n (fun _ => False) (k (c.peek 0)))
    (hrun : (Reader.advance >>= k).run c = (out, c')) : Calmly N e Q c out c' := by
  rw [bind_ok (run_advance c)] at hrun
  have hlt := hc.lt_next (hc.lt_of_not_finish hf)
  have h := hk.run (hc.moved hc.moved_next) (by omega) hrun
  exact ⟨hc.moved_next.trans h.moved, h.faults.trans c.faults_next, h.located, h.finite,
    fun d hd => (h.caused d hd).moved hc.moved_next,
    fun _ _ _ => Nat.lt_of_lt_of_le hlt h.moved.le⟩

theorem progress_take {p : Token → Bool} {A : Token → Reader β} {k : Token → Token → Reader β}
    (hp : ∀ t, p t = true → t.isFinish = false)
    (hk : ∀ t t', Progress N m (fun _ => False) (k t t'))
    (hA : ∀ t, Progress N m Q (A t)) :
    Progress N m Q (do
      let t ← current
      if p t = true then advance >>= k t else A t) := by
  refine progress_current fun c e hc he out c' hrun => ?_
  by_cases h : p (c.peek 0) = true
  · rw [if_pos h] at hrun
    exact Calmly.advance_bind hc (by omega) (hp _ h) (hk _ _) hrun
  · rw [if_neg h] at hrun
    exact (hA _).run hc he hrun

theorem isFinish_eq_false {t : Token} (h : t.kind ≠ .finish) : t.isFinish = false :=
  beq_false_of_ne h

theorem progress_seesKind {kind : Kind} (hkind : kind ≠ .finish)
    (hk : ∀ t, Progress N m (fun _ => False) (k t)) (hA : Progress N m Q A) :
    Progress N m Q (do
      if ← seesKind kind then advance >>= k else A) := by
  simp only [seesKind, bind_assoc, pure_bind]
  refine progress_take (fun t ht => isFinish_eq_false fun hf => ?_) (fun _ => hk) fun _ => hA
  rw [hf, beq_iff_eq] at ht
  exact hkind ht.symm

theorem isFinish_of_isWord {t : Token} (h : t.isWord = true) : t.isFinish = false :=
  isFinish_eq_false fun hk => by
    rw [isWord, hk] at h
    exact absurd h (by decide)

instance moves_identifier : Moves m ident := by
  refine progress_take (fun t ht => isFinish_eq_false fun hk => ?_) (fun t t' => calm_pure)
    fun t => .fail
  simp +decide [isWord, hk] at ht

instance : Moves m nameOrText := by
  refine progress_take (fun t ht => isFinish_eq_false fun hk => ?_) (fun t t' => calm_pure)
    fun t => .fail
  simp +decide [isWord, hk] at ht

instance : Calm m spelling := bind_calm

theorem progress_tryRead (h : Progress N m P r) :
    Progress N m (fun o => ∃ a, o = some a ∧ P a) (tryRead r) where
  run {c e out c'} hc he hrun := by
    rw [run_tryRead] at hrun
    rcases hr : r.run c with ⟨(f | d) | a, c₁⟩
    -- A fault is forgotten, and the cursor goes back to where it was.
    · have hcalm := h.run hc he hr
      rw [hr] at hrun
      cases hrun
      refine .ok ⟨hcalm.moved.tokens, Nat.le_refl _, hc.le⟩ hcalm.faults ?_
      rintro ⟨a, ha, _⟩
      cases ha
    · have hcalm := h.run hc he hr
      rw [hr] at hrun
      cases hrun
      -- A defect is passed on.
      exact hcalm.failed
    · have hcalm := h.run hc he hr
      rw [hr] at hrun
      cases hrun
      refine .ok hcalm.moved hcalm.faults ?_
      rintro ⟨b, hb, hp⟩
      cases hb
      exact hcalm.takes a rfl hp

instance [h : Progress N m (fun _ => False) r] : Progress N m (fun _ => False) (tryRead r) :=
  (progress_tryRead h).imp fun _ h => h.elim

instance {back : α → Bool} [h : Progress N m (fun _ => False) r] :
    Progress N m (fun _ => False) (rewindIf back r) where
  run {c e out c'} hc he hrun := by
    rw [run_rewindIf] at hrun
    rcases hr : r.run c with ⟨o | a, c₁⟩
    · rw [hr] at hrun
      cases hrun
      exact (h.run hc he hr).failed
    · rw [hr] at hrun
      cases hrun
      have hcalm := h.run hc he hr
      cases back a with
      | false => exact .ok hcalm.moved hcalm.faults False.elim
      | true => exact .ok ⟨hcalm.moved.tokens, Nat.le_refl _, hc.le⟩ hcalm.faults False.elim

theorem progress_lift {x : Except Defect α} (hx : x ≠ .error .endless)
    (hN : ∀ c d, x = .error d → N c d) : Progress N m (fun _ => False) (lift x) where
  run {c e out c'} hc _ hrun := by
    cases x with
    | ok a =>
      cases hrun
      exact .ok (.refl hc) rfl False.elim
    | error d =>
      cases hrun
      refine .error (.refl hc) rfl (fun f hf => by cases hf) (fun hd => hx (by cases hd; rfl))
        fun d' hd => ?_
      cases hd
      exact Causes.from_of (hN _ d rfl)

/-! ### Loops -/

theorem progress_budget {k : Nat → Reader β} (h : ∀ n, Progress N (min m n) Q (k n)) :
    Progress N m Q (budget >>= k) where
  run {c e out c'} hc he hrun := by
    obtain ⟨t, ht, -, -⟩ := hc.mark
    have hlt := (Array.getElem?_eq_some_iff.mp ht).1
    rw [bind_ok (run_budget c)] at hrun
    exact (h _).run hc (by omega) hrun

theorem calm_turns (h : Progress N m Turn.goesOn turn) (n : Nat) :
    Progress N (min m n) (fun _ => False) (turns turn n) := by
  induction n with
  | zero => exact Progress.zero.mono (Nat.min_le_right _ _)
  | succ n ih =>
    rw [turns]
    refine (h.mono (Nat.min_le_left _ _)).bind (n := min m n) (by omega) (fun t ht => ?_)
      fun t ht => ?_
    · cases t with
      -- A turn that took a token leaves one less to take.
      | next => exact ih
      | item a => exact bind_calm
      | stop | last => exact ht.elim
    · cases t with
      | next | item => exact absurd trivial ht
      | stop | last => exact calm_pure

instance calm_loop [h : Progress N m Turn.goesOn turn] :
    Progress N m (fun _ => False) (loop turn) :=
  progress_budget fun n => calm_turns h n

instance {item : Reader α} [Calm m item] : Calm m (separated ws item) := bind_calm

/-! ### Names -/

theorem progress_nameWords {turn : Bool → Cursor → NameTurn}
    (hturn : ∀ b c, turn b c ≠ .stop → (c.peek 0).isFinish = false) (n : Nat) (first : Bool) :
    Progress .none n (fun ws => ws ≠ []) (nameWords turn first n) := by
  induction n generalizing first with
  | zero => exact .zero
  | succ n ih =>
    refine ⟨fun {c e out c'} hc he hrun => ?_⟩
    have hcalm : ∀ first, Calm n (nameWords turn first n) :=
      fun first => (ih first).imp fun _ h => h.elim
    rw [nameWords, bind_ok (show (get : Reader Cursor).run c = (.ok c, c) from rfl)] at hrun
    cases hword : turn first c with
    | stop =>
      rw [hword] at hrun
      cases hrun
      exact .ok (.refl hc) rfl fun hne => absurd rfl hne
    | article =>
      rw [hword] at hrun
      exact Calmly.advance_bind hc he (hturn _ _ (by rw [hword]; nofun)) (hcalm first) hrun
    | word =>
      rw [hword] at hrun
      have hspell : (spelling >>= fun w => nameWords turn false n >>= fun ws => pure (w :: ws))
          = advance >>= fun t => nameWords turn false n >>= fun ws =>
            pure (t.spelling :: ws) := by
        unfold spelling
        simp only [bind_assoc, pure_bind]
      refine Calmly.advance_bind hc he (hturn _ _ (by rw [hword]; nofun)) ?_ (hspell ▸ hrun)
      exact bind_calm

theorem moves_name_of {turn : Bool → Cursor → NameTurn} {w : Wanted}
    (hturn : ∀ b c, turn b c ≠ .stop → (c.peek 0).isFinish = false) :
    Moves m (do
      let words ← nameWords turn true (← budget)
      if words.isEmpty then fail w
      return "_".intercalate words) := by
  refine progress_budget fun n => ?_
  refine ((progress_nameWords hturn n true).mono (Nat.min_le_right _ _)).bind (Nat.le_succ _)
    (fun ws _ => ?_) fun ws hws => ?_
  · infer_instance
  · cases ws with
    | nil => exact .fail
    | cons w ws => exact absurd (List.cons_ne_nil w ws) hws

instance moves_name {stops : List String} : Moves m (name stops) := by
  refine moves_name_of fun b c h => isFinish_of_isWord (Bool.of_not_eq_false fun hword => h ?_)
  simp only [nameTurn, hword]
  rfl

instance : Moves m reference := by
  refine moves_name_of fun b c h => isFinish_of_isWord (Bool.of_not_eq_false fun hword => h ?_)
  simp only [referenceTurn, hword]
  rfl

instance : Moves m outName := moves_name
instance : Calm m (into ws) := calm_optionally
instance : Calm m intoName := calm_optionally

end Rules
end Reader
end Parlance
