import Parlance.Proofs.ProgressOpener

/-!
# Readers that Recover

Bodies and programs go on after a fault: it is noted, one token is passed over, and reading
continues. `Reader.Orderly` extends `Reader.Progress` to such readers. The list of the places
where faults were noted grows strictly, and a reader that fails does so beyond all of them,
which lets a fault that escapes be noted in turn.

One place is special. A fault at the end mark is noted, but the cursor cannot pass the mark, so
the outer readers resume at a place that has been noted.

## Main definitions

* `Cursor.Noted`: The faults noted between two cursors stand at these places, in this order.
* `Cursor.recovered`: The cursor after a fault has been noted and one token has been passed over.
* `Reader.InOrder`: What any reader may do: it moves the cursor on, at most to the end mark, notes
  faults in the order of their places, fails at the token where it stops and beyond all noted
  places, or with a defect that has a cause, and is never cut off.
* `Reader.Orderly`: With fewer than `m` tokens before the end mark, the reader does what any
  reader may do.
* `Reader.Still`: At the end mark the reader stays there and finds no fault.

## Theorems

* `Reader.InOrder.bind`: Sequencing.
* `Reader.Orderly.bind`: Readers in sequence note their faults in order.
* `Reader.Still.bind`: Readers in sequence that note no fault.
* `Reader.InOrder.recover`: A fault is noted where the reader stopped.
-/

namespace Parlance
open Nat List

/-! ### Places of faults -/

namespace Cursor

/-- The faults noted between two cursors stand at these places, in this order.
    Each place has been passed, except that the end mark stays where it is. -/
structure Noted (e : Nat) (c c' : Cursor) (places : List Nat) : Prop where
  faults : ∃ new, c'.faults = c.faults ++ new ∧
    new.map (fun f => some f.found) = places.map fun i => c.tokens[i]?
  sorted : places.Pairwise (· < ·)
  after : ∀ i ∈ places, c.index ≤ i
  before : ∀ i ∈ places, i < c'.index ∨ i = e ∧ c'.index = e

variable {c c₁ c' : Cursor} {e : Nat} {is js : List Nat} {f : Fault}

theorem Noted.nil (h : c'.faults = c.faults) : Noted e c c' [] where
  faults := ⟨[], by rw [h, append_nil], rfl⟩
  sorted := .nil
  after _ hi := by cases hi
  before _ hi := by cases hi

theorem Noted.eq_nil (h : Noted e c c' is) (hfaults : c'.faults = c.faults) : is = [] := by
  obtain ⟨new, hnew, hplaces⟩ := h.faults
  rw [hfaults, self_eq_append_right] at hnew
  rw [hnew, map_nil] at hplaces
  exact map_eq_nil_iff.mp hplaces.symm

theorem Noted.append (h : Noted e c c₁ is) (hm : Moved e c c₁) (hm' : Moved e c₁ c')
    (hbefore : ∀ i ∈ is, i < c₁.index) (h' : Noted e c₁ c' js) : Noted e c c' (is ++ js) where
  faults := by
    obtain ⟨new, hnew, hplaces⟩ := h.faults
    obtain ⟨new', hnew', hplaces'⟩ := h'.faults
    refine ⟨new ++ new', by rw [hnew', hnew, append_assoc], ?_⟩
    rw [hm.tokens] at hplaces'
    rw [map_append, map_append, hplaces, hplaces']
  sorted := pairwise_append.mpr
    ⟨h.sorted, h'.sorted, fun i hi j hj => lt_of_lt_of_le (hbefore i hi) (h'.after j hj)⟩
  after i hi := by
    rcases mem_append.mp hi with hi | hi
    · exact h.after i hi
    · exact le_trans hm.le (h'.after i hi)
  before i hi := by
    rcases mem_append.mp hi with hi | hi
    · exact .inl (lt_of_lt_of_le (hbefore i hi) hm'.le)
    · exact h'.before i hi

/-- The cursor after a fault has been noted and one token has been passed over. -/
def recovered (c : Cursor) (f : Fault) : Cursor :=
  Cursor.next { c with faults := c.faults ++ [f] }

theorem Ends.moved_recovered (h : c.Ends e) : Moved e c (c.recovered f) := by
  have hm := Ends.moved_next (c := { c with faults := c.faults ++ [f] }) ⟨h.le, h.mark, h.clear⟩
  exact ⟨hm.tokens, hm.le, hm.bound⟩

theorem Ends.lt_recovered (h : c.Ends e) :
    c.index < (c.recovered f).index ∨ c.index = e ∧ (c.recovered f).index = e := by
  have h' : Ends { c with faults := c.faults ++ [f] } e := ⟨h.le, h.mark, h.clear⟩
  rcases lt_or_eq_of_le h.le with hlt | heq
  · exact .inl (h'.lt_next hlt)
  · rw [recovered, h'.next_at heq]
    exact .inr ⟨heq, heq⟩

theorem Ends.noted_recovered (h : c.Ends e) (hf : f.found = c.peek 0) :
    Noted e c (c.recovered f) [c.index] where
  faults := by
    refine ⟨[f], faults_next _, ?_⟩
    rw [map_singleton, map_singleton, hf, h.getElem?_index]
  sorted := pairwise_singleton _ _
  after i hi := le_of_eq (mem_singleton.mp hi).symm
  before i hi := by
    rw [mem_singleton.mp hi]
    exact h.lt_recovered

end Cursor

namespace Reader
variable {α β : Type}

/-! ### Readers that recover in order -/

/-- What any reader may do: it moves the cursor on, at most to the end mark, notes
    faults in the order of their places, fails at the token where it stops and
    beyond all noted places, or with a defect that has a cause, and is never cut
    off. When its result is one of these, it takes at least one token. -/
structure InOrder (N : Causes) (e : Nat) (P : α → Prop) (c : Cursor) (out : Except Obstacle α)
    (c' : Cursor) : Prop where
  moved : c.Moved e c'
  noted : ∃ places, c.Noted e c' places ∧
    ∀ f, out = .error (.fault f) → f.found = c'.peek 0 ∧ ∀ i ∈ places, i < c'.index
  finite : out ≠ .error (.defect .endless)
  caused : ∀ d, out = .error (.defect d) → N.From c d
  takes : ∀ a, out = .ok a → P a → c.index < c'.index

/-- With fewer than `m` tokens before the end mark, the reader does what any
    reader may do. -/
class Orderly (N : Causes) (m : Nat) (P : α → Prop) (r : Reader α) : Prop where
  run : ∀ {c e out c'}, c.Ends e → e < c.index + m → r.run c = (out, c') → InOrder N e P c out c'

/-- At the end mark the reader stays there and finds no fault. -/
class Still (r : Reader α) : Prop where
  run : ∀ {c e out c'}, c.Ends e → c.index = e → r.run c = (out, c') →
    c' = c ∧ ∀ f, out ≠ .error (.fault f)

section Rules
variable {N : Causes} {m n e : Nat} {P : α → Prop} {Q : β → Prop} {c c' : Cursor}
  {out : Except Obstacle α} {r x : Reader α} {f : α → Reader β} {ws : List String} {A B : Reader β}
  {turn : Reader (Turn α)}
variable {N' : Causes} {w : String} {look : Reader Bool} {k : Token → Reader β}

theorem Calmly.inOrder (h : Calmly N e P c out c') : InOrder N e P c out c' where
  moved := h.moved
  noted := ⟨[], .nil h.faults, fun f hf => ⟨h.located f hf, fun _ hi => by cases hi⟩⟩
  finite := h.finite
  caused := h.caused
  takes := h.takes

instance (priority := low) orderly_of_progress [h : Progress N m P r] : Orderly N m P r where
  run hc he hrun := (h.run hc he hrun).inOrder

theorem Orderly.mono (h : Orderly N m P r) (hn : n ≤ m) : Orderly N n P r where
  run hc he := h.run hc (by omega)

theorem Orderly.zero : Orderly N 0 P r where
  run hc he _ := absurd hc.le (Nat.not_le_of_lt he)

theorem InOrder.imp {P' : α → Prop} (h : InOrder N e P c out c') (hp : ∀ a, P' a → P a) :
    InOrder N e P' c out c' :=
  ⟨h.moved, h.noted, h.finite, h.caused, fun a ha hp' => h.takes a ha (hp a hp')⟩

theorem InOrder.error {o : Obstacle} (h : InOrder N e P c (.error o) c') :
    InOrder N e Q c (.error o) c' where
  moved := h.moved
  noted := by
    obtain ⟨places, hplaces, hfault⟩ := h.noted
    exact ⟨places, hplaces, fun f hf => hfault f (by cases hf; rfl)⟩
  finite hd := h.finite (by cases hd; rfl)
  caused d hd := h.caused d (by cases hd; rfl)
  takes _ hb := by cases hb

theorem InOrder.recause (h : InOrder N' e P c out c')
    (hN : ∀ d, out = .error (.defect d) → N.From c d) : InOrder N e P c out c' :=
  ⟨h.moved, h.noted, h.finite, hN, h.takes⟩

theorem Orderly.weaken (h : Orderly N' m P r) (hN : ∀ c d, N' c d → N.From c d) :
    Orderly N m P r where
  run hc he hrun := (h.run hc he hrun).recause fun d hd =>
    ((h.run hc he hrun).caused d hd).trans fun c => hN c d

/-- Sequencing. A first part that noted a fault may have ended at the end mark,
    and the second part must not find one there again. -/
theorem InOrder.bind {x : Reader α} {f : α → Reader β} {c c' : Cursor} {e : Nat}
    {out : Except Obstacle β} (hc : c.Ends e) (hrun : (x >>= f).run c = (out, c'))
    (hx : ∀ {o c₁}, x.run c = (o, c₁) → InOrder N e P c o c₁)
    (hf : ∀ {a c₁}, InOrder N e P c (.ok a) c₁ → (f a).run c₁ = (out, c') →
      InOrder N e (fun b => Q b ∧ ¬P a) c₁ out c')
    (hagain : ∀ {a c₁}, x.run c = (.ok a, c₁) → c₁.faults = c.faults ∨ Still (f a)) :
    InOrder N e Q c out c' := by
  rcases hx' : x.run c with ⟨o | a, c₁⟩
  · rw [bind_error hx'] at hrun
    cases hrun
    exact (hx hx').error
  · rw [bind_ok hx'] at hrun
    have h := hx hx'
    have hk := hf h hrun
    obtain ⟨is, his, -⟩ := h.noted
    obtain ⟨js, hjs, hfault⟩ := hk.noted
    refine ⟨h.moved.trans hk.moved, ?_, hk.finite, fun d hd => (hk.caused d hd).moved h.moved,
      fun b hb hq => ?_⟩
    -- Either all faults so far lie before the second part, or the first part ended at the
    -- end mark and the second one stays there without a fault.
    · have hjoin : (∀ i ∈ is, i < c₁.index) ∨ c' = c₁ ∧ ∀ f, out ≠ .error (.fault f) := by
        rcases hagain hx' with hsame | hstill
        · rw [his.eq_nil hsame]
          exact .inl fun i hi => by cases hi
        · rcases lt_or_eq_of_le h.moved.bound with hlt | heq
          · exact .inl fun i hi => (his.before i hi).elim id fun hend => by omega
          · exact .inr (hstill.run (hc.moved h.moved) heq hrun)
      rcases hjoin with hbefore | ⟨rfl, hno⟩
      · refine ⟨is ++ js, his.append h.moved hk.moved hbefore hjs, fun f hf => ?_⟩
        refine ⟨(hfault f hf).1, fun i hi => ?_⟩
        rcases mem_append.mp hi with hi | hi
        · exact lt_of_lt_of_le (hbefore i hi) hk.moved.le
        · exact (hfault f hf).2 i hi
      · exact ⟨is, his, fun f hf => absurd hf (hno f)⟩
    · by_cases ha : P a
      · exact lt_of_lt_of_le (h.takes a rfl ha) hk.moved.le
      · exact lt_of_le_of_lt h.moved.le (hk.takes b hb ⟨hq, ha⟩)

theorem InOrder.continue {a : α} {c₁ : Cursor} {out : Except Obstacle β} (hc : c.Ends e)
    (he : e < c.index + m) (hn : m ≤ n + 1) (hf : P a → Orderly N n (fun _ => False) (f a))
    (hf' : ¬P a → Orderly N m Q (f a)) (h : InOrder N e P c (.ok a) c₁)
    (hrun : (f a).run c₁ = (out, c')) : InOrder N e (fun b => Q b ∧ ¬P a) c₁ out c' := by
  have hc' := hc.moved h.moved
  have hle := h.moved.le
  by_cases ha : P a
  · have hlt := h.takes a rfl ha
    exact ((hf ha).run hc' (by omega) hrun).imp fun b hb => hb.2 ha
  · exact ((hf' ha).run hc' (by omega) hrun).imp fun b hb => hb.1

/-- Readers in sequence note their faults in order. -/
theorem Orderly.bind (hx : Orderly N m P x) (hn : m ≤ n + 1)
    (hf : ∀ a, P a → Orderly N n (fun _ => False) (f a)) (hf' : ∀ a, ¬P a → Orderly N m Q (f a))
    (hs : ∀ a, Still (f a)) : Orderly N m Q (x >>= f) where
  run hc he hrun :=
    .bind hc hrun (fun h => hx.run hc he h) (fun h => .continue hc he hn (hf _) (hf' _) h)
      fun _ => .inr (hs _)

theorem Progress.bind_orderly (hx : Progress N m P x) (hn : m ≤ n + 1)
    (hf : ∀ a, P a → Orderly N n (fun _ => False) (f a)) (hf' : ∀ a, ¬P a → Orderly N m Q (f a)) :
    Orderly N m Q (x >>= f) where
  run hc he hrun :=
    .bind hc hrun (fun h => (hx.run hc he h).inOrder)
      (fun h => .continue hc he hn (hf _) (hf' _) h) fun h => .inl (hx.run hc he h).faults

theorem Calm.bind_orderly (hx : Progress N m (fun _ => False) x) (hf : ∀ a, Orderly N m Q (f a)) :
    Orderly N m Q (x >>= f) :=
  Progress.bind_orderly hx (le_succ m) (fun _ h => h.elim) fun a _ => hf a

instance orderly_bind [hx : Orderly N m (fun _ => False) x] [hf : ∀ a, Orderly N m Q (f a)]
    [hs : ∀ a, Still (f a)] : Orderly N m Q (x >>= f) :=
  hx.bind (le_succ m) (fun _ h => h.elim) (fun a _ => hf a) hs

instance orderly_bind_calm [hx : Progress N m (fun _ => False) x] [hf : ∀ a, Orderly N m Q (f a)] :
    Orderly N m Q (x >>= f) := Calm.bind_orderly hx hf

instance [hx : Progress N m (fun _ => True) x]
    [hf : ∀ a, Orderly N m (fun _ => False) (f a)] : Orderly N m Q (x >>= f) :=
  hx.bind_orderly (le_succ m) (fun a _ => hf a) fun _ h => absurd trivial h

instance {p : Prop} [Decidable p] {a b : Reader α} [ha : Orderly N m P a]
    [hb : Orderly N m P b] : Orderly N m P (if p then a else b) := by
  split
  · exact ha
  · exact hb

theorem orderly_accept_ite_of (hn : m ≤ n + 1) (hA : Orderly N n (fun _ => False) A)
    (hB : Orderly N m Q B) : Orderly N m Q (accept ws >>= fun b => if b = true then A else B) := by
  refine (progress_accept ws).bind_orderly hn (fun b hb => ?_) fun b hb => ?_
  · rw [if_pos hb]
    exact hA
  · rw [if_neg hb]
    exact hB

instance [hA : Orderly N m (fun _ => False) A] [hB : Orderly N m Q B] :
    Orderly N m Q (accept ws >>= fun b => if b = true then A else B) :=
  orderly_accept_ite_of (le_succ m) hA hB

theorem orderly_accept_not_ite_of (hn : m ≤ n + 1) (hA : Orderly N m Q A)
    (hB : Orderly N n (fun _ => False) B) :
    Orderly N m Q (accept ws >>= fun b => if (!b) = true then A else B) := by
  refine (progress_accept ws).bind_orderly hn (fun b hb => ?_) fun b hb => ?_
  · rw [if_neg (by rw [hb]; decide)]
    exact hB
  · rw [if_pos (by simpa using hb)]
    exact hA

instance [hA : Orderly N m Q A] [hB : Orderly N m (fun _ => False) B] :
    Orderly N m Q (accept ws >>= fun b => if (!b) = true then A else B) :=
  orderly_accept_not_ite_of (le_succ m) hA hB

/-! ### Readers that stay at the end mark -/

/-- The reader only looks at the cursor. -/
class Looks (r : Reader α) : Prop where
  run : ∀ c, ∃ a, r.run c = (.ok a, c)

instance (priority := low) still_of_looks [h : Looks r] : Still r where
  run {c e out c'} _ _ hrun := by
    obtain ⟨a, ha⟩ := h.run c
    rw [ha] at hrun
    cases hrun
    exact ⟨rfl, fun f hf => by cases hf⟩

instance {a : α} : Looks (pure a) := ⟨fun _ => ⟨a, rfl⟩⟩
instance : Looks budget := ⟨fun _ => ⟨_, rfl⟩⟩
instance : Looks (sees w) := ⟨fun _ => ⟨_, rfl⟩⟩
instance {k : Nat} : Looks (seesAhead k w) := ⟨fun _ => ⟨_, rfl⟩⟩

instance looks_bind [hx : Looks x] [hf : ∀ a, Looks (f a)] : Looks (x >>= f) where
  run c := by
    obtain ⟨a, ha⟩ := hx.run c
    rw [bind_ok ha]
    exact (hf a).run c

instance {stops : List String} : Looks (atBodyEnd stops) where
  run c := by
    rw [atBodyEnd, bind_ok (show (get : Reader Cursor).run c = (.ok c, c) from rfl)]
    dsimp only
    split
    · exact ⟨_, rfl⟩
    · split <;> exact ⟨_, rfl⟩

instance still_endless : Still (endless : Reader α) where
  run {c e out c'} _ _ hrun := by
    cases hrun
    exact ⟨rfl, fun f hf => by cases hf⟩

/-- Readers in sequence that note no fault. -/
theorem Still.bind (hx : Still x) (hf : ∀ a, Still (f a)) : Still (x >>= f) where
  run {c e out c'} hc he hrun := by
    rcases hx' : x.run c with ⟨o | a, c₁⟩
    · rw [bind_error hx'] at hrun
      cases hrun
      obtain ⟨rfl, hno⟩ := hx.run hc he hx'
      exact ⟨rfl, fun f hf => hno f (by cases hf; rfl)⟩
    · rw [bind_ok hx'] at hrun
      obtain ⟨rfl, -⟩ := hx.run hc he hx'
      exact (hf a).run hc he hrun

instance still_bind [hx : Still x] [hf : ∀ a, Still (f a)] : Still (x >>= f) := hx.bind hf

theorem Still.accept_bind {f : Bool → Reader β} (h : Still (f false)) :
    Still (accept ws >>= f) where
  run {c e out c'} hc he hrun := by
    have hfalse : (accept ws).run c = (.ok false, c) := by
      rw [run_accept, if_neg fun hws => Nat.ne_of_lt (hc.lt_of_readsAny hws) he]
    rw [bind_ok hfalse] at hrun
    exact h.run hc he hrun

instance [h : Still B] :
    Still (accept ws >>= fun b => if b = true then A else B) := .accept_bind h

instance [h : Still A] :
    Still (accept ws >>= fun b => if (!b) = true then A else B) := .accept_bind h

instance : Still (pass ws) := .accept_bind inferInstance

instance : Still (maybe ws r) := by
  unfold maybe
  infer_instance

instance [Orderly N m (fun _ => False) r] :
    Orderly N m (fun _ => False) (maybe ws r) := orderly_bind_calm

theorem run_atFinish (hc : c.Ends e) : atFinish.run c = (.ok (decide (c.index = e)), c) := by
  change (Except.ok (c.peek 0).isFinish, c) = _
  rw [Bool.eq_iff_iff.mpr (hc.isFinish_iff.trans decide_eq_true_iff.symm)]

instance still_atFinish_or [hlook : Still look] [h : Still A] :
    Still (atFinish >>= fun b => look >>= fun b' => if (b || b') = true then A else B) where
  run {c e out c'} hc he hrun := by
    rw [bind_ok (run_atFinish hc), decide_eq_true he] at hrun
    exact (hlook.bind fun _ => h).run hc he hrun

instance [h : Still A] :
    Still (atFinish >>= fun b => if b = true then A else B) where
  run {c e out c'} hc he hrun := by
    rw [bind_ok (run_atFinish hc), decide_eq_true he] at hrun
    exact h.run hc he hrun

/-! ### Loops -/

instance [Still turn] (n : Nat) : Still (turns turn n) := by
  induction n with
  | zero => exact still_endless
  | succ n ih =>
    rw [turns]
    refine Still.bind inferInstance fun t => ?_
    split <;> infer_instance

instance still_loop [Still turn] : Still (loop turn) := still_bind

theorem orderly_turns (h : Orderly N m Turn.goesOn turn) (hs : Still turn) (n : Nat) :
    Orderly N (min m n) (fun _ => False) (turns turn n) := by
  induction n with
  | zero => exact Orderly.zero.mono (min_le_right _ _)
  | succ n ih =>
    rw [turns]
    refine (h.mono (min_le_left _ _)).bind (n := min m n) (by omega) (fun t ht => ?_)
      (fun t ht => ?_) fun t => ?_
    · cases t with
      | next => exact ih
      | item a => exact orderly_bind
      | stop | last => exact ht.elim
    · cases t with
      | next | item => exact absurd trivial ht
      | stop | last => exact orderly_of_progress
    · split <;> infer_instance

theorem orderly_budget {k : Nat → Reader β} (h : ∀ n, Orderly N (min m n) Q (k n)) :
    Orderly N m Q (budget >>= k) where
  run {c e out c'} hc he hrun := by
    obtain ⟨t, ht, -, -⟩ := hc.mark
    have hlt := (Array.getElem?_eq_some_iff.mp ht).1
    rw [bind_ok (run_budget c)] at hrun
    exact (h _).run hc (by omega) hrun

instance orderly_loop [h : Orderly N m Turn.goesOn turn] [hs : Still turn] :
    Orderly N m (fun _ => False) (loop turn) :=
  orderly_budget fun n => orderly_turns h hs n

/-! ### Going on after a fault -/

/-- Before the end mark, and with fewer than `m` tokens before it, the reader does
    what any reader may do, and takes a token. -/
class Advances (N : Causes) (m : Nat) (r : Reader α) : Prop where
  run : ∀ {c e out c'}, c.Ends e → c.index < e → e < c.index + m → r.run c = (out, c') →
    InOrder N e (fun _ => True) c out c'

theorem Advances.mono (h : Advances N m r) (hn : n ≤ m) : Advances N n r where
  run hc hlt he := h.run hc hlt (by omega)

/-- A fault is noted where the reader stopped. That place is beyond those noted
    before, and it is passed unless it is the end mark. -/
theorem InOrder.recover {f : Fault} {a : β} (hc : c.Ends e) (hlt : c.index < e)
    (h : InOrder N e P c (.error (.fault f)) c') :
    InOrder N e (fun _ => True) c (.ok a) (c'.recovered f) := by
  obtain ⟨places, hplaces, hfault⟩ := h.noted
  obtain ⟨hfound, hbefore⟩ := hfault f rfl
  have hc' := hc.moved h.moved
  have hnoted := hplaces.append h.moved hc'.moved_recovered hbefore (hc'.noted_recovered hfound)
  refine ⟨h.moved.trans hc'.moved_recovered, ⟨_, hnoted, fun g hg => ?_⟩, fun hd => ?_,
    fun d hd => ?_, fun _ _ _ => ?_⟩
  · cases hg
  · cases hd
  · cases hd
  · have hle := h.moved.le
    rcases hc'.lt_recovered (f := f) with h' | ⟨-, h'⟩ <;> omega

instance advances_recovering {r : Reader (Option α)} [h : Advances N m r] :
    Advances N m (recovering r) where
  run {c e out c'} hc hlt he hrun := by
    rw [run_recovering] at hrun
    rcases hr : r.run c with ⟨(f | d) | a, c₁⟩
    · rw [hr] at hrun
      cases hrun
      exact (h.run hc hlt he hr).recover hc hlt
    · rw [hr] at hrun
      cases hrun
      exact (h.run hc hlt he hr).error
    · rw [hr] at hrun
      cases hrun
      exact h.run hc hlt he hr

/-- A reader that moves on, and then one that need not. -/
theorem Advances.bind (hx : Advances N m x) (hf : ∀ a, Progress N m (fun _ => False) (f a))
    (hs : ∀ a, Still (f a)) : Advances N m (x >>= f) where
  run {c e out c'} hc hlt he hrun := by
    refine .bind hc hrun (fun h => hx.run hc hlt he h) (fun {a c₁} h hrun' => ?_)
      fun _ => .inr (hs _)
    have hle := h.moved.le
    exact ((hf a).run (hc.moved h.moved) (by omega) hrun').inOrder.imp fun b hb => hb.2 trivial

theorem Orderly.run_next {r : Reader β} {out : Except Obstacle β}
    (h : Orderly N n (fun _ => False) r) (hc : c.Ends e) (hlt : c.index < e)
    (he : e < c.index + n + 1) (hrun : r.run c.next = (out, c')) :
    InOrder N e (fun _ => True) c out c' := by
  have hindex := hc.lt_next hlt
  have h' := h.run (hc.moved hc.moved_next) (by omega) hrun
  obtain ⟨places, hplaces, hfault⟩ := h'.noted
  have hnone := Cursor.Noted.nil (e := e) c.faults_next
  refine ⟨hc.moved_next.trans h'.moved, ⟨places, ?_, hfault⟩, h'.finite,
    fun d hd => (h'.caused d hd).moved hc.moved_next, fun _ _ _ => ?_⟩
  · exact hnone.append hc.moved_next h'.moved (fun i hi => by cases hi) hplaces
  · exact lt_of_lt_of_le hindex h'.moved.le

theorem advances_advance_bind (hn : m ≤ n + 1)
    (h : ∀ t, Orderly N n (fun _ => False) (k t)) : Advances N m (Reader.advance >>= k) where
  run {c e out c'} hc hlt he hrun := by
    rw [bind_ok (run_advance c)] at hrun
    exact (h _).run_next hc hlt (by omega) hrun

instance [h : ∀ t, Orderly N m (fun _ => False) (k t)] :
    Advances N m (Reader.advance >>= k) := advances_advance_bind (le_succ m) h

theorem advances_bind_looks (hx : Looks x) (hf : ∀ a, Advances N m (f a)) :
    Advances N m (x >>= f) where
  run {c e out c'} hc hlt he hrun := by
    obtain ⟨a, ha⟩ := hx.run c
    rw [bind_ok ha] at hrun
    exact (hf a).run hc hlt he hrun

instance [hA : Advances N m A] [hB : Orderly N m (fun _ => False) B] :
    Advances N m (accept ws >>= fun b => if (!b) = true then A else B) where
  run {c e out c'} hc hlt he hrun := by
    by_cases h : (c.peek 0).readsAny ws = true
    · rw [bind_ok (by rw [run_accept, if_pos h])] at hrun
      exact hB.run_next hc hlt (by omega) hrun
    · rw [bind_ok (by rw [run_accept, if_neg h])] at hrun
      exact hA.run hc hlt he hrun

instance {r : Reader (Option α)} [Advances N m r] : Advances N m (turnOf r) := by
  refine Advances.bind advances_recovering (fun o => ?_) fun o => ?_ <;> split <;> infer_instance

instance [h : Advances N m turn] :
    Orderly N m Turn.goesOn (do if ← atFinish then return .stop else turn) where
  run {c e out c'} hc he hrun := by
    rw [bind_ok (run_atFinish hc)] at hrun
    by_cases heq : c.index = e
    · rw [decide_eq_true heq] at hrun
      exact (steps_stop.run hc he hrun).inOrder
    · rw [decide_eq_false heq] at hrun
      exact (h.run hc (lt_of_le_of_ne hc.le heq) he hrun).imp fun _ _ => trivial

instance [hlook : Looks look] [h : Advances N m turn] :
    Orderly N m Turn.goesOn (do if (← atFinish) || (← look) then return .stop else turn) where
  run {c e out c'} hc he hrun := by
    obtain ⟨b, hb⟩ := hlook.run c
    rw [bind_ok (run_atFinish hc), bind_ok hb] at hrun
    by_cases hstop : (decide (c.index = e) || b) = true
    · rw [if_pos hstop] at hrun
      exact (steps_stop.run hc he hrun).inOrder
    · rw [if_neg hstop] at hrun
      have hne : c.index ≠ e := fun heq => hstop (by rw [decide_eq_true heq, Bool.true_or])
      exact (h.run hc (lt_of_le_of_ne hc.le hne) he hrun).imp fun _ _ => trivial

end Rules
end Reader
end Parlance
