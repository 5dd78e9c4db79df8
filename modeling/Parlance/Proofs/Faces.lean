import Parlance.Grammar.Program
import Parlance.Proofs.Core
import Parlance.Proofs.Reader

/-!
# Reading Faces

Readers never look at the position of a token except to put it into what they
build. So what a reader does is decided by the faces of the tokens ahead, and
that is all `Reader.Reads` speaks of: before and after, a list of faces. A
printed program has known faces and unknown positions, which makes this the form
in which each reader of the core language is shown to give back what was printed.

There is one rule for each thing a reader can do.

## Main definitions

* `Reader.ReadsOn`: From a cursor on such tokens with the first faces ahead the reader takes
  tokens up to the second faces, notes no fault, and gives a result with the property.

## Theorems

* `Reader.ReadsOn.bind`: Readers in sequence: the second one takes what the first has left.
* `Reader.ReadsOn.imp`: A weaker property of the result.
* `Reader.ReadsOn.position`: Asking for the position takes nothing.
* `Reader.ReadsOn.turns_items_append`: A loop that takes an item each turn, and what it makes of
  the rest.
-/

namespace Parlance
open List Token Cursor

namespace Token.Face

def token (f : Face) (p : Position) : Token := ⟨f.1, f.2, p⟩

def reads (f : Face) (word : String) : Bool := f.1 != .text && f.2.isText word

def readsAny (f : Face) (words : List String) : Bool := f.1 != .text && f.2.isOneOf words

end Token.Face

namespace Cursor

def faces (c : Cursor) : List Face := (c.tokens.toList.drop c.index).map face

variable {c : Cursor} {f g : Face} {fs : List Face}

theorem peek_of_faces {n : Nat} (h : c.faces[n]? = some f) : ∃ p, c.peek n = f.token p := by
  unfold faces at h
  rw [getElem?_map, getElem?_drop, Array.getElem?_toList, Option.map_eq_some_iff] at h
  obtain ⟨t, ht, rfl⟩ := h
  refine ⟨t.position, ?_⟩
  rw [peek, ht]
  rfl

theorem peek_zero (h : c.faces = f :: fs) : ∃ p, c.peek 0 = f.token p :=
  peek_of_faces (by rw [h]; rfl)

theorem peek_one (h : c.faces = f :: g :: fs) : ∃ p, c.peek 1 = g.token p :=
  peek_of_faces (by rw [h]; rfl)

theorem faces_next (h : c.faces = f :: fs) (hf : f.1 ≠ .finish) : c.next.faces = fs := by
  obtain ⟨p, hp⟩ := peek_zero h
  have hfinish : (c.peek 0).isFinish = false := by
    rw [hp]
    exact beq_false_of_ne hf
  have hdrop : faces { c with index := c.index + 1 } = c.faces.drop 1 := by
    unfold faces
    rw [← map_drop, drop_drop]
  rw [next, hfinish]
  simpa [h] using hdrop

theorem length_faces_le (c : Cursor) : c.faces.length ≤ c.tokens.size := by
  unfold faces
  simp

end Cursor

namespace Reader
variable {α β ι : Type} {fs gs hs : List Face} {f g : Face}

/-- From a cursor on such tokens with the first faces ahead the reader takes tokens up to
    the second faces, notes no fault, and gives a result with the property. -/
def ReadsOn (T : Array Token → Prop) (r : Reader α) (fs gs : List Face) (P : α → Prop) : Prop :=
  ∀ c : Cursor, T c.tokens → c.faces = fs → ∃ a c', r.run c = (.ok a, c') ∧
    c'.tokens = c.tokens ∧ c'.faces = gs ∧ c'.faults = c.faults ∧ P a

abbrev Reads (r : Reader α) (fs gs : List Face) (P : α → Prop) : Prop :=
  ReadsOn (fun _ => True) r fs gs P

namespace ReadsOn
variable {T : Array Token → Prop} {P : α → Prop}

theorem pure {a : α} (h : P a) : ReadsOn T (pure a) fs fs P :=
  fun c _ hc => ⟨a, c, rfl, rfl, hc, rfl, h⟩

/-- Readers in sequence: the second one takes what the first has left. -/
theorem bind {r : Reader α} {k : α → Reader β} {Q : β → Prop} (h : ReadsOn T r fs gs P)
    (hk : ∀ a, P a → ReadsOn T (k a) gs hs Q) : ReadsOn T (r >>= k) fs hs Q := by
  intro c hT hc
  obtain ⟨a, c', hrun, htokens, hfaces, hfaults, ha⟩ := h c hT hc
  obtain ⟨b, c'', hrun', htokens', hfaces', hfaults', hb⟩ := hk a ha c' (htokens ▸ hT) hfaces
  exact ⟨b, c'', by rw [bind_ok hrun, hrun'], htokens'.trans htokens, hfaces',
    hfaults'.trans hfaults, hb⟩

/-- A weaker property of the result. -/
theorem imp {r : Reader α} {Q : α → Prop} (h : Reads r fs gs P) (hpq : ∀ a, P a → Q a) :
    Reads r fs gs Q := by
  intro c _ hc
  obtain ⟨a, c', hrun, htokens, hfaces, hfaults, ha⟩ := h c trivial hc
  exact ⟨a, c', hrun, htokens, hfaces, hfaults, hpq a ha⟩

theorem yes {b : Bool} {A B : Reader α} (h : b = true) (hA : Reads A fs gs P) :
    Reads (if b = true then A else B) fs gs P := by
  rw [if_pos h]
  exact hA

theorem no {b : Bool} {A B : Reader α} (h : b = false) (hB : ReadsOn T B fs gs P) :
    ReadsOn T (if b = true then A else B) fs gs P := by
  rw [if_neg (by rw [h]; decide)]
  exact hB

section Steps
variable {P : α → Prop} {Q : β → Prop} {A B : Reader β} {ws : List String} {w : String}
  {r : Reader α} {k : Bool → Reader β}

theorem look {k : α → Reader β} {a : Cursor → α} {b : α} (hr : ∀ c, r.run c = (.ok (a c), c))
    (ha : ∀ c : Cursor, c.faces = fs → a c = b) (hk : Reads (k b) fs hs Q) :
    Reads (r >>= k) fs hs Q := by
  intro c hT hc
  rw [bind_ok (hr c), ha c hc]
  exact hk c hT hc

theorem ahead {k : α → Reader β} (a : Token → α) {b : α}
    (hr : ∀ c, r.run c = (.ok (a (c.peek 0)), c)) (ha : ∀ p, a (f.token p) = b)
    (hk : Reads (k b) (f :: fs) hs Q) : Reads (r >>= k) (f :: fs) hs Q := by
  refine look hr (fun c hc => ?_) hk
  obtain ⟨p, hp⟩ := peek_zero hc
  rw [hp, ha]

theorem get {k : Cursor → Reader β}
    (hk : ∀ c : Cursor, T c.tokens → c.faces = fs → ReadsOn T (k c) fs hs Q) :
    ReadsOn T (MonadState.get >>= k) fs hs Q :=
  fun c hT hc => hk c hT hc c hT hc

theorem current {k : Token → Reader β} (hk : ∀ p, ReadsOn T (k (f.token p)) (f :: fs) hs Q) :
    ReadsOn T (Reader.current >>= k) (f :: fs) hs Q := by
  intro c hT hc
  obtain ⟨p, hp⟩ := peek_zero hc
  rw [bind_ok (run_current c), hp]
  exact hk p c hT hc

/-- Asking for the position takes nothing. -/
theorem position {k : Position → Reader β} (hk : ∀ p, ReadsOn T (k p) fs hs Q) :
    ReadsOn T (Reader.position >>= k) fs hs Q :=
  fun c hT hc => hk (c.peek 0).position c hT hc

theorem budget {k : Nat → Reader β} (hk : ∀ n, fs.length < n → ReadsOn T (k n) fs hs Q) :
    ReadsOn T (Reader.budget >>= k) fs hs Q := by
  intro c hT hc
  have hlen := c.length_faces_le
  rw [hc] at hlen
  exact hk (c.tokens.size + 1) (by omega) c hT hc

theorem sees (hk : Reads (k (f.reads w)) (f :: fs) hs Q) :
    Reads (Reader.sees w >>= k) (f :: fs) hs Q :=
  ahead (·.reads w) (fun _ => rfl) (fun _ => rfl) hk

theorem seesAny (hk : Reads (k (f.readsAny ws)) (f :: fs) hs Q) :
    Reads (Reader.seesAny ws >>= k) (f :: fs) hs Q :=
  ahead (·.readsAny ws) (fun _ => rfl) (fun _ => rfl) hk

theorem seesKind {kind : Kind} (hk : Reads (k (f.1 == kind)) (f :: fs) hs Q) :
    Reads (Reader.seesKind kind >>= k) (f :: fs) hs Q :=
  ahead (·.kind == kind) (fun _ => rfl) (fun _ => rfl) hk

theorem seesKinds {kinds : List Kind} (hk : Reads (k (kinds.contains f.1)) (f :: fs) hs Q) :
    Reads (Reader.seesKinds kinds >>= k) (f :: fs) hs Q :=
  ahead (kinds.contains ·.kind) (fun _ => rfl) (fun _ => rfl) hk

theorem atFinish (hk : Reads (k (f.1 == .finish)) (f :: fs) hs Q) :
    Reads (Reader.atFinish >>= k) (f :: fs) hs Q :=
  ahead (·.isFinish) (fun _ => rfl) (fun _ => rfl) hk

theorem seesNext (hk : Reads (k (g.reads w)) (f :: g :: fs) hs Q) :
    Reads (Reader.seesAhead 1 w >>= k) (f :: g :: fs) hs Q := by
  refine look (fun c => rfl) (fun c hc => ?_) hk
  obtain ⟨p, hp⟩ := peek_one hc
  rw [hp]
  rfl

theorem seesAhead {n : Nat} (hk : ∀ b, ReadsOn T (k b) fs hs Q) :
    ReadsOn T (Reader.seesAhead n w >>= k) fs hs Q :=
  fun c hT hc => hk ((c.peek n).reads w) c hT hc

theorem peekNext {k : Token → Reader β} (hk : ∀ p, Reads (k (g.token p)) (f :: g :: fs) hs Q) :
    Reads (Reader.peek 1 >>= k) (f :: g :: fs) hs Q := by
  intro c hT hc
  obtain ⟨p, hp⟩ := peek_one hc
  rw [bind_ok (show (Reader.peek 1).run c = (.ok (c.peek 1), c) from rfl), hp]
  exact hk p c hT hc

theorem advance {k : Token → Reader β} (hf : f.1 ≠ .finish)
    (hk : ∀ p, ReadsOn T (k (f.token p)) fs hs Q) :
    ReadsOn T (Reader.advance >>= k) (f :: fs) hs Q := by
  intro c hT hc
  obtain ⟨p, hp⟩ := peek_zero hc
  rw [bind_ok (run_advance c), hp]
  obtain ⟨a, c', hrun, htokens, hfaces, hfaults, ha⟩ :=
    hk p c.next (c.tokens_next ▸ hT) (c.faces_next hc hf)
  exact ⟨a, c', hrun, htokens.trans c.tokens_next, hfaces, hfaults.trans c.faults_next, ha⟩

theorem accept_true (hf : (f.1 != .finish && f.readsAny ws) = true) :
    Reads (accept ws) (f :: fs) fs (fun b => b = true) := by
  intro c _ hc
  obtain ⟨p, hp⟩ := peek_zero hc
  rw [Bool.and_eq_true, bne_iff_ne] at hf
  refine ⟨true, c.next, ?_, c.tokens_next, c.faces_next hc hf.1, c.faults_next, rfl⟩
  rw [run_accept, hp]
  exact if_pos hf.2

theorem accept_false (hf : f.readsAny ws = false) :
    Reads (accept ws) (f :: fs) (f :: fs) (fun b => b = false) := by
  intro c _ hc
  obtain ⟨p, hp⟩ := peek_zero hc
  refine ⟨false, c, ?_, rfl, hc, rfl, rfl⟩
  rw [run_accept, hp]
  exact if_neg (by rw [show (f.token p).readsAny ws = f.readsAny ws from rfl, hf]; decide)

theorem take (hf : (f.1 != .finish && f.readsAny ws) = true) (hA : Reads A fs hs Q) :
    Reads (accept ws >>= fun b => if b = true then A else B) (f :: fs) hs Q := by
  exact (accept_true hf).bind fun b hb => yes hb hA

theorem leave (hf : f.readsAny ws = false) (hB : Reads B (f :: fs) hs Q) :
    Reads (accept ws >>= fun b => if b = true then A else B) (f :: fs) hs Q := by
  exact (accept_false hf).bind fun b hb => no hb hB

theorem pass_true (hf : (f.1 != .finish && f.readsAny ws) = true) :
    Reads (pass ws) (f :: fs) fs (fun _ => True) :=
  (accept_true hf).bind fun _ _ => pure trivial

theorem pass_false (hf : f.readsAny ws = false) :
    Reads (pass ws) (f :: fs) (f :: fs) (fun _ => True) :=
  (accept_false hf).bind fun _ _ => pure trivial

theorem passTake {k : Unit → Reader β} (hf : (f.1 != .finish && f.readsAny ws) = true)
    (hk : Reads (k ()) fs hs Q) : Reads (pass ws >>= k) (f :: fs) hs Q :=
  (pass_true hf).bind fun _ _ => hk

theorem passLeave {k : Unit → Reader β} (hf : f.readsAny ws = false)
    (hk : Reads (k ()) (f :: fs) hs Q) : Reads (pass ws >>= k) (f :: fs) hs Q :=
  (pass_false hf).bind fun _ _ => hk

theorem expect {k : Unit → Reader β} (hf : (f.1 != .finish && f.reads w) = true)
    (hk : Reads (k ()) fs hs Q) : Reads (Reader.expect w >>= k) (f :: fs) hs Q := by
  intro c _ hc
  obtain ⟨p, hp⟩ := peek_zero hc
  rw [Bool.and_eq_true, bne_iff_ne] at hf
  have hrun : (Reader.expect w).run c = (.ok (), c.next) := by
    rw [run_expect, hp]
    exact if_pos hf.2
  obtain ⟨a, c', hrun', htokens, hfaces, hfaults, ha⟩ := hk c.next trivial (c.faces_next hc hf.1)
  exact ⟨a, c', by rw [bind_ok hrun, hrun'], htokens.trans c.tokens_next, hfaces,
    hfaults.trans c.faults_next, ha⟩

theorem optionallyTake (hf : (f.1 != .finish && f.readsAny ws) = true) (hr : Reads r fs gs P) :
    Reads (maybe ws r) (f :: fs) gs (fun o => ∃ a, o = some a ∧ P a) :=
  take hf (hr.bind fun a ha => pure ⟨a, rfl, ha⟩)

theorem optionallyLeave (hf : f.readsAny ws = false) :
    Reads (maybe ws r) (f :: fs) (f :: fs) (fun o => o = none) :=
  leave hf (pure rfl)

end Steps

/-! ### Loops -/

section Loops
variable {turn : Reader (Turn α)} {n : Nat} {Q : List α → Prop} {G : List Face → Prop}

theorem turns_stop (h : Reads turn fs gs (fun t => t = .stop)) :
    Reads (turns turn (n + 1)) fs gs (fun as => as = []) := by
  rw [turns]
  refine h.bind fun t ht => ?_
  rw [ht]
  exact pure rfl

theorem turns_next (h : Reads turn fs gs (fun t => t = .next))
    (hrest : Reads (turns turn n) gs hs Q) : Reads (turns turn (n + 1)) fs hs Q := by
  rw [turns]
  refine h.bind fun t ht => ?_
  rw [ht]
  exact hrest

theorem turns_item {P : α → Prop} (h : Reads turn fs gs (fun t => ∃ a, t = .item a ∧ P a))
    (hrest : Reads (turns turn n) gs hs Q) :
    Reads (turns turn (n + 1)) fs hs (fun as => ∃ a as', as = a :: as' ∧ P a ∧ Q as') := by
  rw [turns]
  refine h.bind fun t ht => ?_
  obtain ⟨a, rfl, ha⟩ := ht
  exact hrest.bind fun as has => pure ⟨a, as, rfl, ha, has⟩

theorem turns_last {P : α → Prop} (h : Reads turn fs gs (fun t => ∃ a, t = .last a ∧ P a)) :
    Reads (turns turn (n + 1)) fs gs (fun as => ∃ a, as = [a] ∧ P a) := by
  rw [turns]
  refine h.bind fun t ht => ?_
  obtain ⟨a, rfl, ha⟩ := ht
  exact pure ⟨a, rfl, ha⟩

/-- A loop that takes an item each turn, and what it makes of the rest. What
    follows an item is the next one or the rest, and `G` holds of both. -/
theorem turns_items_append {spell : ι → List Face} {R : ι → α → Prop} {Q : List α → Prop} {m : Nat}
    (hrest : ∀ n, m ≤ n → Reads (turns turn n) gs hs Q) (hgs : G gs) (items : List ι)
    (hspell : ∀ i ∈ items, ∀ fs, G (spell i ++ fs)) (hitem : ∀ i ∈ items, ∀ fs, G fs →
      Reads turn (spell i ++ fs) fs (fun t => ∃ a, t = .item a ∧ R i a)) (n : Nat)
    (hn : items.length + m ≤ n) : Reads (turns turn n) (items.flatMap spell ++ gs) hs
      (fun as => ∃ bs cs, as = bs ++ cs ∧ Forall₂ R items bs ∧ Q cs) := by
  induction items generalizing n with
  | nil => exact (hrest n (by simpa using hn)).imp fun as has => ⟨[], as, rfl, .nil, has⟩
  | cons i items ih =>
    rw [length_cons] at hn
    obtain ⟨n, rfl⟩ : ∃ m, n = m + 1 := ⟨n - 1, by omega⟩
    have hmore := ih (fun j hj => hspell j (by simp [hj])) (fun j hj => hitem j (by simp [hj])) n
      (by omega)
    -- What follows this item is the next one or the rest.
    have hgood : G (items.flatMap spell ++ gs) := by
      cases items with
      | nil => exact hgs
      | cons j items =>
        rw [flatMap_cons, append_assoc]
        exact hspell j (by simp) _
    have h := turns_item (hitem i (by simp) _ hgood) hmore
    rw [flatMap_cons, append_assoc]
    refine h.imp ?_
    rintro _ ⟨a, _, rfl, ha, bs, cs, rfl, hbs, hcs⟩
    exact ⟨a :: bs, cs, rfl, .cons ha hbs, hcs⟩

theorem turns_items {spell : ι → List Face}
    {R : ι → α → Prop} (hstop : Reads turn gs gs (fun t => t = .stop)) (hgs : G gs)
    (items : List ι) (hspell : ∀ i ∈ items, ∀ fs, G (spell i ++ fs))
    (hitem : ∀ i ∈ items, ∀ fs, G fs →
      Reads turn (spell i ++ fs) fs (fun t => ∃ a, t = .item a ∧ R i a)) (n : Nat)
    (hn : items.length < n) :
    Reads (turns turn n) (items.flatMap spell ++ gs) gs (Forall₂ R items) := by
  have hrest : ∀ n, 1 ≤ n → Reads (turns turn n) gs gs (fun as => as = []) := by
    intro n hn
    obtain ⟨n, rfl⟩ : ∃ m, n = m + 1 := ⟨n - 1, by omega⟩
    exact turns_stop hstop
  refine (turns_items_append hrest hgs items hspell hitem n hn).imp ?_
  rintro _ ⟨bs, _, rfl, hbs, rfl⟩
  rwa [append_nil]

theorem turns_intercalate {spell : ι → List Face} {R : ι → α → Prop} {sep : Face}
    (hstop : Reads turn gs gs (fun t => t = .stop)) (items : List ι)
    (hmore : ∀ i ∈ items, ∀ fs, Reads turn (spell i ++ sep :: fs) fs
      (fun t => ∃ a, t = .item a ∧ R i a))
    (hlast : ∀ i ∈ items, Reads turn (spell i ++ gs) gs (fun t => ∃ a, t = .item a ∧ R i a))
    (n : Nat) (hn : items.length < n) :
    Reads (turns turn n) ([sep].intercalate (items.map spell) ++ gs) gs (Forall₂ R items) := by
  induction items generalizing n with
  | nil =>
    obtain ⟨n, rfl⟩ : ∃ m, n = m + 1 := ⟨n - 1, by simp at hn; omega⟩
    exact (turns_stop hstop).imp fun as has => has ▸ .nil
  | cons i items ih =>
    obtain ⟨n, rfl⟩ : ∃ m, n = m + 1 := ⟨n - 1, by simp at hn; omega⟩
    have hrest := ih (fun j hj => hmore j (by simp [hj])) (fun j hj => hlast j (by simp [hj])) n
      (by simpa using hn)
    have hturn : Reads (turns turn (n + 1))
        ([sep].intercalate ((i :: items).map spell) ++ gs) gs
        (fun as => ∃ a as', as = a :: as' ∧ R i a ∧ Forall₂ R items as') := by
      cases items with
      -- Only the last item has no separator behind it.
      | nil => simpa [intercalate] using turns_item (hlast i (by simp)) hrest
      | cons j items =>
        have h := turns_item (hmore i (by simp) _) hrest
        simpa [intercalate] using h
    refine hturn.imp ?_
    rintro _ ⟨a, as, rfl, ha, has⟩
    exact .cons ha has

end Loops
end ReadsOn
end Reader

namespace Core
open Reader
variable {α : Type} {ts : List Token} (x : String) (lines : List Line) (line : Line)

def shown (line : Line) : List Face := line.map Spelling.face

theorem shown_cons (s : Spelling) (line : Line) : shown (s :: line) = s.face :: shown line := rfl

theorem shown_append (line' : Line) : shown (line ++ line') = shown line ++ shown line' :=
  map_append

theorem length_shown : (shown line).length = line.length := length_map _

theorem face_word (h : Scan.isWordText x.toList = true) :
    (word x h).face = Vocabulary.classify x := rfl

theorem shown_separated (sep : Spelling) (lines : List Line) :
    shown (separated sep lines) = [sep.face].intercalate (lines.map shown) := by
  fun_induction separated sep lines with
  | case1 => rfl
  | case2 l => simp [intercalate]
  | case3 l lines hne ih =>
    obtain ⟨l', lines, rfl⟩ := exists_cons_of_ne_nil hne
    simpa [intercalate, shown_append, shown_cons] using ih

theorem length_intercalate_cons (sep : α) (l l' : List α) (lines : List (List α)) :
    ([sep].intercalate (l :: l' :: lines)).length =
      l.length + 1 + ([sep].intercalate (l' :: lines)).length := by
  simp [intercalate]
  omega

theorem length_le_intercalate (sep : α) {line : List α} {lines : List (List α)} (h : line ∈ lines) :
    line.length ≤ ([sep].intercalate lines).length := by
  induction lines with
  | nil => exact absurd h (by simp)
  | cons l lines ih =>
    cases lines with
    | nil =>
      rw [mem_singleton.mp h]
      simp [intercalate]
    | cons l' lines =>
      rw [length_intercalate_cons]
      rcases mem_cons.mp h with rfl | h
      · omega
      · have := ih h
        omega

theorem length_le_length_intercalate (sep : α) (lines : List (List α)) :
    lines.length ≤ ([sep].intercalate lines).length + 1 := by
  induction lines with
  | nil => simp
  | cons l lines ih =>
    cases lines with
    | nil => simp
    | cons l' lines =>
      rw [length_intercalate_cons]
      simp only [length_cons] at ih ⊢
      omega

theorem length_le_separated (sep : Spelling) {line : Line} {lines : List Line}
    (h : line ∈ lines) : line.length ≤ (separated sep lines).length := by
  rw [← length_shown line, ← length_shown, shown_separated]
  exact length_le_intercalate sep.face (mem_map_of_mem h)

theorem length_le_length_separated (sep : Spelling) (lines : List Line) :
    lines.length ≤ (separated sep lines).length + 1 := by
  rw [← length_shown, shown_separated, ← length_map shown]
  exact length_le_length_intercalate sep.face _

section Separated
variable {α ι : Type} {turn : Reader (Turn α)} {spell : ι → Line} {R : ι → α → Prop}
  {sep : Spelling} {rest : List Face}

theorem reads_separated_last (i : ι) (items : List ι)
    (hmore : ∀ j ∈ i :: items, ∀ fs, Reads turn (shown (spell j) ++ sep.face :: fs) fs
      (fun t => ∃ a, t = .item a ∧ R j a))
    (hlast : ∀ j ∈ i :: items, Reads turn (shown (spell j) ++ rest) rest
      (fun t => ∃ a, t = .last a ∧ R j a)) (n : Nat) (hn : items.length < n) :
    Reads (turns turn n) (shown (separated sep ((i :: items).map spell)) ++ rest) rest
      (Forall₂ R (i :: items)) := by
  induction items generalizing i n with
  | nil =>
    obtain ⟨n, rfl⟩ : ∃ m, n = m + 1 := ⟨n - 1, by simp at hn; omega⟩
    refine (ReadsOn.turns_last (hlast i (by simp))).imp ?_
    rintro _ ⟨a, rfl, ha⟩
    exact .cons ha .nil
  | cons j items ih =>
    obtain ⟨n, rfl⟩ : ∃ m, n = m + 1 := ⟨n - 1, by simp at hn; omega⟩
    have hrest := ih j (fun k hk => hmore k (by simp [hk])) (fun k hk => hlast k (by simp [hk])) n
      (by simpa using hn)
    have h := ReadsOn.turns_item (hmore i (by simp) _) hrest
    simp only [map_cons, separated, shown_append, shown_cons, append_assoc,
      cons_append] at h ⊢
    refine h.imp ?_
    rintro _ ⟨a, as, rfl, ha, has⟩
    exact .cons ha has

end Separated

theorem map_face_scan : (scan (String.ofList (Spelling.layout lines))).map face =
      Spelling.faces lines ++ [(.finish, .none)] := by
  rw [scan, String.toList_ofList]
  exact Spelling.shows_layout lines .start

theorem closed_of_faces {fs : List Face}
    (h : ts.map face = fs ++ [(.finish, .none)]) : closed ts = ts := by
  have hlast := congrArg getLast? h
  rw [getLast?_map, getLast?_concat, Option.map_eq_some_iff] at hlast
  obtain ⟨t, ht, hface⟩ := hlast
  have hfinish : t.isFinish = true := by
    rw [isFinish, show t.kind = .finish from congrArg Prod.fst hface]
    rfl
  rw [closed, ht]
  exact if_pos hfinish

theorem faces_ofTokens {fs : List Face} (h : ts.map face = fs ++ [(.finish, .none)]) :
    (ofTokens ts).faces = fs ++ [(.finish, .none)] := by
  rw [faces, ofTokens, closed_of_faces h]
  exact h

theorem faces_ofTokens_layout : (ofTokens (scan (String.ofList (Spelling.layout lines)))).faces =
      Spelling.faces lines ++ [(.finish, .none)] :=
  faces_ofTokens (map_face_scan lines)

def written (s : Spelling) : String := String.ofList s.chars

theorem written_word (h : Scan.isWordText x.toList = true) :
    written (word x h) = x := String.ofList_toList

def textOf (lines : List (List String)) : String :=
  String.join (lines.map fun words => " ".intercalate words ++ "\n")

theorem lineChars_eq_toList :
    Spelling.lineChars line = (" ".intercalate (line.map written) ++ "\n").toList := by
  fun_induction Spelling.lineChars line with
  | case1 => rfl
  | case2 s =>
    rw [map_singleton, String.intercalate_singleton, String.toList_append, written,
      String.toList_ofList]
    rfl
  | case3 s t rest ih =>
    rw [ih]
    simp [String.intercalate_cons_cons, written]

theorem ofList_layout :
    String.ofList (Spelling.layout lines) = textOf (lines.map (map written)) := by
  rw [← String.toList_inj, String.toList_ofList, textOf, String.toList_join, map_map,
    flatMap_map, Spelling.layout]
  exact flatMap_congr fun line _ => lineChars_eq_toList line

def Plain.face (w : Plain) : Face := (.identifier, .text w.text)

theorem Plain.face_spell (w : Plain) : w.spell.face = w.face := w.identifier

theorem Plain.not_contains (w : Plain) {ws : List String} (h : ∀ x ∈ ws, x ∈ Grammar.literals) :
    ws.contains w.text = false := by
  rw [contains_eq_mem, decide_eq_false_iff_not]
  exact fun hw => w.free (h _ hw)

theorem Plain.leaves (w : Plain) {ws : List String} (h : ∀ x ∈ ws, x ∈ Grammar.literals) :
    w.face.readsAny ws = false := w.not_contains h

theorem Plain.face_ne_finish (w : Plain) : w.face.1 ≠ .finish := ne_of_beq_false rfl

theorem Plain.ne (w : Plain) {x : String} (h : x ∈ Grammar.literals) : w.text ≠ x :=
  fun hw => w.free (hw ▸ h)

end Core
end Parlance
