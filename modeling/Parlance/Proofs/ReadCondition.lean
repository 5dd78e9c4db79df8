import Parlance.Proofs.ReadValue

/-!
# Reading Conditions and Events Back

A condition on a variable begins with its name, and the words after the name
decide which kind of condition it is. The printer always writes `is` there, so
the name ends and the reader of comparisons takes over. No comparison
begins with a word that would make `is` ask for a type (`Core.Comparison.starts`).

## Theorems

* `Core.reads_condition`: A condition is read as it is spelled, up to where one may end.
* `Core.reads_event`: An event is read as it is spelled, up to `then`.
-/

namespace Parlance
open List Vocabulary Condition

namespace Core
open Reader
variable {f g : Token.Face} {fs gs rest : List Token.Face} {w : Plain}
variable (p : Position) (op : Connective) (v : Comparison) (c : Condition)

section Steps
variable {β : Type} {A B : Reader β} {Q : β → Prop} {k : Bool → Reader β}

theorem nullTake (hA : Reads A fs gs Q) :
    Reads (acceptNull >>= fun b => if b = true then A else B) ((.null, .none) :: fs) gs Q :=
  .bind (P := fun b => b = true)
    (.seesKind (.yes rfl (.advance (ne_of_beq_false rfl) fun _ => .pure rfl)))
    fun _ hb => .yes hb hA

theorem nullLeave (hf : f.1 ≠ .null) (hB : Reads B (f :: fs) gs Q) :
    Reads (acceptNull >>= fun b => if b = true then A else B) (f :: fs) gs Q :=
  .bind (P := fun b => b = false) (.seesKind (.no (beq_false_of_ne hf) (.pure rfl)))
    fun _ hb => .no hb hB

theorem pairLeave {x y : String} (hf : f.reads x = false)
    (hk : Reads (k false) (f :: fs) gs Q) : Reads (seesPair x y >>= k) (f :: fs) gs Q := by
  refine .bind (P := fun b => b = false) ?_ fun b hb => hb ▸ hk
  exact .sees (.seesAhead fun b => .pure (by rw [hf]; rfl))

theorem typeQuestionLeave (hg : g.readsAny Grammar.typeWords = false)
    (hk : Reads (k false) (f :: g :: fs) gs Q) :
    Reads (seesTypeQuestion >>= k) (f :: g :: fs) gs Q := by
  refine .bind (P := fun b => b = false) ?_ fun b hb => hb ▸ hk
  refine .sees (.peekNext fun p => .pure ?_)
  rw [show (g.token p).readsAny Grammar.typeWords = g.readsAny Grammar.typeWords from rfl, hg,
    Bool.and_false]

end Steps

theorem reads_comparison (hrest : Starts endsValue rest) :
    Reads comparison (shown v.spell ++ rest) rest v.Placed := by
  unfold comparison
  cases v <;> simp only [Comparison.spell, shown_cons, shown_append, face_word,
    classify_words, cons_append, append_assoc]
  case less e =>
    refine .take rfl (.passTake rfl ?_)
    exact (reads_value e hrest).bind fun v hv => .pure (.less hv)
  case greater e =>
    refine .leave rfl (.take rfl (.passTake rfl ?_))
    exact (reads_value e hrest).bind fun v hv => .pure (.greater hv)
  case equal e =>
    refine .leave rfl (.leave rfl (.take rfl ?_))
    refine .passTake rfl ?_
    exact (reads_value e hrest).bind fun v hv => .pure (.equal hv)
  -- The words `above` and `below` are never printed, so five words are passed over.
  all_goals refine .leave rfl (.leave rfl (.leave rfl (.leave rfl (.leave rfl ?_))))
  case between low high =>
    refine .take rfl ((reads_value low ?_).bind fun v hv => ?_)
    · rfl
    · refine .expect rfl ?_
      exact (reads_value high hrest).bind fun v' hv' => .pure (.between hv hv')
  case empty => exact .leave rfl (.take rfl (.pure .empty))
  case present => exact .leave rfl (.leave rfl (.take rfl (.pure .present)))
  case nothing => exact .leave rfl (.leave rfl (.leave rfl (nullTake (.pure .nothing))))
  all_goals
    refine .leave rfl (.leave rfl (.leave rfl (nullLeave (ne_of_beq_false rfl) ?_)))
    refine .take rfl ?_
    unfold negatedComparison
  case notEqual e =>
    refine .leave rfl (.leave rfl (nullLeave (ne_of_beq_false rfl) ?_))
    refine .take rfl (.passTake rfl ?_)
    exact (reads_value e hrest).bind fun v hv => .pure (.notEqual hv)
  case notEmpty => exact .take rfl (.pure .notEmpty)
  case absent => exact .leave rfl (.take rfl (.pure .absent))
  case notNothing => exact .leave rfl (.leave rfl (nullTake (.pure .notNothing)))

theorem Comparison.starts (rest : List Token.Face) :
    Starts (fun g => !g.readsAny Grammar.typeWords) (shown v.spell ++ rest) := by
  cases v <;> simp only [Comparison.spell, shown_cons, face_word, classify_words,
    cons_append] <;> rfl

theorem reads_subjectCondition (hrest : Starts endsValue rest) :
    Reads (subjectCondition p w.text)
      ((.preposition, .text "is") :: (shown v.spell ++ rest)) rest (Simple.named w v).Placed := by
  have hcomparison := reads_comparison v hrest
  obtain ⟨g, fs, hshown, hg⟩ := (v.starts rest).cons
  rw [hshown] at hcomparison ⊢
  unfold subjectCondition
  refine .leave rfl (.leave rfl (.leave rfl (pairLeave rfl (.no rfl ?_))))
  refine pairLeave rfl (.no rfl (typeQuestionLeave (by simpa using hg) (.no rfl ?_)))
  refine .current fun q => .no rfl (.yes rfl (.passTake rfl ?_))
  exact hcomparison.bind fun c hc => .pure (.named hc)

theorem reads_simpleConditionAt (n : Nat) (s : Simple) (hs : s.spell.length ≤ n)
    (hrest : Starts endsValue rest) :
    Reads (simpleConditionAt n) (shown s.spell ++ rest) rest s.Placed := by
  induction n generalizing s with
  | zero => cases s <;> simp [Simple.spell] at hs
  | succ n ih =>
    rw [simpleConditionAt, simpleConditionOf]
    cases s with
    | named w v =>
      simp only [Simple.spell, shown_cons, face_word, classify_words,
        cons_append, Plain.face_spell]
      refine .current fun p => .leave (w.leaves (by decide)) (.no rfl (.no rfl ?_))
      refine .leave (w.leaves (by decide)) (.leave (w.leaves (by decide)) ?_)
      refine pairLeave (w.reads_literal (by decide)) (.no rfl ?_)
      -- What stands ahead matters only behind `player` and `enemy`, which are no names.
      refine .seesAhead fun b => .seesAhead fun b' => .seesAhead fun b'' => .no ?_ ?_
      · have hsides : (w.face.token p).readsAny ["player", "enemy"] = false :=
          w.leaves (by decide)
        rw [hsides]
        rfl
      · have hstops : ∀ x ∈ Grammar.subjectStops, x ∈ Grammar.literals :=
          fun x hx => by simp [Grammar.literals, hx]
        refine (reads_name hstops (.inr rfl)).bind fun s hs => ?_
        rw [hs]
        exact reads_subjectCondition _ v hrest
    | bool b =>
      have hface : shown (Simple.bool b).spell = [(.boolean, .flag b)] := by
        cases b <;> simp [Simple.spell, flag, shown, face_word, classify_words]
      rw [hface]
      refine .current fun p => .leave rfl (.yes rfl ?_)
      refine .advance (ne_of_beq_false rfl) fun q => .pure ?_
      cases b <;> exact .bool
    | not s =>
      simp only [Simple.spell, shown_cons, face_word, classify_words,
        cons_append]
      rw [Simple.spell, length_cons] at hs
      refine .current fun p => .take rfl ?_
      exact (ih s (by omega)).bind fun c hc => .pure (.not hc)

theorem reads_simpleCondition (s : Simple) (hrest : Starts endsValue rest) :
    Reads simpleCondition (shown s.spell ++ rest) rest s.Placed := by
  refine .budget fun n hn => reads_simpleConditionAt n s ?_ hrest
  rw [length_append, length_shown] at hn
  omega

def Condition.head : Condition → Simple
  | .lone s => s
  | .logical left _ _ => left.head

def Condition.links : Condition → List (Connective × Simple)
  | .lone _ => []
  | .logical left op right => left.links ++ [(op, right)]

def spellCondition (link : Connective × Simple) : Line := connective link.1 :: link.2.spell

theorem Condition.spell_eq : c.spell = c.head.spell ++ c.links.flatMap spellCondition := by
  induction c with
  | lone s => simp [spell, head, links]
  | logical left op right ih =>
    simp [spell, head, links, ih, spellCondition]

theorem Condition.placed_foldl {first : Parlance.Condition}
    {ls : List (Connective × Parlance.Condition)} (hfirst : c.head.Placed first)
    (hls : Forall₂ (fun link l => l.1 = link.1 ∧ link.2.Placed l.2) c.links ls) :
    c.Placed (ls.foldl (fun left link => .logical p link.1 left link.2) first) := by
  induction c generalizing ls with
  | lone s =>
    rw [forall₂_nil_left_iff.mp hls]
    exact .lone hfirst
  | logical left op right ih =>
    obtain ⟨zs, ⟨o, c⟩, rfl, hzs, rfl, hc⟩ := forall₂_concat hls
    rw [foldl_append]
    exact .logical (ih hfirst hzs) hc

theorem face_connective :
    (connective op).face = (.keyword, .text (match op with | .and => "and" | .or => "or")) := by
  cases op <;> simp only [connective, face_word, classify_words]

theorem reads_connective :
    Reads Reader.connective ((connective op).face :: fs) fs (fun o => o = some op) := by
  rw [face_connective]
  unfold Reader.connective
  cases op with
  | and => exact .take rfl (.pure rfl)
  | or => exact .leave rfl (.take rfl (.pure rfl))

def endsCondition (g : Token.Face) : Bool :=
  endsValue g && !g.readsAny ["and"] && !g.readsAny ["or"]

/-- A condition is read as it is spelled, up to where one may end. -/
theorem reads_condition (hrest : Starts endsCondition rest) :
    Reads condition (shown c.spell ++ rest) rest c.Placed := by
  have hgood : Starts endsValue rest := hrest.imp fun g hg => by
    simp only [endsCondition, Bool.and_eq_true] at hg
    exact hg.1.1
  have hlink : ∀ (link : Connective × Simple) fs,
      Starts endsValue (shown (spellCondition link) ++ fs) := by
    rintro ⟨op, s⟩ fs
    rw [spellCondition, shown_cons, face_connective]
    cases op <;> rfl
  have hcount : c.links.length ≤ (c.links.flatMap spellCondition).length :=
    length_le_length_flatMap c.links fun link _ => cons_ne_nil _ _
  rw [c.spell_eq, shown_append, shown_flatMap, append_assoc]
  unfold condition
  -- The first condition ends before a connective, or before what follows all of them.
  refine .position fun p => (reads_simpleCondition c.head ?_).bind fun first hfirst => ?_
  · cases c.links with
    | nil => exact hgood
    | cons link links =>
      rw [flatMap_cons, append_assoc]
      exact hlink link _
  refine .bind (P := Forall₂ (fun link l => l.1 = link.1 ∧ link.2.Placed l.2) c.links) ?_
    fun ls hls => .pure (c.placed_foldl p hfirst hls)
  refine .budget fun m hm => ?_
  refine ReadsOn.turns_items (G := Starts endsValue) ?_ hgood c.links (fun link _ => hlink link) ?_
    m ?_
  · obtain ⟨g, fs, rfl, hg⟩ := hrest.cons
    simp only [endsCondition, Bool.and_eq_true, Bool.not_eq_true'] at hg
    refine .bind (P := fun o => o = none) (.leave hg.1.2 (.leave hg.2 (.pure rfl))) ?_
    rintro _ rfl
    exact .pure rfl
  · rintro ⟨op, s⟩ _ fs hfs
    refine (reads_connective op).bind fun o ho => ?_
    rw [ho]
    exact (reads_simpleCondition s hfs).bind fun c hc => .pure ⟨_, rfl, rfl, hc⟩
  · rw [length_append, ← shown_flatMap, length_shown] at hm
    omega

/-- An event is read as it is spelled, up to `then`. -/
theorem reads_event (e : Event) :
    Reads event (shown e.spell ++ (.keyword, .text "then") :: fs) ((.keyword, .text "then") :: fs)
      e.Placed := by
  unfold event subjectEvent
  refine .position fun p => ?_
  cases e <;> simp only [Event.spell, shown_cons, face_word, classify_words,
    cons_append, Plain.face_spell]
  case starts =>
    refine .seesAny (.yes rfl (.passTake rfl ?_))
    exact .passTake rfl (.pure .starts)
  all_goals
    refine .seesAny (.no (Plain.leaves _ (by decide)) ?_)
    refine .leave (Plain.leaves _ (by decide)) ?_
    refine .passLeave (Plain.leaves _ (by decide)) ?_
    refine reads_identifier.bind fun s hs => ?_
    rw [hs]
  case touches s o =>
    exact .take rfl (reads_identifier.bind fun z hz => .pure (hz ▸ .touches))
  all_goals refine .leave rfl (.leave rfl ?_)
  case clicks s => exact .take rfl (.pure .clicks)
  all_goals refine .leave rfl ?_
  case enters s z =>
    exact .take rfl (reads_identifier.bind fun z hz => .pure (hz ▸ .enters))
  all_goals refine .leave rfl ?_
  case leaves s z =>
    exact .take rfl (reads_identifier.bind fun z hz => .pure (hz ▸ .leaves))
  case custom w =>
    refine .leave rfl (.leave rfl (.leave rfl (.leave rfl ?_)))
    exact .seesAny (.no rfl (.seesKinds (.no rfl (.pure .custom))))

end Core
end Parlance
