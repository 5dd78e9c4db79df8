import Parlance.Proofs.Chain

/-!
# Reading Expressions Back

The reader of values takes exactly the tokens of a printed expression and gives the
expression back. An expression of the core language is a chain of operands, whose operators
are all written as signs; so this is a case of what is known of chains. All the rest is a
matter of what a value begins with: none of the words that the grammar looks out for
(`startsValue`).

## Theorems

* `Core.reads_name`: A name of one word ends before a word that stops it.
* `Core.Expr.starts`: An expression begins with a token that starts a value.
* `Core.reads_value`: A value is read as it is spelled, up to where one may end.
-/

namespace Parlance
open List

namespace Core
open Reader
open Arithmetic (Operand Chain Joint Key mark)
variable {f g : Token.Face} {fs gs rest : List Token.Face} {w : Plain}
variable {stops : List String} {c : Cursor} (a : Primary)

theorem nameTurn_first (hfree : stops.contains w.text = false)
    (hc : c.faces = w.face :: fs) : nameTurn stops true c = .word := by
  obtain ⟨p, hp⟩ := Cursor.peek_zero hc
  have hstop : (w.face.token p).content.isOneOf stops = false := hfree
  have harticle : (w.face.token p).content.isOneOf Grammar.articles = false :=
    w.not_contains fun x hx => by simp [Grammar.literals, hx]
  simp only [nameTurn, hp, hstop, harticle]
  rfl

theorem reads_name_of (hfree : stops.contains w.text = false)
    (hend : g.1.isWord = false ∨ g.2.isOneOf stops = true) :
    Reads (name stops) (w.face :: g :: fs) (g :: fs) (fun s => s = w.text) := by
  have hfirst : ∀ c : Cursor, c.faces = w.face :: g :: fs → nameTurn stops true c = .word :=
    fun c hc => nameTurn_first hfree hc
  have hlast : ∀ c : Cursor, c.faces = g :: fs → nameTurn stops false c = .stop := by
    intro c hc
    obtain ⟨p, hp⟩ := Cursor.peek_zero hc
    simp only [nameTurn, hp]
    rw [if_pos]
    rcases hend with h | h
    · simp [Token.isWord, Token.Face.token, h]
    · simp [Token.Face.token, h]
  unfold name
  refine .budget fun n hn => ?_
  refine (reads_nameWords (by simp at hn; omega) w.face_ne_finish hfirst hlast).bind
    fun ws hws => ?_
  rw [hws]
  exact .pure rfl

/-- A name of one word ends before a word that stops it. -/
theorem reads_name (hstops : ∀ x ∈ stops, x ∈ Grammar.literals)
    (hend : g.1.isWord = false ∨ g.2.isOneOf stops = true) :
    Reads (name stops) (w.face :: g :: fs) (g :: fs) (fun s => s = w.text) :=
  reads_name_of (w.not_contains hstops) hend

theorem reads_identifier : Reads ident (w.face :: fs) fs (fun s => s = w.text) := by
  unfold ident
  refine .current fun p => ?_
  exact .advance w.face_ne_finish fun q => .pure rfl

theorem reads_nameOrText : Reads nameOrText (w.face :: fs) fs (fun s => s = w.text) := by
  unfold nameOrText
  refine .current fun p => ?_
  exact .advance w.face_ne_finish fun q => .pure rfl

theorem Plain.reads_literal (w : Plain) {x : String} (h : x ∈ Grammar.literals) :
    w.face.reads x = false := beq_false_of_ne (w.ne h)

theorem forall₂_concat {α β : Type} {R : α → β → Prop} {xs : List α} {x : α} {ys : List β}
    (h : Forall₂ R (xs ++ [x]) ys) : ∃ zs y, ys = zs ++ [y] ∧ Forall₂ R xs zs ∧ R x y := by
  induction xs generalizing ys with
  | nil =>
    cases h with
    | cons hy hrest =>
      rw [forall₂_nil_left_iff.mp hrest]
      exact ⟨[], _, rfl, .nil, hy⟩
  | cons a xs ih =>
    cases h with
    | cons hb hrest =>
      obtain ⟨zs, y, rfl, hzs, hy⟩ := ih hrest
      exact ⟨_ :: zs, y, rfl, .cons hb hzs, hy⟩

theorem Sign.face_spell (op : Sign) : op.spell.face = (.operator, .text op.op.sign) := by
  cases op <;> rfl

theorem shown_flatMap {α : Type} (spell : α → Line) (items : List α) :
    shown (items.flatMap spell) = items.flatMap fun i => shown (spell i) := map_flatMap

/-! ### Expressions as chains -/

theorem Plain.namesVariable_face (w : Plain) : Arithmetic.namesVariable w.face = true := by
  have hlead : Arithmetic.leadWords.contains w.text = false :=
    w.not_contains (by decide)
  rw [Plain.face, Arithmetic.namesVariable, hlead]
  rfl

def textKey (q : Quotable) : Key where
  face := (.text, .text q.body)
  isKey := rfl

mutual

def Primary.operand : Primary → Operand
  | .number n => .number (.int n.value)
  | .text q => .text q.body
  | .bool b => .bool b
  | .null => .null
  | .name w => .name w.face w.namesVariable_face
  | .list items => .list (chains items)
  | .object fields => .object (fieldChains fields)

def Expr.head : Expr → Operand
  | .lone a => a.operand
  | .binary left _ _ => left.head

def Expr.links : Expr → List (Joint × Operand)
  | .lone _ => []
  | .binary left op right => left.links ++ [(.sign op, right.operand)]

def chains : List Expr → List Chain
  | [] => []
  | e :: rest => .mk e.head e.links :: chains rest

def fieldChains : List (Quotable × Expr) → List (Key × Chain)
  | [] => []
  | (q, e) :: rest => (textKey q, .mk e.head e.links) :: fieldChains rest

end

def Expr.chain (e : Expr) : Chain := .mk e.head e.links

mutual

theorem Primary.faces_operand : ∀ a : Primary, a.operand.faces = shown a.spell
  | .number n => rfl
  | .text q => rfl
  | .bool true => rfl
  | .bool false => rfl
  | .null => rfl
  | .name w => by
      rw [Primary.operand, Operand.faces, Primary.spell, shown_cons, Plain.face_spell]
      rfl
  | .list items => by
      rw [Primary.operand, Operand.faces, faces_chains, Primary.spell, shown_cons, shown_append,
        shown_separated]
      rfl
  | .object fields => by
      rw [Primary.operand, Operand.faces, faces_fieldChains, Primary.spell, shown_cons,
        shown_append, shown_separated]
      rfl

theorem Expr.faces_chain : ∀ e : Expr, e.chain.faces = shown e.spell
  | .lone a => by
      rw [Expr.chain, Chain.faces, Expr.head, Expr.links, a.faces_operand]
      exact append_nil _
  | .binary left op right => by
      have hleft := left.faces_chain
      rw [Expr.chain, Chain.faces, Arithmetic.linkFaces_eq] at hleft ⊢
      rw [Expr.head, Expr.links, flatMap_append, ← append_assoc, hleft, Expr.spell,
        shown_append, shown_cons, Sign.face_spell, ← right.faces_operand]
      simp [Arithmetic.ofLink, Joint.faces]

theorem faces_chains : ∀ items : List Expr,
    Arithmetic.itemFaces (chains items) = (spellItems items).map shown
  | [] => rfl
  | e :: rest => by
      rw [chains, Arithmetic.itemFaces, faces_chains rest, spellItems, map_cons,
        ← e.faces_chain]
      rfl

theorem faces_fieldChains : ∀ fields : List (Quotable × Expr),
    Arithmetic.fieldFaces (fieldChains fields) = (spellFields fields).map shown
  | [] => rfl
  | (q, e) :: rest => by
      rw [fieldChains, Arithmetic.fieldFaces, faces_fieldChains rest, spellFields, map_cons,
        shown_cons, shown_cons, ← e.faces_chain]
      rfl

end

mutual

theorem Primary.placed_of_operand : ∀ (a : Primary) {x : Parlance.Expr},
    a.operand.Placed x → a.Placed x
  | .number n, x, h => by
      cases h
      exact .number
  | .text q, x, h => by
      cases h
      exact .text
  | .bool b, x, h => by
      cases h
      exact .bool
  | .null, x, h => by
      cases h
      exact .null
  | .name w, x, h => by
      cases h
      exact .name
  | .list items, x, h => by
      cases h with
      | list hes => exact .list (placed_of_chains items hes)
  | .object fields, x, h => by
      cases h with
      | object hkeys hes =>
        have hfields := placed_of_fieldChains fields (forall₂_parts.mpr ⟨hkeys, hes⟩)
        obtain ⟨hkeys', hes'⟩ := forall₂_parts.mp hfields
        exact .object hkeys' hes'

theorem Expr.placed_of_chain : ∀ (e : Expr) {x : Parlance.Expr}, e.chain.Placed x → e.Placed x
  | .lone a, x, h => .lone (a.placed_of_operand (Chain.Placed.singleton h))
  | .binary left op right, x, h => by
      cases h with
      | mk hx hops hoperands =>
        -- The last link is the operator at the root, and the others are those of the left.
        obtain ⟨zs, ⟨o, y⟩, rfl, hzs, ho, hy⟩ :=
          forall₂_concat (forall₂_parts.mpr ⟨hops, hoperands⟩)
        obtain ⟨hops', hoperands'⟩ := forall₂_parts.mp hzs
        rw [foldl_append, ← show op.op = o from ho]
        exact .binary (left.placed_of_chain (.mk hx hops' hoperands'))
          (right.placed_of_operand hy)

theorem placed_of_chains : ∀ (items : List Expr) {es : List Parlance.Expr},
    Forall₂ Chain.Placed (chains items) es → Forall₂ Expr.Placed items es
  | [], es, h => by
      rw [forall₂_nil_left_iff.mp h]
      exact .nil
  | item :: rest, es, h => by
      cases h with
      | cons hitem hrest =>
        exact .cons (item.placed_of_chain hitem) (placed_of_chains rest hrest)

theorem placed_of_fieldChains : ∀ (fields : List (Quotable × Expr))
    {es : List (String × Parlance.Expr)},
    Forall₂ (fun (field : Key × Chain) e => field.1.face.2.spelling = e.1 ∧
      field.2.Placed e.2) (fieldChains fields) es →
    Forall₂ (fun field e => field.1.body = e.1 ∧ field.2.Placed e.2) fields es
  | [], es, h => by
      rw [forall₂_nil_left_iff.mp h]
      exact .nil
  | (q, e) :: rest, es, h => by
      cases h with
      | cons hfield hrest =>
        obtain ⟨hkey, he⟩ := hfield
        exact .cons ⟨hkey, e.placed_of_chain he⟩ (placed_of_fieldChains rest hrest)

end

def startsValue (g : Token.Face) : Bool :=
  match g with
  | (.number, .number _) | (.text, _) | (.boolean, .flag _) | (.null, .none) => true
  | (.identifier, .text w) => !Grammar.literals.contains w
  | (.punctuation, .text s) => s == "[" || s == "\x7b"
  | _ => false

theorem Plain.startsValue_face (w : Plain) : startsValue w.face = true := by
  have h : Grammar.literals.contains w.text = false := w.not_contains fun x hx => hx
  simp only [startsValue, Plain.face, h]
  rfl

theorem Primary.starts (rest : List Token.Face) : Starts startsValue (shown a.spell ++ rest) := by
  cases a with
  | name w =>
    rw [Primary.spell, shown_cons, Plain.face_spell]
    exact w.startsValue_face
  | bool b =>
    cases b <;> simp [Primary.spell, flag, word, shown_cons, Spelling.face, Starts, startsValue,
      Vocabulary.classify_words]
  | null =>
    simp [Primary.spell, word, shown_cons, Spelling.face, Starts, startsValue,
      Vocabulary.classify_words]
  | _ => rfl

/-- An expression begins with a token that starts a value. -/
theorem Expr.starts (e : Expr) (rest : List Token.Face) :
    Starts startsValue (shown e.spell ++ rest) := by
  cases e with
  | lone a => exact a.starts rest
  | binary left op right =>
    rw [Expr.spell, shown_append, append_assoc]
    exact left.starts _

theorem readsAny_of_startsValue (hg : startsValue g = true) {ws : List String}
    (hws : (∀ x ∈ ws, x ∈ Grammar.literals) ∧ ws.contains "[" = false ∧
      ws.contains "\x7b" = false) :
    g.readsAny ws = false := by
  unfold startsValue at hg
  split at hg
  · rfl
  · rfl
  · rfl
  · rfl
  · rename_i w
    have h : ws.contains w = false := by
      rw [contains_eq_mem, decide_eq_false_iff_not]
      intro hw
      simp [hws.1 w hw] at hg
    exact h
  · rename_i t
    rw [Bool.or_eq_true, beq_iff_eq, beq_iff_eq] at hg
    rcases hg with rfl | rfl
    · exact hws.2.1
    · exact hws.2.2
  · exact absurd hg (by decide)

theorem reads_eq_readsAny (g : Token.Face) (x : String) : g.reads x = g.readsAny [x] := by
  obtain ⟨kind, content⟩ := g
  cases content with
  | text s =>
    simp only [Token.Face.reads, Token.Face.readsAny, Token.Content.isText,
      Token.Content.isOneOf, contains_cons, contains_nil, Bool.or_false]
  | _ => rfl

theorem kind_of_startsValue (hg : startsValue g = true) :
    g.1 ∈ [.number, .text, .boolean, .null, .identifier, .punctuation] := by
  obtain ⟨kind, content⟩ := g
  cases kind <;> simp [startsValue] at hg ⊢

theorem ne_finish_of_startsValue (hg : startsValue g = true) : g.1 ≠ .finish := by
  intro h
  have := kind_of_startsValue hg
  rw [h] at this
  exact absurd this (by decide)

theorem atStatement_of_startsValue (hc : c.faces = g :: fs)
    (hg : startsValue g = true) : c.atStatement = false := by
  obtain ⟨p, hp⟩ := Cursor.peek_zero hc
  have hopens : (g.token p).opensStatement = false := by
    obtain ⟨kind, content⟩ := g
    cases kind <;> simp [startsValue, Token.opensStatement, Token.Face.token] at hg ⊢
  have hline : c.atLineStatement = false := by
    unfold Cursor.atLineStatement
    rw [hp]
    unfold startsValue at hg
    split at hg
    · rfl
    · rfl
    · rfl
    · rfl
    · rename_i w
      have hopener : (Token.Face.token (.identifier, .text w) p).isOpener = false := by
        have h : w ∉ Grammar.openers := by
          intro hw
          have : w ∈ Grammar.literals := by simp [Grammar.literals, hw]
          simp [this] at hg
        simpa [Token.isOpener, Token.spelling, Token.Face.token, Token.Content.spelling] using h
      simp only [hopener, Bool.and_false, Bool.false_and]
    · rfl
    · exact absurd hg (by decide)
  rw [Cursor.atStatement, hp, hopens, hline]
  rfl

theorem reads_atStatement {β : Type} {k : Bool → Reader β} {Q : β → Prop}
    (hg : startsValue g = true) (hk : Reads (k false) (g :: fs) gs Q) :
    Reads (Reader.atStatement >>= k) (g :: fs) gs Q :=
  .look (fun _ => rfl) (fun _ hc => atStatement_of_startsValue hc hg) hk

theorem reads_chain {n : Nat} (e : Expr) (he : e.spell.length ≤ n) (hend : Starts endsValue rest) :
    Reads (chain (primaryAt n)) (shown e.spell ++ rest) rest e.Placed := by
  rw [← length_shown, ← e.faces_chain] at he
  rw [← e.faces_chain]
  exact (Arithmetic.reads_chain (Arithmetic.readsOperands_primaryAt n) e.chain he hend).imp
    fun _ => e.placed_of_chain

theorem reads_primary (hrest : Starts endsReference rest) :
    Reads primary (shown a.spell ++ rest) rest a.Placed := by
  rw [← a.faces_operand]
  exact (Arithmetic.readsOperands_primary _ a.operand rest le_rfl hrest).imp
    fun _ => a.placed_of_operand

/-- A value is read as it is spelled, up to where one may end. -/
theorem reads_value (e : Expr) (hrest : Starts endsValue rest) :
    Reads value (shown e.spell ++ rest) rest e.Placed := by
  rw [← e.faces_chain]
  exact (e.chain.reads_value hrest).imp fun _ => e.placed_of_chain

end Core
end Parlance
