import Parlance.Proofs.Faces

/-!
# Reading Chains of Operands

The reader of values takes exactly the tokens of a chain of operands, however its operators are
spelled, and joins the operands from the left.

A name would go on into the next word, so what follows an operand has to end a name
(`Core.endsReference`). A chain would go on at an operator, so what follows a value must not be
one (`Core.endsValue`).

## Main definitions

* `Core.endsReference`: Whether the name of a variable ends before a token with the face.
* `Arithmetic.factorWords`: The words that stand for an operator and may have `by` behind them.
* `Arithmetic.Joint`: An operator as it is written: its sign, or words for it in any letter case.
* `Arithmetic.leadWords`: The words and signs with a meaning of their own where an operand begins.
* `Arithmetic.Key`: A key of an object: a word of any class, a text or a number.

## Theorems

* `Core.reads_links`: A first operand and links of an operator with an operand, joined left to
  right.
* `Arithmetic.readsOperands_primaryAt`: The reader of operands that may nest so deep reads all
  operands of that length.
-/

namespace Parlance
open Token List Vocabulary Parlance.Core
variable {x : String}

namespace Core
open Reader
variable {f g : Face} {fs gs rest : List Face} {α β : Type} {kind : Face → Bool}
variable {P : Parlance.Expr → Prop} {close : String}

theorem reads_nameWords {turn : Bool → Cursor → NameTurn} {n : Nat} (hn : 1 < n)
    (hf : f.1 ≠ .finish) (hfirst : ∀ c : Cursor, c.faces = f :: fs → turn true c = .word)
    (hstop : ∀ c : Cursor, c.faces = fs → turn false c = .stop) :
    Reads (nameWords turn true n) (f :: fs) fs (fun ws => ws = [f.2.spelling]) := by
  obtain ⟨n, rfl⟩ : ∃ m, n = m + 1 + 1 := ⟨n - 2, by omega⟩
  rw [nameWords]
  refine .get fun c _ hc => ?_
  rw [hfirst c hc]
  refine .bind (P := fun s => s = f.2.spelling) (.advance hf fun p => .pure rfl) fun s hs => ?_
  refine .bind (P := fun ws => ws = []) ?_ fun ws hws => .pure (by rw [hs, hws])
  rw [nameWords]
  refine .get fun c' _ hc' => ?_
  rw [hstop c' hc']
  exact .pure rfl

/-- Whether the name of a variable ends before a token with the face. -/
def endsReference (g : Face) : Bool :=
  !g.1.isWord || g.1 == .keyword || g.2.isOneOf Grammar.referenceStops
    || (g.1 == .action && g.2.isOneOf Grammar.statementActions)

theorem not_referenceFollows {c : Cursor} (hc : c.faces = f :: g :: fs)
    (hend : endsReference g = true) : c.referenceFollows = false := by
  obtain ⟨p, hp⟩ := Cursor.peek_one hc
  simp only [endsReference, Bool.or_eq_true] at hend
  unfold Cursor.referenceFollows
  simp only [hp, Face.token]
  rcases hend with ((hword | hkey) | hstop) | haction
  · have hkind : [Kind.identifier, .preposition, .action].contains g.1 = false := by
      revert hword
      cases g.1 <;> decide
    rw [hkind]
    rfl
  · rw [beq_iff_eq.mp hkey]
    rfl
  · rw [hstop, Bool.not_true, Bool.and_false, Bool.false_and]
  · rw [haction, Bool.not_true, Bool.and_false]

theorem reads_reference (hword : f.1.isWord = true) (hkind : f.1 ≠ .keyword)
    (hstop : f.2.isOneOf Grammar.referenceStops = false) (hend : endsReference g = true) :
    Reads reference (f :: g :: fs) (g :: fs) (fun s => s = f.2.spelling) := by
  have hne : f.1 ≠ .finish := by
    rintro h
    rw [h] at hword
    cases hword
  have hfirst : ∀ c : Cursor, c.faces = f :: g :: fs → referenceTurn true c = .word := by
    intro c hc
    obtain ⟨p, hp⟩ := Cursor.peek_zero hc
    have hstops : (!(f.token p).isWord || (f.token p).kind == .keyword
        || (f.token p).content.isOneOf Grammar.referenceStops) = false := by
      simp [isWord, Face.token, hword, hkind, hstop]
    simp only [referenceTurn, hp, hstops, not_referenceFollows hc hend, Bool.and_false]
    rfl
  have hlast : ∀ c : Cursor, c.faces = g :: fs → referenceTurn false c = .stop := by
    intro c hc
    obtain ⟨p, hp⟩ := Cursor.peek_zero hc
    simp only [referenceTurn, hp]
    -- A word that ends the name stands among the stops or opens a statement.
    simp only [endsReference, Bool.or_eq_true] at hend
    rcases hend with h | h
    · rw [if_pos (by simpa [isWord, Face.token, or_assoc] using h)]
    · by_cases hword : (!(g.token p).isWord || (g.token p).kind == .keyword
        || (g.token p).content.isOneOf Grammar.referenceStops) = true
      · rw [if_pos hword]
      · rw [if_neg hword, if_pos (by decide), if_pos]
        rw [Bool.or_eq_true]
        exact Or.inl h
  unfold reference
  refine .budget fun n hn => ?_
  refine (reads_nameWords (by simp at hn; omega) hne hfirst hlast).bind fun ws hws => ?_
  rw [hws]
  exact .pure rfl

theorem reads_primaryOf_leaf (inner : Reader Parlance.Expr) (hf : f.1 ≠ .finish)
    (hsigns : ∀ x ∈ ["[", "\x7b", "math", "call", "get"], f.reads x = false)
    (hwords : (f.1.isWord && f.2.isOneOf Grammar.functionWords) = false)
    (hleaf : ∀ p, Reads (leaf (f.token p)) (f :: fs) gs P) :
    Reads (primaryOf inner) (f :: fs) gs P := by
  unfold primaryOf
  refine .current fun p => ?_
  refine .no (beq_false_of_ne hf) (.no (hsigns _ (by simp)) (.no (hsigns _ (by simp))
    (.no (hsigns _ (by simp)) ?_)))
  refine .seesAhead fun b => ?_
  refine .no ?_ (.no hwords (.no (hsigns _ (by simp)) (hleaf p)))
  rw [show (f.token p).reads "call" = false from hsigns _ (by simp)]
  rfl

theorem forall₂_parts {γ δ : Type} {R : γ → δ → Prop} {f : α → β} {g : α → γ} {as : List α}
    {bs : List (β × δ)} : Forall₂ (fun a b => f a = b.1 ∧ R (g a) b.2) as bs ↔
      as.map f = bs.map Prod.fst ∧ Forall₂ R (as.map g) (bs.map Prod.snd) := by
  rw [← forall₂_eq_eq_eq, forall₂_map_left_iff, forall₂_map_right_iff,
    forall₂_map_left_iff, forall₂_map_right_iff]
  refine ⟨fun h => ⟨h.imp fun _ _ h => h.1, h.imp fun _ _ h => h.2⟩, ?_⟩
  rintro ⟨hf, hg⟩
  induction hf with
  | nil => exact .nil
  | cons h _ ih =>
    cases hg with
    | cons h' hg => exact .cons ⟨h, h'⟩ (ih hg)

def endsValue (g : Face) : Bool :=
  endsReference g && g.1 != .operator && !g.readsAny ["times"] && !g.readsAny ["multiplied"]
    && !g.readsAny ["divided"]

theorem reads_operator_none (hend : endsValue g = true) :
    Reads operator (g :: fs) (g :: fs) (fun o => o = none) := by
  simp only [endsValue, Bool.and_eq_true, bne_iff_ne, Bool.not_eq_true'] at hend
  obtain ⟨⟨⟨⟨_, hkind⟩, htimes⟩, hmultiplied⟩, hdivided⟩ := hend
  unfold operator
  refine .current fun p => ?_
  refine .no (beq_false_of_ne hkind) (.leave htimes (.leave hmultiplied (.leave hdivided ?_)))
  exact .pure rfl

theorem reads_operator_face {s : String} :
    Reads operator ((.operator, .text s) :: fs) fs (fun o => o = some (.ofSign s)) := by
  unfold operator
  refine .current fun p => ?_
  exact .yes rfl (.advance (ne_of_beq_false rfl) fun q => .pure rfl)

theorem endsReference_of_endsValue (h : endsValue g = true) : endsReference g = true := by
  simp only [endsValue, Bool.and_eq_true] at h
  exact h.1.1.1.1

def Starts (kind : Face → Bool) : List Face → Prop
  | [] => False
  | g :: _ => kind g = true

theorem Starts.imp {kind' : Face → Bool} (h : ∀ g, kind g = true → kind' g = true) :
    ∀ {rest : List Face}, Starts kind rest → Starts kind' rest
  | _ :: _, hrest => h _ hrest

theorem Starts.cons :
    ∀ {rest : List Face}, Starts kind rest → ∃ g fs, rest = g :: fs ∧ kind g = true
  | g :: fs, h => ⟨g, fs, rfl, h⟩

theorem length_le_flatMap {spell : α → List β} {items : List α} {i : α} (hi : i ∈ items) :
    (spell i).length ≤ (items.flatMap spell).length := by
  obtain ⟨before, after, rfl⟩ := append_of_mem hi
  simp only [flatMap_append, flatMap_cons, length_append]
  omega

theorem length_le_length_flatMap {spell : α → List β} (items : List α)
    (h : ∀ i ∈ items, spell i ≠ []) : items.length ≤ (items.flatMap spell).length := by
  induction items with
  | nil => simp
  | cons i items ih =>
    have hi := length_pos_iff.mpr (h i (by simp))
    have := ih fun j hj => h j (by simp [hj])
    simp only [flatMap_cons, length_append, length_cons]
    omega

/-- A first operand and links of an operator with an operand, joined left to right.
    An operand ends before a link and before the end of the value. -/
theorem reads_links {ι : Type} {primary : Reader Parlance.Expr} {first : List Face}
    {links : List ι} {spell : ι → List Face} {R : ι → Operator × Parlance.Expr → Prop}
    (hfirst : ∀ fs, Starts endsReference fs → Reads primary (first ++ fs) fs P)
    (hspell : ∀ link ∈ links, ∀ fs, Starts endsReference (spell link ++ fs))
    (hop : ∀ link ∈ links, ∀ fs, Starts endsReference fs → ∃ op gs,
      Reads operator (spell link ++ fs) gs (fun o => o = some op) ∧
        Reads primary gs fs (fun e => R link (op, e))) (hend : Starts endsValue rest) :
    Reads (chain primary) (first ++ (links.flatMap spell ++ rest)) rest (fun e => ∃ p x ls,
      e = ls.foldl (fun left link => .binary p link.1 left link.2) x ∧ P x ∧
        Forall₂ R links ls) := by
  have hgood : Starts endsReference rest := hend.imp fun _ => endsReference_of_endsValue
  have hcount : links.length ≤ (links.flatMap spell).length := by
    refine length_le_length_flatMap links fun link hlink hnil => ?_
    -- A link begins with something, even with nothing behind it.
    have h := hspell link hlink []
    rw [hnil] at h
    exact h
  unfold chain
  refine .position fun p => (hfirst _ ?_).bind fun x hx => ?_
  · cases links with
    | nil => exact hgood
    | cons link links =>
      rw [flatMap_cons, append_assoc]
      exact hspell link (by simp) _
  refine .bind (P := Forall₂ R links) ?_ fun ls hls => .pure ⟨p, x, ls, rfl, hx, hls⟩
  refine .budget fun m hm => ?_
  refine ReadsOn.turns_items (G := Starts endsReference) ?_ hgood links hspell ?_ m ?_
  · obtain ⟨g, fs, rfl, hg⟩ := hend.cons
    refine (reads_operator_none hg).bind fun o ho => ?_
    rw [ho]
    exact .pure rfl
  · intro link hlink fs hfs
    obtain ⟨op, gs, hread, hoperand⟩ := hop link hlink fs hfs
    refine hread.bind fun o ho => ?_
    rw [ho]
    exact hoperand.bind fun e he => .pure ⟨_, rfl, he⟩
  · rw [length_append] at hm
    omega

def endsItem (close : String) (g : Face) : Bool :=
  g.1 == .punctuation && (g.2 == .text "," || g.2 == .text close)

theorem reads_listed {α ι : Type} {item : Reader α} {items : List ι}
    {spell : ι → List Face} {R : ι → α → Prop} (hclose : close ≠ ",")
    (hstarts : ∀ i ∈ items, ∀ rest,
      Starts (fun g => g.1 != .finish && !g.reads close) (spell i ++ rest))
    (hitem : ∀ i ∈ items, ∀ rest, Starts (endsItem close) rest →
      Reads item (spell i ++ rest) rest (R i)) :
    Reads (listed close item) ([(.punctuation, .text ",")].intercalate (items.map spell)
      ++ (.punctuation, .text close) :: rest) rest (Forall₂ R items) := by
  have hends : endsItem close (.punctuation, .text close) = true := by simp [endsItem]
  have hreads : Face.reads (.punctuation, .text close) close = true := by
    simp [Face.reads, Content.isText]
  have hcomma : Face.readsAny (.punctuation, .text close) [","] = false := by
    simp [Face.readsAny, Content.isOneOf, hclose]
  -- A turn takes the item, and the comma if there is one.
  have hturn : ∀ i ∈ items, ∀ rest rest', Starts (endsItem close) rest →
      Reads (pass [","]) rest rest' (fun _ => True) → Reads (do
        if (← atFinish) || (← sees close) then return Turn.stop
        let a ← item
        pass [","]
        return .item a) (spell i ++ rest) rest' (fun t => ∃ a, t = .item a ∧ R i a) := by
    intro i hi rest rest' hrest hpass
    have hread := hitem i hi rest hrest
    obtain ⟨g, fs, hshown, hg⟩ := (hstarts i hi rest).cons
    rw [hshown] at hread ⊢
    simp only [Bool.and_eq_true, bne_iff_ne, Bool.not_eq_true'] at hg
    refine .atFinish (.sees (.no ?_ (hread.bind fun a ha =>
      hpass.bind fun _ _ => .pure ⟨a, rfl, ha⟩)))
    rw [hg.2, Bool.or_false]
    exact beq_false_of_ne hg.1
  have hloop : Reads (loop do
      if (← atFinish) || (← sees close) then return .stop
      let a ← item
      pass [","]
      return .item a) ([(.punctuation, .text ",")].intercalate (items.map spell)
      ++ (.punctuation, .text close) :: rest) ((.punctuation, .text close) :: rest)
      (Forall₂ R items) := by
    refine .budget fun n hn => ?_
    refine ReadsOn.turns_intercalate ?_ items (fun i hi fs => ?_) (fun i hi => ?_) n ?_
    · refine .atFinish (.sees (.yes ?_ (.pure rfl)))
      rw [hreads]
      rfl
    · exact hturn i hi _ _ rfl (.pass_true rfl)
    · exact hturn i hi _ _ hends (.pass_false hcomma)
    · have hlen := length_le_length_intercalate (.punctuation, .text ",") (items.map spell)
      rw [length_append, length_cons] at hn
      rw [length_map] at hlen
      omega
  refine hloop.bind fun as has => .passTake ?_ (.pure has)
  simp [Face.readsAny, Content.isOneOf]

theorem Starts.endsValue_of_item (hclose : close ∈ ["]", "\x7d"])
    {rest : List Face} (h : Starts (endsItem close) rest) : Starts endsValue rest := by
  refine h.imp fun g hg => ?_
  obtain ⟨kind, content⟩ := g
  simp only [endsItem, Bool.and_eq_true, Bool.or_eq_true, beq_iff_eq] at hg
  obtain ⟨rfl, rfl | rfl⟩ := hg
  · rfl
  · simp only [mem_cons, not_mem_nil, or_false] at hclose
    rcases hclose with rfl | rfl <;> rfl

end Core

theorem Vocabulary.classify_of_lower {w : String} {f : Face} (hw : Text.lower w = x)
    (hx : known? x = some f) : classify w = f := by
  rw [classify, hw, hx]
  rfl

namespace Arithmetic
open Reader

/-! ### Chains -/

/-- The words that stand for an operator and may have `by` behind them. -/
def factorWords : List (String × Operator) := [("multiplied", .times), ("divided", .over)]

def operatorWords : List (String × Operator) :=
  [("plus", .plus), ("minus", .minus), ("modulo", .modulo), ("times", .times)] ++ factorWords

/-- An operator as it is written: its sign, or words for it in any letter case. -/
inductive Joint where
  | sign (op : Sign)
  | word (w : Word) (op : Operator) (h : (Text.lower w.text, op) ∈ operatorWords)
  | wordBy (w v : Word) (op : Operator) (h : (Text.lower w.text, op) ∈ factorWords)
      (hv : Text.lower v.text = "by")

def Joint.op : Joint → Operator
  | .sign op => op.op
  | .word _ op _ => op
  | .wordBy _ _ op _ _ => op

/-- The words and signs with a meaning of their own where an operand begins. -/
def leadWords : List String :=
  Grammar.referenceStops ++ Grammar.functionWords ++ ["math", "call", "get", "[", "]", "\x7b"]

def namesVariable : Face → Bool
  | (.identifier, .text s) | (.preposition, .text s) | (.action, .text s) =>
    !leadWords.contains s
  | _ => false

/-- A key of an object: a word of any class, a text or a number. -/
structure Key where
  face : Face
  isKey : ((face.1.isWord || face.1 == .text || face.1 == .number) && !face.reads "\x7d") = true

mutual

inductive Operand where
  | number (n : Number)
  | text (s : String)
  | bool (b : Bool)
  | null
  | name (f : Face) (h : namesVariable f = true)
  | list (items : List Chain)
  | object (fields : List (Key × Chain))

inductive Chain where
  | mk (first : Operand) (links : List (Joint × Operand))

end

def mark (s : String) : Face := (.punctuation, .text s)

def Joint.faces : Joint → List Face
  | .sign op => [(.operator, .text op.op.sign)]
  | .word w _ _ => [classify w.text]
  | .wordBy w v _ _ _ => [classify w.text, classify v.text]

mutual

def Operand.faces : Operand → List Face
  | .number n => [(.number, .number n)]
  | .text s => [(.text, .text s)]
  | .bool b => [(.boolean, .flag b)]
  | .null => [(.null, .none)]
  | .name f _ => [f]
  | .list items => mark "[" :: ([mark ","].intercalate (itemFaces items) ++ [mark "]"])
  | .object fields =>
    mark "\x7b" :: ([mark ","].intercalate (fieldFaces fields) ++ [mark "\x7d"])

def Chain.faces : Chain → List Face
  | .mk first links => first.faces ++ linkFaces links

def itemFaces : List Chain → List (List Face)
  | [] => []
  | item :: items => item.faces :: itemFaces items

def fieldFaces : List (Key × Chain) → List (List Face)
  | [] => []
  | (key, item) :: fields => (key.face :: mark ":" :: item.faces) :: fieldFaces fields

def linkFaces : List (Joint × Operand) → List Face
  | [] => []
  | (joint, operand) :: links => joint.faces ++ operand.faces ++ linkFaces links

end

mutual

inductive Operand.Placed : Operand → Expr → Prop where
  | number {n p} : Operand.Placed (.number n) (.number p n)
  | text {s p} : Operand.Placed (.text s) (.text p s)
  | bool {b p} : Operand.Placed (.bool b) (.bool p b)
  | null {p} : Operand.Placed .null (.null p)
  | name {f h p} : Operand.Placed (.name f h) (.name p f.2.spelling)
  | list {items es p} : Forall₂ Chain.Placed items es →
    Operand.Placed (.list items) (.list p es)
  | object {fields es p} : fields.map (·.1.face.2.spelling) = es.map Prod.fst →
    Forall₂ Chain.Placed (fields.map Prod.snd) (es.map Prod.snd) →
      Operand.Placed (.object fields) (.object p es)

inductive Chain.Placed : Chain → Expr → Prop where
  | mk {first links x p} {ls : List (Operator × Expr)} : Operand.Placed first x →
    links.map (·.1.op) = ls.map Prod.fst →
    Forall₂ Operand.Placed (links.map Prod.snd) (ls.map Prod.snd) →
      Chain.Placed (.mk first links) (ls.foldl (fun left l => .binary p l.1 left l.2) x)

end

theorem Chain.Placed.singleton {a : Operand} {e : Expr} (h : (Chain.mk a []).Placed e) :
    a.Placed e := by
  cases h with
  | mk ha hops _ =>
    rw [map_eq_nil_iff.mp hops.symm]
    exact ha

def ofField (field : Key × Chain) : List Face :=
  field.1.face :: mark ":" :: field.2.faces

def ofLink (link : Joint × Operand) : List Face := link.1.faces ++ link.2.faces

theorem itemFaces_eq (items : List Chain) : itemFaces items = items.map Chain.faces := by
  induction items with
  | nil => rfl
  | cons item items ih => rw [itemFaces, ih, map_cons]

theorem fieldFaces_eq (fields : List (Key × Chain)) : fieldFaces fields = fields.map ofField := by
  induction fields with
  | nil => rfl
  | cons field fields ih =>
    rw [fieldFaces, ih, map_cons]
    rfl

theorem linkFaces_eq (links : List (Joint × Operand)) : linkFaces links = links.flatMap ofLink := by
  induction links with
  | nil => rfl
  | cons link links ih =>
    rw [linkFaces, ih, flatMap_cons]
    rfl

/-! ### Where operands begin -/

section Begin
variable {f : Face}

theorem face_of_namesVariable (h : namesVariable f = true) :
    ∃ kind s, f = (kind, .text s) ∧ kind ∈ [.identifier, .preposition, .action] ∧
      ∀ x ∈ leadWords, s ≠ x := by
  have hne {s : String} (hs : (!leadWords.contains s) = true) : ∀ x ∈ leadWords, s ≠ x := by
    rintro x hx rfl
    simp [hx] at hs
  unfold namesVariable at h
  split at h
  · exact ⟨_, _, rfl, by simp, hne h⟩
  · exact ⟨_, _, rfl, by simp, hne h⟩
  · exact ⟨_, _, rfl, by simp, hne h⟩
  · exact absurd h (by decide)

def opens (g : Face) : Bool := g.1 != .finish && !g.reads "]" && !g.readsAny ["by"]

theorem Operand.starts (a : Operand) (rest : List Face) : Starts opens (a.faces ++ rest) := by
  cases a with
  | name f h =>
    obtain ⟨kind, s, rfl, hkind, hlead⟩ := face_of_namesVariable h
    have hfinish : kind ≠ .finish := by
      rintro rfl
      exact absurd hkind (by decide)
    have hclose : s ≠ "]" := hlead _ (by decide)
    have hby : s ≠ "by" := hlead _ (by decide)
    show opens (kind, .text s) = true
    simp [opens, hfinish, hclose, hby, Face.reads, Face.readsAny,
      Content.isText, Content.isOneOf]
  | _ => rfl

theorem Chain.starts (c : Chain) (rest : List Face) : Starts opens (c.faces ++ rest) := by
  cases c with
  | mk first links =>
    rw [Chain.faces, append_assoc]
    exact first.starts _

end Begin

/-! ### Reading operators -/

section Operators
variable {fs gs rest : List Face} {op : Operator}

theorem classify_factorWord {w : Word} (h : (Text.lower w.text, op) ∈ factorWords) :
    ∃ x, (x, op) ∈ factorWords ∧ classify w.text = (.keyword, .text x) := by
  have hknown : ∀ e ∈ factorWords, known? e.1 = some (.keyword, .text e.1) := by decide
  exact ⟨_, h, classify_of_lower rfl (hknown _ h)⟩

theorem classify_operatorWord {w : Word} (h : (Text.lower w.text, op) ∈ operatorWords) :
    (∃ s, classify w.text = (.operator, .text s) ∧ .ofSign s = op) ∨
    (classify w.text = (.keyword, .text "times") ∧ op = .times) ∨
      ∃ x, (x, op) ∈ factorWords ∧ classify w.text = (.keyword, .text x) := by
  rcases mem_append.mp h with hsign | hfactor
  · simp only [mem_cons, Prod.mk.injEq, not_mem_nil, or_false] at hsign
    rcases hsign with ⟨hw, rfl⟩ | ⟨hw, rfl⟩ | ⟨hw, rfl⟩ | ⟨hw, rfl⟩
    · exact .inl ⟨"+", classify_of_lower hw (by decide), rfl⟩
    · exact .inl ⟨"-", classify_of_lower hw (by decide), rfl⟩
    · exact .inl ⟨"%", classify_of_lower hw (by decide), rfl⟩
    · exact .inr (.inl ⟨classify_of_lower hw (by decide), rfl⟩)
  · exact .inr (.inr (classify_factorWord hfactor))

theorem reads_operator_times :
    Reads operator ((.keyword, .text "times") :: fs) fs (fun o => o = some .times) := by
  unfold operator
  refine .current fun p => .no rfl ?_
  exact .take rfl (.pure rfl)

theorem reads_operator_factor (h : (x, op) ∈ factorWords)
    (hpass : Reads (pass ["by"]) gs fs (fun _ => True)) :
    Reads operator ((.keyword, .text x) :: gs) fs (fun o => o = some op) := by
  simp only [factorWords, mem_cons, Prod.mk.injEq, not_mem_nil, or_false] at h
  unfold operator
  refine .current fun p => .no rfl ?_
  rcases h with ⟨rfl, rfl⟩ | ⟨rfl, rfl⟩
  · refine .leave rfl (.take rfl ?_)
    exact hpass.bind fun _ _ => .pure rfl
  · refine .leave rfl (.leave rfl (.take rfl ?_))
    exact hpass.bind fun _ _ => .pure rfl

namespace Joint

theorem reads_operator (j : Joint) (hfs : Starts opens fs) :
    Reads operator (j.faces ++ fs) fs (fun o => o = some j.op) := by
  obtain ⟨g, gs, rfl, hg⟩ := hfs.cons
  simp only [opens, Bool.and_eq_true, Bool.not_eq_true'] at hg
  have hleave : Reads (pass ["by"]) (g :: gs) (g :: gs) (fun _ => True) := .pass_false hg.2
  cases j with
  | sign op =>
    refine reads_operator_face.imp fun o ho => ho.trans ?_
    cases op <;> rfl
  | word w op h =>
    show Reads operator (classify w.text :: g :: gs) (g :: gs) _
    rcases classify_operatorWord h with ⟨s, hface, rfl⟩ | ⟨hface, rfl⟩ | ⟨x, hx, hface⟩
    · rw [hface]
      exact reads_operator_face
    · rw [hface]
      exact reads_operator_times
    · rw [hface]
      exact reads_operator_factor hx hleave
  | wordBy w v op h hv =>
    obtain ⟨x, hx, hface⟩ := classify_factorWord h
    have hby : classify v.text = (.preposition, .text "by") :=
      classify_of_lower hv (by decide)
    show Reads operator (classify w.text :: classify v.text :: g :: gs)
      (g :: gs) _
    rw [hface, hby]
    exact reads_operator_factor hx (.pass_true rfl)

theorem starts (j : Joint) (fs : List Face) : Starts endsReference (j.faces ++ fs) := by
  cases j with
  | sign op => rfl
  | word w op h =>
    show endsReference (classify w.text) = true
    rcases classify_operatorWord h with ⟨s, hface, rfl⟩ | ⟨hface, rfl⟩ | ⟨x, hx, hface⟩ <;>
      rw [hface] <;> rfl
  | wordBy w v op h hv =>
    obtain ⟨x, hx, hface⟩ := classify_factorWord h
    show endsReference (classify w.text) = true
    rw [hface]
    rfl

end Joint
end Operators

/-! ### Reading operands -/

section Operands
variable {g : Face} {fs rest : List Face}

def ReadsOperands (primary : Reader Expr) (n : Nat) : Prop :=
  ∀ (a : Operand) (rest : List Face), a.faces.length ≤ n →
    Starts endsReference rest → Reads primary (a.faces ++ rest) rest a.Placed

theorem reads_chain {primary : Reader Expr} {n : Nat} (hp : ReadsOperands primary n) (c : Chain)
    (hc : c.faces.length ≤ n) (hend : Starts endsValue rest) :
    Reads (chain primary) (c.faces ++ rest) rest c.Placed := by
  cases c with
  | mk first links =>
    rw [Chain.faces, linkFaces_eq, length_append] at hc
    have hlinks : ∀ link ∈ links, link.2.faces.length ≤ n := by
      intro link hlink
      have hle : (ofLink link).length ≤ (links.flatMap ofLink).length :=
        length_le_flatMap hlink
      rw [ofLink, length_append] at hle
      omega
    rw [Chain.faces, linkFaces_eq, append_assoc]
    refine (reads_links
      (R := fun (link : Joint × Operand) l => link.1.op = l.1 ∧ link.2.Placed l.2)
      (fun fs hfs => hp first fs (by omega) hfs) ?_ ?_ hend).imp ?_
    · intro link _ fs
      rw [ofLink, append_assoc]
      exact link.1.starts _
    · intro link hlink fs hfs
      rw [ofLink, append_assoc]
      refine ⟨_, _, link.1.reads_operator (link.2.starts fs), ?_⟩
      exact (hp link.2 fs (hlinks link hlink) hfs).imp fun e he => ⟨rfl, he⟩
    · rintro _ ⟨p, x, ls, rfl, hx, hls⟩
      obtain ⟨hops, hoperands⟩ := forall₂_parts.mp hls
      exact .mk hx hops hoperands

theorem Key.reads_identifier (k : Key) :
    Reads ident (k.face :: fs) fs (fun s => s = k.face.2.spelling) := by
  obtain ⟨hkind, -⟩ := (Bool.and_eq_true ..).mp k.isKey
  have hfinish : k.face.1 ≠ .finish := by
    intro h
    rw [h] at hkind
    exact absurd hkind (by decide)
  unfold ident
  exact .current fun p => .yes hkind (.advance hfinish fun q => .pure rfl)

theorem Key.starts (k : Key) (fs : List Face) :
    Starts (fun g => g.1 != .finish && !g.reads "\x7d") (k.face :: fs) := by
  obtain ⟨hkind, hclose⟩ := (Bool.and_eq_true ..).mp k.isKey
  refine (Bool.and_eq_true ..).mpr ⟨bne_iff_ne.mpr fun h => ?_, hclose⟩
  rw [h] at hkind
  exact absurd hkind (by decide)

theorem reads_list {value : Reader Expr} {items : List Chain}
    (hvalue : ∀ c ∈ items, ∀ rest, Starts endsValue rest →
      Reads value (c.faces ++ rest) rest c.Placed) :
    Reads (bracketed value) ((Operand.list items).faces ++ rest) rest
      (Forall₂ Chain.Placed items) := by
  rw [Operand.faces, itemFaces_eq, cons_append, append_assoc]
  unfold bracketed
  refine .expect rfl ?_
  refine reads_listed (by decide) (fun c _ rest => ?_) fun c hc rest hrest => ?_
  · refine (c.starts rest).imp fun g hg => ?_
    rw [opens, Bool.and_eq_true] at hg
    exact hg.1
  · exact hvalue c hc rest (hrest.endsValue_of_item (by decide))

theorem reads_object {value : Reader Expr} {fields : List (Key × Chain)}
    (hvalue : ∀ field ∈ fields, ∀ rest, Starts endsValue rest →
      Reads value (field.2.faces ++ rest) rest field.2.Placed) :
    Reads (braced value) ((Operand.object fields).faces ++ rest) rest
      (Forall₂ (fun field e => field.1.face.2.spelling = e.1 ∧ field.2.Placed e.2) fields) := by
  rw [Operand.faces, fieldFaces_eq, cons_append, append_assoc]
  unfold braced
  refine .expect rfl ?_
  refine reads_listed (by decide) (fun field _ rest => field.1.starts _)
    fun field hfield rest hrest => ?_
  unfold entry
  refine field.1.reads_identifier.bind fun s hs => .passTake rfl ?_
  exact (hvalue field hfield rest (hrest.endsValue_of_item (by decide))).bind fun e he =>
    .pure ⟨hs.symm, he⟩

theorem reads_primaryOf_name (inner : Reader Expr) {f : Face} (h : namesVariable f = true)
    (hend : endsReference g = true) :
    Reads (primaryOf inner) (f :: g :: fs) (g :: fs) (Operand.name f h).Placed := by
  obtain ⟨kind, s, rfl, hkind, hlead⟩ := face_of_namesVariable h
  have hlisted (ws : List String) (hws : ∀ x ∈ ws, x ∈ leadWords) :
      Content.isOneOf (.text s) ws = false := by
    simp only [Content.isOneOf, contains_eq_mem, decide_eq_false_iff_not]
    exact fun hs => hlead s (hws s hs) rfl
  have hstop := hlisted Grammar.referenceStops fun x hx => by simp [leadWords, hx]
  have hfunction := hlisted Grammar.functionWords fun x hx => by simp [leadWords, hx]
  have hsigns : ∀ x ∈ ["[", "\x7b", "math", "call", "get"],
      Face.reads (kind, .text s) x = false := by
    intro x hx
    rw [Face.reads, Bool.and_eq_false_iff]
    refine .inr (beq_false_of_ne (hlead x ?_))
    revert x
    decide
  -- Words of the three kinds go the same way.
  simp only [mem_cons, not_mem_nil, or_false] at hkind
  rcases hkind with rfl | rfl | rfl <;>
    refine reads_primaryOf_leaf inner (ne_of_beq_false rfl) hsigns hfunction fun p => ?_ <;>
    exact (reads_reference rfl (ne_of_beq_false rfl) hstop hend).bind fun t ht =>
      .pure (ht ▸ .name)

/-- The reader of operands that may nest so deep reads all operands of that
    length. Brackets count, so what stands in them is shorter. -/
theorem readsOperands_primaryAt (n : Nat) : ReadsOperands (primaryAt n) n := by
  induction n with
  | zero =>
    intro a rest ha _
    have hpos : a.faces ≠ [] := by cases a <;> simp [Operand.faces]
    exact absurd (length_pos_iff.mpr hpos) (by omega)
  | succ n ih =>
    intro a rest ha hrest
    obtain ⟨g, fs, rfl, hg⟩ := hrest.cons
    -- What stands in brackets is shorter than the operand, so the chain inside is read.
    have hvalue : ∀ c : Chain, c.faces.length ≤ n → ∀ rest, Starts endsValue rest →
        Reads (chain (primaryAt n)) (c.faces ++ rest) rest c.Placed :=
      fun c hc rest hrest => reads_chain ih c hc hrest
    rw [primaryAt]
    cases a with
    | name f h => exact reads_primaryOf_name _ h hg
    | list items =>
      have hlist : Reads (bracketed (chain (primaryAt n)))
          ((Operand.list items).faces ++ g :: fs) (g :: fs)
          (Forall₂ Chain.Placed items) := by
        refine reads_list fun c hc => hvalue c ?_
        have hle := length_le_intercalate (mark ",")
          (mem_map_of_mem (f := Chain.faces) hc)
        rw [Operand.faces, itemFaces_eq, length_cons, length_append] at ha
        omega
      unfold primaryOf
      refine .current fun p => ?_
      exact .no rfl (.yes rfl (hlist.bind fun es hes => .pure (.list hes)))
    | object fields =>
      have hobject : Reads (braced (chain (primaryAt n)))
          ((Operand.object fields).faces ++ g :: fs) (g :: fs)
          (Forall₂ (fun field e => field.1.face.2.spelling = e.1 ∧
            field.2.Placed e.2) fields) := by
        refine reads_object fun field hfield => hvalue field.2 ?_
        have hle := length_le_intercalate (mark ",")
          (mem_map_of_mem (f := ofField) hfield)
        rw [Operand.faces, fieldFaces_eq, length_cons, length_append] at ha
        simp only [ofField, length_cons] at hle
        omega
      unfold primaryOf
      refine .current fun p => ?_
      refine .no rfl (.no rfl (.yes rfl (hobject.bind fun es hes => .pure ?_)))
      obtain ⟨hkeys, hitems⟩ := forall₂_parts.mp hes
      exact .object hkeys hitems
    -- A literal is one token, which is taken.
    | number k =>
      refine reads_primaryOf_leaf _ (ne_of_beq_false rfl) (fun x _ => rfl) rfl fun p => ?_
      exact .advance (ne_of_beq_false rfl) fun q => .pure .number
    | text s =>
      refine reads_primaryOf_leaf _ (ne_of_beq_false rfl) (fun x _ => rfl) rfl fun p => ?_
      exact .advance (ne_of_beq_false rfl) fun q => .pure .text
    | bool b =>
      refine reads_primaryOf_leaf _ (ne_of_beq_false rfl) (fun x _ => rfl) rfl fun p => ?_
      refine .advance (ne_of_beq_false rfl) fun q => .pure ?_
      cases b <;> exact .bool
    | null =>
      refine reads_primaryOf_leaf _ (ne_of_beq_false rfl) (fun x _ => rfl) rfl fun p => ?_
      exact .advance (ne_of_beq_false rfl) fun q => .pure .null

theorem readsOperands_primary (n : Nat) : ReadsOperands primary n := by
  intro a rest _ hrest
  refine .budget fun m hm => readsOperands_primaryAt m a rest ?_ hrest
  rw [length_append] at hm
  omega

theorem Chain.reads_value (c : Chain) (hrest : Starts endsValue rest) :
    Reads value (c.faces ++ rest) rest c.Placed :=
  reads_chain (readsOperands_primary c.faces.length) c le_rfl hrest

end Operands
end Arithmetic
end Parlance
