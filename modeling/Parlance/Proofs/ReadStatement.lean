import Parlance.Proofs.ReadCondition

/-!
# Reading Statements Back

No sign ends a statement. It ends because the next line begins with a word at
which every reader stops: a word that opens a statement, that goes on with the
statement around it, or that ends it. `Core.lineFaces` lists these faces, and
everything that has to be known about the neighbour of a statement is a fact
about this list.

## Main definitions

* `Core.statementFaces`: The faces of the words that open a statement of the core language.
* `Core.lineFaces`: The faces with which a line of a program begins, and the end mark.
* `Core.EndsBody`: What follows a body with these stop words: a line that ends it.
* `Core.ReadsStatements`: The reader reads every statement of at most so many spellings.
* `Core.ReadsBodies`: The nest reads every body of at most so many spellings.

## Theorems

* `Core.flatten_linesOf`: The lines of a body, joined, are the spellings of its statements.
* `Core.Stmt.shown_spell`: The spelling of a statement begins with its opening word.
* `Core.Stmt.starts`: A statement begins with a word that opens one.
* `Core.reads_statementOf`: The reader of a statement goes by its first word.
-/

namespace Parlance
open List Token Opener Stmt

namespace Core
open Reader
variable {f g : Face} {fs gs rest : List Face} {w : Plain}

/-! ### What stands around a statement -/

/-- The faces of the words that open a statement of the core language. -/
def statementFaces : List Face :=
  ["let", "set", "increase", "decrease", "print", "throw", "define"].map
      (fun w => (.action, .text w))
    ++ ["break", "skip", "return", "if", "while", "repeat", "for", "try"].map
      (fun w => (.keyword, .text w))

/-- The faces with which a line of a program begins, and the end mark. -/
def lineFaces : List Face :=
  (.finish, .none) :: (statementFaces
    ++ ["end", "else", "catch", "finally", "when"].map (fun w => (.keyword, .text w)))

abbrev StartsWith (among : List Face) (rest : List Face) : Prop :=
  Starts (fun g => decide (g ∈ among)) rest

theorem endsValue_of_line : ∀ g ∈ lineFaces, endsValue g = true := by decide

theorem leaves_of_line : ∀ g ∈ lineFaces,
    g.readsAny ["into"] = false ∧ g.readsAny ["with", "args", "params"] = false
      ∧ g.readsAny ["and", ","] = false ∧ g.readsAny ["battle", "game"] = false
      ∧ g.readsAny ["then", "do"] = false ∧ g.1 ≠ .identifier ∧ g.1 ≠ .preposition := by
  decide

theorem leaves_of_statement : ∀ g ∈ statementFaces,
    g.1 ≠ .finish ∧ g.readsAny ["else", "end", "catch", "finally"] = false
      ∧ g.reads "when" = false := by
  decide

theorem StartsWith.endsValue (h : StartsWith lineFaces rest) : Starts endsValue rest :=
  h.imp fun g hg => endsValue_of_line g (of_decide_eq_true hg)

def Stmt.spell (s : Stmt) : Line := s.lines.flatten

/-- The lines of a body, joined, are the spellings of its statements. -/
theorem flatten_linesOf (body : List Stmt) : (linesOf body).flatten = body.flatMap Stmt.spell := by
  induction body with
  | nil => rfl
  | cons s body ih => rw [linesOf, flatten_append, ih, flatMap_cons, Stmt.spell]

def Stmt.opening : Stmt → Face
  | .define _ _ => (.action, .text "let")
  | .defineCall _ _ _ => (.action, .text "let")
  | .assign _ _ => (.action, .text "set")
  | .change .increase _ _ => (.action, .text "increase")
  | .change .decrease _ _ => (.action, .text "decrease")
  | .print _ => (.action, .text "print")
  | .throw _ => (.action, .text "throw")
  | .breakLoop => (.keyword, .text "break")
  | .skipRound => (.keyword, .text "skip")
  | .giveBack _ => (.keyword, .text "return")
  | .branch _ _ _ => (.keyword, .text "if")
  | .whileLoop _ _ => (.keyword, .text "while")
  | .times _ _ => (.keyword, .text "repeat")
  | .forEach _ _ _ => (.keyword, .text "for")
  | .attempt _ _ _ => (.keyword, .text "try")
  | .defineFunction _ _ _ => (.action, .text "define")

/-- The spelling of a statement begins with its opening word. -/
theorem Stmt.shown_spell (s : Stmt) : ∃ fs, shown s.spell = s.opening :: fs := by
  cases s with
  | change op w e =>
    cases op <;> simp only [Stmt.spell, lines, Core.change, flatten_cons, shown_cons,
      cons_append, face_word, Vocabulary.classify_words, opening] <;> exact ⟨_, rfl⟩
  | _ =>
    simp only [Stmt.spell, lines, block, flatten_cons, shown_cons, cons_append,
      face_word, Vocabulary.classify_words, opening]
    exact ⟨_, rfl⟩

theorem Stmt.opening_mem (s : Stmt) : s.opening ∈ statementFaces := by
  cases s with
  | change op w e => cases op <;> exact of_decide_eq_true rfl
  | _ => exact of_decide_eq_true rfl

/-- A statement begins with a word that opens one. -/
theorem Stmt.starts (s : Stmt) (rest : List Face) :
    StartsWith statementFaces (shown s.spell ++ rest) := by
  obtain ⟨fs, hshown⟩ := s.shown_spell
  rw [hshown]
  exact decide_eq_true s.opening_mem

/-! ### Bodies -/

theorem reads_recovering {α : Type} {r : Reader (Option α)} {P : Option α → Prop}
    (h : Reads r fs gs P) : Reads (recovering r) fs gs P := by
  intro c hT hc
  obtain ⟨a, c', hrun, hrest⟩ := h c hT hc
  exact ⟨a, c', by rw [run_recovering, hrun], hrest⟩

theorem readsAny_of_subset {ws ws' : List String} (h : ∀ x ∈ ws, x ∈ ws')
    (hf : f.readsAny ws' = false) : f.readsAny ws = false := by
  obtain ⟨kind, content⟩ := f
  cases content with
  | text x =>
    simp only [Face.readsAny, Content.isOneOf, Bool.and_eq_false_iff,
      contains_eq_mem, decide_eq_false_iff_not] at hf ⊢
    exact hf.imp_right fun hx hmem => hx (h x hmem)
  | _ => exact Bool.and_false _

def endFace : Face := (.keyword, .text "end")

def doFace : Face := (.keyword, .text "do")

section BodyEnd
variable {stops : List String}

theorem reads_atBodyEnd_false (hf : f.readsAny stops = false) :
    Reads (atBodyEnd stops) (f :: fs) (f :: fs) (fun b => b = false) := by
  refine .get fun c _ hc => ?_
  obtain ⟨p, hp⟩ := Cursor.peek_zero hc
  have hstop : (c.peek 0).readsAny stops = false := by rw [hp]; exact hf
  exact .yes (by rw [hstop]; rfl) (.pure rfl)

theorem reads_atBodyEnd_word (hf : f.readsAny stops = true) (hend : f.reads "end" = false) :
    Reads (atBodyEnd stops) (f :: fs) (f :: fs) (fun b => b = true) := by
  refine .get fun c _ hc => ?_
  obtain ⟨p, hp⟩ := Cursor.peek_zero hc
  have hstop : (c.peek 0).readsAny stops = true := by rw [hp]; exact hf
  have hword : (c.peek 0).reads "end" = false := by rw [hp]; exact hend
  exact .no (by rw [hstop]; rfl) (.no (by rw [hword]; rfl) (.pure rfl))

theorem reads_atBodyEnd_end (hstops : stops.contains "end" = true)
    (hrest : StartsWith lineFaces rest) :
    Reads (atBodyEnd stops) (endFace :: rest) (endFace :: rest) (fun b => b = true) := by
  obtain ⟨g, fs, rfl, hg⟩ := hrest.cons
  refine .get fun c _ hc => ?_
  obtain ⟨p, hp⟩ := Cursor.peek_zero hc
  obtain ⟨q, hq⟩ := Cursor.peek_one hc
  have hstop : (c.peek 0).readsAny stops = true := by rw [hp]; exact hstops
  have hnext : (c.peek 1).readsAny ["battle", "game"] = false := by
    rw [hq]
    exact (leaves_of_line g (of_decide_eq_true hg)).2.2.2.1
  exact .no (by rw [hstop]; rfl) (.no (by rw [hnext, Bool.and_false]) (.pure rfl))

end BodyEnd

/-- What follows a body with these stop words: a line that ends it. -/
structure EndsBody (stops : List String) (rest : List Face) : Prop where
  words : ∀ x ∈ stops, x ∈ ["else", "end", "catch", "finally"]
  line : StartsWith lineFaces rest
  stop : Reads (atBodyEnd stops) rest rest (fun b => b = true)

theorem EndsBody.of_end {stops : List String}
    (hstops : (∀ x ∈ stops, x ∈ ["else", "end", "catch", "finally"]) ∧ stops.contains "end" = true)
    (hrest : StartsWith lineFaces rest) : EndsBody stops (endFace :: rest) :=
  ⟨hstops.1, show decide (endFace ∈ lineFaces) = true by decide,
    reads_atBodyEnd_end hstops.2 hrest⟩

theorem EndsBody.of_word {stops : List String}
    (hstops : (∀ x ∈ stops, x ∈ ["else", "end", "catch", "finally"]) ∧ f.readsAny stops = true)
    (hf : f.reads "end" = false ∧ f ∈ lineFaces) : EndsBody stops (f :: fs) :=
  ⟨hstops.1, decide_eq_true hf.2, reads_atBodyEnd_word hstops.2 hf.1⟩

def Stmt.Given (s : Stmt) (o : Option Parlance.Stmt) : Prop := ∃ t, o = some t ∧ s.Placed t

/-- The reader reads every statement of at most so many spellings. -/
def ReadsStatements (statement : Reader (Option Parlance.Stmt)) (n : Nat) : Prop :=
  ∀ (s : Stmt) (rest : List Face), s.spell.length ≤ n → StartsWith lineFaces rest →
    Reads statement (shown s.spell ++ rest) rest s.Given

def skipped : Bool → List Face
  | true => [doFace]
  | false => []

/-- The nest reads every body of at most so many spellings. -/
def ReadsBodies (nest : Nest) (n : Nat) : Prop :=
  ∀ (stops : List String) (skip : Bool) (body : List Stmt) (rest : List Face),
    (body.flatMap Stmt.spell).length ≤ n → EndsBody stops rest →
      Reads (nest.body stops) (skipped skip ++ (shown (body.flatMap Stmt.spell) ++ rest)) rest
        (Forall₂ Stmt.Placed body)

theorem reads_turnOf {α : Type} {r : Reader (Option α)} {P : Option α → Prop} {Q : Turn α → Prop}
    (hread : Reads r fs gs P) (hsome : ∀ a, P (some a) → Q (.item a)) (hnone : P none → Q .next) :
    Reads (turnOf r) fs gs Q := by
  refine (reads_recovering hread).bind fun o ho => ?_
  cases o with
  | none => exact .pure (hnone ho)
  | some a => exact .pure (hsome a ho)

theorem reads_turn {turn : Reader (Turn Parlance.Stmt)} {stops : List String}
    {Q : Turn Parlance.Stmt → Prop} (hfinish : f.1 ≠ .finish)
    (hstops : f.readsAny stops = false) (hread : Reads turn (f :: fs) gs Q) :
    Reads (do if (← atFinish) || (← atBodyEnd stops) then return .stop else turn)
      (f :: fs) gs Q := by
  refine .atFinish ((reads_atBodyEnd_false hstops).bind fun b hb => .no ?_ hread)
  rw [hb, Bool.or_false]
  exact beq_false_of_ne hfinish

theorem reads_bodyOf {statement : Reader (Option Parlance.Stmt)} {n : Nat}
    (hstatement : ReadsStatements statement n)
    (hdo : ∀ fs, Reads statement (doFace :: fs) fs (fun o => o = none)) (inner : Opener) :
    ReadsBodies ⟨bodyOf statement, inner⟩ n := by
  intro stops skip body rest hlen hrest
  have hcount : body.length ≤ (body.flatMap Stmt.spell).length :=
    length_le_length_flatMap body fun s _ hs => by
      have := s.starts []
      rw [hs] at this
      exact this
  have hleave : ∀ {g : Face}, g.readsAny ["else", "end", "catch", "finally"] = false →
      g.readsAny stops = false := by
    intro g hg
    exact readsAny_of_subset hrest.words hg
  have hitems : ∀ m, body.length < m → Reads
      (turns (do
        if (← atFinish) || (← atBodyEnd stops) then return .stop else turnOf statement) m)
      (shown (body.flatMap Stmt.spell) ++ rest) rest (Forall₂ Stmt.Placed body) := by
    intro m hm
    rw [shown_flatMap]
    refine ReadsOn.turns_items (G := StartsWith lineFaces) ?_ hrest.line body ?_ ?_ m hm
    · obtain ⟨g, fs, rfl, -⟩ := hrest.line.cons
      refine .atFinish (hrest.stop.bind fun b hb => .yes ?_ (.pure rfl))
      rw [hb, Bool.or_true]
    · exact fun s _ fs => (s.starts fs).imp fun g hg => by
        simp [lineFaces, of_decide_eq_true hg]
    · intro s hs fs hfs
      have hread := hstatement s fs ((length_le_flatMap hs).trans hlen) hfs
      obtain ⟨g, gs, hshown, hg⟩ := (s.starts fs).cons
      rw [hshown] at hread ⊢
      have hopens := leaves_of_statement g (of_decide_eq_true hg)
      refine reads_turn hopens.1 (hleave hopens.2.1) (reads_turnOf hread ?_ ?_)
      · rintro t ⟨_, ⟨rfl⟩, ht⟩
        exact ⟨t, rfl, ht⟩
      · rintro ⟨_, h, _⟩
        cases h
  refine .budget fun m hm => ?_
  rw [length_append, length_append, length_shown] at hm
  cases skip with
  -- A word `do` before the body takes a turn of its own, which gives no statement.
  | false => exact hitems m (by omega)
  | true =>
    obtain ⟨m, rfl⟩ : ∃ k, m = k + 1 := ⟨m - 1, by omega⟩
    rw [skipped, length_singleton] at hm
    refine .turns_next ?_ (hitems m (by omega))
    exact reads_turn (ne_of_beq_false rfl) (hleave (by decide))
      (reads_turnOf (hdo _) (fun s hs => absurd hs (Option.some_ne_none s)) fun _ => rfl)

theorem reads_closedBody {nest : Nest} {n : Nat} (hnest : ReadsBodies nest n) (skip : Bool)
    {body : List Stmt} (hlen : (body.flatMap Stmt.spell).length ≤ n)
    (hrest : StartsWith lineFaces rest) : Reads (Opener.closedBody nest)
      (skipped skip ++ (shown (body.flatMap Stmt.spell) ++ endFace :: rest)) rest
      (Forall₂ Stmt.Placed body) := by
  refine (hnest ["end"] skip body _ hlen (.of_end (by decide) hrest)).bind fun ss hss => ?_
  exact .passTake rfl (.pure hss)

/-! ### Statements without bodies -/

section Steps
variable {β : Type} {A B : Reader β} {Q : β → Prop} {ws : List String}

theorem leaveValue (e : Expr)
    (hws : (∀ x ∈ ws, x ∈ Grammar.literals) ∧ ws.contains "[" = false ∧ ws.contains "\x7b" = false)
    (hB : Reads B (shown e.spell ++ rest) gs Q) :
    Reads (accept ws >>= fun b => if b = true then A else B) (shown e.spell ++ rest) gs Q := by
  obtain ⟨g, fs, hshown, hg⟩ := (e.starts rest).cons
  rw [hshown] at hB ⊢
  exact .leave (readsAny_of_startsValue hg hws) hB

end Steps

/-- The reader of a statement goes by its first word. -/
theorem reads_statementOf {nest : Nest} {kind : Kind} {x : String} {o : Opener}
    {P : Option Parlance.Stmt → Prop} (ho : opener? nest x = some o) (hkind : kind.isWord = true)
    (h : ∀ p, Reads (o p) fs gs P) : Reads (statementOf nest) ((kind, .text x) :: fs) gs P := by
  refine .advance (fun hk => ?_) fun p => .no ?_ ?_
  · subst hk
    exact absurd hkind (by decide)
  · rw [show (Face.token (kind, .text x) p).isWord = kind.isWord from rfl, hkind]
    rfl
  · rw [show (Face.token (kind, .text x) p).spelling = x from rfl, ho]
    exact h p

theorem reads_passAssign {x : String} (hx : x = "to" ∨ x = "be") {β : Type} {k : Unit → Reader β}
    {Q : β → Prop} (hk : Reads (k ()) fs gs Q) :
    Reads (passAssign >>= k) ((.preposition, .text x) :: fs) gs Q := by
  refine .bind (P := fun _ => True) ?_ fun _ _ => hk
  refine .seesKind (.no rfl ?_)
  rcases hx with rfl | rfl <;> exact .leave rfl (.pass_true rfl)

theorem reads_assigned (p : Position) (x : String)
    {make : String → Parlance.Expr → VariableCommand} (e : Expr) (hrest : Starts endsValue rest) :
    Reads (assigned p x make) (shown e.spell ++ rest) rest
      (fun o => ∃ v, o = some (.command p (.bag (make x v))) ∧ e.Placed v) := by
  refine .position fun q => leaveValue e (by decide) ?_
  exact (reads_value e hrest).bind fun v hv => .pure ⟨v, rfl, hv⟩

theorem reads_letVariable (p : Position) (w : Plain) (e : Expr) (hrest : Starts endsValue rest) :
    Reads (Opener.letVariable p)
      (w.face :: (.preposition, .text "be") :: (shown e.spell ++ rest)) rest
      (Stmt.define w e).Given := by
  refine (reads_name (by decide) (.inr rfl)).bind fun s hs => ?_
  rw [hs]
  refine reads_passAssign (.inr rfl) ((reads_assigned p w.text e hrest).imp ?_)
  rintro _ ⟨v, rfl, hv⟩
  exact ⟨_, rfl, .define hv⟩

theorem reads_setVariable (p : Position) (w : Plain) (e : Expr) (hrest : Starts endsValue rest) :
    Reads (setVariable p)
      (w.face :: (.preposition, .text "to") :: (shown e.spell ++ rest)) rest
      (Stmt.assign w e).Given := by
  refine .leave (w.leaves (by decide)) (pairLeave (w.reads_literal (by decide)) ?_)
  refine .no rfl (.leave (w.leaves (by decide)) (.leave (w.leaves (by decide)) ?_))
  refine .leave (w.leaves (by decide)) (.leave (w.leaves (by decide)) ?_)
  refine .leave (w.leaves (by decide)) ?_
  refine (reads_name (by decide) (.inr rfl)).bind fun s hs => ?_
  rw [hs]
  refine reads_passAssign (.inl rfl) ((reads_assigned p w.text e hrest).imp ?_)
  rintro _ ⟨v, rfl, hv⟩
  exact ⟨_, rfl, .assign hv⟩

theorem reads_change (p : Position) (op : Change) (w : Plain) (e : Expr)
    (hrest : Starts endsValue rest) :
    Reads (Opener.change op p)
      (w.face :: (.preposition, .text "by") :: (shown e.spell ++ rest)) rest
      (Stmt.change op w e).Given := by
  refine (reads_name (by decide) (.inr rfl)).bind fun s hs => ?_
  rw [hs]
  refine .passTake rfl ((reads_value e hrest).bind fun v hv => ?_)
  exact .pure ⟨_, rfl, .change hv⟩

theorem reads_giveBack (p : Position) (e : Expr) (hrest : Starts endsValue rest) :
    Reads (Opener.giveBack p) (shown e.spell ++ rest) rest (Stmt.giveBack e).Given := by
  have hvalue := reads_value e hrest
  obtain ⟨g, fs, hshown, hg⟩ := (e.starts rest).cons
  rw [hshown] at hvalue ⊢
  refine .atFinish (.seesAny (.no ?_ ?_))
  · rw [readsAny_of_startsValue hg (by decide), Bool.or_false]
    exact beq_false_of_ne (ne_finish_of_startsValue hg)
  refine .position fun q => reads_atStatement hg (.no (Bool.and_false _) ?_)
  exact hvalue.bind fun v hv => .pure ⟨_, rfl, .giveBack hv⟩

theorem reads_raiseError (p : Position) (e : Expr) (hrest : Starts endsValue rest) :
    Reads (Opener.raiseError p) (shown e.spell ++ rest) rest (Stmt.throw e).Given := by
  have hvalue := reads_value e hrest
  obtain ⟨g, fs, hshown, hg⟩ := (e.starts rest).cons
  rw [hshown] at hvalue ⊢
  refine .passLeave (readsAny_of_startsValue hg (by decide)) (hvalue.bind fun v hv => ?_)
  exact .pure ⟨_, rfl, .throw hv⟩

/-! ### Calls -/

theorem afterWith_cons (line : Line) (lines : List Line) :
    afterWith (line :: lines) = word "with" :: separated (word "and") (line :: lines) := rfl

theorem reads_argumentsOf {value : Reader Parlance.Expr} (arg : Expr) (args : List Expr)
    (hvalue : ∀ e ∈ arg :: args, ∀ rest, Starts endsValue rest →
      Reads value (shown e.spell ++ rest) rest e.Placed) (hrest : StartsWith lineFaces rest) :
    Reads (argumentsOf value)
      (shown (separated (word "and") ((arg :: args).map Expr.spell)) ++ rest) rest
      (Forall₂ Expr.Placed (arg :: args)) := by
  have hand : (word "and").face = (.keyword, .text "and") := by
    simp only [face_word, Vocabulary.classify_words]
  -- An argument is read as a value; whether a separator follows decides about the turn.
  have hturn : ∀ e ∈ arg :: args, ∀ rest rest' (P : Turn Parlance.Expr → Prop),
      Starts endsValue rest →
      (∀ v, e.Placed v → Reads (do
        if ← accept ["and", ","] then return .item v else return .last v) rest rest' P) →
      Reads (argument value) (shown e.spell ++ rest) rest' P := by
    intro e he rest rest' P hrest hk
    have hread := hvalue e he rest hrest
    obtain ⟨g, fs, hshown, hg⟩ := (e.starts rest).cons
    rw [hshown] at hread ⊢
    refine .atFinish (.seesKind (.sees (reads_atStatement hg (.no ?_ (hread.bind hk)))))
    have hkind := kind_of_startsValue hg
    have hfinish : (g.1 == .finish) = false := beq_false_of_ne (ne_finish_of_startsValue hg)
    have hkeyword : (g.1 == .keyword) = false :=
      beq_false_of_ne fun h => absurd (h ▸ hkind) (by decide)
    have hinto : g.reads "into" = false := by
      rw [reads_eq_readsAny]
      exact readsAny_of_startsValue hg (by decide)
    rw [hfinish, hkeyword, hinto]
    rfl
  refine .budget fun n hn => ?_
  refine reads_separated_last arg args (fun e he fs => ?_) (fun e he => ?_) n ?_
  · refine hturn e he _ _ _ (by rw [hand]; rfl) fun v hv => ?_
    rw [hand]
    exact .take rfl (.pure ⟨v, rfl, hv⟩)
  · refine hturn e he _ _ _ hrest.endsValue fun v hv => ?_
    obtain ⟨g, fs, rfl, hg⟩ := hrest.cons
    exact .leave (leaves_of_line g (of_decide_eq_true hg)).2.2.1 (.pure ⟨v, rfl, hv⟩)
  · have hlen := length_le_length_separated (word "and") ((arg :: args).map Expr.spell)
    rw [length_append, length_shown] at hn
    rw [length_map, length_cons] at hlen
    omega

theorem reads_functionCallOf {value : Reader Parlance.Expr} (fn : Plain) (args : List Expr)
    (hvalue : ∀ e ∈ args, ∀ rest, Starts endsValue rest →
      Reads value (shown e.spell ++ rest) rest e.Placed) (hrest : StartsWith lineFaces rest) :
    Reads (functionCallOf value) ((.keyword, .text "function") :: fn.face
      :: (shown (afterWith (args.map Expr.spell)) ++ rest)) rest
      (fun call => call.name = fn.text ∧ Forall₂ Expr.Placed args call.args) := by
  obtain ⟨g, fs, hshown, hg⟩ := hrest.cons
  have hg := leaves_of_line g (of_decide_eq_true hg)
  have hargs : Reads (maybe ["with", "args", "params"] (argumentsOf value))
      (shown (afterWith (args.map Expr.spell)) ++ rest) rest
      (fun o => Forall₂ Expr.Placed args (o.getD [])) := by
    cases args with
    | nil =>
      rw [hshown]
      refine (ReadsOn.optionallyLeave hg.2.1).imp ?_
      rintro _ rfl
      exact .nil
    | cons arg args =>
      simp only [map_cons, afterWith_cons, shown_cons, face_word, Vocabulary.classify_words,
        cons_append]
      refine .imp (.optionallyTake rfl
        (reads_argumentsOf arg args hvalue hrest)) ?_
      rintro _ ⟨es, rfl, hes⟩
      exact hes
  refine .passTake rfl (reads_nameOrText.bind fun s hs => ?_)
  refine hargs.bind fun o ho => ?_
  rw [hshown]
  exact (ReadsOn.optionallyLeave hg.1).bind fun out _ => .pure ⟨hs, ho⟩

theorem reads_operands_none {primary : Reader Parlance.Expr} (hg : endsValue g = true) :
    Reads (operands primary) (g :: fs) (g :: fs) (fun ls => ls = []) := by
  refine .budget fun n hn => ?_
  obtain ⟨n, rfl⟩ : ∃ m, n = m + 1 := ⟨n - 1, by omega⟩
  refine .turns_stop ((reads_operator_none hg).bind fun o ho => ?_)
  rw [ho]
  exact .pure rfl

theorem reads_call (fn : Plain) (args : List Expr) (hrest : StartsWith lineFaces rest) :
    Reads value ((.action, .text "call") :: (.keyword, .text "function") :: fn.face
      :: (shown (afterWith (args.map Expr.spell)) ++ rest)) rest
      (fun v => ∃ p es, v = .call p fn.text es ∧ Forall₂ Expr.Placed args es) := by
  have hprimary : Reads primary ((.action, .text "call") :: (.keyword, .text "function") :: fn.face
      :: (shown (afterWith (args.map Expr.spell)) ++ rest)) rest
      (fun v => ∃ p es, v = .call p fn.text es ∧ Forall₂ Expr.Placed args es) := by
    refine .budget fun n hn => ?_
    simp only [length_cons, length_append, length_shown] at hn
    obtain ⟨n, rfl⟩ : ∃ m, n = m + 1 := ⟨n - 1, by omega⟩
    have hvalue : ∀ e ∈ args, ∀ rest, Starts endsValue rest →
        Reads (chain (primaryAt n)) (shown e.spell ++ rest) rest e.Placed := by
      intro e he rest hrest
      refine reads_chain e ?_ hrest
      have hle : e.spell.length ≤ (afterWith (args.map Expr.spell)).length := by
        cases args with
        | nil => exact absurd he not_mem_nil
        | cons arg args =>
          have := length_le_separated (word "and") (mem_map_of_mem (f := Expr.spell) he)
          rw [map_cons] at this ⊢
          rw [afterWith_cons, length_cons]
          omega
      omega
    rw [primaryAt, primaryOf]
    refine .current fun p => .no rfl (.no rfl (.no rfl (.no rfl (.seesNext (.yes rfl ?_)))))
    refine .advance (ne_of_beq_false rfl) fun q => ?_
    refine (reads_functionCallOf fn args hvalue hrest).bind ?_
    rintro call ⟨hname, hargs⟩
    exact .pure ⟨p, call.args, by rw [hname]; rfl, hargs⟩
  refine .position fun p => hprimary.bind fun v hv => ?_
  obtain ⟨g, fs, rfl, hg⟩ := hrest.endsValue.cons
  refine (reads_operands_none hg).bind fun ls hls => ?_
  rw [hls]
  exact .pure hv

theorem reads_letCall (p : Position) (w fn : Plain) (args : List Expr)
    (hrest : StartsWith lineFaces rest) :
    Reads (Opener.letVariable p) (w.face :: (.preposition, .text "be") :: (.action, .text "call")
      :: (.keyword, .text "function") :: fn.face
      :: (shown (afterWith (args.map Expr.spell)) ++ rest)) rest
      (Stmt.defineCall w fn args).Given := by
  refine (reads_name (by decide) (.inr rfl)).bind fun s hs => ?_
  rw [hs]
  refine reads_passAssign (.inr rfl) (.position fun q => .leave rfl ?_)
  refine (reads_call fn args hrest).bind ?_
  rintro _ ⟨p', es, rfl, hes⟩
  exact .pure ⟨_, rfl, .defineCall hes⟩

end Core
end Parlance
