import Parlance.Proofs.ReadStatement

/-!
# Reading Blocks Back

Each reader of a block is given the reader of the bodies inside it. A block is printed with its
stop words in the order in which its reader looks for them, so each body is followed by a word that
ends it. After `else` there may stand `do`, which opens no statement: the body passes over it. The
name after `catch` may be missing, which shows because the handler's first line begins with a word
that is no name.

## Theorems

* `Core.reads_branch_else`: A branch with an `else` that does not go on with `if`.
* `Core.reads_branch`: A branch is read as it is spelled, with or without an `else`.
* `Core.startsWith_body`: A body begins a line, or the line behind it does.
* `Core.readsStatements_nestAt`: The reader of statements that nest at most so deep reads each
  statement with at most so many spellings.
-/

namespace Parlance
open List Vocabulary

namespace Core
open Reader
variable {f g : Token.Face} {fs gs rest : List Token.Face}
variable (handler : Option (Option Plain × List Stmt)) (cleanup : Option (List Stmt))

/-! ### Statements with bodies -/

section Blocks
variable {nest : Nest} {n : Nat} {body : List Stmt} {x : String} (w : Plain) (params : List Plain)

theorem endsCondition_then : Starts endsCondition ((.keyword, .text "then") :: fs) := rfl

theorem endsCondition_do : Starts endsCondition (doFace :: fs) := rfl

theorem endsReference_times : Starts endsReference ((.keyword, .text "times") :: fs) := rfl

theorem elseLine_starts (s : Stmt) (body : List Stmt) (rest : List Token.Face) :
    ∃ skip, shown (elseLine (s :: body)) = (.keyword, .text "else") :: skipped skip
      ∧ Starts (fun g => !g.readsAny ["if"])
        (skipped skip ++ (shown ((s :: body).flatMap Stmt.spell) ++ rest)) := by
  obtain ⟨fs, hshown⟩ := s.shown_spell
  rw [flatMap_cons, shown_append, hshown]
  cases s with
  | branch cond thenBody elseBody =>
    refine ⟨true, ?_, rfl⟩
    simp [elseLine, shown, face_word, classify_words, skipped, doFace]
  | change op w e =>
    refine ⟨false, ?_, by cases op <;> rfl⟩
    simp [elseLine, shown, face_word, classify_words, skipped]
  | _ =>
    refine ⟨false, ?_, rfl⟩
    simp [elseLine, shown, face_word, classify_words, skipped]

theorem reads_toElse (hnest : ReadsBodies nest n) (p : Position) (cond : Condition)
    (thenBody : List Stmt) (hthen : (thenBody.flatMap Stmt.spell).length ≤ n)
    {Q : Option Parlance.Stmt → Prop}
    (hread : ∀ c ts q, cond.Placed c → Forall₂ Stmt.Placed thenBody ts →
      Reads (do
        if ← accept ["if"] then
          let inner ← nest.branch q
          return some (.branch p c ts inner.toList)
        return some (.branch p c ts (← Opener.closedBody nest))) fs gs Q) :
    Reads (Opener.branch nest p) (shown cond.spell ++ (.keyword, .text "then")
      :: (shown (thenBody.flatMap Stmt.spell) ++ (.keyword, .text "else") :: fs)) gs Q := by
  have hend : EndsBody ["else", "end"] ((.keyword, .text "else") :: fs) :=
    .of_word (by decide) (by decide)
  refine (reads_condition cond endsCondition_then).bind fun c hc => ?_
  refine .passTake rfl ?_
  refine (hnest _ false thenBody _ hthen hend).bind fun ts hts => ?_
  refine .bind (.accept_true rfl) fun b hb => .no (by rw [hb]; rfl) ?_
  exact .position fun q => hread c ts q hc hts

/-- A branch with an `else` that does not go on with `if`. -/
theorem reads_branch_else (hnest : ReadsBodies nest n) (p : Position) (cond : Condition)
    (thenBody elseBody : List Stmt) (skip : Bool)
    (hthen : (thenBody.flatMap Stmt.spell).length ≤ n)
    (helse : (elseBody.flatMap Stmt.spell).length ≤ n)
    (hstarts : Starts (fun g => !g.readsAny ["if"])
      (skipped skip ++ (shown (elseBody.flatMap Stmt.spell) ++ endFace :: rest)))
    (hrest : StartsWith lineFaces rest) :
    Reads (Opener.branch nest p) (shown cond.spell ++ (.keyword, .text "then")
      :: (shown (thenBody.flatMap Stmt.spell) ++ (.keyword, .text "else")
        :: (skipped skip ++ (shown (elseBody.flatMap Stmt.spell) ++ endFace :: rest)))) rest
      (Stmt.branch cond thenBody elseBody).Given := by
  refine reads_toElse hnest p cond thenBody hthen fun c ts q hc hts => ?_
  have hread := reads_closedBody hnest skip helse hrest
  obtain ⟨g, fs, hshown, hg⟩ := hstarts.cons
  rw [hshown] at hread ⊢
  refine .leave (by simpa using hg) (hread.bind fun es hes => ?_)
  exact .pure ⟨_, rfl, .branch hc hts hes⟩

/-- A branch is read as it is spelled, with or without an `else`. -/
theorem reads_branch (hnest : ReadsBodies nest n) (p : Position) (cond : Condition)
    (thenBody elseBody : List Stmt) (hthen : (thenBody.flatMap Stmt.spell).length ≤ n)
    (helse : (elseBody.flatMap Stmt.spell).length ≤ n) (hrest : StartsWith lineFaces rest) :
    Reads (Opener.branch nest p) (shown cond.spell ++ (.keyword, .text "then")
      :: (shown (thenBody.flatMap Stmt.spell)
        ++ (shown
            (if elseBody.isEmpty then [] else elseLine elseBody ++ elseBody.flatMap Stmt.spell)
          ++ endFace :: rest))) rest (Stmt.branch cond thenBody elseBody).Given := by
  cases elseBody with
  | nil =>
    refine (reads_condition cond endsCondition_then).bind fun c hc => ?_
    refine .passTake rfl ?_
    refine .bind (hnest _ false thenBody _ hthen (.of_end (by decide) hrest)) ?_
    refine fun ts hts => .bind (.accept_false rfl) fun b hb => .yes (by rw [hb]; rfl) ?_
    exact .passTake rfl (.pure ⟨_, rfl, .branch hc hts .nil⟩)
  | cons s body =>
    -- A body that begins with `if` has `do` before it, or `else if` would be read.
    obtain ⟨skip, hline, hstarts⟩ := elseLine_starts s body (endFace :: rest)
    rw [isEmpty_cons, if_neg Bool.false_ne_true, shown_append, hline, cons_append,
      cons_append, append_assoc]
    exact reads_branch_else hnest p cond thenBody (s :: body) skip hthen helse hstarts hrest

theorem reads_whileLoop (hnest : ReadsBodies nest n) (p : Position) (cond : Condition)
    (hbody : (body.flatMap Stmt.spell).length ≤ n) (hrest : StartsWith lineFaces rest) :
    Reads (Opener.whileLoop nest p) (shown cond.spell ++ doFace
      :: (shown (body.flatMap Stmt.spell) ++ endFace :: rest)) rest
      (Stmt.whileLoop cond body).Given := by
  refine (reads_condition cond endsCondition_do).bind fun c hc => ?_
  refine .passTake rfl ?_
  refine (reads_closedBody hnest false hbody hrest).bind fun ss hss => ?_
  exact .pure ⟨_, rfl, .whileLoop hc hss⟩

theorem reads_times (hnest : ReadsBodies nest n) (p : Position) (count : Count)
    (hbody : (body.flatMap Stmt.spell).length ≤ n) (hrest : StartsWith lineFaces rest) :
    Reads (Opener.times nest p) (count.spell.face :: (.keyword, .text "times")
      :: (shown (body.flatMap Stmt.spell) ++ endFace :: rest)) rest
      (Stmt.times count body).Given := by
  have hcount : Reads primary (count.spell.face :: (.keyword, .text "times")
      :: (shown (body.flatMap Stmt.spell) ++ endFace :: rest)) ((.keyword, .text "times")
      :: (shown (body.flatMap Stmt.spell) ++ endFace :: rest)) count.Placed := by
    cases count with
    | number k =>
      refine (reads_primary (.number k) endsReference_times).imp fun e he => ?_
      cases he
      exact .number
    | name w =>
      refine (reads_primary (.name w) endsReference_times).imp fun e he => ?_
      cases he
      exact .name
  have hkind : (count.spell.face.1 == .text) = false := by
    cases count with
    | number k => rfl
    | name w =>
      rw [Count.spell, Plain.face_spell]
      rfl
  refine .seesKind (.no hkind (hcount.bind fun e he => .passTake rfl ?_))
  refine (reads_closedBody hnest false hbody hrest).bind fun ss hss => ?_
  exact .pure ⟨_, rfl, .times he hss⟩

theorem reads_forEach (hnest : ReadsBodies nest n) (p : Position) (item list : Plain)
    (hbody : (body.flatMap Stmt.spell).length ≤ n) (hrest : StartsWith lineFaces rest) :
    Reads (Opener.forEach nest p) ((.preposition, .text "each") :: item.face
      :: (.preposition, .text "in") :: list.face :: doFace
      :: (shown (body.flatMap Stmt.spell) ++ endFace :: rest)) rest
      (Stmt.forEach item list body).Given := by
  refine .passTake rfl (reads_identifier.bind fun x hx => ?_)
  refine .passTake rfl (reads_identifier.bind fun y hy => ?_)
  refine .passTake rfl ?_
  refine (reads_closedBody hnest false hbody hrest).bind fun ss hss => ?_
  rw [hx, hy]
  exact .pure ⟨_, rfl, .forEach hss⟩

/-- A body begins a line, or the line behind it does. -/
theorem startsWith_body (body : List Stmt) (hrest : StartsWith lineFaces rest) :
    StartsWith lineFaces (shown (body.flatMap Stmt.spell) ++ rest) := by
  cases body with
  | nil => exact hrest
  | cons s body =>
    rw [flatMap_cons, shown_append, append_assoc]
    exact (s.starts _).imp fun g hg => by simp [lineFaces, of_decide_eq_true hg]

def cleanupFaces : Option (List Stmt) → List Token.Face
  | none => []
  | some body => (.keyword, .text "finally") :: shown (body.flatMap Stmt.spell)

def handlerFaces : Option (Option Plain × List Stmt) → List Token.Face
  | none => []
  | some (none, body) => (.keyword, .text "catch") :: shown (body.flatMap Stmt.spell)
  | some (some w, body) =>
    (.keyword, .text "catch") :: w.face :: shown (body.flatMap Stmt.spell)

theorem endsBody_cleanup {stops : List String}
    (hstops : (∀ x ∈ stops, x ∈ ["else", "end", "catch", "finally"]) ∧ stops.contains "end" = true
      ∧ stops.contains "finally" = true) (hrest : StartsWith lineFaces rest) :
    EndsBody stops (cleanupFaces cleanup ++ endFace :: rest) := by
  cases cleanup with
  | none => exact .of_end ⟨hstops.1, hstops.2.1⟩ hrest
  | some body => exact .of_word ⟨hstops.1, hstops.2.2⟩ (by decide)

theorem endsBody_handler (hrest : StartsWith lineFaces rest) :
    EndsBody ["catch", "finally", "end"]
      (handlerFaces handler ++ (cleanupFaces cleanup ++ endFace :: rest)) := by
  rcases handler with _ | ⟨_ | w, body⟩
  · exact endsBody_cleanup cleanup (by decide) hrest
  · exact .of_word (by decide) (by decide)
  · exact .of_word (by decide) (by decide)

theorem reads_cleanup (hnest : ReadsBodies nest n) (cleanup : Option (List Stmt))
    (hlen : (cleanupFaces cleanup).length ≤ n) (hrest : StartsWith lineFaces rest) :
    Reads (maybe ["finally"] (nest.body ["end"])) (cleanupFaces cleanup ++ endFace :: rest)
      (endFace :: rest) (Option.Rel (Forall₂ Stmt.Placed) cleanup) := by
  cases cleanup with
  | none =>
    refine .imp (.optionallyLeave rfl) ?_
    rintro _ rfl
    exact .none
  | some body =>
    rw [cleanupFaces, length_cons, length_shown] at hlen
    have hbody := hnest ["end"] false body _ (by omega) (.of_end (by decide) hrest)
    refine .imp (.optionallyTake rfl hbody) ?_
    rintro _ ⟨ss, rfl, hss⟩
    exact .some hss

theorem reads_errorName_none (hrest : StartsWith lineFaces rest) :
    Reads Opener.errorName rest rest (fun s => s = "error") := by
  obtain ⟨g, fs, rfl, hg⟩ := hrest.cons
  obtain ⟨-, -, -, -, -, hidentifier, hpreposition⟩ := leaves_of_line g (of_decide_eq_true hg)
  refine .current fun p => .no ?_ (.pure rfl)
  simp [Token.Face.token, hidentifier, hpreposition]

theorem reads_errorName_some : Reads Opener.errorName (w.face :: fs) fs (fun s => s = w.text) := by
  refine .current fun p => .yes ?_ reads_identifier
  have hwords : (w.face.token p).content.isOneOf ["then", "end", "if", "repeat", "while"] = false :=
    w.not_contains (by decide)
  rw [hwords]
  rfl

theorem reads_handler (hnest : ReadsBodies nest n) (handler : Option (Option Plain × List Stmt))
    (cleanup : Option (List Stmt)) (hlen : (handlerFaces handler).length ≤ n)
    (hrest : StartsWith lineFaces rest) :
    Reads (maybe ["catch"] (Opener.handler nest))
      (handlerFaces handler ++ (cleanupFaces cleanup ++ endFace :: rest))
      (cleanupFaces cleanup ++ endFace :: rest)
      (fun o => (o.getD ("error", [])).1 = failureName (handler.bind Prod.fst)
        ∧ Forall₂ Stmt.Placed (handler.elim [] Prod.snd) (o.getD ("error", [])).2) := by
  have hends : EndsBody ["finally", "end"] (cleanupFaces cleanup ++ endFace :: rest) :=
    endsBody_cleanup cleanup (by decide) hrest
  -- The body of a handler begins with a line, so `then` and `do` are not there.
  have hbody : ∀ body : List Stmt, (body.flatMap Stmt.spell).length ≤ n → ∀ x : String,
      Reads (do
        pass ["then", "do"]
        return (x, ← nest.body ["finally", "end"]))
        (shown (body.flatMap Stmt.spell) ++ (cleanupFaces cleanup ++ endFace :: rest))
        (cleanupFaces cleanup ++ endFace :: rest)
        (fun r => r.1 = x ∧ Forall₂ Stmt.Placed body r.2) := by
    intro body hlen x
    have hread := hnest ["finally", "end"] false body _ hlen hends
    obtain ⟨g, fs, hshown, hg⟩ := (startsWith_body body hends.line).cons
    rw [skipped, nil_append, hshown] at hread
    rw [hshown]
    refine .passLeave (leaves_of_line g (of_decide_eq_true hg)).2.2.2.2.1 ?_
    exact hread.bind fun ss hss => .pure ⟨rfl, hss⟩
  rcases handler with _ | ⟨_ | w, body⟩
  · have hleave : Reads (accept ["catch"]) (cleanupFaces cleanup ++ endFace :: rest)
        (cleanupFaces cleanup ++ endFace :: rest) (fun b => b = false) := by
      cases cleanup <;> exact .accept_false rfl
    exact hleave.bind fun b hb => .no hb (.pure ⟨rfl, .nil⟩)
  · rw [handlerFaces, length_cons, length_shown] at hlen
    refine .take rfl (.bind ?_ fun r hr => .pure hr)
    refine (reads_errorName_none (startsWith_body body hends.line)).bind fun x hx => ?_
    exact (hbody body (by omega) x).imp fun r hr => ⟨hr.1.trans hx, hr.2⟩
  · rw [handlerFaces, length_cons, length_cons, length_shown] at hlen
    refine .take rfl (.bind ?_ fun r hr => .pure hr)
    refine (reads_errorName_some w).bind fun x hx => ?_
    exact (hbody body (by omega) x).imp fun r hr => ⟨hr.1.trans hx, hr.2⟩

theorem reads_attempt (hnest : ReadsBodies nest n) (p : Position)
    (handler : Option (Option Plain × List Stmt)) (cleanup : Option (List Stmt))
    (hlen : (body.flatMap Stmt.spell).length ≤ n) (hhandler : (handlerFaces handler).length ≤ n)
    (hcleanup : (cleanupFaces cleanup).length ≤ n) (hrest : StartsWith lineFaces rest) :
    Reads (Opener.attempt nest p) (shown (body.flatMap Stmt.spell)
      ++ (handlerFaces handler ++ (cleanupFaces cleanup ++ endFace :: rest))) rest
      (Stmt.attempt body handler cleanup).Given := by
  have hbody := hnest _ false body _ hlen (endsBody_handler handler cleanup hrest)
  refine hbody.bind fun ss hss => ?_
  refine (reads_handler hnest handler cleanup hhandler hrest).bind fun o ho => ?_
  refine (reads_cleanup hnest cleanup hcleanup hrest).bind fun cs hcs => ?_
  have hplaced := Stmt.Placed.attempt (p := p) hss ho.2 hcs
  rw [← ho.1] at hplaced
  exact .passTake rfl (.pure ⟨_, rfl, hplaced⟩)

theorem reads_keyword : Reads ident ((.keyword, .text x) :: fs) fs (fun s => s = x) := by
  refine .current fun p => ?_
  exact .advance (ne_of_beq_false rfl) fun q => .pure rfl

theorem reads_parameter {P : Turn String → Prop} (hx : ["and", "then", "do"].contains x = true)
    (hread : Reads (do if ← accept ["and", ","] then return .item w.text else return .last w.text)
      ((.keyword, .text x) :: fs) gs P) :
    Reads Opener.parameter (w.face :: (.keyword, .text x) :: fs) gs P := by
  refine .seesKinds (reads_atStatement w.startsValue_face (.no rfl ?_))
  have hend : Token.Content.isOneOf (.text x) ["and", "then", "do"] = true := hx
  refine (reads_name (g := (.keyword, .text x)) (by decide) (.inr hend)).bind fun s hs => ?_
  rw [hs]
  exact hread

theorem reads_parameters :
    Reads (loop Opener.parameter) (shown (separated (word "and")
        ((w :: params).map fun w => [w.spell])) ++ (.keyword, .text "then") :: fs)
      ((.keyword, .text "then") :: fs) (Forall₂ (fun w s => s = w.text) (w :: params)) := by
  refine .budget fun n hn => ?_
  refine reads_separated_last w params (fun v _ fs => ?_) (fun v _ => ?_) n ?_
  · simp only [shown_cons, Plain.face_spell, face_word, classify_words]
    exact reads_parameter v rfl (.take rfl (.pure ⟨_, rfl, rfl⟩))
  · rw [shown_cons, Plain.face_spell]
    exact reads_parameter v rfl (.leave rfl (.pure ⟨_, rfl, rfl⟩))
  · have hlen := length_le_length_separated (word "and") ((w :: params).map fun w => [w.spell])
    rw [length_append, length_shown, length_cons] at hn
    rw [length_map, length_cons] at hlen
    omega

theorem reads_params :
    Reads (maybe ["with", "params", "param"] (loop Opener.parameter))
      (shown (afterWith (params.map fun w => [w.spell])) ++ (.keyword, .text "then") :: fs)
      ((.keyword, .text "then") :: fs) (fun o => o.getD [] = params.map (·.text)) := by
  cases params with
  | nil =>
    refine .imp (.optionallyLeave rfl) ?_
    rintro _ rfl
    rfl
  | cons w params =>
    simp only [map_cons, afterWith_cons, shown_cons, face_word, classify_words,
      cons_append]
    refine .imp (.optionallyTake rfl (reads_parameters w params)) ?_
    rintro _ ⟨ss, rfl, hss⟩
    rw [← map_cons (f := fun v : Plain => v.text), ← forall₂_eq_eq_eq,
      forall₂_map_right_iff]
    exact hss.flip

theorem reads_defineFunction (hnest : ReadsBodies nest n) (p : Position) (w : Plain)
    (params : List Plain) (hbody : (body.flatMap Stmt.spell).length ≤ n)
    (hrest : StartsWith lineFaces rest) :
    Reads (Opener.definition nest p) ((.keyword, .text "function") :: w.face
      :: (shown (afterWith (params.map fun w => [w.spell])) ++ (.keyword, .text "then")
        :: (shown (body.flatMap Stmt.spell) ++ endFace :: rest))) rest
      (Stmt.defineFunction w params body).Given := by
  unfold Opener.definition
  refine reads_keyword.bind fun s hs => ?_
  subst hs
  refine .no rfl (.no rfl (reads_nameOrText.bind fun s hs => ?_))
  refine (reads_params params).bind fun o ho => .passTake rfl ?_
  refine (reads_closedBody hnest false hbody hrest).bind fun ss hss => ?_
  rw [hs, ho]
  exact .pure ⟨_, rfl, .defineFunction hss⟩

end Blocks

/-! ### Statements of any depth -/

theorem reads_do (nest : Nest) :
    Reads (statementOf nest) (doFace :: fs) fs (fun o => o = none) := by
  refine .advance (ne_of_beq_false rfl) fun p => .no rfl ?_
  have hdo : opener? nest (doFace.token p).spelling = none := rfl
  rw [hdo]
  exact .pure rfl

theorem flatten_elseLines (elseBody : List Stmt) :
    (if elseBody.isEmpty = true then [] else elseLine elseBody :: linesOf elseBody).flatten =
      if elseBody.isEmpty = true then []
        else elseLine elseBody ++ elseBody.flatMap Stmt.spell := by
  split
  · rfl
  · rw [flatten_cons, flatten_linesOf]

theorem flatten_handlerLines : shown (handlerLines handler).flatten = handlerFaces handler := by
  rcases handler with _ | ⟨_ | w, body⟩ <;>
    simp only [handlerLines, handlerFaces, flatten_cons, flatten_nil, flatten_linesOf,
      shown_append, shown_cons, face_word, classify_words, Plain.face_spell,
      cons_append] <;> rfl

theorem flatten_cleanupLines : shown (cleanupLines cleanup).flatten = cleanupFaces cleanup := by
  rcases cleanup with _ | body <;>
    simp only [cleanupLines, cleanupFaces, flatten_cons, flatten_nil, flatten_linesOf,
      shown_append, shown_cons, face_word, classify_words, cons_append] <;> rfl

/-- The reader of statements that nest at most so deep reads each statement with
    at most so many spellings. The induction is on the depth: a body is shorter
    than its statement by the words around it. -/
theorem readsStatements_nestAt (n : Nat) : ReadsStatements (statementOf (nestAt n)) n := by
  induction n with
  | zero =>
    intro s rest hs _
    obtain ⟨fs, hshown⟩ := s.shown_spell
    have hlen := congrArg length hshown
    rw [length_shown, length_cons] at hlen
    omega
  | succ n ih =>
    have hnest : ReadsBodies (nestAt (n + 1)) n := reads_bodyOf ih (fun fs => reads_do _) _
    intro s rest hs hrest
    have hvalue := hrest.endsValue
    cases s <;> simp only [Stmt.spell, Stmt.lines, block, flatten_cons, flatten_append,
      flatten_nil, append_nil, flatten_linesOf, length_cons, length_append,
      length_nil] at hs <;> simp only [Stmt.spell, Stmt.lines, block, flatten_cons,
      flatten_append, flatten_nil, append_nil, flatten_linesOf, shown_cons,
      shown_append, face_word, classify_words, Plain.face_spell, cons_append,
      append_assoc, nil_append]
    case define w e =>
      exact reads_statementOf rfl rfl fun p => reads_letVariable p w e hvalue
    case defineCall w fn args =>
      exact reads_statementOf rfl rfl fun p => reads_letCall p w fn args hrest
    case assign w e =>
      exact reads_statementOf rfl rfl fun p => reads_setVariable p w e hvalue
    case change op w e =>
      cases op with
      | increase =>
        simp only [Core.change, face_word, classify_words]
        exact reads_statementOf rfl rfl fun p => reads_change p .increase w e hvalue
      | decrease =>
        simp only [Core.change, face_word, classify_words]
        exact reads_statementOf rfl rfl fun p => reads_change p .decrease w e hvalue
    case print e =>
      refine reads_statementOf rfl rfl fun p => ?_
      exact (reads_value e hvalue).bind fun v hv => .pure ⟨_, rfl, .print hv⟩
    case throw e =>
      exact reads_statementOf rfl rfl fun p => reads_raiseError p e hvalue
    case breakLoop =>
      exact reads_statementOf rfl rfl fun p => .pure ⟨_, rfl, .breakLoop⟩
    case skipRound =>
      exact reads_statementOf rfl rfl fun p => .pure ⟨_, rfl, .skipRound⟩
    case giveBack e =>
      exact reads_statementOf rfl rfl fun p => reads_giveBack p e hvalue
    case branch cond thenBody elseBody =>
      refine reads_statementOf rfl rfl fun p => ?_
      rw [flatten_elseLines] at hs ⊢
      refine reads_branch hnest p cond thenBody elseBody (by omega) ?_ hrest
      cases elseBody with
      | nil => simp
      | cons s body =>
        rw [isEmpty_cons, if_neg Bool.false_ne_true, length_append] at hs
        omega
    case whileLoop cond body =>
      refine reads_statementOf rfl rfl fun p => ?_
      exact reads_whileLoop hnest p cond (by omega) hrest
    case times count body =>
      refine reads_statementOf rfl rfl fun p => ?_
      exact reads_times hnest p count (by omega) hrest
    case forEach item list body =>
      refine reads_statementOf rfl rfl fun p => ?_
      exact reads_forEach hnest p item list (by omega) hrest
    case attempt body handler cleanup =>
      refine reads_statementOf rfl rfl fun p => ?_
      rw [← length_shown (handlerLines handler).flatten,
        ← length_shown (cleanupLines cleanup).flatten] at hs
      rw [flatten_handlerLines, flatten_cleanupLines] at hs ⊢
      exact reads_attempt hnest p handler cleanup (by omega) (by omega) (by omega) hrest
    case defineFunction w params body =>
      refine reads_statementOf rfl rfl fun p => ?_
      exact reads_defineFunction hnest p w params (by omega) hrest

end Core
end Parlance
