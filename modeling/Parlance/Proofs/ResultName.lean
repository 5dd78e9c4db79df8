import Parlance.Proofs.ReadName

/-!
# Names of Results

The name under which a statement stores its result is a run of words. It ends before `then`, `end` and
`else`, and before a word that opens a statement. The words `catch` and `finally` are none of these.
So the name of a result that is the last thing before one of them runs on over the word, and the
statement around it loses the part that the word was to open: what was written as a handler is read
as more of the body before it.

## Main definitions

* `Core.Trailing`: A word that the name of a result runs on over.
* `Core.resultName`: The name of a result with the words that it runs on over.
* `Core.Source`: Where a result comes from.
* `Core.Source.Stores`: The statement stores what comes from here under this name.
* `Core.Storing`: A statement that stores a result under a name.

## Theorems

* `Core.reads_results`: A body of such statements, up to a word that ends it.
* `Core.attempt_of_results`: A statement with `try` around bodies of statements that store results
  is read as one such statement, with no fault.
-/

namespace Parlance
open List Vocabulary Token Opener

namespace Core
open Reader
variable {f g : Face} {fs gs rest : List Face} {nest : Nest} {n : Nat} {p : Position}
variable {c : Cursor} (w : Plain) (s : Source) (e : Plain) (ts : List Trailing)
  (body handler cleanup : List Storing)

/-! ### Where the name of a result ends -/

def endsResult (g : Face) : Bool :=
  !g.1.isWord || g.2.isOneOf Grammar.outStops || (g.token .start).opensStatement

/-- A word that the name of a result runs on over. -/
structure Trailing where
  kind : Kind
  text : String
  runs : endsResult (kind, .text text) = false
  inner : Grammar.openers.contains text = false

namespace Trailing

def face (t : Trailing) : Face := (t.kind, .text t.text)

def catching : Trailing := ⟨.keyword, "catch", rfl, rfl⟩

def closing : Trailing := ⟨.keyword, "finally", rfl, rfl⟩

end Trailing

theorem Plain.endsResult_eq_false : endsResult (.identifier, .text w.text) = false := by
  have hstops : Grammar.outStops.contains w.text = false := w.not_contains (by decide)
  simp only [endsResult, Content.isOneOf, hstops]
  rfl

theorem Plain.openers_not_contains : Grammar.openers.contains w.text = false :=
  w.not_contains fun x hx => by simp [Grammar.literals, hx]

def Plain.trailing (w : Plain) : Trailing where
  kind := .identifier
  text := w.text
  runs := w.endsResult_eq_false
  inner := w.openers_not_contains

theorem nameTurn_of_ends (hg : endsResult g = true) (hc : c.faces = g :: fs) :
    nameTurn Grammar.outStops false c = .stop := by
  obtain ⟨p, hp⟩ := Cursor.peek_zero hc
  simp only [endsResult, Bool.or_eq_true, Bool.not_eq_true'] at hg
  rw [nameTurn, Cursor.atStatement, hp]
  rcases hg with (hg | hg) | hg
  · rw [if_pos (by simp [isWord, Face.token, hg])]
  · rw [if_pos (by simp [Face.token, hg])]
  · rw [show (g.token p).opensStatement = true from hg]
    simp

theorem nameTurn_of_trailing (t : Trailing) (hc : c.faces = t.face :: fs) :
    nameTurn Grammar.outStops false c = .word := by
  obtain ⟨p, hp⟩ := Cursor.peek_zero hc
  have hruns := t.runs
  simp only [endsResult, Bool.or_eq_false_iff, Bool.not_eq_false'] at hruns
  obtain ⟨⟨hword, hstop⟩, hopens⟩ := hruns
  have hopener : (t.face.token p).isOpener = false := t.inner
  have hline : c.atLineStatement = false := by
    -- Even at the beginning of a line the word does not open a statement.
    rw [Cursor.atLineStatement, hp, hopener]
    simp
  rw [nameTurn, Cursor.atStatement, hline, hp, show (t.face.token p).isWord = true from hword,
    show (t.face.token p).content.isOneOf Grammar.outStops = false from hstop,
    show (t.face.token p).opensStatement = false from hopens]
  rfl

/-- The name of a result with the words that it runs on over. -/
def resultName (w : Plain) (ts : List Trailing) : String :=
  "_".intercalate (w.text :: ts.map (·.text))

theorem reads_outName (hg : endsResult g = true) :
    Reads outName (w.face :: (ts.map Trailing.face ++ g :: fs)) (g :: fs)
      (fun x => x = resultName w ts) := by
  refine .budget fun n hn => ?_
  rw [length_cons, length_append, length_map, length_cons] at hn
  have hwords : Reads (nameWords (nameTurn Grammar.outStops) true n)
      (w.face :: (ts.map Trailing.face ++ g :: fs)) (g :: fs)
      (fun xs => xs = w.text :: ts.map (·.text)) := by
    refine ReadsIn.reads fun tokens => ?_
    have hspelling : w.text :: ts.map (·.text) =
        (w.face :: ts.map Trailing.face).map (·.2.spelling) := by
      rw [map_cons, map_map]
      rfl
    rw [hspelling]
    refine readsIn_nameWords_first w.face_ne_finish
      (fun c _ hc => nameTurn_first (w.not_contains (by decide)) hc) (fun f hf => ?_)
      (fun c hc => nameTurn_of_ends hg hc) (by rw [length_map]; omega)
    obtain ⟨t, -, rfl⟩ := mem_map.mp hf
    refine ⟨fun hkind => ?_, fun _ _ c _ hc => nameTurn_of_trailing t hc⟩
    have hruns := t.runs
    -- The end mark is no word, so no name runs on over it.
    rw [show t.kind = .finish from hkind] at hruns
    exact absurd hruns (by simp [endsResult, Kind.isWord])
  refine hwords.bind fun xs hxs => ?_
  rw [hxs]
  exact .pure rfl

/-! ### Statements that store a result -/

/-- Where a result comes from. -/
inductive Source where
  | function (fn : Plain)
  | method (method owner : Plain)
  | copy (source : Plain)
  | combine (first second : Plain)
  | execute (command : Quotable)

def Source.words : Source → List String
  | .function fn => ["call", "function", fn.text]
  | .method m owner => ["call", "method", m.text, "on", owner.text]
  | .copy x => ["copy", x.text]
  | .combine x y => ["assign", x.text, "and", y.text]
  | .execute q => ["execute", "\"" ++ q.body ++ "\""]

def Source.faces : Source → List Face
  | .function fn => [(.action, .text "call"), (.keyword, .text "function"), fn.face]
  | .method m owner =>
    [(.action, .text "call"), (.keyword, .text "method"), m.face, (.preposition, .text "on"),
      owner.face]
  | .copy x => [(.action, .text "copy"), x.face]
  | .combine x y => [(.action, .text "assign"), x.face, (.keyword, .text "and"), y.face]
  | .execute q => [(.action, .text "execute"), (.text, .text q.body)]

/-- The statement stores what comes from here under this name. -/
inductive Source.Stores (out : String) : Source → Parlance.Stmt → Prop where
  | function {fn p} : Stores out (.function fn)
    (.command p (.script (.callFunction fn.text [] (some out))))
  | method {m owner p} : Stores out (.method m owner)
    (.command p (.script (.callMethod m.text owner.text [] (some out))))
  | copy {x p} : Stores out (.copy x) (.command p (.collection (.copy x.text out)))
  | combine {x y p} : Stores out (.combine x y)
    (.command p (.collection (.combine [x.text, y.text] out)))
  | execute {q p p'} : Stores out (.execute q)
    (.command p (.system (.shell .execute (.text p' q.body) (some out))))

theorem classify_sources :
    Tells .action "copy" ∧ Tells .action "assign" ∧ Tells .action "execute" ∧
    Tells .preposition "into" ∧ Tells .preposition "on" ∧ Tells .keyword "method" := by
  and_intros
  all_goals exact classify_of_known? (by decide) (by decide)

def intoFace : Face := (.preposition, .text "into")

theorem opener?_sources (nest : Nest) :
    opener? nest "call" = some call ∧ opener? nest "copy" = some copy
      ∧ opener? nest "assign" = some combine
      ∧ opener? nest "execute" = some (shell .execute) :=
  ⟨rfl, rfl, rfl, rfl⟩

section Sources
variable {out : String}

theorem reads_callCommand_function (fn : Plain)
    (hinto : Reads (maybe ["into"] outName) (intoFace :: fs) gs (fun o => o = some out)) :
    Reads (callCommand p) ((.keyword, .text "function") :: fn.face :: intoFace :: fs) gs
      (fun r => ∃ q, r = (q, .script (.callFunction fn.text [] (some out)))) := by
  have hcall : Reads functionCall ((.keyword, .text "function") :: fn.face :: intoFace :: fs) gs
      (fun call => call = ⟨fn.text, [], some out⟩) := by
    refine .passTake rfl (reads_nameOrText.bind fun x hx => ?_)
    refine .bind (.optionallyLeave rfl) fun args hargs => hinto.bind fun o ho => .pure ?_
    rw [hx, hargs, ho]
    rfl
  refine .position fun q => .sees (.yes rfl (hcall.bind fun call hcall => .pure ⟨q, ?_⟩))
  rw [hcall]

theorem reads_callCommand_method (m owner : Plain)
    (hinto : Reads (maybe ["into"] outName) (intoFace :: fs) gs (fun o => o = some out)) :
    Reads (callCommand p) ((.keyword, .text "method") :: m.face
      :: (.preposition, .text "on") :: owner.face :: intoFace :: fs) gs
      (fun r => r = (p, .script (.callMethod m.text owner.text [] (some out)))) := by
  refine .position fun q => .sees (.no rfl (.leave rfl (.take rfl ?_)))
  refine reads_nameOrText.bind fun x hx => .passTake rfl ?_
  refine reads_identifier.bind fun y hy => ?_
  refine .bind (.optionallyLeave rfl) fun args hargs => hinto.bind fun o ho => .pure ?_
  rw [hx, hy, hargs, ho]
  rfl

theorem reads_sources (x y : Plain) :
    Reads (Reader.separated ["and", ","] (name ["and", "into", "to"]))
      (x.face :: (.keyword, .text "and") :: y.face :: intoFace :: fs) (intoFace :: fs)
      (fun zs => zs = [x.text, y.text]) := by
  have hname : ∀ (v : Plain) (g : Face) (gs : List Face),
      g.2.isOneOf ["and", "into", "to"] = true →
        Reads (name ["and", "into", "to"]) (v.face :: g :: gs) (g :: gs) (fun z => z = v.text) :=
    fun v g gs hg => reads_name (by decide) (.inr hg)
  refine (hname x _ _ rfl).bind fun z hz => ?_
  have hturn : Reads
      (do
        if ← accept ["and", ","] then return .item (← name ["and", "into", "to"]) else return .stop)
      ((.keyword, .text "and") :: y.face :: intoFace :: fs) (intoFace :: fs)
      (fun t => ∃ a, t = Turn.item a ∧ a = y.text) :=
    .take rfl ((hname y _ _ rfl).bind fun z hz => .pure ⟨z, rfl, hz⟩)
  have hrest : Reads (loop do
      if ← accept ["and", ","] then return .item (← name ["and", "into", "to"]) else return .stop)
      ((.keyword, .text "and") :: y.face :: intoFace :: fs) (intoFace :: fs)
      (fun zs => zs = [y.text]) := by
    refine .budget fun n hn => ?_
    -- One turn takes the second name, and the next one stops before `into`.
    obtain ⟨n, rfl⟩ : ∃ m, n = m + 1 + 1 := ⟨n - 2, by simp at hn; omega⟩
    refine (ReadsOn.turns_item hturn (.turns_stop (.leave rfl (.pure rfl)))).imp ?_
    rintro _ ⟨_, _, rfl, rfl, rfl⟩
    rfl
  refine hrest.bind fun zs hzs => .pure ?_
  rw [hz, hzs]

theorem reads_source (hout : Reads outName fs gs (fun x => x = out)) :
    Reads (statementOf nest) (s.faces ++ intoFace :: fs) gs
      (fun o => ∃ st, o = some st ∧ s.Stores out st) := by
  obtain ⟨hcall, hcopy, hassign, hexecute⟩ := opener?_sources nest
  have hinto : Reads (maybe ["into"] outName) (intoFace :: fs) gs (fun o => o = some out) := by
    refine .imp (.optionallyTake rfl hout) ?_
    rintro _ ⟨_, rfl, rfl⟩
    rfl
  cases s with
  | function fn =>
    refine reads_statementOf hcall rfl fun p => (reads_callCommand_function fn hinto).bind ?_
    rintro _ ⟨q, rfl⟩
    exact .pure ⟨_, rfl, .function⟩
  | method m owner =>
    refine reads_statementOf hcall rfl fun p => (reads_callCommand_method m owner hinto).bind ?_
    rintro _ rfl
    exact .pure ⟨_, rfl, .method⟩
  | copy x =>
    refine reads_statementOf hcopy rfl fun p => ?_
    refine (reads_name (by decide) (.inr rfl)).bind fun y hy => ?_
    refine .passTake rfl ?_
    refine hout.bind fun z hz => .pure ⟨_, rfl, ?_⟩
    rw [hy, hz]
    exact .copy
  | combine x y =>
    refine reads_statementOf hassign rfl fun p => (reads_sources x y).bind fun zs hzs => ?_
    refine .passTake rfl (hout.bind fun z hz => .pure ⟨_, rfl, ?_⟩)
    rw [hzs, hz]
    exact .combine
  | execute q =>
    have hend : Starts endsValue (intoFace :: fs) := rfl
    refine reads_statementOf hexecute rfl fun p => .passLeave rfl ?_
    refine (reads_value (.lone (.text q)) hend).bind fun v hv => hinto.bind fun o ho => ?_
    obtain ⟨⟨⟩⟩ := hv
    rw [ho]
    exact .pure ⟨_, rfl, .execute⟩

end Sources

/-! ### Bodies of such statements -/

/-- A statement that stores a result under a name. -/
structure Storing where
  source : Source
  out : Plain

def Storing.words (s : Storing) : List String := s.source.words ++ ["into", s.out.text]

def Storing.faces (s : Storing) : List Face := s.source.faces ++ [intoFace, s.out.face]

/-- A statement that stores a result, with the words that the name runs on over. -/
abbrev Result := Storing × List Trailing

namespace Result

def faces (r : Result) : List Face := r.1.faces ++ r.2.map Trailing.face

def Stores (r : Result) (st : Parlance.Stmt) : Prop :=
  r.1.source.Stores (resultName r.1.out r.2) st

end Result

def resultFaces : List Face :=
  ["call", "copy", "assign", "execute"].map fun w => (.action, .text w)

theorem leaves_of_result : ∀ g ∈ resultFaces,
    g.1 ≠ .finish ∧ g.readsAny ["catch", "finally", "end"] = false ∧ endsResult g = true
      ∧ g.readsAny ["then", "do"] = false := by
  decide

theorem Result.starts (r : Result) (fs : List Face) : StartsWith resultFaces (r.faces ++ fs) := by
  obtain ⟨⟨source, out⟩, ts⟩ := r
  cases source <;> rfl

theorem reads_result (r : Result) (hfs : Starts endsResult fs) :
    Reads (statementOf nest) (r.faces ++ fs) fs (fun o => ∃ st, o = some st ∧ r.Stores st) := by
  obtain ⟨g, fs, rfl, hg⟩ := hfs.cons
  have hfaces : r.faces ++ g :: fs = r.1.source.faces
      ++ intoFace :: r.1.out.face :: (r.2.map Trailing.face ++ g :: fs) := by
    simp only [Result.faces, Storing.faces, append_assoc, cons_append, nil_append]
  rw [hfaces]
  exact reads_source r.1.source (reads_outName r.1.out r.2 hg)

/-- A body of such statements, up to a word that ends it. The words after the last
    name have to end the name as well, if there is one. -/
theorem reads_results {stops : List String} (hstops : ∀ x ∈ stops, x ∈ ["catch", "finally", "end"])
    (rs : List Result) (hend : rs = [] ∨ Starts endsResult (g :: fs))
    (hstop : Reads (atBodyEnd stops) (g :: fs) (g :: fs) (fun b => b = true)) :
    Reads (bodyOf (statementOf nest) stops) (rs.flatMap Result.faces ++ g :: fs) (g :: fs)
      (Forall₂ Result.Stores rs) := by
  have hcount : rs.length ≤ (rs.flatMap Result.faces).length := by
    refine length_le_length_flatMap rs fun r _ hr => ?_
    have hstarts := r.starts []
    rw [hr] at hstarts
    exact hstarts
  refine .budget fun m hm => ?_
  rw [length_append] at hm
  -- What follows the body has to end a name only if there is one before it: an empty
  -- body may be followed by `catch`.
  refine ReadsOn.turns_items (G := fun fs => rs = [] ∨ Starts endsResult fs) ?_ hend rs ?_ ?_ m
    (by omega)
  · refine .atFinish (hstop.bind fun b hb => .yes ?_ (.pure rfl))
    rw [hb, Bool.or_true]
  · exact fun r _ fs => .inr ((r.starts fs).imp fun g hg =>
      (leaves_of_result g (of_decide_eq_true hg)).2.2.1)
  · intro r hr fs hfs
    have hread : Reads (statementOf nest) (r.faces ++ fs) fs _ :=
      reads_result r (hfs.resolve_left (ne_nil_of_mem hr))
    obtain ⟨g, gs, hshown, hg⟩ := (r.starts fs).cons
    rw [hshown] at hread ⊢
    obtain ⟨hfinish, hleave, -, -⟩ := leaves_of_result g (of_decide_eq_true hg)
    refine reads_turn hfinish (readsAny_of_subset hstops hleave) (reads_turnOf hread ?_ ?_)
    · rintro st ⟨_, ⟨rfl⟩, hst⟩
      exact ⟨st, rfl, hst⟩
    · rintro ⟨_, h, _⟩
      cases h

/-- The statements of a body with words after it: the last name runs on over them. -/
def runOn (ts : List Trailing) : List Storing → List Result
  | [] => []
  | [s] => [(s, ts)]
  | s :: s' :: body => (s, []) :: runOn ts (s' :: body)

def bodyFaces (body : List Storing) : List Face := body.flatMap Storing.faces

theorem faces_runOn {body : List Storing} (h : body ≠ []) :
    (runOn ts body).flatMap Result.faces = bodyFaces body ++ ts.map Trailing.face := by
  fun_induction runOn ts body with
  | case1 => exact absurd rfl h
  | case2 s => simp [bodyFaces, Result.faces]
  | case3 s s' body ih =>
    rw [flatMap_cons, ih (cons_ne_nil _ _)]
    simp [bodyFaces, Result.faces]

theorem faces_runOn_nil : (runOn [] body).flatMap Result.faces = bodyFaces body := by
  by_cases h : body = []
  · rw [h]
    rfl
  · rw [faces_runOn [] h, map_nil, append_nil]

/-! ### Statements that may fail -/

/-- The parts of a statement with `try`. -/
structure Attempt where
  body : List Result
  failure : String
  handler : List Result
  cleanup : Option (List Result)

namespace Attempt

def Placed (a : Attempt) (st : Parlance.Stmt) : Prop :=
  ∃ p body handler cleanup, st = .attempt p body a.failure handler cleanup
    ∧ Forall₂ Result.Stores a.body body ∧ Forall₂ Result.Stores a.handler handler
    ∧ Option.Rel (Forall₂ Result.Stores) a.cleanup cleanup

def written (e : Plain) (body handler cleanup : List Storing) : Attempt :=
  ⟨runOn [] body, e.text, runOn [] handler, some (runOn [] cleanup)⟩

def read (e : Plain) (body handler cleanup : List Storing) : Attempt :=
  match body, handler with
  | [], [] => ⟨[], e.text, [], some (runOn [] cleanup)⟩
  | [], _ :: _ => ⟨[], e.text, runOn [.closing] handler ++ runOn [] cleanup, none⟩
  | _ :: _, [] =>
    ⟨runOn [.catching, e.trailing, .closing] body ++ runOn [] cleanup, "error", [], none⟩
  | _ :: _, _ :: _ =>
    ⟨runOn [.catching, e.trailing] body ++ (runOn [.closing] handler ++ runOn [] cleanup), "error",
      [], none⟩

end Attempt

section Attempts
variable {stops : List String} (rs : List Result)

theorem reads_results_end (hstops : ∀ x ∈ stops, x ∈ ["catch", "finally", "end"])
    (hend : stops.contains "end" = true) (rs : List Result) (hrest : StartsWith lineFaces rest) :
    Reads ((nestAt (n + 1)).body stops) (rs.flatMap Result.faces ++ endFace :: rest)
      (endFace :: rest) (Forall₂ Result.Stores rs) := by
  have hname : Starts endsResult (endFace :: rest) := rfl
  exact reads_results hstops rs (.inr hname) (reads_atBodyEnd_end hend hrest)

theorem starts_results (rest : List Face) :
    Starts (fun g => !g.readsAny ["then", "do"]) (rs.flatMap Result.faces ++ endFace :: rest) := by
  cases rs with
  | nil => rfl
  | cons r rs =>
    rw [flatMap_cons, append_assoc]
    refine (r.starts _).imp fun g hg => ?_
    rw [(leaves_of_result g (of_decide_eq_true hg)).2.2.2]
    rfl

theorem reads_results_nil (hf : f.readsAny stops = true) (hend : f.reads "end" = false)
    (hstops : ∀ x ∈ stops, x ∈ ["catch", "finally", "end"]) :
    Reads ((nestAt (n + 1)).body stops) (f :: fs) (f :: fs) (fun ss => ss = []) := by
  refine (reads_results hstops [] (.inl rfl) (reads_atBodyEnd_word hf hend)).imp fun ss hss => ?_
  cases hss
  rfl

theorem reads_attempt_body (hrest : StartsWith lineFaces rest) :
    Reads (attempt (nestAt (n + 1)) p) (rs.flatMap Result.faces ++ endFace :: rest) rest
      (fun o => ∃ st, o = some st ∧ Attempt.Placed ⟨rs, "error", [], none⟩ st) := by
  refine (reads_results_end (by decide) rfl rs hrest).bind fun ss hss => ?_
  refine .bind (.optionallyLeave rfl) fun o ho => .bind (.optionallyLeave rfl) fun cs hcs => ?_
  rw [ho, hcs]
  refine .passTake rfl ?_
  exact .pure ⟨_, rfl, p, ss, [], none, rfl, hss, .nil, .none⟩

theorem reads_attempt_handler (hrest : StartsWith lineFaces rest) :
    Reads (attempt (nestAt (n + 1)) p)
      ((.keyword, .text "catch") :: e.face :: (rs.flatMap Result.faces ++ endFace :: rest)) rest
      (fun o => ∃ st, o = some st ∧ Attempt.Placed ⟨[], e.text, rs, none⟩ st) := by
  have hhandler : Reads (handler (nestAt (n + 1)))
      (e.face :: (rs.flatMap Result.faces ++ endFace :: rest)) (endFace :: rest)
      (fun h => h.1 = e.text ∧ Forall₂ Result.Stores rs h.2) := by
    refine (reads_errorName_some e).bind fun x hx => ?_
    -- After the name of the failure there may be a word that is left out, and here is none.
    obtain ⟨g, fs, hshown, hg⟩ := (starts_results rs rest).cons
    have hbody : Reads ((nestAt (n + 1)).body ["finally", "end"]) (g :: fs) (endFace :: rest) _ :=
      hshown ▸ reads_results_end (by decide) rfl rs hrest
    rw [hshown]
    refine .passLeave (by simpa using hg) (hbody.bind fun ss hss => .pure ⟨hx, hss⟩)
  refine (reads_results_nil rfl rfl (by decide)).bind fun ss hss => ?_
  refine .bind (.optionallyTake rfl hhandler) ?_
  rintro _ ⟨h, rfl, hx, hbody⟩
  refine .bind (.optionallyLeave rfl) fun cs hcs => .passTake rfl ?_
  rw [hss, hcs]
  refine .pure ⟨_, rfl, p, [], h.2, none, ?_, .nil, hbody, .none⟩
  rw [← hx]

theorem reads_attempt_cleanup (hrest : StartsWith lineFaces rest) :
    Reads (attempt (nestAt (n + 1)) p) ((.keyword, .text "catch") :: e.face
        :: (.keyword, .text "finally") :: (rs.flatMap Result.faces ++ endFace :: rest)) rest
      (fun o => ∃ st, o = some st ∧ Attempt.Placed ⟨[], e.text, [], some rs⟩ st) := by
  have hhandler : Reads (handler (nestAt (n + 1)))
      (e.face :: (.keyword, .text "finally") :: (rs.flatMap Result.faces ++ endFace :: rest))
      ((.keyword, .text "finally") :: (rs.flatMap Result.faces ++ endFace :: rest))
      (fun h => h = (e.text, [])) := by
    refine (reads_errorName_some e).bind fun x hx => .passLeave rfl ?_
    refine (reads_results_nil rfl rfl (by decide)).bind fun ss hss => .pure ?_
    rw [hx, hss]
  refine (reads_results_nil rfl rfl (by decide)).bind fun ss hss => ?_
  refine .bind (.optionallyTake rfl hhandler) ?_
  rintro _ ⟨_, rfl, rfl⟩
  refine .bind (.optionallyTake rfl
    (reads_results_end (by decide) rfl rs hrest)) ?_
  rintro _ ⟨cs, rfl, hcs⟩
  rw [hss]
  refine .passTake rfl ?_
  exact .pure ⟨_, rfl, p, [], [], some cs, rfl, .nil, .nil, .some hcs⟩

end Attempts

def attemptText (e : Plain) (body handler cleanup : List Storing) : String :=
  textOf (["try"] :: (body.map Storing.words ++ ["catch", e.text] :: (handler.map Storing.words
    ++ ["finally"] :: (cleanup.map Storing.words ++ [["end"]]))))

theorem reads_attempt_results (hrest : StartsWith lineFaces rest) :
    Reads (attempt (nestAt (n + 1)) p) (bodyFaces body ++ (.keyword, .text "catch") :: e.face
        :: (bodyFaces handler ++ (.keyword, .text "finally")
          :: (bodyFaces cleanup ++ endFace :: rest))) rest
      (fun o => ∃ st, o = some st ∧ (Attempt.read e body handler cleanup).Placed st) := by
  -- After an empty body or handler its word still opens a part. After any other one the
  -- word belongs to the last name, and the statements go on in the same part.
  rw [← faces_runOn_nil cleanup]
  cases body with
  | nil =>
    cases handler with
    | nil => exact reads_attempt_cleanup e _ hrest
    | cons t handler =>
      have h := reads_attempt_handler (n := n) (p := p) e
        (runOn [.closing] (t :: handler) ++ runOn [] cleanup) hrest
      rw [flatMap_append, faces_runOn _ (cons_ne_nil _ _)] at h
      simp only [append_assoc] at h
      exact h
  | cons s body =>
    cases handler with
    | nil =>
      have h := reads_attempt_body (n := n) (p := p)
        (runOn [.catching, e.trailing, .closing] (s :: body) ++ runOn [] cleanup) hrest
      rw [flatMap_append, faces_runOn _ (cons_ne_nil _ _)] at h
      simp only [append_assoc] at h
      exact h
    | cons t handler =>
      have h := reads_attempt_body (n := n) (p := p) (runOn [.catching, e.trailing] (s :: body)
        ++ (runOn [.closing] (t :: handler) ++ runOn [] cleanup)) hrest
      rw [flatMap_append, flatMap_append, faces_runOn _ (cons_ne_nil _ _),
        faces_runOn _ (cons_ne_nil _ _)] at h
      simp only [append_assoc] at h
      exact h

theorem Attempt.written_iff {e : Plain} {body handler cleanup : List Storing} {st : Parlance.Stmt}
    (h : (Attempt.read e body handler cleanup).Placed st) :
    (Attempt.written e body handler cleanup).Placed st ↔ body = [] ∧ handler = [] := by
  -- The last part is there in what was written, whatever the bodies are.
  have hlost : (Attempt.read e body handler cleanup).cleanup = none →
      ¬ (Attempt.written e body handler cleanup).Placed st := by
    rintro hnone ⟨p, b, h', c, rfl, -, -, hc⟩
    obtain ⟨_, _, _, _, heq, -, -, hc'⟩ := h
    obtain ⟨-, -, -, -, rfl⟩ := Parlance.Stmt.attempt.inj heq
    rw [hnone] at hc'
    cases hc'
    cases hc
  cases body with
  | nil =>
    cases handler with
    -- With both empty, what is read is what was written.
    | nil => exact ⟨fun _ => ⟨rfl, rfl⟩, fun _ => h⟩
    | cons t handler =>
      exact ⟨fun hw => absurd hw (hlost rfl),
        fun hnil => absurd hnil.2 (cons_ne_nil t handler)⟩
  | cons s body =>
    refine ⟨fun hw => absurd hw (hlost ?_), fun hnil => absurd hnil.1 (cons_ne_nil s body)⟩
    cases handler <;> rfl

/-! ### Texts -/

def Spells (words : List String) (fs : List Face) : Prop :=
  ∃ line : Line, line.map written = words ∧ shown line = fs

theorem faces_textOf {lines : List (List String)} {faces : List (List Face)}
    (h : Forall₂ Spells lines faces) :
    (Cursor.ofTokens (scan (textOf lines))).faces = faces.flatten ++ [(.finish, .none)] := by
  obtain ⟨spelled, rfl, rfl⟩ : ∃ spelled : List Line,
      spelled.map (map written) = lines ∧ spelled.map shown = faces := by
    induction h with
    | nil => exact ⟨[], rfl, rfl⟩
    | cons hline _ ih =>
      obtain ⟨line, rfl, rfl⟩ := hline
      obtain ⟨rest, rfl, rfl⟩ := ih
      exact ⟨line :: rest, rfl, rfl⟩
  rw [← ofList_layout, faces_ofTokens_layout, Spelling.faces, map_flatten]
  rfl

namespace Spells
variable {words words' : List String}

theorem nil : Spells [] [] := ⟨[], rfl, rfl⟩

theorem append (h : Spells words fs) (h' : Spells words' gs) :
    Spells (words ++ words') (fs ++ gs) := by
  obtain ⟨line, rfl, rfl⟩ := h
  obtain ⟨line', rfl, rfl⟩ := h'
  exact ⟨line ++ line', map_append, shown_append line line'⟩

theorem word {x : String} (hx : Scan.isWordText x.toList = true ∧ classify x = f)
    (h : Spells words fs) : Spells (x :: words) (f :: fs) := by
  obtain ⟨line, rfl, rfl⟩ := h
  refine ⟨Core.word x hx.1 :: line, ?_, ?_⟩
  · rw [map_cons, written_word]
  · rw [shown_cons, face_word, hx.2]

theorem plain (h : Spells words fs) : Spells (w.text :: words) (w.face :: fs) :=
  h.word ⟨w.spelled, w.identifier⟩

theorem quoted (q : Quotable) (h : Spells words fs) :
    Spells (("\"" ++ q.body ++ "\"") :: words) ((.text, .text q.body) :: fs) := by
  obtain ⟨line, rfl, rfl⟩ := h
  refine ⟨.text q :: line, ?_, rfl⟩
  have hwritten : written (.text q) = "\"" ++ q.body ++ "\"" := by
    rw [← String.toList_inj, written, String.toList_ofList]
    simp [Spelling.chars]
  rw [map_cons, hwritten]

end Spells

theorem Source.spells : Spells s.words s.faces := by
  have hword : ∀ w ∈ ["call", "function", "method", "on", "copy", "assign", "and", "execute"],
      Scan.isWordText w.toList = true := by decide
  obtain ⟨hcopy, hassign, hexecute, -, hon, hmethod⟩ := classify_sources
  cases s with
  | function fn =>
    exact .word ⟨hword _ (by simp), by simp [classify_words]⟩
      (.word ⟨hword _ (by simp), by simp [classify_words]⟩ (.plain fn .nil))
  | method m owner =>
    exact .word ⟨hword _ (by simp), by simp [classify_words]⟩
      (.word ⟨hword _ (by simp), hmethod⟩
        (.plain m (.word ⟨hword _ (by simp), hon⟩ (.plain owner .nil))))
  | copy x => exact .word ⟨hword _ (by simp), hcopy⟩ (.plain x .nil)
  | combine x y =>
    exact .word ⟨hword _ (by simp), hassign⟩ (.plain x
      (.word ⟨hword _ (by simp), by simp [classify_words]⟩ (.plain y .nil)))
  | execute q => exact .word ⟨hword _ (by simp), hexecute⟩ (.quoted q .nil)

theorem Storing.spells (s : Storing) : Spells s.words s.faces :=
  s.source.spells.append (.word ⟨by decide, classify_sources.2.2.2.1⟩ (.plain s.out .nil))

theorem forall₂_spells : Forall₂ Spells (body.map Storing.words) (body.map Storing.faces) := by
  induction body with
  | nil => exact .nil
  | cons s body ih => exact .cons s.spells ih

theorem faces_attemptText :
    (Cursor.ofTokens (scan (attemptText e body handler cleanup))).faces =
      (.keyword, .text "try") :: (bodyFaces body ++ (.keyword, .text "catch") :: e.face
        :: (bodyFaces handler ++ (.keyword, .text "finally")
          :: (bodyFaces cleanup ++ [endFace, (.finish, .none)]))) := by
  have hword : ∀ w ∈ ["try", "catch", "finally", "end"],
      Scan.isWordText w.toList = true ∧ classify w = (.keyword, .text w) := by
    simp only [forall_mem_cons, not_mem_nil, false_implies, implies_true, and_true,
      classify_words]
    decide
  have hlines := Forall₂.cons (.word (hword "try" (by simp)) .nil)
    (rel_append (forall₂_spells body)
      (.cons (.word (hword "catch" (by simp)) (.plain e .nil))
        (rel_append (forall₂_spells handler)
          (.cons (.word (hword "finally" (by simp)) .nil)
            (rel_append (forall₂_spells cleanup)
              (.cons (.word (hword "end" (by simp)) .nil) .nil))))))
  rw [attemptText, faces_textOf hlines]
  simp only [bodyFaces, flatMap_def, flatten_cons, flatten_append, flatten_nil,
    cons_append, append_assoc, nil_append]
  rfl

/-- A statement with `try` around bodies of statements that store results is read as
    one such statement, with no fault. Its parts are those that are written exactly if
    there is no result before `catch` or `finally`: otherwise the name of the
    last result runs on over the word, and the part after it is lost. -/
theorem attempt_of_results (e : Plain) (body handler cleanup : List Storing) :
    ∃ st, Program.ofSource (attemptText e body handler cleanup) = ⟨.ok ⟨[], [st]⟩, []⟩
      ∧ (Attempt.read e body handler cleanup).Placed st
      ∧ ((Attempt.written e body handler cleanup).Placed st ↔ body = [] ∧ handler = []) := by
  have hfaces := faces_attemptText e body handler cleanup
  have htry : (Kind.keyword, Content.text "try").1 ≠ .finish := ne_of_beq_false rfl
  have hrest : StartsWith lineFaces [(.finish, .none)] := rfl
  obtain ⟨st, hsource, hst⟩ := ofSource_of_statement hfaces ⟨htry, rfl⟩ fun n hn => by
    obtain ⟨n, rfl⟩ : ∃ m, n = m + 1 := ⟨n - 1, by omega⟩
    exact reads_statementOf (o := Opener.attempt (nestAt (n + 1))) rfl rfl
      (fun p => reads_attempt_results e body handler cleanup hrest) _ trivial hfaces
  exact ⟨st, hsource, hst, Attempt.written_iff hst⟩

end Core
end Parlance
