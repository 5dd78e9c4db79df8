import Parlance.Proofs.ProgressOpener
import Parlance.Proofs.RoundTrip

/-!
# Names of Several Words

A name that is assigned and a name in an expression are read by two readers. Both join the words
by low lines, and both drop an article before the name when a further word follows. But `my`,
`your`, `our` and `their` are articles before a name that is assigned, and words of the name in
an expression.

A word may open a statement where it begins a line, so the lines of the tokens matter as well as
their faces. `Reader.ReadsIn` is `Reader.Reads` for the tokens of one text, about which more can
be known; here, that all of them stand on one line (`Token.OneLine`).

## Main definitions

* `Token.OneLine`: The tokens end with an end mark, at this place, and all tokens before it stand
  on one line.
* `Core.Identifier`: A word that the scanner takes for an identifier.
* `Core.excluded`: Whether a text is not a word at all, or a word of the vocabulary.
* `Core.withoutArticles`: The words of a name that is assigned: articles are left out while a word
  follows.

## Theorems

* `Core.readsIn_nameWords_assigned`: The words of a name that is assigned, with a stop word after
  it.
* `Core.line_of_mem_tokensFrom`: The tokens of characters without a line end before the last one
  stand on one line.
* `Core.name_of_words`: The words of a name are assigned under the words without the articles
  before them, and read under all of the words.
-/

namespace Parlance
open List Token Vocabulary Grammar Cursor Scan

/-! ### Tokens of one line -/

/-- The tokens end with an end mark, at this place, and all tokens before it stand
    on one line. -/
structure Token.OneLine (ts : Array Token) (e : Nat) : Prop where
  size : ts.size = e + 1
  mark : ∃ t, ts[e]? = some t ∧ t.isFinish = true ∧ t.content = .none
  clear : ∀ i t, i < e → ts[i]? = some t → t.isFinish = false
  line : ∃ n, ∀ i t, i < e → ts[i]? = some t → t.position.line = n

namespace Cursor
variable {c : Cursor} {e : Nat} {f g : Face} {fs : List Face}

theorem length_faces (c : Cursor) : c.faces.length = c.tokens.size - c.index := by
  simp [faces]

theorem ends_of_oneLine (h : OneLine c.tokens e) (hc : c.faces = f :: fs) : c.Ends e where
  le := by
    have hlen := c.length_faces
    rw [hc, h.size, length_cons] at hlen
    omega
  mark := by
    obtain ⟨t, ht, hfinish, hnone⟩ := h.mark
    exact ⟨t, ht, hfinish, by simp [hnone]⟩
  clear i t _ hi ht := h.clear i t hi ht

theorem atLineStatement_of_oneLine (h : OneLine c.tokens e) (hc : c.faces = f :: g :: fs) :
    c.atLineStatement = false := by
  have hlen := c.length_faces
  rw [hc, h.size, length_cons, length_cons] at hlen
  -- A token with another one behind it is not the end mark, so it stands on the line.
  have hlt : c.index < e := by omega
  obtain ⟨n, hline⟩ := h.line
  have hpeek := hline c.index _ hlt (ends_of_oneLine h hc).getElem?_index
  have hbefore : ∀ before, c.previous? = some before → before.position.line = n := by
    intro before hprevious
    rw [previous?] at hprevious
    split at hprevious
    · cases hprevious
    · exact hline _ _ (by omega) hprevious
  unfold atLineStatement
  cases hprevious : c.previous? with
  | none => simp
  | some before => simp [hbefore before hprevious, hpeek]

theorem lineStatementFollows_of_oneLine {g' : Face} (h : OneLine c.tokens e)
    (hc : c.faces = f :: g :: g' :: fs) : c.lineStatementFollows = false := by
  have hlen := c.length_faces
  rw [hc, h.size, length_cons, length_cons, length_cons] at hlen
  obtain ⟨n, hline⟩ := h.line
  have hlt : c.index + 1 < c.tokens.size := by rw [h.size]; omega
  have hpeek := hline c.index _ (by omega) (ends_of_oneLine h hc).getElem?_index
  have hnext := hline (c.index + 1) (c.peek 1) (by omega) (by
    rw [peek, Array.getElem?_eq_getElem hlt]
    rfl)
  simp [lineStatementFollows, hpeek, hnext]

end Cursor

/-! ### Reading the tokens of a text -/

namespace Reader
variable {α : Type} {ts : Array Token} {fs gs : List Face} {P : α → Prop} {r : Reader α}

abbrev ReadsIn (ts : Array Token) (r : Reader α) (fs gs : List Face) (P : α → Prop) : Prop :=
  ReadsOn (· = ts) r fs gs P

theorem Reads.on (h : Reads r fs gs P) : ReadsIn ts r fs gs P := fun c _ hc => h c trivial hc

theorem ReadsIn.reads (h : ∀ ts, ReadsIn ts r fs gs P) : Reads r fs gs P :=
  fun c _ hc => h c.tokens c rfl hc

end Reader

/-! ### Identifiers -/

namespace Core
open Reader
variable (w : Identifier) (line : Line)

/-- A word that the scanner takes for an identifier. -/
structure Identifier extends Word where
  identifier : classify text = (.identifier, .text text)

/-- Whether a text is not a word at all, or a word of the vocabulary. -/
def excluded (x : String) : Bool :=
  !isWordText x.toList
    || Text.isLowercase x && (known? x).any fun f => f.1 != .identifier

namespace Identifier

def face (w : Identifier) : Face := (.identifier, .text w.text)

def spell (w : Identifier) : Spelling := .word w.toWord

theorem face_spell : w.spell.face = w.face := w.identifier

theorem ne_of_excluded {x : String} (h : excluded x = true) : w.text ≠ x := by
  rintro rfl
  simp only [excluded, w.spelled, Bool.not_true, Bool.false_or, Bool.and_eq_true,
    Option.any_eq_true, bne_iff_ne] at h
  obtain ⟨hlower, f, hf, hkind⟩ := h
  have hclass := (classify_of_known? hlower hf).symm.trans w.identifier
  exact hkind (congrArg Prod.fst hclass)

theorem not_contains {ws : List String} (h : ∀ x ∈ ws, excluded x = true) :
    ws.contains w.text = false := by
  rw [contains_eq_mem, decide_eq_false_iff_not]
  exact fun hw => w.ne_of_excluded (h _ hw) rfl

end Identifier

theorem excluded_words : ∀ x ∈ referenceStops ++ referenceArticles
    ++ functionWords ++ ["be", "to", "equal", "equals", "new", "[", "\x7b", "math", "call",
      "get"], excluded x = true := by
  decide

/-- The words of a name that is assigned: articles are left out while a word
    follows. -/
def withoutArticles : List String → List String
  | w :: w' :: rest =>
    if w ∈ articles then withoutArticles (w' :: rest) else w :: w' :: rest
  | ws => ws

/-! ### The words of a name -/

section Words
variable {ts : Array Token} {e : Nat} {g : Face} {fs : List Face}
  {turn : Bool → Cursor → NameTurn} {stops : List String}

theorem readsIn_nameWords {ws : List Face}
    (hword : ∀ f ∈ ws, f.1 ≠ .finish ∧ ∀ g fs (c : Cursor), c.tokens = ts → c.faces = f :: g :: fs →
      turn false c = .word)
    (hstop : ∀ c : Cursor, c.faces = g :: fs → turn false c = .stop) (n : Nat)
    (hn : ws.length < n) : ReadsIn ts (nameWords turn false n) (ws ++ g :: fs) (g :: fs)
      (fun xs => xs = ws.map (·.2.spelling)) := by
  induction ws generalizing n with
  | nil =>
    obtain ⟨n, rfl⟩ : ∃ m, n = m + 1 := ⟨n - 1, by omega⟩
    rw [nameWords]
    refine .get fun c _ hc => ?_
    -- The bound exceeds the number of words, so the last turn finds the end.
    rw [hstop c hc]
    exact .pure rfl
  | cons f rest ih =>
    obtain ⟨n, rfl⟩ : ∃ m, n = m + 1 := ⟨n - 1, by omega⟩
    have hrest := ih (fun f' hf' => hword f' (by simp [hf'])) n (by simpa using hn)
    obtain ⟨hf, hturn⟩ := hword f (by simp)
    rw [nameWords]
    refine .get fun c hts hc => ?_
    -- A face follows in any case: the next word, or the one that ends the name.
    have hc' : turn false c = .word := by
      cases rest with
      | nil => exact hturn _ _ c hts hc
      | cons f' rest => exact hturn _ _ c hts hc
    rw [hc']
    refine .bind (P := fun x => x = f.2.spelling) (.advance hf fun p => .pure rfl) fun x hx => ?_
    refine hrest.bind fun xs hxs => .pure ?_
    rw [hx, hxs]
    rfl

theorem readsIn_nameWords_first {f : Face} {ws : List Face} {n : Nat} (hf : f.1 ≠ .finish)
    (hfirst : ∀ c : Cursor, c.tokens = ts → c.faces = f :: (ws ++ g :: fs) → turn true c = .word)
    (hword : ∀ f ∈ ws, f.1 ≠ .finish ∧ ∀ g fs (c : Cursor), c.tokens = ts → c.faces = f :: g :: fs →
      turn false c = .word)
    (hstop : ∀ c : Cursor, c.faces = g :: fs → turn false c = .stop) (hn : ws.length + 1 < n) :
    ReadsIn ts (nameWords turn true n) (f :: (ws ++ g :: fs)) (g :: fs)
      (fun xs => xs = (f :: ws).map (·.2.spelling)) := by
  obtain ⟨n, rfl⟩ : ∃ m, n = m + 1 := ⟨n - 1, by omega⟩
  rw [nameWords]
  refine .get fun c hts hc => ?_
  rw [hfirst c hts hc]
  refine .bind (P := fun x => x = f.2.spelling) (.advance hf fun p => .pure rfl) fun x hx => ?_
  refine (readsIn_nameWords hword hstop n (by omega)).bind fun xs hxs => .pure ?_
  rw [hx, hxs]
  rfl

theorem readsIn_identifiers {w : Identifier} {ws : List Identifier} {n : Nat}
    (hfirst : ∀ c : Cursor, c.tokens = ts → c.faces = (w :: ws).map Identifier.face ++ g :: fs →
      turn true c = .word)
    (hword : ∀ (w : Identifier) g fs (c : Cursor), c.tokens = ts → c.faces = w.face :: g :: fs →
      turn false c = .word)
    (hstop : ∀ c : Cursor, c.faces = g :: fs → turn false c = .stop) (hn : ws.length + 1 < n) :
    ReadsIn ts (nameWords turn true n) ((w :: ws).map Identifier.face ++ g :: fs) (g :: fs)
      (fun xs => xs = (w :: ws).map (·.text)) := by
  have hspelling : (w :: ws).map (·.text) =
      (w.face :: ws.map Identifier.face).map (·.2.spelling) := by
    rw [map_cons, map_cons, map_map]
    rfl
  rw [hspelling]
  refine readsIn_nameWords_first (ne_of_beq_false rfl) hfirst (fun f hf => ?_) hstop
    (by rwa [length_map])
  obtain ⟨v, -, rfl⟩ := mem_map.mp hf
  exact ⟨ne_of_beq_false rfl, hword v⟩

theorem nameTurn_false (hts : OneLine ts e) (hstops : ∀ x ∈ stops, excluded x = true)
    (w : Identifier) (f : Face) (fs : List Face) (c : Cursor) (htokens : c.tokens = ts)
    (hc : c.faces = w.face :: f :: fs) : nameTurn stops false c = .word := by
  subst htokens
  obtain ⟨p, hp⟩ := Cursor.peek_zero hc
  have hstop : (w.face.token p).content.isOneOf stops = false := w.not_contains hstops
  have hline := c.atLineStatement_of_oneLine hts hc
  have hstatement : c.atStatement = false := by
    rw [Cursor.atStatement, hline, hp]
    rfl
  simp only [nameTurn, hp, hstop, hstatement]
  rfl

theorem nameTurn_true (hts : OneLine ts e) (hstops : ∀ x ∈ stops, excluded x = true)
    (hg : g.2.isOneOf stops = true) (w : Identifier) (ws : List Identifier) (c : Cursor)
    (htokens : c.tokens = ts) (hc : c.faces = (w :: ws).map Identifier.face ++ g :: fs) :
    nameTurn stops true c = if w.text ∈ articles ∧ ws ≠ [] then .article else .word := by
  subst htokens
  obtain ⟨p, hp⟩ := Cursor.peek_zero hc
  have hstop : (w.face.token p).content.isOneOf stops = false := w.not_contains hstops
  have harticle : (w.face.token p).content.isOneOf articles =
      decide (w.text ∈ articles) := contains_eq_mem ..
  have hfollows : c.nameFollows stops = decide (ws ≠ []) := by
    cases ws with
    | nil =>
      -- After the only word comes the stop word, so an article is the name itself.
      obtain ⟨q, hq⟩ := peek_one hc
      have : (c.peek 1).content.isOneOf stops = true := by rw [hq]; exact hg
      simp [nameFollows, this]
    | cons w' rest =>
      obtain ⟨q, hq⟩ := peek_one hc
      have hline : c.lineStatementFollows = false := by
        cases rest <;> exact c.lineStatementFollows_of_oneLine hts hc
      have hstop' : (c.peek 1).content.isOneOf stops = false := by
        rw [hq]
        exact w'.not_contains hstops
      have hopens : (c.peek 1).opensStatement = false := by rw [hq]; rfl
      have hword : (c.peek 1).isWord = true := by rw [hq]; rfl
      simp [nameFollows, hline, hstop', hopens, hword]
  have hisWord : (w.face.token p).isWord = true := rfl
  simp only [nameTurn, hp, hstop, hisWord, harticle, hfollows]
  simp

/-- The words of a name that is assigned, with a stop word after it. By induction on
    the words: an article that is left out leaves a shorter name. -/
theorem readsIn_nameWords_assigned (hts : OneLine ts e)
    (hstops : ∀ x ∈ stops, excluded x = true) (hg : g.2.isOneOf stops = true) (w : Identifier)
    (ws : List Identifier) (n : Nat) (hn : ws.length + 1 < n) :
    ReadsIn ts (nameWords (nameTurn stops) true n) ((w :: ws).map Identifier.face ++ g :: fs)
      (g :: fs) (fun xs => xs = withoutArticles ((w :: ws).map (·.text))) := by
  have hstop : ∀ c : Cursor, c.faces = g :: fs → nameTurn stops false c = .stop := by
    intro c hc
    obtain ⟨p, hp⟩ := Cursor.peek_zero hc
    have : (g.token p).content.isOneOf stops = true := hg
    simp [nameTurn, hp, this]
  induction ws generalizing w n with
  | nil =>
    refine readsIn_identifiers (fun c htokens hc => ?_) (nameTurn_false hts hstops) hstop hn
    rw [nameTurn_true hts hstops hg w [] c htokens hc, if_neg (by simp)]
  | cons w' rest ih =>
    by_cases hw : w.text ∈ articles
    · obtain ⟨n, rfl⟩ : ∃ m, n = m + 1 := ⟨n - 1, by omega⟩
      have hdrop : withoutArticles ((w :: w' :: rest).map (·.text)) =
          withoutArticles ((w' :: rest).map (·.text)) := if_pos hw
      -- The next word is a first word again, so the induction goes on with the name after it.
      rw [nameWords, hdrop]
      refine .get fun c htokens hc => ?_
      rw [nameTurn_true hts hstops hg w _ c htokens hc, if_pos (by simp [hw])]
      exact .advance (ne_of_beq_false rfl) fun p => ih w' n (by simpa using hn)
    · have hkeep : withoutArticles ((w :: w' :: rest).map (·.text)) =
          (w :: w' :: rest).map (·.text) := if_neg hw
      rw [hkeep]
      refine readsIn_identifiers (fun c htokens hc => ?_) (nameTurn_false hts hstops) hstop hn
      rw [nameTurn_true hts hstops hg w _ c htokens hc, if_neg (by simp [hw])]

theorem withoutArticles_ne_nil (w : String) (ws : List String) :
    withoutArticles (w :: ws) ≠ [] := by
  induction ws generalizing w with
  | nil => exact cons_ne_nil _ _
  | cons w' rest ih =>
    rw [withoutArticles]
    split
    · exact ih w'
    · exact cons_ne_nil _ _

theorem readsIn_name (hts : OneLine ts e) (hstops : ∀ x ∈ stops, excluded x = true)
    (hg : g.2.isOneOf stops = true) (w : Identifier) (ws : List Identifier) :
    ReadsIn ts (name stops) ((w :: ws).map Identifier.face ++ g :: fs) (g :: fs)
      (fun x => x = "_".intercalate (withoutArticles ((w :: ws).map (·.text)))) := by
  refine .budget fun n hn => ?_
  simp only [map_cons, length_append, length_cons, length_map] at hn
  refine (readsIn_nameWords_assigned hts hstops hg w ws n (by omega)).bind fun xs hxs => ?_
  have hne : xs.isEmpty = false := by
    rw [hxs, isEmpty_eq_false_iff]
    exact withoutArticles_ne_nil _ _
  exact .no hne (.pure (by rw [hxs]))

theorem referenceTurn_false (hts : OneLine ts e) (w : Identifier) (f : Face)
    (fs : List Face) (c : Cursor) (htokens : c.tokens = ts)
    (hc : c.faces = w.face :: f :: fs) : referenceTurn false c = .word := by
  subst htokens
  obtain ⟨p, hp⟩ := Cursor.peek_zero hc
  have hstop : (w.face.token p).content.isOneOf referenceStops = false :=
    w.not_contains fun x hx => excluded_words x (by simp [hx])
  have hline := c.atLineStatement_of_oneLine hts hc
  simp only [referenceTurn, hp, hstop, hline]
  rfl

theorem referenceTurn_true (c : Cursor) (hc : c.faces = w.face :: fs) :
    referenceTurn true c = .word := by
  obtain ⟨p, hp⟩ := Cursor.peek_zero hc
  have hstop : (w.face.token p).content.isOneOf referenceStops = false :=
    w.not_contains fun x hx => excluded_words x (by simp [hx])
  have harticle : (w.face.token p).content.isOneOf referenceArticles = false :=
    w.not_contains fun x hx => excluded_words x (by simp [hx])
  simp only [referenceTurn, hp, hstop, harticle]
  rfl

theorem readsIn_reference (hts : OneLine ts e) (hg : g.1.isWord = false) (w : Identifier)
    (ws : List Identifier) :
    ReadsIn ts reference ((w :: ws).map Identifier.face ++ g :: fs) (g :: fs)
      (fun x => x = "_".intercalate ((w :: ws).map (·.text))) := by
  have hstop : ∀ c : Cursor, c.faces = g :: fs → referenceTurn false c = .stop := by
    intro c hc
    obtain ⟨p, hp⟩ := Cursor.peek_zero hc
    have hword : (g.token p).isWord = false := hg
    simp [referenceTurn, hp, hword]
  refine .budget fun n hn => ?_
  simp only [map_cons, length_append, length_cons, length_map] at hn
  refine .bind (readsIn_identifiers (fun c _ hc => referenceTurn_true w c hc)
    (referenceTurn_false hts) hstop (by omega)) fun xs hxs => ?_
  have hne : xs.isEmpty = false := by rw [hxs]; rfl
  exact .no hne (.pure (by rw [hxs]))

theorem readsIn_value (hts : OneLine ts e) (hg : g.1.isWord = false ∧ endsValue g = true)
    (w : Identifier) (ws : List Identifier) :
    ReadsIn ts value ((w :: ws).map Identifier.face ++ g :: fs) (g :: fs)
      (fun v => ∃ p, v = .name p ("_".intercalate ((w :: ws).map (·.text)))) := by
  -- No identifier opens another kind of value.
  have hsigns : ∀ x ∈ ["[", "\x7b", "math", "call", "get"], w.face.reads x = false := by
    intro x hx
    refine beq_false_of_ne (w.ne_of_excluded (excluded_words x ?_))
    exact mem_append_right _ (mem_append_right ["be", "to", "equal", "equals", "new"] hx)
  have hfunction : (w.face.1.isWord && w.face.2.isOneOf functionWords) = false :=
    w.not_contains fun x hx => excluded_words x (by simp [hx])
  have hprimary : ReadsIn ts primary ((w :: ws).map Identifier.face ++ g :: fs) (g :: fs)
      (fun v => ∃ p, v = .name p ("_".intercalate ((w :: ws).map (·.text)))) := by
    refine .budget fun n hn => ?_
    obtain ⟨n, rfl⟩ : ∃ m, n = m + 1 := ⟨n - 1, by omega⟩
    rw [primaryAt, primaryOf]
    refine .current fun p => ?_
    refine .no rfl (.no (hsigns _ (by simp)) (.no (hsigns _ (by simp)) ?_))
    refine .no (hsigns _ (by simp)) ?_
    refine .seesAhead fun b => .no ?_ (.no hfunction (.no (hsigns _ (by simp)) ?_))
    · rw [show (w.face.token p).reads "call" = false from hsigns _ (by simp)]
      rfl
    · exact (readsIn_reference hts hg.1 w ws).bind fun x hx => .pure ⟨p, by rw [hx]; rfl⟩
  refine .get fun c _ _ => hprimary.bind fun v hv => ?_
  refine ((reads_operands_none hg.2).on).bind fun ls hls => ?_
  rw [hls]
  exact .pure hv

theorem readsIn_let {nest : Nest} {f : Face} {gs : List Face} {P : Parlance.Expr → Prop}
    (hts : OneLine ts e) (w : Identifier) (ws : List Identifier)
    (hf : f.readsAny ["new"] = false) (hvalue : ReadsIn ts value (f :: fs) gs P) :
    ReadsIn ts (statementOf nest) ((.action, .text "let") :: ((w :: ws).map Identifier.face
        ++ (.preposition, .text "be") :: f :: fs)) gs
      (fun o => ∃ s, o = some s ∧ ∃ p v, s = .command p (.bag (.define
        ("_".intercalate (withoutArticles ((w :: ws).map (·.text)))) v)) ∧ P v) := by
  refine .advance (ne_of_beq_false rfl) fun p => .no rfl ?_
  have hlet : opener? nest (Face.token (.action, .text "let") p).spelling = some Opener.letVariable :=
    rfl
  rw [hlet]
  have hstops : ∀ x ∈ ["be", "to", "equal", "equals"], excluded x = true :=
    fun x hx => excluded_words x (mem_append_right _ (mem_append_left _ hx))
  refine (readsIn_name hts hstops rfl w ws).bind fun x hx => ?_
  have hassign : Reads Opener.passAssign ((.preposition, .text "be") :: f :: fs) (f :: fs)
      (fun _ => True) := .seesKind (.no rfl (.leave rfl (.pass_true rfl)))
  refine (hassign.on).bind fun _ _ => .position fun q => ?_
  refine ((ReadsOn.accept_false hf).on).bind fun b hb => .no hb ?_
  exact hvalue.bind fun v hv => .pure ⟨_, rfl, _, v, by rw [hx], hv⟩

end Words

/-! ### Scanning a line -/

/-- The tokens of characters without a line end before the last one stand on one
    line. By induction on the characters: a step within the line keeps its number. -/
theorem line_of_mem_tokensFrom {cs : List Char} (hcs : '\n' ∉ cs) (p : Position) (pending : Nat)
    {t : Token} (ht : t ∈ Scan.tokensFrom p pending (cs ++ ['\n'])) (hfinish : t.isFinish = false) :
    t.position.line = p.line := by
  induction cs generalizing p pending with
  | nil =>
    -- Only the line end is left. It is blank, so no token but the end mark comes of it.
    have hblank : lexeme '\n' [] = ⟨1, none⟩ := by rw [lexeme, if_pos (by decide)]
    have hend : ∃ q, t = finish q := by
      cases pending with
      | zero =>
        rw [nil_append, Scan.tokensFrom, hblank] at ht
        exact ⟨_, mem_singleton.mp ht⟩
      | succ pending => exact ⟨_, mem_singleton.mp ht⟩
    obtain ⟨q, rfl⟩ := hend
    exact absurd hfinish (by simp [finish, isFinish])
  | cons c cs ih =>
    rw [mem_cons, not_or] at hcs
    have hstep : (p.step c).line = p.line := by rw [Position.step, if_neg (Ne.symm hcs.1)]
    cases pending with
    | zero =>
      rw [cons_append, Scan.tokensFrom, mem_append, Option.mem_toList] at ht
      -- The token is the one that begins here, or a later one.
      rcases ht with ht | ht
      · obtain ⟨face, -, rfl⟩ := Option.map_eq_some_iff.mp ht
        rfl
      · exact (ih hcs.2 _ _ ht).trans hstep
    | succ pending => exact (ih hcs.2 _ _ ht).trans hstep

theorem lineChars_eq (h : ∀ s ∈ line, '\n' ∉ s.chars) :
    ∃ cs, Spelling.lineChars line = cs ++ ['\n'] ∧ '\n' ∉ cs := by
  fun_induction Spelling.lineChars line with
  | case1 => exact ⟨[], rfl, not_mem_nil⟩
  | case2 s => exact ⟨s.chars, rfl, h s (by simp)⟩
  | case3 s t rest ih =>
    obtain ⟨cs, hcs, hmem⟩ := ih fun u hu => h u (by simp [mem_cons.mp hu])
    refine ⟨s.chars ++ ' ' :: cs, by simp [hcs], ?_⟩
    simp [h s (by simp), hmem]

theorem face_ne_finish (s : Spelling) : s.face.1 ≠ .finish := by
  cases s with
  | word w =>
    simp only [Spelling.face, classify, known?]
    repeat' split
    all_goals simp
  | _ => exact ne_of_beq_false rfl

theorem oneLine_scan (h : ∀ s ∈ line, '\n' ∉ s.chars) :
    OneLine (Cursor.ofTokens (scan (String.ofList (Spelling.layout [line])))).tokens
      line.length := by
  have hfaces : ∀ i : Nat,
      ((scan (String.ofList (Spelling.layout [line])))[i]?).map face =
        (shown line ++ [(.finish, .none)])[i]? := by
    intro i
    rw [← getElem?_map, map_face_scan, Spelling.faces, flatten_singleton]
    rfl
  have hclear : ∀ (i : Nat) (t : Token), i < line.length →
      (scan (String.ofList (Spelling.layout [line])))[i]? = some t → t.isFinish = false := by
    intro i t hi ht
    have hface := hfaces i
    rw [ht, getElem?_append_left (by rwa [length_shown]), shown, getElem?_map] at hface
    obtain ⟨s, -, hs⟩ := Option.map_eq_some_iff.mp hface.symm
    refine beq_false_of_ne ?_
    rw [← show s.face.1 = t.kind from congrArg Prod.fst hs]
    exact face_ne_finish s
  rw [Cursor.ofTokens, closed_of_faces (map_face_scan [line])]
  -- One token for each spelling and the end mark, all but the mark on the first line.
  refine ⟨?_, ?_, fun i t hi ht => ?_, Position.start.line, fun i t hi ht => ?_⟩
  · have hlen := congrArg length (map_face_scan [line])
    simpa [Spelling.faces] using hlen
  · have hface := hfaces line.length
    rw [getElem?_append_right (by rw [length_shown]), length_shown, Nat.sub_self,
      getElem?_cons_zero, Option.map_eq_some_iff] at hface
    obtain ⟨t, ht, hface⟩ := hface
    refine ⟨t, by rw [getElem?_toArray, ht], ?_, congrArg Prod.snd hface⟩
    rw [isFinish, show t.kind = .finish from congrArg Prod.fst hface]
    rfl
  · exact hclear i t hi (by rwa [getElem?_toArray] at ht)
  · rw [getElem?_toArray] at ht
    obtain ⟨cs, hcs, hmem⟩ := lineChars_eq line h
    have hscan : t ∈ Scan.tokensFrom .start 0 (cs ++ ['\n']) := by
      have hlayout : Spelling.layout [line] = cs ++ ['\n'] := by
        rw [Spelling.layout, flatMap_singleton, hcs]
      rw [← hlayout, ← String.toList_ofList (l := Spelling.layout [line])]
      exact mem_of_getElem? ht
    exact line_of_mem_tokensFrom hmem .start 0 hscan (hclear i t hi ht)

/-! ### Assignments -/

def letText (target value : List String) : String := textOf ["let" :: (target ++ "be" :: value)]

theorem Identifier.newline_not_mem : '\n' ∉ w.spell.chars := by
  intro hmem
  have hspelled := w.spelled
  rw [show w.text.toList = w.spell.chars from rfl] at hspelled
  cases hcs : w.spell.chars with
  | nil => exact absurd (hcs ▸ hmem) not_mem_nil
  | cons c cs =>
    rw [hcs, isWordText, Bool.and_eq_true, all_eq_true] at hspelled
    rw [hcs] at hmem
    rcases mem_cons.mp hmem with rfl | hmem
    · exact absurd hspelled.1 (by decide)
    · exact absurd (hspelled.2 _ hmem) (by decide)

theorem shown_identifiers (ws : List Identifier) :
    shown (ws.map Identifier.spell) = ws.map Identifier.face := by
  rw [shown, map_map]
  exact map_congr_left fun w _ => w.face_spell

theorem written_identifiers (ws : List Identifier) :
    (ws.map Identifier.spell).map written = ws.map (·.text) := by
  rw [map_map]
  refine map_congr_left fun w _ => ?_
  exact String.ofList_toList (s := w.text)

theorem ofSource_letText {f : Face} {fs : List Face} {P : Parlance.Expr → Prop}
    (ws : List Identifier) (line : Line) (hline : ∀ s ∈ line, '\n' ∉ s.chars)
    (hshown : shown line ++ [(.finish, .none)] = f :: fs) (hf : f.readsAny ["new"] = false)
    (hvalue : ∀ ts e, OneLine ts e →
      ReadsIn ts value (shown line ++ [(.finish, .none)]) [(.finish, .none)] P) :
    ∃ p v, Program.ofSource (letText ((w :: ws).map (·.text)) (line.map written)) = ⟨.ok ⟨[],
      [.command p (.bag (.define ("_".intercalate (withoutArticles ((w :: ws).map (·.text)))) v))]⟩,
        []⟩ ∧ P v := by
  have hone := oneLine_scan
      (word "let" :: ((w :: ws).map Identifier.spell ++ word "be" :: line)) (by
    intro s hs
    simp only [mem_cons, mem_append, mem_map] at hs
    rcases hs with rfl | ⟨v, -, rfl⟩ | rfl | hs
    · decide
    · exact v.newline_not_mem
    · decide
    · exact hline s hs)
  -- The text is that of the spellings in a line, so its faces are known.
  have htext : letText ((w :: ws).map (·.text)) (line.map written) = String.ofList
      (Spelling.layout [word "let" :: ((w :: ws).map Identifier.spell ++ word "be" :: line)]) := by
    rw [ofList_layout, letText, ← written_identifiers]
    simp only [map_cons, map_nil, map_append, written_word]
  have hfaces : (Cursor.ofTokens (scan (letText ((w :: ws).map (·.text))
      (line.map written)))).faces = (.action, .text "let") :: ((w :: ws).map Identifier.face
        ++ (.preposition, .text "be") :: (shown line ++ [(.finish, .none)])) := by
    rw [htext, faces_ofTokens_layout, Spelling.faces, flatten_singleton, ← shown_identifiers]
    change shown (word "let" :: ((w :: ws).map Identifier.spell ++ word "be" :: line)) ++ _ = _
    simp only [shown_cons, shown_append, face_word, classify_words, cons_append,
      append_assoc]
  rw [← htext] at hone
  have hread := hvalue _ _ hone
  rw [hshown] at hfaces hread
  have hlet : (Kind.action, Content.text "let").1 ≠ .finish := ne_of_beq_false rfl
  obtain ⟨_, hsource, p, v, rfl, hv⟩ := ofSource_of_statement hfaces ⟨hlet, rfl⟩ fun n _ =>
    readsIn_let hone w ws hf hread _ rfl hfaces
  exact ⟨p, v, hsource, hv⟩

theorem length_join_cons (w w' : String) (ws : List String) :
    ("_".intercalate (w' :: ws)).length < ("_".intercalate (w :: w' :: ws)).length := by
  have hsign : "_".length = 1 := by decide
  rw [String.intercalate_cons_cons, String.length_append, String.length_append]
  omega

theorem length_join_withoutArticles (ws : List String) :
    ("_".intercalate (withoutArticles ws)).length ≤ ("_".intercalate ws).length := by
  fun_induction withoutArticles ws with
  | case1 w w' rest _ ih => exact ih.trans (length_join_cons w w' rest).le
  | case2 | case3 => exact le_rfl

theorem join_withoutArticles_eq_iff (w : String) (ws : List String) :
    "_".intercalate (withoutArticles (w :: ws)) = "_".intercalate (w :: ws) ↔
      ws = [] ∨ w ∉ articles := by
  cases ws with
  | nil => simp [withoutArticles]
  | cons w' rest =>
    by_cases hw : w ∈ articles
    -- An article that is left out makes the name shorter, so it is another name.
    · have hshort : ("_".intercalate (withoutArticles (w :: w' :: rest))).length <
          ("_".intercalate (w :: w' :: rest)).length := by
        rw [withoutArticles, if_pos hw]
        exact (length_join_withoutArticles _).trans_lt (length_join_cons w w' rest)
      refine ⟨fun heq => ?_, fun h => ?_⟩
      · exact absurd (congrArg String.length heq) hshort.ne
      · exact absurd hw (h.resolve_left (cons_ne_nil _ _))
    · rw [withoutArticles, if_neg hw]
      exact ⟨fun _ => .inr hw, fun _ => rfl⟩

/-- The words of a name are assigned under the words without the articles before them,
    and read under all of the words. The two names are the same exactly if the name
    is one word or begins with none of the articles. -/
theorem name_of_words (y w : Identifier) (ws : List Identifier) :
    (∃ p q, Program.ofSource (letText ((w :: ws).map (·.text)) ["1"]) =
        ⟨.ok ⟨[], [.command p (.bag (.define
          ("_".intercalate (withoutArticles ((w :: ws).map (·.text)))) (.number q (.int 1))))]⟩, []⟩)
      ∧ (∃ p q, Program.ofSource (letText [y.text] ((w :: ws).map (·.text))) =
        ⟨.ok ⟨[], [.command p (.bag (.define y.text
          (.name q ("_".intercalate ((w :: ws).map (·.text))))))]⟩, []⟩)
      ∧ ("_".intercalate (withoutArticles ((w :: ws).map (·.text))) =
          "_".intercalate ((w :: ws).map (·.text)) ↔ ws = [] ∨ w.text ∉ articles) := by
  refine ⟨?_, ?_, ?_⟩
  · have hvalue : Reads value [(.number, .number (.int 1)), (.finish, .none)] [(.finish, .none)]
        (fun v => ∃ q, v = .number q (.int 1)) := by
      have hend : Starts endsValue [(.finish, .none)] := rfl
      refine (reads_value (.lone (.number ⟨1, by decide⟩)) hend).imp fun v hv => ?_
      obtain ⟨⟨⟩⟩ := hv
      exact ⟨_, rfl⟩
    obtain ⟨p, _, hsource, q, rfl⟩ := ofSource_letText w ws [.number ⟨1, by decide⟩] (by decide) rfl
      rfl fun ts e hts => hvalue.on
    exact ⟨p, q, hsource⟩
  · have hnew : w.face.readsAny ["new"] = false :=
      w.not_contains fun x hx => excluded_words x (by simp [mem_singleton.mp hx])
    have hline : ∀ s ∈ (w :: ws).map Identifier.spell, '\n' ∉ s.chars := by
      intro s hs
      obtain ⟨v, -, rfl⟩ := mem_map.mp hs
      exact v.newline_not_mem
    have hshown := shown_identifiers (w :: ws)
    obtain ⟨p, _, hsource, q, rfl⟩ := ofSource_letText y [] _ hline (by rw [hshown]; rfl) hnew
      fun ts e hts => by
        rw [hshown]
        exact readsIn_value hts ⟨rfl, rfl⟩ w ws
    rw [written_identifiers] at hsource
    exact ⟨p, q, hsource⟩
  · rw [map_cons, join_withoutArticles_eq_iff, map_eq_nil_iff]

end Core
end Parlance
