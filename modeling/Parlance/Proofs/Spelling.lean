import Parlance.Proofs.Exact
import Parlance.Proofs.Lexis

/-!
# Spelling Tokens

How each kind of token is written, and that the scanner reads it back.

A spelling carries the proof that it is one: a word is made of the characters of words, a quoted text
keeps its quotes behind backslashes, a number is one that binary64 holds. A blank ends a word, a
number and a sign alike, so any two spellings may follow each other with a blank between them, and
each is looked at alone.

## Main definitions

* `Scan.Shows`: The characters scan to tokens with these faces, wherever they begin.
* `Scan.Spelt`: The characters are a way to write a token with the face.
* `Word`: A text that is one word.
* `Quotable`: A text that may stand between quotes.
* `Whole`: A whole number that binary64 holds exactly.

## Theorems

* `Token.scan_intercalate`: Spellings joined by single blanks scan to their tokens, with an end
  mark behind them.
* `Token.scan_intercalate_signs`: Signs that would run together without the blank, a number behind
  a sign, and a text that holds a quote, a remark and a line end.
-/

namespace Parlance
open Scan Token List Numeral Vocabulary Text
variable {rest : List Char} {fs : List Face}

namespace Scan
variable {cs : List Char}

/-- The characters scan to tokens with these faces, wherever they begin. -/
def Shows (cs : List Char) (fs : List Face) : Prop :=
  ∀ p, (tokensFrom p 0 cs).map face = fs

theorem shows_nil : Shows [] [(.finish, .none)] := fun _ => rfl

theorem Shows.next {f : Option Face}
    (h : Shows rest fs) (hl : Lexes true cs f rest) : Shows (cs ++ rest) (f.toList ++ fs) := by
  intro p
  rw [hl.tokensFrom_eq, map_append]
  refine congrArg₂ (· ++ ·) ?_ (h (p.stepAll cs))
  cases f <;> rfl

theorem Shows.blank {c : Char} (h : Shows cs fs)
    (hc : isBlank c = true) : Shows (c :: cs) fs := h.next (.blank hc)

/-- The characters are a way to write a token with the face. -/
inductive Spelt : List Char → Face → Prop
  | word {cs : List Char} (hcs : isWordText cs = true) :
      Spelt cs (classify (String.ofList cs))
  | text {body : List Char} (hbody : Escaped body) (hlast : body.getLast? ≠ some '\\') :
      Spelt ('"' :: (body ++ ['"'])) (.text, .text (String.ofList body))
  | number {ds : List Char} (hds : Digits ds) (hmax : natOf ds ≤ 2 ^ 53) :
      Spelt ds (.number, .number (.int (natOf ds)))
  | negative {ds : List Char} (hds : Digits ds) (hmax : natOf ds ≤ 2 ^ 53) :
      Spelt ('-' :: ds) (.number, .number (.int (-(natOf ds : Int))))
  | operator {c : Char} (hc : isOperator c = true) : Spelt [c] (.operator, .text c.toString)
  | assign : Spelt ['='] (.assign, .text "=")
  | punctuation {c : Char} (hc : isPunctuation c = true) :
      Spelt [c] (.punctuation, .text c.toString)

def BlankAhead (rest : List Char) : Prop := NoneAhead (fun c => !isBlank c) rest

theorem BlankAhead.none {p : Char → Bool} (h : BlankAhead rest)
    (hp : ∀ c, isBlank c = true → p c = false) : NoneAhead p rest :=
  fun c hc => hp c (by simpa using h c hc)

theorem Spelt.lexes {f : Face} (h : Spelt cs f)
    (hrest : BlankAhead rest) : Lexes true cs (some f) rest := by
  have hdigit : NoneAhead isDigit rest := hrest.none fun c hc => (isBlank_excludes hc).2.1
  have hpoint : NoneAhead (fun c => isDigit c || c == '.') rest := hrest.none fun c hc => by
    simp [(isBlank_excludes hc).2.1, (isBlank_excludes hc).2.2.1]
  cases h with
  | word hcs => exact .word hcs (hrest.none fun c hc => (isBlank_excludes hc).1)
  | text hbody hlast => exact .text hbody hlast
  | number hds hmax =>
    have hvalue : numberOf cs = .int (natOf cs) :=
      @numberOf_signed_of_has cs false hds.2 (.of_le hmax)
    rw [← hvalue]
    exact .number (.inl rfl) hds hpoint
  | @negative ds hds hmax =>
    have hvalue : numberOf ('-' :: ds) = .int (-(natOf ds : Int)) :=
      @numberOf_signed_of_has ds true hds.2 (.of_le hmax)
    rw [← hvalue]
    exact @Lexes.number ['-'] ds rest (.inr rfl) hds hpoint
  | operator hc =>
    exact .operator hc (fun _ => hrest.none fun c hc => by simp [(isBlank_excludes hc).2.2.2])
      fun _ => hdigit
  | assign => exact .assign
  | punctuation hc => exact .punctuation hc

theorem spelt_toString {n : Int} (hn : n.natAbs ≤ 2 ^ 53) :
    Spelt (toString n).toList (.number, .number (.int n)) := by
  have hds : Digits (Nat.toDigits 10 n.natAbs) :=
    ⟨Nat.toDigits_ne_nil, fun _ => isDigit_of_mem_toDigits⟩
  rw [← natOf_toDigits n.natAbs] at hn
  rw [toList_toString]
  by_cases hneg : n < 0
  · rw [if_pos hneg]
    have h := Spelt.negative hds hn
    rw [natOf_toDigits, ← Int.eq_neg_natAbs_of_nonpos hneg.le] at h
    exact h
  · rw [if_neg hneg]
    have h := Spelt.number hds hn
    rw [natOf_toDigits, Int.natAbs_of_nonneg (not_lt.mp hneg)] at h
    exact h

theorem shows_intercalate (ws : List (List Char × Face)) (h : ∀ w ∈ ws, Spelt w.1 w.2) :
    Shows ([' '].intercalate (ws.map Prod.fst)) (ws.map Prod.snd ++ [(.finish, .none)]) := by
  induction ws with
  | nil => exact shows_nil
  | cons w ws ih =>
    obtain ⟨hw, hws⟩ := forall_mem_cons.mp h
    cases ws with
    | nil =>
      have hlast := shows_nil.next (hw.lexes noneAhead_nil)
      simpa [intercalate] using hlast
    | cons v ws =>
      have hnext := ((ih hws).blank (c := ' ') (by decide)).next
        (hw.lexes (noneAhead_cons.mpr (by decide)))
      simpa [intercalate] using hnext

end Scan

namespace Token

/-- Spellings joined by single blanks scan to their tokens, with an end mark behind them. -/
theorem scan_intercalate (ws : List (String × Face)) (h : ∀ w ∈ ws, Spelt w.1.toList w.2) :
    (scan (" ".intercalate (ws.map Prod.fst))).map face =
      ws.map Prod.snd ++ [(.finish, .none)] := by
  have hchars : ∀ w ∈ ws.map fun w => (w.1.toList, w.2), Spelt w.1 w.2 :=
    forall_mem_map.mpr h
  have hshows := shows_intercalate _ hchars .start
  rw [map_map, map_map] at hshows
  rw [scan, String.toList_intercalate, map_map]
  exact hshows

/-- Signs that would run together without the blank, a number behind a sign, and a text that
    holds a quote, a remark and a line end. -/
theorem scan_intercalate_signs :
    (scan (" ".intercalate ["/", "/", "-", "-007", "WHEN", "\"\\\"//\n#\"", "=", "x1"])).map face =
      [(.operator, .text "/"), (.operator, .text "/"), (.operator, .text "-"),
        (.number, .number (.int (-7))), (.keyword, .text "when"), (.text, .text "\\\"//\n#"),
        (.assign, .text "="), (.identifier, .text "x1"), (.finish, .none)] := by
  have hwhen : classify (String.ofList "WHEN".toList) = (.keyword, .text "when") := by
    decide
  have hname : classify (String.ofList "x1".toList) = (.identifier, .text "x1") := by
    decide
  refine scan_intercalate [("/", _), ("/", _), ("-", _), ("-007", _), ("WHEN", _),
    ("\"\\\"//\n#\"", _), ("=", _), ("x1", _)] ?_
  simp only [forall_mem_cons, not_mem_nil, false_imp_iff, implies_true, and_true]
  have hseven : natOf ['0', '0', '7'] ≤ 2 ^ 53 := by simp [natOf]
  have hdigits : Digits ['0', '0', '7'] := ⟨by decide, by simp [isDigit]⟩
  have htext : holdsText false ['\\', '"', '/', '/', '\n', '#'] = true := by decide
  obtain ⟨hbody, hlast⟩ := holdsText_iff.mp htext
  exact ⟨.operator (by decide), .operator (by decide), .operator (by decide),
    .negative hdigits hseven, hwhen ▸ .word (by decide), .text hbody hlast, .assign,
    hname ▸ .word (by decide)⟩

end Token

/-- A text that is one word. -/
structure Word where
  text : String
  spelled : isWordText text.toList = true

/-- A text that may stand between quotes. -/
structure Quotable where
  body : String
  held : holdsText false body.toList = true

/-- A whole number that binary64 holds exactly. -/
structure Whole where
  value : Int
  exact : value.natAbs ≤ 2 ^ 53

/-- How a token is written. -/
inductive Spelling where
  | word (w : Word)
  | text (q : Quotable)
  | number (n : Whole)
  | operator (c : Char) (h : isOperator c = true)
  | assign
  | punctuation (c : Char) (h : isPunctuation c = true)

namespace Spelling
variable (s : Spelling)

def chars : Spelling → List Char
  | .word w => w.text.toList
  | .text q => '"' :: (q.body.toList ++ ['"'])
  | .number n => (toString n.value).toList
  | .operator c _ => [c]
  | .assign => ['=']
  | .punctuation c _ => [c]

def face : Spelling → Face
  | .word w => classify w.text
  | .text q => (.text, .text q.body)
  | .number n => (.number, .number (.int n.value))
  | .operator c _ => (.operator, .text c.toString)
  | .assign => (.assign, .text "=")
  | .punctuation c _ => (.punctuation, .text c.toString)

theorem spelt : Spelt s.chars s.face := by
  cases s with
  | word w =>
    have h := Spelt.word w.spelled
    rw [String.ofList_toList] at h
    exact h
  | text q =>
    obtain ⟨hbody, hlast⟩ := holdsText_iff.mp q.held
    have h := Spelt.text hbody hlast
    rw [String.ofList_toList] at h
    exact h
  | number n => exact spelt_toString n.exact
  | operator c hc => exact .operator hc
  | assign => exact .assign
  | punctuation c hc => exact .punctuation hc

theorem shows_chars {b : Char} (hb : isBlank b = true) (h : Shows (b :: rest) fs) :
    Shows (s.chars ++ b :: rest) (s.face :: fs) :=
  h.next (s.spelt.lexes (noneAhead_cons.mpr (by simp [hb])))

/-- The characters of a line: its spellings with one blank between them. -/
def lineChars : List Spelling → List Char
  | [] => ['\n']
  | [s] => s.chars ++ ['\n']
  | s :: t :: rest => s.chars ++ ' ' :: lineChars (t :: rest)

def layout (lines : List (List Spelling)) : List Char := lines.flatMap lineChars

def faces (lines : List (List Spelling)) : List Face := lines.flatten.map face

theorem shows_lineChars (line : List Spelling)
    (h : Shows rest fs) : Shows (lineChars line ++ rest) (line.map face ++ fs) := by
  induction line with
  | nil => exact h.blank (by decide)
  | cons s line ih =>
    cases line with
    | nil =>
      simp only [lineChars, append_assoc, singleton_append]
      exact shows_chars s (by decide) (h.blank (by decide))
    | cons t line =>
      simp only [lineChars, append_assoc, cons_append]
      exact shows_chars s (by decide) (ih.blank (by decide))

theorem shows_layout (lines : List (List Spelling)) :
    Shows (layout lines) (faces lines ++ [(.finish, .none)]) := by
  induction lines with
  | nil => exact shows_nil
  | cons line lines ih =>
    have hfaces : faces (line :: lines) ++ [(.finish, .none)] =
        line.map face ++ (faces lines ++ [(.finish, .none)]) := by
      simp [faces]
    rw [hfaces]
    exact shows_lineChars line ih

end Spelling

namespace Text

def isLowercase (s : String) : Bool := s.toList.all fun c => c.toNat < 128 && !c.isUpper

theorem lowerChar_eq_self {c : Char} (hc : c.toNat < 128) (hu : c.isUpper = false) :
    lowerChar c = c := by
  rw [lowerChar, if_pos hc]
  obtain ⟨n, hn, rfl⟩ := exists_ascii hc
  clear hc
  revert n
  decide

theorem lowerFrom_eq_self (before cs : List Char)
    (h : ∀ c ∈ cs, c.toNat < 128 ∧ c.isUpper = false) : lowerFrom before cs = cs := by
  induction cs generalizing before with
  | nil => rfl
  | cons c cs ih =>
    obtain ⟨hc, hu⟩ := h c (by simp)
    rw [lowerFrom, if_neg (by omega), if_neg (by omega), lowerChar_eq_self hc hu,
      ih _ fun d hd => h d (by simp [hd])]
    rfl

theorem lower_eq_self {s : String} (h : isLowercase s = true) : lower s = s := by
  simp only [isLowercase, all_eq_true, Bool.and_eq_true, decide_eq_true_eq,
    Bool.not_eq_true'] at h
  rw [lower, lowerFrom_eq_self [] s.toList h, String.ofList_toList]

end Text

namespace Vocabulary

theorem classify_of_known? {w : String} {f : Face} (hl : isLowercase w = true)
    (hk : known? w = some f) : classify w = f := by
  rw [classify, lower_eq_self hl, hk]
  rfl

end Vocabulary
end Parlance
