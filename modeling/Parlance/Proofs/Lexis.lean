import Mathlib.Algebra.Group.Basic
import Mathlib.Algebra.Group.Nat.Defs
import Mathlib.Data.Char
import Mathlib.Data.List.Basic
import Mathlib.Data.List.TakeWhile
import Parlance.Token.Scan

/-!
# The Lexical Grammar

A lexeme is not a matter of its own characters alone. A word ends where no character of words
follows, a slash is a sign where no second slash follows, and a quoted text without its closing
quote has nothing behind it. So `Lexes` relates the characters of a lexeme, what it is, and the
rest of the source. It has one rule for each kind of lexeme, and the rules exclude each other.

## Main definitions

* `Scan.isStray`: The characters that begin no lexeme and are no blank.
* `Scan.NoneAhead`: The text does not begin with a character of the class.
* `Scan.Escaped`: Every quote in the text comes right after a backslash.
* `Scan.holdsText`: Whether a text may stand between quotes: a quote inside it comes right after a
  backslash, and its last character is none.
* `Scan.Closing`: What follows a quoted text: its closing quote, which no backslash precedes, or
  nothing.

## Theorems

* `Scan.Lexes.found`: The scanner finds the lexeme that the grammar describes.
* `Scan.Lexes.tokensFrom_eq`: One lexeme gives its token, and the scanner goes on behind it.
* `Scan.Cut.tokensFrom_eq`: The tokens of a text that is cut into pieces are those of the pieces,
  each where it stands, and the end mark.
-/

namespace Parlance
open Vocabulary Token Nat

abbrev Token.Face := Kind × Content

def Token.face (t : Token) : Face := (t.kind, t.content)

namespace Scan
variable {c : Char} {body tail rest : List Char} {dotted : Bool} {ds : List Char}

/-! ### Characters -/

theorem exists_ascii (hc : c.toNat < 128) : ∃ n < 128, Char.ofNat n = c :=
  ⟨c.toNat, hc, Char.ofNat_toNat c⟩

theorem isLetter_ascii (h : isLetter c = true) : c.toNat < 128 := by
  simp only [isLetter, Bool.or_eq_true, Bool.and_eq_true, decide_eq_true_eq, beq_iff_eq] at h
  rcases h with (⟨_, h⟩ | ⟨_, h⟩) | rfl
  · exact lt_of_le_of_lt h (by decide)
  · exact lt_of_le_of_lt h (by decide)
  · decide

theorem isDigit_ascii (h : isDigit c = true) : c.toNat < 128 := by
  simp only [isDigit, Bool.and_eq_true, decide_eq_true_eq] at h
  exact lt_of_le_of_lt h.2 (by decide)

theorem isLetter_excludes (h : isLetter c = true) :
    Text.isBlank c = false ∧ c ≠ '#' ∧ c ≠ '/' ∧ c ≠ '"' ∧ c ≠ '-' ∧ isDigit c = false
      ∧ isOperator c = false ∧ c ≠ '=' := by
  obtain ⟨n, hn, rfl⟩ := exists_ascii (isLetter_ascii h)
  revert n
  decide

theorem isDigit_excludes (h : isDigit c = true) :
    Text.isBlank c = false ∧ c ≠ '#' ∧ c ≠ '/' ∧ c ≠ '"' ∧ c ≠ '-' := by
  obtain ⟨n, hn, rfl⟩ := exists_ascii (isDigit_ascii h)
  revert n
  decide

def isWordText : List Char → Bool
  | [] => false
  | c :: rest => isLetter c && rest.all isWordPart

theorem isWordPart_ascii (h : isWordPart c = true) : c.toNat < 128 := by
  rw [isWordPart, Bool.or_eq_true] at h
  exact h.elim isLetter_ascii isDigit_ascii

theorem isBlank_excludes (h : Text.isBlank c = true) :
    isWordPart c = false ∧ isDigit c = false ∧ c ≠ '.' ∧ c ≠ '/' := by
  by_cases hc : c.toNat < 128
  · obtain ⟨n, hn, rfl⟩ := exists_ascii hc
    revert n
    decide
  · refine ⟨?_, ?_, ?_, ?_⟩
    · exact Bool.eq_false_iff.mpr fun hw => hc (isWordPart_ascii hw)
    · exact Bool.eq_false_iff.mpr fun hd => hc (isDigit_ascii hd)
    · rintro rfl
      exact hc (by decide)
    · rintro rfl
      exact hc (by decide)

theorem isOperator_excludes (h : isOperator c = true) :
    Text.isBlank c = false ∧ c ≠ '#' ∧ c ≠ '"' ∧ isDigit c = false := by
  simp only [isOperator, List.contains_eq_mem, List.mem_cons, List.not_mem_nil, or_false,
    decide_eq_true_eq] at h
  rcases h with rfl | rfl | rfl | rfl | rfl <;> decide

theorem isPunctuation_excludes (h : isPunctuation c = true) :
    Text.isBlank c = false ∧ c ≠ '#' ∧ c ≠ '/' ∧ c ≠ '"' ∧ c ≠ '-' ∧ isDigit c = false
      ∧ isOperator c = false ∧ c ≠ '=' ∧ isLetter c = false := by
  simp only [isPunctuation, List.contains_eq_mem, List.mem_cons, List.not_mem_nil, or_false,
    decide_eq_true_eq] at h
  rcases h with rfl | rfl | rfl | rfl | rfl | rfl | rfl | rfl | rfl <;> decide

/-- The characters that begin no lexeme and are no blank. -/
def isStray (c : Char) : Bool :=
  !(Text.isBlank c || c == '#' || c == '"' || isDigit c || isOperator c || c == '=' || isLetter c
    || isPunctuation c)

theorem isStray_iff : isStray c = true ↔
    Text.isBlank c = false ∧ c ≠ '#' ∧ c ≠ '"' ∧ isDigit c = false ∧ isOperator c = false
      ∧ c ≠ '=' ∧ isLetter c = false ∧ isPunctuation c = false := by
  simp [isStray, and_assoc]

theorem ne_of_isOperator_eq_false (h : isOperator c = false) : c ≠ '/' ∧ c ≠ '-' := by
  constructor
  · rintro rfl
    exact absurd h (by decide)
  · rintro rfl
    exact absurd h (by decide)

/-! ### What comes next -/

section NoneAhead
variable {p q : Char → Bool} {b c : Char} {cs rest more : List Char}

/-- The text does not begin with a character of the class. -/
def NoneAhead (p : Char → Bool) (rest : List Char) : Prop := ∀ c ∈ rest.head?, p c = false

theorem noneAhead_nil : NoneAhead p [] := nofun

theorem noneAhead_cons : NoneAhead p (c :: rest) ↔ p c = false := by simp [NoneAhead]

theorem NoneAhead.append (h : NoneAhead p rest) (hb : p b = false) :
    NoneAhead p (rest ++ b :: more) := by
  cases rest with
  | nil => exact noneAhead_cons.mpr hb
  | cons c rest => exact noneAhead_cons.mpr (noneAhead_cons.mp h)

theorem noneAhead_dropWhile : NoneAhead p (cs.dropWhile p) := by
  intro c hc
  have h := List.head?_dropWhile_not p cs
  rw [Option.mem_def.mp hc] at h
  exact h

theorem takeWhile_append (hcs : ∀ c ∈ cs, p c = true) (hrest : NoneAhead p rest) :
    (cs ++ rest).takeWhile p = cs := by
  rw [List.takeWhile_append_of_pos hcs]
  cases rest with
  | nil => exact List.append_nil cs
  | cons c rest =>
    rw [List.takeWhile_cons_of_neg, List.append_nil]
    simp [noneAhead_cons.mp hrest]

end NoneAhead

/-! ### Quoted texts -/

/-- Every quote in the text comes right after a backslash. What comes before the text
    is its opening quote. -/
def Escaped (body : List Char) : Prop :=
  List.IsChain (fun a b => b = '"' → a = '\\') ('"' :: body)

/-- Whether a text may stand between quotes: a quote inside it comes right after
    a backslash, and its last character is none. The flag says whether the
    character before is a backslash. -/
def holdsText : Bool → List Char → Bool
  | escaped, [] => !escaped
  | escaped, c :: cs => (c != '"' || escaped) && holdsText (c == '\\') cs

theorem holdsText_iff_chain (before : Char) (cs : List Char) :
    holdsText (before == '\\') cs = true ↔
      List.IsChain (fun a b => b = '"' → a = '\\') (before :: cs) ∧
        (before :: cs).getLast? ≠ some '\\' := by
  induction cs generalizing before with
  | nil => simp [holdsText]
  | cons c cs ih =>
    rw [holdsText, Bool.and_eq_true, ih c, List.isChain_cons_cons, List.getLast?_cons_cons,
      and_assoc]
    refine and_congr ?_ Iff.rfl
    simp [Classical.or_iff_not_imp_left]

theorem holdsText_iff : holdsText false body = true ↔ Escaped body ∧ body.getLast? ≠ some '\\' := by
  have h := holdsText_iff_chain '"' body
  have hlast : ('"' :: body).getLast? ≠ some '\\' ↔ body.getLast? ≠ some '\\' := by
    cases body with
    | nil => simp
    | cons c cs => rw [List.getLast?_cons_cons]
  rw [hlast] at h
  exact h

/-- What follows a quoted text: its closing quote, which no backslash precedes, or
    nothing. -/
def Closing (body tail : List Char) : Prop :=
  tail = [] ∨ ∃ rest, tail = '"' :: rest ∧ body.getLast? ≠ some '\\'

theorem escaped_nil : Escaped [] := List.IsChain.singleton _

theorem escaped_pair : Escaped ('\\' :: '"' :: body) ↔ Escaped body := by
  simp [Escaped, List.isChain_cons_cons]

theorem escaped_cons (h : ∀ rest, c = '\\' → body = '"' :: rest → False) :
    Escaped (c :: body) ↔ c ≠ '"' ∧ Escaped body := by
  cases body with
  | nil => simp [Escaped, List.isChain_cons_cons]
  | cons d rest =>
    have hd : (d = '"' → c = '\\') ↔ d ≠ '"' :=
      ⟨fun hc hq => h rest (hc hq) (hq ▸ rfl), fun hne hq => absurd hq hne⟩
    have hq : (d = '"' → ('"' : Char) = '\\') ↔ d ≠ '"' := by simp
    simp only [Escaped, List.isChain_cons_cons, hd, hq]
    simp

theorem closing_cons (h : ∀ rest, c = '\\' → body ++ tail = '"' :: rest → False) :
    Closing (c :: body) tail ↔ Closing body tail := by
  refine or_congr_right (exists_congr fun rest => and_congr_right ?_)
  rintro rfl
  cases body with
  | nil => simpa using fun hc => h rest hc rfl
  | cons d body => rw [List.getLast?_cons_cons]

theorem closing_pair : Closing ('\\' :: '"' :: body) tail ↔ Closing body tail := by
  refine or_congr_right (exists_congr fun rest => and_congr_right fun _ => ?_)
  cases body with
  | nil => simp
  | cons d body => rw [List.getLast?_cons_cons, List.getLast?_cons_cons]

theorem quoted_append (hbody : Escaped body) (htail : Closing body tail) :
    quoted (body ++ tail) = body := by
  induction body using quoted.induct with
  | case1 =>
    obtain rfl | ⟨rest, rfl, _⟩ := htail
    · rfl
    · rw [List.nil_append, quoted, if_pos rfl]
      simp
  | case2 body ih =>
    rw [List.cons_append, List.cons_append, quoted,
      ih (escaped_pair.mp hbody) (closing_pair.mp htail)]
  | case3 body h => exact absurd rfl ((escaped_cons h).mp hbody).1
  | case4 c body h hc ih =>
    -- A backslash at the end of the text is no pair with the closing quote.
    have hpair : ∀ rest, c = '\\' → body ++ tail = '"' :: rest → False := by
      intro rest hback heq
      cases body with
      | nil =>
        obtain rfl | ⟨_, _, hlast⟩ := htail
        · cases heq
        · exact hlast (congrArg some hback)
      | cons d body => exact h body hback (congrArg (· :: body) (List.cons.inj heq).1)
    rw [List.cons_append, quoted, if_neg hc,
      ih ((escaped_cons h).mp hbody).2 ((closing_cons hpair).mp htail)]
    exact hpair

theorem exists_quoted (cs : List Char) :
    ∃ body tail, cs = body ++ tail ∧ Escaped body ∧ Closing body tail := by
  induction cs using quoted.induct with
  | case1 => exact ⟨[], [], rfl, escaped_nil, .inl rfl⟩
  | case2 rest ih =>
    obtain ⟨body, tail, rfl, hbody, htail⟩ := ih
    exact ⟨'\\' :: '"' :: body, tail, rfl, escaped_pair.mpr hbody, closing_pair.mpr htail⟩
  | case3 rest h => exact ⟨[], '"' :: rest, rfl, escaped_nil, .inr ⟨rest, rfl, nofun⟩⟩
  | case4 c rest h hc ih =>
    obtain ⟨body, tail, rfl, hbody, htail⟩ := ih
    have hpair : ∀ rest, c = '\\' → body = '"' :: rest → False := by
      rintro rest hback rfl
      exact h (rest ++ tail) hback rfl
    exact ⟨c :: body, tail, rfl, (escaped_cons hpair).mpr ⟨hc, hbody⟩,
      (closing_cons h).mpr htail⟩

/-! ### Numbers -/

/-- The characters are digits, and there is at least one. -/
def Digits (ds : List Char) : Prop := ds ≠ [] ∧ ∀ d ∈ ds, isDigit d = true

theorem digitRun_digits (hds : ∀ d ∈ ds, isDigit d = true) :
    digitRun dotted (ds ++ rest) = ds ++ digitRun dotted rest := by
  induction ds with
  | nil => rfl
  | cons d ds ih =>
    obtain ⟨hd, hds⟩ := List.forall_mem_cons.mp hds
    rw [List.cons_append, digitRun, if_pos hd, ih hds, List.cons_append]

theorem digitRun_eq_nil (h : NoneAhead (fun c => isDigit c || (c == '.' && !dotted)) rest) :
    digitRun dotted rest = [] := by
  cases rest with
  | nil => rfl
  | cons c rest =>
    have hc := noneAhead_cons.mp h
    rw [Bool.or_eq_false_iff] at hc
    rw [digitRun, if_neg (by simp [hc.1]), if_neg]
    simpa using hc.2

theorem digitRun_point {fs : List Char} (hfs : ∀ d ∈ fs, isDigit d = true)
    (hrest : NoneAhead isDigit rest) : digitRun false ('.' :: fs ++ rest) = '.' :: fs := by
  have hend : digitRun true rest = [] := digitRun_eq_nil (by simpa using hrest)
  rw [List.cons_append, digitRun, if_neg (by decide), if_pos (by decide), digitRun_digits hfs, hend,
    List.append_nil]

/-! ### The scanner at a lexeme -/

section Lexeme
variable {c : Char} {cs rest tail : List Char}

theorem opensRemark_eq_false (hhash : c ≠ '#') (hslash : c ≠ '/') :
    opensRemark (c :: rest) = false := by
  unfold opensRemark
  split <;> simp_all

theorem opensRemark_slash : opensRemark ('/' :: rest) = false ↔ NoneAhead (· == '/') rest := by
  cases rest with
  | nil => simp [opensRemark, NoneAhead]
  | cons d rest =>
    rw [noneAhead_cons]
    by_cases hd : d = '/'
    · subst hd
      simp [opensRemark]
    · simp [opensRemark, hd]

theorem opensRemark_append (h : opensRemark cs = true) : opensRemark (cs ++ rest) = true := by
  unfold opensRemark at h
  split at h
  · rfl
  · rfl
  · cases h

theorem opensNumber_eq_false (hminus : c ≠ '-') (hdigit : isDigit c = false) :
    opensNumber (c :: rest) = false := by
  unfold opensNumber
  split <;> simp_all

theorem opensNumber_minus : opensNumber ('-' :: rest) = false ↔ NoneAhead isDigit rest := by
  cases rest with
  | nil => simp [opensNumber, NoneAhead, isDigit]
  | cons d rest => rw [noneAhead_cons, opensNumber]

theorem lexeme_blank (hc : Text.isBlank c = true) : lexeme c rest = ⟨1, none⟩ := by
  rw [lexeme, if_pos hc]

theorem lexeme_remark (hopens : opensRemark (c :: cs) = true) (hcs : ∀ d ∈ c :: cs, d ≠ '\n')
    (hrest : NoneAhead (· != '\n') rest) : lexeme c (cs ++ rest) = ⟨cs.length + 1, none⟩ := by
  have hblank : Text.isBlank c = false := by
    unfold opensRemark at hopens
    split at hopens
    · rename_i heq
      rw [(List.cons.inj heq).1]
      decide
    · rename_i heq
      rw [(List.cons.inj heq).1]
      decide
    · cases hopens
  have hrun : (cs ++ rest).takeWhile (· != '\n') = cs :=
    takeWhile_append (fun d hd => bne_iff_ne.mpr (hcs d (List.mem_cons_of_mem c hd))) hrest
  have hopens' : opensRemark (c :: (cs ++ rest)) = true := opensRemark_append hopens
  unfold lexeme
  simp only [hblank, hopens', hrun, Bool.false_eq_true, if_false, if_true]
  rw [add_comm]

theorem lexeme_quoted {body : List Char} (hbody : Escaped body) (htail : Closing body tail) :
    lexeme '"' (body ++ tail)
      = ⟨body.length + 2, some (.text, .text (String.ofList body))⟩ := by
  have hblank : Text.isBlank '"' = false := by decide
  have hremark : opensRemark ('"' :: (body ++ tail)) = false :=
    opensRemark_eq_false (by decide) (by decide)
  unfold lexeme
  simp only [hblank, hremark, quoted_append hbody htail, Bool.false_eq_true, if_false, if_true]

theorem lexeme_run (hblank : Text.isBlank c = false) (hhash : c ≠ '#') (hslash : c ≠ '/')
    (hquote : c ≠ '"') (hopens : opensNumber (c :: (cs ++ rest)) = true)
    (hrun : digitRun false (cs ++ rest) = cs) :
    lexeme c (cs ++ rest) = ⟨cs.length + 1, some (.number, .number (numberOf (c :: cs)))⟩ := by
  unfold lexeme
  simp only [hblank, opensRemark_eq_false hhash hslash, hquote, hopens, hrun, Bool.false_eq_true,
    if_false, if_true]
  rw [add_comm]

theorem lexeme_number (hds : Digits ds) (htail : digitRun false (tail ++ rest) = tail) :
    ∃ c cs, ds ++ tail = c :: cs ∧ lexeme c (cs ++ rest) =
      ⟨cs.length + 1, some (.number, .number (numberOf (c :: cs)))⟩ := by
  obtain ⟨hne, hds⟩ := hds
  cases ds with
  | nil => exact absurd rfl hne
  | cons d ds =>
    obtain ⟨hd, hds⟩ := List.forall_mem_cons.mp hds
    obtain ⟨hblank, hhash, hslash, hquote, hminus⟩ := isDigit_excludes hd
    refine ⟨d, ds ++ tail, rfl, lexeme_run hblank hhash hslash hquote ?_ ?_⟩
    · unfold opensNumber
      split <;> simp_all
    · rw [List.append_assoc, digitRun_digits hds, htail]

theorem lexeme_negative (hds : Digits ds) (htail : digitRun false (tail ++ rest) = tail) :
    lexeme '-' (ds ++ tail ++ rest) =
      ⟨(ds ++ tail).length + 1, some (.number, .number (numberOf ('-' :: (ds ++ tail))))⟩ := by
  obtain ⟨hne, hds⟩ := hds
  refine lexeme_run (by decide) (by decide) (by decide) (by decide) ?_ ?_
  · cases ds with
    | nil => exact absurd rfl hne
    | cons d ds => exact hds d (by simp)
  · rw [List.append_assoc, digitRun_digits hds, htail]

theorem lexeme_operator (hc : isOperator c = true)
    (hslash : c = '/' → NoneAhead (· == '/') rest) (hminus : c = '-' → NoneAhead isDigit rest) :
    lexeme c rest = ⟨1, some (.operator, .text c.toString)⟩ := by
  obtain ⟨hblank, hhash, hquote, hdigit⟩ := isOperator_excludes hc
  have hremark : opensRemark (c :: rest) = false := by
    by_cases h : c = '/'
    · subst h
      exact opensRemark_slash.mpr (hslash rfl)
    · exact opensRemark_eq_false hhash h
  have hnumber : opensNumber (c :: rest) = false := by
    by_cases h : c = '-'
    · subst h
      exact opensNumber_minus.mpr (hminus rfl)
    · exact opensNumber_eq_false h hdigit
  unfold lexeme
  simp only [hblank, hremark, hquote, hnumber, hc, Bool.false_eq_true, if_false, if_true]

theorem lexeme_assign : lexeme '=' rest = ⟨1, some (.assign, .text "=")⟩ := by
  have hblank : Text.isBlank '=' = false := by decide
  have hremark : opensRemark ('=' :: rest) = false :=
    opensRemark_eq_false (by decide) (by decide)
  have hnumber : opensNumber ('=' :: rest) = false :=
    opensNumber_eq_false (by decide) (by decide)
  have hop : isOperator '=' = false := by decide
  unfold lexeme
  simp only [hblank, hremark, hnumber, hop, Bool.false_eq_true, if_false, if_true]
  rfl

theorem lexeme_word (hw : isWordText (c :: cs) = true) (hrest : NoneAhead isWordPart rest) :
    lexeme c (cs ++ rest) = ⟨cs.length + 1, some (classify (String.ofList (c :: cs)))⟩ := by
  rw [isWordText, Bool.and_eq_true, List.all_eq_true] at hw
  obtain ⟨hc, hcs⟩ := hw
  obtain ⟨hblank, hhash, hslash, hquote, hminus, hdigit, hop, hassign⟩ := isLetter_excludes hc
  have hremark : opensRemark (c :: (cs ++ rest)) = false := opensRemark_eq_false hhash hslash
  have hnumber : opensNumber (c :: (cs ++ rest)) = false := opensNumber_eq_false hminus hdigit
  have hrun : (cs ++ rest).takeWhile isWordPart = cs := takeWhile_append hcs hrest
  unfold lexeme
  simp only [hblank, hremark, hquote, hnumber, hop, hassign, hc, hrun, Bool.false_eq_true,
    if_false, if_true]
  rw [add_comm]

theorem lexeme_punctuation (hc : isPunctuation c = true) :
    lexeme c rest = ⟨1, some (.punctuation, .text c.toString)⟩ := by
  obtain ⟨hblank, hhash, hslash, hquote, hminus, hdigit, hop, hassign, hletter⟩ :=
    isPunctuation_excludes hc
  unfold lexeme
  simp only [hblank, opensRemark_eq_false hhash hslash, hquote,
    opensNumber_eq_false hminus hdigit, hop, hassign, hletter, hc, Bool.false_eq_true, if_false,
    if_true]

theorem lexeme_stray (hc : isStray c = true) : lexeme c rest = ⟨1, none⟩ := by
  obtain ⟨hblank, hhash, hquote, hdigit, hop, hassign, hletter, hpunct⟩ := isStray_iff.mp hc
  obtain ⟨hslash, hminus⟩ := ne_of_isOperator_eq_false hop
  unfold lexeme
  simp only [hblank, opensRemark_eq_false hhash hslash, hquote,
    opensNumber_eq_false hminus hdigit, hop, hassign, hletter, hpunct, Bool.false_eq_true, if_false]

end Lexeme

theorem classify_face (w : String) :
    (classify w).1 ≠ .finish ∧ ∀ n, (classify w).2 ≠ .number n := by
  unfold classify known?
  repeat' split
  all_goals exact ⟨by rintro ⟨⟩, by rintro _ ⟨⟩⟩

/-! ### Lexemes -/

/-- What may stand right before the digits of a number. -/
def IsSign (sign : List Char) : Prop := sign = [] ∨ sign = ['-']

/-- In front of the rest of a source, the characters are one lexeme, and this is the token
    if it is one. The flag is false for a quoted text without its closing quote. -/
inductive Lexes : Bool → List Char → Option Face → List Char → Prop
  | blank {c : Char} {rest : List Char} (hc : Text.isBlank c = true) : Lexes true [c] none rest
  /-- A remark ends with its line. -/
  | remark {cs rest : List Char} (hopens : opensRemark cs = true) (hcs : ∀ c ∈ cs, c ≠ '\n')
      (hrest : NoneAhead (· != '\n') rest) : Lexes true cs none rest
  | text {body rest : List Char} (hbody : Escaped body) (hlast : body.getLast? ≠ some '\\') :
      Lexes true ('"' :: (body ++ ['"'])) (some (.text, .text (String.ofList body))) rest
  /-- A text that is not closed reaches to the end of the source. -/
  | openText {body : List Char} (hbody : Escaped body) :
      Lexes false ('"' :: body) (some (.text, .text (String.ofList body))) []
  | number {sign ds rest : List Char} (hsign : IsSign sign) (hds : Digits ds)
      (hrest : NoneAhead (fun c => isDigit c || c == '.') rest) :
      Lexes true (sign ++ ds) (some (.number, .number (numberOf (sign ++ ds)))) rest
  /-- A second point is not taken. -/
  | decimal {sign ds fs rest : List Char} (hsign : IsSign sign) (hds : Digits ds)
      (hfs : ∀ d ∈ fs, isDigit d = true) (hrest : NoneAhead isDigit rest) :
      Lexes true (sign ++ (ds ++ '.' :: fs))
        (some (.number, .number (numberOf (sign ++ (ds ++ '.' :: fs))))) rest
  /-- A slash before a slash opens a remark, and a minus before a digit is its sign. -/
  | operator {c : Char} {rest : List Char} (hc : isOperator c = true)
      (hslash : c = '/' → NoneAhead (· == '/') rest) (hminus : c = '-' → NoneAhead isDigit rest) :
      Lexes true [c] (some (.operator, .text c.toString)) rest
  | assign {rest : List Char} : Lexes true ['='] (some (.assign, .text "=")) rest
  | word {cs rest : List Char} (hcs : isWordText cs = true) (hrest : NoneAhead isWordPart rest) :
      Lexes true cs (some (classify (String.ofList cs))) rest
  | punctuation {c : Char} {rest : List Char} (hc : isPunctuation c = true) :
      Lexes true [c] (some (.punctuation, .text c.toString)) rest
  | stray {c : Char} {rest : List Char} (hc : isStray c = true) : Lexes true [c] none rest

namespace Lexes
variable {closed : Bool} {cs rest : List Char} {f : Option Face}

/-- The scanner finds the lexeme that the grammar describes. -/
theorem found (h : Lexes closed cs f rest) :
    ∃ c tail, cs = c :: tail ∧ lexeme c (tail ++ rest) = ⟨cs.length + (!closed).toNat, f⟩ := by
  cases h with
  | @blank c _ hc => exact ⟨c, [], rfl, lexeme_blank hc⟩
  | remark hopens hcs hrest =>
    cases cs with
    | nil => cases hopens
    | cons c tail => exact ⟨c, tail, rfl, lexeme_remark hopens hcs hrest⟩
  | @text body _ hbody hlast =>
    refine ⟨'"', body ++ ['"'], rfl, ?_⟩
    rw [List.append_assoc, List.singleton_append,
      lexeme_quoted hbody (.inr ⟨rest, rfl, hlast⟩)]
    simp
  | @openText body hbody =>
    refine ⟨'"', body, rfl, ?_⟩
    rw [lexeme_quoted hbody (.inl rfl)]
    rfl
  | @number sign ds _ hsign hds hrest =>
    have htail : digitRun false ([] ++ rest) = [] := digitRun_eq_nil (by simpa using hrest)
    obtain rfl | rfl := hsign
    · obtain ⟨c, cs, hcs, hfound⟩ := lexeme_number hds htail
      rw [List.append_nil] at hcs
      exact ⟨c, cs, hcs, by rw [hfound, List.nil_append, hcs]; rfl⟩
    · have hfound := lexeme_negative hds htail
      rw [List.append_nil] at hfound
      exact ⟨'-', ds, rfl, hfound⟩
  | @decimal sign ds fs _ hsign hds hfs hrest =>
    have htail := digitRun_point hfs hrest
    obtain rfl | rfl := hsign
    · obtain ⟨c, cs, hcs, hfound⟩ := lexeme_number hds htail
      exact ⟨c, cs, hcs, by rw [hfound, List.nil_append, hcs]; rfl⟩
    · exact ⟨'-', ds ++ '.' :: fs, rfl, lexeme_negative hds htail⟩
  | @operator c _ hc hslash hminus => exact ⟨c, [], rfl, lexeme_operator hc hslash hminus⟩
  | assign => exact ⟨'=', [], rfl, lexeme_assign⟩
  | word hcs hrest =>
    cases cs with
    | nil => cases hcs
    | cons c tail => exact ⟨c, tail, rfl, lexeme_word hcs hrest⟩
  | @punctuation c _ hc => exact ⟨c, [], rfl, lexeme_punctuation hc⟩
  | @stray c _ hc => exact ⟨c, [], rfl, lexeme_stray hc⟩

theorem ne_nil (h : Lexes closed cs f rest) : cs ≠ [] := by
  obtain ⟨c, tail, rfl, _⟩ := h.found
  exact List.cons_ne_nil c tail

theorem rest_eq_nil (h : Lexes false cs f rest) : rest = [] := by
  cases h
  rfl

theorem append_line {more : List Char} (h : Lexes true cs f rest) :
    Lexes true cs f (rest ++ '\n' :: more) := by
  cases h with
  | blank hc => exact .blank hc
  | remark hopens hcs hrest => exact .remark hopens hcs (hrest.append (by decide))
  | text hbody hlast => exact .text hbody hlast
  | number hsign hds hrest => exact .number hsign hds (hrest.append (by decide))
  | decimal hsign hds hfs hrest => exact .decimal hsign hds hfs (hrest.append (by decide))
  | operator hc hslash hminus =>
    exact .operator hc (fun h => (hslash h).append (by decide))
      fun h => (hminus h).append (by decide)
  | assign => exact .assign
  | word hcs hrest => exact .word hcs (hrest.append (by decide))
  | punctuation hc => exact .punctuation hc
  | stray hc => exact .stray hc

theorem face_cases {k : Kind} {content : Content} (h : Lexes closed cs (some (k, content)) rest) :
    k ≠ .finish ∧ ∀ n, content = .number n → ∃ ds, n = numberOf ds := by
  generalize hf : some (k, content) = f at h
  cases h with
  | blank | remark | stray => cases hf
  | text | openText | operator | assign | punctuation =>
    cases hf
    exact ⟨by rintro ⟨⟩, by rintro n ⟨⟩⟩
  | number | decimal =>
    cases hf
    exact ⟨by rintro ⟨⟩, fun n hn => ⟨_, (Content.number.inj hn).symm⟩⟩
  | word =>
    obtain ⟨hkind, hcontent⟩ := classify_face (String.ofList cs)
    rw [← Option.some.inj hf] at hkind hcontent
    exact ⟨hkind, fun n hn => absurd hn (hcontent n)⟩

end Lexes

theorem exists_number {sign : List Char} (hsign : IsSign sign) (hc : isDigit c = true) :
    ∃ cs f rest', c :: rest = cs ++ rest' ∧ Lexes true (sign ++ cs) f rest' := by
  have hsplit := List.takeWhile_append_dropWhile (p := isDigit) (l := rest)
  have hnone : NoneAhead isDigit (rest.dropWhile isDigit) := noneAhead_dropWhile
  set run := rest.takeWhile isDigit with hrun
  have hds : Digits (c :: run) :=
    ⟨List.cons_ne_nil c run, List.forall_mem_cons.mpr ⟨hc, fun d hd => List.mem_takeWhile_imp hd⟩⟩
  cases hbehind : rest.dropWhile isDigit with
  | nil =>
    rw [hbehind] at hsplit
    exact ⟨c :: run, _, [], by rw [← hsplit, List.cons_append], .number hsign hds noneAhead_nil⟩
  | cons d behind =>
    rw [hbehind] at hsplit hnone
    by_cases hd : d = '.'
    · subst hd
      refine ⟨c :: run ++ '.' :: behind.takeWhile isDigit, _, behind.dropWhile isDigit, ?_,
        .decimal hsign hds (fun d hd => List.mem_takeWhile_imp hd) noneAhead_dropWhile⟩
      rw [List.append_assoc, List.cons_append, List.cons_append,
        List.takeWhile_append_dropWhile, hsplit]
    · refine ⟨c :: run, _, d :: behind, by rw [← hsplit, List.cons_append],
        .number hsign hds (noneAhead_cons.mpr ?_)⟩
      simp [noneAhead_cons.mp hnone, hd]

theorem exists_remark {cs : List Char} (h : opensRemark cs = true) :
    ∃ cs' rest, cs = cs' ++ rest ∧ Lexes true cs' none rest := by
  refine ⟨cs.takeWhile (· != '\n'), cs.dropWhile (· != '\n'),
    List.takeWhile_append_dropWhile.symm, .remark ?_ (fun c hc => ?_) noneAhead_dropWhile⟩
  · -- Neither sign that opens a remark is a line end.
    unfold opensRemark at h
    split at h
    · simp [opensRemark]
    · simp [opensRemark]
    · cases h
  · exact bne_iff_ne.mp (List.mem_takeWhile_imp (p := (· != '\n')) hc)

theorem exists_operator (hc : isOperator c = true) (hremark : opensRemark (c :: rest) = false) :
    ∃ closed cs f rest', c :: rest = cs ++ rest' ∧ Lexes closed cs f rest' := by
  have hslash : c = '/' → NoneAhead (· == '/') rest := by
    rintro rfl
    exact opensRemark_slash.mp hremark
  by_cases hnumber : c = '-' ∧ ¬NoneAhead isDigit rest
  · obtain ⟨rfl, hahead⟩ := hnumber
    cases rest with
    | nil => exact absurd noneAhead_nil hahead
    | cons d rest =>
      rw [noneAhead_cons, Bool.not_eq_false] at hahead
      obtain ⟨cs, f, rest', heq, h⟩ := @exists_number d rest ['-'] (.inr rfl) hahead
      exact ⟨true, '-' :: cs, f, rest', by rw [heq, List.cons_append], h⟩
  · rw [not_and, not_not] at hnumber
    exact ⟨true, [c], _, rest, rfl, .operator hc hslash hnumber⟩

theorem exists_lexes (c : Char) (rest : List Char) :
    ∃ closed cs f rest', c :: rest = cs ++ rest' ∧ Lexes closed cs f rest' := by
  by_cases hblank : Text.isBlank c = true
  · exact ⟨true, [c], none, rest, rfl, .blank hblank⟩
  by_cases hremark : opensRemark (c :: rest) = true
  · obtain ⟨cs, rest', heq, h⟩ := exists_remark hremark
    exact ⟨true, cs, none, rest', heq, h⟩
  by_cases hquote : c = '"'
  · obtain ⟨body, tail, rfl, hbody, rfl | ⟨behind, rfl, hlast⟩⟩ := exists_quoted rest
    · exact ⟨false, '"' :: body, _, [], by rw [hquote, List.cons_append], .openText hbody⟩
    · exact ⟨true, '"' :: (body ++ ['"']), _, behind, by simp [hquote], .text hbody hlast⟩
  by_cases hdigit : isDigit c = true
  · obtain ⟨cs, f, rest', heq, h⟩ := exists_number (.inl rfl) hdigit
    exact ⟨true, cs, f, rest', heq, h⟩
  by_cases hop : isOperator c = true
  · exact exists_operator hop (Bool.eq_false_iff.mpr hremark)
  by_cases hassign : c = '='
  · exact ⟨true, ['='], _, rest, by rw [hassign]; rfl, .assign⟩
  by_cases hletter : isLetter c = true
  · refine ⟨true, c :: rest.takeWhile isWordPart, _, rest.dropWhile isWordPart, ?_,
      .word ?_ noneAhead_dropWhile⟩
    · rw [List.cons_append, List.takeWhile_append_dropWhile]
    · rw [isWordText, hletter, Bool.true_and, List.all_eq_true]
      exact fun d hd => List.mem_takeWhile_imp hd
  by_cases hpunct : isPunctuation c = true
  · exact ⟨true, [c], _, rest, rfl, .punctuation hpunct⟩
  · have hhash : c ≠ '#' := by
      rintro rfl
      exact hremark rfl
    exact ⟨true, [c], none, rest, rfl, .stray (isStray_iff.mpr (by simp_all))⟩

/-! ### Cuts -/

/-- A stretch of a source: its characters, and the token that it is if it is one. -/
structure Piece where
  chars : List Char
  face : Option Face

/-- The source is a sequence of lexemes. The flag is false when it ends inside a quoted
    text. -/
inductive Cut : Bool → List Char → List Piece → Prop
  | finish : Cut true [] []
  | next {closed closed' : Bool} {cs rest : List Char} {f : Option Face} {ps : List Piece}
      (h : Lexes closed cs f rest) (hrest : Cut closed' rest ps) :
      Cut (closed && closed') (cs ++ rest) (⟨cs, f⟩ :: ps)

/-- The tokens of the pieces, the first of which begins at the position. -/
def placed : Position → List Piece → List Token
  | _, [] => []
  | p, ⟨cs, f⟩ :: ps => (f.map fun face => ⟨face.1, face.2, p⟩).toList ++ placed (p.stepAll cs) ps

/-- The position behind a source. The missing quote of a text that is not closed takes a
    column. -/
def endOf (closed : Bool) (p : Position) : Position := ⟨p.line, p.col + (!closed).toNat⟩

theorem tokensFrom_pending (p : Position) (k : Nat) (cs rest : List Char) :
    tokensFrom p (cs.length + k) (cs ++ rest) = tokensFrom (p.stepAll cs) k rest := by
  induction cs generalizing p with
  | nil => rw [List.length_nil, zero_add]; rfl
  | cons c cs ih =>
    rw [List.length_cons, add_right_comm]
    exact ih (p.step c)

/-- One lexeme gives its token, and the scanner goes on behind it. -/
theorem Lexes.tokensFrom_eq {closed : Bool} {cs : List Char} {f : Option Face}
    (h : Lexes closed cs f rest) (p : Position) : tokensFrom p 0 (cs ++ rest) =
      (f.map fun face => ⟨face.1, face.2, p⟩).toList ++
        tokensFrom (p.stepAll cs) (!closed).toNat rest := by
  obtain ⟨c, tail, rfl, hfound⟩ := h.found
  have hwidth : (c :: tail).length + (!closed).toNat - 1 = tail.length + (!closed).toNat := by
    rw [List.length_cons]
    omega
  rw [List.cons_append, tokensFrom, hfound, hwidth, tokensFrom_pending]
  rfl

namespace Cut
variable {closed : Bool} {cs : List Char} {ps : List Piece}

/-- The tokens of a text that is cut into pieces are those of the pieces, each where it stands,
    and the end mark. -/
theorem tokensFrom_eq (h : Cut closed cs ps) (p : Position) :
    tokensFrom p 0 cs = placed p ps ++ [Token.finish (endOf closed (p.stepAll cs))] := by
  induction h generalizing p with
  | finish => rfl
  | @next closed closed' cs rest f ps h hrest ih =>
    have hsteps : p.stepAll (cs ++ rest) = (p.stepAll cs).stepAll rest := List.foldl_append
    rw [h.tokensFrom_eq, placed, List.append_assoc, hsteps]
    cases closed with
    | true => exact congrArg _ (ih _)
    | false =>
      -- Nothing comes behind a text that is not closed.
      obtain rfl := h.rest_eq_nil
      generalize hnil : ([] : List Char) = rest at hrest
      cases hrest with
      | finish => rfl
      | next h => exact absurd hnil (by simp [h.ne_nil])

theorem exists_lexes_of_mem (h : Cut closed cs ps) {p : Position} {t : Token}
    (ht : t ∈ placed p ps) : ∃ closed cs rest, Lexes closed cs (some t.face) rest := by
  induction h generalizing p with
  | finish => cases ht
  | @next closed closed' cs rest f ps h hrest ih =>
    rw [placed, List.mem_append, Option.mem_toList, Option.map_eq_some_iff] at ht
    rcases ht with ⟨face, rfl, rfl⟩ | ht
    · exact ⟨closed, cs, rest, h⟩
    · exact ih ht

end Cut

theorem exists_cut (cs : List Char) : ∃ closed ps, Cut closed cs ps := by
  induction hn : cs.length using Nat.strong_induction_on generalizing cs with
  | _ n ih =>
    cases cs with
    | nil => exact ⟨true, [], .finish⟩
    | cons c rest =>
      obtain ⟨closed, first, f, behind, heq, h⟩ := exists_lexes c rest
      -- A lexeme is not empty, so what is behind it is shorter.
      have hshorter : behind.length < n := by
        have hfirst := List.length_pos_of_ne_nil h.ne_nil
        rw [← hn, heq, List.length_append]
        omega
      obtain ⟨closed', ps, hcut⟩ := ih _ hshorter behind rfl
      rw [heq]
      exact ⟨_, _, .next h hcut⟩

end Scan
end Parlance
