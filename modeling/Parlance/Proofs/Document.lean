import Parlance.Json.Reader
import Parlance.Json.Writer
import Parlance.Proofs.Dict
import Parlance.Proofs.Exact

/-!
# Documents and their Texts

The compact layout writes a document as a standard JSON text, and reading the text gives the
document again, if it has no fractions and every object has a name once.

The first half is about the text: the grammar of the standard is stated as rules on lists of
characters, and the layout follows them one by one. The second half is about the reader. It
takes a document off the front of a list, so every lemma says what it does with the text of a
part and any rest behind it.

## Main definitions

* `Json.IsWhole`: The digits before the point, without zeros in front.
* `Json.IsFraction`: The point and the digits behind it, or nothing.
* `Json.IsExponent`: The exponent, or nothing.
* `Json.IsInside`: The characters between the quotes of a text.
* `Json.isExact`: Whether all numbers are whole and no object has a name twice.

## Theorems

* `Json.isValue_compactChars`: What is written for an exact document is a value of the grammar.
* `Json.skipSpace_of_opens`: A character that opens a value is no blank.
* `Json.value_compactChars`: What is written is read back, whatever follows, if there is fuel for
  twice its length.
-/

namespace Parlance
open List Scan

namespace Json
variable {cs rest : List Char} {j : Json} {c : Char} {n : Int} {fuel : Nat}
variable {ds w left : List Char} {m : Number} (name s : String) (opening : Nat) (word : String)

/-! ### The grammar -/

def IsBlank (cs : List Char) : Prop := ∀ c ∈ cs, c = ' ' ∨ c = '\t' ∨ c = '\n' ∨ c = '\r'

def IsDigits (cs : List Char) : Prop := cs ≠ [] ∧ ∀ c ∈ cs, c.isDigit

/-- The digits before the point, without zeros in front. -/
inductive IsWhole : List Char → Prop where
  | zero : IsWhole ['0']
  | more {d : Char} {ds : List Char} :
    d.isDigit → d ≠ '0' → (∀ c ∈ ds, c.isDigit) → IsWhole (d :: ds)

/-- The point and the digits behind it, or nothing. -/
inductive IsFraction : List Char → Prop where
  | none : IsFraction []
  | some {ds : List Char} : IsDigits ds → IsFraction ('.' :: ds)

/-- The exponent, or nothing. -/
inductive IsExponent : List Char → Prop where
  | none : IsExponent []
  | some {e : Char} {sign ds : List Char} :
    e ∈ ['e', 'E'] → sign ∈ [[], ['+'], ['-']] → IsDigits ds → IsExponent (e :: sign ++ ds)

inductive IsNumeral : List Char → Prop where
  | mk {minus whole fraction exponent : List Char} :
    minus ∈ [[], ['-']] → IsWhole whole → IsFraction fraction → IsExponent exponent →
      IsNumeral (minus ++ whole ++ fraction ++ exponent)

/-- The characters between the quotes of a text. -/
inductive IsInside : List Char → Prop where
  | nil : IsInside []
  | char {c : Char} {cs : List Char} :
    0x20 ≤ c.toNat → c ≠ '"' → c ≠ '\\' → IsInside cs → IsInside (c :: cs)
  | letter {c : Char} {cs : List Char} :
    c ∈ ['"', '\\', '/', 'b', 'f', 'n', 'r', 't'] → IsInside cs → IsInside ('\\' :: c :: cs)
  | unit {ds cs : List Char} :
    ds.length = 4 → (∀ d ∈ ds, (hexValue? d).isSome) → IsInside cs →
      IsInside ('\\' :: 'u' :: ds ++ cs)

def IsQuoted (cs : List Char) : Prop := ∃ inside, IsInside inside ∧ cs = '"' :: inside ++ ['"']

mutual

inductive IsValue : List Char → Prop where
  | null : IsValue "null".toList
  | true : IsValue "true".toList
  | false : IsValue "false".toList
  | number {cs : List Char} : IsNumeral cs → IsValue cs
  | text {cs : List Char} : IsQuoted cs → IsValue cs
  | noItems {b : List Char} : IsBlank b → IsValue ('[' :: b ++ [']'])
  | array {cs : List Char} : AreItems cs → IsValue ('[' :: cs ++ [']'])
  | noFields {b : List Char} : IsBlank b → IsValue ('\x7b' :: b ++ ['\x7d'])
  | object {cs : List Char} : AreFields cs → IsValue ('\x7b' :: cs ++ ['\x7d'])

inductive IsElement : List Char → Prop where
  | mk {b cs b' : List Char} : IsBlank b → IsValue cs → IsBlank b' → IsElement (b ++ cs ++ b')

inductive AreItems : List Char → Prop where
  | last {cs : List Char} : IsElement cs → AreItems cs
  | more {cs cs' : List Char} : IsElement cs → AreItems cs' → AreItems (cs ++ ',' :: cs')

inductive AreFields : List Char → Prop where
  | last {b k b' cs : List Char} :
    IsBlank b → IsQuoted k → IsBlank b' → IsElement cs → AreFields (b ++ k ++ b' ++ ':' :: cs)
  | more {b k b' cs cs' : List Char} :
    IsBlank b → IsQuoted k → IsBlank b' → IsElement cs → AreFields cs' →
      AreFields (b ++ k ++ b' ++ ':' :: cs ++ ',' :: cs')

end

def IsStandard (s : String) : Prop := IsElement s.toList

/-! ### Documents without fractions -/

mutual

/-- Whether all numbers are whole and no object has a name twice. -/
def isExact : Json → Bool
  | .number (.float _) => false
  | .array items => allExact items
  | .object fields => decide (fields.map Prod.fst).Nodup && allFieldsExact fields
  | _ => true

def allExact : List Json → Bool
  | [] => true
  | j :: rest => isExact j && allExact rest

def allFieldsExact : List (String × Json) → Bool
  | [] => true
  | (_, j) :: rest => isExact j && allFieldsExact rest

end

theorem compactItems_cons_cons (j k : Json) (rest : List Json) :
    compactItems (j :: k :: rest) = compactChars j ++ ',' :: compactItems (k :: rest) := by
  rw [compactItems]
  exact nofun

theorem compactFields_singleton (j : Json) :
    compactFields [(name, j)] = quote false name ++ ':' :: compactChars j := by
  rw [compactFields]

theorem compactFields_cons_cons (j : Json) (f : String × Json) (rest : List (String × Json)) :
    compactFields ((name, j) :: f :: rest) =
      quote false name ++ ':' :: compactChars j ++ ',' :: compactFields (f :: rest) := by
  rw [compactFields]
  exact nofun

/-! ### The layout follows the grammar -/

theorem isBlank_nil : IsBlank [] := nofun

theorem IsValue.isElement (h : IsValue cs) : IsElement cs := by
  have := IsElement.mk isBlank_nil h isBlank_nil
  rwa [nil_append, append_nil] at this

theorem toDigits_eq_digit_cons (n : Nat) : ∃ d ds, Nat.toDigits 10 n = d :: ds ∧ d.isDigit := by
  obtain ⟨d, ds, hdigits⟩ := exists_cons_of_ne_nil (Nat.toDigits_ne_nil (n := n))
  exact ⟨d, ds, hdigits, isDigit_of_mem_toDigits (hdigits ▸ mem_cons_self ..)⟩

theorem toDigits_eq_cons {n : Nat} (hn : 0 < n) :
    ∃ d ds, Nat.toDigits 10 n = d :: ds ∧ d ≠ '0' := by
  induction n using Nat.strongRecOn with
  | ind n ih =>
    rw [Nat.toDigits_eq_if (by decide)]
    split
    case isTrue hlt =>
      refine ⟨_, [], rfl, ?_⟩
      interval_cases n <;> decide
    case isFalse hge =>
      obtain ⟨d, ds, hdigits, hd⟩ := ih (n / 10) (by omega) (by omega)
      exact ⟨d, ds ++ [(n % 10).digitChar], by rw [hdigits, cons_append], hd⟩

theorem isWhole_toDigits (n : Nat) : IsWhole (Nat.toDigits 10 n) := by
  rcases Nat.eq_zero_or_pos n with rfl | hn
  · exact .zero
  · obtain ⟨d, ds, hdigits, hd⟩ := toDigits_eq_cons hn
    have hall : ∀ c ∈ d :: ds, c.isDigit := fun c hc =>
      isDigit_of_mem_toDigits (hdigits ▸ hc)
    rw [hdigits]
    exact .more (hall d (mem_cons_self ..)) hd fun c hc => hall c (mem_cons_of_mem _ hc)

theorem isNumeral_toString (n : Int) : IsNumeral (toString n).toList := by
  have hnumeral (minus : List Char) (hminus : minus ∈ [[], ['-']]) :
      IsNumeral (minus ++ Nat.toDigits 10 n.natAbs) := by
    have := IsNumeral.mk hminus (isWhole_toDigits n.natAbs) .none .none
    rwa [append_nil, append_nil] at this
  rw [toList_toString]
  split
  · exact hnumeral ['-'] (by decide)
  · exact hnumeral [] (by decide)

theorem hexValue?_digitChar : ∀ n < 16, hexValue? n.digitChar = some n := by decide

theorem hex4_control {n : Nat} (hn : n < 0x20) :
    hex4 n = ['0', '0', (n / 16).digitChar, (n % 16).digitChar] := by
  rw [hex4, Nat.toDigits_eq_if (by decide)]
  split
  case isTrue hlt =>
    rw [Nat.div_eq_of_lt hlt, Nat.mod_eq_of_lt hlt]
    rfl
  case isFalse hge =>
    rw [Nat.toDigits_of_lt_base (by omega)]
    rfl

theorem unit?_control {n : Nat} (hn : n < 0x20) :
    unit? '0' '0' (n / 16).digitChar (n % 16).digitChar = some n := by
  have hzero : hexValue? '0' = some 0 := hexValue?_digitChar 0 (by decide)
  have hhigh := hexValue?_digitChar (n / 16) (by omega)
  have hlow := hexValue?_digitChar (n % 16) (by omega)
  simp only [unit?, hzero, hhigh, hlow, Option.bind_eq_bind, Option.bind_some]
  exact congrArg some (by omega)

theorem escapeChar_cases (c : Char) :
    (∃ e ∈ ['"', '\\', '/', 'b', 'f', 'n', 'r', 't'],
      escapeChar false c = ['\\', e] ∧ shortEscape? e = some c) ∨
    c.toNat < 0x20 ∧ escapeChar false c = escapeUnit c.toNat ∨
    0x20 ≤ c.toNat ∧ c ≠ '"' ∧ c ≠ '\\' ∧ escapeChar false c = [c] := by
  have hcode {n : Nat} (hn : c.toNat = n) : c = Char.ofNat n := by rw [← hn, Char.ofNat_toNat]
  unfold escapeChar
  split_ifs with hquote hslash hn hr ht hf hb hcontrol hascii
  · exact .inl ⟨'"', by decide, rfl, by rw [hquote]; rfl⟩
  · exact .inl ⟨'\\', by decide, rfl, by rw [hslash]; rfl⟩
  · exact .inl ⟨'n', by decide, rfl, by rw [hn]; rfl⟩
  · exact .inl ⟨'r', by decide, rfl, by rw [hr]; rfl⟩
  · exact .inl ⟨'t', by decide, rfl, by rw [ht]; rfl⟩
  · exact .inl ⟨'f', by decide, rfl, by rw [hcode hf]; rfl⟩
  · exact .inl ⟨'b', by decide, rfl, by rw [hcode hb]; rfl⟩
  · exact .inr (.inl ⟨hcontrol, rfl⟩)
  · exact absurd hascii (by simp)
  · exact .inr (.inr ⟨Nat.le_of_not_lt hcontrol, hquote, hslash, rfl⟩)

theorem isInside_escapeChar (c : Char) (h : IsInside cs) : IsInside (escapeChar false c ++ cs) := by
  rcases escapeChar_cases c with ⟨e, he, hc, -⟩ | ⟨hlt, hc⟩ | ⟨hle, hquote, hslash, hc⟩
  · rw [hc]
    exact .letter he h
  · rw [hc, escapeUnit, hex4_control hlt]
    refine .unit rfl ?_ h
    simp [hexValue?_digitChar _ (Nat.mod_lt c.toNat (by decide : 16 > 0)),
      hexValue?_digitChar _ (by omega : c.toNat / 16 < 16),
      show (hexValue? '0').isSome by decide]
  · rw [hc]
    exact .char hle hquote hslash h

theorem isQuoted_quote : IsQuoted (quote false s) := by
  refine ⟨s.toList.flatMap (escapeChar false), ?_, rfl⟩
  induction s.toList with
  | nil => exact .nil
  | cons c rest ih => exact isInside_escapeChar c ih

mutual

/-- What is written for an exact document is a value of the grammar. -/
theorem isValue_compactChars : (j : Json) → j.isExact → IsValue (compactChars j)
  | .null, _ => .null
  | .bool true, _ => .true
  | .bool false, _ => .false
  | .number (.int n), _ => .number (isNumeral_toString n)
  | .text s, _ => .text (isQuoted_quote s)
  | .array items, h => by
    rw [compactChars]
    by_cases hitems : items = []
    · rw [hitems]
      exact .noItems isBlank_nil
    · exact .array (areItems_compactItems items hitems h)
  | .object fields, h => by
    rw [compactChars]
    by_cases hfields : fields = []
    · rw [hfields]
      exact .noFields isBlank_nil
    · exact .object (areFields_compactFields fields hfields (Bool.and_eq_true_iff.mp h).2)

theorem areItems_compactItems :
    (items : List Json) → items ≠ [] → allExact items → AreItems (compactItems items)
  | [], hne, _ => absurd rfl hne
  | [j], _, h => .last (isValue_compactChars j (Bool.and_eq_true_iff.mp h).1).isElement
  | j :: k :: rest, _, h => by
    have hj := Bool.and_eq_true_iff.mp h
    rw [compactItems_cons_cons]
    exact .more (isValue_compactChars j hj.1).isElement
      (areItems_compactItems (k :: rest) nofun hj.2)

theorem areFields_compactFields :
    (fields : List (String × Json)) → fields ≠ [] → allFieldsExact fields →
      AreFields (compactFields fields)
  | [], hne, _ => absurd rfl hne
  | [(name, j)], _, h => by
    have := AreFields.last isBlank_nil (isQuoted_quote name) isBlank_nil
      (isValue_compactChars j (Bool.and_eq_true_iff.mp h).1).isElement
    rwa [nil_append, append_nil, ← compactFields_singleton] at this
  | (name, j) :: g :: rest, _, h => by
    have hj := Bool.and_eq_true_iff.mp h
    have := AreFields.more isBlank_nil (isQuoted_quote name) isBlank_nil
      (isValue_compactChars j hj.1).isElement
      (areFields_compactFields (g :: rest) nofun hj.2)
    rwa [nil_append, append_nil, ← compactFields_cons_cons] at this

end

theorem isStandard_compact (hj : j.isExact) : IsStandard j.compact := by
  rw [IsStandard, compact, String.toList_ofList]
  exact (isValue_compactChars j hj).isElement

theorem quoted_escapeChar (c : Char) (hcs : cs ≠ []) :
    quoted opening none (escapeChar false c ++ cs) =
      (quoted opening none cs).map fun r => (c :: r.1, r.2) := by
  rcases escapeChar_cases c with ⟨e, he, hc, hshort⟩ | ⟨hlt, hc⟩ | ⟨hle, hquote, hslash, hc⟩
  · rw [hc, cons_append, singleton_append]
    fin_cases he <;> cases hshort <;> rw [quoted] <;> simp [shortEscape?, loneHalf]
  · have hrest : cs.isEmpty = false := isEmpty_eq_false_iff.mpr hcs
    have hjoin : joinUnit none c.toNat = ([c], none) := by
      rw [joinUnit, if_neg (by omega), unitChar, if_neg (by omega), Char.ofNat_toNat]
    rw [hc, escapeUnit, hex4_control hlt]
    simp only [cons_append, nil_append]
    rw [quoted]
    simp only [unit?_control hlt, hrest, hjoin]
    rfl
  · rw [hc, singleton_append, quoted]
    · rw [if_neg (Nat.not_lt.mpr hle)]
      rfl
    all_goals simp [hquote, hslash]

theorem quoted_flatMap (cs rest : List Char) :
    quoted opening none (cs.flatMap (escapeChar false) ++ '"' :: rest) = .ok (cs, rest) := by
  induction cs with
  | nil => rw [flatMap_nil, nil_append, quoted, loneHalf]
  | cons c cs ih =>
    rw [flatMap_cons, append_assoc, quoted_escapeChar _ _ (by simp), ih]
    rfl

/-! ### Reading numerals and words -/

/-- What stands behind a part in the compact layout: a comma, a bracket or nothing. -/
def Closes (rest : List Char) : Prop := ∀ c ∈ rest.head?, c = ',' ∨ c = ']' ∨ c = '\x7d'

theorem closes_nil : Closes [] := nofun

theorem closes_cons {c : Char} (hc : c = ',' ∨ c = ']' ∨ c = '\x7d') (rest : List Char) :
    Closes (c :: rest) := by
  intro d hd
  cases hd
  exact hc

theorem Closes.isDigit (h : Closes rest) : ∀ c ∈ rest.head?, c.isDigit = false := by
  intro c hc
  rcases h c hc with rfl | rfl | rfl <;> rfl

theorem takeWhile_isDigit_append (hds : ∀ c ∈ ds, c.isDigit)
    (hrest : ∀ c ∈ rest.head?, c.isDigit = false) : (ds ++ rest).takeWhile Char.isDigit = ds := by
  rw [takeWhile_append_of_pos hds]
  cases rest with
  | nil => exact append_nil ds
  | cons c rest =>
    have hc : ¬c.isDigit = true := by simp [hrest c rfl]
    rw [takeWhile_cons_of_neg hc, append_nil]

theorem fractionPart_of_closes (hrest : Closes rest) : fractionPart rest = ([], rest) := by
  rw [fractionPart.eq_def]
  split
  · exact absurd (hrest '.' rfl) (by decide)
  · rfl

theorem exponentPart_of_closes (hrest : Closes rest) : exponentPart rest = (none, rest) := by
  cases rest with
  | nil => rfl
  | cons c rest => rcases hrest c rfl with rfl | rfl | rfl <;> rfl

theorem wholePart_toDigits (n : Nat) (hrest : ∀ c ∈ rest.head?, c.isDigit = false) :
    wholePart (Nat.toDigits 10 n ++ rest) = Nat.toDigits 10 n := by
  rcases Nat.eq_zero_or_pos n with rfl | hn
  · rfl
  · obtain ⟨d, ds, hdigits, hd⟩ := toDigits_eq_cons hn
    rw [wholePart]
    · exact takeWhile_isDigit_append (fun c => isDigit_of_mem_toDigits) hrest
    · intro tail hzero
      rw [hdigits, cons_append] at hzero
      exact hd (cons.inj hzero).1

theorem signPart_toString (n : Int) (rest : List Char) :
    signPart ((toString n).toList ++ rest) = (decide (n < 0), Nat.toDigits 10 n.natAbs ++ rest) := by
  rw [toList_toString]
  by_cases hneg : n < 0
  · rw [if_pos hneg, decide_eq_true hneg]
    rfl
  · rw [if_neg hneg, decide_eq_false hneg, signPart]
    intro tail hminus
    -- The first character is a digit, and a sign is none.
    obtain ⟨d, ds, hdigits, hdigit⟩ := toDigits_eq_digit_cons n.natAbs
    rw [hdigits, cons_append] at hminus
    rw [(cons.inj hminus).1] at hdigit
    exact absurd hdigit (by decide)

theorem isEmpty_toDigits (n : Nat) : (Nat.toDigits 10 n).isEmpty = false :=
  isEmpty_eq_false_iff.mpr Nat.toDigits_ne_nil

theorem numeral?_toString (n : Int) (hrest : Closes rest) :
    numeral? ((toString n).toList ++ rest) = some (.int n, rest) := by
  simp only [numeral?, signPart_toString, wholePart_toDigits _ hrest.isDigit, isEmpty_toDigits,
    drop_left, fractionPart_of_closes hrest, exponentPart_of_closes hrest, isEmpty_nil,
    Option.isNone_none, Bool.and_self, natOf_toDigits, if_true, Bool.false_eq_true, if_false,
    ite_neg_natAbs]

theorem numeral?_exponent (n : Int) : numeral? ((toString n).toList ++ ['e', '0']) =
      some (.float (Binary.ofRatio (decide (n < 0)) n.natAbs 1), []) := by
  have hrest : ∀ c ∈ ['e', '0'].head?, c.isDigit = false := by
    rintro c ⟨⟩
    rfl
  have hfraction : fractionPart ['e', '0'] = ([], ['e', '0']) := rfl
  have hexponent : exponentPart ['e', '0'] = (some 0, []) := rfl
  simp only [numeral?, signPart_toString, wholePart_toDigits _ hrest, isEmpty_toDigits, drop_left,
    hfraction, hexponent, Option.isNone_some, Bool.and_false, Bool.false_eq_true, if_false,
    append_nil, natOf_toDigits, Option.getD_some, length_nil, Int.natCast_zero,
    Int.sub_zero, scale_zero]

theorem afterWord?_append (rest : List Char) :
    afterWord? word (word.toList ++ rest) = some rest := by
  simp [afterWord?]

theorem afterWord?_of_ne {word : String} {d : Char}
    (hword : word.toList = c :: w) (hcs : cs = d :: ds) (hne : c ≠ d) :
    afterWord? word cs = none := by
  rw [hcs, afterWord?, hword, isPrefixOf, beq_eq_false_iff_ne.mpr hne, Bool.false_and]
  rfl

theorem numeral_eq_cons (n : Int) :
    ∃ c cs, (toString n).toList = c :: cs ∧ (c.isDigit ∨ c = '-') := by
  obtain ⟨d, ds, hdigits, hd⟩ := toDigits_eq_digit_cons n.natAbs
  rw [toList_toString]
  split
  · exact ⟨'-', _, rfl, .inr rfl⟩
  · exact ⟨d, ds, hdigits, .inl hd⟩

theorem afterWord?_toString (hword : word.toList = c :: w)
    (hc : c.isDigit = false ∧ c ≠ '-') (n : Int) (rest : List Char) :
    afterWord? word ((toString n).toList ++ rest) = none := by
  obtain ⟨d, ds, hds, hd⟩ := numeral_eq_cons n
  have hne : c ≠ d := by
    rintro rfl
    rcases hd with hd | hd
    · rw [hc.1] at hd
      cases hd
    · exact hc.2 hd
  exact afterWord?_of_ne hword (congrArg (· ++ rest) hds) hne

theorem afterWord?_infinity_toString (n : Int) (rest : List Char) :
    afterWord? "-Infinity" ((toString n).toList ++ rest) = none := by
  obtain ⟨d, ds, hdigits, hd⟩ := toDigits_eq_digit_cons n.natAbs
  have hI : 'I' ≠ d := by
    rintro rfl
    exact absurd hd (by decide)
  have hminus : '-' ≠ d := by
    rintro rfl
    exact absurd hd (by decide)
  rw [toList_toString, hdigits]
  split
  · have hrest : "Infinity".toList.isPrefixOf (d :: ds ++ rest) = false := by
      rw [show "Infinity".toList = 'I' :: "nfinity".toList from rfl, cons_append,
        isPrefixOf, beq_eq_false_iff_ne.mpr hI, Bool.false_and]
    rw [afterWord?, show "-Infinity".toList = '-' :: "Infinity".toList from rfl, cons_append,
      isPrefixOf, hrest, Bool.and_false]
    rfl
  · exact afterWord?_of_ne rfl rfl hminus

theorem scalar_of_numeral? (h : numeral? ((toString n).toList ++ rest) = some (m, left)) :
    scalar ((toString n).toList ++ rest) = .ok (.number m, left) := by
  rw [scalar, afterWord?_toString "null" rfl (by decide),
    afterWord?_toString "true" rfl (by decide),
    afterWord?_toString "false" rfl (by decide),
    afterWord?_toString "NaN" rfl (by decide),
    afterWord?_toString "Infinity" rfl (by decide),
    afterWord?_infinity_toString, h]

/-! ### Reading documents -/

def opens (c : Char) : Bool := c.isDigit || ['n', 't', 'f', '-', '"', '[', '\x7b'].contains c

theorem ne_of_opens {d : Char} (hc : opens c) (hd : opens d = false) : c ≠ d := by
  rintro rfl
  rw [hd] at hc
  cases hc

/-- A character that opens a value is no blank. -/
theorem skipSpace_of_opens (hc : opens c) (cs : List Char) : skipSpace (c :: cs) = c :: cs := by
  refine dropWhile_cons_of_neg ?_
  simp [isSpace, ne_of_opens hc (d := ' ') rfl, ne_of_opens hc (d := '\t') rfl,
    ne_of_opens hc (d := '\n') rfl, ne_of_opens hc (d := '\r') rfl]

theorem compactChars_eq_cons (hj : j.isExact) : ∃ c cs, compactChars j = c :: cs ∧ opens c := by
  cases j with
  | number n =>
    cases n with
    | int n =>
      obtain ⟨c, cs, hcs, hc⟩ := numeral_eq_cons n
      refine ⟨c, cs, hcs, ?_⟩
      rcases hc with hc | rfl
      · rw [opens, hc, Bool.true_or]
      · rfl
    | float x => cases hj
  | bool b => cases b <;> exact ⟨_, _, rfl, rfl⟩
  | _ => exact ⟨_, _, rfl, rfl⟩

theorem compactItems_eq_cons {items : List Json} (hne : items ≠ []) (h : allExact items) :
    ∃ c cs, compactItems items = c :: cs ∧ opens c := by
  obtain ⟨j, rest, rfl⟩ := exists_cons_of_ne_nil hne
  obtain ⟨c, cs, hj, hc⟩ := compactChars_eq_cons (Bool.and_eq_true_iff.mp h).1
  cases rest with
  | nil => exact ⟨c, cs, hj, hc⟩
  | cons k rest =>
    rw [compactItems_cons_cons, hj]
    exact ⟨c, _, rfl, hc⟩

theorem compactFields_eq_cons {fields : List (String × Json)} (hne : fields ≠ []) :
    ∃ cs, compactFields fields = '"' :: cs := by
  obtain ⟨f, rest, rfl⟩ := exists_cons_of_ne_nil hne
  cases rest with
  | nil => exact ⟨_, rfl⟩
  | cons g rest =>
    rw [compactFields_cons_cons]
    exact ⟨_, rfl⟩

/-! One step of the reader for each form of a document. -/

theorem value_eq_scalar (fuel : Nat) {c : Char} {cs cs' : List Char} (hcs : cs = c :: cs')
    (hc : c ≠ '"' ∧ c ≠ '[' ∧ c ≠ '\x7b') : value (fuel + 1) cs = scalar cs := by
  rw [hcs, value] <;> simp [hc]

theorem scalar_null (rest : List Char) : scalar ("null".toList ++ rest) = .ok (.null, rest) := by
  rw [scalar, afterWord?_append]

theorem scalar_bool (b : Bool) (rest : List Char) :
    scalar ((if b then "true" else "false").toList ++ rest) = .ok (.bool b, rest) := by
  cases b with
  | true =>
    have hnull : afterWord? "null" ("true".toList ++ rest) = none :=
      afterWord?_of_ne rfl rfl (by decide)
    rw [if_pos rfl, scalar, hnull, afterWord?_append]
  | false =>
    have hnull : afterWord? "null" ("false".toList ++ rest) = none :=
      afterWord?_of_ne rfl rfl (by decide)
    have htrue : afterWord? "true" ("false".toList ++ rest) = none :=
      afterWord?_of_ne rfl rfl (by decide)
    rw [if_neg Bool.false_ne_true, scalar, hnull, htrue, afterWord?_append]

theorem value_number (fuel : Nat) (h : numeral? ((toString n).toList ++ rest) = some (m, left)) :
    value (fuel + 1) ((toString n).toList ++ rest) = .ok (.number m, left) := by
  obtain ⟨c, cs, hcs, hc⟩ := numeral_eq_cons n
  refine (value_eq_scalar fuel (congrArg (· ++ rest) hcs) ?_).trans (scalar_of_numeral? h)
  rcases hc with hc | rfl
  · refine ⟨?_, ?_, ?_⟩ <;> rintro rfl <;> exact absurd hc (by decide)
  · decide

theorem value_array (fuel : Nat) (hc : opens c) (cs : List Char) :
    value (fuel + 1) ('[' :: c :: cs) = (items fuel (c :: cs)).map fun r => (.array r.1, r.2) := by
  rw [value, skipSpace_of_opens hc]
  split
  case h_1 heq => exact absurd (cons.inj heq).1 (ne_of_opens hc rfl)
  case h_2 => rfl

theorem value_object (fuel : Nat) (cs : List Char) :
    value (fuel + 1) ('\x7b' :: '"' :: cs) =
      (fields fuel ('"' :: cs)).map fun r => (.object (Dict.ofList r.1).entries, r.2) := by
  rw [value, skipSpace_of_opens rfl]
  rfl

theorem items_last {fuel : Nat} {cs rest : List Char} {j : Json}
    (h : value fuel cs = .ok (j, ']' :: rest)) : items (fuel + 1) cs = .ok ([j], rest) := by
  rw [items, h]
  rfl

theorem items_more (hc : opens c) (h : value fuel cs = .ok (j, ',' :: c :: rest)) :
    items (fuel + 1) cs = (items fuel (c :: rest)).map fun r => (j :: r.1, r.2) := by
  rw [items, h]
  change (items fuel (skipSpace (c :: rest))).bind (fun r => .ok (j :: r.1, r.2)) = _
  rw [skipSpace_of_opens hc]
  rcases items fuel (c :: rest) with f | r <;> rfl

theorem quote_append (rest : List Char) :
    quote false s ++ rest = '"' :: (s.toList.flatMap (escapeChar false) ++ '"' :: rest) := by
  simp [quote]

theorem fields_last (hc : opens c) (h : value fuel (c :: cs) = .ok (j, '\x7d' :: rest)) :
    fields (fuel + 1) (quote false name ++ ':' :: c :: cs) = .ok ([(name, j)], rest) := by
  rw [quote_append, fields, quoted_flatMap]
  change (value fuel (skipSpace (c :: cs))).bind _ = _
  rw [skipSpace_of_opens hc, h, String.ofList_toList]
  rfl

theorem fields_more (hc : opens c) (h : value fuel (c :: cs) = .ok (j, ',' :: '"' :: rest)) :
    fields (fuel + 1) (quote false name ++ ':' :: c :: cs) =
      (fields fuel ('"' :: rest)).map fun r => ((name, j) :: r.1, r.2) := by
  rw [quote_append, fields, quoted_flatMap]
  change (value fuel (skipSpace (c :: cs))).bind _ = _
  rw [skipSpace_of_opens hc, h, String.ofList_toList]
  change (fields fuel ('"' :: rest)).bind (fun r => .ok ((name, j) :: r.1, r.2)) = _
  rcases fields fuel ('"' :: rest) with f | r <;> rfl

theorem compactChars_array_append (items : List Json) (rest : List Char) :
    compactChars (.array items) ++ rest = '[' :: (compactItems items ++ ']' :: rest) := by
  simp [compactChars]

theorem compactChars_object_append (fields : List (String × Json)) (rest : List Char) :
    compactChars (.object fields) ++ rest = '\x7b' :: (compactFields fields ++ '\x7d' :: rest) := by
  simp [compactChars]

mutual

/-- What is written is read back, whatever follows, if there is fuel for twice its length. -/
theorem value_compactChars : (j : Json) → j.isExact → (fuel : Nat) → (rest : List Char) →
    Closes rest → 2 * (compactChars j).length ≤ fuel →
      value fuel (compactChars j ++ rest) = .ok (j, rest)
  | j, hj, 0, rest, _, hfuel => by
    obtain ⟨c, cs, hcs, -⟩ := compactChars_eq_cons hj
    rw [hcs, length_cons] at hfuel
    omega
  | .null, _, fuel + 1, rest, _, _ =>
    (value_eq_scalar fuel rfl (by decide)).trans (scalar_null rest)
  | .bool true, _, fuel + 1, rest, _, _ =>
    (value_eq_scalar fuel rfl (by decide)).trans (scalar_bool true rest)
  | .bool false, _, fuel + 1, rest, _, _ =>
    (value_eq_scalar fuel rfl (by decide)).trans (scalar_bool false rest)
  | .number (.int n), _, fuel + 1, rest, hrest, _ => value_number fuel (numeral?_toString n hrest)
  | .text s, _, fuel + 1, rest, _, _ => by
    rw [compactChars, quote_append, value, quoted_flatMap]
    exact congrArg (fun s => Except.ok (text s, rest)) (String.ofList_toList)
  | .array items, hj, fuel + 1, rest, _, hfuel => by
    have hlength : 2 * (compactItems items).length < fuel := by
      rw [compactChars] at hfuel
      simp only [length_cons, length_append, length_nil] at hfuel
      omega
    rw [compactChars_array_append]
    by_cases hitems : items = []
    · rw [hitems]
      rfl
    · have hread := items_compactItems items hitems hj fuel rest hlength
      obtain ⟨c, cs, hcs, hc⟩ := compactItems_eq_cons hitems hj
      rw [hcs, cons_append] at hread ⊢
      rw [value_array fuel hc, hread]
      rfl
  | .object fields, hj, fuel + 1, rest, _, hfuel => by
    have hj := Bool.and_eq_true_iff.mp hj
    have hlength : 2 * (compactFields fields).length < fuel := by
      rw [compactChars] at hfuel
      simp only [length_cons, length_append, length_nil] at hfuel
      omega
    rw [compactChars_object_append]
    by_cases hfields : fields = []
    · rw [hfields]
      rfl
    · have hread := fields_compactFields fields hfields hj.2 fuel rest hlength
      obtain ⟨cs, hcs⟩ := compactFields_eq_cons hfields
      rw [hcs, cons_append] at hread ⊢
      rw [value_object, hread]
      change Except.ok (object (Dict.ofList fields).entries, rest) = _
      rw [Dict.entries_ofList (of_decide_eq_true hj.1)]

theorem items_compactItems : (js : List Json) → js ≠ [] → allExact js → (fuel : Nat) →
    (rest : List Char) → 2 * (compactItems js).length < fuel →
      items fuel (compactItems js ++ ']' :: rest) = .ok (js, rest)
  | _, _, _, 0, _, hfuel => absurd hfuel (Nat.not_lt_zero _)
  | [j], _, h, fuel + 1, rest, hfuel =>
    items_last (value_compactChars j (Bool.and_eq_true_iff.mp h).1 fuel _
      (closes_cons (by decide) rest) (Nat.le_of_lt_succ hfuel))
  | j :: k :: js, _, h, fuel + 1, rest, hfuel => by
    have hj := Bool.and_eq_true_iff.mp h
    rw [compactItems_cons_cons] at hfuel ⊢
    rw [length_append, length_cons] at hfuel
    obtain ⟨c, cs, hcs, hc⟩ := compactItems_eq_cons (cons_ne_nil k js) hj.2
    have hvalue := value_compactChars j hj.1 fuel (',' :: (compactItems (k :: js) ++ ']' :: rest))
      (closes_cons (by decide) _) (by omega)
    have hread := items_compactItems (k :: js) nofun hj.2 fuel rest (by omega)
    rw [hcs, cons_append] at hvalue hread
    rw [hcs, append_assoc, cons_append, cons_append, items_more hc hvalue, hread]
    rfl

theorem fields_compactFields : (fs : List (String × Json)) → fs ≠ [] → allFieldsExact fs →
    (fuel : Nat) → (rest : List Char) → 2 * (compactFields fs).length < fuel →
      fields fuel (compactFields fs ++ '\x7d' :: rest) = .ok (fs, rest)
  | _, _, _, 0, _, hfuel => absurd hfuel (Nat.not_lt_zero _)
  | [(name, j)], _, h, fuel + 1, rest, hfuel => by
    have hj := (Bool.and_eq_true_iff.mp h).1
    rw [compactFields_singleton] at hfuel ⊢
    rw [length_append, length_cons] at hfuel
    have hvalue := value_compactChars j hj fuel ('\x7d' :: rest) (closes_cons (by decide) rest)
      (by omega)
    obtain ⟨c, cs, hcs, hc⟩ := compactChars_eq_cons hj
    rw [hcs, cons_append] at hvalue
    rw [hcs, append_assoc, cons_append, cons_append, fields_last name hc hvalue]
  | (name, j) :: g :: fs, _, h, fuel + 1, rest, hfuel => by
    have hj := Bool.and_eq_true_iff.mp h
    rw [compactFields_cons_cons] at hfuel ⊢
    simp only [length_append, length_cons] at hfuel
    have hvalue := value_compactChars j hj.1 fuel
      (',' :: (compactFields (g :: fs) ++ '\x7d' :: rest)) (closes_cons (by decide) _) (by omega)
    have hread := fields_compactFields (g :: fs) nofun hj.2 fuel rest (by omega)
    obtain ⟨c, cs, hcs, hc⟩ := compactChars_eq_cons hj.1
    obtain ⟨ds, hds⟩ := compactFields_eq_cons (cons_ne_nil g fs)
    rw [hcs, hds, cons_append, cons_append] at hvalue
    rw [hds, cons_append] at hread
    rw [hcs, hds]
    simp only [append_assoc, cons_append]
    rw [fields_more name hc hvalue, hread]
    rfl

end

theorem read_of_value (hc : opens c)
    (hvalue : value (2 * (c :: cs).length + 2) (c :: cs) = .ok (j, [])) :
    read (String.ofList (c :: cs)) = .ok j := by
  have hmark : (c :: cs).head? ≠ some (Char.ofNat 0xfeff) := by
    intro heq
    exact ne_of_opens hc rfl (Option.some.inj heq)
  have hchars : readChars (c :: cs) = .ok j := by
    rw [readChars, if_neg hmark, skipSpace_of_opens hc, hvalue]
    rfl
  rw [read, String.toList_ofList, hchars]
  rfl

theorem read_compact (hj : j.isExact) : read j.compact = .ok j := by
  obtain ⟨c, cs, hcs, hc⟩ := compactChars_eq_cons hj
  have hvalue := value_compactChars j hj (2 * (compactChars j).length + 2) [] closes_nil (by omega)
  rw [append_nil, hcs] at hvalue
  rw [compact, hcs]
  exact read_of_value hc hvalue

theorem read_exponent (hn : n.natAbs ≤ 2 ^ 53) :
    ∃ x, read (toString n ++ "e0") = .ok (.number (.float x)) ∧ Binary.whole? x = some n := by
  refine ⟨Binary.ofRatio (decide (n < 0)) n.natAbs 1, ?_, ?_⟩
  · obtain ⟨c, cs, hcs, hc⟩ := numeral_eq_cons n
    have hopens : opens c := by
      rcases hc with hc | rfl
      · rw [opens, hc, Bool.true_or]
      · rfl
    have hchars : toString n ++ "e0" = String.ofList (c :: (cs ++ ['e', '0'])) := by
      rw [← cons_append, ← hcs, String.ofList_append, String.ofList_toList]
    rw [hchars]
    refine read_of_value hopens ?_
    rw [← cons_append, ← hcs]
    exact value_number _ (numeral?_exponent n)
  · rw [(Binary.Has.of_le hn).whole?_eq, ite_neg_natAbs]

end Json
end Parlance
