import Parlance.Proofs.Rounding
import Parlance.Token.Scan

/-!
# Whole Numbers are Exact

A number in a script is rounded to binary64 before it becomes a whole number
again, so what is written is not always what is meant. Up to `2 ^ 53` it is, and
beyond that for numbers with zeros at the end.

## Main definitions

* `Binary.Has`: Binary64 has the whole number: 53 bits, and zeros behind them.
* `Scan.signed`: Digits, with a minus before them or without one.

## Theorems

* `Binary.scaled_eq`: Changing the exponent of a quotient that is exact keeps it exact.
* `Binary.Has.of_le`: Binary64 has all whole numbers up to `2 ^ 53`.
* `Scan.natOf_toDigits`: Reading the digits of a number gives the number.
* `Scan.toList_toString`: The digits of a whole number, with the sign in front.
-/

namespace Parlance
open Nat Numeral Binary List

theorem ite_neg_natAbs (n : Int) :
    (if decide (n < 0) then -(n.natAbs : Int) else n.natAbs) = n := by
  by_cases hneg : n < 0
  · rw [if_pos (decide_eq_true hneg)]
    omega
  · rw [if_neg (by simp [hneg])]
    omega

namespace Binary
variable {x : Float} {negative : Bool} {num d m n : Nat} {e q : Int}

theorem ratio_eq (negative : Bool) (m : Nat) (e : Int) :
    (⟨negative, m, e⟩ : Dyadic).ratio = (m * 2 ^ e.toNat, 2 ^ (-e).toNat) := by
  simp only [Dyadic.ratio, pow_eq]
  split
  · rw [show (-e).toNat = 0 by omega, pow_zero]
  · rw [show e.toNat = 0 by omega, pow_zero, Nat.mul_one]

theorem whole?_of_dyadic? (h : dyadic? x = some ⟨negative, m, e⟩)
    (hn : m * 2 ^ e.toNat = n * 2 ^ (-e).toNat) :
    whole? x = some (if negative then -(n : Int) else n) := by
  have hpos : (2 ^ (-e).toNat : Int) ≠ 0 := by positivity
  simp only [whole?, h, Dyadic.numerator, ratio_eq, hn, Nat.mul_mod_left, if_true]
  cases negative
  · simp [Int.mul_tdiv_cancel _ hpos]
  · simp [Int.neg_tdiv, Int.mul_tdiv_cancel _ hpos]

/-- Changing the exponent of a quotient that is exact keeps it exact. -/
theorem scaled_eq (hq : q ≤ e) (h : num * 2 ^ (-e).toNat = m * 2 ^ e.toNat * d) :
    num * 2 ^ (-q).toNat = m * 2 ^ (e - q).toNat * (d * 2 ^ q.toNat) := by
  have hpow : 2 ^ e.toNat * 2 ^ (-q).toNat = 2 ^ (e - q).toNat * 2 ^ q.toNat * 2 ^ (-e).toNat := by
    rw [← pow_add, ← pow_add, ← pow_add]
    congr 1
    omega
  refine eq_of_mul_eq_mul_right (show 0 < 2 ^ (-e).toNat by positivity) ?_
  calc num * 2 ^ (-q).toNat * 2 ^ (-e).toNat = num * 2 ^ (-e).toNat * 2 ^ (-q).toNat := by ring
    _ = m * d * (2 ^ e.toNat * 2 ^ (-q).toNat) := by rw [h]; ring
    _ = m * 2 ^ (e - q).toNat * (d * 2 ^ q.toNat) * 2 ^ (-e).toNat := by rw [hpow]; ring

theorem rounded_eq (hden : 0 < d) (hq : q ≤ e) (h : num * 2 ^ (-e).toNat = m * 2 ^ e.toNat * d) :
    quotient num d q = m * 2 ^ (e - q).toNat ∧ rounded num d q = m * 2 ^ (e - q).toNat := by
  have hpos : 0 < d * 2 ^ q.toNat := by positivity
  have hquotient : quotient num d q = m * 2 ^ (e - q).toNat := by
    rw [quotient, scaled_eq hq h, Nat.mul_div_cancel _ hpos]
  refine ⟨hquotient, ?_⟩
  simp only [rounded, hquotient, scaled_eq hq h, Nat.mul_mod_left, Nat.mul_zero, gt_iff_lt,
    Nat.not_lt_zero, decide_false, Bool.false_or, beq_eq_false_iff_ne.mpr hpos.ne, Bool.false_and,
    Bool.false_eq_true, if_false]

theorem unit_le (hnum : 0 < num) (hden : 0 < d) (hm : m < 2 ^ 53) (he : -1074 ≤ e)
    (h : num * 2 ^ (-e).toNat = m * 2 ^ e.toNat * d) : unit num d ≤ e := by
  by_contra hlt
  have hlarge := le_quotient_unit hnum hden (by omega)
  generalize unit num d = q at *
  rw [quotient, le_div_iff_mul_le (by positivity)] at hlarge
  have hpow : 2 * (2 ^ e.toNat * 2 ^ (-q).toNat) ≤ 2 ^ q.toNat * 2 ^ (-e).toNat := by
    rw [← pow_add, ← pow_add, ← pow_succ']
    exact Nat.pow_le_pow_right (by decide) (by omega)
  have hpos : 0 < d * (2 ^ e.toNat * 2 ^ (-q).toNat) := by positivity
  have := calc 2 ^ 53 * (d * (2 ^ e.toNat * 2 ^ (-q).toNat))
      = 2 ^ 52 * d * (2 * (2 ^ e.toNat * 2 ^ (-q).toNat)) := by ring
    _ ≤ 2 ^ 52 * d * (2 ^ q.toNat * 2 ^ (-e).toNat) := mul_le_mul_left _ hpow
    _ = 2 ^ 52 * (d * 2 ^ q.toNat) * 2 ^ (-e).toNat := by ring
    _ ≤ num * 2 ^ (-q).toNat * 2 ^ (-e).toNat := Nat.mul_le_mul_right _ hlarge
    _ = num * 2 ^ (-e).toNat * 2 ^ (-q).toNat := by ring
    _ = m * (d * (2 ^ e.toNat * 2 ^ (-q).toNat)) := by rw [h]; ring
  exact absurd (le_of_mul_le_mul_right this hpos) (by omega)

theorem whole?_ofDyadic (negative : Bool) (hm : m < 2 ^ 53) (he : -1074 ≤ e)
    (hn : m * 2 ^ e.toNat = n * 2 ^ (-e).toNat) (hlimit : n < limit) :
    whole? (ofDyadic ⟨negative, m, e⟩) = some (if negative then -(n : Int) else n) := by
  have hden : 0 < 2 ^ (-e).toNat := by positivity
  rw [ofDyadic, ratio_eq]
  dsimp only
  rcases Nat.eq_zero_or_pos n with rfl | hpos
  · rw [hn, Nat.zero_mul, show ofRatio negative 0 _ = ofFields negative 0 0 from if_pos rfl]
    refine whole?_of_dyadic? (dyadic?_ofFields negative (by decide) (by decide)) ?_
    rw [Nat.zero_mul, Nat.zero_mul]
  · have hnum : 0 < m * 2 ^ e.toNat := hn ▸ mul_pos hpos hden
    have hnot : ¬Exceeds (m * 2 ^ e.toNat) (2 ^ (-e).toNat) := by
      rw [exceeds_iff hnum hden, hn, Nat.mul_le_mul_right_iff hden]
      exact Nat.not_le_of_lt hlimit
    have hunit := unit_le hnum hden hm he rfl
    have hlow := quotient_unit_lt (m * 2 ^ e.toNat) hden
    obtain ⟨hquotient, hrounded⟩ := rounded_eq (m := m) hden hunit rfl
    refine whole?_of_dyadic? ((dyadic?_ofRatio negative hnum hden hnot).trans
      (congrArg some (if_neg (by omega)))) ?_
    rw [hrounded, scaled_eq hunit (d := 1) (hn.symm.trans (Nat.mul_one _).symm), one_mul]

/-- Binary64 has the whole number: 53 bits, and zeros behind them. -/
def Has (n : Nat) : Prop := n < limit ∧ ∃ m k, m < 2 ^ 53 ∧ n = m * 2 ^ k

/-- Binary64 has all whole numbers up to `2 ^ 53`. -/
theorem Has.of_le (hn : n ≤ 2 ^ 53) : Has n := by
  refine ⟨?_, ?_⟩
  · have hpos : 0 < 2 ^ 970 := pow_pos (by decide) _
    unfold limit
    generalize 2 ^ 970 = u at *
    omega
  · rcases lt_or_eq_of_le hn with hlt | rfl
    · exact ⟨n, 0, hlt, (Nat.mul_one n).symm⟩
    · -- One bit more needs the next power of two.
      exact ⟨1, 53, by decide, (one_mul _).symm⟩

theorem Has.whole?_eq (negative : Bool) (h : Has n) :
    whole? (ofRatio negative n 1) = some (if negative then -(n : Int) else n) := by
  obtain ⟨hlimit, m, k, hm, hk⟩ := h
  have hn : m * 2 ^ (k : Int).toNat = n * 2 ^ (-(k : Int)).toNat := by simp [hk]
  have hwhole := whole?_ofDyadic negative hm (by omega) hn hlimit
  rwa [ofDyadic, ratio_eq, hn, show (-(k : Int)).toNat = 0 by omega, pow_zero, Nat.mul_one] at hwhole

theorem dyadic?_of_whole? {n : Int} (h : whole? x = some n) :
    ∃ negative m e, dyadic? x = some ⟨negative, m, e⟩ ∧
      n.natAbs * 2 ^ (-e).toNat = m * 2 ^ e.toNat ∧
      n = if negative then -(n.natAbs : Int) else n.natAbs := by
  rw [whole?] at h
  cases hd : dyadic? x with
  | none =>
    rw [hd] at h
    cases h
  | some d =>
    obtain ⟨negative, m, e⟩ := d
    refine ⟨negative, m, e, rfl, ?_⟩
    simp only [hd, Dyadic.numerator, ratio_eq, Option.ite_none_right_eq_some, Option.some.injEq] at h
    obtain ⟨hmod, rfl⟩ := h
    obtain ⟨k, hk⟩ := dvd_of_mod_eq_zero hmod
    rw [hk]
    cases negative
    · simp [mul_comm]
    · simp [Int.neg_tdiv, mul_comm]

theorem Has.of_whole? {n : Int} (h : whole? x = some n) : Has n.natAbs := by
  obtain ⟨_, m, e, hd, hm, -⟩ := dyadic?_of_whole? h
  have hbound := (bounds_of_dyadic? hd).1
  refine ⟨natAbs_lt_of_whole? h, ?_⟩
  rcases le_or_gt 0 e with he | he
  · rw [show (-e).toNat = 0 by omega, pow_zero, Nat.mul_one] at hm
    exact ⟨m, e.toNat, hbound, hm⟩
  · rw [show e.toNat = 0 by omega, pow_zero, Nat.mul_one] at hm
    have hle := Nat.le_mul_of_pos_right n.natAbs (Nat.two_pow_pos (-e).toNat)
    exact ⟨n.natAbs, 0, (hle.trans hm.le).trans_lt hbound, (Nat.mul_one _).symm⟩

theorem whole?_of_nonneg (h : dyadic? x = some ⟨negative, m, e⟩) (hm : 0 < m) (he : 0 ≤ e) :
    ∃ n, whole? x = some n ∧ n ≠ 0 := by
  refine ⟨_, whole?_of_dyadic? (n := m * 2 ^ e.toNat) h ?_, ?_⟩
  · rw [show (-e).toNat = 0 by omega, pow_zero, Nat.mul_one]
  · have hpos : 0 < m * 2 ^ e.toNat := by positivity
    split <;> omega

theorem exists_whole?_ofRatio (negative : Bool) (h : n < limit) :
    ∃ m, whole? (ofRatio negative n 1) = some m ∧ (n ≠ 0 → m ≠ 0) := by
  rcases Nat.lt_or_ge (2 ^ 53) n with hlt | hle
  · have hpos : 0 < n := by omega
    have hnot : ¬Exceeds n 1 := by
      rw [exceeds_iff hpos Nat.one_pos, Nat.mul_one]
      exact Nat.not_le_of_lt h
    have hd := dyadic?_ofRatio negative hpos Nat.one_pos hnot
    have hunit : 0 ≤ unit n 1 := by
      by_contra hneg
      have hlow := quotient_unit_lt n Nat.one_pos
      rw [(rounded_eq (m := n) (e := 0) Nat.one_pos (by omega) (by simp)).1] at hlow
      have := Nat.le_mul_of_pos_right n (Nat.two_pow_pos (0 - unit n 1).toNat)
      omega
    have hlarge := (le_quotient_unit hpos Nat.one_pos (by omega)).trans (le_rounded ..)
    split at hd
    · obtain ⟨m, hm, hne⟩ := whole?_of_nonneg hd (by decide) (by omega)
      exact ⟨m, hm, fun _ => hne⟩
    · obtain ⟨m, hm, hne⟩ := whole?_of_nonneg hd (by omega) hunit
      exact ⟨m, hm, fun _ => hne⟩
  · refine ⟨_, (Has.of_le hle).whole?_eq negative, ?_⟩
    split <;> omega

end Binary

namespace Scan

theorem isDigit_of_mem_toDigits {n : Nat} {c : Char} (h : c ∈ Nat.toDigits 10 n) :
    isDigit c = true :=
  Nat.isDigit_of_mem_toDigits (by decide) (by decide) h

/-- Reading the digits of a number gives the number. -/
theorem natOf_toDigits (n : Nat) : natOf (Nat.toDigits 10 n) = n := by
  have h : ofDigitChars 10 (Nat.toDigits 10 n) 0 = n :=
    ofDigitChars_toDigits (by decide) (by decide)
  rw [ofDigitChars_eq_foldl] at h
  exact h

theorem limit_le_ten_pow : limit ≤ 10 ^ 310 := by
  have hpow : 2 ^ (205 * 5) ≤ 10 ^ (62 * 5) := by
    rw [pow_mul, pow_mul]
    exact Nat.pow_le_pow_left (by norm_num) 5
  rw [show 310 = 62 * 5 from rfl]
  refine le_trans ?_ hpow
  rw [limit, show 205 * 5 = 55 + 970 from rfl, pow_add]
  exact Nat.mul_le_mul_right _ (by decide)

theorem scale_zero (negative : Bool) (n : Nat) : scale negative n 0 = ofRatio negative n 1 := by
  simp only [scale]
  by_cases h0 : n = 0
  · rw [if_pos (Or.inl h0), h0]
  rw [if_neg (by omega)]
  split
  case isTrue hlarge =>
    have hlimit : limit * 1 ≤ n := by
      rw [Nat.mul_one]
      refine limit_le_ten_pow.trans (not_lt.mp fun hlt => ?_)
      have := toDigits_length 10 n 310 (by decide) hlt
      clear hlt
      omega
    exact (Binary.ofRatio_of_limit_le negative Nat.one_pos hlimit).symm
  case isFalse hsmall => simp

/-- The digits of a whole number, with the sign in front. -/
theorem toList_toString (n : Int) :
    (toString n).toList =
      if n < 0 then '-' :: Nat.toDigits 10 n.natAbs else Nat.toDigits 10 n.natAbs := by
  cases n with
  | ofNat m =>
    rw [if_neg (by simp)]
    exact toList_repr
  | negSucc m =>
    rw [if_pos (by simp)]
    change ("-" ++ (m + 1).repr).toList = _
    rw [String.toList_append, toList_repr]
    rfl

theorem toString_inj {m n : Int} : toString m = toString n ↔ m = n := by
  refine ⟨fun h => ?_, congrArg toString⟩
  have hlist := congrArg String.toList h
  rw [toList_toString, toList_toString] at hlist
  -- A sign is no digit, so either both numbers have one or none.
  have hsign {k : Nat} : '-' ∉ Nat.toDigits 10 k := fun hmem =>
    absurd (isDigit_of_mem_toDigits hmem) (by decide)
  have hdigits {j k : Nat} (h : Nat.toDigits 10 j = Nat.toDigits 10 k) : j = k := by
    rw [← natOf_toDigits j, h, natOf_toDigits]
  split at hlist <;> split at hlist
  · have := hdigits (cons.inj hlist).2
    omega
  · exact absurd (hlist ▸ mem_cons_self) hsign
  · exact absurd (hlist ▸ mem_cons_self) hsign
  · have := hdigits hlist
    omega

/-- Digits, with a minus before them or without one. -/
def signed (negative : Bool) (ds : List Char) : List Char := if negative then '-' :: ds else ds

theorem splitSign_signed {ds : List Char} (negative : Bool) (hds : ∀ d ∈ ds, isDigit d = true) :
    splitSign (signed negative ds) = (negative, ds) := by
  cases negative with
  | true => rfl
  | false =>
    -- No digit is a sign.
    change splitSign ds = _
    unfold splitSign
    split
    · exact absurd (hds '-' (by simp)) (by decide)
    · exact absurd (hds '+' (by simp)) (by decide)
    · rfl

theorem numberOf_signed {ds : List Char} (negative : Bool) (hds : ∀ d ∈ ds, isDigit d = true) :
    numberOf (signed negative ds) = Number.normal (.float (ofRatio negative (natOf ds) 1)) := by
  unfold numberOf
  simp only [splitSign_signed negative hds, takeWhile_eq_self_iff.mpr hds,
    dropWhile_eq_nil_iff.mpr hds, drop_nil, append_nil, length_nil,
    cast_zero, neg_zero, scale_zero]

theorem numberOf_signed_of_has {ds : List Char} (negative : Bool)
    (hds : ∀ d ∈ ds, isDigit d = true) (h : Has (natOf ds)) :
    numberOf (signed negative ds) =
      .int (if negative then -(natOf ds : Int) else natOf ds) := by
  rw [numberOf_signed negative hds, Number.normal, h.whole?_eq negative]

end Scan
end Parlance
