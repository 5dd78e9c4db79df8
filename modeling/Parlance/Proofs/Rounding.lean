import Mathlib
import Parlance.Number.Binary

/-!
# The Range of Binary64

The significand of a rounded fraction has 53 bits. `Binary.unit` is the power of two of its last
bit, and the fraction over that power lies between `2 ^ 52` and `2 ^ 53`, or the power is the least
of the format. So the fraction leaves the format if the power does, or if it is the greatest one and
the quotient is rounded up to `2 ^ 53`: from `Binary.limit` on, half a step above the largest finite
number.

The whole library is imported for `Float.ofBits_toBits`, which no smaller part of it brings in.

## Main definitions

* `Binary.limit`: The least magnitude that is rounded to an infinity, `2 ^ 1024 - 2 ^ 970`: half a
  step above the largest finite number.
* `Binary.unit`: The power of two of the last digit of a fraction rounded to binary64.
* `Binary.rounded`: A fraction over a power of two, rounded to the nearest whole number, a tie to
  the even one.
* `Binary.Exceeds`: The rounded fraction has an exponent beyond the format.
* `Binary.Fits`: The value is finite, and its exponent is at most that of the largest finite
  number.

## Theorems

* `Binary.isFinite_eq`: A number is finite if it is neither undefined nor infinite.
* `Binary.isNaN_ofRatio`: A quotient that is rounded is never undefined.
* `Binary.bounds_of_dyadic?`: The significand and the exponent of a finite number are within those
  of the format.
* `Binary.natAbs_lt_of_whole?`: A whole number in binary64 is below the limit.
-/

namespace Parlance.Binary
open Float.Model (UnpackedFloat Format)
open Float.Model.UnpackedFloat
variable {x : Float} {den m : Nat} {s : Sign} {e : Int}
variable {biased fraction k : Nat} {d : Dyadic} (negative : Bool) (b : UInt64)

/-- A number is finite if it is neither undefined nor infinite. -/
theorem isFinite_eq (x : Float) : x.isFinite = !(x.isNaN || x.isInf) := by
  rw [Float.isFinite, Float.isNaN, Float.isInf, Float.Model.isFinite, Float.Model.isNaN,
    Float.Model.isInf]
  cases x.toModel.unpack <;> rfl

theorem isInf_of_isFinite (h : x.isFinite = true) : x.isInf = false := by
  rw [isFinite_eq, Bool.not_eq_true', Bool.or_eq_false_iff] at h
  exact h.2

/-! ### Fields -/

theorem toBits_ofBits {b : UInt64} (h : b.toNat / 2 ^ 52 % 2 ^ 11 ≠ 2047) :
    (Float.ofBits b).toBits = b := by
  have hvalid : Float.Model.Format.binary64.Valid b.toBitVec := by
    refine ⟨fun hexp _ => absurd ?_ h⟩
    have hnat := congrArg BitVec.toNat hexp
    simp [Float.Model.UnpackedFloat.unpackExponent, Nat.shiftRight_eq_div_pow,
      Float.Model.Format.binary64] at hnat
    simpa using hnat
  exact congrArg Float.toBits (Float.ofBits_toBits ⟨⟨b, hvalid⟩⟩)

theorem dyadic?_ofFields (hb : biased < 2047) (hf : fraction < 2 ^ 52) :
    dyadic? (ofFields negative biased fraction) =
      if biased = 0 then some ⟨negative, fraction, -1074⟩
      else some ⟨negative, fraction + 2 ^ 52, (biased : Int) - 1075⟩ := by
  set sign := if negative then 2 ^ 63 else 0 with hsign
  have hsum : sign + biased * 2 ^ 52 + fraction < 2 ^ 64 := by
    rw [hsign]
    split <;> omega
  set b : UInt64 := UInt64.ofNat (sign + biased * 2 ^ 52 + fraction) with hb'
  have hnat : b.toNat = sign + biased * 2 ^ 52 + fraction := by
    rw [hb', UInt64.toNat_ofNat_of_lt' hsum]
  -- The fields do not overlap, so each one is read back from its bits.
  have hbiased : b.toNat / 2 ^ 52 % 2 ^ 11 = biased := by
    rw [hnat, hsign]
    split <;> omega
  have hfraction : b.toNat % 2 ^ 52 = fraction := by
    rw [hnat, hsign]
    split <;> omega
  have hneg : (b.toNat / 2 ^ 63 == 1) = negative := by
    rw [hnat, hsign]
    cases negative
    · simp; omega
    · simp; omega
  have hbits : (ofFields negative biased fraction).toBits = b := by
    have h : (Float.ofBits b).toBits = b := toBits_ofBits (by omega)
    exact h
  simp only [dyadic?, hbits, Nat.pow_eq, hbiased, hfraction, hneg]
  rw [if_neg (by omega)]

/-! The fields in the model of binary64. -/

theorem toNat_unpackExponent :
    (@unpackExponent Format.binary64 b.toBitVec).toNat = b.toNat / 2 ^ 52 % 2 ^ 11 := by
  simp [unpackExponent, Nat.shiftRight_eq_div_pow, Format.binary64]

theorem toNat_unpackMantissa :
    (@unpackMantissa Format.binary64 b.toBitVec).toNat = b.toNat % 2 ^ 52 := by
  simp [unpackMantissa, Format.binary64]

theorem ofBitVec_unpackSign :
    Sign.ofBitVec (@unpackSign Format.binary64 b.toBitVec) =
      if b.toNat / 2 ^ 63 == 1 then .negative else .positive := by
  have hlt := b.toNat_lt
  have hsign : (@unpackSign Format.binary64 b.toBitVec).toNat = b.toNat / 2 ^ 63 := by
    simp [unpackSign, Nat.shiftRight_eq_div_pow, Format.binary64]
    omega
  simp only [Sign.ofBitVec, ← BitVec.toNat_inj, hsign]
  by_cases h : b.toNat / 2 ^ 63 = 1
  · rw [h]
    rfl
  · rw [show b.toNat / 2 ^ 63 = 0 by omega]
    rfl

theorem unpackExponent_eq_neg_one :
    @unpackExponent Format.binary64 b.toBitVec = -1#11 ↔ b.toNat / 2 ^ 52 % 2 ^ 11 = 2047 := by
  rw [← toNat_unpackExponent, ← BitVec.toNat_inj]
  rfl

theorem isFinite_unpack {b : BitVec 64} (h : @unpackExponent Format.binary64 b ≠ -1#11) :
    (UnpackedFloat.unpack Format.binary64 b).isFinite = true := by
  unfold UnpackedFloat.unpack
  dsimp only
  rw [if_neg h]
  split
  · split <;> rfl
  · rfl

theorem isSome_dyadic? (x : Float) : (dyadic? x).isSome = x.isFinite := by
  have hexp := unpackExponent_eq_neg_one x.toBits
  simp only [dyadic?, Nat.pow_eq]
  by_cases h : x.toBits.toNat / 2 ^ 52 % 2 ^ 11 = 2047
  · rw [if_pos h]
    change _ = (UnpackedFloat.unpack Format.binary64 x.toBits.toBitVec).isFinite
    simp only [UnpackedFloat.unpack]
    rw [if_pos (hexp.mpr h)]
    split <;> rfl
  · rw [if_neg h, show x.isFinite = true from isFinite_unpack (mt hexp.mp h)]
    split <;> rfl

theorem isFinite_ofFields (hb : biased < 2047)
    (hf : fraction < 2 ^ 52) : (ofFields negative biased fraction).isFinite = true := by
  rw [← isSome_dyadic?, dyadic?_ofFields negative hb hf]
  split <;> rfl

/-! ### Fractions over powers of two -/

def quotient (num den : Nat) (q : Int) : Nat := num * 2 ^ (-q).toNat / (den * 2 ^ q.toNat)

section Quotient
variable {num den : Nat} {q : Int} {j : Nat}

theorem quotient_lt (hden : 0 < den) (h : (num.log2 : Int) - den.log2 + 1 ≤ q + j) :
    quotient num den q < 2 ^ j := by
  have hpos : 0 < den * 2 ^ q.toNat := by positivity
  rw [quotient, Nat.div_lt_iff_lt_mul hpos]
  calc num * 2 ^ (-q).toNat < 2 ^ (num.log2 + 1) * 2 ^ (-q).toNat :=
        Nat.mul_lt_mul_of_pos_right Nat.lt_log2_self (by positivity)
    _ = 2 ^ (num.log2 + 1 + (-q).toNat) := (Nat.pow_add ..).symm
    _ ≤ 2 ^ (den.log2 + (j + q.toNat)) := Nat.pow_le_pow_right (by decide) (by omega)
    _ = 2 ^ den.log2 * 2 ^ (j + q.toNat) := Nat.pow_add ..
    _ ≤ den * 2 ^ (j + q.toNat) := Nat.mul_le_mul_right _ (Nat.log2_self_le (by omega))
    _ = 2 ^ j * (den * 2 ^ q.toNat) := by rw [Nat.pow_add, Nat.mul_left_comm]

theorem le_quotient (hnum : 0 < num) (hden : 0 < den)
    (h : q + j + 1 ≤ (num.log2 : Int) - den.log2) : 2 ^ j ≤ quotient num den q := by
  have hpos : 0 < den * 2 ^ q.toNat := by positivity
  rw [quotient, Nat.le_div_iff_mul_le hpos]
  calc 2 ^ j * (den * 2 ^ q.toNat) = den * 2 ^ (j + q.toNat) := by
        rw [Nat.pow_add, Nat.mul_left_comm]
    _ ≤ 2 ^ (den.log2 + 1) * 2 ^ (j + q.toNat) :=
        Nat.mul_le_mul_right _ Nat.lt_log2_self.le
    _ = 2 ^ (den.log2 + 1 + (j + q.toNat)) := (Nat.pow_add ..).symm
    _ ≤ 2 ^ (num.log2 + (-q).toNat) := Nat.pow_le_pow_right (by decide) (by omega)
    _ = 2 ^ num.log2 * 2 ^ (-q).toNat := Nat.pow_add ..
    _ ≤ num * 2 ^ (-q).toNat := Nat.mul_le_mul_right _ (Nat.log2_self_le (by omega))

theorem quotient_sub_one_lt (hden : 0 < den) (h : quotient num den q < 2 ^ j) :
    quotient num den (q - 1) < 2 ^ (j + 1) := by
  have hpos : 0 < den * 2 ^ q.toNat := by positivity
  have hpos' : 0 < den * 2 ^ (q - 1).toNat := by positivity
  rw [quotient, Nat.div_lt_iff_lt_mul hpos] at h
  rw [quotient, Nat.div_lt_iff_lt_mul hpos', Nat.pow_succ]
  by_cases hq : 0 < q
  · have hup : (-(q - 1)).toNat = (-q).toNat := by omega
    have hdown : q.toNat = (q - 1).toNat + 1 := by omega
    rw [hdown, Nat.pow_succ] at h
    rw [hup]
    calc num * 2 ^ (-q).toNat < 2 ^ j * (den * (2 ^ (q - 1).toNat * 2)) := h
      _ = 2 ^ j * 2 * (den * 2 ^ (q - 1).toNat) := by ring
  · have hup : (-(q - 1)).toNat = (-q).toNat + 1 := by omega
    have hdown : (q - 1).toNat = q.toNat := by omega
    rw [hup, hdown, Nat.pow_succ]
    calc num * (2 ^ (-q).toNat * 2) = num * 2 ^ (-q).toNat * 2 := by ring
      _ < 2 ^ j * (den * 2 ^ q.toNat) * 2 := by omega
      _ = 2 ^ j * 2 * (den * 2 ^ q.toNat) := by ring

end Quotient

/-- The least magnitude that is rounded to an infinity, `2 ^ 1024 - 2 ^ 970`: half a step
    above the largest finite number. -/
def limit : Nat := (2 ^ 54 - 1) * 2 ^ 970

theorem limit_pos : 0 < limit := Nat.mul_pos (by decide) (pow_pos (by decide) _)

/-- The power of two of the last digit of a fraction rounded to binary64. -/
def unit (num den : Nat) : Int :=
  let guess : Int := (num.log2 : Int) - den.log2 - 52
  max (-1074) (if quotient num den guess < 2 ^ 52 then guess - 1 else guess)

theorem quotient_unit_lt (num : Nat) (hden : 0 < den) :
    quotient num den (unit num den) < 2 ^ 53 := by
  unfold unit
  extract_lets guess
  by_cases hsmall : quotient num den guess < 2 ^ 52
  · rw [if_pos hsmall]
    rcases le_or_gt (-1074) (guess - 1) with hle | hlt
    · rw [max_eq_right hle]
      exact quotient_sub_one_lt hden hsmall
    · rw [max_eq_left hlt.le]
      exact quotient_lt hden (by omega)
  · rw [if_neg hsmall]
    exact quotient_lt hden (by omega)

theorem le_quotient_unit {num : Nat} (hnum : 0 < num) (hden : 0 < den)
    (hunit : -1074 < unit num den) : 2 ^ 52 ≤ quotient num den (unit num den) := by
  revert hunit
  unfold unit
  extract_lets guess
  intro hunit
  by_cases hsmall : quotient num den guess < 2 ^ 52
  · rw [if_pos hsmall] at hunit ⊢
    rw [max_eq_right (by omega)]
    exact le_quotient hnum hden (by omega)
  · rw [if_neg hsmall] at hunit ⊢
    rw [max_eq_right (by omega)]
    exact Nat.le_of_not_lt hsmall

/-- A fraction over a power of two, rounded to the nearest whole number, a tie to the even one. -/
def rounded (num den : Nat) (q : Int) : Nat :=
  let low := quotient num den q
  let twice := 2 * (num * 2 ^ (-q).toNat % (den * 2 ^ q.toNat))
  let d := den * 2 ^ q.toNat
  if twice > d || (twice == d && low % 2 == 1) then low + 1 else low

theorem ofRatio_eq {num : Nat} (hnum : num ≠ 0) :
    ofRatio negative num den = let m := rounded num den (unit num den)
      let (m, q) := if m = 2 ^ 53 then (2 ^ 52, unit num den + 1) else (m, unit num den)
      if q > 971 then infinity negative
      else if m < 2 ^ 52 then ofFields negative 0 m
      else ofFields negative (q + 1075).toNat (m - 2 ^ 52) := by
  have hscaled : ∀ q : Int, (if 0 ≤ q then (num, den * Nat.pow 2 q.toNat)
      else (num * Nat.pow 2 (-q).toNat, den)) = (num * 2 ^ (-q).toNat, den * 2 ^ q.toNat) := by
    intro q
    by_cases hq : 0 ≤ q
    · rw [if_pos hq, show (-q).toNat = 0 by omega, Nat.pow_zero, Nat.mul_one]
      rfl
    · rw [if_neg hq, show q.toNat = 0 by omega, Nat.pow_zero, Nat.mul_one]
      rfl
  unfold ofRatio
  rw [if_neg hnum]
  simp only [hscaled]
  rfl

section Limit
variable {num den : Nat}

theorem rounded_le (num den : Nat) (q : Int) : rounded num den q ≤ quotient num den q + 1 := by
  unfold rounded
  dsimp only
  split <;> omega

theorem le_rounded (num den : Nat) (q : Int) : quotient num den q ≤ rounded num den q := by
  unfold rounded
  dsimp only
  split <;> omega

/-- The rounded fraction has an exponent beyond the format. -/
def Exceeds (num den : Nat) : Prop :=
  971 < unit num den ∨ unit num den = 971 ∧ rounded num den (unit num den) = 2 ^ 53

theorem ofRatio_of_exceeds (hnum : num ≠ 0) (h : Exceeds num den) :
    ofRatio negative num den = infinity negative := by
  rw [ofRatio_eq negative hnum]
  rcases h with hlt | ⟨heq, hround⟩
  · by_cases hround : rounded num den (unit num den) = 2 ^ 53
    · simp only [if_pos hround]
      exact if_pos (by omega)
    · simp only [if_neg hround]
      exact if_pos (by omega)
  · simp only [hround, if_true]
    exact if_pos (by omega)

theorem dyadic?_ofRatio (hnum : 0 < num) (hden : 0 < den) (h : ¬Exceeds num den) :
    dyadic? (ofRatio negative num den) = some
      (if rounded num den (unit num den) = 2 ^ 53 then ⟨negative, 2 ^ 52, unit num den + 1⟩
      else ⟨negative, rounded num den (unit num den), unit num den⟩) := by
  have hlow := quotient_unit_lt num hden
  have hrounded := rounded_le num den (unit num den)
  have hleast : -1074 ≤ unit num den := le_max_left _ _
  have hsmall : rounded num den (unit num den) < 2 ^ 52 → unit num den = -1074 := by
    intro hlt
    by_contra hne
    have := le_quotient_unit hnum hden (by omega)
    have := le_rounded num den (unit num den)
    omega
  obtain ⟨hle, hlast⟩ := not_or.mp h
  rw [ofRatio_eq negative hnum.ne']
  generalize unit num den = q at *
  generalize rounded num den q = m at *
  by_cases hm : m = 2 ^ 53
  · have hne : q ≠ 971 := fun heq => hlast ⟨heq, hm⟩
    simp only [if_pos hm]
    rw [if_neg (by omega), if_neg (by decide), dyadic?_ofFields negative (by omega) (by decide),
      if_neg (by omega)]
    congr 2
    omega
  · simp only [if_neg hm]
    rw [if_neg (by omega)]
    by_cases hlt : m < 2 ^ 52
    · rw [if_pos hlt, dyadic?_ofFields negative (by decide) hlt, if_pos rfl, hsmall hlt]
    · rw [if_neg hlt, dyadic?_ofFields negative (by omega) (by omega), if_neg (by omega),
        Nat.sub_add_cancel (by omega)]
      congr 2
      omega

theorem quotient_natCast (num den k : Nat) : quotient num den k = num / (den * 2 ^ k) := by
  rw [quotient, show (-(k : Int)).toNat = 0 by omega, Int.toNat_natCast, Nat.pow_zero, Nat.mul_one]

theorem limit_le_of_lt_unit (hnum : 0 < num) (hden : 0 < den) (h : 971 < unit num den) :
    limit * den ≤ num := by
  obtain ⟨k, hk⟩ : ∃ k : Nat, unit num den = (970 + (2 + k) : Nat) :=
    ⟨(unit num den).toNat - 972, by omega⟩
  have hquotient := le_quotient_unit hnum hden (by omega)
  rw [hk, quotient_natCast, Nat.le_div_iff_mul_le (by positivity), pow_add 2 970, pow_add 2 2]
    at hquotient
  unfold limit
  generalize 2 ^ 970 = u at *
  have hpow : 1 ≤ 2 ^ k := Nat.one_le_two_pow
  calc (2 ^ 54 - 1) * u * den ≤ 2 ^ 54 * u * den * 1 := by
        rw [Nat.mul_one]
        gcongr
        decide
    _ ≤ 2 ^ 54 * u * den * 2 ^ k := Nat.mul_le_mul_left _ hpow
    _ = 2 ^ 52 * (den * (u * (2 ^ 2 * 2 ^ k))) := by ring
    _ ≤ num := hquotient

theorem limit_le_iff (num den : Nat) :
    limit * den ≤ num ↔ (2 ^ 54 - 1) * (den * 2 ^ (970 + 1)) ≤ 2 * num := by
  rw [pow_succ 2 970, limit]
  generalize 2 ^ 970 = u
  rw [show (2 ^ 54 - 1) * (den * (u * 2)) = 2 * ((2 ^ 54 - 1) * u * den) by ring]
  omega

theorem rounded_eq_iff (hden : 0 < den) (hlow : quotient num den k < 2 ^ 53) :
    rounded num den k = 2 ^ 53 ↔ (2 ^ 54 - 1) * (den * 2 ^ k) ≤ 2 * num := by
  have hdiv := Nat.div_add_mod num (den * 2 ^ k)
  have hmod := Nat.mod_lt num (show 0 < den * 2 ^ k by positivity)
  have hone : num * 2 ^ (-(k : Int)).toNat = num := by
    rw [show (-(k : Int)).toNat = 0 by omega, Nat.pow_zero, Nat.mul_one]
  rw [quotient_natCast] at hlow
  simp only [rounded, quotient_natCast, hone, Int.toNat_natCast, gt_iff_lt, Bool.or_eq_true,
    decide_eq_true_eq, Bool.and_eq_true, beq_iff_eq]
  generalize den * 2 ^ k = d at *
  generalize num % d = r at *
  generalize num / d = low at *
  constructor
  · intro hround
    have hlast : low = 2 ^ 53 - 1 := by
      split at hround <;> omega
    subst hlast
    split at hround <;> omega
  · intro hle
    -- Below the last significand there is no room for the limit.
    have hlast : low = 2 ^ 53 - 1 := by
      by_contra hne
      have := Nat.mul_le_mul_left d (show low ≤ 2 ^ 53 - 2 by omega)
      omega
    subst hlast
    rw [if_pos (by omega), Nat.sub_add_cancel (by decide)]

theorem le_unit_of_limit_le (hnum : 0 < num) (hden : 0 < den) (h : limit * den ≤ num) :
    971 ≤ unit num den := by
  have hpow : 2 ^ 53 * (den * 2 ^ 970) ≤ num := by
    refine le_trans ?_ h
    rw [limit]
    generalize 2 ^ 970 = u
    calc 2 ^ 53 * (den * u) = 2 ^ 53 * u * den := by ring
      _ ≤ (2 ^ 54 - 1) * u * den := by
        gcongr
        decide
  have hlog : den.log2 + 1023 ≤ num.log2 := by
    rw [Nat.le_log2 hnum.ne', show den.log2 + 1023 = 53 + (den.log2 + 970) by omega, pow_add 2 53,
      pow_add 2 _ 970]
    exact (Nat.mul_le_mul_left _ (Nat.mul_le_mul_right _ (Nat.log2_self_le hden.ne'))).trans hpow
  have hlarge : ¬quotient num den (970 + 1 : Nat) < 2 ^ 52 := by
    rw [quotient_natCast, Nat.not_lt, Nat.le_div_iff_mul_le (by positivity), pow_succ 2 970]
    generalize 2 ^ 970 = u at *
    calc 2 ^ 52 * (den * (u * 2)) = 2 ^ 53 * (den * u) := by ring
      _ ≤ num := hpow
  clear h hpow
  unfold unit
  extract_lets guess
  by_cases hguess : guess = (970 + 1 : Nat)
  · rw [hguess, if_neg hlarge]
    omega
  · split <;> omega

theorem exceeds_iff (hnum : 0 < num) (hden : 0 < den) : Exceeds num den ↔ limit * den ≤ num := by
  have hlow := quotient_unit_lt num hden
  have hround : unit num den = 971 →
      (rounded num den (unit num den) = 2 ^ 53 ↔ limit * den ≤ num) := by
    intro heq
    rw [show unit num den = (970 + 1 : Nat) from heq] at hlow ⊢
    rw [limit_le_iff]
    exact rounded_eq_iff hden hlow
  constructor
  · rintro (hlt | ⟨heq, hlast⟩)
    · exact limit_le_of_lt_unit hnum hden hlt
    · exact (hround heq).mp hlast
  · intro hle
    rcases Int.lt_or_eq_of_le (le_unit_of_limit_le hnum hden hle) with hlt | heq
    · exact .inl hlt
    · exact .inr ⟨heq.symm, (hround heq.symm).mpr hle⟩

theorem isFinite_ofRatio (hden : 0 < den) (h : num < limit * den) :
    (ofRatio negative num den).isFinite = true := by
  rcases Nat.eq_zero_or_pos num with rfl | hnum
  · rw [show ofRatio negative 0 den = ofFields negative 0 0 from if_pos rfl]
    exact isFinite_ofFields negative (by decide) (by decide)
  · rw [← isSome_dyadic?, dyadic?_ofRatio negative hnum hden
      (mt (exceeds_iff hnum hden).mp (Nat.not_le_of_lt h))]
    rfl

theorem ofRatio_of_limit_le (hden : 0 < den) (h : limit * den ≤ num) :
    ofRatio negative num den = infinity negative := by
  have hnum : 0 < num := Nat.lt_of_lt_of_le (Nat.mul_pos limit_pos hden) h
  exact ofRatio_of_exceeds negative hnum.ne' ((exceeds_iff hnum hden).mpr h)

theorem isInf_infinity : (infinity negative).isInf = true := by
  cases negative <;> decide

theorem isInf_ofRatio (hden : 0 < den) :
    (ofRatio negative num den).isInf = true ↔ limit * den ≤ num := by
  rcases Nat.lt_or_ge num (limit * den) with hlt | hle
  · rw [isInf_of_isFinite (isFinite_ofRatio negative hden hlt)]
    exact iff_of_false (by decide) (Nat.not_le_of_lt hlt)
  · rw [ofRatio_of_limit_le negative hden hle]
    exact iff_of_true (isInf_infinity negative) hle

theorem isInf_ofInt (n : Int) : (ofInt n).isInf = true ↔ limit ≤ n.natAbs := by
  rw [ofInt, isInf_ofRatio _ Nat.one_pos, Nat.mul_one]

/-- A quotient that is rounded is never undefined. -/
theorem isNaN_ofRatio (hden : 0 < den) : (ofRatio negative num den).isNaN = false := by
  rcases Nat.lt_or_ge num (limit * den) with hlt | hle
  · have hfinite := isFinite_ofRatio negative hden hlt
    rw [isFinite_eq, Bool.not_eq_true', Bool.or_eq_false_iff] at hfinite
    exact hfinite.1
  · rw [ofRatio_of_limit_le negative hden hle]
    cases negative <;> decide

end Limit

/-! ### Rounding to nearest -/

theorem mantissa_shiftRight (em : ExtendedMantissa) (n : Nat) :
    (em >>> n).mantissa = em.mantissa / 2 ^ n := by
  induction n with
  | zero => exact (Nat.div_one _).symm
  | succ n ih =>
    change (em >>> n).mantissa / 2 = _
    rw [ih, Nat.div_div_eq_div_mul, pow_succ]

theorem roundedMantissa_shiftRight_le (em : ExtendedMantissa) (n : Nat) :
    (em >>> (n + 1)).roundedMantissa ≤ (em.mantissa + 2 ^ n) / 2 ^ (n + 1) := by
  have hlow := mantissa_shiftRight em n
  have hbit : (em >>> (n + 1)) = (em >>> n).shiftRightOne := rfl
  have hsum : (em.mantissa + 2 ^ n) / 2 ^ (n + 1) = (em.mantissa / 2 ^ n + 1) / 2 := by
    rw [pow_succ, ← Nat.div_div_eq_div_mul, Nat.add_div_right _ (Nat.two_pow_pos n)]
  rw [hsum, ← hlow, hbit]
  generalize em >>> n = em'
  unfold ExtendedMantissa.roundedMantissa ExtendedMantissa.shiftRightOne ExtendedMantissa.accuracy
    Accuracy.roundToNearestEven
  dsimp only
  by_cases hodd : em'.mantissa % 2 = 0
  · rw [show (em'.mantissa % 2 != 0) = false from bne_eq_false_iff_eq.mpr hodd]
    cases em'.roundBit || em'.stickyBit <;> dsimp only <;> omega
  · rw [show (em'.mantissa % 2 != 0) = true from bne_iff_ne.mpr hodd]
    cases em'.roundBit || em'.stickyBit <;> dsimp only <;> omega

theorem roundedMantissa_le (em : ExtendedMantissa) : em.roundedMantissa ≤ em.mantissa + 1 := by
  unfold ExtendedMantissa.roundedMantissa Accuracy.roundToNearestEven
  split <;> omega

/-- The value is finite, and its exponent is at most that of the largest finite number. -/
def Fits : UnpackedFloat → Prop
  | .zero _ => True
  | .finite _ _ e _ => e ≤ 971
  | _ => False

theorem isFinite_pack {u : UnpackedFloat} (h : Fits u) :
    (Float.ofModel (Float.Model.pack u)).isFinite = true := by
  refine isFinite_unpack (b := UnpackedFloat.pack Format.binary64 u) ?_
  cases u with
  | infinity | notANumber => exact h.elim
  | zero s =>
    change unpackExponent (packComponents Format.binary64 s _ _) ≠ _
    rw [unpackExponent_packComponents]
    decide
  | finite s m e hm =>
    have hle : e ≤ 971 := h
    have hbias : ((Format.binary64.exponentBias : Nat) : Int) = 1023 := rfl
    unfold UnpackedFloat.pack
    dsimp only
    rw [if_neg (by rw [hbias]; change ¬2 ^ 11 ≤ (e + 1023 + 52).toNat + 1; omega)]
    split
    · rw [unpackExponent_packComponents, hbias]
      change BitVec.ofNat 11 (e + 1023 + 52).toNat ≠ _
      intro hones
      have hnat := congrArg BitVec.toNat hones
      rw [BitVec.toNat_ofNat, Nat.mod_eq_of_lt (by omega)] at hnat
      change (e + 1023 + 52).toNat = 2047 at hnat
      omega
    · rw [unpackExponent_packComponents]
      change (0#11) ≠ -1#11
      decide

theorem targetExponent_eq (t : Int) : Format.binary64.targetExponent t = max (t - 53) (-1074) := rfl

theorem fits_roundWithAccuracy {s : Sign} {m : Nat} {e t : Int}
    (ht : Format.binary64.targetExponent (Float.Model.totalExponent m e) = t) (hle : e ≤ t)
    (h : t ≤ 970 ∧ (ExtendedMantissa.mk m false false >>> (t - e).toNat).roundedMantissa < 2 ^ 54 ∨
      t ≤ 971 ∧ (ExtendedMantissa.mk m false false >>> (t - e).toNat).roundedMantissa < 2 ^ 53) :
    Fits (roundWithAccuracy Format.binary64 s m e .exact) := by
  unfold roundWithAccuracy shiftToTargetExponent shiftToExponent
  dsimp only [ExtendedMantissa.ofMantissaAndAccuracy]
  rw [ht, targetExponent_eq]
  split
  · trivial
  · have hlog : ∀ k, (ExtendedMantissa.mk m false false >>> (t - e).toNat).roundedMantissa < 2 ^ (k + 1) →
        Nat.log2 (ExtendedMantissa.mk m false false >>> (t - e).toNat).roundedMantissa ≤ k := by
      intro k hk
      rcases Nat.eq_zero_or_pos (ExtendedMantissa.mk m false false >>> (t - e).toNat).roundedMantissa with h0 | hpos
      · rw [h0]
        exact Nat.zero_le _
      · exact Nat.lt_succ_iff.mp ((Nat.log2_lt hpos.ne').mpr hk)
    change _ ≤ (971 : Int)
    unfold Float.Model.totalExponent
    rcases h with ⟨ht', hm⟩ | ⟨ht', hm⟩
    · have := hlog 53 hm
      omega
    · have := hlog 52 hm
      omega

theorem log2_shiftLeft (hm : m ≠ 0) (n : Nat) : (m <<< n).log2 = m.log2 + n := by
  induction n with
  | zero => rfl
  | succ n ih =>
    have hne : m <<< n ≠ 0 := by
      rw [Nat.shiftLeft_eq]
      positivity
    rw [Nat.shiftLeft_succ, Nat.log2_two_mul hne, ih]
    rfl

theorem totalExponent_shiftLeft (hm : m ≠ 0) (e : Int) (n : Nat) :
    Float.Model.totalExponent (m <<< n) (e - n) = Float.Model.totalExponent m e := by
  unfold Float.Model.totalExponent
  rw [log2_shiftLeft hm]
  omega

theorem fits_round {s : Sign} {m : Nat} {e : Int} (hk : (k : Int) = 970 - e)
    (hm : m ≠ 0) (h : m < (2 ^ 54 - 1) * 2 ^ k) :
    Fits (UnpackedFloat.round Format.binary64 s m e) := by
  have hlog : m.log2 < 54 + k := by
    rw [Nat.log2_lt hm, pow_add]
    exact h.trans_le (Nat.mul_le_mul_right _ (by decide))
  obtain ⟨t, ht⟩ : ∃ t, Format.binary64.targetExponent (Float.Model.totalExponent m e) = t :=
    ⟨_, rfl⟩
  have htotal : t = max ((m.log2 : Int) + 1 + e - 53) (-1074) := by
    rw [← ht]
    rfl
  unfold UnpackedFloat.round decreaseExponent
  dsimp only
  rw [ht]
  refine fits_roundWithAccuracy (t := t) ?_ (by omega) ?_
  · rw [totalExponent_shiftLeft hm, ht]
  rcases Int.lt_or_eq_of_le (show t ≤ 971 by omega) with hlt | heq
  · refine .inl ⟨by omega, Nat.lt_of_le_of_lt (roundedMantissa_le _) ?_⟩
    rw [mantissa_shiftRight]
    have hwidth : m <<< (e - t).toNat / 2 ^ (t - (e - (e - t).toNat)).toNat < 2 ^ 53 := by
      rw [Nat.div_lt_iff_lt_mul (by positivity), ← pow_add, ← Nat.log2_lt (by
        rw [Nat.shiftLeft_eq]
        positivity), log2_shiftLeft hm]
      omega
    dsimp only
    omega
  · refine .inr ⟨by omega, ?_⟩
    have hshift : (e - t).toNat = 0 := by omega
    rw [hshift, show (t - (e - (0 : Nat))).toNat = k + 1 by omega]
    refine Nat.lt_of_le_of_lt (roundedMantissa_shiftRight_le _ k) ?_
    change (m <<< 0 + 2 ^ k) / 2 ^ (k + 1) < 2 ^ 53
    rw [Nat.shiftLeft_zero, Nat.div_lt_iff_lt_mul (by positivity), pow_succ]
    omega

/-- The significand and the exponent of a finite number are within those of the format. -/
theorem bounds_of_dyadic? (h : dyadic? x = some d) :
    d.significand < 2 ^ 53 ∧ -1074 ≤ d.exponent ∧ d.exponent ≤ 971 := by
  simp only [dyadic?, Nat.pow_eq] at h
  split at h
  · cases h
  · split at h <;> cases h <;> simp only <;> omega

theorem unpack_of_dyadic? (h : dyadic? x = some d) :
    x.toModel.unpack = if hm : 0 < d.significand then
        .finite (if d.negative then .negative else .positive) d.significand d.exponent hm
      else .zero (if d.negative then .negative else .positive) := by
  have hexponent := toNat_unpackExponent x.toBits
  have hmantissa := toNat_unpackMantissa x.toBits
  have hbias : ((Format.binary64.exponentBias : Nat) : Int) = 1023 := rfl
  simp only [dyadic?, Nat.pow_eq] at h
  change UnpackedFloat.unpack Format.binary64 x.toBits.toBitVec = _
  unfold UnpackedFloat.unpack
  dsimp only
  simp only [ofBitVec_unpackSign, ← BitVec.toNat_inj, hexponent, hmantissa, hbias]
  split at h
  · cases h
  rename_i hones
  rw [if_neg (by exact hones)]
  split at h
  · rename_i hzero
    cases h
    rw [if_pos (by exact hzero), hzero]
    by_cases hfraction : x.toBits.toNat % 2 ^ 52 = 0
    · rw [dif_pos (by exact hfraction), dif_neg (by simp only; omega)]
    · rw [dif_neg (by exact hfraction), dif_pos (by simp only; omega)]
      rfl
  · rename_i hzero
    cases h
    have happend : (1#1 ++ @unpackMantissa Format.binary64 x.toBits.toBitVec).toNat =
        x.toBits.toNat % 2 ^ 52 + 2 ^ 52 := by
      rw [← hmantissa, BitVec.toNat_append, ← Nat.shiftLeft_add_eq_or_of_lt (BitVec.isLt _)]
      exact Nat.add_comm _ _
    rw [if_neg (by exact hzero), dif_pos (by simp only; omega)]
    simp only [UnpackedFloat.finite.injEq]
    refine ⟨trivial, happend, ?_⟩
    change _ - ((1023 : Int) + 52) = _
    omega

theorem fits_normalize {z : Int} (hk : (k : Int) = 970 - e) (h : z.natAbs < (2 ^ 54 - 1) * 2 ^ k) :
    Fits (UnpackedFloat.normalize Format.binary64 z e .positive) := by
  unfold UnpackedFloat.normalize
  cases hcompare : compare z 0 with
  | lt =>
    have hneg := Int.compare_eq_lt.mp hcompare
    exact fits_round hk (by omega) (by omega)
  | eq => trivial
  | gt =>
    have hpos := Int.compare_eq_gt.mp hcompare
    exact fits_round hk (by omega) (by omega)

theorem unpack_half : (0.5 : Float).toModel.unpack = .finite .positive (2 ^ 52) (-53) (by decide) :=
  rfl

theorem isFinite_add_half (hx : x.isFinite = true) : (x + 0.5).isFinite = true := by
  rw [← isSome_dyadic?] at hx
  obtain ⟨⟨negative, m, e⟩, hd⟩ := Option.isSome_iff_exists.mp hx
  obtain ⟨hm', hlow, hhigh⟩ := bounds_of_dyadic? hd
  refine isFinite_pack (u := UnpackedFloat.add Format.binary64 x.toModel.unpack
    (0.5 : Float).toModel.unpack) ?_
  rw [unpack_half, unpack_of_dyadic? hd]
  dsimp only at hm' hlow hhigh ⊢
  generalize (if negative then Sign.negative else Sign.positive) = s
  split
  case isFalse => exact (by decide : (-53 : Int) ≤ 971)
  case isTrue hm =>
    change Fits (UnpackedFloat.normalize Format.binary64
      (s.apply ((m <<< (e - min e (-53)).toNat : Nat) : Int)
        + Sign.positive.apply ((2 ^ 52 <<< (-53 - min e (-53)).toNat : Nat) : Int))
      (min e (-53)) .positive)
    obtain ⟨k, hk⟩ : ∃ k : Nat, (k : Int) = 970 - min e (-53) := ⟨(970 - min e (-53)).toNat, by omega⟩
    refine fits_normalize hk ?_
    have hfirst : (s.apply ((m <<< (e - min e (-53)).toNat : Nat) : Int)).natAbs
        ≤ (2 ^ 53 - 1) * 2 ^ (k + 1) := by
      have habs : (s.apply ((m <<< (e - min e (-53)).toNat : Nat) : Int)).natAbs
          = m <<< (e - min e (-53)).toNat := by
        cases s
        · exact Int.natAbs_neg _
        · rfl
      rw [habs, Nat.shiftLeft_eq]
      exact Nat.mul_le_mul (by omega) (Nat.pow_le_pow_right (by decide) (by omega))
    have hsecond : (Sign.positive.apply
        ((2 ^ 52 <<< (-53 - min e (-53)).toNat : Nat) : Int)).natAbs < 2 ^ k := by
      change 2 ^ 52 <<< (-53 - min e (-53)).toNat < 2 ^ k
      rw [Nat.shiftLeft_eq, ← pow_add]
      exact Nat.pow_lt_pow_right (by decide) (by omega)
    rw [pow_succ] at hfirst
    have := Int.natAbs_add_le (s.apply ((m <<< (e - min e (-53)).toNat : Nat) : Int))
      (Sign.positive.apply ((2 ^ 52 <<< (-53 - min e (-53)).toNat : Nat) : Int))
    omega

theorem isNaN_add_half (hx : x.isFinite = false) : (x + 0.5).isNaN = x.isNaN ∧
    (x + 0.5).isFinite = false := by
  have hsum : x + 0.5 = Float.ofModel (Float.Model.pack
      (UnpackedFloat.add Format.binary64 x.toModel.unpack (0.5 : Float).toModel.unpack)) := rfl
  rw [hsum, unpack_half]
  rw [Float.isFinite, Float.Model.isFinite] at hx
  rw [show x.isNaN = x.toModel.unpack.isNaN from rfl]
  cases hux : x.toModel.unpack with
  | infinity s => cases s <;> decide
  | notANumber => decide
  | zero s =>
    rw [hux] at hx
    cases hx
  | finite s m e hm =>
    rw [hux] at hx
    cases hx

/-- A whole number in binary64 is below the limit. -/
theorem natAbs_lt_of_whole? {n : Int} (h : whole? x = some n) : n.natAbs < limit := by
  cases hd : dyadic? x with
  | none =>
    rw [whole?, hd] at h
    cases h
  | some d =>
    obtain ⟨hsignificand, -, hexponent⟩ := bounds_of_dyadic? hd
    simp only [whole?, hd, Option.ite_none_right_eq_some, Option.some.injEq] at h
    have habs : n.natAbs ≤ d.ratio.1 := by
      rw [← h.2, Int.natAbs_tdiv, Dyadic.numerator]
      refine (Nat.div_le_self _ _).trans ?_
      split <;> simp
    have hratio : d.ratio.1 ≤ (2 ^ 53 - 1) * 2 ^ (970 + 1) := by
      simp only [Dyadic.ratio, Nat.pow_eq]
      split
      · have hpow : 2 ^ d.exponent.toNat ≤ 2 ^ (970 + 1) :=
          pow_le_pow_right₀ (by decide) (show d.exponent.toNat ≤ 970 + 1 by omega)
        generalize 2 ^ (970 + 1) = u at *
        exact Nat.mul_le_mul (by omega) hpow
      · rw [pow_succ 2 970]
        have hpos : 0 < 2 ^ 970 := pow_pos (by decide) _
        generalize 2 ^ 970 = u at *
        exact (show d.significand ≤ 2 ^ 53 - 1 by omega).trans
          (Nat.le_mul_of_pos_right _ (by omega))
    have hlimit : (2 ^ 53 - 1) * 2 ^ (970 + 1) < limit := by
      have hpos : 0 < 2 ^ 970 := pow_pos (by decide) _
      rw [pow_succ 2 970, limit]
      generalize 2 ^ 970 = u at *
      omega
    exact (habs.trans hratio).trans_lt hlimit

end Parlance.Binary
