import Parlance.Proofs.Exact
import Parlance.Proofs.Frame
import Parlance.Proofs.Magnitude

/-!
# Whole Numbers in Arithmetic

Sums, differences and products of whole numbers are exact, whatever their size. A remainder
rounds its operands to binary64 first, and rounding to a whole number adds one half in
binary64, so these are exact only as far as binary64 goes. Beyond `Binary.limit` they are
defects.

## Main definitions

* `Run.Computes`: Arithmetic on whole numbers.

## Theorems

* `Binary.half_le_exponent`: The exponent of a whole number is not below that of one half.
* `Binary.aligned_sum_half`: One half is `2 ^ 52 * 2 ^ (-53)`, so the sum with it is taken over
  the exponent of that.
* `Binary.dyadic?_halves`: A number with at most 53 bits, halved, as it is kept in binary64.
* `Run.whole_arithmetic`: Arithmetic on the whole numbers that two variables hold.
-/

namespace Parlance
open Binary

namespace Binary
open Float.Model (UnpackedFloat Format)
open Float.Model.UnpackedFloat
variable {x y : Float} {a b : Int} {n : Int}

/-! ### Remainders -/

theorem whole?_ofInt (h : Has a.natAbs) : whole? (ofInt a) = some a :=
  (h.whole?_eq (a < 0)).trans (congrArg some (ite_neg_natAbs a))

theorem tmod_eq {negative : Bool} (b : Int)
    (h : a = if negative then -(a.natAbs : Int) else a.natAbs) :
    a.tmod b = if negative then -((a.natAbs % b.natAbs : Nat) : Int)
      else (a.natAbs % b.natAbs : Nat) := by
  have hnat (m : Nat) : (m : Int).tmod b = (m % b.natAbs : Nat) := by
    cases b <;> rfl
  rw [← hnat, ← Int.neg_tmod]
  nth_rewrite 1 [h]
  split <;> rfl

theorem whole?_remainder (hx : whole? x = some a) (hy : whole? y = some b) (hb : b ≠ 0) :
    whole? (remainder x y) = some (a.tmod b) := by
  obtain ⟨negative, m, e, hdx, hm, hsign⟩ := dyadic?_of_whole? hx
  obtain ⟨_, m', e', hdy, hm', -⟩ := dyadic?_of_whole? hy
  obtain ⟨hmx, hex, -⟩ := bounds_of_dyadic? hdx
  obtain ⟨hmy, hey, -⟩ := bounds_of_dyadic? hdy
  dsimp only at hmx hex hmy hey
  -- Over the smaller of the two powers of two both are whole.
  have hna := scaled_eq (d := 1) (min_le_left e e') (hm.trans (Nat.mul_one _).symm)
  have hnb := scaled_eq (d := 1) (min_le_right e e') (hm'.trans (Nat.mul_one _).symm)
  rw [Nat.one_mul] at hna hnb
  simp only [remainder, hdx, hdy, Nat.pow_eq]
  rw [tmod_eq b hsign]
  refine whole?_ofDyadic negative ?_ (by omega) ?_ ((Nat.mod_le _ _).trans_lt (natAbs_lt_of_whole? hx))
  · have hpos : 0 < m' * 2 ^ (e' - min e e').toNat * 2 ^ (min e e').toNat := by
      rw [← hnb]
      exact Nat.mul_pos (Int.natAbs_pos.mpr hb) (Nat.two_pow_pos _)
    rcases le_total e e' with hle | hle
    · rw [min_eq_left hle, Int.sub_self, Int.toNat_zero, pow_zero, Nat.mul_one]
      exact (Nat.mod_le _ _).trans_lt hmx
    · refine (Nat.mod_lt _ (Nat.pos_of_mul_pos_right hpos)).trans ?_
      rwa [min_eq_right hle, Int.sub_self, Int.toNat_zero, pow_zero, Nat.mul_one]
  · rw [← Nat.mul_mod_mul_right, ← Nat.mul_mod_mul_right, hna, hnb]

/-! ### Halves -/

theorem shiftRight_mul_two_pow (m n : Nat) :
    ExtendedMantissa.mk (m * 2 ^ n) false false >>> n = .mk m false false := by
  induction n generalizing m with
  | zero => rw [pow_zero, Nat.mul_one]; rfl
  | succ n ih =>
    have hone : ExtendedMantissa.mk (m * 2 ^ (n + 1)) false false >>> (n + 1) =
        (ExtendedMantissa.mk (m * 2 * 2 ^ n) false false >>> n).shiftRightOne := by
      rw [show m * 2 ^ (n + 1) = m * 2 * 2 ^ n by ring]
      rfl
    rw [hone, ih, ExtendedMantissa.shiftRightOne]
    simp

theorem log2_significand {w : Nat} (hpos : 0 < w) (hlog : w.log2 ≤ 52) :
    (w * 2 ^ (52 - w.log2)).log2 = 52 := by
  rw [← Nat.shiftLeft_eq, log2_shiftLeft hpos.ne', Nat.add_sub_cancel' hlog]

theorem round_halves (s : Sign) {w : Nat} (hpos : 0 < w) (hw : w < 2 ^ 53) :
    ∃ hm, UnpackedFloat.round Format.binary64 s (w * 2 ^ 52) (-53) =
      .finite s (w * 2 ^ (52 - w.log2)) (w.log2 - 53) hm := by
  have hlog : w.log2 ≤ 52 := Nat.lt_succ_iff.mp ((Nat.log2_lt hpos.ne').mpr hw)
  have hshift : w * 2 ^ 52 = w * 2 ^ (52 - w.log2) * 2 ^ w.log2 := by
    rw [Nat.mul_assoc, ← pow_add, Nat.sub_add_cancel hlog]
  have ht : Format.binary64.targetExponent (Float.Model.totalExponent (w * 2 ^ 52) (-53)) =
      w.log2 - 53 := by
    rw [targetExponent_eq, Float.Model.totalExponent, ← Nat.shiftLeft_eq, log2_shiftLeft hpos.ne']
    omega
  refine ⟨by positivity, ?_⟩
  unfold UnpackedFloat.round decreaseExponent
  dsimp only
  rw [ht, show (-53 - ((w.log2 : Int) - 53)).toNat = 0 by omega, Nat.shiftLeft_zero]
  unfold roundWithAccuracy shiftToTargetExponent shiftToExponent
  dsimp only [ExtendedMantissa.ofMantissaAndAccuracy]
  rw [show (-53 - ((0 : Nat) : Int)) = -53 by rfl, ht,
    show ((w.log2 : Int) - 53 - -53).toNat = w.log2 by omega, hshift, shiftRight_mul_two_pow]
  -- The significand has 53 bits now, so the second shift is by nothing.
  have hlast : (Format.binary64.targetExponent (Float.Model.totalExponent
      (w * 2 ^ (52 - w.log2)) (-53 + w.log2)) - (-53 + w.log2)).toNat = 0 := by
    rw [targetExponent_eq, Float.Model.totalExponent, log2_significand hpos hlog]
    omega
  have hexact : (ExtendedMantissa.mk (w * 2 ^ (52 - w.log2)) false false).roundedMantissa =
      w * 2 ^ (52 - w.log2) := rfl
  have hnone : ExtendedMantissa.mk (w * 2 ^ (52 - w.log2)) false false >>> 0 =
      .mk (w * 2 ^ (52 - w.log2)) false false := rfl
  simp only [hexact, hlast, hnone]
  rw [dif_neg (by positivity)]
  simp only [UnpackedFloat.finite.injEq]
  exact ⟨trivial, trivial, by omega⟩

theorem ofModel_pack_unpack (x : Float) : Float.ofModel (Float.Model.pack x.toModel.unpack) = x := by
  cases x with
  | ofModel f =>
    have hbits := pack_unpack_of_valid f.valid
    obtain ⟨bits, hvalid⟩ := f
    simp only [Float.Model.pack, Float.ofModel.injEq, Float.Model.mk.injEq]
    exact UInt64.toBitVec_inj.mp hbits

/-- The exponent of a whole number is not below that of one half. -/
theorem half_le_exponent {m : Nat} {e : Int} (hpos : 0 < m) (hbound : m < 2 ^ 53)
    (hm : a.natAbs * 2 ^ (-e).toNat = m * 2 ^ e.toNat) : -53 ≤ e := by
  by_contra hlt
  rw [show e.toNat = 0 by omega, pow_zero, Nat.mul_one] at hm
  have ha : 0 < a.natAbs := Nat.pos_of_mul_pos_right (hm ▸ hpos)
  have := Nat.pow_le_pow_right (show 0 < 2 by decide) (show 53 ≤ (-e).toNat by omega)
  have := Nat.le_mul_of_pos_left (2 ^ (-e).toNat) ha
  omega

/-- One half is `2 ^ 52 * 2 ^ (-53)`, so the sum with it is taken over the exponent of that. -/
theorem aligned_sum_half {negative : Bool} {m : Nat} {e : Int} (he : -53 ≤ e)
    (hm : a.natAbs * 2 ^ (-e).toNat = m * 2 ^ e.toNat)
    (hsign : a = if negative then -(a.natAbs : Int) else a.natAbs) :
    (if negative then Sign.negative else Sign.positive).apply
      ((m <<< (e - min e (-53)).toNat : Nat) : Int) + Sign.positive.apply
        ((2 ^ 52 <<< (-53 - min e (-53)).toNat : Nat) : Int) = (2 * a + 1) * 2 ^ 52 := by
  have hscaled : m * 2 ^ (e - -53).toNat = a.natAbs * 2 ^ 53 := by
    simpa using (scaled_eq (d := 1) he (hm.trans (Nat.mul_one _).symm)).symm
  rw [min_eq_right he, Nat.shiftLeft_eq, hscaled]
  cases negative
  · change ((a.natAbs * 2 ^ 53 : Nat) : Int) + 2 ^ 52 = _
    simp only [Bool.false_eq_true, if_false] at hsign
    omega
  · change -((a.natAbs * 2 ^ 53 : Nat) : Int) + 2 ^ 52 = _
    simp only [if_true] at hsign
    omega

theorem add_half (hx : whole? x = some a) (hlow : -2 ^ 52 ≤ a) (hhigh : a < 2 ^ 52) :
    ∃ hm, UnpackedFloat.add Format.binary64 x.toModel.unpack (0.5 : Float).toModel.unpack =
      .finite (if decide (a < 0) then .negative else .positive)
        ((2 * a + 1).natAbs * 2 ^ (52 - (2 * a + 1).natAbs.log2))
        ((2 * a + 1).natAbs.log2 - 53) hm := by
  obtain ⟨negative, m, e, hd, hm, hsign⟩ := dyadic?_of_whole? hx
  have hbound := (bounds_of_dyadic? hd).1
  rw [unpack_of_dyadic? hd, unpack_half]
  dsimp only at hbound ⊢
  rcases Nat.eq_zero_or_pos m with rfl | hpos
  · have ha : a.natAbs = 0 := by simpa using hm
    obtain rfl := Int.natAbs_eq_zero.mp ha
    exact ⟨by decide, rfl⟩
  have he := half_le_exponent hpos hbound hm
  have hsum := aligned_sum_half he hm hsign
  rw [dif_pos hpos]
  change ∃ hm, UnpackedFloat.normalize Format.binary64
      ((if negative then Sign.negative else Sign.positive).apply
        ((m <<< (e - min e (-53)).toNat : Nat) : Int) + Sign.positive.apply
          ((2 ^ 52 <<< (-53 - min e (-53)).toNat : Nat) : Int)) (min e (-53)) .positive = _
  rw [hsum, min_eq_right he, UnpackedFloat.normalize]
  rcases lt_or_ge a 0 with hneg | hneg
  · have hnat : (-((2 * a + 1) * 2 ^ 52 : Int)).toNat = (2 * a + 1).natAbs * 2 ^ 52 := by omega
    rw [Int.compare_eq_lt.mpr (by omega), hnat, decide_eq_true hneg]
    exact round_halves .negative (by omega) (by omega)
  · have hnat : ((2 * a + 1) * 2 ^ 52 : Int).toNat = (2 * a + 1).natAbs * 2 ^ 52 := by omega
    rw [Int.compare_eq_gt.mpr (by omega), hnat, decide_eq_false (by omega)]
    exact round_halves .positive (by omega) (by omega)

/-- A number with at most 53 bits, halved, as it is kept in binary64. -/
theorem dyadic?_halves (negative : Bool) {w : Nat} (hpos : 0 < w) (hlog : w.log2 ≤ 52) :
    dyadic? (ofFields negative (w.log2 + 1022) (w * 2 ^ (52 - w.log2) - 2 ^ 52)) =
      some ⟨negative, w * 2 ^ (52 - w.log2), w.log2 - 53⟩ := by
  have hne : w * 2 ^ (52 - w.log2) ≠ 0 := by positivity
  have hwidth : (w * 2 ^ (52 - w.log2)).log2 = 52 := log2_significand hpos hlog
  have hlow : 2 ^ 52 ≤ w * 2 ^ (52 - w.log2) := (Nat.le_log2 hne).mp hwidth.ge
  have hhigh : w * 2 ^ (52 - w.log2) < 2 ^ 53 := by
    rw [← Nat.log2_lt hne, hwidth]
    decide
  rw [dyadic?_ofFields _ (by omega) (by omega), if_neg (by omega), Nat.sub_add_cancel hlow,
    show ((w.log2 + 1022 : Nat) : Int) - 1075 = w.log2 - 53 by omega]

/-- Half of an odd number is rounded down to the whole number before it. -/
theorem fdiv_halves (a : Int) (k : Nat) : ((2 * a + 1) * 2 ^ k).fdiv (2 * 2 ^ k) = a := by
  have hpos : (0 : Int) < 2 ^ k := by positivity
  rw [Int.fdiv_eq_ediv_of_nonneg _ (by positivity), Int.mul_ediv_mul_of_pos_left _ _ hpos]
  omega

theorem floor?_add_half (hx : whole? x = some a) (hlow : -2 ^ 52 ≤ a) (hhigh : a < 2 ^ 52) :
    floor? (x + 0.5) = some a := by
  obtain ⟨hm, hadd⟩ := add_half hx hlow hhigh
  have hsum : x + 0.5 = Float.ofModel (Float.Model.pack
      (UnpackedFloat.add Format.binary64 x.toModel.unpack (0.5 : Float).toModel.unpack)) := rfl
  rw [hadd] at hsum
  -- The sum is half of an odd number, and that number has at most 53 bits.
  set w := (2 * a + 1).natAbs with hw
  have hwpos : 0 < w := by omega
  have hlog : w.log2 ≤ 52 := by
    have := (Nat.log2_lt (k := 53) hwpos.ne').mpr (by omega)
    omega
  have hd := dyadic?_halves (decide (a < 0)) hwpos hlog
  have hunpack := unpack_of_dyadic? hd
  rw [dif_pos hm] at hunpack
  rw [hsum, ← hunpack, ofModel_pack_unpack, floor?, hd, Option.map_some, Dyadic.numerator, ratio_eq]
  have hden : ((2 ^ (-((w.log2 : Int) - 53)).toNat : Nat) : Int) = 2 * 2 ^ (52 - w.log2) := by
    rw [show (-((w.log2 : Int) - 53)).toNat = 52 - w.log2 + 1 by omega, pow_succ']
    push_cast
    rfl
  have hnum : (if decide (a < 0) then
        -((w * 2 ^ (52 - w.log2) * 2 ^ ((w.log2 : Int) - 53).toNat : Nat) : Int)
      else (w * 2 ^ (52 - w.log2) * 2 ^ ((w.log2 : Int) - 53).toNat : Nat)) =
      (2 * a + 1) * 2 ^ (52 - w.log2) := by
    rw [show ((w.log2 : Int) - 53).toNat = 0 by omega, pow_zero, Nat.mul_one]
    push_cast
    split
    case isTrue hneg =>
      rw [show (w : Int) = -(2 * a + 1) by have := of_decide_eq_true hneg; omega]
      ring
    case isFalse hneg =>
      have hnonneg := of_decide_eq_false (Bool.eq_false_iff.mpr hneg)
      rw [show (w : Int) = 2 * a + 1 by omega]
  dsimp only
  rw [hnum, hden, fdiv_halves]

end Binary

namespace Number
variable {a b : Int}

theorem isVast_int : (int a).isVast = true ↔ limit ≤ a.natAbs := by
  rw [isVast, decide_eq_true_iff]

theorem isVast_int_eq_false (h : a.natAbs < limit) : (int a).isVast = false :=
  Bool.eq_false_iff.mpr (mt isVast_int.mp (Nat.not_le_of_lt h))

theorem isFinite_ofInt (h : a.natAbs < limit) : (ofInt a).isFinite = true :=
  isFinite_ofRatio _ Nat.one_pos (by rwa [Nat.mul_one])

theorem mod_int (hb : b ≠ 0) (ha : a.natAbs < limit) (hb' : b.natAbs < limit) :
    (int a).mod (int b) = .ok (.float (remainder (ofInt a) (ofInt b))) := by
  have hzero : (int b).isZero = false := beq_eq_false_iff_ne.mpr hb
  have hfinite := isFinite_ofInt ha
  have hfinite' := isFinite_ofInt hb'
  rw [isFinite_eq, Bool.not_eq_true', Bool.or_eq_false_iff] at hfinite hfinite'
  simp only [mod, hzero, isInfinite_bind, isNaN_bind, toFloat_bind, isVast_int_eq_false ha,
    isVast_int_eq_false hb', nearest, hfinite, hfinite', Bool.false_eq_true, if_false]
  rfl

theorem mod_int_of_limit_le (hb : b ≠ 0) (h : limit ≤ a.natAbs ∨ limit ≤ b.natAbs) :
    (int a).mod (int b) = .error .overflow := by
  have hzero : (int b).isZero = false := beq_eq_false_iff_ne.mpr hb
  rw [mod_eq_overflow_iff, hzero, Bool.not_false, Bool.true_and, Bool.or_eq_true,
    Bool.and_eq_true, isVast_int, isVast_int]
  rcases Nat.lt_or_ge a.natAbs limit with ha | ha
  · exact .inr ⟨isFinite_ofInt ha, h.resolve_left (Nat.not_le_of_lt ha)⟩
  · exact .inl ha

theorem floor_int (h : a.natAbs < limit) : (int a).floor = .ok (int a) := by
  rw [floor, isFinite_bind, isVast_int_eq_false h, nearest, isFinite_ofInt h]
  rfl

theorem ceil_int (h : a.natAbs < limit) : (int a).ceil = .ok (int a) := by
  rw [ceil, isFinite_bind, isVast_int_eq_false h, nearest, isFinite_ofInt h]
  rfl

theorem round_int (h : a.natAbs < limit) :
    ∃ n, (int a).round = .ok (int n) ∧ (a.natAbs ≤ 2 ^ 52 → n = a) := by
  have hadd : (int a).add (.float 0.5) = .ok (.float (ofInt a + 0.5)) := by
    change (do return float ((← (int a).toFloat) + (← (float 0.5).toFloat))) = _
    rw [toFloat_bind, isVast_int_eq_false h]
    rfl
  have hfinite := isFinite_add_half (isFinite_ofInt h)
  rw [← isSome_dyadic?] at hfinite
  obtain ⟨d, hd⟩ := Option.isSome_iff_exists.mp hfinite
  have hfloor : floor? (ofInt a + 0.5) = some (d.numerator.fdiv d.ratio.2) := by
    rw [floor?, hd]
    rfl
  have hround : (int a).round = .ok (int (d.numerator.fdiv d.ratio.2)) := by
    rw [round, isFinite_bind, isVast_int_eq_false h, nearest, isFinite_ofInt h, hadd]
    change Except.ok ((floor? (ofInt a + 0.5)).elim _ _) = _
    rw [hfloor]
    rfl
  refine ⟨_, hround, fun hsmall => ?_⟩
  have hwhole := whole?_ofInt (a := a) (.of_le (by omega))
  by_cases hlast : a = 2 ^ 52
  · rw [hlast] at hfloor
    exact (Option.some.inj (hfloor.symm.trans (by decide))).trans hlast.symm
  · exact Option.some.inj (hfloor.symm.trans (floor?_add_half hwhole (by omega) (by omega)))

end Number

namespace Run
variable {L : Linker} {s : Session} {p : Position} {x y : String} {a b : Int}

theorem run_name {v : Value} (h : s.bag.get? x = some v) :
    (eval L (.name p x)).run s = (.ok v, s) := by
  have hvar : (var? x).run s = (.ok (some v), s) := by
    rw [← h]
    rfl
  rw [eval, resolve, bind_ok hvar]
  rfl

/-- Arithmetic on whole numbers. The operators have two operands, and the functions have the
    first of them for an argument. -/
structure Computes (s : Session) (a b : Int) (result : Operator → Except Signal Value × Session)
    (applied : Builtin → Except Signal Value × Session) : Prop where
  plus : result .plus = (.ok (.int (a + b)), s)
  minus : result .minus = (.ok (.int (a - b)), s)
  times : result .times = (.ok (.int (a * b)), s)
  /-- The operands of a remainder are rounded to binary64. -/
  modulo : b ≠ 0 → a.natAbs < limit → b.natAbs < limit →
    ∃ a' b', whole? (ofInt a) = some a' ∧ whole? (ofInt b) = some b' ∧
      result .modulo = (.ok (.int (a'.tmod b')), s)
  /-- With operands that binary64 has, the remainder is exact. -/
  exact : b ≠ 0 → Has a.natAbs → Has b.natAbs →
    ∃ r : Int, result .modulo = (.ok (.int r), s) ∧ r.natAbs < b.natAbs ∧
      (r = 0 ∨ r.sign = a.sign) ∧ b ∣ a - r
  floor : a.natAbs < limit → applied .floor = (.ok (.int a), s)
  ceil : a.natAbs < limit → applied .ceil = (.ok (.int a), s)
  /-- From `2 ^ 52` on there is no room for the half that is added. -/
  round : a.natAbs < limit → ∃ n, applied .round = (.ok (.int n), s) ∧
    (a.natAbs ≤ 2 ^ 52 → n = a)
  vast : limit ≤ a.natAbs → ∀ fn ∈ [Builtin.round, .floor, .ceil],
    applied fn = (.error (.defect .overflow), s)
  vast_modulo : b ≠ 0 → limit ≤ a.natAbs ∨ limit ≤ b.natAbs →
    result .modulo = (.error (.defect .overflow), s)

theorem run_modulo : (binary .modulo (.int a) (.int b)).run s =
    ((((Number.int a).mod (.int b)).map fun n => .number n.normal).mapError .defect, s) := by
  change (do return .number (← arithmetic .modulo (.int a) (.int b)) : Run Value).run s = _
  rw [arithmetic]
  cases (Number.int a).mod (.int b) <;> rfl

theorem run_modulo_of_whole? {a' b' : Int} (hb : b ≠ 0) (ha : a.natAbs < limit)
    (hb' : b.natAbs < limit) (hx : whole? (ofInt a) = some a')
    (hy : whole? (ofInt b) = some b') (hne : b' ≠ 0) :
    (binary .modulo (.int a) (.int b)).run s = (.ok (.int (a'.tmod b')), s) := by
  rw [run_modulo, Number.mod_int hb ha hb', Except.map, Number.normal,
    whole?_remainder hx hy hne]
  rfl

theorem run_giveNumber (n : Except Defect Number) (s : Session) :
    (giveNumber n).run s = ((n.map Value.number).mapError .defect, s) := by
  cases n <;> rfl

/-- The remainder of operands that binary64 has. -/
theorem run_modulo_exact (hb : b ≠ 0) (ha : Has a.natAbs) (hb' : Has b.natAbs) :
    ∃ r : Int, (binary .modulo (.int a) (.int b)).run s = (.ok (.int r), s) ∧
      r.natAbs < b.natAbs ∧ (r = 0 ∨ r.sign = a.sign) ∧ b ∣ a - r := by
  refine ⟨a.tmod b, run_modulo_of_whole? hb ha.1 hb'.1 (whole?_ofInt ha) (whole?_ofInt hb') hb,
    ?_, ?_, Int.dvd_self_sub_tmod⟩
  · rw [Int.natAbs_tmod]
    exact Nat.mod_lt _ (Int.natAbs_pos.mpr hb)
  · by_cases hdvd : b ∣ a
    · exact .inl (Int.tmod_eq_zero_of_dvd hdvd)
    · exact .inr ((Int.sign_tmod a b).trans (if_neg hdvd))

/-- From the limit on, a whole number cannot be rounded. -/
theorem run_rounding_vast (h : limit ≤ a.natAbs) :
    ∀ fn ∈ [Builtin.round, .floor, .ceil],
      (builtin fn [.int a]).run s = (.error (.defect .overflow), s) := by
  have hvast := Number.isVast_int.mpr h
  have hround : (builtin .round [.int a]).run s = _ := run_giveNumber (Number.int a).round s
  have hfloor : (builtin .floor [.int a]).run s = _ := run_giveNumber (Number.int a).floor s
  have hceil : (builtin .ceil [.int a]).run s = _ := run_giveNumber (Number.int a).ceil s
  rw [Number.round_eq_overflow_iff.mpr hvast] at hround
  rw [Number.floor_eq_overflow_iff.mpr hvast] at hfloor
  rw [Number.ceil_eq_overflow_iff.mpr hvast] at hceil
  simp only [List.forall_mem_cons, List.not_mem_nil, false_imp_iff, implies_true, and_true]
  exact ⟨hround, hfloor, hceil⟩

theorem computes_int (s : Session) (a b : Int) :
    Computes s a b (fun op => (binary op (.int a) (.int b)).run s)
      fun fn => (builtin fn [.int a]).run s := by
  constructor
  case plus => rfl
  case minus => rfl
  case times => rfl
  case modulo =>
    intro hb ha hb'
    obtain ⟨a', hx, -⟩ := exists_whole?_ofRatio (a < 0) ha
    obtain ⟨b', hy, hne⟩ := exists_whole?_ofRatio (b < 0) hb'
    exact ⟨a', b', hx, hy,
      run_modulo_of_whole? hb ha hb' hx hy (hne (Int.natAbs_ne_zero.mpr hb))⟩
  case exact => exact run_modulo_exact
  case floor =>
    intro h
    have hfloor : (builtin .floor [.int a]).run s = _ := run_giveNumber (Number.int a).floor s
    rwa [Number.floor_int h] at hfloor
  case ceil =>
    intro h
    have hceil : (builtin .ceil [.int a]).run s = _ := run_giveNumber (Number.int a).ceil s
    rwa [Number.ceil_int h] at hceil
  case round =>
    intro h
    obtain ⟨n, hn, hsmall⟩ := Number.round_int h
    have hround : (builtin .round [.int a]).run s = _ := run_giveNumber (Number.int a).round s
    rw [hn] at hround
    exact ⟨n, hround, hsmall⟩
  case vast => exact run_rounding_vast
  case vast_modulo =>
    intro hb h
    rw [run_modulo, Number.mod_int_of_limit_le hb h]
    rfl

/-- Arithmetic on the whole numbers that two variables hold. -/
theorem whole_arithmetic (L : Linker) (s : Session) (p : Position) (x y : String) (a b : Int)
    (hx : s.bag.get? x = some (.int a)) (hy : s.bag.get? y = some (.int b)) :
    Computes s a b (fun op => (eval L (.binary p op (.name p x) (.name p y))).run s)
      fun fn => (eval L (.builtin p fn [.name p x])).run s := by
  have hbinary (op : Operator) : (eval L (.binary p op (.name p x) (.name p y))).run s =
      (binary op (.int a) (.int b)).run s := by
    rw [eval, bind_ok (run_name hx), bind_ok (run_name hy)]
  have hargs : (evalAll L [.name p x]).run s = (.ok [.int a], s) := by
    rw [evalAll, bind_ok (run_name hx)]
    rfl
  have hbuiltin (fn : Builtin) : (eval L (.builtin p fn [.name p x])).run s =
      (builtin fn [.int a]).run s := by
    rw [eval, bind_ok hargs]
  rw [funext hbinary, funext hbuiltin]
  exact computes_int s a b

/-- One more than `2 ^ 53` is kept by `floor`, and its remainder by two is zero. -/
theorem whole_arithmetic_odd :
    let s : Session := { bag := Dict.ofList [("a", .int 9007199254740993), ("b", .int 2)] }
    let rest : Expr := .binary .start .modulo (.name .start "a") (.name .start "b")
    (eval .full (.builtin .start .floor [.name .start "a"])).run s =
      (.ok (.int 9007199254740993), s) ∧ (eval .full rest).run s = (.ok (.int 0), s) := by
  intro s rest
  have h := whole_arithmetic .full s .start "a" "b" 9007199254740993 2 rfl rfl
  have hlimit : (9007199254740993 : Int).natAbs < limit :=
    lt_trans (by decide) (@natAbs_lt_of_whole? (ofInt 9007199254740994)
      9007199254740994 (by decide))
  obtain ⟨a', b', ha, hb, hrest⟩ := h.modulo (by decide) hlimit (Has.of_le (by decide)).1
  obtain rfl : a' = 9007199254740992 := Option.some.inj (ha.symm.trans (by decide))
  obtain rfl : b' = 2 := Option.some.inj (hb.symm.trans (by decide))
  exact ⟨h.floor hlimit, hrest⟩

end Run
end Parlance
