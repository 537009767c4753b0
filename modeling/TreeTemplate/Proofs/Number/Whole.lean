import Mathlib
import TreeTemplate.Number.Binary64

/-!
Whole numbers as floating-point numbers.  The parts of a floating-point number are what its bits unpack to
(`parts_eq`), so equal numbers stand for the same whole number, if for any (`toInt?_congr`).  A whole number
of at most 53 bits is rounded to itself, a longer one to a number with zeros at its end, which is no smaller.
So whole numbers that are equal as floating-point numbers are equal or both longer than 53 bits
(`eq_or_long_of_ofInt_beq`).
-/

namespace TreeTemplate.Number

open Float.Model (Format UnpackedFloat)
open Float.Model.UnpackedFloat

/-! ### Bits -/

theorem toNat_unpackMantissa (b : BitVec Format.binary64.numBits) :
    (unpackMantissa b).toNat = b.toNat % 2 ^ 52 := by
  simp [unpackMantissa]

theorem toNat_unpackExponent (b : BitVec Format.binary64.numBits) :
    (unpackExponent b).toNat = b.toNat / 2 ^ 52 % 2 ^ 11 := by
  simp [unpackExponent, Nat.shiftRight_eq_div_pow]

theorem toNat_unpackSign (b : BitVec Format.binary64.numBits) :
    (unpackSign b).toNat = b.toNat / 2 ^ 63 := by
  have hlt : b.toNat < 2 ^ 64 := b.isLt
  simp [unpackSign, Nat.shiftRight_eq_div_pow]
  omega

/-- The significand of a normal number has a leading one that is not stored. -/
theorem toNat_one_append (b : BitVec 52) : (1#1 ++ b).toNat = 2 ^ 52 + b.toNat := by
  rw [BitVec.toNat_append, ← Nat.shiftLeft_add_eq_or_of_lt b.isLt]
  rfl

/-- What an unpacked number stands for. -/
def Parts.of : UnpackedFloat → Parts
  | .notANumber => .nan
  | .infinity s => .infinite (s == .negative)
  | .zero s => .finite (s == .negative) 0 (-1074)
  | .finite s m e _ => .finite (s == .negative) m e

theorem ofBitVec_negative (b : BitVec 1) : (Sign.ofBitVec b == .negative) = (b.toNat == 1) := by
  decide +revert

/-- The parts of a number are what it unpacks to. -/
theorem parts_eq (x : Float) : parts x = Parts.of x.toModel.unpack := by
  have hbits : x.toBits.toNat = x.toModel.toBits.toBitVec.toNat := rfl
  obtain ⟨b, hb⟩ : ∃ b : BitVec Format.binary64.numBits, x.toModel.toBits.toBitVec = b := ⟨_, rfl⟩
  unfold parts Float.Model.unpack UnpackedFloat.unpack
  dsimp only
  rw [hbits, hb]
  have hmantissa : (unpackMantissa b).toNat = b.toNat % Nat.pow 2 52 := toNat_unpackMantissa b
  have hexponent : (unpackExponent b).toNat = b.toNat / Nat.pow 2 52 % Nat.pow 2 11 :=
    toNat_unpackExponent b
  have hsign : (Sign.ofBitVec (unpackSign b) == .negative) = (b.toNat / Nat.pow 2 63 == 1) := by
    rw [ofBitVec_negative, toNat_unpackSign]
    rfl
  have hone : (1#1 ++ unpackMantissa b).toNat = Nat.pow 2 52 + b.toNat % Nat.pow 2 52 := by
    rw [toNat_one_append, hmantissa]
    rfl
  have hbias : ((Format.binary64.exponentBias : Nat) : Int) + (52 : Nat) = 1075 := rfl
  have hall : unpackExponent b = -1#11 ↔ b.toNat / Nat.pow 2 52 % Nat.pow 2 11 = 2047 := by
    rw [BitVec.toNat_eq, hexponent]
    rfl
  have hnone : unpackExponent b = 0#11 ↔ b.toNat / Nat.pow 2 52 % Nat.pow 2 11 = 0 := by
    rw [BitVec.toNat_eq, hexponent]
    rfl
  have hzero : unpackMantissa b = 0#52 ↔ b.toNat % Nat.pow 2 52 = 0 := by
    rw [BitVec.toNat_eq, hmantissa]
    rfl
  simp only [hall, hnone, hzero, beq_iff_eq]
  split
  · split <;> simp only [Parts.of, hsign]
  split
  · next h =>
    split
    · next h => simp only [Parts.of, hsign, h]
    · simp only [Parts.of, hsign, hmantissa, hexponent, hbias, h]
      rfl
  · simp only [Parts.of, hsign, hone, hexponent, hbias]

/-- The whole number that an unpacked number is, if it is one. -/
def whole? : UnpackedFloat → Option Int
  | .zero _ => some 0
  | .finite s m e _ =>
    if 0 ≤ e then some (s.apply ↑(m * 2 ^ e.toNat))
    else if m % 2 ^ (-e).toNat = 0 then some (s.apply ↑(m / 2 ^ (-e).toNat))
    else none
  | _ => none

theorem toInt?_eq (x : Float) : toInt? x = whole? x.toModel.unpack := by
  rw [toInt?, parts_eq]
  cases x.toModel.unpack with
  | notANumber => rfl
  | infinity s => rfl
  | zero s =>
    rw [Parts.of]
    generalize (-1074 : Int) = q
    cases s <;> simp [whole?]
  | finite s m e pos =>
    cases s <;> simp [Parts.of, whole?, Sign.apply]

/-- Equal floating-point numbers are the same whole number, if they are whole. -/
theorem toInt?_congr {x y : Float} (h : (x == y) = true) : toInt? x = toInt? y := by
  have hbeq : x.toModel.unpack.beq y.toModel.unpack = true := h
  obtain ⟨-, -, heq | ⟨hx, hy⟩ | ⟨hx, hy⟩⟩ := (beq_iff_ne_notANumber_and_eq _ _).mp hbeq
  · rw [toInt?_eq, toInt?_eq, heq]
  · rw [toInt?_eq, toInt?_eq, hx, hy, whole?, whole?]
  · rw [toInt?_eq, toInt?_eq, hx, hy, whole?, whole?]

/-! ### Rounding -/

variable {m n : Nat} {e : Int} {s : Sign}

theorem mantissa_shiftRight (em : ExtendedMantissa) (k : Nat) :
    (em >>> k).mantissa = em.mantissa / 2 ^ k := by
  induction k with
  | zero => exact (Nat.div_one _).symm
  | succ k ih =>
    have hstep : (em >>> (k + 1)).mantissa = (em >>> k).mantissa / 2 := rfl
    rw [hstep, ih, Nat.div_div_eq_div_mul, Nat.pow_succ]

/-- Shifting out zeros loses nothing. -/
theorem shiftRight_mul_two_pow (m k : Nat) :
    (ExtendedMantissa.mk (m * 2 ^ k) false false) >>> k = ⟨m, false, false⟩ := by
  induction k generalizing m with
  | zero => rw [Nat.pow_zero, Nat.mul_one]; rfl
  | succ k ih =>
    have hstep : (ExtendedMantissa.mk (m * 2 ^ (k + 1)) false false) >>> (k + 1) =
        ((ExtendedMantissa.mk (m * 2 * 2 ^ k) false false) >>> k).shiftRightOne := by
      rw [Nat.pow_succ', Nat.mul_assoc]
      rfl
    rw [hstep, ih, ExtendedMantissa.shiftRightOne]
    simp

theorem roundedMantissa_bounds (em : ExtendedMantissa) :
    em.mantissa ≤ em.roundedMantissa ∧ em.roundedMantissa ≤ em.mantissa + 1 := by
  obtain ⟨m, round, sticky⟩ := em
  cases round <;> cases sticky <;>
    simp only [ExtendedMantissa.roundedMantissa, ExtendedMantissa.accuracy,
      Accuracy.roundToNearestEven] <;> omega

theorem log2_mul_two_pow (hm : m ≠ 0) (k : Nat) : (m * 2 ^ k).log2 = m.log2 + k := by
  have hpow := Nat.two_pow_pos k
  refine (Nat.log2_eq_iff (Nat.mul_ne_zero hm hpow.ne')).mpr ⟨?_, ?_⟩
  · rw [Nat.pow_add]
    exact Nat.mul_le_mul_right _ (Nat.log2_self_le hm)
  · rw [Nat.add_right_comm, Nat.pow_add]
    exact Nat.mul_lt_mul_of_pos_right Nat.lt_log2_self hpow

theorem targetExponent_eq (m : Nat) (e : Int) :
    Format.binary64.targetExponent (Float.Model.totalExponent m e) = max (m.log2 + e - 52) (-1074) := by
  simp only [Format.targetExponent, Float.Model.totalExponent, Format.mantissaBits, Format.minExponent]
  omega

theorem pos_of_log2 (hm : m.log2 = 52) : 0 < m := by
  refine Nat.pos_of_ne_zero ?_
  rintro rfl
  simp at hm

/-- A significand of 53 bits is found again behind any number of zeros. -/
theorem shiftToTargetExponent_aligned (hm : m.log2 = 52) (he : -1074 ≤ e) (k : Nat) :
    shiftToTargetExponent Format.binary64 (m * 2 ^ k) (e - k) .exact = (⟨m, false, false⟩, e) := by
  have htarget : Format.binary64.targetExponent (Float.Model.totalExponent (m * 2 ^ k) (e - k)) = e := by
    rw [targetExponent_eq, log2_mul_two_pow (pos_of_log2 hm).ne', hm]
    omega
  have hk : (e - (e - (k : Int))).toNat = k := by omega
  rw [shiftToTargetExponent, htarget, shiftToExponent, hk]
  exact Prod.ext (shiftRight_mul_two_pow m k) (by simp)

/-- A significand of 53 bits is rounded to itself. -/
theorem roundWithAccuracy_aligned (hm : m.log2 = 52) (hpos : 0 < m) (he : -1074 ≤ e) (k : Nat) :
    roundWithAccuracy Format.binary64 s (m * 2 ^ k) (e - k) .exact = .finite s m e hpos := by
  have hagain := shiftToTargetExponent_aligned hm he 0
  rw [Nat.pow_zero, Nat.mul_one, Int.natCast_zero, Int.sub_zero] at hagain
  rw [roundWithAccuracy, shiftToTargetExponent_aligned hm he k]
  simp [ExtendedMantissa.roundedMantissa, ExtendedMantissa.accuracy, Accuracy.roundToNearestEven, hagain,
    hpos.ne']

/-- Of a longer significand the leading 53 bits are kept, to be rounded. -/
theorem shiftToTargetExponent_long {j : Nat} (hn : n ≠ 0) (hj : n.log2 = 52 + j) (k : Nat) :
    ∃ em, shiftToTargetExponent Format.binary64 (n * 2 ^ k) (-k) .exact = (em, (j : Int)) ∧
      2 ^ 52 ≤ em.mantissa ∧ em.mantissa < 2 ^ 53 := by
  have htarget : Format.binary64.targetExponent (Float.Model.totalExponent (n * 2 ^ k) (-k)) = j := by
    rw [targetExponent_eq, log2_mul_two_pow hn, hj]
    omega
  have hshift : ((j : Int) - -(k : Int)).toNat = j + k := by omega
  have hlead : n * 2 ^ k / 2 ^ (j + k) = n / 2 ^ j := by
    rw [Nat.pow_add, Nat.mul_div_mul_right _ _ (Nat.two_pow_pos k)]
  have hpow := Nat.two_pow_pos j
  have hle : 2 ^ 52 * 2 ^ j ≤ n := by
    rw [← Nat.pow_add, ← hj]
    exact Nat.log2_self_le hn
  have hlt : n < 2 ^ 53 * 2 ^ j := by
    have hself := Nat.lt_log2_self (n := n)
    rwa [hj, Nat.add_right_comm, Nat.pow_add] at hself
  rw [shiftToTargetExponent, htarget, shiftToExponent, hshift]
  refine ⟨_, Prod.ext rfl (by simp), ?_, ?_⟩
  · rw [mantissa_shiftRight, ExtendedMantissa.ofMantissaAndAccuracy, hlead]
    exact (Nat.le_div_iff_mul_le hpow).mpr hle
  · rw [mantissa_shiftRight, ExtendedMantissa.ofMantissaAndAccuracy, hlead]
    exact (Nat.div_lt_iff_lt_mul hpow).mpr hlt

/-- A number of more than 53 bits is rounded to one of 53 bits and zeros behind them. -/
theorem roundWithAccuracy_long (hn : 2 ^ 53 ≤ n) (k : Nat) :
    ∃ (m : Nat) (e : Int) (hpos : 0 < m), m.log2 = 52 ∧ 1 ≤ e ∧
      roundWithAccuracy Format.binary64 s (n * 2 ^ k) (-k) .exact = .finite s m e hpos := by
  have hne : n ≠ 0 := by omega
  have hlog : 53 ≤ n.log2 := (Nat.le_log2 hne).mpr hn
  obtain ⟨j, hj⟩ : ∃ j, n.log2 = 52 + j := ⟨n.log2 - 52, by omega⟩
  obtain ⟨em, hem, hle, hlt⟩ := shiftToTargetExponent_long hne hj k
  obtain ⟨hfrom, hto⟩ := roundedMantissa_bounds em
  obtain ⟨m, i, hi, hm, hrounded⟩ : ∃ m i, i ≤ 1 ∧ m.log2 = 52 ∧ em.roundedMantissa = m * 2 ^ i := by
    by_cases hcarry : em.roundedMantissa < 2 ^ 53
    · refine ⟨em.roundedMantissa, 0, by omega, ?_, by omega⟩
      exact (Nat.log2_eq_iff (by omega)).mpr ⟨by omega, hcarry⟩
    · exact ⟨2 ^ 52, 1, le_refl _, Nat.log2_two_pow, by omega⟩
  have hpos := pos_of_log2 hm
  have hagain := shiftToTargetExponent_aligned hm (e := j + i) (by omega) i
  rw [add_sub_cancel_right] at hagain
  refine ⟨m, j + i, hpos, hm, by omega, ?_⟩
  rw [roundWithAccuracy, hem]
  simp [hrounded, hagain, hpos.ne']

/-! ### Packing -/

theorem unpack_packedInfinity (s : Sign) :
    UnpackedFloat.unpack Format.binary64 (packedInfinity Format.binary64 s) = .infinity s := by
  rw [packedInfinity, UnpackedFloat.unpack]
  simp only [unpackExponent_packComponents, unpackMantissa_packComponents, unpackSign_packComponents,
    Sign.ofBitVec_toBitVec]
  rfl

/-- A normal number from its parts. -/
theorem unpack_packComponents {exponent : BitVec 11} (mantissa : BitVec 52) (hall : exponent.toNat ≠ 2047)
    (hnone : exponent.toNat ≠ 0) :
    UnpackedFloat.unpack Format.binary64 (packComponents Format.binary64 s exponent mantissa) =
      .finite s (2 ^ 52 + mantissa.toNat) (exponent.toNat - 1075) (by omega) := by
  have hall' : exponent ≠ -1#11 := fun h => hall (congrArg BitVec.toNat h)
  have hnone' : exponent ≠ 0#11 := fun h => hnone (congrArg BitVec.toNat h)
  rw [UnpackedFloat.unpack]
  simp only [unpackExponent_packComponents, unpackMantissa_packComponents, unpackSign_packComponents,
    Sign.ofBitVec_toBitVec, hall', hnone', if_false, toNat_one_append]
  rfl

/-- A number of 53 bits is what it is packed as, unless it is too large. -/
theorem unpack_pack (hm : m.log2 = 52) (hpos : 0 < m) (he : -1074 ≤ e) :
    (Float.Model.pack (.finite s m e hpos)).unpack =
      if e ≤ 971 then .finite s m e hpos else .infinity s := by
  have hbias : (e + (Format.binary64.exponentBias : Nat) + (52 : Nat)).toNat = (e + 1075).toNat := by
    have h : ((Format.binary64.exponentBias : Nat) : Int) = 1023 := rfl
    rw [h]
    omega
  have hlength : m.log2 + 1 = Format.binary64.mantissaBits := by
    rw [hm]
    rfl
  rw [Float.Model.unpack, Float.Model.pack]
  simp only [UnpackedFloat.pack, hbias, hlength, if_true]
  by_cases hfits : e ≤ 971
  · have hbounds : 2 ^ 52 ≤ m ∧ m < 2 ^ 53 := (Nat.log2_eq_iff hpos.ne').mp hm
    have hexponent : (BitVec.ofNat 11 (e + 1075).toNat).toNat = (e + 1075).toNat := by
      rw [BitVec.toNat_ofNat, Nat.mod_eq_of_lt (by omega)]
    have hmantissa : 2 ^ 52 + (BitVec.ofNat 52 m).toNat = m := by
      rw [BitVec.toNat_ofNat]
      omega
    have hback : ((e + 1075).toNat : Int) - 1075 = e := by omega
    rw [if_neg (by omega), if_pos hfits, unpack_packComponents _ (by omega) (by omega)]
    simp only [hexponent, hmantissa, hback]
  · rw [if_pos (by omega), if_neg hfits, unpack_packedInfinity]

/-! ### Whole numbers -/

theorem log2_aligned (hn : 0 < n) (hlt : n < 2 ^ 53) : (n * 2 ^ (52 - n.log2)).log2 = 52 := by
  have hlog : n.log2 < 53 := (Nat.log2_lt hn.ne').mpr hlt
  rw [log2_mul_two_pow hn.ne']
  omega

theorem ofUInt64_aligned (hn : 0 < n) (hlt : n < 2 ^ 53) :
    UnpackedFloat.ofUInt64 Format.binary64 n.toUInt64 =
      .finite .positive (n * 2 ^ (52 - n.log2)) (-(52 - n.log2 : Nat))
        (Nat.mul_pos hn (Nat.two_pow_pos _)) := by
  have hlog : n.log2 < 53 := (Nat.log2_lt hn.ne').mpr hlt
  have haligned := log2_aligned hn hlt
  generalize hk : 52 - n.log2 = k at haligned ⊢
  have hround := roundWithAccuracy_aligned (s := .positive) haligned
    (Nat.mul_pos hn (Nat.two_pow_pos _)) (e := -(k : Int)) (by omega) 0
  have hto : n.toUInt64.toNat = n := by
    rw [Nat.toUInt64_eq, UInt64.toNat_ofNat', Nat.mod_eq_of_lt (by omega)]
  have hcompare : compare (n : Int) 0 = .gt := compare_gt_iff_gt.mpr (by omega)
  have htarget : Format.binary64.targetExponent (Float.Model.totalExponent n 0) = -(k : Int) := by
    rw [targetExponent_eq]
    omega
  have hshift : (0 - -(k : Int)).toNat = k := by omega
  rw [UnpackedFloat.ofUInt64, UnpackedFloat.ofNat, UnpackedFloat.ofInt, UnpackedFloat.normalize, hto,
    hcompare]
  simp only [UnpackedFloat.round, Int.toNat_natCast, htarget, decreaseExponent, hshift, Nat.shiftLeft_eq]
  simpa using hround

/-- The floating-point number of a whole number with at most 53 bits. -/
theorem unpack_toFloat (hn : 0 < n) (hlt : n < 2 ^ 53) :
    n.toUInt64.toFloat.toModel.unpack =
      .finite .positive (n * 2 ^ (52 - n.log2)) (-(52 - n.log2 : Nat))
        (Nat.mul_pos hn (Nat.two_pow_pos _)) := by
  have hpacked : n.toUInt64.toFloat.toModel.unpack =
      (Float.Model.pack (UnpackedFloat.ofUInt64 Format.binary64 n.toUInt64)).unpack := rfl
  rw [hpacked, ofUInt64_aligned hn hlt, unpack_pack (log2_aligned hn hlt) _ (by omega),
    if_pos (by omega)]

theorem unpack_ofNat (hn : 0 < n) (hlt : n < 2 ^ 53) :
    (Float.ofNat n).toModel.unpack =
      .finite .positive (n * 2 ^ (52 - n.log2)) (-(52 - n.log2 : Nat))
        (Nat.mul_pos hn (Nat.two_pow_pos _)) := by
  have haligned := log2_aligned hn hlt
  have hone : (Float.ofBits 0x3FF0000000000000).toModel.unpack =
      .finite .positive (2 ^ 52) (-52) (by decide) := rfl
  have hscientific : Float.ofNat n = n.toUInt64.toFloat * Float.ofBits 0x3FF0000000000000 := by
    have heq : Float.ofNat n = Float.ofScientific n false 0 := rfl
    rw [heq, Float.ofScientific, dif_pos ⟨hlt, by decide⟩]
    rfl
  have hmul : (Float.ofNat n).toModel = Float.Model.pack (UnpackedFloat.mul Format.binary64
      n.toUInt64.toFloat.toModel.unpack (Float.ofBits 0x3FF0000000000000).toModel.unpack) := by
    rw [hscientific]
    rfl
  have hround := roundWithAccuracy_aligned (s := .positive) haligned
    (Nat.mul_pos hn (Nat.two_pow_pos _)) (e := -(52 - n.log2 : Nat)) (by omega) 52
  have hsign : (Sign.positive * Sign.positive) = Sign.positive := rfl
  have hbits : (52 : Int) = (52 : Nat) := rfl
  rw [hmul, unpack_toFloat hn hlt, hone, UnpackedFloat.mul, hsign, ← Int.sub_eq_add_neg, hbits, hround,
    unpack_pack haligned _ (by omega), if_pos (by omega)]

/-- The floating-point number of a longer whole number has zeros at its end, or it is infinite. -/
theorem unpack_ofNat_long (hn : 2 ^ 53 ≤ n) :
    (Float.ofNat n).toModel.unpack = .infinity .positive ∨
      ∃ (m : Nat) (e : Int) (hpos : 0 < m), m.log2 = 52 ∧ 1 ≤ e ∧
        (Float.ofNat n).toModel.unpack = .finite .positive m e hpos := by
  obtain ⟨m, e, hpos, hm, he, hround⟩ := roundWithAccuracy_long (s := .positive) hn 53
  have hscientific : Float.ofNat n = ⟨Float.Model.ofScientific n 0⟩ := by
    have heq : Float.ofNat n = Float.ofScientific n false 0 := rfl
    rw [heq, Float.ofScientific, dif_neg (by omega)]
    rfl
  have hmodel : (Float.ofNat n).toModel = Float.Model.pack (.finite .positive m e hpos) := by
    have hpow : (0 : Int) < 2 ^ Format.binary64.exponentBits := by decide
    have hsign : (Sign.positive * Sign.positive) = Sign.positive := rfl
    have hbits : Format.binary64.mantissaBits = 53 := rfl
    rw [hscientific, Float.Model.ofScientific, UnpackedFloat.ofScientific, dif_neg (by omega),
      if_neg (by omega), if_neg (by omega), if_pos (le_refl _)]
    simp only [UnpackedFloat.mul, hsign, hbits, Nat.shiftLeft_eq, Int.toNat_zero, Nat.pow_zero,
      Nat.mul_one, Int.add_zero, hround]
  rw [hmodel, unpack_pack hm hpos (by omega)]
  split
  · exact .inr ⟨m, e, hpos, hm, he, rfl⟩
  · exact .inl rfl

theorem whole?_aligned (s : Sign) (hn : 0 < n) (k : Nat) :
    whole? (.finite s (n * 2 ^ k) (-(k : Nat)) (Nat.mul_pos hn (Nat.two_pow_pos k))) = some (s.apply n) := by
  by_cases hk : k = 0
  · subst hk
    simp [whole?]
  · have hneg : ¬(0 : Int) ≤ -(k : Int) := by omega
    have hback : (-(-(k : Int))).toNat = k := by omega
    rw [whole?, if_neg hneg, hback, if_pos (Nat.mul_mod_left _ _),
      Nat.mul_div_cancel _ (Nat.two_pow_pos k)]

theorem whole?_long (hm : m.log2 = 52) (hpos : 0 < m) (he : 1 ≤ e) :
    ∃ k : Int, whole? (.finite s m e hpos) = some k ∧ 2 ^ 53 ≤ k.natAbs := by
  have hle : 2 ^ 52 ≤ m := hm ▸ Nat.log2_self_le hpos.ne'
  have htwo : 2 ^ 1 ≤ 2 ^ e.toNat := Nat.pow_le_pow_right (by decide) (by omega)
  have hproduct : 2 ^ 53 ≤ m * 2 ^ e.toNat := Nat.mul_le_mul hle htwo
  refine ⟨s.apply ↑(m * 2 ^ e.toNat), by rw [whole?, if_pos (by omega)], ?_⟩
  cases s with
  | positive => rwa [Sign.apply, Int.natAbs_natCast]
  | negative => rwa [Sign.apply, Int.natAbs_neg, Int.natAbs_natCast]

/-- A whole number of at most 53 bits is exact as a floating-point number. -/
theorem toInt?_ofInt {i : Int} (h : i.natAbs < 2 ^ 53) : toInt? (Float.ofInt i) = some i := by
  cases i with
  | ofNat n =>
    have heq : Float.ofInt (.ofNat n) = Float.ofNat n := rfl
    rcases Nat.eq_zero_or_pos n with rfl | hn
    · decide +kernel
    · rw [toInt?_eq, heq, unpack_ofNat hn h, whole?_aligned _ hn]
      rfl
  | negSucc n =>
    have hlt : n + 1 < 2 ^ 53 := h
    have haligned := log2_aligned n.succ_pos hlt
    have heq : (Float.ofInt (.negSucc n)).toModel =
      Float.Model.pack (Float.ofNat (n + 1)).toModel.unpack.neg := rfl
    have hneg : -Sign.positive = Sign.negative := rfl
    rw [toInt?_eq, heq, unpack_ofNat n.succ_pos hlt, UnpackedFloat.neg, hneg,
      unpack_pack haligned _ (by omega), if_pos (by omega), whole?_aligned _ n.succ_pos]
    rfl

theorem unpack_ofInt_long {i : Int} (h : 2 ^ 53 ≤ i.natAbs) :
    ∃ s, (Float.ofInt i).toModel.unpack = .infinity s ∨
      ∃ (m : Nat) (e : Int) (hpos : 0 < m), m.log2 = 52 ∧ 1 ≤ e ∧
        (Float.ofInt i).toModel.unpack = .finite s m e hpos := by
  cases i with
  | ofNat n => exact ⟨.positive, unpack_ofNat_long h⟩
  | negSucc n =>
    have heq : (Float.ofInt (.negSucc n)).toModel =
      Float.Model.pack (Float.ofNat (n + 1)).toModel.unpack.neg := rfl
    have hneg : -Sign.positive = Sign.negative := rfl
    refine ⟨.negative, ?_⟩
    rw [heq]
    rcases unpack_ofNat_long (n := n + 1) h with hinf | ⟨m, e, hpos, hm, he, hfinite⟩
    · rw [hinf]
      exact .inl (unpack_packedInfinity .negative)
    · rw [hfinite, UnpackedFloat.neg, hneg, unpack_pack hm hpos (by omega)]
      split
      · exact .inr ⟨m, e, hpos, hm, he, rfl⟩
      · exact .inl rfl

/-- A longer whole number is no smaller as a floating-point number. -/
theorem le_natAbs_of_toInt?_ofInt {i k : Int} (h : 2 ^ 53 ≤ i.natAbs)
    (hk : toInt? (Float.ofInt i) = some k) : 2 ^ 53 ≤ k.natAbs := by
  rw [toInt?_eq] at hk
  obtain ⟨s, hinf | ⟨m, e, hpos, hm, he, hfinite⟩⟩ := unpack_ofInt_long h
  · rw [hinf] at hk
    contradiction
  · obtain ⟨k', hk', hle⟩ := whole?_long (s := s) hm hpos he
    rw [hfinite, hk'] at hk
    obtain rfl := Option.some.inj hk
    exact hle

/-- Whole numbers that are equal as floating-point numbers are equal, or both have more than 53 bits. -/
theorem eq_or_long_of_ofInt_beq {i j : Int} (h : (Float.ofInt i == Float.ofInt j) = true) :
    i = j ∨ 2 ^ 53 ≤ i.natAbs ∧ 2 ^ 53 ≤ j.natAbs := by
  have hsame := toInt?_congr h
  by_cases hi : i.natAbs < 2 ^ 53
  · rw [toInt?_ofInt hi] at hsame
    by_cases hj : j.natAbs < 2 ^ 53
    · rw [toInt?_ofInt hj] at hsame
      exact .inl (Option.some.inj hsame)
    · have hlong := le_natAbs_of_toInt?_ofInt (by omega) hsame.symm
      omega
  · by_cases hj : j.natAbs < 2 ^ 53
    · rw [toInt?_ofInt hj] at hsame
      have hlong := le_natAbs_of_toInt?_ofInt (by omega) hsame
      omega
    · exact .inr ⟨by omega, by omega⟩

end TreeTemplate.Number
