import FlowGraph.Number.Precision
import Mathlib

/-!
# Widening loses nothing

A single is narrowed back from its double unchanged (`narrow_widen`), subnormal singles and zeros
included.  A number is in a format if its exponent is the one the format asks for (`InFormat`);
rounding a number that has a form in the format gives this form, whatever power of two was moved
from the exponent to the mantissa before, and packing forgets nothing of it.
-/

namespace FlowGraph.Number

open Float.Model (Format UnpackedFloat totalExponent)
open Float.Model.UnpackedFloat

variable {spec : Format} {sign : Sign} {m : Nat} {e : Int}

/-! ## Rounding what needs no rounding -/

/-- The exponent is the one the format asks for. -/
structure InFormat (spec : Format) (m : Nat) (e : Int) : Prop where
  positive : 0 < m
  target : spec.targetExponent (totalExponent m e) = e

theorem log2_mul_two_pow (h : 0 < m) (k : Nat) : (m * 2 ^ k).log2 = m.log2 + k := by
  induction k with
  | zero => simp
  | succ k ih =>
    have hne : m * 2 ^ k ≠ 0 := Nat.ne_of_gt (Nat.mul_pos h (Nat.two_pow_pos k))
    have hmul : m * 2 ^ (k + 1) = 2 * (m * 2 ^ k) := by
      rw [Nat.pow_succ]
      simp only [Nat.mul_comm, Nat.mul_left_comm]
    rw [hmul, Nat.log2_two_mul hne, ih, Nat.add_assoc]

theorem totalExponent_mul_two_pow (h : 0 < m) (e : Int) (k : Nat) :
    totalExponent (m * 2 ^ k) (e - k) = totalExponent m e := by
  rw [totalExponent, totalExponent, log2_mul_two_pow h]
  omega

/-- Shifting out zeros only leaves no residue. -/
theorem shiftRight_exact (m k : Nat) :
    (⟨m * 2 ^ k, false, false⟩ : ExtendedMantissa) >>> k = ⟨m, false, false⟩ := by
  show k.repeat ExtendedMantissa.shiftRightOne _ = _
  induction k generalizing m with
  | zero => simp [Nat.repeat]
  | succ k ih =>
    have hmul : m * 2 ^ (k + 1) = m * 2 * 2 ^ k := by
      rw [Nat.pow_succ, Nat.mul_comm (2 ^ k), Nat.mul_assoc]
    rw [Nat.repeat, hmul, ih (m * 2)]
    simp [ExtendedMantissa.shiftRightOne]

theorem shiftToTargetExponent_exact (h : InFormat spec m e) (k : Nat) :
    shiftToTargetExponent spec (m * 2 ^ k) (e - k) .exact = (⟨m, false, false⟩, e) := by
  have hshift : (e - (e - (k : Int))).toNat = k := by omega
  simp only [shiftToTargetExponent, shiftToExponent, totalExponent_mul_two_pow h.positive, h.target,
    hshift, ExtendedMantissa.ofMantissaAndAccuracy, shiftRight_exact]
  congr 1
  omega

theorem roundWithAccuracy_exact (h : InFormat spec m e) (k : Nat) :
    roundWithAccuracy spec sign (m * 2 ^ k) (e - k) .exact = .finite sign m e h.positive := by
  have hagain := shiftToTargetExponent_exact h 0
  simp only [Nat.pow_zero, Nat.mul_one, Int.natCast_zero, Int.sub_zero] at hagain
  have hm : m ≠ 0 := Nat.ne_of_gt h.positive
  simp only [roundWithAccuracy, shiftToTargetExponent_exact h k]
  have hrounded : (⟨m, false, false⟩ : ExtendedMantissa).roundedMantissa = m := rfl
  simp only [hrounded, hagain, dif_neg hm]

/-- Rounding to a format with fewer digits, where none is lost. -/
theorem round_exact (h : InFormat spec m e) (k : Nat) :
    UnpackedFloat.round spec sign (m * 2 ^ k) (e - k) = .finite sign m e h.positive := by
  have hshift : (e - (k : Int) - e).toNat = 0 := by omega
  simp only [UnpackedFloat.round, totalExponent_mul_two_pow h.positive, h.target, decreaseExponent,
    hshift, Nat.shiftLeft_zero, Int.natCast_zero, Int.sub_zero]
  exact roundWithAccuracy_exact h k

/-- Rounding to a format with more digits. -/
theorem round_wider {k : Nat} (h : InFormat spec (m * 2 ^ k) (e - k)) (hm : 0 < m) :
    UnpackedFloat.round spec sign m e = .finite sign (m * 2 ^ k) (e - k) h.positive := by
  have htarget := h.target
  rw [totalExponent_mul_two_pow hm] at htarget
  have hshift : (e - (e - (k : Int))).toNat = k := by omega
  simp only [UnpackedFloat.round, htarget, decreaseExponent, hshift, Nat.shiftLeft_eq]
  have hround : roundWithAccuracy spec sign (m * 2 ^ k * 2 ^ 0) (e - k - (0 : Nat)) .exact = _ :=
    roundWithAccuracy_exact h 0
  simp only [Nat.pow_zero, Nat.mul_one, Int.natCast_zero, Int.sub_zero] at hround
  exact hround

/-! ## Packing -/

theorem implicit_append {n : Nat} (b : BitVec n) : (1#1 ++ b).toNat = 2 ^ n + b.toNat := by
  rw [BitVec.toNat_append, ← Nat.shiftLeft_add_eq_or_of_lt b.isLt]
  simp [Nat.shiftLeft_eq]

/-- A number with all its digits is unpacked as it was packed. -/
theorem unpack_pack_normal (hm : 0 < m) (hdigits : m.log2 + 1 = spec.mantissaBits)
    (hlow : 0 < e + spec.exponentBias + spec.mantissaBitsWithoutImplicit)
    (hhigh : e + spec.exponentBias + spec.mantissaBitsWithoutImplicit + 1 < 2 ^ spec.exponentBits) :
    unpack spec (pack spec (.finite sign m e hm)) = .finite sign m e hm := by
  obtain ⟨biased, hbiased⟩ : ∃ n : Nat,
      e + spec.exponentBias + spec.mantissaBitsWithoutImplicit = n :=
    ⟨_, (Int.toNat_of_nonneg (Int.le_of_lt hlow)).symm⟩
  have hbound : biased + 1 < 2 ^ spec.exponentBits := by
    rw [hbiased] at hhigh
    exact_mod_cast hhigh
  have hexponent : (BitVec.ofNat spec.exponentBits biased).toNat = biased := by
    rw [BitVec.toNat_ofNat, Nat.mod_eq_of_lt (by omega)]
  have hnonzero : BitVec.ofNat spec.exponentBits biased ≠ BitVec.ofNat _ 0 := by
    intro heq
    have hnat := congrArg BitVec.toNat heq
    rw [hexponent, BitVec.toNat_zero] at hnat
    omega
  have hnotlast : BitVec.ofNat spec.exponentBits biased ≠ -BitVec.ofNat _ 1 := by
    intro heq
    have hnat := congrArg BitVec.toNat heq
    rw [hexponent, BitVec.neg_one_eq_allOnes, BitVec.toNat_allOnes] at hnat
    omega
  -- The leading digit is not stored, and is put back by unpacking.
  have hmantissa : (1#1 ++ BitVec.ofNat spec.mantissaBitsWithoutImplicit m).toNat = m := by
    have hlog : m.log2 = spec.mantissaBitsWithoutImplicit := by
      rw [Format.mantissaBits] at hdigits
      omega
    obtain ⟨hle, hlt⟩ := (Nat.log2_eq_iff (Nat.ne_of_gt hm)).mp hlog
    rw [Nat.pow_succ] at hlt
    rw [implicit_append, BitVec.toNat_ofNat, Nat.mod_eq_sub_mod hle, Nat.mod_eq_of_lt (by omega)]
    omega
  simp only [pack, hbiased, Int.toNat_natCast, if_neg (Nat.not_le.mpr hbound), if_pos hdigits,
    unpack, unpackMantissa_packComponents, unpackExponent_packComponents, unpackSign_packComponents,
    Sign.ofBitVec_toBitVec, if_neg hnonzero, if_neg hnotlast, hmantissa, hexponent]
  congr 1
  omega

/-! ## Singles -/

/-- What a finite single is made of. -/
inductive IsSingle : UnpackedFloat → Prop where
  | zero (sign : Sign) : IsSingle (.zero sign)
  | finite {sign : Sign} {m : Nat} {e : Int} {hm : 0 < m} (format : InFormat .binary32 m e)
      (low : -149 ≤ e) (high : e ≤ 104) (digits : m.log2 < 24) : IsSingle (.finite sign m e hm)

theorem target_single (t : Int) : Format.binary32.targetExponent t = max (t - 24) (-149) := rfl

section Single

variable {b : BitVec Format.binary32.numBits}

theorem single_zero (hexponent : unpackExponent b = BitVec.ofNat _ 0)
    (hmantissa : unpackMantissa b = BitVec.ofNat _ 0) : IsSingle (unpack .binary32 b) := by
  have hnotlast : (0#8 : BitVec 8) ≠ -1#8 := by decide
  simp only [unpack, hexponent]
  rw [if_neg hnotlast, dif_pos hmantissa]
  exact .zero _

/-- A subnormal number has fewer digits and the least exponent. -/
theorem single_subnormal (hexponent : unpackExponent b = BitVec.ofNat _ 0)
    (hmantissa : unpackMantissa b ≠ BitVec.ofNat _ 0) : IsSingle (unpack .binary32 b) := by
  have hnotlast : (0#8 : BitVec 8) ≠ -1#8 := by decide
  have hpos : 0 < (unpackMantissa b).toNat := by
    simpa [BitVec.toNat_pos, BitVec.pos_iff_ne_zero] using hmantissa
  have hlog : (unpackMantissa b).toNat.log2 < 23 :=
    (Nat.log2_lt (Nat.ne_of_gt hpos)).mpr (unpackMantissa b).isLt
  have hunpack : unpack .binary32 b =
      .finite (Sign.ofBitVec (unpackSign b)) (unpackMantissa b).toNat (-149) hpos := by
    simp only [unpack, dif_neg hmantissa, hexponent]
    rfl
  have htarget : Format.binary32.targetExponent (totalExponent (unpackMantissa b).toNat (-149)) =
      -149 := by
    rw [target_single, totalExponent]
    omega
  rw [hunpack]
  exact .finite ⟨hpos, htarget⟩ (by decide) (by decide) (by omega)

/-- A normal number has all its digits. -/
theorem single_normal (hlast : unpackExponent b ≠ -BitVec.ofNat _ 1)
    (hzero : unpackExponent b ≠ BitVec.ofNat _ 0) : IsSingle (unpack .binary32 b) := by
  have hexponent : 1 ≤ (unpackExponent b).toNat ∧ (unpackExponent b).toNat ≤ 254 := by
    have hlt : (unpackExponent b).toNat < 2 ^ 8 := (unpackExponent b).isLt
    have hne : (unpackExponent b).toNat ≠ 255 := fun heq => hlast (BitVec.eq_of_toNat_eq heq)
    have hne' : (unpackExponent b).toNat ≠ 0 := fun heq => hzero (BitVec.eq_of_toNat_eq heq)
    omega
  have hmantissa : (unpackMantissa b).toNat < 2 ^ 23 := (unpackMantissa b).isLt
  have hsum : (1#1 ++ unpackMantissa b).toNat = 2 ^ 23 + (unpackMantissa b).toNat :=
    implicit_append _
  have hpos : 0 < (1#1 ++ unpackMantissa b).toNat := by omega
  have hlog : (1#1 ++ unpackMantissa b).toNat.log2 = 23 := by
    rw [hsum, Nat.log2_eq_iff (by omega)]
    omega
  have hunpack : unpack .binary32 b =
      .finite (Sign.ofBitVec (unpackSign b)) (1#1 ++ unpackMantissa b).toNat
        ((unpackExponent b).toNat - 150) hpos := by
    simp only [unpack, if_neg hlast, if_neg hzero]
    rfl
  have htarget : Format.binary32.targetExponent (totalExponent (1#1 ++ unpackMantissa b).toNat
      ((unpackExponent b).toNat - 150)) = (unpackExponent b).toNat - 150 := by
    rw [target_single, totalExponent, hlog]
    omega
  rw [hunpack]
  exact .finite ⟨hpos, htarget⟩ (by omega) (by omega) (by omega)

theorem single_cases (h : (unpack .binary32 b).isFinite = true) :
    IsSingle (unpack .binary32 b) := by
  by_cases hlast : unpackExponent b = -BitVec.ofNat _ 1
  · -- An infinity, or not a number.
    exfalso
    unfold unpack at h
    simp only [if_pos hlast] at h
    split at h <;> cases h
  · by_cases hzero : unpackExponent b = BitVec.ofNat _ 0
    · by_cases hmantissa : unpackMantissa b = BitVec.ofNat _ 0
      · exact single_zero hzero hmantissa
      · exact single_subnormal hzero hmantissa
    · exact single_normal hlast hzero

end Single

/-! ## Both ways -/

theorem target_double (t : Int) : Format.binary64.targetExponent t = max (t - 53) (-1074) := rfl

/-- The double of a finite single: the same number, with digits added behind. -/
inductive Widens : UnpackedFloat → UnpackedFloat → Prop where
  | zero (sign : Sign) : Widens (.zero sign) (.zero sign)
  | finite {sign : Sign} {m k : Nat} {e : Int} {hm : 0 < m} {hk : 0 < m * 2 ^ k}
      (format : InFormat .binary32 m e) :
      Widens (.finite sign m e hm) (.finite sign (m * 2 ^ k) (e - k) hk)

theorem unpack_widen {x : Float32} (h : x.isFinite = true) :
    Widens x.toModel.unpack (widen x).toModel.unpack := by
  have hsingle : IsSingle x.toModel.unpack := single_cases h
  show Widens _ (unpack .binary64 (pack .binary64 (refit .binary64 x.toModel.unpack)))
  generalize x.toModel.unpack = u at hsingle ⊢
  cases hsingle with
  | zero sign =>
    have hzero : unpack .binary64 (pack .binary64 (.zero sign)) = .zero sign := unpack_packedZero
    rw [refit, hzero]
    · exact .zero sign
    · intro _ _ _ _ heq
      cases heq
  | @finite sign m e hm format low high digits =>
    obtain ⟨k, hk⟩ : ∃ k : Nat, m.log2 + 1 + k = 53 := ⟨52 - m.log2, by omega⟩
    have hpos : 0 < m * 2 ^ k := Nat.mul_pos hm (Nat.two_pow_pos k)
    have hlog : (m * 2 ^ k).log2 = 52 := by
      rw [log2_mul_two_pow hm]
      omega
    have hdouble : InFormat .binary64 (m * 2 ^ k) (e - k) := by
      refine ⟨hpos, ?_⟩
      rw [target_double, totalExponent, hlog]
      omega
    have hbias : Format.binary64.exponentBias = 1023 := rfl
    have hbits : Format.binary64.mantissaBitsWithoutImplicit = 52 := rfl
    have hhigh : e - k + (Format.binary64.exponentBias : Int) +
        Format.binary64.mantissaBitsWithoutImplicit + 1 < 2 ^ Format.binary64.exponentBits := by
      show _ < (2 : Int) ^ 11
      omega
    rw [refit, round_wider hdouble hm,
      unpack_pack_normal hpos (by rw [hlog]; rfl) (by omega) hhigh]
    exact .finite format

theorem isFinite_widen (x : Float32) : isFinite (widen x) = x.isFinite := by
  by_cases h : x.isFinite = true
  · have hwidens := unpack_widen h
    rw [h]
    unfold isFinite
    generalize x.toModel.unpack = u at hwidens
    generalize (widen x).toModel.unpack = w at hwidens ⊢
    cases hwidens <;> rfl
  · rw [Bool.eq_false_iff.mpr h]
    change ¬ x.toModel.unpack.isFinite = true at h
    have hunpack : (widen x).toModel.unpack =
        unpack .binary64 (pack .binary64 (refit .binary64 x.toModel.unpack)) := rfl
    rw [isFinite, hunpack]
    generalize x.toModel.unpack = u at h ⊢
    cases u with
    | infinity sign => cases sign <;> rfl
    | notANumber => rfl
    | zero sign => exact absurd rfl h
    | finite => exact absurd rfl h

/-- A finite single is read back from its double as it was. -/
theorem narrow_widen {x : Float32} (h : x.isFinite = true) : narrow (widen x) = x := by
  have hback : refit .binary32 (widen x).toModel.unpack = x.toModel.unpack := by
    have hwidens := unpack_widen h
    generalize x.toModel.unpack = u at hwidens ⊢
    generalize (widen x).toModel.unpack = w at hwidens ⊢
    cases hwidens with
    | zero sign => rfl
    | finite format =>
      rw [refit, round_exact format]
  rw [narrow, hback]
  exact x.ofBits_toBits

end FlowGraph.Number
