import Mathlib.Algebra.Order.Field.Power
import ScriptBridge.Number.Numeral
import ScriptBridge.Proofs.Number.Rounds

/-!
Decimal numbers are rounded correctly, whatever the number of their digits and the size of their
exponent. The bounds on the power of ten only save computing it: past them the ratio has the same
result.
-/
namespace ScriptBridge.Number

variable {f : Format}

theorem Format.units_infinityCode (he : 2 ≤ f.exponentBits) :
    f.units f.infinityCode = 2 ^ 2 ^ (f.exponentBits - 1) * 2 ^ f.scale := by
  obtain ⟨b, hb⟩ := Nat.exists_eq_add_of_le' he
  have htwo : 2 ≤ 2 ^ (b + 1) := Nat.le_self_pow (Nat.succ_ne_zero b) 2
  have hpow : 2 ^ (b + 2) = 2 ^ (b + 1) + 2 ^ (b + 1) := Nat.two_pow_succ (b + 1)
  have hcode : f.infinityCode = (2 ^ (b + 2) - 2) * 2 ^ f.fractionBits + 2 ^ f.fractionBits := by
    rw [infinityCode, hb, ← Nat.succ_mul]
    congr 1
    omega
  have hfraction : 2 ^ f.fractionBits ≤ 2 ^ (f.fractionBits + 1) :=
    Nat.pow_le_pow_right Nat.two_pos (Nat.le_succ _)
  rw [hcode, units_add hfraction (Or.inr le_rfl), scale, hb, ← Nat.pow_add, ← Nat.pow_add]
  congr 1
  rw [show b + 2 - 1 = b + 1 from rfl]
  omega

namespace Decimal

theorem nearestCode_of_large (hf : 0 < f.fractionBits) (he : 2 ≤ f.exponentBits) {d : Decimal}
    (hdigits : d.digits ≠ 0) (hlarge : (2 : ℤ) ^ (f.exponentBits - 1) ≤ d.exponent) :
    f.infinityCode ≤ f.nearestCode (d.ratio.1 * 2 ^ f.scale) d.ratio.2 := by
  have hexp : 2 ^ (f.exponentBits - 1) ≤ d.exponent.toNat := by
    zify
    exact hlarge.trans (Int.self_le_toNat _)
  have hden : (-d.exponent).toNat = 0 := by
    have hpos : (0 : ℤ) < 2 ^ (f.exponentBits - 1) := by positivity
    omega
  have hnum : 2 ^ 2 ^ (f.exponentBits - 1) ≤ d.ratio.1 := by
    calc
      2 ^ 2 ^ (f.exponentBits - 1) ≤ 2 ^ d.exponent.toNat := Nat.pow_le_pow_right Nat.two_pos hexp
      _ ≤ 10 ^ d.exponent.toNat := Nat.pow_le_pow_left (by decide) _
      _ ≤ d.digits * 10 ^ d.exponent.toNat :=
        Nat.le_mul_of_pos_left _ (Nat.pos_of_ne_zero hdigits)
  have hone : d.ratio.2 = 1 := by rw [ratio, hden, Nat.pow_zero]
  refine Format.le_nearestCode hf (hone ▸ Nat.one_pos) ?_
  rw [hone, Nat.mul_one, Format.units_infinityCode he]
  exact Nat.mul_le_mul_right _ hnum

theorem nearestCode_of_small (hf : 0 < f.fractionBits) {d : Decimal}
    (hsmall : (d.digits.log2 + f.scale + 2 : ℤ) ≤ -d.exponent) :
    f.nearestCode (d.ratio.1 * 2 ^ f.scale) d.ratio.2 = 0 := by
  have hnum : d.exponent.toNat = 0 := by omega
  have hexp : d.digits.log2 + f.scale + 2 ≤ (-d.exponent).toNat := by omega
  have hden : 2 * (d.digits * 2 ^ f.scale) < d.ratio.2 := by
    calc
      2 * (d.digits * 2 ^ f.scale) < 2 * (2 ^ (d.digits.log2 + 1) * 2 ^ f.scale) :=
        Nat.mul_lt_mul_of_pos_left
          (Nat.mul_lt_mul_of_pos_right Nat.lt_log2_self (Nat.two_pow_pos _)) Nat.two_pos
      _ = 2 ^ (d.digits.log2 + f.scale + 2) := by ring
      _ ≤ 2 ^ (-d.exponent).toNat := Nat.pow_le_pow_right Nat.two_pos hexp
      _ ≤ 10 ^ (-d.exponent).toNat := Nat.pow_le_pow_left (by decide) _
  have hone : f.units 1 = 1 := Format.units_of_lt (Nat.one_lt_two_pow hf.ne')
  refine Nat.le_zero.1 ((Format.nearestCode_le_iff hf _ (Nat.pow_pos (by decide)) 0).2 (Or.inl ?_))
  rw [Format.units_zero, Nat.zero_add, Nat.zero_add, hone, Nat.one_mul, ratio, hnum, Nat.pow_zero,
    Nat.mul_one]
  exact hden

/-- The bounds on the exponent do not change the result. -/
theorem toBinary_eq_ofRatio (hf : 0 < f.fractionBits) (he : 2 ≤ f.exponentBits) (negative : Bool)
    (d : Decimal) : d.toBinary f negative = .ofRatio f negative d.ratio.1 d.ratio.2 := by
  have hden : 0 < d.ratio.2 := Nat.pow_pos (by decide)
  unfold toBinary
  split
  · rename_i hdigits
    have hcode : f.nearestCode (d.ratio.1 * 2 ^ f.scale) d.ratio.2 = 0 := by
      refine Format.nearestCode_of_eq hf hden ?_
      rw [Format.units_zero, ratio, hdigits, Nat.zero_mul, Nat.zero_mul, Nat.zero_mul]
    rw [Binary.ofRatio, hcode, Binary.zero]
  · rename_i hdigits
    split
    · rename_i hlarge
      have hcode := not_lt.2 (nearestCode_of_large hf he hdigits hlarge)
      rw [Binary.ofRatio, Binary.ofCode, dif_neg hcode]
    · split
      · rename_i hsmall
        rw [Binary.ofRatio, nearestCode_of_small hf hsmall, Binary.zero]
      · rfl

def value (d : Decimal) : ℚ := d.digits * 10 ^ d.exponent

theorem value_eq_ratio (d : Decimal) : d.value = (d.ratio.1 / d.ratio.2 : ℚ) := by
  rw [value, ratio]
  push_cast
  rcases le_total 0 d.exponent with h | h
  · obtain ⟨k, hk⟩ := Int.eq_ofNat_of_zero_le h
    have hneg : (-d.exponent).toNat = 0 := by omega
    rw [hneg, hk, Int.toNat_natCast, pow_zero, div_one, zpow_natCast]
  · obtain ⟨k, hk⟩ := Int.exists_eq_neg_ofNat h
    have hpos : d.exponent.toNat = 0 := by omega
    rw [hpos, hk, neg_neg, Int.toNat_natCast, pow_zero, mul_one, zpow_neg, zpow_natCast,
      div_eq_mul_inv]

end Decimal

namespace Numeral

def value (n : Numeral) : ℚ :=
  (if n.negative then -1 else 1) *
    ((digitsValue n.whole + digitsValue n.fraction / 10 ^ n.fraction.length) * 10 ^ n.exponent)

theorem digitsValue_append (ws fs : List Char) :
    digitsValue (ws ++ fs) = digitsValue ws * 10 ^ fs.length + digitsValue fs := by
  rw [digitsValue, Nat.ofDigitChars_append, Nat.ofDigitChars_eq_ofDigitChars_zero, Nat.mul_comm]
  rfl

theorem value_eq (n : Numeral) :
    n.value = (Binary.withSign n.negative n.magnitude.ratio.1 / n.magnitude.ratio.2 : ℚ) := by
  have hten : (10 : ℚ) ≠ 0 := by norm_num
  have hshift : n.magnitude.value =
      (digitsValue n.whole + digitsValue n.fraction / 10 ^ n.fraction.length) *
        10 ^ n.exponent := by
    rw [magnitude, Decimal.value, digitsValue_append, zpow_sub₀ hten, zpow_natCast]
    push_cast
    field_simp
  rw [value, ← hshift, Decimal.value_eq_ratio, Binary.withSign]
  split
  · push_cast
    ring
  · push_cast
    ring

theorem rounds_iff (hf : 0 < f.fractionBits) (he : 2 ≤ f.exponentBits) {n : Numeral}
    {x : Binary f} : Binary.Rounds n.negative n.value x ↔ x = n.toBinary f := by
  have hden : 0 < n.magnitude.ratio.2 := Nat.pow_pos (by decide)
  rw [toBinary, Decimal.toBinary_eq_ofRatio hf he, value_eq]
  exact Binary.rounds_withSign_div_iff hf (Nat.zero_lt_of_lt he) hden

end Numeral

end ScriptBridge.Number
