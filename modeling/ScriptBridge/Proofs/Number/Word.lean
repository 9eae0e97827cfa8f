import Mathlib.Data.Int.ModEq

/-!
Words as residues. A word is read as an integer with or without a sign, and either reading names it
among the words of its size by a congruence.
-/
namespace ScriptBridge.Number

def wordValue (signed : Bool) {bits : Nat} (v : BitVec bits) : Int :=
  if signed then v.toInt else v.toNat

theorem ofInt_wordValue (signed : Bool) {bits : Nat} (v : BitVec bits) :
    BitVec.ofInt bits (wordValue signed v) = v := by
  cases signed
  · simp only [wordValue, Bool.false_eq_true, if_false, BitVec.ofInt_natCast, BitVec.ofNat_toNat,
      BitVec.setWidth_eq]
  · simp only [wordValue, if_true, BitVec.ofInt_toInt]

theorem ofInt_eq_ofInt_iff {bits : Nat} {a b : Int} :
    BitVec.ofInt bits a = BitVec.ofInt bits b ↔ a ≡ b [ZMOD 2 ^ bits] := by
  have hpos : (0 : Int) < 2 ^ bits := Int.pow_pos (by decide)
  rw [← BitVec.toNat_inj, BitVec.toNat_ofInt, BitVec.toNat_ofInt, Int.ModEq, Int.natCast_pow]
  have ha := Int.emod_nonneg a hpos.ne'
  have hb := Int.emod_nonneg b hpos.ne'
  change (a % 2 ^ bits).toNat = (b % 2 ^ bits).toNat ↔ _
  omega

theorem eq_ofInt_iff (signed : Bool) {bits : Nat} {v : BitVec bits} {a : Int} :
    v = BitVec.ofInt bits a ↔ wordValue signed v ≡ a [ZMOD 2 ^ bits] := by
  rw [← ofInt_eq_ofInt_iff, ofInt_wordValue]

theorem setWidth_ofInt {narrow wide : Nat} (h : narrow ≤ wide) (a : Int) :
    (BitVec.ofInt wide a).setWidth narrow = BitVec.ofInt narrow a := by
  have hmod : wordValue false (BitVec.ofInt wide a) ≡ a [ZMOD 2 ^ wide] :=
    (eq_ofInt_iff false).1 rfl
  have hdvd : (2 : Int) ^ narrow ∣ 2 ^ wide := pow_dvd_pow 2 h
  rw [← ofInt_eq_ofInt_iff.2 (hmod.of_dvd hdvd)]
  simp only [wordValue, Bool.false_eq_true, if_false, BitVec.ofInt_natCast, BitVec.ofNat_toNat]

theorem natAbs_wordValue_lt (signed : Bool) {bits : Nat} (v : BitVec bits) :
    (wordValue signed v).natAbs < 2 ^ bits := by
  have hnat := v.isLt
  have hint := v.toInt_eq_toNat_cond
  unfold wordValue
  split <;> [split at hint; skip] <;> omega

end ScriptBridge.Number
