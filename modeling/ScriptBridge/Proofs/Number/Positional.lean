import Mathlib.Data.List.DropRight
import ScriptBridge.Number.Shortest
import ScriptBridge.Proofs.Number.Decimal
import ScriptBridge.Proofs.Number.Spelling

/-!
Decimals in positional text. The text is a mantissa without a power of ten, and the number of its
digits is the one of the decimal: zeros that are put in front or cut off behind do not change it.
-/
namespace ScriptBridge.Number

variable {s ws fs : List Char}

theorem digitsValue_zeros (n : ℕ) : digitsValue (List.replicate n '0') = 0 := by
  rw [digitsValue, Nat.ofDigitChars_replicate_zero, Nat.mul_zero]

theorem digitsValue_wholeText (n : ℕ) : digitsValue (wholeText n) = n :=
  Nat.ofDigitChars_ten_toDigits

theorem isDigit_of_mem_zeros {n : ℕ} : ∀ c ∈ List.replicate n '0', isDigit c := by
  intro c hc
  rw [List.eq_of_mem_replicate hc]
  rfl

theorem exists_zeros (s : List Char) :
    ∃ n, s = (s.reverse.dropWhile (· == '0')).reverse ++ List.replicate n '0' := by
  refine ⟨(s.rtakeWhile (· == '0')).length, ?_⟩
  have hzeros : s.rtakeWhile (· == '0') = List.replicate (s.rtakeWhile (· == '0')).length '0' :=
    List.eq_replicate_of_mem fun c hc => by simpa using List.mem_rtakeWhile_imp hc
  rw [← hzeros]
  exact List.rdropWhile_append_rtakeWhile.symm

theorem mantissaSpells_of_digits (hws : Digits ws) (hfs : ∀ c ∈ fs, isDigit c) :
    MantissaSpells (if fs = [] then ws else ws ++ '.' :: fs) ws fs := by
  split
  · rename_i hnil
    subst hnil
    exact .whole hws
  · exact .point hws hfs

theorem exists_mantissaSpells_of_row {places : ℕ} (hs : ∀ c ∈ s, isDigit c)
    (hplaces : places < s.length) :
    let whole := s.take (s.length - places)
    let fraction := ((s.drop (s.length - places)).reverse.dropWhile (· == '0')).reverse
    MantissaSpells (if fraction = [] then whole else whole ++ '.' :: fraction) whole fraction ∧
      ∃ n, fraction.length + n = places ∧
        digitsValue s = digitsValue (whole ++ fraction) * 10 ^ n := by
  intro whole fraction
  obtain ⟨n, hn⟩ := exists_zeros (s.drop (s.length - places))
  change s.drop (s.length - places) = fraction ++ List.replicate n '0' at hn
  have hsplit : s = whole ++ (fraction ++ List.replicate n '0') := by
    rw [← hn, List.take_append_drop]
  have hdigits : ∀ c ∈ whole ++ fraction, isDigit c := by
    intro c hc
    refine hs c ?_
    rw [hsplit, ← List.append_assoc]
    exact List.mem_append_left _ hc
  have hwhole : Digits whole := by
    refine ⟨fun hnil => ?_, fun c hc => hdigits c (List.mem_append_left _ hc)⟩
    have hlength := congrArg List.length hnil
    rw [List.length_take, List.length_nil] at hlength
    omega
  refine ⟨mantissaSpells_of_digits hwhole fun c hc => hdigits c (List.mem_append_right _ hc),
    n, ?_, ?_⟩
  · have hlength := congrArg List.length hn
    rw [List.length_drop, List.length_append, List.length_replicate] at hlength
    omega
  · conv_lhs => rw [hsplit]
    rw [← List.append_assoc, Numeral.digitsValue_append, digitsValue_zeros, List.length_replicate,
      Nat.add_zero]

theorem padded_row (n k : ℕ) :
    let row := List.replicate (k + 1 - (wholeText n).length) '0' ++ wholeText n
    (∀ c ∈ row, isDigit c) ∧ k < row.length ∧ digitsValue row = n := by
  intro row
  refine ⟨List.forall_mem_append.2 ⟨isDigit_of_mem_zeros, (digits_toDigits n).isDigit⟩, ?_, ?_⟩
  · rw [List.length_append, List.length_replicate]
    omega
  · rw [Numeral.digitsValue_append, digitsValue_zeros, digitsValue_wholeText, Nat.zero_mul,
      Nat.zero_add]

namespace Decimal

/-- A positional text spells its decimal, without a power of ten. -/
theorem exists_mantissaSpells_positional (d : Decimal) :
    ∃ ws fs, MantissaSpells d.positional ws fs ∧
      (digitsValue (ws ++ fs) : ℚ) = d.value * 10 ^ fs.length := by
  rw [value]
  by_cases hexp : 0 ≤ d.exponent
  · obtain ⟨k, hk⟩ := Int.eq_ofNat_of_zero_le hexp
    have hrow : Digits (wholeText d.digits) := digits_toDigits d.digits
    have hdigits : ∀ c ∈ wholeText d.digits ++ List.replicate k '0', isDigit c :=
      List.forall_mem_append.2 ⟨hrow.isDigit, isDigit_of_mem_zeros⟩
    rw [positional, if_pos hexp, hk, Int.toNat_natCast]
    refine ⟨_, [], .whole ⟨List.append_ne_nil_of_left_ne_nil hrow.ne_nil _, hdigits⟩, ?_⟩
    rw [List.append_nil, Numeral.digitsValue_append, digitsValue_zeros, digitsValue_wholeText,
      List.length_replicate, zpow_natCast]
    simp
  · obtain ⟨k, hk⟩ := Int.exists_eq_neg_ofNat (not_le.1 hexp).le
    have hplaces : (-d.exponent).toNat = k := by omega
    obtain ⟨hdigits, hlong, hvalue⟩ := padded_row d.digits k
    simp only [positional, if_neg hexp, hplaces]
    generalize List.replicate (k + 1 - (wholeText d.digits).length) '0' ++ wholeText d.digits = row
      at hdigits hlong hvalue ⊢
    obtain ⟨hspells, n, hn, hcut⟩ := exists_mantissaSpells_of_row hdigits hlong
    refine ⟨_, _, hspells, ?_⟩
    have hten : (10 : ℚ) ^ n ≠ 0 := pow_ne_zero n (by norm_num)
    rw [← mul_left_inj' hten, ← hvalue, hcut, hk, zpow_neg, zpow_natCast, mul_assoc, ← pow_add, hn,
      mul_assoc, inv_mul_cancel₀ (pow_ne_zero k (by norm_num)), mul_one, Nat.cast_mul, Nat.cast_pow,
      Nat.cast_ofNat]

end Decimal

end ScriptBridge.Number
