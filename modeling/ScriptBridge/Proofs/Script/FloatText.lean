import ScriptBridge.Proofs.Decode.DecimalText
import ScriptBridge.Proofs.Number.Pattern
import ScriptBridge.Proofs.Number.Positional
import ScriptBridge.Proofs.Number.Shortest

/-!
Floats and the texts that they are shown as. The text of a finite float is a numeral that reads back
as the same float, with its sign, and no numeral that does so has fewer digits. The words for
infinities and NaN read as no number.
-/
namespace ScriptBridge

open ScriptBridge.Number ScriptBridge.Text

namespace Number

variable {f : Format} {c : ℕ}

namespace Decimal

def shown (f : Format) (c : ℕ) : Decimal := if c = 0 then ⟨0, 0⟩ else shortest f c

theorem code_congr (hf : 0 < f.fractionBits) {d e : Decimal} (h : d.value = e.value) :
    d.code f = e.code f :=
  le_antisymm (code_mono hf h.le) (code_mono hf h.ge)

theorem code_of_digits_eq_zero (hf : 0 < f.fractionBits) {d : Decimal} (h : d.digits = 0) :
    d.code f = 0 := by
  refine Format.nearestCode_of_eq hf d.ratio_pos ?_
  rw [ratio, h, Nat.zero_mul, Nat.zero_mul, Format.units_zero, Nat.zero_mul]

variable (hf : 0 < f.fractionBits) (he : 2 ≤ f.exponentBits) (hc : c < f.infinityCode)
include hf he hc

theorem code_shown : (shown f c).code f = c := by
  unfold shown
  split
  · rename_i hzero
    rw [code_of_digits_eq_zero hf rfl, hzero]
  · exact (readsBack_iff hf he hc).1 (readsBack_shortest hf he hc)

theorem hasDigits_shown {d : Decimal} {k : ℕ} (hd : d.code f = c) (hdigits : d.digits < 10 ^ k) :
    HasDigits k (shown f c).value := by
  unfold shown
  split
  · exact ⟨0, 0, Nat.pow_pos (by decide), by simp [value]⟩
  · rename_i hzero
    have hk : 0 < k := by
      refine Nat.pos_of_ne_zero fun hk => hzero ?_
      rw [hk, Nat.pow_zero, Nat.lt_one_iff] at hdigits
      rw [← hd, code_of_digits_eq_zero hf hdigits]
    exact hasDigits_shortest hf he hc hk ((readsBack_iff hf he hc).2 hd) hdigits

end Decimal

theorem Binary.text_finite (negative : Bool) (code : Fin f.infinityCode) :
    (Binary.finite negative code).text = signed negative (Decimal.shown f code).positional := by
  rw [text, Decimal.shown]
  split
  · rfl
  · rfl

namespace Numeral

theorem isDigit_or_point_of_mantissaSpells {t ws fs : List Char} (h : MantissaSpells t ws fs) :
    ∀ c ∈ t, isDigit c ∨ c = '.' := by
  intro c hc
  cases h with
  | whole digits => exact Or.inl (digits.isDigit c hc)
  | point digits rest =>
    rcases List.mem_append.1 hc with hc | hc
    · exact Or.inl (digits.isDigit c hc)
    · exact (List.mem_cons.1 hc).symm.imp_left (rest c)
  | fraction digits => exact (List.mem_cons.1 hc).symm.imp_left (digits.isDigit c)

theorem abs_value (n : Numeral) : |n.value| = n.magnitude.value := by
  rw [value_eq, Binary.abs_withSign_div, ← Decimal.value_eq_ratio]

theorem exists_spells_signed (negative : Bool) (d : Decimal) :
    ∃ n, Spells (Binary.signed negative d.positional) n ∧ n.negative = negative ∧
      n.magnitude.value = d.value ∧
      ∀ c ∈ Binary.signed negative d.positional, isDigit c ∨ c = '-' ∨ c = '.' := by
  obtain ⟨ws, fs, hspells, hvalue⟩ := d.exists_mantissaSpells_positional
  have hchars := isDigit_or_point_of_mantissaSpells hspells
  have hsign : ∃ sign, SignSpells sign negative ∧
      Binary.signed negative d.positional = sign ++ (d.positional ++ []) := by
    cases negative with
    | false => exact ⟨[], .absent, by simp [Binary.signed]⟩
    | true => exact ⟨['-'], .minus, by simp [Binary.signed]⟩
  obtain ⟨sign, hsign, htext⟩ := hsign
  refine ⟨⟨negative, ws, fs, 0⟩, htext ▸ .mk hsign hspells .absent, rfl, ?_, fun c hc => ?_⟩
  · rw [magnitude, Decimal.value, hvalue, zero_sub, zpow_neg, zpow_natCast, mul_assoc,
      mul_inv_cancel₀ (pow_ne_zero _ (by norm_num)), mul_one]
  · have hcases : c = '-' ∨ c ∈ d.positional := by
      cases negative with
      | false => exact Or.inr hc
      | true => exact List.mem_cons.1 hc
    rcases hcases with hminus | hmem
    · exact Or.inr (Or.inl hminus)
    · exact (hchars c hmem).imp_right Or.inr

/-- A numeral that reads as a double, of which no other numeral for it has fewer digits. -/
structure IsShortest (n : Numeral) (x : Double) : Prop where
  roundsTo : n.RoundsTo x
  hasDigits : ∀ m : Numeral, m.RoundsTo x → ∀ k, HasDigits k m.value → HasDigits k n.value

variable {n : Numeral} {negative : Bool}

theorem toBinary_eq_ofCode (n : Numeral) :
    n.toBinary .double = .ofCode .double n.negative (n.magnitude.code .double) :=
  Decimal.toBinary_eq_ofCode Binary.double_fractionBits_pos double_exponentBits_ge _ _

theorem code_of_roundsTo {code : Fin Format.double.infinityCode}
    (h : n.RoundsTo (.finite negative code)) :
    n.magnitude.code .double = code := by
  have hx := roundsTo_iff.1 h
  rw [toBinary_eq_ofCode, Binary.ofCode] at hx
  split at hx
  · simpa using (congrArg Fin.val (Binary.finite.inj hx).2).symm
  · cases hx

theorem isShortest_of_value (code : Fin Format.double.infinityCode) (hsign : n.negative = negative)
    (hvalue : n.magnitude.value = (Decimal.shown .double code).value) :
    n.IsShortest (.finite negative code) where
  roundsTo := by
    have hcode := Decimal.code_congr Binary.double_fractionBits_pos hvalue
    rw [Decimal.code_shown Binary.double_fractionBits_pos double_exponentBits_ge code.isLt] at hcode
    rw [roundsTo_iff, toBinary_eq_ofCode, hcode, hsign, Binary.ofCode_val]
  hasDigits m hm k hk := by
    obtain ⟨digits, e, hdigits, habs⟩ := hk
    rw [abs_value] at habs
    have hcode := Decimal.code_congr (d := ⟨digits, e⟩) Binary.double_fractionBits_pos habs.symm
    have hshown := Decimal.hasDigits_shown Binary.double_fractionBits_pos double_exponentBits_ge
      code.isLt (hcode.trans (code_of_roundsTo hm)) hdigits
    rwa [HasDigits, abs_value, hvalue, ← abs_of_nonneg (Decimal.value_nonneg _)]

end Numeral

end Number

namespace Value

theorem describe_float (x : Double) :
    (Value.float x).describe = "Float(" ++ String.ofList x.text ++ ")" := rfl

theorem eq_of_describe_float {x : Double} {text : String}
    (h : (Value.float x).describe = "Float(" ++ text ++ ")") : text = String.ofList x.text :=
  (String.append_right_inj _).1 ((String.append_left_inj _).1 h.symm)

theorem number?_text_of_not_finite {x : Double} (h : x.isFinite = false) :
    (Value.string (String.ofList x.text)).number? = none := by
  cases x with
  | nan => decide +kernel
  | infinity negative => cases negative <;> decide +kernel
  | finite negative code => cases h

/-- The text between the brackets of a shown float. For a finite pattern it is a numeral without a
power of ten that reads as a float of the same pattern, and of all numerals for this float it has
the fewest digits between zeros. The texts of infinities and NaN are no numbers. -/
theorem number?_of_shown_float {bits : ℕ} (hbits : bits < 2 ^ 64) :
    let x : Double := .ofBits .double bits
    ∃ text : String, (Value.float x).describe = "Float(" ++ text ++ ")" ∧
      (Format.double.exponentField bits ≠ Format.double.maxExponent →
        (Value.string text).number? = some x ∧ x.toBits = bits ∧
          (∀ c ∈ text.toList, isDigit c ∨ c = '-' ∨ c = '.') ∧
          ∃ n, Numeral.Spells text.toList n ∧ n.IsShortest x) ∧
      (Format.double.exponentField bits = Format.double.maxExponent →
        (Value.string text).number? = none) := by
  intro x
  refine ⟨String.ofList x.text, describe_float x, fun hfinite => ?_, fun hspecial => ?_⟩
  · have hnan : ¬Format.double.IsNaN bits := fun h => hfinite h.exponent
    have hx : x = _ := Binary.ofBits_of_finite hfinite
    obtain ⟨n, hspells, hsign, hvalue, hchars⟩ := Numeral.exists_spells_signed
      (Format.double.sign bits) (Decimal.shown .double (bits % Format.double.signPlace))
    have hshort := Numeral.isShortest_of_value ⟨_, Format.code_lt_infinityCode_iff.2 hfinite⟩ hsign
      hvalue
    rw [← hx] at hshort
    have htext : (String.ofList x.text).toList = Binary.signed (Format.double.sign bits)
        (Decimal.shown .double (bits % Format.double.signPlace)).positional := by
      rw [String.toList_ofList, hx, Binary.text_finite]
    rw [← htext] at hspells hchars
    refine ⟨?_, Binary.toBits_ofBits hbits hnan, hchars, n, hspells, hshort⟩
    exact number?_string_eq_some_iff.2
      ⟨_, n, hspells.isTrimmed.trimsTo, hspells, hshort.roundsTo⟩
  · refine number?_text_of_not_finite ?_
    by_cases hfraction : Format.double.fractionField bits = 0
    · have hx : x = _ := Binary.ofBits_of_isInfinity ⟨hspecial, hfraction⟩
      rw [hx]
      rfl
    · have hx : x = .nan := Binary.ofBits_of_isNaN ⟨hspecial, hfraction⟩
      rw [hx]
      rfl

/-- The negative number of least magnitude is shown with all the zeros in front of its one digit,
and reads back as itself. The text of an infinity is no number. -/
theorem number?_of_shown_subnormal :
    let x : Double := .ofBits .double 0x8000000000000001
    (∃ text : String, (Value.float x).describe = "Float(" ++ text ++ ")" ∧ text.length = 327 ∧
      (Value.string text).number? = some x ∧ x.toBits = 0x8000000000000001) ∧
      (Value.string "-inf").number? = none := by
  intro x
  obtain ⟨text, htext, hfinite, -⟩ := @number?_of_shown_float 0x8000000000000001 (by decide)
  obtain ⟨hnumber, hbits, -⟩ := hfinite (by decide)
  obtain ⟨word, hword, -, hspecial⟩ := @number?_of_shown_float 0xFFF0000000000000 (by decide)
  refine ⟨⟨text, htext, ?_, hnumber, hbits⟩, ?_⟩
  · rw [eq_of_describe_float htext, String.length_ofList]
    decide +kernel
  · have hinf : word = "-inf" := eq_of_describe_float hword
    rw [← hinf]
    exact hspecial (by decide)

end Value

end ScriptBridge
