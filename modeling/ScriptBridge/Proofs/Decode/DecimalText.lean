import ScriptBridge.Proofs.Decode.Truncation
import ScriptBridge.Proofs.Script.NumericText

/-!
Integers and their decimal texts. An integer slot is widened to a double, while a text is trimmed,
read digit by digit and rounded. Both come to the double that is nearest to the integer, so that
from there on no numeric type can tell them apart.
-/
namespace ScriptBridge

open ScriptBridge.Number ScriptBridge.Text

namespace Number.Numeral

variable {f : Format} {s : List Char} {n : Numeral}

def ofInt (i : Int) : Numeral := ⟨i < 0, Nat.toDigits 10 i.natAbs, [], 0⟩

theorem exists_sign_toString (i : Int) : ∃ sign, SignSpells sign (i < 0) ∧
    (toString i).toList = sign ++ Nat.toDigits 10 i.natAbs := by
  cases i with
  | ofNat n =>
    have hsign : decide (Int.ofNat n < 0) = false := by simp
    rw [hsign]
    exact ⟨[], .absent, by simp [Int.toString_eq_repr, Int.repr]⟩
  | negSucc n =>
    have hsign : decide (Int.negSucc n < 0) = true := by simp [Int.negSucc_lt_zero]
    rw [hsign]
    exact ⟨['-'], .minus, by simp [Int.toString_eq_repr, Int.repr]⟩

theorem spells_toString (i : Int) : Spells (toString i).toList (ofInt i) := by
  obtain ⟨sign, hsign, htext⟩ := exists_sign_toString i
  have hspells := Spells.mk hsign (.whole (digits_toDigits i.natAbs)) .absent
  rwa [List.append_nil, ← htext] at hspells

theorem magnitude_ofInt (i : Int) : (ofInt i).magnitude = ⟨i.natAbs, 0⟩ := by
  simp [magnitude, ofInt, digitsValue]

theorem toBinary_ofInt (hf : 0 < f.fractionBits) (he : 2 ≤ f.exponentBits) (i : Int) :
    (ofInt i).toBinary f = Binary.ofInt f i := by
  rw [toBinary, magnitude_ofInt, Decimal.toBinary_eq_ofRatio hf he]
  simp [Decimal.ratio, Binary.ofInt, ofInt]

theorem not_isBlank_of_isDigit {c : Char} (h : isDigit c) : ¬isBlank c := by
  rw [isDigit_iff] at h
  simp only [isBlank, Bool.or_eq_true, Bool.and_eq_true, decide_eq_true_eq, beq_iff_eq]
  omega

theorem not_isBlank_of_mem_marks : ∀ c ∈ marks, ¬isBlank c := by simp [marks, isBlank]

theorem Spells.not_isBlank (h : Spells s n) : ∀ c ∈ s, ¬isBlank c := by
  intro c hc
  rcases h.isDigit_or_mem_marks c hc with hdigit | hmark
  · exact not_isBlank_of_isDigit hdigit
  · exact not_isBlank_of_mem_marks c hmark

theorem Spells.isTrimmed (h : Spells s n) : IsTrimmed s where
  head c hc := h.not_isBlank c (List.mem_of_mem_head? hc)
  last c hc := h.not_isBlank c (List.mem_of_getLast? hc)

end Number.Numeral

namespace Value

variable {before after : String}

theorem number?_toString (hbefore : ∀ c ∈ before.toList, isBlank c)
    (hafter : ∀ c ∈ after.toList, isBlank c) (i : Int) :
    (Value.string (before ++ toString i ++ after)).number? = some (Binary.ofInt .double i) := by
  have hspells := Numeral.spells_toString i
  have htrims : TrimsTo (before ++ toString i ++ after).toList (toString i).toList :=
    ⟨hspells.isTrimmed, before.toList, after.toList, by simp, hbefore, hafter⟩
  have hrounds : (Numeral.ofInt i).RoundsTo (Binary.ofInt .double i) := by
    rw [Numeral.roundsTo_iff, Numeral.toBinary_ofInt Binary.double_fractionBits_pos
      Numeral.double_exponentBits_ge]
  exact number?_string_eq_some_iff.2 ⟨_, _, htrims, hspells, hrounds⟩

end Value

namespace Scalar

theorem exists_read?_of_number? {s : Scalar} (numeric : s ≠ .text) (x : Double) :
    ∃ v : s.Carrier, ∀ (source : Source) (position : Nat),
      source.number? position = some x → s.read? source position = some v := by
  cases s with
  | text => exact absurd rfl numeric
  | int signed width =>
    refine ⟨wordOfNumber width x, fun source position h => ?_⟩
    rw [read?, h, Option.map_some]
  | float kind =>
    cases kind with
    | double => exact ⟨x, fun source position h => h⟩
    | single =>
      refine ⟨Binary.convert .single x, fun source position h => ?_⟩
      rw [read?, h]
      rfl

end Scalar

namespace Tag

/-- An integer and its decimal text, with any blanks around it, are read as one double, the nearest
to the integer. A numeric type decodes both to one value, under either policy, and neither of them
is replaced by a zero. -/
theorem decode_decimal_text (i : Int64) {before after : String}
    (hbefore : ∀ c ∈ before.toList, isBlank c) (hafter : ∀ c ∈ after.toList, isBlank c)
    {s : Scalar} (numeric : s ≠ .text) {position : Nat} {frame frame' : Frame}
    (hint : frame.slot? position = some (.int i))
    (htext : frame'.slot? position = some (.string (before ++ toString i.toInt ++ after))) :
    ∃ (x : Double) (v : s.Carrier), x.IsNearest i.toInt ∧
      frame.source.number? position = some x ∧ frame'.source.number? position = some x ∧
      ∀ policy, decode frame.source position policy (.scalar s) = ⟨[], .ok ⟨s, v⟩⟩ ∧
        decode frame'.source position policy (.scalar s) = ⟨[], .ok ⟨s, v⟩⟩ := by
  have hnear : (Binary.ofInt .double i.toInt).IsNearest i.toInt :=
    Binary.isNearest_ofInt (Scalar.natAbs_toInt_le i)
  have hnumber : frame.source.number? position = some (.ofInt .double i.toInt) := by
    simp only [Frame.source, hint, Option.bind_some, Value.number?]
  have hnumber' : frame'.source.number? position = some (.ofInt .double i.toInt) := by
    simp only [Frame.source, htext, Option.bind_some, Value.number?_toString hbefore hafter]
  obtain ⟨v, hread⟩ := Scalar.exists_read?_of_number? numeric (Binary.ofInt .double i.toInt)
  exact ⟨_, v, hnear, hnumber, hnumber', fun policy =>
    ⟨decode_of_read? (hread _ _ hnumber) policy, decode_of_read? (hread _ _ hnumber') policy⟩⟩

/-- An integer halfway between two doubles becomes the even one of them, be it spelled between
blanks or not. The least integer decodes like its text as well. -/
theorem decode_halfway_text :
    let frame : Frame := [.int 9007199254740993, .int (-9223372036854775808)]
    let frame' : Frame :=
      [.string "\u3000 9007199254740993\n", .string "-9223372036854775808", .nil]
    decode frame'.source 1 .strict (.scalar (.int false .w64)) =
        ⟨[], .ok ⟨.int false .w64, BitVec.ofNat Width.w64.bits 9007199254740992⟩⟩ ∧
      decode frame'.source 2 .lenient (.scalar (.float .single)) =
        decode frame.source 2 .lenient (.scalar (.float .single)) := by
  intro frame frame'
  obtain ⟨-, v, -, -, -, hhalfway⟩ := @decode_decimal_text 9007199254740993 "\u3000 " "\n"
    (by simp [isBlank]) (by simp [isBlank]) (.int false .w64) (by simp) 1 frame frame' rfl
    (by decide +kernel)
  obtain ⟨-, w, -, -, -, hleast⟩ := @decode_decimal_text (-9223372036854775808) "" ""
    (by simp) (by simp) (.float .single) (by simp) 2 frame frame' rfl (by decide +kernel)
  have hvalue : Scalar.wordOfNumber .w64 (.ofInt .double (Int64.toInt 9007199254740993)) =
      BitVec.ofNat Width.w64.bits 9007199254740992 := by
    decide +kernel
  have hnumber : frame.source.number? 1 =
      some (.ofInt .double (Int64.toInt 9007199254740993)) := rfl
  have hint := Scalar.decode_int_of_number? hnumber .strict false .w64
  rw [hvalue, (hhalfway .strict).1, ← (hhalfway .strict).2] at hint
  exact ⟨hint, (hleast .lenient).2.trans (hleast .lenient).1.symm⟩

end Tag

end ScriptBridge
