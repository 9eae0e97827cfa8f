import ScriptBridge.Proofs.Decode.Reading
import ScriptBridge.Proofs.Number.Integer
import ScriptBridge.Proofs.Number.Word

/-!
Numbers become words by truncation. The remainder, the comparisons, the sum and the casts on the way
are all exact, so that the word of a finite number is that of its whole part.
-/
namespace ScriptBridge.Scalar

open ScriptBridge.Number ScriptBridge.Number.Binary

theorem exists_twoPow63_eq : ∃ c, twoPow63 = .finite false c ∧
    Format.double.units c = 2 ^ 63 * 2 ^ Format.double.scale :=
  ⟨⟨0x43E0000000000000, by decide⟩, by decide +kernel, by decide +kernel⟩

theorem exists_twoPow64_eq : ∃ c, twoPow64 = .finite false c ∧ c.val ≠ 0 ∧
    Format.double.units c = 2 ^ 64 * 2 ^ Format.double.scale :=
  ⟨⟨0x43F0000000000000, by decide⟩, by decide +kernel, by decide, by decide +kernel⟩

theorem toUnsigned_add_twoPow64 {c : Fin Format.double.infinityCode} {k : Nat} (hlow : 2 ^ 63 < k)
    (hk : k < 2 ^ 64) (hc : Format.double.units c = k * 2 ^ Format.double.scale) :
    toUnsigned 64 (add (.finite true c) twoPow64) = BitVec.ofInt 64 (-k) := by
  obtain ⟨c64, h64, -, hu64⟩ := exists_twoPow64_eq
  have hpos : 0 < 2 ^ Format.double.scale := Nat.two_pow_pos _
  have hlt : Format.double.units c < Format.double.units c64 := by
    rw [hc, hu64]
    exact Nat.mul_lt_mul_of_pos_right hk hpos
  have hle : Format.double.units c64 ≤ 2 * Format.double.units c := by
    rw [hc, hu64, ← Nat.mul_assoc]
    exact Nat.mul_le_mul_right _ (by omega)
  obtain ⟨b, hb, hub⟩ := add_finite_of_opposite double_fractionBits_pos hlt hle
  rw [hc, hu64, ← Nat.sub_mul] at hub
  have hval : withSign false (2 ^ 64 - k) = 2 ^ 64 - (k : Int) := by
    simp only [withSign, Bool.false_eq_true, if_false]
    omega
  rw [h64, hb, toUnsigned, saturate_finite hub (by omega) (by omega), hval]
  refine ofInt_eq_ofInt_iff.2 (Int.modEq_iff_dvd.2 ⟨-1, by ring⟩)

/-- The three casts agree with one another: each takes a whole number below `2 ^ 64` to its word. -/
theorem cast_whole (negative : Bool) {c : Fin Format.double.infinityCode} {k : Nat}
    (hk : k < 2 ^ 64) (hc : Format.double.units c = k * 2 ^ Format.double.scale) :
    (if twoPow63.le (.finite negative c) then toUnsigned 64 (.finite negative c)
      else if twoPow63.neg.le (.finite negative c) then toSigned 64 (.finite negative c)
      else toUnsigned 64 (add (.finite negative c) twoPow64)) =
      BitVec.ofInt 64 (withSign negative k) := by
  obtain ⟨c63, h63, hu63⟩ := exists_twoPow63_eq
  have hbound : withSign negative k < 2 ^ 64 := by
    unfold withSign
    split <;> omega
  rw [h63, neg, le_finite hu63 hc, le_finite hu63 hc]
  by_cases hhigh : withSign false (2 ^ 63) ≤ withSign negative k
  · have hge : (2 : Int) ^ 63 ≤ withSign negative k := by simpa [withSign] using hhigh
    rw [decide_eq_true hhigh, if_pos rfl, toUnsigned, saturate_finite hc (by omega) (by omega)]
  · have hlt : withSign negative k < 2 ^ 63 := by simpa [withSign] using hhigh
    rw [decide_eq_false hhigh, if_neg Bool.false_ne_true]
    by_cases hlow : withSign (!false) (2 ^ 63) ≤ withSign negative k
    · have hge : -(2 : Int) ^ 63 ≤ withSign negative k := by simpa [withSign] using hlow
      rw [decide_eq_true hlow, if_pos rfl, toSigned, saturate_finite hc (by omega) (by omega)]
    · have hneg : withSign negative k < -(2 : Int) ^ 63 := by simpa [withSign] using hlow
      rw [decide_eq_false hlow, if_neg Bool.false_ne_true]
      cases negative with
      | false =>
        simp only [withSign, Bool.false_eq_true, if_false] at hneg
        omega
      | true =>
        simp only [withSign, if_true] at hneg
        exact toUnsigned_add_twoPow64 (by omega) hk hc

theorem withSign_mod_modEq (negative : Bool) (n bits : Nat) :
    withSign negative (n % 2 ^ bits) ≡ withSign negative n [ZMOD 2 ^ bits] := by
  have h : ((n % 2 ^ bits : Nat) : Int) ≡ n [ZMOD 2 ^ bits] := by
    have he : ((n % 2 ^ bits : Nat) : Int) = n % 2 ^ bits := by push_cast; rfl
    rw [he]
    exact Int.mod_modEq _ _
  cases negative
  · simpa only [withSign, Bool.false_eq_true, if_false] using h
  · simpa only [withSign, if_true] using h.neg

theorem wrap_finite (negative : Bool) (code : Fin Format.double.infinityCode) :
    wrap (.finite negative code) = BitVec.ofInt 64
      (withSign negative (Format.double.units code / 2 ^ Format.double.scale)) := by
  obtain ⟨c1, htrunc, hu1⟩ := trunc_finite double_fractionBits_pos negative code
  obtain ⟨c64, h64, hne, hu64⟩ := exists_twoPow64_eq
  obtain ⟨c2, hrem, hu2⟩ := rem_finite double_fractionBits_pos negative false c1 hne
  rw [hu1, hu64, Nat.mul_mod_mul_right] at hu2
  have hr : (trunc (.finite negative code)).rem twoPow64 = .finite negative c2 := by
    rw [htrunc, h64, hrem]
  unfold wrap
  dsimp only
  rw [isFinite, if_pos rfl, hr, cast_whole negative (Nat.mod_lt _ (Nat.two_pow_pos 64)) hu2]
  exact ofInt_eq_ofInt_iff.2 (withSign_mod_modEq negative _ 64)

theorem width_bits_le (width : Width) : width.bits ≤ 64 := by
  cases width <;> decide

theorem wordOfNumber_finite (width : Width) (negative : Bool)
    (code : Fin Format.double.infinityCode) :
    wordOfNumber width (.finite negative code) = BitVec.ofInt width.bits
      (withSign negative (Format.double.units code / 2 ^ Format.double.scale)) := by
  rw [wordOfNumber, wrap_finite, setWidth_ofInt (width_bits_le width)]

theorem wordOfNumber_of_not_finite (width : Width) {x : Double} (h : x.isFinite = false) :
    wordOfNumber width x = 0 := by
  rw [wordOfNumber, wrap, h, if_neg Bool.false_ne_true]
  exact BitVec.setWidth_zero _ _

/-- The word of a number is that of its value without the fraction. -/
theorem wordOfNumber_of_value? (width : Width) {x : Double} {q : ℚ} (h : x.value? = some q) :
    wordOfNumber width x = BitVec.ofInt width.bits (wholePart q) := by
  obtain ⟨negative, code, rfl, rfl⟩ := exists_of_value? h
  rw [wordOfNumber_finite, wholePart_withSign_div]

theorem decode_int_of_number? {source : Source} {position : Nat} {x : Double}
    (h : source.number? position = some x) (policy : Policy) (signed : Bool) (width : Width) :
    Tag.decode source position policy (.scalar (.int signed width)) =
      ⟨[], .ok ⟨.int signed width, wordOfNumber width x⟩⟩ := by
  apply Tag.decode_of_read?
  rw [read?, h, Option.map_some]

theorem natAbs_toInt_le (i : Int64) : i.toInt.natAbs ≤ 2 ^ 63 := by
  have hlow := i.le_toInt
  have hhigh := i.toInt_lt
  omega

/-- An integer parameter gets the one value of its type that is congruent to the number without its
fraction, and zero for a number without a value. An integer slot is read as the nearest double,
which is an integer again, and the same one up to `2 ^ 53`. -/
theorem decode_int_eq_truncation (signed : Bool) (width : Width) (policy : Policy)
    (position : Nat) :
    (∀ (source : Source) (x : Double), source.number? position = some x →
      ∃ v : BitVec width.bits,
        Tag.decode source position policy (.scalar (.int signed width)) =
          ⟨[], .ok ⟨.int signed width, v⟩⟩ ∧
        (x.isFinite = false → v = 0) ∧
        ∀ q, x.value? = some q → ∀ u : BitVec width.bits,
          wordValue signed u ≡ wholePart q [ZMOD 2 ^ width.bits] ↔ u = v) ∧
    ∀ (frame : Frame) (i : Int64), frame.slot? position = some (.int i) →
      ∃ (x : Double) (n : ℤ) (v : BitVec width.bits),
        frame.source.number? position = some x ∧ x.IsNearest i.toInt ∧ x.value? = some (n : ℚ) ∧
        Tag.decode frame.source position policy (.scalar (.int signed width)) =
          ⟨[], .ok ⟨.int signed width, v⟩⟩ ∧
        wordValue signed v ≡ n [ZMOD 2 ^ width.bits] ∧
        (|i.toInt| ≤ 2 ^ 53 → wordValue signed v ≡ i.toInt [ZMOD 2 ^ width.bits]) := by
  constructor
  · intro source x h
    refine ⟨_, decode_int_of_number? h policy signed width, wordOfNumber_of_not_finite width, ?_⟩
    intro q hq u
    rw [wordOfNumber_of_value? width hq]
    exact (eq_ofInt_iff signed).symm
  · intro frame i h
    have hnumber : frame.source.number? position = some (.ofInt .double i.toInt) := by
      simp only [Frame.source, h, Option.bind_some, Value.number?]
    obtain ⟨n, hn, hsame⟩ := exists_value?_ofInt (natAbs_toInt_le i)
    have hword : wordValue signed (wordOfNumber width (.ofInt .double i.toInt)) ≡ n
        [ZMOD 2 ^ width.bits] := by
      rw [← eq_ofInt_iff, wordOfNumber_of_value? width hn, wholePart_intCast]
    refine ⟨_, n, _, hnumber, isNearest_ofInt (natAbs_toInt_le i), hn,
      decode_int_of_number? hnumber policy signed width, hword, fun hi => ?_⟩
    rw [Int.abs_eq_natAbs] at hi
    rw [hsame (by omega)] at hword
    exact hword

/-- A double below the signed words, and an integer too large for its byte. -/
theorem decode_int_out_of_range :
    let frame : Frame := [.float (.finite true ⟨0x43E0000000000001, by decide⟩), .int 300]
    (∃ v : BitVec 64, Tag.decode frame.source 1 .strict (.scalar (.int false .w64)) =
        ⟨[], .ok ⟨.int false .w64, v⟩⟩ ∧ wordValue false v ≡ -(2 ^ 63 + 2048) [ZMOD 2 ^ 64]) ∧
      ∃ v : BitVec 8, Tag.decode frame.source 2 .lenient (.scalar (.int false .w8)) =
        ⟨[], .ok ⟨.int false .w8, v⟩⟩ ∧ wordValue false v ≡ 300 [ZMOD 2 ^ 8] := by
  intro frame
  obtain ⟨v, hv, -, hval⟩ := (decode_int_eq_truncation false .w64 .strict 1).1 frame.source _ rfl
  have hwhole : wholePart (withSign true (Format.double.units 0x43E0000000000001) /
      (2 ^ Format.double.scale : ℕ)) = -(2 ^ 63 + 2048) := by
    rw [wholePart_withSign_div]
    decide +kernel
  obtain ⟨x, n, u, -, -, -, hu, -, hsmall⟩ :=
    (decode_int_eq_truncation false .w8 .lenient 2).2 frame 300 rfl
  have hint : (300 : Int64).toInt = 300 := by decide
  rw [hint] at hsmall
  refine ⟨⟨v, hv, ?_⟩, u, hu, hsmall (by decide)⟩
  rw [← hwhole]
  exact (hval _ rfl v).2 rfl

end ScriptBridge.Scalar
