import ScriptBridge.Proofs.Decode.Reading
import ScriptBridge.Proofs.Number.Pattern
import ScriptBridge.Proofs.Number.Subnormal
import ScriptBridge.Proofs.Number.Widening

/-!
What a float parameter receives. At double precision it is the number that was read. At single
precision it is the number that this one rounds to, over the whole range: normal and subnormal
results, overflow and data that are no numbers. Both are said of bit patterns and exact values.
-/
namespace ScriptBridge

open ScriptBridge.Number

namespace Number

theorem single_scale : Format.single.scale = 149 := by decide

theorem single_overflow : Format.single.overflow = 2 ^ 128 - 2 ^ 103 := by
  have hunits : Format.single.units (Format.single.infinityCode - 1) +
      Format.single.units Format.single.infinityCode + 2 ^ 103 * 2 ^ 150 = 2 ^ 128 * 2 ^ 150 := by
    decide +kernel
  have hpos : (0 : ℚ) < 2 ^ 150 := by positivity
  have hcast := congrArg (Nat.cast : ℕ → ℚ) hunits
  simp only [Nat.cast_add, Nat.cast_mul, Nat.cast_pow, Nat.cast_ofNat] at hcast
  rw [Format.overflow, single_scale, ← Nat.pow_succ', Nat.cast_add, Nat.cast_pow, Nat.cast_ofNat,
    div_eq_iff hpos.ne', sub_mul, ← hcast, add_sub_cancel_right]

/-- A number of single precision that a pattern of double precision rounds to. -/
structure Narrows (bits : ℕ) (y : Single) : Prop where
  nan : Format.double.IsNaN bits → y = .nan
  sign : ¬Format.double.IsNaN bits → Format.single.sign y.toBits = Format.double.sign bits
  infinity : Format.double.IsInfinity bits → Format.single.IsInfinity y.toBits
  overflow : ∀ q, Format.double.patternValue? bits = some q → 2 ^ 128 - 2 ^ 103 ≤ |q| →
    Format.single.IsInfinity y.toBits
  nearest : ∀ q, Format.double.patternValue? bits = some q → |q| < 2 ^ 128 - 2 ^ 103 →
    Format.single.IsNearestPattern y.toBits q
  subnormal : ∀ q, Format.double.patternValue? bits = some q → |q| < 1 / 2 ^ 126 →
    ∃ k : ℤ, Format.single.patternValue? y.toBits = some (k / 2 ^ 149 : ℚ) ∧
      IsHalfEven (q * 2 ^ 149) k

namespace Binary

theorem single_fractionBits_pos : 0 < Format.single.fractionBits := by decide

theorem single_exponentBits_ge : 2 ≤ Format.single.exponentBits := by decide

section

variable {f g : Format} {x : Binary f} {q : ℚ}

theorem convert_of_value? (g : Format) (h : x.value? = some q) :
    ∃ (s : Bool) (n d : ℕ), 0 < d ∧ q = (withSign s n / d : ℚ) ∧ x.convert g = ofRatio g s n d := by
  obtain ⟨s, code, rfl, rfl⟩ := exists_of_value? h
  exact ⟨s, _, _, Nat.two_pow_pos _, rfl, rfl⟩

theorem rounds_convert (hg : 0 < g.fractionBits) (he : 0 < g.exponentBits)
    (h : x.value? = some q) : ∃ s, Rounds s q (x.convert g) := by
  obtain ⟨s, n, d, hd, rfl, hx⟩ := convert_of_value? g h
  rw [hx]
  exact ⟨s, rounds_ofRatio hg he s n hd⟩

theorem sign_toBits_convert {bits : ℕ} (h : ¬f.IsNaN bits) :
    g.sign ((ofBits f bits).convert g).toBits = f.sign bits := by
  rw [ofBits_of_not_isNaN h, ofCode]
  split
  · exact sign_toBits_ofCode _ _
  · rw [convert, ← ofCode_infinityCode]
    exact sign_toBits_ofCode _ _

end

theorem exists_value?_convert {x : Double} {q : ℚ} (h : x.value? = some q)
    (hsmall : |q| < 1 / 2 ^ 126) :
    ∃ k : ℤ, (x.convert .single).value? = some (k / 2 ^ 149 : ℚ) ∧ IsHalfEven (q * 2 ^ 149) k := by
  obtain ⟨s, n, d, hd, rfl, hx⟩ := convert_of_value? .single h
  have hdq : (0 : ℚ) < d := by exact_mod_cast hd
  have hlt : n * 2 ^ Format.single.scale < 2 ^ Format.single.fractionBits * d := by
    rw [abs_withSign_div, div_lt_div_iff₀ hdq (by positivity), one_mul] at hsmall
    have hnat : n * 2 ^ 126 < d := by exact_mod_cast hsmall
    calc
      n * 2 ^ Format.single.scale = 2 ^ 23 * (n * 2 ^ 126) := by
        rw [single_scale]
        ring
      _ < 2 ^ 23 * d := Nat.mul_lt_mul_of_pos_left hnat (by decide)
  have hgrid := exists_value?_ofRatio single_exponentBits_ge s hd hlt
  rw [← hx, single_scale, Nat.cast_pow, Nat.cast_ofNat] at hgrid
  exact hgrid

theorem narrows_convert (bits : ℕ) : Narrows bits ((ofBits .double bits).convert .single) := by
  have hvalue : ∀ q, Format.double.patternValue? bits = some q →
      (ofBits .double bits).value? = some q :=
    fun q hq => (value?_ofBits (by decide) bits).trans hq
  have hround : ∀ q, Format.double.patternValue? bits = some q →
      ∃ s, Rounds s q ((ofBits .double bits).convert .single) :=
    fun q hq => rounds_convert single_fractionBits_pos (by decide) (hvalue q hq)
  refine ⟨fun h => ?_, sign_toBits_convert, fun h => ?_, fun q hq hlarge => ?_,
    fun q hq hlt => ?_, fun q hq hsmall => ?_⟩
  · rw [ofBits_of_isNaN h]
    rfl
  · rw [ofBits_of_isInfinity h]
    exact isInfinity_toBits single_fractionBits_pos _
  · rw [← single_overflow] at hlarge
    obtain ⟨s, hy⟩ := hround q hq
    rw [hy.eq_infinity hlarge]
    exact isInfinity_toBits single_fractionBits_pos s
  · rw [← single_overflow] at hlt
    obtain ⟨s, hy⟩ := hround q hq
    exact (hy.isNearest hlt).pattern single_fractionBits_pos single_exponentBits_ge
  · obtain ⟨k, hk, hround⟩ := exists_value?_convert (hvalue q hq) hsmall
    refine ⟨k, ?_, hround⟩
    rw [← value?_ofBits single_exponentBits_ge, ofBits_toBits single_fractionBits_pos, hk]

end Binary

end Number

namespace Tag

/-- A float parameter receives the number that was read, be it given by any bit pattern: the same
pattern at double precision, and what it rounds to at single precision. A number that is the double
of one of single precision has the value of that one and gives it back. -/
theorem decode_float_rounded {source : Source} {position bits : ℕ} (hbits : bits < 2 ^ 64)
    (hnumber : source.number? position = some (.ofBits .double bits)) (policy : Policy) :
    (∃ x : Double,
      decode source position policy (.scalar (.float .double)) =
          ⟨[], .ok ⟨.float .double, x⟩⟩ ∧
        (Format.double.IsNaN bits → x = .nan) ∧ (¬Format.double.IsNaN bits → x.toBits = bits)) ∧
      ∃ y : Single,
        decode source position policy (.scalar (.float .single)) =
            ⟨[], .ok ⟨.float .single, y⟩⟩ ∧
          Narrows bits y ∧
          ∀ z : Single, (z.convert .double).value? = z.value? ∧
            (.ofBits .double bits = z.convert .double → y = z) := by
  have hdouble : Scalar.read? source position (.float .double) = some (.ofBits .double bits) :=
    hnumber
  have hsingle : Scalar.read? source position (.float .single) =
      some ((Binary.ofBits .double bits).convert .single) :=
    congrArg (Option.map (Binary.convert .single)) hnumber
  refine ⟨⟨_, decode_of_read? hdouble policy, Binary.ofBits_of_isNaN, ?_⟩,
    _, decode_of_read? hsingle policy, Binary.narrows_convert bits, fun z => ⟨?_, fun hz => ?_⟩⟩
  · exact Binary.toBits_ofBits hbits
  · exact Binary.value?_convert single_widens_double (by decide) z
  · rw [hz]
    exact Binary.convert_convert single_widens_double (by decide) z

/-- The negative number halfway past the largest of single precision becomes an infinity, and the
positive one halfway to the smallest becomes zero. -/
theorem decode_float_halfway :
    let frame : Frame :=
      [.float (.ofBits .double 0xC7EFFFFFF0000000), .float (.ofBits .double 0x3690000000000000)]
    (∃ y : Single, decode frame.source 1 .strict (.scalar (.float .single)) =
        ⟨[], .ok ⟨.float .single, y⟩⟩ ∧ Format.single.IsInfinity y.toBits ∧
          Format.single.sign y.toBits = true) ∧
      ∃ y : Single, decode frame.source 2 .lenient (.scalar (.float .single)) =
        ⟨[], .ok ⟨.float .single, y⟩⟩ ∧ Format.single.patternValue? y.toBits = some 0 := by
  intro frame
  have hlarge : Format.double.patternValue? 0xC7EFFFFFF0000000 = some (-(2 ^ 128 - 2 ^ 103)) := by
    norm_num [Format.patternValue?, Format.patternMagnitude, Format.exponentField,
      Format.fractionField, Format.maxExponent, Format.sign, Format.bias, Format.double]
  have hsmall : Format.double.patternValue? 0x3690000000000000 = some (1 / 2 ^ 150) := by
    norm_num [Format.patternValue?, Format.patternMagnitude, Format.exponentField,
      Format.fractionField, Format.maxExponent, Format.sign, Format.bias, Format.double]
  obtain ⟨-, y, hy, hlarger, -⟩ := @decode_float_rounded frame.source 1 _ (by norm_num) rfl .strict
  obtain ⟨-, z, hz, hsmaller, -⟩ :=
    @decode_float_rounded frame.source 2 _ (by norm_num) rfl .lenient
  refine ⟨⟨y, hy, hlarger.overflow _ hlarge ?_, (hlarger.sign fun h => ?_).trans (by decide)⟩,
    z, hz, ?_⟩
  · rw [abs_neg]
    exact le_abs_self _
  · exact absurd h.exponent (by decide)
  · obtain ⟨k, hk, hhalf⟩ := hsmaller.subnormal _ hsmall (by norm_num [abs_of_pos])
    have hq : (1 / 2 ^ 150 * 2 ^ 149 : ℚ) = 1 / 2 := by norm_num
    rw [hq] at hhalf
    obtain ⟨hlow, hhigh⟩ := abs_le.1 hhalf.le_half
    have hnonneg : 0 ≤ k := by
      exact_mod_cast (by linarith : (0 : ℚ) ≤ k)
    have hle : k ≤ 1 := by
      exact_mod_cast (by linarith : (k : ℚ) ≤ 1)
    have hne : k ≠ 1 := by
      rintro rfl
      exact absurd (hhalf.even (by norm_num [abs_of_pos])) (by decide)
    have hzero : k = 0 := by omega
    rw [hk, hzero]
    norm_num

end Tag

end ScriptBridge
