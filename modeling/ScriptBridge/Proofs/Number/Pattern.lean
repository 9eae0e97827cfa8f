import ScriptBridge.Proofs.Number.Rounds

/-!
Bit patterns by their fields. The sign, the exponent and the fraction of a pattern say whether it
is a NaN or an infinity, and give it an exact value otherwise. A pattern is read as the datum that
its fields say, and it is the only pattern of that datum unless it is a NaN.
-/
namespace ScriptBridge.Number

variable {f : Format} {bits : ℕ}

namespace Format

def sign (f : Format) (bits : ℕ) : Bool := bits / 2 ^ (f.exponentBits + f.fractionBits) % 2 == 1

def exponentField (f : Format) (bits : ℕ) : ℕ := bits / 2 ^ f.fractionBits % 2 ^ f.exponentBits

def fractionField (f : Format) (bits : ℕ) : ℕ := bits % 2 ^ f.fractionBits

def bias (f : Format) : ℕ := 2 ^ (f.exponentBits - 1) - 1

def maxExponent (f : Format) : ℕ := 2 ^ f.exponentBits - 1

structure IsNaN (f : Format) (bits : ℕ) : Prop where
  exponent : f.exponentField bits = f.maxExponent
  fraction : f.fractionField bits ≠ 0

structure IsInfinity (f : Format) (bits : ℕ) : Prop where
  exponent : f.exponentField bits = f.maxExponent
  fraction : f.fractionField bits = 0

/-- The exact magnitude of a finite pattern. The leading bit of its significand is not written, and
is zero where the exponent field is. -/
def patternMagnitude (f : Format) (bits : ℕ) : ℚ :=
  if f.exponentField bits = 0 then
    f.fractionField bits / 2 ^ f.fractionBits * 2 ^ (1 - f.bias : ℤ)
  else
    (1 + f.fractionField bits / 2 ^ f.fractionBits) * 2 ^ (f.exponentField bits - f.bias : ℤ)

def patternValue? (f : Format) (bits : ℕ) : Option ℚ :=
  if f.exponentField bits = f.maxExponent then none
  else some (if f.sign bits then -f.patternMagnitude bits else f.patternMagnitude bits)

/-- No finite pattern has a value nearer to the ratio, and one that is equally near and different
leaves an even significand to this one. -/
def IsNearestPattern (f : Format) (bits : ℕ) (q : ℚ) : Prop :=
  ∃ r, f.patternValue? bits = some r ∧ ∀ other s, f.patternValue? other = some s →
    |r - q| ≤ |s - q| ∧ (|s - q| = |r - q| → s ≠ r → bits % 2 = 0)

theorem code_div (f : Format) (bits : ℕ) :
    bits % f.signPlace / 2 ^ f.fractionBits = f.exponentField bits := by
  rw [signPlace, Nat.pow_add, Nat.mul_comm, Nat.mod_mul_right_div_self]
  rfl

theorem code_mod (f : Format) (bits : ℕ) :
    bits % f.signPlace % 2 ^ f.fractionBits = f.fractionField bits :=
  Nat.mod_mod_of_dvd _ (Nat.pow_dvd_pow 2 (Nat.le_add_left ..))

theorem code_eq (f : Format) (bits : ℕ) :
    bits % f.signPlace = 2 ^ f.fractionBits * f.exponentField bits + f.fractionField bits := by
  rw [← code_div, ← code_mod, Nat.div_add_mod]

theorem exponentField_le (f : Format) (bits : ℕ) : f.exponentField bits ≤ f.maxExponent :=
  Nat.le_sub_one_of_lt (Nat.mod_lt _ (Nat.two_pow_pos _))

theorem infinityCode_eq (f : Format) : f.infinityCode = 2 ^ f.fractionBits * f.maxExponent :=
  Nat.mul_comm ..

theorem code_lt_infinityCode_iff :
    bits % f.signPlace < f.infinityCode ↔ f.exponentField bits ≠ f.maxExponent := by
  rw [infinityCode_eq, Nat.mul_comm, ← Nat.div_lt_iff_lt_mul (Nat.two_pow_pos _), code_div]
  exact lt_iff_le_and_ne.trans (and_iff_right (f.exponentField_le bits))

theorem infinityCode_lt_code_iff : f.infinityCode < bits % f.signPlace ↔ f.IsNaN bits := by
  constructor
  · intro h
    have hexp : f.exponentField bits = f.maxExponent :=
      not_not.1 fun hne => (code_lt_infinityCode_iff.2 hne).not_gt h
    refine ⟨hexp, fun hzero => h.ne' ?_⟩
    rw [code_eq, hexp, hzero, infinityCode_eq, Nat.add_zero]
  · rintro ⟨hexp, hfrac⟩
    rw [code_eq, hexp, infinityCode_eq]
    exact Nat.lt_add_of_pos_right (Nat.pos_of_ne_zero hfrac)

theorem IsInfinity.code_eq (h : f.IsInfinity bits) : bits % f.signPlace = f.infinityCode := by
  rw [Format.code_eq, h.exponent, h.fraction, infinityCode_eq, Nat.add_zero]

theorem scale_eq (he : 2 ≤ f.exponentBits) : (f.scale : ℤ) = f.bias - 1 + f.fractionBits := by
  obtain ⟨b, hb⟩ := Nat.exists_eq_add_of_le' he
  have htwo : 2 ≤ 2 ^ (b + 1) := Nat.le_self_pow (Nat.succ_ne_zero b) 2
  rw [scale, bias, hb, show b + 2 - 1 = b + 1 from rfl]
  omega

theorem units_code (f : Format) (bits : ℕ) :
    f.units (bits % f.signPlace) =
      if f.exponentField bits = 0 then f.fractionField bits
      else (2 ^ f.fractionBits + f.fractionField bits) * 2 ^ (f.exponentField bits - 1) := by
  have hpos : 0 < 2 ^ f.fractionBits := Nat.two_pow_pos _
  have hlt : bits % f.signPlace < 2 ^ f.fractionBits ↔ f.exponentField bits = 0 := by
    rw [← code_div, Nat.div_eq_zero_iff_lt hpos]
  rw [units, code_div, code_mod]
  split <;> rename_i h
  · rw [if_pos (hlt.1 h), code_eq, hlt.1 h, Nat.mul_zero, Nat.zero_add]
  · rw [if_neg (mt hlt.2 h)]

theorem units_code_div (he : 2 ≤ f.exponentBits) (bits : ℕ) :
    (f.units (bits % f.signPlace) : ℚ) / (2 ^ f.scale : ℕ) = f.patternMagnitude bits := by
  have htwo : (2 : ℚ) ≠ 0 := two_ne_zero
  have hscale : ((2 ^ f.scale : ℕ) : ℚ) = 2 ^ (f.bias - 1 : ℤ) * 2 ^ f.fractionBits := by
    rw [← zpow_natCast 2 f.fractionBits, ← zpow_add₀ htwo, ← scale_eq he, zpow_natCast,
      Nat.cast_pow, Nat.cast_ofNat]
  rw [units_code, patternMagnitude, hscale]
  split
  · rw [← neg_sub, zpow_neg]
    field_simp
  · rename_i hzero
    obtain ⟨e, he⟩ := Nat.exists_eq_succ_of_ne_zero hzero
    have hpow : (2 : ℚ) ^ (((e + 1 : ℕ) : ℤ) - f.bias) = 2 ^ e / 2 ^ (f.bias - 1 : ℤ) := by
      rw [← zpow_natCast, ← zpow_sub₀ htwo]
      congr 1
      omega
    rw [he, hpow]
    push_cast
    field_simp

theorem IsInfinity.not_isNaN (h : f.IsInfinity bits) : ¬f.IsNaN bits :=
  fun hn => hn.fraction h.fraction

end Format

namespace Binary

theorem ofBits_of_isNaN (h : f.IsNaN bits) : ofBits f bits = .nan :=
  if_pos (Format.infinityCode_lt_code_iff.2 h)

theorem ofBits_of_not_isNaN (h : ¬f.IsNaN bits) :
    ofBits f bits = ofCode f (f.sign bits) (bits % f.signPlace) :=
  if_neg (mt Format.infinityCode_lt_code_iff.1 h)

theorem ofCode_infinityCode (s : Bool) : ofCode f s f.infinityCode = .infinity s :=
  dif_neg (lt_irrefl _)

theorem ofBits_of_isInfinity (h : f.IsInfinity bits) : ofBits f bits = .infinity (f.sign bits) := by
  rw [ofBits_of_not_isNaN h.not_isNaN, h.code_eq, ofCode_infinityCode]

theorem ofBits_of_finite (h : f.exponentField bits ≠ f.maxExponent) :
    ofBits f bits = .finite (f.sign bits)
      ⟨bits % f.signPlace, Format.code_lt_infinityCode_iff.2 h⟩ := by
  rw [ofBits_of_not_isNaN fun hn => h hn.exponent]
  exact dif_pos _

theorem ofBits_eq_infinity_iff : (∃ s, ofBits f bits = .infinity s) ↔ f.IsInfinity bits := by
  refine ⟨fun ⟨s, h⟩ => ?_, fun h => ⟨_, ofBits_of_isInfinity h⟩⟩
  by_cases hexp : f.exponentField bits = f.maxExponent
  · refine ⟨hexp, not_not.1 fun hfrac => ?_⟩
    rw [ofBits_of_isNaN ⟨hexp, hfrac⟩] at h
    cases h
  · rw [ofBits_of_finite hexp] at h
    cases h

theorem value?_ofBits (he : 2 ≤ f.exponentBits) (bits : ℕ) :
    (ofBits f bits).value? = f.patternValue? bits := by
  by_cases hexp : f.exponentField bits = f.maxExponent
  · rw [Format.patternValue?, if_pos hexp]
    by_cases hfrac : f.fractionField bits = 0
    · rw [ofBits_of_isInfinity ⟨hexp, hfrac⟩]
      rfl
    · rw [ofBits_of_isNaN ⟨hexp, hfrac⟩]
      rfl
  · rw [ofBits_of_finite hexp, value?, Format.patternValue?, if_neg hexp,
      ← Format.units_code_div he, withSign]
    split <;> simp [neg_div]

theorem signPlace_eq (f : Format) : f.signPlace = f.infinityCode + 2 ^ f.fractionBits := by
  have hpow : 0 < 2 ^ f.exponentBits := Nat.two_pow_pos _
  rw [Format.signPlace, Format.infinityCode, Nat.pow_add, ← Nat.succ_mul]
  congr 1
  omega

theorem sign_signBit_add (s : Bool) {code : ℕ} (h : code < f.signPlace) :
    f.sign (signBit f s + code) = s ∧ (signBit f s + code) % f.signPlace = code := by
  have hpos : 0 < f.signPlace := Nat.zero_lt_of_lt h
  have hsign : f.sign (signBit f s + code) = ((signBit f s + code) / f.signPlace % 2 == 1) := rfl
  rw [hsign]
  cases s
  · simp [signBit, Nat.div_eq_of_lt h, Nat.mod_eq_of_lt h]
  · simp [signBit, Nat.add_div_left _ hpos, Nat.div_eq_of_lt h, Nat.mod_eq_of_lt h]

theorem toBits_ofCode (s : Bool) {code : ℕ} (h : code ≤ f.infinityCode) :
    (ofCode f s code).toBits = signBit f s + code := by
  unfold ofCode
  split
  · rfl
  · rename_i hge
    rw [toBits, le_antisymm h (not_lt.1 hge)]

theorem exists_ofCode {x : Binary f} (h : x ≠ .nan) :
    ∃ s code, code ≤ f.infinityCode ∧ x = ofCode f s code := by
  cases x with
  | nan => exact absurd rfl h
  | infinity s => exact ⟨s, _, le_rfl, (ofCode_infinityCode s).symm⟩
  | finite s code => exact ⟨s, code, code.isLt.le, (ofCode_val s code).symm⟩

theorem ofBits_toBits (hf : 0 < f.fractionBits) (x : Binary f) : ofBits f x.toBits = x := by
  have hplace := signPlace_eq f
  have hhalf : 0 < 2 ^ (f.fractionBits - 1) := Nat.two_pow_pos _
  have hfull : 2 ^ (f.fractionBits - 1) < 2 ^ f.fractionBits :=
    Nat.pow_lt_pow_right Nat.one_lt_two (Nat.sub_one_lt hf.ne')
  by_cases hx : x = .nan
  · subst hx
    refine ofBits_of_isNaN (Format.infinityCode_lt_code_iff.1 ?_)
    rw [toBits, Nat.mod_eq_of_lt (by omega)]
    omega
  · obtain ⟨s, code, hle, rfl⟩ := exists_ofCode hx
    have hlt : code < f.signPlace := by omega
    obtain ⟨hsign, hcode⟩ := sign_signBit_add s hlt
    rw [toBits_ofCode s hle, ofBits_of_not_isNaN, hsign, hcode]
    rw [← Format.infinityCode_lt_code_iff, hcode]
    omega

/-- A pattern is the only one of its datum unless that is a NaN. -/
theorem toBits_ofBits (hbits : bits < 2 * f.signPlace) (h : ¬f.IsNaN bits) :
    (ofBits f bits).toBits = bits := by
  have hle : bits % f.signPlace ≤ f.infinityCode :=
    not_lt.1 (mt Format.infinityCode_lt_code_iff.1 h)
  have hquot : bits / f.signPlace < 2 := Nat.div_lt_of_lt_mul (Nat.mul_comm 2 _ ▸ hbits)
  have hdiv := Nat.div_add_mod bits f.signPlace
  have hsign : f.sign bits = (bits / f.signPlace % 2 == 1) := rfl
  rw [ofBits_of_not_isNaN h, toBits_ofCode _ hle, hsign, signBit]
  rcases Nat.le_one_iff_eq_zero_or_eq_one.1 (Nat.le_of_lt_succ hquot) with h0 | h1
  · simp [h0] at hdiv ⊢
    omega
  · simp [h1] at hdiv ⊢
    omega

theorem isInfinity_toBits (hf : 0 < f.fractionBits) (s : Bool) :
    f.IsInfinity (infinity s : Binary f).toBits :=
  ofBits_eq_infinity_iff.1 ⟨s, ofBits_toBits hf _⟩

theorem sign_toBits_ofCode (s : Bool) (code : ℕ) : f.sign (ofCode f s code).toBits = s := by
  have hlt : f.infinityCode < f.signPlace := by
    rw [signPlace_eq]
    exact Nat.lt_add_of_pos_right (Nat.two_pow_pos _)
  unfold ofCode
  split
  · rename_i h
    exact (sign_signBit_add s (h.trans hlt)).1
  · exact (sign_signBit_add s hlt).1

theorem IsEven.toBits (he : 0 < f.exponentBits) {x : Binary f} (h : x.IsEven) :
    x.toBits % 2 = 0 := by
  cases x with
  | nan => exact h.elim
  | infinity s => exact h.elim
  | finite s code =>
    have hplace : f.signPlace % 2 = 0 := by
      rw [Format.signPlace, Nat.pow_mod, Nat.mod_self, Nat.zero_pow (by omega), Nat.zero_mod]
    have hcode : code.val % 2 = 0 := h
    cases s <;> simp [Binary.toBits, signBit, Nat.add_mod, hplace, hcode]

theorem IsNearest.pattern (hf : 0 < f.fractionBits) (he : 2 ≤ f.exponentBits) {x : Binary f}
    {q : ℚ} (h : x.IsNearest q) : f.IsNearestPattern x.toBits q := by
  obtain ⟨r, hr, hnear⟩ := h
  refine ⟨r, ?_, fun other s hs => ?_⟩
  · rw [← value?_ofBits he, ofBits_toBits hf, hr]
  · rw [← value?_ofBits he] at hs
    obtain ⟨hle, heven⟩ := hnear _ s hs
    exact ⟨hle, fun htie hne => (heven htie hne).toBits (by omega)⟩

end Binary

end ScriptBridge.Number
