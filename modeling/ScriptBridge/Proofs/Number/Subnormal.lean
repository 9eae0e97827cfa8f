import ScriptBridge.Proofs.Number.Rounds

/-!
Rounding below the normal numbers. There the magnitudes of a format are the multiples of its
smallest positive number, and a ratio gets the nearest multiple, the even one of two that are
equally near.
-/
namespace ScriptBridge.Number

variable {f : Format}

/-- The whole number nearest to a ratio, the even one of two that are equally near. -/
structure IsHalfEven (q : ℚ) (k : ℤ) : Prop where
  le_half : |k - q| ≤ 1 / 2
  even : |k - q| = 1 / 2 → Even k

namespace Format

theorem units_of_le {code : ℕ} (h : code ≤ 2 ^ f.fractionBits) : f.units code = code := by
  have hle : code ≤ 2 ^ (f.fractionBits + 1) :=
    h.trans (Nat.pow_le_pow_right Nat.two_pos (Nat.le_succ _))
  have hunits : f.units (0 * 2 ^ f.fractionBits + code) = code * 2 ^ 0 :=
    units_add hle (Or.inl rfl)
  simpa using hunits

theorem nearestCode_of_lt {n d : ℕ} (h : n / d < 2 ^ f.fractionBits) :
    f.nearestCode n d = divHalfEven n d := by
  have hlog : (n / d).log2 ≤ f.fractionBits := by
    rcases Nat.eq_zero_or_pos (n / d) with h0 | hpos
    · simp [h0]
    · exact ((Nat.log2_lt hpos.ne').2 h).le
  rw [nearestCode, Nat.sub_eq_zero_of_le hlog, Nat.pow_zero, Nat.mul_one, Nat.zero_mul,
    Nat.zero_add]

theorem two_pow_fractionBits_lt_infinityCode (he : 2 ≤ f.exponentBits) :
    2 ^ f.fractionBits < f.infinityCode := by
  have hfour : 2 ^ 2 ≤ 2 ^ f.exponentBits := Nat.pow_le_pow_right Nat.two_pos he
  exact lt_mul_of_one_lt_left (Nat.two_pow_pos _) (by omega)

end Format

theorem isHalfEven_divHalfEven (s : Bool) (n : ℕ) {d : ℕ} (hd : 0 < d) :
    IsHalfEven (Binary.withSign s n / d) (Binary.withSign s (divHalfEven n d)) := by
  have hdq : (0 : ℚ) < d := by exact_mod_cast hd
  have herr := two_mul_dist_divHalfEven hd n
  have hdist := Binary.abs_withSign_div_sub s s (divHalfEven n d) n Nat.one_pos hd
  rw [if_pos rfl, Nat.cast_one, div_one, Nat.mul_one, Nat.one_mul] at hdist
  constructor
  · rw [hdist, div_le_div_iff₀ hdq two_pos]
    norm_cast
    omega
  · intro htie
    rw [hdist, div_eq_div_iff hdq.ne' two_ne_zero] at htie
    norm_cast at htie
    have heven : Even (divHalfEven n d : ℤ) := by
      exact_mod_cast Nat.even_iff.2 (by omega : divHalfEven n d % 2 = 0)
    cases s
    · exact heven
    · exact heven.neg

namespace Binary

theorem exists_value?_ofRatio (he : 2 ≤ f.exponentBits) (s : Bool) {n d : ℕ} (hd : 0 < d)
    (h : n * 2 ^ f.scale < 2 ^ f.fractionBits * d) :
    ∃ k : ℤ, (ofRatio f s n d).value? = some (k / (2 ^ f.scale : ℕ) : ℚ) ∧
      IsHalfEven (withSign s n / d * (2 ^ f.scale : ℕ)) k := by
  have hquot : n * 2 ^ f.scale / d < 2 ^ f.fractionBits :=
    Nat.div_lt_of_lt_mul (Nat.mul_comm d _ ▸ h)
  have hle : divHalfEven (n * 2 ^ f.scale) d ≤ 2 ^ f.fractionBits :=
    (divHalfEven_le _ d).trans hquot
  have hfinite := hle.trans_lt (Format.two_pow_fractionBits_lt_infinityCode he)
  refine ⟨withSign s (divHalfEven (n * 2 ^ f.scale) d), ?_, ?_⟩
  · rw [ofRatio, Format.nearestCode_of_lt hquot, ofCode, dif_pos hfinite, value?,
      Format.units_of_le hle]
  · have hround := isHalfEven_divHalfEven s (n * 2 ^ f.scale) hd
    rwa [withSign_mul, Int.cast_mul, Int.cast_natCast, mul_div_right_comm] at hround

end Binary

end ScriptBridge.Number
