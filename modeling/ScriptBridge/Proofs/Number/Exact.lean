import ScriptBridge.Number.Arithmetic
import ScriptBridge.Proofs.Number.Nearest

/-!
Arithmetic that does not round. Taking the fraction off, the remainder, and the sum of numbers of
opposite sign within a factor of two of each other are exact, and casts of numbers within the range
of a word are.
-/
namespace ScriptBridge.Number.Binary

variable {f : Format}

theorem ofCode_val (negative : Bool) (code : Fin f.infinityCode) :
    ofCode f negative code = .finite negative code :=
  dif_pos code.isLt

theorem ofRatio_of_eq (hf : 0 < f.fractionBits) (negative : Bool) {n d : Nat} (hd : 0 < d)
    {code : Fin f.infinityCode} (h : n * 2 ^ f.scale = f.units code * d) :
    ofRatio f negative n d = .finite negative code := by
  rw [ofRatio, Format.nearestCode_of_eq hf hd h, ofCode_val]

theorem trunc_finite (hf : 0 < f.fractionBits) (negative : Bool) (code : Fin f.infinityCode) :
    ∃ c : Fin f.infinityCode, trunc (.finite negative code) = .finite negative c ∧
      f.units c = f.units code / 2 ^ f.scale * 2 ^ f.scale := by
  obtain ⟨b, hb, hu⟩ := Format.exists_units_div_mul (f := f) code f.scale
  refine ⟨⟨b, hb.trans_lt code.isLt⟩, ofRatio_of_eq hf negative Nat.one_pos ?_, hu⟩
  rw [Nat.mul_one, hu]

theorem rem_finite (hf : 0 < f.fractionBits) (s t : Bool) (c : Fin f.infinityCode)
    {d : Fin f.infinityCode} (hd : d.val ≠ 0) :
    ∃ b : Fin f.infinityCode, rem (.finite s c) (.finite t d) = .finite s b ∧
      f.units b = f.units c % f.units d := by
  obtain ⟨b, hb, hu⟩ := Format.exists_units_mod (f := f) c d
  refine ⟨⟨b, hb.trans_lt c.isLt⟩, ?_, hu⟩
  rw [rem, if_neg hd, ofRatio_of_eq hf s (Nat.two_pow_pos _)]
  rw [hu]

theorem add_finite_of_opposite (hf : 0 < f.fractionBits) {c d : Fin f.infinityCode}
    (hlt : f.units c < f.units d) (hle : f.units d ≤ 2 * f.units c) :
    ∃ b : Fin f.infinityCode, add (.finite true c) (.finite false d) = .finite false b ∧
      f.units b = f.units d - f.units c := by
  obtain ⟨b, hb, hu⟩ := Format.exists_units_sub hle
  refine ⟨⟨b, hb.trans_lt d.isLt⟩, ?_, hu⟩
  have hsum : withSign true (f.units c) + withSign false (f.units d) =
      ((f.units d - f.units c : Nat) : Int) := by
    simp only [withSign, if_true, Bool.false_eq_true, if_false]
    omega
  have hpos : 0 < f.units d - f.units c := Nat.sub_pos_of_lt hlt
  simp only [add, hsum]
  generalize f.units d - f.units c = n at *
  have hne : ¬ (n : Int) = 0 := by omega
  have hnn : ¬ (n : Int) < 0 := by omega
  rw [if_neg hne, decide_eq_false hnn, Int.natAbs_natCast,
    ofRatio_of_eq hf false (Nat.two_pow_pos _)]
  rw [hu]

theorem withSign_mul (negative : Bool) (n k : Nat) :
    withSign negative (n * k) = withSign negative n * k := by
  cases negative
  · exact Int.natCast_mul n k
  · simp only [withSign, if_true, Int.natCast_mul, Int.neg_mul]

theorem le_finite {s t : Bool} {c d : Fin f.infinityCode} {m n : Nat}
    (hc : f.units c = m * 2 ^ f.scale) (hd : f.units d = n * 2 ^ f.scale) :
    le (.finite s c) (.finite t d) = decide (withSign s m ≤ withSign t n) := by
  have hpos : (0 : Int) < (2 ^ f.scale : Nat) := by
    exact_mod_cast Nat.two_pow_pos f.scale
  simp only [le, hc, hd, withSign_mul, Int.mul_le_mul_iff_of_pos_right hpos]

theorem saturate_finite {low high : Int} {negative : Bool} {code : Fin f.infinityCode} {n : Nat}
    (h : f.units code = n * 2 ^ f.scale) (hlow : low ≤ withSign negative n)
    (hhigh : withSign negative n ≤ high) :
    saturate low high (.finite negative code) = withSign negative n := by
  rw [saturate, h, Nat.mul_div_cancel _ (Nat.two_pow_pos _), min_eq_right hhigh, max_eq_right hlow]

end ScriptBridge.Number.Binary
