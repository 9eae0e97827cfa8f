import Mathlib.Data.Nat.Dist
import ScriptBridge.Number.Rounding
import ScriptBridge.Proofs.Number.Grid

/-!
Rounding finds the nearest magnitude. Among all codes, those past the largest finite magnitude
included, the code of a ratio is one whose magnitude is nearest to the ratio, and an even one where
another is equally near. A ratio that is a magnitude keeps its code.
-/
namespace ScriptBridge.Number

theorem le_divHalfEven (n d : Nat) : n / d ≤ divHalfEven n d := by
  simp only [divHalfEven]
  split
  · exact Nat.le_refl _
  · split <;> omega

theorem divHalfEven_le (n d : Nat) : divHalfEven n d ≤ n / d + 1 := by
  simp only [divHalfEven]
  split
  · omega
  · split <;> omega

theorem two_mul_dist_divHalfEven {d : Nat} (hd : 0 < d) (n : Nat) :
    2 * (divHalfEven n d * d).dist n < d ∨
      2 * (divHalfEven n d * d).dist n = d ∧ divHalfEven n d % 2 = 0 := by
  have hn : d * (n / d) + n % d = n := Nat.div_add_mod n d
  have hr : n % d < d := Nat.mod_lt n hd
  rw [Nat.mul_comm d] at hn
  simp only [divHalfEven, Nat.dist]
  generalize n / d = q at *
  have hnext : (q + 1) * d = q * d + d := Nat.succ_mul q d
  split
  · omega
  · split
    · omega
    · rcases Nat.mod_two_eq_zero_or_one q with h | h
      · rw [h, Nat.add_zero]
        omega
      · rw [h]
        omega

theorem le_dist_add_dist {k p : Nat} (h : k ≠ p) (n d : Nat) :
    d ≤ (k * d).dist n + (p * d).dist n := by
  have htri := Nat.dist.triangle_inequality (k * d) n (p * d)
  have hpos : 1 ≤ k.dist p := Nat.dist_pos_of_ne h
  rw [Nat.dist_mul_right, Nat.dist_comm n] at htri
  exact (Nat.le_mul_of_pos_left d hpos).trans htri

theorem dist_divHalfEven_le {d : Nat} (hd : 0 < d) (n k : Nat) :
    (divHalfEven n d * d).dist n ≤ (k * d).dist n := by
  by_cases hk : k = divHalfEven n d
  · rw [hk]
  · have hsum := le_dist_add_dist hk n d
    have herr := two_mul_dist_divHalfEven hd n
    omega

theorem divHalfEven_even_of_dist_eq {n d k : Nat} (hd : 0 < d)
    (h : (k * d).dist n = (divHalfEven n d * d).dist n) (hk : k ≠ divHalfEven n d) :
    divHalfEven n d % 2 = 0 := by
  have hsum := le_dist_add_dist hk n d
  have herr := two_mul_dist_divHalfEven hd n
  omega

namespace Format

variable {f : Format}

/-- The code of a ratio is a shift with a rounded significand. Below the shift that leaves no bit
out, the ratio is not smaller than the least significand with its leading bit. -/
theorem exists_nearestCode_eq (f : Format) (n d : Nat) :
    ∃ shift, f.nearestCode n d = shift * 2 ^ f.fractionBits + divHalfEven n (d * 2 ^ shift) ∧
      divHalfEven n (d * 2 ^ shift) ≤ 2 ^ (f.fractionBits + 1) ∧
      (shift = 0 ∨ 2 ^ f.fractionBits * (d * 2 ^ shift) ≤ n) := by
  refine ⟨(n / d).log2 - f.fractionBits, rfl, ?_, ?_⟩
  · have hlt : n / d < 2 ^ ((n / d).log2 + 1) := Nat.lt_log2_self
    have hpow : 2 ^ ((n / d).log2 + 1) ≤
        2 ^ (f.fractionBits + 1) * 2 ^ ((n / d).log2 - f.fractionBits) := by
      rw [← Nat.pow_add]
      exact Nat.pow_le_pow_right Nat.two_pos (by omega)
    have hq : n / (d * 2 ^ ((n / d).log2 - f.fractionBits)) < 2 ^ (f.fractionBits + 1) := by
      rw [← Nat.div_div_eq_div_mul]
      exact Nat.div_lt_of_lt_mul (by rw [Nat.mul_comm]; exact hlt.trans_le hpow)
    exact (divHalfEven_le _ _).trans hq
  · by_cases hs : (n / d).log2 ≤ f.fractionBits
    · exact Or.inl (Nat.sub_eq_zero_of_le hs)
    · have h0 : n / d ≠ 0 := by
        intro h
        rw [h] at hs
        exact hs (by simp)
      have hle : 2 ^ (n / d).log2 ≤ n / d := Nat.log2_self_le h0
      have hpow : 2 ^ f.fractionBits * 2 ^ ((n / d).log2 - f.fractionBits) = 2 ^ (n / d).log2 := by
        rw [← Nat.pow_add]
        congr 1
        omega
      refine Or.inr ?_
      calc
        2 ^ f.fractionBits * (d * 2 ^ ((n / d).log2 - f.fractionBits))
            = 2 ^ (n / d).log2 * d := by rw [← hpow]; ring
        _ ≤ n / d * d := Nat.mul_le_mul_right d hle
        _ ≤ n := Nat.div_mul_le_self n d

theorem units_shift_divHalfEven {shift n d : Nat} (hd : 0 < d)
    (hle : divHalfEven n (d * 2 ^ shift) ≤ 2 ^ (f.fractionBits + 1))
    (hs : shift = 0 ∨ 2 ^ f.fractionBits * (d * 2 ^ shift) ≤ n) :
    f.units (shift * 2 ^ f.fractionBits + divHalfEven n (d * 2 ^ shift)) * d =
      divHalfEven n (d * 2 ^ shift) * (d * 2 ^ shift) := by
  have hD : 0 < d * 2 ^ shift := Nat.mul_pos hd (Nat.two_pow_pos shift)
  rw [units_add hle]
  · ring
  · refine hs.imp_right fun h => ((Nat.le_div_iff_mul_le hD).2 h).trans (le_divHalfEven _ _)

theorem units_lt_of_not_dvd {shift code : Nat} (h : ¬ 2 ^ shift ∣ f.units code) :
    f.units code < 2 ^ f.fractionBits * 2 ^ shift := by
  have hb : 2 ^ f.fractionBits ≤ 2 ^ (f.fractionBits + 1) :=
    Nat.pow_le_pow_right Nat.two_pos (Nat.le_succ _)
  rw [← units_add hb (Or.inr (Nat.le_refl _))]
  refine units_strictMono f (Nat.lt_of_not_le fun hle => h ?_)
  have hstep : f.step (shift * 2 ^ f.fractionBits + 2 ^ f.fractionBits) = 2 ^ shift := by
    rw [step, ← Nat.succ_mul, Nat.mul_div_cancel _ (Nat.two_pow_pos _)]
    rfl
  rw [← hstep]
  exact (step_dvd_step hle).trans (step_dvd_units code)

/-- No magnitude is nearer to a ratio than the one at its code, and one that is equally near at
another code leaves an even code to the ratio. -/
theorem nearestCode_spec (f : Format) (hf : 0 < f.fractionBits) (n : Nat) {d : Nat} (hd : 0 < d)
    (code : Nat) :
    (f.units (f.nearestCode n d) * d).dist n ≤ (f.units code * d).dist n ∧
      ((f.units code * d).dist n = (f.units (f.nearestCode n d) * d).dist n →
        code ≠ f.nearestCode n d → f.nearestCode n d % 2 = 0) := by
  obtain ⟨shift, he, hle, hs⟩ := exists_nearestCode_eq f n d
  have hD : 0 < d * 2 ^ shift := Nat.mul_pos hd (Nat.two_pow_pos shift)
  have hu := units_shift_divHalfEven hd hle hs
  rw [← he] at hu
  by_cases hdvd : 2 ^ shift ∣ f.units code
  · obtain ⟨k, hk⟩ := hdvd
    have hkd : f.units code * d = k * (d * 2 ^ shift) := by
      rw [hk]
      ring
    rw [hu, hkd]
    refine ⟨dist_divHalfEven_le hD n k, fun htie hne => ?_⟩
    have hkp : k ≠ divHalfEven n (d * 2 ^ shift) := by
      rintro rfl
      exact hne ((units_strictMono f).injective (Nat.eq_of_mul_eq_mul_right hd (hkd.trans hu.symm)))
    have heven := divHalfEven_even_of_dist_eq hD htie hkp
    obtain ⟨b, hb⟩ := Nat.exists_eq_add_of_le' hf
    rw [he, hb, Nat.pow_succ, ← Nat.mul_assoc, Nat.add_mod, heven]
    simp
  · have hs0 : shift ≠ 0 := fun h => hdvd (by rw [h]; exact Nat.one_dvd _)
    have hn := hs.resolve_left hs0
    have hlow : f.units code * d < 2 ^ f.fractionBits * (d * 2 ^ shift) := by
      calc
        f.units code * d < 2 ^ f.fractionBits * 2 ^ shift * d :=
          Nat.mul_lt_mul_of_pos_right (units_lt_of_not_dvd hdvd) hd
        _ = 2 ^ f.fractionBits * (d * 2 ^ shift) := by ring
    have hbest := dist_divHalfEven_le hD n (2 ^ f.fractionBits)
    rw [← hu] at hbest
    simp only [Nat.dist] at *
    omega

theorem dist_nearestCode_le (f : Format) (hf : 0 < f.fractionBits) (n : Nat) {d : Nat}
    (hd : 0 < d) (code : Nat) :
    (f.units (f.nearestCode n d) * d).dist n ≤ (f.units code * d).dist n :=
  (nearestCode_spec f hf n hd code).1

theorem nearestCode_of_eq (hf : 0 < f.fractionBits) {n d code : Nat} (hd : 0 < d)
    (h : n = f.units code * d) : f.nearestCode n d = code := by
  have hle := dist_nearestCode_le f hf n hd code
  rw [← h, Nat.dist_self, Nat.le_zero] at hle
  have he := Nat.eq_of_dist_eq_zero hle
  rw [h] at he
  rw [h]
  exact (units_strictMono f).injective (Nat.eq_of_mul_eq_mul_right hd he)

theorem nearestCode_le (hf : 0 < f.fractionBits) {n d code : Nat} (hd : 0 < d)
    (h : n ≤ f.units code * d) : f.nearestCode n d ≤ code := by
  refine Nat.le_of_not_lt fun hlt => ?_
  have hle := dist_nearestCode_le f hf n hd code
  have hmul := Nat.mul_lt_mul_of_pos_right (units_strictMono f hlt) hd
  simp only [Nat.dist] at hle
  omega

theorem le_nearestCode (hf : 0 < f.fractionBits) {n d code : Nat} (hd : 0 < d)
    (h : f.units code * d ≤ n) : code ≤ f.nearestCode n d := by
  refine Nat.le_of_not_lt fun hlt => ?_
  have hle := dist_nearestCode_le f hf n hd code
  have hmul := Nat.mul_lt_mul_of_pos_right (units_strictMono f hlt) hd
  simp only [Nat.dist] at hle
  omega

end Format

end ScriptBridge.Number
