import Mathlib.Data.Rat.Floor
import Mathlib.Tactic.FieldSimp
import ScriptBridge.Proofs.Number.Exact

/-!
The exact values of numbers as ratios, and what it is to be nearest to a ratio with ties to the even
code. Rounding a ratio to a finite number gives a nearest one.
-/
namespace ScriptBridge.Number

def wholePart (q : ℚ) : ℤ := if 0 ≤ q then ⌊q⌋ else ⌈q⌉

theorem wholePart_natCast_div (n d : ℕ) : wholePart (n / d) = (n / d : ℕ) := by
  rw [wholePart, if_pos (by positivity), Rat.floor_natCast_div_natCast]
  rfl

theorem wholePart_neg (q : ℚ) : wholePart (-q) = -wholePart q := by
  unfold wholePart
  rcases lt_trichotomy q 0 with h | rfl | h
  · rw [if_pos (by linarith), if_neg (by linarith), Int.floor_neg]
  · simp
  · rw [if_neg (by linarith), if_pos h.le, Int.ceil_neg]

theorem wholePart_intCast (n : ℤ) : wholePart n = n := by
  unfold wholePart
  split
  · exact Int.floor_intCast n
  · exact Int.ceil_intCast n

namespace Binary

variable {f : Format}

def value? : Binary f → Option ℚ
  | .finite negative code => some (withSign negative (f.units code) / (2 ^ f.scale : ℕ))
  | _ => none

theorem exists_of_value? {x : Binary f} {q : ℚ} (h : x.value? = some q) :
    ∃ negative code, x = .finite negative code ∧
      q = withSign negative (f.units code) / (2 ^ f.scale : ℕ) := by
  cases x with
  | nan => cases h
  | infinity negative => cases h
  | finite negative code => exact ⟨negative, code, rfl, (Option.some.inj h).symm⟩

theorem wholePart_withSign_div (negative : Bool) (n d : ℕ) :
    wholePart (withSign negative n / d) = withSign negative (n / d) := by
  cases negative with
  | false => exact wholePart_natCast_div n d
  | true =>
    have hq : ((withSign true n : ℤ) : ℚ) / d = -(n / d) := by
      simp only [withSign, if_true, Int.cast_neg, Int.cast_natCast, neg_div]
    rw [hq, wholePart_neg, wholePart_natCast_div]
    rfl

def IsEven : Binary f → Prop
  | .finite _ code => code.val % 2 = 0
  | _ => False

/-- No finite number is nearer to the ratio, and one that is equally near and different leaves an
even significand to this one. -/
def IsNearest (x : Binary f) (q : ℚ) : Prop :=
  ∃ r, x.value? = some r ∧ ∀ (y : Binary f) (s : ℚ), y.value? = some s →
    |r - q| ≤ |s - q| ∧ (|s - q| = |r - q| → s ≠ r → x.IsEven)

theorem natAbs_withSign_sub (s t : Bool) (a b : ℕ) :
    (withSign s a - withSign t b).natAbs = if s = t then a.dist b else a + b := by
  simp only [withSign, Nat.dist]
  cases s <;> cases t <;> simp only [Bool.false_eq_true, Bool.true_eq_false, if_true, if_false] <;>
    omega

theorem abs_withSign_div_sub (s t : Bool) (a b : ℕ) {m d : ℕ} (hm : 0 < m) (hd : 0 < d) :
    |(withSign s a : ℚ) / m - withSign t b / d| =
      ((if s = t then (a * d).dist (b * m) else a * d + b * m : ℕ) : ℚ) / (m * d : ℕ) := by
  have hmq : (0 : ℚ) < m := by exact_mod_cast hm
  have hdq : (0 : ℚ) < d := by exact_mod_cast hd
  have hnum : (withSign s a : ℚ) * d - m * withSign t b =
      ((withSign s (a * d) - withSign t (b * m) : ℤ) : ℚ) := by
    rw [withSign_mul, withSign_mul]
    push_cast
    ring
  rw [div_sub_div _ _ hmq.ne' hdq.ne', hnum, abs_div, abs_of_pos (mul_pos hmq hdq), ← Int.cast_abs,
    Int.abs_eq_natAbs, natAbs_withSign_sub]
  push_cast
  rfl

/-- A number of the other sign is as far from a ratio as the sum of the magnitudes, so that it is
equally near only if the code of the ratio is zero or another one is equally near. -/
theorem nearestCode_even_of_add_eq (hf : 0 < f.fractionBits) {n d code : ℕ} (hd : 0 < d)
    (h : f.units code * d + n = (f.units (f.nearestCode n d) * d).dist n) :
    f.nearestCode n d % 2 = 0 := by
  obtain ⟨hle, htie⟩ := Format.nearestCode_spec f hf n hd code
  by_cases hc : code = f.nearestCode n d
  · have hzero : f.units (f.nearestCode n d) * d = 0 ∨ n = 0 := by
      rw [hc] at h
      simp only [Nat.dist] at h
      omega
    have hcode : f.nearestCode n d = 0 := by
      rcases hzero with h0 | h0
      · have hu : f.units (f.nearestCode n d) = f.units 0 :=
          ((Nat.mul_eq_zero.1 h0).resolve_right hd.ne').trans f.units_zero.symm
        exact (Format.units_strictMono f).injective hu
      · exact Format.nearestCode_of_eq hf hd (by rw [h0, f.units_zero, Nat.zero_mul])
    rw [hcode]
  · refine htie ?_ hc
    simp only [Nat.dist] at *
    omega

theorem isNearest_ofRatio (hf : 0 < f.fractionBits) (negative : Bool) (n : ℕ) {d : ℕ} (hd : 0 < d)
    (hfin : f.nearestCode (n * 2 ^ f.scale) d < f.infinityCode) :
    (ofRatio f negative n d).IsNearest (withSign negative n / d) := by
  have hm : 0 < 2 ^ f.scale := Nat.two_pow_pos _
  have hpos : (0 : ℚ) < (2 ^ f.scale * d : ℕ) := by exact_mod_cast Nat.mul_pos hm hd
  have hx : ofRatio f negative n d = .finite negative ⟨_, hfin⟩ := dif_pos hfin
  rw [hx]
  refine ⟨_, rfl, fun y s hy => ?_⟩
  obtain ⟨t, c, rfl, rfl⟩ := exists_of_value? hy
  obtain ⟨hle, htie⟩ := Format.nearestCode_spec f hf (n * 2 ^ f.scale) hd c
  rw [abs_withSign_div_sub _ _ _ _ hm hd, abs_withSign_div_sub _ _ _ _ hm hd, if_pos rfl,
    div_le_div_iff_of_pos_right hpos, div_left_inj' hpos.ne', Nat.cast_le, Nat.cast_inj]
  by_cases ht : t = negative
  · subst ht
    rw [if_pos rfl]
    refine ⟨hle, fun he hne => htie he ?_⟩
    intro hc
    exact hne (by rw [hc])
  · rw [if_neg ht]
    refine ⟨hle.trans ?_, fun he _ => nearestCode_even_of_add_eq hf hd he⟩
    simp only [Nat.dist]
    omega

end Binary

end ScriptBridge.Number
