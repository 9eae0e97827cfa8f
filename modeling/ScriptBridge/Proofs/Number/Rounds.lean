import Mathlib.Tactic.Linarith
import ScriptBridge.Proofs.Number.Value

/-!
What it is to round a ratio, over the whole range of a format. Up to halfway past the largest finite
magnitude the result is a nearest number, of two that are equally near the one with an even code;
from there on it is infinite. This and the sign leave one result to every ratio, and rounding gives
it.
-/
namespace ScriptBridge.Number

variable {f : Format}

namespace Format

/-- Which of two neighbouring codes a ratio gets depends on the side of their midpoint it lies on,
and at the midpoint on which of them is even. -/
theorem nearestCode_le_iff (hf : 0 < f.fractionBits) (n : ℕ) {d : ℕ} (hd : 0 < d) (code : ℕ) :
    f.nearestCode n d ≤ code ↔ 2 * n < (f.units code + f.units (code + 1)) * d ∨
      2 * n = (f.units code + f.units (code + 1)) * d ∧ code % 2 = 0 := by
  have hmono : StrictMono fun c => f.units c * d :=
    fun a b hab => Nat.mul_lt_mul_of_pos_right (units_strictMono f hab) hd
  have hstep : f.units code * d < f.units (code + 1) * d := hmono (Nat.lt_succ_self code)
  have hlow := nearestCode_spec f hf n hd code
  have hhigh := nearestCode_spec f hf n hd (code + 1)
  rw [Nat.add_mul]
  generalize f.nearestCode n d = k at *
  constructor
  · intro hk
    have hle : f.units k * d ≤ f.units code * d := hmono.le_iff_le.2 hk
    have hsame : f.units k * d = f.units code * d → k = code := fun h => hmono.injective h
    simp only [Nat.dist] at hhigh
    omega
  · intro hn
    refine Nat.le_of_not_lt fun hk => ?_
    have hle : f.units (code + 1) * d ≤ f.units k * d := hmono.le_iff_le.2 hk
    have hsame : f.units k * d = f.units (code + 1) * d → k = code + 1 :=
      fun h => hmono.injective h
    simp only [Nat.dist] at hlow
    omega

theorem infinityCode_pos (he : 0 < f.exponentBits) : 0 < f.infinityCode := by
  have hpow : 1 < 2 ^ f.exponentBits := Nat.one_lt_two_pow he.ne'
  exact Nat.mul_pos (by omega) (Nat.two_pow_pos _)

theorem infinityCode_even (hf : 0 < f.fractionBits) : f.infinityCode % 2 = 0 := by
  obtain ⟨b, hb⟩ := Nat.exists_eq_add_of_le' hf
  rw [infinityCode, hb, Nat.pow_succ, ← Nat.mul_assoc, Nat.mul_mod_left]

/-- The least magnitude that rounds to infinity. It lies halfway from the largest finite magnitude
to the one that would be next. -/
def overflow (f : Format) : ℚ :=
  (f.units (f.infinityCode - 1) + f.units f.infinityCode : ℕ) / (2 * 2 ^ f.scale : ℕ)

def underflow (f : Format) : ℚ := 1 / (2 * 2 ^ f.scale : ℕ)

theorem double_overflow : Format.double.overflow = 2 ^ 1024 - 2 ^ 970 := by
  have hunits : Format.double.units (Format.double.infinityCode - 1) +
      Format.double.units Format.double.infinityCode + 2 ^ 970 * 2 ^ 1075 =
        2 ^ 1024 * 2 ^ 1075 := by
    decide +kernel
  have hscale : 2 * 2 ^ Format.double.scale = 2 ^ 1075 := by decide +kernel
  have hpos : (0 : ℚ) < 2 ^ 1075 := by positivity
  have hcast := congrArg (Nat.cast : ℕ → ℚ) hunits
  simp only [Nat.cast_add, Nat.cast_mul, Nat.cast_pow, Nat.cast_ofNat] at hcast
  rw [overflow, hscale, Nat.cast_add, Nat.cast_pow, Nat.cast_ofNat, div_eq_iff hpos.ne', sub_mul,
    ← hcast, add_sub_cancel_right]

theorem double_underflow : Format.double.underflow = 1 / 2 ^ 1075 := by
  have hscale : 2 * 2 ^ Format.double.scale = 2 ^ 1075 := by decide +kernel
  rw [underflow, hscale, Nat.cast_pow, Nat.cast_ofNat]

theorem underflow_lt_overflow (hf : 0 < f.fractionBits) (he : 0 < f.exponentBits) :
    f.underflow < f.overflow := by
  have hpos : (0 : ℚ) < (2 * 2 ^ f.scale : ℕ) := by positivity
  have hinf : 2 ≤ f.infinityCode := by
    have h0 := infinityCode_pos he
    have h2 := infinityCode_even hf
    omega
  have hlast : f.units 1 ≤ f.units (f.infinityCode - 1) :=
    (units_strictMono f).le_iff_le.2 (by omega)
  have hnext : f.units 1 ≤ f.units f.infinityCode := (units_strictMono f).le_iff_le.2 (by omega)
  have hone : 0 < f.units 1 := f.units_zero ▸ units_lt_units_succ f 0
  rw [underflow, overflow, div_lt_div_iff_of_pos_right hpos]
  exact_mod_cast (by omega : 1 < f.units (f.infinityCode - 1) + f.units f.infinityCode)

theorem nearestCode_lt_infinityCode_iff (hf : 0 < f.fractionBits) (he : 0 < f.exponentBits)
    (n : ℕ) {d : ℕ} (hd : 0 < d) :
    f.nearestCode (n * 2 ^ f.scale) d < f.infinityCode ↔ (n / d : ℚ) < f.overflow := by
  have hpos := infinityCode_pos he
  have heven := infinityCode_even hf
  have hsucc : f.infinityCode - 1 + 1 = f.infinityCode := Nat.sub_add_cancel hpos
  have hdq : (0 : ℚ) < d := by exact_mod_cast hd
  have hscale : (0 : ℚ) < (2 * 2 ^ f.scale : ℕ) := by positivity
  have hmid := nearestCode_le_iff hf (n * 2 ^ f.scale) hd (f.infinityCode - 1)
  rw [hsucc, Nat.le_sub_one_iff_lt hpos] at hmid
  rw [hmid, overflow, div_lt_div_iff₀ hdq hscale]
  norm_cast
  rw [Nat.mul_left_comm]
  omega

end Format

namespace Binary

variable {negative : Bool} {q : ℚ} {x y : Binary f} {c d : Fin f.infinityCode}

/-- A datum with the given sign that a ratio rounds to. -/
inductive Rounds (negative : Bool) (q : ℚ) : Binary f → Prop
  | finite {code : Fin f.infinityCode} (lt_overflow : |q| < f.overflow)
      (nearest : (Binary.finite negative code).IsNearest q) :
      Rounds negative q (.finite negative code)
  | infinity (overflow_le : f.overflow ≤ |q|) : Rounds negative q (.infinity negative)

theorem abs_withSign_div (negative : Bool) (n d : ℕ) :
    |(withSign negative n / d : ℚ)| = n / d := by
  rw [abs_div, Nat.abs_cast, ← Int.cast_abs, Int.abs_eq_natAbs]
  cases negative <;> simp [withSign]

theorem rounds_ofRatio (hf : 0 < f.fractionBits) (he : 0 < f.exponentBits) (negative : Bool) (n : ℕ)
    {d : ℕ} (hd : 0 < d) : Rounds negative (withSign negative n / d) (ofRatio f negative n d) := by
  have hlt := Format.nearestCode_lt_infinityCode_iff hf he n hd
  rw [← abs_withSign_div negative] at hlt
  by_cases hfin : f.nearestCode (n * 2 ^ f.scale) d < f.infinityCode
  · have hnear := isNearest_ofRatio hf negative n hd hfin
    have hx : ofRatio f negative n d = .finite negative ⟨_, hfin⟩ := dif_pos hfin
    rw [hx] at hnear ⊢
    exact .finite (hlt.1 hfin) hnear
  · have hx : ofRatio f negative n d = .infinity negative := dif_neg hfin
    rw [hx]
    exact .infinity (not_lt.1 fun h => hfin (hlt.2 h))

theorem abs_sub_lt_of_between {r m s : ℚ} (h : r < m ∧ m < s ∨ s < m ∧ m < r)
    (he : |r - q| = |s - q|) : |m - q| < |r - q| := by
  have hr := le_abs_self (r - q)
  have hr' := neg_abs_le (r - q)
  have hs := le_abs_self (s - q)
  have hs' := neg_abs_le (s - q)
  rw [← he] at hs hs'
  rw [abs_lt]
  rcases h with ⟨h1, h2⟩ | ⟨h1, h2⟩ <;> constructor <;> linarith

theorem withSign_div_inj (negative : Bool) {a b k : ℕ} (hk : 0 < k)
    (h : (withSign negative a / k : ℚ) = withSign negative b / k) : a = b := by
  have hkq : (k : ℚ) ≠ 0 := by exact_mod_cast hk.ne'
  rw [div_left_inj' hkq, Int.cast_inj] at h
  unfold withSign at h
  split at h <;> omega

theorem between_withSign_div (negative : Bool) {a b c k : ℕ} (hk : 0 < k) (hab : a < b)
    (hbc : b < c) :
    (withSign negative a / k : ℚ) < withSign negative b / k ∧
        (withSign negative b / k : ℚ) < withSign negative c / k ∨
      (withSign negative c / k : ℚ) < withSign negative b / k ∧
        (withSign negative b / k : ℚ) < withSign negative a / k := by
  have hkq : (0 : ℚ) < k := by exact_mod_cast hk
  simp only [div_lt_div_iff_of_pos_right hkq, Int.cast_lt, withSign]
  split <;> omega

/-- Of two codes that are nearest to one ratio, none is smaller. Both would be even, and the
magnitude at a code between them would be nearer. -/
theorem not_lt_of_isNearest (hc : (Binary.finite negative c).IsNearest q)
    (hd : (Binary.finite negative d).IsNearest q) : ¬c.val < d.val := by
  intro hlt
  obtain ⟨r, hr, hnear⟩ := hc
  obtain ⟨s, hs, hnear'⟩ := hd
  have he : |r - q| = |s - q| := le_antisymm (hnear _ s hs).1 (hnear' _ r hr).1
  have hscale : 0 < 2 ^ f.scale := Nat.two_pow_pos _
  have hne : r ≠ s := by
    intro hrs
    cases hr
    cases hs
    have hunits := withSign_div_inj negative hscale hrs
    exact hlt.ne ((Format.units_strictMono f).injective hunits)
  have hceven : c.val % 2 = 0 := (hnear _ s hs).2 he.symm hne.symm
  have hdeven : d.val % 2 = 0 := (hnear' _ r hr).2 he hne
  have hnext : c.val + 1 < d.val := by omega
  have hbetween := between_withSign_div negative hscale
    (Format.units_lt_units_succ f c) (Format.units_strictMono f hnext)
  cases hr
  cases hs
  have hnearer := abs_sub_lt_of_between hbetween he
  exact (hnear (.finite negative ⟨c + 1, hnext.trans d.isLt⟩) _ rfl).1.not_gt hnearer

theorem Rounds.eq (hx : Rounds negative q x) (hy : Rounds negative q y) : x = y := by
  cases hx with
  | @finite c hlt hc =>
    cases hy with
    | @finite d _ hd =>
      have hcd : c = d := Fin.ext <| le_antisymm (not_lt.1 (not_lt_of_isNearest hd hc))
        (not_lt.1 (not_lt_of_isNearest hc hd))
      rw [hcd]
    | infinity hle => exact absurd hlt (not_lt.2 hle)
  | infinity hle =>
    cases hy with
    | finite hlt _ => exact absurd hlt (not_lt.2 hle)
    | infinity _ => rfl

theorem rounds_zero (hf : 0 < f.fractionBits) (he : 0 < f.exponentBits) (negative : Bool)
    (hq : |q| ≤ f.underflow) : Rounds negative q (zero f negative) := by
  have hzero : zero f negative = .finite negative ⟨0, Format.infinityCode_pos he⟩ :=
    dif_pos (Format.infinityCode_pos he)
  have hscale : (0 : ℚ) < (2 ^ f.scale : ℕ) := by positivity
  rw [hzero]
  refine .finite (hq.trans_lt (Format.underflow_lt_overflow hf he)) ⟨0, ?_, fun y s hy => ?_⟩
  · cases negative <;> simp [value?, withSign, Format.units_zero]
  · refine ⟨?_, fun _ _ => rfl⟩
    obtain ⟨t, c, rfl, rfl⟩ := exists_of_value? hy
    rw [zero_sub, abs_neg]
    rcases Nat.eq_zero_or_pos (f.units c) with h0 | hpos
    · simp [h0, withSign]
    · have hone : (1 : ℚ) ≤ f.units c := by exact_mod_cast hpos
      have hfar : 2 * f.underflow ≤ |(withSign t (f.units c) / (2 ^ f.scale : ℕ) : ℚ)| := by
        rw [abs_withSign_div, Format.underflow, Nat.cast_mul, Nat.cast_ofNat, mul_one_div,
          div_mul_eq_div_div, div_self two_ne_zero]
        exact (div_le_div_iff_of_pos_right hscale).2 hone
      have htri := abs_sub_abs_le_abs_sub (withSign t (f.units c) / (2 ^ f.scale : ℕ) : ℚ) q
      linarith

theorem Rounds.eq_infinity (h : Rounds negative q x) (hle : f.overflow ≤ |q|) :
    x = .infinity negative := by
  cases h with
  | finite hlt _ => exact absurd hle (not_le.2 hlt)
  | infinity _ => rfl

theorem Rounds.isNearest (h : Rounds negative q x) (hlt : |q| < f.overflow) :
    x.IsNearest q := by
  cases h with
  | finite _ hnear => exact hnear
  | infinity hle => exact absurd hlt (not_lt.2 hle)

theorem Rounds.ne_nan (h : Rounds negative q x) : x ≠ .nan := by
  cases h <;> exact nofun

theorem rounds_withSign_div_iff (hf : 0 < f.fractionBits) (he : 0 < f.exponentBits) {n d : ℕ}
    (hd : 0 < d) : Rounds negative (withSign negative n / d) x ↔ x = ofRatio f negative n d := by
  have hround := rounds_ofRatio hf he negative n hd
  exact ⟨fun h => h.eq hround, fun h => h ▸ hround⟩

end Binary

end ScriptBridge.Number
