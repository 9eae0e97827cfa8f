import Mathlib.Algebra.Order.Ring.Nat
import Mathlib.Order.Monotone.Basic
import Mathlib.Tactic.Ring
import ScriptBridge.Number.Binary

/-!
The grid of magnitudes of a format. Every magnitude is a multiple of the step at its code, steps are
powers of two that grow with the codes, and each multiple of the step below a magnitude has a code.
So a difference or a remainder that is smaller than both of its terms is again on the grid.
-/
namespace ScriptBridge.Number.Format

variable {f : Format}

def step (f : Format) (code : Nat) : Nat := 2 ^ (code / 2 ^ f.fractionBits - 1)

theorem units_of_lt {code : Nat} (h : code < 2 ^ f.fractionBits) : f.units code = code :=
  if_pos h

theorem units_add {shift p : Nat} (h : p ≤ 2 ^ (f.fractionBits + 1))
    (hp : shift = 0 ∨ 2 ^ f.fractionBits ≤ p) :
    f.units (shift * 2 ^ f.fractionBits + p) = p * 2 ^ shift := by
  have hb : 0 < 2 ^ f.fractionBits := Nat.two_pow_pos _
  unfold units
  rw [Nat.pow_succ] at h
  generalize 2 ^ f.fractionBits = b at *
  by_cases hsub : p < b
  · have hs : shift = 0 := hp.resolve_right (Nat.not_le.2 hsub)
    subst hs
    rw [if_pos (by omega), Nat.zero_mul, Nat.zero_add, Nat.pow_zero, Nat.mul_one]
  · obtain ⟨r, rfl⟩ := Nat.exists_eq_add_of_le (Nat.not_lt.1 hsub)
    have he : shift * b + (b + r) = b * (shift + 1) + r := by ring
    have hge : ¬ shift * b + (b + r) < b := by
      have := Nat.zero_le (shift * b)
      omega
    rw [if_neg hge, he]
    by_cases hr : r < b
    · rw [Nat.mul_add_mod, Nat.mod_eq_of_lt hr, Nat.mul_add_div hb, Nat.div_eq_of_lt hr]
      rfl
    · have hrb : r = b := by omega
      subst hrb
      rw [Nat.mul_add_mod, Nat.mod_self, Nat.mul_add_div hb, Nat.div_self hb]
      rw [show shift + 1 + 1 - 1 = shift + 1 from rfl, Nat.pow_succ]
      ring

/-- A code is a shift with a significand, which has its leading bit unless the shift is zero. -/
theorem exists_significand (f : Format) (code : Nat) :
    ∃ shift p, code = shift * 2 ^ f.fractionBits + p ∧ p < 2 ^ (f.fractionBits + 1) ∧
      (shift = 0 ∨ 2 ^ f.fractionBits ≤ p) ∧ f.step code = 2 ^ shift := by
  have hb : 0 < 2 ^ f.fractionBits := Nat.two_pow_pos _
  unfold step
  rw [Nat.pow_succ]
  generalize 2 ^ f.fractionBits = b at *
  by_cases hsub : code < b
  · refine ⟨0, code, by omega, by omega, Or.inl rfl, ?_⟩
    rw [Nat.div_eq_of_lt hsub]
  · have hq : 1 ≤ code / b := (Nat.one_le_div_iff hb).2 (Nat.not_lt.1 hsub)
    obtain ⟨k, hk⟩ := Nat.exists_eq_add_of_le' hq
    have hmod : code % b < b := Nat.mod_lt _ hb
    have hdiv : b * (code / b) + code % b = code := Nat.div_add_mod code b
    refine ⟨k, b + code % b, ?_, by omega, Or.inr (by omega), by rw [hk]; rfl⟩
    rw [← hdiv, hk, Nat.mul_add_mod, Nat.mod_mod]
    ring

theorem units_lt_units_succ (f : Format) (code : Nat) : f.units code < f.units (code + 1) := by
  obtain ⟨shift, p, rfl, hlt, hp, -⟩ := exists_significand f code
  rw [Nat.add_assoc, units_add hlt.le hp, units_add hlt (hp.imp_right (Nat.le_succ_of_le))]
  exact Nat.mul_lt_mul_of_pos_right (Nat.lt_succ_self p) (Nat.two_pow_pos shift)

theorem units_strictMono (f : Format) : StrictMono f.units :=
  strictMono_nat_of_lt_succ f.units_lt_units_succ

theorem units_zero (f : Format) : f.units 0 = 0 := units_of_lt (Nat.two_pow_pos _)

theorem step_dvd_units (code : Nat) : f.step code ∣ f.units code := by
  obtain ⟨shift, p, rfl, hlt, hp, hs⟩ := exists_significand f code
  rw [hs, units_add hlt.le hp]
  exact Nat.dvd_mul_left _ _

theorem step_dvd_step {c d : Nat} (h : c ≤ d) : f.step c ∣ f.step d :=
  Nat.pow_dvd_pow 2 (Nat.sub_le_sub_right (Nat.div_le_div_right h) 1)

theorem exists_units_eq (f : Format) (shift : Nat) {p : Nat} (h : p ≤ 2 ^ (f.fractionBits + 1)) :
    ∃ code, f.units code = p * 2 ^ shift := by
  induction shift generalizing p with
  | zero => exact ⟨0 * 2 ^ f.fractionBits + p, units_add h (Or.inl rfl)⟩
  | succ shift ih =>
    by_cases hp : 2 ^ f.fractionBits ≤ p
    · exact ⟨_, units_add h (Or.inr hp)⟩
    · have hd : 2 * p ≤ 2 ^ (f.fractionBits + 1) := by
        rw [Nat.pow_succ]
        omega
      obtain ⟨code, hc⟩ := ih hd
      exact ⟨code, by rw [hc, Nat.pow_succ]; ring⟩

theorem exists_le_units_eq {code w : Nat} (hd : f.step code ∣ w) (hw : w ≤ f.units code) :
    ∃ c ≤ code, f.units c = w := by
  obtain ⟨shift, p, rfl, hlt, hp, hs⟩ := exists_significand f code
  rw [hs] at hd
  rw [units_add hlt.le hp] at hw
  obtain ⟨m, rfl⟩ := hd
  have hm : m ≤ p := by
    rw [Nat.mul_comm] at hw
    exact Nat.le_of_mul_le_mul_right hw (Nat.two_pow_pos shift)
  obtain ⟨c, hc⟩ := exists_units_eq f shift (hm.trans hlt.le)
  refine ⟨c, (units_strictMono f).le_iff_le.1 ?_, hc.trans (Nat.mul_comm _ _)⟩
  rw [hc, units_add hlt.le hp]
  exact Nat.mul_le_mul_right _ hm

theorem exists_le_units_eq_of_both {c d w : Nat} (hw : ∀ n, n ∣ f.units c → n ∣ f.units d → n ∣ w)
    (hc : w ≤ f.units c) (hd : w ≤ f.units d) : ∃ b ≤ c, f.units b = w := by
  rcases Nat.le_total c d with h | h
  · refine exists_le_units_eq (hw _ (step_dvd_units c) ?_) hc
    exact (step_dvd_step h).trans (step_dvd_units d)
  · obtain ⟨b, hb, he⟩ := exists_le_units_eq (hw _ ((step_dvd_step h).trans (step_dvd_units c))
      (step_dvd_units d)) hd
    exact ⟨b, hb.trans h, he⟩

theorem exists_units_mod (c d : Nat) : ∃ b ≤ c, f.units b = f.units c % f.units d := by
  by_cases h : f.units c < f.units d
  · exact ⟨c, Nat.le_refl c, (Nat.mod_eq_of_lt h).symm⟩
  · have hle : f.units d ≤ f.units c := Nat.not_lt.1 h
    rcases Nat.eq_zero_or_pos (f.units d) with h0 | hpos
    · exact ⟨c, Nat.le_refl c, by rw [h0, Nat.mod_zero]⟩
    · exact exists_le_units_eq_of_both (fun n hc hd => (Nat.dvd_mod_iff hd).2 hc)
        (Nat.mod_le _ _) (Nat.mod_lt _ hpos).le

theorem exists_units_div_mul (code k : Nat) :
    ∃ b ≤ code, f.units b = f.units code / 2 ^ k * 2 ^ k := by
  have hstep := step_dvd_units (f := f) code
  rcases Nat.le_total (code / 2 ^ f.fractionBits - 1) k with h | h
  · have hd : f.step code ∣ 2 ^ k := Nat.pow_dvd_pow 2 h
    exact exists_le_units_eq (hd.trans (Nat.dvd_mul_left _ _)) (Nat.div_mul_le_self _ _)
  · have hd : 2 ^ k ∣ f.step code := Nat.pow_dvd_pow 2 h
    exact ⟨code, Nat.le_refl code, (Nat.div_mul_cancel (hd.trans hstep)).symm⟩

theorem exists_units_sub {c d : Nat} (h : f.units d ≤ 2 * f.units c) :
    ∃ b ≤ d, f.units b = f.units d - f.units c := by
  refine exists_le_units_eq_of_both (c := d) (d := c) (fun n hd hc => Nat.dvd_sub hd hc) ?_ ?_
  all_goals omega

end ScriptBridge.Number.Format
