import ScriptBridge.Proofs.Number.Value

/-!
Conversion to a wider format. Where every magnitude of a format is one of another, conversion does
not round, and converting back gives the number that was there before.
-/
namespace ScriptBridge.Number

variable {f g : Format}

/-- A format whose significands are at least as long, whose smallest number is at least as small,
and whose finite magnitudes reach at least as far. -/
structure Format.Widens (f g : Format) : Prop where
  fractionBits_le : f.fractionBits ≤ g.fractionBits
  scale_le : f.scale ≤ g.scale
  largest_le : f.units f.infinityCode * 2 ^ (g.scale - f.scale) ≤ g.units g.infinityCode

theorem single_widens_double : Format.single.Widens .double where
  fractionBits_le := by decide
  scale_le := by decide
  largest_le := by decide +kernel

theorem Format.Widens.exists_units_eq (h : f.Widens g) (code : Fin f.infinityCode) :
    ∃ c : Fin g.infinityCode, g.units c = f.units code * 2 ^ (g.scale - f.scale) := by
  obtain ⟨shift, p, hcode, hlt, hp, -⟩ := f.exists_significand code
  have hlong : p ≤ 2 ^ (g.fractionBits + 1) :=
    hlt.le.trans (Nat.pow_le_pow_right Nat.two_pos (Nat.succ_le_succ h.fractionBits_le))
  obtain ⟨c, hc⟩ := Format.exists_units_eq g (shift + (g.scale - f.scale)) hlong
  have hunits : f.units code = p * 2 ^ shift := by
    rw [hcode]
    exact Format.units_add hlt.le hp
  have heq : g.units c = f.units code * 2 ^ (g.scale - f.scale) := by
    rw [hc, hunits, Nat.pow_add]
    ring
  have hbound : g.units c < g.units g.infinityCode := by
    rw [heq]
    exact (Nat.mul_lt_mul_of_pos_right (f.units_strictMono code.isLt)
      (Nat.two_pow_pos _)).trans_le h.largest_le
  exact ⟨⟨c, (g.units_strictMono).lt_iff_lt.1 hbound⟩, heq⟩

namespace Binary

theorem convert_finite (h : f.Widens g) (hg : 0 < g.fractionBits) (negative : Bool)
    (code : Fin f.infinityCode) :
    ∃ c : Fin g.infinityCode, convert g (.finite negative code) = .finite negative c ∧
      g.units c * 2 ^ f.scale = f.units code * 2 ^ g.scale := by
  obtain ⟨c, hc⟩ := h.exists_units_eq code
  have heq : g.units c * 2 ^ f.scale = f.units code * 2 ^ g.scale := by
    rw [hc, Nat.mul_assoc, ← Nat.pow_add, Nat.sub_add_cancel h.scale_le]
  exact ⟨c, ofRatio_of_eq hg negative (Nat.two_pow_pos _) heq.symm, heq⟩

theorem value?_convert (h : f.Widens g) (hg : 0 < g.fractionBits) (x : Binary f) :
    (x.convert g).value? = x.value? := by
  cases x with
  | nan => rfl
  | infinity negative => rfl
  | finite negative code =>
    obtain ⟨c, hc, hunits⟩ := convert_finite h hg negative code
    have hvalue : (withSign negative (g.units c) / (2 ^ g.scale : ℕ) : ℚ) =
        withSign negative (f.units code) / (2 ^ f.scale : ℕ) := by
      rw [div_eq_div_iff (by positivity) (by positivity)]
      norm_cast
      rw [← withSign_mul, hunits, withSign_mul]
    rw [hc]
    exact congrArg some hvalue

theorem convert_convert (h : f.Widens g) (hf : 0 < f.fractionBits) (x : Binary f) :
    (x.convert g).convert f = x := by
  cases x with
  | nan => rfl
  | infinity negative => rfl
  | finite negative code =>
    have hg : 0 < g.fractionBits := hf.trans_le h.fractionBits_le
    obtain ⟨c, hc, heq⟩ := convert_finite h hg negative code
    rw [hc]
    exact ofRatio_of_eq hf negative (Nat.two_pow_pos _) heq

end Binary

end ScriptBridge.Number
