import ScriptBridge.Proofs.Number.Value

/-!
Integers as doubles. The double of a 64-bit integer is finite, nearest to the integer and again an
integer, and it is the same integer up to `2 ^ 53`.
-/
namespace ScriptBridge.Number.Binary

theorem double_fractionBits_pos : 0 < Format.double.fractionBits := by decide

theorem withSign_natAbs (i : ℤ) : withSign (i < 0) i.natAbs = i := by
  unfold withSign
  split <;> rename_i h <;> simp only [decide_eq_true_eq] at h <;> omega

theorem nearestCode_lt_infinityCode {n : ℕ} (h : n ≤ 2 ^ 63) :
    Format.double.nearestCode (n * 2 ^ Format.double.scale) 1 < Format.double.infinityCode := by
  have hu : Format.double.units 0x43E0000000000000 * 1 = 2 ^ 63 * 2 ^ Format.double.scale := by
    decide +kernel
  have hle : n * 2 ^ Format.double.scale ≤ Format.double.units 0x43E0000000000000 * 1 := by
    rw [hu]
    exact Nat.mul_le_mul_right _ h
  exact (Format.nearestCode_le double_fractionBits_pos Nat.one_pos hle).trans_lt (by decide)

theorem dvd_units_of_le {code : ℕ} (h : 0x4340000000000000 ≤ code) :
    2 ^ Format.double.scale ∣ Format.double.units code := by
  have hstep : 2 ^ Format.double.scale ∣ Format.double.step 0x4340000000000000 :=
    Nat.pow_dvd_pow 2 (by decide)
  exact (hstep.trans (Format.step_dvd_step h)).trans (Format.step_dvd_units code)

theorem exists_units_nearestCode (n : ℕ) :
    ∃ m, Format.double.units (Format.double.nearestCode (n * 2 ^ Format.double.scale) 1) =
      m * 2 ^ Format.double.scale ∧ (n ≤ 2 ^ 53 → m = n) := by
  by_cases hn : n ≤ 2 ^ 53
  · obtain ⟨code, hu⟩ := Format.exists_units_eq .double Format.double.scale hn
    refine ⟨n, ?_, fun _ => rfl⟩
    rw [Format.nearestCode_of_eq double_fractionBits_pos Nat.one_pos (hu.symm.trans
      (Nat.mul_one _).symm), hu]
  · have hu : Format.double.units 0x4340000000000000 * 1 = 2 ^ 53 * 2 ^ Format.double.scale := by
      decide +kernel
    have hle : Format.double.units 0x4340000000000000 * 1 ≤ n * 2 ^ Format.double.scale := by
      rw [hu]
      exact Nat.mul_le_mul_right _ (by omega)
    have hcode := Format.le_nearestCode double_fractionBits_pos Nat.one_pos hle
    obtain ⟨m, hm⟩ := dvd_units_of_le hcode
    exact ⟨m, hm.trans (Nat.mul_comm _ _), fun h => absurd h hn⟩

theorem isNearest_ofInt {i : ℤ} (h : i.natAbs ≤ 2 ^ 63) : (ofInt .double i).IsNearest i := by
  have hnear := isNearest_ofRatio double_fractionBits_pos (i < 0) i.natAbs Nat.one_pos
    (nearestCode_lt_infinityCode h)
  rwa [withSign_natAbs, Nat.cast_one, div_one] at hnear

/-- The double of an integer is an integer, and the same one unless it is too large. -/
theorem exists_value?_ofInt {i : ℤ} (h : i.natAbs ≤ 2 ^ 63) :
    ∃ n : ℤ, (ofInt .double i).value? = some (n : ℚ) ∧ (i.natAbs ≤ 2 ^ 53 → n = i) := by
  obtain ⟨m, hm, hsame⟩ := exists_units_nearestCode i.natAbs
  have hpos : ((2 ^ Format.double.scale : ℕ) : ℚ) ≠ 0 := by
    exact_mod_cast (Nat.two_pow_pos _).ne'
  refine ⟨withSign (i < 0) m, ?_, fun hi => by rw [hsame hi, withSign_natAbs]⟩
  rw [ofInt, ofRatio, ofCode, dif_pos (nearestCode_lt_infinityCode h), value?, hm, withSign_mul,
    Int.cast_mul, Int.cast_natCast, mul_div_cancel_right₀ _ hpos]

theorem abs_sub_le_of_value? {i n s : ℤ} (h : i.natAbs ≤ 2 ^ 63)
    (hn : (ofInt .double i).value? = some (n : ℚ)) {y : Double} (hy : y.value? = some (s : ℚ)) :
    |n - i| ≤ |s - i| := by
  obtain ⟨r, hr, hnear⟩ := isNearest_ofInt h
  have hrn : r = n := Option.some.inj (hr.symm.trans hn)
  subst hrn
  exact_mod_cast (hnear y s hy).1

theorem value?_zero : (zero .double false).value? = some ((0 : ℤ) : ℚ) := by
  have h : zero .double false = .finite false ⟨0, by decide⟩ := rfl
  have hzero : withSign false 0 = 0 := rfl
  rw [h, value?, Format.units_zero, hzero, Int.cast_zero, zero_div]

end ScriptBridge.Number.Binary
