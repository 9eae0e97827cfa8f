import ScriptBridge.Number.Shortest
import ScriptBridge.Proofs.Number.Decimal

/-!
The decimal that is printed for a magnitude. Rounding is monotone, so that the decimals which read
back form an interval around the exact one. The printed decimal lies in this interval, and no
decimal of fewer significant digits does: where a grid has a point in the interval, one of the two
points around the exact decimal is in it as well.
-/
namespace ScriptBridge.Number

variable {f : Format}

theorem Format.nearestCode_mono (hf : 0 < f.fractionBits) {n m d e : ℕ} (hd : 0 < d) (he : 0 < e)
    (h : (n / d : ℚ) ≤ m / e) : f.nearestCode n d ≤ f.nearestCode m e := by
  have hdq : (0 : ℚ) < d := by exact_mod_cast hd
  have heq : (0 : ℚ) < e := by exact_mod_cast he
  rw [div_le_div_iff₀ hdq heq] at h
  rw [nearestCode_le_iff hf n hd]
  have hm := (nearestCode_le_iff hf m he _).1 le_rfl
  generalize f.units (f.nearestCode m e) + f.units (f.nearestCode m e + 1) = mid at hm ⊢
  have hcross : n * e ≤ m * d := by exact_mod_cast h
  rcases hm with hlt | ⟨heven, hcode⟩
  · refine Or.inl (Nat.lt_of_mul_lt_mul_right (a := e) ?_)
    calc
      2 * n * e ≤ 2 * m * d := by linarith
      _ < mid * e * d := Nat.mul_lt_mul_of_pos_right hlt hd
      _ = mid * d * e := Nat.mul_right_comm ..
  · have hle : 2 * n ≤ mid * d := by
      refine Nat.le_of_mul_le_mul_right (c := e) ?_ he
      calc
        2 * n * e ≤ 2 * m * d := by linarith
        _ = mid * d * e := by rw [heven, Nat.mul_right_comm]
    exact hle.lt_or_eq.imp id fun heq => ⟨heq, hcode⟩

def HasDigits (k : ℕ) (q : ℚ) : Prop := ∃ (m : ℕ) (e : ℤ), m < 10 ^ k ∧ |q| = m * 10 ^ e

theorem HasDigits.mono {k l : ℕ} {q : ℚ} (h : HasDigits k q) (hkl : k ≤ l) : HasDigits l q := by
  obtain ⟨m, e, hm, hq⟩ := h
  exact ⟨m, e, hm.trans_le (Nat.pow_le_pow_right (by decide) hkl), hq⟩

theorem Binary.ofCode_inj {negative : Bool} {b c : ℕ} (h : c < f.infinityCode) :
    ofCode f negative b = ofCode f negative c ↔ b = c := by
  refine ⟨fun heq => ?_, fun heq => heq ▸ rfl⟩
  unfold ofCode at heq
  rw [dif_pos h] at heq
  split at heq
  · simpa using heq
  · cases heq

namespace Decimal

theorem ratio_pos (d : Decimal) : 0 < d.ratio.2 := Nat.pow_pos (by decide)

theorem value_nonneg (d : Decimal) : 0 ≤ d.value := by
  rw [value]
  positivity

/-- The code that a decimal rounds to, be it past the last one. -/
def code (f : Format) (d : Decimal) : ℕ := f.nearestCode (d.ratio.1 * 2 ^ f.scale) d.ratio.2

theorem code_mono (hf : 0 < f.fractionBits) {d e : Decimal} (h : d.value ≤ e.value) :
    d.code f ≤ e.code f := by
  refine Format.nearestCode_mono hf d.ratio_pos e.ratio_pos ?_
  have hscale : (0 : ℚ) ≤ 2 ^ f.scale := by positivity
  rw [value_eq_ratio, value_eq_ratio] at h
  push_cast
  rw [mul_div_right_comm, mul_div_right_comm]
  exact mul_le_mul_of_nonneg_right h hscale

variable {c cut : ℕ} {d e exact : Decimal}

theorem toBinary_eq_ofCode (hf : 0 < f.fractionBits) (he : 2 ≤ f.exponentBits) (negative : Bool)
    (d : Decimal) : d.toBinary f negative = .ofCode f negative (d.code f) :=
  toBinary_eq_ofRatio hf he negative d

theorem readsBack_iff (hf : 0 < f.fractionBits) (he : 2 ≤ f.exponentBits)
    (h : c < f.infinityCode) : d.readsBack f c = true ↔ d.code f = c := by
  rw [readsBack, beq_iff_eq, toBinary_eq_ofCode hf he, Binary.ofCode_inj h]

theorem code_ofCode (hf : 0 < f.fractionBits) (c : ℕ) : (ofCode f c).code f = c := by
  refine Format.nearestCode_of_eq hf (ratio_pos _) ?_
  have hnum : (-(f.scale : ℤ)).toNat = 0 := by omega
  have hden : (- -(f.scale : ℤ)).toNat = f.scale := by omega
  simp only [ratio, ofCode, hnum, hden]
  rw [Nat.pow_zero, Nat.mul_one, Nat.mul_assoc, ← Nat.mul_pow]

def below (d : Decimal) (cut : ℕ) : Decimal := ⟨d.digits / 10 ^ cut, d.exponent + cut⟩

def above (d : Decimal) (cut : ℕ) : Decimal := ⟨d.digits / 10 ^ cut + 1, d.exponent + cut⟩

theorem value_below (d : Decimal) (cut : ℕ) :
    (d.below cut).value = (d.digits / 10 ^ cut : ℕ) * 10 ^ (d.exponent + cut) := rfl

theorem value_above (d : Decimal) (cut : ℕ) :
    (d.above cut).value = (d.digits / 10 ^ cut + 1 : ℕ) * 10 ^ (d.exponent + cut) := rfl

theorem ten_zpow_pos (e : ℤ) : (0 : ℚ) < 10 ^ e := zpow_pos (by norm_num) e

theorem value_eq_mul (d : Decimal) (cut : ℕ) :
    d.value = (d.digits / 10 ^ cut : ℚ) * 10 ^ (d.exponent + cut) := by
  rw [value, zpow_add₀ (by norm_num), zpow_natCast]
  field_simp

theorem below_value_le (d : Decimal) (cut : ℕ) : (d.below cut).value ≤ d.value := by
  rw [d.value_eq_mul cut, value_below]
  refine mul_le_mul_of_nonneg_right ?_ (ten_zpow_pos _).le
  rw [le_div_iff₀ (by positivity)]
  exact_mod_cast Nat.div_mul_le_self d.digits (10 ^ cut)

theorem value_le_above (d : Decimal) (cut : ℕ) : d.value ≤ (d.above cut).value := by
  rw [d.value_eq_mul cut, value_above]
  refine mul_le_mul_of_nonneg_right ?_ (ten_zpow_pos _).le
  rw [div_le_iff₀ (by positivity)]
  exact_mod_cast Nat.mul_comm _ _ ▸ (Nat.lt_mul_div_succ d.digits (Nat.pow_pos (by decide))).le

section

variable (hf : 0 < f.fractionBits) (he : 2 ≤ f.exponentBits) (hc : c < f.infinityCode)
include hf he hc

theorem readsBack_of_between {lower upper : Decimal} (hlower : lower.readsBack f c = true)
    (hupper : upper.readsBack f c = true) (hl : lower.value ≤ d.value)
    (hu : d.value ≤ upper.value) : d.readsBack f c = true := by
  rw [readsBack_iff hf he hc] at hlower hupper ⊢
  have hle : c ≤ d.code f := hlower ▸ code_mono hf hl
  have hge : d.code f ≤ c := hupper ▸ code_mono hf hu
  exact le_antisymm hge hle

theorem readsBack_below_or_above (hexact : exact.readsBack f c = true)
    (hd : d.readsBack f c = true)
    (h : d.value ≤ (exact.below cut).value ∨ (exact.above cut).value ≤ d.value) :
    (exact.below cut).readsBack f c = true ∨ (exact.above cut).readsBack f c = true := by
  rcases h with hle | hge
  · exact Or.inl (readsBack_of_between hf he hc hd hexact hle (below_value_le exact cut))
  · exact Or.inr (readsBack_of_between hf he hc hexact hd (value_le_above exact cut) hge)

end

theorem neighbour?_eq_some (h : neighbour? f c exact cut = some d) :
    d.readsBack f c = true ∧ (d = exact.below cut ∨ d = exact.above cut) := by
  simp only [neighbour?] at h
  split at h
  · rename_i hlower hupper
    split at h <;> cases h
    · exact ⟨hlower, Or.inl rfl⟩
    · exact ⟨hupper, Or.inr rfl⟩
  · rename_i hlower _
    cases h
    exact ⟨hlower, Or.inl rfl⟩
  · rename_i _ hupper
    cases h
    exact ⟨hupper, Or.inr rfl⟩
  · cases h

theorem neighbour?_eq_none (h : neighbour? f c exact cut = none) :
    (exact.below cut).readsBack f c ≠ true ∧ (exact.above cut).readsBack f c ≠ true := by
  simp only [neighbour?] at h
  split at h
  · cases h
  · cases h
  · cases h
  · rename_i hlower hupper
    exact ⟨ne_true_of_eq_false hlower, ne_true_of_eq_false hupper⟩

/-- The search ends on the coarsest grid that has a neighbour, or with the exact decimal. -/
theorem refine_spec (f : Format) (c : ℕ) (exact : Decimal) (limit : ℕ) :
    ∃ cut ≤ limit, (cut = 0 ∧ refine f c exact limit = exact ∨
        neighbour? f c exact cut = some (refine f c exact limit)) ∧
      ∀ coarser, cut < coarser → coarser ≤ limit → neighbour? f c exact coarser = none := by
  induction limit with
  | zero => exact ⟨0, le_rfl, Or.inl ⟨rfl, rfl⟩, fun coarser h h' => by omega⟩
  | succ limit ih =>
    cases hn : neighbour? f c exact (limit + 1) with
    | some d =>
      refine ⟨limit + 1, le_rfl, Or.inr ?_, fun coarser h h' => by omega⟩
      rw [refine, hn, Option.getD_some]
    | none =>
      obtain ⟨cut, hle, hfound, hnone⟩ := ih
      refine ⟨cut, Nat.le_succ_of_le hle, ?_, fun coarser h h' => ?_⟩
      · rwa [refine, hn, Option.getD_none]
      · rcases Nat.le_succ_iff.1 h' with hlt | rfl
        · exact hnone coarser h hlt
        · exact hn

theorem readsBack_shortest (hf : 0 < f.fractionBits) (he : 2 ≤ f.exponentBits)
    (hc : c < f.infinityCode) : (shortest f c).readsBack f c = true := by
  obtain ⟨cut, -, ⟨-, hexact⟩ | hfound, -⟩ :=
    refine_spec f c (ofCode f c) ((wholeText (ofCode f c).digits).length - 1)
  · rw [shortest, hexact, readsBack_iff hf he hc, code_ofCode hf]
  · exact (neighbour?_eq_some hfound).1

/-- A decimal of no more digits than there are in front of a cut is not between the neighbours on
the grid of the cut. Either it is on the grid, or it is less than the least number with so many
digits. -/
theorem le_below_or_above_le {k : ℕ} (hk : 0 < k) (hd : d.digits < 10 ^ k)
    (hexact : 10 ^ (k - 1) * 10 ^ cut ≤ exact.digits) :
    d.value ≤ (exact.below cut).value ∨ (exact.above cut).value ≤ d.value := by
  have hten := ten_zpow_pos (exact.exponent + cut)
  rcases le_or_gt (exact.exponent + cut) d.exponent with hgrid | hfine
  · obtain ⟨i, hi⟩ := Int.exists_add_of_le hgrid
    have hvalue : d.value = (d.digits * 10 ^ i : ℕ) * 10 ^ (exact.exponent + cut) := by
      rw [value, hi, zpow_add₀ (by norm_num), zpow_natCast]
      push_cast
      ring
    rw [hvalue, value_below, value_above, mul_le_mul_iff_left₀ hten, mul_le_mul_iff_left₀ hten,
      Nat.cast_le, Nat.cast_le]
    omega
  · refine Or.inl ?_
    have hle : 10 ^ (k - 1) ≤ (exact.below cut).digits :=
      (Nat.le_div_iff_mul_le (Nat.pow_pos (by decide))).2 hexact
    calc
      d.value ≤ (10 ^ k : ℕ) * 10 ^ d.exponent := by
        rw [value]
        exact mul_le_mul_of_nonneg_right (by exact_mod_cast hd.le) (ten_zpow_pos _).le
      _ = (10 ^ (k - 1) : ℕ) * 10 ^ (d.exponent + 1) := by
        obtain ⟨j, rfl⟩ := Nat.exists_eq_add_of_le' hk
        rw [zpow_add₀ (by norm_num), zpow_one, Nat.add_sub_cancel, Nat.pow_succ]
        push_cast
        ring
      _ ≤ (10 ^ (k - 1) : ℕ) * 10 ^ (exact.exponent + cut) := by
        refine mul_le_mul_of_nonneg_left ?_ (Nat.cast_nonneg _)
        exact zpow_le_zpow_right₀ (by norm_num) hfine
      _ ≤ (exact.below cut).value := by
        rw [value]
        exact mul_le_mul_of_nonneg_right (by exact_mod_cast hle) hten.le

theorem hasDigits_of_le {k : ℕ} (hk : 0 < k) (hd : d.digits ≤ 10 ^ k) : HasDigits k d.value := by
  rw [HasDigits, abs_of_nonneg d.value_nonneg, value]
  rcases hd.lt_or_eq with hlt | heq
  · exact ⟨d.digits, d.exponent, hlt, rfl⟩
  · refine ⟨1, k + d.exponent, Nat.one_lt_pow hk.ne' (by decide), ?_⟩
    rw [heq, zpow_add₀ (by norm_num), zpow_natCast]
    push_cast
    ring

theorem digits_lt_ten_pow (n : ℕ) : n < 10 ^ (wholeText n).length :=
  (Nat.length_toDigits_le_iff (by decide) Nat.length_toDigits_pos).1 le_rfl

theorem hasDigits_shortest (hf : 0 < f.fractionBits) (he : 2 ≤ f.exponentBits)
    (hc : c < f.infinityCode) {k : ℕ} (hk : 0 < k) (hd : d.readsBack f c = true)
    (hdigits : d.digits < 10 ^ k) : HasDigits k (shortest f c).value := by
  have hexact : (ofCode f c).readsBack f c = true := (readsBack_iff hf he hc).2 (code_ofCode hf c)
  rw [shortest]
  generalize ofCode f c = exact at hexact ⊢
  have hlength := digits_lt_ten_pow exact.digits
  have hpos : 0 < (wholeText exact.digits).length := Nat.length_toDigits_pos
  have hleast : ∀ i, 0 < i → i < (wholeText exact.digits).length → 10 ^ i ≤ exact.digits := by
    intro i hi hlt
    refine not_lt.1 fun h => ?_
    exact absurd ((Nat.length_toDigits_le_iff (by decide) hi).2 h) (not_le.2 hlt)
  generalize (wholeText exact.digits).length = length at hlength hpos hleast ⊢
  obtain ⟨cut, hcut, hfound, hnone⟩ := refine_spec f c exact (length - 1)
  -- On the grid that leaves as many digits as the decimal has, a neighbour reads back.
  have hfew : length - cut ≤ k := by
    by_contra hlt
    have hcoarser := neighbour?_eq_none (hnone (length - k) (by omega) (by omega))
    have hlarge : 10 ^ (k - 1) * 10 ^ (length - k) ≤ exact.digits := by
      rw [← Nat.pow_add]
      exact hleast _ (by omega) (by omega)
    rcases readsBack_below_or_above hf he hc hexact hd (le_below_or_above_le hk hdigits hlarge) with
      h | h
    · exact hcoarser.1 h
    · exact hcoarser.2 h
  refine HasDigits.mono (hasDigits_of_le (k := length - cut) (by omega) ?_) hfew
  have hkept : exact.digits / 10 ^ cut < 10 ^ (length - cut) := by
    rw [Nat.div_lt_iff_lt_mul (Nat.pow_pos (by decide)), ← Nat.pow_add]
    rwa [Nat.sub_add_cancel (by omega)]
  rcases hfound with ⟨rfl, h⟩ | h
  · rw [h]
    exact hlength.le
  · rcases (neighbour?_eq_some h).2 with h | h
    · rw [h]
      exact hkept.le
    · rw [h]
      exact hkept

end Decimal

end ScriptBridge.Number
