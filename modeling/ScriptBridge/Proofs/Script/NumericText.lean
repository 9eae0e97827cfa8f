import ScriptBridge.Proofs.Number.Decimal
import ScriptBridge.Proofs.Number.Integer
import ScriptBridge.Proofs.Number.Spelling
import ScriptBridge.Proofs.Text.Trim
import ScriptBridge.Script.Value

/-!
Texts that scripts may use as numbers. Those are the decimal numerals between blanks, and each has
the double that is nearest to its exact number.
-/
namespace ScriptBridge

open ScriptBridge.Number ScriptBridge.Text

variable {s : String} {t : List Char} {n : Numeral} {x : Double}

namespace Number.Numeral

/-- The double of a numeral: the nearest one, an infinity from halfway past the largest double on,
and a zero up to half of the smallest. In all cases it has the sign of the numeral. -/
structure RoundsTo (n : Numeral) (x : Double) : Prop where
  ne_nan : x ≠ .nan
  nearest : |n.value| < 2 ^ 1024 - 2 ^ 970 →
    ∃ code, x = .finite n.negative code ∧ x.IsNearest n.value
  overflow : 2 ^ 1024 - 2 ^ 970 ≤ |n.value| → x = .infinity n.negative
  underflow : |n.value| ≤ 1 / 2 ^ 1075 → x = .zero .double n.negative

theorem double_exponentBits_ge : 2 ≤ Format.double.exponentBits := by decide

theorem roundsTo_iff : n.RoundsTo x ↔ x = n.toBinary .double := by
  rw [← rounds_iff Binary.double_fractionBits_pos double_exponentBits_ge]
  constructor
  · intro h
    rcases lt_or_ge |n.value| Format.double.overflow with hlt | hle
    · obtain ⟨code, hx, hnear⟩ := h.nearest (Format.double_overflow ▸ hlt)
      rw [hx] at hnear ⊢
      exact .finite hlt hnear
    · rw [h.overflow (Format.double_overflow ▸ hle)]
      exact .infinity hle
  · intro h
    refine ⟨h.ne_nan, fun hlt => ?_, fun hle => ?_, fun hle => ?_⟩
    · rw [← Format.double_overflow] at hlt
      cases h with
      | @finite code _ hnear => exact ⟨code, rfl, hnear⟩
      | infinity hle => exact absurd hlt (not_lt.2 hle)
    · exact h.eq (.infinity (Format.double_overflow ▸ hle))
    · refine h.eq (Binary.rounds_zero Binary.double_fractionBits_pos ?_ n.negative ?_)
      · decide
      · exact Format.double_underflow ▸ hle

end Number.Numeral

namespace Value

theorem isWordLetter_iff {c : Char} :
    isWordLetter c ↔ c = 'i' ∨ c = 'I' ∨ c = 'n' ∨ c = 'N' := by
  simp [isWordLetter, or_assoc]

theorem any_isWordLetter_of_spells (h : Numeral.Spells t n) : t.any isWordLetter = false := by
  rw [List.any_eq_false]
  intro c hc hletter
  have hchar := h.isDigit_or_mem_marks c hc
  revert hchar
  rcases isWordLetter_iff.1 hletter with rfl | rfl | rfl | rfl <;> decide

theorem any_isWordLetter_of_wordSpells (h : Binary.WordSpells t x) :
    t.any isWordLetter = true := by
  obtain ⟨c, hc, hn⟩ := h.exists_n
  refine List.any_eq_true.2 ⟨c, hc, isWordLetter_iff.2 ?_⟩
  exact Or.inr (Or.inr hn)

theorem readNumber?_eq_some_iff :
    readNumber? s = some x ↔ ∃ n, Numeral.Spells (trim s.toList) n ∧ x = n.toBinary .double := by
  unfold readNumber?
  dsimp only
  split
  · rename_i hletter
    simp only [reduceCtorEq, false_iff]
    rintro ⟨n, hn, -⟩
    rw [any_isWordLetter_of_spells hn] at hletter
    cases hletter
  · rename_i hletter
    rw [Binary.read?_eq_some_iff, or_iff_left]
    exact fun hword => hletter (any_isWordLetter_of_wordSpells hword)

theorem number?_string_eq_some_iff : (Value.string s).number? = some x ↔
    ∃ t n, TrimsTo s.toList t ∧ Numeral.Spells t n ∧ n.RoundsTo x := by
  simp only [number?, readNumber?_eq_some_iff, Numeral.roundsTo_iff]
  constructor
  · rintro ⟨n, hn, hx⟩
    exact ⟨_, n, trimsTo_trim _, hn, hx⟩
  · rintro ⟨t, n, ht, hn, hx⟩
    exact ⟨n, ht.trim_eq ▸ hn, hx⟩

theorem number?_string_eq_none_iff : (Value.string s).number? = none ↔
    ¬∃ t n, TrimsTo s.toList t ∧ Numeral.Spells t n := by
  rw [Option.eq_none_iff_forall_ne_some, not_exists]
  simp only [ne_eq, number?_string_eq_some_iff]
  constructor
  · rintro h t ⟨n, ht, hn⟩
    exact h _ ⟨t, n, ht, hn, Numeral.roundsTo_iff.2 rfl⟩
  · rintro h x ⟨t, n, ht, hn, -⟩
    exact h t ⟨n, ht, hn⟩

/-- A text is a number to scripts exactly if, blanks at its ends apart, it is a decimal numeral,
and then it is the double that the numeral rounds to. Infinities and NaN cannot be spelled, and the
letters refused on their account occur in no numeral. -/
theorem number?_of_text (s : String) :
    (∀ x, (Value.string s).number? = some x ↔
      ∃ t n, TrimsTo s.toList t ∧ Numeral.Spells t n ∧ n.RoundsTo x) ∧
    ((Value.string s).number? = none ↔ ¬∃ t n, TrimsTo s.toList t ∧ Numeral.Spells t n) ∧
    (∀ (t : List Char) (x : Double), TrimsTo s.toList t → Binary.WordSpells t x →
      (Value.string s).number? = none) ∧
    ∀ (t : List Char) (n : Numeral), Numeral.Spells t n → t.any isWordLetter = false := by
  refine ⟨fun x => number?_string_eq_some_iff, number?_string_eq_none_iff, ?_,
    fun t n hn => any_isWordLetter_of_spells hn⟩
  intro t x ht hword
  rw [number?_string_eq_none_iff]
  rintro ⟨u, n, hu, hn⟩
  have htu : t = u := ht.trim_eq.symm.trans hu.trim_eq
  have hletter := any_isWordLetter_of_wordSpells hword
  rw [htu, any_isWordLetter_of_spells hn] at hletter
  cases hletter

/-- A numeral halfway between two doubles gets the one with the even code. A word for an infinity is
no number, be it in capitals and with a sign. -/
theorem number?_of_halfway_text :
    (∃ n, Numeral.Spells "9007199254740993".toList n ∧
        n.RoundsTo (.finite false ⟨0x4340000000000000, by decide⟩)) ∧
      (Value.string "-Infinity").number? = none := by
  obtain ⟨hsome, -, -, -⟩ := number?_of_text "\t9007199254740993 "
  obtain ⟨t, n, ht, hn, hx⟩ :=
    (hsome (.finite false ⟨0x4340000000000000, by decide⟩)).1 (by decide +kernel)
  have htext : t = "9007199254740993".toList := ht.trim_eq.symm.trans (by decide)
  obtain ⟨-, -, hwords, -⟩ := number?_of_text "-Infinity"
  have htrimmed : IsTrimmed "-Infinity".toList := by decide
  have hword : "Infinity".toList.map Char.toLower ∈ Binary.infinityWords := by decide
  refine ⟨⟨n, htext ▸ hn, hx⟩, ?_⟩
  exact hwords _ (.infinity true) htrimmed.trimsTo (.infinity .minus hword)

end Value

end ScriptBridge
