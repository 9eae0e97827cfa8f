import ScriptBridge.Number.Arithmetic
import ScriptBridge.Number.Numeral
import Mathlib.Data.List.TakeWhile

/-!
The grammar of decimal numerals, part by part. Reading a text gives the numeral that it spells and
fails exactly on the texts that spell none; no text spells two. Words for infinities and NaN have a
letter in them that numerals never have.
-/
namespace ScriptBridge.Number

variable {s t ws fs : List Char} {negative : Bool} {e : Int} {n : Numeral}

structure Digits (s : List Char) : Prop where
  ne_nil : s ≠ []
  isDigit : ∀ c ∈ s, isDigit c

inductive SignSpells : List Char → Bool → Prop
  | absent : SignSpells [] false
  | plus : SignSpells ['+'] false
  | minus : SignSpells ['-'] true

inductive MantissaSpells : List Char → List Char → List Char → Prop
  | whole {ws : List Char} (digits : Digits ws) : MantissaSpells ws ws []
  | point {ws fs : List Char} (digits : Digits ws) (rest : ∀ c ∈ fs, isDigit c) :
      MantissaSpells (ws ++ '.' :: fs) ws fs
  | fraction {fs : List Char} (digits : Digits fs) : MantissaSpells ('.' :: fs) [] fs

inductive ExponentSpells : List Char → Int → Prop
  | absent : ExponentSpells [] 0
  | power {mark : Char} {sign ds : List Char} {negative : Bool} (mark_eq : mark = 'e' ∨ mark = 'E')
      (signed : SignSpells sign negative) (digits : Digits ds) :
      ExponentSpells (mark :: (sign ++ ds)) (Binary.withSign negative (digitsValue ds))

inductive Numeral.Spells : List Char → Numeral → Prop
  | mk {sign mantissa power ws fs : List Char} {negative : Bool} {e : Int}
      (signed : SignSpells sign negative) (digits : MantissaSpells mantissa ws fs)
      (raised : ExponentSpells power e) :
      Numeral.Spells (sign ++ (mantissa ++ power)) ⟨negative, ws, fs, e⟩

theorem Digits.head {c : Char} (h : Digits s) (hc : c ∈ (s ++ t).head?) : Number.isDigit c := by
  obtain ⟨d, rest, rfl⟩ := List.exists_cons_of_ne_nil h.ne_nil
  rw [List.cons_append, List.head?_cons, Option.mem_some] at hc
  exact h.isDigit c (hc ▸ List.mem_cons_self)

theorem isDigit_iff {c : Char} : isDigit c ↔ 48 ≤ c.toNat ∧ c.toNat ≤ 57 := by
  simp [isDigit, Char.le_def, UInt32.le_iff_toNat_le]

theorem digits_toDigits (n : Nat) : Digits (Nat.toDigits 10 n) where
  ne_nil := Nat.toDigits_ne_nil
  isDigit c hc := by
    have hdigit : c.isDigit := Nat.isDigit_of_mem_toDigits (by decide) (by decide) hc
    simpa [Char.isDigit, isDigit_iff, UInt32.le_iff_toNat_le] using hdigit

def marks : List Char := ['+', '-', '.', 'e', 'E']

theorem span_digits (h : ∀ c ∈ ws, isDigit c) (hs : ∀ c ∈ s.head?, isDigit c = false) :
    (ws ++ s).takeWhile isDigit = ws ∧ (ws ++ s).dropWhile isDigit = s := by
  rw [List.takeWhile_append_of_pos h, List.dropWhile_append_of_pos h]
  cases s with
  | nil => simp
  | cons c s =>
    have hc : isDigit c = false := hs c rfl
    simp [hc]

namespace Numeral

theorem exists_splitSign (s : List Char) :
    ∃ sign, SignSpells sign (splitSign s).1 ∧ s = sign ++ (splitSign s).2 := by
  unfold splitSign
  split
  · exact ⟨['-'], .minus, rfl⟩
  · exact ⟨['+'], .plus, rfl⟩
  · exact ⟨[], .absent, rfl⟩

theorem splitSign_append (h : SignSpells s negative)
    (ht : ∀ c ∈ t.head?, c ≠ '+' ∧ c ≠ '-') : splitSign (s ++ t) = (negative, t) := by
  cases h with
  | plus => rfl
  | minus => rfl
  | absent =>
    rw [List.nil_append]
    unfold splitSign
    split
    · exact absurd rfl (ht '-' rfl).2
    · exact absurd rfl (ht '+' rfl).1
    · rfl

theorem splitSign_append_digits (h : SignSpells s negative) (ht : Digits t) :
    splitSign (s ++ t) = (negative, t) := by
  refine splitSign_append h fun c hc => ?_
  have hdigit : isDigit c := ht.head (t := []) (by rwa [List.append_nil])
  constructor <;> rintro rfl <;> cases hdigit

theorem readExponent?_eq_some_iff : readExponent? s = some e ↔ ExponentSpells s e := by
  constructor
  · intro h
    cases s with
    | nil =>
      cases h
      exact .absent
    | cons mark rest =>
      simp only [readExponent?] at h
      split at h
      · rename_i hmark
        split at h
        · rename_i hdigits
          obtain ⟨sign, hsign, hrest⟩ := exists_splitSign rest
          have hpower := ExponentSpells.power hmark hsign
            ⟨hdigits.1, List.all_eq_true.1 hdigits.2⟩
          rw [← hrest] at hpower
          cases h
          exact hpower
        · cases h
      · cases h
  · rintro (_ | ⟨hmark, hsign, hdigits⟩)
    · rfl
    · rw [readExponent?, if_pos hmark, splitSign_append_digits hsign hdigits]
      exact if_pos ⟨hdigits.ne_nil, List.all_eq_true.2 hdigits.isDigit⟩

theorem head_of_exponentSpells (h : ExponentSpells s e) :
    ∀ c ∈ s.head?, isDigit c = false ∧ c ≠ '.' := by
  intro c hc
  cases h with
  | absent => cases hc
  | power hmark =>
    rw [List.head?_cons, Option.mem_some] at hc
    subst hc
    rcases hmark with rfl | rfl <;> decide

theorem splitFraction_of_head (h : ∀ c ∈ s.head?, c ≠ '.') : splitFraction s = ([], s) := by
  unfold splitFraction
  split
  · exact absurd rfl (h '.' rfl)
  · rfl

theorem splitFraction_point (h : ∀ c ∈ fs, isDigit c) (hs : ∀ c ∈ s.head?, isDigit c = false) :
    splitFraction ('.' :: (fs ++ s)) = (fs, s) := by
  obtain ⟨htake, hdrop⟩ := span_digits h hs
  rw [splitFraction, htake, hdrop]

theorem splitFraction_spec (s : List Char) :
    splitFraction s = ([], s) ∨
      ∃ fs rest, s = '.' :: (fs ++ rest) ∧ (∀ c ∈ fs, isDigit c) ∧
        splitFraction s = (fs, rest) := by
  unfold splitFraction
  split
  · rename_i rest
    refine Or.inr ⟨rest.takeWhile isDigit, rest.dropWhile isDigit, ?_,
      fun c hc => List.mem_takeWhile_imp hc, rfl⟩
    rw [List.takeWhile_append_dropWhile]
  · exact Or.inl rfl

theorem split_of_mantissaSpells (h : MantissaSpells t ws fs)
    (hs : ∀ c ∈ s.head?, isDigit c = false ∧ c ≠ '.') :
    (t ++ s).takeWhile isDigit = ws ∧ splitFraction ((t ++ s).dropWhile isDigit) = (fs, s) := by
  have hstop : ∀ c ∈ s.head?, isDigit c = false := fun c hc => (hs c hc).1
  cases h with
  | whole digits =>
    obtain ⟨htake, hdrop⟩ := span_digits digits.isDigit hstop
    rw [htake, hdrop]
    exact ⟨rfl, splitFraction_of_head fun c hc => (hs c hc).2⟩
  | point digits rest =>
    have hpoint : ∀ c ∈ ('.' :: (fs ++ s)).head?, isDigit c = false := by
      rintro c ⟨⟩
      rfl
    obtain ⟨htake, hdrop⟩ := span_digits digits.isDigit hpoint
    rw [List.append_assoc, List.cons_append, htake, hdrop]
    exact ⟨rfl, splitFraction_point rest hstop⟩
  | fraction digits => exact ⟨rfl, splitFraction_point digits.isDigit hstop⟩

theorem exists_mantissaSpells (s : List Char)
    (h : ¬(s.takeWhile isDigit = [] ∧ (splitFraction (s.dropWhile isDigit)).1 = [])) :
    ∃ t, MantissaSpells t (s.takeWhile isDigit) (splitFraction (s.dropWhile isDigit)).1 ∧
      s = t ++ (splitFraction (s.dropWhile isDigit)).2 := by
  have hsplit : s.takeWhile isDigit ++ s.dropWhile isDigit = s := List.takeWhile_append_dropWhile
  have hwhole : ∀ c ∈ s.takeWhile isDigit, isDigit c := fun c hc => List.mem_takeWhile_imp hc
  generalize s.takeWhile isDigit = ws at *
  generalize s.dropWhile isDigit = rest at *
  rcases splitFraction_spec rest with hnone | ⟨fs, after, rfl, hfs, hsome⟩
  · rw [hnone] at h ⊢
    have hne : ws ≠ [] := fun hws => h ⟨hws, rfl⟩
    exact ⟨ws, .whole ⟨hne, hwhole⟩, hsplit.symm⟩
  · rw [hsome] at h ⊢
    by_cases hws : ws = []
    · subst hws
      have hne : fs ≠ [] := fun hfs => h ⟨rfl, hfs⟩
      exact ⟨'.' :: fs, .fraction ⟨hne, hfs⟩, hsplit.symm⟩
    · refine ⟨ws ++ '.' :: fs, .point ⟨hws, hwhole⟩ hfs, ?_⟩
      rw [← hsplit, List.append_assoc, List.cons_append]

theorem not_both_nil_of_mantissaSpells (h : MantissaSpells t ws fs) : ¬(ws = [] ∧ fs = []) := by
  rintro ⟨rfl, rfl⟩
  cases h with
  | whole digits => exact digits.ne_nil rfl
  | point digits rest => exact digits.ne_nil rfl
  | fraction digits => exact digits.ne_nil rfl

theorem head_of_mantissaSpells (h : MantissaSpells t ws fs) (s : List Char) :
    ∀ c ∈ (t ++ s).head?, c ≠ '+' ∧ c ≠ '-' := by
  intro c hc
  suffices hhead : isDigit c ∨ c = '.' by
    constructor <;> rintro rfl <;> revert hhead <;> decide
  cases h with
  | whole digits => exact Or.inl (digits.head hc)
  | point digits rest =>
    rw [List.append_assoc] at hc
    exact Or.inl (digits.head hc)
  | fraction digits => exact Or.inr (Option.mem_some.1 hc).symm

theorem Spells.read? (h : Spells s n) : Numeral.read? s = some n := by
  cases h with
  | @mk sign mantissa power ws fs negative e signed digits raised =>
    obtain ⟨hwhole, hfraction⟩ := split_of_mantissaSpells digits (head_of_exponentSpells raised)
    have hsign := splitSign_append signed (head_of_mantissaSpells digits power)
    simp only [Numeral.read?, hsign, hwhole, hfraction,
      if_neg (not_both_nil_of_mantissaSpells digits), readExponent?_eq_some_iff.2 raised,
      Option.map_some]

theorem spells_of_read? (h : read? s = some n) : Spells s n := by
  obtain ⟨sign, hsign, hs⟩ := exists_splitSign s
  simp only [Numeral.read?] at h
  split at h
  · cases h
  · rename_i hne
    obtain ⟨t, hdigits, ht⟩ := exists_mantissaSpells _ hne
    obtain ⟨e, he, rfl⟩ := Option.map_eq_some_iff.1 h
    have hspells := Spells.mk hsign hdigits (readExponent?_eq_some_iff.1 he)
    rwa [← ht, ← hs] at hspells

/-- Reading finds the one numeral that a text spells. -/
theorem read?_eq_some_iff : read? s = some n ↔ Spells s n :=
  ⟨spells_of_read?, Spells.read?⟩

theorem mem_marks_of_signSpells (h : SignSpells s negative) : ∀ c ∈ s, c ∈ marks := by
  cases h with
  | absent => exact List.forall_mem_nil _
  | plus => exact List.forall_mem_singleton.2 (by decide)
  | minus => exact List.forall_mem_singleton.2 (by decide)

theorem isDigit_or_mem_marks_of_mantissaSpells (h : MantissaSpells t ws fs) :
    ∀ c ∈ t, isDigit c ∨ c ∈ marks := by
  intro c hc
  cases h with
  | whole digits => exact Or.inl (digits.isDigit c hc)
  | point digits rest =>
    rcases List.mem_append.1 hc with hc | hc
    · exact Or.inl (digits.isDigit c hc)
    · rcases List.mem_cons.1 hc with rfl | hc
      · exact Or.inr (by decide)
      · exact Or.inl (rest c hc)
  | fraction digits =>
    rcases List.mem_cons.1 hc with rfl | hc
    · exact Or.inr (by decide)
    · exact Or.inl (digits.isDigit c hc)

theorem isDigit_or_mem_marks_of_exponentSpells (h : ExponentSpells s e) :
    ∀ c ∈ s, isDigit c ∨ c ∈ marks := by
  intro c hc
  cases h with
  | absent => cases hc
  | power hmark signed digits =>
    rcases List.mem_cons.1 hc with rfl | hc
    · rcases hmark with rfl | rfl <;> exact Or.inr (by decide)
    · rcases List.mem_append.1 hc with hc | hc
      · exact Or.inr (mem_marks_of_signSpells signed c hc)
      · exact Or.inl (digits.isDigit c hc)

theorem Spells.isDigit_or_mem_marks (h : Spells s n) : ∀ c ∈ s, isDigit c ∨ c ∈ marks := by
  obtain ⟨signed, digits, raised⟩ := h
  intro c hc
  rcases List.mem_append.1 hc with hc | hc
  · exact Or.inr (mem_marks_of_signSpells signed c hc)
  · rcases List.mem_append.1 hc with hc | hc
    · exact isDigit_or_mem_marks_of_mantissaSpells digits c hc
    · exact isDigit_or_mem_marks_of_exponentSpells raised c hc

end Numeral

namespace Binary

variable {f : Format} {x : Binary f} {word : List Char}

def infinityWords : List (List Char) := ["inf".toList, "infinity".toList]

def nanWord : List Char := "nan".toList

/-- A word for an infinity or for NaN behind an optional sign, in letters of either case. -/
inductive WordSpells {f : Format} : List Char → Binary f → Prop
  | infinity {sign word : List Char} {negative : Bool} (signed : SignSpells sign negative)
      (spelled : word.map Char.toLower ∈ infinityWords) :
      WordSpells (sign ++ word) (.infinity negative)
  | nan {sign word : List Char} {negative : Bool} (signed : SignSpells sign negative)
      (spelled : word.map Char.toLower = nanWord) : WordSpells (sign ++ word) .nan

theorem mem_words : ∀ w ∈ nanWord :: infinityWords,
    'n' ∈ w ∧ w.head? ≠ some (Char.toLower '+') ∧ w.head? ≠ some (Char.toLower '-') := by
  decide

theorem eq_n_of_toLower_eq {c : Char} (h : c.toLower = 'n') : c = 'n' ∨ c = 'N' := by
  unfold Char.toLower at h
  split at h
  · have hval : c.val + ('a'.val - 'A'.val) = 'n'.val := congrArg Char.val h
    exact Or.inr (Char.ext (UInt32.eq_sub_iff_add_eq.2 hval))
  · exact Or.inl h

theorem splitSign_append_word (h : SignSpells s negative)
    (hword : word.map Char.toLower ∈ nanWord :: infinityWords) :
    Numeral.splitSign (s ++ word) = (negative, word) := by
  obtain ⟨-, hplus, hminus⟩ := mem_words _ hword
  refine Numeral.splitSign_append h fun c hc => ?_
  rw [List.head?_map, Option.mem_def.1 hc] at hplus hminus
  exact ⟨fun h => hplus (congrArg (some ∘ Char.toLower) h),
    fun h => hminus (congrArg (some ∘ Char.toLower) h)⟩

theorem WordSpells.exists_n (h : WordSpells s x) : ∃ c ∈ s, c = 'n' ∨ c = 'N' := by
  have hword : ∀ {sign word : List Char}, word.map Char.toLower ∈ nanWord :: infinityWords →
      ∃ c ∈ sign ++ word, c = 'n' ∨ c = 'N' := by
    intro sign word hspelled
    obtain ⟨c, hc, hlower⟩ := List.mem_map.1 (mem_words _ hspelled).1
    exact ⟨c, List.mem_append_right sign hc, eq_n_of_toLower_eq hlower⟩
  cases h with
  | infinity signed spelled => exact hword (List.mem_cons_of_mem _ spelled)
  | nan signed spelled => exact hword (List.mem_cons.2 (Or.inl spelled))

theorem WordSpells.numeral_read? (h : WordSpells s x) : Numeral.read? s = none := by
  rw [Option.eq_none_iff_forall_ne_some]
  intro n hn
  obtain ⟨c, hc, hletter⟩ := h.exists_n
  have hchar := (Numeral.read?_eq_some_iff.1 hn).isDigit_or_mem_marks c hc
  revert hchar
  rcases hletter with rfl | rfl <;> decide

theorem WordSpells.read? (h : WordSpells s x) : Binary.read? f s = some x := by
  rw [Binary.read?, h.numeral_read?]
  cases h with
  | infinity signed spelled =>
    simp only [splitSign_append_word signed (List.mem_cons_of_mem _ spelled)]
    exact if_pos (by simpa [infinityWords] using spelled)
  | nan signed spelled =>
    simp only [splitSign_append_word signed (List.mem_cons.2 (Or.inl spelled)), ofWord?, spelled]
    rfl

theorem wordSpells_of_ofWord? (hsign : SignSpells s negative)
    (h : ofWord? f negative word = some x) : WordSpells (s ++ word) x := by
  simp only [ofWord?] at h
  split at h
  · rename_i hword
    cases h
    exact .infinity hsign (by simpa [infinityWords] using hword)
  · split at h
    · rename_i hword
      cases h
      exact .nan hsign hword
    · cases h

/-- Reading knows numerals and words, and nothing else. -/
theorem read?_eq_some_iff :
    Binary.read? f s = some x ↔ (∃ n, Numeral.Spells s n ∧ x = n.toBinary f) ∨ WordSpells s x := by
  constructor
  · intro h
    unfold Binary.read? at h
    split at h
    · rename_i n hn
      exact Or.inl ⟨n, Numeral.read?_eq_some_iff.1 hn, (Option.some.inj h).symm⟩
    · obtain ⟨sign, hsign, hs⟩ := Numeral.exists_splitSign s
      rw [hs]
      exact Or.inr (wordSpells_of_ofWord? hsign h)
  · rintro (⟨n, hn, rfl⟩ | h)
    · rw [Binary.read?, hn.read?]
    · exact h.read?

end Binary

end ScriptBridge.Number
