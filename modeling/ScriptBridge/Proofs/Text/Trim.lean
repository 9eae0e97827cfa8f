import Mathlib.Data.List.DropRight
import ScriptBridge.Text.Blank

/-!
What trimming leaves of a text. It is the one text without blanks at its ends that stands between
blanks in the given one.
-/
namespace ScriptBridge.Text

variable {s t : List Char}

/-- The characters that have the property White_Space. -/
def whiteSpace : List Char := [
  '\u0009', '\u000a', '\u000b', '\u000c', '\u000d', '\u0020', '\u0085', '\u00a0', '\u1680',
  '\u2000', '\u2001', '\u2002', '\u2003', '\u2004', '\u2005', '\u2006', '\u2007', '\u2008',
  '\u2009', '\u200a', '\u2028', '\u2029', '\u202f', '\u205f', '\u3000']

theorem isBlank_iff {c : Char} : isBlank c ↔ c ∈ whiteSpace := by
  have hcodes : c ∈ whiteSpace ↔ c.toNat ∈ whiteSpace.map Char.toNat :=
    (List.mem_map_of_injective fun _ _ => Char.toNat_inj.1).symm
  rw [hcodes]
  simp [isBlank, whiteSpace]
  omega

structure IsTrimmed (s : List Char) : Prop where
  head : ∀ c ∈ s.head?, ¬isBlank c
  last : ∀ c ∈ s.getLast?, ¬isBlank c

instance (s : List Char) : Decidable (IsTrimmed s) :=
  decidable_of_iff (s.head?.all (!isBlank ·) = true ∧ s.getLast?.all (!isBlank ·) = true) <| by
    simp only [Option.all_eq_true, Bool.not_eq_true']
    exact ⟨fun h => ⟨by simpa using h.1, by simpa using h.2⟩,
      fun h => ⟨by simpa using h.head, by simpa using h.last⟩⟩

structure TrimsTo (s t : List Char) : Prop where
  trimmed : IsTrimmed t
  padded : ∃ before after, s = before ++ t ++ after ∧
    (∀ c ∈ before, isBlank c) ∧ ∀ c ∈ after, isBlank c

theorem IsTrimmed.trimsTo (h : IsTrimmed s) : TrimsTo s s where
  trimmed := h
  padded := ⟨[], [], by simp, by simp, by simp⟩

theorem isTrimmed_between {c d : Char} (hc : ¬isBlank c) (hd : ¬isBlank d) (s : List Char) :
    IsTrimmed (c :: (s ++ [d])) where
  head := by simpa using hc
  last := by simpa [List.getLast?_cons] using hd

theorem IsTrimmed.trimStart_eq (h : IsTrimmed s) : trimStart s = s := by
  rw [trimStart, List.dropWhile_eq_self_iff]
  intro hs
  exact h.head _ (List.head?_eq_getElem? ▸ List.getElem?_eq_getElem hs)

theorem IsTrimmed.trimEnd_eq (h : IsTrimmed s) : trimEnd s = s := by
  refine List.rdropWhile_eq_self_iff.2 fun hs => ?_
  exact h.last _ (List.getLast?_eq_some_getLast hs)

theorem trimEnd_append {after : List Char} (h : ∀ c ∈ after, isBlank c) (s : List Char) :
    trimEnd (s ++ after) = trimEnd s := by
  have hafter : ∀ c ∈ after.reverse, isBlank c := fun c hc => h c (List.mem_reverse.1 hc)
  rw [trimEnd, List.reverse_append, List.dropWhile_append_of_pos hafter, trimEnd]

theorem trimStart_append {before : List Char} (h : ∀ c ∈ before, isBlank c) (s : List Char) :
    trimStart (before ++ s) = trimStart s := by
  rw [trimStart, List.dropWhile_append_of_pos h, trimStart]

theorem trim_append {after : List Char} (h : ∀ c ∈ after, isBlank c) (s : List Char) :
    trim (s ++ after) = trim s := by
  -- Up to the first character that stays the front comes off on both sides; from there on the two
  -- ends do not meet.
  induction s with
  | nil =>
    have hstart : trimStart after = [] := List.dropWhile_eq_nil_iff.2 h
    rw [List.nil_append, trim, hstart]
    rfl
  | cons c s ih =>
    by_cases hc : isBlank c
    · have hdrop : ∀ u, trim (c :: u) = trim u := by
        intro u
        rw [trim, trimStart, List.dropWhile_cons_of_pos hc]
        rfl
      rw [List.cons_append, hdrop, hdrop, ih]
    · have hkeep : ∀ u, trimStart (c :: u) = c :: u := fun u => List.dropWhile_cons_of_neg hc
      rw [trim, trim, List.cons_append, hkeep, hkeep, ← List.cons_append, trimEnd_append h]

theorem TrimsTo.trim_eq (h : TrimsTo s t) : trim s = t := by
  obtain ⟨before, after, rfl, hbefore, hafter⟩ := h.padded
  rw [trim_append hafter, trim, trimStart_append hbefore, h.trimmed.trimStart_eq,
    h.trimmed.trimEnd_eq]

theorem not_isBlank_of_head_trimStart {c : Char} (h : c ∈ (trimStart s).head?) : ¬isBlank c := by
  have hhead := List.head?_dropWhile_not isBlank s
  rw [← trimStart, Option.mem_def.1 h] at hhead
  simpa using hhead

theorem isTrimmed_trim (s : List Char) : IsTrimmed (trim s) where
  head c hc := by
    obtain ⟨rest, hrest⟩ := List.rdropWhile_prefix isBlank (trimStart s)
    have hfirst : c ∈ (trimStart s).head? := by
      rw [← hrest]
      exact List.mem_head?_append_of_mem_head? hc
    exact not_isBlank_of_head_trimStart hfirst
  last c hc := by
    have hne : trim s ≠ [] := by
      rintro hnil
      simp [hnil] at hc
    have hlast := List.rdropWhile_last_not isBlank (trimStart s) hne
    rw [Option.mem_def, List.getLast?_eq_some_getLast hne, Option.some.injEq] at hc
    exact hc ▸ hlast

theorem trimsTo_trim (s : List Char) : TrimsTo s (trim s) where
  trimmed := isTrimmed_trim s
  padded := by
    have hend : trimStart s = trim s ++ ((trimStart s).reverse.takeWhile isBlank).reverse := by
      rw [trim, trimEnd, ← List.reverse_append, List.takeWhile_append_dropWhile,
        List.reverse_reverse]
    refine ⟨s.takeWhile isBlank, ((trimStart s).reverse.takeWhile isBlank).reverse, ?_,
      fun c hc => List.mem_takeWhile_imp hc,
      fun c hc => List.mem_takeWhile_imp (List.mem_reverse.1 hc)⟩
    rw [List.append_assoc, ← hend]
    exact List.takeWhile_append_dropWhile.symm

theorem trim_eq_iff : trim s = t ↔ TrimsTo s t :=
  ⟨fun h => h ▸ trimsTo_trim s, TrimsTo.trim_eq⟩

theorem trim_ne_nil_of_isTrimmed {before : List Char} {c : Char} (hc : isBlank c)
    (h : IsTrimmed (before ++ c :: s)) : trim s ≠ [] := by
  intro hnil
  obtain ⟨front, behind, hsplit, hfront, hbehind⟩ := (trim_eq_iff.1 hnil).padded
  have hblank : ∀ d ∈ c :: s, isBlank d := by
    intro d hd
    rw [hsplit, List.append_nil] at hd
    simp only [List.mem_cons, List.mem_append] at hd
    rcases hd with rfl | hd | hd
    · exact hc
    · exact hfront d hd
    · exact hbehind d hd
  have hne : c :: s ≠ [] := List.cons_ne_nil c s
  refine h.last _ ?_ (hblank _ (List.getLast_mem hne))
  rw [List.getLast?_append, List.getLast?_eq_some_getLast hne]
  rfl

end ScriptBridge.Text
