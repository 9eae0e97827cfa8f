import ScriptBridge.Proofs.Identity.Components
import ScriptBridge.Proofs.Tag.Canonical

/-!
No two tags share a text, be it one that is read back or not. Only arrays are written in brackets
and only structs behind the word that introduces them, so that a text shows the kind of its tag, and
within a kind it shows the rest. An identity can therefore take the text for the tag.
-/
namespace ScriptBridge.Tag

variable {a b t : Tag}

theorem isKeyword_or_array_or_struct (t : Tag) :
    t.isKeyword ∨ (∃ element, t = .array element) ∨ ∃ name, t = .struct name := by
  cases t <;> simp [isKeyword]

theorem bracketed_iff : (∃ u, t.chars = '[' :: (u ++ [']'])) ↔ ∃ element, t = .array element := by
  constructor
  · rintro ⟨u, hu⟩
    rcases isKeyword_or_array_or_struct t with hkeyword | harray | ⟨name, rfl⟩
    · exact absurd hu ((isPlain_of_isKeyword hkeyword).unbracketed u)
    · exact harray
    · simp [chars, structIntro] at hu
  · rintro ⟨element, rfl⟩
    exact ⟨element.chars, rfl⟩

theorem introduced_iff : structIntro <+: t.chars ↔ ∃ name, t = .struct name := by
  constructor
  · intro hintro
    rcases isKeyword_or_array_or_struct t with hkeyword | ⟨element, rfl⟩ | hstruct
    · have hword := not_structIntro_of_mem_keywords _ (mem_keywords_of_isKeyword hkeyword)
      rw [String.toList_ofList, List.isPrefixOf_iff_prefix.2 hintro] at hword
      cases hword
    · simp [chars, structIntro] at hintro
    · exact hstruct
  · rintro ⟨name, rfl⟩
    exact List.prefix_append structIntro name.toList

theorem eq_of_isKeyword (ha : a.isKeyword) (hb : b.isKeyword) (h : a.chars = b.chars) : a = b := by
  have hreada := keyword?_eq_some_iff.2 (mem_keywords_of_isKeyword ha)
  have hreadb := keyword?_eq_some_iff.2 (mem_keywords_of_isKeyword hb)
  rw [h, hreadb] at hreada
  exact (Option.some.inj hreada).symm

theorem isKeyword_of_chars_eq (ha : a.isKeyword) (h : a.chars = b.chars) : b.isKeyword := by
  rcases isKeyword_or_array_or_struct b with hkeyword | harray | hstruct
  · exact hkeyword
  · obtain ⟨element, rfl⟩ := bracketed_iff.1 (h ▸ bracketed_iff.2 harray)
    cases ha
  · obtain ⟨name, rfl⟩ := introduced_iff.1 (h ▸ introduced_iff.2 hstruct)
    cases ha

theorem eq_of_chars_eq (h : a.chars = b.chars) : a = b := by
  -- The kind of the left tag shows in its text, so the right one is of that kind too.
  induction a generalizing b with
  | array element ih =>
    obtain ⟨element', rfl⟩ := bracketed_iff.1 (h ▸ bracketed_iff.2 ⟨element, rfl⟩)
    have hinner : element.chars = element'.chars := by simpa [chars] using h
    rw [ih hinner]
  | struct name =>
    obtain ⟨name', rfl⟩ := introduced_iff.1 (h ▸ introduced_iff.2 ⟨name, rfl⟩)
    have hname : name.toList = name'.toList := by simpa [chars] using h
    rw [String.toList_inj.1 hname]
  | _ => exact eq_of_isKeyword rfl (isKeyword_of_chars_eq rfl h) h

theorem text_inj : a.text = b.text ↔ a = b := by
  constructor
  · intro h
    apply eq_of_chars_eq
    rw [← toList_text, h, toList_text]
  · rintro rfl
    rfl

/-- Tags with one text are the same, whatever the names of structs in them are. Therefore two
bindings that differ in the tag of one parameter have different identities, unless the hash takes
their two different texts to one word. -/
theorem texts_unambiguous :
    (∀ a b : Tag, a.text = b.text ↔ a = b) ∧
      ∀ (h : String → UInt64) (space name : String) (ps qs : List Tag) (a b : Tag),
        BindingId.ofFunctionBy h space name (ps ++ a :: qs) =
            BindingId.ofFunctionBy h space name (ps ++ b :: qs) ↔
          a = b ∨ a.text ≠ b.text ∧ h a.text = h b.text := by
  refine ⟨fun a b => text_inj, fun h space name ps qs a b => ?_⟩
  rw [BindingId.ofFunctionBy_middle_inj, ← text_inj]
  by_cases htext : a.text = b.text <;> simp [htext]

end ScriptBridge.Tag
