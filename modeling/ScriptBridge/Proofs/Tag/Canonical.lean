import ScriptBridge.Proofs.Tag.Grammar

/-!
Tags that are read back from their texts. The name of a struct has no mark at its end, so blanks at
the ends of it are lost, and without a name there is nothing to read. All other tags are canonical,
and so is every tag that was read.
-/
namespace ScriptBridge.Tag

open ScriptBridge.Text

variable {t : Tag}

def core : Tag → Tag
  | .array element => element.core
  | t => t

/-- The name of a struct inside the layers is not empty and has no blank at either end. -/
def IsCanonical (t : Tag) : Prop :=
  ∀ name, t.core = .struct name → name ≠ "" ∧ IsTrimmed name.toList

theorem core_layers (n : Nat) (t : Tag) : (layers n t).core = t.core := by
  induction n with
  | zero => rfl
  | succ n ih => exact ih

theorem exists_layers_core (t : Tag) : ∃ n, t = layers n t.core := by
  induction t with
  | array element ih =>
    obtain ⟨n, hn⟩ := ih
    exact ⟨n + 1, congrArg array hn⟩
  | _ => exact ⟨0, rfl⟩

theorem core_eq_struct_or_isKeyword (t : Tag) :
    (∃ name, t.core = .struct name) ∨ t.core.isKeyword := by
  induction t with
  | array element ih => exact ih
  | struct name => exact .inl ⟨name, rfl⟩
  | _ => exact .inr rfl

/-- A text that spells a tag as it is: nothing can be taken off, and what it says is the tag. -/
structure IsPlain (t : Tag) : Prop where
  trimmed : IsTrimmed t.chars
  unbracketed : ∀ u, t.chars ≠ '[' :: (u ++ [']'])
  spells : Spells t.chars t

theorem plain_of_mem_keywords :
    ∀ p ∈ keywords, IsTrimmed p.1.toList ∧ unbracket? p.1.toList = none := by
  decide

theorem isPlain_of_isKeyword (h : t.isKeyword) : t.IsPlain := by
  have hword := plain_of_mem_keywords _ (mem_keywords_of_isKeyword h)
  have hspells := Spells.own (mem_words_of_isKeyword h)
  rw [String.toList_ofList] at hword hspells
  exact ⟨hword.1, unbracket?_eq_none_iff.1 hword.2, hspells⟩

theorem isPlain_struct {name : String} (ne_empty : name ≠ "") (trimmed : IsTrimmed name.toList) :
    (struct name).IsPlain where
  trimmed :=
    { head := by simp [chars, structIntro, isBlank]
      last := by
        have hne : name.toList ≠ [] := by simpa using ne_empty
        intro c hc
        rw [chars, List.getLast?_append_of_ne_nil _ hne] at hc
        exact trimmed.last c hc }
  unbracketed u hu := by simp [chars, structIntro] at hu
  spells := by
    have hname := Spells.struct trimmed.trimsTo (by simpa using ne_empty)
    rwa [String.ofList_toList] at hname

theorem IsCanonical.isPlain_core (h : t.IsCanonical) : t.core.IsPlain := by
  rcases core_eq_struct_or_isKeyword t with ⟨name, hname⟩ | hkeyword
  · obtain ⟨ne_empty, trimmed⟩ := h name hname
    rw [hname]
    exact isPlain_struct ne_empty trimmed
  · exact isPlain_of_isKeyword hkeyword

theorem IsPlain.peels_layers (h : t.IsPlain) (n : Nat) : Peels (layers n t).chars n t.chars := by
  induction n with
  | zero => exact .bare h.trimmed.trimsTo h.unbracketed
  | succ n ih =>
    have hends : IsTrimmed ('[' :: ((layers n t).chars ++ [']'])) :=
      isTrimmed_between (by decide) (by decide) _
    exact .layer hends.trimsTo ih

theorem toList_text (t : Tag) : t.text.toList = t.chars := String.toList_ofList

theorem IsCanonical.parse_text (h : t.IsCanonical) : parse t.text = .ok t := by
  obtain ⟨n, hn⟩ := exists_layers_core t
  have hpeels := h.isPlain_core.peels_layers n
  rw [← hn, ← toList_text] at hpeels
  exact hpeels.parse_eq_ok_iff.2 ⟨t.core, h.isPlain_core.spells, hn⟩

theorem isCanonical_of_isKeyword (h : t.isKeyword) : t.IsCanonical := by
  intro name hname
  cases t with
  | array element => cases h
  | struct name => cases h
  | _ => cases hname

theorem isKeyword_of_mem_keywords : ∀ p ∈ keywords, p.2.isKeyword := by decide

theorem Spells.isCanonical {r : List Char} (h : Spells r t) : t.IsCanonical := by
  cases h with
  | own mem =>
    exact isCanonical_of_isKeyword (isKeyword_of_mem_keywords _ (mem_keywords_iff.2 (.inl mem)))
  | other mem =>
    exact isCanonical_of_isKeyword (isKeyword_of_mem_keywords _ (mem_keywords_iff.2 (.inr mem)))
  | struct trims ne_nil =>
    intro name hname
    cases hname
    exact ⟨by simpa using ne_nil, by simpa using trims.trimmed⟩

theorem isCanonical_of_parse {s : String} (h : parse s = .ok t) : t.IsCanonical := by
  obtain ⟨a, hspells, rfl⟩ := (peels_peel s.toList).parse_eq_ok_iff.1 h
  intro name hname
  rw [core_layers] at hname
  exact hspells.isCanonical name hname

/-- Exactly the canonical tags are read back from their texts. Whatever text a tag was read from, it
is canonical, so that its own text stands for it from then on. -/
theorem parse_text_eq_iff_isCanonical (t : Tag) :
    (parse t.text = .ok t ↔ t.IsCanonical) ∧
      ∀ s, parse s = .ok t → t.IsCanonical ∧ parse t.text = .ok t := by
  refine ⟨⟨isCanonical_of_parse, IsCanonical.parse_text⟩, fun s h => ?_⟩
  have hcanonical := isCanonical_of_parse h
  exact ⟨hcanonical, hcanonical.parse_text⟩

/-- A name may have anything inside it, though no blank at its end, be it in brackets or not. -/
theorem parse_text_of_bracketed_struct :
    parse (array (struct "] [ bool")).text = .ok (array (struct "] [ bool")) ∧
      parse (array (struct "a\u3000")).text ≠ .ok (array (struct "a\u3000")) := by
  constructor
  · refine (parse_text_eq_iff_isCanonical _).1.2 fun name hname => ?_
    cases hname
    decide
  · intro h
    have hcanonical := (parse_text_eq_iff_isCanonical _).1.1 h
    exact absurd (hcanonical "a\u3000" rfl).2 (by decide)

end ScriptBridge.Tag
