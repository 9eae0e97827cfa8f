import ScriptBridge.Proofs.Text.Trim
import ScriptBridge.Tag.Parser

/-!
The grammar of the texts of tags. Blanks may stand around every layer of brackets and around what is
inside all of them. That spells a keyword or names a struct, or else the text is refused, and the
refusal shows this innermost part.
-/
namespace ScriptBridge.Tag

open ScriptBridge.Text

variable {s r u : List Char} {n : Nat} {t : Tag}

theorem unbracket?_eq_some_iff : unbracket? s = some u ↔ s = '[' :: (u ++ [']']) := by
  constructor
  · intro h
    unfold unbracket? at h
    split at h
    · rename_i rest
      split at h
      · rename_i hlast
        cases h
        rw [List.dropLast_append_getLast? _ hlast]
      · cases h
    · cases h
  · rintro rfl
    simp [unbracket?]

theorem unbracket?_eq_none_iff : unbracket? s = none ↔ ∀ u, s ≠ '[' :: (u ++ [']']) := by
  simp only [Option.eq_none_iff_forall_ne_some, ne_eq, unbracket?_eq_some_iff]

/-- A text with layers of brackets on it, with blanks around each of them, and what is left when
nothing more can be taken off. -/
inductive Peels : List Char → Nat → List Char → Prop
  | bare {s r : List Char} (trims : TrimsTo s r) (unbracketed : ∀ u, r ≠ '[' :: (u ++ [']'])) :
      Peels s 0 r
  | layer {s u r : List Char} {n : Nat} (trims : TrimsTo s ('[' :: (u ++ [']'])))
      (inner : Peels u n r) : Peels s (n + 1) r

theorem peels_peel (s : List Char) : Peels s (peel s).1 (peel s).2 := by
  fun_induction peel s with
  | case1 s u hu n r hpeel ih =>
    rw [hpeel] at ih
    exact .layer (trim_eq_iff.1 (unbracket?_eq_some_iff.1 hu)) ih
  | case2 s hnone => exact .bare (trimsTo_trim s) (unbracket?_eq_none_iff.1 hnone)

theorem Peels.peel_eq (h : Peels s n r) : peel s = (n, r) := by
  -- The condition of the loop is remembered in it, so it is split and not rewritten.
  induction h with
  | @bare s r trims unbracketed =>
    have hnone : unbracket? (trim s) = none := by
      rw [trims.trim_eq]
      exact unbracket?_eq_none_iff.2 unbracketed
    rw [peel]
    split
    · rename_i u hu
      rw [hnone] at hu
      cases hu
    · rw [trims.trim_eq]
  | @layer s u r n trims inner ih =>
    have hsome : unbracket? (trim s) = some u := unbracket?_eq_some_iff.2 trims.trim_eq
    rw [peel]
    split
    · rename_i v hv
      rw [hsome] at hv
      cases hv
      rw [ih]
    · rename_i hnone
      rw [hsome] at hnone
      cases hnone

theorem peel_eq_iff : peel s = (n, r) ↔ Peels s n r := by
  constructor
  · intro h
    have hpeels := peels_peel s
    rw [h] at hpeels
    exact hpeels
  · exact Peels.peel_eq

theorem Peels.isTrimmed (h : Peels s n r) : IsTrimmed r := by
  induction h with
  | bare trims unbracketed => exact trims.trimmed
  | layer trims inner ih => exact ih

def isKeyword : Tag → Bool
  | .array _ | .struct _ => false
  | _ => true

/-- The words of the grammar. Each tag is also printed by its own. -/
def words : List (String × Tag) := [
  ("i8", .scalar (.int true .w8)), ("i16", .scalar (.int true .w16)),
  ("i32", .scalar (.int true .w32)), ("i64", .scalar (.int true .w64)),
  ("u8", .scalar (.int false .w8)), ("u16", .scalar (.int false .w16)),
  ("u32", .scalar (.int false .w32)), ("u64", .scalar (.int false .w64)),
  ("f32", .scalar (.float .single)), ("f64", .scalar (.float .double)),
  ("text", .scalar .text), ("bool", .bool), ("ptr", .pointer), ("void", .void)]

def aliases : List (String × Tag) :=
  [("str", .scalar .text), ("string", .scalar .text), ("pointer", .pointer)]

/-- What a trimmed text without brackets around it says. -/
inductive Spells : List Char → Tag → Prop
  | own {word : String} {t : Tag} (mem : (word, t) ∈ words) : Spells word.toList t
  | other {word : String} {t : Tag} (mem : (word, t) ∈ aliases) : Spells word.toList t
  | struct {rest name : List Char} (trims : TrimsTo rest name) (ne_nil : name ≠ []) :
      Spells (structIntro ++ rest) (.struct (String.ofList name))

theorem mem_words_of_isKeyword (h : t.isKeyword) : (String.ofList t.chars, t) ∈ words := by
  cases t with
  | array element => cases h
  | struct name => cases h
  | scalar kind =>
    cases kind with
    | int signed width => cases signed <;> cases width <;> decide
    | float kind => cases kind <;> decide
    | text => decide
  | _ => decide

theorem mem_keywords_iff {p : String × Tag} : p ∈ keywords ↔ p ∈ words ∨ p ∈ aliases := by
  have hknown : ∀ p ∈ words ++ aliases, p ∈ keywords := by decide
  have hwords : ∀ p ∈ keywords, p ∈ words ++ aliases := by decide
  rw [← List.mem_append]
  exact ⟨hwords p, hknown p⟩

theorem mem_keywords_of_isKeyword (h : t.isKeyword) : (String.ofList t.chars, t) ∈ keywords :=
  mem_keywords_iff.2 (.inl (mem_words_of_isKeyword h))

theorem lookup_keywords : ∀ p ∈ keywords, keywords.lookup p.1 = some p.2 := by decide

theorem not_structIntro_of_mem_keywords :
    ∀ p ∈ keywords, structIntro.isPrefixOf p.1.toList = false := by
  decide

theorem keyword?_eq_some_iff : keyword? s = some t ↔ (String.ofList s, t) ∈ keywords := by
  constructor
  · intro h
    obtain ⟨before, after, hsplit, -⟩ := List.lookup_eq_some_iff.1 h
    rw [hsplit]
    exact List.mem_append_right _ List.mem_cons_self
  · intro h
    exact lookup_keywords _ h

theorem structName?_append (rest : List Char) :
    structName? (structIntro ++ rest) = some (trim rest) := by
  have hintro : structIntro.isPrefixOf (structIntro ++ rest) :=
    List.isPrefixOf_iff_prefix.2 (List.prefix_append structIntro rest)
  rw [structName?, if_pos hintro, List.drop_left]

theorem structName?_eq_none (h : structIntro.isPrefixOf s = false) : structName? s = none := by
  rw [structName?, h]
  rfl

theorem exists_of_structName? {name : List Char} (h : structName? s = some name) :
    ∃ rest, s = structIntro ++ rest ∧ TrimsTo rest name := by
  rw [structName?] at h
  split at h
  · rename_i hintro
    obtain ⟨rest, rfl⟩ := List.isPrefixOf_iff_prefix.1 hintro
    rw [List.drop_left, Option.some.injEq] at h
    exact ⟨rest, rfl, trim_eq_iff.1 h⟩
  · cases h

theorem name_ne_nil {rest name : List Char} (h : IsTrimmed (structIntro ++ rest))
    (trims : TrimsTo rest name) : name ≠ [] := by
  have hblank : isBlank ' ' := by decide
  have hword : IsTrimmed (['s', 't', 'r', 'u', 'c', 't'] ++ ' ' :: rest) := h
  rw [← trims.trim_eq]
  exact trim_ne_nil_of_isTrimmed hblank hword

theorem atom?_of_mem_keywords (h : (String.ofList r, t) ∈ keywords) : atom? r = some t := by
  have hname : structName? r = none :=
    structName?_eq_none (by simpa using not_structIntro_of_mem_keywords _ h)
  rw [atom?, hname]
  exact keyword?_eq_some_iff.2 h

theorem atom?_eq_some_iff : atom? r = some t ↔ Spells r t := by
  constructor
  · intro h
    rw [atom?] at h
    split at h
    · cases h
    · rename_i name hne hname
      obtain ⟨rest, rfl, trims⟩ := exists_of_structName? hname
      cases h
      exact .struct trims fun hnil => hne (hnil ▸ rfl)
    · have hchars : r = (String.ofList r).toList := String.toList_ofList.symm
      rw [hchars]
      rcases mem_keywords_iff.1 (keyword?_eq_some_iff.1 h) with hmem | hmem
      · exact .own hmem
      · exact .other hmem
  · intro h
    cases h with
    | @own word t mem =>
      refine atom?_of_mem_keywords ?_
      rw [String.ofList_toList]
      exact mem_keywords_iff.2 (.inl mem)
    | @other word t mem =>
      refine atom?_of_mem_keywords ?_
      rw [String.ofList_toList]
      exact mem_keywords_iff.2 (.inr mem)
    | @struct rest name trims ne_nil =>
      rw [atom?, structName?_append, trims.trim_eq]
      split
      · rename_i hnil
        exact absurd (Option.some.inj hnil) ne_nil
      · rename_i other hne hname
        cases hname
        rfl
      · rename_i hnone
        cases hnone

theorem Peels.parse_of_some {s : String} {a : Tag} (h : Peels s.toList n r)
    (ha : atom? r = some a) : parse s = .ok (layers n a) := by
  simp only [parse, h.peel_eq, ha]

theorem Peels.parse_of_none {s : String} (h : Peels s.toList n r) (ha : atom? r = none) :
    parse s = .error ⟨String.ofList r⟩ := by
  simp only [parse, h.peel_eq, ha]

theorem Peels.parse_eq_ok_iff {s : String} (h : Peels s.toList n r) :
    parse s = .ok t ↔ ∃ a, Spells r a ∧ t = layers n a := by
  simp only [← atom?_eq_some_iff]
  cases ha : atom? r with
  | none => simp [h.parse_of_none ha]
  | some a => simp [h.parse_of_some ha, eq_comm]

theorem Peels.parse_eq_error_iff {s : String} (h : Peels s.toList n r) {e : ParseError} :
    parse s = .error e ↔ (∀ a, ¬Spells r a) ∧ e = ⟨String.ofList r⟩ := by
  simp only [← atom?_eq_some_iff]
  cases ha : atom? r with
  | none => simp [h.parse_of_none ha, eq_comm]
  | some a => simp [h.parse_of_some ha]

/-- Every text peels in exactly one way. It is read as a tag if what is left spells one, and then as
that tag in as many array layers as were taken off. Otherwise the text is refused, and the refusal
shows what is left. What introduces a struct is never refused, since a name always follows. -/
theorem parse_accepts_grammar (s : String) :
    ∃ n r, (∀ n' r', Peels s.toList n' r' ↔ n' = n ∧ r' = r) ∧
      (∀ t, parse s = .ok t ↔ ∃ a, Spells r a ∧ t = layers n a) ∧
      (∀ e, parse s = .error e ↔ (∀ a, ¬Spells r a) ∧ e = ⟨String.ofList r⟩) ∧
      ∀ rest, r = structIntro ++ rest →
        ∃ name, name ≠ [] ∧ TrimsTo rest name ∧
          parse s = .ok (layers n (.struct (String.ofList name))) := by
  have hpeels := peels_peel s.toList
  refine ⟨_, _, fun n' r' => ?_, fun t => hpeels.parse_eq_ok_iff,
    fun e => hpeels.parse_eq_error_iff, fun rest hrest => ?_⟩
  · rw [← peel_eq_iff, Prod.ext_iff, eq_comm, @eq_comm _ r']
  · have htrims := trimsTo_trim rest
    have hname : trim rest ≠ [] := name_ne_nil (hrest ▸ hpeels.isTrimmed) htrims
    refine ⟨trim rest, hname, htrims, hpeels.parse_eq_ok_iff.2 ⟨_, ?_, rfl⟩⟩
    rw [hrest]
    exact .struct htrims hname

/-- The name of a struct may have brackets of its own. What is refused is shown without the bracket
layer and the blanks around it, though with a bracket that is not closed at the end. -/
theorem parse_bracketed_name :
    parse " [\tstruct [a] ] " = .ok (.array (.struct "[a]")) ∧
      parse "[ [bool] x ]" = .error ⟨"[bool] x"⟩ := by
  have hname : Peels " [\tstruct [a] ] ".toList 1 "struct [a]".toList :=
    .layer (u := "\tstruct [a] ".toList) (trim_eq_iff.1 (by decide))
      (.bare (trim_eq_iff.1 (by decide)) (unbracket?_eq_none_iff.1 (by decide)))
  have hrest : Peels "[ [bool] x ]".toList 1 "[bool] x".toList :=
    .layer (u := " [bool] x ".toList) (trim_eq_iff.1 (by decide))
      (.bare (trim_eq_iff.1 (by decide)) (unbracket?_eq_none_iff.1 (by decide)))
  constructor
  · obtain ⟨n, r, hpeels, -, -, hstruct⟩ := parse_accepts_grammar " [\tstruct [a] ] "
    obtain ⟨rfl, rfl⟩ := (hpeels _ _).1 hname
    obtain ⟨name, -, htrims, hparse⟩ := hstruct "[a]".toList (by decide)
    rw [← htrims.trim_eq] at hparse
    exact hparse
  · obtain ⟨n, r, hpeels, -, herror, -⟩ := parse_accepts_grammar "[ [bool] x ]"
    obtain ⟨rfl, rfl⟩ := (hpeels _ _).1 hrest
    refine (herror _).2 ⟨fun a ha => ?_, by decide⟩
    have hnone : atom? "[bool] x".toList = none := by decide
    rw [atom?_eq_some_iff.2 ha] at hnone
    cases hnone

end ScriptBridge.Tag
