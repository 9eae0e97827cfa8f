import ScriptBridge.Proofs.Schema.Arguments
import ScriptBridge.Schema.Reader

/-!
The reader of arguments keeps the rules for them. Its segments are the tokens up to the next comma,
and an entry with a key is read from its segment alone.
-/
namespace ScriptBridge.Schema.ArgumentList

variable {first rest tokens behind : List Token} {key : String}

theorem isComma_iff {t : Token} : isComma t = true ↔ ∃ joint, t = .mark ',' joint := by
  unfold isComma
  split
  · simp
  · rename_i hne
    exact iff_of_false Bool.false_ne_true fun ⟨joint, h⟩ => hne joint h

theorem segments_cons_of_not_comma {t : Token} (h : ∀ joint, t ≠ .mark ',' joint)
    {s : List Token} {ss : List (List Token)} (hrest : segments tokens = s :: ss) :
    segments (t :: tokens) = (t :: s) :: ss := by
  rw [segments, if_neg (mt isComma_iff.1 (not_exists.2 h)), hrest]

theorem segments_of_no_comma (h : ∀ joint, .mark ',' joint ∉ first) :
    segments first = [first] := by
  induction first with
  | nil => rfl
  | cons t first ih =>
    refine segments_cons_of_not_comma (fun joint ht => ?_) (ih fun joint hmem => ?_)
    · exact h joint (ht ▸ List.mem_cons_self)
    · exact h joint (List.mem_cons_of_mem t hmem)

theorem segments_append (h : ∀ joint, .mark ',' joint ∉ first) (joint : Bool)
    (rest : List Token) : segments (first ++ .mark ',' joint :: rest) = first :: segments rest := by
  induction first with
  | nil => rfl
  | cons t first ih =>
    refine segments_cons_of_not_comma (fun i ht => ?_) (ih fun i hmem => ?_)
    · exact h i (ht ▸ List.mem_cons_self)
    · exact h i (List.mem_cons_of_mem t hmem)

theorem segments_ne_nil (tokens : List Token) : segments tokens ≠ [] := by
  obtain ⟨first, hfirst, rfl | ⟨joint, rest, rfl⟩⟩ := exists_first_segment tokens
  · rw [segments_of_no_comma hfirst]
    exact List.cons_ne_nil _ _
  · rw [segments_append hfirst]
    exact List.cons_ne_nil _ _

theorem otherWords_eq_iff {atEnd : Bool} :
    otherWords atEnd tokens = .ok (false, rest) ↔ ¬ContinuesPath tokens ∧ rest = tokens := by
  rw [otherWords.eq_def]
  split
  · rename_i joint text behind
    refine iff_of_false ?_ fun h => h.1 ⟨_, _, rfl⟩
    cases otherWords atEnd behind <;> simp [Except.map]
  · rename_i joint behind _
    exact iff_of_false nofun fun h => h.1 ⟨_, _, rfl⟩
  · rename_i hwords hother
    have hpath : ¬ContinuesPath tokens := by
      rintro ⟨joint, behind, rfl⟩
      exact hother joint behind rfl
    simp [hpath, eq_comm]

theorem firstWord_eq_iff {atEnd : Bool} :
    firstWord atEnd tokens = .ok (key, rest) ↔ tokens = .word key :: rest := by
  rw [firstWord.eq_def]
  split
  case h_6 hword _ _ _ _ => exact iff_of_false nofun (hword key rest)
  all_goals simp

theorem snd_leadingColons (h : (leadingColons tokens).1 = false) :
    (leadingColons tokens).2 = tokens := by
  unfold leadingColons at h ⊢
  split at h
  · cases h
  · rfl

theorem path_eq_iff {atEnd : Bool} : path atEnd tokens = .ok (some key, rest) ↔
    tokens = .word key :: rest ∧ ¬ContinuesPath rest := by
  have hpath : path atEnd tokens = firstWord atEnd (leadingColons tokens).2 >>= fun p =>
      otherWords atEnd p.2 >>= fun q =>
        .ok (if (leadingColons tokens).1 || q.1 then none else some p.1, q.2) := rfl
  constructor
  · intro h
    rw [hpath] at h
    obtain ⟨⟨text, behind⟩, hfirst, h⟩ := ok_of_bind h
    obtain ⟨⟨longer, last⟩, hother, h⟩ := ok_of_bind h
    cases hleading : (leadingColons tokens).1 || longer with
    | true => simp [hleading] at h
    | false =>
      obtain ⟨hcolons, rfl⟩ := Bool.or_eq_false_iff.1 hleading
      rw [snd_leadingColons hcolons] at hfirst
      obtain ⟨hpath, rfl⟩ := otherWords_eq_iff.1 hother
      simp only [hleading, Except.ok.injEq, Prod.mk.injEq] at h
      cases h.1
      cases h.2
      exact ⟨firstWord_eq_iff.1 hfirst, hpath⟩
  · rintro ⟨rfl, hrest⟩
    have hother : otherWords atEnd rest = .ok (false, rest) := otherWords_eq_iff.2 ⟨hrest, rfl⟩
    change (otherWords atEnd rest >>= _) = _
    rw [hother]
    rfl

theorem surplus_eq_none_iff : surplus tokens = none ↔ tokens = [] := by
  cases tokens <;> simp [surplus]

theorem value_eq_ok_iff {atEnd : Bool} {text : String} :
    value atEnd tokens = .ok (text, rest) ↔
      ∃ joint, tokens = .mark '=' joint :: .text text :: rest := by
  rw [value.eq_def]
  split
  · simp
  · rename_i hvalue
    exact iff_of_false nofun fun ⟨joint, h⟩ => hvalue text rest (List.cons.inj h).2
  · rename_i _ hmark
    exact iff_of_false nofun fun ⟨joint, h⟩ => hmark joint _ h

theorem shows_answers (atEnd : Bool) (key : String) (behind : List Token) :
    (answers atEnd (some key) behind).Shows key behind where
  key_eq := rfl
  value_iff s := by
    have hmap : (value atEnd behind).map (·.1) = .ok s ↔
        ∃ rest, value atEnd behind = .ok (s, rest) := by
      cases value atEnd behind <;> simp [Except.map, Prod.ext_iff]
    refine hmap.trans ?_
    simp only [value_eq_ok_iff]
    exact exists_comm
  afterKey_iff := surplus_eq_none_iff
  afterValue_iff s hs := by
    obtain ⟨⟨text, rest⟩, hvalue, rfl⟩ := ok_of_map hs
    obtain ⟨joint, rfl⟩ := value_eq_ok_iff.1 hvalue
    refine surplus_eq_none_iff.trans ?_
    simp

theorem entry_of_key (h : ¬ContinuesPath behind) (key : String) (atEnd : Bool) :
    entry atEnd (.word key :: behind) = .ok (answers atEnd (some key) behind) := by
  rw [entry, path_eq_iff.2 ⟨rfl, h⟩]
  rfl

theorem exists_key_of_entry {atEnd : Bool} {e : Entry} (h : entry atEnd tokens = .ok e)
    (hkey : e.key? = some key) :
    ∃ behind, tokens = .word key :: behind ∧ ¬ContinuesPath behind := by
  obtain ⟨⟨key?, rest⟩, hpath, rfl⟩ := ok_of_map h
  cases hkey
  exact ⟨rest, path_eq_iff.1 hpath⟩

theorem ofSegments_of_error {s : List Token} {ss : List (List Token)} {message : String}
    (h : entry ss.isEmpty s = .error message) (hne : s ≠ [] ∨ ss ≠ []) :
    ofSegments (s :: ss) = ⟨[], some message⟩ := by
  cases s <;> cases ss <;> simp_all [ofSegments]

theorem ofSegments_of_entry {s : List Token} {ss : List (List Token)} {e : Entry}
    (h : entry ss.isEmpty s = .ok e) (hne : s ≠ [] ∨ ss ≠ []) :
    ofSegments (s :: ss) = ⟨e :: (ofSegments ss).entries, (ofSegments ss).stop⟩ := by
  cases s <;> cases ss <;> simp_all [ofSegments]

theorem continuesPath_of_append {joint : Bool}
    (h : ContinuesPath (first ++ .mark ',' joint :: rest)) : ContinuesPath first := by
  obtain ⟨i, more, hmore⟩ := h
  match first, hmore with
  | [], hmore => cases hmore
  | [t], hmore => cases hmore
  | t :: u :: first, hmore =>
    cases hmore
    exact ⟨i, first, rfl⟩

theorem documented_read : ArgumentReader.IsDocumented read where
  nil := rfl
  last {behind} h key := by
    have hfirst : ∀ joint, .mark ',' joint ∉ Token.word key :: behind := by
      simpa using h.no_comma
    refine ⟨_, shows_answers true key behind, ?_⟩
    rw [read, segments_of_no_comma hfirst]
    exact ofSegments_of_entry (entry_of_key h.no_path key true) (.inl nofun)
  next {behind} h key joint rest := by
    have hfirst : ∀ joint, .mark ',' joint ∉ Token.word key :: behind := by
      simpa using h.no_comma
    have hmore := segments_ne_nil rest
    refine ⟨_, shows_answers (segments rest).isEmpty key behind, ?_⟩
    rw [read, ← List.cons_append, segments_append hfirst]
    exact ofSegments_of_entry (entry_of_key h.no_path key _) (.inr hmore)
  other {tokens} ne_nil no_key := by
    obtain ⟨segment, ss, hsegments, hne, hfirst⟩ : ∃ segment ss, segments tokens = segment :: ss ∧
        (segment ≠ [] ∨ ss ≠ []) ∧
        ∀ key behind, segment = .word key :: behind → ContinuesPath behind := by
      obtain ⟨segment, hcomma, rfl | ⟨joint, rest, rfl⟩⟩ := exists_first_segment tokens
      · exact ⟨tokens, [], segments_of_no_comma hcomma, .inl ne_nil, no_key⟩
      · refine ⟨segment, _, segments_append hcomma joint rest, .inr (segments_ne_nil rest), ?_⟩
        rintro key behind rfl
        exact continuesPath_of_append (no_key key _ rfl)
    rw [read, hsegments]
    cases hentry : entry ss.isEmpty segment with
    | error message =>
      rw [ofSegments_of_error hentry hne]
      exact .inl ⟨rfl, nofun⟩
    | ok e =>
      rw [ofSegments_of_entry hentry hne]
      refine .inr ⟨e, _, rfl, ?_⟩
      by_contra hkey
      obtain ⟨key, hkey⟩ := Option.ne_none_iff_exists'.1 hkey
      obtain ⟨behind, hsplit, hpath⟩ := exists_key_of_entry hentry hkey
      exact hpath (hfirst key behind hsplit)

end ScriptBridge.Schema.ArgumentList
