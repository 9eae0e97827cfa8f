import ScriptBridge.Proofs.Schema.Exports
import ScriptBridge.Proofs.Schema.FirstFault

/-!
What a reader of arguments is known to do, and what the script attributes of an item then come to. A
list is read from the left. An entry begins with its key, is followed by a comma or the end, and its
answers are those of the tokens behind the key. Under these rules exactly the lists of settings are
accepted, whatever else the reader does.
-/
namespace ScriptBridge.Schema

/-- The tokens go on with a path, so that a word in front of them is no key. -/
def ContinuesPath (tokens : List Token) : Prop :=
  ∃ joint rest, tokens = .mark ':' true :: .mark ':' joint :: rest

structure Behind (tokens : List Token) : Prop where
  no_comma : ∀ joint, .mark ',' joint ∉ tokens
  no_path : ¬ContinuesPath tokens

/-- What an entry answers that has a key and other tokens behind it. -/
structure Entry.Shows (e : Entry) (key : String) (behind : List Token) : Prop where
  key_eq : e.key? = some key
  value_iff : ∀ s, e.value = .ok s ↔ ∃ joint rest, behind = .mark '=' joint :: .text s :: rest
  afterKey_iff : e.afterKey = none ↔ behind = []
  afterValue_iff : ∀ s, e.value = .ok s →
    (e.afterValue = none ↔ ∃ joint, behind = [.mark '=' joint, .text s])

/-- The rules for lists of arguments. Entries are separated by commas, and there may be one behind
the last. Where no key stands, no entry begins, or else one without a key. -/
structure ArgumentReader.IsDocumented (read : ArgumentReader) : Prop where
  nil : read [] = ⟨[], none⟩
  last {behind : List Token} (h : Behind behind) (key : String) :
    ∃ e : Entry, e.Shows key behind ∧ read (.word key :: behind) = ⟨[e], none⟩
  next {behind : List Token} (h : Behind behind) (key : String) (joint : Bool)
    (rest : List Token) : ∃ e : Entry, e.Shows key behind ∧
      read (.word key :: (behind ++ .mark ',' joint :: rest)) =
        ⟨e :: (read rest).entries, (read rest).stop⟩
  other {tokens : List Token} (ne_nil : tokens ≠ [])
    (no_key : ∀ key behind, tokens = .word key :: behind → ContinuesPath behind) :
    ((read tokens).entries = [] ∧ (read tokens).stop ≠ none) ∨
      ∃ e es, (read tokens).entries = e :: es ∧ e.key? = none

inductive Setting where
  | name (value : String)
  | skip
  deriving DecidableEq

namespace Setting

inductive Spells : List Token → Setting → Prop
  | name (joint : Bool) (value : String) :
      Spells [.word "name", .mark '=' joint, .text value] (.name value)
  | skip : Spells [.word "skip"] .skip

def name? : Setting → Option String
  | .name value => some value
  | .skip => none

end Setting

inductive Lists : List Token → List Setting → Prop
  | nil : Lists [] []
  | last {tokens : List Token} {s : Setting} (spells : Setting.Spells tokens s) : Lists tokens [s]
  | cons {first tokens : List Token} {s : Setting} {settings : List Setting}
      (spells : Setting.Spells first s) (joint : Bool) (rest : Lists tokens settings) :
      Lists (first ++ .mark ',' joint :: tokens) (s :: settings)

section Tokens

variable {tokens behind rest : List Token} {key : String} {s : Setting} {settings : List Setting}

theorem Setting.Spells.exists_cons (h : Setting.Spells tokens s) :
    ∃ key behind, Behind behind ∧ tokens = .word key :: behind := by
  cases h with
  | name joint value =>
    refine ⟨_, _, ⟨fun i hi => ?_, ?_⟩, rfl⟩
    · simp at hi
    · rintro ⟨j, more, hmore⟩
      simp at hmore
  | skip => exact ⟨_, _, ⟨fun i => List.not_mem_nil, nofun⟩, rfl⟩

theorem Setting.spells_cons_iff : Setting.Spells (.word key :: behind) s ↔
    (key = "name" ∧ ∃ joint value, behind = [.mark '=' joint, .text value] ∧ s = .name value) ∨
      (key = "skip" ∧ behind = [] ∧ s = .skip) := by
  constructor
  · intro h
    generalize htokens : Token.word key :: behind = tokens at h
    cases h with
    | name joint value =>
      cases htokens
      exact .inl ⟨rfl, joint, value, rfl, rfl⟩
    | skip =>
      cases htokens
      exact .inr ⟨rfl, rfl, rfl⟩
  · rintro (⟨rfl, joint, value, rfl, rfl⟩ | ⟨rfl, rfl, rfl⟩)
    · exact .name joint value
    · exact .skip

theorem append_comma_inj {first other more : List Token} {i j : Bool}
    (hfirst : ∀ joint, .mark ',' joint ∉ first) (hother : ∀ joint, .mark ',' joint ∉ other)
    (h : first ++ .mark ',' i :: rest = other ++ .mark ',' j :: more) :
    first = other ∧ rest = more := by
  induction first generalizing other with
  | nil =>
    cases other with
    | nil =>
      cases h
      exact ⟨rfl, rfl⟩
    | cons t other =>
      cases h
      exact absurd List.mem_cons_self (hother i)
  | cons t first ih =>
    cases other with
    | nil =>
      cases h
      exact absurd List.mem_cons_self (hfirst j)
    | cons u other =>
      obtain ⟨rfl, htail⟩ := List.cons.inj h
      obtain ⟨rfl, rfl⟩ := ih (fun k hk => hfirst k (List.mem_cons_of_mem _ hk))
        (fun k hk => hother k (List.mem_cons_of_mem _ hk)) htail
      exact ⟨rfl, rfl⟩

theorem lists_nil_iff : Lists [] settings ↔ settings = [] := by
  constructor
  · intro h
    generalize hnil : ([] : List Token) = tokens at h
    cases h with
    | nil => rfl
    | last spells => subst hnil; cases spells
    | cons spells joint rest => simp at hnil
  · rintro rfl
    exact .nil

theorem lists_last_iff (h : Behind behind) : Lists (.word key :: behind) settings ↔
    ∃ s, Setting.Spells (.word key :: behind) s ∧ settings = [s] := by
  constructor
  · intro hlists
    generalize htokens : Token.word key :: behind = tokens at hlists
    cases hlists with
    | nil => cases htokens
    | last spells => exact ⟨_, spells, rfl⟩
    | cons spells joint rest =>
      obtain ⟨other, more, -, rfl⟩ := spells.exists_cons
      cases htokens
      exact absurd (List.mem_append_right _ List.mem_cons_self) (h.no_comma joint)
  · rintro ⟨s, spells, rfl⟩
    exact .last spells

theorem lists_next_iff (h : Behind behind) {joint : Bool} :
    Lists (.word key :: (behind ++ .mark ',' joint :: rest)) settings ↔
      ∃ s more, Setting.Spells (.word key :: behind) s ∧ Lists rest more ∧
        settings = s :: more := by
  constructor
  · intro hlists
    generalize htokens : Token.word key :: (behind ++ .mark ',' joint :: rest) = tokens at hlists
    cases hlists with
    | nil => cases htokens
    | last spells =>
      obtain ⟨other, more, hmore, rfl⟩ := spells.exists_cons
      cases htokens
      exact absurd (List.mem_append_right _ List.mem_cons_self) (hmore.no_comma joint)
    | cons spells i hrest =>
      obtain ⟨other, more, hmore, rfl⟩ := spells.exists_cons
      obtain ⟨hkey, htail⟩ := List.cons.inj htokens
      cases hkey
      obtain ⟨rfl, rfl⟩ := append_comma_inj h.no_comma hmore.no_comma htail
      exact ⟨_, _, spells, hrest, rfl⟩
  · rintro ⟨s, more, spells, hrest, rfl⟩
    exact .cons spells joint hrest

theorem Setting.Spells.unique {s' : Setting} (h : Setting.Spells tokens s)
    (h' : Setting.Spells tokens s') : s = s' := by
  cases h with
  | name joint value =>
    obtain ⟨-, i, other, hbehind, rfl⟩ | ⟨hkey, -, -⟩ := Setting.spells_cons_iff.1 h'
    · cases hbehind
      rfl
    · exact absurd hkey (by decide)
  | skip =>
    obtain ⟨hkey, -⟩ | ⟨-, -, rfl⟩ := Setting.spells_cons_iff.1 h'
    · exact absurd hkey (by decide)
    · rfl

theorem Lists.unique {settings' : List Setting} (h : Lists tokens settings)
    (h' : Lists tokens settings') : settings = settings' := by
  induction h generalizing settings' with
  | nil => exact (lists_nil_iff.1 h').symm
  | last spells =>
    obtain ⟨key, behind, hbehind, rfl⟩ := spells.exists_cons
    obtain ⟨s', spells', rfl⟩ := (lists_last_iff hbehind).1 h'
    rw [spells.unique spells']
  | cons spells joint rest ih =>
    obtain ⟨key, behind, hbehind, rfl⟩ := spells.exists_cons
    obtain ⟨s', more, spells', hmore, rfl⟩ := (lists_next_iff hbehind).1 h'
    rw [spells.unique spells', ih hmore]

theorem Lists.exists_key (h : Lists tokens settings) (hne : tokens ≠ []) :
    ∃ key behind, tokens = .word key :: behind ∧ ¬ContinuesPath behind := by
  cases h with
  | nil => exact absurd rfl hne
  | last spells =>
    obtain ⟨key, behind, hbehind, rfl⟩ := spells.exists_cons
    exact ⟨key, behind, rfl, hbehind.no_path⟩
  | cons spells joint rest =>
    obtain ⟨key, behind, hbehind, rfl⟩ := spells.exists_cons
    refine ⟨key, _, rfl, ?_⟩
    cases spells with
    | name i value =>
      rintro ⟨j, more, hmore⟩
      simp at hmore
    | skip =>
      rintro ⟨j, more, hmore⟩
      simp at hmore

theorem exists_first_segment (tokens : List Token) :
    ∃ first, (∀ joint, .mark ',' joint ∉ first) ∧
      (tokens = first ∨ ∃ joint rest, tokens = first ++ .mark ',' joint :: rest) := by
  induction tokens with
  | nil => exact ⟨[], fun joint => List.not_mem_nil, .inl rfl⟩
  | cons t tokens ih =>
    by_cases hcomma : ∃ joint, t = .mark ',' joint
    · obtain ⟨joint, rfl⟩ := hcomma
      exact ⟨[], fun joint => List.not_mem_nil, .inr ⟨joint, tokens, rfl⟩⟩
    · obtain ⟨first, hfirst, hsplit⟩ := ih
      refine ⟨t :: first, fun joint hmem => ?_, ?_⟩
      · rcases List.mem_cons.1 hmem with rfl | hmem
        · exact hcomma ⟨joint, rfl⟩
        · exact hfirst joint hmem
      · rcases hsplit with rfl | ⟨joint, rest, rfl⟩
        · exact .inl rfl
        · exact .inr ⟨joint, rest, rfl⟩

theorem ContinuesPath.append (h : ContinuesPath behind) (more : List Token) :
    ContinuesPath (behind ++ more) := by
  obtain ⟨joint, rest, rfl⟩ := h
  exact ⟨joint, rest ++ more, rfl⟩

theorem arguments_cases (tokens : List Token) : tokens = [] ∨
    (∃ key behind, Behind behind ∧ (tokens = .word key :: behind ∨
      ∃ joint rest, tokens = .word key :: (behind ++ .mark ',' joint :: rest))) ∨
    (tokens ≠ [] ∧ ∀ key behind, tokens = .word key :: behind → ContinuesPath behind) := by
  by_cases hnil : tokens = []
  · exact .inl hnil
  by_cases hkey : ∃ key behind, tokens = .word key :: behind ∧ ¬ContinuesPath behind
  · obtain ⟨key, behind, rfl, hpath⟩ := hkey
    obtain ⟨first, hfirst, rfl | ⟨joint, rest, rfl⟩⟩ := exists_first_segment behind
    · exact .inr (.inl ⟨key, behind, ⟨hfirst, hpath⟩, .inl rfl⟩)
    · have hbehind : Behind first := ⟨hfirst, fun h => hpath (h.append _)⟩
      exact .inr (.inl ⟨key, first, hbehind, .inr ⟨joint, rest, rfl⟩⟩)
  · refine .inr (.inr ⟨hnil, fun key behind htokens => ?_⟩)
    by_contra hpath
    exact hkey ⟨key, behind, htokens, hpath⟩

end Tokens

namespace ScriptOptions

variable {read : ArgumentReader} {o o' : ScriptOptions} {tokens : List Token}
  {settings : List Setting}

def set (o : ScriptOptions) : Setting → ScriptOptions
  | .name value => { o with name := some value }
  | .skip => { o with skip := true }

theorem foldl_set (o : ScriptOptions) (settings : List Setting) : settings.foldl set o =
    ⟨(settings.filterMap Setting.name?).getLast?.or o.name,
      decide (.skip ∈ settings) || o.skip⟩ := by
  induction settings generalizing o with
  | nil => rfl
  | cons s settings ih =>
    rw [List.foldl_cons, ih]
    cases s with
    | name value => simp [set, Setting.name?, List.getLast?_cons]
    | skip => simp [set, Setting.name?]

theorem takeEntry_eq_ok_iff {e : Entry} {key : String} {behind : List Token}
    (h : e.Shows key behind) : o.takeEntry e = .ok o' ↔
      ∃ s, Setting.Spells (.word key :: behind) s ∧ o' = o.set s := by
  simp only [Setting.spells_cons_iff]
  rw [takeEntry, h.key_eq]
  by_cases hname : key = "name"
  · subst hname
    have hskip : ¬"name" = "skip" := by decide
    rw [if_pos rfl]
    simp only [hskip, true_and, false_and, or_false]
    cases hvalue : e.value with
    | error message =>
      refine iff_of_false (by simp) ?_
      rintro ⟨s, ⟨joint, value, rfl, -⟩, -⟩
      cases hvalue.symm.trans ((h.value_iff value).2 ⟨joint, [], rfl⟩)
    | ok value =>
      simp only [passUnless_eq_ok_iff, h.afterValue_iff value hvalue]
      constructor
      · rintro ⟨⟨joint, rfl⟩, rfl⟩
        exact ⟨.name value, ⟨joint, value, rfl, rfl⟩, rfl⟩
      · rintro ⟨s, ⟨joint, other, rfl, rfl⟩, rfl⟩
        have hother := hvalue.symm.trans ((h.value_iff other).2 ⟨joint, [], rfl⟩)
        cases hother
        exact ⟨⟨joint, rfl⟩, rfl⟩
  · rw [if_neg (mt Option.some.inj hname)]
    simp only [hname, false_and, false_or]
    by_cases hskip : key = "skip"
    · rw [if_pos (congrArg some hskip), passUnless_eq_ok_iff, h.afterKey_iff]
      constructor
      · rintro ⟨hbehind, rfl⟩
        exact ⟨.skip, ⟨hskip, hbehind, rfl⟩, rfl⟩
      · rintro ⟨s, ⟨-, hbehind, rfl⟩, rfl⟩
        exact ⟨hbehind, rfl⟩
    · rw [if_neg (mt Option.some.inj hskip)]
      refine iff_of_false (by simp) ?_
      rintro ⟨s, ⟨hkey, -⟩, -⟩
      exact hskip hkey

theorem takeArguments_cons (o : ScriptOptions) (e : Entry) (l : ArgumentList) :
    o.takeArguments ⟨e :: l.entries, l.stop⟩ = o.takeEntry e >>= (·.takeArguments l) := by
  rw [takeArguments, takeEntries]
  cases o.takeEntry e <;> rfl

theorem takeArguments_ne_ok (h : read.IsDocumented) (ne_nil : tokens ≠ [])
    (no_key : ∀ key behind, tokens = .word key :: behind → ContinuesPath behind) :
    o.takeArguments (read tokens) ≠ .ok o' := by
  rw [takeArguments]
  rcases h.other ne_nil no_key with ⟨hentries, hstop⟩ | ⟨e, es, hentries, hkey⟩
  · rw [hentries]
    change o.passUnless _ ≠ _
    rw [ne_eq, passUnless_eq_ok_iff]
    exact fun hok => hstop hok.1
  · rw [hentries, takeEntries, takeEntry, hkey]
    intro hok
    cases hok

/-- A list of arguments is accepted exactly if it is a list of settings, and these are made. -/
theorem takeArguments_eq_ok_iff (h : read.IsDocumented) : o.takeArguments (read tokens) = .ok o' ↔
    ∃ settings, Lists tokens settings ∧ o' = settings.foldl set o := by
  induction hn : tokens.length using Nat.strongRecOn generalizing tokens o with
  | ind n ih =>
  rcases arguments_cases tokens with
    rfl | ⟨key, behind, hbehind, rfl | ⟨joint, rest, rfl⟩⟩ | ⟨hne, hother⟩
  · have hnil : o.takeArguments ⟨[], none⟩ = .ok o := rfl
    rw [h.nil, hnil, Except.ok.injEq, eq_comm]
    simp [lists_nil_iff]
  · obtain ⟨e, hshows, hread⟩ := h.last hbehind key
    have hlast : o.takeArguments ⟨[e], none⟩ = o.takeEntry e := by
      rw [takeArguments_cons o e ⟨[], none⟩]
      cases o.takeEntry e <;> rfl
    rw [hread, hlast, takeEntry_eq_ok_iff hshows]
    simp only [lists_last_iff hbehind]
    constructor
    · rintro ⟨s, spells, rfl⟩
      exact ⟨[s], ⟨s, spells, rfl⟩, rfl⟩
    · rintro ⟨settings, ⟨s, spells, rfl⟩, rfl⟩
      exact ⟨s, spells, rfl⟩
  · obtain ⟨e, hshows, hread⟩ := h.next hbehind key joint rest
    have hlength : rest.length < n := by
      rw [← hn]
      simp only [List.length_cons, List.length_append]
      omega
    rw [hread, takeArguments_cons o e (read rest)]
    simp only [lists_next_iff hbehind]
    constructor
    · intro hok
      obtain ⟨next, hentry, hrest⟩ := ok_of_bind hok
      obtain ⟨s, spells, rfl⟩ := (takeEntry_eq_ok_iff hshows).1 hentry
      obtain ⟨more, hmore, rfl⟩ := (ih _ hlength rfl).1 hrest
      exact ⟨s :: more, ⟨s, more, spells, hmore, rfl⟩, rfl⟩
    · rintro ⟨settings, ⟨s, more, spells, hmore, rfl⟩, rfl⟩
      rw [(takeEntry_eq_ok_iff hshows).2 ⟨s, spells, rfl⟩]
      exact (ih _ hlength rfl).2 ⟨more, hmore, rfl⟩
  · refine iff_of_false (takeArguments_ne_ok h hne hother) ?_
    rintro ⟨settings, hlists, -⟩
    obtain ⟨key, behind, htokens, hpath⟩ := hlists.exists_key hne
    exact hpath (hother key behind htokens)

end ScriptOptions

/-- What an attribute sets. One that is not for scripts sets nothing. -/
inductive Attribute.Sets (a : Attribute) : List Setting → Prop
  | other (not_script : a.path ≠ "script") : Sets a []
  | script (script : a.path = "script") {tokens : List Token} {settings : List Setting}
      (form : a.form = .list tokens) (lists : Lists tokens settings) : Sets a settings

inductive Asks : List Attribute → List Setting → Prop
  | nil : Asks [] []
  | cons {a : Attribute} {as : List Attribute} {settings more : List Setting}
      (first : a.Sets settings) (rest : Asks as more) : Asks (a :: as) (settings ++ more)

theorem asks_cons_iff {a : Attribute} {as : List Attribute} {settings : List Setting} :
    Asks (a :: as) settings ↔
      ∃ first more, a.Sets first ∧ Asks as more ∧ settings = first ++ more := by
  constructor
  · intro h
    cases h with
    | cons first rest => exact ⟨_, _, first, rest, rfl⟩
  · rintro ⟨first, more, hfirst, hrest, rfl⟩
    exact .cons hfirst hrest

theorem Attribute.Sets.unique {a : Attribute} {settings settings' : List Setting}
    (h : a.Sets settings) (h' : a.Sets settings') : settings = settings' := by
  cases h with
  | other not_script =>
    cases h' with
    | other => rfl
    | script script => exact absurd script not_script
  | script script form lists =>
    cases h' with
    | other not_script => exact absurd script not_script
    | script _ form' lists' =>
      cases form.symm.trans form'
      exact lists.unique lists'

theorem Asks.unique {as : List Attribute} {settings settings' : List Setting}
    (h : Asks as settings) (h' : Asks as settings') : settings = settings' := by
  induction h generalizing settings' with
  | nil =>
    cases h'
    rfl
  | cons first rest ih =>
    obtain ⟨first', more, hfirst, hmore, rfl⟩ := asks_cons_iff.1 h'
    rw [first.unique hfirst, ih hmore]

namespace ScriptOptions

variable {read : ArgumentReader} {o o' : ScriptOptions} {a : Attribute} {as : List Attribute}

theorem takeAttribute_eq_ok_iff (h : read.IsDocumented) : o.takeAttribute read a = .ok o' ↔
    ∃ settings, a.Sets settings ∧ o' = settings.foldl set o := by
  rw [takeAttribute]
  by_cases script : a.path = "script"
  · have hscript : (!a.isScript) = false := by simpa [Attribute.isScript] using script
    have hsets : ∀ settings, a.Sets settings ↔
        ∃ tokens, a.form = .list tokens ∧ Lists tokens settings := by
      intro settings
      constructor
      · intro hs
        cases hs with
        | other not_script => exact absurd script not_script
        | script _ form lists => exact ⟨_, form, lists⟩
      · rintro ⟨tokens, form, lists⟩
        exact .script script form lists
    rw [hscript, if_neg Bool.false_ne_true]
    simp only [hsets]
    cases form : a.form with
    | bare => simp
    | value tokens => simp
    | list tokens =>
      refine (takeArguments_eq_ok_iff h).trans ?_
      simp
  · have hscript : (!a.isScript) = true := by simpa [Attribute.isScript] using script
    rw [hscript, if_pos rfl]
    constructor
    · intro hok
      cases hok
      exact ⟨[], .other script, rfl⟩
    · rintro ⟨settings, hsets, rfl⟩
      cases hsets with
      | other => rfl
      | script hscript => exact absurd hscript script

theorem ofAttributes_eq_ok_iff (h : read.IsDocumented) : ofAttributes read as = .ok o ↔
    ∃ settings, Asks as settings ∧
      o = ⟨(settings.filterMap Setting.name?).getLast?, decide (.skip ∈ settings)⟩ := by
  have htake : ∀ start, takeAttributes read start as = .ok o ↔
      ∃ settings, Asks as settings ∧ o = settings.foldl set start := by
    induction as with
    | nil =>
      intro start
      constructor
      · intro hok
        cases hok
        exact ⟨[], .nil, rfl⟩
      · rintro ⟨settings, hasks, rfl⟩
        cases hasks
        rfl
    | cons a as ih =>
      intro start
      constructor
      · intro hok
        obtain ⟨next, hfirst, hrest⟩ := ok_of_bind hok
        obtain ⟨settings, hsets, rfl⟩ := (takeAttribute_eq_ok_iff h).1 hfirst
        obtain ⟨more, hmore, rfl⟩ := (ih _).1 hrest
        exact ⟨_, .cons hsets hmore, List.foldl_append.symm⟩
      · rintro ⟨settings, hasks, rfl⟩
        obtain ⟨first, more, hfirst, hmore, rfl⟩ := asks_cons_iff.1 hasks
        rw [takeAttributes, (takeAttribute_eq_ok_iff h).2 ⟨first, hfirst, rfl⟩]
        exact (ih _).2 ⟨more, hmore, List.foldl_append⟩
  rw [ofAttributes, htake]
  simp [foldl_set, empty]

end ScriptOptions

end ScriptBridge.Schema
