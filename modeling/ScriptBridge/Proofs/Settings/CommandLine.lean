import ScriptBridge.Settings.Config
import ScriptBridge.Proofs.Settings.Grammar

/-!
What is read of a line of the grammar by a parser that keeps the rules: what the items give, one
after the other. The items of an accepted line are found by going through it from the left, and
what they set depends on neither their order nor their form.
-/
namespace ScriptBridge

open CommandLine

namespace Flags

section Parse

variable {parse : Parser} {program : String} {tokens : List String} {items : List Item} {i : Item}
  {gs : List Given}

theorem parse_cons_iff (h : parse.Documented) (hi : i.WellFormed) :
    parse command (program :: (i.tokens ++ tokens)) = .ok gs ↔
      parse.Puts command program i.given tokens gs := by
  have hoption : "script" ∈ command.options := List.mem_singleton_self _
  have hswitch : "strict-decode" ∈ command.switches := List.mem_singleton_self _
  cases hi with
  | @detached value ne_empty plain =>
    exact (h.detached hoption program plain tokens gs).trans (and_iff_right ne_empty)
  | @attached value ne_empty =>
    exact (h.attached hoption program value tokens gs).trans (and_iff_right ne_empty)
  | strict => exact h.switch hswitch program tokens gs

theorem parse_of_line (h : parse.Documented) (hreads : Reads tokens items) :
    parse command (program :: tokens) = .ok gs ↔ Distinct items ∧ gs = items.map Item.given := by
  induction items generalizing tokens gs with
  | nil =>
    have hempty : parse command (program :: tokens) = .ok [] := by
      rcases hreads.line with rfl | rfl
      · exact h.program command program
      · exact h.terminator command program
    rw [hempty, Except.ok.injEq, eq_comm]
    exact (and_iff_right distinct_nil).symm
  | cons i items ih =>
    obtain ⟨rest, rfl, hi, hrest⟩ := hreads.exists_of_cons
    rw [parse_cons_iff h hi, distinct_cons_iff, Parser.Puts]
    simp only [ih hrest, List.map_cons]
    constructor
    · rintro ⟨late, ⟨honce, rfl⟩, hnew, rfl⟩
      exact ⟨⟨honce, fun other hmem => hnew _ (List.mem_map_of_mem hmem)⟩, rfl⟩
    · rintro ⟨⟨honce, hnew⟩, rfl⟩
      refine ⟨_, ⟨honce, rfl⟩, fun g hg => ?_, rfl⟩
      obtain ⟨other, hmem, rfl⟩ := List.mem_map.1 hg
      exact hnew other hmem

theorem eq_flag_of_parse (h : parse.Documented) {text : String}
    (hparse : parse command (program :: text :: tokens) = .ok gs) (hne : text ≠ "--") :
    ∃ long ∈ command.options ++ command.switches, text = "--" ++ long ∨
      ∃ value, text = "--" ++ long ++ "=" ++ value := by
  by_contra hnone
  push Not at hnone
  exact h.undeclared hne hnone program tokens gs hparse

theorem exists_reads (h : parse.Documented) :
    ∀ {tokens : List String} {gs : List Given}, parse command (program :: tokens) = .ok gs →
      ∃ items, Reads tokens items
  | [], _, _ => ⟨[], .nil⟩
  | text :: tokens, gs, hparse => by
    have hoption : "script" ∈ command.options := List.mem_singleton_self _
    have hswitch : "strict-decode" ∈ command.switches := List.mem_singleton_self _
    by_cases hne : text = "--"
    · subst hne
      cases tokens with
      | nil => exact ⟨[], .terminator⟩
      | cons next tokens => exact absurd hparse (h.behind_terminator command program next tokens gs)
    · obtain ⟨long, hlong, hflag⟩ := eq_flag_of_parse h hparse hne
      have hnames : long = "script" ∨ long = "strict-decode" := by simpa [command] using hlong
      rcases hnames with rfl | rfl <;> rcases hflag with rfl | ⟨value, rfl⟩
      · by_cases hplain : ∀ next ∈ tokens.head?, ¬IsPlain next
        · exact absurd hparse (h.no_value hoption program hplain gs)
        · cases tokens with
          | nil => exact absurd nofun hplain
          | cons value rest =>
            have hvalue : IsPlain value := by simpa using hplain
            obtain ⟨hempty, late, hlate, -⟩ :=
              (h.detached hoption program hvalue rest gs).1 hparse
            obtain ⟨items, hitems⟩ := exists_reads h hlate
            exact ⟨_, hitems.cons (.detached hempty hvalue)⟩
      · obtain ⟨hempty, late, hlate, -⟩ := (h.attached hoption program value tokens gs).1 hparse
        obtain ⟨items, hitems⟩ := exists_reads h hlate
        exact ⟨_, hitems.cons (.attached hempty)⟩
      · obtain ⟨late, hlate, -⟩ := (h.switch hswitch program tokens gs).1 hparse
        obtain ⟨items, hitems⟩ := exists_reads h hlate
        exact ⟨_, hitems.cons .strict⟩
      · exact absurd hparse (h.switch_value hswitch program value tokens gs)

theorem exists_program (h : parse.Documented) (argv : List String) :
    ∃ program, parse command argv = parse command (program :: argv.tail) := by
  cases argv with
  | nil => exact ⟨"", (h.empty command).trans (h.program command "").symm⟩
  | cons program tokens => exact ⟨program, rfl⟩

end Parse

theorem head?_eq_of_perm {α : Type} {l other : List α} (h : l.Perm other) (hlength : l.length ≤ 1) :
    other.head? = l.head? := by
  match l with
  | [] => rw [h.nil_eq]
  | [a] => rw [List.singleton_perm.1 h]
  | a :: b :: rest => exact absurd hlength (by simp)

def ofItems (items : List Item) : Flags :=
  ⟨(items.filterMap Item.setting).head?, .strict ∈ items⟩

theorem ofGiven_given (items : List Item) : ofGiven (items.map Item.given) = ofItems items := by
  have hscript : ((items.map Item.given).find? (·.long == "script")).bind (·.value) =
      (items.filterMap Item.setting).head? := by
    induction items with
    | nil => rfl
    | cons i items ih =>
      cases i with
      | script value attached => rfl
      | strict => exact ih
  have hstrict : (items.map Item.given).any (·.long == "strict-decode") =
      decide (.strict ∈ items) := by
    clear hscript
    induction items with
    | nil => rfl
    | cons i items ih =>
      cases i with
      | script value attached => simpa [Item.given] using ih
      | strict => simp [Item.given]
  rw [ofGiven, ofItems, hscript, hstrict]

theorem ofItems_eq_of_perm {items written : List Item}
    (h : (items.map Item.setting).Perm (written.map Item.setting)) (honce : Distinct items) :
    ofItems written = ofItems items := by
  have hstrict : Item.strict ∈ written ↔ Item.strict ∈ items := by
    rw [← List.count_pos_iff, ← List.count_pos_iff, count_strict, count_strict, h.count_eq none]
  rw [ofItems, ofItems, head?_eq_of_perm (perm_scripts h) honce.script]
  simp only [hstrict]

section Flags

variable {parser : Parser} {argv : List String} {items : List Item} {flags : Flags}

theorem parse_eq_ok_iff : parse parser argv = .ok flags ↔
    ∃ gs, parser command argv = .ok gs ∧ ofGiven gs = flags := by
  rw [parse]
  cases parser command argv <;> simp [Except.map]

theorem parse_of_reads (h : parser.Documented) (hreads : Reads argv.tail items) :
    parse parser argv = .ok flags ↔ Distinct items ∧ flags = ofItems items := by
  obtain ⟨program, hprogram⟩ := exists_program h argv
  rw [parse_eq_ok_iff, hprogram]
  simp only [parse_of_line h hreads]
  constructor
  · rintro ⟨gs, ⟨honce, rfl⟩, rfl⟩
    exact ⟨honce, ofGiven_given items⟩
  · rintro ⟨honce, rfl⟩
    exact ⟨_, ⟨honce, rfl⟩, ofGiven_given items⟩

theorem exists_parse_iff (h : parser.Documented) :
    (∃ flags, parse parser argv = .ok flags) ↔
      ∃ items, Reads argv.tail items ∧ Distinct items := by
  constructor
  · rintro ⟨flags, hparse⟩
    obtain ⟨gs, hgs, -⟩ := parse_eq_ok_iff.1 hparse
    obtain ⟨program, hprogram⟩ := exists_program h argv
    obtain ⟨items, hitems⟩ := exists_reads h (hprogram ▸ hgs)
    exact ⟨items, hitems, ((parse_of_reads h hitems).1 hparse).1⟩
  · rintro ⟨items, hitems, honce⟩
    exact ⟨_, (parse_of_reads h hitems).2 ⟨honce, rfl⟩⟩

/-- Neither the order of the items nor the form of a script is seen in the result. -/
theorem parse_rearranged (h : parser.Documented) {other : List String} {written : List Item}
    (hitems : Reads argv.tail items) (hwritten : Reads other.tail written)
    (hperm : (items.map Item.setting).Perm (written.map Item.setting)) :
    parse parser other = .ok flags ↔ parse parser argv = .ok flags := by
  rw [parse_of_reads h hitems, parse_of_reads h hwritten]
  constructor
  · rintro ⟨honce, rfl⟩
    have hitems := distinct_of_perm hperm.symm honce
    exact ⟨hitems, ofItems_eq_of_perm hperm hitems⟩
  · rintro ⟨honce, rfl⟩
    exact ⟨distinct_of_perm hperm honce, (ofItems_eq_of_perm hperm honce).symm⟩

end Flags

end Flags

namespace Config

open Flags

/-- The configuration that items give: the script that stands in them, else the default one, and a
strict policy exactly if the flag for it does. -/
structure GivenBy (items : List Item) (c : Config) : Prop where
  entry_of_script : ∀ value attached, .script value attached ∈ items → c.entry = ⟨value⟩
  entry_of_none : (∀ value attached, .script value attached ∉ items) → c.entry = default.entry
  policy_iff : c.policy = .strict ↔ .strict ∈ items

theorem givenBy_applyFlags {items : List Item} (h : Distinct items) :
    GivenBy items (default.applyFlags (ofItems items)) where
  entry_of_script := by
    intro value attached hmem
    have hvalue : value ∈ items.filterMap Item.setting := List.mem_filterMap.2 ⟨_, hmem, rfl⟩
    have hlength := Nat.le_antisymm h.script (List.length_pos_of_mem hvalue)
    obtain ⟨text, htext⟩ := List.length_eq_one_iff.1 hlength
    rw [htext, List.mem_singleton] at hvalue
    simp [applyFlags, ofItems, htext, hvalue]
  entry_of_none := by
    intro hnone
    have hempty : items.filterMap Item.setting = [] := by
      refine List.filterMap_eq_nil_iff.2 fun i hi => ?_
      cases i with
      | script value attached => exact absurd hi (hnone value attached)
      | strict => rfl
    simp [applyFlags, ofItems, hempty]
  policy_iff := by
    by_cases hstrict : Item.strict ∈ items <;> simp [applyFlags, ofItems, hstrict, default]

section Arguments

variable {parser : Parser} {argv : List String}

theorem ofArguments_eq_ok_iff {c : Config} : ofArguments parser argv = .ok c ↔
    ∃ flags, Flags.parse parser argv = .ok flags ∧ default.applyFlags flags = c := by
  rw [ofArguments, applyArguments]
  cases Flags.parse parser argv <;> simp

theorem ofArguments_eq_error_iff {problem : Problem} :
    ofArguments parser argv = .error (.flags problem) ↔
      Flags.parse parser argv = .error problem := by
  rw [ofArguments, applyArguments]
  cases Flags.parse parser argv <;> simp

/-- With any parser that keeps the rules for long names, the command line is accepted exactly if it
has items of each kind at most once, in any order and with or without a terminator behind them, and
every way to read the items gives its result. Another order of the items, or scripts in the form of
a single token, lead to the same result. Any other line is refused for a problem with its
arguments. -/
theorem ofArguments_follows_grammar (h : parser.Documented) (argv : List String) :
    ((∃ c, ofArguments parser argv = .ok c) ↔
      ∃ items, Reads argv.tail items ∧ Distinct items) ∧
    (∀ c items, ofArguments parser argv = .ok c → Reads argv.tail items → GivenBy items c) ∧
    ((¬∃ items, Reads argv.tail items ∧ Distinct items) →
      ∃ problem, ofArguments parser argv = .error (.flags problem)) ∧
    (∀ items ordered written other, Reads argv.tail items → items.Perm ordered →
      List.Forall₂ Item.Attaches ordered written → Line other.tail written →
        ∀ c, ofArguments parser other = .ok c ↔ ofArguments parser argv = .ok c) := by
  refine ⟨?_, fun c items hc hitems => ?_, fun hnone => ?_, ?_⟩
  · rw [← exists_parse_iff h]
    simp only [ofArguments_eq_ok_iff]
    rw [exists_comm]
    simp only [exists_and_left, exists_eq', and_true]
  · obtain ⟨flags, hparse, rfl⟩ := ofArguments_eq_ok_iff.1 hc
    obtain ⟨honce, rfl⟩ := (parse_of_reads h hitems).1 hparse
    exact givenBy_applyFlags honce
  · rw [← exists_parse_iff h] at hnone
    simp only [ofArguments_eq_error_iff]
    cases hparse : Flags.parse parser argv with
    | ok flags => exact absurd ⟨flags, hparse⟩ hnone
    | error problem => exact ⟨problem, rfl⟩
  · intro items ordered written other hitems hordered hwritten hline c
    have hformed := wellFormed_of_rearranged hordered hwritten hitems.wellFormed
    have hperm := perm_settings hordered hwritten
    rw [ofArguments_eq_ok_iff, ofArguments_eq_ok_iff]
    simp only [parse_rearranged h hitems ⟨hline, hformed⟩ hperm]

end Arguments

/-- A hyphen alone may be a script. It is not given twice. -/
theorem ofArguments_with_hyphen :
    ofArguments scanner ["game", "--strict-decode", "--script", "-", "--"] =
      .ok ⟨.strict, ⟨"-"⟩⟩ ∧
    GivenBy [.strict, .script "-" false] ⟨.strict, ⟨"-"⟩⟩ ∧
    ofArguments scanner ["game", "--script=-", "--strict-decode"] = .ok ⟨.strict, ⟨"-"⟩⟩ ∧
    ∃ problem, ofArguments scanner ["game", "--script=-", "--script", "-"] =
      .error (.flags problem) := by
  obtain ⟨-, hgiven, -, hsame⟩ := ofArguments_follows_grammar documented_scanner
    ["game", "--strict-decode", "--script", "-", "--"]
  have hok : ofArguments scanner ["game", "--strict-decode", "--script", "-", "--"] =
      .ok ⟨.strict, ⟨"-"⟩⟩ := by decide
  have hreads : Reads ["--strict-decode", "--script", "-", "--"] [.strict, .script "-" false] :=
    .cons .strict (.cons (.detached (by decide) (.inl rfl)) .terminator)
  have hswap := (hsame _ _ _ ["game", "--script=-", "--strict-decode"] hreads (.swap ..)
    (.cons (.attached "-") (.cons (.same _) .nil)) (.inl rfl) _).2 hok
  obtain ⟨haccepted, -, hrefused, -⟩ := ofArguments_follows_grammar documented_scanner
    ["game", "--script=-", "--script", "-"]
  refine ⟨hok, hgiven _ _ hok hreads, hswap, hrefused fun hitems => ?_⟩
  obtain ⟨c, hc⟩ := haccepted.2 hitems
  cases hc

/-- A flag is never the value of the one before it. -/
example : ofArguments scanner ["game", "--script", "--strict-decode"] =
    .error (.flags .invalidValue) := by
  decide

end Config

end ScriptBridge
