import Mathlib.Data.List.Nodup
import Mathlib.Data.List.TakeWhile
import ScriptBridge.Settings.Scanner

/-!
What a parser of command lines is known to do. It goes by what a line begins with: a flag adds what
it stands for to what is read of the rest, unless it is there already, and a token that is no flag
and no value spoils the line. The scanner is such a parser, so that these rules can be met.
-/
namespace ScriptBridge.CommandLine

def IsPlain (text : String) : Prop := text = "-" ∨ text.toList.head? ≠ some '-'

namespace Parser

/-- What is given in front of a line is put before what is read of the line, where it is not given
again. -/
def Puts (parse : Parser) (c : Command) (program : String) (g : Given) (tokens : List String)
    (gs : List Given) : Prop :=
  ∃ late, parse c (program :: tokens) = .ok late ∧ (∀ other ∈ late, other.long ≠ g.long) ∧
    gs = g :: late

/-- The rules for long names, each of which is given once at most. Options take their value from the
same token or from the next one, switches have none, and there are no other arguments. -/
structure Documented (parse : Parser) : Prop where
  empty (c : Command) : parse c [] = .ok []
  program (c : Command) (program : String) : parse c [program] = .ok []
  terminator (c : Command) (program : String) : parse c [program, "--"] = .ok []
  behind_terminator (c : Command) (program text : String) (tokens : List String)
    (gs : List Given) : parse c (program :: "--" :: text :: tokens) ≠ .ok gs
  switch {c : Command} {long : String} (declared : long ∈ c.switches) (program : String)
    (tokens : List String) (gs : List Given) :
    parse c (program :: ("--" ++ long) :: tokens) = .ok gs ↔
      parse.Puts c program ⟨long, none⟩ tokens gs
  switch_value {c : Command} {long : String} (declared : long ∈ c.switches)
    (program value : String) (tokens : List String) (gs : List Given) :
    parse c (program :: ("--" ++ long ++ "=" ++ value) :: tokens) ≠ .ok gs
  attached {c : Command} {long : String} (declared : long ∈ c.options) (program value : String)
    (tokens : List String) (gs : List Given) :
    parse c (program :: ("--" ++ long ++ "=" ++ value) :: tokens) = .ok gs ↔
      value ≠ "" ∧ parse.Puts c program ⟨long, some value⟩ tokens gs
  detached {c : Command} {long : String} (declared : long ∈ c.options) (program : String)
    {value : String} (plain : IsPlain value) (tokens : List String) (gs : List Given) :
    parse c (program :: ("--" ++ long) :: value :: tokens) = .ok gs ↔
      value ≠ "" ∧ parse.Puts c program ⟨long, some value⟩ tokens gs
  no_value {c : Command} {long : String} (declared : long ∈ c.options) (program : String)
    {tokens : List String} (none_plain : ∀ text ∈ tokens.head?, ¬IsPlain text) (gs : List Given) :
    parse c (program :: ("--" ++ long) :: tokens) ≠ .ok gs
  undeclared {c : Command} {text : String} (not_terminator : text ≠ "--")
    (no_flag : ∀ long ∈ c.options ++ c.switches, text ≠ "--" ++ long ∧
      ∀ value, text ≠ "--" ++ long ++ "=" ++ value)
    (program : String) (tokens : List String) (gs : List Given) :
    parse c (program :: text :: tokens) ≠ .ok gs

end Parser

section Tokens

variable {c : Command} {long : String}

theorem splitEquals_of_not_mem {name : List Char} (h : '=' ∉ name) :
    splitEquals name = (name, none) := by
  have hname : name.dropWhile (· ≠ '=') = [] :=
    List.dropWhile_eq_nil_iff.2 fun c hc => decide_eq_true fun he => h (he ▸ hc)
  rw [splitEquals, hname]

theorem splitEquals_append {name : List Char} (h : '=' ∉ name) (value : List Char) :
    splitEquals (name ++ '=' :: value) = (name, some (String.ofList value)) := by
  have hname : ∀ c ∈ name, decide (c ≠ '=') = true :=
    fun c hc => decide_eq_true fun he => h (he ▸ hc)
  rw [splitEquals, List.dropWhile_append_of_pos hname, List.takeWhile_append_of_pos hname]
  simp

theorem eq_of_splitEquals {flag name : List Char} {attached : Option String}
    (h : splitEquals flag = (name, attached)) :
    flag = name ++ attached.elim [] ('=' :: ·.toList) := by
  rw [splitEquals] at h
  split at h
  · cases h
    simp
  · rename_i c value hdrop
    cases h
    have hhead := List.head?_dropWhile_not (fun c => decide (c ≠ '=')) flag
    rw [hdrop] at hhead
    have hc : c = '=' := by simpa using hhead
    subst hc
    rw [Option.elim_some, String.toList_ofList, ← hdrop, List.takeWhile_append_dropWhile]

theorem ofText_of_splitEquals {text : String} {flag : List Char} {attached : Option String}
    (htext : text.toList = '-' :: '-' :: flag) (hflag : flag ≠ [])
    (h : splitEquals flag = (long.toList, attached)) :
    Token.ofText c text =
      if long ∈ c.options then .option long attached
      else if long ∈ c.switches then .switch long attached
      else .unknown := by
  obtain ⟨d, ds, rfl⟩ := List.exists_cons_of_ne_nil hflag
  simp only [Token.ofText, htext, h, String.ofList_toList]

theorem toList_attached (long value : String) :
    ("--" ++ long ++ "=" ++ value).toList = '-' :: '-' :: (long.toList ++ '=' :: value.toList) := by
  simp [String.toList_append]

theorem toList_flag (long : String) : ("--" ++ long).toList = '-' :: '-' :: long.toList :=
  String.toList_append

theorem ofText_flag (h : long ≠ "" ∧ '=' ∉ long.toList) : Token.ofText c ("--" ++ long) =
    if long ∈ c.options then .option long none
    else if long ∈ c.switches then .switch long none
    else .unknown :=
  ofText_of_splitEquals (toList_flag long) (by simpa using h.1) (splitEquals_of_not_mem h.2)

theorem ofText_attached (h : long ≠ "" ∧ '=' ∉ long.toList) (value : String) :
    Token.ofText c ("--" ++ long ++ "=" ++ value) =
      if long ∈ c.options then .option long (some value)
      else if long ∈ c.switches then .switch long (some value)
      else .unknown := by
  refine ofText_of_splitEquals (toList_attached long value) (by simp) ?_
  rw [splitEquals_append h.2, String.ofList_toList]

theorem ofText_of_isPlain {text : String} (h : IsPlain text) :
    Token.ofText c text = .plain text := by
  rcases h with rfl | hhead
  · rfl
  · rw [Token.ofText]
    split
    · rename_i htext
      exact absurd (by rw [htext]; rfl) hhead
    · rename_i htext
      exact absurd (by rw [htext]; rfl) hhead
    · rename_i htext
      exact absurd (by rw [htext]; rfl) hhead
    · rfl

inductive Token.Spells (c : Command) : String → Token → Prop
  | terminator : Spells c "--" .terminator
  | option {long : String} (declared : long ∈ c.options) :
      Spells c ("--" ++ long) (.option long none)
  | attached {long : String} (declared : long ∈ c.options) (value : String) :
      Spells c ("--" ++ long ++ "=" ++ value) (.option long (some value))
  | switch {long : String} (declared : long ∈ c.switches) :
      Spells c ("--" ++ long) (.switch long none)
  | switchValue {long : String} (declared : long ∈ c.switches) (value : String) :
      Spells c ("--" ++ long ++ "=" ++ value) (.switch long (some value))
  | plain {text : String} (h : IsPlain text) : Spells c text (.plain text)

theorem Token.spells_or_unknown (c : Command) (text : String) :
    Token.Spells c text (Token.ofText c text) ∨ Token.ofText c text = .unknown := by
  have heq : ∀ {other : String}, text.toList = other.toList → text = other :=
    String.toList_injective
  rw [Token.ofText]
  split
  · rename_i htext
    rw [@heq "--" htext]
    exact .inl .terminator
  · rename_i flag hflag htext
    cases hcut : splitEquals flag with
    | mk name attached =>
    have hwhole := eq_of_splitEquals hcut
    obtain ⟨long, rfl⟩ : ∃ long : String, name = long.toList := ⟨_, String.toList_ofList.symm⟩
    simp only [String.ofList_toList]
    have hspelled :
        text = attached.elim ("--" ++ long) (fun value => "--" ++ long ++ "=" ++ value) := by
      apply heq
      cases attached with
      | none => rw [htext, hwhole, Option.elim_none, Option.elim_none, toList_flag, List.append_nil]
      | some value => rw [htext, hwhole, Option.elim_some, Option.elim_some, toList_attached]
    rw [hspelled]
    split
    · rename_i declared
      left
      cases attached with
      | none => exact .option declared
      | some value => exact .attached declared value
    · split
      · rename_i declared
        left
        cases attached with
        | none => exact .switch declared
        | some value => exact .switchValue declared value
      · exact .inr rfl
  · exact .inr rfl
  · rename_i hnone htwo hone
    refine .inl (.plain ?_)
    by_cases hhead : text.toList.head? = some '-'
    · obtain ⟨rest, hrest⟩ := List.head?_eq_some_iff.1 hhead
      cases rest with
      | nil => exact .inl (heq hrest)
      | cons c cs => exact absurd hrest (hone c cs)
    · exact .inr hhead

end Tokens

section Scan

variable {given gs : List Given} {pending : Pending} {c : Command}

def Once (gs : List Given) : Prop := (gs.map (·.long)).Nodup

theorem once_append_iff {early late : List Given} : Once (early ++ late) ↔
    Once early ∧ Once late ∧ ∀ g ∈ early, ∀ other ∈ late, g.long ≠ other.long := by
  rw [Once, List.map_append, List.nodup_append]
  simp only [Once, List.forall_mem_map]

/-- A step that takes in more, if there is more and no name is given twice. -/
def Extends (given : List Given) (late? : Option (List Given))
    (x : Except Problem (List Given)) : Prop :=
  ∀ gs, x = .ok gs ↔ ∃ late, late? = some late ∧ gs = given ++ late ∧ Once gs

theorem extends_error (given : List Given) (p : Problem) : Extends given none (.error p) :=
  fun _ => iff_of_false nofun fun ⟨_, hlate, _⟩ => nomatch hlate

theorem extends_ok (h : Once given) : Extends given (some []) (.ok given) := by
  intro gs
  constructor
  · intro hok
    cases hok
    exact ⟨[], rfl, (List.append_nil _).symm, h⟩
  · rintro ⟨late, hlate, rfl, -⟩
    cases hlate
    rw [List.append_nil]

def append? (early? late? : Option (List Given)) : Option (List Given) := do
  let early ← early?
  let late ← late?
  some (early ++ late)

theorem append?_eq_some_iff {early? late? : Option (List Given)} : append? early? late? = some gs ↔
    ∃ early late, early? = some early ∧ late? = some late ∧ gs = early ++ late := by
  cases early? <;> cases late? <;> simp [append?, eq_comm]

theorem nil_append? (late? : Option (List Given)) : append? (some []) late? = late? := by
  cases late? <;> rfl

theorem append?_nil (early? : Option (List Given)) : append? early? (some []) = early? := by
  cases early? <;> simp [append?]

theorem append?_none (early? : Option (List Given)) : append? early? none = none := by
  cases early? <;> rfl

theorem Extends.bind {early? late? : Option (List Given)} {x : Except Problem (List Given)}
    {f : List Given → Except Problem (List Given)} (hx : Extends given early? x)
    (hf : ∀ mid, Once mid → Extends mid late? (f mid)) :
    Extends given (append? early? late?) (x >>= f) := by
  intro gs
  cases hresult : x with
  | error p =>
    refine iff_of_false nofun ?_
    rintro ⟨late, happend, rfl, honce⟩
    obtain ⟨early, last, hearly, -, rfl⟩ := append?_eq_some_iff.1 happend
    rw [← List.append_assoc] at honce
    have hok := (hx _).2 ⟨early, hearly, rfl, (once_append_iff.1 honce).1⟩
    cases hresult.symm.trans hok
  | ok mid =>
    obtain ⟨early, hearly, rfl, hmid⟩ := (hx mid).1 hresult
    refine (hf _ hmid gs).trans ?_
    constructor
    · rintro ⟨late, hlate, rfl, honce⟩
      exact ⟨_, append?_eq_some_iff.2 ⟨_, _, hearly, hlate, rfl⟩, List.append_assoc .., honce⟩
    · rintro ⟨both, hboth, rfl, honce⟩
      obtain ⟨other, late, hother, hlate, rfl⟩ := append?_eq_some_iff.1 hboth
      cases hearly.symm.trans hother
      exact ⟨late, hlate, (List.append_assoc ..).symm, honce⟩

def found? (g : Given) : Option (List Given) := if g.value = some "" then none else some [g]

theorem extends_take {g : Given} (h : Once given) : Extends given (found? g) (take given g) := by
  intro gs
  have hany : given.any (·.long == g.long) = true ↔ ¬Once (given ++ [g]) := by
    have hone : Once [g] := List.nodup_singleton _
    rw [once_append_iff, List.any_eq_true]
    simp [h, hone]
  rw [take, found?]
  split
  · rename_i hrepeated
    refine iff_of_false nofun ?_
    rintro ⟨late, hlate, rfl, honce⟩
    split at hlate
    · cases hlate
    · cases hlate
      exact hany.1 hrepeated honce
  · rename_i hnew
    split
    · exact extends_error given _ gs
    · constructor
      · intro hok
        cases hok
        exact ⟨[g], rfl, rfl, not_not.1 (mt hany.2 hnew)⟩
      · rintro ⟨late, hlate, rfl, -⟩
        cases hlate
        rfl

def settled : Pending → Option (List Given)
  | .nothing => some []
  | .awaiting _ => none
  | .value long text => found? ⟨long, some text⟩

theorem extends_settle (h : Once given) (pending : Pending) :
    Extends given (settled pending) (settle given pending) := by
  cases pending with
  | nothing => exact extends_ok h
  | awaiting long => exact extends_error given _
  | value long text => exact extends_take h

/-- What stands on a line, where names may be repeated. -/
def collect (pending : Pending) : List Token → Option (List Given)
  | [] => settled pending
  | .terminator :: rest => if rest.isEmpty then settled pending else none
  | .option long (some value) :: rest =>
    append? (settled pending) (append? (found? ⟨long, some value⟩) (collect .nothing rest))
  | .option long none :: rest => append? (settled pending) (collect (.awaiting long) rest)
  | .switch _ (some _) :: _ => none
  | .switch long none :: rest =>
    append? (settled pending) (append? (found? ⟨long, none⟩) (collect .nothing rest))
  | .unknown :: _ => none
  | .plain text :: rest =>
    match pending with
    | .awaiting long => collect (.value long text) rest
    | _ => none

/-- The scanner reads a line exactly if each token is in its place and no name is given twice. -/
theorem extends_scan (h : Once given) (pending : Pending) (tokens : List Token) :
    Extends given (collect pending tokens) (scan given pending tokens) := by
  induction tokens generalizing given pending with
  | nil => exact extends_settle h pending
  | cons token tokens ih =>
    have hsettle := extends_settle h pending
    cases token with
    | terminator =>
      rw [scan, collect]
      split
      · exact hsettle
      · exact extends_error given _
    | option long attached =>
      cases attached with
      | none => exact hsettle.bind fun mid hmid => ih hmid _
      | some value =>
        exact hsettle.bind fun mid hmid => (extends_take hmid).bind fun last hlast => ih hlast _
    | switch long attached =>
      cases attached with
      | none =>
        exact hsettle.bind fun mid hmid => (extends_take hmid).bind fun last hlast => ih hlast _
      | some value => exact extends_error given _
    | unknown => exact extends_error given _
    | plain text =>
      cases pending with
      | awaiting long => exact ih h _
      | _ => exact extends_error given _

theorem collect_value (long text : String) (tokens : List Token) :
    collect (.value long text) tokens =
      append? (found? ⟨long, some text⟩) (collect .nothing tokens) := by
  cases tokens with
  | nil => exact (append?_nil _).symm
  | cons token tokens =>
    cases token with
    | terminator =>
      rw [collect, collect]
      split
      · exact (append?_nil _).symm
      · exact (append?_none _).symm
    | option long attached =>
      cases attached with
      | none => rw [collect, collect, settled, settled, nil_append?]
      | some value => rw [collect, collect, settled, settled, nil_append?]
    | switch long attached =>
      cases attached with
      | none => rw [collect, collect, settled, settled, nil_append?]
      | some value => exact (append?_none _).symm
    | unknown => exact (append?_none _).symm
    | plain text => exact (append?_none _).symm

theorem collect_awaiting (long : String) {tokens : List String}
    (h : ∀ text ∈ tokens.head?, ¬IsPlain text) :
    collect (.awaiting long) (tokens.map (Token.ofText c)) = none := by
  cases tokens with
  | nil => rfl
  | cons text tokens =>
    rw [List.map_cons]
    rcases Token.spells_or_unknown c text with hspells | hunknown
    · generalize Token.ofText c text = token at hspells
      cases hspells with
      | terminator =>
        rw [collect]
        split <;> rfl
      | plain hplain => exact absurd hplain (h text rfl)
      | _ => rfl
    · rw [hunknown]
      rfl

theorem scanner_eq_ok_iff {program : String} {tokens : List String} :
    scanner c (program :: tokens) = .ok gs ↔
      collect .nothing (tokens.map (Token.ofText c)) = some gs ∧ Once gs := by
  have hnil : Once [] := List.nodup_nil
  rw [scanner, List.tail_cons, extends_scan hnil]
  constructor
  · rintro ⟨late, hlate, rfl, honce⟩
    exact ⟨hlate, honce⟩
  · rintro ⟨hlate, honce⟩
    exact ⟨gs, hlate, rfl, honce⟩

theorem append?_found_iff_puts {g : Given} {program : String} {tokens : List String} :
    (append? (found? g) (collect .nothing (tokens.map (Token.ofText c))) = some gs ∧ Once gs) ↔
      g.value ≠ some "" ∧ Parser.Puts scanner c program g tokens gs := by
  rw [append?_eq_some_iff, found?]
  constructor
  · rintro ⟨⟨early, late, hearly, hlate, rfl⟩, honce⟩
    split at hearly
    · cases hearly
    · rename_i hvalue
      cases hearly
      obtain ⟨-, hlast, hnew⟩ := once_append_iff.1 honce
      exact ⟨hvalue, late, scanner_eq_ok_iff.2 ⟨hlate, hlast⟩,
        fun other hother => (hnew g List.mem_cons_self other hother).symm, rfl⟩
  · rintro ⟨hvalue, late, hread, hnew, rfl⟩
    obtain ⟨hlate, hlast⟩ := scanner_eq_ok_iff.1 hread
    refine ⟨⟨[g], late, if_neg hvalue, hlate, rfl⟩, ?_⟩
    exact List.nodup_cons.2 ⟨by simpa [eq_comm] using hnew, hlast⟩

end Scan

theorem Command.not_mem_options {c : Command} {long : String} (h : long ∈ c.switches) :
    long ∉ c.options :=
  fun hoption => (List.nodup_append.1 c.nodup).2.2 long hoption long h rfl

theorem documented_scanner : scanner.Documented where
  empty c := rfl
  program c program := rfl
  terminator c program := rfl
  behind_terminator c program text tokens gs := nofun
  switch {c long} declared program tokens gs := by
    have hlong := c.plain long (List.mem_append_right _ declared)
    rw [scanner_eq_ok_iff, List.map_cons, ofText_flag hlong,
      if_neg (Command.not_mem_options declared), if_pos declared, collect, settled, nil_append?,
      append?_found_iff_puts]
    exact and_iff_right nofun
  switch_value {c long} declared program value tokens gs := by
    have hlong := c.plain long (List.mem_append_right _ declared)
    rw [ne_eq, scanner_eq_ok_iff, List.map_cons, ofText_attached hlong,
      if_neg (Command.not_mem_options declared), if_pos declared]
    exact fun h => nomatch h.1
  attached {c long} declared program value tokens gs := by
    have hlong := c.plain long (List.mem_append_left _ declared)
    rw [scanner_eq_ok_iff, List.map_cons, ofText_attached hlong, if_pos declared, collect, settled,
      nil_append?, append?_found_iff_puts]
    exact and_congr_left' (by simp)
  detached {c long} declared program value plain tokens gs := by
    have hlong := c.plain long (List.mem_append_left _ declared)
    rw [scanner_eq_ok_iff, List.map_cons, List.map_cons, ofText_flag hlong, if_pos declared,
      ofText_of_isPlain plain, collect, settled, nil_append?, collect, collect_value,
      append?_found_iff_puts]
    exact and_congr_left' (by simp)
  no_value {c long} declared program tokens none_plain gs := by
    have hlong := c.plain long (List.mem_append_left _ declared)
    rw [ne_eq, scanner_eq_ok_iff, List.map_cons, ofText_flag hlong, if_pos declared, collect,
      collect_awaiting long none_plain, append?_none]
    exact fun h => nomatch h.1
  undeclared {c text} not_terminator no_flag program tokens gs := by
    rw [ne_eq, scanner_eq_ok_iff, List.map_cons]
    rcases Token.spells_or_unknown c text with hspells | hunknown
    · generalize Token.ofText c text = token at hspells
      cases hspells with
      | terminator => exact absurd rfl not_terminator
      | option declared => exact absurd rfl (no_flag _ (List.mem_append_left _ declared)).1
      | attached declared value =>
        exact absurd rfl ((no_flag _ (List.mem_append_left _ declared)).2 value)
      | switch declared => exact absurd rfl (no_flag _ (List.mem_append_right _ declared)).1
      | switchValue declared value =>
        exact absurd rfl ((no_flag _ (List.mem_append_right _ declared)).2 value)
      | plain h => exact fun h => nomatch h.1
    · rw [hunknown]
      exact fun h => nomatch h.1

end ScriptBridge.CommandLine
