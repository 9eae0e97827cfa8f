import Mathlib.Data.List.Forall2
import Mathlib.Data.List.Perm.Basic
import Mathlib.Tactic.MkIffOfInductiveProp
import ScriptBridge.Settings.CommandLine
import ScriptBridge.Proofs.Settings.Parser

/-!
The grammar of the command line. A line is a sequence of items in any order, a script in one of two
forms or the flag for the strict policy, each at most once, with an optional terminator at its end.
-/
namespace ScriptBridge.Flags

open CommandLine

/-- An item as it is written. The value of a script stands in the same token or in the next. -/
inductive Item where
  | script (value : String) (attached : Bool)
  | strict
  deriving DecidableEq

namespace Item

def tokens : Item → List String
  | .script value false => ["--script", value]
  | .script value true => ["--script=" ++ value]
  | .strict => ["--strict-decode"]

inductive WellFormed : Item → Prop
  | detached {value : String} (ne_empty : value ≠ "") (plain : IsPlain value) :
      WellFormed (.script value false)
  | attached {value : String} (ne_empty : value ≠ "") : WellFormed (.script value true)
  | strict : WellFormed .strict

/-- What an item sets, whatever its form: the script, or else the policy. -/
def setting : Item → Option String
  | .script value _ => some value
  | .strict => none

def given : Item → Given
  | .script value _ => ⟨"script", some value⟩
  | .strict => ⟨"strict-decode", none⟩

end Item

def Line (tokens : List String) (items : List Item) : Prop :=
  tokens = items.flatMap Item.tokens ∨ tokens = items.flatMap Item.tokens ++ ["--"]

structure Reads (tokens : List String) (items : List Item) : Prop where
  line : Line tokens items
  wellFormed : ∀ i ∈ items, i.WellFormed

variable {tokens : List String} {items : List Item} {i : Item}

theorem Reads.nil : Reads [] [] := ⟨.inl rfl, List.forall_mem_nil _⟩

theorem Reads.terminator : Reads ["--"] [] := ⟨.inr rfl, List.forall_mem_nil _⟩

theorem Reads.cons (hi : i.WellFormed) (h : Reads tokens items) :
    Reads (i.tokens ++ tokens) (i :: items) where
  line := by
    rw [Line, List.flatMap_cons, List.append_assoc]
    exact h.line.imp (congrArg _) (congrArg _)
  wellFormed := List.forall_mem_cons.2 ⟨hi, h.wellFormed⟩

theorem Reads.exists_of_cons (h : Reads tokens (i :: items)) :
    ∃ rest, tokens = i.tokens ++ rest ∧ i.WellFormed ∧ Reads rest items := by
  obtain ⟨hi, hrest⟩ := List.forall_mem_cons.1 h.wellFormed
  rcases h.line with hline | hline
  · exact ⟨_, hline, hi, .inl rfl, hrest⟩
  · rw [List.flatMap_cons, List.append_assoc] at hline
    exact ⟨_, hline, hi, .inr rfl, hrest⟩

@[mk_iff] structure Distinct (items : List Item) : Prop where
  script : (items.filterMap Item.setting).length ≤ 1
  strict : items.count .strict ≤ 1

theorem distinct_nil : Distinct [] := ⟨Nat.zero_le 1, Nat.zero_le 1⟩

theorem count_strict (items : List Item) :
    items.count .strict = (items.map Item.setting).count none := by
  rw [List.count, List.count, List.countP_map]
  exact List.countP_congr fun i _ => by cases i <;> simp [Item.setting]

theorem no_script_iff : (items.filterMap Item.setting).length = 0 ↔
    ∀ other ∈ items, other.given.long ≠ "script" := by
  rw [List.length_eq_zero_iff, List.filterMap_eq_nil_iff]
  exact forall₂_congr fun other _ => by cases other <;> simp [Item.setting, Item.given]

theorem no_strict_iff : items.count .strict = 0 ↔
    ∀ other ∈ items, other.given.long ≠ "strict-decode" := by
  rw [List.count_eq_zero, ← List.forall_mem_ne']
  exact forall₂_congr fun other _ => by cases other <;> simp [Item.given]

theorem distinct_cons_iff : Distinct (i :: items) ↔
    Distinct items ∧ ∀ other ∈ items, other.given.long ≠ i.given.long := by
  rw [distinct_iff, distinct_iff]
  cases i with
  | script value attached =>
    have hscripts : ((Item.script value attached :: items).filterMap Item.setting).length =
        (items.filterMap Item.setting).length + 1 := rfl
    have hstrict : (Item.script value attached :: items).count .strict = items.count .strict :=
      List.count_cons_of_ne (by simp)
    change _ ↔ _ ∧ ∀ other ∈ items, other.given.long ≠ "script"
    rw [← no_script_iff, hscripts, hstrict]
    omega
  | strict =>
    have hscripts : (Item.strict :: items).filterMap Item.setting =
        items.filterMap Item.setting := rfl
    change _ ↔ _ ∧ ∀ other ∈ items, other.given.long ≠ "strict-decode"
    rw [← no_strict_iff, hscripts, List.count_cons_self]
    omega

inductive Item.Attaches : Item → Item → Prop
  | same (i : Item) : Attaches i i
  | attached (value : String) : Attaches (.script value false) (.script value true)

theorem Item.Attaches.setting_eq {i other : Item} (h : i.Attaches other) :
    i.setting = other.setting := by
  cases h <;> rfl

theorem Item.Attaches.wellFormed {i other : Item} (h : i.Attaches other) (hi : i.WellFormed) :
    other.WellFormed := by
  cases h with
  | same => exact hi
  | attached value =>
    cases hi with
    | detached ne_empty plain => exact .attached ne_empty

section Rearranged

variable {ordered written : List Item}

theorem wellFormed_of_rearranged (hordered : items.Perm ordered)
    (hwritten : List.Forall₂ Item.Attaches ordered written) (h : ∀ i ∈ items, i.WellFormed) :
    ∀ i ∈ written, i.WellFormed := by
  have hformed : ∀ i ∈ ordered, i.WellFormed := fun i hi => h i (hordered.mem_iff.2 hi)
  clear hordered
  induction hwritten with
  | nil => exact List.forall_mem_nil _
  | cons hhead _ ih =>
    obtain ⟨hi, hrest⟩ := List.forall_mem_cons.1 hformed
    exact List.forall_mem_cons.2 ⟨hhead.wellFormed hi, ih hrest⟩

theorem perm_settings (hordered : items.Perm ordered)
    (hwritten : List.Forall₂ Item.Attaches ordered written) :
    (items.map Item.setting).Perm (written.map Item.setting) := by
  have hsettings : ordered.map Item.setting = written.map Item.setting := by
    rw [← List.forall₂_eq_eq_eq, List.forall₂_map_left_iff, List.forall₂_map_right_iff]
    exact hwritten.imp fun _ _ => Item.Attaches.setting_eq
  exact hsettings ▸ hordered.map _

theorem perm_scripts (h : (items.map Item.setting).Perm (written.map Item.setting)) :
    (items.filterMap Item.setting).Perm (written.filterMap Item.setting) := by
  have hscripts := h.filterMap id
  rwa [List.filterMap_map, List.filterMap_map] at hscripts

theorem distinct_of_perm (h : (items.map Item.setting).Perm (written.map Item.setting))
    (hitems : Distinct items) : Distinct written where
  script := (perm_scripts h).length_eq ▸ hitems.script
  strict := by
    rw [count_strict, ← h.count_eq none, ← count_strict]
    exact hitems.strict

end Rearranged

end ScriptBridge.Flags
