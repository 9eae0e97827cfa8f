import ScriptBridge.Proofs.Text.Trim
import ScriptBridge.Settings.Config

/-!
How the layers of a configuration resolve. Each of the two settings comes from the last layer that
says something about it, and the two do not depend on each other. What counts as saying nothing
differs: an empty entry script does, a policy that cannot be read fails, and the flag for a policy
works one way only.
-/
namespace ScriptBridge

namespace Policy

def word : Policy → List Char
  | .lenient => "lenient".toList
  | .strict => "strict".toList

theorem word_inj {p q : Policy} : p.word = q.word ↔ p = q := by
  cases p <;> cases q <;> decide

/-- A text that is the word of a policy but for blanks around it and the case of its letters. -/
def SpelledBy (policy : Policy) (text : String) : Prop :=
  ∃ t, Text.TrimsTo text.toList t ∧ t.map Char.toLower = policy.word

theorem ofText?_eq_some_iff {policy : Policy} {text : String} :
    ofText? text = some policy ↔ policy.SpelledBy text := by
  have htrim : policy.SpelledBy text ↔
      (Text.trim text.toList).map Char.toLower = policy.word := by
    simp only [SpelledBy, ← Text.trim_eq_iff, exists_eq_left']
  rw [htrim]
  simp only [ofText?]
  split
  · rename_i hstrict
    rw [hstrict, Option.some_inj]
    exact (word_inj (p := .strict)).symm
  · rename_i hstrict
    split
    · rename_i hlenient
      rw [hlenient, Option.some_inj]
      exact (word_inj (p := .lenient)).symm
    · rename_i hlenient
      refine iff_of_false nofun fun h => ?_
      cases policy with
      | strict => exact hstrict h
      | lenient => exact hlenient h

theorem ofText?_eq_none_iff {text : String} :
    ofText? text = none ↔ ∀ policy : Policy, ¬policy.SpelledBy text := by
  simp only [Option.eq_none_iff_forall_ne_some, ne_eq, ofText?_eq_some_iff]

end Policy

namespace Config

variable {c d : Config} {env : Environment} {flags : Flags}

def Environment.Refused (env : Environment) (text : String) : Prop :=
  env "SCRIPTBIND_DECODE" = some text ∧ ∀ policy : Policy, ¬policy.SpelledBy text

/-- The entry script that three layers leave: the one of the flags, else one that is not empty in
the environment, else the one that was there. -/
inductive EntryFrom (c : Config) (env : Environment) (flags : Flags) : EntryPath → Prop
  | flag {text : String} (given : flags.script = some text) : EntryFrom c env flags ⟨text⟩
  | environment {text : String} (absent : flags.script = none)
      (set : env "SCRIPTBIND_ENTRY" = some text) (ne_empty : text ≠ "") :
      EntryFrom c env flags ⟨text⟩
  | kept (absent : flags.script = none)
      (unset : env "SCRIPTBIND_ENTRY" = none ∨ env "SCRIPTBIND_ENTRY" = some "") :
      EntryFrom c env flags c.entry

/-- The policy that three layers leave: a strict one by the flag, else the one of the environment,
else the one that was there. -/
inductive PolicyFrom (c : Config) (env : Environment) (flags : Flags) : Policy → Prop
  | flag (given : flags.strictDecode = true) : PolicyFrom c env flags .strict
  | environment {text : String} {policy : Policy} (absent : flags.strictDecode = false)
      (set : env "SCRIPTBIND_DECODE" = some text) (spelled : policy.SpelledBy text) :
      PolicyFrom c env flags policy
  | kept (absent : flags.strictDecode = false) (unset : env "SCRIPTBIND_DECODE" = none) :
      PolicyFrom c env flags c.policy

def Environment.policy? (env : Environment) : Option Policy :=
  (env policyVariable).bind Policy.ofText?

theorem applyEnvironment_eq_error_iff {e : ConfigError} :
    c.applyEnvironment env = .error e ↔ ∃ text, env.Refused text ∧ e = .invalidPolicy text := by
  simp only [applyEnvironment, Environment.Refused, policyVariable]
  cases env "SCRIPTBIND_DECODE" with
  | none => simp
  | some text =>
    cases hp : Policy.ofText? text with
    | none => simp [← Policy.ofText?_eq_none_iff, hp, eq_comm]
    | some policy => simp [← Policy.ofText?_eq_none_iff, hp]

theorem applyEnvironment_eq_ok_iff :
    c.applyEnvironment env = .ok d ↔ (∀ text, ¬env.Refused text) ∧
      d = ⟨env.policy?.getD c.policy, (Environment.entry? env).getD c.entry⟩ := by
  simp only [applyEnvironment, Environment.Refused, Environment.policy?, policyVariable]
  cases env "SCRIPTBIND_DECODE" with
  | none => simp [eq_comm]
  | some text =>
    cases hp : Policy.ofText? text with
    | none => simp [← Policy.ofText?_eq_none_iff, hp]
    | some policy => simp [← Policy.ofText?_eq_none_iff, hp, eq_comm]

theorem Environment.entry?_eq_some_iff {p : EntryPath} :
    Environment.entry? env = some p ↔
      ∃ text, env "SCRIPTBIND_ENTRY" = some text ∧ text ≠ "" ∧ p = ⟨text⟩ := by
  rw [Environment.entry?, entryVariable]
  cases env "SCRIPTBIND_ENTRY" with
  | none => simp
  | some text => by_cases h : text = "" <;> simp [h, eq_comm]

theorem Environment.entry?_eq_none_iff :
    Environment.entry? env = none ↔
      env "SCRIPTBIND_ENTRY" = none ∨ env "SCRIPTBIND_ENTRY" = some "" := by
  rw [Environment.entry?, entryVariable]
  cases env "SCRIPTBIND_ENTRY" with
  | none => simp
  | some text => by_cases h : text = "" <;> simp [h]

theorem Environment.policy?_eq_some_iff {policy : Policy} :
    env.policy? = some policy ↔
      ∃ text, env "SCRIPTBIND_DECODE" = some text ∧ policy.SpelledBy text := by
  simp only [policy?, policyVariable, Option.bind_eq_some_iff, Policy.ofText?_eq_some_iff]

theorem Environment.policy?_eq_none_iff (h : ∀ text, ¬env.Refused text) :
    env.policy? = none ↔ env "SCRIPTBIND_DECODE" = none := by
  rw [policy?, policyVariable, Option.bind_eq_none_iff]
  constructor
  · intro hnone
    rw [Option.eq_none_iff_forall_ne_some]
    exact fun text hset => h text ⟨hset, Policy.ofText?_eq_none_iff.1 (hnone text hset)⟩
  · intro hunset text hset
    rw [hunset] at hset
    cases hset

theorem entryFrom_iff {p : EntryPath} : EntryFrom c env flags p ↔
    p = (flags.script.map (⟨·⟩)).getD ((Environment.entry? env).getD c.entry) := by
  constructor
  · intro h
    cases h with
    | flag given => simp [given]
    | environment absent set ne_empty =>
      have hentry := Environment.entry?_eq_some_iff.2 ⟨_, set, ne_empty, rfl⟩
      simp [absent, hentry]
    | kept absent unset => simp [absent, Environment.entry?_eq_none_iff.2 unset]
  · rintro rfl
    cases hscript : flags.script with
    | some text => exact .flag hscript
    | none =>
      cases hentry : Environment.entry? env with
      | none => exact .kept hscript (Environment.entry?_eq_none_iff.1 hentry)
      | some p =>
        obtain ⟨text, hset, hne, rfl⟩ := Environment.entry?_eq_some_iff.1 hentry
        exact .environment hscript hset hne

theorem policyFrom_iff (h : ∀ text, ¬env.Refused text) {policy : Policy} :
    PolicyFrom c env flags policy ↔
      policy = if flags.strictDecode then .strict else env.policy?.getD c.policy := by
  constructor
  · intro hfrom
    cases hfrom with
    | flag given => simp [given]
    | environment absent set spelled =>
      have hpolicy := Environment.policy?_eq_some_iff.2 ⟨_, set, spelled⟩
      simp [absent, hpolicy]
    | kept absent unset => simp [absent, (Environment.policy?_eq_none_iff h).2 unset]
  · rintro rfl
    cases hstrict : flags.strictDecode with
    | true => exact .flag hstrict
    | false =>
      cases hpolicy : env.policy? with
      | none => exact .kept hstrict ((Environment.policy?_eq_none_iff h).1 hpolicy)
      | some policy =>
        obtain ⟨text, hset, hspelled⟩ := Environment.policy?_eq_some_iff.1 hpolicy
        exact .environment hstrict hset hspelled

theorem applyFlags_idempotent (c : Config) (flags : Flags) :
    (c.applyFlags flags).applyFlags flags = c.applyFlags flags := by
  cases hscript : flags.script <;> cases hstrict : flags.strictDecode <;>
    simp [applyFlags, hscript, hstrict]

theorem applyEnvironment_idempotent (c : Config) (env : Environment) :
    (c.applyEnvironment env).bind (·.applyEnvironment env) = c.applyEnvironment env := by
  cases hc : c.applyEnvironment env with
  | error e => rfl
  | ok d =>
    obtain ⟨haccepted, rfl⟩ := applyEnvironment_eq_ok_iff.1 hc
    refine applyEnvironment_eq_ok_iff.2 ⟨haccepted, ?_⟩
    cases env.policy? <;> cases Environment.entry? env <;> rfl

/-- The environment over a configuration, and flags over both. The environment fails exactly if it
sets the policy to no word for one, and keeps its text as it is; otherwise each setting is the one
of the last layer that gives it. Only two variables are looked at, a layer that is put over itself
changes nothing, and flags never make a strict policy lenient. -/
theorem later_layers_win (c : Config) (env : Environment) (flags : Flags) :
    (∀ e, c.applyEnvironment env = .error e ↔
      ∃ text, env.Refused text ∧ e = .invalidPolicy text) ∧
    (∀ d, (c.applyEnvironment env).map (·.applyFlags flags) = .ok d ↔
      (∀ text, ¬env.Refused text) ∧ EntryFrom c env flags d.entry ∧
        PolicyFrom c env flags d.policy) ∧
    (∀ other : Environment, other "SCRIPTBIND_ENTRY" = env "SCRIPTBIND_ENTRY" →
      other "SCRIPTBIND_DECODE" = env "SCRIPTBIND_DECODE" →
        c.applyEnvironment other = c.applyEnvironment env) ∧
    (c.applyEnvironment env).bind (·.applyEnvironment env) = c.applyEnvironment env ∧
    (c.applyFlags flags).applyFlags flags = c.applyFlags flags ∧
    (c.policy = .strict → (c.applyFlags flags).policy = .strict) := by
  refine ⟨fun e => applyEnvironment_eq_error_iff, fun d => ?_, fun other hentry hpolicy => ?_,
    applyEnvironment_idempotent c env, applyFlags_idempotent c flags, fun hstrict => ?_⟩
  · have hok : (c.applyEnvironment env).map (·.applyFlags flags) = .ok d ↔
        ∃ m, c.applyEnvironment env = .ok m ∧ m.applyFlags flags = d := by
      cases c.applyEnvironment env <;> simp [Except.map]
    simp only [hok, applyEnvironment_eq_ok_iff, and_assoc, exists_and_left, exists_eq_left]
    refine and_congr_right fun haccepted => ?_
    rw [entryFrom_iff, policyFrom_iff haccepted, applyFlags, eq_comm]
    cases d
    simp [and_comm]
  · simp only [applyEnvironment, Environment.entry?, entryVariable, policyVariable, hentry,
      hpolicy]
  · rw [applyFlags, hstrict, ite_self]

end Config

end ScriptBridge
