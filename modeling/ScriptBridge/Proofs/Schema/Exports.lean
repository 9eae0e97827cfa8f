import Mathlib.Data.List.Basic
import ScriptBridge.Schema.Expansion

/-!
The functions that scripts can see of a module. They are the public functions that no entry skips,
in the order of the source, each under the last name that an entry gives it. What a module expands
to has the schemas of exactly these functions among its members.
-/
namespace ScriptBridge.Schema

theorem ok_of_bind {ε α β : Type} {x : Except ε α} {f : α → Except ε β} {b : β}
    (h : (x >>= f) = .ok b) : ∃ a, x = .ok a ∧ f a = .ok b := by
  cases x with
  | error e => cases h
  | ok a => exact ⟨a, rfl, h⟩

theorem ok_of_map {ε α β : Type} {x : Except ε α} {f : α → β} {b : β}
    (h : x.map f = .ok b) : ∃ a, x = .ok a ∧ f a = b := by
  cases x with
  | error e => cases h
  | ok a => exact ⟨a, rfl, Except.ok.inj h⟩

def Entry.name? (e : Entry) : Option String :=
  if e.key? = some "name" then e.value.toOption else none

def Entry.isSkip (e : Entry) : Bool := e.key? == some "skip"

def Attribute.entries (read : ArgumentReader) (a : Attribute) : List Entry :=
  match a.isScript, a.form with
  | true, .list tokens => (read tokens).entries
  | _, _ => []

namespace ScriptOptions

variable {read : ArgumentReader} {o o' : ScriptOptions}

/-- Options after some entries more: the last name given stands, and one skip is enough. -/
def after (o : ScriptOptions) (es : List Entry) : ScriptOptions :=
  ⟨(es.filterMap Entry.name?).getLast?.or o.name, es.any Entry.isSkip || o.skip⟩

theorem after_nil (o : ScriptOptions) : o.after [] = o := rfl

theorem after_append (o : ScriptOptions) (es fs : List Entry) :
    o.after (es ++ fs) = (o.after es).after fs := by
  simp only [after, List.filterMap_append, List.getLast?_append, List.any_append, Option.or_assoc,
    Bool.or_assoc, Bool.or_left_comm]

theorem passUnless_eq_ok_iff {message? : Option String} :
    o.passUnless message? = .ok o' ↔ message? = none ∧ o' = o := by
  cases message? <;> simp [passUnless, eq_comm]

theorem eq_after_of_takeEntry {e : Entry} (h : o.takeEntry e = .ok o') : o' = o.after [e] := by
  rw [takeEntry] at h
  by_cases hname : e.key? = some "name"
  · have hskip : e.isSkip = false := by simp [Entry.isSkip, hname]
    rw [if_pos hname] at h
    split at h
    · cases h
    · rename_i value hvalue
      obtain ⟨-, rfl⟩ := passUnless_eq_ok_iff.1 h
      simp [after, Entry.name?, hname, hvalue, hskip, Except.toOption]
  · rw [if_neg hname] at h
    split at h
    · rename_i hskip
      obtain ⟨-, rfl⟩ := passUnless_eq_ok_iff.1 h
      simp [after, Entry.name?, Entry.isSkip, hskip]
    · cases h

theorem eq_after_of_takeEntries {es : List Entry} (h : o.takeEntries es = .ok o') :
    o' = o.after es := by
  induction es generalizing o with
  | nil =>
    cases h
    rfl
  | cons e es ih =>
    obtain ⟨next, hentry, hrest⟩ := ok_of_bind h
    rw [ih hrest, eq_after_of_takeEntry hentry, ← after_append, List.singleton_append]

theorem eq_after_of_takeAttribute {a : Attribute} (h : o.takeAttribute read a = .ok o') :
    o' = o.after (a.entries read) := by
  rw [takeAttribute] at h
  cases hscript : a.isScript with
  | false =>
    rw [hscript] at h
    cases h
    simp [Attribute.entries, hscript, after_nil]
  | true =>
    rw [hscript] at h
    cases hform : a.form with
    | bare => simp [hform] at h
    | value tokens => simp [hform] at h
    | list tokens =>
      rw [hform] at h
      obtain ⟨last, hentries, hstop⟩ := ok_of_bind h
      obtain ⟨-, rfl⟩ := passUnless_eq_ok_iff.1 hstop
      rw [Attribute.entries, hscript, hform]
      exact eq_after_of_takeEntries hentries

theorem eq_after_of_takeAttributes {as : List Attribute}
    (h : o.takeAttributes read as = .ok o') :
    o' = o.after (as.flatMap (Attribute.entries read)) := by
  induction as generalizing o with
  | nil =>
    cases h
    rfl
  | cons a as ih =>
    obtain ⟨next, hattribute, hrest⟩ := ok_of_bind h
    rw [ih hrest, eq_after_of_takeAttribute hattribute, ← after_append, List.flatMap_cons]

end ScriptOptions

namespace Item

def entries (read : ArgumentReader) (i : Item) : List Entry :=
  i.attributes.flatMap (Attribute.entries read)

def isSkipped (read : ArgumentReader) (i : Item) : Bool := (i.entries read).any Entry.isSkip

def scriptName (read : ArgumentReader) (i : Item) : String :=
  (((i.entries read).filterMap Entry.name?).getLast?).getD i.name

theorem options_eq {read : ArgumentReader} {i : Item} {o : ScriptOptions}
    (h : ScriptOptions.ofAttributes read i.attributes = .ok o) :
    o.skip = i.isSkipped read ∧ o.name.getD i.name = i.scriptName read := by
  have ho : o = ScriptOptions.empty.after (i.entries read) :=
    ScriptOptions.eq_after_of_takeAttributes h
  rw [ho]
  simp [ScriptOptions.after, ScriptOptions.empty, isSkipped, scriptName]

end Item

/-- A function that scripts can see: the name they know it by, its own name and its signature. -/
structure Export where
  name : String
  target : String
  signature : Signature

def Item.exported? (read : ArgumentReader) (i : Item) : Option Export :=
  match i.kind with
  | .function signature =>
    if i.isPublic && !i.isSkipped read then some ⟨i.scriptName read, i.name, signature⟩ else none
  | _ => none

def exports (read : ArgumentReader) (items : List Item) : List Export :=
  items.filterMap (Item.exported? read)

def MemberSchema.function? : MemberSchema → Option FunctionSchema
  | .function schema => some schema
  | _ => none

def Input.param? : Input → Option ParamType
  | .receiver => none
  | .typed type => type.param?

theorem Signature.param?_of_checkInput {i : Input} {p : ParamType} (h : checkInput i = .ok p) :
    i.param? = some p := by
  unfold checkInput at h
  split at h
  · cases h
  · cases h
  · split at h
    · rename_i hparam
      cases h
      exact hparam
    · cases h

theorem Signature.map_param?_of_checkInputs {is : List Input} {ps : List ParamType}
    (h : checkInputs is = .ok ps) : is.map Input.param? = ps.map some := by
  induction is generalizing ps with
  | nil =>
    cases h
    rfl
  | cons i is ih =>
    obtain ⟨p, hinput, hrest⟩ := ok_of_bind h
    obtain ⟨rest, hinputs, hcons⟩ := ok_of_bind hrest
    cases hcons
    rw [List.map_cons, param?_of_checkInput hinput, ih hinputs, List.map_cons]

/-- The schema of an exported function: its two names, and the types of all its inputs in order. -/
structure SchemaOf (e : Export) (f : FunctionSchema) : Prop where
  name_eq : f.name = e.name
  target_eq : f.target = e.target
  params_eq : e.signature.inputs.map Input.param? = f.params.map some

theorem Signature.schemaOf {s : Signature} {target name : String} {f : FunctionSchema}
    (h : s.schema target name = .ok f) : SchemaOf ⟨name, target, s⟩ f := by
  obtain ⟨u, -, hinputs⟩ := ok_of_bind h
  obtain ⟨ps, hparams, hf⟩ := ok_of_bind hinputs
  cases hf
  exact ⟨rfl, rfl, map_param?_of_checkInputs hparams⟩

namespace Item

variable {read : ArgumentReader} {i : Item} {m? : Option MemberSchema}

theorem member?_cases (h : i.member? read = .ok m?) :
    (m? = none ∧ (i.kind.isMember = false ∨ i.isPublic = false ∨ i.isSkipped read = true)) ∨
      (i.isPublic = true ∧ i.isSkipped read = false ∧
        ∃ m, i.memberNamed (i.scriptName read) = .ok m ∧ m? = some m) := by
  rw [member?] at h
  split at h
  · rename_i hplace
    rw [Bool.or_eq_true, Bool.not_eq_true', Bool.not_eq_true'] at hplace
    cases h
    exact .inl ⟨rfl, hplace.imp_right .inl⟩
  · rename_i hplace
    rw [Bool.or_eq_true, Bool.not_eq_true', Bool.not_eq_true', not_or] at hplace
    obtain ⟨options, hoptions, hrest⟩ := ok_of_bind h
    obtain ⟨hskip, hname⟩ := options_eq hoptions
    rw [hskip, hname] at hrest
    split at hrest
    · rename_i hskipped
      cases hrest
      exact .inl ⟨rfl, .inr (.inr hskipped)⟩
    · rename_i hskipped
      obtain ⟨m, hm, hsome⟩ := ok_of_map hrest
      exact .inr ⟨eq_true_of_ne_false hplace.2, eq_false_of_ne_true hskipped, m, hm, hsome.symm⟩

theorem memberNamed_cases {name : String} {m : MemberSchema} (h : i.memberNamed name = .ok m) :
    (∃ s f, i.kind = .function s ∧ s.schema i.name name = .ok f ∧ m = .function f) ∨
      ((∀ s, i.kind ≠ .function s) ∧ m.function? = none) := by
  rw [memberNamed] at h
  cases hkind : i.kind with
  | function s =>
    rw [hkind] at h
    obtain ⟨f, hf, hm⟩ := ok_of_map h
    exact .inl ⟨s, f, rfl, hf, hm.symm⟩
  | _ =>
    rw [hkind] at h
    cases h
    exact .inr ⟨by simp, rfl⟩

theorem exported?_of_function {s : Signature} (hkind : i.kind = .function s) :
    i.exported? read =
      if i.isPublic && !i.isSkipped read then some ⟨i.scriptName read, i.name, s⟩ else none := by
  rw [exported?, hkind]

theorem exported?_eq_none (h : ∀ s, i.kind ≠ .function s) : i.exported? read = none := by
  rw [exported?]
  split
  · rename_i s hkind
    exact absurd hkind (h s)
  · rfl

theorem rel_exported? (h : i.member? read = .ok m?) :
    Option.Rel SchemaOf (i.exported? read) (m?.bind MemberSchema.function?) := by
  rcases member?_cases h with ⟨rfl, hout⟩ | ⟨hpublic, hskip, m, hm, rfl⟩
  · have hnone : i.exported? read = none := by
      by_cases hfunction : ∃ s, i.kind = .function s
      · obtain ⟨s, hkind⟩ := hfunction
        rw [exported?_of_function hkind, if_neg]
        intro hin
        rw [Bool.and_eq_true, Bool.not_eq_true'] at hin
        rw [hkind, hin.1, hin.2] at hout
        simp [ItemKind.isMember] at hout
      · exact exported?_eq_none (not_exists.1 hfunction)
    rw [hnone]
    exact .none
  · rcases memberNamed_cases hm with ⟨s, f, hkind, hf, rfl⟩ | ⟨hkind, hm⟩
    · rw [exported?_of_function hkind, hpublic, hskip]
      exact .some (Signature.schemaOf hf)
    · rw [exported?_eq_none hkind, Option.bind_some, hm]
      exact .none

end Item

/-- The functions among the members of a module are those that it exports, in order. -/
theorem forall₂_schemaOf {read : ArgumentReader} {items : List Item} {ms : List MemberSchema}
    (h : members read items = .ok ms) :
    List.Forall₂ SchemaOf (exports read items) (ms.filterMap MemberSchema.function?) := by
  induction items generalizing ms with
  | nil =>
    cases h
    exact .nil
  | cons i items ih =>
    obtain ⟨m?, hmember, hrest⟩ := ok_of_bind h
    obtain ⟨rest, hmembers, hcons⟩ := ok_of_bind hrest
    cases hcons
    have hfirst : (m?.toList.filterMap MemberSchema.function?) =
        (m?.bind MemberSchema.function?).toList := by
      cases m? with
      | none => rfl
      | some m => cases hm : m.function? <;> simp [hm]
    rw [exports, List.filterMap_cons, List.filterMap_append, hfirst]
    have hrel := Item.rel_exported? hmember
    generalize i.exported? read = e?, m?.bind MemberSchema.function? = f? at hrel
    cases hrel with
    | none => exact ih hmembers
    | some hschema => exact .cons hschema (ih hmembers)

theorem members_of_expandModule {read : ArgumentReader} {arguments : String} {items : List Item}
    {x : ModuleExpansion} (h : expandModule read arguments (some items) = .ok x) :
    members read items = .ok x.members := by
  rw [expandModule] at h
  split at h
  · cases h
  · obtain ⟨u, -, hitems⟩ := ok_of_bind h
    obtain ⟨ms, hmembers, hx⟩ := ok_of_bind hitems
    cases hx
    exact hmembers

end ScriptBridge.Schema
