import Mathlib.Data.List.Forall2
import ScriptBridge.Proofs.Schema.Exports
import ScriptBridge.Proofs.Schema.FirstFault

/-!
The signatures of functions that scripts can call. A signature is accepted exactly if it is plain
and all of its inputs have supported types, whatever parentheses stand around them. One that is
refused is refused for what comes first in the order of the checks, and among the inputs for the
leftmost.
-/
namespace ScriptBridge.Schema

namespace TypeExpr

variable {t u : TypeExpr}

def core : TypeExpr → TypeExpr
  | .paren inner => inner.core
  | .group inner => inner.core
  | t => t

def IsBare (name : String) (t : TypeExpr) : Prop := ∃ text, t = .path text ∧ squeeze text = name

/-- The types that a parameter may have, apart from what is around them. -/
inductive IsDirect : TypeExpr → Prop
  | textReference {lifetime : String} {target : TypeExpr} (bare : target.IsBare "str") :
      IsDirect (.reference lifetime false target)
  | path {text : String} (not_bool : ¬(path text).IsBare "bool")
      (not_char : ¬(path text).IsBare "char") : IsDirect (.path text)
  | invocation (name : String) : IsDirect (.invocation name)
  | verbatim (tokens : String) : IsDirect (.verbatim tokens)

def IsSupported (t : TypeExpr) : Prop := t.core.IsDirect

inductive Wraps (t : TypeExpr) : TypeExpr → Prop
  | bare : Wraps t t
  | paren {u : TypeExpr} (inner : Wraps t u) : Wraps t (.paren u)
  | group {u : TypeExpr} (inner : Wraps t u) : Wraps t (.group u)

/-- A type with the entry that stands for it in a schema. Groups leave no trace there. -/
inductive Enters : TypeExpr → ParamType → Prop
  | path (text : String) : Enters (.path text) (.path text)
  | textReference (lifetime : String) {target : TypeExpr} (bare : target.IsBare "str") :
      Enters (.reference lifetime false target) (.textReference lifetime)
  | invocation (name : String) : Enters (.invocation name) (.invocation name)
  | verbatim (tokens : String) : Enters (.verbatim tokens) (.verbatim tokens)
  | paren {t : TypeExpr} {p : ParamType} (inner : Enters t p) : Enters (.paren t) (.paren p)
  | group {t : TypeExpr} {p : ParamType} (inner : Enters t p) : Enters (.group t) p

theorem Wraps.core_eq (h : t.Wraps u) : u.core = t.core := by
  induction h with
  | bare => rfl
  | paren inner ih => exact ih
  | group inner ih => exact ih

theorem isBare_path_iff {text name : String} : (path text).IsBare name ↔ squeeze text = name := by
  constructor
  · rintro ⟨other, hpath, hname⟩
    cases hpath
    exact hname
  · intro h
    exact ⟨text, rfl, h⟩

theorem isName_iff {name : String} : t.isName name = true ↔ t.IsBare name := by
  cases t with
  | path text => rw [isName, isPlain, beq_iff_eq, isBare_path_iff]
  | _ => simp [isName, IsBare]

theorem not_isBare_of_qualified {text rest name : String} (h : squeeze text = "<" ++ rest)
    (hname : name.toList.head? ≠ some '<') : ¬(path text).IsBare name := by
  rw [isBare_path_iff, h]
  rintro rfl
  exact hname (by simp)

theorem isDirect_reference_iff {lifetime : String} {mutable : Bool} {target : TypeExpr} :
    (reference lifetime mutable target).IsDirect ↔ (!mutable && target.isName "str") = true := by
  rw [Bool.and_eq_true, Bool.not_eq_true', isName_iff]
  constructor
  · intro h
    cases h with
    | textReference bare => exact ⟨rfl, bare⟩
  · rintro ⟨rfl, bare⟩
    exact .textReference bare

theorem isDirect_path_iff {text : String} :
    (path text).IsDirect ↔ ¬(isPlain text "bool" || isPlain text "char") = true := by
  rw [Bool.or_eq_true, not_or]
  have hplain : ∀ name, isPlain text name = true ↔ (path text).IsBare name := fun name =>
    isName_iff (t := path text)
  rw [hplain, hplain]
  constructor
  · intro h
    cases h with
    | path not_bool not_char => exact ⟨not_bool, not_char⟩
  · rintro ⟨not_bool, not_char⟩
    exact .path not_bool not_char

theorem isSome_param?_iff (t : TypeExpr) : t.param?.isSome ↔ t.IsSupported := by
  unfold IsSupported
  fun_induction param? t with
  | case1 inner ih => rw [Option.isSome_map, ih, core]
  | case2 inner ih => rw [ih, core]
  | case3 lifetime mutable target h => simpa [core] using isDirect_reference_iff.2 h
  | case4 lifetime mutable target h => simpa [core] using fun hd => h (isDirect_reference_iff.1 hd)
  | case5 text h => simpa [core] using fun hd => isDirect_path_iff.1 hd h
  | case6 text h => simpa [core] using isDirect_path_iff.2 h
  | case7 name => exact ⟨fun _ => .invocation name, fun _ => rfl⟩
  | case8 tokens => exact ⟨fun _ => .verbatim tokens, fun _ => rfl⟩
  | case9 t hparen hgroup hreference hpath hinvocation hverbatim =>
    cases t with
    | paren inner => exact (hparen inner rfl).elim
    | group inner => exact (hgroup inner rfl).elim
    | reference lifetime mutable target => exact (hreference lifetime mutable target rfl).elim
    | path text => exact (hpath text rfl).elim
    | invocation name => exact (hinvocation name rfl).elim
    | verbatim tokens => exact (hverbatim tokens rfl).elim
    | _ => exact ⟨nofun, nofun⟩

theorem enters_of_param? {p : ParamType} (h : t.param? = some p) : t.Enters p := by
  fun_induction param? t generalizing p with
  | case1 inner ih =>
    obtain ⟨q, hq, rfl⟩ := Option.map_eq_some_iff.1 h
    exact .paren (ih hq)
  | case2 inner ih => exact .group (ih h)
  | case3 lifetime mutable target htext =>
    rw [Bool.and_eq_true, Bool.not_eq_true', isName_iff] at htext
    obtain ⟨rfl, bare⟩ := htext
    cases h
    exact .textReference lifetime bare
  | case6 text =>
    cases h
    exact .path text
  | case7 name =>
    cases h
    exact .invocation name
  | case8 tokens =>
    cases h
    exact .verbatim tokens
  | _ => cases h

end TypeExpr

/-- What is wrong with an input: it is a receiver, it is some type that only has to meet a bound, or
it is a type that is not supported for another reason. -/
inductive Input.Fault : Input → Problem → Prop
  | receiver : Fault .receiver .receiver
  | implTrait (bound : String) : Fault (.typed (.implTrait bound)) .implTrait
  | unsupported {type : TypeExpr} (not_implTrait : ∀ bound, type ≠ .implTrait bound)
      (unsupported : ¬type.IsSupported) : Fault (.typed type) .unsupportedType

inductive Input.Enters : Input → ParamType → Prop
  | typed {type : TypeExpr} {p : ParamType} (entry : type.Enters p) : Enters (.typed type) p

inductive Input.Wraps : Input → Input → Prop
  | receiver : Wraps .receiver .receiver
  | typed {t u : TypeExpr} (type : t.Wraps u) : Wraps (.typed t) (.typed u)

namespace Signature

variable {s : Signature} {i : Input} {is : List Input} {p : Problem}

theorem checkInput_typed {type : TypeExpr} (h : ∀ bound, type ≠ .implTrait bound) :
    checkInput (.typed type) =
      match type.param? with
      | some p => .ok p
      | none => .error .unsupportedType := by
  cases type with
  | implTrait bound => exact absurd rfl (h bound)
  | _ => rfl

theorem checkInput_eq_error_iff : checkInput i = .error p ↔ i.Fault p := by
  cases i with
  | receiver =>
    refine ⟨fun h => ?_, fun h => ?_⟩
    · cases h
      exact .receiver
    · cases h
      rfl
  | typed type =>
    by_cases hdirect : ∃ bound, type = .implTrait bound
    · obtain ⟨bound, rfl⟩ := hdirect
      refine ⟨fun h => ?_, fun h => ?_⟩
      · cases h
        exact .implTrait bound
      · cases h with
        | implTrait => rfl
        | unsupported not_implTrait => exact absurd rfl (not_implTrait bound)
    · have hother : ∀ bound, type ≠ .implTrait bound := not_exists.1 hdirect
      have hsupported := type.isSome_param?_iff
      rw [checkInput_typed hother]
      cases hparam : type.param? with
      | some q =>
        rw [hparam] at hsupported
        refine ⟨nofun, fun h => ?_⟩
        cases h with
        | implTrait bound => exact absurd rfl (hother bound)
        | unsupported _ unsupported => exact absurd (hsupported.1 rfl) unsupported
      | none =>
        rw [hparam] at hsupported
        refine ⟨fun h => ?_, fun h => ?_⟩
        · cases h
          exact .unsupported hother fun hs => Bool.false_ne_true (hsupported.2 hs)
        · cases h with
          | implTrait bound => exact absurd rfl (hother bound)
          | unsupported => rfl

theorem checkInputs_eq_error_iff : checkInputs is = .error p ↔ FirstFault Input.Fault is p := by
  induction is with
  | nil => exact ok_eq_error_iff_firstFault_nil
  | cons i is ih =>
    exact bind_eq_error_iff_firstFault (fun q => checkInput_eq_error_iff) fun a _ =>
      bind_ok_eq_error_iff.trans ih

theorem forall₂_enters_of_map {ps : List ParamType} (h : is.map Input.param? = ps.map some) :
    List.Forall₂ Input.Enters is ps := by
  rw [← List.forall₂_eq_eq_eq, List.forall₂_map_left_iff, List.forall₂_map_right_iff] at h
  refine h.imp fun i q hq => ?_
  cases i with
  | receiver => cases hq
  | typed type => exact .typed (TypeExpr.enters_of_param? hq)

/-- What a function must be like for scripts to call it. -/
structure IsCallable (s : Signature) : Prop where
  generics : s.generics = []
  whereClause : s.whereClause = none
  not_async : s.isAsync = false
  not_variadic : s.isVariadic = false
  inputs : ∀ i ∈ s.inputs, ∃ type, i = .typed type ∧ type.IsSupported

/-- The first thing that is wrong with a signature, in the order of the checks. -/
inductive Violation (s : Signature) : Problem → Prop
  | generic (generic : s.generics ≠ [] ∨ s.whereClause ≠ none) : Violation s .generic
  | async (generics : s.generics = []) (whereClause : s.whereClause = none)
      (async : s.isAsync = true) : Violation s .async
  | variadic (generics : s.generics = []) (whereClause : s.whereClause = none)
      (not_async : s.isAsync = false) (variadic : s.isVariadic = true) : Violation s .variadic
  | input (generics : s.generics = []) (whereClause : s.whereClause = none)
      (not_async : s.isAsync = false) (not_variadic : s.isVariadic = false) {p : Problem}
      (first : FirstFault Input.Fault s.inputs p) : Violation s p

theorem isGeneric_iff :
    (!s.generics.isEmpty || s.whereClause.isSome) = true ↔
      s.generics ≠ [] ∨ s.whereClause ≠ none := by
  simp [Option.isSome_iff_ne_none]

theorem not_isGeneric_iff :
    ¬(!s.generics.isEmpty || s.whereClause.isSome) = true ↔
      s.generics = [] ∧ s.whereClause = none := by
  rw [isGeneric_iff, not_or, not_not, not_not]

theorem checkHead_eq_ok_iff : s.checkHead = .ok () ↔
    (s.generics = [] ∧ s.whereClause = none) ∧ s.isAsync = false ∧ s.isVariadic = false := by
  rw [← not_isGeneric_iff, checkHead]
  constructor
  · intro h
    split at h
    · cases h
    · rename_i hplain
      split at h
      · cases h
      · rename_i not_async
        split at h
        · cases h
        · rename_i not_variadic
          exact ⟨hplain, eq_false_of_ne_true not_async, eq_false_of_ne_true not_variadic⟩
  · rintro ⟨hplain, not_async, not_variadic⟩
    rw [if_neg hplain, not_async, not_variadic]
    rfl

theorem schema_eq_error_iff {target name : String} :
    s.schema target name = .error p ↔ s.Violation p := by
  rw [schema, bind_eq_error_iff]
  constructor
  · rintro (hhead | ⟨u, hhead, hinputs⟩)
    · rw [checkHead] at hhead
      split at hhead
      · rename_i hgeneric
        cases hhead
        exact .generic (isGeneric_iff.1 hgeneric)
      · rename_i hplain
        obtain ⟨generics, whereClause⟩ := not_isGeneric_iff.1 hplain
        split at hhead
        · rename_i async
          cases hhead
          exact .async generics whereClause async
        · rename_i not_async
          split at hhead
          · rename_i variadic
            cases hhead
            exact .variadic generics whereClause (eq_false_of_ne_true not_async) variadic
          · cases hhead
    · obtain ⟨⟨generics, whereClause⟩, not_async, not_variadic⟩ := checkHead_eq_ok_iff.1 hhead
      have first := checkInputs_eq_error_iff.1 (bind_ok_eq_error_iff.1 hinputs)
      exact .input generics whereClause not_async not_variadic first
  · intro h
    cases h with
    | generic generic => exact .inl (if_pos (isGeneric_iff.2 generic))
    | async generics whereClause async =>
      refine .inl ?_
      rw [checkHead, if_neg (not_isGeneric_iff.2 ⟨generics, whereClause⟩), if_pos async]
    | variadic generics whereClause not_async variadic =>
      refine .inl ?_
      rw [checkHead, if_neg (not_isGeneric_iff.2 ⟨generics, whereClause⟩),
        if_neg (ne_true_of_eq_false not_async), if_pos variadic]
    | input generics whereClause not_async not_variadic first =>
      refine .inr ⟨(), checkHead_eq_ok_iff.2 ⟨⟨generics, whereClause⟩, not_async, not_variadic⟩, ?_⟩
      exact bind_ok_eq_error_iff.2 (checkInputs_eq_error_iff.2 first)

theorem forall_not_fault_iff {i : Input} :
    (∀ p, ¬i.Fault p) ↔ ∃ type, i = .typed type ∧ type.IsSupported := by
  cases i with
  | receiver => exact ⟨fun h => (h _ .receiver).elim, nofun⟩
  | typed type =>
    constructor
    · intro h
      refine ⟨type, rfl, ?_⟩
      by_contra hbad
      by_cases hdirect : ∃ bound, type = .implTrait bound
      · obtain ⟨bound, rfl⟩ := hdirect
        exact h _ (.implTrait bound)
      · exact h _ (.unsupported (not_exists.1 hdirect) hbad)
    · rintro ⟨other, hother, hsupported⟩ p hfault
      cases hother
      cases hfault with
      | implTrait bound => cases hsupported
      | unsupported _ unsupported => exact unsupported hsupported

theorem forall_not_violation_iff : (∀ p, ¬s.Violation p) ↔ s.IsCallable := by
  constructor
  · intro h
    have hgeneric : s.generics = [] ∧ s.whereClause = none :=
      not_isGeneric_iff.1 fun hg => h _ (.generic (isGeneric_iff.1 hg))
    obtain ⟨generics, whereClause⟩ := hgeneric
    have not_async : s.isAsync = false :=
      eq_false_of_ne_true fun async => h _ (.async generics whereClause async)
    have not_variadic : s.isVariadic = false :=
      eq_false_of_ne_true fun variadic => h _ (.variadic generics whereClause not_async variadic)
    refine ⟨generics, whereClause, not_async, not_variadic, fun i hi => ?_⟩
    have hfirst : ∀ p, ¬FirstFault Input.Fault s.inputs p :=
      fun p first => h p (.input generics whereClause not_async not_variadic first)
    exact forall_not_fault_iff.1 (forall_not_firstFault_iff.1 hfirst i hi)
  · intro h p hviolation
    cases hviolation with
    | generic generic => exact generic.elim (· h.generics) (· h.whereClause)
    | async _ _ async => exact Bool.false_ne_true (h.not_async.symm.trans async)
    | variadic _ _ _ variadic => exact Bool.false_ne_true (h.not_variadic.symm.trans variadic)
    | input _ _ _ _ first =>
      refine forall_not_firstFault_iff.2 (fun i hi => ?_) p first
      exact forall_not_fault_iff.2 (h.inputs i hi)

theorem exists_schema_iff {target name : String} :
    (∃ f, s.schema target name = .ok f) ↔ s.IsCallable := by
  simp only [exists_eq_ok_iff, ne_eq, schema_eq_error_iff, forall_not_violation_iff]

theorem isCallable_of_wraps {inputs : List Input}
    (h : List.Forall₂ Input.Wraps s.inputs inputs) :
    ({ s with inputs } : Signature).IsCallable ↔ s.IsCallable := by
  have hinputs : (∀ i ∈ inputs, ∃ type, i = .typed type ∧ type.IsSupported) ↔
      ∀ i ∈ s.inputs, ∃ type, i = .typed type ∧ type.IsSupported := by
    generalize s.inputs = is at h
    induction h with
    | nil => exact Iff.rfl
    | cons hi _ ih =>
      rw [List.forall_mem_cons, List.forall_mem_cons, ih]
      refine and_congr_left fun _ => ?_
      cases hi with
      | receiver => exact Iff.rfl
      | typed type =>
        simp only [Input.typed.injEq, exists_eq_left', TypeExpr.IsSupported, type.core_eq]
  exact ⟨fun h => ⟨h.generics, h.whereClause, h.not_async, h.not_variadic, hinputs.1 h.inputs⟩,
    fun h => ⟨h.generics, h.whereClause, h.not_async, h.not_variadic, hinputs.2 h.inputs⟩⟩

theorem map_schema_expandFunction {arguments : List Meta} {name? : Option String}
    (hname : functionName arguments = .ok name?) (hplaced : s.wellPlaced = .ok ()) (target : String)
    (visibility : String) (attributes : List Attribute) (contents : List Token) :
    (expandFunction arguments ⟨target, visibility, attributes, s, contents⟩).map (·.schema) =
      s.schema target (name?.getD target) := by
  rw [expandFunction, hname]
  change ((s.wellPlaced >>= fun _ =>
    s.schema target (name?.getD target) >>= _) : Except _ _).map _ = _
  rw [hplaced]
  change ((s.schema target (name?.getD target) >>= _) : Except _ _).map _ = _
  cases s.schema target (name?.getD target) <;> rfl

theorem member?_function {read : ArgumentReader} {attributes : List Attribute}
    {name? : Option String} (h : ScriptOptions.ofAttributes read attributes = .ok ⟨name?, false⟩)
    (target : String) (contents : List Token) :
    Item.member? read ⟨.function s, target, "pub", attributes, contents⟩ =
      (s.schema target (name?.getD target)).map fun f => some (.function f) := by
  rw [Item.member?, h]
  change ((s.schema target (name?.getD target)).map MemberSchema.function).map some = _
  cases s.schema target (name?.getD target) <;> rfl

/-- A signature has a schema exactly if scripts can call functions with it, and otherwise its first
violation is reported. The schema has one entry for each input in order, and parentheses or groups
more around the inputs never decide whether there is one. Paths with a qualification are no bare
names. Whether a function is annotated itself or is a public one of a module makes no difference. -/
theorem schema_iff_isCallable (s : Signature) (target name : String) :
    ((∃ f, s.schema target name = .ok f) ↔ s.IsCallable) ∧
      (∀ p, s.schema target name = .error p ↔ s.Violation p) ∧
      (∀ f, s.schema target name = .ok f →
        f.name = name ∧ f.target = target ∧ List.Forall₂ Input.Enters s.inputs f.params) ∧
      (∀ inputs, List.Forall₂ Input.Wraps s.inputs inputs →
        ((∃ f, ({ s with inputs } : Signature).schema target name = .ok f) ↔
          ∃ f, s.schema target name = .ok f)) ∧
      (∀ text rest, squeeze text = "<" ++ rest → ∀ word ∈ ["str", "bool", "char"],
        ¬(TypeExpr.path text).IsBare word) ∧
      (∀ arguments name? visibility attributes contents, functionName arguments = .ok name? →
        s.wellPlaced = .ok () →
          (expandFunction arguments ⟨target, visibility, attributes, s, contents⟩).map (·.schema) =
            s.schema target (name?.getD target)) ∧
      ∀ read attributes name? contents,
        ScriptOptions.ofAttributes read attributes = .ok ⟨name?, false⟩ →
          Item.member? read ⟨.function s, target, "pub", attributes, contents⟩ =
            (s.schema target (name?.getD target)).map fun f => some (.function f) := by
  refine ⟨exists_schema_iff, fun p => schema_eq_error_iff, fun f hf => ?_, fun inputs hwraps => ?_,
    fun text rest htext word hword => ?_,
    fun arguments name? visibility attributes contents hname hplaced =>
      map_schema_expandFunction hname hplaced target visibility attributes contents,
    fun read attributes name? contents hoptions => member?_function hoptions target contents⟩
  · have hschema := schemaOf hf
    exact ⟨hschema.name_eq, hschema.target_eq, forall₂_enters_of_map hschema.params_eq⟩
  · rw [exists_schema_iff, exists_schema_iff]
    exact isCallable_of_wraps hwraps
  · refine TypeExpr.not_isBare_of_qualified htext ?_
    revert word
    decide

/-- Any parentheses are taken off before a type is judged, though not to find what meets a bound.
What comes first is reported, be it the word in front or the leftmost input. -/
theorem schema_of_wrapped_inputs :
    let text : Input := .typed (.paren (.group (.reference "'a" false (.path "str"))))
    let s : Signature := ⟨[], none, false, false, [text, .typed (.path "<T>::bool")]⟩
    let bound : Signature :=
      { s with inputs := [text, .typed (.paren (.implTrait "Fn()")), .receiver] }
    (∃ f, s.schema "draw" "render" = .ok f ∧ f.name = "render" ∧
        List.Forall₂ Input.Enters s.inputs f.params) ∧
      bound.schema "draw" "render" = .error .unsupportedType ∧
      ({ bound with isAsync := true } : Signature).schema "draw" "render" = .error .async ∧
      ∀ read, Item.member? read ⟨.function bound, "draw", "pub", [], []⟩ =
        .error .unsupportedType := by
  intro text s bound
  have htext : (TypeExpr.paren (.group (.reference "'a" false (.path "str")))).IsSupported :=
    (TypeExpr.isSome_param?_iff _).1 (by decide +kernel)
  have hpath : (TypeExpr.path "<T>::bool").IsSupported :=
    (TypeExpr.isSome_param?_iff _).1 (by decide +kernel)
  have hcallable : s.IsCallable := by
    refine ⟨rfl, rfl, rfl, rfl, ?_⟩
    exact List.forall_mem_cons.2 ⟨⟨_, rfl, htext⟩, by simpa using hpath⟩
  have hfirst : FirstFault Input.Fault bound.inputs .unsupportedType := by
    refine ⟨[text], _, [.receiver], rfl, .unsupported nofun fun h => ?_, ?_⟩
    · cases h
    · simpa using forall_not_fault_iff.2 ⟨_, rfl, htext⟩
  obtain ⟨haccepted, -, hentries, -⟩ := schema_iff_isCallable s "draw" "render"
  obtain ⟨-, hrefused, -, -, -, -, hmember⟩ := schema_iff_isCallable bound "draw" "render"
  obtain ⟨-, hasync, -⟩ :=
    schema_iff_isCallable { bound with isAsync := true } "draw" "render"
  obtain ⟨f, hf⟩ := haccepted.2 hcallable
  obtain ⟨hname, -, hparams⟩ := hentries f hf
  have hviolation : bound.Violation .unsupportedType := .input rfl rfl rfl rfl hfirst
  refine ⟨⟨f, hf, hname, hparams⟩, (hrefused _).2 hviolation, (hasync _).2 (.async rfl rfl rfl),
    fun read => ?_⟩
  rw [hmember read [] none [] rfl, map_eq_error_iff, schema_eq_error_iff]
  exact hviolation

end Signature

end ScriptBridge.Schema
