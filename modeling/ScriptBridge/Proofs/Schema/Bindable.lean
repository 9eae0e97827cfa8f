import Mathlib.Data.List.Forall2
import ScriptBridge.Native.Recorder
import ScriptBridge.Proofs.Binding.Faults
import ScriptBridge.Proofs.Schema.Exports
import ScriptBridge.Schema.Link
import ScriptBridge.Schema.Reader

/-!
Modules that were declared are ready to be bound. Where every input of an exported function stands
for a scalar, the module links, and binding what is discovered in it can only fail for a script name
that is given twice.
-/
namespace ScriptBridge.Schema

variable {ρ : Type} {resolve : Resolution} {code : NativeCode ρ}

def Input.scalar? (resolve : Resolution) (i : Input) : Option Scalar := i.param?.bind resolve

def numberNames : List (String × Scalar) := [
  ("i8", .int true .w8), ("i16", .int true .w16), ("i32", .int true .w32),
  ("i64", .int true .w64), ("u8", .int false .w8), ("u16", .int false .w16),
  ("u32", .int false .w32), ("u64", .int false .w64), ("f32", .float .single),
  ("f64", .float .double)]

/-- What a parameter type stands for where no type has another name. Text has two spellings, and
parentheses make no difference. -/
inductive ParamType.Denotes : ParamType → Scalar → Prop
  | number {text : String} {s : Scalar} (name : (squeeze text, s) ∈ numberNames) :
      Denotes (.path text) s
  | string {text : String} (name : squeeze text = "String") : Denotes (.path text) .text
  | reference (lifetime : String) : Denotes (.textReference lifetime) .text
  | paren {inner : ParamType} {s : Scalar} (denotes : Denotes inner s) : Denotes (.paren inner) s

theorem find?_namedScalars_iff {name : String} {s : Scalar} :
    namedScalars.find? (fun t => t.word = name) = some s ↔ (name, s) ∈ numberNames := by
  have hnames : numberNames = namedScalars.map fun t => (t.word, t) := rfl
  have hfind : ∀ t ∈ namedScalars, namedScalars.find? (fun u => u.word = t.word) = some t := by
    decide
  rw [hnames, List.mem_map]
  constructor
  · intro h
    have hword : s.word = name := by simpa using List.find?_some h
    exact ⟨s, List.mem_of_find?_eq_some h, by rw [hword]⟩
  · rintro ⟨t, ht, heq⟩
    cases heq
    exact hfind s ht

theorem ParamType.scalar?_eq_some_iff {p : ParamType} {s : Scalar} :
    p.scalar? = some s ↔ p.Denotes s := by
  induction p with
  | path text =>
    have hstring : ∀ n ∈ numberNames, n.1 ≠ "String" := by decide
    rw [scalar?]
    constructor
    · intro h
      split at h
      · rename_i name
        cases h
        exact .string name
      · exact .number (find?_namedScalars_iff.1 h)
    · intro h
      cases h with
      | number name =>
        rw [if_neg (hstring _ name)]
        exact find?_namedScalars_iff.2 name
      | string name => rw [if_pos name]
  | textReference lifetime =>
    constructor
    · intro h
      cases h
      exact .reference lifetime
    · intro h
      cases h
      rfl
  | invocation => exact ⟨nofun, nofun⟩
  | verbatim => exact ⟨nofun, nofun⟩
  | paren inner ih =>
    rw [scalar?, ih]
    constructor
    · exact .paren
    · intro h
      cases h with
      | paren denotes => exact denotes

theorem Input.scalar?_eq_some_iff {i : Input} {s : Scalar} :
    i.scalar? ParamType.scalar? = some s ↔ ∃ p, i.param? = some p ∧ p.Denotes s := by
  simp only [scalar?, Option.bind_eq_some_iff, ParamType.scalar?_eq_some_iff]

theorem Input.isSome_scalar?_iff {i : Input} :
    (i.scalar? ParamType.scalar?).isSome ↔ ∃ p s, i.param? = some p ∧ p.Denotes s := by
  simp only [Option.isSome_iff_exists, scalar?_eq_some_iff]
  exact exists_comm

theorem map_some_filterMap {is : List Input} (h : ∀ i ∈ is, (i.scalar? resolve).isSome) :
    (is.filterMap (Input.scalar? resolve)).map some = is.map (Input.scalar? resolve) := by
  induction is with
  | nil => rfl
  | cons i is ih =>
    obtain ⟨hi, hrest⟩ := List.forall_mem_cons.1 h
    obtain ⟨s, hs⟩ := Option.isSome_iff_exists.1 hi
    rw [List.filterMap_cons, hs, List.map_cons, List.map_cons, ih hrest, hs]

namespace Export

def scalars (resolve : Resolution) (e : Export) : List Scalar :=
  e.signature.inputs.filterMap (Input.scalar? resolve)

def link (resolve : Resolution) (code : NativeCode ρ) (e : Export) : NativeFunction :=
  .ofTyped e.name (e.scalars resolve) (code e.target (e.scalars resolve))

def Typed (resolve : Resolution) (e : Export) : Prop :=
  ∀ i ∈ e.signature.inputs, (i.scalar? resolve).isSome

instance (e : Export) : Decidable (e.Typed resolve) :=
  inferInstanceAs (Decidable (∀ i ∈ e.signature.inputs, (i.scalar? resolve).isSome))

theorem Typed.map_scalars {e : Export} (h : e.Typed resolve) :
    (e.scalars resolve).map some = e.signature.inputs.map (Input.scalar? resolve) :=
  map_some_filterMap h

theorem isSupported_link (e : Export) : ∀ t ∈ (e.link resolve code).params, t.isSupported := by
  intro t ht
  obtain ⟨s, -, rfl⟩ := List.mem_map.1 ht
  rfl

theorem Typed.forall₂_scalars {e : Export} (h : e.Typed resolve) :
    List.Forall₂ (fun s i => i.scalar? resolve = some s) (e.scalars resolve)
      e.signature.inputs := by
  rw [← List.forall₂_map_right_iff (R := fun s o => o = some s), ← h.map_scalars,
    List.forall₂_map_right_iff]
  exact List.forall₂_same.2 fun s _ => rfl

variable {es : List Export} {space : String} {policy : Policy}

theorem names_links : (es.map (link resolve code)).map (·.name) = es.map (·.name) := List.map_map

theorem isSupported_links : ∀ f ∈ es.map (link resolve code), ∀ t ∈ f.params, t.isSupported := by
  intro f hf
  obtain ⟨e, -, rfl⟩ := List.mem_map.1 hf
  exact e.isSupported_link

theorem exists_result_bind_links_iff (hspace : space ≠ "") :
    (∃ m, (Module.bind space policy (es.map (link resolve code))).result = .ok m) ↔
      (es.map (·.name)).Nodup := by
  rw [Module.exists_result_bind_iff, names_links]
  exact ⟨fun h => h.2.1, fun h => ⟨hspace, h, isSupported_links⟩⟩

theorem result_bind_links_eq_error_iff (hspace : space ≠ "") {cause : BindError} :
    (Module.bind space policy (es.map (link resolve code))).result = .error cause ↔
      ∃ j name, Module.FirstRepeat (es.map (·.name)) j name ∧
        cause = .duplicateFunction space name := by
  rw [Module.result_bind_eq_error_iff_of_supported hspace isSupported_links, names_links]

theorem bound_links {m : Module}
    (hm : (Module.bind space policy (es.map (link resolve code))).result = .ok m) :
    m.names = es.map (·.name) ∧
      m.adapters = es.map fun e => .ofFunction space (e.link resolve code) policy := by
  obtain ⟨-, -, hfrom⟩ := Module.boundFrom_of_bind hm
  refine ⟨(Module.names_eq_of_bind hm).trans names_links, ?_⟩
  rw [hfrom.adapters_eq, List.map_map]
  rfl

end Export

theorem result_bind_discovered {native : NativeModule} {fs : List NativeFunction}
    (h : native.members.filterMap Declaration.function? = fs) (space : String) (policy : Policy) :
    (Declaration.discover native.members >>= Module.bind space policy).result =
      (Module.bind space policy fs).result := by
  rw [← h]
  exact Run.result_bind rfl _

theorem scalarsBy?_of_map {ps : List ParamType} {ss : List Scalar}
    (h : ss.map some = ps.map resolve) : scalarsBy? resolve ps = some ss := by
  induction ps generalizing ss with
  | nil => rw [List.map_eq_nil_iff.1 h]; rfl
  | cons p ps ih =>
    cases ss with
    | nil => cases h
    | cons s ss =>
      obtain ⟨hp, hrest⟩ := List.cons.inj h
      rw [scalarsBy?, ← hp, ih hrest]
      rfl

theorem SchemaOf.linkBy?_eq {e : Export} {f : FunctionSchema} (h : SchemaOf e f)
    (typed : e.Typed resolve) (code : NativeCode ρ) :
    f.linkBy? resolve code = some (e.link resolve code) := by
  have hparams : f.params.map resolve = e.signature.inputs.map (Input.scalar? resolve) := by
    calc f.params.map resolve = (f.params.map some).map (·.bind resolve) := by
          rw [List.map_map]; rfl
      _ = (e.signature.inputs.map Input.param?).map (·.bind resolve) := by rw [h.params_eq]
      _ = e.signature.inputs.map (Input.scalar? resolve) := by rw [List.map_map]; rfl
  rw [FunctionSchema.linkBy?, scalarsBy?_of_map (typed.map_scalars.trans hparams.symm), h.name_eq,
    h.target_eq]
  rfl

theorem exists_linkMembersBy? {ms : List MemberSchema} {fs : List NativeFunction}
    (h : List.Forall₂ (fun f g => f.linkBy? resolve code = some g)
      (ms.filterMap MemberSchema.function?) fs) :
    ∃ native, linkMembersBy? resolve code ms = some native ∧
      native.members.filterMap Declaration.function? = fs := by
  induction ms generalizing fs with
  | nil =>
    cases h
    exact ⟨⟨[]⟩, rfl, rfl⟩
  | cons m ms ih =>
    cases m with
    | function f =>
      cases h with
      | cons hf hrest =>
        rename_i g gs
        obtain ⟨rest, hlink, hfunctions⟩ := ih hrest
        refine ⟨⟨.function g :: rest.members⟩, ?_, ?_⟩
        · rw [linkMembersBy?, MemberSchema.linkBy?, hf, hlink]
          rfl
        · rw [← hfunctions]
          rfl
    | constant name | type name | module name =>
      obtain ⟨rest, hlink, hfunctions⟩ := ih h
      refine ⟨⟨?_ :: rest.members⟩, ?link, ?functions⟩
      case link =>
        rw [linkMembersBy?, hlink]
        rfl
      case functions => exact hfunctions

/-- A module that expands and whose exported functions take scalars only links, and the functions
that are discovered in it are the exported ones, in order. -/
theorem exists_linkMembersBy?_of_expandModule {read : ArgumentReader} {arguments : String}
    {items : List Item} {x : ModuleExpansion}
    (h : expandModule read arguments (some items) = .ok x)
    (typed : ∀ e ∈ exports read items, e.Typed resolve) (code : NativeCode ρ) :
    ∃ native, linkMembersBy? resolve code x.members = some native ∧
      native.members.filterMap Declaration.function? =
        (exports read items).map (Export.link resolve code) := by
  have hschemas := forall₂_schemaOf (members_of_expandModule h)
  have hlinked : List.Forall₂ (fun e f => f.linkBy? resolve code = some (e.link resolve code))
      (exports read items) (x.members.filterMap MemberSchema.function?) :=
    ((List.forall₂_and_left _ _).2 ⟨typed, hschemas⟩).imp fun e f ⟨he, hf⟩ => hf.linkBy?_eq he code
  exact exists_linkMembersBy? (List.forall₂_map_right_iff.2 hlinked.flip)

/-- A module that expands, and whose exported functions take inputs that stand for scalars, links
and is ready to be bound under any name and policy. Binding it never fails for a type. It fails
exactly if exported functions share a script name, and then for the first that repeats one.
Otherwise it has the exported functions under their script names, in order, each with the tags of
its inputs in the order of the signature. Whatever else is in the module has no part in this. -/
theorem bind_expanded_module {read : ArgumentReader} {arguments : String} {items : List Item}
    {x : ModuleExpansion} (h : expandModule read arguments (some items) = .ok x)
    (typed : ∀ e ∈ exports read items, e.Typed resolve) (code : NativeCode ρ) :
    ∃ native, linkMembersBy? resolve code x.members = some native ∧
      ∀ space policy, space ≠ "" →
        let names := (exports read items).map (·.name)
        let result := (do
          let fs ← Declaration.discover native.members
          Module.bind space policy fs).result
        (∀ f position tag, result ≠ .error (.unsupportedParameter f position tag)) ∧
          ((∃ m, result = .ok m) ↔ names.Nodup) ∧
          (∀ cause, result = .error cause ↔
            ∃ j name, Module.FirstRepeat names j name ∧ cause = .duplicateFunction space name) ∧
          ∀ m, result = .ok m → m.names = names ∧
            m.adapters =
              (exports read items).map (fun e => .ofFunction space (e.link resolve code) policy) ∧
            m.adapters.map (·.params.map Tag.scalar?) =
              (exports read items).map (·.signature.inputs.map (Input.scalar? resolve)) := by
  obtain ⟨native, hlink, hfunctions⟩ := exists_linkMembersBy?_of_expandModule h typed code
  refine ⟨native, hlink, fun space policy hspace => ?_⟩
  intro names result
  have hresult : result =
      (Module.bind space policy ((exports read items).map (Export.link resolve code))).result :=
    result_bind_discovered hfunctions space policy
  rw [hresult]
  refine ⟨fun f position tag hbad => ?_, Export.exists_result_bind_links_iff hspace,
    fun cause => Export.result_bind_links_eq_error_iff hspace, fun m hm => ?_⟩
  · obtain ⟨j, name, -, hcause⟩ := (Export.result_bind_links_eq_error_iff hspace).1 hbad
    cases hcause
  · obtain ⟨hnames, hadapters⟩ := Export.bound_links hm
    refine ⟨hnames, hadapters, ?_⟩
    rw [hadapters, List.map_map]
    refine List.map_congr_left fun e he => ?_
    rw [← (typed e he).map_scalars]
    exact List.map_map

/-- A constant does not get in the way of the function that is renamed to its name, and neither do
functions that are private or skipped. Another function of that name does. -/
theorem bind_renamed_function :
    let code : NativeCode Unit := fun name => Recorder.noteTyped name []
    let drawing : Signature :=
      ⟨[], none, false, false, [.typed (.path "i32"), .typed (.reference "" false (.path "str"))]⟩
    let plain : Signature := ⟨[], none, false, false, []⟩
    let items : List Item := [
      ⟨.constant, "render", "pub", [], []⟩,
      ⟨.function drawing, "draw", "pub",
        [⟨"doc", .value []⟩, ⟨"script", .list [.word "name", .mark '=' false, .text "render"]⟩],
        []⟩,
      ⟨.function plain, "render", "", [], []⟩,
      ⟨.function plain, "render", "pub", [⟨"script", .list [.word "skip"]⟩], []⟩]
    let again : Item := ⟨.function plain, "render", "pub", [], []⟩
    (∃ x native, expandModule ArgumentList.read "" (some items) = .ok x ∧
        linkMembers? code x.members = some native ∧
        ∀ policy, ∃ m,
          (Declaration.discover native.members >>= Module.bind "t" policy).result = .ok m ∧
            m.names = ["render"] ∧
            m.adapters.map (·.params.map Tag.scalar?) = [[some (.int true .w32), some .text]]) ∧
      ∃ x native, expandModule ArgumentList.read "" (some (items ++ [again])) = .ok x ∧
        linkMembers? code x.members = some native ∧
        ∀ policy, (Declaration.discover native.members >>= Module.bind "t" policy).result =
          .error (.duplicateFunction "t" "render") := by
  intro code drawing plain items again
  have hdraw : (⟨"render", "draw", drawing⟩ : Export).Typed ParamType.scalar? := by
    decide +kernel
  have hplain : (⟨"render", "render", plain⟩ : Export).Typed ParamType.scalar? := by
    decide +kernel
  refine ⟨?_, ?_⟩
  · have hexports : exports ArgumentList.read items = [⟨"render", "draw", drawing⟩] := rfl
    have typed : ∀ e ∈ exports ArgumentList.read items, e.Typed ParamType.scalar? := by
      rw [hexports]
      simpa using hdraw
    have hexpand : expandModule ArgumentList.read "" (some items) = .ok _ := rfl
    obtain ⟨native, hlink, hbind⟩ := bind_expanded_module hexpand typed code
    refine ⟨_, native, hexpand, hlink, fun policy => ?_⟩
    obtain ⟨-, hok, -, hbound⟩ := hbind "t" policy (by decide)
    obtain ⟨m, hm⟩ := hok.2 (by rw [hexports]; simp)
    obtain ⟨hnames, -, hparams⟩ := hbound m hm
    refine ⟨m, hm, ?_, ?_⟩
    · rw [hnames, hexports]
      rfl
    · rw [hparams, hexports]
      rfl
  · have hexports : exports ArgumentList.read (items ++ [again]) =
        [⟨"render", "draw", drawing⟩, ⟨"render", "render", plain⟩] := rfl
    have typed : ∀ e ∈ exports ArgumentList.read (items ++ [again]), e.Typed ParamType.scalar? := by
      rw [hexports]
      simpa using ⟨hdraw, hplain⟩
    have hexpand : expandModule ArgumentList.read "" (some (items ++ [again])) = .ok _ := rfl
    obtain ⟨native, hlink, hbind⟩ := bind_expanded_module hexpand typed code
    refine ⟨_, native, hexpand, hlink, fun policy => ?_⟩
    obtain ⟨-, -, herror, -⟩ := hbind "t" policy (by decide)
    refine (herror _).2 ⟨1, "render", ?_, rfl⟩
    rw [hexports]
    exact ⟨rfl, by simp, by simp⟩

/-- Where the types of parameters have their own names only, the tags are those that the names
stand for. -/
theorem bind_module_of_own_names {read : ArgumentReader} {arguments : String} {items : List Item}
    {x : ModuleExpansion} (h : expandModule read arguments (some items) = .ok x)
    (named : ∀ e ∈ exports read items, ∀ i ∈ e.signature.inputs,
      ∃ p s, i.param? = some p ∧ p.Denotes s) (code : NativeCode ρ) :
    ∃ native, linkMembers? code x.members = some native ∧ ∀ space policy, space ≠ "" →
      let names := (exports read items).map (·.name)
      let result := (Declaration.discover native.members >>= Module.bind space policy).result
      ((∃ m, result = .ok m) ↔ names.Nodup) ∧
        (∀ cause, result = .error cause ↔
          ∃ j name, Module.FirstRepeat names j name ∧ cause = .duplicateFunction space name) ∧
        ∀ m, result = .ok m → m.names = names ∧ List.Forall₂ (fun a e =>
          List.Forall₂ (fun t i => ∃ p s, i.param? = some p ∧ p.Denotes s ∧ t = .scalar s)
            a.params e.signature.inputs) m.adapters (exports read items) := by
  have typed : ∀ e ∈ exports read items, e.Typed ParamType.scalar? := fun e he i hi =>
    Input.isSome_scalar?_iff.2 (named e he i hi)
  obtain ⟨native, hlink, hfunctions⟩ := exists_linkMembersBy?_of_expandModule h typed code
  refine ⟨native, hlink, fun space policy hspace => ?_⟩
  intro names result
  have hresult : result = (Module.bind space policy
      ((exports read items).map (Export.link ParamType.scalar? code))).result :=
    result_bind_discovered hfunctions space policy
  rw [hresult]
  refine ⟨Export.exists_result_bind_links_iff hspace,
    fun cause => Export.result_bind_links_eq_error_iff hspace, fun m hm => ?_⟩
  obtain ⟨hnames, hadapters⟩ := Export.bound_links hm
  refine ⟨hnames, ?_⟩
  rw [hadapters, List.forall₂_map_left_iff]
  refine List.forall₂_same.2 fun e he => ?_
  refine List.forall₂_map_left_iff.2 ((typed e he).forall₂_scalars.imp fun s i hs => ?_)
  obtain ⟨p, hp, hdenotes⟩ := Input.scalar?_eq_some_iff.1 hs
  exact ⟨p, s, hp, hdenotes, rfl⟩

end ScriptBridge.Schema
