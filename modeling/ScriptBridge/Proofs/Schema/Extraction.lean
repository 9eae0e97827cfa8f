import ScriptBridge.Proofs.Schema.Callable
import ScriptBridge.Proofs.Schema.Reader

/-!
What a module body expands to. Its public items of nine kinds that no entry skips are listed in
order, each under its script name, and the script attributes of all items of these kinds are taken
off. The body is refused for the first item with a fault, where only the public items of these kinds
can have one: in an attribute, or else in the signature of a function that is not skipped.
-/
namespace ScriptBridge.Schema

/-- What is wrong with an entry. A key that is a path of several words is not shown. -/
inductive Entry.Fault (e : Entry) : Problem → Prop
  | noValue {message : String} (key : e.key? = some "name") (value : e.value = .error message) :
      Fault e (.malformed message)
  | afterValue {s message : String} (key : e.key? = some "name") (value : e.value = .ok s)
      (after : e.afterValue = some message) : Fault e (.malformed message)
  | afterSkip {message : String} (key : e.key? = some "skip")
      (after : e.afterKey = some message) : Fault e (.malformed message)
  | unknown (not_name : e.key? ≠ some "name") (not_skip : e.key? ≠ some "skip") :
      Fault e (.unknownScriptKey (e.key?.getD ""))

/-- What is wrong with a list of arguments: its first entry with a fault, or else the place where no
entry begins. -/
inductive ArgumentList.Fault (l : ArgumentList) : Problem → Prop
  | entry {p : Problem} (first : FirstFault Entry.Fault l.entries p) : Fault l p
  | stop {message : String} (sound : ∀ e ∈ l.entries, ∀ p, ¬e.Fault p)
      (stop : l.stop = some message) : Fault l (.malformed message)

inductive Attribute.Fault (read : ArgumentReader) (a : Attribute) : Problem → Prop
  | bare (script : a.path = "script") (form : a.form = .bare) : Fault read a .missingParentheses
  | value {tokens : List Token} (script : a.path = "script") (form : a.form = .value tokens) :
      Fault read a .valueForParentheses
  | arguments {tokens : List Token} {p : Problem} (script : a.path = "script")
      (form : a.form = .list tokens) (fault : (read tokens).Fault p) : Fault read a p

namespace ScriptOptions

variable {read : ArgumentReader} {o : ScriptOptions} {a : Attribute} {as : List Attribute}
  {p : Problem}

theorem passUnless_eq_error_iff {message? : Option String} :
    o.passUnless message? = .error p ↔
      ∃ message, message? = some message ∧ p = .malformed message := by
  cases message? <;> simp [passUnless, eq_comm]

theorem takeEntry_eq_error_iff {e : Entry} : o.takeEntry e = .error p ↔ e.Fault p := by
  rw [takeEntry]
  constructor
  · intro h
    split at h
    · rename_i key
      split at h
      · rename_i message value
        cases h
        exact .noValue key value
      · rename_i s value
        obtain ⟨message, after, rfl⟩ := passUnless_eq_error_iff.1 h
        exact .afterValue key value after
    · rename_i not_name
      split at h
      · rename_i key
        obtain ⟨message, after, rfl⟩ := passUnless_eq_error_iff.1 h
        exact .afterSkip key after
      · rename_i not_skip
        cases h
        exact .unknown not_name not_skip
  · intro h
    cases h with
    | noValue key value => rw [if_pos key, value]
    | afterValue key value after =>
      rw [if_pos key, value, after]
      rfl
    | afterSkip key after =>
      have not_name : e.key? ≠ some "name" := by
        rw [key]
        decide
      rw [if_neg not_name, if_pos key, after]
      rfl
    | unknown not_name not_skip => rw [if_neg not_name, if_neg not_skip]

theorem takeEntries_eq_error_iff {es : List Entry} :
    o.takeEntries es = .error p ↔ FirstFault Entry.Fault es p := by
  induction es generalizing o with
  | nil => exact ok_eq_error_iff_firstFault_nil
  | cons e es ih =>
    exact bind_eq_error_iff_firstFault (fun q => takeEntry_eq_error_iff) fun o' _ => ih

theorem takeArguments_eq_error_iff {l : ArgumentList} :
    o.takeArguments l = .error p ↔ l.Fault p := by
  have hsound : (∃ o', o.takeEntries l.entries = .ok o') ↔ ∀ e ∈ l.entries, ∀ q, ¬e.Fault q := by
    simp only [exists_eq_ok_iff, ne_eq, takeEntries_eq_error_iff, forall_not_firstFault_iff]
  rw [takeArguments, bind_eq_error_iff, takeEntries_eq_error_iff]
  constructor
  · rintro (first | ⟨o', hentries, hstop⟩)
    · exact .entry first
    · obtain ⟨message, stop, rfl⟩ := passUnless_eq_error_iff.1 hstop
      exact .stop (hsound.1 ⟨o', hentries⟩) stop
  · intro h
    cases h with
    | entry first => exact .inl first
    | stop sound stop =>
      obtain ⟨o', hentries⟩ := hsound.2 sound
      exact .inr ⟨o', hentries, passUnless_eq_error_iff.2 ⟨_, stop, rfl⟩⟩

theorem takeAttribute_eq_error_iff : o.takeAttribute read a = .error p ↔ a.Fault read p := by
  rw [takeAttribute]
  by_cases script : a.path = "script"
  · have hscript : (!a.isScript) = false := by simpa [Attribute.isScript] using script
    rw [hscript, if_neg Bool.false_ne_true]
    cases form : a.form with
    | bare =>
      refine ⟨fun h => ?_, fun h => ?_⟩
      · cases h
        exact .bare script form
      · cases h with
        | bare => rfl
        | value _ value => cases form.symm.trans value
        | arguments _ list => cases form.symm.trans list
    | value tokens =>
      refine ⟨fun h => ?_, fun h => ?_⟩
      · cases h
        exact .value script form
      · cases h with
        | bare _ bare => cases form.symm.trans bare
        | value => rfl
        | arguments _ list => cases form.symm.trans list
    | list tokens =>
      refine takeArguments_eq_error_iff.trans
        ⟨fun fault => .arguments script form fault, fun h => ?_⟩
      cases h with
      | bare _ bare => cases form.symm.trans bare
      | value _ value => cases form.symm.trans value
      | arguments _ list fault =>
        cases form.symm.trans list
        exact fault
  · have hscript : (!a.isScript) = true := by simpa [Attribute.isScript] using script
    rw [hscript, if_pos rfl]
    constructor
    · intro h
      cases h
    · intro h
      cases h <;> contradiction

theorem ofAttributes_eq_error_iff :
    ofAttributes read as = .error p ↔ FirstFault (Attribute.Fault read) as p := by
  rw [ofAttributes]
  generalize empty = o
  induction as generalizing o with
  | nil => exact ok_eq_error_iff_firstFault_nil
  | cons a as ih =>
    exact bind_eq_error_iff_firstFault (fun q => takeAttribute_eq_error_iff) fun o' _ => ih o'

end ScriptOptions

namespace Item

inductive IsDeclaration : ItemKind → Prop
  | function (s : Signature) : IsDeclaration (.function s)
  | constant : IsDeclaration .constant
  | static : IsDeclaration .static
  | struct : IsDeclaration .struct
  | enum : IsDeclaration .enum
  | union : IsDeclaration .union
  | alias : IsDeclaration .alias
  | trait : IsDeclaration .trait
  | module : IsDeclaration .module

/-- The items that are looked at: those of the nine kinds with no other visibility than public. -/
def IsExposed (i : Item) : Prop := IsDeclaration i.kind ∧ i.visibility = "pub"

/-- The name of an item under settings: the last one that they give, or else its own. -/
def nameUnder (i : Item) (settings : List Setting) : String :=
  (settings.filterMap Setting.name?).getLast?.getD i.name

/-- An item with the member that it is declared as under a name. -/
inductive Declares (i : Item) (name : String) : MemberSchema → Prop
  | function {s : Signature} {f : FunctionSchema} (kind : i.kind = .function s)
      (name_eq : f.name = name) (target : f.target = i.name)
      (params : List.Forall₂ Input.Enters s.inputs f.params) : Declares i name (.function f)
  | constant (kind : i.kind = .constant ∨ i.kind = .static) : Declares i name (.constant name)
  | module (kind : i.kind = .module) : Declares i name (.module name)
  | type (kind : i.kind = .struct ∨ i.kind = .enum ∨ i.kind = .union ∨ i.kind = .alias ∨
      i.kind = .trait) : Declares i name (.type name)

/-- What an item adds to the members: nothing if it is not looked at or one of its settings is to
skip it, and otherwise the declaration of it. -/
inductive Contributes (i : Item) : Option MemberSchema → Prop
  | unexposed (not_exposed : ¬i.IsExposed) : Contributes i none
  | skipped {settings : List Setting} (exposed : i.IsExposed)
      (asks : Asks i.attributes settings) (skip : .skip ∈ settings) : Contributes i none
  | listed {settings : List Setting} {m : MemberSchema} (exposed : i.IsExposed)
      (asks : Asks i.attributes settings) (kept : .skip ∉ settings)
      (declares : i.Declares (i.nameUnder settings) m) : Contributes i (some m)

/-- What is wrong with an item: one of its attributes, or its signature if the function is not
skipped. Nothing is wrong with items that are not looked at. -/
inductive Fault (read : ArgumentReader) (i : Item) : Problem → Prop
  | inAttributes {p : Problem} (exposed : i.IsExposed)
      (first : FirstFault (Attribute.Fault read) i.attributes p) : Fault read i p
  | inSignature {settings : List Setting} {s : Signature} {p : Problem} (exposed : i.IsExposed)
      (asks : Asks i.attributes settings) (kept : .skip ∉ settings) (kind : i.kind = .function s)
      (violation : s.Violation p) : Fault read i p

/-- An item that is looked at can be read: its script attributes are settings, and its signature can
be called unless it is skipped or no function. -/
structure IsReadable (i : Item) : Prop where
  asks : ∃ settings, Asks i.attributes settings
  callable : ∀ settings, Asks i.attributes settings → .skip ∉ settings →
    ∀ s, i.kind = .function s → s.IsCallable

/-- An item with what is left of it after the expansion. Those of the nine kinds lose their script
attributes, and nothing else of an item is touched. -/
structure Leaves (i left : Item) : Prop where
  stripped : IsDeclaration i.kind →
    left = { i with attributes := i.attributes.filter (·.path ≠ "script") }
  kept : ¬IsDeclaration i.kind → left = i

variable {read : ArgumentReader} {i : Item} {m : MemberSchema} {m? : Option MemberSchema}
  {p : Problem}

theorem isMember_iff {k : ItemKind} : k.isMember = true ↔ IsDeclaration k := by
  constructor
  · intro h
    cases k <;> first | constructor | cases h
  · intro h
    cases h <;> rfl

theorem isExposed_iff : (!i.kind.isMember || !i.isPublic) = false ↔ i.IsExposed := by
  rw [Bool.or_eq_false_iff, Bool.not_eq_false', Bool.not_eq_false', isMember_iff, isPublic,
    beq_iff_eq, IsExposed]

instance (i : Item) : Decidable i.IsExposed := decidable_of_iff _ isExposed_iff

theorem memberNamed_eq_error_iff {name : String} :
    i.memberNamed name = .error p ↔ ∃ s, i.kind = .function s ∧ s.Violation p := by
  rw [memberNamed]
  cases i.kind with
  | function s =>
    refine (map_eq_error_iff.trans Signature.schema_eq_error_iff).trans ?_
    simp
  | _ => simp

theorem declares_of_memberNamed {name : String} (exposed : i.IsExposed)
    (h : i.memberNamed name = .ok m) : i.Declares name m := by
  rw [memberNamed] at h
  cases kind : i.kind with
  | function s =>
    rw [kind] at h
    obtain ⟨f, hf, rfl⟩ := ok_of_map h
    have hschema := Signature.schemaOf hf
    exact .function kind hschema.name_eq hschema.target_eq
      (Signature.forall₂_enters_of_map hschema.params_eq)
  | constant =>
    rw [kind] at h
    cases h
    exact .constant (.inl kind)
  | static =>
    rw [kind] at h
    cases h
    exact .constant (.inr kind)
  | module =>
    rw [kind] at h
    cases h
    exact .module kind
  | _ =>
    have declaration : IsDeclaration i.kind := exposed.1
    rw [kind] at h declaration
    cases h
    exact .type (by cases declaration <;> simp [kind])

theorem member?_of_not_exposed (h : ¬i.IsExposed) : i.member? read = .ok none := by
  rw [member?, eq_true_of_ne_false (mt isExposed_iff.1 h), if_pos rfl]

theorem member?_of_exposed (h : i.IsExposed) : i.member? read =
    (do let options ← ScriptOptions.ofAttributes read i.attributes
        if options.skip then .ok none
        else (i.memberNamed (options.name.getD i.name)).map some) := by
  rw [member?, isExposed_iff.2 h, if_neg Bool.false_ne_true]

theorem member?_of_asks (h : read.IsDocumented) (exposed : i.IsExposed) {settings : List Setting}
    (asks : Asks i.attributes settings) : i.member? read =
      if .skip ∈ settings then .ok none
      else (i.memberNamed (i.nameUnder settings)).map some := by
  rw [member?_of_exposed exposed,
    (ScriptOptions.ofAttributes_eq_ok_iff h).2 ⟨settings, asks, rfl⟩]
  by_cases skip : .skip ∈ settings
  · simp only [skip]
    rfl
  · simp only [skip]
    rfl

theorem member?_eq_error_iff (h : read.IsDocumented) :
    i.member? read = .error p ↔ i.Fault read p := by
  by_cases exposed : i.IsExposed
  · constructor
    · intro hmember
      rw [member?_of_exposed exposed, bind_eq_error_iff,
        ScriptOptions.ofAttributes_eq_error_iff] at hmember
      rcases hmember with first | ⟨o, ho, hrest⟩
      · exact .inAttributes exposed first
      · obtain ⟨settings, asks, rfl⟩ := (ScriptOptions.ofAttributes_eq_ok_iff h).1 ho
        by_cases skip : .skip ∈ settings
        · simp [skip] at hrest
        · simp only [skip, decide_false, Bool.false_eq_true, if_false] at hrest
          obtain ⟨s, kind, violation⟩ := memberNamed_eq_error_iff.1 (map_eq_error_iff.1 hrest)
          exact .inSignature exposed asks skip kind violation
    · intro hfault
      cases hfault with
      | inAttributes _ first =>
        rw [member?_of_exposed exposed, bind_eq_error_iff,
          ScriptOptions.ofAttributes_eq_error_iff]
        exact .inl first
      | inSignature _ asks kept kind violation =>
        rw [member?_of_asks h exposed asks, if_neg kept, map_eq_error_iff,
          memberNamed_eq_error_iff]
        exact ⟨_, kind, violation⟩
  · rw [member?_of_not_exposed exposed]
    refine ⟨nofun, fun h => ?_⟩
    cases h with
    | inAttributes h => exact absurd h exposed
    | inSignature h => exact absurd h exposed

theorem contributes_of_member? (h : read.IsDocumented) (hmember : i.member? read = .ok m?) :
    i.Contributes m? := by
  by_cases exposed : i.IsExposed
  · have hread := hmember
    rw [member?_of_exposed exposed] at hread
    obtain ⟨o, ho, -⟩ := ok_of_bind hread
    obtain ⟨settings, asks, -⟩ := (ScriptOptions.ofAttributes_eq_ok_iff h).1 ho
    rw [member?_of_asks h exposed asks] at hmember
    split at hmember
    · rename_i skip
      cases hmember
      exact .skipped exposed asks skip
    · rename_i kept
      obtain ⟨m, hm, rfl⟩ := ok_of_map hmember
      exact .listed exposed asks kept (declares_of_memberNamed exposed hm)
  · rw [member?_of_not_exposed exposed] at hmember
    cases hmember
    exact .unexposed exposed

theorem Contributes.eq_none (h : i.Contributes m?) (not_exposed : ¬i.IsExposed) : m? = none := by
  cases h with
  | unexposed => rfl
  | skipped => rfl
  | listed exposed => exact absurd exposed not_exposed

theorem Contributes.eq_none_of_skip {settings : List Setting} (h : i.Contributes m?)
    (asks : Asks i.attributes settings) (skip : .skip ∈ settings) : m? = none := by
  cases h with
  | unexposed => rfl
  | skipped => rfl
  | listed _ asks' kept => exact absurd (asks.unique asks' ▸ skip) kept

theorem Contributes.exists_declares {settings : List Setting} (h : i.Contributes m?)
    (exposed : i.IsExposed) (asks : Asks i.attributes settings) (kept : .skip ∉ settings) :
    ∃ m, i.Declares (i.nameUnder settings) m ∧ m? = some m := by
  cases h with
  | unexposed not_exposed => exact absurd exposed not_exposed
  | skipped _ asks' skip => exact absurd (asks'.unique asks ▸ skip) kept
  | listed _ asks' _ declares =>
    cases asks.unique asks'
    exact ⟨_, declares, rfl⟩

theorem exists_member?_iff (h : read.IsDocumented) :
    (∃ m?, i.member? read = .ok m?) ↔ (i.IsExposed → i.IsReadable) := by
  constructor
  · rintro ⟨m?, hmember⟩ exposed
    have hread := hmember
    rw [member?_of_exposed exposed] at hread
    obtain ⟨o, ho, -⟩ := ok_of_bind hread
    obtain ⟨settings, asks, -⟩ := (ScriptOptions.ofAttributes_eq_ok_iff h).1 ho
    refine ⟨⟨settings, asks⟩, fun other hother kept s kind => ?_⟩
    refine Signature.forall_not_violation_iff.1 fun p violation => ?_
    have herror := (member?_eq_error_iff h).2 (.inSignature exposed hother kept kind violation)
    cases hmember.symm.trans herror
  · intro hread
    rw [exists_eq_ok_iff]
    intro p hmember
    cases (member?_eq_error_iff h).1 hmember with
    | inAttributes exposed first =>
      obtain ⟨settings, asks⟩ := (hread exposed).asks
      have herror := ScriptOptions.ofAttributes_eq_error_iff.2 first
      cases ((ScriptOptions.ofAttributes_eq_ok_iff h).2 ⟨settings, asks, rfl⟩).symm.trans herror
    | inSignature exposed asks kept kind violation =>
      have hcallable := (hread exposed).callable _ asks kept _ kind
      exact Signature.forall_not_violation_iff.2 hcallable p violation

theorem forall_not_fault_iff (h : read.IsDocumented) :
    (∀ p, ¬i.Fault read p) ↔ (i.IsExposed → i.IsReadable) := by
  rw [← exists_member?_iff h, exists_eq_ok_iff]
  simp only [ne_eq, member?_eq_error_iff h]

theorem leaves_strip (i : Item) : i.Leaves i.strip where
  stripped h := by
    rw [strip, if_pos (isMember_iff.2 h)]
    refine congrArg (fun attributes => { i with attributes }) (List.filter_congr fun a _ => ?_)
    rw [Attribute.isScript, decide_not]
    rfl
  kept h := if_neg (mt isMember_iff.1 h)

end Item

variable {read : ArgumentReader} {items : List Item} {ms : List MemberSchema} {p : Problem}

theorem members_eq_error_iff (h : read.IsDocumented) :
    members read items = .error p ↔ FirstFault (Item.Fault read) items p := by
  induction items with
  | nil => exact ok_eq_error_iff_firstFault_nil
  | cons i items ih =>
    exact bind_eq_error_iff_firstFault (fun q => Item.member?_eq_error_iff h) fun m? _ =>
      bind_ok_eq_error_iff.trans ih

theorem contributes_of_members (h : read.IsDocumented) (hmembers : members read items = .ok ms) :
    ∃ contributed, List.Forall₂ Item.Contributes items contributed ∧
      ms = contributed.filterMap id := by
  induction items generalizing ms with
  | nil =>
    cases hmembers
    exact ⟨[], .nil, rfl⟩
  | cons i items ih =>
    obtain ⟨m?, hmember, hrest⟩ := ok_of_bind hmembers
    obtain ⟨ms', hms', hcons⟩ := ok_of_bind hrest
    cases hcons
    obtain ⟨contributed, hcontributed, rfl⟩ := ih hms'
    refine ⟨m? :: contributed, .cons (Item.contributes_of_member? h hmember) hcontributed, ?_⟩
    cases m? <;> rfl

theorem forM_wellPlaced (h : ∀ i ∈ items, i.wellPlaced = .ok ()) :
    items.forM Item.wellPlaced = .ok () := by
  induction items with
  | nil => rfl
  | cons i items ih =>
    obtain ⟨hi, hrest⟩ := List.forall_mem_cons.1 h
    change (i.wellPlaced >>= fun _ => items.forM Item.wellPlaced) = _
    rw [hi]
    exact ih hrest

/-- A module body expands exactly if every item that is looked at has script attributes that are
lists of settings and, unless it is skipped or no function, a signature that scripts can call. Its
members then are those that its items contribute, in order, and of its items only the script
attributes are taken off, from those of the nine kinds. Otherwise the fault of the first item that
has any is reported. An annotated module of items that can be read is expanded in this way. -/
theorem expandItems_by_declaration (h : read.IsDocumented) (items : List Item) :
    ((∃ x, expandItems read items = .ok x) ↔ ∀ i ∈ items, i.IsExposed → i.IsReadable) ∧
      (∀ x, expandItems read items = .ok x →
        (∃ contributed, List.Forall₂ Item.Contributes items contributed ∧
          x.members = contributed.filterMap id) ∧
        List.Forall₂ Item.Leaves items x.items ∧ x.added = [
          ⟨"fn", "__declarations", ["doc"]⟩, ⟨"struct", "Exports", ["doc"]⟩,
          ⟨"impl", "Exports", []⟩]) ∧
      (∀ p, expandItems read items = .error p ↔ FirstFault (Item.Fault read) items p) ∧
      ((∀ i ∈ items, i.wellPlaced = .ok ()) →
        expandModule read "" (some items) = expandItems read items) := by
  have herror : ∀ p, expandItems read items = .error p ↔
      FirstFault (Item.Fault read) items p := by
    intro p
    rw [expandItems, bind_ok_eq_error_iff, members_eq_error_iff h]
  refine ⟨?_, fun x hx => ?_, herror, fun hplaced => ?_⟩
  · simp only [exists_eq_ok_iff, ne_eq, herror, forall_not_firstFault_iff,
      Item.forall_not_fault_iff h]
  · obtain ⟨ms, hmembers, hexpansion⟩ := ok_of_bind hx
    cases hexpansion
    refine ⟨contributes_of_members h hmembers, ?_, rfl⟩
    exact List.forall₂_map_right_iff.2 (List.forall₂_same.2 fun i _ => i.leaves_strip)
  · rw [expandModule, if_neg (by decide)]
    change (items.forM Item.wellPlaced >>= fun _ => expandItems read items) = _
    rw [forM_wellPlaced hplaced]
    rfl

/-- A bad attribute does no harm where it is not looked at, and a generic function none where it is
skipped. Of several names the last one stands, and other attributes stay. A fault in an attribute
comes before one in the signature, with the message that the reader has for the place. -/
theorem expandItems_with_hidden_faults :
    let generic : Signature := ⟨["T"], none, false, false, []⟩
    let plain : Signature := ⟨[], none, false, false, [.typed (.path "u8")]⟩
    let bare : Attribute := ⟨"script", .bare⟩
    let named : String → Attribute := fun s =>
      ⟨"script", .list [.word "name", .mark '=' false, .text s]⟩
    let doc : Attribute := ⟨"doc", .value [.text " Draws."]⟩
    let use : Item := ⟨.use, "std::fmt", "pub", [bare], []⟩
    let hidden : Item := ⟨.function generic, "hidden", "pub(crate)", [bare], [.group "{}"]⟩
    let helper : Item := ⟨.function generic, "helper", "pub",
      [⟨"script", .list [.word "skip", .mark ',' false]⟩], [.group "{}"]⟩
    let draw : Item :=
      ⟨.function plain, "draw", "pub", [named "paint", doc, named "render"], [.group "{}"]⟩
    let items : List Item := [use, hidden, helper, draw]
    let broken : List Token → Item := fun tokens =>
      ⟨.function generic, "broken", "pub", [⟨"script", .list tokens⟩], [.group "{}"]⟩
    let expand : List Item → Except Problem ModuleExpansion := expandItems ArgumentList.read
    (∃ x f, expand items = .ok x ∧ x.members = [.function f] ∧ f.name = "render" ∧
        f.target = "draw" ∧ x.items = [use, { hidden with attributes := [] },
          { helper with attributes := [] }, { draw with attributes := [doc] }]) ∧
      expand (items ++ [broken [.word "name"]]) = .error (.malformed "expected `=`") ∧
      expand (items ++ [broken [.text "x"]]) =
        .error (.malformed "unexpected literal in nested attribute, expected ident") ∧
      expand (items ++ [broken [.word "name", .mark '=' false, .text "x", .text "y"]]) =
        .error (.malformed "expected `,`") := by
  intro generic plain bare named doc use hidden helper draw items broken expand
  have hplain : plain.IsCallable := by
    refine ⟨rfl, rfl, rfl, rfl, fun i hi => ⟨_, List.mem_singleton.1 hi, ?_⟩⟩
    exact (TypeExpr.isSome_param?_iff _).1 (by decide +kernel)
  have hskip : Asks helper.attributes [.skip] :=
    .cons (.script rfl rfl (.cons .skip false .nil)) .nil
  have hnamed : ∀ s, (named s).Sets [.name s] := fun s =>
    .script rfl rfl (.last (.name false s))
  have hdraw : Asks draw.attributes [.name "paint", .name "render"] :=
    .cons (hnamed "paint") (.cons (.other (by decide)) (.cons (hnamed "render") .nil))
  have huse : ¬use.IsExposed := fun exposed => nomatch exposed.1
  have hhidden : ¬hidden.IsExposed := fun exposed => absurd exposed.2 (by decide)
  have hread : ∀ i ∈ items, i.IsExposed → i.IsReadable := by
    simp only [items, List.forall_mem_cons, List.not_mem_nil, false_imp_iff, forall_true_iff,
      and_true]
    refine ⟨fun exposed => absurd exposed huse, fun exposed => absurd exposed hhidden, fun _ => ?_,
      fun _ => ?_⟩
    · refine ⟨⟨_, hskip⟩, fun settings asks kept => ?_⟩
      exact absurd (hskip.unique asks ▸ List.mem_singleton_self _) kept
    · refine ⟨⟨_, hdraw⟩, fun settings _ _ s kind => ?_⟩
      cases kind
      exact hplain
  have hbroken : ∀ tokens p, (ArgumentList.read tokens).Fault p →
      expand (items ++ [broken tokens]) = .error p := by
    intro tokens p fault
    obtain ⟨-, -, hrefused, -⟩ :=
      expandItems_by_declaration ArgumentList.documented_read (items ++ [broken tokens])
    refine (hrefused p).2 ⟨items, broken tokens, [], rfl, .inAttributes ⟨.function generic, rfl⟩ ?_,
      fun i hi => (Item.forall_not_fault_iff ArgumentList.documented_read).2 (hread i hi)⟩
    exact ⟨[], _, [], rfl, .arguments rfl rfl fault, by simp⟩
  obtain ⟨haccepted, hlisted, -⟩ := expandItems_by_declaration ArgumentList.documented_read items
  refine ⟨?_, hbroken _ _ ?_, hbroken _ _ ?_, hbroken _ _ ?_⟩
  · obtain ⟨x, hx⟩ := haccepted.2 hread
    obtain ⟨⟨contributed, hcontributed, hmembers⟩, hleaves, -⟩ := hlisted x hx
    simp only [items, List.forall₂_cons_left_iff, List.forall₂_nil_left_iff] at hcontributed hleaves
    obtain ⟨_, _, fromUse, ⟨_, _, fromHidden, ⟨_, _, fromHelper, ⟨_, _, fromDraw, rfl, rfl⟩, rfl⟩,
      rfl⟩, rfl⟩ := hcontributed
    obtain ⟨_, _, leavesUse, ⟨_, _, leavesHidden, ⟨_, _, leavesHelper, ⟨_, _, leavesDraw, rfl, rfl⟩,
      rfl⟩, rfl⟩, hitems⟩ := hleaves
    rw [leavesUse.kept nofun, leavesHidden.stripped (.function generic),
      leavesHelper.stripped (.function generic), leavesDraw.stripped (.function plain)] at hitems
    obtain ⟨m, declares, rfl⟩ := fromDraw.exists_declares ⟨.function plain, rfl⟩ hdraw (by simp)
    rw [fromUse.eq_none huse, fromHidden.eq_none hhidden,
      fromHelper.eq_none_of_skip hskip (List.mem_singleton_self _)] at hmembers
    cases declares with
    | function kind name_eq target => exact ⟨x, _, hx, hmembers, name_eq, target, hitems⟩
    | constant kind => simp [draw] at kind
    | module kind => simp [draw] at kind
    | type kind => simp [draw] at kind
  · exact .entry ⟨[], _, [], rfl, .noValue rfl rfl, by simp⟩
  · exact .stop nofun rfl
  · exact .entry ⟨[], _, [], rfl, .afterValue rfl rfl rfl, by simp⟩

end ScriptBridge.Schema
