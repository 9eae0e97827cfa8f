import Mathlib.Data.List.Basic
import Mathlib.Data.List.Induction
import Mathlib.Logic.Function.Basic
import ScriptBridge.Host.Engine
import ScriptBridge.Proofs.Binding.Bound

/-!
The engine as a map from namespaces to modules. Registering a bound module puts it over the one
before it in the map, and after any run of registrations every answer of the engine is read off the
last module of a namespace.
-/
namespace ScriptBridge

namespace Table

theorem order_foldl_add (as : List Adapter) (t : Table) :
    (as.foldl add t).order = t.order ++ as.map (·.name) := by
  induction as generalizing t with
  | nil => exact (List.append_nil _).symm
  | cons a as ih => rw [List.foldl_cons, ih, add, List.map_cons, List.append_assoc]; rfl

theorem order_ofAdapters (as : List Adapter) : (ofAdapters as).order = as.map (·.name) :=
  order_foldl_add as empty

theorem get?_foldl_add (as : List Adapter) (t : Table) (name : String) :
    (as.foldl add t).adapters.get? name =
      (as.reverse.find? (·.name = name)).or (t.adapters.get? name) := by
  induction as generalizing t with
  | nil => rfl
  | cons a as ih =>
    rw [List.foldl_cons, ih, add, Dictionary.get?_insert, List.reverse_cons, List.find?_append,
      Option.or_assoc]
    by_cases ha : a.name = name
    · rw [if_pos ha.symm, List.find?_cons, decide_eq_true ha]
      rfl
    · rw [if_neg (Ne.symm ha), List.find?_cons, decide_eq_false ha]
      rfl

theorem get?_ofAdapters (as : List Adapter) (name : String) :
    (ofAdapters as).adapters.get? name = as.reverse.find? (·.name = name) := by
  rw [ofAdapters, get?_foldl_add, empty, Dictionary.get?_empty, Option.or_none]

theorem find?_reverse_of_nodup {as : List Adapter} (h : (as.map (·.name)).Nodup) (name : String) :
    as.reverse.find? (·.name = name) = as.find? (·.name = name) := by
  induction as with
  | nil => rfl
  | cons a as ih =>
    obtain ⟨hfresh, hrest⟩ := List.nodup_cons.1 h
    rw [List.reverse_cons, List.find?_append, ih hrest, List.find?_cons]
    by_cases ha : a.name = name
    · have hnone : as.find? (·.name = name) = none := by
        refine List.find?_eq_none.2 fun b hb hname => hfresh ?_
        change a.name ∈ _
        rw [ha, ← of_decide_eq_true hname]
        exact List.mem_map_of_mem hb
      rw [hnone, List.find?_cons, decide_eq_true ha]
      rfl
    · rw [List.find?_cons, decide_eq_false ha]
      exact Option.or_none

end Table

namespace Engine

def registerAll (e : Engine) (ms : List Module) : Engine := ms.foldl (fun e m => (e.register m).1) e

theorem registerAll_concat (e : Engine) (ms : List Module) (m : Module) :
    e.registerAll (ms ++ [m]) = ((e.registerAll ms).register m).1 := List.foldl_concat ..

theorem registerAll_append (e : Engine) (ms ns : List Module) :
    e.registerAll (ms ++ ns) = (e.registerAll ms).registerAll ns := List.foldl_append ..

def lookupIn (space name : String) : Option Module → Except EngineError Adapter
  | none => .error (.unknownNamespace space)
  | some m =>
    match m.get? name with
    | none => .error (.unknownFunction space name)
    | some a => .ok a

/-- The answers of an engine about its namespaces are those of a map from namespaces to modules. -/
structure Refines (e : Engine) (modules : String → Option Module) : Prop where
  hasNamespace_eq : ∀ space, e.hasNamespace space = (modules space).isSome
  functionNames?_eq : ∀ space, e.functionNames? space = (modules space).map Module.names
  lookup_eq : ∀ space name, e.lookup space name = lookupIn space name (modules space)

theorem mem_namespaces_iff (e : Engine) (space : String) :
    space ∈ e.namespaces ↔ e.hasNamespace space := by
  rw [namespaces, List.mem_mergeSort, Dictionary.mem_keys_iff, hasNamespace]

theorem nodup_namespaces (e : Engine) : e.namespaces.Nodup :=
  (List.mergeSort_perm _ _).nodup_iff.2 e.globals.distinct

theorem pairwise_namespaces (e : Engine) : e.namespaces.Pairwise (· < ·) := by
  have htrans : ∀ a b c : String, decide (a ≤ b) → decide (b ≤ c) → decide (a ≤ c) := by
    intro a b c hab hbc
    exact decide_eq_true (String.le_trans (of_decide_eq_true hab) (of_decide_eq_true hbc))
  have htotal : ∀ a b : String, decide (a ≤ b) || decide (b ≤ a) := by
    intro a b
    rw [Bool.or_eq_true, decide_eq_true_eq, decide_eq_true_eq]
    exact String.le_total a b
  have hle : e.namespaces.Pairwise (· ≤ ·) :=
    (List.pairwise_mergeSort htrans htotal e.globals.keys).imp of_decide_eq_true
  refine (hle.and e.nodup_namespaces).imp fun {a b} ⟨hab, hne⟩ => ?_
  exact Decidable.byContradiction fun hlt => hne (String.le_antisymm hab (String.not_lt.1 hlt))

theorem refines_empty : empty.Refines fun _ => none :=
  ⟨fun _ => rfl, fun _ => rfl, fun _ _ => rfl⟩

theorem get?_register (e : Engine) (m : Module) (space : String) :
    (e.register m).1.globals.get? space =
      if space = m.space then some (.ofAdapters m.adapters) else e.globals.get? space :=
  Dictionary.get?_insert _ _ _ _

theorem register_of_ne (e : Engine) (m : Module) {space : String} (h : space ≠ m.space) :
    (e.register m).1.hasNamespace space = e.hasNamespace space ∧
      (e.register m).1.functionNames? space = e.functionNames? space ∧
      ∀ name, (e.register m).1.lookup space name = e.lookup space name := by
  have hget : (e.register m).1.globals.get? space = e.globals.get? space := by
    rw [get?_register, if_neg h]
  simp only [hasNamespace, Dictionary.contains, functionNames?, lookup, hget, implies_true,
    and_self]

theorem register_self (e : Engine) {m : Module} (h : m.names.Nodup) :
    (e.register m).1.hasNamespace m.space = true ∧
      (e.register m).1.functionNames? m.space = some m.names ∧
      ∀ name, (e.register m).1.lookup m.space name = lookupIn m.space name (some m) := by
  have hget : (e.register m).1.globals.get? m.space = some (.ofAdapters m.adapters) := by
    rw [get?_register, if_pos rfl]
  refine ⟨?_, ?_, fun name => ?_⟩
  · rw [hasNamespace, Dictionary.contains, hget]
    rfl
  · rw [functionNames?, hget, Option.map_some, Table.order_ofAdapters, Module.names]
  · have hfind : (Table.ofAdapters m.adapters).adapters.get? name = m.get? name :=
      (Table.get?_ofAdapters m.adapters name).trans (Table.find?_reverse_of_nodup h name)
    cases hname : m.get? name with
    | none => simp only [lookup, hget, hfind, hname, lookupIn]
    | some a => simp only [lookup, hget, hfind, hname, lookupIn]

theorem Refines.register {e : Engine} {modules : String → Option Module} (h : e.Refines modules)
    {m : Module} (hm : m.Bound) :
    (e.register m).1.Refines (Function.update modules m.space (some m)) := by
  obtain ⟨hhas, hnames, hlookup⟩ := e.register_self hm.nodup_names
  refine ⟨fun space => ?_, fun space => ?_, fun space name => ?_⟩ <;> by_cases hs : space = m.space
  · rw [hs, hhas, Function.update_self, Option.isSome_some]
  · rw [(e.register_of_ne m hs).1, h.hasNamespace_eq, Function.update_of_ne hs]
  · rw [hs, hnames, Function.update_self, Option.map_some]
  · rw [(e.register_of_ne m hs).2.1, h.functionNames?_eq, Function.update_of_ne hs]
  · rw [hs, hlookup, Function.update_self]
  · rw [(e.register_of_ne m hs).2.2, h.lookup_eq, Function.update_of_ne hs]

def lastUnder (ms : List Module) (space : String) : Option Module :=
  (ms.filter (·.space = space)).getLast?

theorem lastUnder_concat (ms : List Module) (m : Module) :
    lastUnder (ms ++ [m]) = Function.update (lastUnder ms) m.space (some m) := by
  funext space
  rw [lastUnder, List.filter_append, Function.update_apply, List.filter_singleton]
  by_cases h : space = m.space
  · rw [if_pos h, decide_eq_true h.symm]
    exact List.getLast?_concat
  · rw [if_neg h, decide_eq_false (Ne.symm h)]
    exact congrArg List.getLast? (List.append_nil _)

theorem get?_registerAll (ms : List Module) (space : String) :
    (empty.registerAll ms).globals.get? space =
      (lastUnder ms space).map fun m => .ofAdapters m.adapters := by
  induction ms using List.reverseRecOn with
  | nil => rfl
  | append_singleton ms m ih =>
    rw [registerAll_concat, get?_register, lastUnder_concat, Function.update_apply, ih]
    split <;> rfl

/-- The adapter that was put up last under a namespace and a name, if the last module of the
namespace has any for the name. -/
def latest? (ms : List Module) (space name : String) : Option Adapter :=
  (lastUnder ms space).bind fun m => m.adapters.reverse.find? (·.name = name)

theorem lookup_registerAll (ms : List Module) (space name : String) :
    (empty.registerAll ms).lookup space name =
      match lastUnder ms space, latest? ms space name with
      | none, _ => .error (.unknownNamespace space)
      | some _, none => .error (.unknownFunction space name)
      | some _, some a => .ok a := by
  rw [lookup, get?_registerAll, latest?]
  cases lastUnder ms space with
  | none => rfl
  | some m =>
    simp only [Option.map_some, Option.bind_some, Table.get?_ofAdapters]
    cases m.adapters.reverse.find? (·.name = name) <;> rfl

theorem lookup_eq_ok_iff {ms : List Module} {space name : String} {a : Adapter} :
    (empty.registerAll ms).lookup space name = .ok a ↔ latest? ms space name = some a := by
  rw [lookup_registerAll]
  cases hlast : lastUnder ms space with
  | none => simp [latest?, hlast]
  | some m => cases latest? ms space name <;> simp

theorem name_eq_of_latest? {ms : List Module} {space name : String} {a : Adapter}
    (h : latest? ms space name = some a) : a.name = name := by
  obtain ⟨m, -, hfind⟩ := Option.bind_eq_some_iff.1 h
  simpa using List.find?_some hfind

/-- After a run of registrations the engine answers for the last module of each namespace. -/
theorem refines_registerAll {ms : List Module} (h : ∀ m ∈ ms, m.Bound) :
    (empty.registerAll ms).Refines (lastUnder ms) := by
  induction ms using List.reverseRecOn with
  | nil => exact refines_empty
  | append_singleton ms m ih =>
    rw [registerAll_concat, lastUnder_concat]
    exact (ih fun n hn => h n (List.mem_append_left _ hn)).register
      (h m (List.mem_append_right _ List.mem_cons_self))

theorem isSome_lastUnder (ms : List Module) (space : String) :
    (lastUnder ms space).isSome ↔ ∃ m ∈ ms, m.space = space := by
  rw [lastUnder, List.getLast?_isSome, ne_eq, List.filter_eq_nil_iff]
  simp only [decide_eq_true_eq, not_forall, not_not, exists_prop]

/-- After bound modules were registered one after the other, an engine that was empty answers as a
map would that keeps the last module of each namespace. Nothing is left of the modules before it,
and another registration changes nothing outside its own namespace. -/
theorem registerAll_answers_for_last {ms : List Module} (h : ∀ m ∈ ms, m.Bound) :
    (∀ space, (empty.registerAll ms).hasNamespace space ↔ ∃ m ∈ ms, m.space = space) ∧
      (∀ space, (empty.registerAll ms).functionNames? space =
        (lastUnder ms space).map Module.names) ∧
      (∀ space m policy fs, lastUnder ms space = some m →
        (Module.bind space policy fs).result = .ok m →
          (empty.registerAll ms).functionNames? space = some (fs.map (·.name))) ∧
      (∀ space name, (empty.registerAll ms).lookup space name =
        match lastUnder ms space with
        | none => .error (.unknownNamespace space)
        | some m =>
          match m.get? name with
          | none => .error (.unknownFunction space name)
          | some a => .ok a) ∧
      (empty.registerAll ms).namespaces.Pairwise (· < ·) ∧
      (∀ space, space ∈ (empty.registerAll ms).namespaces ↔ ∃ m ∈ ms, m.space = space) ∧
      ∀ (m : Module) (space : String), space ≠ m.space →
        ((empty.registerAll ms).register m).1.hasNamespace space =
            (empty.registerAll ms).hasNamespace space ∧
          ((empty.registerAll ms).register m).1.functionNames? space =
            (empty.registerAll ms).functionNames? space ∧
          ∀ name, ((empty.registerAll ms).register m).1.lookup space name =
            (empty.registerAll ms).lookup space name := by
  have hrun := refines_registerAll h
  have hhas : ∀ space, (empty.registerAll ms).hasNamespace space ↔ ∃ m ∈ ms, m.space = space := by
    intro space
    rw [hrun.hasNamespace_eq, isSome_lastUnder]
  refine ⟨hhas, hrun.functionNames?_eq, ?_, hrun.lookup_eq, pairwise_namespaces _, ?_, ?_⟩
  · intro space m policy fs hlast hbind
    rw [hrun.functionNames?_eq, hlast, Option.map_some, Module.names_eq_of_bind hbind]
  · intro space
    rw [mem_namespaces_iff, hhas]
  · intro m space hne
    exact register_of_ne _ m hne

/-- A namespace that is registered twice keeps the function of the second module only. -/
theorem registerAll_replaces_table :
    let f : NativeFunction := ⟨"f", [.scalar .text], fun _ => pure ()⟩
    let g : NativeFunction := ⟨"g", [], fun _ => pure ()⟩
    let ms : List Module := [⟨"t", [.ofFunction "t" f .lenient]⟩, ⟨"s", []⟩,
      ⟨"t", [.ofFunction "t" g .strict]⟩]
    (∀ m ∈ ms, m.Bound) ∧
      (empty.registerAll ms).functionNames? "t" = some ["g"] ∧
      (empty.registerAll ms).lookup "t" "f" = .error (.unknownFunction "t" "f") ∧
      (empty.registerAll ms).lookup "t" "g" = .ok (.ofFunction "t" g .strict) ∧
      "s" ∈ (empty.registerAll ms).namespaces := by
  intro f g ms
  have bound : ∀ m ∈ ms, m.Bound := by
    intro m hm
    simp only [ms, List.mem_cons, List.not_mem_nil, or_false] at hm
    rcases hm with rfl | rfl | rfl
    · exact .bind (rfl : (Module.bind "t" .lenient [f]).result = _)
    · exact .bind (rfl : (Module.bind "s" .lenient []).result = _)
    · exact .bind (rfl : (Module.bind "t" .strict [g]).result = _)
  obtain ⟨-, -, hnames, hlookup, -, hmem, -⟩ := registerAll_answers_for_last bound
  exact ⟨bound, hnames "t" _ .strict [g] rfl rfl, hlookup "t" "f", hlookup "t" "g",
    (hmem "s").2 ⟨⟨"s", []⟩, by simp [ms], rfl⟩⟩

end Engine

end ScriptBridge
