import ScriptBridge.Proofs.Binding.Bound

/-!
Where the adapters of a bound module come from. A module has a policy of its own: the one that it
was bound under, or the last one that its builder was given. Each adapter under it is made from one
of the functions, for the namespace of the module and with this policy.
-/
namespace ScriptBridge

namespace Module

/-- A module that was bound at once under a policy, or by a builder that ended up with it. -/
inductive BoundUnder (m : Module) (policy : Policy) : Prop where
  | bind {space : String} {fs : List NativeFunction}
      (h : (Module.bind space policy fs).result = .ok m)
  | build {space : String} {steps : List Builder.Step}
      (h : (Module.build space steps).result = .ok m)
      (own : (Builder.lastPolicy steps).getD .lenient = policy)

theorem Bound.exists_boundUnder {m : Module} (h : m.Bound) : ∃ policy, m.BoundUnder policy := by
  cases h with
  | bind h => exact ⟨_, .bind h⟩
  | build h => exact ⟨_, .build h rfl⟩

theorem BoundUnder.bound {m : Module} {policy : Policy} (h : m.BoundUnder policy) : m.Bound := by
  cases h with
  | bind h => exact .bind h
  | build h => exact .build h

theorem BoundUnder.exists_bind {m : Module} {policy : Policy} (h : m.BoundUnder policy) :
    ∃ fs, (Module.bind m.space policy fs).result = .ok m := by
  cases h with
  | @bind space fs h =>
    rw [(boundFrom_of_bind h).2.1]
    exact ⟨fs, h⟩
  | @build space steps h own =>
    rw [build_eq, own] at h
    rw [(boundFrom_of_bind h).2.1]
    exact ⟨steps.flatMap Builder.Step.supply, h⟩

theorem BoundUnder.of_get? {m : Module} {policy : Policy} (h : m.BoundUnder policy) {name : String}
    {a : Adapter} (ha : m.get? name = some a) :
    ∃ f : NativeFunction, f.name = name ∧ a = .ofFunction m.space f policy ∧
      ∀ t ∈ f.params, t.isSupported := by
  obtain ⟨fs, hbind⟩ := h.exists_bind
  obtain ⟨-, -, hfrom⟩ := boundFrom_of_bind hbind
  have hname : a.name = name := by simpa using List.find?_some ha
  have hmem : a ∈ m.adapters := List.mem_of_find?_eq_some ha
  rw [hfrom.adapters_eq] at hmem
  obtain ⟨f, hf, rfl⟩ := List.mem_map.1 hmem
  exact ⟨f, hname, rfl, hfrom.supported f hf⟩

theorem BoundUnder.policy_eq {m : Module} {p q : Policy} (hp : m.BoundUnder p)
    (hq : m.BoundUnder q) {name : String} {a : Adapter} (ha : m.get? name = some a) : p = q := by
  obtain ⟨f, -, rfl, -⟩ := hp.of_get? ha
  obtain ⟨g, -, hg, -⟩ := hq.of_get? ha
  exact congrArg Adapter.policy hg

theorem find?_name {fs : List NativeFunction} (h : (fs.map (·.name)).Nodup) {f : NativeFunction}
    (hf : f ∈ fs) : fs.find? (·.name = f.name) = some f := by
  induction fs with
  | nil => cases hf
  | cons g fs ih =>
    obtain ⟨hfresh, hrest⟩ := List.nodup_cons.1 h
    rcases List.mem_cons.1 hf with rfl | hf
    · simp
    · have hne : g.name ≠ f.name := fun he => hfresh (List.mem_map.2 ⟨f, hf, he.symm⟩)
      simpa [hne] using ih hrest hf

theorem get?_of_bind {space : String} {policy : Policy} {fs : List NativeFunction} {m : Module}
    (h : (Module.bind space policy fs).result = .ok m) {f : NativeFunction} (hf : f ∈ fs) :
    m.get? f.name = some (.ofFunction space f policy) := by
  obtain ⟨-, -, hfrom⟩ := boundFrom_of_bind h
  rw [get?, hfrom.adapters_eq, List.find?_map, Option.map_eq_some_iff]
  exact ⟨f, find?_name hfrom.nodup hf, rfl⟩

end Module

end ScriptBridge
