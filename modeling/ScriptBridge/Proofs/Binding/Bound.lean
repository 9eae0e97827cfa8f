import ScriptBridge.Proofs.Binding.Steps

/-!
What a bound module is made of. Its namespace has a name, its adapters are those of the functions it
was bound from, in their order, and no two of them have a name in common.
-/
namespace ScriptBridge

theorem Tag.firstUnsupported?_eq_none {position : Nat} {ts : List Tag}
    (h : Tag.firstUnsupported? position ts = none) : ∀ t ∈ ts, t.isSupported := by
  induction ts generalizing position with
  | nil => intro t ht; cases ht
  | cons t ts ih =>
    rw [Tag.firstUnsupported?] at h
    split at h
    · rename_i hs
      intro u hu
      rcases List.mem_cons.1 hu with rfl | hu
      · exact hs
      · exact ih h u hu
    · cases h

theorem Tag.firstUnsupported?_of_supported {ts : List Tag} (h : ∀ t ∈ ts, t.isSupported)
    (position : Nat) : Tag.firstUnsupported? position ts = none := by
  induction ts generalizing position with
  | nil => rfl
  | cons t ts ih =>
    obtain ⟨ht, hrest⟩ := List.forall_mem_cons.1 h
    rw [Tag.firstUnsupported?, if_pos ht]
    exact ih hrest (position + 1)

theorem Adapter.generate_eq_ok {space : String} {policy : Policy} {f : NativeFunction} {a : Adapter}
    (h : (Adapter.generate space policy f).result = .ok a) :
    a = .ofFunction space f policy ∧ ∀ t ∈ f.params, t.isSupported := by
  simp only [Adapter.generate] at h
  split at h
  · cases h
  · rename_i hnone
    exact ⟨(Except.ok.inj h).symm, Tag.firstUnsupported?_eq_none hnone⟩

theorem Adapter.result_generate {f : NativeFunction} (h : ∀ t ∈ f.params, t.isSupported)
    (space : String) (policy : Policy) :
    (Adapter.generate space policy f).result = .ok (.ofFunction space f policy) := by
  rw [generate, Tag.firstUnsupported?_of_supported h]
  rfl

namespace Module

structure BoundFrom (space : String) (policy : Policy) (seen : List String)
    (fs : List NativeFunction) (as : List Adapter) : Prop where
  adapters_eq : as = fs.map (Adapter.ofFunction space · policy)
  nodup : (fs.map (·.name)).Nodup
  fresh : ∀ f ∈ fs, f.name ∉ seen
  supported : ∀ f ∈ fs, ∀ t ∈ f.params, t.isSupported

theorem boundFrom_of_bindEach {space : String} {policy : Policy} {seen : List String}
    {fs : List NativeFunction} {as : List Adapter}
    (h : (bindEach space policy seen fs).result = .ok as) :
    BoundFrom space policy seen fs as := by
  induction fs generalizing seen as with
  | nil =>
    cases h
    refine ⟨rfl, List.nodup_nil, ?_, ?_⟩ <;> intro f hf <;> cases hf
  | cons f fs ih =>
    rw [bindEach] at h
    split at h
    · cases h
    · rename_i hseen
      obtain ⟨a, hgen, hrest⟩ := Run.bind_eq_ok h
      obtain ⟨rest, heach, hcons⟩ := Run.bind_eq_ok hrest
      obtain ⟨rfl, hparams⟩ := Adapter.generate_eq_ok hgen
      cases hcons
      have hih := ih heach
      refine ⟨by rw [hih.adapters_eq, List.map_cons], ?_, ?_, ?_⟩
      · rw [List.map_cons, List.nodup_cons]
        refine ⟨fun hmem => ?_, hih.nodup⟩
        obtain ⟨g, hg, hname⟩ := List.mem_map.1 hmem
        exact hih.fresh g hg (by rw [hname]; exact List.mem_cons_self)
      · intro g hg
        rcases List.mem_cons.1 hg with rfl | hg
        · exact hseen
        · exact fun hmem => hih.fresh g hg (List.mem_cons_of_mem _ hmem)
      · intro g hg
        rcases List.mem_cons.1 hg with rfl | hg
        · exact hparams
        · exact hih.supported g hg

theorem boundFrom_of_bind {space : String} {policy : Policy} {fs : List NativeFunction} {m : Module}
    (h : (bind space policy fs).result = .ok m) :
    space ≠ "" ∧ m.space = space ∧ BoundFrom space policy [] fs m.adapters := by
  simp only [bind] at h
  split at h
  · cases h
  · rename_i hspace
    obtain ⟨as, heach, hrest⟩ := Run.bind_eq_ok h
    obtain ⟨u, -, hm⟩ := Run.bind_eq_ok hrest
    cases hm
    exact ⟨hspace, rfl, boundFrom_of_bindEach heach⟩

theorem result_bindEach {fs : List NativeFunction} {space : String} {policy : Policy}
    {seen : List String} (supported : ∀ f ∈ fs, ∀ t ∈ f.params, t.isSupported)
    (nodup : (fs.map (·.name)).Nodup) (fresh : ∀ f ∈ fs, f.name ∉ seen) :
    (bindEach space policy seen fs).result = .ok (fs.map (Adapter.ofFunction space · policy)) := by
  induction fs generalizing seen with
  | nil => rfl
  | cons f fs ih =>
    obtain ⟨hf, hsupported⟩ := List.forall_mem_cons.1 supported
    obtain ⟨hnew, hnodup⟩ := List.nodup_cons.1 nodup
    obtain ⟨hseen, hfresh⟩ := List.forall_mem_cons.1 fresh
    have hnext : ∀ g ∈ fs, g.name ∉ f.name :: seen := by
      intro g hg hmem
      rcases List.mem_cons.1 hmem with hname | hmem
      · exact hnew (List.mem_map.2 ⟨g, hg, hname⟩)
      · exact hfresh g hg hmem
    rw [bindEach, if_neg hseen, Run.result_bind (Adapter.result_generate hf space policy),
      Run.result_bind (ih hsupported hnodup hnext)]
    rfl

theorem result_bind {fs : List NativeFunction} {space : String} (hspace : space ≠ "")
    (supported : ∀ f ∈ fs, ∀ t ∈ f.params, t.isSupported) (nodup : (fs.map (·.name)).Nodup)
    (policy : Policy) :
    (bind space policy fs).result =
      .ok ⟨space, fs.map (Adapter.ofFunction space · policy)⟩ := by
  rw [bind, if_neg hspace, Run.result_bind (result_bindEach supported nodup (by simp))]
  rfl

theorem space_eq_of_build {space : String} {steps : List Builder.Step} {m : Module}
    (h : (build space steps).result = .ok m) : m.space = space := by
  rw [build_eq] at h
  exact (boundFrom_of_bind h).2.1

inductive Bound (m : Module) : Prop where
  | bind {space : String} {policy : Policy} {fs : List NativeFunction}
      (h : (Module.bind space policy fs).result = .ok m)
  | build {space : String} {steps : List Builder.Step}
      (h : (Module.build space steps).result = .ok m)

theorem Bound.exists_bind {m : Module} (h : m.Bound) :
    ∃ policy fs, (Module.bind m.space policy fs).result = .ok m := by
  have of_bind : ∀ {space policy fs}, (Module.bind space policy fs).result = .ok m →
      ∃ policy fs, (Module.bind m.space policy fs).result = .ok m := by
    intro space policy fs h
    rw [(boundFrom_of_bind h).2.1]
    exact ⟨policy, fs, h⟩
  cases h with
  | bind h => exact of_bind h
  | build h =>
    rw [build_eq] at h
    exact of_bind h

theorem Bound.space_ne_empty {m : Module} (h : m.Bound) : m.space ≠ "" := by
  obtain ⟨policy, fs, hbind⟩ := h.exists_bind
  exact (boundFrom_of_bind hbind).1

theorem names_eq_of_bind {space : String} {policy : Policy} {fs : List NativeFunction} {m : Module}
    (h : (bind space policy fs).result = .ok m) : m.names = fs.map (·.name) := by
  rw [names, (boundFrom_of_bind h).2.2.adapters_eq, List.map_map]
  rfl

theorem Bound.nodup_names {m : Module} (h : m.Bound) : m.names.Nodup := by
  obtain ⟨policy, fs, hbind⟩ := h.exists_bind
  rw [names_eq_of_bind hbind]
  exact (boundFrom_of_bind hbind).2.2.nodup

end Module

end ScriptBridge
