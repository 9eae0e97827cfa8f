import ScriptBridge.Host.Context
import ScriptBridge.Proofs.Binding.Origin
import ScriptBridge.Proofs.Host.Registry

/-!
What the operations of a context do. Each of them either fails and leaves the context as it was, or
closes it, or registers modules in it that are known from the operation and the policy alone.
-/
namespace ScriptBridge.Context

theorem performAll_append (c : Context) (ops later : List Operation) :
    c.performAll (ops ++ later) = (c.performAll ops).performAll later := List.foldl_append

def addAll (c : Context) (ms : List Module) : Context :=
  { c with
    engine := c.engine.registerAll ms
    installed := (ms.map Module.space).foldl remember c.installed }

theorem addAll_cons (c : Context) (m : Module) (ms : List Module) :
    c.addAll (m :: ms) = (c.addAll [m]).addAll ms := rfl

/-- The modules that an operation registers if it can bind them. -/
def Operation.modules (policy : Policy) : Operation → Except BindError (List Module)
  | .install m => .ok [m]
  | .installFunctions space fs => (Module.bind space policy fs).result.map fun m => [m]
  | .installNative space m =>
    (Module.bind space policy (m.members.filterMap Declaration.function?)).result.map fun m => [m]
  | .installStock => (Stock.modules policy).result
  | .sealUp => .ok []

def Operation.spaces : Operation → List String
  | .install m => [m.space]
  | .installFunctions space _ => [space]
  | .installNative space _ => [space]
  | .installStock => ["std", "log"]
  | .sealUp => []

theorem of_stock_modules {policy : Policy} {ms : List Module}
    (h : (Stock.modules policy).result = .ok ms) :
    ms.map Module.space = ["std", "log"] ∧ ∀ m ∈ ms, m.BoundUnder policy := by
  obtain ⟨console, hconsole, hrest⟩ := Run.bind_eq_ok h
  obtain ⟨logger, hlogger, hlist⟩ := Run.bind_eq_ok hrest
  cases hlist
  refine ⟨?_, fun m hm => ?_⟩
  · rw [List.map_cons, List.map_cons, List.map_nil, Module.space_eq_of_build hconsole,
      Module.space_eq_of_build hlogger]
  · rcases List.mem_cons.1 hm with rfl | hm
    · exact .build hconsole rfl
    · cases List.mem_singleton.1 hm
      exact .build hlogger rfl

theorem of_map_bind {space : String} {policy : Policy} {fs : List NativeFunction}
    {ms : List Module} (h : (Module.bind space policy fs).result.map (fun m => [m]) = .ok ms) :
    ms.map Module.space = [space] ∧ ∀ m ∈ ms, m.BoundUnder policy := by
  cases hbind : (Module.bind space policy fs).result with
  | error cause =>
    rw [hbind] at h
    cases h
  | ok m =>
    rw [hbind] at h
    cases h
    refine ⟨congrArg (fun s => [s]) (Module.boundFrom_of_bind hbind).2.1, fun n hn => ?_⟩
    cases List.mem_singleton.1 hn
    exact .bind hbind

theorem Operation.of_modules {op : Operation} {policy : Policy} {ms : List Module}
    (h : op.modules policy = .ok ms) :
    ms.map Module.space = op.spaces ∧ ∀ m ∈ ms, op = .install m ∨ m.BoundUnder policy := by
  cases op with
  | install m =>
    cases h
    refine ⟨rfl, fun n hn => .inl ?_⟩
    rw [List.mem_singleton.1 hn]
  | installFunctions space fs => exact (of_map_bind h).imp_right fun hms m hm => .inr (hms m hm)
  | installNative space m => exact (of_map_bind h).imp_right fun hms n hn => .inr (hms n hn)
  | installStock => exact (of_stock_modules h).imp_right fun hms m hm => .inr (hms m hm)
  | sealUp =>
    cases h
    exact ⟨rfl, fun n hn => by cases hn⟩

theorem install_of_open {c : Context} (h : c.isSealed = false) (m : Module) :
    c.install m = ⟨c.addAll [m], (c.engine.register m).2, .ok ()⟩ := by
  rw [install, if_neg (by simp [h])]
  rfl

theorem installAll_of_open {c : Context} (h : c.isSealed = false) (ms : List Module) :
    (c.installAll ms).context = c.addAll ms ∧ (c.installAll ms).result = .ok () := by
  induction ms generalizing c with
  | nil => exact ⟨rfl, rfl⟩
  | cons m ms ih =>
    rw [installAll, install_of_open h, addAll_cons]
    exact ih h

theorem installAll_of_sealed {c : Context} (h : c.isSealed = true) {ms : List Module}
    (hms : ms ≠ []) : c.installAll ms = ⟨c, [], .error .alreadySealed⟩ := by
  cases ms with
  | nil => exact absurd rfl hms
  | cons m ms => rw [installAll, install, if_pos h, Outcome.andThen]

inductive Transition (c : Context) (op : Operation) (o : Outcome) : Prop where
  | failed {cause : ContextError} (result : o.result = .error cause) (context : o.context = c)
  | closed (seals : op = .sealUp) (result : o.result = .ok ())
      (context : o.context = { c with isSealed := true })
  | installed {ms : List Module} (unsealed : c.isSealed = false)
      (modules : op.modules c.config.policy = .ok ms) (result : o.result = .ok ())
      (context : o.context = c.addAll ms)

section

variable {c : Context} {op : Operation} {o : Outcome} (hspaces : op.spaces ≠ [])
include hspaces

theorem transition_installAll {ms : List Module} (h : op.modules c.config.policy = .ok ms)
    (hcontext : o.context = (c.installAll ms).context)
    (hresult : o.result = (c.installAll ms).result) : c.Transition op o := by
  cases hs : c.isSealed with
  | false =>
    obtain ⟨hc, hr⟩ := installAll_of_open hs ms
    exact .installed hs h (hresult.trans hr) (hcontext.trans hc)
  | true =>
    have hms : ms ≠ [] := by
      rintro rfl
      exact hspaces (Operation.of_modules h).1.symm
    rw [installAll_of_sealed hs hms] at hcontext hresult
    exact .failed hresult hcontext

theorem transition_installRun {run : Run BindError (List Module)}
    (h : run.result = op.modules c.config.policy)
    (hcontext : o.context = (c.installRun run).context)
    (hresult : o.result = (c.installRun run).result) : c.Transition op o := by
  rw [installRun] at hcontext hresult
  cases hrun : run.result with
  | error cause =>
    rw [hrun] at hcontext hresult
    exact .failed hresult hcontext
  | ok ms =>
    rw [hrun] at hcontext hresult
    exact transition_installAll hspaces (h.symm.trans hrun) hcontext hresult

theorem transition_installFunctions {space : String} {fs : List NativeFunction}
    (h : (Module.bind space c.config.policy fs).result.map (fun m => [m]) =
      op.modules c.config.policy)
    (hcontext : o.context = (c.installFunctions space fs).context)
    (hresult : o.result = (c.installFunctions space fs).result) : c.Transition op o := by
  cases hs : c.isSealed with
  | true =>
    rw [installFunctions, if_pos hs] at hcontext hresult
    exact .failed hresult hcontext
  | false =>
    rw [installFunctions, if_neg (by simp [hs])] at hcontext hresult
    exact transition_installRun hspaces h hcontext hresult

end

/-- Every operation fails without a trace in the context, or does what it is for. -/
theorem transition_perform (c : Context) (op : Operation) : c.Transition op (c.perform op) := by
  cases op with
  | install m =>
    have hone : (c.install m).context = (c.installAll [m]).context ∧
        (c.install m).result = (c.installAll [m]).result := by
      simp only [installAll, install]
      cases c.isSealed <;> exact ⟨rfl, rfl⟩
    exact transition_installAll (List.cons_ne_nil _ _) rfl hone.1 hone.2
  | installFunctions space fs =>
    exact transition_installFunctions (List.cons_ne_nil _ _) rfl rfl rfl
  | installNative space m =>
    exact transition_installFunctions (List.cons_ne_nil _ _) rfl rfl rfl
  | installStock =>
    exact transition_installRun (List.cons_ne_nil _ _) (rfl : (Stock.modules _).result = _) rfl rfl
  | sealUp => exact .closed rfl rfl rfl

end ScriptBridge.Context
