import ScriptBridge.Proofs.Binding.Origin
import ScriptBridge.Proofs.Host.Bookkeeping
import ScriptBridge.Proofs.Host.Calls

/-!
Where the adapters of an engine come from. Each table is traced to the operation that installed its
namespace last, and every adapter in it to a function that was bound there: it has the name that it
is found under, the identity of its place, parameters that can be bound, and the policy that the
operation gave it.
-/
namespace ScriptBridge.Context

/-- Puts an operation down as the one that installed some namespaces last. -/
def credit (op : Operation) (spaces : List String) (source : String → Option Operation) :
    String → Option Operation :=
  fun space => if space ∈ spaces then some op else source space

/-- The operations that installed each namespace last, after a run of operations on a context. -/
def lastInstallers (c : Context) (source : String → Option Operation) :
    List Operation → String → Option Operation
  | [] => source
  | op :: ops => (c.perform op).context.lastInstallers (credit op (c.installation op) source) ops

/-- What is found in the engine comes from the module of the operation that is on record for its
namespace. -/
structure Traced (c : Context) (policy : Policy) (source : String → Option Operation) : Prop where
  policy_eq : c.config.policy = policy
  of_lookup : ∀ {space name : String} {a : Adapter}, c.engine.lookup space name = .ok a →
    ∃ op ms m, source space = some op ∧ op.modules policy = .ok ms ∧ m ∈ ms ∧ m.Bound ∧
      m.space = space ∧ m.get? name = some a

theorem traced_ofConfig (config : Config) :
    (ofConfig config).Traced config.policy fun _ => none where
  policy_eq := rfl
  of_lookup h := by cases h

variable {c : Context} {policy : Policy} {source : String → Option Operation} {op : Operation}
  {ms : List Module}

theorem Traced.addOne (h : c.Traced policy source) (hop : op.modules policy = .ok ms) {m : Module}
    (hm : m ∈ ms) (hbound : m.Bound) :
    (c.addAll [m]).Traced policy (credit op [m.space] source) where
  policy_eq := h.policy_eq
  of_lookup := by
    intro space name a ha
    change (c.engine.register m).1.lookup space name = .ok a at ha
    by_cases hs : space = m.space
    · subst hs
      rw [(c.engine.register_self hbound.nodup_names).2.2] at ha
      refine ⟨op, ms, m, by simp [credit], hop, hm, hbound, rfl, ?_⟩
      cases hget : m.get? name with
      | none => simp [Engine.lookupIn, hget] at ha
      | some b => simpa [Engine.lookupIn, hget] using ha
    · rw [(c.engine.register_of_ne m hs).2.2] at ha
      simpa [credit, hs] using h.of_lookup ha

theorem credit_cons (op : Operation) (space : String) (spaces : List String)
    (source : String → Option Operation) :
    credit op (space :: spaces) source = credit op spaces (credit op [space] source) := by
  funext other
  by_cases h : other ∈ spaces <;> simp [credit, h]

theorem Traced.addAll (h : c.Traced policy source) (hop : op.modules policy = .ok ms)
    {rest : List Module} (hrest : ∀ m ∈ rest, m ∈ ms ∧ m.Bound) :
    (c.addAll rest).Traced policy (credit op (rest.map Module.space) source) := by
  induction rest generalizing c source with
  | nil => exact ⟨h.policy_eq, h.of_lookup⟩
  | cons m rest ih =>
    obtain ⟨⟨hm, hbound⟩, htail⟩ := List.forall_mem_cons.1 hrest
    rw [addAll_cons, List.map_cons, credit_cons]
    exact ih (h.addOne hop hm hbound) htail

theorem Traced.perform (h : c.Traced policy source) (hop : ∀ m, op = .install m → m.Bound) :
    (c.perform op).context.Traced policy (credit op (c.installation op) source) := by
  rw [installation]
  cases c.transition_perform op with
  | failed result context =>
    rw [result, context]
    exact ⟨h.policy_eq, h.of_lookup⟩
  | closed seals result context =>
    rw [result, context, seals]
    exact ⟨h.policy_eq, h.of_lookup⟩
  | installed unsealed modules result context =>
    obtain ⟨hspaces, hbound⟩ := op.of_modules modules
    rw [h.policy_eq] at modules
    rw [result, context, ← hspaces]
    exact h.addAll modules fun m hm => ⟨hm, (hbound m hm).elim (hop m) Module.BoundUnder.bound⟩

theorem Traced.performAll (h : c.Traced policy source) {ops : List Operation}
    (hops : ∀ m, .install m ∈ ops → m.Bound) :
    (c.performAll ops).Traced policy (c.lastInstallers source ops) := by
  induction ops generalizing c source with
  | nil => exact h
  | cons op ops ih =>
    refine ih (h.perform fun m hm => hops m (hm ▸ List.mem_cons_self)) fun m hm => ?_
    exact hops m (List.mem_cons_of_mem _ hm)

/-- The policy of an adapter that an operation has put into an engine under a namespace and a name:
a module that came bound keeps its own, and everything else gets the configured one. -/
def Operation.Settles (op : Operation) (configured : Policy) (space name : String)
    (a : Adapter) : Prop :=
  match op with
  | .install m =>
    m.space = space ∧ m.get? name = some a ∧ ∀ own, m.BoundUnder own ↔ own = a.policy
  | _ => a.policy = configured

theorem Traced.of_adapter (h : c.Traced policy source) {space name : String} {a : Adapter}
    (ha : c.engine.lookup space name = .ok a) :
    a.name = name ∧ a.id = .ofFunction space name a.params ∧ (∀ t ∈ a.params, t.isSupported) ∧
      ∃ op, source space = some op ∧ op.Settles policy space name a := by
  obtain ⟨op, ms, m, hsource, hop, hm, hbound, rfl, hget⟩ := h.of_lookup ha
  obtain ⟨own, hown⟩ := hbound.exists_boundUnder
  obtain ⟨f, rfl, rfl, hparams⟩ := hown.of_get? hget
  refine ⟨rfl, rfl, hparams, op, hsource, ?_⟩
  have hsame : ∀ p, m.BoundUnder p ↔ p = own := by
    intro p
    constructor
    · intro hp
      exact hp.policy_eq hown hget
    · rintro rfl
      exact hown
  rcases (op.of_modules hop).2 m hm with rfl | hconfigured
  · exact ⟨rfl, hget, hsame⟩
  · have hpolicy : own = policy := ((hsame policy).1 hconfigured).symm
    cases op with
    | install n =>
      cases hop
      cases List.mem_singleton.1 hm
      exact ⟨rfl, hget, hsame⟩
    | _ => exact hpolicy

/-- After any run of operations, whatever an engine finds under a name was made for that name in
that namespace, of parameters that can be bound. It has the configured policy, or the own policy of
its module where a bound module was what was last installed there. So decoding for it never comes
upon a type that cannot cross the boundary, and a call through the engine that fails so was told so
by the function that it ran. -/
theorem lookup_performAll (config : Config) {ops : List Operation}
    (h : ∀ m, .install m ∈ ops → m.Bound) :
    let e := ((ofConfig config).performAll ops).engine
    (∀ space name a, e.lookup space name = .ok a →
      a.name = name ∧ a.id = .ofFunction space name a.params ∧ (∀ t ∈ a.params, t.isSupported) ∧
        (∃ op, (ofConfig config).lastInstallers (fun _ => none) ops space = some op ∧
          op.Settles config.policy space name a) ∧
        ∀ source : Source, (Tag.decodeAll source a.policy 1 a.params).NeverUnsupported) ∧
      ∀ (frame : Frame) (space name : String) (t : Tag),
        (e.callIn space name frame).result =
            .error (.native space name (.decode (.unsupported t))) ∨
          (∃ path, (e.call path frame).result =
            .error (.native space name (.decode (.unsupported t)))) →
        ∃ a values, e.lookup space name = .ok a ∧
          (a.body ⟨values⟩).result = .error (.decode (.unsupported t)) := by
  intro e
  have hrun := (traced_ofConfig config).performAll h
  refine ⟨fun space name a ha => ?_, fun frame space name t hcall => ?_⟩
  · obtain ⟨hname, hid, hparams, hop⟩ := hrun.of_adapter ha
    exact ⟨hname, hid, hparams, hop, fun source => Tag.decodeAll_neverUnsupported hparams source _⟩
  · have hnative : ∃ a, e.lookup space name = .ok a ∧
        (a.invoke frame.source).result = .error (.decode (.unsupported t)) := by
      rcases hcall with hcall | ⟨path, hcall⟩
      · exact Engine.of_callIn_native hcall
      · exact Engine.of_call_native hcall
    obtain ⟨a, ha, hinvoke⟩ := hnative
    obtain ⟨values, hbody⟩ := Adapter.of_invoke_unsupported (hrun.of_adapter ha).2.2.1 hinvoke
    exact ⟨a, values, ha, hbody⟩

/-- A table that a bound module takes over, and one that the context binds over a stock module. An
operation on the closed context is not on record. -/
theorem lookup_after_takeover :
    let f : NativeFunction := ⟨"f", [.scalar .text, .scalar (.int true .w16)], fun _ => pure ()⟩
    let m : Module := ⟨"t", [.ofFunction "t" f .strict]⟩
    let ops : List Operation := [.installFunctions "t" [f], .installStock, .install m,
      .installNative "log" ⟨[.constant "k", .function f]⟩, .sealUp, .installFunctions "t" []]
    let e := ((ofConfig .default).performAll ops).engine
    (∀ m, .install m ∈ ops → m.Bound) ∧
      (∃ a, e.lookup "t" "f" = .ok a ∧ a.id = .ofFunction "t" "f" f.params ∧ a.policy = .strict) ∧
      ∃ a, e.lookup "log" "f" = .ok a ∧ a.id = .ofFunction "log" "f" f.params ∧
        a.policy = .lenient := by
  intro f m ops e
  have hbuild :
      (Module.build "t" [.policy .lenient, .function f, .policy .strict]).result = .ok m := rfl
  have bound : ∀ n, .install n ∈ ops → n.Bound := by
    intro n hn
    simp only [ops, List.mem_cons, List.not_mem_nil, or_false, Operation.install.injEq,
      reduceCtorEq, false_or] at hn
    subst hn
    exact .build hbuild
  obtain ⟨hadapter, -⟩ := lookup_performAll .default bound
  obtain ⟨-, hid, -, ⟨op, hop, hpolicy⟩, -⟩ := hadapter "t" "f" (.ofFunction "t" f .strict) rfl
  obtain ⟨-, hid', -, ⟨op', hop', hpolicy'⟩, -⟩ :=
    hadapter "log" "f" (.ofFunction "log" f .lenient) rfl
  cases hop
  cases hop'
  exact ⟨bound, ⟨_, rfl, hid, ((hpolicy.2.2 .strict).1 (.build hbuild rfl)).symm⟩,
    _, rfl, hid', hpolicy'⟩

end ScriptBridge.Context
