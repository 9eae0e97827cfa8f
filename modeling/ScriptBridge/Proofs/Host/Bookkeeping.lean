import Mathlib.Data.List.Nodup
import ScriptBridge.Proofs.Host.Operations

/-!
The namespaces that a context remembers are those of its engine. The invariant ties the remembered
list to the history of successful installations, of which it keeps the first of each namespace, and
every operation preserves it, whether it succeeds, replaces a table or fails.
-/
namespace ScriptBridge.Context

theorem mem_remember {installed : List String} {space other : String} :
    other ∈ remember installed space ↔ other ∈ installed ∨ other = space := by
  simp only [remember]
  split
  · rename_i h
    constructor
    · exact Or.inl
    · rintro (hother | rfl)
      · exact hother
      · exact h
  · rw [List.mem_append, List.mem_singleton]

theorem nodup_remember {installed : List String} (h : installed.Nodup) (space : String) :
    (remember installed space).Nodup := by
  simp only [remember]
  split
  · exact h
  · rename_i hnew
    exact List.nodup_append.2 ⟨h, List.nodup_singleton _, fun a ha b hb hab =>
      hnew (List.mem_singleton.1 hb ▸ hab ▸ ha)⟩

theorem remember_eraseDups (history : List String) (space : String) :
    remember history.eraseDups space = (history ++ [space]).eraseDups := by
  rw [List.eraseDups_append, List.removeAll, List.filter_singleton, remember]
  by_cases h : space ∈ history
  · rw [if_pos (List.mem_eraseDups.2 h), List.elem_eq_true_of_mem h]
    exact (List.append_nil _).symm
  · have helem : history.elem space = false := by
      rw [List.elem_eq_contains, List.contains_eq_mem, decide_eq_false h]
    rw [if_neg (fun hmem => h (List.mem_eraseDups.1 hmem)), helem]
    rfl

/-- A context whose remembered namespaces are those of its engine, in the order in which they first
came up in the history. -/
structure Bookkept (c : Context) (history : List String) : Prop where
  installed_eq : c.installed = history.eraseDups
  nodup : c.installed.Nodup
  mem_iff : ∀ space, space ∈ c.installed ↔ c.engine.hasNamespace space
  ne_empty : "" ∉ c.installed

theorem bookkept_ofConfig (config : Config) : (ofConfig config).Bookkept [] where
  installed_eq := rfl
  nodup := List.nodup_nil
  mem_iff _ := iff_of_false List.not_mem_nil Bool.false_ne_true
  ne_empty := List.not_mem_nil

theorem Bookkept.addOne {c : Context} {history : List String} (h : c.Bookkept history) {m : Module}
    (hm : m.Bound) : (c.addAll [m]).Bookkept (history ++ [m.space]) where
  installed_eq := by
    change remember c.installed m.space = _
    rw [h.installed_eq, remember_eraseDups]
  nodup := nodup_remember h.nodup m.space
  mem_iff space := by
    change space ∈ remember c.installed m.space ↔ (c.engine.register m).1.hasNamespace space
    rw [mem_remember, h.mem_iff]
    by_cases hs : space = m.space
    · rw [hs, (c.engine.register_self hm.nodup_names).1]
      exact iff_of_true (.inr rfl) rfl
    · rw [(c.engine.register_of_ne m hs).1]
      exact or_iff_left hs
  ne_empty hempty := by
    rcases mem_remember.1 hempty with hold | hnew
    · exact h.ne_empty hold
    · exact hm.space_ne_empty hnew.symm

theorem Bookkept.addAll {c : Context} {history : List String} (h : c.Bookkept history)
    {ms : List Module} (hms : ∀ m ∈ ms, m.Bound) :
    (c.addAll ms).Bookkept (history ++ ms.map Module.space) := by
  induction ms generalizing c history with
  | nil =>
    rw [List.map_nil, List.append_nil]
    exact h
  | cons m ms ih =>
    obtain ⟨hm, hrest⟩ := List.forall_mem_cons.1 hms
    rw [addAll_cons, List.map_cons, List.append_cons]
    exact ih (h.addOne hm) hrest

def installation (c : Context) (op : Operation) : List String :=
  match (c.perform op).result with
  | .ok () => op.spaces
  | .error _ => []

def installations (c : Context) : List Operation → List String
  | [] => []
  | op :: ops => c.installation op ++ (c.perform op).context.installations ops

theorem Bookkept.perform {c : Context} {history : List String} (h : c.Bookkept history)
    {op : Operation} (hop : ∀ m, op = .install m → m.Bound) :
    (c.perform op).context.Bookkept (history ++ c.installation op) := by
  rw [installation]
  cases c.transition_perform op with
  | failed result context =>
    rw [result, context, List.append_nil]
    exact h
  | closed seals result context =>
    rw [result, context, seals, Operation.spaces, List.append_nil]
    exact ⟨h.installed_eq, h.nodup, h.mem_iff, h.ne_empty⟩
  | installed unsealed modules result context =>
    obtain ⟨hspaces, hbound⟩ := op.of_modules modules
    rw [result, context, ← hspaces]
    exact h.addAll fun m hm => (hbound m hm).elim (hop m) Module.BoundUnder.bound

theorem Bookkept.performAll {c : Context} {history : List String} (h : c.Bookkept history)
    {ops : List Operation} (hops : ∀ m, .install m ∈ ops → m.Bound) :
    (c.performAll ops).Bookkept (history ++ c.installations ops) := by
  induction ops generalizing c history with
  | nil =>
    rw [installations, List.append_nil]
    exact h
  | cons op ops ih =>
    have hstep : (c.perform op).context.Bookkept (history ++ c.installation op) :=
      h.perform fun m hm => hops m (hm ▸ List.mem_cons_self)
    rw [installations, ← List.append_assoc]
    exact ih hstep fun m hm => hops m (List.mem_cons_of_mem _ hm)

theorem Bookkept.count_eq {c : Context} {history : List String} (h : c.Bookkept history) :
    c.count = c.engine.namespaces.length := by
  have hnodup := List.perm_ext_iff_of_nodup h.nodup c.engine.nodup_namespaces
  refine (hnodup.2 fun space => ?_).length_eq
  rw [h.mem_iff, Engine.mem_namespaces_iff]

/-- After any run of operations on a new context, some of them failing, the context remembers the
namespaces of its engine without repetition, in the order of their first successful installation.
Until it is closed it takes every bound module, which takes the table of its namespace over and
leaves the list as it is if the namespace is there. -/
theorem performAll_bookkeeping (config : Config) {ops : List Operation}
    (h : ∀ m, .install m ∈ ops → m.Bound) :
    let c := (ofConfig config).performAll ops
    c.installed.Nodup ∧
      (∀ space, space ∈ c.installed ↔ space ∈ c.engine.namespaces) ∧
      (∀ space, space ∈ c.installed ↔ c.engine.hasNamespace space) ∧
      c.installed = ((ofConfig config).installations ops).eraseDups ∧
      c.count = c.engine.namespaces.length ∧
      "" ∉ c.engine.namespaces ∧
      ∀ m : Module, m.Bound → c.isSealed = false →
        (c.install m).result = .ok () ∧
          (c.install m).context.engine.functionNames? m.space = some m.names ∧
          (m.space ∈ c.installed → (c.install m).context.installed = c.installed) := by
  intro c
  have hrun : c.Bookkept ((ofConfig config).installations ops) :=
    (bookkept_ofConfig config).performAll h
  have hmem : ∀ space, space ∈ c.installed ↔ space ∈ c.engine.namespaces := by
    intro space
    rw [hrun.mem_iff, Engine.mem_namespaces_iff]
  refine ⟨hrun.nodup, hmem, hrun.mem_iff, hrun.installed_eq, hrun.count_eq, ?_, ?_⟩
  · exact fun hempty => hrun.ne_empty ((hmem "").2 hempty)
  · intro m hm hopen
    have hinstall : c.install m = ⟨c.addAll [m], (c.engine.register m).2, .ok ()⟩ :=
      install_of_open hopen m
    rw [hinstall]
    exact ⟨rfl, (c.engine.register_self hm.nodup_names).2.1, fun hin => if_pos hin⟩

/-- A run with a namespace that is installed twice, an empty one, a repeated function, and a module
that comes after the context was closed. -/
theorem bookkeeping_after_replacement :
    let f : NativeFunction := ⟨"f", [.scalar .text], fun _ => pure ()⟩
    let g : NativeFunction := ⟨"g", [], fun _ => pure ()⟩
    let ops : List Operation := [.install ⟨"t", [.ofFunction "t" f .strict]⟩,
      .installFunctions "" [g], .installStock, .installNative "t" ⟨[.constant "k", .function g]⟩,
      .installFunctions "u" [f, f], .sealUp, .installFunctions "v" [g]]
    let c := (ofConfig .default).performAll ops
    (∀ m, .install m ∈ ops → m.Bound) ∧ c.installed = ["t", "std", "log"] ∧
      c.engine.namespaces.length = 3 ∧ "u" ∉ c.engine.namespaces := by
  intro f g ops c
  have bound : ∀ m, .install m ∈ ops → m.Bound := by
    intro m hm
    simp only [ops, List.mem_cons, List.not_mem_nil, or_false, Operation.install.injEq,
      reduceCtorEq] at hm
    subst hm
    exact .bind (rfl : (Module.bind "t" .strict [f]).result = _)
  obtain ⟨-, hmem, -, hinstalled, hcount, -⟩ := performAll_bookkeeping .default bound
  have hrun : (ofConfig .default).installations ops = ["t", "std", "log", "t"] := rfl
  have hlist : c.installed = ["t", "std", "log"] := by
    rw [hinstalled, hrun]
    decide
  refine ⟨bound, hlist, ?_, ?_⟩
  · rw [← hcount, count, hlist]
    rfl
  · rw [← hmem, hlist]
    decide

end ScriptBridge.Context
