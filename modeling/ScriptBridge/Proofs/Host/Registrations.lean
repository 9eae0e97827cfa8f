import Mathlib.Data.List.Induction
import ScriptBridge.Proofs.Host.Bookkeeping
import ScriptBridge.Proofs.Host.Sealing
import ScriptBridge.Proofs.Journal.Log

/-!
What the log of a context says. The lines about registrations are those of the modules that the
operations register, in their order, and the engine knows of each namespace whether it was there
before. The seal is reported where it is first made, be it by an operation or at the end.
-/
namespace ScriptBridge.Context

def registered (c : Context) (op : Operation) : List Module :=
  match (c.perform op).result with
  | .ok () => (op.modules c.config.policy).toOption.getD []
  | .error _ => []

def registeredAll (c : Context) : List Operation → List Module
  | [] => []
  | op :: ops => c.registered op ++ (c.perform op).context.registeredAll ops

def journalAll (c : Context) : List Operation → Journal
  | [] => []
  | op :: ops => (c.perform op).journal ++ (c.perform op).context.journalAll ops

variable {c : Context} {op : Operation}

theorem registered_of_error {cause : ContextError} (h : (c.perform op).result = .error cause) :
    c.registered op = [] := by
  rw [registered, h]

theorem registered_of_ok (h : (c.perform op).result = .ok ()) {ms : List Module}
    (hms : op.modules c.config.policy = .ok ms) : c.registered op = ms := by
  rw [registered, h, hms]
  rfl

theorem registered_sealUp (c : Context) : c.registered .sealUp = [] := registered_of_ok rfl rfl

theorem context_perform (c : Context) (op : Operation) :
    (c.perform op).context.engine = c.engine.registerAll (c.registered op) ∧
      (c.perform op).context.installed =
        ((c.registered op).map Module.space).foldl remember c.installed := by
  cases c.transition_perform op with
  | failed result context =>
    rw [registered_of_error result, context]
    exact ⟨rfl, rfl⟩
  | closed seals result context =>
    rw [seals, registered_sealUp]
    exact ⟨rfl, rfl⟩
  | installed unsealed modules result context =>
    rw [registered_of_ok result modules, context]
    exact ⟨rfl, rfl⟩

theorem context_performAll (c : Context) (ops : List Operation) :
    (c.performAll ops).engine = c.engine.registerAll (c.registeredAll ops) ∧
      (c.performAll ops).installed =
        ((c.registeredAll ops).map Module.space).foldl remember c.installed := by
  induction ops generalizing c with
  | nil => exact ⟨rfl, rfl⟩
  | cons op ops ih =>
    obtain ⟨hengine, hinstalled⟩ := c.context_perform op
    obtain ⟨hengines, hinstalls⟩ := ih (c.perform op).context
    rw [registeredAll, Engine.registerAll_append, List.map_append, List.foldl_append, ← hengine,
      ← hinstalled]
    exact ⟨hengines, hinstalls⟩

theorem isSealed_perform (c : Context) (op : Operation) :
    (c.perform op).context.isSealed = true ↔ c.isSealed = true ∨ op = .sealUp := by
  by_cases hop : op = .sealUp
  · rw [hop]
    exact iff_of_true rfl (.inr rfl)
  · cases c.transition_perform op with
    | failed result context => simp [context, hop]
    | closed seals result context => exact absurd seals hop
    | installed unsealed modules result context =>
      rw [context, or_iff_left hop]
      rfl

theorem isSealed_performAll (c : Context) (ops : List Operation) :
    (c.performAll ops).isSealed = true ↔ c.isSealed = true ∨ .sealUp ∈ ops := by
  induction ops generalizing c with
  | nil => simp [performAll]
  | cons op ops ih =>
    rw [performAll, List.foldl_cons]
    refine (ih _).trans ?_
    rw [isSealed_perform, List.mem_cons, or_assoc, @eq_comm _ op]

theorem foldl_remember (history spaces : List String) :
    spaces.foldl remember history.eraseDups = (history ++ spaces).eraseDups := by
  induction spaces generalizing history with
  | nil => rw [List.foldl_nil, List.append_nil]
  | cons space spaces ih => rw [List.foldl_cons, remember_eraseDups, ih, ← List.append_cons]

theorem count_performAll (config : Config) (ops : List Operation) :
    ((ofConfig config).performAll ops).count =
      (((ofConfig config).registeredAll ops).map Module.space).eraseDups.length := by
  rw [count, (context_performAll _ ops).2]
  exact congrArg List.length (foldl_remember [] _)

theorem spaces_registered_of_ok (h : (c.perform op).result = .ok ()) :
    (c.registered op).map Module.space = op.spaces := by
  cases c.transition_perform op with
  | failed result context => cases h.symm.trans result
  | closed seals result context =>
    rw [seals, registered_sealUp]
    rfl
  | installed unsealed modules result context =>
    rw [registered_of_ok result modules, (op.of_modules modules).1]

theorem Operation.nodup_spaces (op : Operation) : op.spaces.Nodup := by
  cases op with
  | installStock => simp [spaces]
  | sealUp => exact List.nodup_nil
  | _ => exact List.nodup_singleton _

theorem nodup_spaces_registered (c : Context) (op : Operation) :
    ((c.registered op).map Module.space).Nodup := by
  cases hresult : (c.perform op).result with
  | error cause =>
    rw [registered_of_error hresult]
    exact List.nodup_nil
  | ok _ =>
    rw [spaces_registered_of_ok hresult]
    exact op.nodup_spaces

theorem journal_installAll_of_open (h : c.isSealed = false) (ms : List Module) :
    (c.installAll ms).journal = c.engine.reports ms := by
  induction ms generalizing c with
  | nil => rfl
  | cons m ms ih =>
    rw [installAll, install_of_open h]
    exact congrArg (_ ++ ·) (ih h)

theorem exists_journal_installRun {run : Run BindError (List Module)}
    (hrun : run.result = op.modules c.config.policy) (hprepares : run.Prepares)
    (hresult : (c.perform op).result = (c.installRun run).result) :
    ∃ j : Journal, j.Prepares ∧
      (c.installRun run).journal = j ++ c.engine.reports (c.registered op) := by
  refine ⟨run.journal, hprepares, ?_⟩
  rw [installRun] at hresult ⊢
  cases hms : run.result with
  | error cause =>
    rw [hms] at hresult
    rw [registered_of_error hresult]
    exact (List.append_nil _).symm
  | ok ms =>
    rw [hms] at hresult hrun
    refine congrArg (run.journal ++ ·) ?_
    cases hsealed : c.isSealed with
    | false =>
      rw [journal_installAll_of_open hsealed,
        registered_of_ok (hresult.trans (installAll_of_open hsealed ms).2) hrun.symm]
    | true =>
      cases ms with
      | nil =>
        rw [registered_of_ok hresult hrun.symm]
        rfl
      | cons m ms =>
        have hrefused := installAll_of_sealed hsealed (List.cons_ne_nil m ms)
        rw [hrefused, registered_of_error (hresult.trans (congrArg Outcome.result hrefused))]
        rfl

theorem exists_journal_installFunctions {space : String} {fs : List NativeFunction}
    (hmodules : (Module.bind space c.config.policy fs).result.map (fun m => [m]) =
      op.modules c.config.policy)
    (hresult : (c.perform op).result = (c.installFunctions space fs).result) :
    ∃ j : Journal, j.Prepares ∧
      (c.installFunctions space fs).journal = j ++ c.engine.reports (c.registered op) := by
  rw [installFunctions] at hresult ⊢
  split at hresult
  · rename_i hsealed
    rw [if_pos hsealed, registered_of_error hresult]
    exact ⟨[], .nil, rfl⟩
  · rename_i hopen
    rw [if_neg hopen]
    exact exists_journal_installRun hmodules (Module.bind_prepares space _ fs) hresult

theorem exists_journal_perform (c : Context) (hop : op ≠ .sealUp) :
    ∃ j : Journal, j.Prepares ∧
      (c.perform op).journal = j ++ c.engine.reports (c.registered op) := by
  cases op with
  | install m =>
    refine ⟨[], .nil, ?_⟩
    cases hsealed : c.isSealed with
    | false =>
      have hinstall : c.perform (.install m) = ⟨c.addAll [m], (c.engine.register m).2, .ok ()⟩ :=
        install_of_open hsealed m
      rw [registered_of_ok (congrArg Outcome.result hinstall) rfl, hinstall]
      exact (List.append_nil _).symm
    | true =>
      have hinstall : c.perform (.install m) = ⟨c, [], .error .alreadySealed⟩ := if_pos hsealed
      rw [registered_of_error (congrArg Outcome.result hinstall), hinstall]
      rfl
  | installFunctions space fs => exact exists_journal_installFunctions rfl rfl
  | installNative space m =>
    obtain ⟨j, hj, hjournal⟩ := @exists_journal_installFunctions c (.installNative space m)
      space (m.members.filterMap Declaration.function?) rfl rfl
    refine ⟨_, (Builder.findings_prepares m.members).append hj, ?_⟩
    rw [List.append_assoc, ← hjournal]
    rfl
  | installStock => exact exists_journal_installRun rfl (Stock.modules_prepares _) rfl
  | sealUp => exact absurd rfl hop

theorem saying_perform (c : Context) (hop : op ≠ .sealUp) {message : String}
    (hmessage : message ∉ Journal.preparations) :
    (c.perform op).journal.saying message =
      (c.engine.reports (c.registered op)).saying message := by
  obtain ⟨j, hj, hjournal⟩ := c.exists_journal_perform hop
  rw [hjournal, Journal.saying_append, hj.saying_eq_nil hmessage, List.nil_append]

theorem journal_sealUp (c : Context) :
    c.sealUp.2 = if c.isSealed then [] else [.event (.contextSealed c.count)] := rfl

theorem saying_sealUp_of_ne (c : Context) {message : String}
    (hmessage : message ≠ "context sealed") : c.sealUp.2.saying message = [] := by
  rw [journal_sealUp]
  cases c.isSealed with
  | false => exact @Journal.saying_cons_of_ne _ (.contextSealed c.count) hmessage.symm []
  | true => rfl

theorem saying_perform_of_ne (c : Context) (op : Operation) {message : String}
    (hmessage : message ∉ Journal.preparations) (hseal : message ≠ "context sealed") :
    (c.perform op).journal.saying message =
      (c.engine.reports (c.registered op)).saying message := by
  by_cases hop : op = .sealUp
  · rw [hop, registered_sealUp]
    exact c.saying_sealUp_of_ne hseal
  · exact c.saying_perform hop hmessage

theorem saying_replaced_perform (c : Context) (op : Operation) :
    (c.perform op).journal.saying "replaced existing script namespace" =
      (((c.registered op).map Module.space).filter c.engine.hasNamespace).map .replaced := by
  rw [saying_perform_of_ne c op (by decide) (by decide)]
  exact c.engine.saying_replaced_reports (c.nodup_spaces_registered op)

theorem saying_registered_perform (c : Context) (op : Operation) :
    (c.perform op).journal.saying "registered module" = (c.registered op).map .registered := by
  rw [saying_perform_of_ne c op (by decide) (by decide)]
  exact c.engine.saying_registered_reports _

theorem saying_sealed_perform (c : Context) (hop : op ≠ .sealUp) :
    (c.perform op).journal.saying "context sealed" = [] := by
  rw [saying_perform c hop (by decide)]
  exact c.engine.saying_sealed_reports _

theorem saying_journalAll (c : Context) (ops : List Operation) {message : String}
    (hmessage : message ∉ Journal.preparations) (hseal : message ≠ "context sealed") :
    (c.journalAll ops).saying message =
      (c.engine.reports (c.registeredAll ops)).saying message := by
  induction ops generalizing c with
  | nil => rfl
  | cons op ops ih =>
    rw [journalAll, registeredAll, Engine.reports_append, Journal.saying_append,
      Journal.saying_append, saying_perform_of_ne c op hmessage hseal, ih,
      (c.context_perform op).1]

theorem length_saying_replaced (ms : List Module) :
    ((Engine.empty.reports ms).saying "replaced existing script namespace").length +
      (ms.map Module.space).eraseDups.length = ms.length := by
  induction ms using List.reverseRecOn with
  | nil => rfl
  | append_singleton ms m ih =>
    have hhas := Engine.hasNamespace_registerAll ms m.space
    rw [Engine.reports_append, Journal.saying_append, List.map_append, List.map_singleton,
      ← remember_eraseDups, Engine.reports, Engine.reports, List.append_nil,
      Engine.saying_replaced_register, remember, List.length_append, List.length_append]
    by_cases hmem : m.space ∈ ms.map Module.space
    · rw [if_pos (hhas.2 hmem), if_pos (List.mem_eraseDups.2 hmem), ← ih]
      simp only [List.length_singleton]
      omega
    · rw [if_neg (hhas.not.2 hmem), if_neg (List.mem_eraseDups.not.2 hmem), ← ih]
      simp only [List.length_append, List.length_singleton, List.length_nil]
      omega

/-- Once a run is at its end and its engine is taken, the context was sealed once. -/
theorem saying_sealed_whole (c : Context) (ops : List Operation) :
    (c.journalAll ops ++ (c.performAll ops).intoEngine.2).saying "context sealed" =
      if c.isSealed then [] else [.contextSealed (c.performAll ops).count] := by
  induction ops generalizing c with
  | nil =>
    change c.sealUp.2.saying "context sealed" = if c.isSealed then [] else [.contextSealed c.count]
    rw [journal_sealUp]
    cases c.isSealed <;> rfl
  | cons op ops ih =>
    have hsame : c.performAll (op :: ops) = (c.perform op).context.performAll ops := rfl
    rw [journalAll, List.append_assoc, Journal.saying_append, hsame, ih]
    by_cases hop : op = .sealUp
    · subst hop
      change c.sealUp.2.saying "context sealed" ++ [] = _
      have hstays : ((c.perform .sealUp).context.performAll ops).count = c.count := by
        rw [performAll_of_sealed rfl]
        rfl
      rw [journal_sealUp, hstays]
      cases c.isSealed <;> rfl
    · have hsealed : (c.perform op).context.isSealed = c.isSealed := by
        rw [Bool.eq_iff_iff, isSealed_perform, or_iff_left hop]
      rw [saying_sealed_perform c hop, hsealed, List.nil_append]

/-- What an operation registers and what it writes, where `earlier` are the namespaces that were
registered before it. In an open context it registers its modules if they can be bound, and in a
sealed one it is refused unless it is another seal. It registers the modules of all its namespaces
or, if it fails, none. -/
structure Accounted (c : Context) (earlier : List String) (op : Operation) : Prop where
  registered_of_open : c.isSealed = false → ∀ ms, op.modules c.config.policy = .ok ms →
    (c.perform op).result = .ok () ∧ c.registered op = ms
  error_of_open : c.isSealed = false → ∀ cause, op.modules c.config.policy = .error cause →
    (c.perform op).result = .error (.bind cause)
  error_of_sealed : c.isSealed = true → op ≠ .sealUp →
    (c.perform op).result = .error .alreadySealed
  engine_eq : (c.perform op).context.engine = c.engine.registerAll (c.registered op)
  spaces_eq : (c.perform op).result = .ok () → (c.registered op).map Module.space = op.spaces
  registered_eq_nil : ∀ cause, (c.perform op).result = .error cause → c.registered op = []
  warned_iff : ∀ space, .replaced space ∈ (c.perform op).journal.log ↔
    space ∈ (c.registered op).map Module.space ∧ space ∈ earlier
  saying_replaced : (c.perform op).journal.saying "replaced existing script namespace" =
    (((c.registered op).map Module.space).filter (· ∈ earlier)).map .replaced
  saying_registered : (c.perform op).journal.saying "registered module" =
    (c.registered op).map .registered
  silent_of_error : ∀ cause, (c.perform op).result = .error cause →
    (c.perform op).journal.saying "replaced existing script namespace" = [] ∧
      (c.perform op).journal.saying "registered module" = []

theorem mem_log_perform_iff {space : String} :
    .replaced space ∈ (c.perform op).journal.log ↔
      space ∈ (c.registered op).map Module.space ∧ c.engine.hasNamespace space = true := by
  have hinj : Function.Injective Journal.Line.replaced :=
    fun a b h => by simpa [Journal.Line.replaced] using h
  have hsaying : .replaced space ∈ (c.perform op).journal.log ↔
      .replaced space ∈ (c.perform op).journal.saying "replaced existing script namespace" := by
    simp [Journal.saying, Journal.Line.replaced]
  rw [hsaying, saying_replaced_perform, List.mem_map_of_injective hinj, List.mem_filter]

theorem accounted {earlier : List String}
    (h : ∀ space, c.engine.hasNamespace space = true ↔ space ∈ earlier) (op : Operation) :
    c.Accounted earlier op where
  registered_of_open hopen ms hms := by
    have hresult : (c.perform op).result = .ok () := by
      rw [result_perform_of_open hopen, Operation.outcome, hms]
    exact ⟨hresult, registered_of_ok hresult hms⟩
  error_of_open hopen cause hcause := by
    rw [result_perform_of_open hopen, Operation.outcome, hcause]
  error_of_sealed := result_perform_of_sealed
  engine_eq := (c.context_perform op).1
  spaces_eq := spaces_registered_of_ok
  registered_eq_nil _ := registered_of_error
  warned_iff space := by rw [mem_log_perform_iff, h]
  saying_replaced := by
    rw [saying_replaced_perform]
    refine congrArg _ (List.filter_congr fun space _ => ?_)
    rw [Bool.eq_iff_iff, h, decide_eq_true_iff]
  saying_registered := c.saying_registered_perform op
  silent_of_error cause hcause := by
    rw [saying_replaced_perform, saying_registered_perform, registered_of_error hcause]
    exact ⟨rfl, rfl⟩

/-- A table that is replaced, an operation that fails, and modules that come too late. -/
example :
    let f : NativeFunction := ⟨"f", [], fun _ => pure ()⟩
    let start := ofConfig .default
    let ops : List Operation := [.installFunctions "t" [f], .installFunctions "" [f],
      .installFunctions "t" [], .sealUp, .sealUp, .installFunctions "t" [f]]
    let written := start.journalAll ops ++ (start.performAll ops).intoEngine.2
    written.log.filter (·.level = .warn) = [.replaced "t"] ∧
      written.saying "context sealed" = [.contextSealed 1] := by
  decide

end ScriptBridge.Context
