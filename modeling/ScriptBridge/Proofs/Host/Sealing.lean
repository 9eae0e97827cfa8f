import ScriptBridge.Proofs.Host.Operations

/-!
Operations that fail, and contexts that are closed. An open context fails an operation only where
its modules cannot be bound, a closed one fails every installation, and neither failure leaves a
trace. So whatever is asked of a context after it was closed, the engine in it stays the same.
-/
namespace ScriptBridge.Context

variable {c : Context} {op : Operation}

theorem exists_stock_modules (policy : Policy) : ∃ ms, (Stock.modules policy).result = .ok ms := by
  cases policy with
  | lenient => exact ⟨_, rfl⟩
  | strict => exact ⟨_, rfl⟩

def Operation.outcome (policy : Policy) (op : Operation) : Except ContextError Unit :=
  match op.modules policy with
  | .ok _ => .ok ()
  | .error cause => .error (.bind cause)

theorem result_installRun_of_open (h : c.isSealed = false) (run : Run BindError (List Module)) :
    (c.installRun run).result =
      match run.result with
      | .ok _ => .ok ()
      | .error cause => .error (.bind cause) := by
  cases hrun : run.result with
  | error cause => simp [installRun, hrun]
  | ok ms => simpa [installRun, hrun] using (installAll_of_open h ms).2

theorem result_installFunctions_of_open (h : c.isSealed = false) (space : String)
    (fs : List NativeFunction) :
    (c.installFunctions space fs).result =
      (Operation.installFunctions space fs).outcome c.config.policy := by
  rw [installFunctions, if_neg (by simp [h]), result_installRun_of_open h]
  rfl

theorem result_perform_of_open (h : c.isSealed = false) (op : Operation) :
    (c.perform op).result = op.outcome c.config.policy := by
  cases op with
  | install m => simp [perform, install_of_open h, Operation.outcome, Operation.modules]
  | installFunctions space fs => exact result_installFunctions_of_open h space fs
  | installNative space m => exact result_installFunctions_of_open h space _
  | installStock => exact result_installRun_of_open h _
  | sealUp => rfl

theorem result_perform_of_sealed (h : c.isSealed = true) (hop : op ≠ .sealUp) :
    (c.perform op).result = .error .alreadySealed := by
  cases op with
  | install m => simp [perform, install, h]
  | installFunctions space fs => simp [perform, installFunctions, h]
  | installNative space m => simp [perform, installNative, installFunctions, h]
  | installStock =>
    -- the stock modules are bound first, and only their installation is refused
    obtain ⟨ms, hms⟩ := exists_stock_modules c.config.policy
    have hne : ms ≠ [] := by
      rintro rfl
      simpa using (of_stock_modules hms).1
    simp [perform, installStock, installRun, hms, installAll_of_sealed h hne]
  | sealUp => exact absurd rfl hop

theorem context_perform_of_error {cause : ContextError} (h : (c.perform op).result = .error cause) :
    (c.perform op).context = c := by
  cases c.transition_perform op with
  | failed result context => exact context
  | closed seals result context => simp [result] at h
  | installed unsealed modules result context => simp [result] at h

theorem context_perform_of_sealed (h : c.isSealed = true) (op : Operation) :
    (c.perform op).context = c := by
  cases op with
  | sealUp => simp [perform, sealUp, ← h]
  | _ => exact context_perform_of_error (result_perform_of_sealed h (by simp))

theorem performAll_of_sealed (h : c.isSealed = true) (ops : List Operation) :
    c.performAll ops = c := by
  induction ops with
  | nil => rfl
  | cons op ops ih =>
    rw [performAll, List.foldl_cons, context_perform_of_sealed h]
    exact ih

/-- After any run of operations, whatever fails leaves the whole context as it was, tables
included, and fails for a reason of binding as long as the context is open. From the moment it is
closed every installation fails for that alone, also one that could not be bound, and the engine
that is taken out in the end is the one of that moment. -/
theorem performAll_failing_and_sealed (config : Config) (ops : List Operation) :
    let c := (ofConfig config).performAll ops
    (∀ op cause, (c.perform op).result = .error cause → (c.perform op).context = c) ∧
      (c.isSealed = false → ∀ op,
        (c.perform op).result =
          match op.modules c.config.policy with
          | .ok _ => .ok ()
          | .error cause => .error (.bind cause)) ∧
      ∀ later : List Operation,
        let d := (c.perform .sealUp).context.performAll later
        (∀ op, op ≠ .sealUp →
          (d.perform op).result = .error .alreadySealed ∧ (d.perform op).context = d) ∧
        d = { c with isSealed := true } ∧ d.intoEngine.1 = c.engine := by
  intro c
  refine ⟨fun op cause => context_perform_of_error, fun hopen op => ?_, ?_⟩
  · exact result_perform_of_open hopen op
  · intro later d
    have hd : d = { c with isSealed := true } := performAll_of_sealed rfl later
    have hsealed : d.isSealed = true := by rw [hd]
    refine ⟨fun op hop => ⟨result_perform_of_sealed hsealed hop, ?_⟩, hd, ?_⟩
    · exact context_perform_of_sealed hsealed op
    · rw [hd]
      rfl

/-- A table whose replacement fails at its second function, in a context that is then closed. -/
theorem failed_replacement_keeps_table :
    let f : NativeFunction := ⟨"f", [.scalar .text], fun _ => pure ()⟩
    let bad : NativeFunction := ⟨"g", [.scalar .text, .array .void], fun _ => pure ()⟩
    let c := (ofConfig .default).performAll [.installFunctions "t" [f]]
    let o := c.perform (.installFunctions "t" [f, bad])
    let d := (c.perform .sealUp).context.performAll [.installStock, .installFunctions "u" [f]]
    o.result = .error (.bind (.unsupportedParameter "g" 2 (.array .void))) ∧
      o.context.engine.lookup "t" "f" = .ok (.ofFunction "t" f .lenient) ∧
      (d.perform (.installFunctions "" [bad])).result = .error .alreadySealed ∧
      d.intoEngine.1.functionNames? "t" = some ["f"] ∧
      d.intoEngine.1.functionNames? "u" = none := by
  intro f bad c o d
  obtain ⟨hfailed, hopen, hclosed⟩ :=
    performAll_failing_and_sealed .default [.installFunctions "t" [f]]
  obtain ⟨hrefused, -, hengine⟩ := hclosed [.installStock, .installFunctions "u" [f]]
  have hbad : o.result = .error (.bind (.unsupportedParameter "g" 2 (.array .void))) :=
    hopen rfl (.installFunctions "t" [f, bad])
  have hsame : o.context = c := hfailed _ _ hbad
  have htables : d.intoEngine.1 = c.engine := hengine
  rw [hsame, htables]
  exact ⟨hbad, rfl, (hrefused _ (by simp)).1, rfl, rfl⟩

end ScriptBridge.Context
