import ScriptBridge.Host.Session
import ScriptBridge.Proofs.Host.Sealing

/-!
Sessions as runs of what they hold. While a session keeps its context it performs the operations
that it is asked for, and once it keeps an engine it registers the modules that it is given. All
other requests leave what is held as it is.
-/
namespace ScriptBridge.Session

def after (s : Session) (rs : List Request) : Session :=
  rs.foldl (fun s r => (s.request r).session) s

theorem after_append (s : Session) (rs later : List Request) :
    s.after (rs ++ later) = (s.after rs).after later := List.foldl_append

theorem requests_append (s : Session) (rs later : List Request) :
    s.requests (rs ++ later) = s.requests rs ++ (s.after rs).requests later := by
  induction rs generalizing s with
  | nil => rfl
  | cons r rs ih =>
    rw [List.cons_append, requests, requests, ih]
    rfl

namespace Request

/-- The operations on a context that a request stands for. A module that cannot be built is not
installed. -/
def operations : Request → List Context.Operation
  | .installStock => [.installStock]
  | .install space steps => ((Module.build space steps).result.toOption.map .install).toList
  | .installFunctions space fs => [.installFunctions space fs]
  | .installNative space m => [.installNative space m]
  | .sealUp => [.sealUp]
  | _ => []

def modules : Request → List Module
  | .register space steps => (Module.build space steps).result.toOption.toList
  | .bind space policy fs => (Module.bind space policy fs).result.toOption.toList
  | .installTable space entries => ((generateAll entries).result.toOption.map (⟨space, ·⟩)).toList
  | _ => []

/-- Requests that do not ask for another context or engine. -/
def Keeps : Request → Prop
  | .newContext _ | .newEngine | .intoEngine => False
  | _ => True

end Request

variable {c : Context} {e : Engine} {r : Request} {rs : List Request}

/-- A context is lost only where it is asked for the stock modules after it was sealed. -/
theorem session_request_context (c : Context) (h : r.Keeps) :
    (request (.context c) r).session = .context (c.performAll r.operations) ∨
      r = .installStock ∧ c.isSealed = true ∧ (request (.context c) r).session = .gone := by
  cases r with
  | newContext policy | newEngine | intoEngine => cases h
  | installStock =>
    change (installStock c).session = .context c.installStock.context ∨
      _ ∧ _ ∧ (installStock c).session = .gone
    rw [installStock]
    cases hsealed : c.isSealed with
    | true =>
      have hresult : c.installStock.result = .error .alreadySealed :=
        @Context.result_perform_of_sealed c .installStock hsealed (by simp)
      rw [hresult]
      exact .inr ⟨rfl, rfl, rfl⟩
    | false =>
      obtain ⟨ms, hms⟩ := Context.exists_stock_modules c.config.policy
      have hresult : c.installStock.result = .ok () := by
        refine (Context.result_perform_of_open hsealed .installStock).trans ?_
        rw [Context.Operation.outcome, Context.Operation.modules, hms]
      rw [hresult]
      exact .inl rfl
  | install space steps =>
    left
    change (install c (Module.build space steps)).session = _
    rw [install, Request.operations]
    cases (Module.build space steps).result <;> rfl
  | _ => exact .inl rfl

theorem session_request_engine (e : Engine) (h : r.Keeps) :
    (request (.engine e) r).session = .engine (e.registerAll r.modules) := by
  cases r with
  | newContext policy | newEngine | intoEngine => cases h
  | register space steps =>
    change (register e (Module.build space steps)).session = _
    rw [register, Request.modules]
    cases (Module.build space steps).result <;> rfl
  | bind space policy fs =>
    change (register e (Module.bind space policy fs)).session = _
    rw [register, Request.modules]
    cases (Module.bind space policy fs).result <;> rfl
  | installTable space entries =>
    change (installTable e space entries).session = _
    rw [installTable, Request.modules]
    cases (generateAll entries).result <;> rfl
  | _ => rfl

theorem after_gone (h : ∀ r ∈ rs, r.Keeps) : after .gone rs = .gone := by
  induction rs with
  | nil => rfl
  | cons r rs ih =>
    obtain ⟨hr, hrest⟩ := List.forall_mem_cons.1 h
    have hstays : (request .gone r).session = .gone := by
      cases r with
      | newContext policy | newEngine => cases hr
      | _ => rfl
    rw [after, List.foldl_cons, hstays]
    exact ih hrest

theorem after_engine (e : Engine) (h : ∀ r ∈ rs, r.Keeps) :
    after (.engine e) rs = .engine (e.registerAll (rs.flatMap Request.modules)) := by
  induction rs generalizing e with
  | nil => rfl
  | cons r rs ih =>
    obtain ⟨hr, hrest⟩ := List.forall_mem_cons.1 h
    rw [after, List.foldl_cons, session_request_engine e hr, List.flatMap_cons,
      Engine.registerAll_append]
    exact ih _ hrest

/-- While a context is kept, it is that of the operations that were asked for. -/
theorem after_context (c : Context) (h : ∀ r ∈ rs, r.Keeps) :
    after (.context c) rs = .context (c.performAll (rs.flatMap Request.operations)) ∨
      after (.context c) rs = .gone ∧ ∃ early late, rs = early ++ .installStock :: late ∧
        (c.performAll (early.flatMap Request.operations)).isSealed = true := by
  induction rs generalizing c with
  | nil => exact .inl rfl
  | cons r rs ih =>
    obtain ⟨hr, hrest⟩ := List.forall_mem_cons.1 h
    rw [after, List.foldl_cons]
    rcases session_request_context c hr with hkept | ⟨rfl, hsealed, hgone⟩
    · rw [hkept, List.flatMap_cons, Context.performAll_append]
      refine (ih _ hrest).imp_right ?_
      rintro ⟨hgone, early, late, rfl, hsealed⟩
      refine ⟨hgone, r :: early, late, rfl, ?_⟩
      rw [List.flatMap_cons, Context.performAll_append]
      exact hsealed
    · rw [hgone]
      exact .inr ⟨after_gone hrest, [], rs, rfl, hsealed⟩

/-- A session that makes a context, takes the engine out of it and goes on with that. Where the
stock modules are not asked for after a seal, its last request is put to the engine of the
operations that were asked for first, in which the modules that were asked for later are
registered. -/
theorem getLast?_requests_intoEngine (s : Session) (policy : Policy) {early late : List Request}
    (hearly : ∀ r ∈ early, r.Keeps) (hlate : ∀ r ∈ late, r.Keeps) :
    let start := Context.ofConfig { Config.default with policy }
    let c := start.performAll (early.flatMap Request.operations)
    let e := c.engine.registerAll (late.flatMap Request.modules)
    (∀ before behind, early = before ++ .installStock :: behind →
      (start.performAll (before.flatMap Request.operations)).isSealed = false) →
    ∀ r, (s.requests (.newContext policy :: (early ++ .intoEngine :: late ++ [r]))).getLast? =
      some (request (.engine e) r) := by
  intro start c e hstock r
  have hkept : after (.context start) early = .context c := by
    refine (after_context start hearly).resolve_right ?_
    rintro ⟨-, before, behind, hsplit, hsealed⟩
    rw [hstock before behind hsplit] at hsealed
    cases hsealed
  have hend : after (.context start) (early ++ .intoEngine :: late) = .engine e := by
    rw [after_append, hkept, after, List.foldl_cons]
    exact after_engine c.engine hlate
  have hmade : (s.request (.newContext policy)).session = .context start := rfl
  rw [requests, hmade, requests_append, hend, ← List.cons_append]
  exact List.getLast?_concat

end ScriptBridge.Session
