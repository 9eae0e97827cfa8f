import ScriptBridge.Host.Stock
import ScriptBridge.Proofs.Binding.Steps
import ScriptBridge.Proofs.Host.Registry

/-!
The log as it is read, in lines with a level, a message and fields. The search for functions and
their binding have messages of their own, whatever they come to. A registration says that it took
place, and warns before that if it replaced a table.
-/
namespace ScriptBridge

structure Journal.Line where
  level : Level
  message : String
  fields : List (String × String)
  deriving DecidableEq

namespace Journal.Line

def replaced (space : String) : Line :=
  ⟨.warn, "replaced existing script namespace", [("namespace", space)]⟩

def registered (m : Module) : Line :=
  ⟨.debug, "registered module", [("namespace", m.space), ("count", toString m.size)]⟩

def contextSealed (spaces : Nat) : Line :=
  ⟨.debug, "context sealed", [("namespaces", toString spaces)]⟩

end Journal.Line

def Event.line (e : Event) : Journal.Line := ⟨e.level, e.message, e.fields⟩

namespace Journal

def log (j : Journal) : List Line := j.events.map Event.line

def saying (message : String) (j : Journal) : List Line := j.log.filter (·.message = message)

variable {j k : Journal} {message : String}

theorem log_append (j k : Journal) : log (j ++ k) = j.log ++ k.log := by
  rw [log, events_append, List.map_append, log, log]

theorem saying_append (message : String) (j k : Journal) :
    saying message (j ++ k) = j.saying message ++ k.saying message := by
  rw [saying, log_append, List.filter_append, saying, saying]

theorem saying_cons_of_ne {e : Event} (h : e.message ≠ message) (j : Journal) :
    saying message (.event e :: j) = j.saying message :=
  List.filter_cons_of_neg fun he => h (of_decide_eq_true he)

/-- The events of a search for functions and of their binding. -/
inductive Prepares : Journal → Prop
  | nil : Prepares []
  | discovered {j : Journal} (name : String) (arity : Nat) (rest : Prepares j) :
      Prepares (.event (.discovered name arity) :: j)
  | skipped {j : Journal} (name kind : String) (rest : Prepares j) :
      Prepares (.event (.skipped name kind) :: j)
  | generated {j : Journal} (space name : String) (id : BindingId) (policy : Policy)
      (rest : Prepares j) : Prepares (.event (.generated space name id policy) :: j)
  | bound {j : Journal} (space : String) (count : Nat) (rest : Prepares j) :
      Prepares (.event (.bound space count) :: j)

theorem Prepares.append (hj : j.Prepares) (hk : k.Prepares) : Prepares (j ++ k) := by
  induction hj with
  | nil => exact hk
  | discovered name arity _ ih => exact .discovered name arity ih
  | skipped name kind _ ih => exact .skipped name kind ih
  | generated space name id policy _ ih => exact .generated space name id policy ih
  | bound space count _ ih => exact .bound space count ih

def preparations : List String :=
  ["discovered function", "skipping non-callable member", "generated adapter", "bound module"]

theorem Prepares.saying_eq_nil (h : j.Prepares) (hmessage : message ∉ preparations) :
    j.saying message = [] := by
  simp only [preparations, List.mem_cons, List.not_mem_nil, or_false, not_or] at hmessage
  obtain ⟨hdiscovered, hskipped, hgenerated, hbound⟩ := hmessage
  induction h with
  | nil => rfl
  | discovered name arity _ ih =>
    exact (saying_cons_of_ne (Ne.symm hdiscovered) _).trans ih
  | skipped name kind _ ih =>
    exact (saying_cons_of_ne (Ne.symm hskipped) _).trans ih
  | generated space name id policy _ ih =>
    exact (saying_cons_of_ne (Ne.symm hgenerated) _).trans ih
  | bound space count _ ih =>
    exact (saying_cons_of_ne (Ne.symm hbound) _).trans ih

end Journal

/-- A run that does nothing but prepare, also when it fails. -/
def Run.Prepares {ε α : Type} (x : Run ε α) : Prop := x.journal.Prepares

theorem Run.Prepares.bind {ε α β : Type} {x : Run ε α} {f : α → Run ε β} (hx : x.Prepares)
    (hf : ∀ a, (f a).Prepares) : (x >>= f).Prepares := by
  obtain ⟨j, r⟩ := x
  cases r with
  | error e => exact hx
  | ok a => exact hx.append (hf a)

theorem Adapter.generate_prepares (space : String) (policy : Policy) (f : NativeFunction) :
    (generate space policy f).Prepares := by
  rw [generate]
  split
  · exact .nil
  · exact .generated _ _ _ _ .nil

theorem Module.bindEach_prepares (space : String) (policy : Policy) (seen : List String)
    (fs : List NativeFunction) : (bindEach space policy seen fs).Prepares := by
  induction fs generalizing seen with
  | nil => exact .nil
  | cons f fs ih =>
    rw [bindEach]
    split
    · exact .nil
    · exact (Adapter.generate_prepares space policy f).bind fun a =>
        (ih (f.name :: seen)).bind fun as => .nil

theorem Module.bind_prepares (space : String) (policy : Policy) (fs : List NativeFunction) :
    (bind space policy fs).Prepares := by
  rw [bind]
  split
  · exact .nil
  · exact (bindEach_prepares space policy [] fs).bind fun as => .bound _ _ .nil

theorem Builder.findings_prepares (ds : List Declaration) : (findings ds).Prepares := by
  induction ds with
  | nil => exact .nil
  | cons d ds ih =>
    cases d with
    | function f => exact .discovered _ _ ih
    | _ => exact .skipped _ _ ih

theorem Module.build_prepares (space : String) (ss : List Builder.Step) :
    (build space ss).Prepares := by
  rw [build_eq]
  exact (Builder.findings_prepares _).append (bind_prepares ..)

theorem Stock.modules_prepares (policy : Policy) : (modules policy).Prepares :=
  (Module.build_prepares ..).bind fun _ => (Module.build_prepares ..).bind fun _ => .nil

namespace Engine

variable {e : Engine} {ms : List Module}

def reports (e : Engine) : List Module → Journal
  | [] => []
  | m :: ms => (e.register m).2 ++ (e.register m).1.reports ms

theorem reports_append (e : Engine) (ms ns : List Module) :
    e.reports (ms ++ ns) = e.reports ms ++ (e.registerAll ms).reports ns := by
  induction ms generalizing e with
  | nil => rfl
  | cons m ms ih => rw [List.cons_append, reports, ih, reports, List.append_assoc]; rfl

theorem journal_register (e : Engine) (m : Module) :
    (e.register m).2 = (if e.hasNamespace m.space then [.event (.replaced m.space)] else []) ++
      [.event (.registered m.space m.size)] := rfl

theorem saying_replaced_register (e : Engine) (m : Module) :
    (e.register m).2.saying "replaced existing script namespace" =
      if e.hasNamespace m.space then [.replaced m.space] else [] := by
  rw [journal_register]
  cases e.hasNamespace m.space <;> rfl

theorem saying_registered_register (e : Engine) (m : Module) :
    (e.register m).2.saying "registered module" = [.registered m] := by
  rw [journal_register]
  cases e.hasNamespace m.space <;> rfl

theorem saying_sealed_register (e : Engine) (m : Module) :
    (e.register m).2.saying "context sealed" = [] := by
  rw [journal_register]
  cases e.hasNamespace m.space <;> rfl

theorem saying_registered_reports (e : Engine) (ms : List Module) :
    (e.reports ms).saying "registered module" = ms.map .registered := by
  induction ms generalizing e with
  | nil => rfl
  | cons m ms ih =>
    rw [reports, Journal.saying_append, saying_registered_register, ih]
    rfl

theorem saying_sealed_reports (e : Engine) (ms : List Module) :
    (e.reports ms).saying "context sealed" = [] := by
  induction ms generalizing e with
  | nil => rfl
  | cons m ms ih =>
    rw [reports, Journal.saying_append, saying_sealed_register, ih]
    rfl

/-- Modules of different namespaces replace only what was there before all of them. -/
theorem saying_replaced_reports (e : Engine) (h : (ms.map Module.space).Nodup) :
    (e.reports ms).saying "replaced existing script namespace" =
      ((ms.map Module.space).filter e.hasNamespace).map .replaced := by
  induction ms generalizing e with
  | nil => rfl
  | cons m ms ih =>
    obtain ⟨hfresh, hrest⟩ := List.nodup_cons.1 h
    have hsame : (ms.map Module.space).filter (e.register m).1.hasNamespace =
        (ms.map Module.space).filter e.hasNamespace := by
      refine List.filter_congr fun space hspace => (e.register_of_ne m ?_).1
      rintro rfl
      exact hfresh hspace
    rw [reports, Journal.saying_append, saying_replaced_register, ih _ hrest, hsame, List.map_cons,
      List.filter_cons]
    split <;> rfl

theorem hasNamespace_registerAll (ms : List Module) (space : String) :
    (empty.registerAll ms).hasNamespace space = true ↔ space ∈ ms.map Module.space := by
  rw [hasNamespace, Dictionary.contains, get?_registerAll, Option.isSome_map, isSome_lastUnder,
    List.mem_map]

end Engine

end ScriptBridge
