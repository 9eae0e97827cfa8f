import ScriptBridge.Binding.Adapter

/-!
Modules are namespaces of adapters, ready to be registered. Binding checks the functions in order
and stops at the first that repeats a name or declares a parameter that cannot be bound.
-/
namespace ScriptBridge

inductive BindError where
  | unsupportedParameter (function : String) (position : Nat) (tag : Tag)
  | duplicateFunction (space name : String)
  | emptyNamespace
  deriving DecidableEq

def BindError.message : BindError → String
  | .unsupportedParameter function position tag =>
    "function `" ++ function ++ "` parameter #" ++ toString position ++
      " has unsupported type `" ++ tag.text ++ "`"
  | .duplicateFunction space name =>
    "function `" ++ name ++ "` is declared twice in namespace `" ++ space ++ "`"
  | .emptyNamespace => "namespace name must not be empty"

def Tag.firstUnsupported? (position : Nat) : List Tag → Option (Nat × Tag)
  | [] => none
  | t :: ts => if t.isSupported then firstUnsupported? (position + 1) ts else some (position, t)

def Adapter.generate (space : String) (policy : Policy) (f : NativeFunction) :
    Run BindError Adapter :=
  match Tag.firstUnsupported? 1 f.params with
  | some (position, tag) => .fail (.unsupportedParameter f.name position tag)
  | none => do
    let a := Adapter.ofFunction space f policy
    Run.emit (.generated space f.name a.id policy)
    pure a

structure Module where
  space : String
  adapters : List Adapter

namespace Module

def size (m : Module) : Nat := m.adapters.length

def isEmpty (m : Module) : Bool := m.adapters.isEmpty

def names (m : Module) : List String := m.adapters.map (·.name)

def get? (m : Module) (name : String) : Option Adapter := m.adapters.find? (·.name = name)

/-- Makes the adapters of functions in order, where `seen` are the names before them. -/
def bindEach (space : String) (policy : Policy) (seen : List String) :
    List NativeFunction → Run BindError (List Adapter)
  | [] => pure []
  | f :: fs =>
    if f.name ∈ seen then .fail (.duplicateFunction space f.name)
    else do
      let a ← Adapter.generate space policy f
      let as ← bindEach space policy (f.name :: seen) fs
      pure (a :: as)

def bind (space : String) (policy : Policy) (fs : List NativeFunction) : Run BindError Module :=
  if space = "" then .fail .emptyNamespace
  else do
    let adapters ← bindEach space policy [] fs
    Run.emit (.bound space adapters.length)
    pure ⟨space, adapters⟩

end Module

end ScriptBridge
