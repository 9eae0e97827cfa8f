import ScriptBridge.Binding.Module

/-!
Builders collect the functions of a module from several sources, step by step, and bind them all
at the end. The last policy given holds for the whole module.
-/
namespace ScriptBridge

structure Builder where
  space : String
  functions : List NativeFunction
  policy : Policy

namespace Builder

def start (space : String) : Builder := ⟨space, [], .lenient⟩

inductive Step where
  | function (f : NativeFunction)
  | functions (fs : List NativeFunction)
  | declarations (ds : List Declaration)
  | native (m : NativeModule)
  | policy (p : Policy)

def extend (b : Builder) (fs : List NativeFunction) : Builder :=
  { b with functions := b.functions ++ fs }

/-- Takes one step. Sources of declarations are searched at once, which the journal shows. -/
def step (b : Builder) : Step → Run BindError Builder
  | .function f => pure (b.extend [f])
  | .functions fs => pure (b.extend fs)
  | .declarations ds => do
    let fs ← Declaration.discover ds
    pure (b.extend fs)
  | .native m => do
    let fs ← Declaration.discover m.members
    pure (b.extend fs)
  | .policy p => pure { b with policy := p }

def steps (b : Builder) : List Step → Run BindError Builder
  | [] => pure b
  | s :: ss => do
    let b ← b.step s
    b.steps ss

def finish (b : Builder) : Run BindError Module := Module.bind b.space b.policy b.functions

end Builder

def Module.build (space : String) (steps : List Builder.Step) : Run BindError Module := do
  let b ← (Builder.start space).steps steps
  b.finish

end ScriptBridge
