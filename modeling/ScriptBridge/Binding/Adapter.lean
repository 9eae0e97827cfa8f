import ScriptBridge.Decode.Argument
import ScriptBridge.Native.Function

/-!
Adapters carry a native function over to the calling convention of scripts: they decode every
declared parameter from the call frame, run the function and push no results.
-/
namespace ScriptBridge

structure Adapter where
  id : BindingId
  name : String
  params : List Tag
  policy : Policy
  body : Arguments → Run NativeError Unit

namespace Adapter

def ofFunction (space : String) (f : NativeFunction) (policy : Policy) : Adapter where
  id := .ofFunction space f.name f.params
  name := f.name
  params := f.params
  policy := policy
  body := f.body

def describe (a : Adapter) : String :=
  "Adapter \x7b id: " ++ a.id.describe ++ ", name: " ++ Text.quote a.name ++ ", params: " ++
    Tag.describeAll a.params ++ ", policy: " ++ a.policy.label ++ ", .. \x7d"

/-- Runs the adapter against one call and answers the number of results, which is always zero. -/
def invoke (a : Adapter) (source : Source) : Run NativeError Nat := do
  let values ← (Tag.decodeAll source a.policy 1 a.params).mapError .decode
  a.body ⟨values⟩
  pure 0

end Adapter

end ScriptBridge
