import ScriptBridge.Journal.Run
import ScriptBridge.Native.Arguments

/-!
Native functions with their declared parameters, and the members of native modules. Only functions
among the members can be bound; discovery picks them out in order.
-/
namespace ScriptBridge

structure NativeFunction where
  name : String
  params : List Tag
  body : Arguments → Run NativeError Unit

namespace NativeFunction

def arity (f : NativeFunction) : Nat := f.params.length

def describe (f : NativeFunction) : String :=
  "ExportedFunction \x7b name: " ++ Text.quote f.name ++ ", params: " ++
    Tag.describeAll f.params ++ ", .. \x7d"

/-- Functions on scalars in curried form, which end in effects and a result. -/
def Typed (ρ : Type) : List Scalar → Type
  | [] => Journal × ρ
  | s :: ss => s.Carrier → Typed ρ ss

/-- Fetches the arguments from an index on by their types and applies a typed function to them.
The result of the function is dropped, whatever it is. -/
def applyTyped {ρ : Type} (args : Arguments) :
    (index : Nat) → (ss : List Scalar) → Typed ρ ss → Run NativeError Unit
  | _, [], (journal, _) => .write journal
  | index, s :: ss, f => do
    let v ← Run.ofExcept (args.get s index)
    applyTyped args (index + 1) ss (f v)

def ofTyped {ρ : Type} (name : String) (ss : List Scalar) (f : Typed ρ ss) : NativeFunction :=
  ⟨name, ss.map .scalar, fun args => applyTyped args 0 ss f⟩

end NativeFunction

inductive Declaration where
  | function (f : NativeFunction)
  | constant (name : String)
  | type (name : String)
  | module (name : String)

namespace Declaration

def name : Declaration → String
  | .function f => f.name
  | .constant name | .type name | .module name => name

def kind : Declaration → String
  | .function _ => "function"
  | .constant _ => "constant"
  | .type _ => "type"
  | .module _ => "module"

def function? : Declaration → Option NativeFunction
  | .function f => some f
  | _ => none

def isCallable (d : Declaration) : Bool := d.function?.isSome

def discovery : Declaration → Event
  | .function f => .discovered f.name f.arity
  | d => .skipped d.name d.kind

def discover {ε : Type} (ds : List Declaration) : Run ε (List NativeFunction) :=
  ⟨ds.map (.event ·.discovery), .ok (ds.filterMap function?)⟩

end Declaration

structure NativeModule where
  members : List Declaration

end ScriptBridge
