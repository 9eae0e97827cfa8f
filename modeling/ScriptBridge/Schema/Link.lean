import ScriptBridge.Native.Function
import ScriptBridge.Schema.Expansion

/-!
Linking of schemas with native code. A parameter type that stands for a scalar fixes how the
argument is decoded, and a schema of such parameters becomes a native function that wraps the
code of its target.
-/
namespace ScriptBridge.Schema

def namedScalars : List Scalar := [
  .int true .w8, .int true .w16, .int true .w32, .int true .w64,
  .int false .w8, .int false .w16, .int false .w32, .int false .w64,
  .float .single, .float .double]

/-- The scalar that a parameter type stands for. Text is written as a reference or as an owned
string. -/
def ParamType.scalar? : ParamType → Option Scalar
  | .path text =>
    if squeeze text = "String" then some .text
    else namedScalars.find? fun s => s.word = squeeze text
  | .textReference _ => some .text
  | .invocation _ | .verbatim _ => none
  | .paren inner => inner.scalar?

/-- What parameter types stand for where they are written, be it under names of their own. -/
abbrev Resolution := ParamType → Option Scalar

/-- Native code gives the typed function of every name at the types that it is declared with. -/
abbrev NativeCode (ρ : Type) := String → (ss : List Scalar) → NativeFunction.Typed ρ ss

def scalarsBy? (resolve : Resolution) : List ParamType → Option (List Scalar)
  | [] => some []
  | p :: ps => do
    let s ← resolve p
    let ss ← scalarsBy? resolve ps
    some (s :: ss)

def FunctionSchema.linkBy? {ρ : Type} (resolve : Resolution) (code : NativeCode ρ)
    (f : FunctionSchema) : Option NativeFunction :=
  (scalarsBy? resolve f.params).map fun ss => .ofTyped f.name ss (code f.target ss)

def MemberSchema.linkBy? {ρ : Type} (resolve : Resolution) (code : NativeCode ρ) :
    MemberSchema → Option Declaration
  | .function schema => (schema.linkBy? resolve code).map .function
  | .constant name => some (.constant name)
  | .type name => some (.type name)
  | .module name => some (.module name)

def linkMembersBy? {ρ : Type} (resolve : Resolution) (code : NativeCode ρ) :
    List MemberSchema → Option NativeModule
  | [] => some ⟨[]⟩
  | m :: ms => do
    let d ← m.linkBy? resolve code
    let rest ← linkMembersBy? resolve code ms
    some ⟨d :: rest.members⟩

def FunctionSchema.link? {ρ : Type} (code : NativeCode ρ) (f : FunctionSchema) :
    Option NativeFunction :=
  f.linkBy? ParamType.scalar? code

def linkMembers? {ρ : Type} (code : NativeCode ρ) (ms : List MemberSchema) :
    Option NativeModule :=
  linkMembersBy? ParamType.scalar? code ms

end ScriptBridge.Schema
