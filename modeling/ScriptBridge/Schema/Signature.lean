import ScriptBridge.Schema.TypeExpr

/-!
Signatures of functions and the schemas that are extracted from them. A function that scripts can
call is not generic, not async and not variadic, and takes parameters of the allowed types only;
the first violation in this order is reported.
-/
namespace ScriptBridge.Schema

inductive Input where
  | receiver
  | typed (type : TypeExpr)

structure Signature where
  generics : List String
  whereClause : Option String
  isAsync : Bool
  isVariadic : Bool
  inputs : List Input

namespace Signature

/-- A receiver may stand in front of the inputs only, and only once. -/
def placement (seen first : Bool) : List Input → Except Problem Unit
  | [] => .ok ()
  | .receiver :: rest =>
    if seen then .error .repeatedReceiver
    else if !first then .error .misplacedReceiver
    else placement true false rest
  | .typed _ :: rest => placement seen false rest

def wellPlaced (s : Signature) : Except Problem Unit := placement false true s.inputs

def checkHead (s : Signature) : Except Problem Unit :=
  if !s.generics.isEmpty || s.whereClause.isSome then .error .generic
  else if s.isAsync then .error .async
  else if s.isVariadic then .error .variadic
  else .ok ()

def checkInput : Input → Except Problem ParamType
  | .receiver => .error .receiver
  | .typed (.implTrait _) => .error .implTrait
  | .typed type =>
    match type.param? with
    | some p => .ok p
    | none => .error .unsupportedType

def checkInputs : List Input → Except Problem (List ParamType)
  | [] => .ok []
  | i :: is => do
    let p ← checkInput i
    let ps ← checkInputs is
    .ok (p :: ps)

end Signature

/-- What is known about a bindable function: its script name, the types of its parameters in
order, and the native function that is called with them. -/
structure FunctionSchema where
  name : String
  params : List ParamType
  target : String
  deriving DecidableEq

def Signature.schema (s : Signature) (target scriptName : String) :
    Except Problem FunctionSchema := do
  s.checkHead
  let params ← checkInputs s.inputs
  .ok ⟨scriptName, params, target⟩

end ScriptBridge.Schema
