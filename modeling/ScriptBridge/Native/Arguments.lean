import ScriptBridge.Decode.Error
import ScriptBridge.Native.Value

/-!
The decoded arguments of one native call, and typed access to them. Indices count from zero.
-/
namespace ScriptBridge

inductive NativeError where
  | decode (cause : DecodeError)
  | argumentType (index : Nat) (expected actual : Tag)
  | indexOutOfBounds (index count : Nat)
  | other (message : String)
  deriving DecidableEq

def NativeError.message : NativeError → String
  | .decode cause => "decode error: " ++ cause.message
  | .argumentType index expected actual =>
    "argument " ++ toString index ++ " is " ++ actual.text ++ ", requested as " ++ expected.text
  | .indexOutOfBounds index count =>
    "argument index " ++ toString index ++ " out of bounds (function has " ++ toString count ++
      " arguments)"
  | .other message => "native error: " ++ message

structure Arguments where
  values : List NativeValue

namespace Arguments

def size (args : Arguments) : Nat := args.values.length

def isEmpty (args : Arguments) : Bool := args.values.isEmpty

def value (args : Arguments) (index : Nat) : Except NativeError NativeValue :=
  match args.values[index]? with
  | some v => .ok v
  | none => .error (.indexOutOfBounds index args.size)

/-- The value at an index as a member of the scalar type that is asked for. -/
def get (args : Arguments) (s : Scalar) (index : Nat) : Except NativeError s.Carrier :=
  match args.value index with
  | .error e => .error e
  | .ok v =>
    if h : v.kind = s then .ok (h ▸ v.value)
    else .error (.argumentType index (.scalar s) v.tag)

end Arguments

end ScriptBridge
