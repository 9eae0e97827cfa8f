import ScriptBridge.Scalar
import ScriptBridge.Text.Quoted

/-!
Type tags name the declared types of native parameters, and have a text each. Scalars can be
bound; the other tags exist so that a declaration can say what it cannot bind.
-/
namespace ScriptBridge

inductive Tag where
  | scalar (kind : Scalar)
  | bool
  | pointer
  | void
  | array (element : Tag)
  | struct (name : String)
  deriving DecidableEq

namespace Tag

def scalar? : Tag → Option Scalar
  | .scalar kind => some kind
  | _ => none

def isSupported (t : Tag) : Bool := t.scalar?.isSome

def layers : Nat → Tag → Tag
  | 0, t => t
  | n + 1, t => .array (layers n t)

def structIntro : List Char := ['s', 't', 'r', 'u', 'c', 't', ' ']

def chars : Tag → List Char
  | .scalar kind => kind.word.toList
  | .bool => ['b', 'o', 'o', 'l']
  | .pointer => ['p', 't', 'r']
  | .void => ['v', 'o', 'i', 'd']
  | .array element => '[' :: element.chars ++ [']']
  | .struct name => structIntro ++ name.toList

def text (t : Tag) : String := String.ofList t.chars

def describe : Tag → String
  | .scalar kind => kind.label
  | .bool => "Bool"
  | .pointer => "Pointer"
  | .void => "Void"
  | .array element => "Array(" ++ element.describe ++ ")"
  | .struct name => "Struct(" ++ Text.quote name ++ ")"

def describeAll (ts : List Tag) : String :=
  "[" ++ ", ".intercalate (ts.map describe) ++ "]"

end Tag

end ScriptBridge
