import ScriptBridge.Tag.Basic

/-!
What can be wrong with one argument, and the two policies for an argument that cannot be read.
-/
namespace ScriptBridge

/-- A lenient call goes on with the zero of the declared type; a strict one fails. -/
inductive Policy where
  | lenient
  | strict
  deriving DecidableEq

def Policy.label : Policy → String
  | .lenient => "Lenient"
  | .strict => "Strict"

inductive DecodeError where
  | missing (position supplied : Nat)
  | mismatch (position : Nat) (expected : Scalar.Reading) (actual : String)
  | unsupported (tag : Tag)
  deriving DecidableEq

def DecodeError.message : DecodeError → String
  | .missing position supplied =>
    "argument #" ++ toString position ++ " is missing (call supplied " ++ toString supplied ++
      " arguments)"
  | .mismatch position expected actual =>
    "argument #" ++ toString position ++ ": expected " ++ expected.word ++ ", got " ++ actual
  | .unsupported tag => "type `" ++ tag.text ++ "` cannot cross the script boundary"

end ScriptBridge
