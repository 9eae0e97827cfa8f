import ScriptBridge.Number.Numeral
import ScriptBridge.Number.Shortest
import ScriptBridge.Text.Blank
import ScriptBridge.Text.Quoted

/-!
The values that a script passes in its argument slots, and how each of them reads as a number or
as text. Texts that are decimal numerals between blanks read as numbers; nothing but a text reads
as text.
-/
namespace ScriptBridge

open ScriptBridge.Number

inductive Value where
  | nil
  | bool (b : Bool)
  | int (i : Int64)
  | float (x : Double)
  | string (s : String)
  deriving DecidableEq

namespace Value

def typeName : Value → String
  | .nil => "nil"
  | .bool _ => "boolean"
  | .int _ => "integer"
  | .float _ => "number"
  | .string _ => "string"

/-- The letters that tell the words for infinities and NaN from numerals. -/
def isWordLetter (c : Char) : Bool := c == 'i' || c == 'I' || c == 'n' || c == 'N'

/-- The number that a text stands for. Infinities and NaN, which the reader knows by their words,
are plain text to scripts. -/
def readNumber? (s : String) : Option Double :=
  let text := Text.trim s.toList
  if text.any isWordLetter then none else Binary.read? .double text

def number? : Value → Option Double
  | .int i => some (Binary.ofInt .double i.toInt)
  | .float x => some x
  | .string s => readNumber? s
  | .nil | .bool _ => none

def text? : Value → Option String
  | .string s => some s
  | _ => none

/-- Equality as scripts see it: floats compare as numbers, and kinds never mix. -/
def same : Value → Value → Bool
  | .float x, .float y => x.numEq y
  | v, w => v == w

def describe : Value → String
  | .nil => "Nil"
  | .bool b => "Bool(" ++ (if b then "true" else "false") ++ ")"
  | .int i => "Int(" ++ toString i.toInt ++ ")"
  | .float x => "Float(" ++ String.ofList x.text ++ ")"
  | .string s => "String(" ++ Text.quote s ++ ")"

end Value

class ToValue (α : Type) where
  toValue : α → Value

export ToValue (toValue)

instance : ToValue Bool := ⟨.bool⟩
instance : ToValue Int64 := ⟨.int⟩
instance : ToValue Int32 := ⟨fun i => .int i.toInt64⟩
instance : ToValue Double := ⟨.float⟩
instance : ToValue String := ⟨.string⟩

instance {α : Type} [ToValue α] : ToValue (Option α) := ⟨fun x => (x.map toValue).getD .nil⟩

end ScriptBridge
