import ScriptBridge.Number.Binary

/-!
The scalar types, those native types that can cross the script boundary: integers of four widths,
two floating-point formats and text. Each has a carrier of values.
-/
namespace ScriptBridge

inductive Width where
  | w8
  | w16
  | w32
  | w64
  deriving DecidableEq

def Width.bits : Width → Nat
  | .w8 => 8
  | .w16 => 16
  | .w32 => 32
  | .w64 => 64

inductive FloatKind where
  | single
  | double
  deriving DecidableEq

def FloatKind.format : FloatKind → Number.Format
  | .single => .single
  | .double => .double

def FloatKind.bits : FloatKind → Nat
  | .single => 32
  | .double => 64

inductive Scalar where
  | int (signed : Bool) (width : Width)
  | float (kind : FloatKind)
  | text
  deriving DecidableEq

namespace Scalar

/-- The native values of a scalar type. Integers are words, read as signed or not by their type. -/
abbrev Carrier : Scalar → Type
  | .int _ width => BitVec width.bits
  | .float kind => Number.Binary kind.format
  | .text => String

instance : (s : Scalar) → DecidableEq s.Carrier
  | .int _ width => inferInstanceAs (DecidableEq (BitVec width.bits))
  | .float kind => inferInstanceAs (DecidableEq (Number.Binary kind.format))
  | .text => inferInstanceAs (DecidableEq String)

/-- What a script has to supply for a scalar: a number or a string. -/
inductive Reading where
  | number
  | string
  deriving DecidableEq

def Reading.word : Reading → String
  | .number => "number"
  | .string => "string"

def word : Scalar → String
  | .int true .w8 => "i8"
  | .int true .w16 => "i16"
  | .int true .w32 => "i32"
  | .int true .w64 => "i64"
  | .int false .w8 => "u8"
  | .int false .w16 => "u16"
  | .int false .w32 => "u32"
  | .int false .w64 => "u64"
  | .float .single => "f32"
  | .float .double => "f64"
  | .text => "text"

def label : Scalar → String
  | .int true .w8 => "I8"
  | .int true .w16 => "I16"
  | .int true .w32 => "I32"
  | .int true .w64 => "I64"
  | .int false .w8 => "U8"
  | .int false .w16 => "U16"
  | .int false .w32 => "U32"
  | .int false .w64 => "U64"
  | .float .single => "F32"
  | .float .double => "F64"
  | .text => "Text"

end Scalar

end ScriptBridge
