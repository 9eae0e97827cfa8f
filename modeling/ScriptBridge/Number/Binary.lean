/-!
Binary floating point with the sizes of its fields as parameters. The magnitudes of a format are
numbered upwards from zero, and a finite number is a sign with such a code. In units of the
smallest positive number every magnitude is a whole number, so that all of the arithmetic on
numbers of a format is arithmetic on naturals.
-/
namespace ScriptBridge.Number

-- Powers are those of the core library, whatever other powers are in scope.
attribute [local instance (high)] instPowNat

/-- An interchange format, given by the sizes of the two fields below the sign. -/
structure Format where
  fractionBits : Nat
  exponentBits : Nat
  deriving DecidableEq

namespace Format

def single : Format := ⟨23, 8⟩

def double : Format := ⟨52, 11⟩

/-- The smallest positive number of the format is `2 ^ (-scale)`. -/
def scale (f : Format) : Nat := 2 ^ (f.exponentBits - 1) - 2 + f.fractionBits

def infinityCode (f : Format) : Nat := (2 ^ f.exponentBits - 1) * 2 ^ f.fractionBits

def signPlace (f : Format) : Nat := 2 ^ (f.exponentBits + f.fractionBits)

/-- The magnitude with the given code, counted in smallest positive numbers. -/
def units (f : Format) (code : Nat) : Nat :=
  if code < 2 ^ f.fractionBits then code
  else (2 ^ f.fractionBits + code % 2 ^ f.fractionBits) * 2 ^ (code / 2 ^ f.fractionBits - 1)

end Format

/-- A datum of a format. The payload of a NaN is not kept. -/
inductive Binary (f : Format) where
  | nan
  | infinity (negative : Bool)
  | finite (negative : Bool) (code : Fin f.infinityCode)
  deriving DecidableEq

abbrev Single := Binary .single

abbrev Double := Binary .double

namespace Binary

variable {f : Format}

/-- The datum with the sign and the code given, where codes past the last magnitude are infinite. -/
def ofCode (f : Format) (negative : Bool) (code : Nat) : Binary f :=
  if h : code < f.infinityCode then .finite negative ⟨code, h⟩ else .infinity negative

def zero (f : Format) (negative : Bool) : Binary f := ofCode f negative 0

def ofBits (f : Format) (bits : Nat) : Binary f :=
  let code := bits % f.signPlace
  if f.infinityCode < code then .nan
  else ofCode f (bits / f.signPlace % 2 == 1) code

def signBit (f : Format) (negative : Bool) : Nat := if negative then f.signPlace else 0

/-- The bit pattern of a datum. All NaNs have the pattern of the first quiet one. -/
def toBits : Binary f → Nat
  | .nan => f.infinityCode + 2 ^ (f.fractionBits - 1)
  | .infinity negative => signBit f negative + f.infinityCode
  | .finite negative code => signBit f negative + code

def isNaN : Binary f → Bool
  | .nan => true
  | _ => false

/-- Comparison as numbers: a NaN differs from everything and the two zeros are equal. -/
def numEq : Binary f → Binary f → Bool
  | .nan, _ => false
  | _, .nan => false
  | .finite s c, .finite t d => c == d && (s == t || c.val == 0)
  | x, y => x == y

end Binary

end ScriptBridge.Number
