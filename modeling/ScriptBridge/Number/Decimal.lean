import ScriptBridge.Number.Rounding

/-!
Decimal numbers as whole digits with a power of ten, and their rounding to a binary format. The
power is bounded before it is raised: past either bound the answer is an infinity or a zero.
-/
namespace ScriptBridge.Number

attribute [local instance (high)] instPowNat

/-- The number `digits * 10 ^ exponent`. -/
structure Decimal where
  digits : Nat
  exponent : Int
  deriving DecidableEq

namespace Decimal

def ratio (d : Decimal) : Nat × Nat :=
  (d.digits * 10 ^ d.exponent.toNat, 10 ^ (-d.exponent).toNat)

def toBinary (f : Format) (negative : Bool) (d : Decimal) : Binary f :=
  if d.digits = 0 then .zero f negative
  else if (2 : Int) ^ (f.exponentBits - 1) ≤ d.exponent then .infinity negative
  else if (d.digits.log2 + f.scale + 2 : Int) ≤ -d.exponent then .zero f negative
  else .ofRatio f negative d.ratio.1 d.ratio.2

end Decimal

end ScriptBridge.Number
