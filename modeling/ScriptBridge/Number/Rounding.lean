import ScriptBridge.Number.Binary

/-!
Rounding of exact ratios to a binary format, to the nearest number with ties to the even code.
Because codes follow the order of magnitudes and a carry out of the fraction lands in the next
code, one formula serves subnormal numbers, normal numbers and overflow.
-/
namespace ScriptBridge.Number

attribute [local instance (high)] instPowNat

/-- The whole number nearest to `n / d`, the even one of two that are equally near. -/
def divHalfEven (n d : Nat) : Nat :=
  let q := n / d
  let r := n % d
  if 2 * r < d then q
  else if d < 2 * r then q + 1
  else q + q % 2

def Format.nearestCode (f : Format) (n d : Nat) : Nat :=
  let shift := (n / d).log2 - f.fractionBits
  shift * 2 ^ f.fractionBits + divHalfEven n (d * 2 ^ shift)

namespace Binary

def ofRatio (f : Format) (negative : Bool) (n d : Nat) : Binary f :=
  ofCode f negative (f.nearestCode (n * 2 ^ f.scale) d)

def ofInt (f : Format) (i : Int) : Binary f := ofRatio f (i < 0) i.natAbs 1

def convert {f : Format} (g : Format) : Binary f → Binary g
  | .nan => .nan
  | .infinity negative => .infinity negative
  | .finite negative code => ofRatio g negative (f.units code) (2 ^ f.scale)

end Binary

end ScriptBridge.Number
