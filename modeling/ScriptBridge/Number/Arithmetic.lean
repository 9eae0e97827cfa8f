import ScriptBridge.Number.Rounding

/-!
Arithmetic on the data of a format. A result is computed exactly in smallest positive numbers and
rounded once. Casts to machine words go to the nearer end of the word where a number is out of its
range, and take a NaN to zero.
-/
namespace ScriptBridge.Number.Binary

attribute [local instance (high)] instPowNat

variable {f : Format}

def isFinite : Binary f → Bool
  | .finite .. => true
  | _ => false

def neg : Binary f → Binary f
  | .nan => .nan
  | .infinity negative => .infinity !negative
  | .finite negative code => .finite (!negative) code

def withSign (negative : Bool) (n : Nat) : Int := if negative then -(n : Int) else n

def trunc : Binary f → Binary f
  | .finite negative code => ofRatio f negative (f.units code / 2 ^ f.scale) 1
  | x => x

/-- What is left of a number when as many divisors as possible are taken off it toward zero. It has
the sign of the number. -/
def rem : Binary f → Binary f → Binary f
  | .finite negative code, .finite _ divisor =>
    if divisor.val = 0 then .nan
    else ofRatio f negative (f.units code % f.units divisor) (2 ^ f.scale)
  | .finite negative code, .infinity _ => .finite negative code
  | _, _ => .nan

/-- The sum. A sum of zero is negative only if both numbers are. -/
def add : Binary f → Binary f → Binary f
  | .finite s c, .finite t d =>
    let sum := withSign s (f.units c) + withSign t (f.units d)
    ofRatio f (if sum = 0 then s && t else sum < 0) sum.natAbs (2 ^ f.scale)
  | .finite .., .infinity t => .infinity t
  | .infinity s, .finite .. => .infinity s
  | .infinity s, .infinity t => if s = t then .infinity s else .nan
  | _, _ => .nan

def le : Binary f → Binary f → Bool
  | .finite s c, .finite t d => withSign s (f.units c) ≤ withSign t (f.units d)
  | .finite .., .infinity t => !t
  | .infinity s, .finite .. => s
  | .infinity s, .infinity t => s || !t
  | _, _ => false

/-- The whole part, or the nearer of two bounds where it is not between them. -/
def saturate (low high : Int) : Binary f → Int
  | .nan => 0
  | .infinity negative => if negative then low else high
  | .finite negative code =>
    max low (min high (withSign negative (f.units code / 2 ^ f.scale)))

def toUnsigned (bits : Nat) (x : Binary f) : BitVec bits :=
  BitVec.ofInt bits (x.saturate 0 (2 ^ bits - 1))

def toSigned (bits : Nat) (x : Binary f) : BitVec bits :=
  BitVec.ofInt bits (x.saturate (-2 ^ (bits - 1)) (2 ^ (bits - 1) - 1))

end ScriptBridge.Number.Binary
