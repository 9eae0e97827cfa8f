import ScriptBridge.Number.Decimal

/-!
The shortest decimal that reads back as a given magnitude, and its positional text. Every
magnitude of a format is a decimal of finitely many digits; the search cuts it shorter and keeps
the first length at which a neighbour on that decimal grid still reads back.
-/
namespace ScriptBridge.Number

attribute [local instance (high)] instPowNat

def wholeText (n : Nat) : List Char := Nat.toDigits 10 n

namespace Decimal

def readsBack (f : Format) (code : Nat) (d : Decimal) : Bool :=
  d.toBinary f false == .ofCode f false code

/-- Cuts `cut` digits off `digits * 10 ^ exponent` and takes the neighbour of the remainder that
reads back, the nearer one if both do and the upper one of two equally near. -/
def neighbour? (f : Format) (code : Nat) (exact : Decimal) (cut : Nat) : Option Decimal :=
  let lower : Decimal := ⟨exact.digits / 10 ^ cut, exact.exponent + cut⟩
  let upper : Decimal := ⟨lower.digits + 1, lower.exponent⟩
  match lower.readsBack f code, upper.readsBack f code with
  | true, true => some (if 2 * (exact.digits % 10 ^ cut) < 10 ^ cut then lower else upper)
  | true, false => some lower
  | false, true => some upper
  | false, false => none

def refine (f : Format) (code : Nat) (exact : Decimal) : Nat → Decimal
  | 0 => exact
  | cut + 1 => (neighbour? f code exact (cut + 1)).getD (refine f code exact cut)

def ofCode (f : Format) (code : Nat) : Decimal :=
  ⟨f.units code * 5 ^ f.scale, -f.scale⟩

def shortest (f : Format) (code : Nat) : Decimal :=
  let exact := ofCode f code
  refine f code exact ((wholeText exact.digits).length - 1)

/-- Digits with a point and without a power of ten. There is no point before a fraction of zeros. -/
def positional (d : Decimal) : List Char :=
  let digits := wholeText d.digits
  if 0 ≤ d.exponent then digits ++ List.replicate d.exponent.toNat '0'
  else
    let places := (-d.exponent).toNat
    let padded := List.replicate (places + 1 - digits.length) '0' ++ digits
    let whole := padded.take (padded.length - places)
    let fraction := padded.drop (padded.length - places)
    let fraction := (fraction.reverse.dropWhile (· == '0')).reverse
    if fraction = [] then whole else whole ++ '.' :: fraction

end Decimal

namespace Binary

variable {f : Format}

def signed (negative : Bool) (magnitude : List Char) : List Char :=
  if negative then '-' :: magnitude else magnitude

def text : Binary f → List Char
  | .nan => ['N', 'a', 'N']
  | .infinity negative => signed negative ['i', 'n', 'f']
  | .finite negative code =>
    signed negative
      (if code.val = 0 then ['0'] else (Decimal.shortest f code).positional)

end Binary

end ScriptBridge.Number
