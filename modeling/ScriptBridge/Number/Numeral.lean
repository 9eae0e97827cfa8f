import ScriptBridge.Number.Decimal

/-!
Numbers from texts. A decimal numeral is an optional sign, digits with an optional point among or
beside them, and an optional power of ten; infinities and NaN are spelled with words. Reading
consumes the whole text or fails.
-/
namespace ScriptBridge.Number

def isDigit (c : Char) : Bool := '0' ≤ c && c ≤ '9'

def digitsValue (cs : List Char) : Nat := Nat.ofDigitChars 10 cs 0

/-- The parts of a numeral. The fraction holds the digits after the point. -/
structure Numeral where
  negative : Bool
  whole : List Char
  fraction : List Char
  exponent : Int
  deriving DecidableEq

namespace Numeral

def splitSign : List Char → Bool × List Char
  | '-' :: rest => (true, rest)
  | '+' :: rest => (false, rest)
  | s => (false, s)

def splitFraction : List Char → List Char × List Char
  | '.' :: rest => (rest.takeWhile isDigit, rest.dropWhile isDigit)
  | s => ([], s)

def readExponent? : List Char → Option Int
  | [] => some 0
  | c :: rest =>
    if c = 'e' ∨ c = 'E' then
      let (negative, digits) := splitSign rest
      if digits ≠ [] ∧ digits.all isDigit then
        some (if negative then -(digitsValue digits : Int) else digitsValue digits)
      else none
    else none

def read? (s : List Char) : Option Numeral :=
  let (negative, s) := splitSign s
  let whole := s.takeWhile isDigit
  let (fraction, s) := splitFraction (s.dropWhile isDigit)
  if whole = [] ∧ fraction = [] then none
  else (readExponent? s).map (⟨negative, whole, fraction, ·⟩)

def magnitude (n : Numeral) : Decimal :=
  ⟨digitsValue (n.whole ++ n.fraction), n.exponent - n.fraction.length⟩

def toBinary (f : Format) (n : Numeral) : Binary f := n.magnitude.toBinary f n.negative

end Numeral

namespace Binary

def ofWord? (f : Format) (negative : Bool) (word : List Char) : Option (Binary f) :=
  let word := word.map Char.toLower
  if word = "inf".toList ∨ word = "infinity".toList then some (.infinity negative)
  else if word = "nan".toList then some .nan
  else none

def read? (f : Format) (s : List Char) : Option (Binary f) :=
  match Numeral.read? s with
  | some n => some (n.toBinary f)
  | none =>
    let (negative, word) := Numeral.splitSign s
    ofWord? f negative word

end Binary

end ScriptBridge.Number
