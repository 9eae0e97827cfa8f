import ScriptBridge.Journal.Run
import ScriptBridge.Number.Arithmetic
import ScriptBridge.Script.Source

/-!
Decoding of one argument by the type it was declared with. A slot is read as a number or as text,
and what cannot be read is replaced by a zero under the lenient policy and reported under the strict
one. Numbers then become integers by truncation and reduction modulo the width, and
single-precision floats by rounding.
-/
namespace ScriptBridge

open ScriptBridge.Number

namespace Source

def failure (source : Source) (position : Nat) (expected : Scalar.Reading) : DecodeError :=
  if position = 0 ∨ source.count < position then .missing position source.count
  else .mismatch position expected (source.kind position)

def fallback {α : Type} (source : Source) (position : Nat) (policy : Policy)
    (expected : Scalar.Reading) (zero : α) : Run DecodeError α :=
  match policy with
  | .strict => .fail (source.failure position expected)
  | .lenient => do
    Run.emit (.substituted (source.failure position expected))
    pure zero

def readNumber (source : Source) (position : Nat) (policy : Policy) : Run DecodeError Double :=
  match source.number? position with
  | some x => pure x
  | none => source.fallback position policy .number (.zero .double false)

def readText (source : Source) (position : Nat) (policy : Policy) : Run DecodeError String :=
  match source.text? position with
  | some s => pure s
  | none => source.fallback position policy .string ""

end Source

namespace Scalar

attribute [local instance (high)] instPowNat

def twoPow63 : Double := .ofInt .double (2 ^ (63 : Nat))

def twoPow64 : Double := .ofInt .double (2 ^ (64 : Nat))

/-- The whole part of a number modulo `2 ^ 64`, and zero if it has none. The remainder lies
between the two powers, so one cast of three takes it without loss. -/
def wrap (x : Double) : BitVec 64 :=
  if x.isFinite then
    let r := x.trunc.rem twoPow64
    if twoPow63.le r then r.toUnsigned 64
    else if twoPow63.neg.le r then r.toSigned 64
    else (r.add twoPow64).toUnsigned 64
  else 0

/-- The low bits of a wrapped number. A signed type reads the same bits with their sign. -/
def wordOfNumber (width : Width) (x : Double) : BitVec width.bits :=
  (wrap x).setWidth width.bits

def decode (source : Source) (position : Nat) (policy : Policy) :
    (s : Scalar) → Run DecodeError s.Carrier
  | .int _ width => (source.readNumber position policy).map (wordOfNumber width)
  | .float .single => (source.readNumber position policy).map (Binary.convert .single)
  | .float .double => source.readNumber position policy
  | .text => source.readText position policy

end Scalar

def Tag.decode (source : Source) (position : Nat) (policy : Policy) (t : Tag) :
    Run DecodeError NativeValue :=
  match t.scalar? with
  | none => .fail (.unsupported t)
  | some s => (s.decode source position policy).map (⟨s, ·⟩)

def Tag.decodeAll (source : Source) (policy : Policy) (position : Nat) :
    List Tag → Run DecodeError (List NativeValue)
  | [] => pure []
  | t :: ts => do
    let v ← t.decode source position policy
    let vs ← decodeAll source policy (position + 1) ts
    pure (v :: vs)

end ScriptBridge
