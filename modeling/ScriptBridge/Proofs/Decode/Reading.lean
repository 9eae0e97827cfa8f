import ScriptBridge.Decode.Argument

/-!
What decoding makes of one position. A reading is converted to the declared type under either
policy. Where there is none, the zero of the type is substituted and reported, or the call fails.
-/
namespace ScriptBridge

open ScriptBridge.Number

namespace Source

variable {source : Source} {position : Nat}

def report (source : Source) (position : Nat) (expected : Scalar.Reading) : Effect :=
  .event (.substituted (source.failure position expected))

theorem readNumber_of_some {x : Double} (h : source.number? position = some x) (policy : Policy) :
    source.readNumber position policy = ⟨[], .ok x⟩ := by
  rw [readNumber, h]
  rfl

theorem readText_of_some {t : String} (h : source.text? position = some t) (policy : Policy) :
    source.readText position policy = ⟨[], .ok t⟩ := by
  rw [readText, h]
  rfl

theorem readNumber_lenient (h : source.number? position = none) :
    source.readNumber position .lenient =
      ⟨[source.report position .number], .ok (.zero .double false)⟩ := by
  rw [readNumber, h]
  rfl

theorem readText_lenient (h : source.text? position = none) :
    source.readText position .lenient = ⟨[source.report position .string], .ok ""⟩ := by
  rw [readText, h]
  rfl

theorem readNumber_strict (h : source.number? position = none) :
    source.readNumber position .strict = ⟨[], .error (source.failure position .number)⟩ := by
  rw [readNumber, h]
  rfl

theorem readText_strict (h : source.text? position = none) :
    source.readText position .strict = ⟨[], .error (source.failure position .string)⟩ := by
  rw [readText, h]
  rfl

end Source

namespace Scalar

def zero : (s : Scalar) → s.Carrier
  | .int _ width => BitVec.ofNat width.bits 0
  | .float kind => Binary.zero kind.format false
  | .text => ""

def reading : Scalar → Reading
  | .text => .string
  | _ => .number

def read? (source : Source) (position : Nat) : (s : Scalar) → Option s.Carrier
  | .int _ width => (source.number? position).map (wordOfNumber width)
  | .float .single => (source.number? position).map (Binary.convert .single)
  | .float .double => source.number? position
  | .text => source.text? position

theorem wordOfNumber_zero (width : Width) :
    wordOfNumber width (.zero .double false) = BitVec.ofNat width.bits 0 := by
  have h : wrap (.zero .double false) = 0 := by decide +kernel
  rw [wordOfNumber, h]
  exact BitVec.setWidth_zero _ _

theorem convert_zero : Binary.convert .single (.zero .double false) = .zero .single false := by
  decide +kernel

variable {source : Source} {position : Nat} {s : Scalar}

theorem decode_of_read? {v : s.Carrier} (h : s.read? source position = some v) (policy : Policy) :
    s.decode source position policy = ⟨[], .ok v⟩ := by
  cases s with
  | int signed width =>
    obtain ⟨x, hx, rfl⟩ := Option.map_eq_some_iff.1 h
    rw [decode, Source.readNumber_of_some hx]
    rfl
  | float kind =>
    cases kind with
    | single =>
      obtain ⟨x, hx, rfl⟩ := Option.map_eq_some_iff.1 h
      rw [decode, Source.readNumber_of_some hx]
      rfl
    | double => exact Source.readNumber_of_some h policy
  | text => exact Source.readText_of_some h policy

theorem decode_lenient_of_none (h : s.read? source position = none) :
    s.decode source position .lenient = ⟨[source.report position s.reading], .ok s.zero⟩ := by
  cases s with
  | int signed width =>
    have hx := Option.map_eq_none_iff.1 h
    rw [decode, Source.readNumber_lenient hx]
    simp only [Run.map, Except.map, wordOfNumber_zero]
    rfl
  | float kind =>
    cases kind with
    | single =>
      have hx := Option.map_eq_none_iff.1 h
      rw [decode, Source.readNumber_lenient hx]
      simp only [Run.map, Except.map, convert_zero]
      rfl
    | double => exact Source.readNumber_lenient h
  | text => exact Source.readText_lenient h

theorem decode_strict_of_none (h : s.read? source position = none) :
    s.decode source position .strict = ⟨[], .error (source.failure position s.reading)⟩ := by
  cases s with
  | int signed width =>
    rw [decode, Source.readNumber_strict (Option.map_eq_none_iff.1 h)]
    rfl
  | float kind =>
    cases kind with
    | single =>
      rw [decode, Source.readNumber_strict (Option.map_eq_none_iff.1 h)]
      rfl
    | double => exact Source.readNumber_strict h
  | text => exact Source.readText_strict h

end Scalar

theorem Tag.decode_scalar (source : Source) (position : Nat) (policy : Policy) (s : Scalar) :
    Tag.decode source position policy (.scalar s) =
      (s.decode source position policy).map (⟨s, ·⟩) := rfl

theorem Tag.decode_of_read? {source : Source} {position : Nat} {s : Scalar} {v : s.Carrier}
    (h : s.read? source position = some v) (policy : Policy) :
    Tag.decode source position policy (.scalar s) = ⟨[], .ok ⟨s, v⟩⟩ := by
  rw [Tag.decode_scalar, Scalar.decode_of_read? h]
  rfl

end ScriptBridge
