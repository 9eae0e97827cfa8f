import ScriptBridge.Proofs.Binding.Policies
import ScriptBridge.Proofs.Decode.Truncation
import ScriptBridge.Proofs.Number.Widening

/-!
What arrives of a native value that a script passes. Floats and texts arrive as they are. Integers
go through a double on the way, and arrive unchanged exactly if they are one.
-/
namespace ScriptBridge

open ScriptBridge.Number ScriptBridge.Number.Binary

namespace Scalar

def deliver : (s : Scalar) → s.Carrier → s.Carrier
  | .int signed width, v => wordOfNumber width (ofInt .double (wordValue signed v))
  | .float _, x => x
  | .text, t => t

/-- A value that a script can pass without loss: an integer has to be the value of a double. -/
def IsExact : (s : Scalar) → s.Carrier → Prop
  | .int signed _, v => ∃ x : Double, x.value? = some (wordValue signed v : ℚ)
  | .float _, _ => True
  | .text, _ => True

variable {signed : Bool} {width : Width} {v : BitVec width.bits}

theorem isExact_of_natAbs_le (h : (wordValue signed v).natAbs ≤ 2 ^ 53) :
    IsExact (.int signed width) v := by
  obtain ⟨n, hn, hsame⟩ := exists_value?_ofInt (h.trans (by decide))
  rw [hsame h] at hn
  exact ⟨_, hn⟩

/-- Integers with one word are the same where one is too large for the narrower words and the other
is not farther away from it than zero. -/
theorem eq_of_modEq_of_near {i n : ℤ} (width : Width) (hword : i.natAbs < 2 ^ width.bits)
    (hlarge : 2 ^ 53 < i.natAbs) (hfits : i.natAbs ≤ 2 ^ 63) (hnear : |n - i| ≤ |0 - i|)
    (hmod : i ≡ n [ZMOD 2 ^ width.bits]) : n = i := by
  obtain ⟨k, hk⟩ := hmod.dvd
  rw [Int.abs_eq_natAbs, Int.abs_eq_natAbs] at hnear
  cases width <;> simp only [Width.bits] at hword hk <;> omega

/-- An integer arrives as the integer of the nearest double, in the word of its type. -/
theorem exists_deliver_int (h : (wordValue signed v).natAbs ≤ 2 ^ 63) :
    ∃ n : ℤ, (ofInt .double (wordValue signed v)).value? = some (n : ℚ) ∧
      deliver (.int signed width) v = BitVec.ofInt width.bits n := by
  obtain ⟨n, hn, -⟩ := exists_value?_ofInt h
  refine ⟨n, hn, ?_⟩
  rw [deliver, wordOfNumber_of_value? width hn, wholePart_intCast]

theorem isExact_of_ne_w64 (h : width ≠ .w64) : IsExact (.int signed width) v := by
  have hword := natAbs_wordValue_lt signed v
  apply isExact_of_natAbs_le
  cases width with
  | w64 => exact absurd rfl h
  | _ => simp only [Width.bits] at hword ⊢; omega

theorem deliver_int_eq_iff (h : (wordValue signed v).natAbs ≤ 2 ^ 63) :
    deliver (.int signed width) v = v ↔ IsExact (.int signed width) v := by
  obtain ⟨n, hn, hdeliver⟩ := exists_deliver_int h
  rw [hdeliver]
  constructor
  · intro hv
    by_cases hsmall : (wordValue signed v).natAbs ≤ 2 ^ 53
    · exact isExact_of_natAbs_le hsmall
    · have hmod := (eq_ofInt_iff signed).1 hv.symm
      have hnear := abs_sub_le_of_value? h hn value?_zero
      have hsame : n = wordValue signed v :=
        eq_of_modEq_of_near width (natAbs_wordValue_lt signed v) (Nat.not_le.1 hsmall) h hnear hmod
      rw [hsame] at hn
      exact ⟨_, hn⟩
  · rintro ⟨x, hx⟩
    have hnear := abs_sub_le_of_value? h hn hx
    have hsame : n = wordValue signed v := by
      simp only [Int.abs_eq_natAbs] at hnear
      omega
    rw [hsame, ofInt_wordValue]

end Scalar

namespace NativeValue

/-- The script values that stand for a native value. An integer is passed as an integer, which has
to fit into 64 bits with a sign. -/
inductive PassedAs : NativeValue → Value → Prop
  | int {signed : Bool} {width : Width} {v : BitVec width.bits} {i : Int64}
      (h : i.toInt = wordValue signed v) : PassedAs ⟨.int signed width, v⟩ (.int i)
  | single (x : Single) : PassedAs ⟨.float .single, x⟩ (.float (x.convert .double))
  | double (x : Double) : PassedAs ⟨.float .double, x⟩ (.float x)
  | text (t : String) : PassedAs ⟨.text, t⟩ (.string t)

def delivered (v : NativeValue) : NativeValue := ⟨v.kind, v.kind.deliver v.value⟩

def IsExact (v : NativeValue) : Prop := v.kind.IsExact v.value

variable {v : NativeValue} {slot : Value}

theorem PassedAs.read?_eq (h : v.PassedAs slot) {frame : Frame} {position : Nat}
    (hslot : frame.slot? position = some slot) :
    v.kind.read? frame.source position = some (v.kind.deliver v.value) := by
  have hnumber : frame.source.number? position = slot.number? := by
    simp [Frame.source, hslot]
  have htext : frame.source.text? position = slot.text? := by
    simp [Frame.source, hslot]
  cases h with
  | int h => simp [Scalar.read?, hnumber, Value.number?, Scalar.deliver, h]
  | single x =>
    change (frame.source.number? position).map (convert .single) = some x
    rw [hnumber]
    exact congrArg some (convert_convert single_widens_double (by decide) x)
  | double x => exact hnumber
  | text t => exact htext

theorem PassedAs.natAbs_le {signed : Bool} {width : Width} {w : BitVec width.bits}
    (h : PassedAs ⟨.int signed width, w⟩ slot) : (wordValue signed w).natAbs ≤ 2 ^ 63 := by
  cases h with
  | int h => exact h ▸ Scalar.natAbs_toInt_le _

theorem PassedAs.delivered_eq_iff (h : v.PassedAs slot) : v.delivered = v ↔ v.IsExact := by
  cases h with
  | @int signed width w i h =>
    have hfits : (wordValue signed w).natAbs ≤ 2 ^ 63 := (PassedAs.int h).natAbs_le
    rw [IsExact, ← Scalar.deliver_int_eq_iff hfits]
    simp [delivered]
  | single x => simp [delivered, Scalar.deliver, IsExact, Scalar.IsExact]
  | double x => simp [delivered, Scalar.deliver, IsExact, Scalar.IsExact]
  | text t => simp [delivered, Scalar.deliver, IsExact, Scalar.IsExact]

theorem exists_passedAs {values : List NativeValue} {frame : Frame}
    (h : List.Forall₂ PassedAs values frame) (hv : v ∈ values) : ∃ slot, v.PassedAs slot := by
  induction h with
  | nil => cases hv
  | cons hslot _ ih =>
    rcases List.mem_cons.1 hv with rfl | hv
    · exact ⟨_, hslot⟩
    · exact ih hv

theorem map_delivered_eq_iff {values : List NativeValue} {frame : Frame}
    (h : List.Forall₂ PassedAs values frame) :
    values.map delivered = values ↔ ∀ v ∈ values, v.IsExact := by
  induction h with
  | nil => simp
  | cons hslot hrest ih => simp [hslot.delivered_eq_iff, ih]

theorem unread_and_passed {values : List NativeValue} {slots : Frame}
    (h : List.Forall₂ PassedAs values slots) (before : Frame) :
    let source := Frame.source (before ++ slots)
    source.unread (before.length + 1) (values.map kind) = [] ∧
      source.passed (before.length + 1) (values.map kind) = values.map delivered := by
  induction h generalizing before with
  | nil => exact ⟨rfl, rfl⟩
  | @cons v slot values slots hslot hrest ih =>
    intro source
    have hread : v.kind.read? source (before.length + 1) = some (v.kind.deliver v.value) :=
      hslot.read?_eq (by simp [Frame.slot?])
    have hnext := ih (before ++ [slot])
    rw [List.append_assoc, List.length_append] at hnext
    rw [List.map_cons, Source.unread_of_some hread, Source.passed, hread]
    exact ⟨hnext.1, congrArg (v.delivered :: ·) hnext.2⟩

end NativeValue

theorem Tag.decodeAll_of_passedAs {values : List NativeValue} {frame : Frame}
    (h : List.Forall₂ NativeValue.PassedAs values frame) (policy : Policy) :
    Tag.decodeAll frame.source policy 1 (values.map NativeValue.tag) =
      ⟨[], .ok (values.map NativeValue.delivered)⟩ := by
  obtain ⟨hunread, hpassed⟩ := NativeValue.unread_and_passed h []
  have htags : values.map NativeValue.tag = (values.map NativeValue.kind).map .scalar := by
    simp [NativeValue.tag]
  rw [List.nil_append] at hunread hpassed
  rw [htags]
  cases policy with
  | lenient =>
    rw [Tag.decodeAll_lenient]
    simp only [List.length_nil, Nat.zero_add] at hunread hpassed
    rw [hunread, hpassed, List.map_nil]
  | strict =>
    rw [Tag.decodeAll_strict]
    simp only [List.length_nil, Nat.zero_add] at hunread hpassed
    rw [hunread, hpassed]

end ScriptBridge
