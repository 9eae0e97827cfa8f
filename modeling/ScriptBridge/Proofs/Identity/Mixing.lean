import ScriptBridge.Identity.BindingId

/-!
What mixing keeps of its parts. The step for a parameter loses nothing of the word before it,
because its multiplier is odd. The namespace and the name are only combined bit by bit before the
first step, so that an identity knows neither their order nor a text that is both of them.
-/
namespace ScriptBridge.BindingId

def multiplierInverse : UInt64 := 0x671b31c665dc0683

theorem multiplier_mul_inverse : multiplier * multiplierInverse = 1 := by decide

theorem mul_multiplier_inj {a b : UInt64} : a * multiplier = b * multiplier ↔ a = b := by
  constructor
  · intro h
    have hundo : a * multiplier * multiplierInverse = b * multiplier * multiplierInverse := by
      rw [h]
    simpa only [UInt64.mul_assoc, multiplier_mul_inverse, UInt64.mul_one] using hundo
  · rintro rfl
    rfl

theorem mixParams_inj (h : String → UInt64) {a b : UInt64} (i : Nat) (ts : List Tag) :
    mixParams h a i ts = mixParams h b i ts ↔ a = b := by
  induction ts generalizing a b i with
  | nil => rfl
  | cons t ts ih => simp only [mixParams, ih, UInt64.add_left_inj, mul_multiplier_inj]

theorem ofFunctionBy_eq_iff (h : String → UInt64) (space name space' name' : String)
    (params : List Tag) :
    ofFunctionBy h space name params = ofFunctionBy h space' name' params ↔
      h space ^^^ h name = h space' ^^^ h name' := by
  have hpull : ∀ s n, namespaceMark ^^^ s ^^^ functionMark ^^^ n =
      namespaceMark ^^^ functionMark ^^^ (s ^^^ n) := by
    intro s n
    ac_rfl
  simp only [ofFunctionBy, ofNamespaceBy, mk.injEq, mixParams_inj, hpull, UInt64.xor_right_inj]

/-- Whatever the text hash is, a binding has the identity of the one with its namespace and its name
exchanged, and all bindings that repeat their namespace as their name have one identity, the
parameters being the same. In general two identities over the same parameters agree exactly if the
sums of bits of their two hashes do. -/
theorem ids_of_swapped_and_repeated (h : String → UInt64) (params : List Tag) :
    (∀ space name, ofFunctionBy h space name params = ofFunctionBy h name space params) ∧
      (∀ s t, ofFunctionBy h s s params = ofFunctionBy h t t params) ∧
      ∀ space name space' name',
        ofFunctionBy h space name params = ofFunctionBy h space' name' params ↔
          h space ^^^ h name = h space' ^^^ h name' := by
  refine ⟨fun space name => ?_, fun s t => ?_, fun space name space' name' => ?_⟩
  · rw [ofFunctionBy_eq_iff, UInt64.xor_comm]
  · rw [ofFunctionBy_eq_iff, UInt64.xor_self, UInt64.xor_self]
  · exact ofFunctionBy_eq_iff h space name space' name' params

/-- Two texts with different hashes make two different bindings with the identity of one, exchanged
as well as repeated. -/
theorem ids_collide :
    Xxh64.ofText "a" ≠ Xxh64.ofText "b" ∧ ofFunction "a" "b" [] = ofFunction "b" "a" [] ∧
      ofFunction "a" "a" [.scalar .text] = ofFunction "b" "b" [.scalar .text] := by
  refine ⟨by decide +kernel, ?_, ?_⟩
  · exact (ofFunctionBy_eq_iff _ _ _ _ _ _).2 (UInt64.xor_comm _ _)
  · exact (ofFunctionBy_eq_iff _ _ _ _ _ _).2 (UInt64.xor_self.trans UInt64.xor_self.symm)

end ScriptBridge.BindingId
