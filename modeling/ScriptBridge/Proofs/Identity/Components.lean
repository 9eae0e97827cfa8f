import ScriptBridge.Proofs.Identity.Mixing

/-!
What an identity depends on, part by part. With all the other parts left alone, an identity tells
two namespaces, two names or two tags at one position apart exactly if the text hash does. Mixing
neither loses a difference on the way through later parameters nor makes one.
-/
namespace ScriptBridge.BindingId

variable (h : String → UInt64) {acc : UInt64} {i : Nat} {a b : Tag}

theorem mixParams_append (acc : UInt64) (i : Nat) (ps qs : List Tag) :
    mixParams h acc i (ps ++ qs) = mixParams h (mixParams h acc i ps) (i + ps.length) qs := by
  induction ps generalizing acc i with
  | nil => rfl
  | cons p ps ih =>
    simp only [List.cons_append, mixParams, ih, List.length_cons]
    rw [Nat.add_right_comm, Nat.add_assoc]

theorem mixParams_cons_inj (ts : List Tag) :
    mixParams h acc i (a :: ts) = mixParams h acc i (b :: ts) ↔ h a.text = h b.text := by
  simp only [mixParams, mixParams_inj, UInt64.add_right_inj, UInt64.xor_right_inj]

theorem mixParams_middle_inj (ps qs : List Tag) :
    mixParams h acc i (ps ++ a :: qs) = mixParams h acc i (ps ++ b :: qs) ↔
      h a.text = h b.text := by
  simp only [mixParams_append, mixParams_cons_inj]

theorem ofFunctionBy_middle_inj (space name : String) (ps qs : List Tag) :
    ofFunctionBy h space name (ps ++ a :: qs) = ofFunctionBy h space name (ps ++ b :: qs) ↔
      h a.text = h b.text := by
  simp only [ofFunctionBy, mk.injEq, mixParams_middle_inj]

/-- Whatever the text hash is, changing one part of a binding changes its identity exactly if it
changes the hash of that part. The part may be the tag at any position of any parameters, the
namespace or the name. -/
theorem ids_of_one_part_changed :
    (∀ space name ps qs a b,
      ofFunctionBy h space name (ps ++ [a] ++ qs) = ofFunctionBy h space name (ps ++ [b] ++ qs) ↔
        h a.text = h b.text) ∧
      (∀ space space' name ps,
        ofFunctionBy h space name ps = ofFunctionBy h space' name ps ↔ h space = h space') ∧
      ∀ space name name' ps,
        ofFunctionBy h space name ps = ofFunctionBy h space name' ps ↔ h name = h name' := by
  refine ⟨fun space name ps qs a b => ?_, fun space space' name ps => ?_,
    fun space name name' ps => ?_⟩
  · simp only [List.append_assoc, List.cons_append, List.nil_append, ofFunctionBy_middle_inj]
  · rw [ofFunctionBy_eq_iff, UInt64.xor_left_inj]
  · rw [ofFunctionBy_eq_iff, UInt64.xor_right_inj]

end ScriptBridge.BindingId
