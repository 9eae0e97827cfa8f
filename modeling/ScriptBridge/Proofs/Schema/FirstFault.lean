import Mathlib.Data.List.Basic
import ScriptBridge.Schema.Error

/-!
Checks that go through a list in order and stop at the first fault. Such a check fails for that
fault, and passes exactly if no element has any.
-/
namespace ScriptBridge.Schema

/-- The fault of the first element that has any. -/
def FirstFault {α : Type} (Fault : α → Problem → Prop) (xs : List α) (p : Problem) : Prop :=
  ∃ before x after, xs = before ++ x :: after ∧ Fault x p ∧ ∀ y ∈ before, ∀ q, ¬Fault y q

variable {α β γ : Type} {Fault : α → Problem → Prop} {x : α} {xs : List α} {p : Problem}

theorem not_firstFault_nil : ¬FirstFault Fault [] p := by
  rintro ⟨before, x, after, hsplit, -, -⟩
  cases before <;> cases hsplit

theorem ok_eq_error_iff_firstFault_nil {a : β} :
    (.ok a : Except Problem β) = .error p ↔ FirstFault Fault [] p := by
  refine iff_of_false ?_ not_firstFault_nil
  intro h
  cases h

theorem firstFault_cons_iff :
    FirstFault Fault (x :: xs) p ↔ Fault x p ∨ (∀ q, ¬Fault x q) ∧ FirstFault Fault xs p := by
  constructor
  · rintro ⟨before, y, after, hsplit, hfault, hbefore⟩
    cases before with
    | nil =>
      cases hsplit
      exact .inl hfault
    | cons z before =>
      cases hsplit
      obtain ⟨hhead, hrest⟩ := List.forall_mem_cons.1 hbefore
      exact .inr ⟨hhead, before, y, after, rfl, hfault, hrest⟩
  · rintro (hfault | ⟨hhead, before, y, after, rfl, hfault, hbefore⟩)
    · exact ⟨[], x, xs, rfl, hfault, by simp⟩
    · exact ⟨x :: before, y, after, rfl, hfault, List.forall_mem_cons.2 ⟨hhead, hbefore⟩⟩

theorem forall_not_firstFault_iff :
    (∀ p, ¬FirstFault Fault xs p) ↔ ∀ x ∈ xs, ∀ p, ¬Fault x p := by
  induction xs with
  | nil => simp [not_firstFault_nil]
  | cons x xs ih =>
    simp only [firstFault_cons_iff, not_or, not_and, List.forall_mem_cons, ← ih]
    exact ⟨fun h => ⟨fun p => (h p).1, fun p => (h p).2 fun q => (h q).1⟩,
      fun h p => ⟨h.1 p, fun _ => h.2 p⟩⟩

theorem bind_eq_error_iff {r : Except Problem β} {f : β → Except Problem γ} :
    (r >>= f) = .error p ↔ r = .error p ∨ ∃ a, r = .ok a ∧ f a = .error p := by
  cases r with
  | error q =>
    change Except.error q = _ ↔ _
    simp
  | ok a =>
    change f a = _ ↔ _
    simp

theorem bind_ok_eq_error_iff {r : Except Problem β} {f : β → γ} :
    (r >>= fun a => .ok (f a)) = .error p ↔ r = .error p := by
  rw [bind_eq_error_iff]
  refine or_iff_left ?_
  rintro ⟨a, -, hok⟩
  cases hok

theorem map_eq_error_iff {r : Except Problem β} {f : β → γ} :
    r.map f = .error p ↔ r = .error p := by
  cases r <;> simp [Except.map]

theorem exists_eq_ok_iff {r : Except Problem β} : (∃ a, r = .ok a) ↔ ∀ q, r ≠ .error q := by
  cases r <;> simp

/-- A loop that checks its elements in order fails for the first one that has a fault. -/
theorem bind_eq_error_iff_firstFault {r : Except Problem β} {f : β → Except Problem γ}
    (head : ∀ q, r = .error q ↔ Fault x q)
    (tail : ∀ a, r = .ok a → (f a = .error p ↔ FirstFault Fault xs p)) :
    (r >>= f) = .error p ↔ FirstFault Fault (x :: xs) p := by
  have hfree : (∃ a, r = .ok a) ↔ ∀ q, ¬Fault x q := by
    simp only [exists_eq_ok_iff, ne_eq, head]
  rw [bind_eq_error_iff, firstFault_cons_iff, ← head, ← hfree]
  refine or_congr_right ⟨?_, ?_⟩
  · rintro ⟨a, ha, hf⟩
    exact ⟨⟨a, ha⟩, (tail a ha).1 hf⟩
  · rintro ⟨⟨a, ha⟩, hfirst⟩
    exact ⟨a, ha, (tail a ha).2 hfirst⟩

end ScriptBridge.Schema
