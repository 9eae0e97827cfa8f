import ScriptBridge.Native.Function

/-!
Typed access to arguments. Whether there is an argument of a type at an index, and what the error is
otherwise, can be told from the tags of the arguments alone. A typed function that fetches arguments
of its own types gets each of them and runs.
-/
namespace ScriptBridge

def Tag.access (tags : List Tag) (s : Scalar) (index : Nat) : Except NativeError Unit :=
  match tags[index]? with
  | none => .error (.indexOutOfBounds index tags.length)
  | some t => if t = .scalar s then .ok () else .error (.argumentType index (.scalar s) t)

namespace Tag

variable {tags : List Tag} {s : Scalar} {index : Nat}

theorem access_eq_ok_iff : access tags s index = .ok () ↔ tags[index]? = some (.scalar s) := by
  rw [access]
  cases tags[index]? with
  | none => simp
  | some t => by_cases h : t = .scalar s <;> simp [h]

theorem access_eq_error_iff {cause : NativeError} :
    access tags s index = .error cause ↔
      (tags.length ≤ index ∧ cause = .indexOutOfBounds index tags.length) ∨
        ∃ t, tags[index]? = some t ∧ t ≠ .scalar s ∧
          cause = .argumentType index (.scalar s) t := by
  rw [access, ← List.getElem?_eq_none_iff]
  cases tags[index]? with
  | none => simp [eq_comm]
  | some t => by_cases h : t = .scalar s <;> simp [h, eq_comm]

end Tag

namespace Arguments

variable {args : Arguments} {s : Scalar} {index : Nat}

def tags (args : Arguments) : List Tag := args.values.map NativeValue.tag

theorem size_eq_length_tags (args : Arguments) : args.size = args.tags.length :=
  (List.length_map _).symm

theorem get_of_getElem? {v : s.Carrier} (h : args.values[index]? = some ⟨s, v⟩) :
    args.get s index = .ok v := by
  rw [get, value, h]
  exact dif_pos rfl

theorem map_get (args : Arguments) (s : Scalar) (index : Nat) :
    (args.get s index).map (fun _ => ()) = Tag.access args.tags s index := by
  rw [Tag.access, ← size_eq_length_tags, tags, List.getElem?_map, get, value]
  cases args.values[index]? with
  | none => rfl
  | some v =>
    by_cases h : v.kind = s
    · simp [NativeValue.tag, h, Except.map]
    · simp [NativeValue.tag, h, Except.map]

theorem exists_get_eq_ok_iff :
    (∃ v, args.get s index = .ok v) ↔ Tag.access args.tags s index = .ok () := by
  rw [← map_get]
  cases args.get s index <;> simp [Except.map]

theorem get_eq_error_iff {cause : NativeError} :
    args.get s index = .error cause ↔ Tag.access args.tags s index = .error cause := by
  rw [← map_get]
  cases args.get s index <;> simp [Except.map]

end Arguments

namespace NativeFunction

variable {ρ : Type}

def Typed.call : (ss : List Scalar) → Typed ρ ss → ((i : Fin ss.length) → (ss.get i).Carrier) →
    Journal × ρ
  | [], f, _ => f
  | _ :: ss, f, args => call ss (f (args 0)) fun i => args i.succ

/-- Where the arguments from an index on have the types of a function, each of them is fetched, and
all that is seen of the call is what the function writes. -/
theorem applyTyped_eq {args : Arguments} {index : Nat} {ss : List Scalar} (f : Typed ρ ss)
    (values : (i : Fin ss.length) → (ss.get i).Carrier)
    (h : ∀ i : Fin ss.length, args.values[index + i]? = some ⟨ss.get i, values i⟩) :
    applyTyped args index ss f = .write (f.call ss values).1 := by
  induction ss generalizing index with
  | nil => rfl
  | cons s ss ih =>
    have hfirst : args.get s index = .ok (values 0) := Arguments.get_of_getElem? (h 0)
    have hrest : ∀ i : Fin ss.length,
        args.values[index + 1 + i]? = some ⟨ss.get i, values i.succ⟩ := by
      intro i
      rw [Nat.add_assoc, Nat.add_comm 1]
      exact h i.succ
    calc applyTyped args index (s :: ss) f
        = Run.ofExcept (args.get s index) >>= fun v => applyTyped args (index + 1) ss (f v) := rfl
      _ = applyTyped args (index + 1) ss (f (values 0)) := by rw [hfirst]; rfl
      _ = .write (Typed.call ss (f (values 0)) fun i => values i.succ).1 := ih _ _ hrest

end NativeFunction

end ScriptBridge
