import Mathlib.Data.List.Basic
import ScriptBridge.Host.Engine
import ScriptBridge.Proofs.Binding.Policies

/-!
Calls through an engine. A call that ends in an error of native code has found an adapter, and the
error is that of the adapter. With parameters that can be bound, decoding finds every type to be one
that can cross the boundary, so that an error which says otherwise is the word of the function
itself.
-/
namespace ScriptBridge

theorem Source.failure_ne_unsupported (source : Source) (position : Nat)
    (expected : Scalar.Reading) (t : Tag) : source.failure position expected ≠ .unsupported t := by
  unfold failure
  split <;> simp

def Run.NeverUnsupported {α : Type} (x : Run DecodeError α) : Prop :=
  ∀ t, x.result ≠ .error (.unsupported t) ∧ .event (.substituted (.unsupported t)) ∉ x.journal

theorem Tag.decodeAll_neverUnsupported {params : List Tag} (h : ∀ t ∈ params, t.isSupported)
    (source : Source) (policy : Policy) :
    (Tag.decodeAll source policy 1 params).NeverUnsupported := by
  obtain ⟨ss, rfl⟩ := Tag.exists_scalars h
  intro t
  cases policy with
  | lenient =>
    rw [Tag.decodeAll_lenient]
    refine ⟨by simp, fun hmem => ?_⟩
    obtain ⟨p, -, hp⟩ := List.mem_map.1 hmem
    simp only [Source.report, Effect.event.injEq, Event.substituted.injEq] at hp
    exact source.failure_ne_unsupported _ _ _ hp
  | strict =>
    rw [Tag.decodeAll_strict]
    cases source.unread 1 ss with
    | nil => simp
    | cons p rest => simp [source.failure_ne_unsupported]

theorem Adapter.of_invoke_unsupported {a : Adapter} (h : ∀ t ∈ a.params, t.isSupported)
    {source : Source} {t : Tag}
    (hinvoke : (a.invoke source).result = .error (.decode (.unsupported t))) :
    ∃ values, (a.body ⟨values⟩).result = .error (.decode (.unsupported t)) := by
  have hnever := Tag.decodeAll_neverUnsupported h source a.policy t
  cases hd : Tag.decodeAll source a.policy 1 a.params with
  | mk j r =>
    cases r with
    | error e =>
      rw [invoke, hd, Run.mapError_error, Run.error_bind] at hinvoke
      simp only [Except.error.injEq, NativeError.decode.injEq] at hinvoke
      simp [hd, hinvoke] at hnever
    | ok values =>
      rw [invoke_of_decodeAll hd] at hinvoke
      refine ⟨values, ?_⟩
      cases hb : (a.body ⟨values⟩).result with
      | ok u => simp [hb, Except.map] at hinvoke
      | error e => simpa [hb, Except.map] using hinvoke

namespace Engine

variable {e : Engine} {space name : String}

theorem callIn_of_lookup {a : Adapter} (h : e.lookup space name = .ok a) (frame : Frame) :
    e.callIn space name frame =
      ⟨.event (.called space name a.id frame.length) :: (a.invoke frame.source).journal,
        (a.invoke frame.source).result.mapError (.native space name)⟩ := by
  rw [callIn, h]
  rfl

theorem callIn_of_lookup_error {cause : EngineError} (h : e.lookup space name = .error cause)
    (frame : Frame) : e.callIn space name frame = ⟨[], .error cause⟩ := by
  rw [callIn, h]
  rfl

theorem lookup_ne_native (e : Engine) (space name s n : String) (cause : NativeError) :
    e.lookup space name ≠ .error (.native s n cause) := by
  unfold lookup
  split
  · simp
  · split <;> simp

theorem of_callIn_native {s n : String} {frame : Frame} {cause : NativeError}
    (h : (e.callIn s n frame).result = .error (.native space name cause)) :
    ∃ a, e.lookup space name = .ok a ∧ (a.invoke frame.source).result = .error cause := by
  cases hlookup : e.lookup s n with
  | error why =>
    rw [callIn_of_lookup_error hlookup, Except.error.injEq] at h
    exact absurd (h ▸ hlookup) (e.lookup_ne_native s n space name cause)
  | ok a =>
    rw [callIn_of_lookup hlookup] at h
    cases hinvoke : (a.invoke frame.source).result with
    | ok count => simp [hinvoke, Except.mapError] at h
    | error why =>
      simp only [hinvoke, Except.mapError, Except.error.injEq, EngineError.native.injEq] at h
      obtain ⟨rfl, rfl, rfl⟩ := h
      exact ⟨a, hlookup, hinvoke⟩

theorem of_call_native {path : String} {frame : Frame} {cause : NativeError}
    (h : (e.call path frame).result = .error (.native space name cause)) :
    ∃ a, e.lookup space name = .ok a ∧ (a.invoke frame.source).result = .error cause := by
  rw [call] at h
  split at h
  · simp [Run.fail] at h
  · exact of_callIn_native h

theorem splitPath?_join (h : '.' ∉ space.toList) :
    splitPath? (space ++ "." ++ name) = some (space, name) := by
  have hpoint : (space ++ "." ++ name).toList = space.toList ++ '.' :: name.toList := by
    simp
  have hspace : ∀ c ∈ space.toList, decide (c ≠ '.') = true := by
    intro c hc
    exact decide_eq_true fun he => h (he ▸ hc)
  simp only [splitPath?, hpoint, List.dropWhile_append_of_pos hspace,
    List.takeWhile_append_of_pos hspace]
  simp

end Engine

end ScriptBridge
