import ScriptBridge.Tag.Basic

/-!
Native values are members of the scalar types, each kept with its type.
-/
namespace ScriptBridge

structure NativeValue where
  kind : Scalar
  value : kind.Carrier

namespace NativeValue

instance : DecidableEq NativeValue
  | ⟨s, v⟩, ⟨t, w⟩ =>
    if h : s = t then by
      subst h
      exact if hv : v = w then .isTrue (by rw [hv]) else .isFalse fun e => hv (by cases e; rfl)
    else .isFalse fun e => h (by cases e; rfl)

def tag (v : NativeValue) : Tag := .scalar v.kind

end NativeValue

end ScriptBridge
