import ScriptBridge.Identity.Xxh64
import ScriptBridge.Tag.Basic

/-!
Stable identities of bound functions, made from the namespace, the name and the parameter tags.
The identity takes the text hash as a parameter first, because what it says about its parts does
not depend on which hash that is.
-/
namespace ScriptBridge

structure BindingId where
  value : UInt64
  deriving DecidableEq

namespace BindingId

def namespaceMark : UInt64 := 0x6a09e667f3bcc908
def functionMark : UInt64 := 0xbb67ae8584caa73b
def multiplier : UInt64 := 0x3c6ef372fe94f82b

def positionMarks : List UInt64 := [
  0xa54ff53a5f1d36f1, 0x510e527fade682d1, 0x9b05688c2b3e6c1f, 0x1f83d9abfb41bd6b,
  0x5be0cd19137e2179, 0xcbbb9d5dc1059ed8, 0x629a292a367cd507, 0x9159015a3070dd17]

/-- The mark of a parameter position. Positions past the table count up from its first mark. -/
def positionMark (i : Nat) : UInt64 :=
  (positionMarks[i]?).getD (0xa54ff53a5f1d36f1 + UInt64.ofNat i)

def ofNamespaceBy (h : String → UInt64) (space : String) : BindingId :=
  ⟨namespaceMark ^^^ h space⟩

def mixParams (h : String → UInt64) (acc : UInt64) (i : Nat) : List Tag → UInt64
  | [] => acc
  | t :: ts => mixParams h (acc * multiplier + (positionMark i ^^^ h t.text)) (i + 1) ts

def ofFunctionBy (h : String → UInt64) (space name : String) (params : List Tag) :
    BindingId :=
  ⟨mixParams h ((ofNamespaceBy h space).value ^^^ functionMark ^^^ h name) 0 params⟩

def ofNamespace : String → BindingId := ofNamespaceBy Xxh64.ofText

def ofFunction : String → String → List Tag → BindingId := ofFunctionBy Xxh64.ofText

def text (id : BindingId) : String :=
  let digits := Nat.toDigits 16 id.value.toNat
  String.ofList (List.replicate (16 - digits.length) '0' ++ digits)

def describe (id : BindingId) : String := "BindingHash(0x" ++ id.text ++ ")"

end BindingId

end ScriptBridge
