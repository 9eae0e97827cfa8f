import ScriptBridge.Native.Function

/-!
Native functions that note down what they were given. A recorder without actions notes all of its
arguments at once; with actions it fetches single arguments, noting each, until one of them fails.
-/
namespace ScriptBridge.Recorder

inductive Action where
  | fail (message : String)
  /-- Fetches the argument at an index, as a scalar type or as whatever it is. -/
  | fetch (type? : Option Scalar) (index : Nat)

def fetch (args : Arguments) (index : Nat) : Option Scalar → Except NativeError NativeValue
  | some s => (args.get s index).map (⟨s, ·⟩)
  | none => args.value index

def perform (label : String) (args : Arguments) : Action → Run NativeError Unit
  | .fail message => .fail (.other message)
  | .fetch type? index => do
    let v ← Run.ofExcept (fetch args index type?)
    Run.write [.note label [v]]

def performAll (label : String) (args : Arguments) : List Action → Run NativeError Unit
  | [] => pure ()
  | a :: as => do
    perform label args a
    performAll label args as

def body (label : String) (actions : List Action) (args : Arguments) : Run NativeError Unit :=
  if actions.isEmpty then .write [.note label args.values]
  else performAll label args actions

def function (name label : String) (params : List Tag) (actions : List Action) : NativeFunction :=
  ⟨name, params, body label actions⟩

def noteTyped (label : String) (noted : List NativeValue) :
    (ss : List Scalar) → NativeFunction.Typed Unit ss
  | [] => ([.note label noted], ())
  | s :: ss => fun v => noteTyped label (noted ++ [⟨s, v⟩]) ss

end ScriptBridge.Recorder
