import ScriptBridge.Binding.Builder

/-!
The two stock modules. One writes text to the output streams, the other sends messages to the log
as events of the script.
-/
namespace ScriptBridge.Stock

def textFunction (name : String) (write : String → Effect) : Declaration :=
  .function (.ofTyped name [.text] fun text => ([write text], ()))

def console : NativeModule := ⟨[
  textFunction "print" fun text => .stdout text,
  textFunction "println" fun text => .stdout (text ++ "\n"),
  textFunction "eprint" fun text => .stderr text,
  textFunction "eprintln" fun text => .stderr (text ++ "\n")]⟩

def message (level : Level) (text : String) : Effect :=
  .event (.logged level Event.scriptTarget text)

def logger : NativeModule := ⟨[
  textFunction "trace" (message .trace),
  textFunction "debug" (message .debug),
  textFunction "info" (message .info),
  textFunction "warn" (message .warn),
  textFunction "error" (message .error)]⟩

def build (space : String) (m : NativeModule) (policy : Policy) : Run BindError Module :=
  Module.build space [.native m, .policy policy]

def modules (policy : Policy) : Run BindError (List Module) := do
  let console ← build "std" console policy
  let logger ← build "log" logger policy
  pure [console, logger]

end ScriptBridge.Stock
