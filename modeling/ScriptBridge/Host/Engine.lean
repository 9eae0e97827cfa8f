import ScriptBridge.Binding.Builder
import ScriptBridge.Host.Dictionary

/-!
The engine holds a table of adapters for each namespace. A table keeps the order in which its names
were registered beside the adapters. Registering a module replaces the whole table of its namespace.
Calls find an adapter by namespace and name, or by a path that is cut at its first point.
-/
namespace ScriptBridge

inductive EngineError where
  | invalidPath (path : String)
  | unknownNamespace (space : String)
  | unknownFunction (space name : String)
  | native (space name : String) (cause : NativeError)
  deriving DecidableEq

def EngineError.message : EngineError → String
  | .invalidPath path => "`" ++ path ++ "` is not a `namespace.function` path"
  | .unknownNamespace space => "unknown namespace `" ++ space ++ "`"
  | .unknownFunction space name => "unknown function `" ++ space ++ "." ++ name ++ "`"
  | .native space name cause => "`" ++ space ++ "." ++ name ++ "` failed: " ++ cause.message

/-- The adapters of one namespace with their names in the order of registration. A name that was
registered twice stands there twice, and its last adapter hides the others. -/
structure Table where
  order : List String
  adapters : Dictionary Adapter

namespace Table

def empty : Table := ⟨[], .empty⟩

def add (t : Table) (a : Adapter) : Table := ⟨t.order ++ [a.name], t.adapters.insert a.name a⟩

def ofAdapters (as : List Adapter) : Table := as.foldl add empty

end Table

structure Engine where
  globals : Dictionary Table

namespace Engine

def empty : Engine := ⟨.empty⟩

def hasNamespace (e : Engine) (space : String) : Bool := e.globals.contains space

def namespaces (e : Engine) : List String := e.globals.keys.mergeSort

def functionNames? (e : Engine) (space : String) : Option (List String) :=
  (e.globals.get? space).map Table.order

/-- Installs adapters as the table of a namespace and answers whether it replaced one. -/
def install (e : Engine) (space : String) (as : List Adapter) : Engine × Bool :=
  (⟨e.globals.insert space (.ofAdapters as)⟩, e.globals.contains space)

def register (e : Engine) (m : Module) : Engine × Journal :=
  let (engine, replaced) := e.install m.space m.adapters
  let warning := if replaced then [.event (.replaced m.space)] else []
  (engine, warning ++ [.event (.registered m.space m.size)])

def lookup (e : Engine) (space name : String) : Except EngineError Adapter :=
  match e.globals.get? space with
  | none => .error (.unknownNamespace space)
  | some t =>
    match t.adapters.get? name with
    | none => .error (.unknownFunction space name)
    | some a => .ok a

def callIn (e : Engine) (space name : String) (frame : Frame) : Run EngineError Nat := do
  let a ← Run.ofExcept (e.lookup space name)
  Run.emit (.called space name a.id frame.length)
  (a.invoke frame.source).mapError (.native space name)

def splitPath? (path : String) : Option (String × String) :=
  match path.toList.dropWhile (· ≠ '.') with
  | [] => none
  | _ :: name => some (String.ofList (path.toList.takeWhile (· ≠ '.')), String.ofList name)

def call (e : Engine) (path : String) (frame : Frame) : Run EngineError Nat :=
  match splitPath? path with
  | none => .fail (.invalidPath path)
  | some (space, name) => e.callIn space name frame

end Engine

end ScriptBridge
