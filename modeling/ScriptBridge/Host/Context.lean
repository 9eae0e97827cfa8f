import ScriptBridge.Host.Engine
import ScriptBridge.Host.Stock
import ScriptBridge.Settings.Config

/-!
A context owns an engine while modules are installed in it. It remembers the namespaces in the
order of their first installation, and once it is sealed it takes no more modules. Every operation
answers with the context that it leaves behind, also when it fails.
-/
namespace ScriptBridge

inductive ContextError where
  | bind (cause : BindError)
  | alreadySealed
  deriving DecidableEq

def ContextError.message : ContextError → String
  | .bind cause => "failed to bind module: " ++ cause.message
  | .alreadySealed => "context is already sealed - cannot install modules after seal()"

structure Context where
  engine : Engine
  config : Config
  installed : List String
  isSealed : Bool

namespace Context

def ofConfig (config : Config) : Context := ⟨.empty, config, [], false⟩

def new : Context := ofConfig .default

def count (c : Context) : Nat := c.installed.length

/-- What an operation leaves behind: the context, what it wrote, and how it ended. -/
structure Outcome where
  context : Context
  journal : Journal
  result : Except ContextError Unit

def remember (installed : List String) (space : String) : List String :=
  if space ∈ installed then installed else installed ++ [space]

def install (c : Context) (m : Module) : Outcome :=
  if c.isSealed then ⟨c, [], .error .alreadySealed⟩
  else
    let (engine, journal) := c.engine.register m
    ⟨{ c with engine, installed := remember c.installed m.space }, journal, .ok ()⟩

def Outcome.andThen (o : Outcome) (next : Context → Outcome) : Outcome :=
  match o.result with
  | .ok () =>
    let p := next o.context
    { p with journal := o.journal ++ p.journal }
  | .error _ => o

def installAll (c : Context) : List Module → Outcome
  | [] => ⟨c, [], .ok ()⟩
  | m :: ms => (c.install m).andThen (·.installAll ms)

def installRun (c : Context) (run : Run BindError (List Module)) : Outcome :=
  match run.result with
  | .error cause => ⟨c, run.journal, .error (.bind cause)⟩
  | .ok ms =>
    let o := c.installAll ms
    { o with journal := run.journal ++ o.journal }

def installStock (c : Context) : Outcome := c.installRun (Stock.modules c.config.policy)

def installFunctions (c : Context) (space : String) (fs : List NativeFunction) : Outcome :=
  if c.isSealed then ⟨c, [], .error .alreadySealed⟩
  else c.installRun ((Module.bind space c.config.policy fs).map fun m => [m])

def installNative (c : Context) (space : String) (m : NativeModule) : Outcome :=
  let o := c.installFunctions space (m.members.filterMap Declaration.function?)
  { o with journal := m.members.map (.event ·.discovery) ++ o.journal }

/-- Closes the context to further modules and reports it the first time. -/
def sealUp (c : Context) : Context × Journal :=
  ({ c with isSealed := true },
   if c.isSealed then [] else [.event (.contextSealed c.count)])

def intoEngine (c : Context) : Engine × Journal :=
  let (c, journal) := c.sealUp
  (c.engine, journal)

inductive Operation where
  | install (m : Module)
  | installFunctions (space : String) (fs : List NativeFunction)
  | installNative (space : String) (m : NativeModule)
  | installStock
  | sealUp

def perform (c : Context) : Operation → Outcome
  | .install m => c.install m
  | .installFunctions space fs => c.installFunctions space fs
  | .installNative space m => c.installNative space m
  | .installStock => c.installStock
  | .sealUp => let (c, journal) := c.sealUp; ⟨c, journal, .ok ()⟩

def performAll (c : Context) (ops : List Operation) : Context :=
  ops.foldl (fun c op => (c.perform op).context) c

end Context

end ScriptBridge
