import ScriptBridge.Host.Context

/-!
Sessions follow a context up to the engine that it becomes. A session starts with an empty context;
a context is spent when its stock modules cannot be installed, and then nothing is left to use
until a new context or engine is made. Requests that do not fit what a session holds are refused.
-/
namespace ScriptBridge

inductive Session where
  | context (c : Context)
  | engine (e : Engine)
  | gone

namespace Session

inductive Refusal where
  | noContext
  | noEngine
  | gone
  deriving DecidableEq

def Refusal.word : Refusal → String
  | .noContext => "NoContext"
  | .noEngine => "NoEngine"
  | .gone => "Gone"

inductive Failure where
  | refused (why : Refusal)
  | bind (cause : BindError)
  | context (cause : ContextError)
  | engine (cause : EngineError)

structure Entry where
  space : String
  function : NativeFunction
  policy : Policy

inductive Request where
  | newContext (policy : Policy)
  | newEngine
  | installStock
  | install (space : String) (steps : List Builder.Step)
  | installFunctions (space : String) (fs : List NativeFunction)
  | installNative (space : String) (m : NativeModule)
  | sealUp
  | status
  | intoEngine
  | register (space : String) (steps : List Builder.Step)
  | bind (space : String) (policy : Policy) (fs : List NativeFunction)
  | installTable (space : String) (entries : List Entry)
  | call (path : String) (frame : Frame)
  | callIn (space name : String) (frame : Frame)
  | lookup (space name : String)
  | hasNamespace (space : String)
  | namespaces
  | functionNames (space : String)

structure Status where
  isSealed : Bool
  installed : List String
  count : Nat
  policy : Policy

inductive Answer where
  | ok
  | flag (b : Bool)
  | count (n : Nat)
  | names (ns : List String)
  | names? (ns : Option (List String))
  | status (s : Status)
  | adapter (a : Adapter)

structure Reply where
  session : Session
  journal : Journal
  answer : Except Failure Answer

def start : Session := .context .new

def refuse (s : Session) (why : Refusal) : Reply := ⟨s, [], .error (.refused why)⟩

def engine? : Session → Option Engine
  | .context c => some c.engine
  | .engine e => some e
  | .gone => none

def ofOutcome (o : Context.Outcome) : Reply :=
  ⟨.context o.context, o.journal,
    match o.result with
    | .ok () => .ok .ok
    | .error cause => .error (.context cause)⟩

/-- Installs the stock modules. A failure spends the context. -/
def installStock (c : Context) : Reply :=
  let o := c.installStock
  match o.result with
  | .ok () => ⟨.context o.context, o.journal, .ok .ok⟩
  | .error cause => ⟨.gone, o.journal, .error (.context cause)⟩

/-- Builds a module and installs it. A module that cannot be built is reported even when the
context is sealed. -/
def install (c : Context) (run : Run BindError Module) : Reply :=
  match run.result with
  | .error cause => ⟨.context c, run.journal, .error (.bind cause)⟩
  | .ok m =>
    let reply := ofOutcome (c.install m)
    { reply with journal := run.journal ++ reply.journal }

def register (e : Engine) (run : Run BindError Module) : Reply :=
  match run.result with
  | .error cause => ⟨.engine e, run.journal, .error (.bind cause)⟩
  | .ok m =>
    let (next, journal) := e.register m
    ⟨.engine next, run.journal ++ journal, .ok .ok⟩

def generateAll : List Entry → Run BindError (List Adapter)
  | [] => pure []
  | entry :: rest => do
    let a ← Adapter.generate entry.space entry.policy entry.function
    let as ← generateAll rest
    pure (a :: as)

def installTable (e : Engine) (space : String) (entries : List Entry) : Reply :=
  let run := generateAll entries
  match run.result with
  | .error cause => ⟨.engine e, run.journal, .error (.bind cause)⟩
  | .ok as =>
    let (next, replaced) := e.install space as
    ⟨.engine next, run.journal, .ok (.flag replaced)⟩

def inContext (s : Session) (f : Context → Reply) : Reply :=
  match s with
  | .context c => f c
  | _ => s.refuse .noContext

def inEngine (s : Session) (f : Engine → Reply) : Reply :=
  match s with
  | .engine e => f e
  | _ => s.refuse .noEngine

def inEither (s : Session) (f : Engine → Run EngineError Answer) : Reply :=
  match s.engine? with
  | some e =>
    let run := f e
    ⟨s, run.journal, run.result.mapError .engine⟩
  | none => s.refuse .gone

def request (s : Session) : Request → Reply
  | .newContext policy => ⟨.context (.ofConfig { Config.default with policy }), [], .ok .ok⟩
  | .newEngine => ⟨.engine .empty, [], .ok .ok⟩
  | .installStock => s.inContext installStock
  | .install space steps => s.inContext fun c => install c (Module.build space steps)
  | .installFunctions space fs => s.inContext fun c => ofOutcome (c.installFunctions space fs)
  | .installNative space m => s.inContext fun c => ofOutcome (c.installNative space m)
  | .sealUp => s.inContext fun c =>
    let (c, journal) := c.sealUp
    ⟨.context c, journal, .ok (.flag c.isSealed)⟩
  | .status => s.inContext fun c =>
    ⟨s, [], .ok (.status ⟨c.isSealed, c.installed, c.count, c.config.policy⟩)⟩
  | .intoEngine => s.inContext fun c =>
    let (e, journal) := c.intoEngine
    ⟨.engine e, journal, .ok .ok⟩
  | .register space steps => s.inEngine fun e => register e (Module.build space steps)
  | .bind space policy fs => s.inEngine fun e => register e (Module.bind space policy fs)
  | .installTable space entries => s.inEngine fun e => installTable e space entries
  | .call path frame => s.inEither fun e => (e.call path frame).map .count
  | .callIn space name frame => s.inEither fun e => (e.callIn space name frame).map .count
  | .lookup space name => s.inEither fun e => .ofExcept ((e.lookup space name).map .adapter)
  | .hasNamespace space => s.inEither fun e => pure (.flag (e.hasNamespace space))
  | .namespaces => s.inEither fun e => pure (.names e.namespaces)
  | .functionNames space => s.inEither fun e => pure (.names? (e.functionNames? space))

def requests (s : Session) : List Request → List Reply
  | [] => []
  | r :: rest =>
    let reply := s.request r
    reply :: reply.session.requests rest

end Session

end ScriptBridge
