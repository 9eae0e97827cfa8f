import ScriptBridge.Decode.Error
import ScriptBridge.Identity.BindingId
import ScriptBridge.Native.Value

/-!
The journal of what running code does beside its result: text on the two output streams, notes of
native functions, and events of the log. Events of the bridge are kept as what happened; their
level, message and fields are functions of that.
-/
namespace ScriptBridge

inductive Level where
  | trace
  | debug
  | info
  | warn
  | error
  deriving DecidableEq

def Level.label : Level → String
  | .trace => "TRACE"
  | .debug => "DEBUG"
  | .info => "INFO"
  | .warn => "WARN"
  | .error => "ERROR"

inductive Event where
  | logged (level : Level) (target message : String)
  | discovered (name : String) (arity : Nat)
  | skipped (name kind : String)
  | generated (space name : String) (id : BindingId) (policy : Policy)
  | bound (space : String) (count : Nat)
  | replaced (space : String)
  | registered (space : String) (count : Nat)
  | contextSealed (spaces : Nat)
  | called (space name : String) (id : BindingId) (count : Nat)
  | substituted (cause : DecodeError)
  deriving DecidableEq

namespace Event

def level : Event → Level
  | .logged level .. => level
  | .discovered .. | .generated .. | .bound .. | .registered .. | .contextSealed _ => .debug
  | .skipped .. | .called .. | .substituted _ => .trace
  | .replaced _ => .warn

/-- The target of an event, by which events are told apart. The bridge's own have the path of the
part that they come from. -/
def target : Event → String
  | .logged _ target _ => target
  | .discovered .. | .skipped .. => "scriptbind_registry::discovery"
  | .generated .. => "scriptbind_registry::binding"
  | .bound .. => "scriptbind_registry::module"
  | .replaced _ | .registered .. => "scriptbind_registry::registrar"
  | .contextSealed _ => "scriptbind::context"
  | .called .. => "scriptbind::engine"
  | .substituted _ => "scriptbind_core::decode"

def scriptTarget : String := "script"

def isScript (e : Event) : Bool := e.target == scriptTarget

def message : Event → String
  | .logged _ _ message => message
  | .discovered .. => "discovered function"
  | .skipped .. => "skipping non-callable member"
  | .generated .. => "generated adapter"
  | .bound .. => "bound module"
  | .replaced _ => "replaced existing script namespace"
  | .registered .. => "registered module"
  | .contextSealed _ => "context sealed"
  | .called .. => "script call"
  | .substituted _ => "substituting zero value"

def fields : Event → List (String × String)
  | .logged .. => []
  | .discovered name arity => [("name", name), ("arity", toString arity)]
  | .skipped name kind => [("name", name), ("kind", kind)]
  | .generated space name id policy =>
    [("namespace", space), ("name", name), ("id", id.text), ("policy", policy.label)]
  | .bound space count => [("namespace", space), ("count", toString count)]
  | .replaced space => [("namespace", space)]
  | .registered space count => [("namespace", space), ("count", toString count)]
  | .contextSealed spaces => [("namespaces", toString spaces)]
  | .called space name id count =>
    [("namespace", space), ("function", name), ("id", id.text), ("argc", toString count)]
  | .substituted cause => [("err", cause.message)]

/-- Messages of scripts are always shown; of the bridge's own events only warnings are, unless all
are asked for. -/
def isShown (e : Event) (all : Bool) : Bool := all || e.isScript || e.level == .warn

end Event

inductive Effect where
  | stdout (text : String)
  | stderr (text : String)
  /-- A native function notes values under its label. -/
  | note (label : String) (values : List NativeValue)
  | event (event : Event)
  deriving DecidableEq

abbrev Journal := List Effect

namespace Journal

def stdoutPart : Effect → String
  | .stdout text => text
  | _ => ""

def stderrPart : Effect → String
  | .stderr text => text
  | _ => ""

def stdout (j : Journal) : String := String.join (j.map stdoutPart)

def stderr (j : Journal) : String := String.join (j.map stderrPart)

def notes (j : Journal) : List (String × List NativeValue) :=
  j.filterMap fun
    | .note label values => some (label, values)
    | _ => none

def events (j : Journal) : List Event :=
  j.filterMap fun
    | .event e => some e
    | _ => none

theorem stdout_append (j k : Journal) : stdout (j ++ k) = stdout j ++ stdout k := by
  simp only [stdout, List.map_append, String.join_append]

theorem stderr_append (j k : Journal) : stderr (j ++ k) = stderr j ++ stderr k := by
  simp only [stderr, List.map_append, String.join_append]

theorem events_append (j k : Journal) : events (j ++ k) = events j ++ events k :=
  List.filterMap_append

end Journal

end ScriptBridge
