import ScriptBridge.Decode.Error
import ScriptBridge.Settings.CommandLine
import ScriptBridge.Settings.EntryPath
import ScriptBridge.Text.Blank

/-!
The configuration and its layers: defaults, then variables of the environment, then flags of the
command line, where a later layer wins over an earlier one.
-/
namespace ScriptBridge

inductive ConfigError where
  | invalidPolicy (value : String)
  | flags (problem : CommandLine.Problem)
  deriving DecidableEq

def ConfigError.message : ConfigError → String
  | .invalidPolicy value =>
    "invalid decode policy `" ++ value ++ "` (expected `strict` or `lenient`)"
  | .flags problem => "invalid arguments: " ++ problem.word

/-- The policy under the spellings that a variable may use, with blanks around it and in either
case. -/
def Policy.ofText? (text : String) : Option Policy :=
  let word := (Text.trim text.toList).map Char.toLower
  if word = "strict".toList then some .strict
  else if word = "lenient".toList then some .lenient
  else none

structure Config where
  policy : Policy
  entry : EntryPath
  deriving DecidableEq

namespace Config

def entryVariable : String := "SCRIPTBIND_ENTRY"

def policyVariable : String := "SCRIPTBIND_DECODE"

def default : Config := ⟨.lenient, ⟨"scripts/main.lua"⟩⟩

def same (c d : Config) : Bool := c.policy == d.policy && c.entry.same d.entry

abbrev Environment := String → Option String

def Environment.entry? (env : Environment) : Option EntryPath :=
  match env entryVariable with
  | some text => if text = "" then none else some ⟨text⟩
  | none => none

def applyEnvironment (c : Config) (env : Environment) : Except ConfigError Config :=
  let c := { c with entry := (Environment.entry? env).getD c.entry }
  match env policyVariable with
  | none => .ok c
  | some text =>
    match Policy.ofText? text with
    | some policy => .ok { c with policy }
    | none => .error (.invalidPolicy text)

def applyFlags (c : Config) (flags : Flags) : Config where
  entry := (flags.script.map (⟨·⟩)).getD c.entry
  policy := if flags.strictDecode then .strict else c.policy

def applyArguments (parser : CommandLine.Parser) (c : Config) (argv : List String) :
    Except ConfigError Config :=
  match Flags.parse parser argv with
  | .ok flags => .ok (c.applyFlags flags)
  | .error problem => .error (.flags problem)

def ofEnvironment (env : Environment) : Except ConfigError Config :=
  default.applyEnvironment env

def ofArguments (parser : CommandLine.Parser) (argv : List String) : Except ConfigError Config :=
  default.applyArguments parser argv

inductive Change where
  | reset
  | setPolicy (policy : Policy)
  | setEntry (entry : EntryPath)
  | environment (env : Environment)
  | fromEnvironment (env : Environment)
  | flags (flags : Flags)
  | fromArguments (argv : List String)
  | arguments (argv : List String)

def change (parser : CommandLine.Parser) (c : Config) : Change → Except ConfigError Config
  | .reset => .ok default
  | .setPolicy policy => .ok { c with policy }
  | .setEntry entry => .ok { c with entry }
  | .environment env => c.applyEnvironment env
  | .fromEnvironment env => ofEnvironment env
  | .flags flags => .ok (c.applyFlags flags)
  | .fromArguments argv => ofArguments parser argv
  | .arguments argv => c.applyArguments parser argv

/-- Makes changes one after the other. A change that fails leaves the configuration as it was. -/
def changes (parser : CommandLine.Parser) (c : Config) :
    List Change → List (Except ConfigError Config)
  | [] => []
  | s :: rest =>
    match c.change parser s with
    | .ok d => .ok d :: d.changes parser rest
    | .error e => .error e :: c.changes parser rest

end Config

end ScriptBridge
