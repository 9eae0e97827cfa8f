import ScriptBridge.Schema.Arguments
import ScriptBridge.Schema.Error

/-!
Attributes of items. The script attributes of an item are read entry by entry, and the last name
that is given wins.
-/
namespace ScriptBridge.Schema

inductive Attribute.Form where
  | bare
  | value (tokens : List Token)
  | list (tokens : List Token)
  deriving DecidableEq

structure Attribute where
  path : String
  form : Attribute.Form
  deriving DecidableEq

namespace Attribute

def isScript (a : Attribute) : Bool := a.path == "script"

end Attribute

structure ScriptOptions where
  name : Option String
  skip : Bool
  deriving DecidableEq

namespace ScriptOptions

def empty : ScriptOptions := ⟨none, false⟩

def passUnless (o : ScriptOptions) : Option String → Except Problem ScriptOptions
  | none => .ok o
  | some message => .error (.malformed message)

def takeEntry (o : ScriptOptions) (e : Entry) : Except Problem ScriptOptions :=
  if e.key? = some "name" then
    match e.value with
    | .error message => .error (.malformed message)
    | .ok value => passUnless { o with name := some value } e.afterValue
  else if e.key? = some "skip" then passUnless { o with skip := true } e.afterKey
  else .error (.unknownScriptKey (e.key?.getD ""))

def takeEntries (o : ScriptOptions) : List Entry → Except Problem ScriptOptions
  | [] => .ok o
  | e :: es => do
    let o ← o.takeEntry e
    o.takeEntries es

def takeArguments (o : ScriptOptions) (l : ArgumentList) : Except Problem ScriptOptions := do
  let o ← o.takeEntries l.entries
  o.passUnless l.stop

variable (read : ArgumentReader)

def takeAttribute (o : ScriptOptions) (a : Attribute) : Except Problem ScriptOptions :=
  if !a.isScript then .ok o
  else
    match a.form with
    | .bare => .error .missingParentheses
    | .value _ => .error .valueForParentheses
    | .list tokens => o.takeArguments (read tokens)

def takeAttributes (o : ScriptOptions) : List Attribute → Except Problem ScriptOptions
  | [] => .ok o
  | a :: as => do
    let o ← o.takeAttribute read a
    o.takeAttributes as

def ofAttributes (as : List Attribute) : Except Problem ScriptOptions :=
  empty.takeAttributes read as

end ScriptOptions

end ScriptBridge.Schema
