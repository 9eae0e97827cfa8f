import ScriptBridge.Schema.Item

/-!
Expansion of annotated modules and functions. A module lists its members and gets three items
more, one of which stands for it as a type; a function gets a companion that yields its schema.
-/
namespace ScriptBridge.Schema

/-- What is known of an item that the expansion adds: its kind, its name and the paths of its
attributes. -/
structure Outline where
  kind : String
  name : String
  attributes : List String
  deriving DecidableEq

/-- A module after its expansion: its members, its own items and those that are put behind them. -/
structure ModuleExpansion where
  members : List MemberSchema
  items : List Item
  added : List Outline

def addedItems : List Outline := [
  ⟨"fn", "__declarations", ["doc"]⟩,
  ⟨"struct", "Exports", ["doc"]⟩,
  ⟨"impl", "Exports", []⟩]

section Module

variable (read : ArgumentReader)

def members : List Item → Except Problem (List MemberSchema)
  | [] => .ok []
  | i :: is => do
    let m ← i.member? read
    let ms ← members is
    .ok (m.toList ++ ms)

def expandItems (items : List Item) : Except Problem ModuleExpansion := do
  let ms ← members read items
  .ok ⟨ms, items.map Item.strip, addedItems⟩

/-- Expands a module. Its annotation takes no arguments, and its items must be readable. -/
def expandModule (arguments : String) (items? : Option (List Item)) :
    Except Problem ModuleExpansion :=
  if Text.trim arguments.toList ≠ [] then .error .moduleArguments
  else
    match items? with
    | none => .error .missingBody
    | some items => do
      items.forM Item.wellPlaced
      expandItems read items

end Module

inductive Literal where
  | string (s : String)
  | other
  deriving DecidableEq

structure Meta where
  key : String
  value : Option Literal
  deriving DecidableEq

def Meta.ident? (m : Meta) : Option String :=
  if m.key.toList.contains ':' then none else some m.key

/-- The words that cannot be keys, because the language keeps them for itself. -/
def reservedWords : List String := [
  "_", "abstract", "as", "async", "await", "become", "box", "break", "const", "continue",
  "crate", "do", "dyn", "else", "enum", "extern", "false", "final", "fn", "for", "if", "impl",
  "in", "let", "loop", "macro", "match", "mod", "move", "mut", "override", "priv", "pub", "ref",
  "return", "Self", "self", "static", "struct", "super", "trait", "true", "try", "type",
  "typeof", "unsafe", "unsized", "use", "virtual", "where", "while", "yield"]

def readPair (m : Meta) : Except Problem (String × String) :=
  let first := String.ofList (m.key.toList.takeWhile (· ≠ ':'))
  if first = "" then .error .expectedIdentifier
  else if first ∈ reservedWords then .error (.keyword first)
  else
    match m.ident?, m.value with
    | some key, some (.string value) => .ok (key, value)
    | some _, some .other => .error .expectedString
    | _, _ => .error .expectedEquals

def lastName (name : Option String) : List (String × String) → Except Problem (Option String)
  | [] => .ok name
  | (key, value) :: rest =>
    if key = "name" then lastName (some value) rest else .error (.unknownFunctionKey key)

/-- The script name that the arguments of a function annotation give. All entries are read before
any key is looked at. -/
def functionName (arguments : List Meta) : Except Problem (Option String) := do
  let pairs ← arguments.mapM readPair
  lastName none pairs

def plainIdentifier (name : String) : String :=
  match name.toList with
  | 'r' :: '#' :: rest => String.ofList rest
  | _ => name

structure FunctionItem where
  name : String
  visibility : String
  attributes : List Attribute
  signature : Signature
  contents : List Token

/-- An annotated function, which stays as it is, and the companion that yields its schema. -/
structure FunctionExpansion where
  annotated : FunctionItem
  companion : String
  visibility : String
  schema : FunctionSchema

def expandFunction (arguments : List Meta) (f : FunctionItem) :
    Except Problem FunctionExpansion := do
  let name ← functionName arguments
  f.signature.wellPlaced
  let schema ← f.signature.schema f.name (name.getD f.name)
  .ok ⟨f, "__scriptbind_" ++ plainIdentifier f.name ++ "_meta", f.visibility, schema⟩

end ScriptBridge.Schema
