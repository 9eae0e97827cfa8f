import ScriptBridge.Schema.Attribute
import ScriptBridge.Schema.Signature

/-!
Items of an inline module. Nine kinds of them can be members of a native module; the others take
no part in it.
-/
namespace ScriptBridge.Schema

inductive ItemKind where
  | function (signature : Signature)
  | constant
  | static
  | struct
  | enum
  | union
  | alias
  | trait
  | module
  | use
  | impl
  | invocation
  | externCrate
  | foreignBlock
  | traitAlias
  | verbatim

namespace ItemKind

def isMember : ItemKind → Bool
  | .use | .impl | .invocation | .externCrate | .foreignBlock | .traitAlias | .verbatim => false
  | _ => true

end ItemKind

/-- An item. What it has inside and behind its name is kept as it is, beside the signature of a
function. -/
structure Item where
  kind : ItemKind
  name : String
  visibility : String
  attributes : List Attribute
  contents : List Token

namespace Item

def isPublic (i : Item) : Bool := i.visibility == "pub"

def wellPlaced (i : Item) : Except Problem Unit :=
  match i.kind with
  | .function signature => signature.wellPlaced
  | _ => .ok ()

/-- The item without script attributes, which only items that can be members lose. -/
def strip (i : Item) : Item :=
  if i.kind.isMember then { i with attributes := i.attributes.filter (!·.isScript) } else i

end Item

inductive MemberSchema where
  | function (schema : FunctionSchema)
  | constant (name : String)
  | type (name : String)
  | module (name : String)
  deriving DecidableEq

def Item.memberNamed (i : Item) (name : String) : Except Problem MemberSchema :=
  match i.kind with
  | .function signature => (signature.schema i.name name).map .function
  | .constant | .static => .ok (.constant name)
  | .module => .ok (.module name)
  | _ => .ok (.type name)

def Item.member? (read : ArgumentReader) (i : Item) : Except Problem (Option MemberSchema) :=
  if !i.kind.isMember || !i.isPublic then .ok none
  else do
    let options ← ScriptOptions.ofAttributes read i.attributes
    if options.skip then .ok none
    else (i.memberNamed (options.name.getD i.name)).map some

end ScriptBridge.Schema
