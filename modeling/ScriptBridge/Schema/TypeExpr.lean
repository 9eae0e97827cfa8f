import ScriptBridge.Schema.Error
import ScriptBridge.Text.Blank

/-!
Type expressions as they are written at parameters, and those among them that a parameter may
have: paths, shared references to plain `str`, invocations, and what only the compiler can read, in
any number of parentheses.
-/
namespace ScriptBridge.Schema

inductive TypeExpr where
  /-- A path by its text, with whatever arguments and qualifications it has. -/
  | path (text : String)
  | reference (lifetime : String) (mutable : Bool) (target : TypeExpr)
  | paren (inner : TypeExpr)
  /-- Delimiters that are not written but keep an expression together. -/
  | group (inner : TypeExpr)
  | tuple (items : List TypeExpr)
  | array (element : TypeExpr)
  | slice (element : TypeExpr)
  | pointer (mutable : Bool) (target : TypeExpr)
  | callable (input : TypeExpr)
  | implTrait (bound : String)
  | dynTrait (bound : String)
  | invocation (name : String)
  | never
  | infer
  /-- Tokens that are kept as they are, because no other form fits them. -/
  | verbatim (tokens : String)

inductive ParamType where
  | path (text : String)
  | textReference (lifetime : String)
  | invocation (name : String)
  | verbatim (tokens : String)
  | paren (inner : ParamType)
  deriving DecidableEq

def squeeze (s : String) : String := String.ofList (s.toList.filter fun c => !Text.isBlank c)

namespace TypeExpr

def isPlain (path name : String) : Bool := squeeze path == name

def isName (name : String) : TypeExpr → Bool
  | .path text => isPlain text name
  | _ => false

def param? : TypeExpr → Option ParamType
  | .paren inner => inner.param?.map .paren
  | .group inner => inner.param?
  | .reference lifetime mutable target =>
    if !mutable && target.isName "str" then some (.textReference lifetime) else none
  | .path text =>
    if isPlain text "bool" || isPlain text "char" then none else some (.path text)
  | .invocation name => some (.invocation name)
  | .verbatim tokens => some (.verbatim tokens)
  | _ => none

end TypeExpr

def ParamType.text : ParamType → String
  | .path text => squeeze text
  | .textReference lifetime => "&" ++ squeeze lifetime ++ "str"
  | .invocation name => squeeze name ++ "!()"
  | .verbatim tokens => squeeze tokens
  | .paren inner => "(" ++ inner.text ++ ")"

end ScriptBridge.Schema
