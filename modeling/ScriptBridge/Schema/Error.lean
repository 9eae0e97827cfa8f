/-!
What can be wrong with a declared item: with its attributes, with its signature, or with the way
that it is used.
-/
namespace ScriptBridge.Schema

inductive Problem where
  | moduleArguments
  | missingBody
  | misplacedReceiver
  | repeatedReceiver
  | missingParentheses
  | valueForParentheses
  /-- Arguments that do not go on as they should, with the message of their reader. -/
  | malformed (message : String)
  | expectedEquals
  | expectedString
  | expectedIdentifier
  | keyword (word : String)
  | unknownScriptKey (key : String)
  | unknownFunctionKey (key : String)
  | generic
  | async
  | variadic
  | receiver
  | implTrait
  | unsupportedType
  deriving DecidableEq

def Problem.message : Problem → String
  | .moduleArguments => "#[native_module] takes no arguments"
  | .missingBody => "#[native_module] needs an inline module body"
  | .misplacedReceiver => "unexpected method receiver"
  | .repeatedReceiver => "unexpected second method receiver"
  | .missingParentheses => "expected attribute arguments in parentheses: #[script(...)]"
  | .valueForParentheses => "expected parentheses: #[script(...)]"
  | .malformed message => message
  | .expectedEquals => "expected `=`"
  | .expectedString => "expected string literal"
  | .expectedIdentifier => "expected identifier"
  | .keyword word => "expected identifier, found keyword `" ++ word ++ "`"
  | .unknownScriptKey key => "unknown script attribute: " ++ key
  | .unknownFunctionKey key => "unknown function attribute: " ++ key
  | .generic => "script-bound functions cannot be generic"
  | .async => "script-bound functions cannot be async"
  | .variadic => "script-bound functions cannot be variadic"
  | .receiver => "script-bound functions cannot take `self`"
  | .implTrait => "script-bound functions cannot take `impl Trait` parameters"
  | .unsupportedType =>
    "unsupported parameter type: script arguments decode to integers, `f32`, `f64`, `&str` or " ++
      "`String`"

end ScriptBridge.Schema
