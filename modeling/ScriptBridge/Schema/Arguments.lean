/-!
Arguments of attributes. An attribute keeps them as tokens. Reading them as a list of entries is the
work of a reader, which may be any; all that is used of an entry is what it answers when it is asked
for its key, for its value and for its end.
-/
namespace ScriptBridge.Schema

/-- A token of a source text. Literals of strings are known by their values, and tokens between
delimiters are one token. -/
inductive Token where
  | word (text : String)
  | text (value : String)
  | literal (spelling : String)
  | mark (char : Char) (joint : Bool)
  | group (spelling : String)
  deriving DecidableEq

/-- An entry of a list of arguments. Where something else stands than what is asked for, the answer
is the message for that. -/
structure Entry where
  /-- The key, if it is a single word. -/
  key? : Option String
  /-- The string behind an equals sign. -/
  value : Except String String
  afterKey : Option String
  afterValue : Option String

structure ArgumentList where
  entries : List Entry
  stop : Option String

abbrev ArgumentReader := List Token → ArgumentList

end ScriptBridge.Schema
