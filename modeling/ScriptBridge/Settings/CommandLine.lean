/-!
Command lines and the flags that are declared for them: `--script` with a value and
`--strict-decode` without one. Reading a line is the work of a parser for declared commands, which
may be any; only what is declared for it and what is made of its answer are fixed here.
-/
namespace ScriptBridge

namespace CommandLine

/-- The long names that a command declares. Options stand for paths, which are never empty, and
switches for nothing but themselves. -/
structure Command where
  options : List String
  switches : List String
  nodup : (options ++ switches).Nodup
  plain : ∀ long ∈ options ++ switches, long ≠ "" ∧ '=' ∉ long.toList

structure Given where
  long : String
  value : Option String
  deriving DecidableEq

inductive Problem where
  | unknownArgument
  | tooManyValues
  | invalidValue
  | argumentConflict
  deriving DecidableEq

def Problem.word : Problem → String
  | .unknownArgument => "UnknownArgument"
  | .tooManyValues => "TooManyValues"
  | .invalidValue => "InvalidValue"
  | .argumentConflict => "ArgumentConflict"

/-- A parser gives what stands on a line of a command, in order, or a problem of the line. -/
abbrev Parser := Command → List String → Except Problem (List Given)

end CommandLine

structure Flags where
  script : Option String
  strictDecode : Bool
  deriving DecidableEq

namespace Flags

def command : CommandLine.Command where
  options := ["script"]
  switches := ["strict-decode"]
  nodup := by decide
  plain := by decide

def ofGiven (gs : List CommandLine.Given) : Flags where
  script := (gs.find? (·.long == "script")).bind (·.value)
  strictDecode := gs.any (·.long == "strict-decode")

def parse (parser : CommandLine.Parser) (argv : List String) : Except CommandLine.Problem Flags :=
  (parser command argv).map ofGiven

end Flags

end ScriptBridge
