import ScriptBridge.Settings.CommandLine

/-!
A parser for command lines. It goes through the tokens from left to right up to the first problem.
The value of an option in a token of its own is taken in when the next flag is recognised or the
line ends, so a token that is wrong by itself is reported first.
-/
namespace ScriptBridge.CommandLine

/-- A token of the line. Flags carry the text behind their first equals sign. -/
inductive Token where
  | terminator
  | option (long : String) (attached : Option String)
  | switch (long : String) (attached : Option String)
  | unknown
  | plain (text : String)
  deriving DecidableEq

def splitEquals (s : List Char) : List Char × Option String :=
  match s.dropWhile (· ≠ '=') with
  | [] => (s, none)
  | _ :: value => (s.takeWhile (· ≠ '='), some (String.ofList value))

def Token.ofText (c : Command) (text : String) : Token :=
  match text.toList with
  | ['-', '-'] => .terminator
  | '-' :: '-' :: flag =>
    let (name, attached) := splitEquals flag
    let long := String.ofList name
    if long ∈ c.options then .option long attached
    else if long ∈ c.switches then .switch long attached
    else .unknown
  | '-' :: _ :: _ => .unknown
  | _ => .plain text

/-- An option whose value is not taken in yet, or has not been seen yet. -/
inductive Pending where
  | nothing
  | awaiting (long : String)
  | value (long text : String)
  deriving DecidableEq

/-- Takes in what is given, unless it is given already or has an empty value. -/
def take (given : List Given) (g : Given) : Except Problem (List Given) :=
  if given.any (·.long == g.long) then .error .argumentConflict
  else if g.value = some "" then .error .invalidValue
  else .ok (given ++ [g])

def settle (given : List Given) : Pending → Except Problem (List Given)
  | .nothing => .ok given
  | .awaiting _ => .error .invalidValue
  | .value long text => take given ⟨long, some text⟩

def scan (given : List Given) (pending : Pending) : List Token → Except Problem (List Given)
  | [] => settle given pending
  | .terminator :: rest =>
    if rest.isEmpty then settle given pending else .error .unknownArgument
  | .option long (some value) :: rest => do
    let given ← settle given pending
    let given ← take given ⟨long, some value⟩
    scan given .nothing rest
  | .option long none :: rest => do
    let given ← settle given pending
    scan given (.awaiting long) rest
  | .switch _ (some _) :: _ => .error .tooManyValues
  | .switch long none :: rest => do
    let given ← settle given pending
    let given ← take given ⟨long, none⟩
    scan given .nothing rest
  | .unknown :: _ => .error .unknownArgument
  | .plain text :: rest =>
    match pending with
    | .awaiting long => scan given (.value long text) rest
    | _ => .error .unknownArgument

def scanner : Parser := fun c argv => scan [] .nothing (argv.tail.map (Token.ofText c))

end ScriptBridge.CommandLine
